import CloudAccess.Proofs.Provider.Calls

/-!
# Calls and answers

A lookup of a permission set and a walk through the accounts make one call after
another, and what they ask next depends on the answers.  They are followed here
with a directory that may answer anything, and the same call differently when it
is made again.

* `Surroundings` are what a task meets in one turn, and `Call.reply` is how the
  call under way ends in that turn, if it does.  `Call.calls_turn` says when a
  call is written down.
* `Inquirer` makes calls one after another, and `Dialogue` keeps what was asked
  and heard.
* `PagesLinked` are the answers of a finite chain of pages, and `pageCalls` are
  the calls for them.  `PagesLinked.exists_rest` says that who has heard pages
  with a next one has not come to the end of such a chain.
-/

namespace CloudAccess

/-- What a task meets in a turn.  The directory is the one that answers in that
turn; the next turn may meet another. -/
structure Surroundings where
  directory : Directory
  world : DirectoryWorld
  situation : Situation

namespace Call

variable {α : Type}

/-- How a call ends in a turn, if it does. -/
def reply (credentials : Option Handle) (e : Surroundings) (c : Call α) :
    Option (Outcome α) :=
  match (c.turn credentials e.world e.situation).2 with
  | .done o => some o
  | .goOn _ | .cancels _ _ => none

/-- A call goes on as the call that it is, or it ends. -/
theorem reply_cases (credentials : Option Handle) (e : Surroundings)
    (c : Call α) :
    (∃ w c', c.turn credentials e.world e.situation = (w, .goOn c') ∧
        c.reply credentials e = none) ∨
      ∃ w o, c.turn credentials e.world e.situation = (w, .done o) ∧
        c.reply credentials e = some o := by
  have hcancels : ∀ w target c',
      c.turn credentials e.world e.situation ≠ (w, .cancels target c') := by
    intro w target c'
    unfold turn
    split <;> try split <;> try split
    all_goals simp
  unfold reply
  rcases hturn : c.turn credentials e.world e.situation with
    ⟨w, c' | ⟨target, c'⟩ | o⟩
  · exact .inl ⟨w, c', rfl, rfl⟩
  · exact absurd hturn (hcancels w target c')
  · exact .inr ⟨w, o, rfl, rfl⟩

/-- Whether a call at this stage has been made. -/
def Stage.isMade : Stage → Bool
  | begun => false
  | retrieving _ | pausing _ | yielding _ => true

/-- A call that has gone on has been made. -/
theorem Stage.Goes.isMade {credentials : Option Handle} {p p' : PlannedCache}
    {m : Moment} {stage stage' : Stage}
    (h : Goes credentials p m stage p' stage') : stage'.isMade = true := by
  cases h <;> rfl

/-- A call that has a plan is written down when it is made, and nothing else
is. -/
theorem calls_turn (credentials : Option Handle) (w : DirectoryWorld)
    (s : Situation) (c : Call α) :
    (c.turn credentials w s).1.calls =
      if c.plan.isOk && !c.stage.isMade then (s.moment.unit, c.name) :: w.calls
      else w.calls := by
  obtain ⟨name, plan, stage⟩ := c
  cases plan with
  | error e => rfl
  | ok p =>
    cases stage with
    | begun => cases credentials <;> rfl
    | retrieving i | pausing due =>
      simp only [turn]
      split <;> rfl
    | yielding round => rfl

end Call

/-! ## Dialogues -/

/-- A task that makes one call after another: what a turn of it comes to, the
call that it waits for, and how that call ends in a turn, if it does. -/
structure Inquirer (κ β ρ : Type) where
  turn : Surroundings → κ → Turn κ ρ
  name : κ → DirectoryCall
  reply : Surroundings → κ → Option β

/-- How far a task has come, the calls that it has decided on, and how those of
them that have ended did. -/
structure Dialogue (κ β ρ : Type) where
  task : κ ⊕ ρ
  asked : List DirectoryCall
  heard : List β := []

namespace Inquirer

variable {κ β ρ : Type} (q : Inquirer κ β ρ) {x : Dialogue κ β ρ}
  {e : Surroundings} {k k' : κ} {answer : β}

/-- A dialogue begins with a first call. -/
def start (k : κ) : Dialogue κ β ρ := { task := .inl k, asked := [q.name k] }

/-- A task takes a turn.  It decides on the next call in the turn in which it
hears the answer to the last one. -/
def exchange (x : Dialogue κ β ρ) (e : Surroundings) : Dialogue κ β ρ :=
  match x.task with
  | .inr _ => x
  | .inl k =>
    let heard := x.heard ++ (q.reply e k).toList
    match q.turn e k with
    | .goOn k' | .cancels _ k' =>
      { task := .inl k'
        asked := if (q.reply e k).isSome then x.asked ++ [q.name k']
          else x.asked
        heard := heard }
    | .done r => { x with task := .inr r, heard := heard }

/-- A task takes some turns. -/
def after (x : Dialogue κ β ρ) (turns : List Surroundings) : Dialogue κ β ρ :=
  turns.foldl q.exchange x

theorem after_append (x : Dialogue κ β ρ) (turns later : List Surroundings) :
    q.after x (turns ++ later) = q.after (q.after x turns) later :=
      List.foldl_append

theorem after_concat (x : Dialogue κ β ρ) (turns : List Surroundings)
    (e : Surroundings) :
    q.after x (turns ++ [e]) = q.exchange (q.after x turns) e :=
      q.after_append x turns [e]

/-- A task that has ended says nothing more. -/
theorem exchange_of_ended {r : ρ} (htask : x.task = .inr r) :
    q.exchange x e = x := by
  unfold exchange
  rw [htask]

/-- The call under way goes on. -/
theorem exchange_of_waits (htask : x.task = .inl k)
    (hturn : q.turn e k = .goOn k') (hreply : q.reply e k = none) :
    q.exchange x e = { x with task := .inl k' } := by
  simp [exchange, htask, hturn, hreply]

/-- The call under way ends, and the task decides on the next one. -/
theorem exchange_of_asks (htask : x.task = .inl k)
    (hturn : q.turn e k = .goOn k') (hreply : q.reply e k = some answer) :
    q.exchange x e = ⟨.inl k', x.asked ++ [q.name k'],
      x.heard ++ [answer]⟩ := by
  simp [exchange, htask, hturn, hreply]

/-- The call under way ends, and the task with it. -/
theorem exchange_of_ends {r : ρ} (htask : x.task = .inl k)
    (hturn : q.turn e k = .done r) (hreply : q.reply e k = some answer) :
    q.exchange x e = ⟨.inr r, x.asked, x.heard ++ [answer]⟩ := by
  simp [exchange, htask, hturn, hreply]

/-- The call under way ends, and the task decides on the next one unless it is
stopped. -/
theorem exchange_of_asks_unless {r : ρ} {stopped : Bool}
    (htask : x.task = .inl k)
    (hturn : q.turn e k = if stopped then .done r else .goOn k')
    (hreply : q.reply e k = some answer) :
    q.exchange x e =
      if stopped then ⟨.inr r, x.asked, x.heard ++ [answer]⟩
      else ⟨.inl k', x.asked ++ [q.name k'], x.heard ++ [answer]⟩ := by
  cases stopped with
  | true => exact q.exchange_of_ends htask hturn hreply
  | false => exact q.exchange_of_asks htask hturn hreply

end Inquirer

/-! ## Chains of pages -/

/-- The token of the page after an answer. -/
def Outcome.token {α : Type} (next : α → Option String) :
    Outcome α → Option String
  | .value page => next page
  | .failed _ | .crashed => none

/-- The answers of a finite chain of pages: a page that is not the last one has
a token for the next, and the last one has none.  Any call may fail. -/
inductive PagesLinked {α : Type} (next : α → Option String) :
    List (Outcome α) → Prop
  | last {o : Outcome α} (h : ∀ page, o = .value page → next page = none) :
      PagesLinked next [o]
  | more {o : Outcome α} {rest : List (Outcome α)}
      (h : ∀ page, o = .value page → (next page).isSome = true)
      (hrest : PagesLinked next rest) :
      PagesLinked next (o :: rest)

/-- The calls for the pages of a chain: the first one without a token, and each
other one with the token of the page before. -/
def pageCalls {α : Type} (ask : Option String → DirectoryCall)
    (next : α → Option String) (answers : List (Outcome α)) :
    List DirectoryCall :=
  (none :: answers.map (·.token next)).map ask

section Pages

variable {α : Type} {next : α → Option String} {answers rest : List (Outcome α)}
  {pages : List α} {o : Outcome α}

theorem Chain.pagesLinked {call : Nat → Option String → Outcome α} {k : Nat}
    {token : Option String} (h : Chain call next k token answers) :
    PagesLinked next answers := by
  induction h with
  | last hlast => exact .last hlast
  | @more k token page rest hvalue hnext _ ih =>
    refine .more (fun page' hpage => ?_) ih
    rw [hvalue] at hpage
    injection hpage with hpage
    exact hpage ▸ hnext

/-- A page without a next one is the last of its chain. -/
theorem PagesLinked.eq_nil_of_none {page : α}
    (h : PagesLinked next (.value page :: rest)) (hnone : next page = none) :
    rest = [] := by
  cases h with
  | last => rfl
  | more hsome =>
    have hnext := hsome page rfl
    rw [hnone] at hnext
    cases hnext

/-- After a page with a next one the rest is a chain. -/
theorem PagesLinked.tail {page : α} (h : PagesLinked next (.value page :: rest))
    (hsome : (next page).isSome = true) : PagesLinked next rest := by
  cases h with
  | last hlast =>
    rw [hlast page rfl] at hsome
    cases hsome
  | more _ hrest => exact hrest

/-- A chain that is cut off by a call that brings no page is a chain. -/
theorem PagesLinked.cut {before after : List (Outcome α)} {planned : Outcome α}
    (h : PagesLinked next (before ++ planned :: after))
    (ho : o.isValue = false) : PagesLinked next (before ++ [o]) := by
  induction before with
  | nil =>
    refine .last fun page hpage => ?_
    rw [hpage] at ho
    cases ho
  | cons first before ih =>
    generalize hrest : before ++ planned :: after = rest at h ih
    rw [List.cons_append, hrest] at h
    cases h with
    | last => simp at hrest
    | more hsome hlinked => exact .more hsome (ih hlinked)

/-- Pages that have a next one are not the whole of a chain: the rest is a chain
again. -/
theorem PagesLinked.exists_rest (h : PagesLinked next answers)
    (hheard : pages.map .value <+: answers)
    (hnext : ∀ page ∈ pages, (next page).isSome = true) :
    ∃ rest, answers = pages.map .value ++ rest ∧ PagesLinked next rest := by
  obtain ⟨rest, rfl⟩ := hheard
  refine ⟨rest, rfl, ?_⟩
  induction pages with
  | nil => exact h
  | cons page pages ih =>
    exact ih (fun q hq => hnext q (List.mem_cons_of_mem _ hq))
      (h.tail (hnext page List.mem_cons_self))

variable (ask : Option String → DirectoryCall) (next)

theorem length_pageCalls (answers : List (Outcome α)) :
    (pageCalls ask next answers).length = answers.length + 1 := by
  simp [pageCalls]

/-- After one more page the next one is asked for with its token. -/
theorem pageCalls_concat (answers : List (Outcome α)) (page : α) :
    pageCalls ask next (answers ++ [.value page]) =
      pageCalls ask next answers ++ [ask (next page)] := by
  simp [pageCalls, Outcome.token]

/-- Who has heard the first answers has made the first calls. -/
theorem pageCalls_prefix {heard : List (Outcome α)} {n : Nat}
    (hheard : heard <+: answers) (hlt : heard.length < n) :
    pageCalls ask next heard <+: (pageCalls ask next answers).take n := by
  obtain ⟨rest, rfl⟩ := hheard
  refine List.prefix_take_iff.2
    ⟨⟨(rest.map (·.token next)).map ask, by simp [pageCalls]⟩, ?_⟩
  rw [length_pageCalls]
  exact hlt

end Pages

end CloudAccess
