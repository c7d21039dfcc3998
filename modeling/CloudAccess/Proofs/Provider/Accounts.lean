import CloudAccess.Proofs.Provider.Alone
import CloudAccess.Proofs.Provider.Desk
import CloudAccess.Proofs.Provider.Dialogue
import CloudAccess.Proofs.Provider.Listing

/-!
# The accounts, page by page

A walk through the accounts asks for one page after another, and ends with the
options of all of them or with the first call that brings no page.

* `AccountsEnd` says what the answers come to, and after how many calls.
* `Stands` lists the places that a walk can be at, with what it has asked and
  heard there, and `Stands.exchange` says that a turn leads from one of them to
  another.
* `Walks` is how a walk has to do with the answers that it gets.
* `Converses` follows a walk by itself over planned pages, and `winds` says that
  it comes to its end.
* `walks_every_page` puts these together.
-/

namespace CloudAccess

/-- The options of the accounts on some pages. -/
def optionsOf (pages : List AccountPage) : List ArgOption :=
  pages.flatMap fun page => page.accounts.map Account.option

/-- What the answers on the accounts come to, and after how many calls. -/
inductive AccountsEnd :
    List (Outcome AccountPage) → Nat →
      Option (Except AccessError (List ArgOption)) → Prop
  | complete (pages : List AccountPage) :
      AccountsEnd (pages.map .value) pages.length (some (.ok (optionsOf pages)))
  | failure (pages : List AccountPage) (e : RemoteError)
      (later : List (Outcome AccountPage)) :
      AccountsEnd (pages.map .value ++ .failed e :: later) (pages.length + 1)
        (some (.error (.enumeration (.pageFetch (pages.length + 1) e))))
  | crash (pages : List AccountPage) (later : List (Outcome AccountPage)) :
      AccountsEnd (pages.map .value ++ .crashed :: later)
        (pages.length + 1) none

/-- Answers are pages up to the first one that is none. -/
theorem pages_unique {pages pages' : List AccountPage}
    {o o' : Outcome AccountPage} {later later' : List (Outcome AccountPage)}
    (ho : o.isValue = false) (ho' : o'.isValue = false)
    (h : pages.map .value ++ o :: later = pages'.map .value ++ o' :: later') :
    pages = pages' ∧ o = o' := by
  induction pages generalizing pages' with
  | nil =>
    cases pages' with
    | nil => exact ⟨rfl, (List.cons.inj h).1⟩
    | cons page pages' =>
      obtain rfl : o = .value page := (List.cons.inj h).1
      cases ho
  | cons page pages ih =>
    cases pages' with
    | nil =>
      obtain rfl : .value page = o' := (List.cons.inj h).1
      cases ho'
    | cons page' pages' =>
      obtain ⟨hpage, hrest⟩ := List.cons.inj h
      obtain ⟨rfl, rfl⟩ := ih hrest
      exact ⟨congrArg (· :: pages) (Outcome.value.inj hpage), rfl⟩

/-- Answers that are all pages do not hold one that is none. -/
theorem map_value_ne {pages pages' : List AccountPage} {o : Outcome AccountPage}
    {later : List (Outcome AccountPage)} (ho : o.isValue = false) :
    pages.map .value ≠ pages'.map .value ++ o :: later := by
  intro h
  have hin : o ∈ pages.map Outcome.value := by simp [h]
  obtain ⟨page, _, rfl⟩ := List.mem_map.1 hin
  cases ho

/-- The answers come to one thing only. -/
theorem AccountsEnd.unique {answers : List (Outcome AccountPage)} {n n' : Nat}
    {r r' : Option (Except AccessError (List ArgOption))}
    (h : AccountsEnd answers n r) (h' : AccountsEnd answers n' r') :
    n = n' ∧ r = r' := by
  cases h with
  | complete pages =>
    generalize hsame : pages.map Outcome.value = answers at h'
    cases h' with
    | complete pages' =>
      obtain rfl :=
        List.map_injective_iff.2 (fun _ _ => Outcome.value.inj) hsame
      exact ⟨rfl, rfl⟩
    | failure | crash => exact absurd hsame (map_value_ne rfl)
  | failure pages e later =>
    generalize hsame : pages.map Outcome.value ++ .failed e :: later =
      answers at h'
    cases h' with
    | complete => exact absurd hsame.symm (map_value_ne rfl)
    | failure pages' e' later' =>
      obtain ⟨rfl, he⟩ := pages_unique rfl rfl hsame
      obtain rfl := Outcome.failed.inj he
      exact ⟨rfl, rfl⟩
    | crash => cases (pages_unique rfl rfl hsame).2
  | crash pages later =>
    generalize hsame : pages.map Outcome.value ++ .crashed :: later =
      answers at h'
    cases h' with
    | complete => exact absurd hsame.symm (map_value_ne rfl)
    | failure => cases (pages_unique rfl rfl hsame).2
    | crash pages' later' =>
      obtain ⟨rfl, _⟩ := pages_unique rfl rfl hsame
      exact ⟨rfl, rfl⟩

namespace Directory

variable (d : Directory)

/-- Whether a call after `k` others is for a page that is planned, if it is for
a page of accounts. -/
def plans (k : Nat) : DirectoryCall → Bool
  | .accounts token => (d.accounts k token).isOk
  | .permissionSets _ | .describe _ | .tags _ _ => true

/-- Those of the calls of a walk that are written down. -/
def written (calls : List DirectoryCall) : List DirectoryCall :=
  (calls.zipIdx.filter fun p => d.plans p.2 p.1).map Prod.fst

theorem written_concat (calls : List DirectoryCall) (c : DirectoryCall) :
    d.written (calls ++ [c]) =
      d.written calls ++ if d.plans calls.length c then [c] else [] := by
  cases hplans : d.plans calls.length c <;>
    simp [written, List.zipIdx_append, hplans]

end Directory

namespace AccountWalk

/-! ## Walks as dialogues -/

/-- The walk through the accounts as a task that makes calls. -/
def inquirer (credentials : Option Handle) :
    Inquirer AccountsUnderWay (Outcome AccountPage)
      (Option (Except AccessError (List ArgOption))) where
  turn e k := (e.directory.walkTurn credentials e.world e.situation k).2
  name k := k.call.name
  reply e k := k.call.reply credentials e

/-- A walk with what it has asked and heard. -/
abbrev Talk :=
  Dialogue AccountsUnderWay (Outcome AccountPage)
    (Option (Except AccessError (List ArgOption)))

/-- The walk through the accounts after some turns. -/
def talk (credentials : Option Handle) (d : Directory)
    (turns : List Surroundings) : Talk :=
  (inquirer credentials).after ((inquirer credentials).start d.startWalk) turns

/-- The calls for the pages, one after another. -/
def calls (answers : List (Outcome AccountPage)) : List DirectoryCall :=
  pageCalls .accounts (·.nextToken) answers

/-- What a walk ends in with a last answer. -/
def endWith (w : AccountWalk) :
    Outcome AccountPage → Option (Except AccessError (List ArgOption))
  | .value page => some (.ok (w.options ++ page.accounts.map Account.option))
  | .failed e => some (.error (w.error e))
  | .crashed => none

variable {credentials : Option Handle} {e : Surroundings} {x : Talk}
  {answers : List (Outcome AccountPage)} {pages : List AccountPage}

/-- What an answer leads to in a walk. -/
theorem walkTurn_of_done {d : Directory} {w w' : DirectoryWorld} {s : Situation}
    {k : AccountsUnderWay} {o : Outcome AccountPage}
    (hturn : k.call.turn credentials w s = (w', .done o)) :
    (∀ page, o = .value page → page.nextToken = none) ∧
        d.walkTurn credentials w s k = (w', .done (k.walk.endWith o)) ∨
      ∃ page, o = .value page ∧ page.nextToken.isSome = true ∧
        d.walkTurn credentials w s k = (w', .goOn
          ⟨⟨k.walk.pages + 1,
              k.walk.options ++ page.accounts.map Account.option⟩,
            d.listAccounts k.walk.pages page.nextToken⟩) := by
  unfold Directory.walkTurn
  rw [hturn]
  cases o with
  | failed err | crashed => exact .inl ⟨fun _ => nofun, rfl⟩
  | value page =>
    cases hnext : page.nextToken with
    | none =>
      exact .inl ⟨by rintro _ ⟨⟩; exact hnext, by simp [afterPage,
        hnext, endWith]⟩
    | some token =>
      exact .inr ⟨page, rfl, by rw [hnext]; rfl, by simp [afterPage, hnext]⟩

/-- A turn of a walk: its call goes on, it ends with an answer, or it asks for
the page after the one that it has got. -/
theorem exchange_walking {k : AccountsUnderWay} (htask : x.task = .inl k) :
    (∃ call', (inquirer credentials).exchange x e =
      { x with task := .inl ⟨k.walk, call'⟩ }) ∨
      (∃ answer, (∀ page, answer = .value page → page.nextToken = none) ∧
        (inquirer credentials).exchange x e =
          ⟨.inr (k.walk.endWith answer), x.asked, x.heard ++ [answer]⟩) ∨
      ∃ page : AccountPage, page.nextToken.isSome = true ∧
        (inquirer credentials).exchange x e =
          ⟨.inl ⟨⟨k.walk.pages + 1,
            k.walk.options ++ page.accounts.map Account.option⟩,
              e.directory.listAccounts k.walk.pages page.nextToken⟩,
            x.asked ++ [.accounts page.nextToken],
              x.heard ++ [.value page]⟩ := by
  rcases k.call.reply_cases credentials e with
    ⟨w, c', hturn, hreply⟩ | ⟨w, o, hturn, hreply⟩
  · refine .inl ⟨c', Inquirer.exchange_of_waits _ htask ?_ hreply⟩
    simp [inquirer, Directory.walkTurn, hturn]
  · rcases walkTurn_of_done (d := e.directory) hturn with
      ⟨hlast, hends⟩ | ⟨page, rfl, hnext, hasks⟩
    · exact .inr (.inl ⟨o, hlast,
        Inquirer.exchange_of_ends _ htask (congrArg Prod.snd hends) hreply⟩)
    · exact .inr (.inr ⟨page, hnext,
        Inquirer.exchange_of_asks _ htask (congrArg Prod.snd hasks) hreply⟩)

/-! ## Where a walk stands -/

/-- The places that a walk can be at, with what it has asked and heard there. -/
inductive Stands (x : Talk) : Prop
  | walking {pages : List AccountPage} {call : Call AccountPage}
      (hnext : ∀ q ∈ pages, q.nextToken.isSome = true)
      (htask : x.task = .inl ⟨⟨pages.length + 1, optionsOf pages⟩, call⟩)
      (hasked : x.asked = calls (pages.map .value))
      (hheard : x.heard = pages.map .value)
  | ended {pages : List AccountPage} {answer : Outcome AccountPage}
      (hnext : ∀ q ∈ pages, q.nextToken.isSome = true)
      (hlast : ∀ page, answer = .value page → page.nextToken = none)
      (htask : x.task = .inr
        (endWith ⟨pages.length + 1, optionsOf pages⟩ answer))
      (hasked : x.asked = calls (pages.map .value))
      (hheard : x.heard = pages.map .value ++ [answer])

/-- A turn leads from one of these places to another. -/
theorem Stands.exchange (h : Stands x) :
    Stands ((inquirer credentials).exchange x e) := by
  cases h with
  | ended hnext hlast htask hasked hheard =>
    rw [Inquirer.exchange_of_ended _ htask]
    exact .ended hnext hlast htask hasked hheard
  | @walking pages call hnext htask hasked hheard =>
    rcases exchange_walking htask with
      ⟨call', heq⟩ | ⟨answer, hlast, heq⟩ | ⟨page, hpage, heq⟩ <;>
      rw [heq, hasked, hheard]
    · exact .walking hnext rfl rfl rfl
    · exact .ended hnext hlast rfl rfl rfl
    · refine @Stands.walking _ (pages ++ [page])
        (e.directory.listAccounts (pages.length + 1) page.nextToken) ?_ ?_
        (by simp [calls, pageCalls_concat]) (by simp)
      · simpa [or_imp, forall_and] using ⟨hnext, hpage⟩
      · simp [optionsOf]

theorem stands_talk (credentials : Option Handle) (d : Directory)
    (turns : List Surroundings) : Stands (talk credentials d turns) := by
  induction turns using List.reverseRecOn with
  | nil => exact @Stands.walking _ [] _ (fun _ => nofun) rfl rfl rfl
  | append_singleton turns e ih =>
    rw [talk, Inquirer.after_concat]
    exact ih.exchange

/-! ## Walks and what they hear -/

/-- How a walk has to do with the answers on the accounts, which come to `r`
after `n` calls. -/
structure Walks (answers : List (Outcome AccountPage)) (n : Nat)
    (r : Option (Except AccessError (List ArgOption))) (x : Talk) : Prop where
  /-- The calls are made in their order, and none after the last of them. -/
  asked : x.asked <+: (calls answers).take n
  /-- At most one call is under way. -/
  count : x.asked.length = x.heard.length + if x.task.isLeft then 1 else 0
  /-- The last answer ends the walk. -/
  decided : x.heard.length = n → x.task = .inr r
  /-- Nothing else ends it. -/
  uncut : x.task.isRight = true → x.heard.length = n

/-- An answer that is no page ends the walk, and so does a page without a next
one. -/
theorem accountsEnd_last (pages : List AccountPage) {o : Outcome AccountPage}
    {later : List (Outcome AccountPage)}
    (hlinked : PagesLinked (·.nextToken) (o :: later))
    (hlast : ∀ page, o = .value page → page.nextToken = none) :
    AccountsEnd (pages.map .value ++ o :: later) (pages.length + 1)
      (endWith ⟨pages.length + 1, optionsOf pages⟩ o) := by
  cases o with
  | failed e => exact .failure pages e later
  | crashed => exact .crash pages later
  | value page =>
    obtain rfl := hlinked.eq_nil_of_none (hlast page rfl)
    simpa [endWith, optionsOf] using AccountsEnd.complete (pages ++ [page])

/-- What follows some pages comes to something with them, after one call more at
least. -/
theorem exists_accountsEnd (hlinked : PagesLinked (·.nextToken) answers)
    (pages : List AccountPage) :
    ∃ n r, AccountsEnd (pages.map .value ++ answers) n r ∧
      pages.length < n := by
  induction hlinked generalizing pages with
  | last hlast =>
    exact ⟨_, _, accountsEnd_last pages (.last hlast) hlast, Nat.lt_succ_self _⟩
  | @more o rest hsome hrest ih =>
    cases o with
    | failed e => exact ⟨_, _, .failure pages e rest, Nat.lt_succ_self _⟩
    | crashed => exact ⟨_, _, .crash pages rest, Nat.lt_succ_self _⟩
    | value page =>
      obtain ⟨n, r, hends, hlt⟩ := ih (pages ++ [page])
      refine ⟨n, r, by simpa using hends, ?_⟩
      rw [List.length_append] at hlt
      exact Nat.lt_of_succ_lt hlt

/-- Where a walk stands it has to do so with the answers that it gets. -/
theorem Stands.walks (h : Stands x)
    (hlinked : PagesLinked (·.nextToken) answers)
    (hheard : x.heard <+: answers) :
    ∃ n r, AccountsEnd answers n r ∧ Walks answers n r x := by
  cases h with
  | @walking pages call hnext htask hasked hpages =>
    rw [hpages] at hheard
    obtain ⟨rest, rfl, hrest⟩ := hlinked.exists_rest hheard hnext
    obtain ⟨n, r, hends, hlt⟩ := exists_accountsEnd hrest pages
    refine ⟨n, r, hends, ?_, ?_, ?_, ?_⟩
    · rw [hasked]
      exact pageCalls_prefix _ _ hheard (by rwa [List.length_map])
    · simp [hasked, calls, length_pageCalls, hpages, htask]
    · intro hall
      simp only [hpages, List.length_map] at hall
      omega
    · simp [htask]
  | @ended pages answer hnext hlast htask hasked hall =>
    rw [hall] at hheard
    obtain ⟨later, hsplit⟩ := hheard
    have hanswers : pages.map .value ++ answer :: later = answers := by
      simpa using hsplit
    have hpages : pages.map .value <+: answers := ⟨_, hanswers⟩
    obtain ⟨rest, hrest, hchain⟩ := hlinked.exists_rest hpages hnext
    obtain rfl := List.append_cancel_left (hanswers.trans hrest)
    refine ⟨_, _, hanswers ▸ accountsEnd_last pages hchain hlast, ?_, ?_,
      fun _ => htask, fun _ => by simp [hall]⟩
    · rw [hasked]
      exact pageCalls_prefix _ _ hpages (by simp)
    · simp [hasked, calls, length_pageCalls, hall, htask]

/-! ## Walks over planned pages -/

variable {d : Directory} {planned : List (Outcome AccountPage)}
  {earlier : List DirectoryCall} {t u : AccountsSolo} {k : AccountsUnderWay}

/-- The calls of a walk that have been made. -/
def made (x : Talk) (t : AccountsSolo) : List DirectoryCall :=
  if t.task.elim (·.call.stage.isMade) (fun _ => true) then x.asked
    else x.asked.dropLast

/-- The call under way is for the next one of the planned pages. -/
structure OnWay (d : Directory) (credentials : Option Handle)
    (planned : List (Outcome AccountPage)) (x : Talk) (k : AccountsUnderWay)
    (token : Option String) (rest : List (Outcome AccountPage)) : Prop where
  makes : Call.Makes credentials (d.listAccounts x.heard.length token) k.call
  chain : Chain d.accounts.answer (·.nextToken) x.heard.length token rest
  planned_eq : planned = x.heard ++ rest
  pages_eq : k.walk.pages = x.heard.length + 1
  last_asked : ∃ before : List DirectoryCall, before.length = x.heard.length ∧
    x.asked = before ++ [.accounts token]

/-- A walk by itself over planned pages, with what it has asked and heard, and
with the calls that were written down before it. -/
structure Converses (d : Directory) (credentials : Option Handle)
    (planned : List (Outcome AccountPage)) (earlier : List DirectoryCall)
    (x : Talk) (t : AccountsSolo) : Prop where
  task_eq : x.task = t.task
  onWay : ∀ k, t.task = .inl k →
    ∃ token rest, OnWay d credentials planned x k token rest
  ended : ∀ r, t.task = .inr r →
    ∃ before p o after, planned = before ++ p :: after ∧
    x.heard = before ++ [o] ∧ Ends credentials p o
  holds : credentials.isSome = true → ∀ k, t.task = .inl k →
    k.call.stage.Holds t.world.scene
  diary : t.world.calls.map Prod.snd = (d.written (made x t)).reverse ++ earlier

/-- What is left of a walk by itself: of the call under way, of those for the
pages to come, and its end. -/
def left (planned : List (Outcome AccountPage)) (t : AccountsSolo) : Nat :=
  t.task.elim (fun k => k.call.stage.left t.world.scene t.moment +
    11 * (planned.length - k.walk.pages) + 1) fun _ => 0

variable {token : Option String} {rest : List (Outcome AccountPage)}

/-- After a turn the call under way is written down, if its page is planned. -/
theorem Converses.diary_turn (h : Converses d credentials planned earlier x t)
    (htask : t.task = .inl k)
    (hway : OnWay d credentials planned x k token rest) (s : Situation) :
    (k.call.turn credentials t.world s).1.calls.map Prod.snd =
      (d.written x.asked).reverse ++ earlier := by
  obtain ⟨before, hlength, hasked⟩ := hway.last_asked
  have hname : k.call.name = .accounts token := hway.makes.name_eq
  have hplan : k.call.plan.isOk = d.plans before.length (.accounts token) := by
    rw [hway.makes.plan_eq, hlength]
    rfl
  have hdiary := h.diary
  simp only [made, htask, Sum.elim_inl] at hdiary
  rw [Call.calls_turn, hplan]
  cases hmade : k.call.stage.isMade with
  | true => simpa [hmade] using hdiary
  | false =>
    rw [hmade, if_neg Bool.false_ne_true, hasked, List.dropLast_concat]
      at hdiary
    rw [hasked, d.written_concat]
    cases hknown : d.plans before.length (.accounts token) with
    | true => simp [hname, hdiary]
    | false => simp [hdiary]

/-- The call under way goes on. -/
theorem Converses.goesOn (h : Converses d credentials planned earlier x t)
    (htask : t.task = .inl k)
    (hready : k.call.stage.ready t.world.scene t.moment = true)
    (hway : OnWay d credentials planned x k token rest) {c : Call AccountPage}
    {world : DirectoryWorld}
    (hmakes : Call.Makes credentials (d.listAccounts x.heard.length token) c)
    (hgoes : Call.Stage.Goes credentials t.world.scene t.moment k.call.stage
      world.scene c.stage)
    (hdiary : world.calls.map Prod.snd =
      (d.written x.asked).reverse ++ earlier) :
    Converses d credentials planned earlier { x with task := .inl ⟨k.walk, c⟩ }
      { t with world := world, task := .inl ⟨k.walk, c⟩ } where
  task_eq := rfl
  onWay k' hk' := by
    obtain rfl := Sum.inl.inj hk'
    exact ⟨token, rest, hmakes, hway.chain, hway.planned_eq, hway.pages_eq,
      hway.last_asked⟩
  ended r hr := by cases hr
  holds hsome k' hk' := by
    obtain rfl := Sum.inl.inj hk'
    exact hgoes.holds hready (h.holds hsome k htask)
  diary := by simpa [made, hgoes.isMade] using hdiary

/-- The last answer ends the walk. -/
theorem OnWay.ends (hway : OnWay d credentials planned x k token rest)
    {o : Outcome AccountPage}
    (ho : Ends credentials (d.accounts.answer x.heard.length token) o)
    (hdiary : t.world.calls.map Prod.snd =
      (d.written x.asked).reverse ++ earlier)
    (r : Option (Except AccessError (List ArgOption))) :
    Converses d credentials planned earlier ⟨.inr r, x.asked, x.heard ++ [o]⟩
      { t with task := .inr r } where
  task_eq := rfl
  onWay k' hk' := by cases hk'
  ended r' _ := by
    obtain ⟨after, rfl⟩ := hway.chain.exists_cons
    exact ⟨x.heard, _, o, after, hway.planned_eq, rfl, ho⟩
  holds _ k' hk' := by cases hk'
  diary := by simpa [made] using hdiary

/-- A page with a next one leads to the call for that. -/
theorem Converses.asks (h : Converses d credentials planned earlier x t)
    (htask : t.task = .inl k)
    (hway : OnWay d credentials planned x k token rest)
    (hover : k.call.stage.Unsupplied t.world.scene) {page : AccountPage}
    (hpage : d.accounts.answer x.heard.length token = .value page)
    (hnext : page.nextToken.isSome = true)
    (hdiary : t.world.calls.map Prod.snd =
      (d.written x.asked).reverse ++ earlier)
    (options : List ArgOption) :
    Converses d credentials planned earlier
      ⟨.inl ⟨⟨k.walk.pages + 1, options⟩,
        d.listAccounts k.walk.pages page.nextToken⟩,
        x.asked ++ [.accounts page.nextToken], x.heard ++ [.value page]⟩
      { t with
        task := .inl ⟨⟨k.walk.pages + 1, options⟩,
          d.listAccounts k.walk.pages page.nextToken⟩ } where
  task_eq := rfl
  onWay k' hk' := by
    obtain rfl := Sum.inl.inj hk'
    have hchain := hway.chain
    obtain ⟨later, rfl⟩ := hchain.exists_cons
    obtain ⟨before, hlength, hasked⟩ := hway.last_asked
    have hheard : (x.heard ++ [Outcome.value page]).length =
        x.heard.length + 1 := by simp
    refine ⟨page.nextToken, later, ?_, hheard ▸ hchain.tail hpage hnext, ?_, ?_,
      x.asked, ?_, rfl⟩
    · rw [hheard, ← hway.pages_eq]
      exact Call.makes_begun rfl
    · rw [hway.planned_eq, hpage]
      simp
    · simp [hway.pages_eq]
    · simp [hasked, hlength]
  ended r hr := by cases hr
  holds hsome k' hk' := by
    obtain rfl := Sum.inl.inj hk'
    exact Call.Stage.holds_begun (hover.free (h.holds hsome k htask))
  diary := by
    simpa [made, Directory.listAccounts, Call.Stage.isMade] using hdiary

/-- On its way a walk has a page before it for each call that it has made. -/
theorem OnWay.pages_le (h : OnWay d credentials planned x k token rest) :
    k.walk.pages ≤ planned.length := by
  have hpos := h.chain.length_pos
  rw [h.planned_eq, h.pages_eq, List.length_append]
  omega

/-- A turn is one of the dialogue, and leaves less to do. -/
theorem Converses.turn (h : Converses d credentials planned earlier x t)
    (htask : t.task = .inl k)
    (hready : k.call.stage.ready t.world.scene t.moment = true) :
    Converses d credentials planned earlier
        ((inquirer credentials).exchange x ⟨d, t.world, t.situation⟩)
        (t.step (d.walking credentials)) ∧
      left planned (t.step (d.walking credentials)) < left planned t := by
  obtain ⟨token, rest, hway⟩ := h.onWay k htask
  have hunder : x.task = .inl k := h.task_eq.trans htask
  have hdiary := h.diary_turn htask hway t.situation
  have heffect := Call.effect_turn hway.makes t.world t.situation
  have hstep {w : DirectoryWorld} {turned : Turn AccountsUnderWay _}
      (hturn : d.walkTurn credentials t.world t.situation k = (w, turned)) :
      (d.walking credentials).turn t.world t.situation k = (w, turned) := hturn
  rcases hturn : k.call.turn credentials t.world t.situation with ⟨w, turned⟩
  rw [hturn] at hdiary heffect
  cases heffect with
  | @goOn w c hmakes hgoes =>
    have hwalk : d.walkTurn credentials t.world t.situation k =
        (w, .goOn ⟨k.walk, c⟩) := by
      simp [Directory.walkTurn, hturn]
    have hnext : t.step (d.walking credentials) =
        { t with world := w, task := .inl ⟨k.walk, c⟩ } := by
      simp [Solo.step, htask, hstep hwalk]
    rw [hnext, Inquirer.exchange_of_waits _ hunder (congrArg Prod.snd hwalk)
      (by simp [inquirer, Call.reply, hturn])]
    have hless : c.stage.left w.scene t.moment <
        k.call.stage.left t.world.scene t.moment :=
      hgoes.left_lt hready
    refine ⟨h.goesOn htask hready hway hmakes hgoes hdiary, ?_⟩
    simp only [left, htask, Sum.elim_inl]
    omega
  | @done o hover ho =>
    have hreply : (inquirer credentials).reply ⟨d, t.world, t.situation⟩ k =
        some o := by
      simp [inquirer, Call.reply, hturn]
    rcases walkTurn_of_done (d := d) hturn with
      ⟨_, hwalk⟩ | ⟨page, rfl, hnext, hwalk⟩
    · have hended : t.step (d.walking credentials) =
          { t with task := .inr (k.walk.endWith o) } := by
        simp [Solo.step, htask, hstep hwalk]
      rw [hended, Inquirer.exchange_of_ends _ hunder
        (congrArg Prod.snd hwalk) hreply]
      refine ⟨hway.ends ho hdiary _, ?_⟩
      simp [left, htask]
    · have hasks : t.step (d.walking credentials) =
          { t with
            task := .inl
              ⟨⟨k.walk.pages + 1,
                k.walk.options ++ page.accounts.map Account.option⟩,
                d.listAccounts k.walk.pages page.nextToken⟩ } := by
        simp [Solo.step, htask, hstep hwalk]
      rw [hasks, Inquirer.exchange_of_asks _ hunder
        (congrArg Prod.snd hwalk) hreply]
      have hafter := h.asks htask hway hover ho.value hnext hdiary
        (k.walk.options ++ page.accounts.map Account.option)
      obtain ⟨_, _, hlater⟩ := hafter.onWay _ rfl
      have hpages := hlater.pages_le
      refine ⟨hafter, ?_⟩
      simp only [left, htask, Sum.elim_inl] at hpages ⊢
      have hten : (d.listAccounts k.walk.pages page.nextToken).stage.left
          t.world.scene t.moment = 10 := rfl
      omega

/-- A walk waits for its call. -/
theorem waitsOn (d : Directory) (credentials : Option Handle) :
    Solo.WaitsOn (d.walking credentials) (·.call.stage) where
  ready_eq w s k := Call.ready_eq w s k.call
  due_eq w s k := Call.due_eq w s k.call

/-- A step is a turn of the dialogue or lets it wait, and leaves less to do. -/
theorem Converses.step (h : Converses d credentials planned earlier x t)
    (hstep : (Solo.play (d.walking credentials)).Step t u) :
    (∃ turns : List Surroundings,
      (∀ e ∈ turns, e.directory = d ∧ e.situation.cancelled = false) ∧
        Converses d credentials planned earlier
          ((inquirer credentials).after x turns) u) ∧
      left planned u < left planned t := by
  obtain ⟨k, htask, ⟨hready, rfl⟩ | ⟨unit, hready, hdue, rfl⟩⟩ :=
    (waitsOn d credentials).step_cases hstep
  · obtain ⟨hnext, hless⟩ := h.turn htask hready
    exact ⟨⟨[⟨d, t.world, t.situation⟩], by simp [Solo.situation], hnext⟩,
      hless⟩
  · refine ⟨⟨[], by simp, h.task_eq, h.onWay, h.ended, h.holds, h.diary⟩, ?_⟩
    have hless := Call.Stage.left_lt_of_due hready hdue
    simp only [left, htask, Sum.elim_inl]
    omega

/-- Until a walk by itself has ended there is a step. -/
theorem Converses.exists_step (h : Converses d credentials planned earlier x t)
    (hunder : t.task.isRight = false) :
    ∃ u, (Solo.play (d.walking credentials)).Step t u := by
  rcases htask : t.task with k | r
  · obtain ⟨_, _, hway⟩ := h.onWay k htask
    exact (waitsOn d credentials).exists_step htask fun i hi =>
      h.holds (hway.makes.needs i hi) k htask
  · rw [htask] at hunder
    cases hunder

/-- Before its first turn a walk by itself has made no call. -/
theorem converses_start
    (hchain : Chain d.accounts.answer (·.nextToken) 0 none planned)
    {world : DirectoryWorld}
    (hidle : credentials.isSome = true → world.scene.Idle) :
    Converses d credentials planned (world.calls.map Prod.snd)
      (talk credentials d [])
      { world := world, task := .inl d.startWalk } where
  task_eq := rfl
  onWay k hk := by
    obtain rfl := Sum.inl.inj hk
    exact ⟨none, planned, Call.makes_begun rfl, hchain, rfl, rfl, [], rfl, rfl⟩
  ended r hr := by cases hr
  holds hsome k hk := by
    obtain rfl := Sum.inl.inj hk
    exact Call.Stage.holds_begun ((hidle hsome).supplied fun _ => id)
  diary := rfl

/-- A walk by itself that has taken turns of the dialogue over planned pages. -/
def Underway (d : Directory) (credentials : Option Handle)
    (planned : List (Outcome AccountPage)) (earlier : List DirectoryCall)
    (t : AccountsSolo) : Prop :=
  ∃ turns : List Surroundings,
    (∀ e ∈ turns, e.directory = d ∧ e.situation.cancelled = false) ∧
    Converses d credentials planned earlier (talk credentials d turns) t

/-- A walk by itself comes to its end. -/
theorem winds (d : Directory) (credentials : Option Handle)
    (planned : List (Outcome AccountPage)) (earlier : List DirectoryCall) :
    (Solo.play (d.walking credentials)).Winds
      (Underway d credentials planned earlier)
      (left planned) where
  keeps t u := by
    rintro ⟨turns, hturns, h⟩ hstep
    obtain ⟨⟨more, hmore, hnext⟩, _⟩ := h.step hstep
    refine ⟨turns ++ more, List.forall_mem_append.2 ⟨hturns, hmore⟩, ?_⟩
    rw [talk, Inquirer.after_append]
    exact hnext
  falls t u := by
    rintro ⟨_, _, h⟩ _ hstep
    exact (h.step hstep).2
  goesOn t := by
    rintro ⟨_, _, h⟩ hunder
    exact h.exists_step hunder

/-- The answers that come when such are planned: those, or, when calls need
credentials, the first of them and then a call that has got none. -/
inductive Comes (credentials : Option Handle)
    (planned : List (Outcome AccountPage)) :
    List (Outcome AccountPage) → Prop
  | planned : Comes credentials planned planned
  | cut {before after : List (Outcome AccountPage)} {p o : Outcome AccountPage}
      (hneeds : credentials.isSome = true)
      (hplanned : planned = before ++ p :: after) (ho : o.isValue = false) :
      Comes credentials planned (before ++ [o])

/-- What a walk by itself has heard in the end are answers that come. -/
theorem Converses.comes (h : Converses d credentials planned earlier x t)
    (hlinked : PagesLinked (·.nextToken) planned)
    (hover : t.task.isRight = true) :
    ∃ answers, Comes credentials planned answers ∧
      PagesLinked (·.nextToken) answers ∧
      x.heard <+: answers := by
  obtain ⟨r, hr⟩ := Sum.isRight_iff.1 hover
  obtain ⟨before, p, o, after, hplanned, hheard, ho⟩ := h.ended r hr
  rw [hheard]
  rcases ho with rfl | ⟨hneeds, hno⟩
  · exact ⟨planned, .planned, hlinked, after, by simp [hplanned]⟩
  · rw [hplanned] at hlinked
    exact ⟨before ++ [o], .cut hneeds hplanned hno, hlinked.cut hno,
      List.prefix_rfl⟩

/-! ## Listings of the accounts -/

/-- A walk through the accounts asks for the pages one after another, the first
one without a token and each other one with the token of the page before, as far
as there are any and none fails.  In the end it has the options of all accounts
in the order of the pages, after a call for each page; or it has the error of
the first call that fails with the number of that call, which is the last one.
A provider that is granted the steps comes to that end, and the calls that are
for planned pages are written down. -/
theorem walks_every_page :
    (∀ (credentials : Option Handle) (d : Directory) (turns : List Surroundings)
      (answers : List (Outcome AccountPage)),
        PagesLinked (·.nextToken) answers →
      (talk credentials d turns).heard <+: answers →
        ∃ n r, AccountsEnd answers n r ∧
          Walks answers n r (talk credentials d turns)) ∧
    ∀ (s : ProviderSession) (planned : List (Outcome AccountPage)),
      Chain s.directory.accounts.answer (·.nextToken) 0 none planned →
      (s.directory.usesCredentials = true → s.world.scene.Idle) →
        ∃ bound, ∀ steps, bound ≤ steps →
          ∃ answers n r, Comes s.credentials planned answers ∧
          AccountsEnd answers n r ∧
          { s with steps := steps }.listAccounts.2.1 =
            ProviderSession.walkEnd (.inr r) ∧
          { s with steps := steps }.listAccounts.1.world.calls.map Prod.snd =
            (s.directory.written ((calls answers).take n)).reverse ++
              s.world.calls.map Prod.snd := by
  have hwalks (credentials : Option Handle) (d : Directory)
      (turns : List Surroundings)
      (answers : List (Outcome AccountPage))
      (hlinked : PagesLinked (·.nextToken) answers)
      (hheard : (talk credentials d turns).heard <+: answers) :
      ∃ n r, AccountsEnd answers n r ∧
        Walks answers n r (talk credentials d turns) :=
    (stands_talk credentials d turns).walks hlinked hheard
  refine ⟨hwalks, fun s planned hchain hidle => ?_⟩
  let first : AccountsSolo :=
    { world := s.world, task := .inl s.directory.startWalk }
  let play := Solo.play (s.directory.walking s.credentials)
  have hwinds :=
    winds s.directory s.credentials planned (s.world.calls.map Prod.snd)
  have hfirst : Underway s.directory s.credentials planned
      (s.world.calls.map Prod.snd) first :=
    ⟨[], fun _ => nofun, converses_start hchain fun hsome =>
      hidle (ProviderSession.credentials_isSome hsome)⟩
  refine ⟨left planned first, fun steps hle => ?_⟩
  let last := (play.run steps [] first).state
  have hover : last.task.isRight = true := hwinds.run_isOver hfirst hle
  obtain ⟨turns, _, htalk⟩ :=
    (Play.reaches_run play steps [] first).invariant hfirst hwinds.keeps
  obtain ⟨answers, hcomes, hlinked, hheard⟩ :=
    htalk.comes hchain.pagesLinked hover
  obtain ⟨n, r, hends, hw⟩ := hwalks _ _ turns answers hlinked hheard
  have hright : (talk s.credentials s.directory turns).task.isRight = true := by
    rw [htalk.task_eq]
    exact hover
  have hall := hw.uncut hright
  have htask : last.task = .inr r := htalk.task_eq.symm.trans (hw.decided hall)
  refine ⟨answers, n, r, hcomes, hends,
    congrArg ProviderSession.walkEnd htask, ?_⟩
  have hasked : (talk s.credentials s.directory turns).asked =
      (calls answers).take n := by
    refine hw.asked.eq_of_length_le (Nat.le_trans (List.length_take_le _ _) ?_)
    rw [hw.count, hall]
    exact Nat.le_add_right _ _
  have hdiary := htalk.diary
  rw [made, show (play.run steps [] first).state.task = .inr r from htask,
    hasked] at hdiary
  exact hdiary

/-- Accounts on three pages.  One of them is listed twice, one has no name, and
the second page is empty. -/
def threePages : List AccountPage :=
  [⟨[⟨"1", some "One"⟩], some "b"⟩, ⟨[], some "c"⟩,
    ⟨[⟨"2", none⟩, ⟨"1", some "One"⟩], none⟩]

/-- A provider with these accounts. -/
def threePagesSession : ProviderSession where
  config := ProviderSession.plainConfig
  directory := ({
    accounts :=
      [none, some "b", some "c"].zip (threePages.map ({ content := · })) } :
      PlannedDirectory)
  world :=
    { scene :=
        { cache := .unused Cache.plainRequest [.epoch, .epoch], plan := [] } }
  steps := 0

/-- A directory whose second page of accounts fails. -/
def secondFails : PlannedDirectory where
  accounts := [(none, { content := ⟨[⟨"1", none⟩], some "b"⟩ }),
    (some "b", { content := ⟨[], none⟩, error := some "boom" })]

theorem walks_every_page_three :
    (∃ x : Talk, x = talk none secondFails
        (List.replicate 4 ⟨secondFails, threePagesSession.world, ⟨{}, false⟩⟩) ∧
      x.asked = [.accounts none, .accounts (some "b")] ∧
      x.task = .inr (some (.error
        (.enumeration (.pageFetch 2 ⟨"boom", []⟩))))) ∧
    ∃ bound, ∀ steps, bound ≤ steps →
      { threePagesSession with steps := steps }.listAccounts.2.1 =
        .result (.ok [⟨"One", "1"⟩, ⟨"", "2"⟩, ⟨"One", "1"⟩]) := by
  obtain ⟨hdialogues, hsessions⟩ := walks_every_page
  constructor
  · have hlinked : PagesLinked (·.nextToken)
        [.value (⟨[⟨"1", none⟩], some "b"⟩ : AccountPage),
        .failed ⟨"boom", []⟩] :=
      .more (by rintro _ ⟨⟩; rfl) (.last fun _ => nofun)
    obtain ⟨n, r, hends, hwalks⟩ := hdialogues none secondFails
      (List.replicate 4 ⟨secondFails, threePagesSession.world, ⟨{}, false⟩⟩) _
      hlinked ⟨[], rfl⟩
    obtain ⟨rfl, rfl⟩ :=
      hends.unique (.failure [⟨[⟨"1", none⟩], some "b"⟩] ⟨"boom", []⟩ [])
    exact ⟨_, rfl, hwalks.asked.eq_of_length hwalks.count, hwalks.decided rfl⟩
  · have hchain : Chain threePagesSession.directory.accounts.answer
        (·.nextToken) 0 none (threePages.map .value) :=
      .more rfl rfl (.more rfl rfl (.last (by rintro _ ⟨⟩; rfl)))
    obtain ⟨bound, hends⟩ :=
      hsessions threePagesSession _ hchain (by intro hneeds; cases hneeds)
    refine ⟨bound, fun steps hle => ?_⟩
    obtain ⟨answers, n, r, hcomes, hend, hresult, _⟩ := hends steps hle
    cases hcomes with
    | cut hneeds => cases hneeds
    | planned =>
      obtain ⟨rfl, rfl⟩ := hend.unique (.complete threePages)
      exact hresult

end AccountWalk

end CloudAccess
