import CloudAccess.Provider.Lookup

/-!
# What the directory answers

A directory by itself says what each call brings, and which page comes after
which.

* `Chain` is the list of the answers that one gets who follows the next tokens,
  up to a page without one or to a call that brings no page.  The directory may
  remember how many pages it has given, so that a token that comes again leads
  to another page.  `Chain.tail` says that after a page with a next one the rest
  is such a list again, and `Chain.ends` that its last answer is without a next
  page.
* `consulted` are the answers that are asked for until a page of tags marks a
  permission set as managed.
* `verdict` is how the lookup of a permission set ends when it is not stopped,
  and `verdict_eq_value_iff` says when that is an item, and which.
-/

namespace CloudAccess

namespace Outcome

variable {α : Type}

/-- Whether an outcome is a value. -/
def isValue : Outcome α → Bool
  | .value _ => true
  | .failed _ | .crashed => false

/-- An outcome that is no value, as one of something else. -/
def without {β : Type} (o : Outcome α) (ended : α → Outcome β) : Outcome β :=
  match o with
  | .value a => ended a
  | .failed e => .failed e
  | .crashed => .crashed

/-- An outcome that is no value stays what it is. -/
theorem without_congr {β : Type} {o : Outcome α} {f g : α → Outcome β}
    (h : o.isValue = false) : o.without f = o.without g := by
  cases o with
  | value => cases h
  | failed | crashed => rfl

end Outcome

/-! ## Chains of pages -/

/-- The answers to the calls that follow one another from a token, after `k`
other calls.  `next` is the token of the page after a page. -/
inductive Chain {α : Type} (call : Nat → Option String → Outcome α)
    (next : α → Option String) : Nat → Option String → List (Outcome α) → Prop
  | last {k : Nat} {token : Option String}
      (h : ∀ page, call k token = .value page → next page = none) :
      Chain call next k token [call k token]
  | more {k : Nat} {token : Option String} {page : α} {rest : List (Outcome α)}
      (h : call k token = .value page) (hnext : (next page).isSome = true)
      (hrest : Chain call next (k + 1) (next page) rest) :
      Chain call next k token (call k token :: rest)

namespace Chain

variable {α : Type} {call : Nat → Option String → Outcome α}
  {next : α → Option String} {token : Option String}
  {answers rest : List (Outcome α)} {i k : Nat}

/-- From a token there is one chain. -/
theorem unique (h : Chain call next k token answers)
    (h' : Chain call next k token rest) : answers = rest := by
  induction h generalizing rest with
  | last hlast =>
    cases h' with
    | last => rfl
    | more hvalue hnext => simp [hlast _ hvalue] at hnext
  | more hvalue hnext _ ih =>
    cases h' with
    | last hlast => simp [hlast _ hvalue] at hnext
    | more hvalue' _ hrest =>
      rw [hvalue] at hvalue'
      injection hvalue' with hpage
      rw [ih (hpage ▸ hrest)]

/-- A chain begins with the answer to its first call. -/
theorem exists_cons (h : Chain call next k token answers) :
    ∃ rest, answers = call k token :: rest := by
  cases h <;> exact ⟨_, rfl⟩

/-- After a page with a next one the chain goes on from there. -/
theorem tail {o : Outcome α} {page : α}
    (h : Chain call next k token (o :: rest))
    (hpage : call k token = .value page) (hnext : (next page).isSome = true) :
    Chain call next (k + 1) (next page) rest := by
  cases h with
  | last hlast => simp [hlast _ hpage] at hnext
  | more hvalue _ hrest =>
    rw [hpage] at hvalue
    injection hvalue with heq
    exact heq ▸ hrest

/-- After a page without a next one the chain is at its end. -/
theorem tail_eq_nil {o : Outcome α} {page : α}
    (h : Chain call next k token (o :: rest))
    (hpage : call k token = .value page) (hnext : next page = none) :
    rest = [] := by
  cases h with
  | last => rfl
  | more hvalue hsome =>
    rw [hpage] at hvalue
    injection hvalue with heq
    rw [← heq, hnext] at hsome
    cases hsome

theorem length_pos (h : Chain call next k token answers) :
    0 < answers.length := by
  obtain ⟨rest, rfl⟩ := h.exists_cons
  exact Nat.succ_pos _

/-- Only the last answer of a chain is without a next page. -/
theorem length_eq (h : Chain call next k token answers) {o : Outcome α}
    (hi : answers[i]? = some o)
    (hlast : ∀ page, o = .value page → next page = none) :
    answers.length = i + 1 := by
  induction h generalizing i with
  | last =>
    cases i with
    | zero => rfl
    | succ i => simp at hi
  | @more k token page rest hvalue hnext _ ih =>
    cases i with
    | zero =>
      rw [List.getElem?_cons_zero, Option.some_inj, hvalue] at hi
      simp [hlast page hi.symm] at hnext
    | succ i => exact congrArg (· + 1) (ih hi)

/-- The last answer of a chain is without a next page. -/
theorem ends (h : Chain call next k token answers) :
    ∃ o ∈ answers.getLast?, ∀ page, o = .value page → next page = none := by
  induction h with
  | last hlast => exact ⟨_, rfl, hlast⟩
  | @more k token page rest _ _ _ ih =>
    obtain ⟨o, ho, hlast⟩ := ih
    refine ⟨o, ?_, hlast⟩
    rw [Option.mem_def] at ho ⊢
    rw [List.getLast?_cons, ho]
    rfl

open Classical in
/-- The number of calls that follow one another from a token, when that is
finite. -/
noncomputable def count (call : Nat → Option String → Outcome α)
    (next : α → Option String) (k : Nat) (token : Option String) : Nat :=
  if h : ∃ answers, Chain call next k token answers then h.choose.length else 0

theorem count_eq (h : Chain call next k token answers) :
    count call next k token = answers.length := by
  have hex : ∃ answers, Chain call next k token answers := ⟨answers, h⟩
  rw [count, dif_pos hex, hex.choose_spec.unique h]

end Chain

/-! ## What is asked of the directory -/

/-- How the call for a planned page ends. -/
def PagePlans.answer {α : Type} (pages : PagePlans α) (k : Nat)
    (token : Option String) : Outcome α :=
  match pages k token with
  | .ok p => p.outcome
  | .error e => .failed e

namespace Directory

/-- The answers to the calls for the pages of permission sets, one after
another. -/
def Lists (d : Directory) (listing : List (Outcome Page)) : Prop :=
  Chain d.permissionSets.answer (·.nextCursor) 0 none listing

/-- The answers to the calls for the pages of tags of a permission set, one
after another. -/
def Tags (d : Directory) (arn : String) (tags : List (Outcome TagPage)) :
    Prop :=
  Chain (d.tags arn).answer (·.nextToken) 0 none tags

end Directory

/-- Whether a permission set is on a page of a listing. -/
def Listed (listing : List (Outcome Page)) (arn : String) : Prop :=
  ∃ page, .value page ∈ listing ∧ arn ∈ page.items

/-! ## Pages of tags -/

/-- Whether a page has the tag that marks a permission set as managed. -/
def TagPage.marksManaged (page : TagPage) : Bool :=
  page.tags.any Tag.marksManaged

/-- Whether a page has that tag. -/
def Carries (tags : List (Outcome TagPage)) : Prop :=
  ∃ page, .value page ∈ tags ∧ page.marksManaged = true

/-- The answers that are asked for: those up to the first page with that tag. -/
def consulted : List (Outcome TagPage) → List (Outcome TagPage)
  | [] => []
  | .value page :: rest =>
    .value page :: if page.marksManaged then [] else consulted rest
  | .failed e :: rest => .failed e :: consulted rest
  | .crashed :: rest => .crashed :: consulted rest

/-- How the reading of the tags ends when it is not stopped. -/
def tagVerdict (arn label : String) :
    List (Outcome TagPage) → Outcome EnrichedItem
  | [] => .value (.rejected arn)
  | .value page :: rest =>
    if page.marksManaged then .value (.accepted arn label arn)
      else tagVerdict arn label rest
  | .failed e :: _ => .failed e
  | .crashed :: _ => .crashed

/-- How the lookup of a permission set ends when it is not stopped. -/
def verdict (arn : String) (described : Outcome PermissionSet)
    (tags : List (Outcome TagPage)) : Outcome EnrichedItem :=
  described.without fun p => tagVerdict arn p.label tags

variable {arn label : String} {described : Outcome PermissionSet}
  {tags : List (Outcome TagPage)} {item : EnrichedItem}

theorem carries_cons {page : TagPage} :
    Carries (.value page :: tags) ↔
      page.marksManaged = true ∨ Carries tags := by
  simp only [Carries, List.mem_cons]
  constructor
  · rintro ⟨p, hp | hp, hmarks⟩
    · injection hp with hp
      exact .inl (hp ▸ hmarks)
    · exact .inr ⟨p, hp, hmarks⟩
  · rintro (hmarks | ⟨p, hp, hmarks⟩)
    · exact ⟨page, .inl rfl, hmarks⟩
    · exact ⟨p, .inr hp, hmarks⟩

/-- A page of the tags that fails ends their reading. -/
theorem tagVerdict_cons_of_not_isValue {o : Outcome TagPage}
    (h : o.isValue = false) :
    tagVerdict arn label (o :: tags) = o.without fun _ => .crashed := by
  cases o with
  | value => cases h
  | failed | crashed => rfl

/-- The reading of the tags brings an item when no page that is asked for fails.
It is accepted when some page has the tag. -/
theorem tagVerdict_eq_value_iff :
    tagVerdict arn label tags = .value item ↔
      (∀ o ∈ consulted tags, o.isValue = true) ∧
        (Carries tags ∧ item = .accepted arn label arn ∨
          ¬Carries tags ∧ item = .rejected arn) := by
  induction tags with
  | nil =>
    have hnot : ¬Carries [] := fun ⟨_, hin, _⟩ => by cases hin
    simp only [tagVerdict, consulted, hnot, Outcome.value.injEq]
    simpa using eq_comm
  | cons o rest ih =>
    cases o with
    | failed e | crashed => simp [tagVerdict, consulted, Outcome.isValue]
    | value page =>
      rw [carries_cons]
      cases hmarks : page.marksManaged with
      | true =>
        simp only [tagVerdict, consulted, hmarks, if_true, Outcome.value.injEq]
        simpa [Outcome.isValue] using eq_comm
      | false => simpa [tagVerdict, consulted, hmarks, Outcome.isValue] using ih

/-- The lookup of a permission set brings an item when it is described and no
page of its tags that is asked for fails. -/
theorem verdict_eq_value_iff :
    verdict arn described tags = .value item ↔
      ∃ p, described = .value p ∧ (∀ o ∈ consulted tags, o.isValue = true) ∧
        (Carries tags ∧ item = .accepted arn p.label arn ∨
          ¬Carries tags ∧ item = .rejected arn) := by
  cases described with
  | value p =>
    rw [verdict, Outcome.without, tagVerdict_eq_value_iff]
    simp
  | failed e | crashed => simp [verdict, Outcome.without]

/-- A reading of the tags that brings no item ends as a page that was asked
for. -/
theorem tagVerdict_eq_of_not_isValue
    (h : (tagVerdict arn label tags).isValue = false) :
    ∃ o ∈ consulted tags, o.isValue = false ∧
      tagVerdict arn label tags = o.without fun _ =>
        .value (.rejected arn) := by
  induction tags with
  | nil => cases h
  | cons o rest ih =>
    cases o with
    | failed e => exact ⟨.failed e, by simp [consulted], rfl, rfl⟩
    | crashed => exact ⟨.crashed, by simp [consulted], rfl, rfl⟩
    | value page =>
      cases hmarks : page.marksManaged with
      | true => simp [tagVerdict, hmarks, Outcome.isValue] at h
      | false =>
        simp only [tagVerdict, hmarks] at h ⊢
        obtain ⟨o, ho, hrest⟩ := ih h
        exact ⟨o, by simp [consulted, hmarks, ho], hrest⟩

end CloudAccess
