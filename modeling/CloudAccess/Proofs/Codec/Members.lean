import CloudAccess.Proofs.Codec.Lossless
import CloudAccess.Proofs.Json.Reading

/-!
# What the members of an object do to a record

The members of an object fill the places of a record, each one that has its
name.

* `Record.valuesAt` lists the values of the members with a name.
* `Record.Fills` says what they do to the place of a field: it stays as it is
  without such a member, and one member fills it if it was empty.  Nothing
  describes two of them, because such an object is refused.
* `Record.passing_of_ofDocument` says that a document without a fault is all
  that a record is read from.
-/

namespace CloudAccess

open Json (Document Fault Key)

theorem bind_eq_ok_iff {ε α β : Type} {x : Except ε α} {f : α → Except ε β}
    {b : β} : x >>= f = .ok b ↔ ∃ a, x = .ok a ∧ f a = .ok b := by
  refine ⟨exists_ok_of_bind, ?_⟩
  rintro ⟨a, rfl, h⟩
  exact h

/-! ## Texts -/

namespace Codec

variable {α : Type} {c : Codec α} {text : String}

/-- A text of the grammar decodes to what its tree is read as. -/
theorem decode_of_text {t : Json.Tree} (h : Json.Grammar.Text text t) :
    c.decode text = c.ofDocument t.document := by
  unfold decode
  simp only [h.read_eq]
  cases c.ofDocument t.document <;> rfl

/-- Only texts of the grammar decode, where documents with a fault are
refused. -/
theorem exists_text_of_decode
    (hpassing : ∀ d a, c.ofDocument d = .ok a → d.passing = none) {a : α}
    (h : c.decode text = .ok a) : ∃ t, Json.Grammar.Text text t := by
  unfold decode at h
  dsimp only at h
  split at h
  · cases h
  · rename_i hread
    split at h
    · cases h
    · rename_i htrailing
      obtain ⟨t, ht, -⟩ :=
        Json.exists_text_of_read (hpassing _ _ hread) (by simpa using htrailing)
      exact ⟨t, ht⟩

end Codec

namespace Record

/-! ## The place of a field -/

/-- The values of the members with a name, in their order. -/
def valuesAt (name : String) (members : List (Key × Document)) :
    List Document :=
  members.filterMap fun m => if m.1 = .name name then some m.2 else none

theorem valuesAt_cons (name : String) (key : Key) (d : Document)
    (members : List (Key × Document)) :
    valuesAt name ((key, d) :: members) =
      if key = .name name then d :: valuesAt name members
        else valuesAt name members := by
  unfold valuesAt
  split <;> simp_all

section Fills

variable {β : Type} {read : Document → Except DecodeError β} {d : Document}
  {ds : List Document} {place filled : Option β}

/-- What values do to the place of a field. -/
inductive Fills (read : Document → Except DecodeError β) :
    List Document → Option β → Option β → Prop
  | stays (place : Option β) : Fills read [] place place
  | fills {d : Document} {b : β} (h : read d = .ok b) :
      Fills read [d] none (some b)

theorem fill_eq_ok_iff {name : String} {value : Except DecodeError β} :
    fill name place value = .ok filled ↔ place = none ∧ ∃ b, value = .ok b ∧
      filled = some b := by
  unfold fill
  cases place with
  | some b => simp
  | none =>
    cases value with
    | error e => simp [Except.map]
    | ok b => simp [Except.map, eq_comm]

/-- A place that is filled stays as it is, and no other value comes. -/
theorem fills_some_iff {b : β} :
    Fills read ds (some b) filled ↔ ds = [] ∧ filled = some b := by
  constructor
  · rintro ⟨⟩
    exact ⟨rfl, rfl⟩
  · rintro ⟨rfl, rfl⟩
    exact .stays _

/-- The values of a field are put into its place one after another. -/
theorem fills_cons_iff (name : String) :
    Fills read (d :: ds) place filled ↔
      ∃ next, fill name place (read d) = .ok next ∧
        Fills read ds next filled := by
  constructor
  · rintro (_ | h)
    exact ⟨_, fill_eq_ok_iff.2 ⟨rfl, _, h, rfl⟩, .stays _⟩
  · rintro ⟨next, hnext, hrest⟩
    obtain ⟨rfl, b, hb, rfl⟩ := fill_eq_ok_iff.1 hnext
    obtain ⟨rfl, rfl⟩ := fills_some_iff.1 hrest
    exact .fills hb

/-- An empty place is filled by one value. -/
theorem fills_none_some_iff {b : β} :
    Fills read ds none (some b) ↔ ∃ d, ds = [d] ∧ read d = .ok b := by
  constructor
  · rintro (_ | h)
    exact ⟨_, rfl, h⟩
  · rintro ⟨d, rfl, h⟩
    exact .fills h

end Fills

/-! ## Faults -/

variable {σ α : Type} {r : Record σ α} {s t : σ}

theorem unlessFault_eq_ok_iff {f : Option Fault} {u : Unit} :
    DecodeError.unlessFault f = .ok u ↔ f = none := by
  cases f <;> simp [DecodeError.unlessFault]

theorem passing_of_putMembers
    (hput : ∀ name d s t, r.put name d s = .ok t → d.passing = none)
    {members : List (Key × Document)} {ending : Option Fault}
    (h : r.putMembers members ending s = .ok t) :
    (Document.object members ending).passing = none := by
  induction members generalizing s with
  | nil =>
    obtain ⟨u, hu, -⟩ := exists_ok_of_bind h
    exact unlessFault_eq_ok_iff.1 hu
  | cons member members ih =>
    obtain ⟨key, value⟩ := member
    cases key with
    | name key =>
      rw [putMembers] at h
      have hvalue : value.passing = none ∧
          ∃ s, r.putMembers members ending s = .ok t := by
        split at h
        · obtain ⟨u, hu, h⟩ := exists_ok_of_bind h
          exact ⟨hput key value s u hu, u, h⟩
        · obtain ⟨u, hu, h⟩ := exists_ok_of_bind h
          exact ⟨unlessFault_eq_ok_iff.1 hu, s, h⟩
      obtain ⟨hvalue, u, h⟩ := hvalue
      simpa [Document.passing, Document.passingMembers, Key.passing, hvalue]
        using ih h
    | unreadable | foreign => cases h

theorem passing_of_putItems
    (hput : ∀ name d s t, r.put name d s = .ok t → d.passing = none)
    {fields : List String} {count : Nat} {items : List Document}
    {ending : Option Fault}
    (h : r.putItems fields count items ending s = .ok t) :
    (Document.array items ending).passing = none := by
  induction fields generalizing count items s with
  | nil =>
    cases items with
    | nil =>
      obtain ⟨u, hu, -⟩ := exists_ok_of_bind h
      exact unlessFault_eq_ok_iff.1 hu
    | cons => cases h
  | cons field fields ih =>
    cases items with
    | nil =>
      obtain ⟨u, hu, -⟩ := exists_ok_of_bind h
      exact unlessFault_eq_ok_iff.1 hu
    | cons item items =>
      obtain ⟨u, hu, h⟩ := exists_ok_of_bind h
      have hitem := hput field item s u hu
      simpa [Document.passing, Document.passingItems, hitem] using ih h

/-- A value with named fields is read from a document without a fault only. -/
theorem passing_of_ofDocument
    (hput : ∀ name d s t, r.put name d s = .ok t → d.passing = none)
    {d : Document} {a : α} (h : r.ofDocument d = .ok a) : d.passing = none := by
  unfold ofDocument at h
  split at h
  · obtain ⟨s, hs, -⟩ := exists_ok_of_bind h
    exact passing_of_putMembers hput hs
  · obtain ⟨s, hs, -⟩ := exists_ok_of_bind h
    exact passing_of_putItems hput hs
  · cases h

end Record

end CloudAccess
