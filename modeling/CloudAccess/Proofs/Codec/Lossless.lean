import CloudAccess.Codec.Basic
import CloudAccess.Proofs.Json.RoundTrip

/-!
# Codecs that lose nothing

A codec loses nothing when it reads back the document of every valid value that
it writes, and reads nothing that is not valid.

* `Codec.Lossless` says so, `Lossless.decode_encode` and
  `Lossless.valid_of_decode` what it means for texts, and `Lossless.inverts`
  puts these together.
* `lossless_ofString` and `lossless_ofVariants` are about codecs for single
  strings and for variants.
* `Document.readOption_ofOption` and `Document.readEach_documents` are about
  optional parts and lists.
* `Record.Puts` reads the fields of a record that were written, one after
  another, and `Record.invariant` says what holds of all that a record reads.
-/

namespace CloudAccess

open Json (Document Fault Key)

/-- What two steps come to comes from what the first one does. -/
theorem exists_ok_of_bind {ε α β : Type} {x : Except ε α} {f : α → Except ε β}
    {b : β} (h : x >>= f = .ok b) : ∃ a, x = .ok a ∧ f a = .ok b := by
  cases x with
  | error e => cases h
  | ok a => exact ⟨a, rfl, h⟩

/-! ## Codecs -/

namespace Codec

variable {α : Type} {c : Codec α} {Valid : α → Prop}

/-- A codec writes valid values such that they are read back, and reads nothing
else. -/
structure Lossless (c : Codec α) (Valid : α → Prop) : Prop where
  fits : ∀ a, Valid a → (c.toJson a).Fits
  reads : ∀ a, Valid a → c.ofDocument (c.toJson a).document = .ok a
  valid : ∀ d a, c.ofDocument d = .ok a → Valid a

/-- The encoding of a valid value decodes to it. -/
theorem Lossless.decode_encode (hc : c.Lossless Valid) {a : α} (ha : Valid a) :
    c.decode (c.encode a) = .ok a := by
  unfold decode encode
  rw [Json.read_text (hc.fits a ha)]
  simp only [hc.reads a ha]
  rfl

/-- What a text decodes to is valid. -/
theorem Lossless.valid_of_decode (hc : c.Lossless Valid) {text : String} {a : α}
    (h : c.decode text = .ok a) : Valid a := by
  unfold decode at h
  dsimp only at h
  split at h
  · cases h
  · rename_i hd
    split at h
    · cases h
    · cases h
      exact hc.valid _ _ hd

/-- Decoding undoes encoding: the encoding of a valid value decodes to it, and a
value that a text decodes to has an encoding that decodes to the same and is
encoded as it was. -/
def Inverts (c : Codec α) (Valid : α → Prop) : Prop :=
  (∀ a, Valid a → c.decode (c.encode a) = .ok a) ∧
    ∀ text a, c.decode text = .ok a →
      c.decode (c.encode a) = .ok a ∧
        ∀ b, c.decode (c.encode a) = .ok b → c.encode b = c.encode a

theorem Lossless.inverts (hc : c.Lossless Valid) : c.Inverts Valid := by
  refine ⟨fun a => hc.decode_encode, fun text a h => ?_⟩
  have hagain := hc.decode_encode (hc.valid_of_decode h)
  refine ⟨hagain, fun b hb => ?_⟩
  rw [hagain] at hb
  cases hb
  rfl

/-- Single strings that are read back make up a codec that loses nothing. -/
theorem lossless_ofString {toString : α → String}
    {read : String → Except DecodeError α}
    (hread : ∀ a, Valid a → read (toString a) = .ok a)
    (hvalid : ∀ s a, read s = .ok a → Valid a) :
    (ofString toString read).Lossless Valid where
  fits a _ := .string _
  reads a ha := hread a ha
  valid d a h := by
    obtain ⟨s, -, hs⟩ := exists_ok_of_bind h
    exact hvalid s a hs

/-- Variants with names of their own make up a codec that loses nothing. -/
theorem lossless_ofVariants {name : α → String} {variants : List α}
    (hall : ∀ a, a ∈ variants) (hname : ∀ a b, name a = name b → a = b) :
    (ofVariants name variants).Lossless fun _ => True where
  fits a _ := .string _
  reads a _ := by
    show Document.findVariant _ (name a) = .ok a
    have hfind : (variants.map fun a => (name a, a)).find? (·.1 = name a) =
        some (name a, a) := by
      rw [List.find?_map]
      cases hb : variants.find? _ with
      | none => simpa using List.find?_eq_none.1 hb a (hall a)
      | some b =>
        have hsame : name b = name a := by simpa using List.find?_some hb
        rw [hname b a hsame]
        rfl
    rw [Document.findVariant, hfind]
  valid _ _ _ := trivial

end Codec

/-! ## Parts of values -/

namespace Json.Document

variable {α : Type}

theorem fits_ofOption {encode : α → Json} {o : Option α}
    (h : ∀ a ∈ o, (encode a).Fits) : (Json.ofOption encode o).Fits := by
  cases o with
  | none => exact .null
  | some a => exact h a rfl

theorem readOption_ofOption {read : Document → Except DecodeError α}
    {encode : α → Json} {o : Option α}
    (hread : ∀ a ∈ o, read (encode a).document = .ok a)
    (hne : ∀ a, (encode a).document ≠ .null) :
    readOption read (Json.ofOption encode o).document = .ok o := by
  cases o with
  | none => rfl
  | some a =>
    show readOption read (encode a).document = _
    unfold readOption
    split
    · rename_i hnull
      exact absurd hnull (hne a)
    · rw [hread a rfl]
      rfl

theorem readOption_string (o : Option String) :
    readOption readString (Json.ofOption .string o).document = .ok o :=
  readOption_ofOption (fun _ _ => rfl) fun _ h => by cases h

theorem valid_of_readOption {read : Document → Except DecodeError α}
    {Valid : α → Prop} (hvalid : ∀ d a, read d = .ok a → Valid a) {d : Document}
    {o : Option α} (h : readOption read d = .ok o) : ∀ a ∈ o, Valid a := by
  unfold readOption at h
  split at h
  · cases h
    exact fun a ha => by cases ha
  · cases hd : read _ with
    | error e =>
      rw [hd] at h
      cases h
    | ok a =>
      rw [hd] at h
      cases h
      intro b hb
      cases hb
      exact hvalid _ _ hd

theorem readEach_documents {read : Document → Except DecodeError α}
    {encode : α → Json} {l : List α}
    (hread : ∀ a ∈ l, read (encode a).document = .ok a) :
    readEach read (documents (l.map encode)) none = .ok l := by
  induction l with
  | nil => rfl
  | cons a l ih =>
    have hrest := ih fun b hb => hread b (List.mem_cons_of_mem a hb)
    rw [List.map_cons, documents, readEach, hread a List.mem_cons_self]
    show (readEach read _ none >>= _) = _
    rw [hrest]
    rfl

end Json.Document

/-! ## Records -/

namespace Record

variable {σ α : Type} {r : Record σ α} {I : σ → Prop} {s t : σ}

/-- Members of an object are read as fields, one after another. -/
inductive Puts (r : Record σ α) : List (String × Json) → σ → σ → Prop
  | nil (s : σ) : Puts r [] s s
  | cons {name : String} {j : Json} {members : List (String × Json)} {s t u : σ}
      (hfield : r.fields.contains name = true)
      (hput : r.put name j.document s = .ok t) (hrest : Puts r members t u) :
      Puts r ((name, j) :: members) s u

theorem Puts.putMembers_eq {members : List (String × Json)}
    (h : r.Puts members s t) :
    r.putMembers (Json.memberDocuments members) none s = .ok t := by
  induction h with
  | nil => rfl
  | cons hfield hput _ ih =>
    rw [Json.memberDocuments, putMembers, if_pos hfield, hput]
    exact ih

theorem Puts.ofDocument {members : List (String × Json)} {a : α}
    (h : r.Puts members r.start s) (hfinish : r.finish s = .ok a) :
    r.ofDocument (Json.object members).document = .ok a := by
  show r.putMembers (Json.memberDocuments members) none r.start >>= r.finish = _
  rw [h.putMembers_eq]
  exact hfinish

/-- An empty place is filled with what is read. -/
theorem fill_none {β : Type} {name : String} {value : Except DecodeError β}
    {b : β} {f : Option β → σ} (h : value = .ok b) :
    (fill name none value >>= fun filled => pure (f filled)) =
      .ok (f (some b)) := by
  rw [h]
  rfl

/-- A place is filled with what was read. -/
theorem forall_mem_of_fill {β : Type} {name : String} {place filled : Option β}
    {value : Except DecodeError β} {P : β → Prop}
    (h : fill name place value = .ok filled)
    (hvalue : ∀ b, value = .ok b → P b) : ∀ b ∈ filled, P b := by
  unfold fill at h
  split at h
  · cases h
  · cases value with
    | error e => cases h
    | ok b =>
      cases h
      intro b' hb
      cases hb
      exact hvalue b rfl

theorem require_eq_ok_iff {β : Type} {name : String} {place : Option β}
    {b : β} : require name place = .ok b ↔ place = some b := by
  cases place <;> simp [require]

theorem putMembers_invariant
    (hput : ∀ name d s t, r.put name d s = .ok t → I s → I t)
    {members : List (Key × Document)} {ending : Option Fault} (hs : I s)
    (h : r.putMembers members ending s = .ok t) : I t := by
  induction members generalizing s with
  | nil =>
    obtain ⟨_, -, h⟩ := exists_ok_of_bind h
    cases h
    exact hs
  | cons member members ih =>
    obtain ⟨key, value⟩ := member
    cases key with
    | name key =>
      rw [putMembers] at h
      split at h
      · obtain ⟨u, hu, h⟩ := exists_ok_of_bind h
        exact ih (hput key value s u hu hs) h
      · obtain ⟨_, -, h⟩ := exists_ok_of_bind h
        exact ih hs h
    | unreadable | foreign => cases h

theorem putItems_invariant
    (hput : ∀ name d s t, r.put name d s = .ok t → I s → I t)
    {fields : List String} {count : Nat} {items : List Document}
    {ending : Option Fault} (hs : I s)
    (h : r.putItems fields count items ending s = .ok t) : I t := by
  induction fields generalizing count items s with
  | nil =>
    cases items with
    | nil =>
      obtain ⟨_, -, h⟩ := exists_ok_of_bind h
      cases h
      exact hs
    | cons => cases h
  | cons field fields ih =>
    cases items with
    | nil =>
      obtain ⟨_, -, h⟩ := exists_ok_of_bind h
      split at h
      · exact ih hs h
      · cases h
    | cons item items =>
      obtain ⟨u, hu, h⟩ := exists_ok_of_bind h
      exact ih (hput field item s u hu hs) h

/-- What every field keeps holds of what is read at the end. -/
theorem invariant {Valid : α → Prop} (hstart : I r.start)
    (hput : ∀ name d s t, r.put name d s = .ok t → I s → I t)
    (hfinish : ∀ s a, I s → r.finish s = .ok a → Valid a) {d : Document} {a : α}
    (h : r.ofDocument d = .ok a) : Valid a := by
  unfold ofDocument at h
  split at h
  · obtain ⟨s, hs, h⟩ := exists_ok_of_bind h
    exact hfinish s a (putMembers_invariant hput hstart hs) h
  · obtain ⟨s, hs, h⟩ := exists_ok_of_bind h
    exact hfinish s a (putItems_invariant hput hstart hs) h
  · cases h

end Record

end CloudAccess
