import CloudAccess.Json.Reader
import CloudAccess.Json.Value
import Mathlib.Data.List.Forall2

/-!
# What is written is read back

The compact text of a value is read as the value, whatever follows it.

* `readString_writeString` is about strings: each character is scanned as one
  piece (`scanString_escape`), and the pieces are joined to the characters
  again.
* `readNumber_decimalInt` is about whole numbers that fit in 64 bits.
* `document` is what the text of a value holds, and `Reads` that a reader finds
  it.  `reads_scalar`, `reads_array` and `reads_object` derive it for each kind
  of value, and `Fits.reads` for every value whose numbers fit.
* `read_text` is about whole texts.
-/

namespace CloudAccess.Json

/-! ## Strings -/

/-- A piece of a string stands for a character: as it is, or as the code unit of
a control character. -/
def Piece.Names (p : Piece) (c : Char) : Prop :=
  p = .char c ∨ p = .unit c.toNat ∧ c.toNat < 0x20

theorem hexValue_hexDigit : ∀ n < 16, hexValue (Text.hexDigit n) = some n :=
  by decide

/-- Four hexadecimal digits are read back. -/
theorem hexUnit_hexFixed {n : Nat} (hn : n < 65536) :
    ∃ a b c d, Text.hexFixed 4 n = [a, b, c, d] ∧ hexUnit a b c d = some n := by
  refine ⟨_, _, _, _, rfl, ?_⟩
  simp only [hexUnit, hexValue_hexDigit _ (Nat.mod_lt _ (by decide : 0 < 16))]
  congr
  omega

/-- A character that is neither a quote nor a backslash nor a control character
stands for itself. -/
theorem scanString_plain {c : Char} (hquote : c ≠ '"') (hbackslash : c ≠ '\\')
    (hplain : ¬c.toNat < 0x20) (cs : List Char) :
    scanString (c :: cs) = (scanString cs).push (.char c) := by
  rw [scanString.eq_def]
  split
  case h_7 heq =>
    cases heq
    rw [if_neg hplain]
  all_goals
    rename_i heq
    cases heq <;> first | exact absurd rfl hquote | exact absurd rfl hbackslash

/-- A character that a letter stands for behind a backslash is scanned as
itself. -/
theorem scanString_short {e c : Char} (he : shortEscape e = some c)
    (cs : List Char) :
    scanString ('\\' :: e :: cs) = (scanString cs).push (.char c) := by
  have hne : e ≠ 'u' := by
    rintro rfl
    cases he
  rw [scanString]
  · rw [he]
  · exact fun _ _ _ _ _ heq => absurd heq hne
  · exact hne

/-- A character is written as a letter behind a backslash, as its code unit, or
as itself. -/
theorem escape_cases (c : Char) :
    (∃ e, escape c = ['\\', e] ∧ shortEscape e = some c) ∨
      escape c = '\\' :: 'u' :: Text.hexFixed 4 c.toNat ∧ c.toNat < 0x20 ∨
      escape c = [c] ∧ c ≠ '"' ∧ c ≠ '\\' ∧ ¬c.toNat < 0x20 := by
  generalize hout : escape c = out
  unfold escape at hout
  split_ifs at hout with hquote hbackslash _ _ _ _ _ hcontrol <;> subst hout
  -- the last two cases first: all others name a letter
  rotate_left 7
  · exact .inr (.inl ⟨rfl, hcontrol⟩)
  · exact .inr (.inr ⟨rfl, hquote, hbackslash, hcontrol⟩)
  all_goals
    subst c
    exact .inl ⟨_, rfl, rfl⟩

/-- A character that was escaped is scanned as one piece. -/
theorem scanString_escape (c : Char) (cs : List Char) :
    ∃ p : Piece, p.Names c ∧
      scanString (escape c ++ cs) = (scanString cs).push p := by
  rcases escape_cases c with
    ⟨e, heq, he⟩ | ⟨heq, hcontrol⟩ | ⟨heq, hquote, hbackslash, hplain⟩
  · exact ⟨.char c, .inl rfl, by rw [heq]; exact scanString_short he cs⟩
  · obtain ⟨x, y, z, w, hdigits, hunit⟩ :=
      hexUnit_hexFixed (n := c.toNat) (by omega)
    refine ⟨.unit c.toNat, .inr ⟨rfl, hcontrol⟩, ?_⟩
    simp [heq, hdigits, scanString, hunit]
  · refine ⟨.char c, .inl rfl, ?_⟩
    rw [heq]
    exact scanString_plain hquote hbackslash hplain cs

/-- A string that was written is scanned up to its closing quote. -/
theorem scanString_writeChars (cs rest : List Char) :
    ∃ pieces, scanString (writeChars cs rest) = ⟨pieces, .ok rest⟩ ∧
      List.Forall₂ Piece.Names pieces cs := by
  induction cs with
  | nil => exact ⟨[], by simp [writeChars, scanString], .nil⟩
  | cons c cs ih =>
    obtain ⟨pieces, hscan, hnames⟩ := ih
    obtain ⟨p, hp, hpush⟩ := scanString_escape c (writeChars cs rest)
    refine ⟨p :: pieces, ?_, .cons hp hnames⟩
    rw [writeChars, hpush, hscan]
    rfl

/-- A code unit that is no half of a pair stands for a character. -/
theorem assemble_unit {n : Nat} (hhigh : isHighSurrogate n = false)
    (hlow : isLowSurrogate n = false) (pieces : List Piece) :
    assemble (.unit n :: pieces) =
      (assemble pieces).map (Char.ofNat n :: ·) := by
  rcases pieces with _ | ⟨_ | low, pieces⟩ <;> simp [assemble, hhigh, hlow]

/-- Pieces that stand for characters are joined to these. -/
theorem assemble_of_names {pieces : List Piece} {cs : List Char}
    (h : List.Forall₂ Piece.Names pieces cs) : assemble pieces = some cs := by
  induction h with
  | nil => rfl
  | @cons p c pieces cs hp _ ih =>
    rcases hp with rfl | ⟨rfl, hcontrol⟩
    · simp [assemble, ih]
    · have hhigh : isHighSurrogate c.toNat = false := by
        simp [isHighSurrogate]; omega
      have hlow : isLowSurrogate c.toNat = false := by
        simp [isLowSurrogate]; omega
      rw [assemble_unit hhigh hlow, ih, Char.ofNat_toNat]
      rfl

/-- A string that was written is read back. -/
theorem readString_writeString (s : String) (rest : List Char) :
    readString (writeChars s.toList rest) = .text s rest := by
  obtain ⟨pieces, hscan, hnames⟩ := scanString_writeChars s.toList rest
  simp only [readString, hscan, assemble_of_names hnames, String.ofList_toList]

/-! ## Numbers -/

/-- Whole numbers that a reader takes for what they are: those that fit in 64
bits. -/
def IsWhole (n : Int) : Prop :=
  -9223372036854775808 ≤ n ∧ n ≤ 18446744073709551615

/-- What may follow a value: nothing, or a mark that separates or closes. -/
inductive Follows : List Char → Prop
  | nil : Follows []
  | comma (rest : List Char) : Follows (',' :: rest)
  | bracket (rest : List Char) : Follows (']' :: rest)
  | brace (rest : List Char) : Follows ('\x7d' :: rest)

theorem ofDigits_toDigits (n : Nat) : ofDigits (Nat.toDigits 10 n) = n := by
  have h := Nat.ofDigitChars_toDigits (b := 10) (n := n) (by decide) (by decide)
  rw [Nat.ofDigitChars] at h
  rw [ofDigits]
  refine Eq.trans ?_ h
  congr
  funext m c
  rw [Nat.mul_comm]
  rfl

theorem digitChar_ne_zero : ∀ n < 10, 0 < n → Nat.digitChar n ≠ '0' := by decide

/-- Only zero is written with a zero in front. -/
theorem toDigits_ne_cons_zero {n : Nat} (hn : 0 < n) (rest : List Char) :
    Nat.toDigits 10 n ≠ '0' :: rest := by
  induction n using Nat.strongRecOn generalizing rest with
  | ind n ih =>
    intro h
    rcases Nat.lt_or_ge n 10 with hlt | hge
    · rw [Nat.toDigits_of_lt_base hlt] at h
      exact digitChar_ne_zero n hlt hn (List.cons.inj h).1
    · -- the first digit is that of a smaller number
      rw [Nat.toDigits_of_base_le (by decide) hge] at h
      cases hdigits : Nat.toDigits 10 (n / 10) with
      | nil => exact Nat.toDigits_ne_nil hdigits
      | cons d ds =>
        rw [hdigits, List.cons_append] at h
        have hzero := (List.cons.inj h).1
        exact ih (n / 10) (by omega) (by omega) ds (hzero ▸ hdigits)

/-- The digits in front of something else are found. -/
theorem digits_append {digits rest : List Char}
    (hdigits : ∀ c ∈ digits, c.isDigit = true)
    (hrest : ∀ c ∈ rest.head?, c.isDigit = false) :
    (digits ++ rest).takeWhile Char.isDigit = digits ∧
      (digits ++ rest).dropWhile Char.isDigit = rest := by
  rw [List.takeWhile_append_of_pos hdigits,
    List.dropWhile_append_of_pos hdigits]
  cases rest with
  | nil => simp
  | cons c rest =>
    have hc : ¬c.isDigit = true := by simp [hrest c rfl]
    simp [List.takeWhile_cons_of_neg hc, List.dropWhile_cons_of_neg hc]

theorem Follows.not_isDigit {rest : List Char} (h : Follows rest) :
    ∀ c ∈ rest.head?, c.isDigit = false := by
  cases h <;> simp

/-- A number is finished by what may follow it. -/
theorem readFraction_of_follows (d : Digits) {rest : List Char}
    (hrest : Follows rest) : readFraction d rest = finishNumber d rest := by
  cases hrest <;> simp [readFraction, readExponent]

theorem isDigit_toDigits {n : Nat} :
    ∀ c ∈ Nat.toDigits 10 n, c.isDigit = true := fun _ hc =>
  Nat.isDigit_of_mem_toDigits (by decide) (by decide) hc

/-- The digits of a natural number are read as such. -/
theorem readUnsigned_toDigits (negative : Bool) (n : Nat) {rest : List Char}
    (hrest : Follows rest) :
    readUnsigned negative (Nat.toDigits 10 n ++ rest) =
      finishNumber ⟨negative, Nat.toDigits 10 n, [], none⟩ rest := by
  obtain ⟨htake, hdrop⟩ :=
    digits_append (isDigit_toDigits (n := n)) hrest.not_isDigit
  rw [readUnsigned, htake, hdrop]
  split
  · rename_i hnil
    exact absurd hnil Nat.toDigits_ne_nil
  · rename_i hzero
    rcases Nat.eq_zero_or_pos n with rfl | hpos
    · cases hzero
    · exact absurd hzero (toDigits_ne_cons_zero hpos _)
  · exact readFraction_of_follows _ hrest

theorem ofDigits?_natural {m : Nat} (h : m ≤ maxSignificand) :
    Numeral.ofDigits? ⟨false, Nat.toDigits 10 m, [], none⟩ =
      some (.integer m) := by
  simp [Numeral.ofDigits?, ofDigits_toDigits, h]

theorem ofDigits?_negative {m : Nat} (hpos : 0 < m)
    (h : m ≤ 9223372036854775808) :
    Numeral.ofDigits? ⟨true, Nat.toDigits 10 m, [], none⟩ =
      some (.integer (-m)) := by
  simp [Numeral.ofDigits?, ofDigits_toDigits, hpos, h]

theorem toList_decimalInt (n : Int) :
    (Text.decimalInt n).toList =
      if n < 0 then '-' :: Nat.toDigits 10 n.natAbs
        else Nat.toDigits 10 n.natAbs := by
  unfold Text.decimalInt
  split <;> simp [Nat.repr_eq_ofList_toDigits]

/-- A character that a number may start with. -/
def StartsNumber (c : Char) : Prop := c = '-' ∨ c.isDigit = true

instance (c : Char) : Decidable (StartsNumber c) :=
  inferInstanceAs (Decidable (_ ∨ _))

theorem StartsNumber.ne {c d : Char} (h : StartsNumber c)
    (hd : ¬StartsNumber d) : c ≠ d := by
  rintro rfl
  exact hd h

theorem StartsNumber.isSpace {c : Char} (h : StartsNumber c) :
    isSpace c = false := by
  simp only [Json.isSpace, Bool.or_eq_false_iff, decide_eq_false_iff_not]
  refine ⟨⟨⟨?_, ?_⟩, ?_⟩, ?_⟩ <;> exact h.ne (by decide)

/-- The text of a whole number starts as a number does. -/
theorem exists_decimalInt_eq (n : Int) :
    ∃ c cs, (Text.decimalInt n).toList = c :: cs ∧ StartsNumber c := by
  rw [toList_decimalInt]
  split
  · exact ⟨_, _, rfl, .inl rfl⟩
  · cases hdigits : Nat.toDigits 10 n.natAbs with
    | nil => exact absurd hdigits Nat.toDigits_ne_nil
    | cons d ds =>
      exact ⟨d, ds, rfl, .inr (isDigit_toDigits d
        (hdigits ▸ List.mem_cons_self))⟩

/-- A whole number that was written is read back. -/
theorem readNumber_decimalInt {n : Int} (hn : IsWhole n) {rest : List Char}
    (hrest : Follows rest) :
    readNumber ((Text.decimalInt n).toList ++ rest) =
      (.number (.integer n), some rest) := by
  obtain ⟨hlow, hhigh⟩ := hn
  rw [toList_decimalInt]
  split
  · rename_i hneg
    have hvalue := ofDigits?_negative (m := n.natAbs) (by omega) (by omega)
    rw [show -(n.natAbs : Int) = n by omega] at hvalue
    show readUnsigned true (Nat.toDigits 10 n.natAbs ++ rest) = _
    rw [readUnsigned_toDigits true _ hrest, finishNumber, hvalue]
  · rename_i hpos
    have hvalue :=
      ofDigits?_natural (m := n.natAbs) (by unfold maxSignificand; omega)
    rw [show (n.natAbs : Int) = n by omega] at hvalue
    have hplain : readNumber (Nat.toDigits 10 n.natAbs ++ rest) =
        readUnsigned false (Nat.toDigits 10 n.natAbs ++ rest) := by
      cases hdigits : Nat.toDigits 10 n.natAbs with
      | nil => exact absurd hdigits Nat.toDigits_ne_nil
      | cons d ds =>
        have hd := isDigit_toDigits d (hdigits ▸ List.mem_cons_self)
        rw [List.cons_append, readNumber.eq_def]
        split
        · rename_i heq
          cases heq
          cases hd
        · rfl
    rw [hplain, readUnsigned_toDigits false _ hrest, finishNumber, hvalue]

/-! ## Values -/

/-- Every number of a value is one that a reader takes for what it is. -/
inductive Fits : Json → Prop
  | null : Fits .null
  | bool (b : Bool) : Fits (.bool b)
  | number {n : Int} (hn : IsWhole n) : Fits (.number n)
  | string (s : String) : Fits (.string s)
  | array {items : List Json} (h : ∀ j ∈ items, Fits j) : Fits (.array items)
  | object {members : List (String × Json)} (h : ∀ m ∈ members, Fits m.2) :
      Fits (.object members)

mutual

/-- What the text of a value holds. -/
def document : Json → Document
  | .null => .null
  | .bool b => .boolean b
  | .number n => .number (.integer n)
  | .string s => .string s
  | .array items => .array (documents items) none
  | .object members => .object (memberDocuments members) none

/-- What the texts of the items of an array hold. -/
def documents : List Json → List Document
  | [] => []
  | item :: items => document item :: documents items

/-- What the texts of the members of an object hold. -/
def memberDocuments : List (String × Json) → List (Key × Document)
  | [] => []
  | (key, value) :: members =>
    (.name key, document value) :: memberDocuments members

end

/-- The text of a value is read back, with fuel for each of its characters. -/
structure Reads (j : Json) : Prop where
  grows : ∀ rest, rest.length < (write j rest).length
  reads : ∀ fuel rest, Follows rest →
    (write j rest).length ≤ fuel + rest.length →
    readValue fuel (write j rest) = (document j, some rest)

/-- A text begins neither with a space nor with the end of an array. -/
def Begins (cs : List Char) : Prop :=
  ∃ c cs', cs = c :: cs' ∧ isSpace c = false ∧ c ≠ ']'

theorem begins_write (j : Json) (rest : List Char) : Begins (write j rest) := by
  cases j with
  | null => exact ⟨_, _, rfl, by decide, by decide⟩
  | bool b => cases b <;> exact ⟨_, _, rfl, by decide, by decide⟩
  | string s => exact ⟨_, _, rfl, by decide, by decide⟩
  | array items => cases items <;> exact ⟨_, _, rfl, by decide, by decide⟩
  | object members =>
    rcases members with _ | ⟨⟨key, value⟩, members⟩ <;>
      exact ⟨_, _, rfl, by decide, by decide⟩
  | number n =>
    obtain ⟨c, cs, heq, hstarts⟩ := exists_decimalInt_eq n
    exact ⟨c, cs ++ rest, by rw [write, heq]; rfl, hstarts.isSpace,
      hstarts.ne (by decide)⟩

theorem skipSpaces_cons {c : Char} {cs : List Char} (h : isSpace c = false) :
    skipSpaces (c :: cs) = c :: cs := by
  simp [skipSpaces, h]

/-! ### Arrays -/

theorem lt_length_writeItems {items : List Json} (h : ∀ j ∈ items, Reads j)
    (rest : List Char) : rest.length < (writeItems items rest).length := by
  induction items with
  | nil => simp [writeItems]
  | cons item items ih =>
    have hrest := ih fun j hj => h j (List.mem_cons_of_mem item hj)
    have hitem := (h item List.mem_cons_self).grows (writeItems items rest)
    rw [writeItems, List.length_cons]
    omega

theorem readItems_last {fuel : Nat} {cs cs₁ after rest : List Char}
    {d : Document} (hcs : skipSpaces cs = cs₁) (hbegins : Begins cs₁)
    (hread : readValue fuel cs₁ = (d, some after))
    (hafter : skipSpaces after = ']' :: rest) :
    readItems (fuel + 1) cs = ([d], none, some rest) := by
  obtain ⟨c, cs₁, rfl, hspace, hne⟩ := hbegins
  rw [readItems, hcs]
  simp [hne, hread, hafter]

theorem readItems_next {fuel : Nat} {cs cs₁ after rest : List Char}
    {d : Document} {ds : List Document} {last : List Char}
    (hcs : skipSpaces cs = cs₁) (hbegins : Begins cs₁)
    (hread : readValue fuel cs₁ = (d, some after))
    (hafter : skipSpaces after = ',' :: rest)
    (hrest : readItems fuel rest = (ds, none, some last)) :
    readItems (fuel + 1) cs = (d :: ds, none, some last) := by
  obtain ⟨c, cs₁, rfl, hspace, hne⟩ := hbegins
  rw [readItems, hcs]
  simp [hne, hread, hafter, hrest]

theorem Begins.skipSpaces_eq {cs : List Char} (h : Begins cs) :
    skipSpaces cs = cs := by
  obtain ⟨c, cs, rfl, hspace, -⟩ := h
  exact skipSpaces_cons hspace

/-- The items of an array are read back. -/
theorem readItems_write {item : Json} {items : List Json}
    (h : ∀ j ∈ item :: items, Reads j) {fuel : Nat} {rest : List Char}
    (hfuel : (write item (writeItems items rest)).length ≤ fuel + rest.length) :
    readItems fuel (write item (writeItems items rest)) =
      (documents (item :: items), none, some rest) := by
  induction items generalizing item fuel with
  | nil =>
    have hitem := h item List.mem_cons_self
    have hgrows := hitem.grows (']' :: rest)
    rw [writeItems] at hfuel ⊢
    rw [List.length_cons] at hgrows
    obtain ⟨fuel, rfl⟩ : ∃ f, fuel = f + 1 := ⟨fuel - 1, by omega⟩
    refine readItems_last (begins_write item _).skipSpaces_eq
      (begins_write item _)
      (hitem.reads fuel _ (.bracket rest) ?_) (skipSpaces_cons rfl)
    rw [List.length_cons]
    omega
  | cons next items ih =>
    have hitem := h item List.mem_cons_self
    have hgrows := hitem.grows (',' :: write next (writeItems items rest))
    have hnext := (h next (by simp)).grows (writeItems items rest)
    have hitems : rest.length < (writeItems items rest).length :=
      lt_length_writeItems (fun j hj => h j (by simp [hj])) rest
    rw [writeItems] at hfuel ⊢
    rw [List.length_cons] at hgrows
    obtain ⟨fuel, rfl⟩ : ∃ f, fuel = f + 1 := ⟨fuel - 1, by omega⟩
    refine readItems_next (begins_write item _).skipSpaces_eq
      (begins_write item _)
      (hitem.reads fuel _ (.comma _) ?_) (skipSpaces_cons rfl)
      (ih (fun j hj => h j (List.mem_cons_of_mem item hj)) (by omega))
    rw [List.length_cons]
    omega

theorem reads_array {items : List Json} (h : ∀ j ∈ items, Reads j) :
    Reads (.array items) := by
  cases items with
  | nil =>
    refine ⟨fun rest => ?_, fun fuel rest _ hfuel => ?_⟩
    · rw [write, List.length_cons, List.length_cons]
      omega
    simp only [write, List.length_cons] at hfuel ⊢
    obtain ⟨fuel, rfl⟩ : ∃ f, fuel = f + 1 := ⟨fuel - 1, by omega⟩
    rfl
  | cons item items =>
    have hgrows (rest : List Char) :
        rest.length < (write item (writeItems items rest)).length :=
      Nat.lt_trans (lt_length_writeItems
        (fun j hj => h j (List.mem_cons_of_mem item hj)) rest)
        ((h item List.mem_cons_self).grows _)
    refine ⟨fun rest => ?_, fun fuel rest _ hfuel => ?_⟩
    · rw [write, List.length_cons]
      exact Nat.lt_succ_of_lt (hgrows rest)
    · have hfirst := hgrows rest
      rw [write, List.length_cons] at hfuel
      obtain ⟨fuel, rfl⟩ : ∃ f, fuel = f + 1 := ⟨fuel - 1, by omega⟩
      have hread : readItems fuel (write item (writeItems items rest)) = _ :=
        readItems_write h (by omega)
      obtain ⟨c, cs, hcs, hspace, hne⟩ :=
        begins_write item (writeItems items rest)
      rw [write]
      rw [hcs] at hread ⊢
      rw [readValue, skipSpaces_cons (by rfl)]
      simp [skipSpaces_cons hspace, hne, hread, document]

/-! ### Objects -/

theorem length_writeString (s : String) (rest : List Char) :
    rest.length + 2 ≤ (writeString s rest).length := by
  have hchars (cs : List Char) :
      rest.length + 1 ≤ (writeChars cs rest).length := by
    induction cs with
    | nil => simp [writeChars]
    | cons c cs ih =>
      rw [writeChars, List.length_append]
      omega
  have h := hchars s.toList
  rw [writeString, List.length_cons]
  omega

theorem lt_length_member (key : String) {value : Json} (hvalue : Reads value)
    (rest : List Char) :
    rest.length < (writeString key (':' :: write value rest)).length := by
  have hgrows := hvalue.grows rest
  have hkey := length_writeString key (':' :: write value rest)
  rw [List.length_cons] at hkey
  omega

theorem lt_length_writeMembers {members : List (String × Json)}
    (h : ∀ m ∈ members, Reads m.2) (rest : List Char) :
    rest.length < (writeMembers members rest).length := by
  induction members with
  | nil => simp [writeMembers]
  | cons member members ih =>
    obtain ⟨key, value⟩ := member
    have hrest := ih fun m hm => h m (List.mem_cons_of_mem _ hm)
    have hvalue : Reads value := h (key, value) List.mem_cons_self
    have hmember := lt_length_member key hvalue (writeMembers members rest)
    rw [writeMembers, List.length_cons]
    omega

theorem readMembers_writeString (fuel : Nat) (key : String) (cs : List Char) :
    readMembers (fuel + 1) (writeString key cs) =
      readMember fuel (.name key) cs := by
  rw [writeString, readMembers, skipSpaces_cons (by rfl)]
  simp [readString_writeString]

theorem readMember_last {fuel : Nat} {key : Key} {cs cs₁ after rest : List Char}
    {d : Document} (hcolon : skipSpaces cs = ':' :: cs₁)
    (hread : readValue fuel cs₁ = (d, some after))
    (hafter : skipSpaces after = '\x7d' :: rest) :
    readMember (fuel + 1) key cs = ([(key, d)], none, some rest) := by
  rw [readMember, hcolon]
  simp [hread, hafter]

theorem readMember_next {fuel : Nat} {key : Key} {cs cs₁ after rest : List Char}
    {d : Document} {ds : List (Key × Document)} {last : List Char}
    (hcolon : skipSpaces cs = ':' :: cs₁)
    (hread : readValue fuel cs₁ = (d, some after))
    (hafter : skipSpaces after = ',' :: rest)
    (hrest : readMembers fuel rest = (ds, none, some last)) :
    readMember (fuel + 1) key cs = ((key, d) :: ds, none, some last) := by
  rw [readMember, hcolon]
  simp [hread, hafter, hrest]

/-- The members of an object are read back. -/
theorem readMembers_write {key : String} {value : Json}
    {members : List (String × Json)}
    (h : ∀ m ∈ (key, value) :: members, Reads m.2) {fuel : Nat}
    {rest : List Char}
    (hfuel : (writeString key (':' :: write value
      (writeMembers members rest))).length ≤ fuel + rest.length) :
    readMembers fuel (writeString key
        (':' :: write value (writeMembers members rest))) =
      (memberDocuments ((key, value) :: members), none, some rest) := by
  have hvalue : Reads value := h (key, value) List.mem_cons_self
  induction members generalizing key value fuel with
  | nil =>
    have hkey := length_writeString key (':' :: write value ('\x7d' :: rest))
    have hgrows := hvalue.grows ('\x7d' :: rest)
    rw [writeMembers] at hfuel ⊢
    rw [List.length_cons] at hkey hgrows
    obtain ⟨fuel, rfl⟩ : ∃ f, fuel = f + 1 + 1 := ⟨fuel - 2, by omega⟩
    rw [readMembers_writeString]
    refine readMember_last (skipSpaces_cons rfl)
      (hvalue.reads fuel _ (.brace rest) ?_) (skipSpaces_cons rfl)
    rw [List.length_cons]
    omega
  | cons next members ih =>
    obtain ⟨nextKey, nextValue⟩ := next
    have hothers : ∀ m ∈ (nextKey, nextValue) :: members, Reads m.2 :=
      fun m hm =>
      h m (List.mem_cons_of_mem _ hm)
    have hmembers := lt_length_writeMembers hothers rest
    rw [writeMembers] at hfuel hmembers ⊢
    have hkey :=
      length_writeString key (':' :: write value (',' :: writeString nextKey
      (':' :: write nextValue (writeMembers members rest))))
    have hgrows := hvalue.grows (',' :: writeString nextKey
      (':' :: write nextValue (writeMembers members rest)))
    rw [List.length_cons] at hkey hgrows hmembers
    obtain ⟨fuel, rfl⟩ : ∃ f, fuel = f + 1 + 1 := ⟨fuel - 2, by omega⟩
    rw [readMembers_writeString]
    refine readMember_next (skipSpaces_cons rfl)
      (hvalue.reads fuel _ (.comma _) ?_)
      (skipSpaces_cons rfl) (ih hothers (by omega)
        (hothers _ List.mem_cons_self))
    rw [List.length_cons]
    omega

theorem reads_object {members : List (String × Json)}
    (h : ∀ m ∈ members, Reads m.2) : Reads (.object members) := by
  rcases members with _ | ⟨⟨key, value⟩, members⟩
  · refine ⟨fun rest => ?_, fun fuel rest _ hfuel => ?_⟩
    · rw [write, List.length_cons, List.length_cons]
      omega
    simp only [write, List.length_cons] at hfuel ⊢
    obtain ⟨fuel, rfl⟩ : ∃ f, fuel = f + 1 := ⟨fuel - 1, by omega⟩
    rfl
  · have hgrows (rest : List Char) : rest.length <
        (writeString key (':' :: write value
          (writeMembers members rest))).length :=
      Nat.lt_trans (lt_length_writeMembers
        (fun m hm => h m (List.mem_cons_of_mem _ hm)) rest)
        (lt_length_member key (h (key, value) List.mem_cons_self) _)
    refine ⟨fun rest => ?_, fun fuel rest _ hfuel => ?_⟩
    · rw [write, List.length_cons]
      exact Nat.lt_succ_of_lt (hgrows rest)
    · have hfirst := hgrows rest
      rw [write, List.length_cons] at hfuel
      obtain ⟨fuel, rfl⟩ : ∃ f, fuel = f + 1 := ⟨fuel - 1, by omega⟩
      have hread : readMembers fuel
          (writeString key (':' :: write value (writeMembers members rest))) =
          _ :=
        readMembers_write h (by omega)
      rw [write, readValue, skipSpaces_cons (by rfl)]
      rw [writeString] at hread ⊢
      simp [skipSpaces_cons (show isSpace '"' = false from rfl),
        hread, document]

/-! ### Every value -/

theorem readValue_scalar (fuel : Nat) {c : Char} (cs : List Char)
    (hspace : isSpace c = false) (harray : c ≠ '[') (hobject : c ≠ '\x7b') :
    readValue (fuel + 1) (c :: cs) = readScalar c cs := by
  rw [readValue, skipSpaces_cons hspace]
  simp [harray, hobject]

/-- The text of a value that nests none is read back. -/
theorem reads_scalar {j : Json}
    (hwrite : ∀ rest, ∃ c cs, write j rest = c :: cs ∧ rest.length ≤ cs.length ∧
      isSpace c = false ∧ c ≠ '[' ∧ c ≠ '\x7b' ∧
      (Follows rest → readScalar c cs = (document j, some rest))) :
    Reads j where
  grows rest := by
    obtain ⟨c, cs, heq, hle, -⟩ := hwrite rest
    rw [heq, List.length_cons]
    omega
  reads fuel rest hrest hfuel := by
    obtain ⟨c, cs, heq, hle, hspace, harray, hobject, hread⟩ := hwrite rest
    rw [heq, List.length_cons] at hfuel
    obtain ⟨fuel, rfl⟩ : ∃ f, fuel = f + 1 := ⟨fuel - 1, by omega⟩
    rw [heq, readValue_scalar fuel cs hspace harray hobject, hread hrest]

/-- A scalar that starts as a number does is read as one. -/
theorem readScalar_number {c : Char} (h : StartsNumber c) (cs : List Char) :
    readScalar c cs = readNumber (c :: cs) := by
  have hnumber : (c = '-' || c.isDigit) = true := by
    simpa [StartsNumber] using h
  rw [readScalar, if_neg (h.ne (by decide)), if_neg (h.ne (by decide)),
    if_neg (h.ne (by decide)), if_neg (h.ne (by decide)), if_pos hnumber]

theorem reads_number {n : Int} (hn : IsWhole n) : Reads (.number n) := by
  refine reads_scalar fun rest => ?_
  obtain ⟨c, cs, heq, hstarts⟩ := exists_decimalInt_eq n
  refine ⟨c, cs ++ rest, by rw [write, heq]; rfl, by simp, hstarts.isSpace,
    hstarts.ne (by decide), hstarts.ne (by decide), fun hrest => ?_⟩
  have hread := readNumber_decimalInt hn hrest
  rw [heq, List.cons_append] at hread
  rw [readScalar_number hstarts, hread]
  rfl

/-- Every value whose numbers fit is read back. -/
theorem Fits.reads {j : Json} (h : Fits j) : Reads j := by
  induction h with
  | null =>
    refine reads_scalar fun rest => ?_
    exact ⟨_, _, rfl, by simp; omega, by decide, by decide, by
      decide, fun _ => rfl⟩
  | bool b =>
    refine reads_scalar fun rest => ?_
    cases b <;>
      exact ⟨_, _, rfl, by simp; omega, by decide, by decide, by
        decide, fun _ => rfl⟩
  | number hn => exact reads_number hn
  | string s =>
    refine reads_scalar fun rest => ?_
    have hlength := length_writeString s rest
    refine ⟨_, _, rfl, ?_, by decide, by decide, by decide, fun _ => ?_⟩
    · rw [writeString, List.length_cons] at hlength
      omega
    · simp [readScalar, readStringValue, readString_writeString, document]
  | array _ ih => exact reads_array ih
  | object _ ih => exact reads_object ih

/-- The text of a value is read as the document of the value and nothing
more. -/
theorem read_text {j : Json} (h : Fits j) :
    read j.text = ⟨document j, false⟩ := by
  have hread := h.reads.reads (2 * (write j []).length + 1) [] .nil (by omega)
  simp only [read, text, String.toList_ofList, hread]
  rfl

end CloudAccess.Json
