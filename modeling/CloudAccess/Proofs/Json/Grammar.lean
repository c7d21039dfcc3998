import CloudAccess.Json.Reader

/-!
# The grammar of JSON

Which texts are JSON and what they hold, without a reader.  A production of the
grammar relates what it stands for to the text in front of it and to what is
left of that text behind it.

* `Tree` is what a text holds as it is written: strings in pieces, numbers in
  digits, members in their order and as often as they occur.
* `Grammar.Characters` and `Grammar.Number` are the productions of strings and
  numbers, `Grammar.Value`, `Element`, `Elements`, `Member` and `Members` those
  of values.
* `Grammar.Text` relates a whole text to the tree that it holds.
* `Grammar.Says` tells which characters the pieces of a string stand for.  There
  are none for a string in which half of a surrogate pair stands alone.
-/

namespace CloudAccess.Json

/-- What a text holds, as it is written. -/
inductive Tree
  | null
  | boolean (b : Bool)
  | number (d : Digits)
  | string (pieces : List Piece)
  | array (items : List Tree)
  | object (members : List (List Piece × Tree))

namespace Grammar

/-- Any number of spaces. -/
inductive Spaces : List Char → List Char → Prop
  | none {cs : List Char} : Spaces cs cs
  | space {c : Char} {cs rest : List Char} (hc : isSpace c = true)
      (h : Spaces cs rest) :
      Spaces (c :: cs) rest

/-! ## Strings -/

/-- The pieces of a string up to its closing quote. -/
inductive Characters : List Piece → List Char → List Char → Prop
  | close {rest : List Char} : Characters [] ('"' :: rest) rest
  | plain {c : Char} {pieces : List Piece} {cs rest : List Char}
      (hquote : c ≠ '"') (hbackslash : c ≠ '\\') (hcontrol : ¬c.toNat < 0x20)
      (h : Characters pieces cs rest) :
      Characters (.char c :: pieces) (c :: cs) rest
  | short {e c : Char} {pieces : List Piece} {cs rest : List Char}
      (he : shortEscape e = some c) (h : Characters pieces cs rest) :
      Characters (.char c :: pieces) ('\\' :: e :: cs) rest
  | unit {x y z w : Char} {n : Nat} {pieces : List Piece} {cs rest : List Char}
      (hn : hexUnit x y z w = some n) (h : Characters pieces cs rest) :
      Characters (.unit n :: pieces)
        ('\\' :: 'u' :: x :: y :: z :: w :: cs) rest

/-- The characters that the pieces of a string stand for.  Two code units that
make up a surrogate pair stand for one character, and half of a pair alone for
none. -/
inductive Says : List Piece → List Char → Prop
  | nil : Says [] []
  | char (c : Char) {pieces : List Piece} {cs : List Char}
      (h : Says pieces cs) :
      Says (.char c :: pieces) (c :: cs)
  | unit {n : Nat} {pieces : List Piece} {cs : List Char}
      (hhigh : isHighSurrogate n = false) (hlow : isLowSurrogate n = false)
      (h : Says pieces cs) :
      Says (.unit n :: pieces) (Char.ofNat n :: cs)
  | pair {high low : Nat} {pieces : List Piece} {cs : List Char}
      (hhigh : isHighSurrogate high = true) (hlow : isLowSurrogate low = true)
      (h : Says pieces cs) :
      Says (.unit high :: .unit low :: pieces) (pairChar high low :: cs)

/-! ## Numbers -/

/-- One digit at least. -/
def Run (digits : List Char) : Prop :=
  digits ≠ [] ∧ ∀ c ∈ digits, c.isDigit = true

/-- The digits of a whole part: a zero in front stands alone. -/
def Whole (digits : List Char) : Prop :=
  Run digits ∧ ∀ others, digits = '0' :: others → others = []

/-- A minus sign or none. -/
inductive Minus : Bool → List Char → List Char → Prop
  | absent {rest : List Char} : Minus false rest rest
  | present {rest : List Char} : Minus true ('-' :: rest) rest

/-- The digits of a fraction, or none. -/
inductive Fraction : List Char → List Char → List Char → Prop
  | absent {rest : List Char} : Fraction [] rest rest
  | present {digits rest : List Char} (h : Run digits) :
      Fraction digits ('.' :: (digits ++ rest)) rest

/-- A sign of either kind or none. -/
inductive Sign : Bool → List Char → List Char → Prop
  | absent {rest : List Char} : Sign false rest rest
  | plus {rest : List Char} : Sign false ('+' :: rest) rest
  | minus {rest : List Char} : Sign true ('-' :: rest) rest

/-- An exponent or none. -/
inductive Power : Option Exponent → List Char → List Char → Prop
  | absent {rest : List Char} : Power none rest rest
  | present {e : Char} {negative : Bool} {digits cs rest : List Char}
      (he : e = 'e' ∨ e = 'E') (hsign : Sign negative cs (digits ++ rest))
      (h : Run digits) :
      Power (some ⟨negative, digits⟩) (e :: cs) rest

/-- The digits of a number. -/
inductive Number : Digits → List Char → List Char → Prop
  | mk {negative : Bool} {whole fraction : List Char}
      {exponent : Option Exponent} {cs cs₁ cs₂ rest : List Char}
      (hminus : Minus negative cs (whole ++ cs₁)) (hwhole : Whole whole)
      (hfraction : Fraction fraction cs₁ cs₂)
      (hexponent : Power exponent cs₂ rest) :
      Number ⟨negative, whole, fraction, exponent⟩ cs rest

/-! ## Values -/

mutual

/-- A value. -/
inductive Value : Tree → List Char → List Char → Prop
  | null {rest : List Char} :
      Value .null ('n' :: 'u' :: 'l' :: 'l' :: rest) rest
  | true {rest : List Char} :
      Value (.boolean true) ('t' :: 'r' :: 'u' :: 'e' :: rest) rest
  | false {rest : List Char} :
      Value (.boolean false) ('f' :: 'a' :: 'l' :: 's' :: 'e' :: rest) rest
  | number {d : Digits} {cs rest : List Char} (h : Number d cs rest) :
      Value (.number d) cs rest
  | string {pieces : List Piece} {cs rest : List Char}
      (h : Characters pieces cs rest) :
      Value (.string pieces) ('"' :: cs) rest
  | emptyArray {cs rest : List Char} (h : Spaces cs (']' :: rest)) :
      Value (.array []) ('[' :: cs) rest
  | array {items : List Tree} {cs rest : List Char}
      (h : Elements items cs (']' :: rest)) :
      Value (.array items) ('[' :: cs) rest
  | emptyObject {cs rest : List Char} (h : Spaces cs ('\x7d' :: rest)) :
      Value (.object []) ('\x7b' :: cs) rest
  | object {members : List (List Piece × Tree)} {cs rest : List Char}
      (h : Members members cs ('\x7d' :: rest)) :
      Value (.object members) ('\x7b' :: cs) rest

/-- A value between spaces. -/
inductive Element : Tree → List Char → List Char → Prop
  | mk {t : Tree} {cs cs₁ cs₂ rest : List Char} (hbefore : Spaces cs cs₁)
      (h : Value t cs₁ cs₂) (hafter : Spaces cs₂ rest) : Element t cs rest

/-- Values between spaces, one at least, with commas between them. -/
inductive Elements : List Tree → List Char → List Char → Prop
  | last {t : Tree} {cs rest : List Char} (h : Element t cs rest) :
      Elements [t] cs rest
  | next {t : Tree} {items : List Tree} {cs cs₁ rest : List Char}
      (h : Element t cs (',' :: cs₁)) (hmore : Elements items cs₁ rest) :
      Elements (t :: items) cs rest

/-- A name between spaces, a colon, and a value between spaces. -/
inductive Member : List Piece × Tree → List Char → List Char → Prop
  | mk {name : List Piece} {t : Tree} {cs cs₁ cs₂ cs₃ rest : List Char}
      (hbefore : Spaces cs ('"' :: cs₁)) (hname : Characters name cs₁ cs₂)
      (hafter : Spaces cs₂ (':' :: cs₃)) (h : Element t cs₃ rest) :
      Member (name, t) cs rest

/-- Members, one at least, with commas between them. -/
inductive Members : List (List Piece × Tree) → List Char → List Char → Prop
  | last {m : List Piece × Tree} {cs rest : List Char} (h : Member m cs rest) :
      Members [m] cs rest
  | next {m : List Piece × Tree} {members : List (List Piece × Tree)}
      {cs cs₁ rest : List Char} (h : Member m cs (',' :: cs₁))
      (hmore : Members members cs₁ rest) :
      Members (m :: members) cs rest

end

/-- A whole text is one value between spaces. -/
def Text (text : String) (t : Tree) : Prop := Element t text.toList []

/-! ## What productions take off a text -/

theorem Spaces.length_le {cs rest : List Char} (h : Spaces cs rest) :
    rest.length ≤ cs.length := by
  induction h with
  | none => exact Nat.le_refl _
  | space _ _ ih => exact Nat.le_succ_of_le ih

theorem Characters.length_lt {pieces : List Piece} {cs rest : List Char}
    (h : Characters pieces cs rest) : rest.length < cs.length := by
  induction h with
  | close => exact Nat.lt_succ_self _
  | plain _ _ _ _ ih => exact Nat.lt_succ_of_lt ih
  | short | unit => simp only [List.length_cons]; omega

theorem Run.length_pos {digits : List Char} (h : Run digits) :
    0 < digits.length :=
  List.length_pos_iff.2 h.1

theorem Minus.length_le {negative : Bool} {cs rest : List Char}
    (h : Minus negative cs rest) : rest.length ≤ cs.length := by
  cases h <;> simp

theorem Fraction.length_le {digits cs rest : List Char}
    (h : Fraction digits cs rest) : rest.length ≤ cs.length := by
  cases h <;> simp; omega

theorem Sign.length_le {negative : Bool} {cs rest : List Char}
    (h : Sign negative cs rest) : rest.length ≤ cs.length := by
  cases h <;> simp

theorem Power.length_le {exponent : Option Exponent} {cs rest : List Char}
    (h : Power exponent cs rest) : rest.length ≤ cs.length := by
  cases h with
  | absent => exact Nat.le_refl _
  | present _ hsign _ =>
    have hle := hsign.length_le
    simp only [List.length_append, List.length_cons] at hle ⊢
    omega

theorem Number.length_lt {d : Digits} {cs rest : List Char}
    (h : Number d cs rest) : rest.length < cs.length := by
  cases h with
  | mk hminus hwhole hfraction hexponent =>
    have hsign := hminus.length_le
    have hdigits := hwhole.1.length_pos
    have hpoint := hfraction.length_le
    have hpower := hexponent.length_le
    rw [List.length_append] at hsign
    omega

mutual

theorem Value.length_lt {t : Tree} {cs rest : List Char} :
    Value t cs rest → rest.length < cs.length
  | .null | .true | .false => by simp only [List.length_cons]; omega
  | .number h => h.length_lt
  | .string h => Nat.lt_succ_of_lt h.length_lt
  | .emptyArray h | .emptyObject h => by
    have hle := h.length_le
    simp only [List.length_cons] at hle ⊢
    omega
  | .array h => by
    have hlt := h.length_lt
    simp only [List.length_cons] at hlt ⊢
    omega
  | .object h => by
    have hlt := h.length_lt
    simp only [List.length_cons] at hlt ⊢
    omega

theorem Element.length_lt {t : Tree} {cs rest : List Char} :
    Element t cs rest → rest.length < cs.length
  | .mk hbefore h hafter =>
    Nat.lt_of_le_of_lt hafter.length_le
      (Nat.lt_of_lt_of_le h.length_lt hbefore.length_le)

theorem Elements.length_lt {items : List Tree} {cs rest : List Char} :
    Elements items cs rest → rest.length < cs.length
  | .last h => h.length_lt
  | .next h hmore =>
    Nat.lt_trans (Nat.lt_succ_of_lt hmore.length_lt) h.length_lt

theorem Member.length_add_le {m : List Piece × Tree} {cs rest : List Char} :
    Member m cs rest → rest.length + 4 ≤ cs.length
  | .mk hbefore hname hafter h => by
    have hspaces := hbefore.length_le
    have hchars := hname.length_lt
    have hcolon := hafter.length_le
    have hvalue := h.length_lt
    simp only [List.length_cons] at hspaces hcolon
    omega

theorem Members.length_lt {members : List (List Piece × Tree)}
    {cs rest : List Char} :
    Members members cs rest → rest.length < cs.length
  | .last h => by
    have hlt := h.length_add_le
    omega
  | .next h hmore => by
    have hlt := h.length_add_le
    have hothers := hmore.length_lt
    rw [List.length_cons] at hlt
    omega

end

end Grammar

end CloudAccess.Json
