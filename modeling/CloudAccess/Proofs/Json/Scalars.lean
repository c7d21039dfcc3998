import CloudAccess.Proofs.Json.Grammar
import CloudAccess.Proofs.Json.RoundTrip
import Mathlib.Data.List.TakeWhile

/-!
# Reading strings and numbers

The readers of strings and numbers find what the grammar says and nothing else.

* `Tree.document` is what a reader finds where a tree is written.
* `scanString_of_characters` and `characters_of_scanString` are about the pieces
  of strings, `assemble_eq_some_iff` about the characters that they stand for.
* `Finds` says that a reader finds a value or meets the place where the text
  stops being JSON.
* `finds_readNumber` says that what is found as a number is one,
  `readNumber_of_number` that every number is found, if the text ends there or
  goes on with something else (`Ends`).
-/

namespace CloudAccess.Json

open Grammar

/-! ## What a tree is read as -/

/-- What a reader finds where the digits of a number stand. -/
def Digits.document (d : Digits) : Document :=
  match Numeral.ofDigits? d with
  | some n => .number n
  | none => .unreadable .other .malformed none

/-- What a reader finds where the pieces of a string stand as a value. -/
def pieceDocument (pieces : List Piece) : Document :=
  match assemble pieces with
  | some s => .string (String.ofList s)
  | none => .unreadable .quote .malformed none

/-- What a reader finds where the pieces of a string stand as a name. -/
def pieceKey (pieces : List Piece) : Key :=
  match assemble pieces with
  | some s => .name (String.ofList s)
  | none => .unreadable .malformed none

namespace Tree

mutual

/-- What a reader finds where a tree is written. -/
def document : Tree → Document
  | .null => .null
  | .boolean b => .boolean b
  | .number d => d.document
  | .string pieces => pieceDocument pieces
  | .array items => .array (documents items) none
  | .object members => .object (memberDocuments members) none

/-- What a reader finds where the items of an array are written. -/
def documents : List Tree → List Document
  | [] => []
  | item :: items => document item :: documents items

/-- What a reader finds where the members of an object are written. -/
def memberDocuments : List (List Piece × Tree) → List (Key × Document)
  | [] => []
  | (name, value) :: members =>
    (pieceKey name, document value) :: memberDocuments members

end

theorem passing_pieceKey (pieces : List Piece) :
    (pieceKey pieces).passing = none := by
  unfold pieceKey
  split <;> rfl

mutual

/-- What a tree is read as can be passed over. -/
theorem passing_document : (t : Tree) → t.document.passing = none
  | .null | .boolean _ => by rfl
  | .number d => by
    rw [document, Digits.document]
    split <;> rfl
  | .string pieces => by
    rw [document, pieceDocument]
    split <;> rfl
  | .array items => by
    rw [document, Document.passing]
    exact passing_documents items
  | .object members => by
    rw [document, Document.passing]
    exact passing_memberDocuments members

theorem passing_documents : (items : List Tree) →
    Document.passingItems (documents items) none = none
  | [] => rfl
  | item :: items => by
    rw [documents, Document.passingItems, passing_document item]
    exact passing_documents items

theorem passing_memberDocuments : (members : List (List Piece × Tree)) →
    Document.passingMembers (memberDocuments members) none = none
  | [] => rfl
  | (name, value) :: members => by
    rw [memberDocuments, Document.passingMembers, passing_pieceKey,
      passing_document value]
    exact passing_memberDocuments members

end

end Tree

/-! ## Spaces -/

theorem spaces_skipSpaces (cs : List Char) : Spaces cs (skipSpaces cs) := by
  induction cs with
  | nil => exact .none
  | cons c cs ih =>
    by_cases hc : isSpace c = true
    · rw [skipSpaces, List.dropWhile_cons_of_pos hc]
      exact .space hc ih
    · rw [skipSpaces, List.dropWhile_cons_of_neg hc]
      exact .none

theorem Grammar.Spaces.skipSpaces_eq {cs rest : List Char}
    (h : Spaces cs rest) : skipSpaces cs = skipSpaces rest := by
  induction h with
  | none => rfl
  | space hc _ ih =>
    rw [skipSpaces, List.dropWhile_cons_of_pos hc, ← ih, skipSpaces]

/-- Spaces end where something else stands. -/
theorem Grammar.Spaces.skipSpaces_eq_cons {cs rest : List Char} {c : Char}
    (h : Spaces cs (c :: rest)) (hc : isSpace c = false) :
    skipSpaces cs = c :: rest :=
  h.skipSpaces_eq.trans (skipSpaces_cons hc)

/-- What may follow a value: nothing, a space, or a mark that separates or
closes. -/
def Ends (rest : List Char) : Prop :=
  ∀ c ∈ rest.head?, isSpace c = true ∨ c = ',' ∨ c = ']' ∨ c = '\x7d'

theorem Grammar.Spaces.ends {cs rest : List Char} (h : Spaces cs rest)
    (hrest : Ends rest) : Ends cs := by
  cases h with
  | none => exact hrest
  | space hc _ =>
    intro c' hc'
    cases hc'
    exact .inl hc

/-! ## Strings -/

theorem scanString_of_characters {pieces : List Piece} {cs rest : List Char}
    (h : Characters pieces cs rest) : scanString cs = ⟨pieces, .ok rest⟩ := by
  induction h with
  | close => rw [scanString]
  | plain hquote hbackslash hcontrol _ ih =>
    rw [scanString_plain hquote hbackslash hcontrol, ih]
    rfl
  | short he _ ih =>
    rw [scanString_short he, ih]
    rfl
  | unit hn _ ih =>
    simp only [scanString, hn, ih]
    rfl

theorem StringScan.exists_of_push {p : Piece} {scan : StringScan}
    {pieces : List Piece} {rest : List Char}
    (h : scan.push p = ⟨pieces, .ok rest⟩) :
    ∃ others, pieces = p :: others ∧ scan = ⟨others, .ok rest⟩ := by
  obtain ⟨others, after⟩ := scan
  cases h
  exact ⟨others, rfl, rfl⟩

theorem characters_of_scanString {pieces : List Piece} {cs rest : List Char}
    (h : scanString cs = ⟨pieces, .ok rest⟩) : Characters pieces cs rest := by
  fun_induction scanString cs generalizing pieces with
  | case1 | case3 | case5 | case6 | case8 | case9 => cases h
  | case2 =>
    cases h
    exact .close
  | case4 _ _ _ _ _ _ hn ih =>
    obtain ⟨others, rfl, hscan⟩ := StringScan.exists_of_push h
    exact .unit hn (ih hscan)
  | case7 _ _ _ _ _ he ih =>
    obtain ⟨others, rfl, hscan⟩ := StringScan.exists_of_push h
    exact .short he (ih hscan)
  | case10 c cs hquote hlone _ _ hescape hcontrol ih =>
    obtain ⟨others, rfl, hscan⟩ := StringScan.exists_of_push h
    refine .plain hquote (fun hc => ?_) hcontrol (ih hscan)
    cases cs with
    | nil => exact hlone hc rfl
    | cons e cs => exact hescape e cs hc rfl

/-- The pieces of a string are joined to the characters that they stand for. -/
theorem assemble_eq_some_iff {pieces : List Piece} {cs : List Char} :
    assemble pieces = some cs ↔ Says pieces cs := by
  constructor
  · intro h
    fun_induction assemble pieces generalizing cs with
    | case1 =>
      cases h
      exact .nil
    | case2 c pieces ih =>
      obtain ⟨others, hothers, rfl⟩ := Option.map_eq_some_iff.1 h
      exact .char c (ih hothers)
    | case3 high low pieces hhigh hlow ih =>
      obtain ⟨others, hothers, rfl⟩ := Option.map_eq_some_iff.1 h
      exact .pair hhigh hlow (ih hothers)
    | case4 | case5 | case7 => cases h
    | case6 n low pieces hhigh hlow ih =>
      obtain ⟨others, hothers, rfl⟩ := Option.map_eq_some_iff.1 h
      exact .unit (by simpa using hhigh) (by simpa using hlow) (ih hothers)
    | case8 n pieces _ hplain ih =>
      obtain ⟨others, hothers, rfl⟩ := Option.map_eq_some_iff.1 h
      simp only [Bool.or_eq_true, not_or, Bool.not_eq_true] at hplain
      exact .unit hplain.1 hplain.2 (ih hothers)
  · intro h
    induction h with
    | nil => rfl
    | char c _ ih => simp [assemble, ih]
    | unit hhigh hlow _ ih => simp [assemble_unit hhigh hlow, ih]
    | pair hhigh hlow _ ih => simp [assemble, hhigh, hlow, ih]

/-- What a reader answers when it has come to the end of a string. -/
def stringReading (pieces : List Piece) (rest : List Char) : StringReading :=
  match assemble pieces with
  | some s => .text (String.ofList s) rest
  | none => .garbled rest

theorem readString_of_characters {pieces : List Piece} {cs rest : List Char}
    (h : Characters pieces cs rest) :
    readString cs = stringReading pieces rest := by
  simp only [readString, scanString_of_characters h]
  rfl

/-- A string is read up to its end, or the text stops being JSON in it. -/
theorem readString_cases (cs : List Char) :
    (∃ pieces rest, Characters pieces cs rest ∧
      readString cs = stringReading pieces rest) ∨
      ∃ reading passing, readString cs = .cut reading passing := by
  cases hscan : scanString cs with
  | mk pieces after =>
    cases after with
    | ok rest =>
      have h := characters_of_scanString hscan
      exact .inl ⟨pieces, rest, h, readString_of_characters h⟩
    | error f =>
      right
      simp only [readString, hscan]
      split <;> exact ⟨_, _, rfl⟩

/-! ## Numbers -/

/-- A value is found, or the text stops being JSON. -/
inductive Finds (Found : Document → List Char → Prop) : Reading → Prop
  | found {d : Document} {rest : List Char} (h : Found d rest) :
      Finds Found (d, some rest)
  | broken {d : Document} (h : d.passing ≠ none) : Finds Found (d, none)

section Finds

variable {Found Found' : Document → List Char → Prop} {reading : Reading}

theorem Finds.mono (h : Finds Found reading)
    (himp : ∀ d rest, Found d rest → Found' d rest) : Finds Found' reading := by
  cases h with
  | found h => exact .found (himp _ _ h)
  | broken h => exact .broken h

theorem finds_brokenReading (f : Fault) : Finds Found (brokenReading f) :=
  .broken fun h => by cases h

theorem finds_missingDigit (cs : List Char) :
    Finds Found (missingDigit cs) := by
  cases cs with
  | nil => exact .broken fun h => by cases h
  | cons => exact finds_brokenReading _

end Finds

theorem finishNumber_eq (d : Digits) (rest : List Char) :
    finishNumber d rest = (d.document, some rest) := by
  unfold finishNumber Digits.document
  cases Numeral.ofDigits? d <;> rfl

/-- The digits in front of a text are a run, if there are any. -/
theorem run_takeWhile {cs : List Char}
    (h : ¬(cs.takeWhile Char.isDigit).isEmpty = true) :
    Run (cs.takeWhile Char.isDigit) :=
  ⟨by simpa using h, fun _ hc => List.mem_takeWhile_imp hc⟩

theorem Grammar.Run.isDigit_head {digits cs rest : List Char} {c : Char}
    (h : Run digits) (heq : digits ++ rest = c :: cs) : c.isDigit = true := by
  cases digits with
  | nil => exact absurd rfl h.1
  | cons d digits =>
    cases heq
    exact h.2 _ List.mem_cons_self

theorem finds_readExponent {d : Digits} (hd : d.exponent = none)
    (cs : List Char) :
    Finds (fun doc rest => ∃ e, Power e cs rest ∧
      doc = Digits.document { d with exponent := e })
      (readExponent d cs) := by
  have habsent (cs : List Char) : Finds
      (fun doc rest => ∃ e, Power e cs rest ∧
        doc = Digits.document { d with exponent := e })
      (finishNumber d cs) := by
    rw [finishNumber_eq]
    exact .found ⟨none, .absent, by rw [← hd]⟩
  unfold readExponent
  split
  · rename_i c cs
    split
    · rename_i hc
      have he : c = 'e' ∨ c = 'E' := by simpa using hc
      have hpresent {negative : Bool} {after : List Char}
          (hsign : Sign negative cs after) : Finds (fun doc rest =>
              ∃ e, Power e (c :: cs) rest ∧
                doc = Digits.document { d with exponent := e })
            (if (after.takeWhile Char.isDigit).isEmpty then
                missingDigit (after.dropWhile Char.isDigit)
              else finishNumber
                { d with exponent := some ⟨negative, after.takeWhile Char.isDigit⟩ }
                (after.dropWhile Char.isDigit)) := by
        split
        · exact finds_missingDigit _
        · rename_i hne
          rw [finishNumber_eq]
          refine .found ⟨_, .present he ?_ (run_takeWhile hne), rfl⟩
          rwa [List.takeWhile_append_dropWhile]
      simp only
      split
      · exact hpresent .plus
      · exact hpresent .minus
      · exact hpresent .absent
    · exact habsent _
  · exact habsent []

theorem finds_readFraction {d : Digits} (hfraction : d.fraction = [])
    (hd : d.exponent = none) (cs : List Char) :
    Finds (fun doc rest => ∃ f e cs₁, Fraction f cs cs₁ ∧ Power e cs₁ rest ∧
        doc = Digits.document { d with fraction := f, exponent := e })
      (readFraction d cs) := by
  unfold readFraction
  split
  · rename_i cs
    simp only
    split
    · exact finds_missingDigit _
    · rename_i hne
      refine (finds_readExponent
        (d := { d with fraction := cs.takeWhile Char.isDigit }) hd _).mono ?_
      rintro doc rest ⟨e, he, rfl⟩
      refine ⟨_, e, _, ?_, he, rfl⟩
      have hpoint : Fraction _ _ (cs.dropWhile Char.isDigit) :=
        .present (run_takeWhile hne)
      rwa [List.takeWhile_append_dropWhile] at hpoint
  · refine (finds_readExponent hd _).mono ?_
    rintro doc rest ⟨e, he, rfl⟩
    exact ⟨[], e, cs, .absent, he, by rw [← hfraction]⟩

theorem finds_readUnsigned (negative : Bool) (cs : List Char) :
    Finds (fun doc rest => ∃ w f e cs₁ cs₂, cs = w ++ cs₁ ∧ Whole w ∧
      Fraction f cs₁ cs₂ ∧
        Power e cs₂ rest ∧ doc = Digits.document ⟨negative, w, f, e⟩)
      (readUnsigned negative cs) := by
  unfold readUnsigned
  simp only
  have hdigits := List.takeWhile_append_dropWhile (p := Char.isDigit) (l := cs)
  split
  · exact finds_missingDigit _
  · exact finds_brokenReading _
  · rename_i hnil hzero
    refine (finds_readFraction rfl rfl _).mono ?_
    rintro doc rest ⟨f, e, cs₂, hf, he, rfl⟩
    refine ⟨_, f, e, _, cs₂, hdigits.symm,
      ⟨run_takeWhile (by simpa using hnil), ?_⟩, hf, he, rfl⟩
    rintro (_ | ⟨other, others⟩) heq
    · rfl
    · exact absurd heq (hzero other others)

theorem finds_readNumber (cs : List Char) :
    Finds (fun doc rest => ∃ d, Number d cs rest ∧ doc = d.document)
      (readNumber cs) := by
  have hsigned {negative : Bool} {after : List Char}
      (hminus : Minus negative cs after) :
      Finds (fun doc rest => ∃ d, Number d cs rest ∧ doc = d.document)
        (readUnsigned negative after) := by
    refine (finds_readUnsigned negative after).mono ?_
    rintro doc rest ⟨w, f, e, cs₁, cs₂, rfl, hw, hf, he, rfl⟩
    exact ⟨_, .mk hminus hw hf he, rfl⟩
  unfold readNumber
  split
  · exact hsigned .present
  · exact hsigned .absent

/-! ### Every number of the grammar is found -/

/-- What follows a value does not go on with a number. -/
theorem Ends.head {rest : List Char} (h : Ends rest) :
    ∀ c ∈ rest.head?, c.isDigit = false ∧ c ≠ '.' ∧ c ≠ 'e' ∧ c ≠ 'E' := by
  intro c hc
  rcases h c hc with hspace | rfl | rfl | rfl
  · simp only [isSpace, Bool.or_eq_true, decide_eq_true_eq] at hspace
    rcases hspace with ((rfl | rfl) | rfl) | rfl <;> decide
  all_goals decide

theorem Grammar.Power.head {exponent : Option Exponent} {cs rest : List Char}
    (h : Power exponent cs rest) (hrest : Ends rest) :
    ∀ c ∈ cs.head?, c.isDigit = false ∧ c ≠ '.' := by
  cases h with
  | absent => exact fun c hc => ⟨(hrest.head c hc).1, (hrest.head c hc).2.1⟩
  | present he =>
    intro c hc
    cases hc
    rcases he with rfl | rfl <;> decide

theorem Grammar.Fraction.head {digits cs cs₁ rest : List Char}
    {exponent : Option Exponent} (h : Fraction digits cs cs₁)
    (hpower : Power exponent cs₁ rest) (hrest : Ends rest) :
    ∀ c ∈ cs.head?, c.isDigit = false := by
  cases h with
  | absent => exact fun c hc => (hpower.head hrest c hc).1
  | present =>
    intro c hc
    cases hc
    decide

theorem readExponent_of_power {d : Digits} (hd : d.exponent = none)
    {e : Option Exponent} {cs rest : List Char} (h : Power e cs rest)
    (hrest : Ends rest) :
    readExponent d cs = (Digits.document { d with exponent := e },
      some rest) := by
  rw [← finishNumber_eq]
  cases h with
  | absent =>
    rw [← hd]
    unfold readExponent
    split
    · rename_i c cs
      obtain ⟨-, -, hlower, hupper⟩ := hrest.head c rfl
      rw [if_neg (by simp [hlower, hupper])]
    · rfl
  | @present c negative digits after _ he hsign hrun =>
    obtain ⟨htake, hdrop⟩ :=
      digits_append hrun.2 fun c hc => (hrest.head c hc).1
    have hsome : ¬digits.isEmpty = true := by simpa using hrun.1
    have hc : (c = 'e' || c = 'E') = true := by simpa using he
    rw [readExponent.eq_def]
    simp only [hc, if_true]
    cases hsign with
    | plus | minus => simp only [htake, hdrop, if_neg hsome]
    | absent =>
      -- a digit is no sign
      split
      · exact absurd (hrun.isDigit_head ‹_›) (by decide)
      · exact absurd (hrun.isDigit_head ‹_›) (by decide)
      · simp only [htake, hdrop, if_neg hsome]

theorem readFraction_of_fraction {d : Digits} (hfraction : d.fraction = [])
    (hd : d.exponent = none) {f : List Char} {e : Option Exponent}
    {cs cs₁ rest : List Char} (h : Fraction f cs cs₁)
    (hpower : Power e cs₁ rest) (hrest : Ends rest) :
    readFraction d cs =
      (Digits.document { d with fraction := f, exponent := e }, some rest) := by
  cases h with
  | absent =>
    rw [← hfraction, ← readExponent_of_power hd hpower hrest,
      readFraction.eq_def]
    split
    · exact absurd rfl (hpower.head hrest '.' rfl).2
    · rfl
  | present hrun =>
    obtain ⟨htake, hdrop⟩ :=
      digits_append hrun.2 fun c hc => (hpower.head hrest c hc).1
    have hsome : ¬f.isEmpty = true := by simpa using hrun.1
    rw [readFraction.eq_def]
    simp only [htake, hdrop, if_neg hsome]
    exact readExponent_of_power (d := { d with fraction := f }) hd hpower hrest

theorem readUnsigned_of_whole {w f : List Char} {e : Option Exponent}
    {cs₁ cs₂ rest : List Char} (negative : Bool) (hw : Whole w)
    (hf : Fraction f cs₁ cs₂) (he : Power e cs₂ rest) (hrest : Ends rest) :
    readUnsigned negative (w ++ cs₁) =
      (Digits.document ⟨negative, w, f, e⟩, some rest) := by
  obtain ⟨hrun, halone⟩ := hw
  obtain ⟨htake, hdrop⟩ := digits_append hrun.2 (hf.head he hrest)
  rw [readUnsigned, htake, hdrop]
  split
  · exact absurd rfl hrun.1
  · cases halone _ rfl
  · exact readFraction_of_fraction (d := ⟨negative, w, [], none⟩) rfl
      rfl hf he hrest

theorem readNumber_of_number {d : Digits} {cs rest : List Char}
    (h : Number d cs rest) (hrest : Ends rest) :
    readNumber cs = (d.document, some rest) := by
  cases h with
  | mk hminus hwhole hfraction hexponent =>
    cases hminus with
    | present =>
      exact readUnsigned_of_whole true hwhole hfraction hexponent hrest
    | absent =>
      rw [readNumber.eq_def]
      split
      · exact absurd (hwhole.1.isDigit_head ‹_›) (by decide)
      · exact readUnsigned_of_whole false hwhole hfraction hexponent hrest

/-- A number of the grammar starts as a number does. -/
theorem Grammar.Number.starts {d : Digits} {cs rest : List Char}
    (h : Number d cs rest) : ∃ c cs₁, cs = c :: cs₁ ∧ StartsNumber c := by
  cases h with
  | @mk _ whole _ _ _ cs₁ _ _ hminus hwhole =>
    cases hminus with
    | present => exact ⟨'-', _, rfl, .inl rfl⟩
    | absent =>
      cases whole with
      | nil => exact absurd rfl hwhole.1.1
      | cons c others =>
        exact ⟨c, others ++ cs₁, rfl, .inr (hwhole.1.2 c List.mem_cons_self)⟩

end CloudAccess.Json
