import CloudAccess.Proofs.Codec.RoundTrip

/-!
# The rules of identifiers

Which texts are identifiers, and which error the others meet.

* `Identifier.Rule` names the rules and `Rule.Holds` says what each asks of a
  text.
* `Identifier.rules` lists the rules of each kind in the order in which they are
  checked.
* `firstBroken_eq_findSome?` turns the branches of the check into a search of
  that list, so that `new?_eq_ok_iff_holds` and `new?_eq_error_iff` hold for all
  kinds alike.
* `validation_exact` says that all ways to an identifier keep exactly these
  rules.
-/

namespace CloudAccess.Identifier

/-- The code points with the property `White_Space`, one by one. -/
def whiteSpace : List Nat :=
  [0x09, 0x0A, 0x0B, 0x0C, 0x0D, 0x20, 0x85, 0xA0, 0x1680, 0x2000, 0x2001,
    0x2002, 0x2003, 0x2004,
    0x2005, 0x2006, 0x2007, 0x2008, 0x2009, 0x200A, 0x2028, 0x2029, 0x202F,
    0x205F, 0x3000]

/-- What may be asked of the text of an identifier. -/
inductive Rule
  | notEmpty
  | withoutBlanks
  | atMost (bytes : Nat)
  | atLeast (bytes : Nat)
  | ofAlphabet
  | startsAsArn

namespace Rule

/-- The text `s` keeps the rule. -/
def Holds (s : String) : Rule → Prop
  | notEmpty => s ≠ ""
  | withoutBlanks => ∀ c ∈ s.toList, c.toNat ∉ whiteSpace
  | atMost bytes => s.utf8ByteSize ≤ bytes
  | atLeast bytes => bytes ≤ s.utf8ByteSize
  | ofAlphabet => ∀ c ∈ s.toList, InAlphabet c
  | startsAsArn => ∃ rest, s = "arn:" ++ rest

/-- The error for a text of a kind that breaks the rule.  Of the characters
outside the alphabet it shows the leftmost one. -/
def Reports (kind : IdentifierKind) (s : String) : Rule → IdentifierError → Prop
  | notEmpty, e => e = .empty kind
  | withoutBlanks, e => e = .containsWhitespace kind
  | atMost bytes, e => e = .tooLong kind bytes
  | atLeast bytes, e => e = .tooShort kind bytes
  | ofAlphabet, e => ∃ before c after, s.toList = before ++ c :: after ∧
      (∀ d ∈ before, InAlphabet d) ∧ ¬InAlphabet c ∧
      e = .disallowedCharacter kind c
  | startsAsArn, e => e = .notAnArn kind

end Rule

/-- The rules of a kind in the order in which they are checked. -/
def rules : IdentifierKind → List Rule
  | .roleArn | .instanceArn =>
    [.notEmpty, .withoutBlanks, .atMost 2048, .startsAsArn]
  | .identityStore => [.notEmpty, .withoutBlanks, .atMost 64]
  | .sessionName =>
    [.notEmpty, .withoutBlanks, .atMost 64, .atLeast 2, .ofAlphabet]

/-! ## Characters -/

theorem isBlank_iff {c : Char} :
    Text.isBlank c = true ↔ c.toNat ∈ whiteSpace := by
  simp only [Text.isBlank, Text.inRanges, Text.blankRanges, whiteSpace,
    List.any_cons, List.any_nil,
    Bool.or_eq_true, Bool.and_eq_true, decide_eq_true_eq,
    Bool.false_eq_true, or_false, List.mem_cons, List.not_mem_nil]
  omega

/-! ## One rule -/

namespace Rule

/-- The error of a text that breaks the rule. -/
def check (kind : IdentifierKind) (s : String) : Rule → Option IdentifierError
  | notEmpty => if s.isEmpty then some (.empty kind) else none
  | withoutBlanks =>
    if s.toList.any Text.isBlank then some (.containsWhitespace kind) else none
  | atMost bytes =>
    if bytes < s.utf8ByteSize then some (.tooLong kind bytes) else none
  | atLeast bytes =>
    if s.utf8ByteSize < bytes then some (.tooShort kind bytes) else none
  | ofAlphabet =>
    (s.toList.find? fun c => !isSessionNameChar c).map
      (.disallowedCharacter kind)
  | startsAsArn =>
    if "arn:".toList.isPrefixOf s.toList then none else some (.notAnArn kind)

variable {kind : IdentifierKind} {s : String} {r : Rule} {e : IdentifierError}

theorem toList_prefix_iff {p : String} :
    p.toList <+: s.toList ↔ ∃ rest, s = p ++ rest := by
  constructor
  · rintro ⟨rest, hrest⟩
    exact ⟨String.ofList rest, String.toList_inj.1 (by simp [hrest])⟩
  · rintro ⟨rest, rfl⟩
    exact ⟨rest.toList, by simp⟩

theorem check_eq_none_iff : r.check kind s = none ↔ r.Holds s := by
  cases r with
  | notEmpty | atMost | atLeast => simp [check, Holds]
  | withoutBlanks => simp [check, Holds, ← isBlank_iff]
  | ofAlphabet => simp [check, Holds, ← isSessionNameChar_iff]
  | startsAsArn =>
    simp only [check, Holds, List.isPrefixOf_iff_prefix, toList_prefix_iff,
      ite_eq_left_iff, reduceCtorEq, imp_false, not_not]

theorem check_eq_some_iff :
    r.check kind s = some e ↔ ¬r.Holds s ∧ r.Reports kind s e := by
  rw [← @check_eq_none_iff kind]
  cases r with
  | notEmpty | withoutBlanks | atMost | atLeast | startsAsArn =>
    simp only [check, Reports]
    split <;> simp [eq_comm]
  | ofAlphabet =>
    simp only [check, Reports, ← isSessionNameChar_iff, Option.map_eq_some_iff,
      Option.map_eq_none_iff, List.find?_eq_some_iff_append]
    constructor
    · rintro ⟨c, ⟨hc, before, after, hs, hbefore⟩, rfl⟩
      refine ⟨fun hnone => List.find?_eq_none.1 hnone c (by simp [hs]) hc, ?_⟩
      exact ⟨before, c, after, hs,
        by simpa using hbefore, by simpa using hc, rfl⟩
    · rintro ⟨-, before, c, after, hs, hbefore, hc, rfl⟩
      exact ⟨c, ⟨by simpa using hc, before, after, hs, by simpa using hbefore⟩,
        rfl⟩

end Rule

/-! ## All rules -/

variable {kind : IdentifierKind} {s : String}

/-- The check of a text meets the rules one after another. -/
theorem firstBroken_eq_findSome? (kind : IdentifierKind) (s : String) :
    firstBroken kind s = (rules kind).findSome? (Rule.check kind s) := by
  -- Kind by kind, both sides branch on the same conditions in the same order.
  cases kind <;>
    simp only [firstBroken, rules, List.findSome?_cons,
      List.findSome?_nil, Rule.check,
      IdentifierKind.maxLength, IdentifierKind.isArn, minSessionNameLength] <;>
    grind

theorem firstBroken_eq_none_iff :
    firstBroken kind s = none ↔ ∀ r ∈ rules kind, r.Holds s := by
  simp only [firstBroken_eq_findSome?, List.findSome?_eq_none_iff,
    Rule.check_eq_none_iff]

/-- The text of an identifier keeps every rule of its kind. -/
theorem holds_of_mem_rules (i : Identifier kind) :
    ∀ r ∈ rules kind, r.Holds i.text :=
  firstBroken_eq_none_iff.1 i.unbroken

/-- A text is accepted as the identifier that has it, and keeps every rule of
the kind. -/
theorem new?_eq_ok_iff_holds {i : Identifier kind} :
    new? kind s = .ok i ↔ i.text = s ∧ ∀ r ∈ rules kind, r.Holds s := by
  rw [new?_eq_ok_iff]
  constructor
  · rintro rfl
    exact ⟨rfl, i.holds_of_mem_rules⟩
  · exact And.left

/-- The texts that are accepted are those that keep every rule of the kind. -/
theorem exists_new?_iff_holds :
    (∃ i, new? kind s = .ok i) ↔ ∀ r ∈ rules kind, r.Holds s := by
  constructor
  · rintro ⟨i, hi⟩
    exact (new?_eq_ok_iff_holds.1 hi).2
  · intro h
    exact ⟨⟨s, firstBroken_eq_none_iff.2 h⟩, new?_eq_ok_iff.2 rfl⟩

/-- The error is that of the first rule that the text breaks. -/
theorem new?_eq_error_iff {e : IdentifierError} :
    new? kind s = .error e ↔ ∃ kept r left, rules kind = kept ++ r :: left ∧
      (∀ q ∈ kept, q.Holds s) ∧ ¬r.Holds s ∧ r.Reports kind s e := by
  have hsome : new? kind s = .error e ↔ firstBroken kind s = some e := by
    unfold new?
    split <;> simp_all
  simp only [hsome, firstBroken_eq_findSome?, List.findSome?_eq_some_iff,
    Rule.check_eq_some_iff, Rule.check_eq_none_iff, and_comm]

/-- A string is decoded as it is checked, wherever it stands in a document. -/
theorem ofDocument_string (kind : IdentifierKind) (s : String) :
    (codec kind).ofDocument (.string s) =
      (new? kind s).mapError .identifier := by
  have hread : (Json.Document.string s).readString = .ok s := rfl
  simp only [codec, Codec.ofString, hread, ofString?_eq_new?, bind, Except.bind]
  cases new? kind s <;> rfl

theorem decode_string {text : String}
    (h : Json.read text = ⟨.string s, false⟩) :
    (codec kind).decode text = (new? kind s).mapError .identifier := by
  rw [Codec.decode, h, ofDocument_string]
  cases new? kind s <;> rfl

/-! ## Every way to an identifier -/

/-- Copying a text, reading it, taking a string over and decoding the string
from a document, or from a text that holds nothing else, all give the same
answer: an identifier with exactly that text when it keeps every rule of the
kind, and otherwise the error of the first rule that it breaks. -/
theorem validation_exact (kind : IdentifierKind) (s : String) :
    parse? kind s = new? kind s ∧
      ofString? kind s = new? kind s ∧
      (codec kind).ofDocument (.string s) = (new? kind s).mapError .identifier ∧
      (∀ text, Json.read text = ⟨.string s, false⟩ →
        (codec kind).decode text = (new? kind s).mapError .identifier) ∧
      Json.read (Json.string s).text = ⟨.string s, false⟩ ∧
      ((∃ i, new? kind s = .ok i) ↔ ∀ r ∈ rules kind, r.Holds s) ∧
      (∀ i, new? kind s = .ok i ↔ i.text = s ∧ ∀ r ∈ rules kind, r.Holds s) ∧
      ∀ e, new? kind s = .error e ↔
        ∃ kept r left, rules kind = kept ++ r :: left ∧
        (∀ q ∈ kept, q.Holds s) ∧ ¬r.Holds s ∧ r.Reports kind s e :=
  ⟨parse?_eq_new? kind s, ofString?_eq_new? kind s, ofDocument_string kind s,
    fun _ => decode_string, Json.read_text (.string s), exists_new?_iff_holds,
    fun _ => new?_eq_ok_iff_holds, fun _ => new?_eq_error_iff⟩

/-- A document that spells a letter of a resource name by its code point. -/
def spelledArn : String := " \"\\u0061rn:x\" "

/-- The role that it names. -/
def spelledRole : RoleArn := ⟨"arn:x", by decide +kernel⟩

theorem validation_exact_spelled :
    Json.read spelledArn = ⟨.string "arn:x", false⟩ ∧
      (codec .roleArn).decode spelledArn = .ok spelledRole ∧
      (codec .sessionName).decode spelledArn =
        .error (.identifier (.disallowedCharacter .sessionName ':')) := by
  have hread : Json.read spelledArn = ⟨.string "arn:x", false⟩ := rfl
  have hrole : new? .roleArn "arn:x" = .ok spelledRole := spelledRole.new?_text
  have hname : new? .sessionName "arn:x" =
      .error (.disallowedCharacter .sessionName ':') := by
    decide +kernel
  obtain ⟨-, -, -, harn, -⟩ := validation_exact .roleArn "arn:x"
  obtain ⟨-, -, -, hsession, -⟩ := validation_exact .sessionName "arn:x"
  rw [harn _ hread, hsession _ hread, hrole, hname]
  exact ⟨hread, rfl, rfl⟩

/-- A blank is told before a wrong beginning and a wrong length. -/
example : new? .sessionName "\u2003" =
.error (.containsWhitespace .sessionName) := by
  decide +kernel

end CloudAccess.Identifier
