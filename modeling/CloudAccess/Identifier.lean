import CloudAccess.Json.Value
import CloudAccess.Text.Blank
import CloudAccess.Text.Quoted

/-!
# Identifiers

Names of roles, instances, identity stores and sessions.  Each kind of
identifier has rules of its own, and a text that breaks one of them is
refused with the first rule that it breaks.

`Identifier.new?` checks a text and keeps a copy of it, `Identifier.parse?`
reads an identifier off a text, and `Identifier.ofString?` checks a string and
takes it over, as the reader of documents does.
-/

namespace CloudAccess

/-- What an identifier names. -/
inductive IdentifierKind
  | roleArn
  | instanceArn
  | identityStore
  | sessionName
  deriving DecidableEq, Repr

namespace IdentifierKind

/-- The name of the kind in messages. -/
def label : IdentifierKind → String
  | roleArn => "Role ARN"
  | instanceArn => "Instance ARN"
  | identityStore => "Identity store"
  | sessionName => "Session name"

/-- Whether identifiers of the kind are resource names, which have a fixed
beginning. -/
def isArn : IdentifierKind → Bool
  | roleArn | instanceArn => true
  | identityStore | sessionName => false

/-- The greatest length of an identifier of the kind, in bytes. -/
def maxLength (kind : IdentifierKind) : Nat :=
  if kind.isArn then 2048 else 64

end IdentifierKind

/-- The first rule that a text breaks. -/
inductive IdentifierError
  | empty (kind : IdentifierKind)
  | containsWhitespace (kind : IdentifierKind)
  | tooShort (kind : IdentifierKind) (min : Nat)
  | tooLong (kind : IdentifierKind) (max : Nat)
  | notAnArn (kind : IdentifierKind)
  | disallowedCharacter (kind : IdentifierKind) (character : Char)
  deriving DecidableEq, Repr

namespace IdentifierError

/-- The name of the broken rule. -/
def name : IdentifierError → String
  | empty _ => "Empty"
  | containsWhitespace _ => "ContainsWhitespace"
  | tooShort _ _ => "TooShort"
  | tooLong _ _ => "TooLong"
  | notAnArn _ => "NotAnArn"
  | disallowedCharacter _ _ => "DisallowedCharacter"

/-- The message for the broken rule. -/
def message : IdentifierError → String
  | empty kind => kind.label ++ " identifier cannot be empty."
  | containsWhitespace kind => kind.label ++ " identifier contains whitespace."
  | tooShort kind min =>
    kind.label ++ " identifier must be at least " ++ Nat.repr min ++
      " characters."
  | tooLong kind max =>
    kind.label ++ " identifier exceeds " ++ Nat.repr max ++ " characters."
  | notAnArn kind => kind.label ++ " identifier must start with `arn:`."
  | disallowedCharacter kind character =>
    kind.label ++ " identifier contains the disallowed character " ++
      Text.quoteChar character ++ "."

/-- What is known about the broken rule. -/
def details : IdentifierError → List (String × Json)
  | empty kind | containsWhitespace kind | notAnArn kind =>
    [("kind", .string kind.label)]
  | tooShort kind min => [("kind", .string kind.label), ("min", .number min)]
  | tooLong kind max => [("kind", .string kind.label), ("max", .number max)]
  | disallowedCharacter kind character =>
    [("kind", .string kind.label),
      ("character", .string (String.singleton character))]

/-- The error as a JSON value. -/
def toJson (e : IdentifierError) : Json :=
  .object [(e.name, .object e.details)]

end IdentifierError

/-- The characters that a session name may hold. -/
def isSessionNameChar (c : Char) : Bool :=
  c.isAlphanum || c = '_' || c = '+' || c = '=' || c = ',' || c = '.' ||
    c = '@' || c = '-'

/-- The least length of a session name, in bytes. -/
def minSessionNameLength : Nat := 2

/-- The first rule of `kind` that `text` breaks.  Every kind refuses the
empty text, blanks and too long a text, in this order; a resource name then
has to start as one, and a session name has to be long enough and of its own
alphabet. -/
def Identifier.firstBroken (kind : IdentifierKind) (text : String) :
    Option IdentifierError :=
  if text.isEmpty then some (.empty kind)
  else if text.toList.any Text.isBlank then some (.containsWhitespace kind)
  else if kind.maxLength < text.utf8ByteSize
    then some (.tooLong kind kind.maxLength)
  else
    match kind with
    | .roleArn | .instanceArn =>
      if "arn:".toList.isPrefixOf text.toList then none
        else some (.notAnArn kind)
    | .identityStore => none
    | .sessionName =>
      if text.utf8ByteSize < minSessionNameLength then
        some (.tooShort kind minSessionNameLength)
      else
        (text.toList.find? fun c => !isSessionNameChar c).map
          (.disallowedCharacter kind)

/-- An identifier of a kind: a text that breaks no rule of it. -/
structure Identifier (kind : IdentifierKind) where
  text : String
  unbroken : Identifier.firstBroken kind text = none
  deriving DecidableEq, Repr

/-- The name of a role to be assumed. -/
abbrev RoleArn := Identifier .roleArn

/-- The name of an instance that owns permission sets. -/
abbrev InstanceArn := Identifier .instanceArn

/-- The name of the identity store behind an instance. -/
abbrev IdentityStoreId := Identifier .identityStore

/-- The name of a session, sent with every role assumption. -/
abbrev SessionName := Identifier .sessionName

namespace Identifier

/-- The identifier with the given text, if it breaks no rule. -/
def new? (kind : IdentifierKind) (text : String) :
    Except IdentifierError (Identifier kind) :=
  match h : firstBroken kind text with
  | some e => .error e
  | none => .ok ⟨text, h⟩

/-- The identifier that is spelled in a text. -/
def parse? (kind : IdentifierKind) (text : String) :
    Except IdentifierError (Identifier kind) := new? kind text

/-- The identifier that takes over a string, if that breaks no rule. -/
def ofString? (kind : IdentifierKind) (text : String) :
    Except IdentifierError (Identifier kind) :=
  match h : firstBroken kind text with
  | some e => .error e
  | none => .ok ⟨text, h⟩

/-- An identifier as diagnostic messages show it: its kind and its text. -/
def debugText {kind : IdentifierKind} (i : Identifier kind) : String :=
  kind.label ++ "(" ++ i.text ++ ")"

/-- Identifiers are ordered by their text, code point by code point. -/
def le {kind : IdentifierKind} (a b : Identifier kind) : Bool :=
  decide (a.text ≤ b.text)

@[simp] theorem parse?_eq_new? (kind : IdentifierKind) (text : String) :
    parse? kind text = new? kind text := rfl

@[simp] theorem ofString?_eq_new? (kind : IdentifierKind) (text : String) :
    ofString? kind text = new? kind text := rfl

/-- The text of an identifier is accepted, and gives it back. -/
theorem new?_text {kind : IdentifierKind} (i : Identifier kind) :
    new? kind i.text = .ok i := by
  unfold new?
  split
  · rename_i e h
    rw [i.unbroken] at h
    cases h
  · rfl

/-- An accepted identifier carries its text unchanged. -/
theorem text_of_new? {kind : IdentifierKind} {text : String}
    {i : Identifier kind} (h : new? kind text = .ok i) : i.text = text := by
  unfold new? at h
  split at h
  · cases h
  · cases h; rfl

/-- A text is accepted exactly when it is that of an identifier. -/
theorem new?_eq_ok_iff {kind : IdentifierKind} {text : String}
    {i : Identifier kind} :
    new? kind text = .ok i ↔ i.text = text :=
  ⟨text_of_new?, fun h => h ▸ i.new?_text⟩

/-! ## The alphabet of session names -/

/-- The letters and digits of ASCII and seven signs. -/
def InAlphabet (c : Char) : Prop :=
  'A' ≤ c ∧ c ≤ 'Z' ∨ 'a' ≤ c ∧ c ≤ 'z' ∨ '0' ≤ c ∧ c ≤ '9' ∨
    c ∈ ['_', '+', '=', ',', '.', '@', '-']

theorem isSessionNameChar_iff {c : Char} :
    isSessionNameChar c = true ↔ InAlphabet c := by
  have hupper : c.isUpper = true ↔ 'A' ≤ c ∧ c ≤ 'Z' := decide_eq_true_iff
  have hlower : c.isLower = true ↔ 'a' ≤ c ∧ c ≤ 'z' := by
    show (decide _ && decide _) = true ↔ _
    rw [Bool.and_eq_true, decide_eq_true_iff, decide_eq_true_iff]
    exact Iff.rfl
  have hdigit : c.isDigit = true ↔ '0' ≤ c ∧ c ≤ '9' := by
    show (decide _ && decide _) = true ↔ _
    rw [Bool.and_eq_true, decide_eq_true_iff, decide_eq_true_iff]
    exact Iff.rfl
  have halphanum : c.isAlphanum = ((c.isUpper || c.isLower) || c.isDigit) := rfl
  simp only [isSessionNameChar, halphanum, InAlphabet, List.mem_cons,
    List.not_mem_nil, or_false,
    Bool.or_eq_true, hupper, hlower, hdigit, decide_eq_true_eq, or_assoc]

theorem bounds_of_inAlphabet {c : Char} (h : InAlphabet c) :
    0x2B ≤ c.toNat ∧ c.toNat ≤ 0x7A := by
  simp only [InAlphabet, Char.le_def, UInt32.le_iff_toNat_le, List.mem_cons,
    List.not_mem_nil, or_false] at h
  have hval : c.val.toNat = c.toNat := rfl
  rcases h with h | h | h | rfl | rfl | rfl | rfl | rfl | rfl | rfl
  · have : 'A'.val.toNat = 0x41 ∧ 'Z'.val.toNat = 0x5A := ⟨rfl, rfl⟩
    omega
  · have : 'a'.val.toNat = 0x61 ∧ 'z'.val.toNat = 0x7A := ⟨rfl, rfl⟩
    omega
  · have : '0'.val.toNat = 0x30 ∧ '9'.val.toNat = 0x39 := ⟨rfl, rfl⟩
    omega
  all_goals decide

theorem utf8ByteSize_of_alphabet {cs : List Char}
    (hcs : ∀ c ∈ cs, InAlphabet c) :
    (String.ofList cs).utf8ByteSize = cs.length := by
  induction cs with
  | nil => rfl
  | cons c cs ih =>
    obtain ⟨hc, hcs⟩ := List.forall_mem_cons.1 hcs
    have hsize : c.utf8Size = 1 := by
      rw [Char.utf8Size_eq_one_iff, UInt32.le_iff_toNat_le]
      exact Nat.le_trans (bounds_of_inAlphabet hc).2 (by decide)
    rw [String.ofList_cons, String.utf8ByteSize_append,
      String.utf8ByteSize_singleton, hsize,
      ih hcs, List.length_cons, Nat.add_comm]

/-- A text of two to sixty-four characters of the alphabet is a session name. -/
theorem firstBroken_of_alphabet {cs : List Char} (hcs : ∀ c ∈ cs, InAlphabet c)
    (hleast : 2 ≤ cs.length) (hmost : cs.length ≤ 64) :
    firstBroken .sessionName (String.ofList cs) = none := by
  have hsize := utf8ByteSize_of_alphabet hcs
  have hblank : ∀ c ∈ cs, Text.isBlank c = false := by
    intro c hc
    have := bounds_of_inAlphabet (hcs c hc)
    simp only [Text.isBlank, Text.inRanges, Text.blankRanges, List.any_cons,
      List.any_nil,
      Bool.or_eq_false_iff, Bool.and_eq_false_iff,
      decide_eq_false_iff_not, and_true]
    omega
  have hempty : (String.ofList cs).isEmpty = false := by
    rw [String.isEmpty_eq_false_iff, ne_eq, ← String.utf8ByteSize_eq_zero_iff]
    omega
  have hany : cs.any Text.isBlank = false := by
    simpa using hblank
  have hfind : (cs.find? fun c => !isSessionNameChar c) = none := by
    simpa [← isSessionNameChar_iff] using hcs
  have hmax : ¬IdentifierKind.sessionName.maxLength < cs.length := by
    simpa [IdentifierKind.maxLength, IdentifierKind.isArn] using hmost
  have hmin : ¬cs.length < minSessionNameLength := Nat.not_lt.2 hleast
  simp only [firstBroken, hempty, String.toList_ofList, hany, hsize, hmax,
    hmin, hfind, Bool.false_eq_true, if_false, Option.map_none]

end Identifier

end CloudAccess
