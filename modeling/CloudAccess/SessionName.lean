import CloudAccess.Identifier
import CloudAccess.Time.Instant

/-!
# Generated session names

A generated name starts with the milliseconds since 1970 in hexadecimal
digits, twelve at least, so that later names sort after earlier ones, and goes
on with twelve random bytes in sixteen characters, so that names differ.
-/

namespace CloudAccess

/-- Twelve random bytes. -/
structure Entropy where
  bytes : List UInt8
  length_bytes : bytes.length = 12 := by decide

namespace SessionName

/-- The whole milliseconds since the start of 1970; an earlier instant counts
as that start, and so does one whose milliseconds do not fit 64 bits. -/
def millis (instant : Instant) : Nat :=
  let whole := instant.unixNanos.tdiv 1000000
  if 0 ≤ whole ∧ whole < 18446744073709551616 then whole.toNat else 0

/-- The digits with which a name generated at an instant starts. -/
def stamp (instant : Instant) : List Char := Text.hexPadded 12 (millis instant)

open Identifier (InAlphabet)

theorem inAlphabet_hexFixed (width n : Nat) :
    ∀ c ∈ Text.hexFixed width n, InAlphabet c := by
  have hdigit : ∀ m < 16, isSessionNameChar (Text.hexDigit m) = true := by
    decide
  intro c hc
  obtain ⟨m, hm, rfl⟩ := Text.mem_hexFixed hc
  exact Identifier.isSessionNameChar_iff.1 (hdigit m hm)

theorem inAlphabet_base64Url (bytes : List UInt8) :
    ∀ c ∈ Text.base64Url bytes, InAlphabet c := by
  have hsextet : ∀ m < 64, isSessionNameChar (Text.sextetChar m) = true := by
    decide
  intro c hc
  obtain ⟨m, hm, rfl⟩ := Text.mem_base64Url hc
  exact Identifier.isSessionNameChar_iff.1 (hsextet m hm)

theorem inAlphabet_stamp (instant : Instant) :
    ∀ c ∈ stamp instant, InAlphabet c := by
  rw [stamp, Text.hexPadded_eq_hexFixed_max]
  exact inAlphabet_hexFixed _ _

theorem inAlphabet_name (instant : Instant) (entropy : Entropy) :
    ∀ c ∈ stamp instant ++ Text.base64Url entropy.bytes, InAlphabet c :=
  List.forall_mem_append.2 ⟨inAlphabet_stamp instant,
    inAlphabet_base64Url entropy.bytes⟩

theorem millis_lt (instant : Instant) : millis instant < Nat.pow 16 16 := by
  have hpower : Nat.pow 16 16 = 18446744073709551616 := rfl
  unfold millis
  dsimp only
  split <;> omega

/-- A name starts with at least twelve digits, and with sixteen at most. -/
theorem length_stamp_bounds (instant : Instant) :
    12 ≤ (stamp instant).length ∧ (stamp instant).length ≤ 16 := by
  have hmost : (Nat.toDigits 16 (millis instant)).length ≤ 16 :=
    (Nat.length_toDigits_le_iff (by decide) (by decide)).2 (millis_lt instant)
  rw [stamp, Text.hexPadded_eq_hexFixed_max, Text.length_hexFixed]
  omega

/-- The text generated at an instant from random bytes breaks no rule of
session names. -/
theorem firstBroken_stamp_append (instant : Instant) (entropy : Entropy) :
    Identifier.firstBroken .sessionName
      (String.ofList (stamp instant ++ Text.base64Url entropy.bytes)) =
        none := by
  have hstamp := length_stamp_bounds instant
  have hlength : (stamp instant ++ Text.base64Url entropy.bytes).length =
      (stamp instant).length + 16 := by
    rw [List.length_append, Text.length_base64Url, entropy.length_bytes]
  exact Identifier.firstBroken_of_alphabet
    (inAlphabet_name instant entropy) (by omega) (by omega)

/-- The name generated at an instant from random bytes. -/
def generate (instant : Instant) (entropy : Entropy) : SessionName where
  text := String.ofList (stamp instant ++ Text.base64Url entropy.bytes)
  unbroken := firstBroken_stamp_append instant entropy

end SessionName

end CloudAccess
