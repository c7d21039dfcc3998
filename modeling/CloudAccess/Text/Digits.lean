/-!
# Digits

Numbers written in digits: decimal with a least width, hexadecimal with a
fixed or a least width, and bytes in the URL-safe base-64 alphabet without
padding.

`length_hexFixed` and `length_base64Url` give the widths of their codings,
`mem_hexFixed` and `mem_base64Url` say which characters there are in them, and
`hexPadded_eq_hexFixed` says when a least width is the width.
-/

namespace CloudAccess.Text

/-! ## Decimal -/

/-- The decimal digits of `n`, with zeros in front up to `width`. -/
def decimalPadded (width n : Nat) : String :=
  let digits := Nat.repr n
  String.ofList (List.replicate (width - digits.length) '0') ++ digits

/-- The decimal digits of `n` after a minus sign when `n` is negative. -/
def decimalInt (n : Int) : String :=
  if n < 0 then "-" ++ Nat.repr n.natAbs else Nat.repr n.natAbs

/-! ## Hexadecimal -/

/-- The lower-case hexadecimal digit of `n`, for `n < 16`. -/
def hexDigit (n : Nat) : Char :=
  if n < 10 then Char.ofNat (n + 48) else Char.ofNat (n + 87)

/-- The last `width` hexadecimal digits of `n`, the most significant first. -/
def hexFixed : Nat → Nat → List Char
  | 0, _ => []
  | width + 1, n => hexFixed width (n / 16) ++ [hexDigit (n % 16)]

/-- The hexadecimal digits of `n`, without zeros in front. -/
def hexShort (n : Nat) : List Char :=
  match (hexFixed 8 n).dropWhile (· == '0') with
  | [] => ['0']
  | digits => digits

/-- The hexadecimal digits of `n`, with zeros in front up to `width`. -/
def hexPadded (width n : Nat) : List Char :=
  let digits := Nat.toDigits 16 n
  List.replicate (width - digits.length) '0' ++ digits

@[simp] theorem length_hexFixed (width n : Nat) :
    (hexFixed width n).length = width := by
  induction width generalizing n with
  | zero => rfl
  | succ width ih => simp [hexFixed, ih]

theorem mem_hexFixed {width n : Nat} {c : Char} (h : c ∈ hexFixed width n) :
    ∃ m < 16, c = hexDigit m := by
  induction width generalizing n with
  | zero => cases h
  | succ width ih =>
    rcases List.mem_append.1 h with h | h
    · exact ih h
    · exact ⟨_, Nat.mod_lt _ (by decide), List.mem_singleton.1 h⟩

/-- Zero is written in zeros. -/
theorem hexFixed_zero (width : Nat) :
    hexFixed width 0 = List.replicate width '0' := by
  induction width with
  | zero => rfl
  | succ width ih =>
    rw [hexFixed, ih, List.replicate_succ']
    rfl

/-- A number that a width holds is written with that width when zeros fill it
up. -/
theorem hexPadded_eq_hexFixed {width n : Nat} (hwidth : 0 < width)
    (hn : n < Nat.pow 16 width) : hexPadded width n = hexFixed width n := by
  have hdigit : ∀ m < 16, Nat.digitChar m = hexDigit m := by decide
  induction width generalizing n with
  | zero => cases hwidth
  | succ width ih =>
    by_cases hsmall : n < 16
    · have hquotient : n / 16 = 0 := by omega
      have hremainder : n % 16 = n := by omega
      simp [hexPadded, hexFixed, Nat.toDigits_of_lt_base hsmall,
        hquotient, hremainder, hexFixed_zero, hdigit n hsmall]
    · have hpower : Nat.pow 16 (width + 1) = Nat.pow 16 width * 16 := rfl
      have hpositive : 0 < width := by
        refine Nat.pos_of_ne_zero fun hzero => ?_
        subst hzero
        have hone : Nat.pow 16 0 = 1 := rfl
        omega
      have hrest := ih hpositive (n := n / 16) (by omega)
      simp only [hexPadded] at hrest
      rw [hexFixed, ← hrest, ← hdigit _ (Nat.mod_lt n (by decide)), hexPadded,
        Nat.toDigits_of_base_le (by decide) (by omega)]
      simp

/-- A number that needs more digits than the least width is written with as
many as it needs. -/
theorem hexPadded_eq_hexFixed_max (width n : Nat) :
    hexPadded width n = hexFixed (max width (Nat.toDigits 16 n).length) n := by
  have hlength : 0 < (Nat.toDigits 16 n).length := Nat.length_toDigits_pos
  rcases Nat.le_total (Nat.toDigits 16 n).length width with hle | hle
  · have hn : n < Nat.pow 16 width :=
      (Nat.length_toDigits_le_iff (by decide) (by omega)).1 hle
    rw [Nat.max_eq_left hle, hexPadded_eq_hexFixed (by omega) hn]
  · have hn : n < Nat.pow 16 (Nat.toDigits 16 n).length :=
      (Nat.length_toDigits_le_iff (by decide) hlength).1 (Nat.le_refl _)
    rw [Nat.max_eq_right hle, ← hexPadded_eq_hexFixed hlength hn]
    simp [hexPadded, Nat.sub_eq_zero_of_le hle]

/-! ## Base 64 -/

/-- The character for six bits in the URL-safe alphabet, for `n < 64`. -/
def sextetChar (n : Nat) : Char :=
  if n < 26 then Char.ofNat (n + 65)
  else if n < 52 then Char.ofNat (n + 71)
  else if n < 62 then Char.ofNat (n - 4)
  else if n = 62 then '-'
  else '_'

/-- Three bytes become four characters; one or two bytes at the end become
two or three characters, and nothing pads them. -/
def base64Url : List UInt8 → List Char
  | a :: b :: c :: rest =>
    let n := a.toNat * 65536 + b.toNat * 256 + c.toNat
    sextetChar (n / 262144) :: sextetChar (n / 4096 % 64) ::
      sextetChar (n / 64 % 64) :: sextetChar (n % 64) :: base64Url rest
  | [a, b] =>
    let n := a.toNat * 1024 + b.toNat * 4
    [sextetChar (n / 4096), sextetChar (n / 64 % 64), sextetChar (n % 64)]
  | [a] =>
    let n := a.toNat * 16
    [sextetChar (n / 64), sextetChar (n % 64)]
  | [] => []

/-- Eight bits a byte are cut into six bits a character, the last one
possibly short. -/
theorem length_base64Url (bytes : List UInt8) :
    (base64Url bytes).length = (4 * bytes.length + 2) / 3 := by
  fun_induction base64Url bytes with
  | case1 a b c rest n ih => simp [ih]; omega
  | case2 => simp
  | case3 => simp
  | case4 => simp

theorem mem_base64Url {bytes : List UInt8} {c : Char}
    (h : c ∈ base64Url bytes) : ∃ m < 64, c = sextetChar m := by
  induction bytes using base64Url.induct with
  | case1 x y z rest ih =>
    have := x.toNat_lt; have := y.toNat_lt; have := z.toNat_lt
    simp only [base64Url, List.mem_cons] at h
    rcases h with h | h | h | h | h
    · exact ⟨_, by omega, h⟩
    · exact ⟨_, by omega, h⟩
    · exact ⟨_, by omega, h⟩
    · exact ⟨_, by omega, h⟩
    · exact ih h
  | case2 x y =>
    have := x.toNat_lt; have := y.toNat_lt
    simp only [base64Url, List.mem_cons, List.not_mem_nil, or_false] at h
    rcases h with h | h | h
    · exact ⟨_, by omega, h⟩
    · exact ⟨_, by omega, h⟩
    · exact ⟨_, by omega, h⟩
  | case3 x =>
    have := x.toNat_lt
    simp only [base64Url, List.mem_cons, List.not_mem_nil, or_false] at h
    rcases h with h | h
    · exact ⟨_, by omega, h⟩
    · exact ⟨_, by omega, h⟩
  | case4 => cases h

example : hexFixed 4 1027 = ['0', '4', '0', '3'] := by decide
example : hexShort 769 = ['3', '0', '1'] := by decide
example : base64Url [77, 97, 110] = ['T', 'W', 'F', 'u'] := by decide
example : decimalPadded 4 33 = "0033" := by decide +kernel

end CloudAccess.Text
