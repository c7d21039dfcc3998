import CloudAccess.Text.Digits

/-!
# Double-precision numbers

Positive numbers with a mantissa of 53 bits, in exact natural arithmetic:
the nearest one to a ratio, the one that a decimal numeral is read as, and
the fewest decimal digits that single it out.  `DecimalLayout` says how these
digits are laid out in a text.
-/

namespace CloudAccess.Text

/-- The number `mantissa * 2 ^ exponent`. -/
structure Binary64 where
  mantissa : Nat
  exponent : Int
  deriving DecidableEq, Repr

namespace Binary64

/-- The exponent of the smallest positive number. -/
def minExponent : Int := -1074

/-- The exponent of the greatest numbers. -/
def maxExponent : Int := 971

/-- The number as a ratio. -/
def ratio (x : Binary64) : Nat × Nat :=
  if 0 ≤ x.exponent then (x.mantissa * Nat.pow 2 x.exponent.toNat, 1)
  else (x.mantissa, Nat.pow 2 (-x.exponent).toNat)

/-- The whole number nearest to `num / den`; a tie goes to the even one. -/
def roundDiv (num den : Nat) : Nat :=
  let q := num / den
  let r := num % den
  if 2 * r < den || (2 * r == den && q % 2 == 0) then q else q + 1

/-- The exponent `k` with `2 ^ k ≤ num / den < 2 ^ (k + 1)`. -/
def floorLog (num den : Nat) : Int :=
  let k : Int := (num.log2 : Int) - den.log2
  let reaches : Bool :=
    if 0 ≤ k then den * Nat.pow 2 k.toNat ≤ num
      else den ≤ num * Nat.pow 2 (-k).toNat
  if reaches then k else k - 1

/-- The number nearest to `num / den`, unless it is too great for any. -/
def nearest (num den : Nat) : Option Binary64 :=
  if num = 0 then some ⟨0, minExponent⟩
  else
    let e := max (floorLog num den - 52) minExponent
    let m :=
      if 0 ≤ e then roundDiv num (den * Nat.pow 2 e.toNat)
      else roundDiv (num * Nat.pow 2 (-e).toNat) den
    let x : Binary64 :=
      if m = Nat.pow 2 53 then ⟨Nat.pow 2 52, e + 1⟩ else ⟨m, e⟩
    if maxExponent < x.exponent then none else some x

/-- The number nearest to `10 ^ n`, for `n` up to 308. -/
def powerOfTen (n : Nat) : Binary64 :=
  (nearest (Nat.pow 10 n) 1).getD ⟨0, minExponent⟩

/-- The product of two numbers, rounded. -/
def mul (x y : Binary64) : Option Binary64 :=
  nearest (x.ratio.1 * y.ratio.1) (x.ratio.2 * y.ratio.2)

/-- The quotient of two numbers, rounded. -/
def div (x y : Binary64) : Option Binary64 :=
  nearest (x.ratio.1 * y.ratio.2) (x.ratio.2 * y.ratio.1)

/-- The greatest power of ten by which one division scales. -/
def maxPower : Nat := 308

/-- Divides `x` by `10 ^ n` in at most `divisions` divisions by at most
`10 ^ maxPower` each; zero needs none. -/
def shiftDown (x : Binary64) : Nat → Nat → Option Binary64
  | 0, _ => some x
  | divisions + 1, n =>
    if n ≤ maxPower then x.div (powerOfTen n)
    else if x.mantissa = 0 then some x
    else (x.div (powerOfTen maxPower)).bind fun y =>
      shiftDown y divisions (n - maxPower)

/-- The number read for `significand * 10 ^ exponent`: significand and power
are rounded on their own, then their product or quotient.  There is none when
the result is too great. -/
def ofDecimal (significand : Nat) (exponent : Int) : Option Binary64 :=
  match nearest significand 1 with
  | none => none
  | some x =>
    if exponent < 0 then
      x.shiftDown ((-exponent).toNat / maxPower + 1) (-exponent).toNat
    else if exponent ≤ maxPower then x.mul (powerOfTen exponent.toNat)
    else if x.mantissa = 0 then some x
    else none

/-! ## The fewest digits -/

/-- Whether `n * 10 ^ p` is read as `x`: it lies within half a step of `x`,
ends included when the mantissa is even. -/
def reads (x : Binary64) (n : Nat) (p : Int) : Bool :=
  let scale : Binary64 := ⟨1, x.exponent - 2⟩
  let below :=
    if x.mantissa = Nat.pow 2 52 && x.exponent ≠ minExponent then 1 else 2
  let (unit, unitDen) := scale.ratio
  let (num, den) : Nat × Nat :=
    if 0 ≤ p then (n * Nat.pow 10 p.toNat, 1) else (n, Nat.pow 10 (-p).toNat)
  let low := (4 * x.mantissa - below) * unit * den
  let high := (4 * x.mantissa + 2) * unit * den
  let mid := num * unitDen
  if x.mantissa % 2 = 0 then low ≤ mid && mid ≤ high
    else low < mid && mid < high

/-- Searches the decimal grids from `10 ^ p` downwards for the first with a
point that is read as `x`; of two such points the nearer one is taken, and of
two that are equally near the even one. -/
def shortestFrom (x : Binary64) : Nat → Int → Nat × Int
  | 0, p => (0, p)
  | fuel + 1, p =>
    let (num, den) := x.ratio
    let (num, den) :=
      if 0 ≤ p then (num, den * Nat.pow 10 p.toNat)
        else (num * Nat.pow 10 (-p).toNat, den)
    let q := num / den
    let lowFits := x.reads q p
    let highFits := x.reads (q + 1) p
    if lowFits && highFits then (roundDiv num den, p)
    else if lowFits then (q, p)
    else if highFits then (q + 1, p)
    else shortestFrom x fuel (p - 1)

/-- The fewest digits and the power of ten that are read as `x`. -/
def shortest (x : Binary64) : Nat × Int :=
  if x.mantissa = 0 then (0, 0) else shortestFrom x 640 309

end Binary64

/-! ## Texts -/

/-- How the digits of a number are laid out: with their point in place while
the power of ten of the first digit lies in the given range, and elsewhere
with the point after the first digit and that power behind. -/
structure DecimalLayout where
  leastInPlace : Int
  greatestInPlace : Int
  deriving DecidableEq, Repr

namespace DecimalLayout

/-- The text of `n * 10 ^ p` for the digits of `n`, with the point in place
and one digit after it at least. -/
def inPlace (digits : List Char) (p : Int) : String :=
  if 0 ≤ p then String.ofList (digits ++ List.replicate p.toNat '0') ++ ".0"
  else
    let places := (-p).toNat
    let padded := List.replicate (places + 1 - digits.length) '0' ++ digits
    let wholeLength := padded.length - places
    String.ofList (padded.take wholeLength) ++ "." ++
      String.ofList (padded.drop wholeLength)

/-- The text of a power of ten behind the digits, always with its sign. -/
def powerText (e : Int) : String :=
  (if 0 ≤ e then "e+" else "e") ++ decimalInt e

/-- The text of a number with the given digits, of which the first has the
power `e`.  A single digit has no point. -/
def withPower (digits : List Char) (e : Int) : String :=
  match digits with
  | first :: second :: rest =>
    String.ofList (first :: '.' :: second :: rest) ++ powerText e
  | digits => String.ofList digits ++ powerText e

/-- The text of `n * 10 ^ p`. -/
def write (l : DecimalLayout) (n : Nat) (p : Int) : String :=
  let digits := (Nat.repr n).toList
  let e := p + digits.length - 1
  if l.leastInPlace ≤ e ∧ e ≤ l.greatestInPlace then inPlace digits p
  else withPower digits e

end DecimalLayout

/-- The text of a number in the given layout, with the fewest digits. -/
def Binary64.text (x : Binary64) (l : DecimalLayout) : String :=
  let (n, p) := x.shortest
  l.write n p

end CloudAccess.Text
