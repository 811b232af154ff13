/-!
# Decimal text of floating point figures

Prices, stress figures and percentages are doubles, and texts show them in two formats.

**Reading a double.** `Figure.ofFloat` takes the bits apart: a finite double is its sign and an
exact quotient of two naturals, so the digits below are those of the value itself.

**General format** (`general`). Six significant digits without trailing zeros, in positional
notation when the leading digit stands between the places `10⁻⁴` and `10⁵`, and as
`d.ddddde±xx` otherwise.

**Fixed format** (`fixed`). A given number of digits after the point.

**Rounding.** Both formats round the exact value to the nearest digit string, a half to the even
neighbour.

Main results: `two_mul_roundDiv_le` and `le_two_mul_roundDiv`, the rounded quotient is off by at
most a half.
-/

namespace PoolArbitrage

/-- A double taken apart: no number, an infinity, or a sign with an exact quotient. -/
inductive Figure where
  | nan
  | infinite (negative : Bool)
  | finite (negative : Bool) (num den : Nat)
  deriving DecidableEq, Repr

/-- The number of values of the fraction field, which has 52 bits. -/
def Figure.fractions : Nat := 4503599627370496

/-- Sign, exponent and fraction fields read as the value they stand for. -/
def Figure.ofFloat (x : Float) : Figure :=
  let bits := x.toBits.toNat
  let negative := decide (2048 * fractions ≤ bits)
  let exponent := bits / fractions % 2048
  let fraction := bits % fractions
  if exponent = 2047 then
    if fraction = 0 then .infinite negative else .nan
  else
    let significand := if exponent = 0 then fraction else fraction + fractions
    let power := Nat.max exponent 1
    if 1075 ≤ power then .finite negative (significand * Nat.pow 2 (power - 1075)) 1
    else .finite negative significand (Nat.pow 2 (1075 - power))

namespace Decimal

/-! ## Rounding -/

/-- The quotient rounded to the nearest natural, a half to the even one. -/
def roundDiv (n d : Nat) : Nat :=
  let q := n / d
  let r := n % d
  if 2 * r < d then q
  else if d < 2 * r then q + 1
  else if q % 2 = 0 then q else q + 1

theorem two_mul_roundDiv_le (n d : Nat) (h : 0 < d) : 2 * (d * roundDiv n d) ≤ 2 * n + d := by
  have hq := Nat.div_add_mod n d
  have hr := Nat.mod_lt n h
  unfold roundDiv
  simp only
  split
  · omega
  · split
    · rw [Nat.mul_add]; omega
    · split
      · omega
      · rw [Nat.mul_add]; omega

theorem le_two_mul_roundDiv (n d : Nat) (h : 0 < d) : 2 * n ≤ 2 * (d * roundDiv n d) + d := by
  have hq := Nat.div_add_mod n d
  have hr := Nat.mod_lt n h
  unfold roundDiv
  simp only
  split
  · omega
  · split
    · rw [Nat.mul_add]; omega
    · split
      · omega
      · rw [Nat.mul_add]; omega

/-! ## Digits -/

/-- The value of the decimal place `k`. -/
def place (k : Nat) : Nat := Nat.pow 10 k

/-- How many decimal digits `n` has; zero has one. -/
def digitCount (n : Nat) : Nat := (Nat.toDigits 10 n).length

/-- The place of the leading digit of a positive quotient: the greatest `k` with `10ᵏ ≤ num/den`. -/
def leadingPlace (num den : Nat) : Int :=
  if den ≤ num then digitCount (num / den) - 1
  else
    let t := digitCount (den / num)
    if den = num * place (t - 1) then 1 - t else -t

/-- `num/den` divided by `10ᵏ` and rounded. -/
def roundAt (num den : Nat) (k : Int) : Nat :=
  if 0 ≤ k then roundDiv num (den * place k.toNat) else roundDiv (num * place (-k).toNat) den

/-- How many significant digits the general format keeps. -/
def significance : Nat := 6

/-- The significant digits of a positive quotient and the place of the first of them. -/
def significant (num den : Nat) : List Char × Int :=
  let k := leadingPlace num den
  let d := roundAt num den (k - (significance - 1))
  if d = place significance then (Nat.toDigits 10 (d / 10), k + 1) else (Nat.toDigits 10 d, k)

def dropTrailingZeros (ds : List Char) : List Char := (ds.reverse.dropWhile (· == '0')).reverse

/-- The digits after the point, with their point, or nothing if they are all zeros. -/
def fraction (ds : List Char) : List Char :=
  match dropTrailingZeros ds with
  | [] => []
  | kept => '.' :: kept

/-- At least two digits, as exponents are written. -/
def twoDigits (n : Nat) : List Char :=
  if n < 10 then '0' :: Nat.toDigits 10 n else Nat.toDigits 10 n

/-- The general format of a positive quotient. -/
def generalDigits (num den : Nat) : List Char :=
  let (ds, k) := significant num den
  if k < -4 ∨ (significance : Int) ≤ k then
    ds.take 1 ++ fraction (ds.drop 1) ++ ['e', if k < 0 then '-' else '+'] ++ twoDigits k.natAbs
  else if 0 ≤ k then
    ds.take (k.toNat + 1) ++ fraction (ds.drop (k.toNat + 1))
  else
    '0' :: fraction (List.replicate (k.natAbs - 1) '0' ++ ds)

/-- The fixed format of a quotient. -/
def fixedDigits (places num den : Nat) : List Char :=
  let n := roundDiv (num * place places) den
  let low := Nat.toDigits 10 (n % place places)
  Nat.toDigits 10 (n / place places) ++
    if places = 0 then [] else '.' :: (List.replicate (places - low.length) '0' ++ low)

/-! ## Texts -/

def signed (negative : Bool) (ds : List Char) : String :=
  String.ofList (if negative then '-' :: ds else ds)

/-- The text of a figure whose finite values are written by `digits`. -/
def render (digits : Nat → Nat → List Char) : Figure → String
  | .nan => "nan"
  | .infinite negative => signed negative ['i', 'n', 'f']
  | .finite negative num den => signed negative (digits num den)

/-- Six significant digits, trailing zeros dropped. -/
def general (x : Float) : String :=
  render (fun num den => if num = 0 then ['0'] else generalDigits num den) (Figure.ofFloat x)

/-- A fixed number of digits after the point. -/
def fixed (places : Nat) (x : Float) : String :=
  render (fixedDigits places) (Figure.ofFloat x)

example : generalDigits 105471 100000 = "1.05471".toList := by decide +kernel
example : generalDigits 1000000 1 = "1e+06".toList := by decide +kernel
example : generalDigits 9999995 10 = "1e+06".toList := by decide +kernel
example : generalDigits 1 100000 = "1e-05".toList := by decide +kernel
example : generalDigits 1 8000 = "0.000125".toList := by decide +kernel
example : fixedDigits 3 9997 10000 = "1.000".toList := by decide +kernel

end Decimal

end PoolArbitrage
