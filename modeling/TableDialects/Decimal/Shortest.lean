import TableDialects.Text.Basic
import TableDialects.Decimal.Double

/- The shortest decimal text of a double: the fewest digits that read back as
   the same number, and of those with as few digits the nearest one, an even
   last digit where two are equally near. The digits are found by exact
   arithmetic on the interval of numbers that round to the double.

   `DecimalFormat` holds what a writer is free to choose: from which power of
   ten on the exponent is written out. -/
namespace TableDialects.Double

/-- The bounds of the numbers that round to `m * 2 ^ e`, and the number itself,
in units of `2 ^ (e - 2)`. Below a power of two the gap is half as wide. -/
def bounds (m : Nat) (e : Int) : Nat × Nat × Nat :=
  let low := if m == Nat.pow 2 52 && -1074 < e then 4 * m - 1 else 4 * m - 2
  (low, 4 * m, 4 * m + 2)

/-- Whether `c * 10 ^ k` lies in the interval of numbers that round to
`m * 2 ^ e`; the ends count where the mantissa is even. -/
def roundsTo (m : Nat) (e : Int) (c : Nat) (k : Int) : Bool :=
  let (low, _, high) := bounds m e
  let (c, u) := match k with
    | .ofNat k => (c * Nat.pow 10 k, 1)
    | .negSucc k => (c, Nat.pow 10 (k + 1))
  let (c, u) := scale c u (e - 2)
  if m % 2 == 0 then low * u ≤ c && c ≤ high * u else low * u < c && c < high * u

/-- Numerator and denominator of `m * 2 ^ e / 10 ^ k`. -/
def overPower (m : Nat) (e k : Int) : Nat × Nat :=
  let (n, d) := scale m 1 (-e)
  match k with
  | .ofNat k => (n, d * Nat.pow 10 k)
  | .negSucc k => (n * Nat.pow 10 (k + 1), d)

/-- The number of digits before the decimal point of `m * 2 ^ e`; zero or less
for a number below one tenth. -/
def pointPlace (m : Nat) (e : Int) : Int :=
  let guess : Int := ((Nat.log2 m : Int) + e) * 30103 / 100000
  let fits (k : Int) : Bool := let (n, d) := overPower m e k; n < d
  if fits (guess - 1) then guess - 1
  else if fits guess then guess
  else if fits (guess + 1) then guess + 1
  else guess + 2

/-- The nearest decimal with the last place `10 ^ k` that rounds to
`m * 2 ^ e`, if one of the two neighbours does. -/
def neighbour? (m : Nat) (e k : Int) : Option Nat :=
  let (n, d) := overPower m e k
  let low := n / d
  match roundsTo m e low k, roundsTo m e (low + 1) k with
  | true, true => some (roundQuotient n d)
  | true, false => some low
  | false, true => some (low + 1)
  | false, false => none

/-- The shortest digits of `m * 2 ^ e` with the power of ten of the last one,
tried with `count` more digits behind the point place `place - 1 - tried`. -/
def shortestFrom (m : Nat) (e : Int) (place : Int) : (count tried : Nat) → Nat × Int
  | 0, tried => (roundQuotient (overPower m e (place - tried)).1 (overPower m e (place - tried)).2,
      place - tried)
  | count + 1, tried =>
    let k := place - (tried + 1 : Nat)
    match neighbour? m e k with
    | some c => (c, k)
    | none => shortestFrom m e place count (tried + 1)

/-- The shortest digits that read back as `m * 2 ^ e`, as a number and the
power of ten of its last digit. Seventeen digits always do. -/
def shortest (m : Nat) (e : Int) : Nat × Int := shortestFrom m e (pointPlace m e) 17 0

/-- How a number is laid out: positional where the power of ten of its first
digit lies from `least` to below `most`, else with an exponent. -/
structure DecimalFormat where
  least : Int
  most : Int

/-- Numbers are written positionally from a ten-thousandth up to sixteen digits
before the point. -/
def plain : DecimalFormat := ⟨-4, 16⟩

/-- An exponent has a sign and at least two digits. -/
def exponentText (e : Int) : Text :=
  let digits := Text.ofNat e.natAbs
  (if e < 0 then '-' else '+') :: (if digits.length < 2 then '0' :: digits else digits)

def trimZeros (digits : Text) : Text := Text.trimEnd (· == '0') digits

/-- The digits `digits`, the first of which stands for `10 ^ lead`. -/
def layOut (format : DecimalFormat) (digits : Text) (lead : Int) : Text :=
  if format.least ≤ lead && lead < format.most then
    if lead < 0 then "0.".toList ++ List.replicate (-lead - 1).toNat '0' ++ digits
    else
      let whole := lead.toNat + 1
      let padded := digits ++ List.replicate (whole - digits.length) '0'
      let part := padded.drop whole
      padded.take whole ++ '.' :: (if part.isEmpty then ['0'] else part)
  else
    digits.take 1 ++ (if digits.length ≤ 1 then [] else '.' :: digits.drop 1)
      ++ 'e' :: exponentText lead

def render : Double → Text
  | .nan => "nan"
  | .infinite negative => if negative then "-inf" else "inf"
  | .finite negative m e =>
    let body : Text :=
      if m == 0 then "0.0"
      else
        let (c, k) := shortest m e
        let digits := Text.ofNat c
        layOut plain (trimZeros digits) (k + digits.length - 1)
    if negative then '-' :: body else body

end TableDialects.Double
