/- Binary floating-point numbers of double precision, by exact integer
   arithmetic. A finite number is `mantissa * 2 ^ exponent` with a mantissa below
   2 ^ 53; below 2 ^ 52 the exponent is the least one, -1074, so that each
   number has one form. A quotient becomes the nearest double, and of two
   equally near ones the one with the even mantissa. -/
namespace TableDialects

inductive Double where
  | nan
  | infinite (negative : Bool)
  | finite (negative : Bool) (mantissa : Nat) (exponent : Int)
  deriving DecidableEq, Repr, Inhabited

namespace Double

/-- The integer nearest to `n / d`; a half goes to the even neighbour. -/
def roundQuotient (n d : Nat) : Nat :=
  let k := n / d
  let r := n % d
  if d < 2 * r || (2 * r == d && k % 2 == 1) then k + 1 else k

/-- Numerator and denominator of `n / d` divided by `2 ^ e`. -/
def scale (n d : Nat) : Int → Nat × Nat
  | .ofNat e => (n, d * Nat.pow 2 e)
  | .negSucc e => (n * Nat.pow 2 (e + 1), d)

def ofMantissa (negative : Bool) (m : Nat) (e : Int) : Double :=
  let (m, e) := if m == Nat.pow 2 53 then (Nat.pow 2 52, e + 1) else (m, e)
  if 971 < e then .infinite negative else .finite negative m e

/-- The double nearest to `n / d`, where `d` is positive. -/
def ofQuotient (negative : Bool) (n d : Nat) : Double :=
  if n == 0 then .finite negative 0 (-1074)
  else
    let low := max ((Nat.log2 n : Int) - Nat.log2 d - 53) (-1074)
    let (n₁, d₁) := scale n d low
    let e := if n₁ / d₁ < Nat.pow 2 53 then low else low + 1
    let (n₂, d₂) := scale n d e
    ofMantissa negative (roundQuotient n₂ d₂) e

/-- The number of decimal digits of `n`. -/
def digitCount (n : Nat) : Nat := (Nat.toDigits 10 n).length

/-- The double nearest to `mantissa * 10 ^ exponent`. Numbers beyond every
finite double are infinite and those below half the least one are zero; their
powers of ten are not computed. -/
def ofDecimal (negative : Bool) (mantissa : Nat) (exponent : Int) : Double :=
  if mantissa == 0 then .finite negative 0 (-1074)
  else
    let magnitude := exponent + digitCount mantissa
    if 310 < magnitude then .infinite negative
    else if magnitude < -330 then .finite negative 0 (-1074)
    else match exponent with
      | .ofNat e => ofQuotient negative (mantissa * Nat.pow 10 e) 1
      | .negSucc e => ofQuotient negative mantissa (Nat.pow 10 (e + 1))

/-- The double nearest to an integer. -/
def ofInt (n : Int) : Double := ofQuotient (n < 0) n.natAbs 1

/-- The integer part of a finite double. -/
def truncate? : Double → Option Int
  | .finite negative m e =>
    let size : Nat := match e with
      | .ofNat k => m * Nat.pow 2 k
      | .negSucc k => m / Nat.pow 2 (k + 1)
    some (if negative then -(size : Int) else size)
  | _ => none

/-- Whether the number equals zero, of either sign. -/
def isZero : Double → Bool
  | .finite _ m _ => m == 0
  | _ => false

def isOne (x : Double) : Bool := x == ofInt 1

end Double
end TableDialects
