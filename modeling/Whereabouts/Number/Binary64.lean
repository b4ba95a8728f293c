/-!
# Numbers of sixty-four bits

The finite numbers of the binary format with fifty-three significant bits, as a whole number times a
power of two, and the infinities. The values that are no number (NaN) are left out: nothing here is a
value that differs from itself. `ofDecimal` rounds a decimal to the nearest number, a tie to the even
neighbour.
-/

namespace Whereabouts

/-- `floor (n / d)`, or one more if the rest is more than a half, or half and the quotient odd. -/
def roundDiv (n d : Nat) : Nat :=
  let q := n / d
  let r := 2 * (n % d)
  if r > d ∨ (r = d ∧ q % 2 = 1) then q + 1 else q

inductive Binary64 where
  /-- The significand times two to the exponent. -/
  | finite (negative : Bool) (significand : Nat) (exponent : Int)
  | infinite (negative : Bool)
deriving DecidableEq, Repr

namespace Binary64

def precision : Nat := 53

def minExponent : Int := -1074

/-- The greatest exponent that a significand of full precision can have. -/
def maxExponent : Int := 971

def scaled (n d : Nat) (e : Int) : Nat × Nat :=
  if 0 ≤ e then (n * Nat.pow 2 e.toNat, d) else (n, d * Nat.pow 2 (-e).toNat)

def ofFraction (negative : Bool) (n d : Nat) : Binary64 :=
  let guess : Int := (n.log2 : Int) - (d.log2 : Int) - (precision : Int)
  let (a, b) := scaled n d (-guess)
  let e := max minExponent (if a < Nat.pow 2 precision * b then guess else guess + 1)
  let (a, b) := scaled n d (-e)
  let m := roundDiv a b
  if m < Nat.pow 2 precision then
    if e > maxExponent then .infinite negative else .finite negative m e
  else if e + 1 > maxExponent then .infinite negative
  else .finite negative (m / 2) (e + 1)

/-- Decimal exponents beyond which every number of the digits is infinite or zero. -/
def decimalBound : Int := 400

/-- The number nearest to `digits` times ten to the exponent. -/
def ofDecimal (negative : Bool) (digits : Nat) (exponent : Int) : Binary64 :=
  let size : Int := ((Nat.toDigits 10 digits).length : Int) + exponent
  if digits = 0 ∨ size < -decimalBound then .finite negative 0 0
  else if size > decimalBound then .infinite negative
  else if 0 ≤ exponent then ofFraction negative (digits * Nat.pow 10 exponent.toNat) 1
  else ofFraction negative digits (Nat.pow 10 (-exponent).toNat)

def fraction (significand : Nat) (exponent : Int) : Nat × Nat := scaled significand 1 exponent

def exact (negative : Bool) (significand : Nat) (exponent : Int) : Rat :=
  let (n, d) := fraction significand exponent
  if negative then -mkRat n d else mkRat n d

def truncate? : Binary64 → Option Int
  | .finite negative m e =>
    let (n, d) := fraction m e
    some (if negative then -((n / d : Nat) : Int) else ((n / d : Nat) : Int))
  | .infinite _ => none

end Binary64

end Whereabouts
