import Whereabouts.Number.Binary64

/-!
# Decimal texts of binary numbers

`shortest` finds the fewest digits that read back as the number, and of those the nearest. Of each
number of digits it tries the two decimals beside the number: if any decimal with so many digits
reads back, one of these does. The other texts round the exact value to a given number of places.
-/

namespace Whereabouts.Binary64

def powerOfTen (e : Int) : Nat × Nat :=
  if 0 ≤ e then (Nat.pow 10 e.toNat, 1) else (1, Nat.pow 10 (-e).toNat)

def leadingExponent (n d : Nat) : Int :=
  let guess : Int := ((Nat.toDigits 10 n).length : Int) - ((Nat.toDigits 10 d).length : Int)
  let (p, q) := powerOfTen guess
  if n * q < d * p then guess - 1 else guess

/-- A decimal of at most `count` digits: the digits as a number, and the exponent of the leading
one, which is `e` unless the digits have grown to the next power of ten. -/
def decimal (count m : Nat) (e : Int) : Nat × Int :=
  if m < Nat.pow 10 count then (m, e) else (m / 10, e + 1)

def beside (n d count : Nat) : (Nat × Int) × (Nat × Int) :=
  let e := leadingExponent n d
  let (p, q) := powerOfTen (e - ((count : Int) - 1))
  let m := roundDiv (n * q) (d * p)
  let other := if m * (d * p) ≤ n * q then m + 1 else m - 1
  (decimal count m e, decimal count other e)

/-- A positive fraction rounded to `count` significant digits: the digits as a number, and the
exponent of the leading one. -/
def significant (n d count : Nat) : Nat × Int := (beside n d count).1

/-- The decimal of `count` digits reads back as the number. -/
def readsBack (number : Nat × Int) (count : Nat) (decimal : Nat × Int) : Bool :=
  ofDecimal false decimal.1 (decimal.2 - ((count : Int) - 1)) = .finite false number.1 number.2

/-- The first decimal of `count` digits, one more and so on that reads back; `left` counts more are
tried. -/
def shortestFrom (number : Nat × Int) : (left count : Nat) → Nat × Int
  | 0, count => let (n, d) := fraction number.1 number.2; significant n d count
  | left + 1, count =>
    let (n, d) := fraction number.1 number.2
    let (nearer, other) := beside n d count
    if readsBack number count nearer then nearer
    else if readsBack number count other then other
    else shortestFrom number left (count + 1)

def shortest (significand : Nat) (exponent : Int) : Nat × Int :=
  shortestFrom (significand, exponent) 16 1

def withoutZeros (ds : List Char) : List Char := (ds.reverse.dropWhile (· = '0')).reverse

def exponentText (e : Int) : List Char :=
  let ds := Nat.toDigits 10 e.natAbs
  'e' :: (if e < 0 then '-' else '+') :: (List.replicate (2 - ds.length) '0' ++ ds)

/-- Digits with a point before the places that stand behind it, if there are any or `point`. -/
def withPoint (point : Bool) (whole places : List Char) : List Char :=
  if places.isEmpty then (if point then whole ++ ['.'] else whole) else whole ++ '.' :: places

def fixedText (point : Bool) (n d places : Nat) : List Char :=
  let ds := Nat.toDigits 10 (roundDiv (n * Nat.pow 10 places) d)
  let ds := List.replicate (places + 1 - ds.length) '0' ++ ds
  withPoint point (ds.take (ds.length - places)) (ds.drop (ds.length - places))

def significantDigits (n d count : Nat) : List Char × Int :=
  if n = 0 then (List.replicate count '0', 0)
  else
    let (m, e) := significant n d count
    (Nat.toDigits 10 m, e)

/-- The magnitude with one digit before the point, this many behind it, and an exponent. -/
def scientificText (point : Bool) (n d places : Nat) : List Char :=
  let (ds, e) := significantDigits n d (places + 1)
  withPoint point (ds.take 1) (ds.drop 1) ++ exponentText e

/-- The magnitude with so many significant digits, positional unless the exponent is below minus
four or the digits do not reach the point. Zeros at the end are dropped unless `point`. -/
def generalText (point : Bool) (n d count : Nat) : List Char :=
  let count := max count 1
  let (ds, e) := significantDigits n d count
  let trim := fun cs => if point then cs else withoutZeros cs
  if -4 ≤ e ∧ e < count then
    if 0 ≤ e then withPoint point (ds.take (e.toNat + 1)) (trim (ds.drop (e.toNat + 1)))
    else withPoint point ['0'] (trim (List.replicate ((-e).toNat - 1) '0' ++ ds))
  else withPoint point (ds.take 1) (trim (ds.drop 1)) ++ exponentText e

/-- The shortest text of a magnitude that reads back: positional from four places behind the point
to sixteen digits before it, and then with a digit behind the point. -/
def plainText (significand : Nat) (exponent : Int) : List Char :=
  if significand = 0 then ['0', '.', '0']
  else
    let (m, e) := shortest significand exponent
    let ds := withoutZeros (Nat.toDigits 10 m)
    if -4 ≤ e ∧ e < 16 then
      if 0 ≤ e then
        let ds := ds ++ List.replicate (e.toNat + 1 - ds.length) '0'
        let places := ds.drop (e.toNat + 1)
        withPoint false (ds.take (e.toNat + 1)) (if places.isEmpty then ['0'] else places)
      else withPoint false ['0'] (List.replicate ((-e).toNat - 1) '0' ++ ds)
    else withPoint false (ds.take 1) (ds.drop 1) ++ exponentText e

end Whereabouts.Binary64
