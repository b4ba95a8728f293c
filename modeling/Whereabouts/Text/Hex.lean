/-!
# Hexadecimal digits

Bytes as two digits each, in lower case or in capitals, and the value of a digit of either case.
-/

namespace Whereabouts

/-- A digit below sixteen, in lower case. -/
def hexDigit (n : Nat) : Char :=
  if n < 10 then Char.ofNat (48 + n) else Char.ofNat (87 + n)

/-- A digit below sixteen, with capital letters. -/
def hexCapital (n : Nat) : Char :=
  if n < 10 then Char.ofNat (48 + n) else Char.ofNat (55 + n)

def hexValue? (c : Char) : Option Nat :=
  if '0' ≤ c ∧ c ≤ '9' then some (c.toNat - 48)
  else if 'a' ≤ c ∧ c ≤ 'f' then some (c.toNat - 87)
  else if 'A' ≤ c ∧ c ≤ 'F' then some (c.toNat - 55)
  else none

def hexOfBytes (bs : List UInt8) : List Char :=
  bs.flatMap fun b => [hexDigit (b.toNat / 16), hexDigit (b.toNat % 16)]

/-- The lower-case digits of a number, padded with zeros to at least the width. -/
def hexPadded (width n : Nat) : List Char :=
  let ds := (Nat.toDigits 16 n)
  List.replicate (width - ds.length) '0' ++ ds

theorem hexValue_hexCapital {n : Nat} (h : n < 16) : hexValue? (hexCapital n) = some n := by
  have : ∀ m : Fin 16, hexValue? (hexCapital m.1) = some m.1 := by decide
  exact this ⟨n, h⟩

end Whereabouts
