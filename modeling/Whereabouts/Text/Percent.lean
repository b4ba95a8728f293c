import Whereabouts.Text.Hex

/-!
# Percent-encoding

A text as unreserved characters and escapes of its UTF-8 bytes. `unescape` reads the escapes back
into bytes, with letters of either case; `unescape_escape`: it finds the bytes that were written.
-/

namespace Whereabouts

def isUnreserved (c : Char) : Bool :=
  c.isAlphanum || c == '_' || c == '.' || c == '-' || c == '~'

/-- A byte as a percent sign and two digits with capital letters. -/
def escapeByte (b : UInt8) : List Char :=
  ['%', hexCapital (b.toNat / 16), hexCapital (b.toNat % 16)]

/-- A character as itself or as the escapes of its UTF-8 bytes. -/
def escapeChar (c : Char) : List Char :=
  if isUnreserved c then [c] else (String.utf8EncodeChar c).flatMap escapeByte

def escape (cs : List Char) : List Char := cs.flatMap escapeChar

/-- The bytes that an escaped text stands for; nothing if an escape is cut short or malformed. -/
def unescape : List Char → Option (List UInt8)
  | [] => some []
  | '%' :: h :: l :: cs => do
    let h ← hexValue? h
    let l ← hexValue? l
    let bs ← unescape cs
    pure (UInt8.ofNat (16 * h + l) :: bs)
  | c :: cs => if c = '%' then none else (unescape cs).map (String.utf8EncodeChar c ++ ·)

theorem escapeByte_hexValues (b : UInt8) :
    hexValue? (hexCapital (b.toNat / 16)) = some (b.toNat / 16) ∧
      hexValue? (hexCapital (b.toNat % 16)) = some (b.toNat % 16) :=
  ⟨hexValue_hexCapital (by have := b.toNat_lt; omega), hexValue_hexCapital (by omega)⟩

theorem unescape_escapeByte (b : UInt8) (cs : List Char) :
    unescape (escapeByte b ++ cs) = (unescape cs).map (b :: ·) := by
  obtain ⟨hi, lo⟩ := escapeByte_hexValues b
  have e : UInt8.ofNat (16 * (b.toNat / 16) + b.toNat % 16) = b := by
    rw [Nat.div_add_mod]; simp
  simp only [escapeByte, List.cons_append, List.nil_append, unescape, hi, lo,
    Option.bind_eq_bind, Option.bind_some, e]
  cases unescape cs <;> rfl

theorem unescape_escapeBytes (bs : List UInt8) (cs : List Char) :
    unescape (bs.flatMap escapeByte ++ cs) = (unescape cs).map (bs ++ ·) := by
  induction bs with
  | nil => simp
  | cons b bs ih =>
    rw [List.flatMap_cons, List.append_assoc, unescape_escapeByte, ih]
    cases unescape cs <;> rfl

theorem ne_percent_of_isUnreserved {c : Char} (h : isUnreserved c = true) : c ≠ '%' := by
  rintro rfl
  exact absurd h (by decide)

theorem unescape_cons {c : Char} (h : c ≠ '%') (cs : List Char) :
    unescape (c :: cs) = (unescape cs).map (String.utf8EncodeChar c ++ ·) := by
  rw [unescape]
  · rw [if_neg h]
  · intro _ _ _ e; exact absurd e h

theorem unescape_escapeChar (c : Char) (cs : List Char) :
    unescape (escapeChar c ++ cs) = (unescape cs).map (String.utf8EncodeChar c ++ ·) := by
  unfold escapeChar
  split
  · next h => exact unescape_cons (ne_percent_of_isUnreserved h) cs
  · exact unescape_escapeBytes _ cs

/-- Reading the escapes of a text gives its UTF-8 bytes. -/
theorem unescape_escape (cs : List Char) :
    unescape (escape cs) = some (cs.flatMap String.utf8EncodeChar) := by
  induction cs with
  | nil => rfl
  | cons c cs ih => rw [escape, List.flatMap_cons, unescape_escapeChar, ← escape, ih]; rfl

end Whereabouts
