/-!
# Blank characters

`isBlank` is the Unicode whitespace that surrounds a text without belonging to it: the ASCII
controls and separators, the space, and the space separators of the later blocks.
`strip_eq_nil_iff`: stripping leaves nothing exactly of a text of blanks.
-/

namespace Whereabouts

/-- Whitespace by its Unicode property, the four ASCII information separators included. -/
def isBlank (c : Char) : Bool :=
  let n := c.toNat
  (0x09 ≤ n && n ≤ 0x0d) || (0x1c ≤ n && n ≤ 0x20) || n == 0x85 || n == 0xa0 || n == 0x1680 ||
    (0x2000 ≤ n && n ≤ 0x200a) || n == 0x2028 || n == 0x2029 || n == 0x202f || n == 0x205f ||
    n == 0x3000

def stripRight (cs : List Char) : List Char := (cs.reverse.dropWhile isBlank).reverse

def strip (cs : List Char) : List Char := stripRight (cs.dropWhile isBlank)

theorem dropWhile_eq_nil_iff {α : Type} (p : α → Bool) (l : List α) :
    l.dropWhile p = [] ↔ ∀ x ∈ l, p x = true := by
  induction l with
  | nil => simp
  | cons a l ih => by_cases h : p a <;> simp [h, ih]

@[simp] theorem stripRight_eq_nil_iff (cs : List Char) :
    stripRight cs = [] ↔ ∀ c ∈ cs, isBlank c = true := by
  rw [stripRight, List.reverse_eq_nil_iff, dropWhile_eq_nil_iff]
  simp

@[simp] theorem strip_eq_nil_iff (cs : List Char) : strip cs = [] ↔ ∀ c ∈ cs, isBlank c = true := by
  rw [strip, stripRight_eq_nil_iff]
  induction cs with
  | nil => simp
  | cons c cs ih =>
    by_cases h : isBlank c
    · simpa [h] using ih
    · simp [h]

end Whereabouts
