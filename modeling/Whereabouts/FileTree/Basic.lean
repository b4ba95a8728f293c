/-!
# File trees

A tree of directories, files and symbolic links as a finite map from locations to nodes. A location
is the list of names that leads to a node from the root, innermost first, so that its directory is
its tail. Every node belongs to the one user who works on the tree, so of a mode only the owner's
bits matter. `get?_put` and `get?_remove` say what the two changes do to the map.
-/

namespace Whereabouts

/-- The names from a node up to the root; the root is the empty list. -/
abbrev Location := List String

/-- Permission bits, as the octal digits of a mode. -/
abbrev Mode := Nat

/-- The owner may add and remove entries, or change the text. -/
def Mode.writable (m : Mode) : Bool := m.testBit 7

/-- The owner may reach the entries. -/
def Mode.searchable (m : Mode) : Bool := m.testBit 6

/-- The bits that are taken from the mode of what is made: the usual `umask`. Other masks are not
represented. -/
def creationMask : Mode := 0o22

def Mode.masked (m : Mode) : Mode := (m &&& 0o1777) ^^^ (m &&& creationMask)

inductive Node where
  | dir (mode : Mode)
  | file (mode : Mode) (text : String)
  | link (target : String)
deriving DecidableEq, Repr

structure FileTree where
  entries : List (Location × Node)
deriving Repr

namespace FileTree

def empty : FileTree := ⟨[([], .dir 0o755)]⟩

def get? (t : FileTree) (loc : Location) : Option Node := t.entries.lookup loc

def put (t : FileTree) (loc : Location) (node : Node) : FileTree :=
  ⟨(loc, node) :: t.entries.filter (·.1 ≠ loc)⟩

/-- The tree without the node at the location; what lies below it stays. -/
def drop (t : FileTree) (loc : Location) : FileTree := ⟨t.entries.filter (·.1 ≠ loc)⟩

/-- The first location is the second one or lies below it. -/
def isWithin (loc top : Location) : Bool := top.isSuffixOf loc

def remove (t : FileTree) (top : Location) : FileTree :=
  ⟨t.entries.filter (!isWithin ·.1 top)⟩

def IsDir (t : FileTree) (loc : Location) : Prop := ∃ m, t.get? loc = some (.dir m)

/-- The root is a directory, and so is what any node lies in. -/
structure WellFormed (t : FileTree) : Prop where
  root : t.IsDir []
  above : ∀ {name loc node}, t.get? (name :: loc) = some node → t.IsDir loc

/-! ## The map -/

theorem lookup_filter_ne (es : List (Location × Node)) (a b : Location) :
    (es.filter (·.1 ≠ a)).lookup b = if b = a then none else es.lookup b := by
  induction es with
  | nil => simp
  | cons e es ih =>
    obtain ⟨l, n⟩ := e
    by_cases hl : l = a
    · subst hl
      by_cases hb : b = l
      · simp [hb] at ih ⊢
        exact ih
      · have hb' : (b == l) = false := by simpa using hb
        simp [hb, List.lookup_cons, hb'] at ih ⊢
        exact ih
    · by_cases hbl : b = l
      · subst hbl
        simp [hl]
      · have hb' : (b == l) = false := by simpa using hbl
        simp [hl, List.lookup_cons, hb'] at ih ⊢
        exact ih

@[simp] theorem get?_put (t : FileTree) (a b : Location) (node : Node) :
    (t.put a node).get? b = if b = a then some node else t.get? b := by
  unfold put get?
  by_cases h : b = a
  · simp [h]
  · have h' : (b == a) = false := by simpa using h
    simp only [List.lookup_cons, h', lookup_filter_ne, h, if_false]

@[simp] theorem get?_put_self (t : FileTree) (a : Location) (node : Node) :
    (t.put a node).get? a = some node := by rw [get?_put, if_pos rfl]

theorem get?_put_of_ne {t : FileTree} {a b : Location} {node : Node} (h : b ≠ a) :
    (t.put a node).get? b = t.get? b := by rw [get?_put, if_neg h]

theorem lookup_filter_of_key (es : List (Location × Node)) (p : Location → Bool) (b : Location) :
    (es.filter (p ·.1)).lookup b = if p b then es.lookup b else none := by
  induction es with
  | nil => simp
  | cons e es ih =>
    obtain ⟨l, n⟩ := e
    rw [List.filter_cons]
    by_cases hbl : b = l
    · subst hbl
      cases hp : p b
      · rw [if_neg (by simp), ih, hp]
        simp
      · rw [if_pos (by simp)]
        simp
    · have hb' : (b == l) = false := by simpa using hbl
      rw [List.lookup_cons, hb', ← ih]
      split <;> simp [List.lookup_cons, hb']

@[simp] theorem get?_remove (t : FileTree) (top loc : Location) :
    (t.remove top).get? loc = if isWithin loc top then none else t.get? loc := by
  unfold remove get?
  rw [lookup_filter_of_key t.entries (fun l => !isWithin l top)]
  by_cases h : isWithin loc top <;> simp [h]

theorem wellFormed_empty : empty.WellFormed where
  root := ⟨_, rfl⟩
  above h := by simp [get?, empty, List.lookup_cons] at h

end FileTree

end Whereabouts
