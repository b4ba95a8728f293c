import Whereabouts.Text.Pieces

/-!
# Paths

A path is an anchor and the names below it, innermost first, so that the parent is the tail.
Reading a text drops empty and dot components and keeps parent components; `Path.normal` removes
the parent components as well, looking at the text alone. `normal_normal`: a second time changes
nothing, and `isNormal_normal`: what is left of a rooted path holds no component but names.
-/

namespace Whereabouts

/-- Where a path starts: at the current directory, at the root, or at the root as written with
exactly two slashes. -/
inductive Anchor where
  | here
  | root
  | doubleRoot
deriving DecidableEq, Repr

def Anchor.ofChars : List Char → Anchor
  | '/' :: '/' :: '/' :: _ => .root
  | '/' :: '/' :: _ => .doubleRoot
  | '/' :: _ => .root
  | _ => .here

def Anchor.toString : Anchor → String
  | .here => ""
  | .root => "/"
  | .doubleRoot => "//"

/-- An anchor and the names below it, innermost first. -/
structure Path where
  anchor : Anchor
  names : List String
deriving DecidableEq, Repr

namespace Path

/-- The components of a text that name something: neither empty nor a dot. -/
def components (s : String) : List String :=
  (cut '/' s).filter fun n => n ≠ "" && n ≠ "."

def ofString (s : String) : Path :=
  { anchor := Anchor.ofChars s.toList, names := (components s).reverse }

/-- The text of a path; the empty relative path is a dot. -/
def toString (p : Path) : String :=
  match p.anchor, p.names with
  | .here, [] => "."
  | a, ns => a.toString ++ join '/' ns.reverse

instance : ToString Path := ⟨toString⟩

def isAbsolute (p : Path) : Bool := p.anchor ≠ .here

def child (p : Path) (name : String) : Path := { p with names := name :: p.names }

/-- The path one level up by the text; a path without names is its own parent. -/
def parent (p : Path) : Path := { p with names := p.names.tail }

/-- The second path as seen from the first: itself if it is absolute. -/
def append (p q : Path) : Path :=
  if q.isAbsolute then q else { p with names := q.names ++ p.names }

instance : Append Path := ⟨append⟩

/-! ## Normal form -/

/-- One more component on the names so far. A parent component takes the innermost name away; with
no name to take it stays on a relative path and vanishes on a rooted one. -/
def push (rooted : Bool) (names : List String) (name : String) : List String :=
  if name = ".." then
    match names with
    | [] => if rooted then [] else [".."]
    | top :: rest => if top = ".." then ".." :: names else rest
  else name :: names

def normal (p : Path) : Path :=
  { p with names := p.names.reverse.foldl (push p.isAbsolute) [] }

def absolute (here : Path) (s : String) : Path := (here ++ ofString s).normal

def isName (n : String) : Bool := n ≠ "" && n ≠ "." && n ≠ ".." && !n.toList.contains '/'

/-- An absolute path of proper names. -/
def isNormal (p : Path) : Bool := p.isAbsolute && p.names.all isName

theorem isAbsolute_ofString_of_slash {s : String} {cs : List Char} (h : s.toList = '/' :: cs) :
    (ofString s).isAbsolute = true := by
  unfold isAbsolute ofString
  rw [h]
  dsimp only
  unfold Anchor.ofChars
  split <;> simp_all

theorem push_of_ne {rooted : Bool} {names : List String} {name : String} (h : name ≠ "..") :
    push rooted names name = name :: names := if_neg h

theorem parent_not_mem_push {names : List String} {name : String} (h : ".." ∉ names) :
    ".." ∉ push true names name := by
  unfold push
  split
  · cases names with
    | nil => simp
    | cons top rest =>
      simp only [List.mem_cons, not_or] at h
      simp [Ne.symm h.1, h.2]
  · next hn => simp [Ne.symm hn, h]

theorem parent_not_mem_foldl_push {names : List String} (h : ".." ∉ names) (ns : List String) :
    ".." ∉ ns.foldl (push true) names := by
  induction ns generalizing names with
  | nil => exact h
  | cons n ns ih => exact ih (parent_not_mem_push h)

theorem mem_push {rooted : Bool} {names : List String} {name n : String}
    (h : n ∈ push rooted names name) : n ∈ names ∨ n = name := by
  unfold push at h
  split at h
  · next e =>
    cases names with
    | nil => cases rooted <;> simp_all
    | cons top rest =>
      dsimp only at h
      split at h
      · rcases List.mem_cons.1 h with h | h
        · exact .inr (h.trans e.symm)
        · exact .inl h
      · exact .inl (List.mem_cons_of_mem _ h)
  · rcases List.mem_cons.1 h with h | h
    · exact .inr h
    · exact .inl h

theorem mem_foldl_push {rooted : Bool} {ns names : List String} {n : String}
    (h : n ∈ ns.foldl (push rooted) names) : n ∈ names ∨ n ∈ ns := by
  induction ns generalizing names with
  | nil => exact .inl h
  | cons m ns ih =>
    rcases ih h with h | h
    · rcases mem_push h with h | h
      · exact .inl h
      · exact .inr (h ▸ List.mem_cons_self)
    · exact .inr (List.mem_cons_of_mem _ h)

theorem foldl_push_of_not_mem {rooted : Bool} {ns : List String} (h : ".." ∉ ns)
    (names : List String) : ns.foldl (push rooted) names = ns.reverse ++ names := by
  induction ns generalizing names with
  | nil => rfl
  | cons n ns ih =>
    simp only [List.mem_cons, not_or] at h
    rw [List.foldl_cons, push_of_ne (Ne.symm h.1), ih h.2]
    simp

theorem foldl_push_foldl_push (rooted : Bool) (ns : List String) :
    (ns.foldl (push rooted) []).reverse.foldl (push rooted) [] = ns.foldl (push rooted) [] := by
  suffices H : ∀ names : List String, names.reverse.foldl (push rooted) [] = names →
      (ns.foldl (push rooted) names).reverse.foldl (push rooted) [] =
        ns.foldl (push rooted) names by
    exact H [] rfl
  induction ns with
  | nil => exact fun names h => h
  | cons n ns ih =>
    intro names h
    refine ih (push rooted names n) ?_
    by_cases hn : n = ".."
    · subst hn
      cases names with
      | nil => cases rooted <;> rfl
      | cons top rest =>
        rw [List.reverse_cons, List.foldl_append] at h
        by_cases ht : top = ".."
        · subst ht
          have e : push rooted (".." :: rest) ".." = ".." :: ".." :: rest := rfl
          rw [e, List.reverse_cons, List.foldl_append, List.reverse_cons, List.foldl_append]
          rw [h]
          rfl
        · have e : push rooted (top :: rest) ".." = rest := by simp [push, ht]
          rw [e]
          simp only [List.foldl_cons, List.foldl_nil, push_of_ne ht, List.cons.injEq,
            true_and] at h
          exact h
    · rw [push_of_ne hn, List.reverse_cons, List.foldl_append, h]
      exact push_of_ne hn

@[simp] theorem normal_normal (p : Path) : p.normal.normal = p.normal := by
  show (⟨p.anchor, _⟩ : Path) = ⟨p.anchor, _⟩
  exact congrArg (Path.mk p.anchor) (foldl_push_foldl_push p.isAbsolute p.names.reverse)

@[simp] theorem isAbsolute_normal (p : Path) : p.normal.isAbsolute = p.isAbsolute := rfl

theorem mem_components {s n : String} (h : n ∈ components s) :
    n ≠ "" ∧ n ≠ "." ∧ '/' ∉ n.toList := by
  simp only [components, cut, List.mem_filter, List.mem_map, Bool.and_eq_true,
    decide_eq_true_eq] at h
  obtain ⟨⟨p, hp, rfl⟩, h1, h2⟩ := h
  exact ⟨h1, h2, by simpa using sep_not_mem_pieces '/' s.toList p hp⟩

theorem isNormal_normal {p : Path} (ha : p.isAbsolute = true)
    (h : ∀ n ∈ p.names, n ≠ "" ∧ n ≠ "." ∧ '/' ∉ n.toList) : p.normal.isNormal = true := by
  rw [isNormal, isAbsolute_normal, ha, Bool.true_and, List.all_eq_true]
  intro n hn
  have hn' : n ∈ p.names.reverse.foldl (push p.isAbsolute) [] := hn
  rcases mem_foldl_push hn' with h0 | hm
  · simp at h0
  · obtain ⟨h1, h2, h3⟩ := h n (List.mem_reverse.1 hm)
    have h4 : n ≠ ".." := by
      rintro rfl
      rw [ha] at hn'
      exact parent_not_mem_foldl_push (by simp) _ hn'
    simp [isName, h1, h2, h3, h4]

end Path

end Whereabouts
