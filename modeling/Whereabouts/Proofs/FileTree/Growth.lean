import Whereabouts.FileTree.Canonical
import Whereabouts.Proofs.FileTree.Leads

/-!
# Trees that grow

A tree grows when entries are added and none is changed. What a walk finds in a tree it finds in
every tree that has grown from it, and what was vacant leads to the node that is put there.
-/

namespace Whereabouts.FileTree

/-- The second tree has all entries of the first. -/
structure Grows (t t' : FileTree) : Prop where
  keeps : ∀ {loc : Location} {node : Node}, t.get? loc = some node → t'.get? loc = some node
  links : t.linkCount ≤ t'.linkCount

theorem Grows.refl (t : FileTree) : Grows t t := ⟨id, Nat.le_refl _⟩

theorem Grows.trans {t t' t'' : FileTree} (h : Grows t t') (h' : Grows t' t'') : Grows t t'' :=
  ⟨fun hg => h'.keeps (h.keeps hg), Nat.le_trans h.links h'.links⟩

theorem filter_of_vacant {t : FileTree} {loc : Location} (h : t.get? loc = none) :
    t.entries.filter (·.1 ≠ loc) = t.entries := by
  rw [List.filter_eq_self]
  intro e he
  have hne := List.lookup_eq_none_iff.1 h e he
  exact decide_eq_true fun heq => by simp [heq] at hne

theorem Grows.put {t : FileTree} {loc : Location} (h : t.get? loc = none) (node : Node) :
    Grows t (t.put loc node) where
  keeps {l nd} hl := by
    have hne : l ≠ loc := by
      intro he
      rw [he, h] at hl
      cases hl
    rw [get?_put_of_ne hne]
    exact hl
  links := by
    unfold FileTree.put linkCount
    rw [filter_of_vacant h, List.countP_cons]
    exact Nat.le_add_right _ _

section
variable {t t' : FileTree} {follow : Bool}

/-! ## Walks in a grown tree -/

theorem Grows.opens (hg : Grows t t') {loc : Location} (h : t.Opens loc) : t'.Opens loc := by
  obtain ⟨mode, hd, hs⟩ := h
  exact ⟨mode, hg.keeps hd, hs⟩

theorem Grows.leads (hg : Grows t t') {n : Nat} {loc l : Location} {steps : List String} {node : Node}
    (h : Leads t follow n loc steps (.entry l node)) : Leads t' follow n loc steps (.entry l node) := by
  generalize hr : Reached.entry l node = r at h
  induction h with
  | done h => exact .done (hg.keeps h)
  | slash _ ih => exact .slash (ih hr)
  | dot ho _ ih => exact .dot (hg.opens ho) (ih hr)
  | up ho _ ih => exact .up (hg.opens ho) (ih hr)
  | vacant => cases hr
  | dir ho hn h _ ih => exact .dir (hg.opens ho) hn (hg.keeps h) (ih hr)
  | file ho hn h => exact .file (hg.opens ho) hn (hg.keeps h)
  | stay ho hn h hf => exact .stay (hg.opens ho) hn (hg.keeps h) hf
  | link ho hn h hf _ ih => exact .link (hg.opens ho) hn (hg.keeps h) hf (ih hr)

theorem Leads.get? {n : Nat} {loc l : Location} {steps : List String} {node : Node}
    (h : Leads t follow n loc steps (.entry l node)) : t.get? l = some node := by
  generalize hr : Reached.entry l node = r at h
  induction h with
  | done h => cases hr; exact h
  | slash _ ih => exact ih hr
  | dot _ _ ih => exact ih hr
  | up _ _ ih => exact ih hr
  | vacant => cases hr
  | dir _ _ _ _ ih => exact ih hr
  | file _ _ h => cases hr; exact h
  | stay _ _ h => cases hr; exact h
  | link _ _ _ _ _ ih => exact ih hr

theorem get?_of_lstat {here : Option Location} {r : Route} {loc : Location} {node : Node}
    (h : t.lstat here r = .ok (loc, node)) : t.get? loc = some node := by
  obtain ⟨-, start, -, hl⟩ := walk_ok_iff.1 (lstat_ok_iff.1 h)
  exact hl.get?

theorem get?_of_stat {here : Option Location} {r : Route} {loc : Location} {node : Node}
    (h : t.stat here r = .ok (loc, node)) : t.get? loc = some node := by
  obtain ⟨-, start, -, hl⟩ := walk_ok_iff.1 (stat_ok_iff.1 h)
  exact hl.get?

theorem Leads.free {n : Nat} {loc dir : Location} {steps : List String} {name : String}
    (h : Leads t follow n loc steps (.vacant dir name)) :
    t.Opens dir ∧ EntryName name ∧ t.get? (name :: dir) = none := by
  generalize hr : Reached.vacant dir name = r at h
  induction h with
  | vacant ho hn h => cases hr; exact ⟨ho, hn, h⟩
  | slash _ ih => exact ih hr
  | dot _ _ ih => exact ih hr
  | up _ _ ih => exact ih hr
  | dir _ _ _ _ ih => exact ih hr
  | link _ _ _ _ _ ih => exact ih hr
  | done | file | stay => cases hr

/-- A node that is no link is found whether links at the end are followed or not. -/
theorem Leads.followed {n : Nat} {loc l : Location} {steps : List String} {node : Node}
    (h : Leads t false n loc steps (.entry l node)) (hl : ∀ target, node ≠ .link target) :
    Leads t true n loc steps (.entry l node) := by
  generalize hr : Reached.entry l node = r at h
  induction h with
  | done h => exact .done h
  | slash _ ih => exact .slash (ih hr)
  | dot ho _ ih => exact .dot ho (ih hr)
  | up ho _ ih => exact .up ho (ih hr)
  | vacant => cases hr
  | dir ho hn h _ ih => exact .dir ho hn h (ih hr)
  | file ho hn h => exact .file ho hn h
  | @stay _ _ _ target =>
    cases hr
    exact absurd rfl (hl target)
  | link ho hn h _ _ ih => exact .link ho hn h (.inr rfl) (ih hr)

/-- What is put at a vacant place is found on the same way. -/
theorem Leads.filled {n : Nat} {loc dir : Location} {steps : List String} {name : String} {node : Node}
    (h : Leads t false n loc steps (.vacant dir name)) (hl : ∀ target, node ≠ .link target) :
    Leads (t.put (name :: dir) node) follow n loc steps (.entry (name :: dir) node) := by
  have hg : Grows t (t.put (name :: dir) node) := .put h.free.2.2 node
  have hput : (t.put (name :: dir) node).get? (name :: dir) = some node := get?_put_self t _ node
  generalize hr : Reached.vacant dir name = r at h
  induction h with
  | vacant ho hn _ =>
    cases hr
    cases node with
    | dir mode => exact .dir (hg.opens ho) hn hput (.done hput)
    | file mode text => exact .file (hg.opens ho) hn hput
    | link target => exact absurd rfl (hl target)
  | slash _ ih => exact .slash (ih hr)
  | dot ho _ ih => exact .dot (hg.opens ho) (ih hr)
  | up ho _ ih => exact .up (hg.opens ho) (ih hr)
  | dir ho hn h _ ih => exact .dir (hg.opens ho) hn (hg.keeps h) (ih hr)
  | @link _ _ _ _ rest _ ho hn h hf _ ih =>
    have hf' : rest ≠ [] ∨ follow = true := by
      rcases hf with hf | hf
      · exact .inl hf
      · cases hf
    exact .link (hg.opens ho) hn (hg.keeps h) hf' (ih hr)
  | done | file | stay => cases hr

end

/-! ## Slashes at the end -/

/-- The second route is the first one without some of its empty steps. -/
inductive Slashed : List String → List String → Prop where
  | nil : Slashed [] []
  | keep {step : String} {a b : List String} (h : Slashed a b) : Slashed (step :: a) (step :: b)
  | drop {a b : List String} (h : Slashed a b) : Slashed ("" :: a) b

theorem Slashed.append {a b : List String} (h : Slashed a b) (steps : List String) :
    Slashed (steps ++ a) (steps ++ b) := by
  induction steps with
  | nil => exact h
  | cons step steps ih => exact .keep ih

theorem slashed_filter (steps : List String) : Slashed steps (steps.filter (· ≠ "")) := by
  induction steps with
  | nil => exact .nil
  | cons step steps ih =>
    by_cases hs : step = ""
    · subst hs
      exact .drop ih
    · rw [List.filter_cons, if_pos (decide_eq_true hs)]
      exact .keep ih

theorem Slashed.cons {step : String} {a b : List String} (h : Slashed (step :: a) b) (hs : step ≠ "") :
    ∃ c, b = step :: c ∧ Slashed a c := by
  cases h with
  | keep h => exact ⟨_, rfl, h⟩
  | drop => exact absurd rfl hs

/-- What a route leads to it leads to without a slash at its end. -/
theorem Leads.unslashed {t : FileTree} {n : Nat} {loc : Location} {steps steps' : List String}
    {r : Reached} (h : Leads t true n loc steps r) (hs : Slashed steps steps') :
    Leads t true n loc steps' r := by
  induction h generalizing steps' with
  | done h =>
    cases hs
    exact .done h
  | slash _ ih =>
    cases hs with
    | keep hs => exact .slash (ih hs)
    | drop hs => exact ih hs
  | dot ho _ ih =>
    obtain ⟨c, rfl, hc⟩ := hs.cons (by decide)
    exact .dot ho (ih hc)
  | up ho _ ih =>
    obtain ⟨c, rfl, hc⟩ := hs.cons (by decide)
    exact .up ho (ih hc)
  | vacant ho hn h =>
    obtain ⟨c, rfl, hc⟩ := hs.cons hn.ne_empty
    cases hc
    exact .vacant ho hn h
  | dir ho hn h _ ih =>
    obtain ⟨c, rfl, hc⟩ := hs.cons hn.ne_empty
    exact .dir ho hn h (ih hc)
  | file ho hn h =>
    obtain ⟨c, rfl, hc⟩ := hs.cons hn.ne_empty
    cases hc
    exact .file ho hn h
  | stay _ _ _ hf => cases hf
  | link ho hn h _ _ ih =>
    obtain ⟨c, rfl, hc⟩ := hs.cons hn.ne_empty
    exact .link ho hn h (.inr rfl) (ih (hc.append _))

/-- A route that leads to a directory leads there with a slash at its end too. -/
theorem Leads.slashed {t : FileTree} {n : Nat} {loc l : Location} {steps : List String} {mode : Mode}
    (h : Leads t true n loc steps (.entry l (.dir mode))) :
    Leads t true n loc (steps ++ [""]) (.entry l (.dir mode)) := by
  generalize hr : Reached.entry l (.dir mode) = r at h
  induction h with
  | done h =>
    cases hr
    exact .slash (.done h)
  | slash _ ih => exact .slash (ih hr)
  | dot ho _ ih => exact .dot ho (ih hr)
  | up ho _ ih => exact .up ho (ih hr)
  | dir ho hn hg _ ih => exact .dir ho hn hg (ih hr)
  | link ho hn hg _ _ ih =>
    have ih' := ih hr
    rw [List.append_assoc] at ih'
    exact .link ho hn hg (.inr rfl) ih'
  | vacant | file | stay => cases hr

/-! ## Calls in a grown tree -/

section
variable {t t' : FileTree} {here : Option Location} {r : Route} {loc : Location} {node : Node}

theorem Grows.walk (hg : Grows t t') {follow : Bool}
    (h : t.walk here follow r = .ok (.entry loc node)) : t'.walk here follow r = .ok (.entry loc node) := by
  obtain ⟨hz, start, hs, hl⟩ := walk_ok_iff.1 h
  exact walk_ok_iff.2 ⟨hz, start, hs, hg.leads hl⟩

theorem Grows.stat (hg : Grows t t') (h : t.stat here r = .ok (loc, node)) :
    t'.stat here r = .ok (loc, node) :=
  stat_ok_iff.2 (hg.walk (stat_ok_iff.1 h))

theorem Grows.lstat (hg : Grows t t') (h : t.lstat here r = .ok (loc, node)) :
    t'.lstat here r = .ok (loc, node) :=
  lstat_ok_iff.2 (hg.walk (lstat_ok_iff.1 h))

theorem Grows.isDirectory (hg : Grows t t') (h : t.isDirectory here r = .ok true) :
    t'.isDirectory here r = .ok true := by
  obtain ⟨loc, mode, hs⟩ := isDirectory_iff.1 h
  exact isDirectory_iff.2 ⟨loc, mode, hg.stat hs⟩

theorem readLink_ok_iff {target : String} :
    t.readLink here r = .ok target ↔ ∃ loc, t.lstat here r = .ok (loc, .link target) := by
  unfold readLink
  cases t.lstat here r with
  | error e => exact ⟨fun h => (by cases h), fun ⟨loc, h⟩ => (by cases h)⟩
  | ok x =>
    obtain ⟨loc, node⟩ := x
    cases node with
    | dir mode => exact ⟨fun h => (by cases h), fun ⟨l, h⟩ => (by cases h)⟩
    | file mode text => exact ⟨fun h => (by cases h), fun ⟨l, h⟩ => (by cases h)⟩
    | link target =>
      constructor
      · intro h
        cases h
        exact ⟨loc, rfl⟩
      · intro ⟨l, h⟩
        cases h
        rfl

theorem Grows.readLink (hg : Grows t t') {target : String} (h : t.readLink here r = .ok target) :
    t'.readLink here r = .ok target := by
  obtain ⟨loc, hl⟩ := readLink_ok_iff.1 h
  exact readLink_ok_iff.2 ⟨loc, hg.lstat hl⟩

end

end Whereabouts.FileTree
