import Whereabouts.FileTree.Build
import Whereabouts.Proofs.FileTree.Creation

/-!
# Proper trees

In a proper tree everything lies in a directory, under a name that a path can hold, and no link holds the zero
character. Every change keeps a tree proper, so a tree that was built is proper (`proper_build`).
-/

namespace Whereabouts.FileTree

structure Proper (t : FileTree) : Prop extends WellFormed t where
  named : ∀ {name loc node}, t.get? (name :: loc) = some node → EntryName name ∧ '\x00' ∉ name.toList
  targets : ∀ {loc target}, t.get? loc = some (.link target) → '\x00' ∉ target.toList

variable {t t' : FileTree} {here : Option Location} {r : Route} {loc : Location} {node : Node}

theorem Grows.isDir (hg : Grows t t') (h : t.IsDir loc) : t'.IsDir loc := by
  obtain ⟨mode, hd⟩ := h
  exact ⟨mode, hg.keeps hd⟩

theorem Opens.isDir (h : t.Opens loc) : t.IsDir loc := by
  obtain ⟨mode, hd, -⟩ := h
  exact ⟨mode, hd⟩

theorem isDir_put {l : Location} (h : t.IsDir l) (hn : loc = l → ∃ mode, node = .dir mode) :
    (t.put loc node).IsDir l := by
  by_cases he : l = loc
  · subst he
    obtain ⟨mode, rfl⟩ := hn rfl
    exact ⟨mode, get?_put_self t l _⟩
  · obtain ⟨mode, hd⟩ := h
    exact ⟨mode, (get?_put_of_ne he).trans hd⟩

/-! ## What lies above an entry -/

theorem WellFormed.isDir_of_suffix (h : t.WellFormed) {names : List String} (hd : t.IsDir loc) (hs : names <:+ loc) :
    t.IsDir names := by
  induction loc with
  | nil =>
    rw [List.suffix_nil.1 hs]
    exact hd
  | cons name loc ih =>
    rcases List.suffix_cons_iff.1 hs with rfl | hs
    · exact hd
    · obtain ⟨mode, hg⟩ := hd
      exact ih (h.above hg) hs

theorem WellFormed.put (h : t.WellFormed) {name : String} (hd : t.IsDir loc) (hf : t.get? (name :: loc) = none)
    (node : Node) : (t.put (name :: loc) node).WellFormed where
  root := (Grows.put hf node).isDir h.root
  above {n l nd} hs := by
    have hg : Grows t (t.put (name :: loc) node) := .put hf node
    rw [get?_put] at hs
    split at hs
    · next he =>
      cases he
      exact hg.isDir hd
    · exact hg.isDir (h.above hs)

theorem Proper.mem (h : t.Proper) (hg : t.get? loc = some node) : ∀ n ∈ loc, EntryName n ∧ '\x00' ∉ n.toList := by
  induction loc generalizing node with
  | nil => intro n hn; cases hn
  | cons name loc ih =>
    intro n hn
    rcases List.mem_cons.1 hn with rfl | hn
    · exact h.named hg
    · obtain ⟨mode, hd⟩ := h.above hg
      exact ih hd n hn

/-! ## Names without zero -/

theorem mem_of_mem_step {s name : String} {c : Char} (h : name ∈ (Route.ofString s).steps) (hc : c ∈ name.toList) :
    c ∈ s.toList := by
  have hcut : ∀ n ∈ (cut '/' s).filter (· ≠ ""), c ∈ n.toList → c ∈ s.toList := by
    intro n hn hc
    obtain ⟨p, hp, rfl⟩ := List.mem_map.1 (List.mem_filter.1 hn).1
    rw [String.toList_ofList] at hc
    exact mem_of_mem_pieces hp hc
  have hm : name ∈ Route.stepsOf s := h
  unfold Route.stepsOf at hm
  dsimp only at hm
  split at hm
  · rcases List.mem_append.1 hm with hm | hm
    · exact hcut name hm hc
    · rw [List.mem_singleton.1 hm] at hc
      simp at hc
  · exact hcut name hm hc

theorem Proper.steps_free (h : t.Proper) {target : String} (hg : t.get? loc = some (.link target)) :
    ∀ s ∈ (Route.ofString target).steps, '\x00' ∉ s.toList :=
  fun _ hm hz => h.targets hg (mem_of_mem_step hm hz)

theorem Leads.vacant_noZero (ht : t.Proper) {follow : Bool} {n : Nat} {dir : Location} {steps : List String}
    {name : String} (h : Leads t follow n loc steps (.vacant dir name)) (hs : ∀ s ∈ steps, '\x00' ∉ s.toList) :
    '\x00' ∉ name.toList := by
  generalize hr : Reached.vacant dir name = x at h
  induction h with
  | done | file | stay => cases hr
  | slash _ ih | dot _ _ ih | up _ _ ih | dir _ _ _ _ ih =>
    exact ih (fun s hm => hs s (List.mem_cons_of_mem _ hm)) hr
  | vacant =>
    cases hr
    exact hs _ List.mem_cons_self
  | link _ _ hg _ _ ih =>
    refine ih (fun s hm => ?_) hr
    rcases List.mem_append.1 hm with hm | hm
    · exact ht.steps_free hg s hm
    · exact hs s (List.mem_cons_of_mem _ hm)

/-- What is vacant is a good place for a new entry. -/
structure Vacant (t : FileTree) (dir : Location) (name : String) : Prop where
  above : t.IsDir dir
  named : EntryName name ∧ '\x00' ∉ name.toList
  free : t.get? (name :: dir) = none

theorem vacant_of_walk (ht : t.Proper) {follow : Bool} {dir : Location} {name : String}
    (h : t.walk here follow r = .ok (.vacant dir name)) : t.Vacant dir name := by
  obtain ⟨hz, start, -, hl⟩ := walk_ok_iff.1 h
  obtain ⟨ho, hn, hfree⟩ := hl.free
  refine ⟨ho.isDir, ⟨hn, hl.vacant_noZero ht fun s hs => ?_⟩, hfree⟩
  rw [Route.hasZero, List.any_eq_false] at hz
  simpa using hz s hs

/-! ## Changes of a proper tree -/

/-- The second tree is proper, and what is a directory in the first is one there. -/
structure StaysProper (t t' : FileTree) : Prop where
  proper : t'.Proper
  dirs : ∀ {l}, t.IsDir l → t'.IsDir l

theorem StaysProper.refl (h : t.Proper) : StaysProper t t := ⟨h, id⟩

theorem StaysProper.trans {t'' : FileTree} (h : StaysProper t t') (h' : StaysProper t' t'') : StaysProper t t'' :=
  ⟨h'.proper, fun hl => h'.dirs (h.dirs hl)⟩

namespace Proper

theorem put_new (h : t.Proper) {dir : Location} {name : String} (hv : t.Vacant dir name)
    (hl : ∀ target, node = .link target → '\x00' ∉ target.toList) : StaysProper t (t.put (name :: dir) node) := by
  have hg : Grows t (t.put (name :: dir) node) := .put hv.free node
  refine ⟨⟨h.toWellFormed.put hv.above hv.free node, fun {n l nd} hs => ?_, fun {l target} hs => ?_⟩, hg.isDir⟩ <;>
    rw [get?_put] at hs <;> split at hs
  · next he =>
    cases he
    exact hv.named
  · exact h.named hs
  · exact hl target (Option.some.inj hs)
  · exact h.targets hs

/-- An entry may change as long as a directory stays one. -/
theorem put_same (h : t.Proper) {old : Node} (hold : t.get? loc = some old)
    (hd : ∀ mode, old = .dir mode → ∃ mode, node = .dir mode)
    (hl : ∀ target, node = .link target → '\x00' ∉ target.toList) : StaysProper t (t.put loc node) := by
  have hdir : ∀ {l}, t.IsDir l → (t.put loc node).IsDir l := by
    intro l hl
    refine isDir_put hl fun he => ?_
    obtain ⟨mode, hm⟩ := hl
    rw [← he, hold] at hm
    exact hd mode (Option.some.inj hm)
  refine ⟨⟨⟨hdir h.root, fun {n l nd} hs => ?_⟩, fun {n l nd} hs => ?_, fun {l target} hs => ?_⟩, hdir⟩ <;>
    rw [get?_put] at hs <;> split at hs
  · next he =>
    rw [← he] at hold
    exact hdir (h.above hold)
  · exact hdir (h.above hs)
  · next he =>
    rw [← he] at hold
    exact h.named hold
  · exact h.named hs
  · exact hl target (Option.some.inj hs)
  · exact h.targets hs

theorem create (h : t.Proper) (hc : t.create here r node = .ok t')
    (hl : ∀ target, node = .link target → '\x00' ∉ target.toList) : StaysProper t t' := by
  obtain ⟨-, dir, name, hw, rfl⟩ := create_ok hc
  exact h.put_new (vacant_of_walk h hw) hl

theorem makeDir (h : t.Proper) {mode : Mode} (hm : t.makeDir here r mode = .ok t') : StaysProper t t' :=
  h.create hm nofun

theorem makeFile (h : t.Proper) (hm : t.makeFile here r = .ok t') : StaysProper t t' :=
  h.create (makeFile_ok hm).2 nofun

theorem makeLink (h : t.Proper) {target : String} (hm : t.makeLink here r target = .ok t') : StaysProper t t' := by
  obtain ⟨hz, hc⟩ := makeLink_ok hm
  refine h.create hc fun target' he => ?_
  cases he
  exact hz

theorem makeDirs (h : t.Proper) (anchor : Anchor) (names : List String) (mode : Mode) :
    StaysProper t (t.makeDirs here anchor names mode).1 := by
  induction names generalizing mode with
  | nil =>
    unfold FileTree.makeDirs
    dsimp only
    split
    · next hm => exact h.makeDir hm
    · exact .refl h
    · exact .refl h
  | cons name above ih =>
    have ha := ih parentMode
    unfold FileTree.makeDirs
    dsimp only
    split
    · next hm => exact h.makeDir hm
    · split
      · next he =>
        rw [he] at ha
        exact ha
      · next he =>
        rw [he] at ha
        split
        · next hm => exact ha.trans (ha.proper.makeDir hm)
        · exact ha
        · exact ha
    · exact .refl h

theorem writeFile (h : t.Proper) {text : String} (hw : t.writeFile here r text = .ok t') : StaysProper t t' := by
  unfold FileTree.writeFile at hw
  cases hs : t.refuseSlash here r with
  | error e =>
    rw [hs] at hw
    cases hw
  | ok u =>
    rw [hs] at hw
    cases hwalk : t.walk here true r with
    | error e =>
      rw [hwalk] at hw
      cases hw
    | ok x =>
      rw [hwalk] at hw
      dsimp only [bind, Except.bind] at hw
      split at hw
      · rw [(addEntry_ok hw).2]
        exact h.put_new (vacant_of_walk h hwalk) nofun
      · split at hw
        · cases hw
          obtain ⟨-, start, -, hl⟩ := walk_ok_iff.1 hwalk
          exact h.put_same hl.get? nofun nofun
        · cases hw
      · cases hw

theorem setMode (h : t.Proper) {mode : Mode} (hm : t.setMode here r mode = .ok t') : StaysProper t t' := by
  unfold FileTree.setMode at hm
  cases hs : t.stat here r with
  | error e =>
    rw [hs] at hm
    cases hm
  | ok found =>
    rw [hs] at hm
    obtain ⟨l, nd⟩ := found
    have hg := get?_of_stat hs
    cases nd with
    | dir old =>
      cases hm
      exact h.put_same hg (fun _ _ => ⟨mode, rfl⟩) nofun
    | file old text =>
      cases hm
      exact h.put_same hg nofun nofun
    | link target =>
      cases hm
      refine h.put_same hg nofun fun target' he => ?_
      cases he
      exact h.targets hg

end Proper

theorem isDir_remove {top l : Location} (h : t.IsDir l) (hw : ¬isWithin l top = true) : (t.remove top).IsDir l := by
  obtain ⟨mode, hd⟩ := h
  exact ⟨mode, by rw [get?_remove, if_neg hw, hd]⟩

theorem Proper.remove (h : t.Proper) {top : Location} (hne : top ≠ []) : (t.remove top).Proper := by
  have hkept : ∀ {l nd}, (t.remove top).get? l = some nd → ¬isWithin l top = true ∧ t.get? l = some nd := by
    intro l nd hs
    rw [get?_remove] at hs
    split at hs
    · cases hs
    · next hw => exact ⟨hw, hs⟩
  refine ⟨⟨isDir_remove h.root ?_, fun {n l nd} hs => ?_⟩, fun hs => h.named (hkept hs).2,
    fun hs => h.targets (hkept hs).2⟩
  · unfold isWithin
    rw [List.isSuffixOf_iff_suffix, List.suffix_nil]
    exact hne
  · obtain ⟨hw, hg⟩ := hkept hs
    refine isDir_remove (h.above hg) fun hw' => hw ?_
    unfold isWithin at hw' ⊢
    rw [List.isSuffixOf_iff_suffix] at hw' ⊢
    exact hw'.trans (List.suffix_cons n l)

theorem removeAt_ok (h : t.removeAt here r = .ok (t', loc)) : loc ≠ [] ∧ t' = t.remove loc := by
  unfold removeAt at h
  cases hs : t.lstat here r with
  | error e =>
    rw [hs] at h
    cases h
  | ok found =>
    rw [hs] at h
    obtain ⟨l, nd⟩ := found
    dsimp only [bind, Except.bind] at h
    split at h
    · cases h
    · split at h
      · split at h
        · cases h
          exact ⟨List.cons_ne_nil _ _, rfl⟩
        · cases h
      · cases h

/-! ## Built trees -/

theorem proper_empty : empty.Proper where
  toWellFormed := wellFormed_empty
  named h := by simp [get?, empty, List.lookup_cons] at h
  targets {loc target} h := by
    unfold get? empty at h
    rw [List.lookup_cons] at h
    split at h <;> cases h

theorem Proper.plant (h : t.Proper) (p : Planned) : (t.plant p).Proper := by
  have hdirs : ∀ q : Path, (t.withDirs q).Proper := fun q => (h.makeDirs _ _ _).proper
  unfold FileTree.plant
  cases p with
  | dir path mode => exact hdirs _
  | file path text =>
    dsimp only
    unfold orSame
    split
    · next hw => exact ((hdirs _).writeFile hw).proper
    · exact hdirs _
  | link path target =>
    dsimp only
    unfold orSame
    split
    · next hl => exact ((hdirs _).makeLink hl).proper
    · exact hdirs _

theorem proper_planted (plan : List Planned) : (planted plan).Proper := by
  unfold planted
  generalize hs : empty = start
  have hstart : start.Proper := hs ▸ proper_empty
  clear hs
  induction plan generalizing start with
  | nil => exact hstart
  | cons p plan ih => exact ih _ (hstart.plant p)

/-- The modes that take effect in the end are those of directories. -/
theorem Proper.modes {modes : List (Location × Mode)} (h : t.Proper) (hm : ∀ m ∈ modes, t.IsDir m.1) :
    StaysProper t (modes.foldl (fun t m => t.put m.1 (.dir m.2)) t) := by
  induction modes generalizing t with
  | nil => exact .refl h
  | cons m modes ih =>
    obtain ⟨old, hold⟩ := hm m List.mem_cons_self
    have hput : StaysProper t (t.put m.1 (.dir m.2)) := h.put_same hold (fun _ _ => ⟨m.2, rfl⟩) nofun
    exact hput.trans (ih hput.proper fun m' hm' => hput.dirs (hm m' (List.mem_cons_of_mem _ hm')))

theorem isDir_of_plannedMode {plan : List Planned} {m : Location × Mode}
    (h : m ∈ plan.filterMap t.plannedMode) : t.IsDir m.1 := by
  obtain ⟨p, -, hp⟩ := List.mem_filterMap.1 h
  unfold plannedMode at hp
  split at hp
  · split at hp
    · next loc old hs =>
      cases hp
      exact ⟨old, get?_of_stat hs⟩
    · cases hp
  · cases hp

theorem staysProper_build (plan : List Planned) : StaysProper (planted plan) (build plan) :=
  (proper_planted plan).modes fun _ hm => isDir_of_plannedMode hm

theorem proper_build (plan : List Planned) : (build plan).Proper := (staysProper_build plan).proper

end Whereabouts.FileTree
