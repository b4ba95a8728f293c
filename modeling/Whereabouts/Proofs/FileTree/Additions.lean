import Whereabouts.Proofs.FileTree.Canonical
import Whereabouts.Proofs.FileTree.Creation

/-!
# What creation adds

`Adds W t t'`: the tree has grown, and every new entry is as `W` says. A private directory adds the
directory itself, with the private mode, and those that were missing above it, with the usual mode
(`adds_ensurePrivate`). Below a directory that can be used, nothing else is missing
(`adds_ensurePrivate_child`).
-/

namespace Whereabouts.FileTree

variable {t t' t'' : FileTree} {here : Option Location}

/-! ## Trees with new entries -/

structure Adds (W : FileTree → Location → Node → Prop) (t t' : FileTree) : Prop where
  grows : Grows t t'
  new : ∀ {loc node}, t.get? loc = none → t'.get? loc = some node → W t' loc node

/-- What is said of an entry stays true in a tree that grows. -/
structure Lasting (W : FileTree → Location → Node → Prop) : Prop where
  moves : ∀ {t t' loc node}, Grows t t' → W t loc node → W t' loc node

section
variable {V W : FileTree → Location → Node → Prop}

theorem Adds.refl (t : FileTree) : Adds W t t where
  grows := .refl t
  new hn hs := by
    rw [hn] at hs
    cases hs

theorem Adds.trans (hW : Lasting W) (h : Adds W t t') (h' : Adds W t' t'') : Adds W t t'' where
  grows := h.grows.trans h'.grows
  new {loc node} hn hs := by
    cases hg : t'.get? loc with
    | none => exact h'.new hg hs
    | some old =>
      have he := h'.grows.keeps hg
      rw [hs] at he
      cases he
      exact hW.moves h'.grows (h.new hn hg)

theorem Adds.imp (h : Adds V t t') (hvw : ∀ loc node, V t' loc node → W t' loc node) : Adds W t t' where
  grows := h.grows
  new hn hs := hvw _ _ (h.new hn hs)

theorem Adds.put {loc : Location} {node : Node} (hn : t.get? loc = none) (h : W (t.put loc node) loc node) :
    Adds W t (t.put loc node) where
  grows := .put hn node
  new {l nd} hl hs := by
    rw [get?_put] at hs
    split at hs
    · next he =>
      subst he
      cases hs
      exact h
    · rw [hl] at hs
      cases hs

end

/-! ## Directories -/

/-- The path leads to a directory with this mode, at this place. -/
def DirAt (t : FileTree) (here : Option Location) (p : Path) (loc : Location) (mode : Mode) : Prop :=
  t.walk here true p.route.withoutSlash = .ok (.entry loc (.dir mode))

theorem Grows.dirAt (hg : Grows t t') {p : Path} {loc : Location} {mode : Mode}
    (h : t.DirAt here p loc mode) : t'.DirAt here p loc mode :=
  hg.walk h

theorem adds_makeDir {p : Path} {mode : Mode} (h : t.makeDir here p.route mode = .ok t') :
    Adds (fun t loc node => node = .dir mode.masked ∧ t.DirAt here p loc mode.masked) t t' := by
  obtain ⟨-, dir, name, hw, rfl⟩ := create_ok h
  rw [withoutSlash_withoutSlash] at hw
  obtain ⟨hz, loc, hs, hv⟩ := walk_ok_iff.1 hw
  exact .put hv.free.2.2 ⟨rfl, walk_ok_iff.2 ⟨hz, loc, hs, hv.filled nofun⟩⟩

theorem adds_makeFile {r : Route} (h : t.makeFile here r = .ok t') :
    Adds (fun _ _ node => node = .file 0o600 "") t t' := by
  obtain ⟨-, dir, name, hw, rfl⟩ := create_ok (makeFile_ok h).2
  obtain ⟨-, loc, -, hv⟩ := walk_ok_iff.1 hw
  exact .put hv.free.2.2 rfl

/-- The mode of the directories above a private one. -/
def aboveMode : Mode := parentMode.masked

/-- The entry is the directory that was made for the path, or one that was missing above it. -/
inductive MadeFor (here : Option Location) (own : Mode) (p : Path) (t : FileTree) (loc : Location) :
    Node → Prop where
  | own (h : t.DirAt here p loc own) : MadeFor here own p t loc (.dir own)
  | above {name : String} {names : List String} (hs : name :: names <:+ p.names)
      (h : t.DirAt here ⟨p.anchor, names⟩ loc aboveMode) : MadeFor here own p t loc (.dir aboveMode)

theorem lasting_madeFor {own : Mode} {p : Path} : Lasting (MadeFor here own p) where
  moves hg h := by
    cases h with
    | own h => exact .own (hg.dirAt h)
    | above hs h => exact .above hs (hg.dirAt h)

/-- What was made for the directory above a path was made for the path. -/
theorem MadeFor.below {own : Mode} {anchor : Anchor} {name : String} {names : List String}
    {loc : Location} {node : Node} (h : MadeFor here aboveMode ⟨anchor, names⟩ t loc node) :
    MadeFor here own ⟨anchor, name :: names⟩ t loc node := by
  cases h with
  | own h => exact .above (List.suffix_refl _) h
  | above hs h => exact .above (hs.trans (List.suffix_cons name names)) h

theorem adds_makeDirs (anchor : Anchor) (names : List String) (mode : Mode) :
    Adds (MadeFor here mode.masked ⟨anchor, names⟩) t (t.makeDirs here anchor names mode).1 := by
  have hmade : ∀ {mode names} {t t' : FileTree},
      t.makeDir here (Path.mk anchor names).route mode = .ok t' →
      Adds (MadeFor here mode.masked ⟨anchor, names⟩) t t' := fun hm =>
    (adds_makeDir hm).imp fun loc node h => h.1 ▸ .own h.2
  induction names generalizing mode with
  | nil =>
    unfold makeDirs
    dsimp only
    split
    · next hm => exact hmade hm
    · exact .refl t
    · exact .refl t
  | cons name above ih =>
    have ha : Adds (MadeFor here mode.masked ⟨anchor, name :: above⟩) t
        (t.makeDirs here anchor above parentMode).1 := (ih parentMode).imp fun _ _ h => h.below
    unfold makeDirs
    dsimp only
    split
    · next hm => exact hmade hm
    · split
      · next he =>
        rw [he] at ha
        exact ha
      · next he =>
        rw [he] at ha
        split
        · next hm => exact ha.trans lasting_madeFor (hmade hm)
        · exact ha
        · exact ha
    · exact .refl t

/-! ## What is there above a path -/

/-- Something is there at every path above this one. -/
def HasAbove (t : FileTree) (here : Option Location) (p : Path) : Prop :=
  ∀ name names, name :: names <:+ p.names →
    ∃ found, t.stat here (⟨p.anchor, names⟩ : Path).route.withoutSlash = .ok found

/-- Where nothing is missing above a path, only its own directory can be new. -/
theorem MadeFor.own_of_hasAbove {own : Mode} {p : Path} {loc : Location} {node : Node} (hg : Grows t t')
    (hn : t.get? loc = none) (ha : t.HasAbove here p) (h : MadeFor here own p t' loc node) :
    node = .dir own ∧ t'.DirAt here p loc own := by
  cases h with
  | own h => exact ⟨rfl, h⟩
  | above hs h =>
    obtain ⟨⟨l, nd⟩, hf⟩ := ha _ _ hs
    have hw := stat_ok_iff.1 hf
    have hw' := hg.walk hw
    rw [h] at hw'
    cases hw'
    obtain ⟨-, start, -, hl⟩ := walk_ok_iff.1 hw
    rw [hl.get?] at hn
    cases hn

/-! ## Below a usable directory -/

/-- In a directory that can be searched, a name is vacant or names an entry. -/
theorem Leads.enters {n : Nat} {loc l : Location} {steps : List String} {mode : Mode} {name : String}
    (h : Leads t true n loc steps (.entry l (.dir mode))) (hs : mode.searchable = true) (hn : EntryName name) :
    Leads t false n loc (steps ++ [name]) (.vacant l name) ∨
      ∃ node, Leads t false n loc (steps ++ [name]) (.entry (name :: l) node) := by
  generalize hr : Reached.entry l (.dir mode) = r at h
  induction h with
  | done h =>
    cases hr
    have ho : t.Opens l := ⟨mode, h, hs⟩
    cases hg : t.get? (name :: l) with
    | none => exact .inl (.vacant ho hn hg)
    | some node =>
      cases node with
      | dir => exact .inr ⟨_, .dir ho hn hg (.done hg)⟩
      | file => exact .inr ⟨_, .file ho hn hg⟩
      | link => exact .inr ⟨_, .stay ho hn hg rfl⟩
  | slash _ ih => exact (ih hr).imp .slash fun ⟨node, h⟩ => ⟨node, .slash h⟩
  | dot ho _ ih => exact (ih hr).imp (.dot ho) fun ⟨node, h⟩ => ⟨node, .dot ho h⟩
  | up ho _ ih => exact (ih hr).imp (.up ho) fun ⟨node, h⟩ => ⟨node, .up ho h⟩
  | dir ho hn' hg _ ih => exact (ih hr).imp (.dir ho hn' hg) fun ⟨node, h⟩ => ⟨node, .dir ho hn' hg h⟩
  | link ho hn' hg _ _ ih =>
    have ih' := ih hr
    rw [List.append_assoc] at ih'
    have hf : ∀ rest : List String, rest ++ [name] ≠ [] := by simp
    exact ih'.imp (.link ho hn' hg (.inl (hf _))) fun ⟨node, h⟩ => ⟨node, .link ho hn' hg (.inl (hf _)) h⟩
  | vacant | file | stay => cases hr

theorem leads_names {n : Nat} {loc : Location} {p : Path} {r : Reached} (h : Leads t true n loc p.route.steps r) :
    Leads t true n loc (p.names.reverse.filter (· ≠ "")) r := by
  obtain ⟨anchor, names⟩ := p
  cases names with
  | nil =>
    cases anchor with
    | here => exact h.of_blank (.inr rfl)
    | root | doubleRoot => exact h
  | cons name names => cases anchor <;> exact h.unslashed (slashed_filter _)

theorem hasZero_route (p : Path) : p.route.hasZero = p.names.any fun n => n.toList.contains '\x00' := by
  obtain ⟨anchor, names⟩ := p
  cases names with
  | nil => cases anchor <;> decide
  | cons top below =>
    unfold Route.hasZero
    cases anchor <;> exact List.any_reverse

theorem hasZero_withoutSlash (r : Route) : r.withoutSlash.hasZero = r.hasZero := by
  unfold Route.withoutSlash Route.hasZero
  rw [List.any_filter]
  refine List.any_congr rfl fun s => ?_
  by_cases hs : s = ""
  · subst hs
    rfl
  · simp [hs]

theorem hasSlash_withoutSlash (r : Route) : r.withoutSlash.hasSlash = false := by
  unfold Route.withoutSlash Route.hasSlash
  rw [List.contains_eq_mem, decide_eq_false_iff_not]
  simp

theorem hasZero_child {p : Path} {name : String} (hp : p.route.hasZero = false) (hz : '\x00' ∉ name.toList) :
    (p.child name).route.withoutSlash.hasZero = false := by
  rw [hasZero_withoutSlash, hasZero_route, Path.child, List.any_cons, ← hasZero_route, hp, Bool.or_false]
  simpa using hz

theorem startOf_child {p : Path} {name : String} {loc : Location} (hn : name ≠ "")
    (h : startOf here p.route = some loc) : startOf here (p.child name).route.withoutSlash = some loc := by
  have ha : p.route.absolute = p.isAbsolute := by
    obtain ⟨anchor, names⟩ := p
    cases anchor <;> cases names <;> rfl
  rw [route_child]
  unfold startOf Route.withoutSlash at *
  rw [ha] at h
  dsimp only
  split at h
  · next hp => rw [if_pos hp, h]
  · next hp =>
    rw [if_neg hp, if_neg (by simp [List.filter_append, hn])]
    split at h
    · cases h
    · exact h

/-- In a directory that can be searched, a walk to a name ends at a vacant place or at an entry there. -/
theorem walk_child {p : Path} {name : String} {loc : Location} {mode : Mode}
    (h : t.stat here p.route = .ok (loc, .dir mode)) (hs : mode.searchable = true) (hn : EntryName name)
    (hz : '\x00' ∉ name.toList) :
    t.walk here false (p.child name).route.withoutSlash = .ok (.vacant loc name) ∨
      ∃ node, t.walk here false (p.child name).route.withoutSlash = .ok (.entry (name :: loc) node) := by
  obtain ⟨hzero, start, hstart, hl⟩ := walk_ok_iff.1 (stat_ok_iff.1 h)
  have hsteps : (p.child name).route.withoutSlash.steps = p.names.reverse.filter (· ≠ "") ++ [name] := by
    rw [route_child, Route.withoutSlash, List.filter_append, List.filter_cons, if_pos (decide_eq_true hn.ne_empty)]
    rfl
  have hwalk : ∀ {x}, Leads t false maxLinks start (p.names.reverse.filter (· ≠ "") ++ [name]) x →
      t.walk here false (p.child name).route.withoutSlash = .ok x := fun hx =>
    walk_ok_iff.2 ⟨hasZero_child hzero hz, start, startOf_child hn.ne_empty hstart, hsteps ▸ hx⟩
  exact ((leads_names hl).enters hs hn).imp hwalk fun ⟨node, he⟩ => ⟨node, hwalk he⟩

theorem makeDir_vacant {r : Route} {loc : Location} {name : String} {m mode : Mode}
    (h : t.walk here false r.withoutSlash = .ok (.vacant loc name)) (hd : t.get? loc = some (.dir m))
    (hw : m.writable = true) : t.makeDir here r mode = .ok (t.put (name :: loc) (.dir mode.masked)) := by
  unfold makeDir create
  rw [withoutSlash_withoutSlash, h, hasSlash_withoutSlash]
  exact addEntry_writable name hd hw

/-- A directory can be made in one that can be used, unless the name is taken. -/
theorem makeDir_child {p : Path} {name : String} (mode : Mode) (h : t.Usable here p.route) (hn : EntryName name)
    (hz : '\x00' ∉ name.toList) :
    (∃ t', t.makeDir here (p.child name).route mode = .ok t') ∨
      t.makeDir here (p.child name).route mode = .error .exist := by
  obtain ⟨loc, m, hst, hw, hs⟩ := h
  rcases walk_child hst hs hn hz with hv | ⟨node, he⟩
  · obtain ⟨-, start, -, hl⟩ := walk_ok_iff.1 (stat_ok_iff.1 hst)
    exact .inl ⟨_, makeDir_vacant hv hl.get? hw⟩
  · right
    unfold makeDir create
    rw [withoutSlash_withoutSlash, he]
    rfl

theorem adds_makeDirs_child {p : Path} {name : String} (mode : Mode) (h : t.Usable here p.route)
    (hn : EntryName name) (hz : '\x00' ∉ name.toList) :
    Adds (fun t loc node => node = .dir mode.masked ∧ t.DirAt here (p.child name) loc mode.masked) t
      (t.makeDirs here p.anchor (name :: p.names) mode).1 := by
  have hm := makeDir_child mode h hn hz
  unfold makeDirs
  dsimp only
  split
  · next hd => exact adds_makeDir hd
  · next hd =>
    rcases hm with ⟨t', hm⟩ | hm <;> cases hd.symm.trans hm
  · exact .refl t

end Whereabouts.FileTree

namespace Whereabouts

open FileTree

theorem masked_privateMode : privateMode.masked = privateMode := by decide

section
variable {t : FileTree} {here : Option Location} {p : Path}

theorem adds_of_makeDirs {W : FileTree → Location → Node → Prop}
    (h : Adds W t (t.makeDirs here p.anchor p.names privateMode).1) : Adds W t (ensurePrivate t here p).tree := by
  rcases tree_ensurePrivate t here p with he | he
  · rw [he]
    exact .refl t
  · rw [he]
    exact h

theorem adds_ensurePrivate (t : FileTree) (here : Option Location) (p : Path) :
    Adds (MadeFor here privateMode p) t (ensurePrivate t here p).tree :=
  adds_of_makeDirs (masked_privateMode ▸ adds_makeDirs p.anchor p.names privateMode)

/-- In a directory that can be used, a private directory is all that is added. -/
theorem adds_ensurePrivate_child {name : String} (h : t.Usable here p.route) (hn : EntryName name)
    (hz : '\x00' ∉ name.toList) :
    Adds (fun t loc node => node = .dir privateMode ∧ t.DirAt here (p.child name) loc privateMode) t
      (ensurePrivate t here (p.child name)).tree := by
  have ha := adds_makeDirs_child privateMode h hn hz
  rw [masked_privateMode] at ha
  exact adds_of_makeDirs ha

end

end Whereabouts
