import Whereabouts.Directory
import Whereabouts.Proofs.FileTree.Growth

/-!
# What creation leaves behind

A call that makes a node puts it at a vacant place, so the tree grows, also where the call is refused
half way. A private directory is usable once it was made sure of, and making sure of a usable
directory changes nothing.
-/

namespace Whereabouts.FileTree

theorem withoutSlash_withoutSlash (r : Route) : r.withoutSlash.withoutSlash = r.withoutSlash := by
  unfold Route.withoutSlash
  rw [List.filter_filter]
  simp

theorem withoutSlash_of_not_hasSlash {r : Route} (h : r.hasSlash = false) : r.withoutSlash = r := by
  unfold Route.hasSlash at h
  unfold Route.withoutSlash
  have hf : r.steps.filter (· ≠ "") = r.steps := by
    rw [List.filter_eq_self]
    intro s hs
    refine decide_eq_true fun he => ?_
    rw [he] at hs
    rw [List.contains_iff_mem.2 hs] at h
    cases h
  rw [hf]

section
variable {t t' : FileTree} {here : Option Location} {r : Route} {node : Node}

/-! ## Making a node -/

theorem addEntry_ok {dir : Location} {name : String} (h : t.addEntry dir name node = .ok t') :
    (∃ mode, t.get? dir = some (.dir mode) ∧ mode.writable = true) ∧ t' = t.put (name :: dir) node := by
  unfold addEntry at h
  split at h
  · next mode hd =>
    split at h
    · next hw =>
      cases h
      exact ⟨⟨mode, hd, hw⟩, rfl⟩
    · cases h
  · cases h

theorem addEntry_writable {dir : Location} {mode : Mode} (name : String) (hd : t.get? dir = some (.dir mode))
    (hw : mode.writable = true) : t.addEntry dir name node = .ok (t.put (name :: dir) node) := by
  unfold addEntry
  rw [hd]
  exact if_pos hw

theorem addEntry_of_create (h : t.create here r node = .ok t') :
    r.hasSlash = false ∧ ∃ dir name, t.walk here false r.withoutSlash = .ok (.vacant dir name) ∧
      t.addEntry dir name node = .ok t' := by
  unfold create at h
  cases hw : t.walk here false r.withoutSlash with
  | error e => rw [hw] at h; cases h
  | ok x =>
    rw [hw] at h
    cases x with
    | entry loc nd => cases h
    | vacant dir name =>
      cases hs : r.hasSlash with
      | true => simp [hs, bind, Except.bind, throw, throwThe, MonadExceptOf.throw] at h
      | false =>
        rw [hs] at h
        exact ⟨rfl, dir, name, rfl, h⟩

theorem create_ok (h : t.create here r node = .ok t') :
    r.hasSlash = false ∧ ∃ dir name, t.walk here false r.withoutSlash = .ok (.vacant dir name) ∧
      t' = t.put (name :: dir) node := by
  obtain ⟨hs, dir, name, hw, ha⟩ := addEntry_of_create h
  exact ⟨hs, dir, name, hw, (addEntry_ok ha).2⟩

theorem grows_create (h : t.create here r node = .ok t') : Grows t t' := by
  obtain ⟨-, dir, name, hw, rfl⟩ := create_ok h
  obtain ⟨-, loc, -, hl⟩ := walk_ok_iff.1 hw
  exact .put hl.free.2.2 node

/-- A new node is found by the route that it was made by. -/
theorem walk_create (follow : Bool) (hl : ∀ target, node ≠ .link target)
    (h : t.create here r node = .ok t') :
    ∃ loc, t'.walk here follow r.withoutSlash = .ok (.entry loc node) := by
  obtain ⟨-, dir, name, hw, rfl⟩ := create_ok h
  obtain ⟨hz, loc, hs, hv⟩ := walk_ok_iff.1 hw
  exact ⟨name :: dir, walk_ok_iff.2 ⟨hz, loc, hs, hv.filled hl⟩⟩

theorem makeLink_ok {target : String} (h : t.makeLink here r target = .ok t') :
    '\x00' ∉ target.toList ∧ t.create here r (.link target) = .ok t' := by
  unfold makeLink at h
  split at h
  · cases h
  · next hz =>
    split at h
    · cases h
    · exact ⟨by simpa using hz, h⟩

theorem makeFile_ok (h : t.makeFile here r = .ok t') :
    r.hasSlash = false ∧ t.create here r (.file 0o600 "") = .ok t' := by
  unfold makeFile refuseSlash at h
  cases hs : r.hasSlash with
  | true =>
    rw [hs, if_pos rfl] at h
    cases hw : t.walk here false r.withoutSlash with
    | error e => rw [hw] at h; cases h
    | ok x => rw [hw] at h; cases h
  | false =>
    rw [hs] at h
    exact ⟨rfl, h⟩

theorem makeFile_vacant {dir : Location} {name : String} {mode : Mode} (hs : r.hasSlash = false)
    (h : t.walk here false r = .ok (.vacant dir name)) (hd : t.get? dir = some (.dir mode))
    (hw : mode.writable = true) : t.makeFile here r = .ok (t.put (name :: dir) (.file 0o600 "")) := by
  unfold makeFile refuseSlash create
  rw [hs, withoutSlash_of_not_hasSlash hs, h]
  exact addEntry_writable name hd hw

theorem grows_makeFile (h : t.makeFile here r = .ok t') : Grows t t' :=
  grows_create (makeFile_ok h).2

/-- A new file is put at a vacant place in a directory that can be changed, and found there. -/
theorem makeFile_put (h : t.makeFile here r = .ok t') :
    ∃ dir name mode, t.get? dir = some (.dir mode) ∧ mode.writable = true ∧ t.get? (name :: dir) = none ∧
      t' = t.put (name :: dir) (.file 0o600 "") ∧ t'.lstat here r = .ok (name :: dir, .file 0o600 "") := by
  obtain ⟨hs, hc⟩ := makeFile_ok h
  obtain ⟨-, dir, name, hw, ha⟩ := addEntry_of_create hc
  obtain ⟨⟨mode, hd, hm⟩, rfl⟩ := addEntry_ok ha
  rw [withoutSlash_of_not_hasSlash hs] at hw
  obtain ⟨hz, loc, hstart, hv⟩ := walk_ok_iff.1 hw
  exact ⟨dir, name, mode, hd, hm, hv.free.2.2, rfl,
    lstat_ok_iff.2 (walk_ok_iff.2 ⟨hz, loc, hstart, hv.filled nofun⟩)⟩

theorem lstat_makeFile (h : t.makeFile here r = .ok t') :
    ∃ loc, t'.lstat here r = .ok (loc, .file 0o600 "") := by
  obtain ⟨dir, name, -, -, -, -, -, hl⟩ := makeFile_put h
  exact ⟨name :: dir, hl⟩

/-- Nothing had the name of a new file. -/
theorem lstat_before_makeFile (h : t.makeFile here r = .ok t') : t.lstat here r = .error .noEntry := by
  obtain ⟨hs, hc⟩ := makeFile_ok h
  obtain ⟨-, dir, name, hw, -⟩ := create_ok hc
  rw [withoutSlash_of_not_hasSlash hs] at hw
  unfold lstat
  rw [hw]
  rfl

theorem drop_put {loc : Location} (h : t.get? loc = none) (node : Node) : (t.put loc node).drop loc = t := by
  have hf : t.entries.filter (·.1 ≠ loc) = t.entries := filter_of_vacant h
  unfold FileTree.put FileTree.drop
  dsimp only
  rw [List.filter_cons_of_neg (by simp), hf, hf]

/-- A file that was just made can be taken away, and then the tree is as it was. -/
theorem unlink_makeFile (h : t.makeFile here r = .ok t') : t'.unlink here r = .ok t := by
  obtain ⟨dir, name, mode, hd, hm, hfree, rfl, hl⟩ := makeFile_put h
  have hd' : (t.put (name :: dir) (.file 0o600 "")).get? (name :: dir).tail = some (.dir mode) :=
    (Grows.put hfree _).keeps hd
  unfold unlink
  rw [hl]
  dsimp only [bind, Except.bind]
  rw [hd']
  dsimp only
  rw [if_pos hm, drop_put hfree]
  rfl

theorem grows_makeDir {mode : Mode} (h : t.makeDir here r mode = .ok t') : Grows t t' := grows_create h

theorem walk_makeDir {mode : Mode} (h : t.makeDir here r mode = .ok t') :
    ∃ loc m, t'.walk here true r.withoutSlash = .ok (.entry loc (.dir m)) := by
  obtain ⟨loc, hw⟩ := walk_create true (fun target he => by cases he) h
  rw [withoutSlash_withoutSlash] at hw
  exact ⟨loc, _, hw⟩

theorem Leads.last_of_vacant {follow : Bool} {n : Nat} {loc dir : Location} {steps : List String}
    {name last : String} (h : Leads t follow n loc steps (.vacant dir name)) (hl : steps.getLast? = some last) :
    EntryName last := by
  generalize hr : Reached.vacant dir name = x at h
  have hcons : ∀ {step : String} {rest : List String}, (step :: rest).getLast? = some last → rest ≠ [] →
      rest.getLast? = some last := by
    intro step rest hs hne
    rw [List.getLast?_cons_of_ne_nil hne] at hs
    exact hs
  have hnil : ∀ {k : Nat} {l : Location} {rest : List String},
      Leads t follow k l rest (.vacant dir name) → rest ≠ [] := by
    intro k l rest h hnil
    subst hnil
    cases h
  induction h with
  | done => cases hr
  | slash h ih => exact ih (hcons hl (hnil (hr ▸ h))) hr
  | dot _ h ih => exact ih (hcons hl (hnil (hr ▸ h))) hr
  | up _ h ih => exact ih (hcons hl (hnil (hr ▸ h))) hr
  | vacant _ hn _ =>
    cases hl
    exact hn
  | dir _ _ _ h ih => exact ih (hcons hl (hnil (hr ▸ h))) hr
  | file => cases hr
  | stay => cases hr
  | @link _ _ _ target rest _ _ hn _ _ _ ih =>
    by_cases hne : rest = []
    · rw [hne] at hl
      cases hl
      exact hn
    · refine ih ?_ hr
      rw [List.getLast?_append, hcons hl hne]
      rfl

/-! ## Making directories -/

theorem startOf_withoutSlash {loc loc' : Location} (h : startOf here r = some loc)
    (h' : startOf here r.withoutSlash = some loc') : loc = loc' := by
  unfold startOf at *
  have ha : r.withoutSlash.absolute = r.absolute := rfl
  rw [ha] at h'
  split at h
  · next hr =>
    rw [if_pos hr] at h'
    exact Option.some.inj (h.symm.trans h')
  · next hr =>
    rw [if_neg hr] at h'
    split at h
    · cases h
    · split at h'
      · cases h'
      · exact Option.some.inj (h.symm.trans h')

/-- A slash at the end can only keep a walk from its node. -/
theorem stat_of_walk_withoutSlash {loc loc' : Location} {node' : Node}
    (h : t.walk here true r.withoutSlash = .ok (.entry loc node)) (hs : t.stat here r = .ok (loc', node')) :
    loc' = loc ∧ node' = node := by
  obtain ⟨-, start, hst, hl⟩ := walk_ok_iff.1 h
  obtain ⟨-, start', hst', hl'⟩ := walk_ok_iff.1 (stat_ok_iff.1 hs)
  rw [startOf_withoutSlash hst' hst] at hl'
  cases leads_unique (hl'.unslashed (slashed_filter r.steps)) hl
  exact ⟨rfl, rfl⟩

end

section
variable {t : FileTree} {here : Option Location}

theorem excuse_ok {p : Path} {why : Refusal} (h : t.excuse here p why = .ok ()) :
    t.isDirectory here p.route = .ok true := by
  unfold excuse at h
  split at h
  · cases h
  · split at h
    · next hd => exact hd
    · cases h
    · cases h

theorem grows_makeDirs (anchor : Anchor) (names : List String) (mode : Mode) :
    Grows t (t.makeDirs here anchor names mode).1 := by
  induction names generalizing mode with
  | nil =>
    unfold makeDirs
    dsimp only
    split
    · next hm => exact grows_makeDir hm
    · exact .refl t
    · exact .refl t
  | cons name above ih =>
    have ha := ih parentMode
    unfold makeDirs
    dsimp only
    split
    · next hm => exact grows_makeDir hm
    · split
      · next he => rw [he] at ha; exact ha
      · next he =>
        rw [he] at ha
        split
        · next hm => exact ha.trans (grows_makeDir hm)
        · exact ha
        · exact ha
    · exact .refl t

/-- The route leads to nothing but a directory, if it leads to anything. -/
def OnlyDir (t : FileTree) (here : Option Location) (r : Route) : Prop :=
  ∀ loc node, t.stat here r = .ok (loc, node) → ∃ mode, node = .dir mode

theorem onlyDir_of_makeDir {t' : FileTree} {p : Path} {mode : Mode}
    (h : t.makeDir here p.route mode = .ok t') : t'.OnlyDir here p.route := by
  intro loc node hs
  obtain ⟨l, m, hw⟩ := walk_makeDir h
  exact ⟨m, (stat_of_walk_withoutSlash hw hs).2⟩

theorem onlyDir_of_excuse {p : Path} {why : Refusal} (h : t.excuse here p why = .ok ()) :
    t.OnlyDir here p.route := by
  intro loc node hs
  obtain ⟨l, m, hd⟩ := isDirectory_iff.1 (excuse_ok h)
  rw [hs] at hd
  cases hd
  exact ⟨m, rfl⟩

theorem onlyDir_of_makeDirs {t' : FileTree} {anchor : Anchor} {names : List String} {mode : Mode}
    (h : t.makeDirs here anchor names mode = (t', .ok ())) : t'.OnlyDir here (Path.mk anchor names).route := by
  unfold makeDirs at h
  dsimp only at h
  split at h
  · next hm =>
    cases h
    exact onlyDir_of_makeDir hm
  · split at h
    · cases h
    · split at h
      · cases h
      · split at h
        · next hm =>
          cases h
          exact onlyDir_of_makeDir hm
        · cases h
        · obtain ⟨rfl, he⟩ := Prod.mk.inj h
          exact onlyDir_of_excuse he
  · obtain ⟨rfl, he⟩ := Prod.mk.inj h
    exact onlyDir_of_excuse he

/-! ## Usable directories -/

/-- The route leads to a directory in which entries can be added and reached. -/
def Usable (t : FileTree) (here : Option Location) (r : Route) : Prop :=
  ∃ loc mode, t.stat here r = .ok (loc, .dir mode) ∧ mode.writable = true ∧ mode.searchable = true

theorem Grows.usable {t' : FileTree} (hg : Grows t t') {r : Route} (h : t.Usable here r) :
    t'.Usable here r := by
  obtain ⟨loc, mode, hs, hm⟩ := h
  exact ⟨loc, mode, hg.stat hs, hm⟩

theorem Usable.isDirectory {r : Route} (h : t.Usable here r) : t.isDirectory here r = .ok true := by
  obtain ⟨loc, mode, hs, -⟩ := h
  exact isDirectory_iff.2 ⟨loc, mode, hs⟩

theorem Usable.isUsable {r : Route} (h : t.Usable here r) : t.isUsable here r = true := by
  obtain ⟨loc, mode, hs, hw, hx⟩ := h
  unfold FileTree.isUsable
  rw [hs]
  simp [hw, hx]

theorem usable_of_onlyDir {r : Route} (hd : t.OnlyDir here r) (h : t.isUsable here r = true) :
    t.Usable here r := by
  unfold FileTree.isUsable at h
  split at h
  · next loc mode hs =>
    rw [Bool.and_eq_true] at h
    exact ⟨loc, mode, hs, h⟩
  · next loc mode text hs =>
    obtain ⟨m, hm⟩ := hd _ _ hs
    cases hm
  · cases h

end

end Whereabouts.FileTree

namespace Whereabouts

open FileTree

variable {t : FileTree} {here : Option Location} {p : Path}

theorem usable_of_checkUsable (hd : t.OnlyDir here p.route) (h : checkUsable t here p = .ok ()) :
    t.Usable here p.route := by
  unfold checkUsable at h
  split at h
  · next hu => exact usable_of_onlyDir hd hu
  · cases h

/-- The ways of making sure of a directory, and what each comes to. -/
inductive Ensuring (t : FileTree) (here : Option Location) (p : Path) : Ensured → Prop where
  | unseen {why : Refusal} (hd : t.isDirectory here p.route = .error why) :
      Ensuring t here p ⟨t, false, .error (.ofRefusal why (some p.toString))⟩
  | found (hd : t.isDirectory here p.route = .ok true) : Ensuring t here p ⟨t, false, checkUsable t here p⟩
  | refused {t' : FileTree} {why : Refusal} (hd : t.isDirectory here p.route = .ok false)
      (hm : t.makeDirs here p.anchor p.names privateMode = (t', .error why)) :
      Ensuring t here p ⟨t', false, .error (creationFailure p why)⟩
  | made {t' : FileTree} (hd : t.isDirectory here p.route = .ok false)
      (hm : t.makeDirs here p.anchor p.names privateMode = (t', .ok ())) :
      Ensuring t here p ⟨t', true, checkUsable t' here p⟩

theorem ensuring (t : FileTree) (here : Option Location) (p : Path) : Ensuring t here p (ensurePrivate t here p) := by
  unfold ensurePrivate
  split
  · next hd => exact .unseen hd
  · next hd => exact .found hd
  · next hd =>
    split
    · next hm => exact .refused hd hm
    · next hm => exact .made hd hm

theorem tree_ensurePrivate (t : FileTree) (here : Option Location) (p : Path) :
    (ensurePrivate t here p).tree = t ∨
      (ensurePrivate t here p).tree = (t.makeDirs here p.anchor p.names privateMode).1 := by
  have he := ensuring t here p
  generalize ensurePrivate t here p = e at he
  cases he with
  | unseen | found => exact .inl rfl
  | refused _ hm | made _ hm => exact .inr (congrArg Prod.fst hm).symm

theorem grows_ensurePrivate (t : FileTree) (here : Option Location) (p : Path) :
    Grows t (ensurePrivate t here p).tree := by
  rcases tree_ensurePrivate t here p with he | he
  · rw [he]
    exact .refl t
  · rw [he]
    exact grows_makeDirs p.anchor p.names privateMode

theorem usable_of_ensurePrivate (h : (ensurePrivate t here p).result = .ok ()) :
    (ensurePrivate t here p).tree.Usable here p.route := by
  have he := ensuring t here p
  generalize ensurePrivate t here p = e at h he
  cases he with
  | unseen | refused => cases h
  | found hd =>
    refine usable_of_checkUsable (fun loc node hs => ?_) h
    obtain ⟨l, mode, hl⟩ := isDirectory_iff.1 hd
    rw [hs] at hl
    cases hl
    exact ⟨mode, rfl⟩
  | made _ hm => exact usable_of_checkUsable (onlyDir_of_makeDirs hm) h

/-- Nothing is done about a directory that can be used. -/
theorem ensurePrivate_of_usable (h : t.Usable here p.route) :
    ensurePrivate t here p = { tree := t, created := false, result := .ok () } := by
  unfold ensurePrivate checkUsable
  rw [h.isDirectory, h.isUsable]
  rfl

end Whereabouts
