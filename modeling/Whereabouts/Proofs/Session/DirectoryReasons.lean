import Whereabouts.Proofs.Session.Ensuring

/-!
# Why a directory cannot be used

The reason that is given for a directory that cannot be used is true (`directory_reasons_are_true`). Something stands
in the way only where the tree had it before; otherwise the system has refused to make one of the directories of the
path, or to look at its place, and nothing was changed after that.
-/

namespace Whereabouts

namespace FileTree

variable {t t' : FileTree} {here : Option Location} {p : Path} {mode : Mode} {why : Refusal} {anchor : Anchor}
  {name : String} {names : List String}

/-! ## Refused calls -/

theorem excuse_cases {e : Refusal} (h : t.excuse here p e = .error why) :
    why = e ∨ t.isDirectory here p.route = .error why := by
  unfold excuse at h
  split at h
  · cases h
    exact .inl rfl
  · split at h
    · cases h
    · cases h
      exact .inl rfl
    · next hd =>
      cases h
      exact .inr hd

theorem stat_of_isDirectory_error (h : t.isDirectory here p.route = .error why) : t.stat here p.route = .error why := by
  unfold isDirectory at h
  split at h
  any_goals cases h
  assumption

/-- A directory is refused at all longer beginnings of the path than `base`, because the one above is missing. -/
def MissingBelow (t : FileTree) (here : Option Location) (p : Path) (base : List String) : Prop :=
  ∀ longer, longer <:+ p.names → base <:+ longer → longer ≠ base →
    ∃ mode, t.makeDir here (Path.mk p.anchor longer).route mode = .error .noEntry

/-- In the tree that is left the system refuses to make the directory that was come to on the way up, or to look
whether one is there. -/
inductive RefusedAt (t left : FileTree) (here : Option Location) (p : Path) (why : Refusal) : Prop where
  | making {base : List String} {mode : Mode} (hb : base <:+ p.names) (hm : t.MissingBelow here p base)
      (h : left.makeDir here (Path.mk p.anchor base).route mode = .error why)
  | looking {base : List String} (hb : base <:+ p.names) (hm : t.MissingBelow here p base)
      (h : left.stat here (Path.mk p.anchor base).route = .error why)

theorem missingBelow_self (t : FileTree) (here : Option Location) (p : Path) : t.MissingBelow here p p.names :=
  fun _ hl hb hne => absurd (hl.eq_of_length_le hb.length_le) hne

/-- The last call before directories are given up is refused in the tree that is left. -/
theorem denies_of_makeDirs (h : t.makeDirs here anchor names mode = (t', .error why)) :
    ∃ base mode, base <:+ names ∧ t.MissingBelow here ⟨anchor, names⟩ base ∧
      t'.Denies here ⟨anchor, base⟩ mode why := by
  induction names generalizing mode with
  | nil =>
    rcases makeDirs_error h with ⟨rfl, hd⟩ | ⟨_, _, he, -⟩
    · exact ⟨[], mode, List.suffix_refl _, missingBelow_self _ _ _, hd⟩
    · cases he
  | cons name above ih =>
    rcases makeDirs_error h with ⟨rfl, hd⟩ | ⟨_, _, he, hmissing, ha | ⟨-, hd⟩⟩
    · exact ⟨_, mode, List.suffix_refl _, missingBelow_self _ _ _, hd⟩
    · cases he
      obtain ⟨base, m, hb, hbelow, hd⟩ := ih ha
      refine ⟨base, m, hb.trans (List.suffix_cons name above), fun longer hl hbase hne => ?_, hd⟩
      rcases List.suffix_cons_iff.1 hl with rfl | hl
      · exact ⟨mode, hmissing⟩
      · exact hbelow longer hl hbase hne
    · exact ⟨_, mode, List.suffix_refl _, missingBelow_self _ _ _, hd⟩

theorem refusedAt_of_makeDirs (h : t.makeDirs here p.anchor p.names mode = (t', .error why)) :
    t.RefusedAt t' here p why := by
  obtain ⟨base, m, hb, hm, e, hmake, ⟨rfl, rfl⟩ | ⟨-, hex⟩⟩ := denies_of_makeDirs h
  · exact .making hb hm hmake
  · rcases excuse_cases hex with rfl | hd
    · exact .making hb hm hmake
    · exact .looking hb hm (stat_of_isDirectory_error hd)

/-! ## What stands in the way -/

theorem hasEntry_of_makeDir_exist (hp : p.isNormal = true) (h : t.makeDir here p.route mode = .error .exist) :
    t.HasEntry here p := by
  unfold makeDir create at h
  rw [withoutSlash_withoutSlash, hasSlash_withoutSlash, withoutSlash_of_isNormal hp] at h
  cases hw : t.walk here false p.route with
  | error e =>
    rw [hw] at h
    cases h
    rcases walk_error hw with ⟨-, he⟩ | ⟨-, hr⟩
    · cases he
    · cases hr with
      | unseen hu => rcases why_of_unseen hu with he | he <;> cases he
  | ok x =>
    rw [hw] at h
    cases x with
    | entry loc node => exact ⟨(loc, node), lstat_ok_iff.2 hw⟩
    | vacant dir last =>
      have he : Refusal.exist = .denied ∨ Refusal.exist = .notDirectory := addEntry_error h
      rcases he with he | he <;> cases he

theorem Denies.occupied (hp : p.isNormal = true) (h : t.Denies here p mode .exist) :
    t.HasEntry here p ∧ t.isDirectory here p.route ≠ .ok true := by
  obtain ⟨e, hm, ⟨-, he⟩ | ⟨-, hex⟩⟩ := h
  · cases he
  · rcases excuse_cases hex with rfl | hd
    · rcases excuse_error hex with he | ⟨-, hnd⟩
      · cases he
      · exact ⟨hasEntry_of_makeDir_exist hp hm, hnd⟩
    · rcases why_of_unseen (isDirectory_error hd) with he | he <;> cases he

theorem EmptyDirAt.not_hasEntry (h : t.EmptyDirAt here ⟨anchor, names⟩ mode)
    (hp : (Path.mk anchor (name :: names)).isNormal = true) : ¬t.HasEntry here ⟨anchor, name :: names⟩ := by
  obtain ⟨loc, hst, hempty⟩ := h
  obtain ⟨-, hb, hdot, hup⟩ := Path.isNormal_above hp
  refine not_hasEntry_of_walk fun l node hw => ?_
  have hz := ((walk_normal_iff hp).1 hw).1
  have hbelow : ∃ k, t.walk here false (Path.mk anchor ([name] ++ names)).route = walkLinks t false k loc [name] :=
    walk_below hp (List.cons_ne_nil name []) hst hz
  obtain ⟨k, hk⟩ := hbelow
  have hentry : walkLinks t false k loc [name] = .ok (.entry l node) := hk.symm.trans hw
  rw [walkLinks_eq, descend_cons hb, get?_of_stat hst] at hentry
  dsimp only at hentry
  rw [if_neg hdot, if_neg hup, hempty name] at hentry
  split at hentry
  · cases hentry
  split at hentry <;> cases hentry

theorem occupied_of_makeDirs (ht : t.WellFormed) (hp : (Path.mk anchor names).isNormal = true)
    (h : t.makeDirs here anchor names mode = (t', .error .exist)) :
    ∃ base, base <:+ names ∧ t.HasEntry here ⟨anchor, base⟩ ∧
      t.isDirectory here (Path.mk anchor base).route ≠ .ok true := by
  induction names generalizing mode with
  | nil =>
    rcases makeDirs_error h with ⟨rfl, hd⟩ | ⟨_, _, he, -⟩
    · exact ⟨[], List.suffix_refl _, hd.occupied hp⟩
    · cases he
  | cons name above ih =>
    have habove := (Path.isNormal_above hp).1
    rcases makeDirs_error h with ⟨rfl, hd⟩ | ⟨_, _, he, hmissing, ha | ⟨ha, hd⟩⟩
    · exact ⟨_, List.suffix_refl _, hd.occupied hp⟩
    · cases he
      obtain ⟨base, hb, hfound⟩ := ih habove ha
      exact ⟨base, hb.trans (List.suffix_cons name above), hfound⟩
    · -- the directory above was just made, so that nothing stands in the way in it
      cases he
      rcases makeable_of_makeDirs habove ha with hdir | ⟨missing, base, hne, hmake⟩
      · exact absurd hmissing (not_makeDir_noEntry (p := ⟨anchor, above⟩) hp hdir)
      · obtain ⟨-, t₁, hmade, hempty⟩ := hmake.made ht habove hne parentMode
        obtain rfl : t' = t₁ := (Prod.mk.inj (ha.symm.trans hmade)).1
        exact absurd (hd.occupied hp).1 (hempty.not_hasEntry hp)

end FileTree

open FileTree

variable {s : State} {t : FileTree} {here : Option Location} {p : Path} {fault : DirectoryFault} {f : Failure}

/-! ## Faults -/

theorem not_isUsable_iff {loc : Location} {mode : Mode} (h : t.stat here p.route = .ok (loc, .dir mode)) :
    t.isUsable here p.route = false ↔ ¬(mode.writable = true ∧ mode.searchable = true) := by
  unfold isUsable
  rw [h]
  dsimp only
  rw [← Bool.not_eq_true, Bool.and_eq_true]

theorem checkUsable_error_iff : checkUsable t here p = .error (.unusable p .notWritable) ↔
    t.isUsable here p.route = false := by
  unfold checkUsable
  cases t.isUsable here p.route with
  | true => exact ⟨nofun, nofun⟩
  | false => exact ⟨fun _ => rfl, fun _ => rfl⟩

theorem ensurePrivate_notWritable_iff (ht : t.WellFormed) (hp : p.isNormal = true) :
    (ensurePrivate t here p).result = .error (.unusable p .notWritable) ↔
      ∃ loc mode, t.stat here p.route = .ok (loc, .dir mode) ∧ ¬(mode.writable = true ∧ mode.searchable = true) := by
  -- in three of the four ways the path does not lead to a directory before
  have hnone : t.isDirectory here p.route ≠ .ok true →
      ¬∃ loc mode, t.stat here p.route = .ok (loc, .dir mode) ∧ ¬(mode.writable = true ∧ mode.searchable = true) :=
    fun hnd ⟨loc, mode, hst, _⟩ => hnd (isDirectory_iff.2 ⟨loc, mode, hst⟩)
  have hmakeable := @ensurePrivate_of_makeable t here p
  have he := ensuring t here p
  generalize ensurePrivate t here p = e at hmakeable he
  cases he with
  | unseen hd =>
    refine ⟨fun h => ?_, fun h => absurd h (hnone (hd ▸ nofun))⟩
    rw [ofRefusal_unseen hd] at h
    cases h
  | found hd =>
    obtain ⟨loc, mode, hst⟩ := isDirectory_iff.1 hd
    rw [checkUsable_error_iff, not_isUsable_iff hst]
    refine ⟨fun h => ⟨loc, mode, hst, h⟩, fun ⟨loc', mode', hst', h⟩ => ?_⟩
    cases hst.symm.trans hst'
    exact h
  | @refused t' why hd hm =>
    refine ⟨fun h => ?_, fun h => absurd h (hnone (hd ▸ nofun))⟩
    cases why <;> cases h
  | made hd hm =>
    -- what was made can be used, so that it is not found to be closed
    refine ⟨fun h => ?_, fun h => absurd h (hnone (hd ▸ nofun))⟩
    rcases makeable_of_makeDirs hp hm with hdir | ⟨missing, base, hne, hmake⟩
    · cases hd.symm.trans hdir
    · cases (hmakeable ht hp hmake hne).symm.trans h

theorem makeDirs_of_unusable (h : (ensurePrivate t here p).result = .error (.unusable p fault))
    (hne : fault ≠ .notWritable) :
    ∃ why, t.makeDirs here p.anchor p.names privateMode = ((ensurePrivate t here p).tree, .error why) ∧
      (fault = .occupied ∧ why = .exist ∨ fault = .refused why ∧ why ≠ .exist) := by
  have he := ensuring t here p
  generalize ensurePrivate t here p = e at h he
  cases he with
  | unseen hd =>
    rw [ofRefusal_unseen hd] at h
    cases h
  | found | made =>
    have hfault := checkUsable_error h
    cases hfault
    exact absurd rfl hne
  | @refused t' why hd hm =>
    refine ⟨why, hm, ?_⟩
    cases why with
    | exist =>
      cases h
      exact .inl ⟨rfl, rfl⟩
    | zeroByte => cases h
    | _ =>
      cases h
      exact .inr ⟨rfl, nofun⟩

theorem Refusal.text_ne (why : Refusal) :
    why.text ≠ DirectoryFault.occupied.text ∧ why.text ≠ DirectoryFault.notWritable.text := by
  cases why <;> decide

/-- The reason that is given for a directory that cannot be used, seen in the tree before and in the one that is
left. -/
structure TrueReason (s : State) (p : Path) (left : FileTree) (reason : String) : Prop where
  /-- An entry of the path does not lead to a directory; it may be a link that leads nowhere. -/
  occupied : reason = "a non-directory file is in the way" →
    ∃ base, base <:+ p.names ∧ s.tree.HasEntry s.here ⟨p.anchor, base⟩ ∧
      ∀ loc mode, s.tree.stat s.here (Path.mk p.anchor base).route ≠ .ok (loc, .dir mode)
  refused : reason ≠ "a non-directory file is in the way" → reason ≠ "not writable by the current process" →
    ∃ why, reason = why.text ∧ s.tree.RefusedAt left s.here p why

theorem trueReason_of_unusable (ht : s.tree.WellFormed) (hp : p.isNormal = true)
    (h : (ensurePrivate s.tree s.here p).result = .error (.unusable p fault)) :
    TrueReason s p (ensurePrivate s.tree s.here p).tree fault.text := by
  cases fault with
  | notWritable => exact ⟨fun he => absurd he (by decide), fun _ hne => absurd rfl hne⟩
  | occupied =>
    refine ⟨fun _ => ?_, fun hne => absurd rfl hne⟩
    obtain ⟨why, hm, ⟨-, rfl⟩ | ⟨he, -⟩⟩ := makeDirs_of_unusable h nofun
    · obtain ⟨base, hb, hentry, hnd⟩ := occupied_of_makeDirs ht hp hm
      exact ⟨base, hb, hentry, fun loc mode hst => hnd (isDirectory_iff.2 ⟨loc, mode, hst⟩)⟩
    · cases he
  | refused why =>
    refine ⟨fun he => absurd he why.text_ne.1, fun _ _ => ⟨why, rfl, ?_⟩⟩
    obtain ⟨why', hm, ⟨he, -⟩ | ⟨he, -⟩⟩ := makeDirs_of_unusable h nofun
    · cases he
    · cases he
      exact refusedAt_of_makeDirs hm

theorem ensureDir_error_iff :
    ((ensureDir p).run s).1 = .error f ↔ (ensurePrivate s.tree s.here p).result = .error f := by
  obtain ⟨log, hrun⟩ := run_ensureDir p s
  rw [hrun, ensured_ok]
  dsimp only
  cases (ensurePrivate s.tree s.here p).result with
  | ok u => exact ⟨nofun, nofun⟩
  | error e => exact ⟨fun h => congrArg _ (Except.error.inj h), fun h => congrArg _ (Except.error.inj h)⟩

theorem tree_ensureDir (s : State) (p : Path) :
    ((ensureDir p).run s).2.tree = (ensurePrivate s.tree s.here p).tree := by
  obtain ⟨log, hrun⟩ := run_ensureDir p s
  rw [hrun, ensured_ok]

theorem unusable_of_category {q : Path} (h : (ensurePrivate t here p).result = .error f)
    (hc : f.category = .trouble (.directory q)) : q = p ∧ ∃ fault, f = .unusable p fault := by
  rcases ensurePrivate_error_cases h with ⟨why, -, rfl⟩ | ⟨-, rfl⟩ | ⟨fault, rfl⟩
  · cases hc
  · cases hc
  · cases hc
    exact ⟨rfl, fault, rfl⟩

/-- Where a directory with a path of proper names is reported as unusable, the report names it and the reason given is
true. It is not writable exactly if it was there and is closed to its owner. -/
theorem directory_reasons_are_true {s : State} {p : Path} (ht : s.tree.WellFormed) (hp : p.isNormal = true) :
    (∀ f q, ((ensureDir p).run s).1 = .error f → f.category = .trouble (.directory q) →
      q = p ∧ f.message = s!"Cannot use directory {p}: {f.reason}" ∧
        TrueReason s p ((ensureDir p).run s).2.tree f.reason) ∧
    ((∃ f, ((ensureDir p).run s).1 = .error f ∧ f.category = .trouble (.directory p) ∧
        f.reason = "not writable by the current process") ↔
      ∃ loc mode, s.tree.stat s.here p.route = .ok (loc, .dir mode) ∧
        ¬(mode.writable = true ∧ mode.searchable = true)) := by
  rw [tree_ensureDir, ← ensurePrivate_notWritable_iff ht hp]
  refine ⟨fun f q hf hc => ?_, ⟨fun ⟨f, hf, hc, hreason⟩ => ?_, fun h => ?_⟩⟩
  · have hresult := ensureDir_error_iff.1 hf
    obtain ⟨rfl, fault, rfl⟩ := unusable_of_category hresult hc
    exact ⟨rfl, rfl, trueReason_of_unusable ht hp hresult⟩
  · have hresult := ensureDir_error_iff.1 hf
    obtain ⟨-, fault, rfl⟩ := unusable_of_category hresult hc
    cases fault with
    | notWritable => exact hresult
    | occupied => exact absurd (show DirectoryFault.occupied.text = _ from hreason) (by decide)
    | refused why => exact absurd hreason why.text_ne.2
  · exact ⟨_, ensureDir_error_iff.2 h, rfl, rfl⟩

/-- A link that leads nowhere stands in the way of a directory below it. -/
theorem directory_reasons_are_true_dangling :
    let s := State.start {} [.link "/l" "nowhere"] "/"
    let p : Path := ⟨.root, ["a", "l"]⟩
    ∃ f, ((ensureDir p).run s).1 = .error f ∧
      f.message = "Cannot use directory /l/a: a non-directory file is in the way" ∧
      ∃ base, base <:+ p.names ∧ s.tree.HasEntry s.here ⟨p.anchor, base⟩ ∧
        ∀ loc mode, s.tree.stat s.here (Path.mk p.anchor base).route ≠ .ok (loc, .dir mode) := by
  intro s p
  have ht : s.tree.WellFormed := (proper_build _).toWellFormed
  have hrun : ((ensureDir p).run s).1 = .error (.unusable p .occupied) := by decide +kernel
  obtain ⟨-, -, htrue⟩ := (directory_reasons_are_true ht (by decide)).1 _ p hrun rfl
  exact ⟨_, hrun, by decide, htrue.occupied rfl⟩

end Whereabouts
