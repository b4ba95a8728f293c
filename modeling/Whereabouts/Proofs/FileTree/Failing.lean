import Whereabouts.Proofs.FileTree.Additions
import Whereabouts.Proofs.FileTree.Refusals

/-!
# Directories that cannot be made

Making sure of a private directory ends well exactly if the directory can be used afterwards
(`ensurePrivate_ok_iff`). Where it fails it says that the directory cannot be used, unless the place of the
directory cannot be seen or the path holds the zero character (`ensurePrivate_error_cases`).
-/

namespace Whereabouts.FileTree

variable {t t' : FileTree} {here : Option Location} {r : Route} {p : Path} {mode : Mode} {why : Refusal}

/-! ## One directory -/

theorem addEntry_error {dir : Location} {name : String} {node : Node} (h : t.addEntry dir name node = .error why) :
    why = .denied ∨ why = .notDirectory := by
  unfold addEntry at h
  split at h
  · split at h
    · cases h
    · cases h
      exact .inl rfl
  · cases h
    exact .inr rfl

theorem makeDir_zeroByte_iff : t.makeDir here r mode = .error .zeroByte ↔ r.hasZero = true := by
  unfold makeDir create
  rw [withoutSlash_withoutSlash, hasSlash_withoutSlash]
  cases hw : t.walk here false r.withoutSlash with
  | error why =>
    have hwalk := walk_error hw
    rw [hasZero_withoutSlash] at hwalk
    rcases hwalk with ⟨hz, rfl⟩ | ⟨hz, hr⟩
    · exact ⟨fun _ => hz, fun _ => rfl⟩
    · rw [hz]
      refine ⟨fun he => ?_, nofun⟩
      cases he
      cases hr with
      | unseen h => cases h
  | ok x =>
    have hz := (walk_ok_iff.1 hw).1
    rw [hasZero_withoutSlash] at hz
    rw [hz]
    refine ⟨fun he => ?_, nofun⟩
    cases x with
    | entry => cases he
    | vacant dir name => rcases addEntry_error he with h | h <;> cases h

/-- Where a file is refused, something has its name, the walk to it is refused, or it cannot be entered in its
directory. -/
theorem makeFile_error (hs : r.hasSlash = false) (h : t.makeFile here r = .error why) :
    (why = .exist ∧ ∃ found, t.lstat here r = .ok found) ∨ (why = .zeroByte ∧ r.hasZero = true) ∨
      why ≠ .exist ∧ why ≠ .zeroByte := by
  have hroute := withoutSlash_of_not_hasSlash hs
  unfold makeFile refuseSlash create at h
  rw [hs, hroute] at h
  cases hw : t.walk here false r with
  | error e =>
    rw [hw] at h
    cases h
    rcases walk_error hw with ⟨hz, rfl⟩ | ⟨-, hr⟩
    · exact .inr (.inl ⟨rfl, hz⟩)
    · refine .inr (.inr ⟨?_, hr.ne_zeroByte⟩)
      rintro rfl
      cases hr with
      | unseen hu => cases hu
  | ok x =>
    rw [hw] at h
    cases x with
    | entry loc node =>
      cases h
      exact .inl ⟨rfl, (loc, node), lstat_ok_iff.2 hw⟩
    | vacant dir name => rcases addEntry_error h with rfl | rfl <;> exact .inr (.inr ⟨nofun, nofun⟩)

/-- The steps lead to a node also if a link at their end is not followed: to the link. -/
theorem Leads.unfollowed {n : Nat} {loc l : Location} {steps : List String} {node : Node}
    (h : Leads t true n loc steps (.entry l node)) : ∃ l' node', Leads t false n loc steps (.entry l' node') := by
  generalize hr : Reached.entry l node = x at h
  induction h with
  | done hg => exact ⟨_, _, .done hg⟩
  | slash _ ih =>
    obtain ⟨l', node', h⟩ := ih hr
    exact ⟨l', node', .slash h⟩
  | dot ho _ ih =>
    obtain ⟨l', node', h⟩ := ih hr
    exact ⟨l', node', .dot ho h⟩
  | up ho _ ih =>
    obtain ⟨l', node', h⟩ := ih hr
    exact ⟨l', node', .up ho h⟩
  | vacant => cases hr
  | dir ho hn hg _ ih =>
    obtain ⟨l', node', h⟩ := ih hr
    exact ⟨l', node', .dir ho hn hg h⟩
  | file ho hn hg => exact ⟨_, _, .file ho hn hg⟩
  | stay _ _ _ hf => cases hf
  | @link _ _ _ _ rest _ ho hn hg _ _ ih =>
    by_cases hrest : rest = []
    · -- the link itself is the node
      subst hrest
      exact ⟨_, _, .stay ho hn hg rfl⟩
    · obtain ⟨l', node', h⟩ := ih hr
      exact ⟨l', node', .link ho hn hg (.inl hrest) h⟩

theorem Leads.opens {follow : Bool} {n : Nat} {loc : Location} {name : String} {rest : List String} {x : Reached}
    (h : Leads t follow n loc (name :: rest) x) (hn : name ≠ "") : t.Opens loc := by
  cases h with
  | slash => exact absurd rfl hn
  | dot ho | up ho | vacant ho | dir ho | file ho | stay ho | link ho => exact ho

/-- A relative path without a name, which means the directory that the program works in. -/
def Bare (p : Path) : Prop := p.isAbsolute = false ∧ ∀ n ∈ p.names, n = ""

theorem startOf_unslashed (hp : ¬Bare p) : startOf here p.route.withoutSlash = startOf here p.route := by
  obtain ⟨anchor, names⟩ := p
  cases names with
  | nil => cases anchor <;> rfl
  | cons name names =>
    cases anchor with
    | here =>
      have hn : (Path.mk .here (name :: names)).route.withoutSlash.steps ≠ [] := by
        intro hnil
        refine hp ⟨rfl, fun n hn => ?_⟩
        have hempty := List.filter_eq_nil_iff.1 hnil n (List.mem_reverse.2 hn)
        simpa using hempty
      have hn' : (Path.mk .here (name :: names)).route.steps ≠ [] := by simp [Path.route]
      unfold startOf
      rw [if_neg hn, if_neg hn']
      rfl
    | root | doubleRoot => rfl

/-- Where there is a directory none is made. -/
theorem makeDir_of_isDirectory (h : t.isDirectory here p.route = .ok true) (hp : ¬Bare p) :
    t.makeDir here p.route mode = .error .exist := by
  obtain ⟨loc, m, hst⟩ := isDirectory_iff.1 h
  obtain ⟨hz, start, hstart, hl⟩ := walk_ok_iff.1 (stat_ok_iff.1 hst)
  obtain ⟨l, node, hl'⟩ := (hl.unslashed (slashed_filter p.route.steps)).unfollowed
  have hwalk : t.walk here false p.route.withoutSlash = .ok (.entry l node) :=
    walk_ok_iff.2 ⟨(hasZero_withoutSlash _).trans hz, start, (startOf_unslashed hp).trans hstart, hl'⟩
  unfold makeDir create
  rw [withoutSlash_withoutSlash, hwalk]
  rfl

theorem not_makeDir_bare (hp : Bare p) : t.makeDir here p.route mode ≠ .ok t' := by
  intro h
  obtain ⟨-, dir, name, hw, -⟩ := create_ok h
  rw [withoutSlash_withoutSlash] at hw
  obtain ⟨-, start, hstart, hl⟩ := walk_ok_iff.1 hw
  obtain ⟨anchor, names⟩ := p
  obtain rfl : anchor = .here := by simpa [Path.isAbsolute] using hp.1
  cases names with
  | nil =>
    have hrest : Leads t false maxLinks start [] (.vacant dir name) := hl.of_blank (.inr rfl)
    cases hrest
  | cons top names =>
    have hnil : (Path.mk .here (top :: names)).route.withoutSlash.steps = [] := by
      refine List.filter_eq_nil_iff.2 fun n hn => ?_
      simpa using hp.2 n (List.mem_reverse.1 hn)
    rw [startOf, if_neg (by simp [Route.withoutSlash, Path.route]), if_pos hnil] at hstart
    cases hstart

/-! ## The directory above -/

theorem Leads.above {n : Nat} {loc l : Location} {steps : List String} {name : String}
    (h : Leads t true n loc (steps ++ [name]) (.entry l (.dir mode))) :
    ∃ l' mode', Leads t true n loc steps (.entry l' (.dir mode')) := by
  have hhere : ∀ {n loc}, t.Opens loc → ∃ l' mode', Leads t true n loc [] (.entry l' (.dir mode')) :=
    fun ⟨m, hd, _⟩ => ⟨_, m, .done hd⟩
  generalize hr : Reached.entry l (.dir mode) = x at h
  generalize hs : steps ++ [name] = all at h
  induction h generalizing steps with
  | done => cases (List.append_ne_nil_of_right_ne_nil steps (List.cons_ne_nil name [])) hs
  | slash h ih =>
    cases steps with
    | nil =>
      cases hs
      subst hr
      cases h with
      | done hg => exact ⟨_, _, .done hg⟩
    | cons step steps =>
      cases hs
      obtain ⟨l', mode', h⟩ := ih hr rfl
      exact ⟨l', mode', .slash h⟩
  | dot ho _ ih =>
    cases steps with
    | nil => exact hhere ho
    | cons step steps =>
      cases hs
      obtain ⟨l', mode', h⟩ := ih hr rfl
      exact ⟨l', mode', .dot ho h⟩
  | up ho _ ih =>
    cases steps with
    | nil => exact hhere ho
    | cons step steps =>
      cases hs
      obtain ⟨l', mode', h⟩ := ih hr rfl
      exact ⟨l', mode', .up ho h⟩
  | vacant => cases hr
  | dir ho hn hg _ ih =>
    cases steps with
    | nil => exact hhere ho
    | cons step steps =>
      cases hs
      obtain ⟨l', mode', h⟩ := ih hr rfl
      exact ⟨l', mode', .dir ho hn hg h⟩
  | file => cases hr
  | stay _ _ _ hf => cases hf
  | link ho hn hg _ _ ih =>
    cases steps with
    | nil => exact hhere ho
    | cons step steps =>
      cases hs
      obtain ⟨l', mode', h⟩ := ih hr (List.append_assoc ..)
      exact ⟨l', mode', .link ho hn hg (.inr rfl) h⟩

/-- What a directory lies in is a directory. -/
theorem isDirectory_above {name : String} (h : t.isDirectory here (p.child name).route = .ok true)
    (hp : ¬Bare (p.child name)) : t.isDirectory here p.route = .ok true := by
  obtain ⟨loc, m, hst⟩ := isDirectory_iff.1 h
  obtain ⟨hz, start, hstart, hl⟩ := walk_ok_iff.1 (stat_ok_iff.1 hst)
  rw [hasZero_route, Path.child, List.any_cons, Bool.or_eq_false_iff, ← hasZero_route] at hz
  rw [route_child] at hstart hl
  suffices hlead : ∃ start' l m', startOf here p.route = some start' ∧
      Leads t true maxLinks start' p.route.steps (.entry l (.dir m')) by
    obtain ⟨start', l, m', hstart', hl'⟩ := hlead
    exact isDirectory_iff.2 ⟨l, m', stat_ok_iff.2 (walk_ok_iff.2 ⟨hz.2, start', hstart', hl'⟩)⟩
  obtain ⟨anchor, names⟩ := p
  have hrooted : ∀ {a : Bool} {steps steps' : List String} {l : Location},
      startOf here ⟨a, steps ++ [name]⟩ = some l → (a = false → steps' ≠ []) → startOf here ⟨a, steps'⟩ = some l := by
    intro a steps steps' l hl hne
    unfold startOf at hl ⊢
    cases a with
    | true => exact hl
    | false =>
      rw [if_neg (by simp), if_neg (by simp)] at hl
      rw [if_neg (by simp), if_neg (hne rfl), hl]
  cases names with
  | nil =>
    cases anchor with
    | here =>
      have hname : name ≠ "" := fun hn => hp ⟨rfl, by simp [Path.child, hn]⟩
      obtain ⟨mode, hd, hs⟩ := hl.opens hname
      exact ⟨start, start, mode, hrooted hstart (fun _ => by simp), .dot ⟨mode, hd, hs⟩ (.done hd)⟩
    | root | doubleRoot =>
      obtain ⟨l, m', hl'⟩ := hl.above
      exact ⟨start, l, m', hrooted hstart (fun h => by cases h), hl'⟩
  | cons top names =>
    obtain ⟨l, m', hl'⟩ := hl.above
    cases anchor with
    | here | root | doubleRoot => exact ⟨start, l, m', hrooted hstart (fun _ => by simp), hl'⟩

/-! ## All directories -/

/-- The directory at the path was not made in the tree, and the refusal is no matter of one that is there. -/
def Denies (t : FileTree) (here : Option Location) (p : Path) (mode : Mode) (why : Refusal) : Prop :=
  ∃ e, t.makeDir here p.route mode = .error e ∧
    (e = .noEntry ∧ why = .noEntry ∨ e ≠ .noEntry ∧ t.excuse here p e = .error why)

/-- The directory itself is denied, or the one above it was missing and is, or was made in vain. -/
theorem makeDirs_error {anchor : Anchor} {names : List String}
    (h : t.makeDirs here anchor names mode = (t', .error why)) :
    t' = t ∧ t.Denies here ⟨anchor, names⟩ mode why ∨
      ∃ name above, names = name :: above ∧ t.makeDir here (Path.mk anchor names).route mode = .error .noEntry ∧
        (t.makeDirs here anchor above parentMode = (t', .error why) ∨
          t.makeDirs here anchor above parentMode = (t', .ok ()) ∧ t'.Denies here ⟨anchor, names⟩ mode why) := by
  unfold makeDirs at h
  dsimp only at h
  split at h
  · cases h
  · next hm =>
    split at h
    · cases h
      exact .inl ⟨rfl, _, hm, .inl ⟨rfl, rfl⟩⟩
    · next name above =>
      refine .inr ⟨name, above, rfl, hm, ?_⟩
      split at h
      · next he =>
        cases h
        exact .inl he
      · next t₁ he =>
        right
        split at h
        · cases h
        · next hm' =>
          cases h
          exact ⟨he, _, hm', .inl ⟨rfl, rfl⟩⟩
        · next e hne hm' =>
          obtain ⟨rfl, hex⟩ := Prod.mk.inj h
          exact ⟨he, e, hm', .inr ⟨hne, hex⟩⟩
  · next e hne hm =>
    obtain ⟨rfl, hex⟩ := Prod.mk.inj h
    exact .inl ⟨rfl, e, hm, .inr ⟨hne, hex⟩⟩

theorem excuse_error {e : Refusal} (h : t.excuse here p e = .error why) :
    e = .zeroByte ∨ why ≠ .zeroByte ∧ t.isDirectory here p.route ≠ .ok true := by
  unfold excuse at h
  split at h
  · next he => exact .inl he
  · next he =>
    right
    split at h
    · cases h
    · next hd =>
      cases h
      exact ⟨he, by rw [hd]; simp⟩
    · next e' hd =>
      cases h
      refine ⟨?_, by rw [hd]; simp⟩
      rintro rfl
      rcases why_of_unseen (isDirectory_error hd) with h | h <;> cases h

theorem isDirectory_of_hasZero (hz : r.hasZero = true) : t.isDirectory here r = .ok false := by
  unfold isDirectory stat walk
  rw [if_pos hz]
  rfl

theorem Denies.not_isDirectory (h : t.Denies here p mode why) (hp : ¬Bare p) :
    t.isDirectory here p.route ≠ .ok true := by
  intro hd
  obtain ⟨e, hm, hcases⟩ := h
  obtain rfl : Refusal.exist = e := Except.error.inj ((makeDir_of_isDirectory hd hp).symm.trans hm)
  rcases hcases with ⟨he, -⟩ | ⟨-, hex⟩
  · cases he
  · rcases excuse_error hex with he | ⟨-, hnd⟩
    · cases he
    · exact hnd hd

theorem Denies.hasZero (h : t.Denies here p mode .zeroByte) : p.route.hasZero = true := by
  obtain ⟨e, hm, ⟨-, he⟩ | ⟨-, hex⟩⟩ := h
  · cases he
  · rcases excuse_error hex with rfl | ⟨hne, -⟩
    · exact makeDir_zeroByte_iff.1 hm
    · exact absurd rfl hne

theorem makeDirs_of_hasZero {anchor : Anchor} {names : List String} (hz : (Path.mk anchor names).route.hasZero = true) :
    t.makeDirs here anchor names mode = (t, .error .zeroByte) := by
  have hm : t.makeDir here (Path.mk anchor names).route mode = .error .zeroByte := makeDir_zeroByte_iff.2 hz
  unfold makeDirs
  dsimp only
  rw [hm]
  rfl

theorem hasZero_of_makeDirs {anchor : Anchor} {names : List String}
    (h : t.makeDirs here anchor names mode = (t', .error .zeroByte)) :
    (Path.mk anchor names).route.hasZero = true := by
  induction names generalizing mode t' with
  | nil =>
    rcases makeDirs_error h with ⟨-, hd⟩ | ⟨name, above, he, -⟩
    · exact hd.hasZero
    · cases he
  | cons top names ih =>
    rcases makeDirs_error h with ⟨-, hd⟩ | ⟨name, above, he, -, ha | ⟨-, hd⟩⟩
    · exact hd.hasZero
    · cases he
      have hz := ih ha
      rw [hasZero_route] at hz ⊢
      exact List.any_cons.trans (by rw [hz, Bool.or_true])
    · exact hd.hasZero

theorem makeDirs_bare {anchor : Anchor} {names : List String} (hp : Bare ⟨anchor, names⟩) :
    (t.makeDirs here anchor names mode).1 = t := by
  have hm : ∀ t₀ t', makeDir t₀ here (Path.mk anchor names).route mode ≠ .ok t' := fun _ _ => not_makeDir_bare hp
  induction names generalizing mode with
  | nil =>
    unfold makeDirs
    dsimp only
    split
    · next h => exact absurd h (hm _ _)
    · rfl
    · rfl
  | cons top names ih =>
    have habove : Bare ⟨anchor, names⟩ := ⟨hp.1, fun n hn => hp.2 n (List.mem_cons_of_mem _ hn)⟩
    have ha : (t.makeDirs here anchor names parentMode).1 = t := ih habove fun _ _ => not_makeDir_bare habove
    unfold makeDirs
    dsimp only
    split
    · next h => exact absurd h (hm _ _)
    · split
      · next he =>
        rw [he] at ha
        exact ha
      · next he =>
        rw [he] at ha
        split
        · next h => exact absurd h (hm _ _)
        · exact ha
        · exact ha
    · rfl

/-- Where no directory was made none is there afterwards, unless nothing was made at all. -/
theorem not_isDirectory_of_makeDirs {anchor : Anchor} {names : List String}
    (h : t.makeDirs here anchor names mode = (t', .error why)) :
    t' = t ∨ t'.isDirectory here (Path.mk anchor names).route ≠ .ok true := by
  -- in a bare path nothing is made, so it is told apart before the induction
  by_cases hp : Bare ⟨anchor, names⟩
  · exact .inl ((congrArg Prod.fst h).symm.trans (makeDirs_bare hp))
  induction names generalizing mode with
  | nil =>
    rcases makeDirs_error h with ⟨rfl, -⟩ | ⟨name, above, he, -⟩
    · exact .inl rfl
    · cases he
  | cons top names ih =>
    rcases makeDirs_error h with ⟨rfl, -⟩ | ⟨name, above, he, -, ha | ⟨-, hd⟩⟩
    · exact .inl rfl
    · cases he
      by_cases hb : Bare ⟨anchor, names⟩
      · exact .inl ((congrArg Prod.fst ha).symm.trans (makeDirs_bare hb))
      · exact (ih ha hb).imp_right fun hnd hd => hnd (isDirectory_above (p := ⟨anchor, names⟩) hd hp)
    · exact .inr (hd.not_isDirectory hp)

end Whereabouts.FileTree

namespace Whereabouts

open FileTree

variable {t : FileTree} {here : Option Location} {p : Path} {f : Failure}

/-! ## Private directories -/

theorem checkUsable_of_usable (h : t.Usable here p.route) : checkUsable t here p = .ok () := by
  unfold checkUsable
  rw [h.isUsable]
  rfl

theorem checkUsable_error (h : checkUsable t here p = .error f) : f = .unusable p .notWritable := by
  unfold checkUsable at h
  split at h
  · cases h
  · cases h
    rfl

/-- Making sure of a directory ends well exactly if the directory can be used afterwards. -/
theorem ensurePrivate_ok_iff :
    (ensurePrivate t here p).result = .ok () ↔ (ensurePrivate t here p).tree.Usable here p.route := by
  refine ⟨usable_of_ensurePrivate, fun hu => ?_⟩
  have he := ensuring t here p
  generalize ensurePrivate t here p = e at hu he
  cases he with
  | unseen hd => cases hd.symm.trans hu.isDirectory
  | found | made => exact checkUsable_of_usable hu
  | refused hd hm =>
    rcases not_isDirectory_of_makeDirs hm with rfl | hnd
    · cases hd.symm.trans hu.isDirectory
    · exact absurd hu.isDirectory hnd

theorem ofRefusal_unseen {why : Refusal} (h : t.isDirectory here p.route = .error why) :
    Failure.ofRefusal why (some p.toString) = .system { why, path := some p.toString } := by
  rw [Failure.ofRefusal, if_neg]
  rintro rfl
  rcases why_of_unseen (isDirectory_error h) with h | h <;> cases h

theorem ensurePrivate_unseen {why : Refusal} (h : t.isDirectory here p.route = .error why) :
    (ensurePrivate t here p).result = .error (.system { why, path := some p.toString }) := by
  rw [← ofRefusal_unseen h]
  unfold ensurePrivate
  rw [h]

theorem ensurePrivate_of_hasZero (hz : p.route.hasZero = true) :
    (ensurePrivate t here p).result = .error .zeroByte := by
  unfold ensurePrivate
  rw [isDirectory_of_hasZero hz, makeDirs_of_hasZero hz]
  rfl

/-- A directory that was not made sure of cannot be used, unless its place cannot be seen or its path holds
the zero character. -/
theorem ensurePrivate_error_cases (h : (ensurePrivate t here p).result = .error f) :
    (∃ why, t.isDirectory here p.route = .error why ∧ f = .system { why, path := some p.toString }) ∨
      p.route.hasZero = true ∧ f = .zeroByte ∨ ∃ fault, f = .unusable p fault := by
  have he := ensuring t here p
  generalize ensurePrivate t here p = e at h he
  cases he with
  | unseen hd =>
    cases h
    exact .inl ⟨_, hd, ofRefusal_unseen hd⟩
  | found | made => exact .inr (.inr ⟨_, checkUsable_error h⟩)
  | @refused t' why hd hm =>
    cases h
    cases why with
    | zeroByte => exact .inr (.inl ⟨hasZero_of_makeDirs hm, rfl⟩)
    | exist => exact .inr (.inr ⟨.occupied, rfl⟩)
    | _ => exact .inr (.inr ⟨.refused _, rfl⟩)

end Whereabouts
