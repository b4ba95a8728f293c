import Whereabouts.Proofs.FileTree.Failing
import Whereabouts.Proofs.FileTree.Proper
import Whereabouts.Proofs.TempFile

/-!
# Directories that are missing

A private directory can be made at a path of proper names exactly where the longest beginning of the path that has an
entry can be used, and the names after it can be names (`ensurePrivate_ok_iff_makeable`). Each directory that is made
on the way is empty and lets the next one be made in it.
-/

namespace Whereabouts

theorem Path.isNormal_above {anchor : Anchor} {name : String} {names : List String}
    (h : (Path.mk anchor (name :: names)).isNormal = true) :
    (Path.mk anchor names).isNormal = true ∧ name ≠ "" ∧ name ≠ "." ∧ name ≠ ".." := by
  obtain ⟨ha, hn⟩ := isNormal_iff.1 h
  obtain ⟨hplain, hd, hp⟩ := hn name List.mem_cons_self
  exact ⟨isNormal_iff.2 ⟨ha, fun n hm => hn n (List.mem_cons_of_mem _ hm)⟩, hplain.1, hd, hp⟩

theorem Path.isNormal_suffix {anchor : Anchor} {names base : List String} (h : (Path.mk anchor names).isNormal = true)
    (hs : base <:+ names) : (Path.mk anchor base).isNormal = true := by
  obtain ⟨ha, hn⟩ := isNormal_iff.1 h
  exact isNormal_iff.2 ⟨ha, fun n hm => hn n (hs.subset hm)⟩

namespace FileTree

variable {t t' : FileTree} {here : Option Location} {p : Path} {loc : Location} {mode : Mode} {why : Refusal}
  {anchor : Anchor} {name : String} {names missing base : List String}

/-! ## Routes of proper names -/

theorem withoutSlash_of_isNormal (h : p.isNormal = true) : p.route.withoutSlash = p.route := by
  obtain ⟨ha, hn⟩ := Path.isNormal_iff.1 h
  rw [route_of_isAbsolute ha]
  refine withoutSlash_of_not_hasSlash ?_
  rw [Route.hasSlash, List.contains_eq_mem, decide_eq_false_iff_not, List.mem_reverse]
  exact fun hm => (hn "" hm).1.1 rfl

theorem walk_normal_iff {follow : Bool} {x : Reached} (h : p.isNormal = true) :
    t.walk here follow p.route = .ok x ↔
      p.route.hasZero = false ∧ Leads t follow maxLinks [] p.names.reverse x := by
  rw [walk_ok_iff, route_of_isAbsolute (Path.isNormal_iff.1 h).1]
  refine and_congr_right fun _ => ⟨fun ⟨start, hs, hl⟩ => ?_, fun hl => ⟨[], rfl, hl⟩⟩
  obtain rfl : [] = start := Option.some.inj hs
  exact hl

/-! ## Along a longer route -/

/-- The steps of a walk that ends well have names that entries can have. -/
theorem Leads.entryName_of_mem {follow : Bool} {n : Nat} {steps : List String} {x : Reached}
    (h : Leads t follow n loc steps x) (hm : name ∈ steps) (hb : name ≠ "") (hd : name ≠ ".") (hp : name ≠ "..") :
    EntryName name := by
  induction h with
  | done => cases hm
  | slash _ ih => exact ih ((List.mem_cons.1 hm).resolve_left hb)
  | dot _ _ ih => exact ih ((List.mem_cons.1 hm).resolve_left hd)
  | up _ _ ih => exact ih ((List.mem_cons.1 hm).resolve_left hp)
  | vacant _ hn | file _ hn | stay _ hn => exact List.mem_singleton.1 hm ▸ hn
  | dir _ hn _ _ ih =>
    rcases List.mem_cons.1 hm with rfl | hm
    · exact hn
    · exact ih hm
  | link _ hn _ _ _ ih =>
    rcases List.mem_cons.1 hm with rfl | hm
    · exact hn
    · exact ih (List.mem_append_right _ hm)

/-- The steps before a vacant name lead to the directory that does not have it. -/
theorem Leads.before_vacant {n : Nat} {steps : List String} {dir : Location} {last : String}
    (h : Leads t false n loc (steps ++ [name]) (.vacant dir last)) (hb : name ≠ "") (hd : name ≠ ".")
    (hp : name ≠ "..") : last = name ∧ ∃ mode, Leads t true n loc steps (.entry dir (.dir mode)) := by
  generalize hx : Reached.vacant dir last = x at h
  generalize hs : steps ++ [name] = all at h
  induction h generalizing steps with
  | done => cases List.append_ne_nil_of_right_ne_nil steps (List.cons_ne_nil name []) hs
  | file | stay => cases hx
  | slash _ ih =>
    cases steps with
    | nil =>
      cases hs
      exact absurd rfl hb
    | cons step steps =>
      cases hs
      exact (ih hx rfl).imp_right fun ⟨mode, h⟩ => ⟨mode, .slash h⟩
  | dot ho _ ih =>
    cases steps with
    | nil =>
      cases hs
      exact absurd rfl hd
    | cons step steps =>
      cases hs
      exact (ih hx rfl).imp_right fun ⟨mode, h⟩ => ⟨mode, .dot ho h⟩
  | up ho _ ih =>
    cases steps with
    | nil =>
      cases hs
      exact absurd rfl hp
    | cons step steps =>
      cases hs
      exact (ih hx rfl).imp_right fun ⟨mode, h⟩ => ⟨mode, .up ho h⟩
  | vacant ho =>
    cases hx
    cases steps with
    | nil =>
      cases hs
      obtain ⟨mode, hg, -⟩ := ho
      exact ⟨rfl, mode, .done hg⟩
    | cons step steps => cases List.append_ne_nil_of_right_ne_nil steps (List.cons_ne_nil name []) (List.cons.inj hs).2
  | dir ho hn hg h ih =>
    cases steps with
    | nil =>
      cases hs
      subst hx
      cases h
    | cons step steps =>
      cases hs
      exact (ih hx rfl).imp_right fun ⟨mode, h⟩ => ⟨mode, .dir ho hn hg h⟩
  | link ho hn hg hf _ ih =>
    cases steps with
    | nil =>
      -- a link at the end is not followed
      cases hs
      simp at hf
    | cons step steps =>
      cases hs
      exact (ih hx (List.append_assoc ..)).imp_right fun ⟨mode, h⟩ => ⟨mode, .link ho hn hg (.inr rfl) h⟩

/-- A walk goes on from the directory that its first steps lead to. -/
theorem Leads.goes_on {n : Nat} {l : Location} {steps : List String}
    (h : Leads t true n loc steps (.entry l (.dir mode))) :
    ∃ k, ∀ follow rest, rest ≠ [] → walkLinks t follow n loc (steps ++ rest) = walkLinks t follow k l rest := by
  generalize hx : Reached.entry l (.dir mode) = x at h
  induction h with
  | done =>
    cases hx
    exact ⟨_, fun _ _ _ => rfl⟩
  | slash _ ih =>
    obtain ⟨k, h⟩ := ih hx
    refine ⟨k, fun follow rest hr => ?_⟩
    rw [← h follow rest hr, walkLinks_eq, List.cons_append, descend]
  | dot ho _ ih =>
    obtain ⟨k, h⟩ := ih hx
    refine ⟨k, fun follow rest hr => ?_⟩
    rw [← h follow rest hr, walkLinks_eq, List.cons_append, descend_dot ho]
  | up ho _ ih =>
    obtain ⟨k, h⟩ := ih hx
    refine ⟨k, fun follow rest hr => ?_⟩
    rw [← h follow rest hr, walkLinks_eq, List.cons_append, descend_up ho]
  | dir ho hn hg _ ih =>
    obtain ⟨k, h⟩ := ih hx
    refine ⟨k, fun follow rest hr => ?_⟩
    rw [← h follow rest hr, walkLinks_eq, List.cons_append, descend_entry ho hn, hg]
  | @link n _ _ _ before _ ho hn hg _ _ ih =>
    obtain ⟨k, h⟩ := ih hx
    refine ⟨k, fun follow rest hr => ?_⟩
    have hc : ¬((before ++ rest).isEmpty && !follow) = true := by simp [hr]
    rw [← h follow rest hr, walkLinks_eq, List.cons_append, descend_entry ho hn, hg]
    dsimp only
    rw [if_neg hc, List.append_assoc]
    rfl
  | vacant | file | stay => cases hx

/-! ## Where entries are found -/

/-- The system finds an entry at the path. A link is one, wherever it leads. -/
def HasEntry (t : FileTree) (here : Option Location) (p : Path) : Prop := ∃ found, t.lstat here p.route = .ok found

/-- There are entries at the beginning `base` of the path, and at no longer one. -/
structure FoundUpTo (t : FileTree) (here : Option Location) (p : Path) (missing base : List String) : Prop where
  names : p.names = missing ++ base
  found : t.HasEntry here ⟨p.anchor, base⟩
  last : ∀ {more}, more <:+ missing → more ≠ [] → ¬t.HasEntry here ⟨p.anchor, more ++ base⟩

/-- What is missing of the path can be made in the directory where it is missing. -/
structure Makeable (t : FileTree) (here : Option Location) (p : Path) (missing base : List String) : Prop
    extends FoundUpTo t here p missing base where
  usable : t.Usable here (Path.mk p.anchor base).route
  fits : ∀ n ∈ missing, n.utf8ByteSize ≤ maxNameBytes ∧ '\x00' ∉ n.toList

theorem hasEntry_of_stat {found : Location × Node} (h : t.stat here p.route = .ok found) : t.HasEntry here p := by
  obtain ⟨l, node⟩ := found
  obtain ⟨hz, start, hs, hl⟩ := walk_ok_iff.1 (stat_ok_iff.1 h)
  obtain ⟨l', node', hl'⟩ := hl.unfollowed
  exact ⟨(l', node'), lstat_ok_iff.2 (walk_ok_iff.2 ⟨hz, start, hs, hl'⟩)⟩

theorem not_hasEntry_of_walk (h : ∀ loc node, t.walk here false p.route ≠ .ok (.entry loc node)) :
    ¬t.HasEntry here p := fun ⟨_, hf⟩ => h _ _ (lstat_ok_iff.1 hf)

/-- One more name is missing below a path of which a name is missing. -/
theorem FoundUpTo.below (h : FoundUpTo t here ⟨anchor, names⟩ missing base)
    (hn : ¬t.HasEntry here ⟨anchor, name :: names⟩) :
    FoundUpTo t here ⟨anchor, name :: names⟩ (name :: missing) base where
  names := by rw [List.cons_append, ← h.names]
  found := h.found
  last {more} hs hne := by
    rcases List.suffix_cons_iff.1 hs with rfl | hs
    · rw [List.cons_append, ← h.names]
      exact hn
    · exact h.last hs hne

theorem FoundUpTo.single (h : t.HasEntry here ⟨anchor, base⟩) (hn : ¬t.HasEntry here ⟨anchor, name :: base⟩) :
    FoundUpTo t here ⟨anchor, name :: base⟩ [name] base where
  names := rfl
  found := h
  last {more} hs hne := by
    rcases List.suffix_cons_iff.1 hs with rfl | hs
    · exact hn
    · exact absurd (List.suffix_nil.1 hs) hne

/-! ## Making what is missing -/

/-- An empty directory with the mode is at the path. -/
def EmptyDirAt (t : FileTree) (here : Option Location) (p : Path) (mode : Mode) : Prop :=
  ∃ loc, t.stat here p.route = .ok (loc, .dir mode) ∧ ∀ name, t.get? (name :: loc) = none

theorem WellFormed.vacant_below (h : t.WellFormed) (hf : t.get? loc = none) (name : String) :
    t.get? (name :: loc) = none := by
  cases hg : t.get? (name :: loc) with
  | none => rfl
  | some node =>
    obtain ⟨mode, hd⟩ := h.above hg
    rw [hf] at hd
    cases hd

/-- A directory made where its name is vacant is an empty one. -/
theorem makeDir_in (ht : t.WellFormed) (hp : (p.child name).isNormal = true) {m : Mode}
    (hd : t.stat here p.route = .ok (loc, .dir m)) (hw : m.writable = true) (hx : m.searchable = true)
    (hf : t.get? (name :: loc) = none) (hn : name.utf8ByteSize ≤ maxNameBytes ∧ '\x00' ∉ name.toList) (mode : Mode) :
    ∃ t', t.makeDir here (p.child name).route mode = .ok t' ∧ t'.WellFormed ∧
      t'.EmptyDirAt here (p.child name) mode.masked := by
  obtain ⟨-, hb, hdot, hup⟩ := Path.isNormal_above hp
  have hdir := get?_of_stat hd
  have hv : t.walk here false (p.child name).route.withoutSlash = .ok (.vacant loc name) := by
    rcases walk_child hd hx ⟨hb, hdot, hup, hn.1⟩ hn.2 with hv | ⟨node, he⟩
    · exact hv
    · obtain ⟨-, start', -, hl'⟩ := walk_ok_iff.1 he
      rw [hl'.get?] at hf
      cases hf
  refine ⟨_, makeDir_vacant hv hdir hw, ht.put ⟨m, hdir⟩ hf _, name :: loc, ?_, fun n => ?_⟩
  · obtain ⟨hz, start, hs, hlv⟩ := walk_ok_iff.1 hv
    rw [withoutSlash_of_isNormal hp] at hz hs hlv
    exact stat_ok_iff.2 (walk_ok_iff.2 ⟨hz, start, hs, hlv.filled nofun⟩)
  · rw [get?_put_of_ne (List.cons_ne_self n (name :: loc))]
    exact ht.vacant_below hf n

/-- The walk goes on from the directory that the path leads to. -/
theorem walk_below {follow : Bool} {m : Mode} (hp : (Path.mk anchor (names ++ base)).isNormal = true) (hne : names ≠ [])
    (hd : t.stat here (Path.mk anchor base).route = .ok (loc, .dir m))
    (hz : (Path.mk anchor (names ++ base)).route.hasZero = false) :
    ∃ k, t.walk here follow (Path.mk anchor (names ++ base)).route = walkLinks t follow k loc names.reverse := by
  have hbase := Path.isNormal_suffix hp (List.suffix_append names base)
  obtain ⟨k, hk⟩ := ((walk_normal_iff hbase).1 (stat_ok_iff.1 hd)).2.goes_on
  refine ⟨k, ?_⟩
  unfold walk
  rw [hz, route_of_isAbsolute (Path.isNormal_iff.1 hp).1, List.reverse_append]
  exact hk follow names.reverse (by simpa using hne)

/-- Where a name is missing the walk ends at its place, or nowhere if more names follow. -/
theorem walk_missing {follow : Bool} {m : Mode} (hp : (Path.mk anchor (names ++ name :: base)).isNormal = true)
    (hd : t.stat here (Path.mk anchor base).route = .ok (loc, .dir m)) (hx : m.searchable = true)
    (hf : t.get? (name :: loc) = none) (hn : EntryName name)
    (hz : (Path.mk anchor (names ++ name :: base)).route.hasZero = false) :
    t.walk here follow (Path.mk anchor (names ++ name :: base)).route =
      if names = [] then .ok (.vacant loc name) else .error .noEntry := by
  rw [List.append_cons] at hp hz ⊢
  have hbelow : ∃ k, t.walk here follow _ = walkLinks t follow k loc (names ++ [name]).reverse :=
    walk_below hp (by simp) hd hz
  obtain ⟨k, hwalk⟩ := hbelow
  rw [hwalk, List.reverse_append, walkLinks_eq]
  show descend t follow _ loc (name :: names.reverse) = _
  rw [descend_entry ⟨m, get?_of_stat hd, hx⟩ hn, hf]
  simp

theorem walk_of_makeDir_noEntry {r : Route} (h : t.makeDir here r mode = .error .noEntry) :
    t.walk here false r.withoutSlash = .error .noEntry := by
  unfold makeDir create at h
  rw [withoutSlash_withoutSlash, hasSlash_withoutSlash] at h
  cases hw : t.walk here false r.withoutSlash with
  | error e =>
    rw [hw] at h
    cases h
    rfl
  | ok x =>
    rw [hw] at h
    cases x with
    | entry => cases h
    | vacant dir last =>
      have he : Refusal.noEntry = .denied ∨ Refusal.noEntry = .notDirectory := addEntry_error h
      rcases he with he | he <;> cases he

/-- A last name is looked up in a directory, so that nothing before it is missing. -/
theorem walkLinks_last_ne_noEntry {k : Nat} (hd : t.IsDir loc) (hb : name ≠ "") (hdot : name ≠ ".")
    (hup : name ≠ "..") : walkLinks t false k loc [name] ≠ .error .noEntry := by
  obtain ⟨m, hm⟩ := hd
  rw [walkLinks_eq, descend_cons hb, hm]
  dsimp only
  rw [if_neg hdot, if_neg hup]
  split
  · nofun
  split
  · nofun
  cases hg : t.get? (name :: loc) with
  | none => simp
  | some node => cases node <;> simp [descend, hg]

theorem hasZero_missing (hz : (Path.mk anchor base).route.hasZero = false) (hn : ∀ n ∈ missing, '\x00' ∉ n.toList) :
    (Path.mk anchor (missing ++ base)).route.hasZero = false := by
  rw [hasZero_route] at hz ⊢
  rw [List.any_append, hz, Bool.or_false, List.any_eq_false]
  simpa using hn

/-- Below a directory a directory cannot be refused because something is missing. -/
theorem not_makeDir_noEntry (hp : (p.child name).isNormal = true) (hd : t.isDirectory here p.route = .ok true) :
    t.makeDir here (p.child name).route mode ≠ .error .noEntry := by
  intro h
  obtain ⟨-, hb, hdot, hup⟩ := Path.isNormal_above hp
  obtain ⟨l, m, hst⟩ := isDirectory_iff.1 hd
  have hz : (p.child name).route.hasZero = false := by
    rw [← Bool.not_eq_true]
    intro hz
    cases (makeDir_zeroByte_iff.2 hz).symm.trans h
  have hwalk := walk_of_makeDir_noEntry h
  rw [withoutSlash_of_isNormal hp] at hwalk
  have hbelow : ∃ k, t.walk here false (p.child name).route = walkLinks t false k l [name] :=
    walk_below hp (List.cons_ne_nil name []) hst hz
  obtain ⟨k, hk⟩ := hbelow
  exact walkLinks_last_ne_noEntry ⟨m, get?_of_stat hst⟩ hb hdot hup (hk.symm.trans hwalk)

theorem FoundUpTo.vacant (h : FoundUpTo t here p (names ++ [name]) base) (hp : p.isNormal = true)
    {m : Mode} (hd : t.stat here (Path.mk p.anchor base).route = .ok (loc, .dir m)) (hx : m.searchable = true)
    (hn : name.utf8ByteSize ≤ maxNameBytes ∧ '\x00' ∉ name.toList) : t.get? (name :: loc) = none := by
  have hchild : (Path.mk p.anchor (name :: base)).isNormal = true := by
    have hsuffix : name :: base <:+ p.names := by
      rw [h.names, List.append_assoc]
      exact List.suffix_append names _
    exact Path.isNormal_suffix hp hsuffix
  obtain ⟨-, hb, hdot, hup⟩ := Path.isNormal_above hchild
  have hlast : ¬t.HasEntry here ⟨p.anchor, name :: base⟩ := h.last (List.suffix_append names [name]) (by simp)
  rcases walk_child hd hx ⟨hb, hdot, hup, hn.1⟩ hn.2 with hv | ⟨node, he⟩
  · obtain ⟨-, start, -, hl⟩ := walk_ok_iff.1 hv
    exact hl.free.2.2
  · have hroute : (Path.child ⟨p.anchor, base⟩ name).route.withoutSlash = (Path.mk p.anchor (name :: base)).route :=
      withoutSlash_of_isNormal hchild
    rw [hroute] at he
    exact absurd ⟨_, lstat_ok_iff.2 he⟩ hlast

/-- All directories that are missing are made, one in the other. -/
theorem makeDirs_missing (ht : t.WellFormed) (hp : (Path.mk anchor (names ++ name :: base)).isNormal = true) {m : Mode}
    (hd : t.stat here (Path.mk anchor base).route = .ok (loc, .dir m)) (hw : m.writable = true)
    (hx : m.searchable = true)
    (hf : t.get? (name :: loc) = none)
    (hn : ∀ n ∈ names ++ [name], n.utf8ByteSize ≤ maxNameBytes ∧ '\x00' ∉ n.toList) (mode : Mode) :
    ∃ t', t.makeDirs here anchor (names ++ name :: base) mode = (t', .ok ()) ∧ t'.WellFormed ∧
      t'.EmptyDirAt here ⟨anchor, names ++ name :: base⟩ mode.masked := by
  have hname := hn name (by simp)
  induction names generalizing mode with
  | nil =>
    obtain ⟨t', hm, ht', he⟩ := makeDir_in (p := ⟨anchor, base⟩) ht hp hd hw hx hf hname mode
    refine ⟨t', ?_, ht', he⟩
    unfold makeDirs
    dsimp only
    rw [List.nil_append, show Path.mk anchor (name :: base) = Path.child ⟨anchor, base⟩ name from rfl, hm]
  | cons top names ih =>
    obtain ⟨habove, -⟩ := Path.isNormal_above hp
    obtain ⟨-, hb, hdot, hup⟩ := Path.isNormal_above (Path.isNormal_suffix habove (List.suffix_append names _))
    obtain ⟨t₁, hmade, ht₁, l, hst, hempty⟩ := ih habove (fun n hm => hn n (List.mem_cons_of_mem _ hm)) parentMode
    obtain ⟨t', hm, ht', he⟩ := makeDir_in (p := ⟨anchor, names ++ name :: base⟩) ht₁ hp hst (by decide) (by decide)
      (hempty top) (hn top List.mem_cons_self) mode
    have hz : (Path.mk anchor (top :: names ++ name :: base)).route.hasZero = false := by
      rw [List.append_cons (top :: names)]
      exact hasZero_missing (walk_ok_iff.1 (stat_ok_iff.1 hd)).1 fun n hm => (hn n hm).2
    have hwalk : t.walk here false (Path.mk anchor (top :: names ++ name :: base)).route = .error .noEntry :=
      (walk_missing hp hd hx hf ⟨hb, hdot, hup, hname.1⟩ hz).trans (if_neg (List.cons_ne_nil top names))
    have hmissing : t.makeDir here (Path.mk anchor (top :: names ++ name :: base)).route mode = .error .noEntry := by
      unfold makeDir create
      rw [withoutSlash_withoutSlash, withoutSlash_of_isNormal hp, hwalk]
      rfl
    refine ⟨t', ?_, ht', he⟩
    rw [List.cons_append] at hmissing ⊢
    unfold makeDirs
    dsimp only
    rw [hmissing]
    dsimp only
    rw [hmade]
    dsimp only
    rw [show Path.mk anchor (top :: (names ++ name :: base)) = Path.child ⟨anchor, names ++ name :: base⟩ top from rfl,
      hm]

/-! ## What was missing -/

theorem not_hasEntry_of_noEntry (hp : p.isNormal = true) (h : t.makeDir here p.route mode = .error .noEntry) :
    ¬t.HasEntry here p := by
  have hw := walk_of_makeDir_noEntry h
  rw [withoutSlash_of_isNormal hp] at hw
  refine not_hasEntry_of_walk fun loc node he => ?_
  rw [hw] at he
  cases he

theorem fits_of_stat {found : Location × Node} (hp : (p.child name).isNormal = true)
    (h : t.stat here (p.child name).route = .ok found) : name.utf8ByteSize ≤ maxNameBytes ∧ '\x00' ∉ name.toList := by
  obtain ⟨l, node⟩ := found
  obtain ⟨-, hb, hdot, hup⟩ := Path.isNormal_above hp
  obtain ⟨hz, hl⟩ := (walk_normal_iff hp).1 (stat_ok_iff.1 h)
  have hm : name ∈ (p.child name).names.reverse := List.mem_reverse.2 List.mem_cons_self
  refine ⟨(hl.entryName_of_mem hm hb hdot hup).short, ?_⟩
  rw [hasZero_route, List.any_eq_false] at hz
  simpa using hz name List.mem_cons_self

/-- Where a directory is made, its name is missing from one that can be used. -/
theorem makeable_of_makeDir (hp : (Path.mk anchor names).isNormal = true)
    (h : t.makeDir here (Path.mk anchor names).route mode = .ok t') :
    ∃ name base, names = name :: base ∧ t.Makeable here ⟨anchor, names⟩ [name] base := by
  obtain ⟨l, m, hmade⟩ := walk_makeDir h
  obtain ⟨-, dir, last, hw, ha⟩ := addEntry_of_create h
  rw [withoutSlash_withoutSlash, withoutSlash_of_isNormal hp] at hw
  rw [withoutSlash_of_isNormal hp] at hmade
  obtain ⟨hz, hl⟩ := (walk_normal_iff hp).1 hw
  cases names with
  | nil => cases hl
  | cons name base =>
    obtain ⟨hbase, hb, hdot, hup⟩ := Path.isNormal_above hp
    rw [List.reverse_cons] at hl
    obtain ⟨-, m', hd⟩ := hl.before_vacant hb hdot hup
    obtain ⟨⟨mode', hg, hwritable⟩, -⟩ := addEntry_ok ha
    obtain ⟨⟨mode'', hg', hsearchable⟩, -⟩ := hl.free
    have hst : t.stat here (Path.mk anchor base).route = .ok (dir, .dir m') := by
      refine stat_ok_iff.2 ((walk_normal_iff hbase).2 ⟨?_, hd⟩)
      rw [hasZero_route, List.any_cons, Bool.or_eq_false_iff] at hz
      rw [hasZero_route]
      exact hz.2
    obtain rfl : m' = mode' := by cases hd.get?.symm.trans hg; rfl
    obtain rfl : m' = mode'' := by cases hg.symm.trans hg'; rfl
    have hnone : ¬t.HasEntry here ⟨anchor, name :: base⟩ := not_hasEntry_of_walk fun loc node he => by
      rw [hw] at he
      cases he
    refine ⟨name, base, rfl, ⟨.single (hasEntry_of_stat hst) hnone, ⟨dir, m', hst, hwritable, hsearchable⟩, ?_⟩⟩
    intro n hn
    rw [List.mem_singleton.1 hn]
    exact fits_of_stat (p := ⟨anchor, base⟩) hp (stat_ok_iff.2 hmade)

theorem Makeable.below (h : t.Makeable here ⟨anchor, names⟩ missing base)
    (hn : ¬t.HasEntry here ⟨anchor, name :: names⟩) (hfits : name.utf8ByteSize ≤ maxNameBytes ∧ '\x00' ∉ name.toList) :
    t.Makeable here ⟨anchor, name :: names⟩ (name :: missing) base where
  toFoundUpTo := h.toFoundUpTo.below hn
  usable := h.usable
  fits n hm := by
    rcases List.mem_cons.1 hm with rfl | hm
    · exact hfits
    · exact h.fits n hm

/-- If directories are made without a refusal, one was there, or all that was missing could be made. -/
theorem makeable_of_makeDirs (hp : (Path.mk anchor names).isNormal = true)
    (h : t.makeDirs here anchor names mode = (t', .ok ())) :
    t.isDirectory here (Path.mk anchor names).route = .ok true ∨
      ∃ missing base, missing ≠ [] ∧ t.Makeable here ⟨anchor, names⟩ missing base := by
  have hmade : ∀ {t₀ : FileTree} {mode names} {t' : FileTree}, (Path.mk anchor names).isNormal = true →
      t₀.makeDir here (Path.mk anchor names).route mode = .ok t' →
      ∃ missing base, missing ≠ [] ∧ t₀.Makeable here ⟨anchor, names⟩ missing base := by
    intro t₀ mode names t' hp hm
    obtain ⟨name, base, -, hmake⟩ := makeable_of_makeDir hp hm
    exact ⟨[name], base, by simp, hmake⟩
  induction names generalizing mode t' with
  | nil =>
    unfold makeDirs at h
    dsimp only at h
    split at h
    · next hm => exact .inr (hmade hp hm)
    · cases h
    · exact .inl (excuse_ok (Prod.mk.inj h).2)
  | cons name names ih =>
    obtain ⟨habove, -⟩ := Path.isNormal_above hp
    unfold makeDirs at h
    dsimp only at h
    split at h
    · next hm => exact .inr (hmade hp hm)
    · next hnone =>
      split at h
      · cases h
      · next t₁ ha =>
        -- the directory is there in the end, so its name is one that an entry can have
        have hfits : name.utf8ByteSize ≤ maxNameBytes ∧ '\x00' ∉ name.toList := by
          split at h
          · next hm =>
            obtain ⟨last, base, he, hmake⟩ := makeable_of_makeDir hp hm
            cases he
            exact hmake.fits name List.mem_cons_self
          · cases h
          · obtain ⟨l, m, hst⟩ := isDirectory_iff.1 (excuse_ok (Prod.mk.inj h).2)
            exact fits_of_stat (p := ⟨anchor, names⟩) hp hst
        rcases ih habove ha with hd | ⟨missing, base, -, hmake⟩
        · exact absurd hnone (not_makeDir_noEntry (p := ⟨anchor, names⟩) hp hd)
        · exact .inr ⟨name :: missing, base, by simp, hmake.below (not_hasEntry_of_noEntry hp hnone) hfits⟩
    · exact .inl (excuse_ok (Prod.mk.inj h).2)

/-- What is missing can be seen to be missing. -/
theorem isDirectory_missing {m : Mode} (hp : (Path.mk anchor (names ++ name :: base)).isNormal = true)
    (hd : t.stat here (Path.mk anchor base).route = .ok (loc, .dir m)) (hx : m.searchable = true)
    (hf : t.get? (name :: loc) = none) (hn : EntryName name)
    (hz : (Path.mk anchor (names ++ name :: base)).route.hasZero = false) :
    t.isDirectory here (Path.mk anchor (names ++ name :: base)).route = .ok false := by
  have hs : t.stat here (Path.mk anchor (names ++ name :: base)).route = .error .noEntry := by
    unfold stat
    rw [walk_missing hp hd hx hf hn hz]
    split <;> rfl
  unfold isDirectory
  rw [hs]

/-- What can be made is not there, and is made empty. -/
theorem Makeable.made (ht : t.WellFormed) (hp : p.isNormal = true) (h : t.Makeable here p missing base)
    (hne : missing ≠ []) (mode : Mode) :
    t.isDirectory here p.route = .ok false ∧
      ∃ t', t.makeDirs here p.anchor p.names mode = (t', .ok ()) ∧ t'.EmptyDirAt here p mode.masked := by
  obtain ⟨anchor, all⟩ := p
  obtain ⟨names, name, rfl⟩ : ∃ names name, missing = names ++ [name] :=
    ⟨missing.dropLast, missing.getLast hne, (List.dropLast_concat_getLast hne).symm⟩
  obtain ⟨loc, m, hd, hw, hx⟩ := h.usable
  have hfits := h.fits name (by simp)
  have hf := h.toFoundUpTo.vacant hp hd hx hfits
  obtain rfl : all = names ++ name :: base := h.names.trans (List.append_assoc ..)
  obtain ⟨-, hb, hdot, hup⟩ := Path.isNormal_above (Path.isNormal_suffix hp (List.suffix_append names _))
  have hz : (Path.mk anchor (names ++ name :: base)).route.hasZero = false := by
    rw [List.append_cons]
    exact hasZero_missing (walk_ok_iff.1 (stat_ok_iff.1 hd)).1 fun n hn => (h.fits n hn).2
  obtain ⟨t', hmade, -, hempty⟩ := makeDirs_missing ht hp hd hw hx hf h.fits mode
  exact ⟨isDirectory_missing hp hd hx hf ⟨hb, hdot, hup, hfits.1⟩ hz, t', hmade, hempty⟩

end FileTree

open FileTree

variable {t : FileTree} {here : Option Location} {p : Path} {missing base : List String}

theorem ensurePrivate_of_makeable (ht : t.WellFormed) (hp : p.isNormal = true) (h : t.Makeable here p missing base)
    (hne : missing ≠ []) : (ensurePrivate t here p).result = .ok () := by
  obtain ⟨hd, t', hmade, l, hst, -⟩ := h.made ht hp hne privateMode
  rw [masked_privateMode] at hst
  unfold ensurePrivate
  rw [hd]
  dsimp only
  rw [hmade]
  exact checkUsable_of_usable ⟨l, privateMode, hst, by decide, by decide⟩

/-- Making sure of a private directory ends well exactly if the directory can be used, or if all that is missing of
it can be made. -/
theorem ensurePrivate_ok_iff_makeable (ht : t.WellFormed) (hp : p.isNormal = true) :
    (ensurePrivate t here p).result = .ok () ↔
      t.Usable here p.route ∨ ¬t.HasEntry here p ∧ ∃ missing base, t.Makeable here p missing base := by
  constructor
  · intro h
    have hu := usable_of_ensurePrivate h
    have he := ensuring t here p
    generalize ensurePrivate t here p = e at h hu he
    cases he with
    | unseen | refused => cases h
    | found => exact .inl hu
    | made hd hm =>
      right
      rcases makeable_of_makeDirs hp hm with hd' | ⟨missing, base, hne, hmake⟩
      · cases hd.symm.trans hd'
      · have hlast := hmake.last (List.suffix_refl missing) hne
        rw [← hmake.names] at hlast
        exact ⟨hlast, missing, base, hmake⟩
  · rintro (hu | ⟨hnone, missing, base, hmake⟩)
    · rw [ensurePrivate_of_usable hu]
    · refine ensurePrivate_of_makeable ht hp hmake fun he => hnone ?_
      subst he
      have hfound := hmake.found
      rw [← show p.names = base from hmake.names] at hfound
      exact hfound

end Whereabouts
