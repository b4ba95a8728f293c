import Whereabouts.Proofs.FileTree.Passing
import Whereabouts.Proofs.Session.ProgramLookups
import Whereabouts.Proofs.Session.ProperStates

/-!
# The program's path is canonical

What a call for the program's path returns is an absolute path of proper names without links, and its own canonical
form. It names the entry that the system finds by the path it reports, whenever the system finds one
(`processPath_is_canonical`).
-/

namespace Whereabouts

open FileTree

variable {host : Host} {s : State} {p : Path}

/-- The path is absolute and made of proper names, it is there, no entry along it is a link, and it is its own
canonical form. -/
structure IsReal (s : State) (p : Path) : Prop where
  normal : p.isNormal = true
  found : ∃ found, s.tree.stat s.here p.route = .ok found
  noLink : ∀ names, names <:+ p.names → ∃ node,
    s.tree.lstat s.here (Path.mk p.anchor names).route = .ok (names, node) ∧ ∀ target, node ≠ .link target
  again : s.tree.canonical s.here p = .ok p

theorem FileTree.Stands.suffix {t : FileTree} {loc names : Location} (h : t.Stands loc) (hs : names <:+ loc) :
    t.Stands names := by
  induction loc with
  | nil =>
    rw [List.suffix_nil.1 hs]
    exact h
  | cons name loc ih =>
    rcases List.suffix_cons_iff.1 hs with rfl | hs
    · exact h
    · exact ih h.tail hs

theorem canonical_again (hp : s.IsProper) {found : Location × Node} (ha : p.anchor = .root)
    (hst : s.tree.stat s.here p.route = .ok found) (hn : found.1 = p.names) :
    s.tree.canonical s.here p = .ok p := by
  obtain ⟨loc, node⟩ := found
  obtain ⟨q, hq, -, hnames⟩ := canonical_of_stat hp.tree hp.sited hst
  have hanchor := anchor_of_canonical hq
  obtain ⟨anchor, names⟩ := p
  obtain ⟨anchor', names'⟩ := q
  obtain rfl : anchor = .root := ha
  obtain rfl : anchor' = .root := hanchor
  obtain rfl : names' = names := hnames.trans hn
  exact hq

theorem isReal_of_programAt (hp : s.IsProper) (hs : Settled s) (h : ProgramAt host p s) : IsReal s p := by
  obtain ⟨ha, hst⟩ := stands_of_programAt hs h
  obtain ⟨reported, -, hc⟩ := programPath_ok_iff.1 h
  have hslash : ∀ n ∈ p.names, '/' ∉ n.toList := by
    refine noSlash_of_canonical hc (fun n hn => (hs.names n hn).2.2) fun n hn => ?_
    exact (Path.mem_components (List.mem_reverse.1 hn)).2.2
  obtain ⟨node, hfound, -⟩ := stat_of_stands ha hst
  refine ⟨Path.isNormal_iff.2 ⟨ha, fun n hn => ?_⟩, ⟨_, hfound⟩, fun names hns => ?_, ?_⟩
  · have hname := (hst.clear.mem hn).1
    exact ⟨⟨hname.ne_empty, hslash n hn⟩, hname.ne_dot, hname.ne_parent⟩
  · have hsuffix := hst.suffix hns
    have hwalk : ∃ node, s.tree.walk s.here false (Path.mk p.anchor names).route = .ok (.entry names node) :=
      hsuffix.walk ha
    obtain ⟨node', hw⟩ := hwalk
    obtain ⟨node'', hg, hl⟩ := hsuffix.node
    have hfound := lstat_ok_iff.2 hw
    obtain rfl : node' = node'' := Option.some.inj ((get?_of_lstat hfound).symm.trans hg)
    exact ⟨node', hfound, hl⟩
  · exact canonical_again hp (anchor_of_canonical hc) hfound rfl

/-! ## Calls -/

/-- What the program keeps of its own path is what it would find again. -/
structure KeepsProgram (host : Host) (s : State) : Prop where
  path : ∀ p, s.kept.programPath = some p → ProgramAt host p s
  dir : ∀ p, s.kept.programDir = some p → ProgramDirAt host p s

theorem keepsProgram_fresh (hp : s.kept.programPath = none) (hd : s.kept.programDir = none) : KeepsProgram host s where
  path p h := by
    rw [hp] at h
    cases h
  dir p h := by
    rw [hd] at h
    cases h

/-- What is kept stays right as long as others change nothing. -/
theorem keepsProgram_run (hk : s.kept = {}) {steps : List Step} (hsteps : ∀ st ∈ steps, st.isChange = false) :
    KeepsProgram host (Session.run host s steps).2 := by
  have hf : Faithful host (Session.run host s steps).2 := (Faithful.run (faithful_of_kept_nothing hk) hsteps).2
  exact ⟨hf.programPath, hf.programDir⟩

theorem programPathIn_ok_iff (hk : KeepsProgram host s) : programPathIn host s = .ok p ↔ ProgramAt host p s := by
  unfold programPathIn
  cases h : s.kept.programPath with
  | none => exact Iff.rfl
  | some q =>
    have hq := hk.path q h
    refine ⟨fun he => Except.ok.inj he ▸ hq, fun hp => ?_⟩
    exact hq.symm.trans hp

theorem programDirIn_of_programAt (hk : KeepsProgram host s) (hp : ProgramAt host p s) :
    programDirIn host s = .ok p.parent := by
  unfold programDirIn
  cases h : s.kept.programDir with
  | none =>
    rw [(programPathIn_ok_iff hk).2 hp]
    rfl
  | some d =>
    obtain ⟨q, hq, rfl⟩ := hk.dir d h
    obtain rfl : q = p := Except.ok.inj (hq.symm.trans hp)
    rfl

/-- In every state that a session comes to, with a working directory that has a canonical path: the path of the
program that is returned is canonical, and the program's directory is the one above it. If the path that the system
reports is absolute and leads to an entry, a path is returned, and it names that entry. -/
theorem processPath_is_canonical {host : Host} {env : Environment} {plan : List Planned} {dir : String}
    {steps : List Step} {s : State} (hrun : s = (Session.run host (.start env plan dir) steps).2)
    (hkept : KeepsProgram host s)
    (hhere : ∀ loc, s.here = some loc → s.tree.canonical (some loc) ⟨.root, loc⟩ = .ok ⟨.root, loc⟩) :
    (∀ p, ((processPath host).run s).1 = .ok p →
      IsReal s p ∧ ((processDir host).run s).1 = .ok p.parent ∧
        ∃ loc mode, s.tree.stat s.here p.parent.route = .ok (loc, .dir mode)) ∧
    ∀ raw loc node, executablePath host s.tree s.here host.profile = .ok raw →
      (Route.ofString raw).absolute = true → s.tree.stat s.here (.ofString raw) = .ok (loc, node) →
      ∃ p, ((processPath host).run s).1 = .ok p ∧ p.names = loc ∧ s.tree.stat s.here p.route = .ok (loc, node) := by
  have hproper : s.IsProper := hrun ▸ proper_run env plan dir steps
  have hsettled : Settled s := settled_of_canonical hproper.tree.root hproper.placed hhere
  rw [(looks_processPath host s).result, (looks_processDir host s).result]
  refine ⟨fun p hp => ?_, fun raw loc node hraw ha hst => ?_⟩
  · have hat := (programPathIn_ok_iff hkept).1 hp
    exact ⟨isReal_of_programAt hproper hsettled hat, programDirIn_of_programAt hkept hat,
      isDirectory_of_programDirAt hsettled ⟨p, hat, rfl⟩⟩
  · obtain ⟨p, hc, hp, rfl⟩ := canonical_of_text hproper.tree hproper.sited ha hst
    have hat : ProgramAt host p s := programPath_ok_iff.2 ⟨raw, hraw, hc⟩
    obtain ⟨node', hst', hg⟩ := stat_of_stands hp (stands_of_programAt hsettled hat).2
    obtain rfl : node' = node := Option.some.inj (hg.symm.trans (get?_of_stat hst))
    exact ⟨p, (programPathIn_ok_iff hkept).2 hat, rfl, hst'⟩

/-- The program is reported behind two links, one of them with a parent component behind another link. -/
theorem processPath_is_canonical_behind_links :
    let s := State.start {} [.file "/usr/bin/jank" "", .link "/l" "usr/share", .dir "/usr/share" 0o755,
      .link "/proc/self/exe" "/l/../bin/jank"] "/"
    ∃ p, ((processPath plainHost).run s).1 = .ok p ∧ p.names = ["jank", "bin", "usr"] ∧ IsReal s p := by
  intro s
  have hhere : ∀ loc, s.here = some loc → s.tree.canonical (some loc) ⟨.root, loc⟩ = .ok ⟨.root, loc⟩ := by
    intro loc h
    have hroot : s.here = some [] := by decide +kernel
    obtain rfl : [] = loc := Option.some.inj (hroot.symm.trans h)
    rfl
  have hcanonical := @processPath_is_canonical plainHost {} _ "/" [] s rfl (keepsProgram_fresh rfl rfl) hhere
  obtain ⟨p, hp, hnames, -⟩ := hcanonical.2 "/l/../bin/jank" ["jank", "bin", "usr"] (.file 0o644 "") (by decide +kernel)
    (by decide) (by decide +kernel)
  exact ⟨p, hp, hnames, (hcanonical.1 p hp).1⟩

end Whereabouts
