import Whereabouts.Proofs.FileTree.Build
import Whereabouts.Proofs.Session.Turns

/-!
# Locations that stay valid

A path that a call returned is valid in every state that the program reaches later: a directory for
its own files can be used, resources and the program are there, a temporary file is still empty. The
state that a session leaves extends the one that it found, and what a call finds stands for a valid
path (`valid_of_served`).
-/

namespace Whereabouts

open FileTree

/-- What a caller can rely on about a path that the call returned. -/
def Valid : Call → Path → State → Prop
  | .homeDir | .configDir | .cacheDir _ | .binaryCacheDir _ | .ensureDir _ => fun p s =>
    ∃ loc mode, s.tree.stat s.here p.route = .ok (loc, .dir mode) ∧ mode.writable = true ∧
      mode.searchable = true
  | .resourceDir | .processDir => fun p s => ∃ loc mode, s.tree.stat s.here p.route = .ok (loc, .dir mode)
  | .processPath => fun p s => ∃ found, s.tree.stat s.here p.route = .ok found
  | .makeTempFile .. => fun p s => ∃ loc mode, s.tree.lstat s.here p.route = .ok (loc, .file mode "")
  | _ => fun _ _ => True

/-- The root is a directory, the way to the working directory is open and free of links, and the
names on it are proper. -/
structure Settled (s : State) : Prop where
  root : s.tree.IsDir []
  stands : s.tree.Stands (s.here.getD [])
  names : ∀ n ∈ s.here.getD [], n ≠ "" ∧ n ≠ "." ∧ '/' ∉ n.toList

section
variable {host : Host} {s s' : State} {p : Path}

theorem Extends.settled (h : Extends s s') (hs : Settled s) : Settled s' where
  root := h.tree.isDir hs.root
  stands := h.here ▸ h.tree.stands hs.stands
  names := h.here ▸ hs.names

theorem Extends.valid (h : Extends s s') {c : Call} (hv : Valid c p s) : Valid c p s' := by
  cases c with
  | homeDir | configDir | cacheDir | binaryCacheDir | ensureDir => exact h.usable hv
  | resourceDir | processDir =>
    obtain ⟨loc, mode, hd⟩ := hv
    exact ⟨loc, mode, h.here ▸ h.tree.stat hd⟩
  | processPath =>
    obtain ⟨⟨loc, node⟩, hf⟩ := hv
    exact ⟨(loc, node), h.here ▸ h.tree.stat hf⟩
  | makeTempFile =>
    obtain ⟨loc, mode, hl⟩ := hv
    exact ⟨loc, mode, h.here ▸ h.tree.lstat hl⟩
  | _ => trivial

/-! ## What canonical paths lead to -/

theorem Settled.origin (h : Settled s) (q : Path) :
    s.tree.Stands (if q.isAbsolute then [] else s.here.getD []) := by
  split
  · exact h.stands.root
  · exact h.stands

theorem stat_of_stands (ha : p.isAbsolute = true) (h : s.tree.Stands p.names) :
    ∃ node, s.tree.stat s.here p.route = .ok (p.names, node) ∧ s.tree.get? p.names = some node := by
  have hwalk : ∃ node, s.tree.walk s.here true p.route = .ok (.entry p.names node) := h.walk ha
  obtain ⟨node, hw⟩ := hwalk
  have hst := stat_ok_iff.2 hw
  exact ⟨node, hst, get?_of_stat hst⟩

theorem isDirectory_of_resourceAt (hs : Settled s) (h : ResourceAt p s) :
    ∃ loc mode, s.tree.stat s.here p.route = .ok (loc, .dir mode) := by
  obtain ⟨q, hd, hc⟩ := h
  obtain ⟨loc, mode, hq⟩ := isDirectory_iff.1 hd
  obtain ⟨ha, hst⟩ := canonical_ok (hs.origin q) hc
  obtain ⟨node, hp, hg⟩ := stat_of_stands ha hst
  rw [canonical_same (hs.origin q) hc hq, get?_of_stat hq] at hg
  cases hg
  exact ⟨p.names, mode, hp⟩

theorem stands_of_programAt (hs : Settled s) (h : ProgramAt host p s) :
    p.isAbsolute = true ∧ s.tree.Stands p.names := by
  obtain ⟨reported, -, hc⟩ := programPath_ok_iff.1 h
  exact canonical_ok (hs.origin _) hc

theorem isDirectory_of_programDirAt (hs : Settled s) (h : ProgramDirAt host p s) :
    ∃ loc mode, s.tree.stat s.here p.route = .ok (loc, .dir mode) := by
  obtain ⟨q, hq, rfl⟩ := h
  obtain ⟨ha, hst⟩ := stands_of_programAt hs hq
  have hdir : s.tree.IsDir q.parent.names := by
    unfold Path.parent
    cases hn : q.names with
    | nil => exact hs.root
    | cons name rest =>
      rw [hn] at hst
      obtain ⟨-, -, ⟨mode, hd, -⟩, -⟩ := hst.clear
      exact ⟨mode, hd⟩
  have hap : q.parent.isAbsolute = true := ha
  obtain ⟨node, hp, hg⟩ := stat_of_stands hap hst.tail
  obtain ⟨mode, hd⟩ := hdir
  rw [hg] at hd
  cases hd
  exact ⟨q.parent.names, mode, hp⟩

theorem valid_of_served (hn : host.NamesWithoutSlash) (hs : Settled s) {c : Call}
    (h : Served host c p s) : Valid c p s := by
  cases c with
  | homeDir | configDir | cacheDir | binaryCacheDir | ensureDir => exact h
  | resourceDir => exact isDirectory_of_resourceAt hs h
  | processDir => exact isDirectory_of_programDirAt hs h
  | processPath =>
    obtain ⟨ha, hst⟩ := stands_of_programAt hs h
    obtain ⟨node, hp, -⟩ := stat_of_stands ha hst
    exact ⟨(p.names, node), hp⟩
  | makeTempFile =>
    obtain ⟨loc, hl⟩ := h hn hs.names
    exact ⟨loc, _, hl⟩
  | _ => trivial

end

/-! ## Steps and sessions -/

section
variable {host : Host} {s : State}

theorem served_step (hf : Faithful host s) {st : Step} (ho : st.isChange = false) :
    Extends s (Session.step host s st).2 ∧ Faithful host (Session.step host s st).2 ∧
      AnswerShows (Served host · · (Session.step host s st).2) st (Session.step host s st).1.1 := by
  have he : Extends s { s with log := [] } := ⟨rfl, rfl, .refl _⟩
  have hst : Twins host true { s with log := [] } { s with log := [] } := .refl (hf.extend he rfl)
  by_cases hcount : st = .sdkRuns
  · subst hcount
    exact ⟨he, hst.left, trivial⟩
  · obtain ⟨-, hst', hg, hv⟩ := alike_answer hst st ⟨ho, hcount, .inl rfl⟩
    exact ⟨he.trans hg, hst'.left, hv⟩

/-- What a step leaves for the steps after it. -/
structure Continues (host : Host) (s : State) (st : Step) (a : Answer) (s' : State) : Prop where
  grown : Extends s s'
  faithful : Faithful host s'
  valid : AnswerShows (Valid · · s') st a

theorem continues_step (hn : host.NamesWithoutSlash) (hf : Faithful host s) (hs : Settled s) {st : Step}
    (ho : st.isChange = false) :
    Continues host s st (Session.step host s st).1.1 (Session.step host s st).2 := by
  obtain ⟨hg, hf', hv⟩ := served_step hf ho
  exact ⟨hg, hf', hv.imp fun c p hp => valid_of_served hn (hg.settled hs) hp⟩

theorem valid_run (hn : host.NamesWithoutSlash) {steps : List Step} (ho : ∀ st ∈ steps, st.isChange = false)
    (hf : Faithful host s) (hs : Settled s) :
    Extends s (Session.run host s steps).2 ∧ Faithful host (Session.run host s steps).2 ∧
      ∀ x ∈ steps.zip (Session.run host s steps).1,
        AnswerShows (Valid · · (Session.run host s steps).2) x.1 x.2.1 := by
  induction steps generalizing s with
  | nil => exact ⟨.refl s, hf, fun x hx => by cases hx⟩
  | cons st steps ih =>
    obtain ⟨hg, hf', hv⟩ := continues_step hn hf hs (ho st List.mem_cons_self)
    obtain ⟨hg', hf'', hvs⟩ := ih (fun st hm => ho st (List.mem_cons_of_mem _ hm)) hf' (hg.settled hs)
    refine ⟨hg.trans hg', hf'', fun x hx => ?_⟩
    have hx' : x ∈ (st, (Session.step host s st).1) ::
        steps.zip (Session.run host (Session.step host s st).2 steps).1 := hx
    rcases List.mem_cons.1 hx' with rfl | hx
    · exact hv.imp fun c p hp => hg'.valid hp
    · exact hvs x hx

end

/-! ## Sessions from the start -/

theorem placed_start (env : Environment) (plan : List Planned) (dir : String) :
    (State.start env plan dir).IsPlaced := by
  unfold State.IsPlaced State.start
  dsimp only
  split
  · next hst =>
    refine proper_of_stat (fun name hm => ?_) hst
    simp at hm
  · simp

/-- The states that a program can come to by steps of its own, and by single calls within them. -/
inductive Reaches (host : Host) (s : State) : State → Prop where
  | refl : Reaches host s s
  | step {s' : State} {st : Step} (h : Reaches host s s') (ho : st.isChange = false) :
    Reaches host s (Session.step host s' st).2
  | call {s' : State} (h : Reaches host s s') (c : Call) : Reaches host s ((c.action host).run s').2

theorem Faithful.run {host : Host} {s : State} (hf : Faithful host s) {steps : List Step}
    (ho : ∀ st ∈ steps, st.isChange = false) :
    Extends s (Session.run host s steps).2 ∧ Faithful host (Session.run host s steps).2 := by
  induction steps generalizing s with
  | nil => exact ⟨.refl s, hf⟩
  | cons st steps ih =>
    obtain ⟨hg, hf', -⟩ := served_step hf (ho st List.mem_cons_self)
    obtain ⟨hg', hf''⟩ := ih hf' fun st hm => ho st (List.mem_cons_of_mem _ hm)
    exact ⟨hg.trans hg', hf''⟩

theorem Faithful.call {host : Host} {s : State} (hf : Faithful host s) (c : Call) :
    Extends s ((c.action host).run s).2 ∧ Faithful host ((c.action host).run s).2 := by
  have hagree : Agree (Twins host true) (c.action host) (c.action host) s s _ := agree_call (.refl hf) c (.inl rfl)
  exact ⟨hagree.grown, hagree.related.left⟩

theorem Reaches.faithful {host : Host} {s s' : State} (h : Reaches host s s') (hf : Faithful host s) :
    Extends s s' ∧ Faithful host s' := by
  induction h with
  | refl => exact ⟨.refl s, hf⟩
  | step _ ho ih =>
    obtain ⟨hg, hf', -⟩ := served_step ih.2 ho
    exact ⟨ih.1.trans hg, hf'⟩
  | call _ c ih =>
    obtain ⟨hg, hf'⟩ := ih.2.call c
    exact ⟨ih.1.trans hg, hf'⟩

/-- A program whose working directory is named by a canonical path is settled. -/
theorem settled_of_canonical {s : State} (hroot : s.tree.IsDir []) (hplaced : s.IsPlaced)
    (h : ∀ loc, s.here = some loc → s.tree.canonical (some loc) ⟨.root, loc⟩ = .ok ⟨.root, loc⟩) : Settled s := by
  have hstands : s.tree.Stands [] := by
    obtain ⟨mode, hd⟩ := hroot
    exact ⟨trivial, .dir mode, hd, fun target he => by cases he⟩
  refine ⟨hroot, ?_, hplaced⟩
  cases hh : s.here with
  | none => exact hstands
  | some loc => exact (canonical_ok hstands (h loc hh)).2

theorem settled_start {env : Environment} {plan : List Planned} {dir : String}
    (h : ∀ loc, (State.start env plan dir).here = some loc →
      (State.start env plan dir).tree.canonical (some loc) ⟨.root, loc⟩ = .ok ⟨.root, loc⟩) :
    Settled (State.start env plan dir) :=
  settled_of_canonical (isDir_build plan) (placed_start env plan dir) h

theorem run_append (host : Host) (s : State) (before later : List Step) :
    (Session.run host s (before ++ later)).2 =
      (Session.run host (Session.run host s before).2 later).2 := by
  induction before generalizing s with
  | nil => rfl
  | cons st before ih => exact ih (Session.step host s st).2

/-- Every path that was returned is valid in every state that is reached later. -/
theorem returned_paths_stay_valid {host : Host} {env : Environment} {plan : List Planned} {dir : String}
    {before later : List Step} (hnames : host.NamesWithoutSlash)
    (hhere : ∀ loc, (State.start env plan dir).here = some loc →
      (State.start env plan dir).tree.canonical (some loc) ⟨.root, loc⟩ = .ok ⟨.root, loc⟩)
    (hsteps : ∀ st ∈ before ++ later, st.isChange = false) :
    ∀ x ∈ before.zip (Session.run host (.start env plan dir) before).1,
      AnswerShows (Valid · · (Session.run host (.start env plan dir) (before ++ later)).2) x.1 x.2.1 := by
  have hs := settled_start hhere
  have hf : Faithful host (.start env plan dir) := faithful_of_kept_nothing rfl
  obtain ⟨hg, hf', hv⟩ := valid_run hnames (fun st hm => hsteps st (List.mem_append_left _ hm)) hf hs
  have hlater := valid_run hnames (fun st hm => hsteps st (List.mem_append_right _ hm)) hf' (hg.settled hs)
  intro x hx
  rw [run_append]
  exact (hv x hx).imp fun c p hp => hlater.1.valid hp

/-- The home and the temporary file that a session made are as they should be after a clearing and further calls. -/
theorem returned_paths_stay_valid_home :
    let start := State.start ⟨[("HOME", "/home/me")]⟩ [.dir "/tmp" 0o700] "/"
    let before := [Step.call .homeDir, .call (.makeTempFile "x" none)]
    let ended := (Session.run plainHost start (before ++ [.clearAll, .call .homeDir, .commandLine ["paths"]])).2
    Valid .homeDir ⟨.root, ["me", "home"]⟩ ended ∧ Valid (.makeTempFile "x" none) ⟨.root, ["xk3v9x_ab", "tmp"]⟩ ended := by
  intro start before ended
  have hnames : plainHost.NamesWithoutSlash := fun part hp => by
    obtain rfl := List.mem_singleton.1 hp
    decide
  have hstart : start.here = some [] := by decide +kernel
  have hcanonical : start.tree.canonical (some []) ⟨.root, []⟩ = .ok ⟨.root, []⟩ := rfl
  have hhere : ∀ loc, start.here = some loc → start.tree.canonical (some loc) ⟨.root, loc⟩ = .ok ⟨.root, loc⟩ := by
    intro loc h
    obtain rfl : [] = loc := Option.some.inj (hstart.symm.trans h)
    exact hcanonical
  have hsteps : ∀ st ∈ before ++ [.clearAll, .call .homeDir, .commandLine ["paths"]], st.isChange = false := by
    simp [before, Step.isChange]
  have hrun : (Session.run plainHost start before).1 =
      [(.result (.ok (.path ⟨.root, ["me", "home"]⟩)), []),
        (.result (.ok (.path ⟨.root, ["xk3v9x_ab", "tmp"]⟩)), [])] := by
    decide +kernel
  have hvalid : ∀ x ∈ before.zip (Session.run plainHost start before).1, AnswerShows (Valid · · ended) x.1 x.2.1 :=
    returned_paths_stay_valid hnames hhere hsteps
  rw [hrun] at hvalid
  -- from here on it does not matter what the session ended with
  clear_value ended
  exact ⟨hvalid _ List.mem_cons_self, hvalid _ (List.mem_cons_of_mem _ List.mem_cons_self)⟩

end Whereabouts
