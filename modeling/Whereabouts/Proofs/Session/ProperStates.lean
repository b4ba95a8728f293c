import Whereabouts.Proofs.FileTree.Proper
import Whereabouts.Proofs.Session.Peers
import Whereabouts.Proofs.Session.Resolvers
import Whereabouts.Proofs.Session.Validity

/-!
# Proper states

The tree of a program stays proper, whatever the program and others do, and the program works in a directory of it
as long as that is not removed (`proper_run`).
-/

namespace Whereabouts

open FileTree

variable {host : Host} {s s' : State} {c : Call} {t : FileTree}

structure State.IsProper (s : State) : Prop where
  tree : s.tree.Proper
  sited : s.IsSited
  placed : s.IsPlaced

/-! ## Calls -/

theorem FileTree.Proper.ensurePrivate (h : t.Proper) (here : Option Location) (p : Path) :
    (ensurePrivate t here p).tree.Proper := by
  rcases tree_ensurePrivate t here p with he | he
  · rw [he]
    exact h
  · rw [he]
    exact (h.makeDirs p.anchor p.names privateMode).proper

theorem proper_ensured (h : t.Proper) (here : Option Location) (found : Except Failure Path) :
    (ensured t here found).2.Proper := by
  cases found with
  | error f => exact h
  | ok p => exact h.ensurePrivate here p

theorem proper_keptOr {kept : Option Path} {found : Finding} (h : t.Proper) (hf : found.2.Proper) :
    (keptOr kept t found).2.Proper := by
  cases kept with
  | some p => exact h
  | none => exact hf

theorem proper_segmentDirIn (h : s.tree.Proper) (segment : String) : (segmentDirIn host s segment).2.Proper :=
  proper_keptOr h (proper_ensured h _ _)

theorem proper_segmentBinariesIn (h : s.tree.Proper) (segment : String) :
    (segmentBinariesIn host s segment).2.Proper :=
  proper_keptOr h (proper_ensured (proper_segmentDirIn h segment) _ _)

theorem proper_versionedIn {version : Option String} {found : String → Finding} (h : s.tree.Proper)
    (hf : ∀ segment, (found segment).2.Proper) : (versionedIn host s version found).2.Proper := by
  unfold versionedIn
  split
  · exact h
  · next segment _ => exact hf segment

theorem proper_directoryIn {found : Finding} (h : s.tree.Proper) (hd : directoryIn host s c = some found) :
    found.2.Proper := by
  cases c with
  | homeDir | configDir =>
    cases hd
    exact proper_keptOr h (proper_ensured h _ _)
  | cacheDir version =>
    cases hd
    exact proper_versionedIn h (proper_segmentDirIn h)
  | binaryCacheDir version =>
    cases hd
    exact proper_versionedIn h (proper_segmentBinariesIn h)
  | _ => cases hd

theorem FileEnds.proper {start : String} {close : Option CloseFault} {x : Except Failure Path × State}
    (h : FileEnds host start close s x) (hs : s.tree.Proper) : x.2.tree.Proper := by
  cases h with
  | failed ht =>
    rw [ht]
    exact hs
  | made _ _ _ hm =>
    obtain ⟨n, -, hmade⟩ := tempFileName_ok hm
    exact (hs.makeFile hmade).proper

theorem proper_call (c : Call) (h : s.tree.Proper) : ((c.action host).run s).2.tree.Proper := by
  cases hd : c.isForDirectory with
  | true =>
    obtain ⟨found, hin, s', hrun, ht⟩ := run_directory host s hd
    rw [hrun, ht]
    exact proper_directoryIn h hin
  | false =>
    cases hm : c.makes with
    | false =>
      rw [(within_still hm).tree rfl s]
      exact h
    | true =>
      cases c with
      | makeTempFile start close =>
        have hends : FileEnds host start close s ((makeTempFile host start close).run s) :=
          ends_makeTempFile start close s
        show ((Result.path <$> makeTempFile host start close).run s).2.tree.Proper
        rw [Action.run_map]
        exact hends.proper h
      | ensureDir p =>
        obtain ⟨log, hrun⟩ := run_ensureDir p s
        show ((Result.path <$> ensureDir p).run s).2.tree.Proper
        rw [Action.run_map, hrun]
        exact h.ensurePrivate s.here p
      | homeDir | configDir | cacheDir | binaryCacheDir => cases hd
      | _ => cases hm

theorem Carries.isProper {turns : List (Call × State)} (h : Carries host s turns s') (hs : s.IsProper) :
    s'.IsProper := by
  induction h with
  | nil hi => exact ⟨hi.tree ▸ hs.tree, hi.sited hs.sited, hi.placed hs.placed⟩
  | @cons s₀ s s' c turns hi _ ih =>
    have htree : s.tree.Proper := hi.tree ▸ hs.tree
    have hcall : Extends s ((c.action host).run s).2 := extends_call c s
    refine ih ⟨proper_call c htree, fun loc hl => ?_, ?_⟩
    · rw [hcall.here] at hl
      exact hcall.tree.isDir (hi.sited hs.sited loc hl)
    · unfold State.IsPlaced
      rw [hcall.here]
      exact hi.placed hs.placed

/-! ## Changes -/

theorem isProper_touched {tree : FileTree} (h : s.IsProper) (ht : StaysProper s.tree tree) :
    State.IsProper { s with tree := tree } :=
  ⟨ht.proper, fun loc hl => ht.dirs (h.sited loc hl), h.placed⟩

theorem isProper_mapped {r : Except Refusal FileTree} (h : s.IsProper)
    (ht : ∀ tree, r = .ok tree → StaysProper s.tree tree)
    (he : r.map (fun tree => { s with tree := tree }) = .ok s') : s'.IsProper := by
  obtain ⟨tree, hr, rfl⟩ := exists_of_map_ok he
  exact isProper_touched h (ht tree hr)

theorem isProper_change {c : Change} (hc : c.touchesTree = true) (h : s.IsProper) (he : c.apply s = .ok s') :
    s'.IsProper := by
  cases c with
  | makeDir => exact isProper_mapped h (fun _ hm => h.tree.makeDir hm) he
  | write => exact isProper_mapped h (fun _ hm => h.tree.writeFile hm) he
  | makeLink => exact isProper_mapped h (fun _ hm => h.tree.makeLink hm) he
  | setMode => exact isProper_mapped h (fun _ hm => h.tree.setMode hm) he
  | remove path =>
    have hr : (s.tree.removeAt s.here (.ofString path)).map (fun x =>
        { s with tree := x.1, here := hereAfterRemoval s.here x.2 }) = .ok s' := he
    obtain ⟨⟨tree, top⟩, hremoved, rfl⟩ := exists_of_map_ok hr
    obtain ⟨hne, rfl⟩ := removeAt_ok hremoved
    refine ⟨h.tree.remove hne, fun loc hl => ?_, placed_afterRemoval h.placed _ top⟩
    -- a directory that was removed is no longer worked in
    obtain ⟨hhere, hw⟩ := Option.filter_eq_some_iff.1 hl
    exact isDir_remove (h.sited loc hhere) (by simpa using hw)
  | _ => cases hc

/-! ## Sessions -/

theorem isProper_step (h : s.IsProper) (st : Step) : (Session.step host s st).2.IsProper := by
  cases ht : st.touchesTree with
  | false => exact (carries_step ht s).isProper h
  | true =>
    cases st with
    | change c =>
      have hlog : State.IsProper { s with log := [] } := ⟨h.tree, h.sited, h.placed⟩
      unfold Session.step
      cases hc : c.apply { s with log := [] } with
      | error why =>
        rw [run_refused hc]
        exact hlog
      | ok s' =>
        rw [run_changed hc]
        exact isProper_change ht hlog hc
    | _ => cases ht

theorem isProper_run (h : s.IsProper) (steps : List Step) : (Session.run host s steps).2.IsProper := by
  induction steps generalizing s with
  | nil => exact h
  | cons st steps ih => exact ih (isProper_step h st)

theorem isProper_start (env : Environment) (plan : List Planned) (dir : String) :
    (State.start env plan dir).IsProper where
  tree := proper_build plan
  sited loc hl := by
    unfold State.start at hl ⊢
    dsimp only at hl
    split at hl
    · next l mode hst =>
      obtain rfl : l = loc := Option.some.inj hl
      exact (staysProper_build plan).dirs ⟨mode, get?_of_stat hst⟩
    · cases hl
  placed := placed_start env plan dir

theorem proper_run (env : Environment) (plan : List Planned) (dir : String) (steps : List Step) :
    (Session.run host (.start env plan dir) steps).2.IsProper :=
  isProper_run (isProper_start env plan dir) steps

end Whereabouts
