import Whereabouts.Proofs.Session.Directories
import Whereabouts.Session.Resources

/-!
# What lookups of the program find

The program's path, its directory and its resources as functions of the state that they are looked up in. The lookups
compute these functions and change nothing but what is kept and logged (`looks_processPath` and its siblings).
-/

namespace Whereabouts

open FileTree

variable {α β : Type} {host : Host} {s : State}

/-! ## Actions that only look -/

/-- The action ends with the outcome and changes nothing but what is kept and logged. -/
def Looks (f : Action α) (s : State) (found : Except Failure α) : Prop :=
  ∃ kept log, f.run s = (found, { s with kept := kept, log := log })

/-- A kept value, or else what is found now. -/
def keptElse (kept : Option α) (found : Except Failure α) : Except Failure α :=
  match kept with
  | some a => .ok a
  | none => found

namespace Looks

variable {f : Action α} {found : Except Failure α}

theorem result (h : Looks f s found) : (f.run s).1 = found := by
  obtain ⟨k, l, hrun⟩ := h
  rw [hrun]

theorem still (h : Looks f s found) : (f.run s).2.tree = s.tree ∧ (f.run s).2.here = s.here := by
  obtain ⟨k, l, hrun⟩ := h
  rw [hrun]
  exact ⟨rfl, rfl⟩

/-- A lookup that leaves the tree as it is. -/
theorem finds {f : Action Path} {found : Except Failure Path} (h : Looks f s found) : Finds f s (found, s.tree) := h

theorem once (slot : Slot α) (h : slot.find s.kept = none → Looks f s found) :
    Looks (once slot f) s (keptElse (slot.find s.kept) found) := by
  cases hk : slot.find s.kept with
  | some a => exact ⟨s.kept, s.log, run_once_some hk⟩
  | none =>
    obtain ⟨k, l, hrun⟩ := h hk
    unfold Looks
    rw [run_once_none hk, keep, Action.run_bind, hrun]
    cases found with
    | error e => exact ⟨k, l, rfl⟩
    | ok a => exact ⟨slot.store k a, l, rfl⟩

/-- What comes after sees another log and other kept values at most. -/
theorem bind {F : α → Action β} {found' : Except Failure β} (h : Looks f s found)
    (he : ∀ e, found = .error e → found' = .error e)
    (hF : ∀ a, found = .ok a → ∀ k l, Looks (F a) { s with kept := k, log := l } found') :
    Looks (f >>= F) s found' := by
  obtain ⟨k, l, hrun⟩ := h
  unfold Looks
  rw [Action.run_bind, hrun]
  cases found with
  | error e =>
    rw [he e rfl]
    exact ⟨k, l, rfl⟩
  | ok a =>
    obtain ⟨k', l', hrun'⟩ := hF a rfl k l
    exact ⟨k', l', hrun'⟩

theorem map {c : α → β} (h : Looks f s found) : Looks (c <$> f) s (found.map c) := by
  obtain ⟨k, l, hrun⟩ := h
  unfold Looks
  rw [Action.run_map, hrun]
  exact ⟨k, l, rfl⟩

theorem pure (a : α) (s : State) : Looks (pure a : Action α) s (.ok a) := ⟨s.kept, s.log, rfl⟩

theorem throw (e : Failure) (s : State) : Looks (throw e : Action α) s (.error e) := ⟨s.kept, s.log, rfl⟩

theorem lift (x : Except Failure α) (s : State) : Looks (ExceptT.mk (Pure.pure x) : Action α) s x :=
  ⟨s.kept, s.log, rfl⟩

theorem debug (tag message : String) (s : State) : Looks (debug tag message) s (.ok ()) := by
  unfold Looks
  rw [run_debug]
  exact ⟨s.kept, _, rfl⟩

/-- A value that is announced before it is returned. -/
theorem announced (tag message : String) (a : α) (s : State) :
    Looks (do Whereabouts.debug tag message; Pure.pure a) s (.ok a) :=
  (debug tag message s).bind nofun fun _ _ k l => pure a { s with kept := k, log := l }

end Looks

/-! ## The program -/

def programPathIn (host : Host) (s : State) : Except Failure Path :=
  keptElse s.kept.programPath (programPath host s.tree s.here)

def programDirIn (host : Host) (s : State) : Except Failure Path :=
  keptElse s.kept.programDir ((programPathIn host s).map Path.parent)

theorem looks_processPath (host : Host) (s : State) : Looks (processPath host) s (programPathIn host s) := by
  refine .once .programPath fun _ => ?_
  exact (Looks.lift (programPath host s.tree s.here) s).bind (fun e he => he) fun p hp k l =>
    hp ▸ .announced _ _ p { s with kept := k, log := l }

theorem looks_processDir (host : Host) (s : State) : Looks (processDir host) s (programDirIn host s) := by
  refine .once .programDir fun _ => ?_
  refine (looks_processPath host s).bind (fun e he => by rw [he]; rfl) fun p hp k l => ?_
  rw [hp]
  exact .pure p.parent { s with kept := k, log := l }

/-! ## Resources -/

def candidatesIn (host : Host) (s : State) : Except Failure (List (Path × ResourceSource)) :=
  match s.env.value? "JANK_RESOURCE_DIR" with
  | some raw =>
    let p := Path.ofString (expandTilde host s.env raw)
    if p.isAbsolute then .ok [(p, .override)] else (programDirIn host s).map fun dir => [(dir ++ p, .override)]
  | none =>
    match programDirIn host s with
    | .ok dir => .ok (besideProgram dir ++ [(host.packageResources, .package)])
    | .error f =>
      if f.category = .trouble .executable then .ok [(host.packageResources, .package)] else .error f

/-- The canonical path of the first candidate that is a directory. -/
def chosenFrom (s : State) (candidates : List (Path × ResourceSource)) : Except Failure Path :=
  match firstDirectory s.tree s.here candidates with
  | .ok none => .error (.noResources (candidates.map (·.1)))
  | .ok (some (p, _)) => canonicalDir s.tree s.here p
  | .error f => .error f

def resourceDirIn (host : Host) (s : State) : Except Failure Path :=
  keptElse s.kept.resourceDir ((candidatesIn host s).bind (chosenFrom s))

/-- The candidates beside the program, if the program's own path can be had. -/
theorem looks_beside (host : Host) (s : State) :
    Looks (tryCatch (besideProgram <$> processDir host) fun f => do
      match f.category with
      | .trouble .executable =>
        debug "config" s!"skipping executable-relative resources: {f.message}"
        pure []
      | _ => throw f) s
      (match programDirIn host s with
        | .ok dir => .ok (besideProgram dir)
        | .error f => if f.category = .trouble .executable then .ok [] else .error f) := by
  obtain ⟨k, l, hdir⟩ := looks_processDir host s
  unfold Looks
  rw [Action.run_tryCatch, Action.run_map, hdir]
  cases programDirIn host s with
  | ok dir => exact ⟨k, l, rfl⟩
  | error f =>
    dsimp only [Except.map]
    split
    · next hc =>
      obtain ⟨k', l', hrun⟩ := Looks.announced "config" s!"skipping executable-relative resources: {f.message}"
        ([] : List (Path × ResourceSource)) { s with kept := k, log := l }
      rw [hc, if_pos rfl]
      exact ⟨k', l', hrun⟩
    · next hc =>
      rw [if_neg hc]
      exact ⟨k, l, rfl⟩

theorem looks_resourceCandidates (host : Host) (s : State) :
    Looks (resourceCandidates host) s (candidatesIn host s) := by
  unfold resourceCandidates candidatesIn Looks
  rw [Action.run_get]
  dsimp only
  cases s.env.value? "JANK_RESOURCE_DIR" with
  | some raw =>
    dsimp only
    split
    · exact ⟨s.kept, s.log, rfl⟩
    · rw [bind_pure_comp]
      exact (looks_processDir host s).map
  | none =>
    dsimp only
    rw [bind_pure_comp]
    have hbeside := (looks_beside host s).map (c := (· ++ [(host.packageResources, ResourceSource.package)]))
    cases hd : programDirIn host s with
    | ok dir =>
      rw [hd] at hbeside
      exact hbeside
    | error f =>
      rw [hd] at hbeside
      dsimp only at hbeside ⊢
      split
      · next hc =>
        rw [if_pos hc] at hbeside
        exact hbeside
      · next hc =>
        rw [if_neg hc] at hbeside
        exact hbeside

theorem looks_resourceDir (host : Host) (s : State) : Looks (resourceDir host) s (resourceDirIn host s) := by
  refine .once .resourceDir fun _ => ?_
  refine (looks_resourceCandidates host s).bind (fun e he => by rw [he]; rfl) fun cs hcs k l => ?_
  rw [hcs]
  show Looks _ { s with kept := k, log := l } (chosenFrom s cs)
  unfold chosenFrom
  refine (Looks.lift (firstDirectory s.tree s.here cs) { s with kept := k, log := l }).bind
    (fun e he => by rw [he]) fun found hf k' l' => ?_
  rw [hf]
  cases found with
  | none => exact .throw _ { s with kept := k', log := l' }
  | some x =>
    refine (Looks.lift (canonicalDir s.tree s.here x.1) { s with kept := k', log := l' }).bind (fun e he => he)
      fun q hq k'' l'' => ?_
    dsimp only
    rw [hq]
    exact .announced _ _ q { s with kept := k'', log := l'' }

end Whereabouts
