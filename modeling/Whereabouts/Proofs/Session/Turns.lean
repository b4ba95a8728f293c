import Whereabouts.Proofs.FileTree.Additions
import Whereabouts.Proofs.FileTree.Build
import Whereabouts.Proofs.Session.Calls

/-!
# The calls of a session

A step comes down to calls that are made one after another. `turns` lists calls with the states that
they find, and `made` those that a session makes. Unless others change the tree, nothing but these calls
does (`carries_run`), so what a session adds to the tree is added by its calls (`adds_run`).
-/

namespace Whereabouts

open FileTree

variable {host : Host} {s : State} {W : FileTree → Location → Node → Prop}

/-- The calls, each with the state that it finds when they are made one after another. -/
def Session.turns (host : Host) : State → List Call → List (Call × State)
  | _, [] => []
  | s, c :: cs => (c, s) :: turns host ((c.action host).run s).2 cs

/-- The calls up to the first that ends the program: a failure that is not shown. -/
def Session.shownTurns (host : Host) : State → List Call → List (Call × State)
  | _, [] => []
  | s, c :: cs => (c, s) ::
    match (c.action host).run s with
    | (.ok _, s') => shownTurns host s' cs
    | (.error f, s') => if f.isShown then shownTurns host s' cs else []

theorem Session.mem_of_mem_turns {cs : List Call} {x : Call × State} (h : x ∈ turns host s cs) : x.1 ∈ cs := by
  induction cs generalizing s with
  | nil => cases h
  | cons c cs ih =>
    rcases List.mem_cons.1 h with rfl | h
    · exact List.mem_cons_self
    · exact List.mem_cons_of_mem _ (ih h)

theorem Session.mem_turns_of_shown {cs : List Call} {x : Call × State} (h : x ∈ shownTurns host s cs) :
    x ∈ turns host s cs := by
  induction cs generalizing s with
  | nil => cases h
  | cons c cs ih =>
    rw [shownTurns] at h
    rw [turns]
    rcases List.mem_cons.1 h with rfl | h
    · exact List.mem_cons_self
    · refine List.mem_cons_of_mem _ ?_
      generalize (c.action host).run s = y at h ⊢
      obtain ⟨r, s'⟩ := y
      cases r with
      | ok a => exact ih h
      | error f =>
        dsimp only at h
        split at h
        · exact ih h
        · cases h

/-! ## The calls of a command line -/

def Result.shown : Result → String
  | .path p => p.toString
  | .text s => s
  | _ => ""

namespace Cli

/-- The calls of the `paths` command with the labels of their rows. -/
def tableCalls (version : Option String) : List (String × Call) :=
  [("binary version", .buildVersion), ("home", .homeDir), ("config", .configDir),
   ("cache", .cacheDir version), ("binary cache", .binaryCacheDir version),
   ("process path", .processPath), ("process dir", .processDir), ("resources", .resourceDir)]

def shownLookup (host : Host) (x : String × Call) : String × Action String :=
  (x.1, Result.shown <$> x.2.action host)

theorem lookups_eq (version : Option String) :
    lookups host version = (tableCalls version).map (shownLookup host) := by
  have hpath : ∀ f : Action Path, Path.toString <$> f = Result.shown <$> (Result.path <$> f) := fun f =>
    (Functor.map_map Result.path Result.shown f).symm
  have htext : ∀ f : Action String, f = Result.shown <$> (Result.text <$> f) := fun f =>
    (id_map f).symm.trans (Functor.map_map Result.text Result.shown f).symm
  unfold lookups
  simp only [hpath]
  rw [htext (buildVersion host)]
  rfl

def commandCalls (o : CommandOptions) : Command → List Call
  | .paths => (tableCalls o.value).map (·.2)
  | .flags => [.addSystemFlags o.arguments]
  | .mktemp => [.makeTempFile (o.value.getD defaultStart) none]

def calls (args : List String) : List Call :=
  match readLine args with
  | .error _ => []
  | .ok (command, _, rest) =>
    match readOptions command rest with
    | .error _ => []
    | .ok o => commandCalls o command

def entered (args : List String) (s : State) : State :=
  match readLine args with
  | .ok (_, verbose, _) => s.setUpLogging verbose
  | .error _ => s

end Cli

/-! ## The calls of steps -/

def Step.turns (host : Host) (s : State) : Step → List (Call × State)
  | .call c => Session.turns host s [c]
  | .threads c n => Session.turns host s (List.replicate n c)
  | .commandLine args => Session.turns host (Cli.entered args s) (Cli.calls args)
  | _ => []

def Session.allTurns (host : Host) : State → List Step → List (Call × State)
  | _, [] => []
  | s, st :: sts => st.turns host { s with log := [] } ++ allTurns host (step host s st).2 sts

/-- The calls that a step makes. Those of a command line that a failure ended are not made. -/
def Step.made (host : Host) (s : State) : Step → List (Call × State)
  | .commandLine args => Session.shownTurns host (Cli.entered args s) (Cli.calls args)
  | st => st.turns host s

def Session.made (host : Host) : State → List Step → List (Call × State)
  | _, [] => []
  | s, st :: sts => st.made host { s with log := [] } ++ made host (step host s st).2 sts

theorem Step.mem_turns_of_made {st : Step} {x : Call × State} (h : x ∈ st.made host s) : x ∈ st.turns host s := by
  cases st with
  | commandLine args => exact Session.mem_turns_of_shown h
  | _ => exact h

theorem Session.mem_allTurns_of_made {steps : List Step} {x : Call × State} (h : x ∈ made host s steps) :
    x ∈ allTurns host s steps := by
  induction steps generalizing s with
  | nil => cases h
  | cons st steps ih =>
    rcases List.mem_append.1 h with h | h
    · exact List.mem_append_left _ (Step.mem_turns_of_made h)
    · exact List.mem_append_right _ (ih h)

def Change.touchesTree : Change → Bool
  | .setVar .. | .unsetVar _ | .enter _ => false
  | _ => true

/-- The step is a change that others make to the tree. -/
def Step.touchesTree : Step → Bool
  | .change c => c.touchesTree
  | _ => false

/-! ## What carries the tree -/

/-- The names on the way to the working directory can be names of entries. -/
def State.IsPlaced (s : State) : Prop := ∀ n ∈ s.here.getD [], n ≠ "" ∧ n ≠ "." ∧ '/' ∉ n.toList

/-- The working directory is a directory of the tree, unless it was removed. -/
def State.IsSited (s : State) : Prop := ∀ loc, s.here = some loc → s.tree.IsDir loc

/-- What happens beside the calls leaves the tree as it is. -/
structure Idle (s s' : State) : Prop where
  tree : s'.tree = s.tree
  placed : s.IsPlaced → s'.IsPlaced
  sited : s.IsSited → s'.IsSited

theorem Idle.refl (s : State) : Idle s s := ⟨rfl, id, id⟩

theorem Idle.setUpLogging (s : State) (verbose : Bool) : Idle s (s.setUpLogging verbose) := ⟨rfl, id, id⟩

theorem Idle.trans {s s' s'' : State} (h : Idle s s') (h' : Idle s' s'') : Idle s s'' :=
  ⟨h'.tree.trans h.tree, fun hp => h'.placed (h.placed hp), fun hs => h'.sited (h.sited hs)⟩

/-- The calls, each made in the state beside it, lead from the first state to the second, and nothing
else moves the tree on the way. -/
inductive Carries (host : Host) : State → List (Call × State) → State → Prop where
  | nil {s s' : State} (h : Idle s s') : Carries host s [] s'
  | cons {s₀ s s' : State} {c : Call} {turns : List (Call × State)} (h : Idle s₀ s)
      (hrest : Carries host ((c.action host).run s).2 turns s') : Carries host s₀ ((c, s) :: turns) s'

namespace Carries

variable {s₀ s' s'' : State} {turns turns' : List (Call × State)}

theorem after (hi : Idle s₀ s) (h : Carries host s turns s') : Carries host s₀ turns s' := by
  cases h with
  | nil h => exact .nil (hi.trans h)
  | cons h hrest => exact .cons (hi.trans h) hrest

theorem append (h : Carries host s turns s') (h' : Carries host s' turns' s'') :
    Carries host s (turns ++ turns') s'' := by
  induction h with
  | nil hi => exact h'.after hi
  | cons hi _ ih => exact .cons hi (ih h')

theorem single (c : Call) (s : State) : Carries host s [(c, s)] ((c.action host).run s).2 :=
  .cons (.refl s) (.nil (.refl _))

end Carries

theorem carries_repeated (c : Call) (n : Nat) (s : State) :
    Carries host s (Session.turns host s (List.replicate n c)) ((Session.repeated host c n).run s).2 := by
  induction n generalizing s with
  | zero => exact .nil (.refl s)
  | succ n ih => exact .cons (.refl s) (ih _)

namespace Cli

theorem run_rows_cons (label : String) (lookup : Action String) (rest : List (String × Action String))
    (s : State) :
    (rows ((label, lookup) :: rest)).run s =
      match lookup.run s with
      | (.ok v, s') => ((Row.mk label (.escaped v) true :: ·) <$> rows rest).run s'
      | (.error f, s') =>
        if f.isShown then ((Row.mk label (.error f.message) false :: ·) <$> rows rest).run s' else (.error f, s') := by
  rw [rows, Action.run_bind, Action.run_tryCatch, Action.run_map]
  simp only [bind_pure_comp]
  generalize lookup.run s = x
  obtain ⟨r, s'⟩ := x
  cases r with
  | ok v => rfl
  | error f =>
    dsimp only [Except.map]
    cases f.isShown <;> rfl

theorem carries_rows (labelled : List (String × Call)) (s : State) :
    Carries host s (Session.shownTurns host s (labelled.map (·.2)))
      ((rows (labelled.map (shownLookup host))).run s).2 := by
  induction labelled generalizing s with
  | nil => exact .nil (.refl s)
  | cons x labelled ih =>
    obtain ⟨label, c⟩ := x
    rw [List.map_cons, List.map_cons, shownLookup, run_rows_cons, Action.run_map, Session.shownTurns]
    refine .cons (.refl s) ?_
    generalize (c.action host).run s = x
    obtain ⟨r, s'⟩ := x
    cases r with
    | ok v =>
      dsimp only [Except.map]
      rw [Action.run_map]
      exact ih s'
    | error f =>
      dsimp only [Except.map]
      split
      · rw [Action.run_map]
        exact ih s'
      · exact .nil (.refl s')

theorem state_runMktemp (start : String) (s : State) :
    ((runMktemp host start).run s).2 = ((Call.action host (.makeTempFile start none)).run s).2 := by
  unfold runMktemp Call.action
  rw [Action.run_tryCatch, Action.run_bind_pure, Action.run_map]
  generalize (makeTempFile host start).run s = x
  obtain ⟨r, s'⟩ := x
  cases r with
  | ok p => rfl
  | error f =>
    dsimp only [Except.map]
    split <;> rfl

theorem shownTurns_single (c : Call) (s : State) : Session.shownTurns host s [c] = [(c, s)] := by
  rw [Session.shownTurns]
  generalize (c.action host).run s = x
  obtain ⟨r, s'⟩ := x
  cases r with
  | ok a => rfl
  | error f =>
    dsimp only [Session.shownTurns]
    rw [ite_self]

theorem carries_runCommand (o : CommandOptions) (command : Command) (s : State) :
    Carries host s (Session.shownTurns host s (commandCalls o command)) ((runCommand host o command).run s).2 := by
  cases command with
  | paths =>
    show Carries host s _ ((runPaths host o.value).run s).2
    unfold runPaths
    rw [Action.run_bind_pure, lookups_eq]
    exact carries_rows _ s
  | flags =>
    have hc : Carries host s _ _ := .single (.addSystemFlags o.arguments) s
    show Carries host s (Session.shownTurns host s [_]) ((runFlags host o.arguments).run s).2
    unfold runFlags
    rw [Action.run_bind_pure, shownTurns_single]
    rw [Call.action, Action.run_map] at hc
    exact hc
  | mktemp =>
    show Carries host s (Session.shownTurns host s [_]) ((runMktemp host (o.value.getD defaultStart)).run s).2
    rw [state_runMktemp, shownTurns_single]
    exact .single _ s

theorem state_endingOf (f : Action Ending) (s : State) : ((endingOf f).run s).2 = (f.run s).2 := by
  rw [run_endingOf]
  cases (f.run s).1 <;> rfl

theorem carries_commandLine (args : List String) (s : State) :
    Carries host s (Session.shownTurns host (entered args s) (calls args)) ((run host args).run s).2 := by
  unfold entered calls run
  cases hl : readLine args with
  | error stop => exact .nil (.refl s)
  | ok line =>
    obtain ⟨command, verbose, rest⟩ := line
    have hcarried : ∀ s, Carries host s
        (Session.shownTurns host s (match readOptions command rest with
          | .error _ => []
          | .ok o => commandCalls o command)) ((carryOut host command rest).run s).2 := by
      intro s
      unfold carryOut
      cases readOptions command rest with
      | error stop => exact .nil (.refl s)
      | ok o =>
        dsimp only
        rw [state_endingOf]
        exact carries_runCommand o command s
    exact (hcarried _).after (.setUpLogging s verbose)

end Cli

theorem stat_of_enterDir {t : FileTree} {here : Option Location} {r : Route} {loc : Location}
    (h : enterDir t here r = .ok loc) : ∃ mode, t.stat here r = .ok (loc, .dir mode) := by
  unfold enterDir at h
  cases hst : t.stat here r with
  | error why =>
    rw [hst] at h
    cases h
  | ok found =>
    rw [hst] at h
    obtain ⟨l, node⟩ := found
    cases node with
    | dir mode =>
      dsimp only [bind, Except.bind] at h
      split at h
      · cases h
        exact ⟨mode, rfl⟩
      · cases h
    | _ => cases h

theorem idle_change {c : Change} {s' : State} (hc : c.touchesTree = false) (h : c.apply s = .ok s') :
    Idle s s' := by
  cases c with
  | setVar | unsetVar =>
    cases h
    exact ⟨rfl, id, id⟩
  | enter path =>
    have he : (enterDir s.tree s.here (.ofString path)).map (fun loc => { s with here := some loc }) = .ok s' := h
    obtain ⟨loc, hentered, rfl⟩ := exists_of_map_ok he
    obtain ⟨mode, hst⟩ := stat_of_enterDir hentered
    refine ⟨rfl, fun hp => proper_of_stat hp hst, fun _ l he => ?_⟩
    obtain rfl : loc = l := Option.some.inj he
    exact ⟨mode, get?_of_stat hst⟩
  | _ => cases hc

theorem run_changed {c : Change} {s' : State} (h : c.apply s = .ok s') :
    (Session.answer host (.change c)).run s = (.nothing, s') := by
  simp only [Session.answer, StateT.run_bind, StateT.run_get, pure_bind, h]
  rfl

theorem run_refused {c : Change} {why : Refusal} (h : c.apply s = .error why) :
    (Session.answer host (.change c)).run s = (.refused (.ofRefusal why c.path), s) := by
  simp only [Session.answer, StateT.run_bind, StateT.run_get, pure_bind, h]
  rfl

theorem carries_answer {st : Step} (ht : st.touchesTree = false) (s : State) :
    Carries host s (st.made host s) ((Session.answer host st).run s).2 := by
  cases st with
  | call c => exact .single c s
  | threads c n => exact carries_repeated c n s
  | setupLogging verbose => exact .nil (.setUpLogging s verbose)
  | log level name template args =>
    obtain ⟨log, hs⟩ := Session.logMessage_log level name template args s
    show Carries host s [] ((Session.logMessage level name template args).run s).2
    rw [hs]
    exact .nil ⟨rfl, id, id⟩
  | clear | clearAll | sdkRuns => exact .nil ⟨rfl, id, id⟩
  | commandLine args => exact Cli.carries_commandLine args s
  | change c =>
    show Carries host s [] _
    cases hc : c.apply s with
    | error why =>
      rw [run_refused hc]
      exact .nil (.refl s)
    | ok s' =>
      rw [run_changed hc]
      exact .nil (idle_change ht hc)
  | listing path =>
    show Carries host s [] _
    rw [Session.run_listing]
    split <;> exact .nil (.refl s)

theorem carries_step {st : Step} (ht : st.touchesTree = false) (s : State) :
    Carries host s (st.made host { s with log := [] }) (Session.step host s st).2 := by
  have hlog : Idle s { s with log := [] } := ⟨rfl, id, id⟩
  exact (carries_answer ht _).after hlog

theorem carries_run {steps : List Step} (ht : ∀ st ∈ steps, st.touchesTree = false) (s : State) :
    Carries host s (Session.made host s steps) (Session.run host s steps).2 := by
  induction steps generalizing s with
  | nil => exact .nil (.refl s)
  | cons st steps ih =>
    have hrest := ih (fun st hm => ht st (List.mem_cons_of_mem _ hm)) (Session.step host s st).2
    exact (carries_step (ht st List.mem_cons_self) s).append hrest

/-! ## What is added -/

/-- What the calls add is as `W` says. -/
def AllAdd (host : Host) (W : FileTree → Location → Node → Prop) (turns : List (Call × State)) : Prop :=
  ∀ c s, (c, s) ∈ turns → Adds W s.tree ((c.action host).run s).2.tree

theorem Carries.adds {turns : List (Call × State)} {s' : State} (hW : Lasting W) (h : Carries host s turns s')
    (ha : AllAdd host W turns) : Adds W s.tree s'.tree := by
  induction h with
  | nil hi =>
    rw [hi.tree]
    exact .refl _
  | cons hi _ ih =>
    rw [← hi.tree]
    exact (ha _ _ List.mem_cons_self).trans hW (ih fun c s hm => ha c s (List.mem_cons_of_mem _ hm))

/-- A session adds what its calls add. -/
theorem adds_run (hW : Lasting W) {steps : List Step} (ht : ∀ st ∈ steps, st.touchesTree = false)
    (h : AllAdd host W (Session.allTurns host s steps)) : Adds W s.tree (Session.run host s steps).2.tree :=
  (carries_run ht s).adds hW fun c s hm => h c s (Session.mem_allTurns_of_made hm)

end Whereabouts
