import Whereabouts.Proofs.Session.Peers

/-!
# Empty variables

A variable that is empty counts as one that is not set, with one exception: an empty home variable is
still what a tilde stands for. Without its empty variables, an environment gives every session the same
answers and the same tree (`empty_variables_count_as_unset`), unless the home variable is empty and a
variable has a path that begins with such a tilde.
-/

namespace Whereabouts

variable {host : Host} {tildes : Bool} {s t : State}

/-! ## Changes -/

/-- The step gives a variable a path that uses the own home by a tilde. -/
def Step.setsOwnHome (profile : Profile) : Step → Bool
  | .change (.setVar name value) => Whereabouts.setsOwnHome profile name value
  | _ => false

/-- Peers are changed alike, or the change is refused in both for the same reason. -/
inductive ChangedAlike (host : Host) (tildes : Bool) : Except Refusal State → Except Refusal State → Prop where
  | made {s t : State} (h : Peers host true tildes s t) : ChangedAlike host tildes (.ok s) (.ok t)
  | refused (why : Refusal) : ChangedAlike host tildes (.error why) (.error why)

theorem ChangedAlike.map {α : Type} {f g : α → State} (h : ∀ a, Peers host true tildes (f a) (g a)) (r : Except Refusal α) :
    ChangedAlike host tildes (r.map f) (r.map g) := by
  cases r with
  | ok a => exact .made (h a)
  | error why => exact .refused why

theorem Peers.newTree (hst : Peers host true tildes s t) (r : Except Refusal FileTree) :
    ChangedAlike host tildes (r.map ({ s with tree := · })) (r.map ({ t with tree := · })) :=
  .map hst.withTree r

theorem Peers.apply (hst : Peers host true tildes s t) {c : Change}
    (hc : tildes = false → (Step.change c).setsOwnHome host.profile = false) :
    ChangedAlike host tildes (c.apply s) (c.apply t) := by
  obtain ⟨he, hl⟩ := id hst
  cases c with
  | setVar name value => exact .made (.intro (he.set hc) hl)
  | unsetVar name => exact .made (.intro (he.unset name) hl)
  | makeDir path mode => exact hst.newTree (s.tree.makeDir s.here (.ofString path) mode)
  | write path text => exact hst.newTree (s.tree.writeFile s.here (.ofString path) text)
  | makeLink path target => exact hst.newTree (s.tree.makeLink s.here (.ofString path) target)
  | setMode path mode => exact hst.newTree (s.tree.setMode s.here (.ofString path) mode)
  | enter path =>
    exact .map (fun loc => .intro (s := { s with here := some loc }) he hl) (enterDir s.tree s.here (.ofString path))
  | remove path =>
    refine .map (fun removed => ?_) (s.tree.removeAt s.here (.ofString path))
    exact .intro (s := { s with tree := removed.1, here := hereAfterRemoval s.here removed.2 }) he hl

/-! ## Steps -/

theorem Peers.answer (hst : Peers host true tildes s t) {st : Step}
    (hset : tildes = false → st.setsOwnHome host.profile = false) :
    Matches (Peers host true tildes) ((Session.answer host st).run s) ((Session.answer host st).run t) := by
  have hR := unread_peers host true tildes
  cases st with
  | call c =>
    obtain ⟨ha, hst'⟩ := (agree_unread hR c hst).matches
    exact ⟨congrArg Answer.result ha, hst'⟩
  | threads c n =>
    obtain ⟨ha, hst'⟩ := hR.repeated hst c n
    exact ⟨congrArg Answer.results ha, hst'⟩
  | commandLine args =>
    obtain ⟨ha, hst'⟩ := hR.commandLine hst hst.setUpLogging args
    exact ⟨congrArg Answer.ending ha, hst'⟩
  | change c =>
    have happly := hst.apply hset
    generalize hs : c.apply s = s' at happly
    generalize ht : c.apply t = t' at happly
    cases happly with
    | made h =>
      rw [run_changed hs, run_changed ht]
      exact ⟨rfl, h⟩
    | refused why =>
      rw [run_refused hs, run_refused ht]
      exact ⟨rfl, hst⟩
  | setupLogging verbose =>
    have hst' := hst.setUpLogging verbose
    exact ⟨congrArg Answer.logging hst'.sameLog.1.symm, hst'⟩
  | log level name template args =>
    exact ⟨rfl, (hst.setUpLogging false).logged level name template args⟩
  | clear | clearAll | sdkRuns =>
    obtain ⟨he, hl⟩ := hst
    exact ⟨rfl, .intro he hl⟩
  | listing path =>
    rw [Session.run_listing, Session.run_listing, hst.here, hst.tree]
    cases fromHere s.here path with
    | ok p => exact ⟨rfl, hst⟩
    | error f => exact ⟨rfl, hst⟩

theorem Peers.step (hst : Peers host true tildes s t) {st : Step}
    (hset : tildes = false → st.setsOwnHome host.profile = false) :
    Matches (Peers host true tildes) (Session.step host s st) (Session.step host t st) := by
  have hstart : Peers host true tildes { s with log := [] } { t with log := [] } := by
    obtain ⟨he, hl⟩ := hst
    exact .intro (s := { s with log := [] }) he fun h => ⟨(hl h).1, rfl⟩
  obtain ⟨ha, hst'⟩ := hstart.answer hset
  exact ⟨Prod.ext ha hst'.sameLog.2.symm, hst'⟩

theorem Peers.run (hst : Peers host true tildes s t) {steps : List Step}
    (hset : tildes = false → ∀ st ∈ steps, st.setsOwnHome host.profile = false) :
    Matches (Peers host true tildes) (Session.run host s steps) (Session.run host t steps) := by
  induction steps generalizing s t with
  | nil => exact ⟨rfl, hst⟩
  | cons st steps ih =>
    obtain ⟨ha, hst'⟩ := hst.step fun ht => hset ht st List.mem_cons_self
    obtain ⟨has, hend⟩ := ih hst' fun ht st hm => hset ht st (List.mem_cons_of_mem _ hm)
    exact ⟨List.cons_eq_cons.2 ⟨ha, has⟩, hend⟩

/-! ## Environments without empty variables -/

theorem readAlike_of_get? {env env' : Environment} (hget : ∀ name, env'.get? name = env.value? name)
    (hhome : env.get? "HOME" = some "" → tildes = false ∧ TildeFree host env) : ReadAlike host tildes env env' where
  value name := by
    show (env'.get? name).filter (· ≠ "") = env.value? name
    rw [hget]
    unfold Environment.value?
    rw [Option.filter_filter]
    simp only [Bool.and_self]
  home := by
    by_cases hempty : env.get? "HOME" = some ""
    · exact .inr (hhome hempty)
    · left
      rw [hget]
      unfold Environment.value?
      cases hh : env.get? "HOME" with
      | none => rfl
      | some home =>
        rw [hh] at hempty
        exact Option.filter_eq_some_iff.2 ⟨rfl, decide_eq_true fun he => hempty (congrArg some he)⟩

/-- A session goes the same way in an environment where the empty variables are not set, unless the home
variable is one of them and a variable has a path below the own home. -/
theorem empty_variables_count_as_unset {env env' : Environment} {plan : List Planned} {dir : String}
    {steps : List Step} (hget : ∀ name, env'.get? name = env.value? name)
    (hfree : env.get? "HOME" = some "" → TildeFree host env)
    (hset : env.get? "HOME" = some "" → ∀ st ∈ steps, st.setsOwnHome host.profile = false) :
    let session := Session.run host (.start env plan dir) steps
    let session' := Session.run host (.start env' plan dir) steps
    session'.1 = session.1 ∧ session'.2.tree = session.2.tree := by
  intro session session'
  -- tildes may be used unless the home variable is empty, since no other reader asks for it as it is
  have hread : ReadAlike host (env.get? "HOME" ≠ some "") env env' :=
    readAlike_of_get? hget fun he => ⟨decide_eq_false (not_not_intro he), hfree he⟩
  have hstart : Peers host true (env.get? "HOME" ≠ some "") (.start env plan dir) (.start env' plan dir) :=
    .intro (s := .start env plan dir) hread fun _ => ⟨rfl, rfl⟩
  obtain ⟨hanswers, hend⟩ := hstart.run fun ht => hset (Decidable.of_not_not (of_decide_eq_false ht))
  exact ⟨hanswers.symm, hend.tree⟩

/-- An empty home variable and an empty override are as good as none, until a step sets the home variable. -/
theorem empty_variables_count_as_unset_home :
    let host := { plainHost with accounts := some { own := some "/home/me" } }
    let env : Environment := ⟨[("HOME", ""), ("JANK_HOME", ""), ("JANK_CACHE_DIR", "/cache")]⟩
    let steps := [Step.call .homeDir, .change (.setVar "HOME" "~"), .call .configDir, .call (.cacheDir none)]
    (Session.run host (.start env.withoutEmpty [] "/") steps).2.tree =
      (Session.run host (.start env [] "/") steps).2.tree := by
  intro host env steps
  have hfree : TildeFree host env := by
    refine ⟨?_, fun v hv => ?_, UserDirs.ignoresEmpty_standard⟩
    · decide
    · cases hv
      decide
  have hset : ∀ st ∈ steps, st.setsOwnHome host.profile = false := by decide
  exact (empty_variables_count_as_unset (Environment.get?_withoutEmpty (by decide)) (fun _ => hfree) fun _ => hset).2

/-- Where an empty home variable is dropped, a tilde comes to stand for another home. -/
theorem empty_home_not_unset :
    ¬∀ (host : Host) (env : Environment) (steps : List Step), (env.vars.map (·.1)).Nodup →
      (Session.run host (.start env.withoutEmpty [] "/") steps).2.tree =
        (Session.run host (.start env [] "/") steps).2.tree := by
  intro h
  let host := { plainHost with accounts := some { own := some "/home/u" } }
  let env : Environment := ⟨[("HOME", ""), ("JANK_HOME", "~/x")]⟩
  have htree := h host env [.call .homeDir] (by decide)
  have hempty : (Session.run host (.start env [] "/") [.call .homeDir]).2.tree.get? ["x"] = some (.dir 0o700) := by
    decide +kernel
  have hunset : (Session.run host (.start env.withoutEmpty [] "/") [.call .homeDir]).2.tree.get? ["x"] = none := by
    decide +kernel
  rw [htree, hempty] at hunset
  cases hunset

end Whereabouts
