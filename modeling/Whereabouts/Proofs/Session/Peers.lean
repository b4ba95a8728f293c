import Whereabouts.Proofs.Session.Turns
import Whereabouts.Proofs.Session.Unread

/-!
# Peers

Peers are states of one program in environments that read alike. They answer every call alike and stay
peers (`agree_peers`), and so do command lines. The first part holds for all states that differ in what calls
do not read.
-/

namespace Whereabouts

open FileTree

variable {host : Host} {tildes : Bool} {R : State → State → Prop} {s t : State}

/-! ## Command lines side by side -/

/-- Two outcomes with one answer and related states. -/
structure Matches {α : Type} (R : State → State → Prop) (x y : α × State) : Prop where
  answer : x.1 = y.1
  related : R x.2 y.2

theorem Agree.matches {α : Type} {f g : Action α} {P : α → State → Prop} (h : Agree R f g s t P) :
    Matches R (f.run s) (g.run t) := ⟨h.result, h.related⟩

/-- What agrees after its values were mapped agreed before. -/
theorem Agree.of_map {α β : Type} {k : α → β} {f g : Action α} {P : β → State → Prop}
    (hk : ∀ a b, k a = k b → a = b) (h : Agree R (k <$> f) (k <$> g) s t P) :
    Agree R f g s t fun _ _ => True := by
  obtain ⟨hresult, hrelated, hgrown, -⟩ := h
  rw [Action.run_map] at hresult hrelated hgrown
  rw [Action.run_map] at hresult hrelated
  refine ⟨?_, hrelated, hgrown, fun _ _ => trivial⟩
  cases hf : (f.run s).1 with
  | ok a =>
    cases hg : (g.run t).1 with
    | ok b =>
      rw [hf, hg] at hresult
      rw [hk a b (Except.ok.inj hresult)]
    | error e =>
      rw [hf, hg] at hresult
      cases hresult
  | error e =>
    cases hg : (g.run t).1 with
    | ok b =>
      rw [hf, hg] at hresult
      cases hresult
    | error e' =>
      rw [hf, hg] at hresult
      cases hresult
      rfl

namespace Unread

theorem addSystemFlags (hR : Unread host tildes R) (hst : R s t) (args : List String) :
    Agree R (addSystemFlags host args) (addSystemFlags host args) s t fun _ _ => True :=
  .of_map (fun _ _ => Result.texts.inj) (agree_unread hR (.addSystemFlags args) hst)

theorem makeTempFile (hR : Unread host tildes R) (hst : R s t) (start : String) :
    Agree R (makeTempFile host start) (makeTempFile host start) s t fun _ _ => True :=
  .of_map (fun _ _ => Result.path.inj) (agree_unread hR (.makeTempFile start none) hst)

theorem rows (hR : Unread host tildes R) (labelled : List (String × Call)) (hst : R s t) :
    Agree R (Cli.rows (labelled.map (Cli.shownLookup host))) (Cli.rows (labelled.map (Cli.shownLookup host))) s t
      fun _ _ => True := by
  induction labelled generalizing s t with
  | nil => exact .pure hst trivial
  | cons x labelled ih =>
    obtain ⟨label, c⟩ := x
    rw [List.map_cons, Cli.shownLookup, Cli.rows]
    refine .bind (P := fun _ _ => True) (.tryCatch ?_ fun f s' t' hst' _ => ?_) fun row s' t' hst' _ _ => ?_
    · have hc : Agree R (Result.shown <$> c.action host) (Result.shown <$> c.action host) s t fun _ _ => True :=
        .map (agree_unread hR c hst) fun _ _ h => h
      exact .map hc fun _ _ h => h
    · split
      · exact .pure hst' trivial
      · exact .throw hst'
    · exact .bind (ih hst') fun _ _ _ hst'' _ _ => .pure hst'' trivial

theorem runCommand (hR : Unread host tildes R) (hst : R s t) (o : Cli.CommandOptions) (command : Cli.Command) :
    Agree R (Cli.runCommand host o command) (Cli.runCommand host o command) s t fun _ _ => True := by
  cases command with
  | paths =>
    show Agree R (Cli.runPaths host o.value) (Cli.runPaths host o.value) s t fun _ _ => True
    unfold Cli.runPaths
    rw [Cli.lookups_eq]
    exact .bind (hR.rows _ hst) fun _ _ _ hst' _ _ => .pure hst' trivial
  | flags => exact .bind (hR.addSystemFlags hst _) fun _ _ _ hst' _ _ => .pure hst' trivial
  | mktemp =>
    refine .tryCatch (.bind (hR.makeTempFile hst _) fun _ _ _ hst' _ _ => .pure hst' trivial) fun f s' t' hst' _ => ?_
    split
    · exact .pure hst' trivial
    · exact .pure hst' trivial
    · exact .throw hst'

theorem carryOut (hR : Unread host tildes R) (hst : R s t) (command : Cli.Command) (rest : List String) :
    Matches R ((Cli.carryOut host command rest).run s) ((Cli.carryOut host command rest).run t) := by
  unfold Cli.carryOut
  split
  · exact ⟨rfl, hst⟩
  · next o _ =>
    obtain ⟨hresult, hrelated, -, -⟩ := hR.runCommand hst o command
    rw [Cli.run_endingOf, Cli.run_endingOf, ← hresult]
    cases ((Cli.runCommand host o command).run s).1 with
    | ok e => exact ⟨rfl, hrelated⟩
    | error f => exact ⟨rfl, hrelated⟩

/-- A command line sets logging up before it makes its calls. -/
theorem commandLine (hR : Unread host tildes R) (hst : R s t)
    (hset : ∀ verbose, R (s.setUpLogging verbose) (t.setUpLogging verbose)) (args : List String) :
    Matches R ((Cli.run host args).run s) ((Cli.run host args).run t) := by
  unfold Cli.run
  cases Cli.readLine args with
  | error stop => exact ⟨rfl, hst⟩
  | ok line =>
    obtain ⟨command, verbose, rest⟩ := line
    exact hR.carryOut (hset verbose) command rest

theorem repeated (hR : Unread host tildes R) (hst : R s t) (c : Call) (n : Nat) :
    Matches R ((Session.repeated host c n).run s) ((Session.repeated host c n).run t) := by
  induction n generalizing s t with
  | zero => exact ⟨rfl, hst⟩
  | succ n ih =>
    obtain ⟨hresult, hrelated, -, -⟩ := agree_unread hR c hst
    obtain ⟨hresults, hrelated'⟩ := ih hrelated
    refine ⟨?_, hrelated'⟩
    show ((c.action host).run s).1 :: _ = ((c.action host).run t).1 :: _
    rw [hresult]
    exact congrArg _ hresults

end Unread

/-! ## Peers -/

/-- The second state differs from the first in an environment that reads alike, and in its log unless
logs count. -/
inductive Peers (host : Host) (logs tildes : Bool) (s : State) : State → Prop where
  | intro {env : Environment} {verbose : Bool} {log : List String} (he : ReadAlike host tildes s.env env)
      (hl : logs = true → verbose = s.verbose ∧ log = s.log) :
      Peers host logs tildes s { s with env := env, verbose := verbose, log := log }

section
variable {logs : Bool}

theorem Peers.refl (s : State) : Peers host logs tildes s s := .intro ⟨fun _ => rfl, .inl rfl⟩ fun _ => ⟨rfl, rfl⟩

theorem Peers.env (h : Peers host logs tildes s t) : ReadAlike host tildes s.env t.env := by
  obtain ⟨he, -⟩ := h
  exact he

theorem Peers.tree (h : Peers host logs tildes s t) : t.tree = s.tree := by
  obtain ⟨-, -⟩ := h
  rfl

theorem Peers.here (h : Peers host logs tildes s t) : t.here = s.here := by
  obtain ⟨-, -⟩ := h
  rfl

theorem Peers.sameLog (h : Peers host true tildes s t) : t.verbose = s.verbose ∧ t.log = s.log := by
  obtain ⟨-, hl⟩ := h
  exact hl rfl

theorem Peers.changed (h : Peers host logs tildes s t) {c : State → State} (hc : Aside c) :
    Peers host logs tildes (c s) (c t) := by
  obtain ⟨henv, hlogger, hlog⟩ := hc.same s
  have hverbose : (c s).verbose = s.verbose := congrArg Logger.verbose hlogger
  cases h with
  | @intro env verbose log he hl =>
    have ht : c { s with env := env, verbose := verbose, log := log } =
        { c s with env := env, verbose := verbose, log := log } := by
      rw [hc s env { s.toLogger with verbose := verbose } log, ← hlogger]
    rw [ht]
    exact .intro (henv ▸ he) fun h => ⟨(hl h).1.trans hverbose.symm, (hl h).2.trans hlog.symm⟩

theorem Peers.setUpLogging (h : Peers host logs tildes s t) (verbose : Bool) :
    Peers host logs tildes (s.setUpLogging verbose) (t.setUpLogging verbose) := by
  obtain ⟨he, hl⟩ := h
  exact .intro (s := s.setUpLogging verbose) he fun h => ⟨congrArg (s.isSetUp && · || verbose) (hl h).1, (hl h).2⟩

theorem Peers.logged (h : Peers host true tildes s t) (level : Level) (name template : String) (args : List Argument) :
    Peers host true tildes (Session.logged level name template args s) (Session.logged level name template args t) := by
  obtain ⟨he, hl⟩ := h
  obtain ⟨rfl, rfl⟩ := hl rfl
  unfold Session.logged
  split
  · split
    · exact .intro he fun _ => ⟨rfl, rfl⟩
    · exact .intro he fun _ => ⟨rfl, rfl⟩
  · exact .intro he fun _ => ⟨rfl, rfl⟩

/-- No call reads what peers differ in. -/
theorem unread_peers (host : Host) (logs tildes : Bool) : Unread host tildes (Peers host logs tildes) where
  env h := h.env
  tree h := h.tree
  here h := h.here
  kept h := by obtain ⟨-, -⟩ := h; rfl
  tempDir h := by obtain ⟨-, -⟩ := h; rfl
  tempTried h := by obtain ⟨-, -⟩ := h; rfl
  changed h hc _ _ _ := h.changed hc
  found h dir _ := h.changed (c := ({ · with tempDir := some dir })) fun _ _ _ _ => rfl
  stored {_ slot} _ _ _ _ _ _ _ h a _ := h.changed (aside_store slot a)
  warned {s t} h text := by
    obtain ⟨he, hl⟩ := h
    refine .intro (s := { s with log := s.log ++ s.written text }) he fun h => ?_
    obtain ⟨rfl, rfl⟩ := hl h
    exact ⟨rfl, rfl⟩
  debugged {s t} h text := by
    obtain ⟨he, hl⟩ := h
    refine .intro (s := { s with log := if s.verbose then s.log ++ s.written text else s.log }) he fun h => ?_
    obtain ⟨rfl, rfl⟩ := hl h
    exact ⟨rfl, rfl⟩

theorem Peers.withTree (h : Peers host logs tildes s t) (tree : FileTree) :
    Peers host logs tildes { s with tree := tree } { t with tree := tree } :=
  (unread_peers host logs tildes).withTree h tree

end

/-! ## Calls -/

/-- Peers answer every call alike and stay peers. -/
theorem agree_peers {logs : Bool} (c : Call) (hst : Peers host logs tildes s t) :
    Agree (Peers host logs tildes) (c.action host) (c.action host) s t fun _ _ => True :=
  agree_unread (unread_peers host logs tildes) c hst

/-- No call changes the environment or the working directory, and the tree only grows. -/
theorem extends_call (c : Call) (s : State) : Extends s ((c.action host).run s).2 := by
  have hself : Peers host true true s s := .refl s
  exact (agree_peers c hself).grown

theorem Carries.grows {turns : List (Call × State)} {s' : State} (h : Carries host s turns s') :
    Grows s.tree s'.tree := by
  induction h with
  | nil hi =>
    rw [hi.tree]
    exact .refl _
  | cons hi _ ih =>
    rw [← hi.tree]
    exact (extends_call _ _).tree.trans ih

end Whereabouts
