import Whereabouts.Proofs.Session.Making
import Whereabouts.Proofs.Session.Peers
import Whereabouts.Proofs.Session.Validity
import Whereabouts.Proofs.Session.WorkingDirectory

/-!
# Temporary files of a session

No two calls of a session return the same temporary file. Nothing has the name of a new file when the
call for it is made, and what has a name keeps it (`Carries.fresh`). What a session reports are the files
that its calls return (`temp_files_are_fresh`).
-/

namespace Whereabouts

open FileTree

variable {host : Host} {s s' : State} {turns : List (Call × State)}

/-- The text of the path that a call for a temporary file returned. -/
def reportedFile : Call → Except Failure Result → Option String
  | .makeTempFile .., .ok (.path p) => some p.toString
  | _, _ => none

def fileOf (host : Host) (turn : Call × State) : Option String :=
  reportedFile turn.1 ((turn.1.action host).run turn.2).1

/-! ## One file -/

/-- The file is not there before the call and empty after it, wherever one looks from. -/
structure IsNew (host : Host) (turn : Call × State) (file : String) : Prop where
  absolute : (Route.ofString file).absolute = true
  before : turn.2.tree.lstat turn.2.here (.ofString file) = .error .noEntry
  after : ∃ loc, ((turn.1.action host).run turn.2).2.tree.lstat turn.2.here (.ofString file) =
    .ok (loc, .file 0o600 "")

theorem isNew_of_fileOf (hn : host.NamesWithoutSlash) {turn : Call × State} (hp : turn.2.IsPlaced) {file : String}
    (h : fileOf host turn = some file) : IsNew host turn file := by
  obtain ⟨c, s⟩ := turn
  cases c with
  | makeTempFile start close =>
    have hends : FileEnds host start close s ((makeTempFile host start close).run s) := ends_makeTempFile start close s
    have hrun : ((Call.makeTempFile start close).action host).run s =
        (((makeTempFile host start close).run s).1.map Result.path, ((makeTempFile host start close).run s).2) :=
      Action.run_map _ _
    unfold fileOf at h
    rw [hrun] at h
    generalize (makeTempFile host start close).run s = x at hends h hrun
    cases hends with
    | failed => cases h
    | made hclose hstart hq hm hr =>
      obtain ⟨p, rfl, hnormal, hmade⟩ := tempFileName_path hn (isNormal_fromHere hp hq) hstart hm
      rw [hr, fromHere_text hnormal] at h
      cases h
      refine ⟨?_, lstat_before_makeFile hmade, ?_⟩
      · rw [route_text hnormal]
        exact absolute_route (Path.isNormal_iff.1 hnormal).1
      · obtain ⟨loc, hl⟩ := lstat_makeFile hmade
        refine ⟨loc, ?_⟩
        dsimp only
        rw [hrun]
        exact hl
  | _ => cases h

/-! ## Files along the way -/

namespace Carries

theorem placed (h : Carries host s turns s') (hp : s.IsPlaced) : ∀ turn ∈ turns, turn.2.IsPlaced := by
  induction h with
  | nil => intro turn hm; cases hm
  | @cons s₀ s s' c turns hi hrest ih =>
    have hs : s.IsPlaced := hi.placed hp
    intro turn hm
    rcases List.mem_cons.1 hm with rfl | hm
    · exact hs
    · refine ih ?_ turn hm
      unfold State.IsPlaced
      rw [(extends_call c s).here]
      exact hs

/-- The trees that calls find and leave lie between the first tree and the last. -/
theorem between (h : Carries host s turns s') : ∀ turn ∈ turns,
    Grows s.tree turn.2.tree ∧ Grows ((turn.1.action host).run turn.2).2.tree s'.tree := by
  induction h with
  | nil => intro turn hm; cases hm
  | @cons s₀ s s' c turns hi hrest ih =>
    intro turn hm
    rw [← hi.tree]
    rcases List.mem_cons.1 hm with rfl | hm
    · exact ⟨.refl _, hrest.grows⟩
    · obtain ⟨hbefore, hafter⟩ := ih turn hm
      exact ⟨(extends_call c s).tree.trans hbefore, hafter⟩

/-- A file is there when later calls are made, so that none of them finds its name free. -/
theorem fresh (hn : host.NamesWithoutSlash) (h : Carries host s turns s') (hp : s.IsPlaced) :
    (turns.filterMap (fileOf host)).Nodup := by
  induction h with
  | nil => exact List.nodup_nil
  | @cons s₀ s s' c turns hi hrest ih =>
    have hs : s.IsPlaced := hi.placed hp
    have hs' : ((c.action host).run s).2.IsPlaced := by
      unfold State.IsPlaced
      rw [(extends_call c s).here]
      exact hs
    have hlater := ih hs'
    rw [List.filterMap_cons]
    cases hf : fileOf host (c, s) with
    | none => exact hlater
    | some file =>
      refine List.nodup_cons.2 ⟨fun hm => ?_, hlater⟩
      obtain ⟨turn, hturn, hfile⟩ := List.mem_filterMap.1 hm
      obtain ⟨habs, -, loc, hl⟩ := isNew_of_fileOf hn hs hf
      have hfree := (isNew_of_fileOf hn (hrest.placed hs' turn hturn) hfile).before
      have hthere := (hrest.between turn hturn).1.lstat hl
      rw [lstat_of_absolute habs s.here turn.2.here, hfree] at hthere
      cases hthere

end Carries

/-! ## What a session reports -/

namespace Cli

/-- The file whose path a command line printed. -/
def reportedFiles (command : Option Command) : Ending → List String
  | .exited 0 output [] => if command = some .mktemp then output.messages else []
  | _ => []

theorem reportedFiles_of_ne {command : Option Command} (h : command ≠ some .mktemp) (e : Ending) :
    reportedFiles command e = [] := by
  unfold reportedFiles
  split
  · rw [if_neg h]
  · rfl

theorem reportedFiles_stop (command : Option Command) (stop : Stop) : reportedFiles command stop.ending = [] := by
  cases stop <;> rfl

end Cli

/-- The files that the answer to a step reports. -/
def reportedFiles : Step → Answer → List String
  | .call c, .result r => (reportedFile c r).toList
  | .threads c _, .results rs => rs.filterMap (reportedFile c)
  | .commandLine args, .ending e => Cli.reportedFiles (Cli.commandOf args) e
  | _, _ => []

theorem files_of_others {cs : List Call} (h : ∀ c ∈ cs, ∀ r, reportedFile c r = none) :
    (Session.shownTurns host s cs).filterMap (fileOf host) = [] := by
  refine List.filterMap_eq_nil_iff.2 fun turn hm => ?_
  exact h _ (Session.mem_of_mem_turns (Session.mem_turns_of_shown hm)) _

theorem reportedFiles_repeated (c : Call) (n : Nat) (s : State) :
    ((Session.repeated host c n).run s).1.filterMap (reportedFile c) =
      (Session.turns host s (List.replicate n c)).filterMap (fileOf host) := by
  induction n generalizing s with
  | zero => rfl
  | succ n ih =>
    have hrun : ((Session.repeated host c (n + 1)).run s).1 =
        ((c.action host).run s).1 :: ((Session.repeated host c n).run ((c.action host).run s).2).1 := rfl
    rw [hrun, List.replicate_succ, Session.turns, List.filterMap_cons, List.filterMap_cons, ih]
    rfl

theorem Cli.reportedFiles_carryOut (command : Cli.Command) (rest : List String) (s : State) :
    Cli.reportedFiles (some command) ((Cli.carryOut host command rest).run s).1 =
      (Session.shownTurns host s (match Cli.readOptions command rest with
        | .error _ => []
        | .ok o => Cli.commandCalls o command)).filterMap (fileOf host) := by
  unfold Cli.carryOut
  cases Cli.readOptions command rest with
  | error stop => exact Cli.reportedFiles_stop _ stop
  | ok o =>
    dsimp only
    cases command with
    | paths =>
      rw [Cli.reportedFiles_of_ne (by decide), files_of_others]
      simp [Cli.commandCalls, Cli.tableCalls, reportedFile]
    | flags =>
      rw [Cli.reportedFiles_of_ne (by decide), files_of_others]
      simp [Cli.commandCalls, reportedFile]
    | mktemp =>
      have hcall : ∀ start, ((Call.makeTempFile start none).action host).run s =
          (((makeTempFile host start).run s).1.map Result.path, ((makeTempFile host start).run s).2) := fun start =>
        Action.run_map _ _
      show Cli.reportedFiles _ ((Cli.endingOf (Cli.runMktemp host _)).run s).1 =
        (Session.shownTurns host s [_]).filterMap (fileOf host)
      rw [Cli.run_endingOf, Cli.shownTurns_single, List.filterMap_cons, List.filterMap_nil]
      unfold Cli.runMktemp fileOf
      dsimp only
      rw [Action.run_tryCatch, Action.run_bind_pure, hcall]
      generalize (makeTempFile host _).run s = x
      obtain ⟨r, s'⟩ := x
      cases r with
      | ok p => rfl
      | error f =>
        dsimp only [Except.map]
        cases f.category with
        | trouble kind => cases kind <;> rfl
        | _ => rfl

theorem reportedFiles_answer (st : Step) (s : State) :
    reportedFiles st ((Session.answer host st).run s).1 = (st.made host s).filterMap (fileOf host) := by
  cases st with
  | call c =>
    show (reportedFile c ((c.action host).run s).1).toList = [(c, s)].filterMap (fileOf host)
    rw [List.filterMap_cons, List.filterMap_nil]
    unfold fileOf
    dsimp only
    cases reportedFile c ((c.action host).run s).1 <;> rfl
  | threads c n => exact reportedFiles_repeated c n s
  | commandLine args =>
    show Cli.reportedFiles (Cli.commandOf args) ((Cli.run host args).run s).1 =
      (Session.shownTurns host (Cli.entered args s) (Cli.calls args)).filterMap (fileOf host)
    unfold Cli.commandOf Cli.entered Cli.calls Cli.run
    cases Cli.readLine args with
    | error stop => exact Cli.reportedFiles_stop _ stop
    | ok line =>
      obtain ⟨command, verbose, rest⟩ := line
      exact Cli.reportedFiles_carryOut command rest (s.setUpLogging verbose)
  | _ => rfl

theorem reportedFiles_run (steps : List Step) (s : State) :
    (steps.zip (Session.run host s steps).1).flatMap (fun x => reportedFiles x.1 x.2.1) =
      (Session.made host s steps).filterMap (fileOf host) := by
  induction steps generalizing s with
  | nil => rfl
  | cons st steps ih =>
    have hrun : (Session.run host s (st :: steps)).1 =
        (Session.step host s st).1 :: (Session.run host (Session.step host s st).2 steps).1 := rfl
    rw [hrun, List.zip_cons_cons, List.flatMap_cons, ih, Session.made, List.filterMap_append]
    congr 1
    exact reportedFiles_answer st { s with log := [] }

/-- The paths of temporary files that a session returns and prints are those of its calls. They are all
different, none of them named anything just before its call, and all of them name empty files in the end. -/
theorem temp_files_are_fresh {host : Host} {env : Environment} {plan : List Planned} {dir : String}
    {steps : List Step} (hnames : host.NamesWithoutSlash) (hsteps : ∀ st ∈ steps, st.touchesTree = false) :
    let start := State.start env plan dir
    let ended := Session.run host start steps
    let made := Session.made host start steps
    let files := (steps.zip ended.1).flatMap fun x => reportedFiles x.1 x.2.1
    files = made.filterMap (fileOf host) ∧ files.Nodup ∧
      (∀ turn ∈ made, ∀ file, fileOf host turn = some file →
        turn.2.tree.lstat turn.2.here (.ofString file) = .error .noEntry) ∧
      ∀ file ∈ files, ∃ loc, ended.2.tree.lstat ended.2.here (.ofString file) = .ok (loc, .file 0o600 "") := by
  intro start ended made files
  have hplaced : start.IsPlaced := placed_start env plan dir
  have hcarried : Carries host start made ended.2 := carries_run hsteps start
  have hfiles : files = made.filterMap (fileOf host) := reportedFiles_run steps start
  have hnew : ∀ turn ∈ made, ∀ file, fileOf host turn = some file → IsNew host turn file := fun turn hm _ hf =>
    isNew_of_fileOf hnames (hcarried.placed hplaced turn hm) hf
  refine ⟨hfiles, ?_, fun turn hm file hf => (hnew turn hm file hf).before, fun file hm => ?_⟩
  · rw [hfiles]
    exact hcarried.fresh hnames hplaced
  · rw [hfiles] at hm
    obtain ⟨turn, hturn, hf⟩ := List.mem_filterMap.1 hm
    obtain ⟨habs, -, loc, hl⟩ := hnew turn hturn file hf
    refine ⟨loc, ?_⟩
    rw [lstat_of_absolute habs _ turn.2.here]
    exact (hcarried.between turn hturn).2.lstat hl

/-- A machine that draws two names again and again, and tries three for a file. -/
def fewNames : Host := { plainHost with tempNames := ["b", "ab"], tempAttempts := 3 }

def collidingSteps : List Step :=
  [.call (.makeTempFile "a" none), .call (.makeTempFile "a" (some ⟨5, none⟩)), .threads (.makeTempFile "" none) 2,
    .commandLine ["mktemp"]]

/-- The names run into each other behind different starts. A close fails, and so does one of the threads. -/
theorem temp_files_are_fresh_colliding :
    let ended := Session.run fewNames (.start {} [.dir "/tmp" 0o700] "/") collidingSteps
    let files := (collidingSteps.zip ended.1).flatMap fun x => reportedFiles x.1 x.2.1
    files = ["/tmp/ab", "/tmp/b", "/tmp/jank_b"] ∧ files.Nodup ∧
      ∀ file ∈ files, ∃ loc, ended.2.tree.lstat ended.2.here (.ofString file) = .ok (loc, .file 0o600 "") := by
  have hnames : fewNames.NamesWithoutSlash := by
    intro part hp
    have hpart : part = "b" ∨ part = "ab" := by simpa [fewNames] using hp
    rcases hpart with rfl | rfl <;> decide
  have hsteps : ∀ st ∈ collidingSteps, st.touchesTree = false := by simp [collidingSteps, Step.touchesTree]
  have hfresh := @temp_files_are_fresh fewNames {} [.dir "/tmp" 0o700] "/" collidingSteps hnames hsteps
  refine ⟨?_, hfresh.2.1, hfresh.2.2.2⟩
  decide +kernel

end Whereabouts
