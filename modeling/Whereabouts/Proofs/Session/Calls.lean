import Whereabouts.Proofs.Session.TempFiles
import Whereabouts.Session.Step

/-!
# Steps side by side

Twins answer a step alike and stay twins, unless the step changes the world or counts what happened
there. `Served` is what a result says about the tree.
-/

namespace Whereabouts

open FileTree

/-- What a path that a call returns stands for. -/
def Served (host : Host) : Call → Path → State → Prop
  | .homeDir | .configDir | .cacheDir _ | .binaryCacheDir _ | .ensureDir _ =>
    fun p s => s.tree.Usable s.here p.route
  | .resourceDir => ResourceAt
  | .processPath => ProgramAt host
  | .processDir => ProgramDirAt host
  | .makeTempFile .. => TempFileAt host
  | _ => fun _ _ => True

variable {host : Host} {counts : Bool} {s s' t : State}

theorem Extends.served (h : Extends s s') {c : Call} {p : Path} (hp : Served host c p s) :
    Served host c p s' := by
  cases c with
  | homeDir | configDir | cacheDir | binaryCacheDir | ensureDir => exact h.usable hp
  | resourceDir => exact h.resourceAt hp
  | processPath => exact h.programAt hp
  | processDir => exact h.programDirAt hp
  | makeTempFile => exact h.tempFileAt hp
  | _ => trivial

/-! ## Calls -/

theorem agree_path {c : Call} {f : Action Path} {Q : Path → State → Prop}
    (hf : Agree (Twins host counts) f f s t Q) (hq : ∀ p s', Q p s' → Served host c p s') :
    Agree (Twins host counts) (Result.path <$> f) (Result.path <$> f) s t
      fun r s' => ∀ p, r = .path p → Served host c p s' := by
  refine .map hf fun p s' hp q he => ?_
  cases he
  exact hq p s' hp

theorem agree_value {α : Type} {c : Call} {f : Action α} {Q : α → State → Prop} {value : α → Result}
    (hf : Agree (Twins host counts) f f s t Q) (hv : ∀ a p, value a ≠ .path p) :
    Agree (Twins host counts) (value <$> f) (value <$> f) s t
      fun r s' => ∀ p, r = .path p → Served host c p s' :=
  .map hf fun a _ _ p he => absurd he (hv a p)

theorem agree_call (hst : Twins host counts s t) (c : Call) (hc : counts = true ∨ c ≠ .resourceDir) :
    Agree (Twins host counts) (c.action host) (c.action host) s t
      fun r s' => ∀ p, r = .path p → Served host c p s' := by
  cases c with
  | homeDir => exact agree_path (agree_homeDir hst) fun _ _ h => h.2
  | configDir => exact agree_path (agree_configDir hst) fun _ _ h => h.2
  | cacheRoot => exact agree_path (agree_cacheRoot hst) fun _ _ _ => trivial
  | cacheDir version => exact agree_path (agree_cacheDir hst version) fun _ _ h => h.usable
  | binaryCacheDir version => exact agree_path (agree_binaryCacheDir hst version) fun _ _ h => h.usable
  | resourceDir =>
    obtain rfl : counts = true := hc.resolve_right fun h => h rfl
    exact agree_path (agree_resourceDir hst) fun _ _ h => h
  | processPath => exact agree_path (agree_processPath hst) fun _ _ h => h
  | processDir => exact agree_path (agree_processDir hst) fun _ _ h => h
  | buildVersion => exact agree_value (agree_buildVersion hst) fun _ _ he => by cases he
  | targetTriple => exact .pure hst fun _ he => by cases he
  | versionSegment version => exact agree_value (agree_versionSegment hst version) fun _ _ he => by cases he
  | sdkPath => exact agree_value (agree_sdkPath hst) fun _ _ he => by cases he
  | addSystemFlags args => exact agree_value (agree_addSystemFlags hst args) fun _ _ he => by cases he
  | makeTempFile start close => exact agree_path (agree_makeTempFile hst start close) fun _ _ h => h
  | ensureDir path => exact agree_path (agree_ensureDir hst path) fun _ _ h => h.1 ▸ h.2
  | envVar name =>
    refine .get ?_
    rw [hst.env]
    exact .pure hst fun _ he => by cases he
  | profile => exact .pure hst fun _ he => by cases he
  | homeFromEnv profile =>
    refine .get ?_
    rw [hst.env]
    exact .pure hst fun _ he => by cases he
  | homeFromAccounts => exact .pure hst fun _ he => by cases he
  | executablePath profile =>
    refine .get ?_
    rw [hst.tree, hst.here]
    split
    · exact .pure hst fun _ he => by cases he
    · exact .throw hst

/-! ## The command line -/

namespace Cli

def shownCall (version : Option String) : String → Option Call
  | "home" => some .homeDir
  | "config" => some .configDir
  | "cache" => some (.cacheDir version)
  | "binary cache" => some (.binaryCacheDir version)
  | "process path" => some .processPath
  | "process dir" => some .processDir
  | "resources" => some .resourceDir
  | _ => none

/-- The row shows a path that is as `V` says of its call, unless it shows an error. -/
def RowShows (V : Call → Path → Prop) (version : Option String) (row : String × Markup) : Prop :=
  ∀ text, row.2 = .escaped text → ∀ c, shownCall version row.1 = some c → ∃ p, text = p.toString ∧ V c p

/-- The paths in a command's table or output are as `V` says of their calls. -/
structure EndingShows (V : Call → Path → Prop) (command : Option Command) (e : Ending) : Prop where
  table : ∀ code output console title columns rows, e = .exited code output console →
    .table title columns rows ∈ console → ∃ version, ∀ row ∈ rows, RowShows V version row
  file : ∀ output, command = some .mktemp → e = .exited 0 output [] →
    ∃ start p, output = ⟨[p.toString]⟩ ∧ V (.makeTempFile start none) p

theorem RowShows.imp {V W : Call → Path → Prop} {version : Option String} {row : String × Markup}
    (h : RowShows V version row) (hvw : ∀ c p, V c p → W c p) : RowShows W version row := by
  intro text he c hc
  obtain ⟨p, hp, hv⟩ := h text he c hc
  exact ⟨p, hp, hvw c p hv⟩

theorem EndingShows.imp {V W : Call → Path → Prop} {command : Option Command} {e : Ending}
    (h : EndingShows V command e) (hvw : ∀ c p, V c p → W c p) : EndingShows W command e where
  table code output console title columns rows he ht := by
    obtain ⟨version, hrows⟩ := h.table code output console title columns rows he ht
    exact ⟨version, fun row hrow => (hrows row hrow).imp hvw⟩
  file output hc he := by
    obtain ⟨start, p, hp, hv⟩ := h.file output hc he
    exact ⟨start, p, hp, hvw _ p hv⟩

theorem endingShows_of_plain {V : Call → Path → Prop} {command : Option Command} {e : Ending}
    (ht : ∀ code output console title columns rows, e = .exited code output console →
      .table title columns rows ∉ console)
    (hf : ∀ output, command = some .mktemp → e ≠ .exited 0 output []) : EndingShows V command e where
  table code output console title columns rows he hm := absurd hm (ht code output console title columns rows he)
  file output hc he := absurd he (hf output hc)

/-- What a command shows was returned by calls. -/
def EndingServed (host : Host) (command : Option Command) (e : Ending) (s : State) : Prop :=
  EndingShows (Served host · · s) command e

theorem agree_rows {version : Option String} {ls : List (String × Action String)}
    (hl : ∀ l ∈ ls, ∀ {s t}, Twins host counts s t →
      Agree (Twins host counts) l.2 l.2 s t fun v s' => RowShows (Served host · · s') version (l.1, .escaped v))
    (hst : Twins host counts s t) :
    Agree (Twins host counts) (rows ls) (rows ls) s t
      fun rs s' => ∀ r ∈ rs, RowShows (Served host · · s') version (r.label, r.value) := by
  induction ls generalizing s t with
  | nil => exact .pure hst fun r hr => by cases hr
  | cons l ls ih =>
    obtain ⟨label, lookup⟩ := l
    unfold rows
    refine .bind (P := fun r s' => RowShows (Served host · · s') version (r.label, r.value))
      (.tryCatch ?_ fun f s' t' hst' _ => ?_) fun row s' t' hst' _ hrow => ?_
    · exact .map (hl _ List.mem_cons_self hst) fun _ _ h => h
    · split
      · exact .pure hst' fun text he => by cases he
      · exact .throw hst'
    · refine .bind (ih (fun l hm => hl l (List.mem_cons_of_mem _ hm)) hst') fun rs s'' t'' hst'' he hrs => ?_
      refine .pure hst'' fun r hr => ?_
      rcases List.mem_cons.1 hr with rfl | hr
      · exact hrow.imp fun _ _ h => he.served h
      · exact hrs r hr

theorem agree_shown {version : Option String} {label : String} {c : Call} {f : Action Path}
    {Q : Path → State → Prop} (hc : shownCall version label = some c)
    (hf : Agree (Twins host counts) f f s t Q) (hq : ∀ p s', Q p s' → Served host c p s') :
    Agree (Twins host counts) (Path.toString <$> f) (Path.toString <$> f) s t
      fun v s' => RowShows (Served host · · s') version (label, .escaped v) := by
  refine .map hf fun p s' hp text ht c' hc' => ?_
  obtain rfl : c = c' := Option.some.inj (hc.symm.trans hc')
  exact ⟨p, (Markup.escaped.inj ht).symm, hq p s' hp⟩

theorem agree_lookups (version : Option String) :
    ∀ l ∈ lookups host version, ∀ {s t}, Twins host true s t →
      Agree (Twins host true) l.2 l.2 s t fun v s' => RowShows (Served host · · s') version (l.1, .escaped v) := by
  intro l hl s t hst
  simp only [lookups, List.mem_cons, List.not_mem_nil, or_false] at hl
  rcases hl with rfl | rfl | rfl | rfl | rfl | rfl | rfl | rfl
  · refine (agree_buildVersion hst).mono fun v s' _ _ _ _ c hc => ?_
    cases hc
  · exact agree_shown rfl (agree_homeDir hst) fun _ _ h => h.2
  · exact agree_shown rfl (agree_configDir hst) fun _ _ h => h.2
  · exact agree_shown rfl (agree_cacheDir hst version) fun _ _ h => h.usable
  · exact agree_shown rfl (agree_binaryCacheDir hst version) fun _ _ h => h.usable
  · exact agree_shown rfl (agree_processPath hst) fun _ _ h => h
  · exact agree_shown rfl (agree_processDir hst) fun _ _ h => h
  · exact agree_shown rfl (agree_resourceDir hst) fun _ _ h => h

theorem agree_runPaths (hst : Twins host true s t) (version : Option String) :
    Agree (Twins host true) (runPaths host version) (runPaths host version) s t
      (EndingServed host (some .paths)) := by
  unfold runPaths
  refine .bind (agree_rows (agree_lookups version) hst) fun rs s' t' hst' _ hrs => .pure hst' ⟨?_, ?_⟩
  · intro code output console title columns rows he ht
    cases he
    cases List.mem_singleton.1 ht
    refine ⟨version, fun row hrow => ?_⟩
    obtain ⟨r, hr, rfl⟩ := List.mem_map.1 hrow
    exact hrs r hr
  · intro output hc
    cases hc

theorem agree_runFlags (hst : Twins host counts s t) (args : List String) :
    Agree (Twins host counts) (runFlags host args) (runFlags host args) s t
      (EndingServed host (some .flags)) := by
  unfold runFlags
  refine .bind (agree_addSystemFlags hst args) fun ls s' t' hst' _ _ => .pure hst' ?_
  refine endingShows_of_plain (fun code output console title columns rows he ht => ?_) fun _ hc => ?_
  · cases he
    cases ht
  · cases hc

theorem agree_runMktemp (hst : Twins host counts s t) (start : String) :
    Agree (Twins host counts) (runMktemp host start) (runMktemp host start) s t
      (EndingServed host (some .mktemp)) := by
  unfold runMktemp
  refine .tryCatch (.bind (agree_makeTempFile hst start none) fun p s' t' hst' _ hp => .pure hst' ⟨?_, ?_⟩)
    fun f s' t' hst' _ => ?_
  · intro code output console title columns rows he ht
    cases he
    cases ht
  · intro output _ he
    cases he
    exact ⟨start, p, rfl, hp⟩
  · have hshown : EndingServed host (some .mktemp) (.exited 1 {} [.line (.error f.message)]) s' := by
      refine endingShows_of_plain (fun code output console title columns rows he ht => ?_) fun _ _ he => ?_
      · cases he
        cases List.mem_singleton.1 ht
      · cases he
    split
    · exact .pure hst' hshown
    · exact .pure hst' hshown
    · exact .throw hst'

theorem agree_runCommand (hst : Twins host counts s t) (o : CommandOptions) (command : Command)
    (hc : counts = true ∨ command ≠ .paths) :
    Agree (Twins host counts) (runCommand host o command) (runCommand host o command) s t
      (EndingServed host (some command)) := by
  cases command with
  | paths =>
    obtain rfl : counts = true := hc.resolve_right fun h => h rfl
    exact agree_runPaths hst o.value
  | flags => exact agree_runFlags hst o.arguments
  | mktemp => exact agree_runMktemp hst _

def commandOf (args : List String) : Option Command :=
  match readLine args with
  | .ok (command, _) => some command
  | .error _ => none

end Cli

/-! ## Answers -/

deriving instance DecidableEq for Answer

/-- Two outcomes of a step that twins can have. -/
structure Alike {α : Type} (host : Host) (counts : Bool) (s : State) (x y : α × State)
    (Q : α → State → Prop) : Prop where
  answer : x.1 = y.1
  twins : Twins host counts x.2 y.2
  grown : Extends s x.2
  holds : Q x.1 x.2

theorem Cli.run_endingOf (f : Action Cli.Ending) (s : State) :
    (Cli.endingOf f).run s =
      (match (f.run s).1 with
        | .ok e => pure e
        | .error x => pure (.failed x {} []) : StateM State Cli.Ending).run (f.run s).2 :=
  rfl

theorem alike_endingOf {command : Option Cli.Command} {f : Action Cli.Ending}
    (h : Agree (Twins host counts) f f s t (Cli.EndingServed host command)) :
    Alike host counts s ((Cli.endingOf f).run s) ((Cli.endingOf f).run t) (Cli.EndingServed host command) := by
  obtain ⟨he, hst, hg, hp⟩ := h
  rw [Cli.run_endingOf, Cli.run_endingOf, ← he]
  cases hr : (f.run s).1 with
  | ok e => exact ⟨rfl, hst, hg, hp e hr⟩
  | error x =>
    refine ⟨rfl, hst, hg, Cli.endingShows_of_plain (fun code output console title columns rows he _ => ?_)
      fun _ _ he => ?_⟩
    · cases he
    · cases he

theorem Extends.setUpLogging (s : State) (verbose : Bool) : Extends s (s.setUpLogging verbose) := ⟨rfl, rfl, .refl _⟩

theorem Twins.setUpLogging (hst : Twins host counts s t) (verbose : Bool) :
    Twins host counts (s.setUpLogging verbose) (t.setUpLogging verbose) :=
  hst.move (.setUpLogging s verbose) (.setUpLogging t verbose) rfl rfl
    (congrArg (fun b : State => b.setUpLogging verbose) hst.bare)

theorem alike_stop (hst : Twins host counts s t) (stop : Cli.Stop) (command : Option Cli.Command) :
    Alike host counts s (stop.ending, s) (stop.ending, t) (Cli.EndingServed host command) := by
  refine ⟨rfl, hst, .refl s, Cli.endingShows_of_plain (fun code output console title columns rows he ht => ?_)
    fun output _ he => ?_⟩
  · cases stop with
    | version =>
      cases he
      cases List.mem_singleton.1 ht
    | _ => cases he
  · cases stop <;> cases he

def Cli.carryOut (host : Host) (command : Cli.Command) (rest : List String) : StateM State Cli.Ending :=
  match Cli.readOptions command rest with
  | .error stop => pure stop.ending
  | .ok o => Cli.endingOf (Cli.runCommand host o command)

theorem alike_carryOut (hst : Twins host counts s t) {command : Cli.Command} (rest : List String)
    (hc : counts = true ∨ command ≠ .paths) :
    Alike host counts s ((Cli.carryOut host command rest).run s) ((Cli.carryOut host command rest).run t)
      (Cli.EndingServed host (some command)) := by
  unfold Cli.carryOut
  split
  · next stop _ => exact alike_stop hst stop _
  · next o _ => exact alike_endingOf (Cli.agree_runCommand hst o command hc)

theorem alike_run (hst : Twins host counts s t) (args : List String)
    (hc : counts = true ∨ Cli.commandOf args ≠ some .paths) :
    Alike host counts s ((Cli.run host args).run s) ((Cli.run host args).run t)
      (Cli.EndingServed host (Cli.commandOf args)) := by
  unfold Cli.run
  cases hl : Cli.readLine args with
  | error stop => exact alike_stop hst stop _
  | ok line =>
    obtain ⟨command, verbose, rest⟩ := line
    have hcommand : Cli.commandOf args = some command := by
      unfold Cli.commandOf
      rw [hl]
    rw [hcommand] at hc ⊢
    have hc' : counts = true ∨ command ≠ .paths := hc.imp_right fun h he => h (congrArg some he)
    obtain ⟨he, hst', hg, hp⟩ := alike_carryOut (hst.setUpLogging verbose) rest hc'
    exact ⟨he, hst', (Extends.setUpLogging s verbose).trans hg, hp⟩

theorem alike_repeated {c : Call} (hc : counts = true ∨ c ≠ .resourceDir) (n : Nat)
    (hst : Twins host counts s t) :
    Alike host counts s ((Session.repeated host c n).run s) ((Session.repeated host c n).run t)
      fun rs s' => ∀ p, .ok (.path p) ∈ rs → Served host c p s' := by
  induction n generalizing s t with
  | zero => exact ⟨rfl, hst, .refl s, fun r hr => by cases hr⟩
  | succ n ih =>
    obtain ⟨he, hst', hg, hr⟩ := agree_call hst c hc
    obtain ⟨hes, hst'', hg', hrs⟩ := ih hst'
    refine ⟨?_, hst'', hg.trans hg', fun p hm => ?_⟩
    · show ((c.action host).run s).1 :: _ = ((c.action host).run t).1 :: _
      rw [he]
      exact congrArg _ hes
    rcases List.mem_cons.1 hm with hm | hm
    · exact hg'.served (hr _ hm.symm p rfl)
    · exact hrs p hm

/-- The paths that the answer to a step shows are as `V` says of their calls. -/
def AnswerShows (V : Call → Path → Prop) : Step → Answer → Prop
  | .call c, .result (.ok (.path p)) => V c p
  | .threads c _, .results rs => ∀ p, .ok (.path p) ∈ rs → V c p
  | .commandLine args, .ending e => Cli.EndingShows V (Cli.commandOf args) e
  | _, _ => True

theorem AnswerShows.imp {V W : Call → Path → Prop} {st : Step} {a : Answer} (h : AnswerShows V st a)
    (hvw : ∀ c p, V c p → W c p) : AnswerShows W st a := by
  unfold AnswerShows at h ⊢
  split
  · exact hvw _ _ h
  · exact fun p hp => hvw _ p (h p hp)
  · exact Cli.EndingShows.imp h hvw
  · trivial

/-- The step is no call of the program but a change that others make in the world around it. -/
def Step.isChange : Step → Bool
  | .change _ => true
  | _ => false

/-- The step looks for the resource directory. -/
def Step.LooksForResources : Step → Prop
  | .call c | .threads c _ => c = .resourceDir
  | .commandLine args => Cli.commandOf args = some .paths
  | _ => False

/-- A step that twins answer alike. How often the SDK tool was run is the one thing that tells them
apart, and they may find other resources unless they keep the same ones. -/
structure Step.IsShared (counts : Bool) (st : Step) : Prop where
  noChange : st.isChange = false
  noCount : st ≠ .sdkRuns
  resources : counts = true ∨ ¬st.LooksForResources

theorem Twins.clear (hst : Twins host counts s t) (l : Lookup) :
    Twins host counts { s with kept := s.kept.clear l } { t with kept := t.kept.clear l } := by
  refine ⟨?_, hst.left.clear l, hst.right.clear l⟩
  have hall := congrArg (fun b : State => { b with kept := { b.kept with resourceDir := none } }) hst.bare
  cases l with
  | resourceDir => cases counts <;> exact hall
  | _ => exact hst.bare

theorem Twins.clearAll (hst : Twins host counts s t) :
    Twins host counts { s with kept := {} } { t with kept := {} } := by
  refine ⟨?_, faithful_of_kept_nothing rfl, faithful_of_kept_nothing rfl⟩
  have hall := congrArg (fun b : State => { b with kept := {} }) hst.bare
  cases counts <;> exact hall

theorem Session.logMessage_log (level : Level) (name template : String) (args : List Argument) (s : State) :
    ∃ log, ((Session.logMessage level name template args).run s).2 = { s.setUpLogging false with log := log } := by
  show ∃ log, Session.logged level name template args (s.setUpLogging false) = _
  unfold Session.logged
  split
  · split
    · exact ⟨_, rfl⟩
    · exact ⟨s.log, rfl⟩
  · exact ⟨s.log, rfl⟩

theorem Session.run_listing (host : Host) (path : Path) (s : State) :
    (Session.answer host (.listing path)).run s =
      (match fromHere s.here path with
        | .ok p => pure (.listing (s.tree.listing p.names))
        | .error f => pure (.refused f) : StateM State Answer).run s :=
  rfl

theorem alike_answer (hst : Twins host counts s t) (st : Step) (h : st.IsShared counts) :
    Alike host counts s ((Session.answer host st).run s) ((Session.answer host st).run t)
      fun a s' => AnswerShows (Served host · · s') st a := by
  cases st with
  | call c =>
    obtain ⟨he, hst', hg, hr⟩ := agree_call hst c h.resources
    refine ⟨?_, hst', hg, ?_⟩
    · show Answer.result ((c.action host).run s).1 = Answer.result ((c.action host).run t).1
      rw [he]
    · show AnswerShows _ (.call c) (.result ((c.action host).run s).1)
      cases hx : ((c.action host).run s).1 with
      | error f => trivial
      | ok r =>
        cases r with
        | path p => exact hr _ hx p rfl
        | _ => trivial
  | threads c n =>
    obtain ⟨he, hst', hg, hr⟩ := alike_repeated h.resources n hst
    exact ⟨congrArg Answer.results he, hst', hg, hr⟩
  | setupLogging verbose =>
    have hst' := hst.setUpLogging verbose
    exact ⟨congrArg Answer.logging hst'.verbose.symm, hst', .setUpLogging s verbose, trivial⟩
  | log level name template args =>
    have hrun : ∀ u, (Session.answer host (.log level name template args)).run u =
        (.logger (loggerRoot ++ name), ((Session.logMessage level name template args).run u).2) := fun u => rfl
    obtain ⟨log, hs⟩ := Session.logMessage_log level name template args s
    obtain ⟨log', ht⟩ := Session.logMessage_log level name template args t
    rw [hrun, hrun, hs, ht]
    have hl : ∀ u : State, ∀ log, Extends u { u.setUpLogging false with log := log } := fun u log => ⟨rfl, rfl, .refl _⟩
    exact ⟨rfl, hst.move (hl s log) (hl t log') rfl rfl (hst.setUpLogging false).bare, hl s log, trivial⟩
  | clear lookup => exact ⟨rfl, hst.clear lookup, ⟨rfl, rfl, .refl _⟩, trivial⟩
  | clearAll => exact ⟨rfl, hst.clearAll, ⟨rfl, rfl, .refl _⟩, trivial⟩
  | commandLine args =>
    obtain ⟨he, hst', hg, hr⟩ := alike_run hst args h.resources
    exact ⟨congrArg Answer.ending he, hst', hg, hr⟩
  | change c => cases h.noChange
  | sdkRuns => exact absurd rfl h.noCount
  | listing path =>
    rw [Session.run_listing, Session.run_listing, hst.here, hst.tree]
    cases fromHere s.here path with
    | ok p => exact ⟨rfl, hst, .refl s, trivial⟩
    | error f => exact ⟨rfl, hst, .refl s, trivial⟩

/-- A Linux machine where little is set up. -/
def plainHost : Host where
  platform := "linux"
  machine := "x86_64"
  implementation := "cpython"
  release := (3, 11)
  packageResources := ⟨.root, ["resources"]⟩
  tempNames := ["k3v9x_ab"]

end Whereabouts
