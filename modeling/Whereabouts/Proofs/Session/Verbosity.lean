import Mathlib.Data.List.Forall2
import Whereabouts.Proofs.Session.Peers

/-!
# Verbosity changes nothing

A session that is made verbose on the way gives the answers of the session that is not, and leaves its tree
(`verbosity_changes_nothing`). A step has the same records to log in both. `Overheard` relates the states
inside a step, `Louder` those between steps.
-/

namespace Whereabouts

variable {host : Host} {s t : State}

/-! ## Loggers -/

/-- The logger is set up and has only its own handler write. -/
structure Logger.IsSingle (l : Logger) : Prop where
  isSetUp : l.isSetUp = true
  handlers : l.handlers = 1
  propagates : l.propagates = false

namespace Logger

variable {l : Logger}

theorem isSingle_new (verbose : Bool) : (({} : Logger).setUp verbose).IsSingle := ⟨rfl, rfl, rfl⟩

theorem IsSingle.setUp (h : l.IsSingle) (verbose : Bool) : (l.setUp verbose).IsSingle where
  isSetUp := rfl
  handlers := (if_pos h.isSetUp).trans h.handlers
  propagates := by
    unfold Logger.setUp
    rw [h.propagates, Bool.and_false]

theorem IsSingle.written (h : l.IsSingle) (text : String) : l.written text = cut '\n' text := by
  unfold Logger.written
  rw [h.handlers, List.replicate_one, List.flatten_singleton]

theorem IsSingle.verbose_setUp (h : l.IsSingle) (verbose : Bool) :
    (l.setUp verbose).verbose = (l.verbose || verbose) := by
  unfold Logger.setUp
  rw [h.isSetUp, Bool.true_and]

end Logger

/-! ## Records -/

structure Record where
  level : Level
  text : String

def Record.lines (verbose : Bool) (r : Record) : List String :=
  if r.level.isShown verbose then cut '\n' r.text else []

/-- What is written for the records, each of them once. -/
def linesOf (verbose : Bool) (rs : List Record) : List String := rs.flatMap (Record.lines verbose)

theorem linesOf_concat (verbose : Bool) (rs : List Record) (r : Record) :
    linesOf verbose (rs ++ [r]) = linesOf verbose rs ++ r.lines verbose := by
  unfold linesOf
  rw [List.flatMap_append, List.flatMap_singleton]

theorem Level.isShown_of_le {verbose verbose' : Bool} (hv : verbose = true → verbose' = true) {level : Level}
    (h : level.isShown verbose = true) : level.isShown verbose' = true := by
  cases level with
  | debug | info => exact hv h
  | warning | error => rfl

theorem Record.lines_sublist {verbose verbose' : Bool} (hv : verbose = true → verbose' = true) (r : Record) :
    (r.lines verbose).Sublist (r.lines verbose') := by
  unfold Record.lines
  split
  · next h =>
    rw [if_pos (Level.isShown_of_le hv h)]
  · exact List.nil_sublist _

theorem linesOf_sublist {verbose verbose' : Bool} (hv : verbose = true → verbose' = true) (rs : List Record) :
    (linesOf verbose rs).Sublist (linesOf verbose' rs) := by
  induction rs with
  | nil => exact .refl _
  | cons r rs ih => exact (r.lines_sublist hv).append ih

/-! ## Louder states -/

/-- The second state is at least as verbose as the first, and has another log. -/
inductive Louder (s : State) : State → Prop where
  | intro {verbose : Bool} {log : List String} (hl : s.toLogger.IsSingle) (hv : s.verbose = true → verbose = true) :
      Louder s { s with verbose := verbose, log := log }

/-- The same records are in both logs. -/
inductive Overheard (s : State) : State → Prop where
  | intro {verbose : Bool} {rs : List Record} (hl : s.toLogger.IsSingle) (hv : s.verbose = true → verbose = true)
      (hs : s.log = linesOf s.verbose rs) : Overheard s { s with verbose := verbose, log := linesOf verbose rs }

theorem Overheard.louder (h : Overheard s t) : Louder s t := by
  obtain ⟨hl, hv, -⟩ := h
  exact .intro hl hv

theorem Louder.quiet (h : Louder s t) : Overheard { s with log := [] } { t with log := [] } := by
  obtain ⟨hl, hv⟩ := h
  exact @Overheard.intro { s with log := [] } _ [] hl hv rfl

theorem Louder.setUpLogging (h : Louder s t) (verbose : Bool) :
    Louder (s.setUpLogging verbose) (t.setUpLogging verbose) := by
  cases h with
  | @intro verbose' log hl hv =>
    refine .intro (s := s.setUpLogging verbose) (hl.setUp verbose) fun h => ?_
    have hs : (s.verbose || verbose) = true := (hl.verbose_setUp verbose).symm.trans h
    have ht := Logger.IsSingle.verbose_setUp (l := { s.toLogger with verbose := verbose' })
      ⟨hl.isSetUp, hl.handlers, hl.propagates⟩ verbose
    refine ht.trans ?_
    rw [Bool.or_eq_true] at hs ⊢
    exact hs.imp_left hv

theorem Louder.madeVerbose (h : Louder s t) : Louder s (t.setUpLogging true) := by
  obtain ⟨hl, hv⟩ := h
  have ht : ∀ verbose log, ({ s with verbose := verbose, log := log } : State).setUpLogging true =
      { s with verbose := true, log := log } := by
    intro verbose log
    unfold State.setUpLogging Logger.setUp
    simp [hl.isSetUp, hl.propagates]
  rw [ht]
  exact .intro hl fun _ => rfl

namespace Overheard

theorem changed (h : Overheard s t) {c : State → State} (hc : Aside c) : Overheard (c s) (c t) := by
  obtain ⟨henv, hlogger, hlog⟩ := hc.same s
  cases h with
  | @intro verbose rs hl hv hs =>
    have ht : c { s with verbose := verbose, log := linesOf verbose rs } =
        { c s with verbose := verbose, log := linesOf verbose rs } := by
      rw [hc s s.env { s.toLogger with verbose := verbose } (linesOf verbose rs), ← henv, ← hlogger]
    rw [ht]
    refine .intro (hlogger ▸ hl) (fun h => hv ?_) ?_
    · exact (congrArg Logger.verbose hlogger).symm.trans h
    · rw [hlog, hs, ← hlogger]

theorem recorded (h : Overheard s t) (r : Record) :
    Overheard { s with log := s.log ++ r.lines s.verbose } { t with log := t.log ++ r.lines t.verbose } := by
  cases h with
  | @intro verbose rs hl hv hs =>
    rw [hs, ← linesOf_concat, ← linesOf_concat]
    exact .intro (s := { s with log := _ }) hl hv rfl

theorem isSingle (h : Overheard s t) : s.toLogger.IsSingle ∧ t.toLogger.IsSingle := by
  obtain ⟨hl, -, -⟩ := h
  exact ⟨hl, hl.isSetUp, hl.handlers, hl.propagates⟩

end Overheard

theorem unread_overheard (host : Host) : Unread host true Overheard where
  env h := by obtain ⟨-, -, -⟩ := h; exact ⟨fun _ => rfl, .inl rfl⟩
  tree h := by obtain ⟨-, -, -⟩ := h; rfl
  here h := by obtain ⟨-, -, -⟩ := h; rfl
  kept h := by obtain ⟨-, -, -⟩ := h; rfl
  tempDir h := by obtain ⟨-, -, -⟩ := h; rfl
  tempTried h := by obtain ⟨-, -, -⟩ := h; rfl
  changed h hc _ _ _ := h.changed hc
  found h dir _ := h.changed (c := ({ · with tempDir := some dir })) fun _ _ _ _ => rfl
  stored {_ slot} _ _ _ _ _ _ _ h a _ := h.changed (aside_store slot a)
  warned h text := by
    rw [h.isSingle.1.written, h.isSingle.2.written]
    exact h.recorded ⟨.warning, text⟩
  debugged {s t} h text := by
    have hlog : ∀ u : State, u.toLogger.IsSingle → (if u.verbose then u.log ++ u.written text else u.log) =
        u.log ++ Record.lines u.verbose ⟨.debug, text⟩ := by
      intro u hu
      rw [hu.written]
      unfold Record.lines Level.isShown
      dsimp only
      split
      · rfl
      · rw [List.append_nil]
    rw [hlog s h.isSingle.1, hlog t h.isSingle.2]
    exact h.recorded ⟨.debug, text⟩

theorem Overheard.logged (h : Overheard s t) (level : Level) (name template : String) (args : List Argument) :
    Overheard (Session.logged level name template args s) (Session.logged level name template args t) := by
  cases hline : formatRecord (loggerRoot ++ name) template args with
  | error fault =>
    have hsame : ∀ u, Session.logged level name template args u = u := by
      intro u
      unfold Session.logged
      rw [hline]
      exact ite_self _
    rw [hsame, hsame]
    exact h
  | ok line =>
    have hmore : ∀ u : State, u.toLogger.IsSingle → Session.logged level name template args u =
        { u with log := u.log ++ Record.lines u.verbose ⟨level, line⟩ } := by
      intro u hu
      unfold Session.logged Record.lines
      rw [hline]
      dsimp only
      rw [hu.written]
      split
      · rfl
      · rw [List.append_nil]
    rw [hmore s h.isSingle.1, hmore t h.isSingle.2]
    exact h.recorded ⟨level, line⟩

/-! ## Steps -/

theorem apply_aside (c : Change) (u : State) (logger : Logger) (log : List String) :
    c.apply { u with toLogger := logger, log := log } =
      (c.apply u).map fun u => { u with toLogger := logger, log := log } := by
  cases c with
  | setVar | unsetVar => rfl
  | enter path => cases h : enterDir u.tree u.here (.ofString path) <;> simp only [Change.apply, h, Except.map]
  | makeDir path mode =>
    cases h : u.tree.makeDir u.here (.ofString path) mode <;> simp only [Change.apply, h, Except.map]
  | write path text =>
    cases h : u.tree.writeFile u.here (.ofString path) text <;> simp only [Change.apply, h, Except.map]
  | makeLink path target =>
    cases h : u.tree.makeLink u.here (.ofString path) target <;> simp only [Change.apply, h, Except.map]
  | setMode path mode =>
    cases h : u.tree.setMode u.here (.ofString path) mode <;> simp only [Change.apply, h, Except.map]
  | remove path => cases h : u.tree.removeAt u.here (.ofString path) <;> simp only [Change.apply, h, Except.map]

theorem Overheard.apply (h : Overheard s t) (c : Change) :
    (∃ s' t', c.apply s = .ok s' ∧ c.apply t = .ok t' ∧ Overheard s' t') ∨
      ∃ why, c.apply s = .error why ∧ c.apply t = .error why := by
  cases h with
  | @intro verbose rs hl hv hs =>
    have ht := apply_aside c s { s.toLogger with verbose := verbose } (linesOf verbose rs)
    have hself := apply_aside c s s.toLogger s.log
    cases happly : c.apply s with
    | error why =>
      rw [happly] at ht
      exact .inr ⟨why, rfl, ht⟩
    | ok s' =>
      have hsame : Except.ok s' = Except.ok _ := happly.symm.trans (hself.trans (by rw [happly]; rfl))
      have hlogger := congrArg State.toLogger (Except.ok.inj hsame)
      have hlog := congrArg State.log (Except.ok.inj hsame)
      change s'.toLogger = s.toLogger at hlogger
      change s'.log = s.log at hlog
      rw [happly] at ht
      refine .inl ⟨s', _, rfl, ht, ?_⟩
      rw [← hlogger] at hl hs hv ⊢
      exact .intro hl hv (hlog.trans hs)

/-- What a step answers and logs in the first session, and in the louder one. -/
structure Overhears (st : Step) (x y : Answer × List String) : Prop where
  answer : (∀ verbose, st ≠ .setupLogging verbose) → x.1 = y.1
  lines : x.2.Sublist y.2
  /-- Both have the same records; each is written once where it is shown. -/
  records : ∃ rs verbose verbose', x.2 = linesOf verbose rs ∧ y.2 = linesOf verbose' rs

theorem Overheard.overhears (h : Overheard s t) {st : Step} {a b : Answer}
    (hab : (∀ verbose, st ≠ .setupLogging verbose) → a = b) : Overhears st (a, s.log) (b, t.log) := by
  cases h with
  | @intro verbose rs hl hv hs =>
    refine ⟨hab, ?_, rs, s.verbose, verbose, hs, rfl⟩
    rw [hs]
    exact linesOf_sublist hv rs

theorem Louder.answer (host : Host) (h : Louder s t) (st : Step) :
    ((∀ verbose, st ≠ .setupLogging verbose) →
      ((Session.answer host st).run { s with log := [] }).1 = ((Session.answer host st).run { t with log := [] }).1) ∧
    Overheard ((Session.answer host st).run { s with log := [] }).2
      ((Session.answer host st).run { t with log := [] }).2 := by
  have hR := unread_overheard host
  have hquiet := h.quiet
  have hset : ∀ verbose, Overheard (({ s with log := [] } : State).setUpLogging verbose)
      (({ t with log := [] } : State).setUpLogging verbose) := fun verbose => (h.setUpLogging verbose).quiet
  cases st with
  | call c =>
    obtain ⟨ha, hst⟩ := (agree_unread hR c hquiet).matches
    exact ⟨fun _ => congrArg Answer.result ha, hst⟩
  | threads c n =>
    obtain ⟨ha, hst⟩ := hR.repeated hquiet c n
    exact ⟨fun _ => congrArg Answer.results ha, hst⟩
  | commandLine args =>
    obtain ⟨ha, hst⟩ := hR.commandLine hquiet hset args
    exact ⟨fun _ => congrArg Answer.ending ha, hst⟩
  | setupLogging verbose => exact ⟨fun hne => absurd rfl (hne verbose), hset verbose⟩
  | log level name template args => exact ⟨fun _ => rfl, (hset false).logged level name template args⟩
  | clear lookup =>
    exact ⟨fun _ => rfl, hquiet.changed (c := fun u => { u with kept := u.kept.clear lookup }) fun _ _ _ _ => rfl⟩
  | clearAll => exact ⟨fun _ => rfl, hquiet.changed (c := ({ · with kept := {} })) fun _ _ _ _ => rfl⟩
  | change c =>
    rcases hquiet.apply c with ⟨s', t', hs, ht, hst⟩ | ⟨why, hs, ht⟩
    · rw [run_changed hs, run_changed ht]
      exact ⟨fun _ => rfl, hst⟩
    · rw [run_refused hs, run_refused ht]
      exact ⟨fun _ => rfl, hquiet⟩
  | sdkRuns =>
    refine ⟨fun _ => ?_, hquiet⟩
    obtain ⟨-, -⟩ := h
    rfl
  | listing path =>
    obtain ⟨-, -⟩ := h
    rw [Session.run_listing, Session.run_listing]
    dsimp only
    split
    · exact ⟨fun _ => rfl, hquiet⟩
    · exact ⟨fun _ => rfl, hquiet⟩

theorem Louder.step (host : Host) (h : Louder s t) (st : Step) :
    Overhears st (Session.step host s st).1 (Session.step host t st).1 ∧
      Louder (Session.step host s st).2 (Session.step host t st).2 := by
  obtain ⟨hanswer, hoverheard⟩ := h.answer host st
  exact ⟨hoverheard.overhears hanswer, hoverheard.louder⟩

/-! ## Sessions -/

/-- What the steps that are not marked answered and logged. -/
def unmarkedAnswers (marks : List (Step × Bool)) (answers : List (Answer × List String)) :
    List (Answer × List String) :=
  ((marks.zip answers).filter fun x => !x.1.2).map (·.2)

theorem Louder.run (host : Host) {marks : List (Step × Bool)} (h : Louder s t)
    (hinserted : ∀ m ∈ marks, m.2 = true → m.1 = .setupLogging true) :
    let steps := (marks.filter (!·.2)).map (·.1)
    let plain := Session.run host s steps
    let loud := Session.run host t (marks.map (·.1))
    List.Forall₂ (fun x y => Overhears x.1 x.2 y) (steps.zip plain.1) (unmarkedAnswers marks loud.1) ∧
      Louder plain.2 loud.2 := by
  induction marks generalizing s t with
  | nil => exact ⟨.nil, h⟩
  | cons m marks ih =>
    obtain ⟨st, mark⟩ := m
    have hinserted' := fun m hm => hinserted m (List.mem_cons_of_mem _ hm)
    cases mark with
    | true =>
      obtain rfl : st = .setupLogging true := hinserted _ List.mem_cons_self rfl
      have hloud : Louder s (Session.step host t (.setupLogging true)).2 := by
        obtain ⟨hl, hv⟩ := h
        exact (Louder.intro hl hv).madeVerbose
      exact ih hloud hinserted'
    | false =>
      obtain ⟨hoverhears, hlouder⟩ := h.step host st
      obtain ⟨hrest, hend⟩ := ih hlouder hinserted'
      exact ⟨.cons hoverhears hrest, hend⟩

/-- Making a session verbose at any of its places changes no answer, but for reports on logging, and no tree.
Each step logs in the verbose session what it logs in the other one, in order, and maybe more in between; in
both every record that is shown is written once. The inserted steps are marked. -/
theorem verbosity_changes_nothing {env : Environment} {plan : List Planned} {dir : String} {marks : List (Step × Bool)}
    (hinserted : ∀ m ∈ marks, m.2 = true → m.1 = .setupLogging true) :
    let steps := (marks.filter (!·.2)).map (·.1)
    let plain := Session.run host (.start env plan dir) steps
    let loud := Session.run host (.start env plan dir) (marks.map (·.1))
    List.Forall₂ (fun x y => Overhears x.1 x.2 y) (steps.zip plain.1) (unmarkedAnswers marks loud.1) ∧
      loud.2.tree = plain.2.tree ∧ plain.2.toLogger.IsSingle ∧ loud.2.toLogger.IsSingle := by
  intro steps plain loud
  have hstart : Louder (.start env plan dir) (.start env plan dir) := .intro (Logger.isSingle_new false) id
  obtain ⟨hsteps, hend⟩ := hstart.run host hinserted
  have hquiet := hend.quiet
  have htree := (unread_overheard host).tree hquiet
  exact ⟨hsteps, htree, hquiet.isSingle.1, hquiet.isSingle.2⟩

/-- A message that does not fit its arguments is written in neither session. The directory is the same in both
and told of in the verbose one. -/
theorem verbosity_changes_nothing_config :
    let marks := [(Step.setupLogging true, true), (.log .info "tool" "%d files" [.text "no"], false),
      (.call .configDir, false)]
    let start := State.start ⟨[("HOME", "/home/me")]⟩ [] "/"
    let steps := (marks.filter (!·.2)).map (·.1)
    let plain := Session.run plainHost start steps
    let loud := Session.run plainHost start (marks.map (·.1))
    List.Forall₂ (fun x y => Overhears x.1 x.2 y) (steps.zip plain.1) (unmarkedAnswers marks loud.1) ∧
      plain.1.map (·.2) = [[], []] ∧
      loud.1.map (·.2) = [[], [], ["[config] config directory /home/me/.config/jank",
        "[paths] created /home/me/.config/jank"]] := by
  intro marks start steps plain loud
  have hinserted : ∀ m ∈ marks, m.2 = true → m.1 = .setupLogging true := by
    simp only [marks, List.forall_mem_cons]
    exact ⟨fun _ => trivial, (fun h => by cases h), (fun h => by cases h), List.forall_mem_nil _⟩
  exact ⟨(verbosity_changes_nothing hinserted).1, by decide +kernel, by decide +kernel⟩

end Whereabouts
