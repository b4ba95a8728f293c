import Whereabouts.Proofs.Session.Outcomes
import Whereabouts.Proofs.Session.Turns

/-!
# The table of locations

The `paths` command makes its calls one after another and shows in a row what each of them ends with. A
failure that is not shown takes the whole table with it (`paths_shows_table`). `Unlisted` tells for each
row which failures those are.
-/

namespace Whereabouts

variable {host : Host} {s : State}

/-! ## Outcomes -/

namespace Session

/-- What the calls end with when they are made one after another. -/
def outcomes (host : Host) (s : State) (cs : List Call) : List (Except Failure Result) :=
  (turns host s cs).map fun turn => ((turn.1.action host).run turn.2).1

def after (host : Host) (s : State) (cs : List Call) : State :=
  cs.foldl (fun s c => ((c.action host).run s).2) s

theorem length_outcomes (cs : List Call) : (outcomes host s cs).length = cs.length := by
  unfold outcomes
  rw [List.length_map]
  induction cs generalizing s with
  | nil => rfl
  | cons c cs ih => exact congrArg (· + 1) ih

theorem exists_of_mem_outcomes {cs : List Call} {r : Except Failure Result} (h : r ∈ outcomes host s cs) :
    ∃ c ∈ cs, ∃ s', ((c.action host).run s').1 = r := by
  induction cs generalizing s with
  | nil => cases h
  | cons c cs ih =>
    rcases List.mem_cons.1 h with he | h
    · exact ⟨c, List.mem_cons_self, s, he.symm⟩
    · obtain ⟨c', hc, hr⟩ := ih h
      exact ⟨c', List.mem_cons_of_mem _ hc, hr⟩

end Session

namespace Cli

open Session

/-! ## Rows -/

def hidden? : Except Failure Result → Option Failure
  | .error f => if f.isShown then none else some f
  | .ok _ => none

theorem hidden?_error_eq_none {f : Failure} : hidden? (.error f) = none ↔ f.isShown = true := by
  simp [hidden?]

theorem hidden?_eq_some {r : Except Failure Result} {f : Failure} :
    hidden? r = some f ↔ r = .error f ∧ f.isShown = false := by
  cases r with
  | ok v => simp [hidden?]
  | error f' =>
    simp only [hidden?, Option.ite_none_left_eq_some, Option.some.injEq, Except.error.injEq, Bool.not_eq_true]
    constructor
    · rintro ⟨hs, rfl⟩
      exact ⟨rfl, hs⟩
    · rintro ⟨rfl, hs⟩
      exact ⟨hs, rfl⟩

def rowOf (label : String) : Except Failure Result → Row
  | .ok r => ⟨label, .escaped r.shown, true⟩
  | .error f => ⟨label, .error f.message, false⟩

def rowsOf (labelled : List (String × Call)) (outcomes : List (Except Failure Result)) : List Row :=
  List.zipWith (fun x r => rowOf x.1 r) labelled outcomes

theorem found_rowsOf {labelled : List (String × Call)} {results : List (Except Failure Result)}
    (h : labelled.length = results.length) : (rowsOf labelled results).all (·.found) = results.all (·.isOk) := by
  induction labelled generalizing results with
  | nil =>
    cases results with
    | nil => rfl
    | cons r results => cases h
  | cons x labelled ih =>
    cases results with
    | nil => cases h
    | cons r results =>
      have hfound : (rowOf x.1 r).found = r.isOk := by cases r <;> rfl
      show ((rowOf x.1 r).found && (rowsOf labelled results).all (·.found)) = (r.isOk && results.all (·.isOk))
      rw [hfound, ih (Nat.succ.inj h)]

section
variable {label : String} {c : Call} {labelled : List (String × Call)}

theorem run_row_shown (h : hidden? ((c.action host).run s).1 = none) :
    (rows (((label, c) :: labelled).map (shownLookup host))).run s =
      ((rowOf label ((c.action host).run s).1 :: ·) <$> rows (labelled.map (shownLookup host))).run
        ((c.action host).run s).2 := by
  rw [List.map_cons, shownLookup, run_rows_cons, Action.run_map]
  generalize (c.action host).run s = x at h
  obtain ⟨r, s'⟩ := x
  cases r with
  | ok v => rfl
  | error f => exact if_pos (hidden?_error_eq_none.1 h)

theorem run_row_hidden {f : Failure} (h : hidden? ((c.action host).run s).1 = some f) :
    ((rows (((label, c) :: labelled).map (shownLookup host))).run s).1 = .error f := by
  obtain ⟨hr, hf⟩ := hidden?_eq_some.1 h
  rw [List.map_cons, shownLookup, run_rows_cons, Action.run_map, hr]
  dsimp only [Except.map]
  rw [if_neg (by rw [hf]; decide)]

theorem run_rows_shown (h : (outcomes host s (labelled.map (·.2))).findSome? hidden? = none) :
    (rows (labelled.map (shownLookup host))).run s =
      (.ok (rowsOf labelled (outcomes host s (labelled.map (·.2)))), after host s (labelled.map (·.2))) := by
  induction labelled generalizing s with
  | nil => rfl
  | cons x labelled ih =>
    obtain ⟨label, c⟩ := x
    have hall := List.findSome?_eq_none_iff.1 h
    have hrest := List.findSome?_eq_none_iff.2 fun r hr => hall r (List.mem_cons_of_mem _ hr)
    rw [run_row_shown (hall _ List.mem_cons_self), Action.run_map, ih hrest]
    rfl

theorem run_rows_hidden {f : Failure} (h : (outcomes host s (labelled.map (·.2))).findSome? hidden? = some f) :
    ((rows (labelled.map (shownLookup host))).run s).1 = .error f := by
  induction labelled generalizing s with
  | nil => cases h
  | cons x labelled ih =>
    obtain ⟨label, c⟩ := x
    -- a hidden failure of the first call ends the search, so that the calls behind it do not matter
    change (((c.action host).run s).1 :: outcomes host _ (labelled.map (·.2))).findSome? hidden? = some f at h
    cases hc : hidden? ((c.action host).run s).1 with
    | some f' =>
      rw [List.findSome?_cons_of_isSome (by rw [hc]; rfl), hc] at h
      rw [run_row_hidden hc, Option.some.inj h]
    | none =>
      rw [List.findSome?_cons_of_isNone (by rw [hc]; rfl)] at h
      rw [run_row_shown hc, Action.run_map, ih h]
      rfl

end

/-! ## Failures that no row shows -/

/-- The failures that are not shown, with the labels of the rows that they keep from being shown. -/
inductive Unlisted : String → Failure → Prop where
  | homeUndetermined {label wanted : String} (hl : label ∈ ["config", "cache", "binary cache"]) :
      Unlisted label (.homeUndetermined wanted)
  | lost {label : String} (hl : label ∈ ["home", "config", "cache", "binary cache"]) :
      Unlisted label (.system { why := .noEntry, path := none })
  | unseen {label : String} {p : Path} {why : Refusal} (hl : label ∈ ["home", "config", "cache", "binary cache"])
      (h : why = .denied ∨ why = .nameTooLong) : Unlisted label (.system { why, path := some p.toString })
  | linkLoop {label : String} {link : Path} (hl : label ∈ ["process path", "process dir", "resources"]) :
      Unlisted label (.linkLoop link)
  | resources {e : SystemError} : Unlisted "resources" (.system e)

theorem isShown_of_category {f : Failure} {about : Trouble} (h : f.category = .trouble about) : f.isShown = true := by
  unfold Failure.isShown
  rw [h]

theorem unlisted_of_noProgram {label : String} {f : Failure} (h : NoProgram f) (hf : f.isShown = false)
    (hl : label ∈ ["process path", "process dir", "resources"]) : Unlisted label f := by
  cases h with
  | reported hc =>
    rw [isShown_of_category hc] at hf
    cases hf
  | zeroByte => cases hf
  | linkLoop => exact .linkLoop hl

/-- The label of the row that needs the lookup. -/
def rowLabel : Lookup → String
  | .homeDir => "home"
  | .configDir => "config"
  | .cacheRoot | .cacheDir => "cache"
  | .binaryDir => "binary cache"
  | .resourceDir => "resources"
  | .programPath => "process path"
  | .programDir => "process dir"
  | .buildVersion | .sdkPath => "binary version"

theorem unlisted_of_fails {l : Lookup} {f : Failure} (h : Lookup.Fails host l f) (hf : f.isShown = false) :
    Unlisted (rowLabel l) f := by
  cases h with
  | homeUnknown | noResources => cases hf
  | homeUndetermined hl =>
    exact .homeUndetermined (by simpa [rowLabel] using List.mem_map_of_mem (f := rowLabel) hl)
  | lost hl => exact .lost (by simpa [rowLabel] using List.mem_map_of_mem (f := rowLabel) hl)
  | noDir hl h =>
    cases h with
    | unusable | zeroByte => cases hf
    | unseen h => exact .unseen (by simpa [rowLabel] using List.mem_map_of_mem (f := rowLabel) hl) h
  | noProgram hl h =>
    exact unlisted_of_noProgram h hf (by simpa [rowLabel] using List.mem_map_of_mem (f := rowLabel) hl)
  | unresolved => exact .resources

theorem unlisted_of_hidden {version : Option String} {x : String × Call} (hx : x ∈ tableCalls version) {f : Failure}
    (he : ((x.2.action host).run s).1 = .error f) (hf : f.isShown = false) : Unlisted x.1 f := by
  have hversioned : ∀ {l}, f = .blankVersion ∨ Lookup.Fails host l f → Unlisted (rowLabel l) f := by
    rintro l (rfl | h)
    · cases hf
    · exact unlisted_of_fails h hf
  simp only [tableCalls, List.mem_cons, List.not_mem_nil, or_false] at hx
  rcases hx with rfl | rfl | rfl | rfl | rfl | rfl | rfl | rfl
  · exact (within_buildVersion.map.failure he).elim
  · exact unlisted_of_fails (within_homeDir.map.failure he) hf
  · exact unlisted_of_fails (within_configDir.map.failure he) hf
  · exact hversioned ((within_cacheDir version).map.failure he)
  · exact hversioned ((within_binaryCacheDir version).map.failure he)
  · exact unlisted_of_noProgram (within_processPath.map.failure he) hf (by decide)
  · exact unlisted_of_noProgram (within_processDir.map.failure he) hf (by decide)
  · exact unlisted_of_fails (within_resourceDir.map.failure he) hf

/-! ## The command -/

theorem run_of_line {args rest : List String} {command : Command} {verbose : Bool} {o : CommandOptions}
    (hl : readLine args = .ok (command, verbose, rest)) (ho : readOptions command rest = .ok o) :
    (run host args).run s = (endingOf (runCommand host o command)).run (entered args s) := by
  unfold run entered
  rw [hl]
  dsimp only
  rw [ho]
  rfl

/-- The `paths` command shows in eight rows what its calls end with, and exits with one if any of them
fails. If a call fails in a way that no row shows, no row is printed at all and the first such failure
leaves the program. -/
theorem paths_shows_table {args rest : List String} {verbose : Bool} {o : CommandOptions}
    (hl : readLine args = .ok (.paths, verbose, rest)) (ho : readOptions .paths rest = .ok o) :
    let results := outcomes host (entered args s) ((tableCalls o.value).map (·.2))
    let ending := ((run host args).run s).1
    (results.findSome? hidden? = none →
      ∃ rows, ending = .exited (if results.all (·.isOk) then 0 else 1) {} [.table "jank locations" ["Location", "Value"] rows] ∧
        rows.length = 8 ∧ rows = (rowsOf (tableCalls o.value) results).map fun r => (r.label, r.value)) ∧
    ∀ f, results.findSome? hidden? = some f →
      ending = .failed f {} [] ∧ ∃ x ∈ tableCalls o.value, Unlisted x.1 f := by
  intro results ending
  have hending : ending = ((endingOf (runPaths host o.value)).run (entered args s)).1 :=
    congrArg Prod.fst (run_of_line hl ho)
  rw [run_endingOf, runPaths, Action.run_bind_pure, lookups_eq] at hending
  have hlength : (tableCalls o.value).length = results.length :=
    (List.length_map _).symm.trans (length_outcomes _).symm
  refine ⟨fun hnone => ?_, fun f hsome => ⟨?_, ?_⟩⟩
  · rw [run_rows_shown hnone] at hending
    refine ⟨_, ?_, ?_, rfl⟩
    · rw [hending, ← found_rowsOf hlength]
      rfl
    · rw [List.length_map, rowsOf, List.length_zipWith, ← hlength]
      rfl
  · rw [run_rows_hidden hsome] at hending
    exact hending
  · obtain ⟨r, hr, hhidden⟩ := List.exists_of_findSome?_eq_some hsome
    obtain ⟨hr', hf⟩ := hidden?_eq_some.1 hhidden
    obtain ⟨c, hc, s', he⟩ := exists_of_mem_outcomes hr
    obtain ⟨x, hx, rfl⟩ := List.mem_map.1 hc
    exact ⟨x, hx, unlisted_of_hidden hx (he.trans hr') hf⟩

/-- Without any home the configuration directory is the first location that is not shown. -/
theorem paths_shows_table_homeless :
    ((run plainHost ["paths"]).run (State.start {} [] "/")).1 = .failed (.homeUndetermined "~/.config") {} [] := by
  have hl : readLine ["paths"] = .ok (.paths, false, []) := rfl
  have ho : readOptions .paths [] = .ok {} := rfl
  refine ((paths_shows_table hl ho).2 (.homeUndetermined "~/.config") ?_).1
  decide +kernel

/-- Without any home no table is printed. -/
theorem homeless_table_not_shown :
    ¬∀ (host : Host) (s : State) (args rest : List String) (verbose : Bool) (o : CommandOptions),
      readLine args = .ok (.paths, verbose, rest) → readOptions .paths rest = .ok o →
        ∃ code title columns rows, ((run host args).run s).1 = .exited code {} [.table title columns rows] := by
  intro h
  obtain ⟨code, title, columns, rows, he⟩ := h plainHost (State.start {} [] "/") ["paths"] [] false {} rfl rfl
  have hfailed : ((run plainHost ["paths"]).run (State.start {} [] "/")).1 =
      .failed (.homeUndetermined "~/.config") {} [] := by decide +kernel
  rw [hfailed] at he
  cases he

end Cli

end Whereabouts
