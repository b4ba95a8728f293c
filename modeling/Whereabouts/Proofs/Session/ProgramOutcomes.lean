import Whereabouts.Proofs.FileTree.Uncanonical
import Whereabouts.Proofs.Session.ProgramLookups
import Whereabouts.Proofs.Session.ProperStates

/-!
# How calls for the program end

A call for the program's path or directory returns a path or fails because the executable cannot be told, unless the
links on the path that is reported go in a circle, or a bundler reports a path with the zero character
(`program_ends_as_documented_iff`).
-/

namespace Whereabouts

open FileTree

variable {host : Host} {s : State} {t : FileTree} {here : Option Location} {c : Call} {f : Failure} {reported : String}

/-! ## What is reported -/

theorem zero_not_mem_beforeZero (text : String) : '\x00' ∉ (beforeZero text).toList := by
  unfold beforeZero
  rw [String.toList_ofList]
  intro hm
  simpa using List.all_eq_true.1 List.all_takeWhile _ hm

theorem zero_not_mem_of_askModuleName {name : String} {size : Nat} (h : askModuleName name size = .ok reported) :
    '\x00' ∉ reported.toList := by
  fun_induction askModuleName name size with
  | case1 => cases h
  | case2 =>
    cases h
    exact zero_not_mem_beforeZero _
  | case3 _ _ _ _ _ _ _ ih => exact ih h
  | case4 => cases h

/-- Only a bundler can report a path with the zero character. -/
theorem frozen_of_zero (ht : t.Proper) {profile : Profile} (h : executablePath host t here profile = .ok reported)
    (hz : '\x00' ∈ reported.toList) : host.frozen = some reported := by
  unfold executablePath at h
  split at h
  · next path _ _ hf =>
    cases h
    exact (Option.filter_eq_some_iff.1 hf).1
  · next link _ =>
    split at h
    · next hr =>
      cases h
      obtain ⟨loc, hl⟩ := readLink_ok_iff.1 hr
      exact absurd hz (ht.targets (get?_of_lstat hl))
    · cases h
    · cases h
  · unfold imagePath at h
    split at h
    · cases h
    · cases h
      exact absurd hz (zero_not_mem_beforeZero _)
  · unfold moduleName at h
    split at h
    · cases h
    · exact absurd hz (zero_not_mem_of_askModuleName h)
  · cases h

theorem zero_of_readLink {r : Route} (h : t.readLink here r = .error .zeroByte) : r.hasZero = true := by
  unfold readLink at h
  cases hl : t.lstat here r with
  | error why =>
    rw [hl] at h
    cases h
    exact zero_of_lstat hl
  | ok found =>
    rw [hl] at h
    obtain ⟨loc, node⟩ := found
    cases node <;> cases h

theorem hasZero_programLink {platform link : String} (h : (profileFor platform).programLink = some link) :
    (Route.ofString link).hasZero = false := by
  unfold profileFor at h
  repeat' split at h
  all_goals
    cases h
  all_goals decide

theorem executablePath_ne_zeroByte : executablePath host t here host.profile ≠ .error .zeroByte := by
  intro h
  unfold executablePath at h
  split at h
  · cases h
  · next link _ _ hlink =>
    split at h
    · cases h
    · next hr =>
      have hfree := hasZero_programLink (Option.filter_eq_some_iff.1 hlink).1
      cases hfree.symm.trans (zero_of_readLink hr)
    · cases h
  · unfold imagePath at h
    split at h <;> cases h
  · unfold moduleName at h
    split at h
    · cases h
    · cases askModuleName_error h
  · cases h

theorem category_of_executablePath (h : executablePath host t here host.profile = .error f) :
    f.category = .trouble .executable := by
  rcases executablePath_error h with hc | rfl
  · exact hc
  · exact absurd h executablePath_ne_zeroByte

/-! ## What no check covers -/

/-- Failures of the search for the program that are not about the executable, each with what brings it about. -/
inductive Astray (host : Host) (s : State) : Failure → Prop where
  | looped {reported : String} {link : Path} (hr : executablePath host s.tree s.here host.profile = .ok reported)
      (hl : s.tree.canonical s.here (.ofString reported) = .error (.loop link))
      (hc : s.tree.Circles s.here (origin (.ofString reported)) (Path.ofString reported).names.reverse) :
      Astray host s (.linkLoop link)
  | zeroByte {reported : String} {path : Option Path} (hf : host.frozen = some reported)
      (hz : '\x00' ∈ reported.toList)
      (hl : s.tree.canonical s.here (.ofString reported) = .error (.refused path .zeroByte)) : Astray host s .zeroByte

theorem programPath_error_cases (ht : s.tree.Proper) (h : programPath host s.tree s.here = .error f) :
    f.category = .trouble .executable ∨ Astray host s f := by
  cases programPath_error_iff.1 h with
  | unreported he => exact .inl (category_of_executablePath he)
  | looped hr hc => exact .inr (.looped hr hc (circles_of_canonical hc))
  | zeroByte hr hc =>
    have hz := zero_of_canonical ht hc
    exact .inr (.zeroByte (frozen_of_zero ht hr hz) hz hc)
  | missing => exact .inl rfl

theorem executablePath_of_frozen (hf : host.frozen = some reported) (hne : reported ≠ "") {profile : Profile} :
    executablePath host t here profile = .ok reported := by
  have hfilter : host.frozen.filter (· ≠ "") = some reported := by simp [hf, hne]
  unfold executablePath
  rw [hfilter]

theorem programPath_of_astray (h : Astray host s f) : programPath host s.tree s.here = .error f := by
  refine programPath_error_iff.2 ?_
  cases h with
  | looped hr hl => exact .looped hr hl
  | @zeroByte reported _ hf hz hl =>
    have hne : reported ≠ "" := by
      rintro rfl
      cases hz
    exact .zeroByte (executablePath_of_frozen hf hne) hl

/-! ## Calls -/

def Call.isForProgram : Call → Bool
  | .processPath | .processDir => true
  | _ => false

/-- The call is not answered by what is kept. -/
inductive Inquires (s : State) : Call → Prop where
  | path (hp : s.kept.programPath = none) : Inquires s .processPath
  | dir (hp : s.kept.programPath = none) (hd : s.kept.programDir = none) : Inquires s .processDir

/-- The ends of a call for the program that are documented. -/
inductive Introspected : Except Failure Result → Prop where
  | found {p : Path} : Introspected (.ok (.path p))
  | failed {f : Failure} (h : f.category = .trouble .executable) : Introspected (.error f)

def programIn (host : Host) (s : State) : Call → Except Failure Path
  | .processDir => programDirIn host s
  | _ => programPathIn host s

theorem run_program (hc : c.isForProgram = true) : ((c.action host).run s).1 = (programIn host s c).map .path := by
  cases c with
  | processPath => exact (looks_processPath host s).map.result
  | processDir => exact (looks_processDir host s).map.result
  | _ => cases hc

theorem programIn_of_astray (hi : Inquires s c) (h : Astray host s f) : programIn host s c = .error f := by
  cases hi with
  | path hp =>
    unfold programIn programPathIn
    rw [hp]
    exact programPath_of_astray h
  | dir hp hd =>
    unfold programIn programDirIn programPathIn
    rw [hp, hd]
    exact congrArg (·.map Path.parent) (programPath_of_astray h)

theorem error_of_keptElse {α : Type} {kept : Option α} {found : Except Failure α} (h : keptElse kept found = .error f) :
    kept = none ∧ found = .error f := by
  cases kept with
  | some a => cases h
  | none => exact ⟨rfl, h⟩

theorem programIn_error (hc : c.isForProgram = true) (h : programIn host s c = .error f) :
    Inquires s c ∧ programPath host s.tree s.here = .error f := by
  cases c with
  | processPath =>
    obtain ⟨hp, he⟩ := error_of_keptElse h
    exact ⟨.path hp, he⟩
  | processDir =>
    obtain ⟨hd, hmap⟩ := error_of_keptElse h
    obtain ⟨hp, he⟩ := error_of_keptElse (error_of_map_error hmap)
    exact ⟨.dir hp hd, he⟩
  | _ => cases hc

/-- In every state that a session reaches, a call for the program that is not answered by what is kept ends as
documented exactly if the search does not go astray. Where it does, the call fails with that. -/
theorem program_ends_as_documented_iff {env : Environment} {plan : List Planned} {dir : String} {steps : List Step}
    (hc : c.isForProgram = true) :
    let s := (Session.run host (.start env plan dir) steps).2
    let x := (c.action host).run s
    (Introspected x.1 ↔ (Inquires s c → ∀ f, ¬Astray host s f)) ∧
      (Inquires s c → ∀ f, Astray host s f → x.1 = .error f) := by
  intro s x
  have hproper : s.IsProper := proper_run env plan dir steps
  have hrun : x.1 = (programIn host s c).map .path := run_program hc
  have hcertain : Inquires s c → ∀ f, Astray host s f → x.1 = .error f := fun hi f h => by
    rw [hrun, programIn_of_astray hi h]
    rfl
  refine ⟨⟨fun hdoc hi f h => ?_, fun hnone => ?_⟩, hcertain⟩
  · rw [hcertain hi f h] at hdoc
    cases hdoc with
    | failed hf => cases h <;> cases hf
  · rw [hrun]
    cases hfound : programIn host s c with
    | ok p => exact .found
    | error f =>
      obtain ⟨hi, he⟩ := programIn_error hc hfound
      rcases programPath_error_cases hproper.tree he with hf | ha
      · exact .failed hf
      · exact absurd ha (hnone hi f)

/-- The program is reported at a link to its own name. -/
theorem program_ends_as_documented_iff_circle :
    let plan := [Planned.link "/proc/self/exe" "/bin/jank", .link "/bin/jank" "jank"]
    let s := (Session.run plainHost (.start {} plan "/") []).2
    let x := (Call.processPath.action plainHost).run s
    x.1 = .error (.linkLoop ⟨.root, ["jank", "bin"]⟩) ∧ ¬Introspected x.1 := by
  intro plan s x
  have hreported : executablePath plainHost s.tree s.here plainHost.profile = .ok "/bin/jank" := by decide +kernel
  have hloop : s.tree.canonical s.here (.ofString "/bin/jank") = .error (.loop ⟨.root, ["jank", "bin"]⟩) := by
    decide +kernel
  have hastray : Astray plainHost s (.linkLoop ⟨.root, ["jank", "bin"]⟩) :=
    .looped hreported hloop (circles_of_canonical hloop)
  have hinquires : Inquires s .processPath := .path rfl
  obtain ⟨hiff, hcertain⟩ := @program_ends_as_documented_iff plainHost .processPath {} plan "/" [] rfl
  exact ⟨hcertain hinquires _ hastray, fun hdoc => hiff.1 hdoc hinquires _ hastray⟩

/-- A link to its own name makes a call for the program fail in another way than by the executable. -/
theorem circle_of_links_escapes :
    ¬∀ (host : Host) (env : Environment) (plan : List Planned) (dir : String) (steps : List Step) (c : Call),
      c.isForProgram = true → ∀ f,
        ((c.action host).run (Session.run host (.start env plan dir) steps).2).1 = .error f →
          f.category = .trouble .executable := by
  intro h
  have hfailed : ((Call.processPath.action plainHost).run (Session.run plainHost
      (.start {} [.link "/proc/self/exe" "/bin/jank", .link "/bin/jank" "jank"] "/") []).2).1 =
        .error (.linkLoop ⟨.root, ["jank", "bin"]⟩) := by decide +kernel
  cases h _ _ _ _ _ .processPath rfl _ hfailed

end Whereabouts
