import Whereabouts.Proofs.Session.Outcomes
import Whereabouts.Proofs.Session.TempFiles

/-!
# How calls for temporary files end

`Drawn` says how the search for a free name ends, and `FileOutcome` how the whole call does: what was made, what is
returned or raised, and which names were tried (`outcome_makeTempFile`).
-/

namespace Whereabouts

open FileTree

variable {host : Host} {t : FileTree} {here : Option Location} {dir start : String} {tried last : Nat}

/-! ## The search for a free name -/

/-- The text of the path that is tried after so many others. -/
def triedFile (host : Host) (dir start : String) (n : Nat) : String :=
  entryText dir (start ++ tempNamePart host n)

/-- The name is in use, so that no file can be made by it. -/
def InUse (host : Host) (t : FileTree) (here : Option Location) (dir start : String) (n : Nat) : Prop :=
  t.makeFile here (.ofString (triedFile host dir start n)) = .error .exist

/-- The search stops at the first name that is not in use, or behind the last one. -/
inductive Drawn (host : Host) (t : FileTree) (here : Option Location) (dir start : String) (tried last : Nat) :
    Except TempFault (FileTree × String) × Nat → Prop where
  | exhausted (hused : ∀ k, tried ≤ k → k < last → InUse host t here dir start k) :
      Drawn host t here dir start tried last (.error .namesExhausted, last)
  | refused {n : Nat} {why : Refusal} (hle : tried ≤ n) (hlt : n < last)
      (hm : t.makeFile here (.ofString (triedFile host dir start n)) = .error why) (hne : why ≠ .exist) :
      Drawn host t here dir start tried last (.error (.refused why), n + 1)
  | made {n : Nat} {t' : FileTree} (hle : tried ≤ n) (hlt : n < last)
      (hm : t.makeFile here (.ofString (triedFile host dir start n)) = .ok t') :
      Drawn host t here dir start tried last (.ok (t', triedFile host dir start n), n + 1)

theorem Drawn.later {x : Except TempFault (FileTree × String) × Nat} (hused : InUse host t here dir start tried)
    (h : Drawn host t here dir start (tried + 1) last x) : Drawn host t here dir start tried last x := by
  cases h with
  | exhausted hrest =>
    refine .exhausted fun k hle hlt => ?_
    rcases Nat.eq_or_lt_of_le hle with rfl | hgt
    · exact hused
    · exact hrest k hgt hlt
  | refused hle hlt hm hne => exact .refused (Nat.le_of_succ_le hle) hlt hm hne
  | made hle hlt hm => exact .made (Nat.le_of_succ_le hle) hlt hm

theorem Drawn.of_made {t' : FileTree} {file : String} {k : Nat}
    (h : Drawn host t here dir start tried last (.ok (t', file), k)) :
    ∃ n, tried ≤ n ∧ n < last ∧ k = n + 1 ∧ file = triedFile host dir start n ∧
      t.makeFile here (.ofString file) = .ok t' := by
  cases h with
  | made hle hlt hm => exact ⟨_, hle, hlt, rfl, rfl, hm⟩

theorem Drawn.of_exhausted {k : Nat} (h : Drawn host t here dir start tried last (.error .namesExhausted, k)) :
    ∀ n, tried ≤ n → n < last → InUse host t here dir start n := by
  cases h with
  | exhausted hused => exact hused

theorem Drawn.of_refused {why : Refusal} {k : Nat}
    (h : Drawn host t here dir start tried last (.error (.refused why), k)) :
    ∃ n, tried ≤ n ∧ k = n + 1 ∧ t.makeFile here (.ofString (triedFile host dir start n)) = .error why := by
  cases h with
  | refused hle _ hm => exact ⟨_, hle, rfl, hm⟩

theorem drawn_tempFileName (attempts tried : Nat) :
    Drawn host t here dir start tried (tried + attempts) (tempFileName host t here dir start attempts tried) := by
  induction attempts generalizing tried with
  | zero => exact .exhausted fun k hle hlt => absurd hlt (Nat.not_lt.2 hle)
  | succ attempts ih =>
    have hlt : tried < tried + (attempts + 1) := by omega
    unfold tempFileName
    dsimp only
    split
    · next hm => exact .made (Nat.le_refl _) hlt hm
    · next hm =>
      have hrest := ih (tried + 1)
      rw [show tried + 1 + attempts = tried + (attempts + 1) by omega] at hrest
      exact hrest.later hm
    · next why hne hm => exact .refused (Nat.le_refl _) hlt hm hne

/-! ## Calls -/

section
variable {close : Option CloseFault} {s s' : State} {q : Path} {file : String}
  {found : Except TempFault (FileTree × String)} {x : Except Failure Path × State}

/-- The call looked for a free name in the directory, which it had found before or finds now. -/
structure Searched (host : Host) (start : String) (s : State) (dir : String) (q : Path)
    (found : Except TempFault (FileTree × String)) (s' : State) : Prop where
  noSlash : '/' ∉ start.toList
  kept : ∀ d, s.tempDir = some d → d = dir
  keeps : s'.tempDir = some dir
  path : fromHere s.here (.ofString dir) = .ok q
  search : tempFileName host s.tree s.here q.toString start host.tempAttempts s.tempTried = (found, s'.tempTried)

theorem Searched.drawn (h : Searched host start s dir q found s') :
    Drawn host s.tree s.here q.toString start s.tempTried (s.tempTried + host.tempAttempts) (found, s'.tempTried) := by
  rw [← h.search]
  exact drawn_tempFileName host.tempAttempts s.tempTried

/-- What a call for a temporary file comes to, with the state that it leaves. -/
inductive FileOutcome (host : Host) (start : String) (close : Option CloseFault) (s : State) :
    Except Failure Path × State → Prop where
  | slash {s' : State} (hs : '/' ∈ start.toList) (ht : s'.tree = s.tree) :
      FileOutcome host start close s (.error (.separatorInStart start), s')
  | noDirectory {fault : TempFault} {s' : State} (hf : fault ≠ .namesExhausted) (ht : s'.tree = s.tree) :
      FileOutcome host start close s (.error (.noTempFile start fault), s')
  | zeroByte {dir : String} {q : Path} {s' : State}
      (hs : Searched host start s dir q (.error (.refused .zeroByte)) s') (ht : s'.tree = s.tree) :
      FileOutcome host start close s (.error .zeroByte, s')
  | noName {dir : String} {q : Path} {fault : TempFault} {s' : State}
      (hs : Searched host start s dir q (.error fault) s') (ht : s'.tree = s.tree) :
      FileOutcome host start close s (.error (.noTempFile start fault), s')
  | notClosed {text : String} {s' : State} (ht : s'.tree = s.tree) :
      FileOutcome host start close s (.error (.noTempFile start (.notClosed text)), s')
  | made {dir file : String} {q : Path} {r : Except Failure Path} {s' : State} (hclose : close = none)
      (hs : Searched host start s dir q (.ok (s'.tree, file)) s') (hr : r = fromHere s.here (.ofString file)) :
      FileOutcome host start close s (r, s')

theorem FileOutcome.before (h : FileOutcome host start close { s with tempDir := some dir } x)
    (hkept : ∀ d, s.tempDir = some d → d = dir) : FileOutcome host start close s x := by
  have hsearched : ∀ {d q found s'}, Searched host start { s with tempDir := some dir } d q found s' →
      Searched host start s d q found s' := by
    intro d q found s' hs
    refine ⟨hs.noSlash, fun d' hd' => ?_, hs.keeps, hs.path, hs.search⟩
    rw [hkept d' hd']
    exact hs.kept dir rfl
  cases h with
  | slash hs ht => exact .slash hs ht
  | noDirectory hf ht => exact .noDirectory hf ht
  | zeroByte hs ht => exact .zeroByte (hsearched hs) ht
  | noName hs ht => exact .noName (hsearched hs) ht
  | notClosed ht => exact .notClosed ht
  | made hclose hs hr => exact .made hclose (hsearched hs) hr

theorem outcome_fileIn (hstart : '/' ∉ start.toList) (hdir : s.tempDir = some dir)
    (hq : fromHere s.here (.ofString dir) = .ok q) :
    FileOutcome host start close s ((fileIn host start close s q.toString).run s) := by
  have hsearched : ∀ {found s'}, s'.tempDir = some dir →
      tempFileName host s.tree s.here q.toString start host.tempAttempts s.tempTried = (found, s'.tempTried) →
      Searched host start s dir q found s' := by
    intro found s' hd hm
    refine ⟨hstart, fun d hk => ?_, hd, hq, hm⟩
    rw [hdir] at hk
    exact (Option.some.inj hk).symm
  unfold fileIn
  cases hm : tempFileName host s.tree s.here q.toString start host.tempAttempts s.tempTried with
  | mk made tried =>
    have hset : (set { s with tempTried := tried } : Action Unit).run s = (.ok (), { s with tempTried := tried }) := rfl
    dsimp only
    rw [Action.run_bind, hset]
    dsimp only
    split
    · exact .zeroByte (hsearched hdir hm) rfl
    · exact .noName (hsearched hdir hm) rfl
    · next tree file =>
      cases close with
      | some fault => exact .notClosed rfl
      | none =>
        rw [Action.run_modify, Action.run_bind]
        cases hp : fromHere s.here (.ofString file) with
        | error f => exact .made rfl (hsearched hdir hm) hp.symm
        | ok p =>
          show FileOutcome host start none s (Action.run (do debug _ _; pure p) _)
          rw [Action.run_bind, run_debug]
          exact .made rfl (hsearched hdir hm) hp.symm

theorem outcome_fileFrom (start : String) (close : Option CloseFault) (s : State) :
    FileOutcome host start close s ((fileFrom host start close).run s) := by
  unfold fileFrom
  split
  · next hslash => exact .slash (by simpa using hslash) rfl
  · next hslash =>
    rw [Action.run_bind]
    rcases run_tempDir start s with ⟨dir, hkept, hrun⟩ | ⟨fault, hf, hrun⟩
    · rw [hrun]
      dsimp only
      rw [Action.run_get]
      dsimp only
      cases hq : fromHere s.here (.ofString dir) with
      | error f => exact .noDirectory (tempFaultOf_ne f) rfl
      | ok q =>
        have hfile : FileOutcome host start close { s with tempDir := some dir } _ :=
          outcome_fileIn (by simpa using hslash) rfl hq
        exact hfile.before hkept
    · rw [hrun]
      exact .noDirectory hf rfl

theorem outcome_makeTempFile (start : String) (close : Option CloseFault) (s : State) :
    FileOutcome host start close s ((makeTempFile host start close).run s) := by
  rw [makeTempFile_eq]
  dsimp only
  split
  · rw [Action.run_bind, Action.run_tryCatch, Action.run_map]
    rcases run_tempDir start s with ⟨dir, hkept, hrun⟩ | ⟨fault, -, hrun⟩
    · rw [hrun]
      have hfile : FileOutcome host start close { s with tempDir := some dir } _ := outcome_fileFrom start close _
      exact hfile.before hkept
    · rw [hrun]
      exact outcome_fileFrom start close s
  · exact outcome_fileFrom start close s

end

end Whereabouts
