import Whereabouts.Proofs.Session.Lookups
import Whereabouts.Proofs.TempFile

/-!
# Temporary files side by side

Twins make the same temporary files. The path that is returned for one names an empty file.
-/

namespace Whereabouts

open FileTree

variable {host : Host} {counts : Bool} {s t : State}

/-- The path names an empty file, if the library draws names without slashes and the working
directory has a proper path. -/
def TempFileAt (host : Host) (p : Path) (s : State) : Prop :=
  host.NamesWithoutSlash → (∀ n ∈ s.here.getD [], n ≠ "" ∧ n ≠ "." ∧ '/' ∉ n.toList) →
    ∃ loc, s.tree.lstat s.here p.route = .ok (loc, .file 0o600 "")

theorem Extends.tempFileAt {s' : State} {p : Path} (h : Extends s s') (hp : TempFileAt host p s) :
    TempFileAt host p s' := by
  intro hn hh
  rw [h.here] at hh ⊢
  obtain ⟨loc, hl⟩ := hp hn hh
  exact ⟨loc, h.tree.lstat hl⟩

theorem agree_tempDir (hst : Twins host counts s t) (start : String) :
    Agree (Twins host counts) (tempDir start) (tempDir start) s t fun _ _ => True := by
  unfold tempDir
  refine .get ?_
  rw [hst.tempDir]
  cases s.tempDir with
  | some dir => exact .pure hst trivial
  | none =>
    have hdir : firstTempDir t.tree t.here (tempDirCandidates t.env t.here) =
        firstTempDir s.tree s.here (tempDirCandidates s.env s.here) := by
      rw [hst.tree, hst.env, hst.here]
    have hcand : tempDirCandidates t.env t.here = tempDirCandidates s.env s.here := by
      rw [hst.env, hst.here]
    dsimp only
    rw [hdir, hcand]
    split
    · exact .throw hst
    · exact .throw hst
    · next dir _ =>
      have hst' : Twins host counts { s with tempDir := some dir } { t with tempDir := some dir } :=
        hst.move ⟨rfl, rfl, .refl _⟩ ⟨rfl, rfl, .refl _⟩ rfl rfl
          (congrArg (fun b : State => { b with tempDir := some dir }) hst.bare)
      exact .bind (P := fun _ _ => True) (.set hst' ⟨rfl, rfl, .refl _⟩ trivial) fun _ _ _ hst'' _ _ =>
        .pure hst'' trivial

/-- What comes of a new file in the end: one that cannot be closed leaves the tree as it was. -/
def fileIn (host : Host) (start : String) (close : Option CloseFault) (s : State) (dir : String) :
    Action Path := do
  let (made, tried) := tempFileName host s.tree s.here dir start host.tempAttempts s.tempTried
  set { s with tempTried := tried }
  match made with
  | .error (.refused .zeroByte) => throw .zeroByte
  | .error fault => throw (.noTempFile start fault)
  | .ok (t, file) =>
    match close with
    | some fault => throw (.noTempFile start (.notClosed fault.message))
    | none =>
      modify fun s => { s with tree := t }
      let p ← ExceptT.mk (pure (fromHere s.here (.ofString file)))
      debug "tempfiles" s!"created temporary file {p}"
      pure p

theorem run_removeFile {file : String} {tree : FileTree} (h : s.tree.makeFile s.here (.ofString file) = .ok tree) :
    (removeFile file).run { s with tree := tree } = (.ok (), s) := by
  unfold removeFile
  rw [Action.run_get]
  dsimp only
  rw [unlink_makeFile h]
  rfl

theorem run_newFile (start : String) (close : Option CloseFault) (s : State) (dir : String) :
    (newFile host start close s dir).run t = (fileIn host start close s dir).run t := by
  unfold newFile fileIn
  cases hm : tempFileName host s.tree s.here dir start host.tempAttempts s.tempTried with
  | mk made tried =>
    rw [Action.run_bind, Action.run_bind]
    cases made with
    | error fault =>
      cases fault with
      | refused why => cases why <;> rfl
      | _ => rfl
    | ok found =>
      obtain ⟨tree, file⟩ := found
      cases close with
      | none => rfl
      | some fault =>
        obtain ⟨n, -, hmade⟩ := tempFileName_ok hm
        have hremoved := run_removeFile (s := { s with tempTried := tried }) hmade
        show (removeFile file >>= fun _ => throw _ : Action Path).run
          { s with tempTried := tried, tree := tree } = _
        rw [Action.run_bind, hremoved]
        rfl

theorem agree_fileIn (hst : Twins host counts s t) {start dir : String} (close : Option CloseFault) {q : Path}
    (hs : '/' ∉ start.toList) (hq : fromHere s.here (.ofString dir) = .ok q) :
    Agree (Twins host counts) (fileIn host start close s q.toString) (fileIn host start close t q.toString) s t
      (TempFileAt host) := by
  unfold fileIn
  have hsame : tempFileName host t.tree t.here q.toString start host.tempAttempts t.tempTried =
      tempFileName host s.tree s.here q.toString start host.tempAttempts s.tempTried := by
    rw [hst.tree, hst.here, hst.tempTried]
  rw [hsame]
  cases hm : tempFileName host s.tree s.here q.toString start host.tempAttempts s.tempTried with
  | mk made tried =>
    have hst' : Twins host counts { s with tempTried := tried } { t with tempTried := tried } :=
      hst.move ⟨rfl, rfl, .refl _⟩ ⟨rfl, rfl, .refl _⟩ rfl rfl
        (congrArg (fun b : State => { b with tempTried := tried }) hst.bare)
    refine .bind (P := fun _ s' => s'.tree = s.tree ∧ s'.here = s.here)
      (.set hst' ⟨rfl, rfl, .refl _⟩ ⟨rfl, rfl⟩) fun _ s' t' hst' _ ⟨htree, hhere⟩ => ?_
    split
    · exact .throw hst'
    · exact .throw hst'
    · next tree file =>
      cases close with
      | some fault => exact .throw hst'
      | none =>
        obtain ⟨n, -, hfile⟩ := tempFileName_ok hm
        have hgrows : Grows s'.tree tree := htree ▸ grows_makeFile hfile
        refine .bind (P := fun _ s'' => s''.tree = tree ∧ s''.here = s.here)
          (.modify (hst'.withTree hgrows) ⟨rfl, rfl, hgrows⟩ ⟨rfl, hhere⟩) fun _ s'' t'' hst'' _ ⟨htree', hhere'⟩ => ?_
        rw [hst.here]
        refine .bind (P := TempFileAt host) (.lift hst'' fun p hp => ?_) fun p s₃ t₃ hst₃ _ hp => ?_
        · intro hnames hh
          rw [hhere'] at hh ⊢
          obtain ⟨p', loc, hp', hl⟩ := tempFileName_made hnames (isNormal_fromHere hh hq) hs hm
          rw [hp] at hp'
          cases hp'
          exact ⟨loc, htree' ▸ hl⟩
        · exact .bind (agree_debug hst₃ _ _) fun _ _ _ hst₄ he _ => .pure hst₄ (he.tempFileAt hp)

/-- A new file, once the close that is to fail has been prepared. -/
def fileFrom (host : Host) (start : String) (close : Option CloseFault) : Action Path := do
  if start.toList.contains '/' then throw (.separatorInStart start)
  let dir ← tempDir start
  let s ← get
  match fromHere s.here (.ofString dir) with
  | .ok p => fileIn host start close s p.toString
  | .error f => throw (.noTempFile start (tempFaultOf f))

theorem agree_fileFrom (hst : Twins host counts s t) (start : String) (close : Option CloseFault) :
    Agree (Twins host counts) (fileFrom host start close) (fileFrom host start close) s t
      (TempFileAt host) := by
  unfold fileFrom
  split
  · exact .throw_bind hst
  · next hs =>
    refine .bind (agree_tempDir hst start) fun dir s' t' hst' _ _ => .get ?_
    rw [hst'.here]
    cases hq : fromHere s'.here (Path.ofString dir) with
    | error f => exact .throw hst'
    | ok q => exact agree_fileIn hst' close (by simpa using hs) hq

theorem makeTempFile_eq (host : Host) (start : String) (close : Option CloseFault) :
    makeTempFile host start close = (do
      if close.isSome then
        let _ ← tryCatch (some <$> tempDir start) fun _ => pure none
      fileFrom host start close) := by
  have hnew : newFile host start close = fileIn host start close := by
    funext s dir t
    exact run_newFile start close s dir
  unfold makeTempFile fileFrom
  generalize newFile host start close = new at hnew ⊢
  subst hnew
  rfl

theorem agree_makeTempFile (hst : Twins host counts s t) (start : String) (close : Option CloseFault) :
    Agree (Twins host counts) (makeTempFile host start close) (makeTempFile host start close) s t
      (TempFileAt host) := by
  rw [makeTempFile_eq]
  dsimp only
  split
  · refine .bind (P := fun _ _ => True) ?_ fun _ _ _ hst' _ _ => agree_fileFrom hst' start close
    refine .tryCatch (.map (agree_tempDir hst start) fun _ _ _ => trivial) fun _ _ _ hst' _ => ?_
    exact .pure hst' trivial
  · exact agree_fileFrom hst start close

end Whereabouts
