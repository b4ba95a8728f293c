import Whereabouts.Session.State

/-!
# Temporary files

A temporary file is new and empty, and its name is the wanted start with a part that was not in use.
The directory is the first usable one of those that the environment and the system propose, and is
found once. `tempFileName` tries one name after another; a name that is in use costs an attempt.
-/

namespace Whereabouts

def fiveDigits (n : Nat) : String :=
  let ds := Nat.toDigits 10 n
  String.ofList (List.replicate (5 - ds.length) '0' ++ ds)

/-- The name part that is tried after `n` others. -/
def tempNamePart (host : Host) (n : Nat) : String :=
  match host.tempNames[n % host.tempNames.length]? with
  | some part => part
  | none => "t" ++ fiveDigits n

/-- The directories that may hold temporary files, in the order of preference. -/
def tempDirCandidates (env : Environment) (here : Option Location) : List String :=
  ["TMPDIR", "TEMP", "TMP"].filterMap env.value? ++ ["/tmp", "/var/tmp", "/usr/tmp"] ++
    [match here with
      | some loc => (Path.mk .root loc).toString
      | none => "."]

/-- A file can be made in the directory and taken away again. -/
def holdsFiles (t : FileTree) (here : Option Location) (dir : String) : Bool :=
  match t.stat here (.ofString dir) with
  | .ok (_, .dir mode) => mode.writable && mode.searchable
  | _ => false

/-- A candidate as an absolute path; a dot stays as it is. -/
def tempDirPath (here : Option Location) (candidate : String) : Except Failure String :=
  if candidate = "." then .ok candidate
  else (fromHere here (.ofString candidate)).map Path.toString

def firstTempDir (t : FileTree) (here : Option Location) :
    List String → Except Failure (Option String)
  | [] => .ok none
  | candidate :: rest => do
    let dir ← tempDirPath here candidate
    if holdsFiles t here dir then pure (some dir) else firstTempDir t here rest

def tempFaultOf : Failure → TempFault
  | .system e => .refused e.why
  | f => .notClosed f.message

def tempDir (start : String) : Action String := do
  let s ← get
  match s.tempDir with
  | some dir => pure dir
  | none =>
    let candidates := tempDirCandidates s.env s.here
    match firstTempDir s.tree s.here candidates with
    | .error f => throw (.noTempFile start (tempFaultOf f))
    | .ok none => throw (.noTempFile start (.noDirectory candidates))
    | .ok (some dir) =>
      set { s with tempDir := some dir }
      pure dir

/-- The text of an entry's path in a directory; an absolute name stands for itself. -/
def entryText (dir name : String) : String :=
  if beginsWith name "/" then name
  else if dir.toList.getLast? = some '/' then dir ++ name
  else s!"{dir}/{name}"

/-- The tree with a new file for the first free name of at most `attempts`, the file's path, and how
many names were tried in all. -/
def tempFileName (host : Host) (t : FileTree) (here : Option Location) (dir start : String) :
    (attempts tried : Nat) → Except TempFault (FileTree × String) × Nat
  | 0, tried => (.error .namesExhausted, tried)
  | attempts + 1, tried =>
    let path := entryText dir (start ++ tempNamePart host tried)
    match t.makeFile here (.ofString path) with
    | .ok t' => (.ok (t', path), tried + 1)
    | .error .exist => tempFileName host t here dir start attempts (tried + 1)
    | .error why => (.error (.refused why), tried + 1)

structure CloseFault where
  number : Nat
  text : Option String
deriving DecidableEq, Repr

/-- The words for a failed close. A fault without words of its own is named by its number. -/
def CloseFault.message : CloseFault → String
  | { text := none, .. } => "close failed"
  | { number, text := some text } => if text = "" then s!"[Errno {number}] " else text

def removeFile (file : String) : Action Unit := do
  let s ← get
  match s.tree.unlink s.here (.ofString file) with
  | .ok t => set { s with tree := t }
  | .error why => throw (.ofRefusal why (some file))

/-- A new empty file in a directory. If it cannot be closed it is removed again. -/
def newFile (host : Host) (start : String) (close : Option CloseFault) (s : State) (dir : String) :
    Action Path := do
  let (made, tried) := tempFileName host s.tree s.here dir start host.tempAttempts s.tempTried
  set { s with tempTried := tried }
  match made with
  | .error (.refused .zeroByte) => throw .zeroByte
  | .error fault => throw (.noTempFile start fault)
  | .ok (t, file) =>
    modify fun s => { s with tree := t }
    match close with
    | some fault =>
      removeFile file
      throw (.noTempFile start (.notClosed fault.message))
    | none =>
      let p ← ExceptT.mk (pure (fromHere s.here (.ofString file)))
      debug "tempfiles" s!"created temporary file {p}"
      pure p

/-- A new empty file in the directory for temporary files. That directory is determined before the
close that is to fail is prepared. -/
def makeTempFile (host : Host) (start : String) (close : Option CloseFault := none) :
    Action Path := do
  if close.isSome then
    let _ ← tryCatch (some <$> tempDir start) fun _ => pure none
  if start.toList.contains '/' then throw (.separatorInStart start)
  let dir ← tempDir start
  let s ← get
  match fromHere s.here (.ofString dir) with
  | .ok p => newFile host start close s p.toString
  | .error f => throw (.noTempFile start (tempFaultOf f))

end Whereabouts
