import Whereabouts.Cli.Run
import Whereabouts.FileTree.Build
import Whereabouts.Log

/-!
# Sessions

A session is a sequence of steps on the state of one program: calls of the library, changes of the
world around it, and looks at what came of them. `Session.step` runs one step and gives its answer
with the lines that it logged; `Session.run` runs a whole session.
-/

namespace Whereabouts

inductive Call where
  | homeDir
  | configDir
  | cacheRoot
  | cacheDir (version : Option String)
  | binaryCacheDir (version : Option String)
  | resourceDir
  | processPath
  | processDir
  | buildVersion
  | targetTriple
  | versionSegment (version : Option String)
  | sdkPath
  | addSystemFlags (args : List String)
  | makeTempFile (start : String) (close : Option CloseFault)
  | ensureDir (path : Path)
  | envVar (name : Option String)
  | profile
  | homeFromEnv (profile : Option Profile)
  | homeFromAccounts
  | executablePath (profile : Option Profile)
deriving Repr

inductive Result where
  | path (p : Path)
  | text (s : String)
  | optional (s : Option String)
  | texts (ss : List String)
  | profile (p : Profile)
deriving DecidableEq, Repr

def Call.action (host : Host) : Call → Action Result
  | homeDir => Result.path <$> Whereabouts.homeDir host
  | configDir => Result.path <$> Whereabouts.configDir host
  | cacheRoot => Result.path <$> Whereabouts.cacheRoot host
  | cacheDir version => Result.path <$> Whereabouts.cacheDir host version
  | binaryCacheDir version => Result.path <$> Whereabouts.binaryCacheDir host version
  | resourceDir => Result.path <$> Whereabouts.resourceDir host
  | processPath => Result.path <$> Whereabouts.processPath host
  | processDir => Result.path <$> Whereabouts.processDir host
  | buildVersion => Result.text <$> Whereabouts.buildVersion host
  | targetTriple => pure (.text (Whereabouts.targetTriple host))
  | versionSegment version => Result.text <$> Whereabouts.versionSegment host version
  | sdkPath => Result.optional <$> Whereabouts.sdkPath host
  | addSystemFlags args => Result.texts <$> Whereabouts.addSystemFlags host args
  | makeTempFile start close => Result.path <$> Whereabouts.makeTempFile host start close
  | ensureDir path => Result.path <$> Whereabouts.ensureDir path
  | envVar name => do
    let env := (← get).env
    pure (.optional (name.bind env.value?))
  | profile => pure (.profile host.profile)
  | homeFromEnv p => do
    let env := (← get).env
    pure (.optional (Whereabouts.homeFromEnv (p.getD host.profile) env))
  | homeFromAccounts => pure (.optional (Whereabouts.homeFromAccounts host))
  | executablePath p => do
    let s ← get
    match Whereabouts.executablePath host s.tree s.here (p.getD host.profile) with
    | .ok path => pure (.text path)
    | .error f => throw f

inductive Change where
  | setVar (name value : String)
  | unsetVar (name : String)
  | enter (path : String)
  | makeDir (path : String) (mode : Mode)
  | write (path text : String)
  | makeLink (path target : String)
  | setMode (path : String) (mode : Mode)
  | remove (path : String)
deriving Repr

def enterDir (t : FileTree) (here : Option Location) (r : Route) : Except Refusal Location := do
  match ← t.stat here r with
  | (loc, .dir mode) => if mode.searchable then pure loc else throw .denied
  | _ => throw .notDirectory

def hereAfterRemoval (here : Option Location) (removed : Location) : Option Location :=
  here.filter fun loc => !FileTree.isWithin loc removed

def Change.apply (s : State) : Change → Except Refusal State
  | setVar name value => .ok { s with env := s.env.set name value }
  | unsetVar name => .ok { s with env := s.env.unset name }
  | enter path => (enterDir s.tree s.here (.ofString path)).map ({ s with here := some · })
  | makeDir path mode => (s.tree.makeDir s.here (.ofString path) mode).map ({ s with tree := · })
  | write path text => (s.tree.writeFile s.here (.ofString path) text).map ({ s with tree := · })
  | makeLink path target =>
    (s.tree.makeLink s.here (.ofString path) target).map ({ s with tree := · })
  | setMode path mode => (s.tree.setMode s.here (.ofString path) mode).map ({ s with tree := · })
  | remove path => (s.tree.removeAt s.here (.ofString path)).map fun (t, loc) =>
    { s with tree := t, here := hereAfterRemoval s.here loc }

def Change.path : Change → Option String
  | setVar .. | unsetVar _ => none
  | enter path | makeDir path _ | write path _ | makeLink path _ | setMode path _ | remove path =>
    some path

inductive Listed where
  | dir (path : String) (mode : Mode)
  | file (path : String) (mode : Mode) (bytes : Nat)
  | link (path target : String)
deriving DecidableEq, Repr

def Listed.path : Listed → String
  | dir path _ | file path _ _ | link path _ => path

def listed (loc : Location) (node : Node) : Listed :=
  let path := (Path.mk .root loc).toString
  match node with
  | .dir mode => .dir path mode
  | .file mode text => .file path mode text.utf8ByteSize
  | .link target => .link path target

def FileTree.listing (t : FileTree) (top : Location) : List Listed :=
  let below := t.entries.filter (isWithin ·.1 top)
  (below.map fun e => listed e.1 e.2).mergeSort fun a b => a.path ≤ b.path

inductive Step where
  | call (c : Call)
  /-- So many threads make the call at once. -/
  | threads (c : Call) (count : Nat)
  | setupLogging (verbose : Bool)
  | log (level : Level) (name template : String) (args : List Argument)
  | clear (lookup : Lookup)
  | clearAll
  | commandLine (args : List String)
  | change (c : Change)
  | sdkRuns
  | listing (path : Path)
deriving Repr

inductive Answer where
  | nothing
  | result (r : Except Failure Result)
  | results (rs : List (Except Failure Result))
  | logging (verbose : Bool)
  | logger (name : String)
  | ending (e : Cli.Ending)
  | refused (f : Failure)
  | count (n : Nat)
  | listing (nodes : List Listed)

/-- A program that starts in a directory of a planned tree, with nothing kept or logged yet. It
entered the directory before the modes took effect. -/
def State.start (env : Environment) (plan : List Planned) (dir : String) : State :=
  { env, tree := .build plan,
    here := match (FileTree.planted plan).stat (some []) (.ofString dir) with
      | .ok (loc, .dir _) => some loc
      | _ => none }

namespace Session

/-- A call as often as there are threads: they come through one at a time. -/
def repeated (host : Host) (c : Call) : Nat → StateM State (List (Except Failure Result))
  | 0 => pure []
  | n + 1 => do
    let r ← ExceptT.run (c.action host)
    pure (r :: (← repeated host c n))

/-- What a message leaves. It is in the log if its level is shown and its arguments fit. -/
def logged (level : Level) (name template : String) (args : List Argument) (s : State) : State :=
  if level.isShown s.verbose then
    match formatRecord (loggerRoot ++ name) template args with
    | .ok line => { s with log := s.log ++ s.written line }
    | .error _ => s
  else s

/-- Whoever asks for a logger sets logging up. -/
def logMessage (level : Level) (name template : String) (args : List Argument) :
    StateM State Unit :=
  modify fun s => logged level name template args (s.setUpLogging false)

def answer (host : Host) : Step → StateM State Answer
  | .call c => do pure (.result (← ExceptT.run (c.action host)))
  | .threads c count => do pure (.results (← repeated host c count))
  | .setupLogging verbose => do
    modify (·.setUpLogging verbose)
    pure (.logging (← get).verbose)
  | .log level name template args => do
    logMessage level name template args
    pure (.logger (loggerRoot ++ name))
  | .clear lookup => do
    modify fun s => { s with kept := s.kept.clear lookup }
    pure .nothing
  | .clearAll => do
    modify fun s => { s with kept := {} }
    pure .nothing
  | .commandLine args => do pure (.ending (← Cli.run host args))
  | .change c => do
    match c.apply (← get) with
    | .ok s =>
      set s
      pure .nothing
    | .error why => pure (.refused (.ofRefusal why c.path))
  | .sdkRuns => do pure (.count (← get).sdkRuns)
  | .listing path => do
    let s ← get
    match fromHere s.here path with
    | .ok p => pure (.listing (s.tree.listing p.names))
    | .error f => pure (.refused f)

def step (host : Host) (s : State) (st : Step) : (Answer × List String) × State :=
  let (a, s') := (answer host st).run { s with log := [] }
  ((a, s'.log), s')

def run (host : Host) : State → List Step → List (Answer × List String) × State
  | s, [] => ([], s)
  | s, st :: sts =>
    let (a, s) := step host s st
    let (as, s) := run host s sts
    (a :: as, s)

end Session

end Whereabouts
