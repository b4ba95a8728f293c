import Whereabouts.Cli.Run
import Whereabouts.FileTree.Build
import Whereabouts.Session.Step

/-!
# The program

Looks at the part of the system that a command line depends on, runs the command line on what was
seen, and then makes what the run made. The first run is on the landmarks alone and shows which
entries the command would make; these are looked at before the second run, which counts. All
directories are taken to be usable until the system refuses to make something in them.
-/

namespace Whereabouts.CommandLine

/-! ## Looking -/

def watchedVars : List String :=
  ["JANK_HOME", "JANK_CONFIG_DIR", "JANK_CACHE_DIR", "JANK_RESOURCE_DIR", "JANK_BUILD_FLAGS",
   "HOME", "USERPROFILE", "HOMEDRIVE", "HOMEPATH", "XDG_CONFIG_HOME", "XDG_CACHE_HOME", "SDKROOT",
   "TMPDIR", "TEMP", "TMP"]

def readEnvironment : IO Environment := do
  let vars ← watchedVars.filterMapM fun name => do
    pure ((← IO.getEnv name).map (name, ·))
  pure { vars }

def accountOf (line : String) : Option (String × String) :=
  match cut ':' line with
  | [user, _, _, _, _, home, _] => some (user, home)
  | _ => none

def readAccounts : IO (Option Accounts) := do
  try
    let lines ← IO.FS.lines "/etc/passwd"
    let named := lines.toList.filterMap accountOf
    let own := (← IO.getEnv "USER").bind (List.lookup · named)
    pure (some { own, named })
  catch _ => pure none

def kindAt (p : Path) : IO (Option IO.FS.FileType) := do
  try
    let here ← IO.currentDir
    pure (some (← (here / p.toString).symlinkMetadata).type)
  catch _ => pure none

def readPlatform : IO String := do
  if (← IO.getEnv "OS") = some "Windows_NT" then return "win32"
  if (← kindAt (.ofString "/proc/self/exe")).isSome then return "linux"
  if (← kindAt (.ofString "/System/Library")).isSome then return "darwin"
  return "posix"

/-- Parts of names that are new with near certainty. -/
def newNameParts : IO (List String) :=
  (List.range 16).mapM fun _ => do
    let letters ← (List.range 8).mapM fun _ => do pure (Char.ofNat (97 + (← IO.rand 0 25)))
    pure (String.ofList letters)

def readHost : IO Host := do
  let app := (← IO.appPath).toString
  pure
    { platform := ← readPlatform
      machine := (← IO.getEnv "HOSTTYPE").getD ""
      implementation := "native"
      release := (4, 33)
      packageResources := (Path.ofString app).parent.child "resources"
      accounts := ← readAccounts
      image := { path := app }
      module := .path app
      tempNames := ← newNameParts }

/-- The entries from a directory along the names, as far as they are there. A link stands for where
it leads in the end. -/
def look (base : Path) : List String → IO (List Planned)
  | [] => pure []
  | name :: rest => do
    let p := base.child name
    match ← kindAt p with
    | none => pure []
    | some .dir => pure (.dir p.toString 0o755 :: (← look p rest))
    | some .symlink =>
      try
        let real := (← IO.FS.realPath p.toString).toString
        let below ← look (.ofString real) rest
        let isDir := (← kindAt (.ofString real)) == some .dir
        let there := if isDir then Planned.dir real 0o755 else .file real ""
        pure (there :: .link p.toString real :: below)
      catch _ => pure []
    | some _ => pure [.file p.toString ""]

def lookAll (ps : List Path) : IO (List Planned) := do
  pure (← ps.mapM fun p => look ⟨p.anchor, []⟩ p.names.reverse).flatten

def landmarks (host : Host) (env : Environment) (app dir : Path) : List Path :=
  let here := some dir.names
  [dir, app, host.packageResources] ++
    (besideProgram app.parent).map (·.1.normal) ++
    ((env.value? "JANK_RESOURCE_DIR").map fun raw =>
      (app.parent ++ .ofString (expandTilde host env raw)).normal).toList ++
    (tempDirCandidates env here).filterMap fun c => (tempDirPath here c).toOption.map .ofString

/-! ## Making -/

def newNodes (t t' : FileTree) : List (Location × Node) :=
  (t'.entries.filter fun e => (t.get? e.1).isNone).mergeSort fun a b => a.1.length ≤ b.1.length

def rightsOf (mode : Mode) : IO.FileRight :=
  let digit (shift : Nat) : IO.AccessRight :=
    { read := mode.testBit (shift + 2), write := mode.testBit (shift + 1),
      execution := mode.testBit shift }
  { user := digit 6, group := digit 3, other := digit 0 }

def make (loc : Location) (node : Node) : IO Unit := do
  let path := (Path.mk .root loc).toString
  match node with
  | .dir mode =>
    IO.FS.createDir path
    IO.setAccessRights path (rightsOf mode)
  | .file mode text =>
    let handle ← IO.FS.Handle.mk path .writeNew
    handle.putStr text
    IO.setAccessRights path (rightsOf mode)
  | .link _ => pure ()

/-! ## Printing -/

def usage : String :=
  "Usage: jankenv [--version] [--verbose] [--help] COMMAND\n\n" ++
  "Commands:\n" ++
  "  paths [--version-string TEXT]  Resolve and print the toolchain's directories.\n" ++
  "  flags [ARGS]...                Print ARGS followed by the platform's mandatory flags.\n" ++
  "  mktemp [--prefix TEXT]         Create an empty temporary file and print its path."

def printed : Cli.Printed → String
  | .line text => text
  | .table title columns rows =>
    String.intercalate "\n" (title :: String.intercalate "\t" columns ::
      rows.map fun r => r.1 ++ "\t" ++ (r.2 : String))

def conclude : Cli.Ending → IO UInt32
  | .told code => do
    if code = 0 then IO.println usage else IO.eprintln usage
    pure code.toUInt32
  | .exited code output console => do
    IO.print (output : String)
    console.forM fun p => IO.println (printed p)
    pure code.toUInt32
  | .failed failure output console => do
    IO.print (output : String)
    console.forM fun p => IO.println (printed p)
    IO.eprintln failure.message
    pure 1

def run (args : List String) : IO UInt32 := do
  let host ← readHost
  let env ← readEnvironment
  let dir := Path.ofString (← IO.currentDir).toString
  let app := Path.ofString host.image.path
  let own := Planned.link "/proc/self/exe" app.toString
  let known := own :: (← lookAll (landmarks host env app dir))
  let before := State.start env known dir.toString
  let tried := ((Cli.run host args).run before).2
  let places := (newNodes before.tree tried.tree).map fun e => Path.mk .root e.1
  let start := State.start env (known ++ (← lookAll places)) dir.toString
  let (ending, after) := (Cli.run host args).run start
  (newNodes start.tree after.tree).forM fun e => make e.1 e.2
  after.log.forM fun line => IO.eprintln line
  conclude ending

end Whereabouts.CommandLine

def main (args : List String) : IO UInt32 := Whereabouts.CommandLine.run args
