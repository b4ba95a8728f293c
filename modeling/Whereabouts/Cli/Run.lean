import Whereabouts.Cli.Arguments
import Whereabouts.Cli.Console
import Whereabouts.Session.Flags
import Whereabouts.Session.Resources
import Whereabouts.Session.TempFiles

/-!
# Carrying out a command line

What a command line hands over for printing and the code that the program exits with. The `paths`
command shows each location or why there is none, and goes on either way; a failure that is not shown
ends the program.
-/

namespace Whereabouts.Cli

inductive Printed where
  | line (text : Markup)
  | table (title : String) (columns : List String) (rows : List (String × Markup))
deriving DecidableEq, Repr

inductive Ending where
  /-- Help or a usage message was printed. -/
  | told (code : Nat)
  | exited (code : Nat) (output : Echoed) (console : List Printed)
  | failed (failure : Failure) (output : Echoed) (console : List Printed)
deriving DecidableEq, Repr

def Stop.ending : Stop → Ending
  | .usage => .told 2
  | .help => .told 0
  | .version => .exited 0 {} [.line (.text s!"jankenv {release}")]

def lookups (host : Host) (version : Option String) : List (String × Action String) :=
  [("binary version", buildVersion host),
   ("home", Path.toString <$> homeDir host),
   ("config", Path.toString <$> configDir host),
   ("cache", Path.toString <$> cacheDir host version),
   ("binary cache", Path.toString <$> binaryCacheDir host version),
   ("process path", Path.toString <$> processPath host),
   ("process dir", Path.toString <$> processDir host),
   ("resources", Path.toString <$> resourceDir host)]

structure Row where
  label : String
  value : Markup
  found : Bool
deriving DecidableEq, Repr

/-- The rows of the lookups; a failure that is not shown ends the search. -/
def rows : List (String × Action String) → Action (List Row)
  | [] => pure []
  | (label, lookup) :: rest => do
    let row ← tryCatch ((fun text => Row.mk label (.escaped text) true) <$> lookup) fun f =>
      if f.isShown then pure ⟨label, .error f.message, false⟩ else throw f
    pure (row :: (← rows rest))

def table (rs : List Row) : Printed :=
  .table "jank locations" ["Location", "Value"] (rs.map fun r => (r.label, r.value))

def endingOf (action : Action Ending) : StateM State Ending := do
  match ← ExceptT.run action with
  | .ok ending => pure ending
  | .error f => pure (.failed f {} [])

def runPaths (host : Host) (version : Option String) : Action Ending := do
  let rs ← rows (lookups host version)
  pure (.exited (if rs.all (·.found) then 0 else 1) {} [table rs])

def runFlags (host : Host) (args : List String) : Action Ending := do
  pure (.exited 0 ⟨← addSystemFlags host args⟩ [])

def runMktemp (host : Host) (start : String) : Action Ending :=
  tryCatch
    (do pure (.exited 0 ⟨[(← makeTempFile host start).toString]⟩ []))
    fun f => match f.category with
      | .trouble (.tempFile _) | .badValue => pure (.exited 1 {} [.line (.error f.message)])
      | _ => throw f

def defaultStart : String := "jank_"

def runCommand (host : Host) (o : CommandOptions) : Command → Action Ending
  | .paths => runPaths host o.value
  | .flags => runFlags host o.arguments
  | .mktemp => runMktemp host (o.value.getD defaultStart)

/-- The program with these arguments. Logging is set up once its command is known. -/
def run (host : Host) (args : List String) : StateM State Ending := do
  match readLine args with
  | .error stop => pure stop.ending
  | .ok (command, verbose, rest) =>
    modify (·.setUpLogging verbose)
    match readOptions command rest with
    | .error stop => pure stop.ending
    | .ok o => endingOf (runCommand host o command)

end Whereabouts.Cli
