import Whereabouts.Executable
import Whereabouts.Session.State
import Whereabouts.Text.LowerCase
import Whereabouts.Version.Segment

/-!
# The program and its build

The canonical path of the running program, and the version that tells its builds apart: the release,
the target, and a digest of all that makes compiled artifacts differ.
-/

namespace Whereabouts

def release : String := "0.1.0"

def processPath (host : Host) : Action Path := once .programPath do
  let s ← get
  let p ← ExceptT.mk (pure (programPath host s.tree s.here))
  debug "process" s!"process path {p}"
  pure p

def processDir (host : Host) : Action Path := once .programDir do
  pure (← processPath host).parent

/-! ## Build versions -/

def targetTriple (host : Host) : String :=
  let machine := if host.machine = "" then "unknown" else host.machine
  toLowerCase s!"{machine}-{host.profile.name}"

def buildTraits (host : Host) (env : Environment) : List String :=
  let (major, minor) := host.release
  [release, targetTriple host, host.implementation, s!"{major}.{minor}",
    (env.value? "JANK_BUILD_FLAGS").getD ""]

def buildDigestLength : Nat := 12

/-- The digest of the traits, with the zero character between them. -/
def buildDigest (traits : List String) : String :=
  String.ofList ((textDigest (glue '\x00' (traits.map String.toList))).take buildDigestLength)

def buildVersionOf (host : Host) (env : Environment) : String :=
  s!"{release}-{targetTriple host}-{buildDigest (buildTraits host env)}"

def buildVersion (host : Host) : Action String := once .buildVersion do
  pure (buildVersionOf host (← get).env)

/-- The segment of a version, by default of the running build. -/
def versionSegment (host : Host) (version : Option String) : Action String := do
  let v ← match version with
    | some v => pure v
    | none => buildVersion host
  match versionSegment? v with
  | some segment => pure segment
  | none => throw .blankVersion

end Whereabouts
