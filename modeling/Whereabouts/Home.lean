import Whereabouts.Failure
import Whereabouts.FileTree.Basic
import Whereabouts.Host

/-!
# Homes

Where the user's home is: by the variables of the platform, by the account database, and as the
tilde at the start of a path. `absolutePath` is the one way from a raw value to a path, and `userDir`
asks the library for the directories that the platform sets aside.
-/

namespace Whereabouts

def homeFromEnv (profile : Profile) (env : Environment) : Option String :=
  (profile.homeVars.findSome? env.value?).or do
    let (driveVar, pathVar) ← profile.homeDriveVars
    let drive ← env.value? driveVar
    let path ← env.value? pathVar
    pure (drive ++ path)

/-- The current user's home by the account database, unless it is empty there. -/
def homeFromAccounts (host : Host) : Option String := host.ownHome?.filter (· ≠ "")

/-- What a tilde and a user's name stand for; the current user where the name is empty. -/
def tildeHome? (host : Host) (env : Environment) (user : String) : Option String :=
  if user = "" then (env.get? "HOME").or host.ownHome? else host.homeOf? user

/-- The path with the home in place of a leading tilde; unchanged if there is no such home. -/
def expandTilde (host : Host) (env : Environment) (raw : String) : String :=
  match raw.toList with
  | '~' :: rest =>
    match tildeHome? host env (String.ofList (rest.takeWhile (· ≠ '/'))) with
    | none => raw
    | some home =>
      let path := withoutTrailingSlashes home ++ String.ofList (rest.dropWhile (· ≠ '/'))
      if path = "" then "/" else path
  | _ => raw

def hereDir (here : Option Location) : Except Failure Path :=
  match here with
  | some loc => .ok ⟨.root, loc⟩
  | none => .error (.system { why := .noEntry, path := none })

/-- The path in normal form, a relative one seen from the directory that the program works in. -/
def fromHere (here : Option Location) (p : Path) : Except Failure Path :=
  if p.isAbsolute then .ok p.normal else (hereDir here).map fun dir => (dir ++ p).normal

/-- The absolute path in normal form that a raw value means. -/
def absolutePath (host : Host) (env : Environment) (here : Option Location) (raw : String) :
    Except Failure Path :=
  fromHere here (.ofString (expandTilde host env raw))

/-- A standard directory as the library gives it, which need not be an absolute path. -/
def userDir (host : Host) (env : Environment) (dir : UserDir) : Except Failure Path :=
  (host.userDirs.find host.platform host.accounts env "jank" dir).mapError .homeUndetermined

end Whereabouts
