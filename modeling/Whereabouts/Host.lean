import Whereabouts.Platform
import Whereabouts.UserDirs

/-!
# Hosts

What stays the same while a program runs: the platform, the accounts, the library that knows the
standard directories, and what the system answers when it is asked for the program's path or for the
SDK. The environment changes and is a value of its own.
-/

namespace Whereabouts

structure ImageReport where
  path : String := ""
  refused : Bool := false
deriving Repr

inductive ModuleReport where
  | path (text : String)
  | refused (code : Nat)
deriving Repr

/-- How the tool that knows the SDK's path ends. Its output is text: output that does not decode, which
would be an error of the decoder, is not represented. -/
inductive SdkTool where
  | notInstalled
  | timedOut
  | exited (code : Int) (output : String)
deriving Repr

structure Host where
  platform : String
  machine : String
  /-- The interpreter that the program runs under, and its release. -/
  implementation : String
  release : Nat × Nat
  packageResources : Path
  accounts : Option Accounts := some {}
  userDirs : UserDirs := .standard
  /-- The path that the bundler of a frozen program reports. -/
  frozen : Option String := none
  image : ImageReport := {}
  module : ModuleReport := .path ""
  sdkTool : SdkTool := .notInstalled
  /-- The name parts to try for temporary files, from the start again after the last. -/
  tempNames : List String := []
  /-- The names that are tried for one temporary file. -/
  tempAttempts : Nat := 10000

def Host.profile (host : Host) : Profile := profileFor host.platform

def Host.ownHome? (host : Host) : Option String := host.accounts.bind (·.own)

def Host.homeOf? (host : Host) (user : String) : Option String :=
  host.accounts.bind (·.named.lookup user)

end Whereabouts
