import Whereabouts.Session.Program

/-!
# Directories of the toolchain

Home, configuration and caches. Each has a variable that overrides everything else, then follows
the conventions of the platform. The caches of different versions lie in different directories
below one root.
-/

namespace Whereabouts

inductive HomeSource where
  | override
  | environment
  | accounts
deriving DecidableEq, Repr

def HomeSource.text : HomeSource → String
  | .override => "JANK_HOME"
  | .environment => "environment"
  | .accounts => "password database"

/-- The home as it is written where it was found: in the override, in the platform's variables, or
in the account database. -/
def rawHome (host : Host) (env : Environment) : Option (String × HomeSource) :=
  ((env.value? "JANK_HOME").map (·, HomeSource.override)).or
    (((homeFromEnv host.profile env).map (·, HomeSource.environment)).or
      (if host.profile.usesAccounts then (homeFromAccounts host).map (·, HomeSource.accounts)
       else none))

def homePath (host : Host) (env : Environment) (here : Option Location) :
    Except Failure (Path × HomeSource) :=
  match rawHome host env with
  | none => .error (.homeUnknown host.profile.name)
  | some (raw, source) => (absolutePath host env here raw).map (·, source)

/-- The directory that the variable names, or else the standard one of the library. -/
def settledPath (host : Host) (var : String) (dir : UserDir) (env : Environment) (here : Option Location) :
    Except Failure Path :=
  match env.value? var with
  | some raw => absolutePath host env here raw
  | none => do
    let p ← userDir host env dir
    absolutePath host env here p.toString

def configPath (host : Host) (env : Environment) (here : Option Location) : Except Failure Path :=
  settledPath host "JANK_CONFIG_DIR" .config env here

def cacheRootPath (host : Host) (env : Environment) (here : Option Location) :
    Except Failure Path :=
  settledPath host "JANK_CACHE_DIR" .cache env here

/-- A path that depends on nothing but the environment and the working directory. -/
def located {α : Type} (path : Environment → Option Location → Except Failure α) : Action α := do
  let s ← get
  ExceptT.mk (pure (path s.env s.here))

def homeDir (host : Host) : Action Path := once .homeDir do
  let (p, source) ← located (homePath host)
  debug "config" s!"home directory {p} (from {source.text})"
  ensureDir p

def configDir (host : Host) : Action Path := once .configDir do
  let p ← located (configPath host)
  debug "config" s!"config directory {p}"
  ensureDir p

/-- The directory that the caches of all versions lie in; it need not be there. -/
def cacheRoot (host : Host) : Action Path := once .cacheRoot (located (cacheRootPath host))

def segmentCacheDir (host : Host) (segment : String) : Action Path := once (.cacheDir segment) do
  let p := (← cacheRoot host) ++ Path.ofString segment
  debug "config" s!"cache directory {p}"
  ensureDir p

def segmentBinaryDir (host : Host) (segment : String) : Action Path := once (.binaryDir segment) do
  let p := (← segmentCacheDir host segment).child "bin"
  debug "config" s!"binary cache directory {p}"
  ensureDir p

def cacheDir (host : Host) (version : Option String) : Action Path := do
  segmentCacheDir host (← versionSegment host version)

def binaryCacheDir (host : Host) (version : Option String) : Action Path := do
  segmentBinaryDir host (← versionSegment host version)

end Whereabouts
