import Whereabouts.Path
import Whereabouts.Refusal
import Whereabouts.Text.Quoted

/-!
# Failures

Every way in which a location or a file cannot be produced, as its cause. `Failure.message` is the
one place where the causes are put into words. A failure that belongs to a `Trouble` has a text
that begins with what the trouble is about.
-/

namespace Whereabouts

structure SystemError where
  why : Refusal
  path : Option String
deriving DecidableEq, Repr

def SystemError.message (e : SystemError) : String :=
  s!"[Errno {e.why.number}] {e.why.text}" ++
    match e.path with
    | some p => ": " ++ quoted p
    | none => ""

inductive Trouble where
  | general
  | location
  | directory (path : Path)
  | executable
  | tempFile (start : String)
deriving DecidableEq, Repr

def Trouble.message (reason : String) : Trouble → String
  | .directory path => s!"Cannot use directory {path}: {reason}"
  | .tempFile start => s!"Cannot create temporary file with prefix {quoted start}: {reason}"
  | _ => reason

inductive DirectoryFault where
  | occupied
  | notWritable
  | refused (why : Refusal)
deriving DecidableEq, Repr

def DirectoryFault.text : DirectoryFault → String
  | .occupied => "a non-directory file is in the way"
  | .notWritable => "not writable by the current process"
  | .refused why => why.text

inductive TempFault where
  | noDirectory (tried : List String)
  | namesExhausted
  | refused (why : Refusal)
  | notClosed (text : String)
deriving DecidableEq, Repr

def TempFault.text : TempFault → String
  | .noDirectory tried => "No usable temporary directory found in " ++ quotedList tried
  | .namesExhausted => "No usable temporary file name found"
  | .refused why => why.text
  | .notClosed text => text

inductive Failure where
  | homeUnknown (platform : String)
  | noResources (tried : List Path)
  | unusable (path : Path) (fault : DirectoryFault)
  | linkUnreadable (link : String) (why : Refusal)
  | noIntrospection (platform : String)
  | imagePathRefused
  | moduleNameRefused (code : Nat)
  | moduleNameTooLong
  | executableMissing (reported : String) (cause : SystemError)
  | noTempFile (start : String) (fault : TempFault)
  | blankVersion
  | separatorInStart (start : String)
  | zeroByte
  | homeUndetermined (wanted : String)
  | linkLoop (link : Path)
  | system (error : SystemError)
deriving DecidableEq, Repr

/-- The kinds of failure that a caller tells apart. -/
inductive Category where
  | trouble (about : Trouble)
  | badValue
  | unresolved
  | system (why : Refusal)
deriving DecidableEq, Repr

namespace Failure

def ofRefusal (why : Refusal) (path : Option String) : Failure :=
  if why = .zeroByte then .zeroByte else .system { why, path }

def category : Failure → Category
  | homeUnknown _ | noResources _ => .trouble .location
  | unusable path _ => .trouble (.directory path)
  | linkUnreadable .. | noIntrospection _ | imagePathRefused | moduleNameRefused _
  | moduleNameTooLong | executableMissing .. => .trouble .executable
  | noTempFile start _ => .trouble (.tempFile start)
  | blankVersion | separatorInStart _ | zeroByte => .badValue
  | homeUndetermined _ | linkLoop _ => .unresolved
  | system e => .system e.why

/-- The cause in words, without what a trouble's text begins with. -/
def reason : Failure → String
  | homeUnknown platform =>
    s!"Cannot determine the home directory on {platform}; set JANK_HOME"
  | noResources tried =>
    "No resource directory found (tried: " ++
      String.intercalate ", " (tried.map Path.toString) ++ ")"
  | unusable _ fault => fault.text
  | linkUnreadable link why => s!"Cannot read {link}: {why.text}"
  | noIntrospection platform =>
    s!"No executable introspection available on platform '{platform}'"
  | imagePathRefused => "_NSGetExecutablePath failed"
  | moduleNameRefused code => s!"GetModuleFileNameW failed: error {code}"
  | moduleNameTooLong => "GetModuleFileNameW: path exceeds 32768 characters"
  | executableMissing reported cause =>
    s!"Executable path {quoted reported} does not exist: {cause.message}"
  | noTempFile _ fault => fault.text
  | blankVersion => "version must be a non-empty string"
  | separatorInStart start => s!"prefix must not contain a path separator: {quoted start}"
  | zeroByte => Refusal.zeroByte.text
  | homeUndetermined wanted =>
    s!"could not determine the home directory for {quoted wanted}, " ++
      "set an absolute HOME or XDG variable"
  | linkLoop link => s!"Symlink loop from {quoted link.toString}"
  | system e => e.message

def message (f : Failure) : String :=
  match f.category with
  | .trouble about => about.message f.reason
  | _ => f.reason

/-- The command line shows the failure beside the location that it concerns; any other failure
ends the program. -/
def isShown (f : Failure) : Bool :=
  match f.category with
  | .trouble _ | .badValue => true
  | _ => false

end Failure

end Whereabouts
