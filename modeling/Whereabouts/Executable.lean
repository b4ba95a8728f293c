import Whereabouts.Failure
import Whereabouts.FileTree.Canonical
import Whereabouts.Host

/-!
# The running program

What the system reports as the path of the running program, by the platform's way of asking. The
name of a module is asked for with larger and larger buffers, until one holds it whole.
-/

namespace Whereabouts

/-- The characters before the first zero, which ends a name in the system's memory. -/
def beforeZero (s : String) : String := String.ofList (s.toList.takeWhile (· ≠ '\x00'))

/-- The length that the system answers, and what it stores in a buffer of the size. A name that
does not fit is cut short, and the answer is then the size itself. -/
def storedName (name : String) (size : Nat) : Nat × String :=
  if name.length < size then (name.length, name)
  else (size, String.ofList (name.toList.take (size - 1)))

def firstBufferSize : Nat := 260

def maxBufferSize : Nat := 32768

def askModuleName (name : String) (size : Nat) : Except Failure String :=
  if _h : 0 < size ∧ size ≤ maxBufferSize then
    let (length, stored) := storedName name size
    if length = 0 then .error (.moduleNameRefused 0)
    else if length < size then .ok (beforeZero stored)
    else askModuleName name (2 * size)
  else .error .moduleNameTooLong
termination_by maxBufferSize + 1 - size
decreasing_by
  unfold maxBufferSize at *
  omega

def moduleName : ModuleReport → Except Failure String
  | .refused code => .error (.moduleNameRefused code)
  | .path name => askModuleName name firstBufferSize

def imagePath (report : ImageReport) : Except Failure String :=
  if report.refused then .error .imagePathRefused else .ok (beforeZero report.path)

/-- The path of the running program as the system reports it. A frozen program knows it from its
bundler. -/
def executablePath (host : Host) (t : FileTree) (here : Option Location) (profile : Profile) :
    Except Failure String :=
  match host.frozen.filter (· ≠ ""), profile.introspection, profile.programLink.filter (· ≠ "") with
  | some path, _, _ => .ok path
  | none, .proc, some link =>
    match t.readLink here (.ofString link) with
    | .ok target => .ok target
    | .error .zeroByte => .error .zeroByte
    | .error why => .error (.linkUnreadable link why)
  | none, .darwin, _ => imagePath host.image
  | none, .win32, _ => moduleName host.module
  | none, _, _ => .error (.noIntrospection profile.name)

def programPath (host : Host) (t : FileTree) (here : Option Location) : Except Failure Path := do
  let reported ← executablePath host t here host.profile
  match t.canonical here (.ofString reported) with
  | .ok p => pure p
  | .error (.loop link) => throw (.linkLoop link)
  | .error (.refused _ .zeroByte) => throw .zeroByte
  | .error (.refused p why) =>
    throw (.executableMissing reported { why, path := p.map Path.toString })

end Whereabouts
