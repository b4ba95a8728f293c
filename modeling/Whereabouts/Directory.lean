import Whereabouts.Failure
import Whereabouts.FileTree.Change

/-!
# Private directories

`ensurePrivate` makes a directory with all that is missing above it and checks that it can be used.
The directory itself is for its owner alone; the directories made above it take the usual mode. A
directory that is already there keeps its mode.
-/

namespace Whereabouts

def privateMode : Mode := 0o700

/-- The mode asked for when a directory above the wanted one is missing. -/
def parentMode : Mode := 0o777

namespace FileTree

/-- A directory could not be made: that is no failure if one is there all the same. -/
def excuse (t : FileTree) (here : Option Location) (p : Path) (why : Refusal) :
    Except Refusal Unit :=
  if why = .zeroByte then .error why
  else match t.isDirectory here p.route with
    | .ok true => .ok ()
    | .ok false => .error why
    | .error e => .error e

/-- The tree with a directory at the path, and with those above it that were missing. What was
made before a refusal stays. -/
def makeDirs (t : FileTree) (here : Option Location) (anchor : Anchor) :
    List String → Mode → FileTree × Except Refusal Unit
  | names, mode =>
    let p : Path := ⟨anchor, names⟩
    match t.makeDir here p.route mode with
    | .ok t' => (t', .ok ())
    | .error .noEntry =>
      match names with
      | [] => (t, .error .noEntry)
      | _ :: above =>
        match t.makeDirs here anchor above parentMode with
        | (t', .error e) => (t', .error e)
        | (t', .ok ()) =>
          match t'.makeDir here p.route mode with
          | .ok t'' => (t'', .ok ())
          | .error .noEntry => (t', .error .noEntry)
          | .error e => (t', t'.excuse here p e)
    | .error e => (t, t.excuse here p e)

end FileTree

structure Ensured where
  tree : FileTree
  /-- The directory was not there before. -/
  created : Bool
  result : Except Failure Unit

def checkUsable (t : FileTree) (here : Option Location) (p : Path) : Except Failure Unit :=
  if t.isUsable here p.route then .ok () else .error (.unusable p .notWritable)

def creationFailure (p : Path) : Refusal → Failure
  | .exist => .unusable p .occupied
  | .zeroByte => .zeroByte
  | why => .unusable p (.refused why)

/-- A private directory at the path, made with what is missing above it unless it is there. -/
def ensurePrivate (t : FileTree) (here : Option Location) (p : Path) : Ensured :=
  match t.isDirectory here p.route with
  | .error why =>
    { tree := t, created := false, result := .error (.ofRefusal why (some p.toString)) }
  | .ok true => { tree := t, created := false, result := checkUsable t here p }
  | .ok false =>
    match t.makeDirs here p.anchor p.names privateMode with
    | (t', .error why) => { tree := t', created := false, result := .error (creationFailure p why) }
    | (t', .ok ()) => { tree := t', created := true, result := checkUsable t' here p }

end Whereabouts
