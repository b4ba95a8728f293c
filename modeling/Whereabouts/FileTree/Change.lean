import Whereabouts.FileTree.Walk

/-!
# Changing a tree

The calls that add, replace and remove nodes. Each needs the write permission of the directory it
changes; the search permission was needed to get there.
-/

namespace Whereabouts.FileTree

def addEntry (t : FileTree) (dir : Location) (name : String) (node : Node) :
    Except Refusal FileTree :=
  match t.get? dir with
  | some (.dir mode) => if mode.writable then .ok (t.put (name :: dir) node) else .error .denied
  | _ => .error .notDirectory

/-- A new node where the route names nothing yet, not even a link that leads nowhere. A slash at the
end asks for a directory that is not there. -/
def create (t : FileTree) (here : Option Location) (r : Route) (node : Node) :
    Except Refusal FileTree := do
  match ← t.walk here false r.withoutSlash with
  | .entry .. => throw .exist
  | .vacant dir name => if r.hasSlash then throw .noEntry else t.addEntry dir name node

def makeDir (t : FileTree) (here : Option Location) (r : Route) (mode : Mode) :
    Except Refusal FileTree :=
  t.create here r.withoutSlash (.dir mode.masked)

/-- No file is made by a route that asks for a directory. -/
def refuseSlash (t : FileTree) (here : Option Location) (r : Route) : Except Refusal Unit :=
  if r.hasSlash then (t.walk here false r.withoutSlash).bind fun _ => .error .isDirectory
  else .ok ()

def makeFile (t : FileTree) (here : Option Location) (r : Route) : Except Refusal FileTree := do
  t.refuseSlash here r
  t.create here r (.file 0o600 "")

def makeLink (t : FileTree) (here : Option Location) (r : Route) (target : String) :
    Except Refusal FileTree :=
  if target.toList.contains '\x00' then .error .zeroByte
  else if target.isEmpty then .error .noEntry
  else t.create here r (.link target)

def writeFile (t : FileTree) (here : Option Location) (r : Route) (text : String) :
    Except Refusal FileTree := do
  t.refuseSlash here r
  match ← t.walk here true r with
  | .vacant dir name => t.addEntry dir name (.file (Mode.masked 0o666) text)
  | .entry loc (.file mode _) =>
    if mode.writable then pure (t.put loc (.file mode text)) else throw .denied
  | .entry .. => throw .isDirectory

def setMode (t : FileTree) (here : Option Location) (r : Route) (mode : Mode) :
    Except Refusal FileTree := do
  match ← t.stat here r with
  | (loc, .dir _) => pure (t.put loc (.dir mode))
  | (loc, .file _ text) => pure (t.put loc (.file mode text))
  | (loc, .link target) => pure (t.put loc (.link target))

/-- The tree without the file or link that the route names. -/
def unlink (t : FileTree) (here : Option Location) (r : Route) : Except Refusal FileTree := do
  let (loc, node) ← t.lstat here r
  match t.get? loc.tail, node with
  | some (.dir mode), .dir _ => if mode.writable then throw .isDirectory else throw .denied
  | some (.dir mode), _ => if mode.writable then pure (t.drop loc) else throw .denied
  | _, _ => throw .notDirectory

def removeAt (t : FileTree) (here : Option Location) (r : Route) :
    Except Refusal (FileTree × Location) := do
  let (loc, _) ← t.lstat here r
  match loc with
  | [] => throw .denied
  | _ :: dir =>
    match t.get? dir with
    | some (.dir mode) => if mode.writable then pure (t.remove loc, loc) else throw .denied
    | _ => throw .notDirectory

end Whereabouts.FileTree
