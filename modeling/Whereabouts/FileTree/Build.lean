import Whereabouts.Directory

/-!
# Building a tree

A tree from a list of what is in it. Directories above an entry are made if they are missing, and
the modes of directories take effect when everything is there.
-/

namespace Whereabouts

inductive Planned where
  | dir (path : String) (mode : Mode)
  | file (path : String) (text : String)
  | link (path target : String)
deriving Repr

namespace FileTree

def withDirs (t : FileTree) (p : Path) : FileTree :=
  (t.makeDirs (some []) p.anchor p.names parentMode).1

/-- The tree that a call gives, or the one before if it is refused. -/
def orSame (t : FileTree) : Except Refusal FileTree → FileTree
  | .ok t' => t'
  | .error _ => t

def plant (t : FileTree) : Planned → FileTree
  | .dir path _ => t.withDirs (.ofString path)
  | .file path text =>
    let t := t.withDirs (Path.ofString path).parent
    t.orSame (t.writeFile (some []) (.ofString path) text)
  | .link path target =>
    let t := t.withDirs (Path.ofString path).parent
    t.orSame (t.makeLink (some []) (.ofString path) target)

def plannedMode (t : FileTree) : Planned → Option (Location × Mode)
  | .dir path mode =>
    match t.stat (some []) (.ofString path) with
    | .ok (loc, .dir _) => some (loc, mode)
    | _ => none
  | _ => none

/-- The tree with all that is planned, before its modes take effect. -/
def planted (plan : List Planned) : FileTree := plan.foldl plant empty

def build (plan : List Planned) : FileTree :=
  let t := planted plan
  (plan.filterMap t.plannedMode).foldl (fun t m => t.put m.1 (.dir m.2)) t

end FileTree

end Whereabouts
