import Whereabouts.FileTree.Basic
import Whereabouts.FileTree.Route
import Whereabouts.Refusal

/-!
# Walking a tree

How the system finds the node that a route names. Each component needs the search permission of
the directory that it is looked up in, a parent component leads to the directory above, and a link
is replaced by its target, at most `maxLinks` of them in one walk. A component has at most
`maxNameBytes` bytes; the length of a whole route is not limited, as it is in a system (`PATH_MAX`).

`descend` walks up to the first link to be followed and hands what is left to `jump`; `walkLinks`
ties the two together by the number of links that may still be followed.
-/

namespace Whereabouts

/-- What a walk ends at: a node, or a name that a directory does not have. -/
inductive Reached where
  | entry (loc : Location) (node : Node)
  | vacant (dir : Location) (name : String)
deriving DecidableEq, Repr

namespace FileTree

def maxNameBytes : Nat := 255

def maxLinks : Nat := 40

/-- The walk along the steps from a directory. `jump` walks on from a directory along a link's
target and the steps behind the link. -/
def descend (t : FileTree) (follow : Bool)
    (jump : Location → List String → Except Refusal Reached) : Location → List String → Except Refusal Reached
  | loc, [] =>
    match t.get? loc with
    | some node => .ok (.entry loc node)
    | none => .error .noEntry
  | loc, "" :: rest => descend t follow jump loc rest
  | loc, name :: rest =>
    match t.get? loc with
    | some (.dir mode) =>
      if !mode.searchable then .error .denied
      else if name = "." then descend t follow jump loc rest
      else if name = ".." then descend t follow jump loc.tail rest
      else if maxNameBytes < name.utf8ByteSize then .error .nameTooLong
      else match t.get? (name :: loc) with
        | none => if rest.isEmpty then .ok (.vacant loc name) else .error .noEntry
        | some (.dir _) => descend t follow jump (name :: loc) rest
        | some (.file mode text) =>
          if rest.isEmpty then .ok (.entry (name :: loc) (.file mode text))
          else .error .notDirectory
        | some (.link target) =>
          if rest.isEmpty && !follow then .ok (.entry (name :: loc) (.link target))
          else
            let r := Route.ofString target
            jump (if r.absolute then [] else loc) (r.steps ++ rest)
    | _ => .error .notDirectory

/-- The walk that may follow `n` more links. -/
def walkLinks (t : FileTree) (follow : Bool) : Nat → Location → List String → Except Refusal Reached
  | 0 => descend t follow fun _ _ => .error .tooManyLinks
  | n + 1 => descend t follow (walkLinks t follow n)

/-- Where a route leads from the directory `here`, which is missing if it was removed. With
`follow` a link at the end of the route is followed too. -/
def walk (t : FileTree) (here : Option Location) (follow : Bool) (r : Route) :
    Except Refusal Reached :=
  if r.hasZero then .error .zeroByte
  else if r.absolute then walkLinks t follow maxLinks [] r.steps
  else match here, r.steps with
    | _, [] => .error .noEntry
    | none, _ => .error .noEntry
    | some loc, steps => walkLinks t follow maxLinks loc steps

/-- The node that a route leads to, links followed. -/
def stat (t : FileTree) (here : Option Location) (r : Route) :
    Except Refusal (Location × Node) := do
  match ← t.walk here true r with
  | .entry loc node => pure (loc, node)
  | .vacant .. => throw .noEntry

/-- The node that a route leads to, a link at its end not followed. -/
def lstat (t : FileTree) (here : Option Location) (r : Route) :
    Except Refusal (Location × Node) := do
  match ← t.walk here false r with
  | .entry loc node => pure (loc, node)
  | .vacant .. => throw .noEntry

/-- The route leads to a directory. A missing entry, a file on the way, too many links and a path
that no call takes mean no; any other refusal is passed on. -/
def isDirectory (t : FileTree) (here : Option Location) (r : Route) : Except Refusal Bool :=
  match t.stat here r with
  | .ok (_, .dir _) => .ok true
  | .ok _ => .ok false
  | .error .noEntry | .error .notDirectory | .error .tooManyLinks | .error .zeroByte => .ok false
  | .error e => .error e

def isUsable (t : FileTree) (here : Option Location) (r : Route) : Bool :=
  match t.stat here r with
  | .ok (_, .dir mode) | .ok (_, .file mode _) => mode.writable && mode.searchable
  | _ => false

def readLink (t : FileTree) (here : Option Location) (r : Route) : Except Refusal String := do
  match ← t.lstat here r with
  | (_, .link target) => pure target
  | _ => throw .invalid

end FileTree

end Whereabouts
