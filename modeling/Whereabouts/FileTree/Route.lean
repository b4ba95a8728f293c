import Whereabouts.Path

/-!
# Routes

A route is what a system call sees of a path's text: whether it starts at the root, and the
components to walk through. An empty last component stands for a slash at the end, which asks for
a directory.
-/

namespace Whereabouts

structure Route where
  absolute : Bool
  steps : List String
deriving DecidableEq, Repr

namespace Route

/-- The components of a text, with an empty one at the end for a slash there. -/
def stepsOf (s : String) : List String :=
  let named := (cut '/' s).filter (· ≠ "")
  if s.toList.getLast? = some '/' && !named.isEmpty then named ++ [""] else named

def ofString (s : String) : Route :=
  { absolute := s.toList.head? = some '/', steps := stepsOf s }

def hasSlash (r : Route) : Bool := r.steps.contains ""

def withoutSlash (r : Route) : Route := { r with steps := r.steps.filter (· ≠ "") }

/-- A component holds the zero character, which no system call takes. -/
def hasZero (r : Route) : Bool := r.steps.any fun s => s.toList.contains '\x00'

end Route

def Path.route (p : Path) : Route :=
  match p.anchor, p.names with
  | .here, [] => { absolute := false, steps := ["."] }
  | a, ns => { absolute := a ≠ .here, steps := ns.reverse }

end Whereabouts
