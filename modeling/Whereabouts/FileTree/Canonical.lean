import Whereabouts.FileTree.Walk

/-!
# Canonical paths

The path without links that names the same node as a given one. The components are resolved one by
one into a path, a parent component takes a name of the path away, and a link's target is resolved
in its place. There is no bound on the number of links, but a link met again while its own target
is being resolved ends the search. Nor is there one on the depth of targets within targets, such
as an interpreter sets to recursion.

`unwind` resolves up to the end of the components and hands every target to `expand`;
`unwindLinks` ties the two together by the depth of targets within targets.
-/

namespace Whereabouts

/-- Why a path has no canonical form: the system refuses to look at an entry, or a link leads back
to itself. -/
inductive Uncanonical where
  | refused (path : Option Path) (why : Refusal)
  | loop (link : Path)
deriving DecidableEq, Repr

namespace FileTree

/-- A link that is met while its own target is being resolved. -/
def revisited (t : FileTree) (here : Option Location) (link : Path) : Uncanonical :=
  match t.stat here link.route with
  | .error .tooManyLinks | .ok _ => .loop link
  | .error e => .refused (some link) e

/-- The components resolved from a path that is free of links. `active` holds the links whose
targets are being resolved. -/
def unwind (t : FileTree) (here : Option Location)
    (expand : List Path → Path → List String → Except Uncanonical Path) (active : List Path) :
    Path → List String → Except Uncanonical Path
  | p, [] => .ok p
  | p, name :: rest =>
    if name = "" ∨ name = "." then unwind t here expand active p rest
    else if name = ".." then
      unwind t here expand active { p with names := Path.push p.isAbsolute p.names name } rest
    else
      let q := p.child name
      match t.lstat here q.route with
      | .error e => .error (.refused (some q) e)
      | .ok (_, .link target) =>
        if q ∈ active then .error (revisited t here q)
        else
          let r := Route.ofString target
          match expand (q :: active) (if r.absolute then ⟨.root, []⟩ else p) r.steps with
          | .error e => .error e
          | .ok p' => unwind t here expand active p' rest
      | .ok _ => unwind t here expand active q rest

def unwindLinks (t : FileTree) (here : Option Location) :
    Nat → List Path → Path → List String → Except Uncanonical Path
  | 0 => unwind t here fun active p _ => .error (.loop (active.headD p))
  | n + 1 => unwind t here (unwindLinks t here n)

def linkCount (t : FileTree) : Nat :=
  t.entries.countP fun e => match e.2 with
    | .link _ => true
    | _ => false

/-- Targets inside one another, each seen from a directory that is reached by fewer parent
components than `here` has names. -/
def maxNesting (t : FileTree) (here : Option Location) : Nat :=
  (t.linkCount + 1) * ((here.getD []).length + 2)

/-- The absolute path without links and parent components. -/
def canonical (t : FileTree) (here : Option Location) (p : Path) : Except Uncanonical Path := do
  let start : Path := ⟨if p.isAbsolute then .root else .here, []⟩
  let q ← unwindLinks t here (t.maxNesting here) [] start p.names.reverse
  if q.isAbsolute then pure q
  else match here with
    | none => throw (.refused none .noEntry)
    | some loc => pure ((⟨.root, loc⟩ : Path) ++ q).normal

end FileTree

end Whereabouts
