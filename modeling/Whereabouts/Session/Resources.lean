import Whereabouts.Session.Directories

/-!
# Resources

The directory of read-only support files: the override alone if it is set, or else the first that
is there of those beside the program, in its installation, and in the package. Nothing is made.
-/

namespace Whereabouts

inductive ResourceSource where
  | override
  | bundled
  | installed
  | package
deriving DecidableEq, Repr

def ResourceSource.text : ResourceSource → String
  | .override => "JANK_RESOURCE_DIR"
  | .bundled => "bundled"
  | .installed => "installed prefix"
  | .package => "package"

def installedResources : Path := .ofString "../share/jank"

def besideProgram (dir : Path) : List (Path × ResourceSource) :=
  [(dir.child "resources", .bundled), (dir ++ installedResources, .installed)]

def resourceCandidates (host : Host) : Action (List (Path × ResourceSource)) := do
  let env := (← get).env
  match env.value? "JANK_RESOURCE_DIR" with
  | some raw =>
    let p := Path.ofString (expandTilde host env raw)
    if p.isAbsolute then pure [(p, .override)] else pure [((← processDir host) ++ p, .override)]
  | none =>
    let beside ← tryCatch (besideProgram <$> processDir host) fun f => do
      match f.category with
      | .trouble .executable =>
        debug "config" s!"skipping executable-relative resources: {f.message}"
        pure []
      | _ => throw f
    pure (beside ++ [(host.packageResources, .package)])

/-- The first candidate that is a directory. A candidate that the system refuses to look at ends the
search. -/
def firstDirectory (t : FileTree) (here : Option Location) :
    List (Path × ResourceSource) → Except Failure (Option (Path × ResourceSource))
  | [] => .ok none
  | (p, source) :: rest =>
    match t.isDirectory here p.route with
    | .ok true => .ok (some (p, source))
    | .ok false => firstDirectory t here rest
    | .error why => .error (.ofRefusal why (some p.toString))

def canonicalDir (t : FileTree) (here : Option Location) (p : Path) : Except Failure Path :=
  match t.canonical here p with
  | .ok q => .ok q
  | .error (.loop link) => .error (.linkLoop link)
  | .error (.refused q why) => .error (.ofRefusal why (q.map Path.toString))

def resourceDir (host : Host) : Action Path := once .resourceDir do
  let candidates ← resourceCandidates host
  let s ← get
  match ← ExceptT.mk (pure (firstDirectory s.tree s.here candidates)) with
  | none => throw (.noResources (candidates.map (·.1)))
  | some (p, source) =>
    let q ← ExceptT.mk (pure (canonicalDir s.tree s.here p))
    debug "config" s!"resource directory {q} ({source.text})"
    pure q

end Whereabouts
