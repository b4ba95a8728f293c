import Whereabouts.Directory
import Whereabouts.Home
import Whereabouts.Log

/-!
# The state of a program

What changes while a program runs: the environment, the tree, the directory it works in, the values
that were looked up once and kept, and what it has logged. An action is a step on this state that
ends with a value or a failure; what it did to the state stays done either way.

`once` keeps a value under a key. The first lookup that succeeds decides the value until it is
cleared; a failure keeps nothing.
-/

namespace Whereabouts

inductive Lookup where
  | homeDir
  | configDir
  | cacheRoot
  | cacheDir
  | binaryDir
  | resourceDir
  | programPath
  | programDir
  | buildVersion
  | sdkPath
deriving DecidableEq, Repr

/-- The values kept by their lookups; the directories of versions are kept by their segments. -/
structure Kept where
  homeDir : Option Path := none
  configDir : Option Path := none
  cacheRoot : Option Path := none
  cacheDirs : List (String × Path) := []
  binaryDirs : List (String × Path) := []
  resourceDir : Option Path := none
  programPath : Option Path := none
  programDir : Option Path := none
  buildVersion : Option String := none
  /-- The SDK's path, or that there is none. -/
  sdkPath : Option (Option String) := none
deriving DecidableEq, Repr

def Kept.clear (k : Kept) : Lookup → Kept
  | .homeDir => { k with homeDir := none }
  | .configDir => { k with configDir := none }
  | .cacheRoot => { k with cacheRoot := none }
  | .cacheDir => { k with cacheDirs := [] }
  | .binaryDir => { k with binaryDirs := [] }
  | .resourceDir => { k with resourceDir := none }
  | .programPath => { k with programPath := none }
  | .programDir => { k with programDir := none }
  | .buildVersion => { k with buildVersion := none }
  | .sdkPath => { k with sdkPath := none }

structure State extends Logger where
  env : Environment := {}
  tree : FileTree := .empty
  /-- The directory that the program works in, unless it was removed. -/
  here : Option Location := some []
  kept : Kept := {}
  tempDir : Option String := none
  tempTried : Nat := 0
  sdkRuns : Nat := 0
  log : List String := []
  isSetUp := true
  handlers := 1
  propagates := false

/-- Sets the logger up, once more or for the first time. -/
def State.setUpLogging (s : State) (verbose : Bool) : State := { s with toLogger := s.toLogger.setUp verbose }

/-- A step on the state that ends with a value or a failure. -/
abbrev Action := ExceptT Failure (StateM State)

/-- The outcome of an action and the state it leaves. -/
def Action.run {α : Type} (action : Action α) (s : State) : Except Failure α × State :=
  (ExceptT.run action).run s

/-! ## Logging -/

def warn (tag message : String) : Action Unit :=
  modify fun s => { s with log := s.log ++ s.written s!"[{tag}] {message}" }

def debug (tag message : String) : Action Unit := do
  if (← get).verbose then warn tag message

/-! ## Keeping values -/

structure Slot (α : Type) where
  find : Kept → Option α
  store : Kept → α → Kept

/-- The kept value, or the value that the action finds, kept from now on. -/
def once {α : Type} (slot : Slot α) (action : Action α) : Action α := do
  match slot.find (← get).kept with
  | some value => pure value
  | none =>
    let value ← action
    modify fun s => { s with kept := slot.store s.kept value }
    pure value

namespace Slot

def homeDir : Slot Path := ⟨(·.homeDir), fun k p => { k with homeDir := some p }⟩

def configDir : Slot Path := ⟨(·.configDir), fun k p => { k with configDir := some p }⟩

def cacheRoot : Slot Path := ⟨(·.cacheRoot), fun k p => { k with cacheRoot := some p }⟩

def cacheDir (segment : String) : Slot Path :=
  ⟨(·.cacheDirs.lookup segment), fun k p => { k with cacheDirs := (segment, p) :: k.cacheDirs }⟩

def binaryDir (segment : String) : Slot Path :=
  ⟨(·.binaryDirs.lookup segment), fun k p => { k with binaryDirs := (segment, p) :: k.binaryDirs }⟩

def resourceDir : Slot Path := ⟨(·.resourceDir), fun k p => { k with resourceDir := some p }⟩

def programPath : Slot Path := ⟨(·.programPath), fun k p => { k with programPath := some p }⟩

def programDir : Slot Path := ⟨(·.programDir), fun k p => { k with programDir := some p }⟩

def buildVersion : Slot String := ⟨(·.buildVersion), fun k v => { k with buildVersion := some v }⟩

def sdkPath : Slot (Option String) := ⟨(·.sdkPath), fun k p => { k with sdkPath := some p }⟩

end Slot

/-! ## Directories -/

def ensureDir (p : Path) : Action Path := do
  let s ← get
  let e := ensurePrivate s.tree s.here p
  set { s with tree := e.tree }
  if e.created then debug "paths" s!"created {p}"
  match e.result with
  | .ok () => pure p
  | .error f => throw f

end Whereabouts
