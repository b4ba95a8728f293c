import Whereabouts.Once.Key

/-!
# Scripts of calls

Functions that are evaluated once per key, with scripted outcomes. Each invocation of a function
runs the steps that its script has for it and then ends with a value, which is kept, or with an
exception, which is not. A clearing forgets the values and the locks, but not an invocation that is going on:
that still keeps its value when it ends. The history tells how the calls went.

`call` runs one call, the steps inside it included; `depth` bounds how deep calls may be nested, and
`Program.run` takes it large enough for every program that ends.
-/

namespace Whereabouts.Once

abbrev Key := List KeyPart

inductive ExceptionKind where
  | value
  | key
  | runtime
deriving DecidableEq, Repr

structure Exception where
  kind : ExceptionKind
  text : String
deriving DecidableEq, Repr

/-- The text of an exception; a missing key is quoted. -/
def Exception.message (e : Exception) : String :=
  match e.kind with
  | .key => quoted e.text
  | _ => e.text

inductive Step where
  | call (function : String) (args : List Argument)
  /-- So many threads make the call at once. -/
  | threads (function : String) (args : List Argument) (count : Nat)
  | clear (function : String)
  | clearAll
  | name (function : String)
deriving Repr

structure Invocation (ν : Type) where
  during : List Step := []
  outcome : Except Exception ν

inductive Problem where
  | unhashable (typeName : String)
  | raised (exception : Exception)
  /-- The call waits for an invocation that it is part of. -/
  | deadlock
  | unknownFunction (name : String)
deriving DecidableEq, Repr

mutual

/-- A value, with the answers of the steps inside the invocation that found it, if any. -/
inductive Value (ν : Type) where
  | plain (value : ν)
  | traced (value : ν) (during : List (Answer ν))

/-- What a step answers, and how often every function has been invoked by then. -/
inductive Answer (ν : Type) where
  | nothing (calls : List (String × Nat))
  | name (text : String) (calls : List (String × Nat))
  | result (result : Except Problem (Value ν)) (calls : List (String × Nat))
  | results (results : List (Except Problem (Value ν))) (calls : List (String × Nat))

end

/-- What happens to the calls of the functions. -/
inductive Event (ν : Type) where
  | called (function : String) (key : Key)
  /-- The call that has just begun invokes the function. -/
  | started (function : String) (key : Key)
  | ended (function : String) (key : Key) (outcome : Except Exception (Value ν))
  | answered (function : String) (key : Key) (result : Except Problem (Value ν))
  | cleared (function : String)

/-- A function: its script, its kept values, its locks, and its invocations so far. -/
structure Function (ν : Type) where
  script : List (Invocation ν)
  values : List (Key × Value ν) := []
  locks : List (Key × Nat) := []
  invocations : Nat := 0

/-- The functions by name, the locks that are held, the number of locks made so far, and what
happened so far, the latest first. -/
structure Memory (ν : Type) where
  functions : List (String × Function ν)
  held : List Nat := []
  lockCount : Nat := 0
  history : List (Event ν) := []

namespace Memory

variable {ν : Type}

def update (m : Memory ν) (name : String) (change : Function ν → Function ν) : Memory ν :=
  { m with functions := m.functions.map fun f => if f.1 = name then (f.1, change f.2) else f }

def note (m : Memory ν) (e : Event ν) : Memory ν := { m with history := e :: m.history }

def calls (m : Memory ν) : List (String × Nat) := m.functions.map fun f => (f.1, f.2.invocations)

def invoked (f : Function ν) : Function ν := { f with invocations := f.invocations + 1 }

def valued (key : Key) (value : Value ν) (f : Function ν) : Function ν :=
  { f with values := (key, value) :: f.values }

def locked (key : Key) (lock : Nat) (f : Function ν) : Function ν :=
  { f with locks := (key, lock) :: f.locks }

def cleared (f : Function ν) : Function ν := { f with values := [], locks := [] }

def clear (m : Memory ν) (name : String) : Memory ν := (m.update name cleared).note (.cleared name)

def clearAll (m : Memory ν) : Memory ν :=
  { m with
    functions := m.functions.map fun f => (f.1, cleared f.2)
    history := (m.functions.map fun f => .cleared f.1).reverse ++ m.history }

def lockOf (m : Memory ν) (name : String) (f : Function ν) (key : Key) : Nat × Memory ν :=
  match f.locks.lookup key with
  | some lock => (lock, m)
  | none =>
    let m' := m.update name (locked key m.lockCount)
    (m.lockCount, { m' with lockCount := m.lockCount + 1 })

/-- The script of the next invocation; the last one is used again and again. -/
def nextInvocation (f : Function ν) : Option (Invocation ν) :=
  f.script[f.invocations]?.or f.script.getLast?

end Memory

variable {ν : Type}

abbrev Caller (ν : Type) := String → List Argument → Memory ν → Except Problem (Value ν) × Memory ν

/-- So many calls one after another, as threads come through one at a time. -/
def repeatCall (call : Memory ν → Except Problem (Value ν) × Memory ν) :
    Nat → Memory ν → List (Except Problem (Value ν)) × Memory ν
  | 0, m => ([], m)
  | n + 1, m =>
    let (r, m) := call m
    let (rs, m) := repeatCall call n m
    (r :: rs, m)

def runStep (call : Caller ν) (m : Memory ν) : Step → Answer ν × Memory ν
  | .call f args =>
    let (r, m) := call f args m
    (.result r m.calls, m)
  | .threads f args count =>
    let (rs, m) := repeatCall (call f args) count m
    (.results rs m.calls, m)
  | .clear f =>
    let m := m.clear f
    (.nothing m.calls, m)
  | .clearAll =>
    let m := m.clearAll
    (.nothing m.calls, m)
  | .name f => (.name f m.calls, m)

def runSteps (call : Caller ν) : List Step → Memory ν → List (Answer ν) × Memory ν
  | [], m => ([], m)
  | s :: ss, m =>
    let (a, m) := runStep call m s
    let (as, m) := runSteps call ss m
    (a :: as, m)

/-- One invocation under a lock that was free: the steps inside it, then its end. -/
def invoke (call : Caller ν) (name : String) (key : Key) (lock : Nat) (i : Invocation ν)
    (m : Memory ν) : Except Problem (Value ν) × Memory ν :=
  let m := (m.update name Memory.invoked).note (.started name key)
  let (answers, m) := runSteps call i.during { m with held := lock :: m.held }
  let m := { m with held := m.held.erase lock }
  match i.outcome with
  | .error e => (.error (.raised e), m.note (.ended name key (.error e)))
  | .ok v =>
    let value := if i.during.isEmpty then Value.plain v else .traced v answers
    (.ok value, (m.update name (Memory.valued key value)).note (.ended name key (.ok value)))

/-- What a call of a function ends with: the kept value, or that of an invocation of its own. -/
def answerCall (call : Caller ν) (name : String) (key : Key) (f : Function ν) (m : Memory ν) :
    Except Problem (Value ν) × Memory ν :=
  match f.values.lookup key with
  | some value => (.ok value, m)
  | none =>
    let (lock, m) := m.lockOf name f key
    if lock ∈ m.held then (.error .deadlock, m)
    else match Memory.nextInvocation f with
      | none => (.error (.unknownFunction name), m)
      | some i => invoke call name key lock i m

/-- A call: arguments that are no key end it before anything happens. -/
def keyed (answer : String → Key → Function ν → Memory ν → Except Problem (Value ν) × Memory ν) :
    Caller ν := fun name args m =>
  match keyOf args, m.functions.lookup name with
  | .error typeName, _ => (.error (.unhashable typeName), m)
  | .ok _, none => (.error (.unknownFunction name), m)
  | .ok key, some f =>
    let (r, m) := answer name key f (m.note (.called name key))
    (r, m.note (.answered name key r))

def call : (depth : Nat) → Caller ν
  | 0 => keyed fun _ _ _ m => (.error .deadlock, m)
  | depth + 1 => keyed (answerCall (call depth))

structure Program (ν : Type) where
  functions : List (String × List (Invocation ν))
  steps : List Step

def Program.size (p : Program ν) : Nat :=
  (p.functions.flatMap fun f => f.2).foldl (fun n i => n + i.during.length + 1) 0

/-- Calls nested deeper than this repeat themselves for ever. -/
def Program.depth (p : Program ν) : Nat := (p.size + 1) * (p.size + 1)

def Program.start (p : Program ν) : Memory ν :=
  { functions := p.functions.map fun f => (f.1, { script := f.2 }) }

def Program.run (p : Program ν) : List (Answer ν) :=
  (runSteps (call p.depth) p.steps p.start).1

/-- What a run of the program leaves. -/
def Program.finish (p : Program ν) : Memory ν := (runSteps (call p.depth) p.steps p.start).2

end Whereabouts.Once
