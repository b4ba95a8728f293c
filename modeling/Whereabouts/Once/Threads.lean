/-!
# Threads

Calls of a function that is evaluated once per key, made by threads that take turns after every
step. A call looks its key up, gets the lock of the key, waits for it, looks again, runs the body,
publishes the value and lets the lock go. A clearing empties the table of values and then the table
of locks; it keeps others from the table of locks meanwhile, but waits for no lock of a key.

`Machine.move` is one step of one thread and `Machine.run` a whole schedule of them. A move that is
not possible, as where a lock is held, gives nothing.
-/

namespace Whereabouts.Once

inductive CallEnd (ε ν : Type) where
  | value (v : ν)
  | raised (e : ε)
  /-- The value was there when the call looked, and gone when it was read. -/
  | gone
deriving DecidableEq, Repr

/-- Where a call is. The lock is that of its key at the time when the call got it. -/
inductive CallPhase (ε ν : Type) where
  | ready
  | missed
  | waiting (lock : Nat)
  | holding (lock : Nat)
  /-- There is a value, to be read next. -/
  | reading (lock : Nat)
  /-- There is no value, so the body comes next. -/
  | starting (lock : Nat)
  | inside (lock : Nat)
  | publishing (lock : Nat) (v : ν)
  | leaving (lock : Nat) (result : CallEnd ε ν)
  | finished (result : CallEnd ε ν)
deriving DecidableEq, Repr

inductive ClearPhase where
  | ready
  | entered
  | valuesGone
  | finished
deriving DecidableEq, Repr

/-- A thread makes one call or one clearing. -/
inductive Thread (κ ε ν : Type) where
  | call (key : κ) (phase : CallPhase ε ν)
  | clear (phase : ClearPhase)
deriving DecidableEq, Repr

/-- What the threads share: the two tables, the locks that are held, and whether a clearing keeps
others from the table of locks. -/
structure Shared (κ ν : Type) where
  values : List (κ × ν) := []
  locks : List (κ × Nat) := []
  lockCount : Nat := 0
  held : List Nat := []
  clearing : Bool := false
deriving DecidableEq, Repr

/-- The threads, what they share, and how the bodies ended so far, the latest first. -/
structure Machine (κ ε ν : Type) where
  threads : List (Thread κ ε ν)
  shared : Shared κ ν := {}
  bodies : List (κ × Except ε ν) := []

inductive Move (ε ν : Type) where
  | step (thread : Nat)
  | finish (thread : Nat) (result : Except ε ν)

variable {κ ε ν : Type}

namespace Shared

variable [BEq κ]

def callStep (s : Shared κ ν) (key : κ) : CallPhase ε ν → Option (CallPhase ε ν × Shared κ ν)
  | .ready =>
    match s.values.lookup key with
    | some v => some (.finished (.value v), s)
    | none => some (.missed, s)
  | .missed =>
    if s.clearing then none
    else match s.locks.lookup key with
      | some lock => some (.waiting lock, s)
      | none =>
        let s' := { s with locks := (key, s.lockCount) :: s.locks, lockCount := s.lockCount + 1 }
        some (.waiting s.lockCount, s')
  | .waiting lock =>
    if lock ∈ s.held then none else some (.holding lock, { s with held := lock :: s.held })
  | .holding lock =>
    some (if (s.values.lookup key).isSome then .reading lock else .starting lock, s)
  | .reading lock =>
    match s.values.lookup key with
    | some v => some (.leaving lock (.value v), s)
    | none => some (.leaving lock .gone, s)
  | .starting lock => some (.inside lock, s)
  | .inside _ => none
  | .publishing lock v =>
    some (.leaving lock (.value v), { s with values := (key, v) :: s.values })
  | .leaving lock result => some (.finished result, { s with held := s.held.erase lock })
  | .finished _ => none

def clearStep (s : Shared κ ν) : ClearPhase → Option (ClearPhase × Shared κ ν)
  | .ready => if s.clearing then none else some (.entered, { s with clearing := true })
  | .entered => some (.valuesGone, { s with values := [] })
  | .valuesGone => some (.finished, { s with locks := [], clearing := false })
  | .finished => none

end Shared

def CallPhase.afterBody (lock : Nat) : Except ε ν → CallPhase ε ν
  | .ok v => .publishing lock v
  | .error e => .leaving lock (.raised e)

namespace Machine

def start (jobs : List (Option κ)) : Machine κ ε ν :=
  { threads := jobs.map fun
      | some key => .call key .ready
      | none => .clear .ready }

variable [BEq κ]

def move (m : Machine κ ε ν) : Move ε ν → Option (Machine κ ε ν)
  | .step i =>
    match m.threads[i]? with
    | some (.call key phase) =>
      (m.shared.callStep key phase).map fun (phase, shared) =>
        { m with threads := m.threads.set i (.call key phase), shared }
    | some (.clear phase) =>
      (m.shared.clearStep phase).map fun (phase, shared) =>
        { m with threads := m.threads.set i (.clear phase), shared }
    | none => none
  | .finish i result =>
    match m.threads[i]? with
    | some (.call key (.inside lock)) =>
      some { m with
        threads := m.threads.set i (.call key (.afterBody lock result))
        bodies := (key, result) :: m.bodies }
    | _ => none

def run (m : Machine κ ε ν) (moves : List (Move ε ν)) : Option (Machine κ ε ν) :=
  moves.foldlM move m

end Machine

end Whereabouts.Once
