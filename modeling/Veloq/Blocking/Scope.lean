import Veloq.Foundation.Census
import Veloq.Foundation.Run
import Mathlib.Algebra.Group.Nat.Defs
import Mathlib.Logic.Function.Basic
set_option autoImplicit false

/-!
# Blocking: scoped threads

`RawScope` of `veloq-std/src/thread/scope/raw.rs` over the threads of `thread/sys.rs` and
`thread/sys/linux.rs`.  A scoped thread runs its closure, records a panic in the one cell of the
scope, decrements `num_running_threads` by the guard inside the closure, and only then stores the
result in the state that it shares with its handle and releases that.  The owner, which alone has
the handles, waits for the counter to be zero.

A value or a payload is known by the number of its thread.  `join` waits for the end of the thread
and is one step then.  `abort` is not used, and the owner is not unwinding when it opens the scope.
-/

namespace Veloq.Blocking

open Veloq.Foundation

/-- How a closure ends. -/
inductive Outcome where
  | returned
  | panicked
  deriving DecidableEq, Repr

/-- What a scoped thread does next. -/
inductive ScopedPc where
  | fresh
  /-- It is counted and does not exist yet. -/
  | counted
  /-- `pthread_create` has failed. -/
  | failed
  | running
  /-- The `compare_exchange` that stores the payload. -/
  | report
  /-- The `fetch_sub` of the guard. -/
  | decrement (o : Outcome)
  /-- The `wake_by_address` of the guard. -/
  | wake (o : Outcome)
  /-- `thread_entry_posix`: store the result. -/
  | store (o : Outcome)
  /-- The `compare_exchange` to `STATE_FINISHED`. -/
  | status (o : Outcome)
  /-- The drop of the `Arc` of the shared state. -/
  | release (o : Outcome)
  | exited (o : Outcome)
  deriving DecidableEq, Repr

/-- The value that a closure has returned. -/
inductive ValueStage where
  | absent
  /-- The thread has it. -/
  | moving
  /-- It is in the shared state. -/
  | stored
  /-- `join` has returned it. -/
  | handedOut
  | dropped
  deriving DecidableEq, Repr

inductive HandleStage where
  | absent
  | held
  | joined
  | dropped
  deriving DecidableEq, Repr

/-- What `join` returns: the value of the thread, or an error with the payload of some thread. -/
inductive JoinResult where
  | ok
  | err (payload : Option Nat)
  deriving DecidableEq, Repr

/-- A scoped thread with the state that it shares with its handle. -/
structure ScopedThread where
  pc : ScopedPc
  handle : HandleStage
  /-- The status is `STATE_FINISHED`. -/
  finished : Bool
  /-- The references to the shared state. -/
  refs : Nat
  value : ValueStage
  result : Option JoinResult
  /-- The cell was occupied when the thread panicked, so that its payload is lost. -/
  lost : Bool
  deriving DecidableEq, Repr

def ScopedThread.fresh : ScopedThread :=
  { pc := .fresh
    handle := .absent
    finished := false
    refs := 0
    value := .absent
    result := none
    lost := false }

/-- What the owner of the scope does. -/
inductive OwnerPc where
  | body
  /-- `spawn_with` after the `fetch_add`: `pthread_create`. -/
  | spawning (t : Nat)
  /-- The load of the loop in the destructor of the guard. -/
  | load
  | wait (val : UInt32)
  | asleep
  /-- `pop_panic` at the end. -/
  | pop
  | done
  deriving DecidableEq, Repr

/-- `RawScopeData` with the threads and the owner. -/
structure ThreadScope where
  numRunning : UInt32
  /-- The payload in the cell `panics`. -/
  panics : Option Nat
  threads : Nat → ScopedThread
  owner : OwnerPc
  /-- The body has panicked, so that the owner is `panicking()`. -/
  bodyPanicked : Bool
  /-- The payload that the scope resumes with. -/
  resumed : Option Nat

inductive ScopeEvent where
  /-- `spawn_with` up to the `fetch_add`. -/
  | spawn (t : Nat)
  | create
  /-- `pthread_create` fails, and `SpawnRollback` is dropped. -/
  | createFail
  | join (t : Nat)
  | dropHandle (t : Nat)
  | bodyReturn
  | bodyPanic
  /-- The owner takes its next step after the body. -/
  | owner
  /-- The wait of the owner ends without a wake. -/
  | interrupt
  /-- The closure of `t` ends. -/
  | finish (t : Nat) (o : Outcome)
  /-- The thread takes its next step after the closure. -/
  | advance (t : Nat)
  deriving DecidableEq, Repr

namespace ScopedThread

variable (r : ScopedThread)

/-- One reference to the shared state less.  The last one drops the value in it. -/
def releaseState : ScopedThread :=
  { r with
    refs := r.refs - 1
    value := if r.refs = 1 ∧ r.value = .stored then .dropped else r.value }

/-- `receive`: the value is taken out. -/
def takeValue : ScopedThread :=
  { r with value := if r.value = .stored then .handedOut else r.value }

end ScopedThread

namespace ThreadScope

def new : ThreadScope :=
  { numRunning := 0
    panics := none
    threads := fun _ => .fresh
    owner := .body
    bodyPanicked := false
    resumed := none }

variable (s : ThreadScope)

def setThread (t : Nat) (r : ScopedThread) : ThreadScope :=
  { s with threads := Function.update s.threads t r }

/-- The thread goes on, and nothing else about it changes. -/
def goto (t : Nat) (pc : ScopedPc) : ThreadScope := s.setThread t { s.threads t with pc := pc }

/-- The futex wakes the owner, if it is asleep. -/
def wakeOwner : ThreadScope := if s.owner = .asleep then { s with owner := .load } else s

/-- The next step of a thread after its closure. -/
def advance (t : Nat) : Option ThreadScope :=
  let r := s.threads t
  match r.pc with
  | .report =>
      some
        (if s.panics = none then { s.goto t (.decrement .panicked) with panics := some t }
        else s.setThread t { r with pc := .decrement .panicked, lost := true })
  | .decrement o =>
      some
        { s.goto t (if s.numRunning = 1 then .wake o else .store o) with
          numRunning := s.numRunning - 1 }
  | .wake o => some (s.wakeOwner.goto t (.store o))
  | .store o =>
      some (s.setThread t
        { r with pc := .status o, value := if o = .returned then .stored else r.value })
  | .status o => some (s.setThread t { r with pc := .release o, finished := true })
  | .release o => some (s.setThread t { r.releaseState with pc := .exited o })
  | .fresh | .counted | .failed | .running | .exited _ => none

/-- `join` of a thread that has ended. -/
def join (t : Nat) : Option ThreadScope :=
  let r := s.threads t
  match r.pc with
  | .exited o =>
      if r.handle = .held ∧ r.finished = true then
        let r' := { r.takeValue.releaseState with handle := .joined }
        match o with
        | .returned => some (s.setThread t { r' with result := some .ok })
        | .panicked =>
            some { s.setThread t { r' with result := some (.err s.panics) } with panics := none }
      else
        none
  | _ => none

def dropHandle (t : Nat) : Option ThreadScope :=
  let r := s.threads t
  if r.handle = .held then
    some (s.setThread t { r.releaseState with handle := .dropped })
  else
    none

/-- The next step of the owner after the body. -/
def stepOwner : Option ThreadScope :=
  match s.owner with
  | .load =>
      some
        { s with
          owner :=
            if s.numRunning = 0 then if s.bodyPanicked then .done else .pop
            else .wait s.numRunning }
  | .wait val => some { s with owner := if s.numRunning = val then .asleep else .load }
  | .pop => some { s with owner := .done, resumed := s.panics, panics := none }
  | .body | .spawning _ | .asleep | .done => none

/-- A step of the owner in the body. -/
def inBody (next : Option ThreadScope) : Option ThreadScope :=
  if s.owner = .body then next else none

def step : ScopeEvent → Option ThreadScope
  | .spawn t =>
      s.inBody
        (if (s.threads t).pc = .fresh then
          some { s.goto t .counted with numRunning := s.numRunning + 1, owner := .spawning t }
        else none)
  | .create =>
      match s.owner with
      | .spawning t =>
          some
            { s.setThread t { s.threads t with pc := .running, handle := .held, refs := 2 } with
              owner := .body }
      | _ => none
  | .createFail =>
      match s.owner with
      | .spawning t =>
          some { s.goto t .failed with numRunning := s.numRunning - 1, owner := .body }
      | _ => none
  | .join t => s.inBody (s.join t)
  | .dropHandle t => s.inBody (s.dropHandle t)
  | .bodyReturn => s.inBody (some { s with owner := .load })
  | .bodyPanic => s.inBody (some { s with owner := .load, bodyPanicked := true })
  | .owner => s.stepOwner
  | .interrupt => if s.owner = .asleep then some { s with owner := .load } else none
  | .finish t o =>
      if (s.threads t).pc = .running then
        some (s.setThread t
          { s.threads t with
            pc := if o = .returned then .decrement .returned else .report
            value := if o = .returned then .moving else .absent })
      else none
  | .advance t => s.advance t

end ThreadScope

/-- The steps as a relation. -/
def ScopeStep (s : ThreadScope) (e : ScopeEvent) (s' : ThreadScope) : Prop := s.step e = some s'

/-! ## What a scope promises -/

namespace ScopedPc

/-- How the closure of the thread has ended. -/
def outcome : ScopedPc → Option Outcome
  | report => some .panicked
  | decrement o | wake o | store o | status o | release o | exited o => some o
  | fresh | counted | failed | running => none

/-- The thread was created. -/
def spawned : ScopedPc → Bool
  | fresh | counted | failed => false
  | running | report | decrement _ | wake _ | store _ | status _ | release _ | exited _ => true

end ScopedPc

namespace ThreadScope

variable (s : ThreadScope)

/-- The closure of `t` has returned, and `join` has not handed the value out. -/
def Unclaimed (t : Nat) : Prop :=
  (s.threads t).pc.outcome = some .returned ∧ (s.threads t).result = none

/-- When the scope is over, every closure has ended and every value that was not handed out is
dropped. -/
structure EndsLast : Prop where
  closures : s.owner = .done → ∀ t, (s.threads t).pc.spawned = true →
    (s.threads t).pc.outcome ≠ none
  values : s.owner = .done → ∀ t, s.Unclaimed t → (s.threads t).value = .dropped

/-- `scope` does not return normally. -/
def Resumes : Prop := s.bodyPanicked = true ∨ s.resumed ≠ none

/-- `join` returns what became of its own thread, and the scope resumes a panic if the body has
panicked or a thread that was not joined. -/
structure ReportsPanics : Prop where
  joins : ∀ t r, (s.threads t).result = some r →
    (s.threads t).pc.outcome = some .returned ∧ r = .ok ∨
      (s.threads t).pc.outcome = some .panicked ∧ r = .err (some t)
  resumes : s.owner = .done → (s.Resumes ↔ s.bodyPanicked = true ∨
    ∃ t, (s.threads t).pc.outcome = some .panicked ∧ (s.threads t).result = none)

/-- The counter has room for one more thread. -/
def HasRoom : ScopeEvent → Prop
  | .spawn _ => s.numRunning.toNat + 1 < 2 ^ 32
  | _ => True

/-- The owner is about to find that no thread is running. -/
def Leaves : ScopeEvent → Prop
  | .owner => s.owner = .load ∧ s.numRunning = 0
  | _ => False

/-- The owner leaves the scope only when the threads whose values are not claimed have released
the shared state, and their handles are dropped. -/
def LeavesLast (e : ScopeEvent) : Prop :=
  s.HasRoom e ∧ (s.Leaves e → ∀ t, s.Unclaimed t →
    (s.threads t).pc = .exited .returned ∧ (s.threads t).handle = .dropped)

/-- No thread is joined whose payload is lost, and if there is such a thread, the cell is not empty
at the end. -/
def KeepsPayloads (e : ScopeEvent) : Prop :=
  s.HasRoom e ∧
    match e with
    | .join t => (s.threads t).lost = false
    | .owner => s.owner = .pop → (∃ t, (s.threads t).lost = true) → s.panics ≠ none
    | _ => True

end ThreadScope

end Veloq.Blocking
