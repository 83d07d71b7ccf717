import Veloq.Foundation.Run
set_option autoImplicit false

/-!
# Runtime: the obligations of a scope

`scope.rs`, `scope/guard.rs`, `scope/router.rs` and the enqueue functions of
`runtime/shared.rs`.  A spawn registers one task with its scope, through a guard that
settles it when it is dropped armed.  The guard hands the obligation to the header of the
task, which settles it when the completion is acknowledged.

A spawn path is run to its end, with the results of what it calls outside as arguments:
whether the worker id is valid, whether the bounded queue is full, whether the arena
allocates, whether the join handle has been dropped meanwhile, and after how many of its
actions a routed job panics.
-/

namespace Veloq.Runtime.Scope

open Foundation

/-! ## The scope and the header -/

/-- The calls on `GenericScopeCompletion`. -/
inductive ScopeCall where
  | registerTask
  | settleTask
  deriving DecidableEq, Repr

/-- `remaining` after a call; `settle_task` stops at zero. -/
def ScopeCall.apply (remaining : Nat) : ScopeCall → Nat
  | registerTask => remaining + 1
  | settleTask => remaining - 1

/-- The header of a task, as far as spawning reads it. -/
structure Header where
  bound : Bool
  completed : Bool
  queued : Bool
  pinned : Bool
  obligated : Bool
  acked : Bool
  refCount : Nat
  deriving DecidableEq, Repr

/-- `new_placeholder`. -/
def Header.fresh : Header := ⟨false, false, false, false, false, false, 1⟩

/-- `EnqueuePinnedOutcome`. -/
inductive EnqueuePinnedOutcome where
  | enqueued
  | alreadyQueued
  | abortedAcknowledged
  | alreadySettled
  | needsCallerSettle
  deriving DecidableEq, Repr

/-- A spawn under way: the header, the guard, the queue entries of the task and the calls on
the scope.  `unacknowledged` is bookkeeping: `enqueue_pinned` has returned
`AbortedAcknowledged` for a header that was not acknowledged. -/
structure Spawning where
  header : Header
  armed : Bool
  entries : Nat
  calls : List ScopeCall
  outcome : EnqueuePinnedOutcome
  unacknowledged : Bool
  deriving DecidableEq, Repr

namespace Spawning

variable (s : Spawning)

/-- Before the spawn. -/
def start (header : Header) : Spawning := ⟨header, false, 0, [], .alreadySettled, false⟩

def call (c : ScopeCall) : Spawning := { s with calls := s.calls ++ [c] }

/-- `acknowledge_completion`. -/
def acknowledgeCompletion : Spawning :=
  if s.header.acked then s
  else ({ s with header := { s.header with acked := true } }).call .settleTask

/-! ## The guard -/

/-- `ScopeTaskGuard::new`. -/
def newGuard : Spawning := { s.call .registerTask with armed := true }

/-- `handoff_to`. -/
def handoffTo : Spawning :=
  { s with header := { s.header with obligated := true }, armed := false }

/-- `settle`, and the destructor. -/
def settle : Spawning := if s.armed then { s.call .settleTask with armed := false } else s

/-- `settle_enqueue_failure`. -/
def settleEnqueueFailure : Spawning := if s.armed then s.settle else s.acknowledgeCompletion

/-! ## The queues -/

/-- `try_mark_queued`. -/
def tryMarkQueued : Bool × Spawning :=
  if s.header.queued || s.header.completed then (false, s)
  else
    (true, { s with header :=
      { s.header with queued := true, refCount := s.header.refCount + 1 } })

/-- `clear_queued`. -/
def clearQueued : Bool × Spawning :=
  (s.header.queued && s.header.refCount == 1,
    { s with header := { s.header with
      queued := false
      refCount := if s.header.queued then s.header.refCount - 1 else s.header.refCount } })

/-- `if clear_queued() { acknowledge_completion() }`. -/
def unqueue : Spawning :=
  match s.clearQueued with
  | (true, s') => s'.acknowledgeCompletion
  | (false, s') => s'

/-- How `enqueue_local` ends; `panicked`: the worker id is out of bounds. -/
inductive LocalResult where
  | ok
  | error
  | panicked
  deriving DecidableEq, Repr

/-- `RuntimeSharedBase::enqueue_local`. -/
def enqueueLocal (valid full : Bool) : LocalResult × Spawning :=
  if s.header.completed then (.ok, s)
  else
    match s.tryMarkQueued with
    | (false, s) => (.ok, s)
    | (true, s) =>
        if !valid then (.panicked, s)
        else if full then (.ok, s.unqueue)
        else if s.header.bound then (.ok, { s with entries := s.entries + 1 })
        else (.error, ({ s with entries := s.entries + 1 }).unqueue)

/-- `enqueue_send`: a full remote queue overflows into the injector. -/
def enqueueSend (valid : Bool) : Spawning :=
  if !valid then s
  else if s.header.completed then s
  else
    match s.tryMarkQueued with
    | (false, s) => s
    | (true, s) => { s with entries := s.entries + 1 }

/-- `enqueue_pinned`. -/
def enqueuePinned (valid full : Bool) : Spawning :=
  if !valid then
    { s with outcome := .abortedAcknowledged, unacknowledged := !s.header.acked }
  else if s.header.completed then
    { s with outcome := if s.header.acked then .alreadySettled else .needsCallerSettle }
  else
    match s.tryMarkQueued with
    | (false, s) => { s with outcome := .alreadyQueued }
    | (true, s) =>
        if full then
          let s := s.unqueue
          { s with outcome := .abortedAcknowledged, unacknowledged := !s.header.acked }
        else
          { s with entries := s.entries + 1, outcome := .enqueued }

/-- `GenericTaskHeader::initialize`. -/
def bind : Spawning := { s with header := { s.header with bound := true } }

/-- `set_pinned`. -/
def setPinned : Spawning := { s with header := { s.header with pinned := true } }

/-- `handle_enqueue_pinned_outcome`. -/
def handleEnqueuePinnedOutcome : Spawning :=
  match s.outcome with
  | .enqueued | .alreadyQueued | .abortedAcknowledged | .alreadySettled => s
  | .needsCallerSettle => s.settleEnqueueFailure

/-! ## The spawn paths -/

/-- The end of `spawn_task_impl` and `spawn_boxed_impl` with `enqueue_local`. -/
def finishLocal (valid full : Bool) : Spawning :=
  match s.enqueueLocal valid full with
  | (.error, s) => s.settleEnqueueFailure
  | (.ok, s) => s
  | (.panicked, s) => s

/-- `dispatch_routed`, once the closure runs: the actions of the job, the first `k` of them
where it panics, and then the handler. -/
def runRouted (actions : List (Spawning → Spawning)) : Option Nat → Spawning
  | none => (actions.foldl (fun s action => action s) s).settle
  | some k =>
      let s := (actions.take k).foldl (fun s action => action s) s
      if s.armed then s.settle else s.call .settleTask

/-- A worker runs the entry to the end of the task: `poll_send_task` or `poll_local_task`, a
poll with a result, and `finalize`. -/
def runEntry : Spawning :=
  match s.entries with
  | 0 => s
  | n + 1 =>
      match ({ s with entries := n }).clearQueued with
      | (true, s) => s.acknowledgeCompletion
      | (false, s) =>
          if s.header.completed then s
          else
            let last := s.header.refCount == 1
            let s := { s with header :=
              { s.header with completed := true, refCount := s.header.refCount - 1 } }
            if last then s.acknowledgeCompletion else s

/-- How often the scope was told that a task is there, or is done. -/
def count (c : ScopeCall) : Nat := s.calls.countP (· == c)

end Spawning

/-- A task that nobody runs. -/
inductive TaskState where
  | fresh
  /-- Completed, by an earlier spawn. -/
  | completed (acked : Bool)
  deriving DecidableEq, Repr

/-- Its header. -/
def TaskState.header : TaskState → Header
  | fresh => .fresh
  | completed acked => ⟨true, true, false, false, true, acked, 0⟩

/-- A spawn path with the results of what it calls.  `routed`: `route_to` delivers the job;
`cancelled`: the join handle has been dropped when the job looks; `panic`: after how many of
its actions the job panics. -/
inductive Spawn where
  | taskLocal (task : TaskState) (valid full : Bool)
  | taskSend (task : TaskState) (valid : Bool)
  | boxedLocal (alloc valid full : Bool)
  | boxedSend (alloc valid : Bool)
  | spawnTo (task : TaskState) (valid routed cancelled full : Bool) (panic : Option Nat)
  | spawnBoxedTo (valid jobAlloc routed cancelled cancelledLater nodeAlloc full : Bool)
      (panic : Option Nat)
  deriving DecidableEq, Repr

open Spawning in
/-- The actions of the job of `spawn_to`; the actions on the routed state do nothing to the
obligation. -/
def spawnToJob (valid cancelled full : Bool) : List (Spawning → Spawning) :=
  if cancelled then
    [id, settle]
  else
    [bind, setPinned, handoffTo, (enqueuePinned · valid full), handleEnqueuePinnedOutcome, id]

open Spawning in
/-- The actions of the job of `spawn_boxed_to` with `install_routed_pinned_task`: taking and
calling the user's job and dropping its cell come first. -/
def spawnBoxedToJob (valid cancelled cancelledLater nodeAlloc full : Bool) :
    List (Spawning → Spawning) :=
  if cancelled then
    [id, id, settle]
  else if cancelledLater then
    [id, id, id, id, settle]
  else if !nodeAlloc then
    [id, id, id, bind, id, settle]
  else
    [id, id, id, bind, setPinned, handoffTo, (enqueuePinned · valid full),
      handleEnqueuePinnedOutcome, id]

open Spawning in
/-- The spawn path, up to its return and, where the job is routed, to the end of the job. -/
def Spawn.run : Spawn → Spawning
  | .taskLocal task valid full =>
      (start task.header).newGuard.bind.handoffTo.finishLocal valid full
  | .taskSend task valid =>
      (start task.header).newGuard.bind.handoffTo.enqueueSend valid
  | .boxedLocal alloc valid full =>
      let s := (start .fresh).newGuard.bind
      if !alloc then s.settle else s.handoffTo.finishLocal valid full
  | .boxedSend alloc valid =>
      let s := (start .fresh).newGuard.bind
      if !alloc then s.settle else s.handoffTo.enqueueSend valid
  | .spawnTo task valid routed cancelled full panic =>
      let s := start task.header
      if !valid then s
      else if !routed then s.newGuard.settle
      else s.newGuard.runRouted (spawnToJob valid cancelled full) panic
  | .spawnBoxedTo valid jobAlloc routed cancelled cancelledLater nodeAlloc full panic =>
      let s := start .fresh
      if !valid then s
      else if !jobAlloc then s.newGuard.settle
      else if !routed then s.newGuard.settle
      else s.newGuard.runRouted (spawnBoxedToJob valid cancelled cancelledLater nodeAlloc full) panic

/-! ## The property -/

/-- The obligation is settled exactly once in total; it has been settled when the spawn ends
without an entry in a queue; and `AbortedAcknowledged` stands for an acknowledged header. -/
structure SettledOnce (spawn : Spawn) : Prop where
  total : spawn.run.runEntry.count .settleTask = spawn.run.count .registerTask
  settled : spawn.run.entries = 0 → spawn.run.count .settleTask = spawn.run.count .registerTask
  acknowledged : spawn.run.unacknowledged = false

/-- The job does not panic, or does so after at most `limit` actions. -/
def PanicsBy (limit : Nat) : Option Nat → Prop
  | none => True
  | some k => k ≤ limit

/-- The spawns that are handled right.  A local task is new, its worker exists and its queue
has room, or its node was not allocated; a `Send` task is new and its worker exists, or its
node was not allocated.  A routed job is refused or not delivered; or it ends early and does
not panic after it has settled the guard; or it goes on to the queue, and panics at most
before it enqueues the task, the task being new and its queue not full (or completed and not
acknowledged), or panics after the enqueue of a completed task and before anybody settles. -/
def Careful : Spawn → Prop
  | .taskLocal task valid full => task = .fresh ∧ valid = true ∧ full = false
  | .taskSend task valid => task = .fresh ∧ valid = true
  | .boxedLocal alloc valid full => alloc = false ∨ valid = true ∧ full = false
  | .boxedSend alloc valid => alloc = false ∨ valid = true
  | .spawnTo task valid routed cancelled full panic =>
      valid = false ∨ routed = false ∨
        if cancelled then PanicsBy 1 panic
        else
          match panic with
          | none => task = .fresh ∧ full = false ∨ task = .completed false
          | some k => k ≤ 3 ∨ task = .completed true ∨ task = .completed false ∧ k = 4
  | .spawnBoxedTo valid jobAlloc routed cancelled cancelledLater nodeAlloc full panic =>
      valid = false ∨ jobAlloc = false ∨ routed = false ∨
        if cancelled then PanicsBy 2 panic
        else if cancelledLater then PanicsBy 4 panic
        else if !nodeAlloc then PanicsBy 5 panic
        else
          match panic with
          | none => full = false
          | some k => k ≤ 6

/-! ## Whole scopes -/

/-- A scope: `remaining`, and the spawned tasks that are queued, running or parked. -/
structure ScopeState where
  remaining : Nat
  live : Nat
  deriving DecidableEq, Repr

/-- What happens in a scope. -/
inductive ScopeEvent where
  | spawn (path : Spawn)
  /-- A live task is acknowledged. -/
  | finish
  deriving DecidableEq, Repr

/-- One event. -/
def ScopeState.step (s : ScopeState) : ScopeEvent → Option ScopeState
  | .spawn path =>
      some ⟨path.run.calls.foldl ScopeCall.apply s.remaining, s.live + path.run.entries⟩
  | .finish =>
      match s.live with
      | 0 => none
      | n + 1 => some ⟨ScopeCall.settleTask.apply s.remaining, n⟩

/-- The events as a relation. -/
def ScopeStep (s : ScopeState) (e : ScopeEvent) (s' : ScopeState) : Prop := s.step e = some s'

/-- All spawns are ones that are handled right. -/
def CarefulEvent (_ : ScopeState) : ScopeEvent → Prop
  | .spawn path => Careful path
  | .finish => True

end Veloq.Runtime.Scope
