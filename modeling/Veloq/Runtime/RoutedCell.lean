import Veloq.Runtime.ArenaRuns
import Veloq.Runtime.Scope
set_option autoImplicit false

/-!
# Runtime: the arena cell of a routed job

`spawn_boxed_to` of `scope.rs` with `scope/router.rs`.  The spawner puts the job into a cell
of the scope's arena and routes a closure to a worker.  The closure takes the job out, calls
it, drops the cell, and installs the task.  Either side may find that the other has failed:
the closure looks for a cancellation, and the spawner, once the closure is routed, looks for
a failed outcome and then drops the cell itself.

`Control` is where the two sides are; every load and store of what they share is a step.
`RoutedSpawn` adds the arena of the scope, whose other objects come and go at any time; the
node of the task is one of them.
-/

namespace Veloq.Runtime.RoutedCell

open Foundation Scope

/-- `RoutedSpawnState::outcome`. -/
inductive Outcome where
  | none
  | ready
  | failedTask
  | failedRuntime
  deriving DecidableEq, Repr

/-- `has_failed_outcome`. -/
def Outcome.failed : Outcome → Bool
  | none | ready => false
  | failedTask | failedRuntime => true

/-- Where `spawn_boxed_to` is. -/
inductive SpawnerPc where
  | validate
  | newGuard
  | alloc
  | dispatch
  | check
  | dropCell
  /-- The caller has the join handle. -/
  | returned
  deriving DecidableEq, Repr

/-- Where the routed closure is. -/
inductive JobPc where
  /-- Not routed. -/
  | absent
  | queued
  | lookCancel
  | dropCancelled
  | failCancelled
  | take
  | failTake
  | call
  | drop
  | lookAgain
  /-- `install_routed_pinned_task`, up to the allocation of the node. -/
  | install
  | failNode
  | settle
  | handoff
  | enqueue
  | callerSettle
  | dropNode
  | failEnqueue
  | setReady
  | closing
  /-- The handler of `dispatch_routed`. -/
  | failPanic
  | settlePanic
  | done
  deriving DecidableEq, Repr

/-- The user's code, the arena and the queues may panic while the closure runs. -/
def JobPc.running : JobPc → Bool
  | absent | queued | failPanic | settlePanic | done => false
  | _ => true

/-- The closure is about to store a failed outcome. -/
def JobPc.fails : JobPc → Bool
  | failCancelled | failTake | failNode | failEnqueue | failPanic => true
  | _ => false

/-- Who is to settle the task with the scope. -/
inductive Obligation where
  | none
  | guard
  | header
  | settled
  deriving DecidableEq, Repr

/-- Both sides, and what they share. -/
structure Control where
  spawner : SpawnerPc
  job : JobPc
  outcome : Outcome
  cancelRequested : Bool
  /-- `RoutedJobCell::job`. -/
  hasJob : Bool
  obligation : Obligation
  deriving DecidableEq, Repr

/-- What a step does to the arena of the scope. -/
inductive Effect where
  | quiet
  | allocCell
  /-- `drop_object_raw` of the cell. -/
  | dropCell
  /-- The scope ends, and its arena with it. -/
  | endScope
  deriving DecidableEq, Repr

/-- What happens, with the results of what is called outside. -/
inductive Event where
  | validate (valid : Bool)
  | newGuard
  | allocCell (layout : Layout) (dropFn ptr c : Nat)
  | refuseCell
  | dispatch (routed : Bool)
  | check
  | dropCell
  /-- `JoinHandle::cancel`. -/
  | cancel
  /-- `try_take_ready`, by the join handle. -/
  | takeOutcome
  /-- The worker comes to the closure. -/
  | run
  /-- The queue of the worker goes away with the closure in it. -/
  | discard
  /-- The closure goes on. -/
  | job
  | allocNode (granted : Bool)
  | enqueue (outcome : EnqueuePinnedOutcome)
  | panic
  /-- The task is acknowledged to the scope. -/
  | acknowledge
  | endScope
  /-- Another object of the arena is allocated, written or dropped. -/
  | other (e : ArenaEvent)

namespace Control

def start : Control :=
  { spawner := .validate, job := .absent, outcome := .none, cancelRequested := false,
    hasJob := false, obligation := .none }

variable (c : Control)

/-- `set_outcome`: the first outcome stays. -/
def setOutcome (outcome : Outcome) : Control :=
  if c.outcome = .none then { c with outcome := outcome } else c

/-- `ScopeTaskGuard::settle`, and its destructor. -/
def settle : Control :=
  if c.obligation = .guard then { c with obligation := .settled } else c

/-- The closure of `spawn_boxed_to` goes on, where nothing from outside is asked. -/
def jobStep : Option (Control × Effect) :=
  match c.job with
  | .lookCancel =>
      some ({ c with job := if c.cancelRequested then .dropCancelled else .take }, .quiet)
  | .dropCancelled => some ({ c with job := .failCancelled }, .dropCell)
  | .failCancelled => some ({ c.setOutcome .failedTask with job := .settle }, .quiet)
  | .take =>
      if c.hasJob then some ({ c with job := .call, hasJob := false }, .quiet)
      else some ({ c with job := .failTake }, .quiet)
  | .failTake => some ({ c.setOutcome .failedRuntime with job := .settle }, .quiet)
  | .call => some ({ c with job := .drop }, .quiet)
  | .drop => some ({ c with job := .lookAgain }, .dropCell)
  | .lookAgain =>
      some ({ c with job := if c.cancelRequested then .failCancelled else .install }, .quiet)
  | .failNode => some ({ c.setOutcome .failedTask with job := .settle }, .quiet)
  | .settle => some ({ c.settle with job := .closing }, .quiet)
  | .handoff => some ({ c with job := .enqueue, obligation := .header }, .quiet)
  -- the guard has handed the obligation over, so the header is acknowledged
  | .callerSettle => some ({ c with job := .dropNode, obligation := .settled }, .quiet)
  | .dropNode => some ({ c with job := .failEnqueue }, .quiet)
  | .failEnqueue => some ({ c.setOutcome .failedTask with job := .closing }, .quiet)
  | .setReady => some ({ c.setOutcome .ready with job := .closing }, .quiet)
  | .closing => some ({ c with job := .done }, .quiet)
  | .failPanic => some ({ c.setOutcome .failedTask with job := .settlePanic }, .quiet)
  | .settlePanic => some ({ c.settle with job := .done }, .quiet)
  | .absent | .queued | .install | .enqueue | .done => none

/-- `handle_enqueue_pinned_outcome`: where the closure goes on. -/
def afterEnqueue : EnqueuePinnedOutcome → JobPc
  | .enqueued | .alreadyQueued => .setReady
  | .abortedAcknowledged | .alreadySettled => .dropNode
  | .needsCallerSettle => .callerSettle

/-- One step. -/
def next : Event → Option (Control × Effect)
  | .validate valid =>
      if c.spawner = .validate then
        if valid then some ({ c with spawner := .newGuard }, .quiet)
        else some ({ c.setOutcome .failedRuntime with spawner := .returned }, .quiet)
      else
        none
  | .newGuard =>
      if c.spawner = .newGuard then
        some ({ c with spawner := .alloc, obligation := .guard }, .quiet)
      else
        none
  | .allocCell _ _ _ _ =>
      if c.spawner = .alloc then
        some ({ c with spawner := .dispatch, hasJob := true }, .allocCell)
      else
        none
  | .refuseCell =>
      if c.spawner = .alloc then
        some ({ (c.setOutcome .failedRuntime).settle with spawner := .returned }, .quiet)
      else
        none
  | .dispatch routed =>
      if c.spawner = .dispatch then
        if routed then some ({ c with spawner := .check, job := .queued }, .quiet)
        -- `route_to` drops the closure, and the guard in it
        else some ({ c.settle.setOutcome .failedRuntime with spawner := .check }, .quiet)
      else
        none
  | .check =>
      if c.spawner = .check then
        some ({ c with spawner := if c.outcome.failed then .dropCell else .returned }, .quiet)
      else
        none
  | .dropCell =>
      if c.spawner = .dropCell then some ({ c with spawner := .returned }, .dropCell) else none
  | .cancel =>
      if c.spawner = .returned then some ({ c with cancelRequested := true }, .quiet) else none
  | .takeOutcome =>
      if c.spawner = .returned then some ({ c with outcome := .none }, .quiet) else none
  | .run => if c.job = .queued then some ({ c with job := .lookCancel }, .quiet) else none
  | .discard => if c.job = .queued then some ({ c.settle with job := .done }, .quiet) else none
  | .job => c.jobStep
  | .allocNode granted =>
      if c.job = .install then
        some ({ c with job := if granted then .handoff else .failNode }, .quiet)
      else
        none
  | .enqueue outcome =>
      if c.job = .enqueue then some ({ c with job := afterEnqueue outcome }, .quiet) else none
  | .panic => if c.job.running then some ({ c with job := .failPanic }, .quiet) else none
  | .acknowledge =>
      if c.obligation = .header then some ({ c with obligation := .settled }, .quiet) else none
  | .endScope =>
      if c.spawner = .returned ∧ c.obligation ≠ .guard ∧ c.obligation ≠ .header then
        some (c, .endScope)
      else
        none
  | .other _ => none

end Control

/-- A routed spawn with the arena of its scope.  `drops` is bookkeeping: for every call of
`drop_object_raw` on the cell, whether the arena still had the cell. -/
structure RoutedSpawn where
  control : Control
  tenants : Tenants
  cell : Option Object
  drops : List Bool

namespace RoutedSpawn

/-- The call comes in an arena that may have been in use for long. -/
def Init (node : NodeLayout) (s : RoutedSpawn) : Prop :=
  s.control = .start ∧ s.cell = none ∧ s.drops = [] ∧ s.tenants.ended = false ∧
    ∃ nodes, Run (ArenaStep node) (Provided node) (fun t => t = Tenants.new nodes) s.tenants

/-- The arena after `drop_object_raw` of an object that it does not have any more; where it
would use freed memory, anything can happen. -/
def misdrop (node : NodeLayout) (t : Tenants) (o : Object) : Tenants :=
  match t.arena.dropObject node o.ptr o.layout with
  | none => t
  | some (a, ran) => { t with arena := a, ran := ran.toList ++ t.ran }

/-- One step of either side, of the join handle, or of the other objects of the arena. -/
inductive Step (node : NodeLayout) : RoutedSpawn → Event → RoutedSpawn → Prop where
  | quiet {s : RoutedSpawn} {e : Event} {control : Control} :
      s.control.next e = some (control, .quiet) → Step node s e { s with control := control }
  | allocCell {s : RoutedSpawn} {layout : Layout} {dropFn ptr c p chunk : Nat}
      {control : Control} {a : Arena} :
      s.control.next (.allocCell layout dropFn ptr c) = some (control, .allocCell) →
      s.tenants.ended = false →
      Provided node s.tenants (.alloc layout (some dropFn) ptr c) →
      s.tenants.arena.alloc node layout (some dropFn) ptr c = some (a, some (p, chunk)) →
      Step node s (.allocCell layout dropFn ptr c) { s with
        control := control
        cell := some ⟨p, layout, some dropFn, chunk⟩
        tenants := { s.tenants with
          arena := a
          live := ⟨p, layout, some dropFn, chunk⟩ :: s.tenants.live
          due := (dropFn, p) :: s.tenants.due } }
  | dropCell {s : RoutedSpawn} {e : Event} {control : Control} {before after : List Object}
      {o : Object} {a : Arena} {ran : Option (Nat × Nat)} :
      s.control.next e = some (control, .dropCell) → s.cell = some o →
      s.tenants.live = before ++ o :: after →
      s.tenants.arena.dropObject node o.ptr o.layout = some (a, ran) →
      Step node s e { s with
        control := control
        drops := s.drops ++ [true]
        tenants := { s.tenants with
          arena := a
          live := before ++ after
          ran := ran.toList ++ s.tenants.ran } }
  | misdrop {s : RoutedSpawn} {e : Event} {control : Control} {o : Object} :
      s.control.next e = some (control, .dropCell) → s.cell = some o → o ∉ s.tenants.live →
      Step node s e { s with
        control := control
        drops := s.drops ++ [false]
        tenants := misdrop node s.tenants o }
  | endScope {s : RoutedSpawn} {control : Control} {t : Tenants} :
      s.control.next .endScope = some (control, .endScope) →
      ArenaStep node s.tenants .drop t →
      Step node s .endScope { s with control := control, tenants := t }
  | other {s : RoutedSpawn} {e : ArenaEvent} {t : Tenants} :
      (∀ o layout, s.cell = some o → e ≠ .dropObject o.ptr layout) → e ≠ .drop →
      Provided node s.tenants e → ArenaStep node s.tenants e t →
      Step node s (.other e) { s with tenants := t }

/-- The cell has been dropped at most once, and the arena still had it. -/
def DroppedOnce (s : RoutedSpawn) : Prop := s.drops = [] ∨ s.drops = [true]

/-- Once the cell has been dropped, the closure stores a failed outcome only after the
spawner has looked for one. -/
def Late (s : RoutedSpawn) (e : Event) : Prop :=
  e = .job → s.control.job.fails = true → s.drops ≠ [] → s.control.spawner ≠ .check

end RoutedSpawn

end Veloq.Runtime.RoutedCell
