import Veloq.Foundation.Machine
import Mathlib.Logic.Function.Basic
set_option autoImplicit false

/-!
# Sync: the asynchronous reader-writer lock

A state word, a queue of waiting futures behind a spin lock, and any number of tasks.
A task is one use of the lock: a `try_read` or `try_write`, or a future between its
creation and its drop, and then the guard that came out of it.  Every atomic operation on
the state word is a step of its own, and so is everything a section under the queue lock
does between two such operations; steps of different tasks interleave freely.

The wakers appear as two flags: `registered` while the node of a future holds a waker,
`notified` from a wake until the next poll of the future.
-/

namespace Veloq.Sync

/-- `KIND_READER` and `KIND_WRITER`. -/
inductive Kind where
  | reader
  | writer
  deriving DecidableEq, Repr

/-- The state word: `WRITER_LOCKED`, `CONTENDED` and the number of readers. -/
structure Word where
  writer : Bool
  contended : Bool
  readers : Nat
  deriving DecidableEq, Repr

/-- The word of a free lock that nobody waits for. -/
def Word.unlocked : Word := { writer := false, contended := false, readers := 0 }

/-- The number of readers at which all bits of `READER_MASK` are set. -/
def maxReaders : Nat := 2 ^ 62 - 1

/-- How often a poll spins before it queues up. -/
def spinLimit : Nat := 100

/-- What a task does next. -/
inductive Pc where
  | fresh
  /-- `try_read`: exchange the word, seen as `seen`. -/
  | tryRead (seen : Word)
  /-- The future is not being polled. -/
  | pending
  /-- `poll`: load the word. -/
  | load (spins : Nat)
  /-- `poll`: exchange the word, seen as `seen`. -/
  | exchange (spins : Nat) (seen : Word)
  /-- `poll`, the lock is acquired: lock the queue. -/
  | acquired
  /-- `poll`, under the queue lock: unlink the node and update `CONTENDED`. -/
  | mark
  /-- `poll` of a reader, under the queue lock: wake the next reader. -/
  | cascade
  /-- `poll`: register the waker. -/
  | register (spins : Nat)
  /-- `poll`: lock the queue in order to join it. -/
  | enter (spins : Nat)
  /-- `poll`, under the queue lock: load the word once more. -/
  | recheck (spins : Nat)
  /-- `poll`, under the queue lock: set `CONTENDED`. -/
  | announce
  /-- `poll`, under the queue lock: push the node. -/
  | push
  /-- `poll`: look whether the node is still linked. -/
  | checkLinked (spins : Nat)
  /-- `drop` of the future: unlink the node. -/
  | removing
  /-- A read guard. -/
  | reading
  /-- A write guard. -/
  | writing
  /-- `drop` of a write guard: store zero. -/
  | storing
  /-- `drop` of a guard: pop the queue. -/
  | popping
  /-- `downgrade`: exchange the word, seen as `seen`. -/
  | downgrade (seen : Word)
  /-- `downgrade`: wake the first waiter if it is a reader. -/
  | handOver
  | gone
  deriving DecidableEq, Repr

/-- A task, with the fields of its future. -/
structure Task where
  kind : Kind
  queued : Bool
  woken : Bool
  registered : Bool
  notified : Bool
  pc : Pc
  deriving DecidableEq, Repr

/-- A task that has not begun. -/
def Task.fresh : Task :=
  { kind := .reader
    queued := false
    woken := false
    registered := false
    notified := false
    pc := .fresh }

/-- The lock and everybody who uses it.  `queueLock` is the task inside the queue lock,
while it is held across steps. -/
structure RwLock where
  state : Word
  waiters : List Nat
  queueLock : Option Nat
  tasks : Nat → Task

namespace RwLock

def new : RwLock :=
  { state := Word.unlocked
    waiters := []
    queueLock := none
    tasks := fun _ => Task.fresh }

variable (s : RwLock) (f : Nat)

def setTask (t : Task) : RwLock := { s with tasks := Function.update s.tasks f t }

def goto (pc : Pc) : RwLock := s.setTask f { s.tasks f with pc := pc }

/-- The task is over. -/
def finish : RwLock := s.setTask f { Task.fresh with pc := .gone }

/-- `wake` on the waker of the node of `g`. -/
def wake (g : Nat) : RwLock :=
  if (s.tasks g).registered then
    s.setTask g { s.tasks g with registered := false, notified := true }
  else
    s

/-- Wakes the first waiter if it is a reader. -/
def wakeFirstReader : RwLock :=
  match s.waiters with
  | [] => s
  | g :: _ => if (s.tasks g).kind = .reader then s.wake g else s

/-- `f` enters the queue lock. -/
def lockQueue (pc : Pc) : Option RwLock :=
  if s.queueLock = none then some { s.goto f pc with queueLock := some f } else none

/-- A section under the queue lock that does not touch the word. -/
def critical (next : RwLock) : Option RwLock :=
  if s.queueLock = none then some next else none

/-! ## `try_read` and `try_write` -/

/-- The checks of `try_read` on a word it has seen. -/
def tryReadCheck (seen : Word) : RwLock :=
  if seen.writer || seen.contended || seen.readers == maxReaders then
    s.finish f
  else
    s.goto f (.tryRead seen)

def tryReadExchange (seen : Word) : RwLock :=
  if s.state = seen then
    { s.goto f .reading with state := { seen with readers := seen.readers + 1 } }
  else
    s.tryReadCheck f s.state

def tryWrite : RwLock :=
  if s.state = Word.unlocked then
    { s.goto f .writing with state := { Word.unlocked with writer := true } }
  else
    s.finish f

/-! ## The futures -/

/-- A new future. -/
def create (kind : Kind) : RwLock := s.setTask f { Task.fresh with kind := kind, pc := .pending }

/-- `poll` begins. -/
def poll : RwLock := s.setTask f { s.tasks f with notified := false, pc := .load 0 }

/-- What `poll` asks of the word before it tries to acquire the lock. -/
def mayAcquire (t : Task) (seen : Word) : Bool :=
  match t.kind with
  | .reader => !seen.writer && (t.queued || t.woken || !seen.contended)
  | .writer =>
      if t.queued || t.woken then !seen.writer && seen.readers == 0 else seen == Word.unlocked

/-- The word that `poll` tries to install. -/
def acquire (kind : Kind) (seen : Word) : Word :=
  match kind with
  | .reader => { seen with readers := seen.readers + 1 }
  | .writer => { writer := true, contended := seen.contended, readers := 0 }

/-- The guard that the future returns. -/
def guardPc : Kind → Pc
  | .reader => .reading
  | .writer => .writing

/-- `poll` returns a guard. -/
def ready (guard : Pc) : RwLock := s.setTask f { s.tasks f with notified := false, pc := guard }

/-- The poll panics: the reader count would overflow. -/
def Overflows (t : Task) (seen : Word) : Prop :=
  t.kind = .reader ∧ mayAcquire t seen = true ∧ seen.readers = maxReaders

instance (t : Task) (seen : Word) : Decidable (Overflows t seen) :=
  inferInstanceAs (Decidable (_ ∧ _ ∧ _))

def pollLoad (spins : Nat) : RwLock :=
  let t := s.tasks f
  if Overflows t s.state then
    s.goto f .pending
  else if mayAcquire t s.state then
    s.goto f (.exchange spins s.state)
  else if !t.queued && decide (spins < spinLimit) then
    s.goto f (.load (spins + 1))
  else
    s.goto f (.register spins)

def pollExchange (spins : Nat) (seen : Word) : RwLock :=
  let t := s.tasks f
  if s.state = seen then
    let s := { s with state := acquire t.kind seen }
    if t.queued || t.woken then s.goto f .acquired else s.ready f (guardPc t.kind)
  else
    s.goto f (.load spins)

/-- The acquired lock leaves the queue.  `CONTENDED` is cleared or set by what remains in
it. -/
def pollMark : RwLock :=
  let t := s.tasks f
  let waiters := s.waiters.erase f
  let s := { s with
    waiters := waiters
    state := { s.state with contended := !waiters.isEmpty } }
  let s := s.setTask f { t with queued := false, woken := false, pc := .cascade }
  match t.kind with
  | .reader => s
  | .writer => { s.ready f .writing with queueLock := none }

def pollCascade : RwLock := { s.wakeFirstReader.ready f .reading with queueLock := none }

def pollRegister (spins : Nat) : RwLock :=
  let t := s.tasks f
  s.setTask f { t with
    registered := true
    pc := if t.queued then .checkLinked spins else .enter spins }

/-- The second look at the word: nobody is in the way any more. -/
def mayRetry (kind : Kind) (current : Word) (waiters : List Nat) : Bool :=
  match kind with
  | .reader => !current.writer && waiters.isEmpty
  | .writer => !current.writer && current.readers == 0 && waiters.isEmpty

def pollRecheck (spins : Nat) : RwLock :=
  if mayRetry (s.tasks f).kind s.state s.waiters then
    { s.goto f (.load spins) with queueLock := none }
  else if s.state.contended then
    s.goto f .push
  else
    s.goto f .announce

def pollAnnounce : RwLock := { s.goto f .push with state := { s.state with contended := true } }

/-- The future joins the queue and `poll` returns `Pending`. -/
def pollPush : RwLock :=
  { s.setTask f { s.tasks f with queued := true, pc := .pending } with
    waiters := s.waiters ++ [f]
    queueLock := none }

def pollCheckLinked (spins : Nat) : RwLock :=
  if f ∈ s.waiters then
    s.goto f .pending
  else
    s.setTask f { s.tasks f with woken := true, queued := false, pc := .load spins }

/-- `drop` of a future begins. -/
def dropFuture : RwLock := if (s.tasks f).queued then s.goto f .removing else s.finish f

def dropRemove : RwLock := { s.finish f with waiters := s.waiters.erase f }

/-! ## The guards -/

def dropRead : RwLock :=
  let prev := s.state
  let s := { s with state := { prev with readers := prev.readers - 1 } }
  if prev.readers = 1 ∧ prev.contended = true then s.goto f .popping else s.finish f

def dropWrite : RwLock :=
  if s.state = { Word.unlocked with writer := true } then
    { s.finish f with state := Word.unlocked }
  else
    s.goto f .storing

def dropStore : RwLock := { s.goto f .popping with state := Word.unlocked }

/-- The first waiter leaves the queue and is woken. -/
def dropPop : RwLock :=
  match s.waiters with
  | [] => s.finish f
  | g :: rest => ({ s with waiters := rest }.wake g).finish f

def downgradeExchange (seen : Word) : RwLock :=
  if s.state = seen then
    { s.goto f .handOver with
      state := { writer := false, contended := seen.contended, readers := seen.readers + 1 } }
  else
    s.goto f (.downgrade s.state)

def downgradeWake : RwLock := s.wakeFirstReader.goto f .reading

end RwLock

/-! ## Steps -/

/-- What a task is made to do.  `advance` takes its next step, `retry` is a spurious
failure of `compare_exchange_weak`. -/
inductive Action where
  | tryRead
  | tryWrite
  | create (kind : Kind)
  | poll
  | advance
  | retry
  | dropFuture
  | dropGuard
  | downgrade
  deriving DecidableEq, Repr

namespace RwLock

/-- The next step of a task in the middle of an operation. -/
def advance (s : RwLock) (f : Nat) : Option RwLock :=
  match (s.tasks f).pc with
  | .tryRead seen => some (s.tryReadExchange f seen)
  | .load spins => some (s.pollLoad f spins)
  | .exchange spins seen => some (s.pollExchange f spins seen)
  | .acquired => s.lockQueue f .mark
  | .mark => some (s.pollMark f)
  | .cascade => some (s.pollCascade f)
  | .register spins => some (s.pollRegister f spins)
  | .enter spins => s.lockQueue f (.recheck spins)
  | .recheck spins => some (s.pollRecheck f spins)
  | .announce => some (s.pollAnnounce f)
  | .push => some (s.pollPush f)
  | .checkLinked spins => s.critical (s.pollCheckLinked f spins)
  | .removing => s.critical (s.dropRemove f)
  | .storing => some (s.dropStore f)
  | .popping => s.critical (s.dropPop f)
  | .downgrade seen => some (s.downgradeExchange f seen)
  | .handOver => s.critical (s.downgradeWake f)
  | .fresh | .pending | .reading | .writing | .gone => none

/-- One step of task `e.1`. -/
def step (s : RwLock) (e : Nat × Action) : Option RwLock :=
  match (s.tasks e.1).pc, e.2 with
  | .fresh, .tryRead => some (s.tryReadCheck e.1 s.state)
  | .fresh, .tryWrite => some (s.tryWrite e.1)
  | .fresh, .create kind => some (s.create e.1 kind)
  | .pending, .poll => some (s.poll e.1)
  | .pending, .dropFuture => some (s.dropFuture e.1)
  | .reading, .dropGuard => some (s.dropRead e.1)
  | .writing, .dropGuard => some (s.dropWrite e.1)
  | .writing, .downgrade => some (s.goto e.1 (.downgrade s.state))
  | .downgrade _, .retry => some (s.goto e.1 (.downgrade s.state))
  | _, .advance => s.advance e.1
  | _, _ => none

end RwLock

/-- The steps as a relation. -/
def RwStep (s : RwLock) (e : Nat × Action) (s' : RwLock) : Prop := s.step e = some s'

end Veloq.Sync
