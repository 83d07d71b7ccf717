import Veloq.Foundation.Bits
import Veloq.Foundation.Census
import Veloq.Foundation.Run
import Mathlib.Logic.Function.Basic
set_option autoImplicit false

/-!
# Blocking: the reader-writer lock on a futex

`RawRwLock` of `veloq-std/src/sync/rwlock/raw.rs`.  The word holds the number of readers in
its low half, the number of waiting writers above it, and the writer's bit.  The futex is the
list of the threads asleep on the word: `wait` sleeps only while the word is what was expected,
one kind of `wake` takes out any one of the sleepers, the other all of them.

Every atomic operation and every futex call is a step; a `compare_exchange_weak` may fail
without a reason.  A thread stands for one guard: it holds the lock at most once.
-/

namespace Veloq.Blocking

open Veloq.Foundation

inductive Kind where
  | shared
  | exclusive
  deriving DecidableEq, Repr

/-- `try_lock_*`, `lock_*` and `try_lock_*_until`. -/
inductive Mode where
  | once
  | forever
  | timed
  deriving DecidableEq, Repr

/-- What a thread does next; `state` is its local variable.  `incremented`: the writer is
counted as waiting.  `bump`: the thread locks again after the unlock. -/
inductive RwLockPc where
  | idle
  | holding (kind : Kind)
  /-- The count of readers has overflowed. -/
  | panicked
  | tryLoad (kind : Kind) (mode : Mode)
  | tryCas (kind : Kind) (mode : Mode) (state : UInt32)
  | load (kind : Kind) (timed incremented : Bool)
  /-- The top of the loop of `lock_*` and `try_lock_*_until`. -/
  | head (kind : Kind) (timed incremented : Bool) (state : UInt32)
  | wait (kind : Kind) (timed incremented : Bool) (state : UInt32)
  | asleep (kind : Kind) (timed incremented : Bool)
  /-- `try_lock_exclusive_until`, the time is over. -/
  | giveUpLoad
  | giveUpCas (state : UInt32)
  | unlockLoad (kind : Kind) (bump : Bool)
  | unlockCas (kind : Kind) (bump : Bool) (state : UInt32)
  /-- `unlock_shared`: wake one sleeper. -/
  | wakeOne (bump : Bool)
  /-- `unlock_exclusive`: wake everybody. -/
  | wakeAll (bump : Bool)
  | downgradeLoad
  | downgradeCas (state : UInt32)
  /-- `downgrade`: wake everybody. -/
  | downgradeWake
  deriving DecidableEq, Repr

structure RwLock where
  state : UInt32
  sleepers : List Nat
  threads : Nat → RwLockPc

inductive RwLockAction where
  | lock (kind : Kind) (mode : Mode)
  | unlock
  | bump
  | downgrade
  /-- The next step; a `compare_exchange_weak` fails without a reason if `spurious`. -/
  | advance (spurious : Bool)
  /-- The futex wakes `g`. -/
  | wake (g : Nat)
  /-- The clock says that the time is over. -/
  | timeout
  /-- The wait ends by itself: its time is over, or there was a signal. -/
  | interrupt
  deriving DecidableEq, Repr

def readerMask : UInt32 := 0x0000FFFF

def writerWaitingMask : UInt32 := 0x3FFF0000

def writerWaitingOne : UInt32 := 0x00010000

def writerBit : UInt32 := 0x80000000

namespace RwLock

def new : RwLock := { state := 0, sleepers := [], threads := fun _ => .idle }

variable (s : RwLock) (t : Nat)

def goto (pc : RwLockPc) : RwLock := { s with threads := Function.update s.threads t pc }

/-- One thread moves and the word changes. -/
def move (pc : RwLockPc) (word : UInt32) : RwLock := { s.goto t pc with state := word }

/-- `wait` returns. -/
def woken : RwLockPc → RwLockPc
  | .asleep kind timed incremented => .load kind timed incremented
  | pc => pc

/-- `wait` returns to `g`. -/
def awake (g : Nat) : RwLock :=
  { s.goto g (woken (s.threads g)) with sleepers := s.sleepers.filter (· ≠ g) }

/-- `wake_all_by_address`. -/
def awakeAll : RwLock :=
  { s with sleepers := [], threads := fun u => woken (s.threads u) }

/-- `compare_exchange_weak`; `failed` is given the value it has found. -/
def cas (spurious : Bool) (expected new : UInt32) (ok : RwLockPc) (failed : UInt32 → RwLockPc) :
    RwLock :=
  if s.state = expected ∧ spurious = false then s.move t ok new else s.goto t (failed s.state)

/-! ## The tests on the word -/

/-- No writer has the lock or waits for it. -/
def readable (state : UInt32) : Bool :=
  decide (state &&& writerBit = 0 ∧ state &&& writerWaitingMask = 0)

/-- Nobody has the lock. -/
def writable (state : UInt32) : Bool := decide (state &&& (writerBit ||| readerMask) = 0)

/-- The count of readers overflows. -/
def overflows (state : UInt32) : Bool := decide ((state + 1) &&& readerMask = 0)

/-- `unlock_shared` has left waiting writers and no reader behind. -/
def wakes (state : UInt32) : Bool :=
  decide (state &&& readerMask = 0 ∧ state &&& writerWaitingMask ≠ 0)

/-- The word with a writer that stops waiting if it has waited. -/
def acquired (incremented : Bool) (state : UInt32) : UInt32 :=
  if incremented then (state ||| writerBit) - writerWaitingOne else state ||| writerBit

/-! ## Steps -/

/-- The lock could not be had at once. -/
def denied (kind : Kind) : Mode → RwLockPc
  | .once => .idle
  | .forever => .load kind false false
  | .timed => .load kind true false

/-- The unlock has returned. -/
def unlocked (kind : Kind) (bump : Bool) : RwLockPc :=
  if bump then .tryLoad kind .forever else .idle

def advance (spurious : Bool) : Option RwLock :=
  match s.threads t with
  | .tryLoad kind mode => some (s.goto t (.tryCas kind mode s.state))
  | .tryCas .shared mode state =>
      if readable state then
        if overflows state then
          some (s.goto t .panicked)
        else
          some (s.cas t spurious state (state + 1) (.holding .shared) (.tryCas .shared mode))
      else
        some (s.goto t (denied .shared mode))
  | .tryCas .exclusive mode state =>
      if writable state then
        some (s.cas t spurious state (acquired false state) (.holding .exclusive)
          (.tryCas .exclusive mode))
      else
        some (s.goto t (denied .exclusive mode))
  | .load kind timed incremented => some (s.goto t (.head kind timed incremented s.state))
  | .head .shared timed incremented state =>
      if readable state then
        if overflows state then
          some (s.goto t .panicked)
        else
          some (s.cas t spurious state (state + 1) (.holding .shared)
            fun _ => .wait .shared timed incremented state)
      else
        some (s.goto t (.wait .shared timed incremented state))
  | .head .exclusive timed incremented state =>
      if writable state then
        some (s.cas t spurious state (acquired incremented state) (.holding .exclusive)
          (.head .exclusive timed incremented))
      else if incremented then
        some (s.goto t (.wait .exclusive timed true state))
      else
        some (s.cas t spurious state (state + writerWaitingOne)
          (.wait .exclusive timed true (state + writerWaitingOne)) (.head .exclusive timed false))
  | .wait kind timed incremented state =>
      if s.state = state then
        some { s.goto t (.asleep kind timed incremented) with sleepers := s.sleepers ++ [t] }
      else
        some (s.goto t (.load kind timed incremented))
  | .giveUpLoad => some (s.goto t (.giveUpCas s.state))
  | .giveUpCas state =>
      some (s.cas t spurious state (state - writerWaitingOne) .idle .giveUpCas)
  | .unlockLoad kind bump => some (s.goto t (.unlockCas kind bump s.state))
  | .unlockCas .shared bump state =>
      some (s.cas t spurious state (state - 1)
        (if wakes (state - 1) then .wakeOne bump else unlocked .shared bump)
        (.unlockCas .shared bump))
  | .unlockCas .exclusive bump state =>
      some (s.cas t spurious state (state &&& ~~~writerBit) (.wakeAll bump)
        (.unlockCas .exclusive bump))
  | .wakeOne bump => if s.sleepers = [] then some (s.goto t (unlocked .shared bump)) else none
  | .wakeAll bump => some (s.awakeAll.goto t (unlocked .exclusive bump))
  | .downgradeLoad => some (s.goto t (.downgradeCas s.state))
  | .downgradeCas state =>
      some (s.cas t spurious state ((state &&& ~~~writerBit) + 1) .downgradeWake .downgradeCas)
  | .downgradeWake => some (s.awakeAll.goto t (.holding .shared))
  | .idle | .holding _ | .panicked | .asleep .. => none

/-- One step of a thread. -/
def step : Nat × RwLockAction → Option RwLock
  | (t, .lock kind mode) =>
      if s.threads t = .idle then some (s.goto t (.tryLoad kind mode)) else none
  | (t, .unlock) =>
      match s.threads t with
      | .holding kind => some (s.goto t (.unlockLoad kind false))
      | _ => none
  | (t, .bump) =>
      match s.threads t with
      | .holding kind => some (s.goto t (.unlockLoad kind true))
      | _ => none
  | (t, .downgrade) =>
      if s.threads t = .holding .exclusive then some (s.goto t .downgradeLoad) else none
  | (t, .advance spurious) => s.advance t spurious
  | (t, .wake g) =>
      match s.threads t with
      | .wakeOne bump =>
          if g ∈ s.sleepers then some ((s.awake g).goto t (unlocked .shared bump)) else none
      | _ => none
  | (t, .timeout) =>
      match s.threads t with
      | .head .shared true _ _ => some (s.goto t .idle)
      | .head .exclusive true incremented _ =>
          some (s.goto t (if incremented then .giveUpLoad else .idle))
      | _ => none
  | (t, .interrupt) => if t ∈ s.sleepers then some (s.awake t) else none

end RwLock

/-- The steps as a relation. -/
def RwLockStep (s : RwLock) (e : Nat × RwLockAction) (s' : RwLock) : Prop := s.step e = some s'

/-! ## Who is counted -/

namespace RwLockPc

/-- The thread has the lock shared. -/
def shared : RwLockPc → Bool
  | holding .shared | unlockLoad .shared _ | unlockCas .shared _ _ | downgradeWake => true
  | _ => false

/-- The thread has the lock exclusively. -/
def exclusive : RwLockPc → Bool
  | holding .exclusive | unlockLoad .exclusive _ | unlockCas .exclusive _ _ | downgradeLoad
  | downgradeCas _ => true
  | _ => false

/-- The writer has registered as waiting and neither acquired the lock nor given up. -/
def registered : RwLockPc → Bool
  | load .exclusive _ true | head .exclusive _ true _ | wait .exclusive _ true _
  | asleep .exclusive _ true | giveUpLoad | giveUpCas _ => true
  | _ => false

def sleeping : RwLockPc → Bool
  | asleep .. => true
  | _ => false

/-- No call is in progress, or the thread is asleep. -/
def resting : RwLockPc → Bool
  | idle | panicked | holding _ | asleep .. => true
  | _ => false

/-- The thread is going to subtract from its local copy of the word, and the field it
subtracts from is not 0. -/
def noBorrow : RwLockPc → Bool
  | unlockCas .shared _ state => decide (state &&& readerMask ≠ 0)
  | head .exclusive _ true state | giveUpCas state => decide (state &&& writerWaitingMask ≠ 0)
  | _ => true

end RwLockPc

namespace RwLock

variable (s : RwLock)

/-- The counts are below the limits of their fields. -/
def Limited : Prop :=
  (∀ n, Census (fun t => (s.threads t).shared = true) n → n < 2 ^ 16 - 1) ∧
    ∀ n, Census (fun t => (s.threads t).registered = true) n → n < 2 ^ 14

/-- The step stays below the limits. -/
def WithinLimits (e : Nat × RwLockAction) : Prop := ∀ s', RwLockStep s e s' → s'.Limited

end RwLock

end Veloq.Blocking
