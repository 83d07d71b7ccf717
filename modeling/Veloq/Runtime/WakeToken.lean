import Veloq.Foundation.Run
import Mathlib.Logic.Function.Basic
import Mathlib.Algebra.Group.Nat.Defs
set_option autoImplicit false

/-!
# Runtime: the wake token of a task

`TaskWakeToken` of `veloq-runtime/src/task/header.rs`.  Wakers share a token with the task
header.  One word of 32 bits holds the flag `WAKE_TOKEN_ALIVE` and, above it, the number of
wake guards; the owner clears the flag when the header is dropped, and sleeps on the word
until no guard is left.

Every atomic operation and every futex call is a step of its own.  The owner is the only one
that sleeps on the word; `wait` sleeps only while the word is the expected one.  The addition
of a guard is checked for overflow: it panics, and the waker gives up.
-/

namespace Veloq.Runtime

/-- `WAKE_TOKEN_ALIVE`. -/
def wakeTokenAlive : Nat := 1

/-- `WAKE_TOKEN_ACTIVE_UNIT`. -/
def wakeTokenActiveUnit : Nat := 2

/-- `SPIN_LIMIT`. -/
def spinLimit : Nat := 6

/-- What the owner of the header does next. -/
inductive HeaderPc where
  /-- The header is in use. -/
  | live
  /-- `deactivate_and_wait`: clear the flag. -/
  | clearAlive
  /-- The top of the loop. -/
  | look (spinCount : Nat)
  /-- The loop has spun enough: `sys::wait`. -/
  | wait (curr : Nat)
  | asleep
  /-- The loop has ended: forget the header. -/
  | clearHeader
  | returned
  deriving DecidableEq, Repr

/-- What a waker does next. -/
inductive WakerPc where
  | idle
  /-- `try_acquire`: the first load. -/
  | acquireLoad
  /-- `try_acquire`: the top of the loop. -/
  | acquire (state : Nat)
  /-- The guard is taken; `header`: load the word. -/
  | headerAlive
  /-- `header`: load the pointer. -/
  | headerLoad
  /-- `header.wake_by_ref()`. -/
  | touching (header : Nat)
  /-- Drop of the guard: `fetch_sub`. -/
  | release
  /-- Drop of the last guard: `sys::wake_all`. -/
  | wakeAll
  deriving DecidableEq, Repr

/-- `TaskWakeToken`, with its owner and the wakers that hold it. -/
structure WakeToken where
  state : Nat
  header : Option Nat
  owner : HeaderPc
  wakers : Nat → WakerPc

inductive WakeTokenAction where
  /-- The owner makes a waker: `bind_header`. -/
  | bind (header : Nat)
  /-- The header is dropped: `deactivate_and_wait`. -/
  | deactivate
  /-- The next step of the owner. -/
  | owner
  /-- `wait` ends without a wake-up. -/
  | interrupt
  /-- Waker `i` begins `wake_impl`. -/
  | wake (i : Nat)
  /-- The next step of waker `i`. -/
  | waker (i : Nat)
  /-- The `compare_exchange_weak` of waker `i` fails for no reason. -/
  | fail (i : Nat)
  deriving DecidableEq, Repr

namespace WakeToken

/-- `TaskWakeToken::new`. -/
def new : WakeToken :=
  { state := wakeTokenAlive
    header := none
    owner := .live
    wakers := fun _ => .idle }

variable (s : WakeToken)

def goto (i : Nat) (pc : WakerPc) : WakeToken :=
  { s with wakers := Function.update s.wakers i pc }

/-- One turn of the loop of `try_acquire`, for the word that was seen last. -/
def acquire (i : Nat) (state : Nat) : WakeToken :=
  if state &&& wakeTokenAlive = 0 then
    s.goto i .idle
  else if state + wakeTokenActiveUnit < 2 ^ 32 then
    if s.state = state then
      { s.goto i .headerAlive with state := state + wakeTokenActiveUnit }
    else
      s.goto i (.acquire s.state)
  else
    s.goto i .idle

/-- The drop of a guard. -/
def release (i : Nat) : WakeToken :=
  { s.goto i (if s.state = wakeTokenActiveUnit then .wakeAll else .idle) with
    state := s.state - wakeTokenActiveUnit }

/-- `sys::wake_all`. -/
def wakeAll (i : Nat) : WakeToken :=
  { s.goto i .idle with owner := if s.owner = .asleep then .look 0 else s.owner }

/-- The next step of a waker. -/
def wakerStep (i : Nat) : Option WakeToken :=
  match s.wakers i with
  | .idle => none
  | .acquireLoad => some (s.goto i (.acquire s.state))
  | .acquire state => some (s.acquire i state)
  | .headerAlive =>
      some (s.goto i (if s.state &&& wakeTokenAlive = 0 then .release else .headerLoad))
  | .headerLoad =>
      some (s.goto i (match s.header with
        | none => .release
        | some header => .touching header))
  | .touching _ => some (s.goto i .release)
  | .release => some (s.release i)
  | .wakeAll => some (s.wakeAll i)

/-- One turn of the loop of `deactivate_and_wait`. -/
def turn (spinCount : Nat) : HeaderPc :=
  if s.state = 0 then
    .clearHeader
  else if spinCount < spinLimit then
    .look (spinCount + 1)
  else if spinCount = spinLimit then
    .look (spinCount + 1)
  else
    .wait s.state

/-- The next step of the owner. -/
def ownerStep : Option WakeToken :=
  match s.owner with
  | .live => none
  | .clearAlive =>
      some { s with
        state := s.state &&& (2 ^ 32 - 1 - wakeTokenAlive)
        owner := .look 0 }
  | .look spinCount => some { s with owner := s.turn spinCount }
  | .wait curr => some { s with owner := if s.state = curr then .asleep else .look 0 }
  | .asleep => none
  | .clearHeader =>
      some { s with
        header := none
        owner := .returned }
  | .returned => none

def step : WakeTokenAction → Option WakeToken
  | .bind header => if s.owner = .live then some { s with header := some header } else none
  | .deactivate => if s.owner = .live then some { s with owner := .clearAlive } else none
  | .owner => s.ownerStep
  | .interrupt =>
      match s.owner with
      | .wait _ | .asleep => some { s with owner := .look 0 }
      | _ => none
  | .wake i => if s.wakers i = .idle then some (s.goto i .acquireLoad) else none
  | .waker i => s.wakerStep i
  | .fail i =>
      match s.wakers i with
      | .acquire state =>
          if state &&& wakeTokenAlive = 0 then none else some (s.goto i (.acquire s.state))
      | _ => none

end WakeToken

/-- The steps as a relation. -/
def WakeTokenStep (s : WakeToken) (e : WakeTokenAction) (s' : WakeToken) : Prop :=
  s.step e = some s'

namespace WakerPc

/-- The waker has a guard on the word. -/
def guarded : WakerPc → Bool
  | headerAlive | headerLoad | touching _ | release => true
  | _ => false

/-- The waker has a guard, or is in the middle of its drop. -/
def outstanding (pc : WakerPc) : Bool := pc.guarded || pc = wakeAll

/-- The waker uses the task header. -/
def touches : WakerPc → Bool
  | touching _ => true
  | _ => false

end WakerPc

end Veloq.Runtime
