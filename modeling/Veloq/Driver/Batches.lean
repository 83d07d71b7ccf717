import Veloq.Driver.UringTimers
set_option autoImplicit false

/-!
# Driver: batches of completions and what a failing one costs

Four paths take a whole batch out of its source before they handle it, and leave
with `?` at the first item whose completion path returns `Err`: the CQEs drained by
`process_completions_internal`, the expired timers of `advance_timers`, those of
the IOCP driver's `process_timers`, and the results dequeued by the RIO runtime.

Which completions fail is a choice `accepts` of the environment.  The items are of
any type, so that two equal completions at different places of a batch can be told
apart.
-/

namespace Veloq.Driver.Batches

open Veloq.Foundation Veloq.Timing Veloq.Driver.UringTimers

/-! ## io_uring: completion queue entries -/

section Cqes

variable {Cqe : Type}

end Cqes

/-! ## Time applied to a wheel -/

section Clock

variable {Key T : Type} [DecidableEq Key] {S : SlotMap Key (WheelEntry Key T)}

/-- The tick to which a poll at `later` brings a wheel that was advanced up to
`lastPoll`. -/
def tickAt (wheel : Wheel S) (lastPoll later : Nat) : Nat :=
  wheel.globalTick + asU64 (Duration.asMillis (later - lastPoll)) /
    asU64 wheel.tickDuration.asMillis

end Clock

/-! ## IOCP: expired timers -/

section Iocp

variable {Key Token : Type} [DecidableEq Key] [DecidableEq Token]
  {S : SlotMap Key (WheelEntry Key Token)}

/-- `TimerEngine`. -/
structure TimerEngine (S : SlotMap Key (WheelEntry Key Token)) where
  wheel : Wheel S
  buffer : List Token
  lastPoll : Nat

/-- `TimerEngine::advance_to`.  `last_poll` moves together with the wheel. -/
def TimerEngine.advanceTo (engine : TimerEngine S) (now : Nat) : Option (TimerEngine S) :=
  let elapsed := now - engine.lastPoll
  let tickMs := asU64 engine.wheel.tickDuration.asMillis
  let ticks := asU64 (Duration.asMillis elapsed) / tickMs
  if ticks > 0 then
    (engine.wheel.advance elapsed engine.buffer).map fun r =>
      { wheel := r.1, buffer := r.2,
        lastPoll := engine.lastPoll + Duration.fromMillis (ticks * tickMs) }
  else
    some engine

/-- The timer fields of the slots in flight: `timer_deadline` of a slot that is
waiting or orphaned, `none` for any other view of the slot. -/
structure TimerSlots (Key Token : Type) where
  timerDeadline : Token → Option Nat
  timerId : Token → Option Key

/-- How long the timer still has to run, when it came out of the wheel too early. -/
def TimerSlots.remaining (slots : TimerSlots Key Token) (now : Nat) (token : Token) :
    Option Duration :=
  (slots.timerDeadline token).bind fun deadline =>
    if now < deadline then some (deadline - now) else none

/-- What the first loop of `process_timers` leaves. -/
structure Sorted (S : SlotMap Key (WheelEntry Key Token)) where
  wheel : Wheel S
  slots : TimerSlots Key Token
  rearmed : List Token
  expired : List Token

/-- The first loop of `process_timers`: a timer that is not due goes back into the
wheel, the others are collected. -/
def sortTimers (now : Nat) : List Token → Wheel S → TimerSlots Key Token → Option (Sorted S)
  | [], wheel, slots => some { wheel := wheel, slots := slots, rearmed := [], expired := [] }
  | token :: tokens, wheel, slots =>
      match slots.remaining now token with
      | some remain =>
          (wheel.insert token remain).bind fun r =>
            (sortTimers now tokens r.1
                { slots with timerId := Function.update slots.timerId token (some r.2) }).map
              fun sorted => { sorted with rearmed := token :: sorted.rearmed }
      | none =>
          (sortTimers now tokens wheel slots).map fun sorted =>
            { sorted with expired := token :: sorted.expired }

/-- What `process_timers` does to the engine and the slots. -/
structure Processed (S : SlotMap Key (WheelEntry Key Token)) where
  engine : TimerEngine S
  slots : TimerSlots Key Token
  rearmed : List Token
  handed : List Token
  ok : Bool

/-- `process_timers`.  The buffer was taken: it is empty afterwards, whether or not a
completion fails. -/
def TimerEngine.processTimers (engine : TimerEngine S) (slots : TimerSlots Key Token)
    (accepts : Token → Bool) (now : Nat) : Option (Processed S) :=
  (sortTimers now engine.buffer engine.wheel slots).map fun sorted =>
    let handed := tryForEach accepts sorted.expired
    { engine := { engine with wheel := sorted.wheel, buffer := [] }, slots := sorted.slots,
      rearmed := sorted.rearmed, handed := handed.1, ok := handed.2 }

end Iocp

/-! ## RIO: dequeued results -/

section Rio

variable {Result : Type}

end Rio

/-! ## What each path conserves -/

section Clock

variable {Key T : Type} [DecidableEq Key] {S : SlotMap Key (WheelEntry Key T)}
  {wheel wheel' : Wheel S} {lastPoll lastPoll' now : Nat}

theorem tickAt_eq (htick : wheel.tickDurationMs = 10) {later : Nat}
    (hms : Duration.asMillis (later - lastPoll) < 2 ^ 64) :
    tickAt wheel lastPoll later = wheel.globalTick + (later - lastPoll) / tick := by
  have hten : asU64 wheel.tickDuration.asMillis = 10 := by
    rw [Wheel.tickDuration, htick]
    decide +kernel
  rw [tickAt, hten, asU64_of_lt hms]
  unfold Duration.asMillis
  rw [Nat.div_div_eq_div_mul]
  rfl

end Clock

section Uring

variable {Key Token : Type} [DecidableEq Key] [DecidableEq Token]
  {S : SlotMap Key (WheelEntry Key (SoftwareTimer Token))} {s : Timers S}
  {agenda : Agenda Key (SoftwareTimer Token)}

end Uring

section Iocp

variable {Key Token : Type} [DecidableEq Key] [DecidableEq Token]
  {S : SlotMap Key (WheelEntry Key Token)} {agenda : Agenda Key Token}

omit [DecidableEq Token] in
/-- `advance_to` moves `last_poll` and the wheel by the same number of ticks. -/
theorem advanceTo_spec {engine : TimerEngine S}
    (h : Wheel.Reachable S WheelConfig.default engine.wheel agenda) (hbuffer : engine.buffer = [])
    {now : Nat} (hms : Duration.asMillis (now - engine.lastPoll) < 2 ^ 64)
    (hfit : engine.wheel.tickAfter (now - engine.lastPoll) < 2 ^ 64) :
    ∃ advanced, engine.advanceTo now = some advanced ∧
      (∃ agenda', Wheel.Reachable S WheelConfig.default advanced.wheel agenda') ∧
      advanced.wheel.globalTick =
        engine.wheel.globalTick + (now - engine.lastPoll) / tick ∧
      advanced.lastPoll = engine.lastPoll + (now - engine.lastPoll) / tick * tick ∧
      ∀ token, token ∈ advanced.buffer ↔ ∃ k due, agenda k = some (token, due) ∧
        due ≤ engine.wheel.tickAfter (now - engine.lastPoll) := by
  have hafter : engine.wheel.tickAfter (now - engine.lastPoll) =
      engine.wheel.globalTick + (now - engine.lastPoll) / tick := by
    rw [Wheel.tickAfter, tickDuration_of_reachable h]
  have hticks := tickAt_eq (tickDurationMs_of_reachable h) hms
  rw [tickAt, Nat.add_left_cancel_iff] at hticks
  have hten : asU64 engine.wheel.tickDuration.asMillis = 10 := by
    rw [tickDuration_of_reachable h]
    decide +kernel
  unfold TimerEngine.advanceTo
  simp only [hticks]
  by_cases hpos : (now - engine.lastPoll) / tick > 0
  · obtain ⟨wheel, expired, hrun, hreach, htick, hmem⟩ := h.advance_due validConfig_default hms hfit
    rw [if_pos hpos, hbuffer, hrun]
    refine ⟨_, rfl, ⟨_, hreach⟩, htick.trans hafter, ?_, hmem⟩
    show engine.lastPoll + Duration.fromMillis (_ * asU64 engine.wheel.tickDuration.asMillis) = _
    rw [hten]
    unfold Duration.fromMillis
    rw [Nat.mul_assoc]
    rfl
  · rw [if_neg hpos]
    have hzero : (now - engine.lastPoll) / tick = 0 := Nat.eq_zero_of_not_pos hpos
    refine ⟨engine, rfl, ⟨agenda, h⟩, by rw [hzero]; rfl, by rw [hzero, Nat.zero_mul]; rfl, ?_⟩
    intro token
    rw [hbuffer, hafter, hzero]
    simp only [List.not_mem_nil, Nat.add_zero, false_iff]
    rintro ⟨k, due, hk, hle⟩
    obtain ⟨hinv, rfl⟩ := h.inv validConfig_default
    have hlt := hinv.lt_of_dueAt ⟨token, hk⟩
    omega

end Iocp

section Rio

variable {Result : Type} [DecidableEq Result]

end Rio

/-! ## The four paths together -/

end Veloq.Driver.Batches
