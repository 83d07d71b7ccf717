import Veloq.Driver.UringTimers
import Veloq.Timing.Batching
set_option autoImplicit false

/-!
# Driver: timers do not drift with the polling pattern

Both drivers advance their timing wheel from the poll: the time elapsed since a
reference instant is given to the wheel, which moves by whole ticks, and the reference
instant moves by as many ticks, so that the rest of the elapsed time is still there at
the next poll.  The io_uring driver completes the expired timers before it moves its
`last_timer_poll`; `TimerEngine` of the IOCP driver moves its `last_poll` first, and
`process_timers` afterwards files those timers anew that are not yet due.

Instants are nanoseconds.  The elapsed milliseconds are cast to `u64`.
-/

namespace Veloq.Driver.TimerDrift

open Veloq.Foundation Veloq.Timing Veloq.Driver.UringTimers

variable {Key Token : Type} [DecidableEq Key]

/-! ## The timers of the IOCP driver -/

section Iocp

variable {T : Type}

/-- `TimerEngine`. -/
structure TimerEngine (S : SlotMap Key (WheelEntry Key T)) where
  wheel : Wheel S
  buffer : List T
  lastPoll : Nat

namespace TimerEngine

variable {S : SlotMap Key (WheelEntry Key T)}

/-- `TimerEngine::new`, at the instant `now`. -/
def new (S : SlotMap Key (WheelEntry Key T)) (now : Nat) : TimerEngine S :=
  { wheel := Wheel.new S WheelConfig.default, buffer := [], lastPoll := now }

/-- `insert`. -/
def insert (e : TimerEngine S) (token : T) (duration : Duration) :
    Option (TimerEngine S × Key) :=
  (e.wheel.insert token duration).map fun r => ({ e with wheel := r.1 }, r.2)

/-- `cancel`. -/
def cancel (e : TimerEngine S) (id : Key) : TimerEngine S :=
  { e with wheel := (e.wheel.cancel id).1 }

/-- `advance_to`. -/
def advanceTo (e : TimerEngine S) (now : Nat) : Option (TimerEngine S) :=
  let elapsed := now - e.lastPoll
  let tickMs := asU64 e.wheel.tickDuration.asMillis
  let ticks := asU64 (Duration.asMillis elapsed) / tickMs
  if ticks > 0 then
    (e.wheel.advance elapsed e.buffer).map fun r =>
      { wheel := r.1, buffer := r.2, lastPoll := e.lastPoll + Duration.fromMillis (ticks * tickMs) }
  else
    some e

/-- The loop of `process_timers`: a timer whose slot has a deadline still to come is filed
anew for the time that remains, the others are expired. -/
def refile (deadline : T → Option Nat) (now : Nat) :
    List T → TimerEngine S → List T → Option (TimerEngine S × List T)
  | [], e, expired => some (e, expired)
  | token :: tokens, e, expired =>
      match deadline token with
      | none => refile deadline now tokens e (expired ++ [token])
      | some due =>
          if now < due then
            (e.insert token (due - now)).bind fun r => refile deadline now tokens r.1 expired
          else
            refile deadline now tokens e (expired ++ [token])

/-- `process_timers`: the buffer is taken, and the expired timers are completed until one
fails.  `deadline` is the `timer_deadline` of a token's slot, if it is in flight.  The list
holds the timers that were handed to their completion. -/
def processTimers (e : TimerEngine S) (accepts : T → Bool) (deadline : T → Option Nat)
    (now : Nat) : Option (TimerEngine S × List T) :=
  (refile deadline now e.buffer { e with buffer := [] } []).map fun r =>
    (r.1, (tryForEach accepts r.2).1)

end TimerEngine

end Iocp

/-! ## Either driver -/

variable (S : SlotMap Key (WheelEntry Key (SoftwareTimer Token)))

/-- The timers of a driver of either kind. -/
inductive Engine where
  | uring (timers : Timers S)
  | iocp (timer : TimerEngine S)

variable {S}

namespace Engine

def wheel : Engine S → Wheel S
  | uring timers => timers.wheel
  | iocp timer => timer.wheel

/-- `last_timer_poll`, `last_poll`. -/
def reference : Engine S → Nat
  | uring timers => timers.lastTimerPoll
  | iocp timer => timer.lastPoll

def buffer : Engine S → List (SoftwareTimer Token)
  | uring timers => timers.timerBuffer
  | iocp timer => timer.buffer

/-- The submission of a timer. -/
def submit (token : Token) (duration : Duration) (now : Nat) : Engine S → Option (Engine S)
  | uring timers => (timers.submit token duration now).map fun r => uring r.1
  | iocp timer =>
      (timer.insert { token := token, submittedAt := now, duration := duration } duration).map
        fun r => iocp r.1

/-- The cancellation of a timer. -/
def cancel (id : Key) : Engine S → Engine S
  | uring timers => uring { timers with wheel := (timers.wheel.cancel id).1 }
  | iocp timer => iocp (timer.cancel id)

/-- A poll that reaches its timer step at the instant `now`, with the timers handed to
their completion.  The IOCP driver looks at the clock once more, at `later`, and compares
with the deadlines of the slots. -/
def poll (accepts : SoftwareTimer Token → Bool) (deadline : SoftwareTimer Token → Option Nat)
    (now later : Nat) : Engine S → Option (Engine S × List (SoftwareTimer Token))
  | uring timers => (timers.timerStep accepts now).map fun r => (uring r.1, r.2)
  | iocp timer =>
      (timer.advanceTo now).bind fun advanced =>
        (advanced.processTimers accepts deadline later).map fun r => (iocp r.1, r.2)

/-- A driver created at the instant `now`. -/
def Fresh (now : Nat) (engine : Engine S) : Prop :=
  engine = uring (Timers.new S now) ∨ engine = iocp (TimerEngine.new S now)

end Engine

/-- A poll that reached its timer step: its instant, and the number of ticks the wheel has
been advanced by since the driver was created. -/
structure Reading where
  instant : Nat
  ticks : Nat
  deriving DecidableEq

/-- A driver, the clock, and two ghosts: the instant of its creation, and its polls. -/
structure Meter (S : SlotMap Key (WheelEntry Key (SoftwareTimer Token))) where
  engine : Engine S
  now : Nat
  created : Nat
  ticks : Nat
  readings : List Reading

/-- What happens to a driver, each at an instant. -/
inductive Event (Key Token : Type) where
  | submit (token : Token) (duration : Duration) (at_ : Nat)
  | cancel (id : Key) (at_ : Nat)
  | poll (accepts : SoftwareTimer Token → Bool) (deadline : SoftwareTimer Token → Option Nat)
      (at_ later : Nat)

namespace Meter

/-- A driver of either kind that has just been created. -/
def Init (m : Meter S) : Prop :=
  m.engine.Fresh m.created ∧ m.now = m.created ∧ m.ticks = 0 ∧ m.readings = []

/-- The state after a poll.  A poll advances the wheel by a `u64` number of ticks, so the
wrapping difference of the wheel's tick counts is that number. -/
def polled (m : Meter S) (engine : Engine S) (at_ : Nat) : Meter S :=
  let ticks := m.ticks + wrappingSub engine.wheel.globalTick m.engine.wheel.globalTick
  { m with engine := engine, now := at_, ticks := ticks,
           readings := m.readings ++ [{ instant := at_, ticks := ticks }] }

/-- Instants do not decrease. -/
inductive Step : Meter S → Event Key Token → Meter S → Prop where
  | submit {m : Meter S} {token : Token} {duration : Duration} {at_ : Nat} {engine : Engine S} :
      m.now ≤ at_ → m.engine.submit token duration at_ = some engine →
      Step m (.submit token duration at_) { m with engine := engine, now := at_ }
  | cancel {m : Meter S} {id : Key} {at_ : Nat} : m.now ≤ at_ →
      Step m (.cancel id at_) { m with engine := m.engine.cancel id, now := at_ }
  | poll {m : Meter S} {accepts : SoftwareTimer Token → Bool}
      {deadline : SoftwareTimer Token → Option Nat} {at_ later : Nat} {engine : Engine S}
      {handed : List (SoftwareTimer Token)} : m.now ≤ at_ →
      m.engine.poll accepts deadline at_ later = some (engine, handed) →
      Step m (.poll accepts deadline at_ later) (m.polled engine at_)

/-- A poll less than `2 ^ 64` milliseconds after the reference instant. -/
def InReach (m : Meter S) (at_ : Nat) : Prop :=
  Duration.asMillis (at_ - m.engine.reference) < 2 ^ 64

/-- No completion fails. -/
def NoFailure (m : Meter S) : Event Key Token → Prop
  | .submit _ _ _ => True
  | .cancel _ _ => True
  | .poll accepts deadline at_ later =>
      ∀ engine handed, m.engine.poll accepts deadline at_ later = some (engine, handed) →
        ∀ timer ∈ handed, accepts timer = true

/-- No completion fails, and every poll is in reach of the reference instant. -/
def Undisturbed (m : Meter S) (e : Event Key Token) : Prop :=
  m.NoFailure e ∧ ∀ accepts deadline at_ later, e = .poll accepts deadline at_ later →
    m.InReach at_

end Meter

/-! ## The wheel of a driver -/

section Wheel

variable {T : Type} {S : SlotMap Key (WheelEntry Key T)} {w w' : Wheel S}

/-- A wheel in good order, with the tick of the default configuration. -/
structure Ready (w : Wheel S) : Prop where
  sane : w.Sane
  tickDurationMs : w.tickDurationMs = 10

namespace Ready

theorem new (S : SlotMap Key (WheelEntry Key T)) : Ready (Wheel.new S WheelConfig.default) := by
  have hsized : Wheel.Sized WheelConfig.default :=
    ⟨⟨9, by decide, rfl⟩, ⟨6, by decide, rfl⟩, by decide +kernel⟩
  refine ⟨Wheel.Sane.new S hsized, ?_⟩
  show max (asU64 (Duration.asMillis (Duration.fromMillis 10))) 1 = 10
  decide +kernel

theorem tickDuration (h : Ready w) : w.tickDuration = tick := by
  rw [Wheel.tickDuration, h.tickDurationMs, tick]

/-- An insertion returns and leaves the tick count alone. -/
theorem insert (h : Ready w) (item : T) (delay : Duration) :
    ∃ w' k, w.insert item delay = some (w', k) ∧ Ready w' ∧ w'.globalTick = w.globalTick := by
  have hloc : ∃ location, w.determineLocation
      (wrappingAdd w.globalTick (max (w.delayToTicks delay) 1)) = some location := by
    unfold Wheel.determineLocation
    simp only
    rw [if_neg h.sane.shaped.ratio_ne_zero]
    split
    · exact ⟨_, rfl⟩
    · exact ⟨_, rfl⟩
  obtain ⟨location, hlocation⟩ := hloc
  obtain ⟨⟨w', k⟩, hrun⟩ : ∃ r, w.insert item delay = some r := by
    unfold Wheel.insert
    simp only [hlocation]
    exact ⟨_, rfl⟩
  obtain ⟨hshape, htick, -⟩ := Wheel.held_of_insert hrun
  exact ⟨w', k, hrun, ⟨h.sane.insert hrun, hshape.tick.trans h.tickDurationMs⟩, htick⟩

theorem cancel (h : Ready w) (k : Key) : Ready (w.cancel k).1 :=
  ⟨h.sane.cancel k, h.tickDurationMs⟩

/-- The wheel moves by the whole ticks of the elapsed time. -/
theorem advance (h : Ready w) (elapsed : Duration) (expired : List T) :
    ∃ w' out, w.advance elapsed expired = some (w', out) ∧ Ready w' ∧
      w'.globalTick = wrappingAdd w.globalTick (w.delayToTicks elapsed) := by
  obtain ⟨w', keys, hrun, -, hshape, -⟩ := Wheel.advanceLoop_linked _ w (w.delayToTicks elapsed)
    expired h.sane.linked h.sane.shaped.ratio_ne_zero (Nat.le_refl _)
  obtain ⟨htick, -⟩ := Wheel.held_of_advanceLoop h.sane.linked h.sane.shaped h.sane.tick hrun
  exact ⟨w', _, hrun, ⟨h.sane.advance hrun, hshape.tick.trans h.tickDurationMs⟩, htick⟩

/-- The ticks that a driver computes are those that the wheel moves by. -/
theorem ticks_eq (h : Ready w) {elapsed : Duration} (hms : elapsed.asMillis < 2 ^ 64) :
    asU64 elapsed.asMillis / asU64 w.tickDuration.asMillis = elapsed / tick ∧
      w.delayToTicks elapsed = elapsed / tick ∧
      Duration.fromMillis (elapsed / tick * asU64 w.tickDuration.asMillis) =
        elapsed / tick * tick := by
  have hten : asU64 w.tickDuration.asMillis = 10 := by
    rw [h.tickDuration]
    decide +kernel
  have hticks : w.delayToTicks elapsed = elapsed / tick := by
    rw [w.delayToTicks_eq hms, h.tickDuration]
  refine ⟨?_, hticks, ?_⟩
  · rw [← hticks, Wheel.delayToTicks, hten, h.tickDurationMs]
  · rw [hten, Duration.fromMillis, Nat.mul_assoc]
    rfl

/-- A number of ticks is a `u64`. -/
theorem ticks_lt {elapsed : Duration} (hms : elapsed.asMillis < 2 ^ 64) :
    elapsed / tick < 2 ^ 64 := by
  refine Nat.lt_of_le_of_lt ?_ hms
  unfold Duration.asMillis
  exact Nat.div_le_div_left (by decide) (by decide)

end Ready

end Wheel

/-! ## One poll -/

section Iocp

variable {T : Type} {S : SlotMap Key (WheelEntry Key T)} {e : TimerEngine S}

/-- `advance_to` moves the wheel and the reference instant by the same ticks. -/
theorem advanceTo_spec (h : Ready e.wheel) {now : Nat}
    (hms : Duration.asMillis (now - e.lastPoll) < 2 ^ 64) :
    ∃ e', e.advanceTo now = some e' ∧ Ready e'.wheel ∧
      e'.wheel.globalTick = wrappingAdd e.wheel.globalTick ((now - e.lastPoll) / tick) ∧
      e'.lastPoll = e.lastPoll + (now - e.lastPoll) / tick * tick := by
  obtain ⟨hticks, hdelay, hmillis⟩ := h.ticks_eq hms
  unfold TimerEngine.advanceTo
  simp only [hticks, hmillis]
  by_cases hpos : (now - e.lastPoll) / tick > 0
  · rw [if_pos hpos]
    obtain ⟨w', out, hrun, hready, htick⟩ := h.advance (now - e.lastPoll) e.buffer
    rw [hrun]
    refine ⟨_, rfl, hready, ?_, rfl⟩
    rw [← hdelay]
    exact htick
  · rw [if_neg hpos]
    have hzero : (now - e.lastPoll) / tick = 0 := by omega
    rw [hzero]
    exact ⟨e, rfl, h, (Gauge.wrappingAdd_zero h.sane.tick).symm, by omega⟩

/-- Timers that are filed anew leave the tick count and the reference instant alone. -/
theorem refile_spec (deadline : T → Option Nat) (now : Nat) (tokens : List T)
    (e : TimerEngine S) (expired : List T) (h : Ready e.wheel) :
    ∃ e' out, TimerEngine.refile deadline now tokens e expired = some (e', out) ∧
      Ready e'.wheel ∧ e'.wheel.globalTick = e.wheel.globalTick ∧ e'.lastPoll = e.lastPoll := by
  induction tokens generalizing e expired with
  | nil => exact ⟨e, expired, rfl, h, rfl, rfl⟩
  | cons token tokens ih =>
    unfold TimerEngine.refile
    split
    · exact ih e _ h
    · rename_i due _
      split
      · obtain ⟨w', k, hrun, hready, htick⟩ := h.insert token (due - now)
        obtain ⟨e', out, hrest, hready', htick', hlast⟩ := ih { e with wheel := w' } expired hready
        refine ⟨e', out, ?_, hready', htick'.trans htick, hlast⟩
        rw [TimerEngine.insert, hrun]
        exact hrest
      · exact ih e _ h

theorem processTimers_spec (h : Ready e.wheel) (accepts : T → Bool) (deadline : T → Option Nat)
    (now : Nat) :
    ∃ e' handed, e.processTimers accepts deadline now = some (e', handed) ∧
      Ready e'.wheel ∧ e'.wheel.globalTick = e.wheel.globalTick ∧ e'.lastPoll = e.lastPoll := by
  obtain ⟨e', out, hrun, hspec⟩ := refile_spec deadline now e.buffer { e with buffer := [] } [] h
  refine ⟨e', (tryForEach accepts out).1, ?_, hspec⟩
  rw [TimerEngine.processTimers, hrun]
  rfl

end Iocp

/-- A loop in which every item that was handed over was accepted ran to its end. -/
theorem tryForEach_ok_of_handed {ι : Type} {accepts : ι → Bool} {batch : List ι}
    (h : ∀ item ∈ (tryForEach accepts batch).1, accepts item = true) :
    (tryForEach accepts batch).2 = true := by
  induction batch with
  | nil => rfl
  | cons item items ih =>
    unfold tryForEach at h ⊢
    by_cases hitem : accepts item = true
    · rw [if_pos hitem] at h ⊢
      exact ih fun later hlater => h later (List.mem_cons_of_mem _ hlater)
    · rw [if_neg hitem] at h
      exact absurd (h item (List.mem_singleton.mpr rfl)) hitem

/-- The timer step of the io_uring driver moves the wheel by the elapsed ticks, and the
reference instant by the same ticks if no completion fails. -/
theorem timerStep_moves {timers : Timers S} (h : Ready timers.wheel) {now : Nat}
    (hms : Duration.asMillis (now - timers.lastTimerPoll) < 2 ^ 64)
    (accepts : SoftwareTimer Token → Bool) :
    ∃ timers' handed, timers.timerStep accepts now = some (timers', handed) ∧
      Ready timers'.wheel ∧
      timers'.wheel.globalTick =
        wrappingAdd timers.wheel.globalTick ((now - timers.lastTimerPoll) / tick) ∧
      ((∀ timer ∈ handed, accepts timer = true) → timers'.lastTimerPoll =
        timers.lastTimerPoll + (now - timers.lastTimerPoll) / tick * tick) := by
  obtain ⟨hticks, hdelay, hmillis⟩ := h.ticks_eq hms
  unfold Timers.timerStep Timers.elapsedTicks
  simp only [hticks, hmillis]
  by_cases hpos : (now - timers.lastTimerPoll) / tick > 0
  · rw [if_pos hpos]
    obtain ⟨w', out, hrun, hready, htick⟩ :=
      h.advance (now - timers.lastTimerPoll) timers.timerBuffer
    rw [hdelay] at htick
    rw [Timers.advanceTimers, hrun, Option.map_some, Option.map_some]
    split
    · exact ⟨_, _, rfl, hready, htick, fun _ => rfl⟩
    · rename_i hfail
      exact ⟨_, _, rfl, hready, htick, fun hall => absurd (tryForEach_ok_of_handed hall) hfail⟩
  · rw [if_neg hpos]
    have hzero : (now - timers.lastTimerPoll) / tick = 0 := by omega
    rw [hzero]
    exact ⟨timers, [], rfl, h, (Gauge.wrappingAdd_zero h.sane.tick).symm, fun _ => by omega⟩

namespace Engine

variable {engine engine' : Engine S}

/-- A poll of either driver moves the wheel and the reference instant by the elapsed
ticks. -/
theorem poll_spec (h : Ready engine.wheel) {now : Nat}
    (hms : Duration.asMillis (now - engine.reference) < 2 ^ 64)
    (accepts : SoftwareTimer Token → Bool) (deadline : SoftwareTimer Token → Option Nat)
    (later : Nat) :
    ∃ engine' handed, engine.poll accepts deadline now later = some (engine', handed) ∧
      Ready engine'.wheel ∧
      engine'.wheel.globalTick =
        wrappingAdd engine.wheel.globalTick ((now - engine.reference) / tick) ∧
      ((∀ timer ∈ handed, accepts timer = true) → engine'.reference =
        engine.reference + (now - engine.reference) / tick * tick) := by
  cases engine with
  | uring timers =>
    obtain ⟨timers', handed, hrun, hspec⟩ := timerStep_moves h hms accepts
    exact ⟨uring timers', handed, by rw [poll, hrun]; rfl, hspec⟩
  | iocp timer =>
    obtain ⟨e₁, hadvance, hready₁, htick₁, hlast₁⟩ := advanceTo_spec h hms
    obtain ⟨e₂, handed, hprocess, hready₂, htick₂, hlast₂⟩ :=
      processTimers_spec hready₁ accepts deadline later
    refine ⟨iocp e₂, handed, ?_, hready₂, htick₂.trans htick₁, fun _ => hlast₂.trans hlast₁⟩
    rw [poll, hadvance, Option.bind_some, hprocess]
    rfl

/-- A submission moves neither. -/
theorem submit_spec (h : Ready engine.wheel) {token : Token} {duration : Duration} {now : Nat}
    (hrun : engine.submit token duration now = some engine') :
    Ready engine'.wheel ∧ engine'.wheel.globalTick = engine.wheel.globalTick ∧
      engine'.reference = engine.reference := by
  cases engine with
  | uring timers =>
    obtain ⟨w', k, hinsert, hready, htick⟩ := h.insert
      { token := token, submittedAt := now, duration := duration } duration
    change timers.wheel.insert _ _ = _ at hinsert
    rw [submit, Timers.submit, hinsert] at hrun
    cases hrun
    exact ⟨hready, htick, rfl⟩
  | iocp timer =>
    obtain ⟨w', k, hinsert, hready, htick⟩ := h.insert
      { token := token, submittedAt := now, duration := duration } duration
    change timer.wheel.insert _ _ = _ at hinsert
    rw [submit, TimerEngine.insert, hinsert] at hrun
    cases hrun
    exact ⟨hready, htick, rfl⟩

/-- A cancellation moves neither. -/
theorem cancel_spec (h : Ready engine.wheel) (id : Key) :
    Ready (engine.cancel id).wheel ∧
      (engine.cancel id).wheel.globalTick = engine.wheel.globalTick ∧
      (engine.cancel id).reference = engine.reference := by
  cases engine with
  | uring timers => exact ⟨h.cancel id, rfl, rfl⟩
  | iocp timer => exact ⟨h.cancel id, rfl, rfl⟩

end Engine

/-! ## Runs -/

namespace Meter

variable {m m' : Meter S}

/-- The reference instant is as many ticks after the creation as the wheel was advanced by,
and the count of the wheel is that number in 64 bits. -/
structure Exact (m : Meter S) : Prop where
  ready : Ready m.engine.wheel
  reference : m.engine.reference = m.created + m.ticks * tick
  wrapped : m.engine.wheel.globalTick = m.ticks % 2 ^ 64
  reached : m.engine.reference ≤ m.now
  readings : ∀ r ∈ m.readings, r.ticks = (r.instant - m.created) / tick

theorem Init.exact (h : m.Init) : Exact m := by
  obtain ⟨hfresh, hnow, hticks, hreadings⟩ := h
  have hengine : Ready m.engine.wheel ∧ m.engine.reference = m.created ∧
      m.engine.wheel.globalTick = 0 := by
    rcases hfresh with hfresh | hfresh
    · rw [hfresh]
      exact ⟨Ready.new S, rfl, rfl⟩
    · rw [hfresh]
      exact ⟨Ready.new S, rfl, rfl⟩
  obtain ⟨hready, hreference, htick⟩ := hengine
  refine ⟨hready, ?_, ?_, ?_, ?_⟩
  · rw [hreference, hticks, Nat.zero_mul, Nat.add_zero]
  · rw [htick, hticks]
    rfl
  · rw [hreference, hnow]
  · rw [hreadings]
    exact fun r hr => absurd hr List.not_mem_nil

/-- From an exact state a poll goes through, and its reading is exact. -/
theorem Exact.poll (h : Exact m) {at_ : Nat} (hnow : m.now ≤ at_) (hms : m.InReach at_)
    (accepts : SoftwareTimer Token → Bool) (deadline : SoftwareTimer Token → Option Nat)
    (later : Nat) :
    ∃ engine handed, m.engine.poll accepts deadline at_ later = some (engine, handed) ∧
      ((∀ timer ∈ handed, accepts timer = true) → Exact (m.polled engine at_)) := by
  obtain ⟨engine, handed, hrun, hready, htick, hlast⟩ :=
    Engine.poll_spec h.ready hms accepts deadline later
  refine ⟨engine, handed, hrun, fun haccepts => ?_⟩
  set n := (at_ - m.engine.reference) / tick with hn
  have hcount : wrappingSub engine.wheel.globalTick m.engine.wheel.globalTick = n := by
    rw [htick]
    exact wrappingSub_wrappingAdd h.ready.sane.tick (Ready.ticks_lt hms)
  have hreached := h.reached
  have hmul : n * tick ≤ at_ - m.engine.reference := Nat.div_mul_le_self _ _
  have hreference : engine.reference = m.engine.reference + n * tick := hlast haccepts
  -- the whole ticks up to the reference instant, and those of this poll
  have hexact : m.ticks + n = (at_ - m.created) / tick := by
    have hsplit : at_ - m.created = (at_ - m.engine.reference) + m.ticks * tick := by
      rw [h.reference] at hreached ⊢
      omega
    rw [hsplit, Nat.add_mul_div_right _ _ tick_pos, ← hn, Nat.add_comm]
  refine ⟨hready, ?_, ?_, ?_, ?_⟩
  · show engine.reference = m.created + (m.ticks + wrappingSub _ _) * tick
    rw [hcount, hreference, h.reference, Nat.add_mul, Nat.add_assoc]
  · show engine.wheel.globalTick = (m.ticks + wrappingSub _ _) % 2 ^ 64
    rw [hcount, htick, h.wrapped, wrappingAdd, Nat.mod_add_mod]
  · show engine.reference ≤ at_
    rw [hreference]
    omega
  · intro r hr
    rcases List.mem_append.mp hr with hr | hr
    · exact h.readings r hr
    · obtain rfl := List.mem_singleton.mp hr
      show m.ticks + wrappingSub _ _ = (at_ - m.created) / tick
      rw [hcount]
      exact hexact

theorem Exact.step {e : Event Key Token} (h : Exact m) (hok : Undisturbed m e)
    (hs : Step m e m') : Exact m' := by
  cases hs with
  | submit hnow hrun =>
    obtain ⟨hready, htick, hreference⟩ := Engine.submit_spec h.ready hrun
    exact ⟨hready, hreference.trans h.reference, htick.trans h.wrapped,
      hreference.le.trans (h.reached.trans hnow), h.readings⟩
  | @cancel id at_ hnow =>
    obtain ⟨hready, htick, hreference⟩ := Engine.cancel_spec h.ready id
    exact ⟨hready, hreference.trans h.reference, htick.trans h.wrapped,
      hreference.le.trans (h.reached.trans hnow), h.readings⟩
  | @poll accepts deadline at_ later engine handed hnow hrun =>
    obtain ⟨haccepts, hms⟩ := hok
    obtain ⟨engine', handed', hrun', hexact⟩ := h.poll hnow (hms _ _ _ _ rfl) accepts deadline later
    obtain ⟨rfl, rfl⟩ := Prod.mk.inj (Option.some.inj (hrun.symm.trans hrun'))
    exact hexact (haccepts _ _ hrun)

theorem Exact.run (h : Run Step Undisturbed Init m) : Exact m :=
  h.invariant (fun _ hinit => hinit.exact) fun _ _ _ hinv hok hs => hinv.step hok hs

/-- A run goes on with a poll whose completions are all accepted. -/
theorem run_poll (h : Run Step Undisturbed Init m) (at_ : Nat) (hnow : m.now ≤ at_)
    (hms : Duration.asMillis (at_ - m.created) < 2 ^ 64) :
    ∃ m' : Meter S, Run Step Undisturbed Init m' ∧ m'.created = m.created ∧ m'.now = at_ ∧
      m'.readings = m.readings ++ [{ instant := at_, ticks := (at_ - m.created) / tick }] := by
  have hexact := Exact.run h
  have hreach : m.InReach at_ := by
    refine Nat.lt_of_le_of_lt (Nat.div_le_div_right ?_) hms
    rw [hexact.reference]
    omega
  obtain ⟨engine, handed, hrun, hpolled⟩ :=
    hexact.poll hnow hreach (fun _ => true) (fun _ => none) at_
  refine ⟨m.polled engine at_, h.next (.poll (fun _ => true) (fun _ => none) at_ at_) ⟨?_, ?_⟩
    (Step.poll hnow hrun), rfl, rfl, ?_⟩
  · exact fun _ _ _ _ _ => rfl
  · rintro _ _ _ _ ⟨⟩
    exact hreach
  · have hlast : (m.polled engine at_).ticks = (at_ - m.created) / tick :=
      (hpolled fun _ _ => rfl).readings _
        (List.mem_append_right _ (List.mem_singleton.mpr rfl))
    rw [← hlast]
    rfl

/-- **Timers do not drift.**  In every run of either driver in which no completion fails and
every poll is in reach of the reference instant, the wheel has been advanced after each poll by the
whole ticks since the driver was created; its count is that number in 64 bits, and the next
poll in reach goes through. -/
theorem total_ticks (h : Run Step Undisturbed Init m) :
    (∀ r ∈ m.readings, r.ticks = (r.instant - m.created) / tick) ∧
    m.engine.wheel.globalTick = m.ticks % 2 ^ 64 ∧
    ∀ accepts deadline at_ later, m.now ≤ at_ → m.InReach at_ →
      ∃ m', Step m (.poll accepts deadline at_ later) m' := by
  have hexact := Exact.run h
  refine ⟨hexact.readings, hexact.wrapped, fun accepts deadline at_ later hnow hms => ?_⟩
  obtain ⟨engine, handed, hrun, -⟩ := hexact.poll hnow hms accepts deadline later
  exact ⟨_, Step.poll hnow hrun⟩

/-- An io_uring driver created at the instant `0`. -/
def freshUring : Meter PositionMap :=
  { engine := .uring (Timers.new PositionMap 0), now := 0, created := 0, ticks := 0,
    readings := [] }

/-- An IOCP driver created at the instant `0`. -/
def freshIocp : Meter PositionMap :=
  { engine := .iocp (TimerEngine.new PositionMap 0), now := 0, created := 0, ticks := 0,
    readings := [] }

/-- Polls after 5, 12 and 29 ms. -/
theorem three_polls (h : Run Step Undisturbed Init m) (hnow : m.now = 0) (hcreated : m.created = 0)
    (hreadings : m.readings = []) :
    ∃ m' : Meter S, Run Step Undisturbed Init m' ∧ m'.created = 0 ∧ m'.readings =
      [⟨Duration.fromMillis 5, 0⟩, ⟨Duration.fromMillis 12, 1⟩, ⟨Duration.fromMillis 29, 2⟩] := by
  obtain ⟨m₁, h₁, hcreated₁, hnow₁, hreadings₁⟩ := run_poll h (Duration.fromMillis 5)
    (by rw [hnow]; decide) (by rw [hcreated]; decide)
  obtain ⟨m₂, h₂, hcreated₂, hnow₂, hreadings₂⟩ := run_poll h₁ (Duration.fromMillis 12)
    (by rw [hnow₁]; decide) (by rw [hcreated₁, hcreated]; decide)
  obtain ⟨m₃, h₃, hcreated₃, hnow₃, hreadings₃⟩ := run_poll h₂ (Duration.fromMillis 29)
    (by rw [hnow₂]; decide) (by rw [hcreated₂, hcreated₁, hcreated]; decide)
  refine ⟨m₃, h₃, by rw [hcreated₃, hcreated₂, hcreated₁, hcreated], ?_⟩
  rw [hreadings₃, hreadings₂, hreadings₁, hreadings, hcreated₂, hcreated₁, hcreated]
  decide

/-- Both drivers count 0, 1 and 2 ticks at polls after 5, 12 and 29 ms. -/
theorem total_ticks_of_three_polls :
    (∃ m : Meter PositionMap, Run Step Undisturbed Init m ∧ m.readings.length = 3 ∧
      ∀ r ∈ m.readings, r.ticks = (r.instant - m.created) / tick) ∧
    ∃ m : Meter PositionMap, Run Step Undisturbed Init m ∧ m.readings.length = 3 ∧
      ∀ r ∈ m.readings, r.ticks = (r.instant - m.created) / tick := by
  obtain ⟨m, h, -, hreadings⟩ :=
    three_polls (m := freshUring) (.start ⟨.inl rfl, rfl, rfl, rfl⟩) rfl rfl rfl
  obtain ⟨m', h', -, hreadings'⟩ :=
    three_polls (m := freshIocp) (.start ⟨.inr rfl, rfl, rfl, rfl⟩) rfl rfl rfl
  exact ⟨⟨m, h, by rw [hreadings]; rfl, (total_ticks h).1⟩,
    ⟨m', h', by rw [hreadings']; rfl, (total_ticks h').1⟩⟩

/-- Ticks are counted from the creation of the driver and not from its first poll: polls
after 5 and 12 ms are 7 ms apart, and the wheel has moved by a tick.  And a first poll after
`2 ^ 64` ms finds no elapsed time at all. -/
theorem ticks_not_from_first_poll :
    (¬ ∀ m : Meter PositionMap, Run Step NoFailure Init m →
      ∀ first ∈ m.readings.head?, ∀ r ∈ m.readings, r.ticks = (r.instant - first.instant) / tick) ∧
    ¬ ∀ m : Meter PositionMap, Run Step NoFailure Init m →
      ∀ r ∈ m.readings, r.ticks = (r.instant - m.created) / tick := by
  constructor
  · intro hall
    obtain ⟨m, h, -, hreadings⟩ :=
      three_polls (m := freshUring) (.start ⟨.inl rfl, rfl, rfl, rfl⟩) rfl rfl rfl
    have hsecond := hall m (h.mono fun _ _ hok => hok.1) ⟨Duration.fromMillis 5, 0⟩
      (by rw [hreadings]; rfl) ⟨Duration.fromMillis 12, 1⟩ (by rw [hreadings]; decide)
    exact absurd hsecond (by decide)
  · intro hall
    have hzero : (Timers.new PositionMap 0).elapsedTicks (Duration.fromMillis (2 ^ 64)) = 0 := by
      decide +kernel
    have hpoll : freshUring.engine.poll (fun _ => true) (fun _ => none)
        (Duration.fromMillis (2 ^ 64)) (Duration.fromMillis (2 ^ 64)) =
        some (freshUring.engine, []) := by
      show ((Timers.new PositionMap 0).timerStep _ _).map _ = _
      unfold Timers.timerStep
      simp only [hzero]
      rfl
    have hrun : Run Step NoFailure Init
        (freshUring.polled freshUring.engine (Duration.fromMillis (2 ^ 64))) :=
      Run.next (.poll (fun _ => true) (fun _ => none) _ _) (.start ⟨.inl rfl, rfl, rfl, rfl⟩)
        (fun _ _ _ _ _ => rfl) (Step.poll (Nat.zero_le _) hpoll)
    have hreading := hall _ hrun ⟨Duration.fromMillis (2 ^ 64), 0⟩ (by
      show _ ∈ [(⟨_, 0 + wrappingSub 0 0⟩ : Reading)]
      rw [show wrappingSub 0 0 = 0 by decide +kernel]
      exact List.mem_singleton.mpr rfl)
    exact absurd hreading (by decide +kernel)

end Meter

end Veloq.Driver.TimerDrift
