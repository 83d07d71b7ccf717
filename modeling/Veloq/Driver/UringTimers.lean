import Veloq.Foundation.EarlyReturn
import Veloq.Foundation.Run
import Veloq.Timing.Runs
import Mathlib.Tactic.Ring
set_option autoImplicit false

/-!
# Driver: software timers of the io_uring driver

The driver keeps a timing wheel and `last_timer_poll`, the instant up to which the
wheel has been advanced.  A timer is inserted relative to the wheel's current tick;
a poll that reaches its timer step advances the wheel by the whole ticks elapsed
since `last_timer_poll`.  Nothing else moves the wheel, so a timer submitted long
after the last poll is placed relative to an old instant.

Instants are nanoseconds.  The wheel stores the token of an operation; the model
stores with it, as a ghost, when the timer was submitted and for how long.
-/

namespace Veloq.Driver.UringTimers

open Veloq.Foundation Veloq.Timing

/-- An entry of the driver's wheel: the token of the operation, and the ghost. -/
structure SoftwareTimer (Token : Type) where
  token : Token
  submittedAt : Nat
  duration : Duration
  deriving DecidableEq

variable {Key Token : Type} [DecidableEq Key]
  {S : SlotMap Key (WheelEntry Key (SoftwareTimer Token))}

/-- The fields of `UringDriver` that the timer step uses. -/
structure Timers (S : SlotMap Key (WheelEntry Key (SoftwareTimer Token))) where
  wheel : Wheel S
  timerBuffer : List (SoftwareTimer Token)
  lastTimerPoll : Nat

/-- `UringDriver::new`, at the instant `now`. -/
def Timers.new (S : SlotMap Key (WheelEntry Key (SoftwareTimer Token))) (now : Nat) : Timers S :=
  { wheel := Wheel.new S WheelConfig.default, timerBuffer := [], lastTimerPoll := now }

/-- The `SoftwareTimer` strategy of `submit_from_slot_raw`. -/
def Timers.submit (s : Timers S) (token : Token) (duration : Duration) (now : Nat) :
    Option (Timers S × Key) :=
  (s.wheel.insert { token := token, submittedAt := now, duration := duration } duration).map
    fun r => ({ s with wheel := r.1 }, r.2)

/-- `advance_timers`: the timers handed to `accept_synthetic_completion`, and whether
all of them were accepted.  The buffer is taken before its timers are completed. -/
def Timers.advanceTimers (s : Timers S) (accepts : SoftwareTimer Token → Bool)
    (elapsed : Duration) : Option (Timers S × List (SoftwareTimer Token) × Bool) :=
  (s.wheel.advance elapsed s.timerBuffer).map fun r =>
    ({ s with wheel := r.1, timerBuffer := [] }, tryForEach accepts r.2)

/-- The whole ticks since the last timer poll. -/
def Timers.elapsedTicks (s : Timers S) (now : Nat) : Nat :=
  asU64 (Duration.asMillis (now - s.lastTimerPoll)) / asU64 s.wheel.tickDuration.asMillis

/-- The timer step of `wait_internal` and of `poll_nonblocking_internal`.  When a
completion fails, `?` leaves before `last_timer_poll` moves. -/
def Timers.timerStep (s : Timers S) (accepts : SoftwareTimer Token → Bool) (now : Nat) :
    Option (Timers S × List (SoftwareTimer Token)) :=
  let ticks := s.elapsedTicks now
  if ticks > 0 then
    (s.advanceTimers accepts (now - s.lastTimerPoll)).map fun r =>
      if r.2.2 then
        ({ r.1 with lastTimerPoll := s.lastTimerPoll +
            Duration.fromMillis (ticks * asU64 s.wheel.tickDuration.asMillis) }, r.2.1)
      else
        (r.1, r.2.1)
  else
    some (s, [])

/-- What happens to the driver, each at an instant. -/
inductive Event (Key Token : Type) where
  | submit (token : Token) (duration : Duration) (at_ : Nat)
  | cancel (key : Key) (at_ : Nat)
  /-- A poll that reaches its timer step. -/
  | poll (accepts : SoftwareTimer Token → Bool) (at_ : Nat)
  /-- A poll of an idle driver, which returns before its timer step. -/
  | idle (at_ : Nat)

/-- The driver, the clock, and the timers completed so far with their instants. -/
structure World (S : SlotMap Key (WheelEntry Key (SoftwareTimer Token))) where
  timers : Timers S
  now : Nat
  completed : List (SoftwareTimer Token × Nat)

/-- A driver that has just been created. -/
def World.Init (w : World S) : Prop :=
  w = { timers := Timers.new S w.now, now := w.now, completed := [] }

/-- Instants do not decrease. -/
inductive Step : World S → Event Key Token → World S → Prop where
  | submit {w : World S} {token : Token} {duration : Duration} {at_ : Nat} {timers : Timers S}
      {key : Key} : w.now ≤ at_ → w.timers.submit token duration at_ = some (timers, key) →
      Step w (.submit token duration at_) { w with timers := timers, now := at_ }
  | cancel {w : World S} {key : Key} {at_ : Nat} : w.now ≤ at_ →
      Step w (.cancel key at_)
        { w with timers := { w.timers with wheel := (w.timers.wheel.cancel key).1 }, now := at_ }
  | poll {w : World S} {accepts : SoftwareTimer Token → Bool} {at_ : Nat} {timers : Timers S}
      {handed : List (SoftwareTimer Token)} : w.now ≤ at_ →
      w.timers.timerStep accepts at_ = some (timers, handed) →
      Step w (.poll accepts at_)
        { timers := timers, now := at_,
          completed := w.completed ++ handed.map fun timer => (timer, at_) }
  | idle {w : World S} {at_ : Nat} : w.now ≤ at_ → Step w (.idle at_) { w with now := at_ }

/-- The timer was not completed more than one tick before it was due. -/
def NotEarly (tick : Duration) (completion : SoftwareTimer Token × Nat) : Prop :=
  completion.1.submittedAt + completion.1.duration ≤ completion.2 + tick

/-- The submission of a timer is timely when the wheel is not so far behind the
clock that the tick it is filed under lies more than one tick before its due time. -/
def TimelySubmission (s : Timers S) (duration : Duration) (at_ : Nat) : Prop :=
  duration ≤ s.wheel.tickDuration ∨
  at_ + duration ≤
    s.lastTimerPoll + (max (duration / s.wheel.tickDuration) 1 + 1) * s.wheel.tickDuration

/-- The steps after which no timer can be early.  Tick and millisecond counts stay
within 64 bits, and the completion of a timer does not fail. -/
def Timely (w : World S) : Event Key Token → Prop
  | .submit _ duration at_ =>
      duration.asMillis < 2 ^ 64 ∧ w.timers.wheel.deadlineOf duration < 2 ^ 64 ∧
      TimelySubmission w.timers duration at_
  | .cancel _ _ => True
  | .poll accepts at_ =>
      Duration.asMillis (at_ - w.timers.lastTimerPoll) < 2 ^ 64 ∧
      w.timers.wheel.tickAfter (at_ - w.timers.lastTimerPoll) < 2 ^ 64 ∧
      ∀ timer, accepts timer = true
  | .idle _ => True

/-! ## The timer step -/

theorem validConfig_default : Wheel.ValidConfig WheelConfig.default :=
  ⟨⟨9, by decide, rfl⟩, ⟨6, by decide, rfl⟩, by decide +kernel, by decide +kernel⟩

/-- The tick of the driver's wheel is ten milliseconds. -/
def tick : Duration := Duration.fromMillis 10

theorem tick_pos : 0 < tick := by decide

section Tick

variable {T : Type} {S : SlotMap Key (WheelEntry Key T)} {wheel : Wheel S} {agenda : Agenda Key T}

theorem tickDurationMs_of_reachable
    (h : Wheel.Reachable S WheelConfig.default wheel agenda) : wheel.tickDurationMs = 10 := by
  rw [h.tickDurationMs_eq validConfig_default]
  show max (asU64 (Duration.asMillis (Duration.fromMillis 10))) 1 = 10
  decide +kernel

theorem tickDuration_of_reachable
    (h : Wheel.Reachable S WheelConfig.default wheel agenda) : wheel.tickDuration = tick := by
  rw [Wheel.tickDuration, tickDurationMs_of_reachable h, tick]

end Tick

variable {agenda : Agenda Key (SoftwareTimer Token)} {s : Timers S}

/-- The timer step advances the wheel by the whole ticks since `last_timer_poll`. -/
theorem elapsedTicks_eq (h : Wheel.Reachable S WheelConfig.default s.wheel agenda) {now : Nat}
    (hms : Duration.asMillis (now - s.lastTimerPoll) < 2 ^ 64) :
    s.elapsedTicks now = (now - s.lastTimerPoll) / tick ∧
    asU64 s.wheel.tickDuration.asMillis = 10 := by
  have hten : asU64 s.wheel.tickDuration.asMillis = 10 := by
    rw [tickDuration_of_reachable h]
    decide +kernel
  have hticks := s.wheel.delayToTicks_eq hms
  rw [tickDuration_of_reachable h] at hticks
  refine ⟨?_, hten⟩
  rw [← hticks, Timers.elapsedTicks, hten, Wheel.delayToTicks, tickDurationMs_of_reachable h]

/-- The timer step hands over the timers due by now, until a completion fails.  The
wheel moves by the whole ticks elapsed; `last_timer_poll` follows only when none
fails. -/
theorem timerStep_spec (h : Wheel.Reachable S WheelConfig.default s.wheel agenda)
    (hbuffer : s.timerBuffer = []) {now : Nat}
    (hms : Duration.asMillis (now - s.lastTimerPoll) < 2 ^ 64)
    (hfit : s.wheel.tickAfter (now - s.lastTimerPoll) < 2 ^ 64)
    (accepts : SoftwareTimer Token → Bool) :
    ∃ wheel expired agenda',
      s.timerStep accepts now = some
        (⟨wheel, [], if (tryForEach accepts expired).2 then
            s.lastTimerPoll + (now - s.lastTimerPoll) / tick * tick else s.lastTimerPoll⟩,
          (tryForEach accepts expired).1) ∧
      Wheel.Reachable S WheelConfig.default wheel agenda' ∧
      wheel.globalTick = s.wheel.globalTick + (now - s.lastTimerPoll) / tick ∧
      (∀ k p, agenda' k = some p → agenda k = some p) ∧
      ∀ timer, timer ∈ expired ↔ ∃ k due, agenda k = some (timer, due) ∧
        due ≤ s.wheel.globalTick + (now - s.lastTimerPoll) / tick := by
  obtain ⟨helapsed, hten⟩ := elapsedTicks_eq h hms
  obtain ⟨hinv, hpending⟩ := h.inv validConfig_default
  have hafter : s.wheel.tickAfter (now - s.lastTimerPoll) =
      s.wheel.globalTick + (now - s.lastTimerPoll) / tick := by
    rw [Wheel.tickAfter, tickDuration_of_reachable h]
  set n := (now - s.lastTimerPoll) / tick with hn
  have hstep : Duration.fromMillis (n * 10) = n * tick := by
    unfold tick Duration.fromMillis
    rw [Nat.mul_assoc]
  unfold Timers.timerStep
  rw [helapsed]
  by_cases hpos : n > 0
  · obtain ⟨wheel, expired, hrun, hreach, htick, hmem⟩ :=
      h.advance_due validConfig_default hms hfit
    refine ⟨wheel, expired, _, ?_, hreach, htick.trans hafter, fun k p hp => Agenda.of_after hp, ?_⟩
    · rw [if_pos hpos, Timers.advanceTimers, hbuffer, hrun, Option.map_some, Option.map_some,
        hten, hstep]
      split <;> rfl
    · rw [hafter] at hmem
      exact hmem
  · have hzero : n = 0 := by omega
    rw [hzero] at *
    refine ⟨s.wheel, [], agenda, ?_, h, rfl, fun k p hp => hp, ?_⟩
    · have hsame : s = ⟨s.wheel, [], s.lastTimerPoll⟩ := by
        rw [← hbuffer]
      rw [if_neg (by omega), Nat.zero_mul, Nat.add_zero, ite_self, ← hsame]
      rfl
    · intro timer
      simp only [List.not_mem_nil, Nat.add_zero, false_iff]
      rintro ⟨k, due, hk, hle⟩
      rw [← hpending] at hk
      have hlt := hinv.lt_of_dueAt ⟨timer, hk⟩
      omega

/-! ## Runs -/

/-- What holds of a driver whose steps are all timely: the wheel's tick tells
`last_timer_poll`, and every timer in the wheel is filed late enough. -/
structure Punctual (w : World S) : Prop where
  completed : ∀ completion ∈ w.completed, NotEarly tick completion
  buffer : w.timers.timerBuffer = []
  polled : w.timers.lastTimerPoll ≤ w.now
  filed : ∃ agenda start, Wheel.Reachable S WheelConfig.default w.timers.wheel agenda ∧
    w.timers.lastTimerPoll = start + w.timers.wheel.globalTick * tick ∧
    ∀ k timer due, agenda k = some (timer, due) → timer.submittedAt ≤ w.now ∧
      (timer.duration ≤ tick ∨ timer.submittedAt + timer.duration ≤ start + (due + 1) * tick)

theorem punctual_init {w : World S} (h : w.Init) : Punctual w := by
  rw [h]
  refine ⟨by simp, rfl, Nat.le_refl _, Agenda.empty, w.now, Wheel.Reachable.new, ?_, ?_⟩
  · show w.now = w.now + 0 * tick
    omega
  · intro k timer due hk
    exact absurd hk (by simp [Agenda.empty])

theorem Punctual.step {w w' : World S} {e : Event Key Token} (h : Punctual w) (ht : Timely w e)
    (hs : Step w e w') : Punctual w' := by
  obtain ⟨hcompleted, hbuffer, hpolled, agenda, start, hreach, hlast, hfiled⟩ := h
  cases hs with
  | @submit token duration at_ timers key hnow hrun =>
    obtain ⟨hms, hfit, htimely⟩ := ht
    obtain ⟨r, hr, heq⟩ := Option.map_eq_some_iff.mp hrun
    cases heq
    have hdeadline : w.timers.wheel.deadlineOf duration =
        w.timers.wheel.globalTick + max (duration / tick) 1 := by
      rw [Wheel.deadlineOf, tickDuration_of_reachable hreach]
    have hreach' := Wheel.Reachable.insert _ duration hreach hms hfit hr
    obtain ⟨hinv, hpending⟩ := hreach.inv validConfig_default
    have hfit' : w.timers.wheel.globalTick +
        max (w.timers.wheel.delayToTicks duration) 1 < 2 ^ 64 := by
      rw [Wheel.delayToTicks_eq _ hms]
      exact hfit
    obtain ⟨w₁, k₁, hrun₁, _, _, htick, _⟩ := Wheel.insert_spec hinv
      { token := token, submittedAt := at_, duration := duration } duration hfit'
    rw [hr] at hrun₁
    cases hrun₁
    refine ⟨hcompleted, hbuffer, Nat.le_trans hpolled hnow, _, start, hreach', ?_, ?_⟩
    · show w.timers.lastTimerPoll = start + w₁.globalTick * tick
      rw [htick]
      exact hlast
    · intro k timer due hk
      unfold Agenda.add at hk
      split at hk
      · cases hk
        refine ⟨Nat.le_refl at_, ?_⟩
        rw [hdeadline]
        unfold TimelySubmission at htimely
        rw [tickDuration_of_reachable hreach, hlast] at htimely
        refine htimely.imp id fun hle => ?_
        calc at_ + duration
            ≤ start + w.timers.wheel.globalTick * tick +
                (max (duration / tick) 1 + 1) * tick := hle
          _ = start + (w.timers.wheel.globalTick + max (duration / tick) 1 + 1) * tick := by ring
      · obtain ⟨hsub, hdue⟩ := hfiled k timer due hk
        exact ⟨Nat.le_trans hsub hnow, hdue⟩
  | cancel hnow =>
    refine ⟨hcompleted, hbuffer, Nat.le_trans hpolled hnow, _, start,
      Wheel.Reachable.cancel _ hreach, hlast, ?_⟩
    intro k timer due hk
    unfold Agenda.drop at hk
    split at hk
    · exact absurd hk (by simp)
    · obtain ⟨hsub, hdue⟩ := hfiled k timer due hk
      exact ⟨Nat.le_trans hsub hnow, hdue⟩
  | @poll accepts at_ timers handed hnow hrun =>
    obtain ⟨hms, hfit, haccepts⟩ := ht
    obtain ⟨wheel, expired, agenda', hrun', hreach', htick, hsub, hmem⟩ :=
      timerStep_spec hreach hbuffer hms hfit accepts
    rw [hrun, tryForEach_of_accepts fun timer _ => haccepts timer] at hrun'
    cases hrun'
    set n := (at_ - w.timers.lastTimerPoll) / tick with hn
    have hmul : n * tick ≤ at_ - w.timers.lastTimerPoll := Nat.div_mul_le_self _ _
    refine ⟨?_, rfl, ?_, agenda', start, hreach', ?_, ?_⟩
    · intro completion hin
      rcases List.mem_append.mp hin with hin | hin
      · exact hcompleted completion hin
      · obtain ⟨timer, hhanded, rfl⟩ := List.mem_map.mp hin
        obtain ⟨k, due, hk, hdue⟩ := (hmem timer).mp hhanded
        obtain ⟨hbefore, hlate⟩ := hfiled k timer due hk
        unfold NotEarly
        rcases hlate with hshort | hlate
        · exact Nat.add_le_add (Nat.le_trans hbefore hnow) hshort
        · -- the poll reached the instant of the tick under which the timer was filed
          have hreached : start + due * tick ≤ at_ := by
            have hmono : due * tick ≤ (w.timers.wheel.globalTick + n) * tick :=
              Nat.mul_le_mul_right tick hdue
            rw [Nat.add_mul] at hmono
            omega
          show timer.submittedAt + timer.duration ≤ at_ + tick
          rw [Nat.add_mul, Nat.one_mul] at hlate
          omega
    · show w.timers.lastTimerPoll + n * tick ≤ at_
      omega
    · show w.timers.lastTimerPoll + n * tick = start + wheel.globalTick * tick
      rw [htick, hlast, Nat.add_mul, Nat.add_assoc]
    · intro k timer due hk
      obtain ⟨hbefore, hdue⟩ := hfiled k timer due (hsub k _ hk)
      exact ⟨Nat.le_trans hbefore hnow, hdue⟩
  | idle hnow =>
    refine ⟨hcompleted, hbuffer, Nat.le_trans hpolled hnow, agenda, start, hreach, hlast, ?_⟩
    intro k timer due hk
    obtain ⟨hsub, hdue⟩ := hfiled k timer due hk
    exact ⟨Nat.le_trans hsub hnow, hdue⟩

/-- A timer submitted now is handed over by the first poll at which the ticks it was
filed ahead have elapsed since `last_timer_poll`, not since its submission. -/
theorem handed_after_ticks (h : Wheel.Reachable S WheelConfig.default s.wheel agenda)
    (hbuffer : s.timerBuffer = []) (token : Token) (duration : Duration) (at_ now : Nat)
    (hms : duration.asMillis < 2 ^ 64) (hfit : s.wheel.deadlineOf duration < 2 ^ 64)
    (hreach : max (duration / tick) 1 ≤ (now - s.lastTimerPoll) / tick)
    (hms' : Duration.asMillis (now - s.lastTimerPoll) < 2 ^ 64)
    (hfit' : s.wheel.tickAfter (now - s.lastTimerPoll) < 2 ^ 64) :
    ∃ timers key timers' handed, s.submit token duration at_ = some (timers, key) ∧
      timers.lastTimerPoll = s.lastTimerPoll ∧
      timers.wheel.tickAfter (now - s.lastTimerPoll) =
        s.wheel.tickAfter (now - s.lastTimerPoll) ∧
      timers.timerStep (fun _ => true) now = some (timers', handed) ∧
      { token := token, submittedAt := at_, duration := duration } ∈ handed := by
  obtain ⟨hinv, rfl⟩ := h.inv validConfig_default
  set timer : SoftwareTimer Token := { token := token, submittedAt := at_, duration := duration }
  have hdeadline : s.wheel.deadlineOf duration = s.wheel.globalTick + max (duration / tick) 1 := by
    rw [Wheel.deadlineOf, tickDuration_of_reachable h]
  obtain ⟨wheel, key, hrun, _, hshape, htick, _, _⟩ := Wheel.insert_spec hinv timer duration
    (by rw [Wheel.delayToTicks_eq _ hms]; exact hfit)
  have hreach' := Wheel.Reachable.insert timer duration h hms hfit hrun
  have hafter : wheel.tickAfter (now - s.lastTimerPoll) =
      s.wheel.tickAfter (now - s.lastTimerPoll) := by
    rw [Wheel.tickAfter, Wheel.tickAfter, htick, Wheel.tickDuration, Wheel.tickDuration,
      hshape.tick]
  obtain ⟨wheel', expired, agenda', hstep, _, _, _, hmem⟩ := timerStep_spec
    (s := { s with wheel := wheel }) hreach' hbuffer hms' (by rw [hafter]; exact hfit')
    fun _ => true
  rw [tryForEach_of_accepts fun _ _ => rfl] at hstep
  refine ⟨{ s with wheel := wheel }, key, _, expired, ?_, rfl, hafter, hstep, ?_⟩
  · rw [Timers.submit, hrun]
    rfl
  · refine (hmem timer).mpr ⟨key, _, if_pos rfl, ?_⟩
    rw [hdeadline, htick]
    exact Nat.add_le_add_left hreach _

/-- **Untimely submissions fire early.**  After any timely run, a submission that is
not timely has a continuation in which the timer is completed more than one tick
before it was due. -/
theorem untimely_submission_early {w : World S} (h : Run Step Timely World.Init w)
    (token : Token) (duration : Duration) (at_ now : Nat) (hat : w.now ≤ at_)
    (hms : duration.asMillis < 2 ^ 64) (hfit : w.timers.wheel.deadlineOf duration < 2 ^ 64)
    (huntimely : ¬ TimelySubmission w.timers duration at_)
    (hnow : now = max at_ (w.timers.lastTimerPoll + max (duration / tick) 1 * tick))
    (hms' : Duration.asMillis (now - w.timers.lastTimerPoll) < 2 ^ 64)
    (hfit' : w.timers.wheel.tickAfter (now - w.timers.lastTimerPoll) < 2 ^ 64) :
    ∃ w₁ w₂ completion, Step w (.submit token duration at_) w₁ ∧
      Step w₁ (.poll (fun _ => true) now) w₂ ∧ completion ∈ w₂.completed ∧
      ¬ NotEarly tick completion := by
  have hpunctual : Punctual w :=
    h.invariant (fun _ => punctual_init) fun _ _ _ hinv ht hs => hinv.step ht hs
  obtain ⟨_, hbuffer, hpolled, agenda, start, hreach, _, _⟩ := hpunctual
  have hticks : max (duration / tick) 1 ≤ (now - w.timers.lastTimerPoll) / tick := by
    rw [Nat.le_div_iff_mul_le tick_pos]
    omega
  obtain ⟨timers, key, timers', handed, hsubmit, _, _, hpoll, hmem⟩ :=
    handed_after_ticks hreach hbuffer token duration at_ now hms hfit hticks hms' hfit'
  refine ⟨_, _, (_, now), Step.submit hat hsubmit, Step.poll (by show at_ ≤ now; omega) hpoll,
    List.mem_append_right _ (List.mem_map.mpr ⟨_, hmem, rfl⟩), ?_⟩
  unfold TimelySubmission at huntimely
  rw [tickDuration_of_reachable hreach, not_or, Nat.not_le, Nat.not_le, Nat.add_mul] at huntimely
  obtain ⟨hlong, hbehind⟩ := huntimely
  unfold NotEarly
  rw [Nat.not_le, hnow]
  have hlong' : at_ + tick < at_ + duration := Nat.add_lt_add_left hlong at_
  rw [Nat.one_mul] at hbehind
  show max at_ (w.timers.lastTimerPoll + max (duration / tick) 1 * tick) + tick < at_ + duration
  omega

/-- **No timer completes early in a timely run.**  If every submission of a run is
timely, no tick count overflows and no completion of a timer fails, then no timer is
completed more than one tick before the instant it was due. -/
theorem timely_run_not_early {w : World S} (h : Run Step Timely World.Init w)
    {completion : SoftwareTimer Token × Nat} (hc : completion ∈ w.completed) :
    NotEarly tick completion := by
  have hpunctual : Punctual w :=
    h.invariant (fun _ => punctual_init) fun _ _ _ hinv ht hs => hinv.step ht hs
  exact hpunctual.completed completion hc

/-- A slot map whose keys are positions, for runs that remove nothing. -/
abbrev PositionMap := SlotMap.appending (WheelEntry Nat (SoftwareTimer Nat))

/-- A driver created at the instant `0`. -/
def freshWorld : World PositionMap :=
  { timers := Timers.new PositionMap 0, now := 0, completed := [] }

/-- A timer of 20 ms submitted when the driver is created and polled for after 20 ms. -/
theorem timely_run_twenty :
    ∃ w : World PositionMap, Run Step Timely World.Init w ∧
      ∃ completion ∈ w.completed, completion.1.duration = Duration.fromMillis 20 ∧
        NotEarly tick completion := by
  obtain ⟨timers, key, timers', handed, hsubmit, hlast, hafter, hpoll, hmem⟩ := handed_after_ticks
    (s := freshWorld.timers) Wheel.Reachable.new rfl 5 (Duration.fromMillis 20) 0
    (Duration.fromMillis 20) (by decide) (by decide +kernel) (by decide) (by decide) (by decide +kernel)
  have hfresh : Run Step Timely World.Init freshWorld := Run.start rfl
  have htimely : Timely freshWorld (.submit 5 (Duration.fromMillis 20) 0) :=
    ⟨by decide, by decide +kernel, Or.inr (by decide +kernel)⟩
  have hsubmitted := hfresh.next _ htimely (Step.submit (Nat.le_refl 0) hsubmit)
  have hpolled := Run.next (.poll (fun _ => true) (Duration.fromMillis 20)) hsubmitted
    (by
      refine ⟨?_, ?_, fun _ => rfl⟩
      · show Duration.asMillis (Duration.fromMillis 20 - timers.lastTimerPoll) < 2 ^ 64
        rw [hlast]
        decide
      · show timers.wheel.tickAfter (Duration.fromMillis 20 - timers.lastTimerPoll) < 2 ^ 64
        rw [hlast, hafter]
        decide +kernel) (Step.poll (Nat.zero_le _) hpoll)
  refine ⟨_, hpolled, (_, Duration.fromMillis 20),
    List.mem_append_right _ (List.mem_map.mpr ⟨_, hmem, rfl⟩), rfl, ?_⟩
  exact timely_run_not_early hpolled (List.mem_append_right _ (List.mem_map.mpr ⟨_, hmem, rfl⟩))

/-- A timer of 19 ms submitted 9 ms after the driver was created is completed by a
poll 1 ms later. -/
theorem early_after_one_millisecond :
    ∃ w : World PositionMap, Run Step Always World.Init w ∧
      ∃ completion ∈ w.completed, ¬ NotEarly tick completion := by
  have hfresh : Run Step Timely World.Init freshWorld := Run.start rfl
  obtain ⟨w₁, w₂, completion, hsubmit, hpoll, hmem, hearly⟩ := untimely_submission_early
    hfresh 5 (Duration.fromMillis 19) (Duration.fromMillis 9) (Duration.fromMillis 10)
    (by decide) (by decide) (by decide +kernel)
    (by unfold TimelySubmission; decide +kernel) (by decide) (by decide) (by decide +kernel)
  exact ⟨w₂, ((hfresh.mono fun _ _ _ => trivial).next _ trivial hsubmit).next _ trivial hpoll,
    completion, hmem, hearly⟩

end Veloq.Driver.UringTimers
