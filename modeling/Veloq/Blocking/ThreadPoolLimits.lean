import Veloq.Blocking.ThreadPoolRuns
set_option autoImplicit false

/-!
# Blocking: the limits of the thread pool

`execute` compares `active_workers` and `task_count` with the limits in one step and
increments them in another, and two of its three ways to accept a task do not look at
`task_count`.  The limits hold as long as the comparison, made at the increment, would succeed.
-/

namespace Veloq.Blocking

open Veloq.Foundation

variable {α : Type}

namespace PoolState

variable {pool : ThreadPool} {s s' : PoolState α} {n w : Nat}

/-! ## Where the counters grow -/

/-- The next step of a call is an increment of `active_workers`. -/
def raisesActive (s : PoolState α) : PoolEvent α → Prop
  | .call n => ∃ task, s.calls n = .addActive task
  | _ => False

/-- The next step of a call is an increment of `task_count`. -/
def raisesCount (s : PoolState α) : PoolEvent α → Prop
  | .call n => ∃ on task, s.calls n = .addCount on task
  | _ => False

/-- What a step does to the counters that are limited. -/
def Bounds (s s' : PoolState α) (e : PoolEvent α) : Prop :=
  (s'.activeWorkers ≤ s.activeWorkers ∨
      s.raisesActive e ∧ s'.activeWorkers = s.activeWorkers + 1) ∧
    (s'.taskCount ≤ s.taskCount ∨ s.raisesCount e ∧ s'.taskCount = s.taskCount + 1)

theorem Bounds.of_le {e : PoolEvent α} (hactive : s'.activeWorkers ≤ s.activeWorkers)
    (hcount : s'.taskCount ≤ s.taskCount) : Bounds s s' e :=
  ⟨.inl hactive, .inl hcount⟩

theorem executeStep_bounds (hs : s.executeStep pool n = some s') : Bounds s s' (.call n) := by
  unfold PoolState.executeStep at hs
  split at hs
  case h_3 task hpc =>
    cases hs
    exact ⟨.inr ⟨⟨task, hpc⟩, rfl⟩, .inl le_rfl⟩
  case h_4 task hpc =>
    cases hs
    exact .of_le (Nat.sub_le ..) le_rfl
  case h_6 on task hpc =>
    cases hs
    exact ⟨.inl le_rfl, .inr ⟨⟨on, task, hpc⟩, rfl⟩⟩
  case h_9 hpc =>
    obtain ⟨-, rfl⟩ := acquire_eq _ _ hs
    exact .of_le le_rfl le_rfl
  case h_11 | h_12 | h_13 | h_14 => cases hs
  all_goals
    cases hs
    exact .of_le le_rfl le_rfl

theorem popFor_bounds (s : PoolState α) (w : Nat) (found : α → WorkerPc α) (empty : WorkerPc α) :
    Bounds s (s.popFor w found empty) (.worker w) := by
  unfold PoolState.popFor
  split
  · exact .of_le le_rfl le_rfl
  · exact .of_le le_rfl le_rfl

theorem workerLoopStep_bounds (hs : s.workerLoopStep pool w = some s') :
    Bounds s s' (.worker w) := by
  unfold PoolState.workerLoopStep at hs
  split at hs
  case h_1 hpc =>
    cases hs
    exact popFor_bounds ..
  case h_4 hpc =>
    cases hs
    exact popFor_bounds ..
  case h_3 hpc =>
    obtain ⟨-, rfl⟩ := acquire_eq _ _ hs
    exact .of_le le_rfl le_rfl
  case h_10 timedOut hpc =>
    obtain ⟨-, rfl⟩ := acquire_eq _ _ hs
    exact .of_le le_rfl le_rfl
  case h_7 task hpc =>
    cases hs
    exact .of_le le_rfl (Nat.sub_le ..)
  case h_15 hpc =>
    cases hs
    exact .of_le (Nat.sub_le ..) le_rfl
  case h_16 | h_17 | h_18 => cases hs
  all_goals
    cases hs
    exact .of_le le_rfl le_rfl

theorem step_bounds {e : PoolEvent α} (hs : s.step pool e = some s') : Bounds s s' e := by
  cases e with
  | execute n task =>
    simp only [PoolState.step] at hs
    split at hs
    · cases hs
      exact .of_le le_rfl le_rfl
    · cases hs
  | call n => exact executeStep_bounds hs
  | spawns n w =>
    simp only [PoolState.step] at hs
    split at hs
    · cases hs
      exact .of_le le_rfl le_rfl
    · cases hs
  | spawnFails n =>
    simp only [PoolState.step] at hs
    split at hs
    · cases hs
      exact .of_le le_rfl le_rfl
    · cases hs
  | notifies n w =>
    simp only [PoolState.step] at hs
    split at hs
    · split at hs
      · cases hs
        exact .of_le le_rfl le_rfl
      · obtain ⟨-, heq⟩ := Option.ite_none_right_eq_some.mp hs
        cases heq
        exact .of_le le_rfl le_rfl
    · cases hs
  | worker w => exact workerLoopStep_bounds hs
  | timeout w =>
    simp only [PoolState.step] at hs
    obtain ⟨-, heq⟩ := Option.ite_none_right_eq_some.mp hs
    cases heq
    exact .of_le le_rfl le_rfl

/-! ## Runs -/

/-- At its increment a counter is still below its limit. -/
def Checked (pool : ThreadPool) (s : PoolState α) (e : PoolEvent α) : Prop :=
  (s.raisesActive e → s.activeWorkers < pool.maxThreads) ∧
    (s.raisesCount e → s.taskCount < pool.queueCapacity)

/-- The limits on the counters. -/
def Limited (pool : ThreadPool) (s : PoolState α) : Prop :=
  s.activeWorkers ≤ pool.maxThreads ∧ s.taskCount ≤ pool.queueCapacity

theorem Limited.step (h : s.Limited pool) {e : PoolEvent α} (hchecked : Checked pool s e)
    (hs : s.step pool e = some s') : s'.Limited pool := by
  obtain ⟨hactive, hcount⟩ := step_bounds hs
  refine ⟨?_, ?_⟩
  · rcases hactive with hle | ⟨hraises, heq⟩
    · exact le_trans hle h.1
    · have hlt := hchecked.1 hraises
      omega
  · rcases hcount with hle | ⟨hraises, heq⟩
    · exact le_trans hle h.2
    · have hlt := hchecked.2 hraises
      omega

/-- Whoever waits for the condition variable is asleep. -/
def Waiting (s : PoolState α) : Prop := ∀ w ∈ s.cond, s.workers w = .asleep

theorem executeStep_frame (hs : s.executeStep pool n = some s') :
    s'.workers = s.workers ∧ s'.cond = s.cond := by
  unfold PoolState.executeStep at hs
  split at hs
  case h_9 hpc =>
    obtain ⟨-, rfl⟩ := acquire_eq _ _ hs
    exact ⟨rfl, rfl⟩
  case h_11 | h_12 | h_13 | h_14 => cases hs
  all_goals
    cases hs
    exact ⟨rfl, rfl⟩

/-- A worker that does not wait goes on, and may begin to. -/
theorem Waiting.move_worker (h : s.Waiting) {next : WorkerPc α} (hw : s.workers w ≠ .asleep)
    (hworkers : s'.workers = Function.update s.workers w next)
    (hcond : s'.cond = s.cond ∨ s'.cond = s.cond ++ [w] ∧ next = .asleep) : s'.Waiting := by
  have hother : ∀ v ∈ s.cond, s'.workers v = .asleep := fun v hv => by
    have hvw : v ≠ w := fun heq => hw (heq ▸ h v hv)
    rw [hworkers, Function.update_of_ne hvw]
    exact h v hv
  intro v hv
  rcases hcond with hsame | ⟨hadd, hnext⟩
  · rw [hsame] at hv
    exact hother v hv
  · rw [hadd, List.mem_append, List.mem_singleton] at hv
    rcases hv with hold | rfl
    · exact hother v hold
    · rw [hworkers, Function.update_self, hnext]

theorem Waiting.popFor (h : s.Waiting) (hw : s.workers w ≠ .asleep) (found : α → WorkerPc α)
    (empty : WorkerPc α) : (s.popFor w found empty).Waiting := by
  unfold PoolState.popFor
  split
  · exact h.move_worker hw rfl (.inl rfl)
  · exact h.move_worker hw rfl (.inl rfl)

theorem Waiting.workerLoopStep (h : s.Waiting) (hs : s.workerLoopStep pool w = some s') :
    s'.Waiting := by
  unfold PoolState.workerLoopStep at hs
  split at hs
  case h_1 hpc =>
    cases hs
    exact h.popFor (not_asleep hpc rfl) _ _
  case h_4 hpc =>
    cases hs
    exact h.popFor (fun heq => by rw [hpc] at heq; cases heq) _ _
  case h_3 hpc =>
    obtain ⟨-, rfl⟩ := acquire_eq _ _ hs
    exact h.move_worker (not_asleep hpc rfl) rfl (.inl rfl)
  case h_10 timedOut hpc =>
    obtain ⟨-, rfl⟩ := acquire_eq _ _ hs
    exact h.move_worker (not_asleep hpc rfl) rfl (.inl rfl)
  case h_9 hpc =>
    cases hs
    exact h.move_worker (fun heq => by rw [hpc] at heq; cases heq) rfl (.inr ⟨rfl, rfl⟩)
  case h_16 | h_17 | h_18 => cases hs
  all_goals
    rename_i hpc
    cases hs
    exact h.move_worker (not_asleep hpc rfl) rfl (.inl rfl)

theorem Waiting.wake (h : s.Waiting) (w : Nat) (timedOut : Bool) : (s.wake w timedOut).Waiting := by
  intro v hv
  obtain ⟨hin, hne⟩ := List.mem_filter.mp hv
  show Function.update s.workers w _ v = .asleep
  rw [Function.update_of_ne (of_decide_eq_true hne)]
  exact h v hin

theorem Waiting.step (h : s.Waiting) {e : PoolEvent α} (hs : s.step pool e = some s') :
    s'.Waiting := by
  cases e with
  | execute n task =>
    simp only [PoolState.step] at hs
    split at hs
    · cases hs
      exact h
    · cases hs
  | call n =>
    obtain ⟨hworkers, hcond⟩ := executeStep_frame hs
    unfold Waiting
    rw [hworkers, hcond]
    exact h
  | spawns n w =>
    simp only [PoolState.step] at hs
    split at hs
    · rename_i hw
      cases hs
      exact h.move_worker (fun heq => by rw [hw] at heq; cases heq) rfl (.inl rfl)
    · cases hs
  | spawnFails n =>
    simp only [PoolState.step] at hs
    split at hs
    · cases hs
      exact h
    · cases hs
  | notifies n w =>
    simp only [PoolState.step] at hs
    split at hs
    · split at hs
      · cases hs
        exact h
      · obtain ⟨-, heq⟩ := Option.ite_none_right_eq_some.mp hs
        cases heq
        exact h.wake w false
    · cases hs
  | worker w => exact h.workerLoopStep hs
  | timeout w =>
    simp only [PoolState.step] at hs
    obtain ⟨-, heq⟩ := Option.ite_none_right_eq_some.mp hs
    cases heq
    exact h.wake w true

/-- What every step keeps. -/
structure Steady (s : PoolState α) : Prop where
  books : s.Books
  waiting : s.Waiting

/-- The increments of a list of events are all checked. -/
def passes (pool : ThreadPool) (s : PoolState α) : PoolEvent α → Bool
  | .call n =>
      match s.calls n with
      | .addActive _ => decide (s.activeWorkers < pool.maxThreads)
      | .addCount .. => decide (s.taskCount < pool.queueCapacity)
      | _ => true
  | _ => true

/-- The worker has popped the task of a call that has returned. -/
def popped : List (PoolEvent Nat) :=
  [.execute 0 7, .call 0, .call 0, .call 0, .spawns 0 0, .call 0, .call 0, .call 0, .notifies 0 0,
    .call 0, .worker 0]

def narrow : ThreadPool := ⟨0, 1, 1, no_core_le_one⟩

/-- The state after a list of events of the narrow pool. -/
def after (events : List (PoolEvent Nat)) : Option (PoolState Nat) :=
  replay (fun s e => s.step narrow e) (fun _ _ => true) new events

end PoolState

end Veloq.Blocking
