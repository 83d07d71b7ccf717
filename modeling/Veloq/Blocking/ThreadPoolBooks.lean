import Veloq.Blocking.ThreadPool
set_option autoImplicit false

/-!
# Blocking: what the counters of the thread pool count

`idle_workers` counts the workers between its increment and its decrement.  `active_workers`
counts the threads that exist and the calls that have announced one.  `task_count` counts the
queue, the tasks that a call is about to push and the tasks that a worker has popped and not
yet counted off.
-/

namespace Veloq.Blocking

open Veloq.Foundation

variable {α : Type}

namespace PoolState

variable {pool : ThreadPool} {s s' : PoolState α} {n w : Nat} {pc : ExecutePc α} {next : WorkerPc α}

theorem setCall_self (s : PoolState α) (n : Nat) (pc : ExecutePc α) : (s.setCall n pc).calls n = pc :=
  Function.update_self ..

theorem setWorker_self (s : PoolState α) (w : Nat) (next : WorkerPc α) :
    (s.setWorker w next).workers w = next :=
  Function.update_self ..

theorem acquire_eq (s : PoolState α) (party : Party) (h : s.acquire party = some s') :
    s.sleeperLock = none ∧ s' = { s with sleeperLock := some party } := by
  unfold acquire at h
  split at h
  · rename_i hfree
    exact ⟨hfree, (Option.some.inj h).symm⟩
  · cases h

/-! ## The counters -/

/-- The counters of a state, and whom they count. -/
structure Counted (s : PoolState α) (threads starts pushes pops : Nat) : Prop where
  idle : Census (fun w => (s.workers w).idle = true) s.idleWorkers
  live : Census (fun w => (s.workers w).live = true) threads
  starting : Census (fun n => (s.calls n).starting = true) starts
  announced : Census (fun n => (s.calls n).announced = true) pushes
  counting : Census (fun w => (s.workers w).counting = true) pops
  activeWorkers : s.activeWorkers = threads + starts
  taskCount : s.taskCount = s.queue.length + pushes + pops

def Books (s : PoolState α) : Prop :=
  ∃ threads starts pushes pops, s.Counted threads starts pushes pops

theorem Books.new : (PoolState.new : PoolState α).Books :=
  ⟨0, 0, 0, 0, Census.zero fun _ => Bool.false_ne_true, Census.zero fun _ => Bool.false_ne_true,
    Census.zero fun _ => Bool.false_ne_true, Census.zero fun _ => Bool.false_ne_true,
    Census.zero fun _ => Bool.false_ne_true, rfl, rfl⟩

/-- A call moves, and the counters with it. -/
theorem Books.call (h : s.Books) (n : Nat) (pc : ExecutePc α)
    (hcalls : s'.calls = Function.update s.calls n pc) (hworkers : s'.workers = s.workers)
    (hidle : s'.idleWorkers = s.idleWorkers)
    (hactive : s'.activeWorkers + (s.calls n).starting.toNat =
      s.activeWorkers + pc.starting.toNat)
    (hcount : s'.taskCount + s.queue.length + (s.calls n).announced.toNat =
      s.taskCount + s'.queue.length + pc.announced.toNat) : s'.Books := by
  obtain ⟨live, starting, announced, counting, h⟩ := h
  obtain ⟨starting', hstarting, hs⟩ := h.starting.update n pc
  obtain ⟨announced', hannounced, ha⟩ := h.announced.update n pc
  have h1 := h.activeWorkers
  have h2 := h.taskCount
  refine ⟨live, starting', announced', counting, ?_, ?_, ?_, ?_, ?_, by omega, by omega⟩
  · rw [hworkers, hidle]
    exact h.idle
  · rw [hworkers]
    exact h.live
  · rw [hcalls]
    exact hstarting
  · rw [hcalls]
    exact hannounced
  · rw [hworkers]
    exact h.counting

/-- A worker moves, and the counters with it. -/
theorem Books.worker (h : s.Books) (w : Nat) (next : WorkerPc α)
    (hworkers : s'.workers = Function.update s.workers w next) (hcalls : s'.calls = s.calls)
    (hidle : s'.idleWorkers + (s.workers w).idle.toNat = s.idleWorkers + next.idle.toNat)
    (hactive : s'.activeWorkers + (s.workers w).live.toNat = s.activeWorkers + next.live.toNat)
    (hcount : s'.taskCount + s.queue.length + (s.workers w).counting.toNat =
      s.taskCount + s'.queue.length + next.counting.toNat) : s'.Books := by
  obtain ⟨live, starting, announced, counting, h⟩ := h
  obtain ⟨idle', hidle', hi⟩ := h.idle.update w next
  obtain ⟨live', hlive, hl⟩ := h.live.update w next
  obtain ⟨counting', hcounting, hc⟩ := h.counting.update w next
  have h1 := h.activeWorkers
  have h2 := h.taskCount
  have h3 : s'.idleWorkers = idle' := by omega
  refine ⟨live', starting, announced, counting', ?_, ?_, ?_, ?_, ?_, by omega, by omega⟩
  · rw [hworkers, h3]
    exact hidle'
  · rw [hworkers]
    exact hlive
  · rw [hcalls]
    exact h.starting
  · rw [hcalls]
    exact h.announced
  · rw [hworkers]
    exact hcounting

theorem Books.idle_pos (h : s.Books) (hw : (s.workers w).idle = true) : 0 < s.idleWorkers := by
  obtain ⟨_, _, _, _, h⟩ := h
  exact h.idle.pos hw

theorem Books.active_pos (h : s.Books)
    (hsome : (s.workers w).live = true ∨ (s.calls n).starting = true) : 0 < s.activeWorkers := by
  obtain ⟨live, starting, _, _, h⟩ := h
  rw [h.activeWorkers]
  rcases hsome with hw | hn
  · have hpos := h.live.pos hw
    omega
  · have hpos := h.starting.pos hn
    omega

/-- The decrement of `task_count` finds the task there. -/
theorem Books.count_pos (h : s.Books) (hw : (s.workers w).counting = true) : 0 < s.taskCount := by
  obtain ⟨_, _, _, _, h⟩ := h
  have hpos := h.counting.pos hw
  have hcount := h.taskCount
  omega

/-- An idle counter above 0 has a worker behind it. -/
theorem Books.exists_idle (h : s.Books) (hpos : 0 < s.idleWorkers) :
    ∃ w, (s.workers w).idle = true := by
  obtain ⟨_, _, _, _, h⟩ := h
  exact h.idle.exists_of_pos hpos

/-- So has the counter of workers, or a call that is about to start one. -/
theorem Books.exists_active (h : s.Books) (hpos : 0 < s.activeWorkers) :
    (∃ w, (s.workers w).live = true) ∨ ∃ n, (s.calls n).starting = true := by
  obtain ⟨live, starting, _, _, h⟩ := h
  rw [h.activeWorkers] at hpos
  by_cases hlive : 0 < live
  · exact .inl (h.live.exists_of_pos hlive)
  · exact .inr (h.starting.exists_of_pos (by omega))

/-! ## Its steps -/

theorem Books.executeStep (h : s.Books) (hs : s.executeStep pool n = some s') : s'.Books := by
  unfold PoolState.executeStep at hs
  split at hs
  case h_1 task hpc =>
    cases hs
    refine h.call n _ rfl rfl rfl ?_ ?_ <;> rw [hpc] <;> split <;> rfl
  case h_2 task hpc =>
    cases hs
    refine h.call n _ rfl rfl rfl ?_ ?_ <;> rw [hpc] <;> split <;> rfl
  case h_3 task hpc =>
    cases hs
    refine h.call n _ rfl rfl rfl ?_ ?_ <;> rw [hpc] <;> rfl
  case h_4 task hpc =>
    cases hs
    have hstarting : (s.calls n).starting = true := by rw [hpc]; rfl
    have hpos := h.active_pos (w := 0) (.inr hstarting)
    refine h.call n (.loadCount task) rfl rfl rfl ?_ (by rw [hpc]; rfl)
    rw [hstarting]
    exact Nat.sub_add_cancel hpos
  case h_5 task hpc =>
    cases hs
    refine h.call n _ rfl rfl rfl ?_ ?_ <;> rw [hpc] <;> split <;> rfl
  case h_6 on task hpc =>
    cases hs
    refine h.call n (.push on task) rfl rfl rfl (by rw [hpc]; rfl) ?_
    rw [hpc]
    show s.taskCount + 1 + s.queue.length + 0 = s.taskCount + s.queue.length + 1
    omega
  case h_7 on task hpc =>
    cases hs
    refine h.call n _ rfl rfl rfl ?_ ?_
    · rw [hpc]
      split <;> rfl
    · have hlength : (s.queue ++ [task]).length = s.queue.length + 1 := List.length_append
      rw [hpc, hlength]
      split
      · show s.taskCount + s.queue.length + 1 = s.taskCount + (s.queue.length + 1) + 0
        omega
      · show s.taskCount + s.queue.length + 1 = s.taskCount + (s.queue.length + 1) + 0
        omega
  case h_8 hpc =>
    cases hs
    refine h.call n _ rfl rfl rfl ?_ ?_ <;> rw [hpc] <;> split <;> rfl
  case h_9 hpc =>
    obtain ⟨-, rfl⟩ := acquire_eq _ _ hs
    refine h.call n _ rfl rfl rfl ?_ ?_ <;> rw [hpc] <;> rfl
  case h_10 hpc =>
    cases hs
    refine h.call n _ rfl rfl rfl ?_ ?_ <;> rw [hpc] <;> rfl
  all_goals cases hs

theorem Books.popFor (h : s.Books) {found : α → WorkerPc α} {empty : WorkerPc α}
    (hempty : empty.idle = (s.workers w).idle ∧ empty.live = (s.workers w).live ∧
      empty.counting = false)
    (hfound : ∀ task, (found task).idle = (s.workers w).idle ∧
      (found task).live = (s.workers w).live ∧ (found task).counting = true)
    (hw : (s.workers w).counting = false) : (s.popFor w found empty).Books := by
  unfold PoolState.popFor
  split
  · refine h.worker w empty rfl rfl ?_ ?_ ?_
    · rw [hempty.1]
      rfl
    · rw [hempty.2.1]
      rfl
    · rw [hempty.2.2, hw]
      rfl
  · rename_i task rest hqueue
    refine h.worker w (found task) rfl rfl ?_ ?_ ?_
    · rw [(hfound task).1]
      rfl
    · rw [(hfound task).2.1]
      rfl
    · rw [(hfound task).2.2, hw, hqueue]
      rfl

theorem Books.workerLoopStep (h : s.Books) (hs : s.workerLoopStep pool w = some s') :
    s'.Books := by
  unfold PoolState.workerLoopStep at hs
  split at hs
  case h_1 hpc =>
    cases hs
    exact h.popFor (by rw [hpc]; exact ⟨rfl, rfl, rfl⟩)
      (fun _ => by rw [hpc]; exact ⟨rfl, rfl, rfl⟩) (by rw [hpc]; rfl)
  case h_2 hpc =>
    cases hs
    refine h.worker w _ rfl rfl ?_ ?_ ?_ <;> rw [hpc] <;> rfl
  case h_3 hpc =>
    obtain ⟨-, rfl⟩ := acquire_eq _ _ hs
    refine h.worker w _ rfl rfl ?_ ?_ ?_ <;> rw [hpc] <;> rfl
  case h_4 hpc =>
    cases hs
    exact h.popFor (by rw [hpc]; exact ⟨rfl, rfl, rfl⟩)
      (fun _ => by rw [hpc]; exact ⟨rfl, rfl, rfl⟩) (by rw [hpc]; rfl)
  case h_5 task hpc =>
    cases hs
    refine h.worker w _ rfl rfl ?_ ?_ ?_ <;> rw [hpc] <;> rfl
  case h_6 task hpc =>
    cases hs
    have hidle : (s.workers w).idle = true := by rw [hpc]; rfl
    refine h.worker w (.subCount task) rfl rfl ?_ ?_ ?_
    · rw [hidle]
      exact Nat.sub_add_cancel (h.idle_pos hidle)
    · rw [hpc]
      rfl
    · rw [hpc]
      rfl
  case h_7 task hpc =>
    cases hs
    have hcounting : (s.workers w).counting = true := by rw [hpc]; rfl
    have hpos := h.count_pos hcounting
    refine h.worker w (.run task) rfl rfl (by rw [hpc]; rfl) (by rw [hpc]; rfl) ?_
    rw [hcounting]
    show s.taskCount - 1 + s.queue.length + 1 = s.taskCount + s.queue.length + 0
    omega
  case h_8 task hpc =>
    cases hs
    refine h.worker w _ rfl rfl ?_ ?_ ?_ <;> rw [hpc] <;> rfl
  case h_9 hpc =>
    cases hs
    refine h.worker w _ rfl rfl ?_ ?_ ?_ <;> rw [hpc] <;> rfl
  case h_10 timedOut hpc =>
    obtain ⟨-, rfl⟩ := acquire_eq _ _ hs
    refine h.worker w _ rfl rfl ?_ ?_ ?_ <;> rw [hpc] <;> rfl
  case h_11 timedOut hpc =>
    cases hs
    refine h.worker w _ rfl rfl ?_ ?_ ?_ <;> rw [hpc] <;> rfl
  case h_12 timedOut hpc =>
    cases hs
    have hidle : (s.workers w).idle = true := by rw [hpc]; rfl
    have hpos := h.idle_pos hidle
    refine h.worker w (if timedOut then .checkEmpty else .pop) rfl rfl ?_ ?_ ?_
    · rw [hidle]
      cases timedOut with
      | false => exact Nat.sub_add_cancel hpos
      | true => exact Nat.sub_add_cancel hpos
    · rw [hpc]
      cases timedOut <;> rfl
    · rw [hpc]
      cases timedOut <;> rfl
  case h_13 hpc =>
    cases hs
    refine h.worker w _ rfl rfl ?_ ?_ ?_ <;> rw [hpc] <;> split <;> rfl
  case h_14 hpc =>
    cases hs
    refine h.worker w _ rfl rfl ?_ ?_ ?_ <;> rw [hpc] <;> split <;> rfl
  case h_15 hpc =>
    cases hs
    have hlive : (s.workers w).live = true := by rw [hpc]; rfl
    refine h.worker w .gone rfl rfl (by rw [hpc]; rfl) ?_ (by rw [hpc]; rfl)
    rw [hlive]
    exact Nat.sub_add_cancel (h.active_pos (n := 0) (.inl hlive))
  all_goals cases hs

theorem Books.wake (h : s.Books) (hw : s.workers w = .asleep) (timedOut : Bool) :
    (s.wake w timedOut).Books := by
  refine h.worker w (.relock timedOut) rfl rfl ?_ ?_ ?_ <;> rw [hw] <;> rfl

/-- A thread is created: it is counted already, for the call. -/
theorem Books.spawns (h : s.Books) {task : α} (hn : s.calls n = .spawn task)
    (hw : s.workers w = .absent) :
    ((s.setCall n (.addCount .spawned task)).setWorker w .pop).Books := by
  have hstarting : (s.calls n).starting = true := by rw [hn]; rfl
  have hpos := h.active_pos (w := 0) (.inr hstarting)
  have hcall : Books { s.setCall n (.addCount .spawned task) with
      activeWorkers := s.activeWorkers - 1 } := by
    refine h.call n (.addCount .spawned task) rfl rfl rfl ?_ (by rw [hn]; rfl)
    rw [hstarting]
    exact Nat.sub_add_cancel hpos
  refine hcall.worker w .pop rfl rfl ?_ ?_ ?_
  · show s.idleWorkers + (s.workers w).idle.toNat = s.idleWorkers
    rw [hw]
    rfl
  · show s.activeWorkers + (s.workers w).live.toNat = s.activeWorkers - 1 + 1
    rw [hw]
    exact (Nat.sub_add_cancel hpos).symm
  · show s.taskCount + s.queue.length + (s.workers w).counting.toNat = _
    rw [hw]
    rfl

theorem Books.step (h : s.Books) (hcond : ∀ w, w ∈ s.cond → s.workers w = .asleep)
    {e : PoolEvent α} (hs : s.step pool e = some s') : s'.Books := by
  cases e with
  | execute n task =>
    simp only [PoolState.step] at hs
    split at hs
    · rename_i hpc
      cases hs
      refine h.call n (.loadIdle task) rfl rfl rfl ?_ ?_ <;> rw [hpc] <;> rfl
    · cases hs
  | call n => exact h.executeStep hs
  | spawns n w =>
    simp only [PoolState.step] at hs
    split at hs
    · rename_i task hn hw
      cases hs
      exact h.spawns hn hw
    · cases hs
  | spawnFails n =>
    simp only [PoolState.step] at hs
    split at hs
    · rename_i task hpc
      cases hs
      refine h.call n (.subActive task) rfl rfl rfl ?_ ?_ <;> rw [hpc] <;> rfl
    · cases hs
  | notifies n w =>
    simp only [PoolState.step] at hs
    split at hs
    · rename_i hpc
      split at hs
      · cases hs
        refine h.call n .unlock rfl rfl rfl ?_ ?_ <;> rw [hpc] <;> rfl
      · obtain ⟨hw, heq⟩ := Option.ite_none_right_eq_some.mp hs
        rw [← Option.some.inj heq]
        refine (h.wake (hcond w hw) false).call n .unlock rfl rfl rfl ?_ ?_
        · show _ + (s.calls n).starting.toNat = _
          rw [hpc]
          rfl
        · show _ + (s.calls n).announced.toNat = _
          rw [hpc]
          rfl
    · cases hs
  | worker w => exact h.workerLoopStep hs
  | timeout w =>
    simp only [PoolState.step] at hs
    obtain ⟨hw, heq⟩ := Option.ite_none_right_eq_some.mp hs
    rw [← Option.some.inj heq]
    exact h.wake (hcond w hw) true

end PoolState

end Veloq.Blocking
