import Veloq.Foundation.Run
import Veloq.Sync.RwLockSteps
set_option autoImplicit false

/-!
# Sync: no lost wakeup in careful runs of the reader-writer lock

Once everything has come to rest nobody is left to come back to the queue, so by the
invariant the queue is empty.  A release that falls between the second look of a future at
the word and its mark on it shows that care is needed.
-/

namespace Veloq.Sync

open Veloq.Foundation

/-- Neither a guard nor the poll or drop of anything. -/
def Pc.resting : Pc → Bool
  | fresh | tryRead _ | pending | gone => true
  | _ => false

namespace RwLock

variable {s s' : RwLock} {f g : Nat} {pc : Pc}

namespace Inv

/-! ## Steps and runs -/

theorem critical {next : RwLock} (hs : s.critical next = some s')
    (hnext : s.queueLock = none → next.Inv) : s'.Inv := by
  unfold RwLock.critical at hs
  split at hs
  · rename_i hfree
    cases hs
    exact hnext hfree
  · exact absurd hs (by simp)

theorem locked (hs : s.lockQueue f pc = some s')
    (hnext : s.queueLock = none → Inv { s.goto f pc with queueLock := some f }) : s'.Inv := by
  unfold RwLock.lockQueue at hs
  split at hs
  · rename_i hfree
    cases hs
    exact hnext hfree
  · exact absurd hs (by simp)

theorem advance (h : s.Inv) (hcare : Careful s (f, .advance)) (hs : s.advance f = some s') :
    s'.Inv := by
  have hcare := hcare rfl
  unfold RwLock.advance at hs
  cases hpc : (s.tasks f).pc <;> simp only [hpc] at hs hcare
  case tryRead seen => cases hs; exact h.tryReadExchange hpc
  case load spins => cases hs; exact h.pollLoad hpc hcare
  case exchange spins seen => cases hs; exact h.pollExchange hpc
  case acquired => exact locked hs (h.enterAcquired hpc)
  case mark => cases hs; exact h.pollMark hpc
  case cascade => cases hs; exact h.pollCascade hpc
  case register spins => cases hs; exact h.pollRegister hpc
  case enter spins => exact locked hs (h.enterQueue hpc)
  case recheck spins => cases hs; exact h.pollRecheck hpc
  case announce => cases hs; exact h.pollAnnounce hpc
  case push => cases hs; exact h.pollPush hpc hcare
  case checkLinked spins => exact critical hs fun _ => h.pollCheckLinked hpc
  case removing => exact critical hs fun hfree => h.dropRemove hpc hfree hcare
  case storing => cases hs; exact h.dropStore hpc
  case popping => exact critical hs (h.dropPop hpc)
  case downgrade seen => cases hs; exact h.downgradeExchange hpc
  case handOver => exact critical hs fun _ => h.downgradeWake hpc
  all_goals exact absurd hs (by simp)

/-- Every careful step keeps the invariant. -/
theorem step (h : s.Inv) {e : Nat × Action} (hcare : Careful s e) (hs : RwStep s e s') :
    s'.Inv := by
  obtain ⟨f, a⟩ := e
  unfold RwStep RwLock.step at hs
  split at hs
  case h_1 hpc _ => cases hs; exact h.tryReadCheck (Or.inl hpc) s.state
  case h_2 hpc _ => cases hs; exact h.tryWrite hpc
  case h_3 hpc _ => cases hs; exact h.create hpc _
  case h_4 hpc _ => cases hs; exact h.poll hpc
  case h_5 hpc _ => cases hs; exact h.dropFuture hpc
  case h_6 hpc _ => cases hs; exact h.dropRead hpc
  case h_7 hpc _ => cases hs; exact h.dropWrite hpc
  case h_8 hpc _ => cases hs; exact h.downgradeLoad (Or.inl hpc)
  case h_9 hpc _ => cases hs; exact h.downgradeLoad (Or.inr ⟨_, hpc⟩)
  case h_10 ha => exact h.advance (ha ▸ hcare) hs
  case h_11 => exact absurd hs (by simp)

theorem initial : Inv RwLock.new := by
  refine ⟨fun g => ⟨fun hin => absurd hin (by simp [RwLock.new, Task.fresh, Pc.inside]), nofun⟩,
    List.nodup_nil, nofun, fun g => ⟨fun _ => ⟨rfl, rfl⟩, fun _ => rfl, nofun, nofun, nofun, nofun⟩,
    fun g => nofun, ⟨Census.zero fun g => nofun, ⟨nofun, nofun⟩, nofun, nofun⟩, fun g => nofun,
    fun hne => absurd rfl hne⟩

end Inv

/-- No guard is held, no poll or drop is in progress, and every future that was woken has
been polled or dropped since. -/
def Quiescent (s : RwLock) : Prop :=
  ∀ g, (s.tasks g).pc.resting = true ∧ (s.tasks g).notified = false

/-- In a quiescent state nobody is left to come back to the queue. -/
theorem Inv.not_covered (h : s.Inv) (hquiet : s.Quiescent) : ¬ s.Covered := by
  have hfree : ∀ g, (s.tasks g).holdsRead = false ∧ (s.tasks g).holdsWrite = false ∧
      (s.tasks g).pc.releasing = false ∧ (s.tasks g).pc.acquiring = false := by
    intro g
    have hrest := (hquiet g).1
    unfold Task.holdsRead Task.holdsWrite
    revert hrest
    cases (s.tasks g).pc <;> simp [Pc.resting, Pc.releasing, Pc.acquiring]
  rintro (⟨hwriter | hreaders, -⟩ | ⟨g, hg⟩)
  · obtain ⟨g, hg⟩ := h.holders.writer.mp hwriter
    rw [(hfree g).2.1] at hg
    exact absurd hg (by simp)
  · obtain ⟨g, hg⟩ := h.holders.readers.exists_of_pos hreaders
    rw [(hfree g).1] at hg
    exact absurd hg (by simp)
  · obtain ⟨-, -, hreleasing, hacquiring⟩ := hfree g
    obtain ⟨hrest, hnotified⟩ := hquiet g
    have hidle := (h.flags g).idle
    have hpending := (h.flags g).pending
    have halarmed := h.alarmed g
    rcases hg with hg | hg | hg
    · rw [hreleasing] at hg
      exact absurd hg (by simp)
    · rw [hacquiring] at hg
      exact absurd hg (by simp)
    · -- a future that a release has unlinked is still to be polled
      by_cases hpc : (s.tasks g).pc = .pending
      · rcases hg with ⟨hqueued, hnot⟩ | ⟨hwoken, hqueued⟩
        · rcases halarmed hpc hqueued with hn | ⟨-, hmem⟩
          · rw [hnotified] at hn
            exact absurd hn (by simp)
          · exact hnot hmem
        · rw [hpending hpc hwoken] at hqueued
          exact absurd hqueued (by simp)
      · have hidle' : (s.tasks g).pc.idle = true := by
          revert hrest hpc
          cases (s.tasks g).pc <;> simp [Pc.resting, Pc.idle]
        obtain ⟨hqueued, hwoken⟩ := hidle hidle'
        unfold Awake at hg
        rw [hqueued, hwoken] at hg
        exact absurd hg (by simp)

end RwLock

/-- In careful runs of the reader-writer lock no future is left in the queue once
everything has come to rest. -/
theorem rwlock_no_lost_wakeup {s : RwLock} (h : Run RwStep RwLock.Careful (fun s => s = .new) s)
    (hquiet : s.Quiescent) : s.waiters = [] := by
  have hinv : s.Inv := by
    refine h.invariant ?_ fun _ _ _ hinv hcare hs => hinv.step hcare hs
    rintro _ rfl
    exact RwLock.Inv.initial
  by_contra hne
  exact hinv.not_covered hquiet (hinv.covered hne)

/-! ## Two runs -/

namespace RwLock

variable {s s' : RwLock} {f g : Nat}

/-- A step changes another task only by waking it. -/
theorem advance_others (hs : s.advance f = some s') (hne : g ≠ f) :
    (s.tasks g).Woken (s'.tasks g) := by
  have hset : ∀ (c : RwLock) (t : Task), (c.setTask f t).tasks g = c.tasks g :=
    fun _ _ => setTask_of_ne hne
  have hsame : (s.tasks g).Woken (s.tasks g) := Or.inl rfl
  have hfirst := wakeFirstReader_frame s g
  unfold advance at hs
  cases hpc : (s.tasks f).pc <;> simp only [hpc, lockQueue, critical] at hs
  case popping =>
    split at hs
    · cases hs
      unfold dropPop finish
      split
      · exact Or.inl (hset ..)
      · rw [hset]
        exact wake_woken (s := { s with waiters := _ }) _ g
    · exact absurd hs (by simp)
  case fresh | pending | reading | writing | gone => exact absurd hs (by simp)
  all_goals
    simp only [tryReadExchange, tryReadCheck, pollLoad, pollExchange, pollMark, pollCascade,
      pollRegister, pollRecheck, pollAnnounce, pollPush, pollCheckLinked, dropRemove, dropStore,
      downgradeExchange, downgradeWake, ready, goto, finish] at hs
    repeat' split at hs
  all_goals
    cases hs <;> simp only [hset] <;> first | exact hsame | exact hfirst

theorem step_others {a : Action} (hs : s.step (f, a) = some s') (hne : g ≠ f) :
    (s.tasks g).Woken (s'.tasks g) := by
  have hset : ∀ (c : RwLock) (t : Task), (c.setTask f t).tasks g = c.tasks g :=
    fun _ _ => setTask_of_ne hne
  unfold step at hs
  split at hs
  case h_10 => exact advance_others hs hne
  case h_11 => exact absurd hs (by simp)
  all_goals
    cases hs
    simp only [tryReadCheck, tryWrite, create, poll, dropFuture, dropRead, dropWrite, goto, finish]
    repeat' split
  all_goals exact Or.inl (hset ..)

/-- A task that takes no step does not begin. -/
theorem fresh_of_step {e : Nat × Action} (hs : s.step e = some s') (hne : e.1 ≠ g)
    (hfresh : s.tasks g = .fresh) : s'.tasks g = .fresh := by
  rcases step_others hs (Ne.symm hne) with heq | ⟨hregistered, -⟩
  · exact heq.trans hfresh
  · rw [hfresh] at hregistered
    exact absurd hregistered (by simp [Task.fresh])

/-- After a run of the first `n` tasks it is enough to look at these. -/
theorem quiescent_of_replay {test : RwLock → Nat × Action → Bool} {es : List (Nat × Action)}
    {n : Nat} (h : replay step test RwLock.new es = some s) (hes : ∀ e ∈ es, e.1 < n)
    (hfirst : ∀ g < n, (s.tasks g).pc.resting = true ∧ (s.tasks g).notified = false) :
    s.Quiescent := by
  intro g
  by_cases hg : g < n
  · exact hfirst g hg
  · have hfresh : s.tasks g = .fresh := by
      refine replay_invariant (p := fun s => s.tasks g = .fresh)
        (fun e he s s' hinv hs => fresh_of_step hs ?_ hinv) rfl h
      exact fun heq => hg (heq ▸ hes e he)
    rw [hfresh]
    exact ⟨rfl, rfl⟩

/-- A test for careful steps. -/
def carefulTest (s : RwLock) (e : Nat × Action) : Bool :=
  match (s.tasks e.1).pc with
  | .load _ => !decide (Overflows (s.tasks e.1) s.state)
  | .push => s.state.writer
  | .removing => decide (e.1 ∈ s.waiters)
  | _ => true

theorem careful_of_test (s : RwLock) (e : Nat × Action) (h : carefulTest s e = true) :
    Careful s e := by
  intro _
  unfold carefulTest at h
  cases hpc : (s.tasks e.1).pc <;> simp only [hpc] at h ⊢
  case load => simpa using h
  case push => exact Or.inl (Or.inl h)
  case removing => exact Or.inl (of_decide_eq_true h)

end RwLock

/-- A writer holds the lock while a reader queues up; the drop of the guard wakes the
reader, which gets the lock and releases it. -/
def handedOn : List (Nat × Action) :=
  ([(0, .tryWrite), (1, .create .reader), (1, .poll)] : List (Nat × Action)) ++
    List.replicate 106 (1, .advance) ++
    ([(0, .dropGuard), (0, .advance), (0, .advance), (1, .poll)] : List (Nat × Action)) ++
    List.replicate 5 (1, .advance) ++ ([(1, .dropGuard)] : List (Nat × Action))

def handedOnLock : RwLock :=
  (replay RwLock.step RwLock.carefulTest RwLock.new handedOn).get (by decide +kernel)

theorem rwlock_handed_on :
    Run RwStep RwLock.Careful (fun s => s = .new) handedOnLock ∧ handedOnLock.Quiescent ∧
      handedOnLock.waiters = [] := by
  have hreplay : replay RwLock.step RwLock.carefulTest RwLock.new handedOn = some handedOnLock :=
    (Option.some_get _).symm
  have hstart : Run RwStep RwLock.Careful (fun s => s = .new) RwLock.new := Run.start rfl
  have hrun := hstart.replay (fun _ _ _ h => h) RwLock.careful_of_test hreplay
  have hquiet := RwLock.quiescent_of_replay (n := 2) hreplay (by decide +kernel) (by decide +kernel)
  exact ⟨hrun, hquiet, rwlock_no_lost_wakeup hrun hquiet⟩

/-- A writer queues up while another one releases the lock between the second look at the
word and the setting of `CONTENDED`. -/
def overtaken : List (Nat × Action) :=
  ([(0, .tryWrite), (1, .create .writer), (1, .poll)] : List (Nat × Action)) ++
    List.replicate 104 (1, .advance) ++
    ([(0, .dropGuard), (1, .advance), (1, .advance)] : List (Nat × Action))

def overtakenLock : RwLock :=
  (replay RwLock.step (fun _ _ => true) RwLock.new overtaken).get (by decide +kernel)

theorem rwlock_loses_wakeup :
    Run RwStep Always (fun s => s = .new) overtakenLock ∧ overtakenLock.Quiescent ∧
      overtakenLock.waiters = [1] := by
  have hreplay : replay RwLock.step (fun _ _ => true) RwLock.new overtaken = some overtakenLock :=
    (Option.some_get _).symm
  have hstart : Run RwStep Always (fun s => s = .new) RwLock.new := Run.start rfl
  exact ⟨hstart.replay (fun _ _ _ h => h) (fun _ _ _ => trivial) hreplay,
    RwLock.quiescent_of_replay (n := 2) hreplay (by decide +kernel) (by decide +kernel),
    by decide +kernel⟩

end Veloq.Sync
