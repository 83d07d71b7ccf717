import Veloq.Sync.MutexRuns
import Veloq.Sync.RwLockRuns
set_option autoImplicit false

/-!
# Sync: the asynchronous locks exclude

This holds in every run, with or without care for the waiters.  A guard counts from the
exchange that acquires it to the operation in its drop that gives the lock up, so that the
holders of a lock are the same before and after every other step.
-/

namespace Veloq.Sync

open Veloq.Foundation

/-! ## The mutex -/

namespace Mutex

/-- The state says that the mutex is held, and one task holds it at most. -/
structure Guarded (s : Mutex) : Prop where
  holder : ∀ g, (s.tasks g).pc.holds = true → s.state ≠ .unlocked
  unique : ∀ g g', (s.tasks g).pc.holds = true → (s.tasks g').pc.holds = true → g = g'

/-- What a step does to the state, and whether its task held the mutex `before` and
`after`. -/
inductive Effect (before after : Bool) (state state' : LockState) : Prop where
  | same : after = before → (state ≠ .unlocked → state' ≠ .unlocked) → Effect before after state state'
  | acquire : after = true → state = .unlocked → state' ≠ .unlocked → Effect before after state state'
  | release : before = true → after = false → Effect before after state state'

variable {s s' : Mutex} {f : Nat}

theorem wake_state (s : Mutex) (g : Nat) : (s.wake g).state = s.state := by
  unfold wake
  split <;> rfl

theorem advance_effect (hs : s.advance f = some s') :
    Effect (s.tasks f).pc.holds (s'.tasks f).pc.holds s.state s'.state := by
  unfold advance at hs
  cases hpc : (s.tasks f).pc <;> simp only [hpc] at hs
  case exchange =>
    cases hs
    unfold pollExchange
    split
    · rename_i hfree
      split
      · exact .acquire (by simp [goto, MutexPc.holds]) hfree (by simp)
      · exact .acquire (by simp [ready, MutexPc.holds]) hfree (by simp)
    · exact .same (by simp [goto, MutexPc.holds]) id
  case demote =>
    cases hs
    refine .same (by simp [pollDemote, ready, MutexPc.holds]) fun hheld => ?_
    unfold pollDemote
    simp only
    split
    · simp
    · exact hheld
  case promote =>
    cases hs
    unfold pollPromote
    split
    · simp only
      split <;> exact .same (by simp [goto, MutexPc.holds]) (by simp [goto, setTask])
    · exact .same (by simp [goto, MutexPc.holds]) id
  case storing =>
    cases hs
    exact .release rfl (by simp [dropStore, goto, MutexPc.holds])
  case acquired | enter =>
    unfold lockList at hs
    split at hs
    · cases hs
      exact .same (by simp [goto, MutexPc.holds]) id
    · exact absurd hs (by simp)
  case checkLinked =>
    unfold critical at hs
    split at hs
    · cases hs
      unfold pollCheckLinked
      split <;> exact .same (by simp [goto, MutexPc.holds]) id
    · exact absurd hs (by simp)
  case removing =>
    unfold critical at hs
    split at hs
    · cases hs
      exact .same (by simp [dropRemove, finish, MutexPc.holds]) id
    · exact absurd hs (by simp)
  case popping =>
    unfold critical at hs
    split at hs
    · cases hs
      unfold dropPop
      split
      · exact .same (by simp [finish, MutexPc.holds]) id
      · refine .same (by simp [finish, MutexPc.holds]) fun hheld => ?_
        rw [show (Mutex.finish _ f).state = _ from wake_state ..]
        exact hheld
    · exact absurd hs (by simp)
  case load =>
    cases hs
    unfold pollLoad
    split
    · exact .same (by simp [goto, MutexPc.holds]) id
    · split <;> exact .same (by simp [goto, MutexPc.holds]) id
    · split <;> exact .same (by simp [goto, MutexPc.holds]) id
  case spin =>
    cases hs
    unfold pollSpin
    split <;> exact .same (by simp [goto, MutexPc.holds]) id
  case afterSpin =>
    cases hs
    unfold pollAfterSpin
    split
    · exact .same (by simp [goto, MutexPc.holds]) id
    · split <;> exact .same (by simp [goto, MutexPc.holds]) id
  case recheck =>
    cases hs
    unfold pollRecheck
    split <;> exact .same (by simp [goto, MutexPc.holds]) id
  case push =>
    cases hs
    exact .same (by simp [pollPush, MutexPc.holds]) id
  case rearm linked =>
    cases hs
    exact .same (by cases linked <;> simp [pollRearm, MutexPc.holds]) id
  all_goals exact absurd hs (by simp)

theorem step_effect {a : MutexAction} (hs : s.step (f, a) = some s') :
    Effect (s.tasks f).pc.holds (s'.tasks f).pc.holds s.state s'.state := by
  unfold step at hs
  split at hs
  case h_1 hpc _ =>
    cases hs
    rw [hpc]
    unfold tryLock
    split
    · rename_i hfree
      exact .acquire (by simp [goto, MutexPc.holds]) hfree (by simp)
    · exact .same (by simp [finish, MutexPc.holds]) id
  case h_2 hpc _ =>
    cases hs
    rw [hpc]
    exact .same (by simp [lock, MutexPc.holds]) id
  case h_3 hpc _ =>
    cases hs
    rw [hpc]
    exact .same (by simp [poll, MutexPc.holds]) id
  case h_4 hpc _ =>
    cases hs
    rw [hpc]
    unfold dropFuture
    split <;> exact .same (by simp [goto, finish, MutexPc.holds]) id
  case h_5 hpc _ =>
    cases hs
    rw [hpc]
    unfold dropGuard
    split
    · exact .release rfl (by simp [finish, MutexPc.holds])
    · exact .same (by simp [goto, MutexPc.holds]) id
  case h_6 => exact advance_effect hs
  case h_7 => exact absurd hs (by simp)

theorem Guarded.step (h : s.Guarded) {e : Nat × MutexAction} (hs : MutexStep s e s') :
    s'.Guarded := by
  obtain ⟨f, a⟩ := e
  have hpc : ∀ g, g ≠ f → (s'.tasks g).pc = (s.tasks g).pc := fun g hne =>
    (step_others hs hne).pc
  have heffect := step_effect hs
  -- while `f` does not hold the mutex afterwards or nobody did before, nobody else comes in
  have hother : ∀ g, g ≠ f → (s'.tasks g).pc.holds = true →
      (s'.tasks f).pc.holds = false ∧ s'.state ≠ .unlocked := by
    intro g hne hg
    rw [hpc g hne] at hg
    have hf : (s.tasks f).pc.holds = false := Bool.eq_false_iff.mpr fun hf => hne (h.unique g f hg hf)
    rcases heffect with ⟨hsame, hstate⟩ | ⟨-, hfree, -⟩ | ⟨hbefore, -⟩
    · exact ⟨hsame.trans hf, hstate (h.holder g hg)⟩
    · exact absurd hfree (h.holder g hg)
    · rw [hf] at hbefore
      exact absurd hbefore Bool.false_ne_true
  have hself : (s'.tasks f).pc.holds = true → s'.state ≠ .unlocked := by
    intro hf
    rcases heffect with ⟨hsame, hstate⟩ | ⟨-, -, hheld⟩ | ⟨-, hafter⟩
    · exact hstate (h.holder f (hsame.symm.trans hf))
    · exact hheld
    · rw [hf] at hafter
      exact absurd hafter.symm Bool.false_ne_true
  have honly : ∀ g, g ≠ f → (s'.tasks g).pc.holds = true → (s'.tasks f).pc.holds ≠ true := by
    intro g hne hg hf
    rw [(hother g hne hg).1] at hf
    exact Bool.false_ne_true hf
  refine ⟨fun g hg => ?_, fun g g' hg hg' => ?_⟩
  · by_cases hne : g = f
    · exact hself (hne ▸ hg)
    · exact (hother g hne hg).2
  · by_cases hne : g = f
    · by_cases hne' : g' = f
      · rw [hne, hne']
      · exact absurd (hne ▸ hg) (honly g' hne' hg')
    · by_cases hne' : g' = f
      · exact absurd (hne' ▸ hg') (honly g hne hg)
      · rw [hpc g hne] at hg
        rw [hpc g' hne'] at hg'
        exact h.unique g g' hg hg'

theorem Guarded.initial : Guarded Mutex.new :=
  ⟨fun _ hg => absurd hg Bool.false_ne_true, fun _ _ hg => absurd hg Bool.false_ne_true⟩

end Mutex

/-! ## The reader-writer lock -/

/-- What a task knows about the word that it is going to exchange. -/
def Task.Prepared (t : Task) : Prop :=
  match t.pc with
  | .tryRead seen => seen.writer = false ∧ seen.readers ≠ maxReaders
  | .exchange _ seen => RwLock.mayAcquire t seen = true ∧ ¬ RwLock.Overflows t seen
  | _ => True

theorem Task.Woken.prepared {t t' : Task} (h : t.Woken t') (hprepared : t.Prepared) :
    t'.Prepared := by
  rcases h with rfl | ⟨-, rfl⟩
  · exact hprepared
  · exact hprepared

namespace RwLock

/-- What a step does to the word and to what its task holds. -/
inductive Effect (t t' : Task) (w w' : Word) : Prop where
  | same : t'.holdsRead = t.holdsRead → t'.holdsWrite = t.holdsWrite → w'.readers = w.readers →
      w'.writer = w.writer → Effect t t' w w'
  | beginRead : t.holdsRead = false → t'.holdsRead = true → t'.holdsWrite = false →
      w.writer = false → w.readers ≠ maxReaders → w'.writer = false →
      w'.readers = w.readers + 1 → Effect t t' w w'
  | beginWrite : t'.holdsWrite = true → t'.holdsRead = false → w.writer = false → w.readers = 0 →
      w'.writer = true → w'.readers = 0 → Effect t t' w w'
  | endRead : t.holdsRead = true → t'.holdsRead = false → t'.holdsWrite = false →
      w'.writer = w.writer → w'.readers = w.readers - 1 → Effect t t' w w'
  | endWrite : t.holdsWrite = true → t'.holdsWrite = false → w'.writer = false →
      (w'.readers = if t'.holdsRead then 1 else 0) → Effect t t' w w'

variable {s s' : RwLock} {f : Nat} {t : Task} {seen w : Word}

/-- A step of a task that holds nothing before or after, and leaves the word alone. -/
theorem Effect.idle (hread : (s.tasks f).holdsRead = false) (hwrite : (s.tasks f).holdsWrite = false)
    (hself : s'.tasks f = t) (hread' : t.holdsRead = false) (hwrite' : t.holdsWrite = false)
    (hprepared : t.Prepared) (hstate : s'.state = s.state) :
    Effect (s.tasks f) (s'.tasks f) s.state s'.state ∧ (s'.tasks f).Prepared := by
  rw [hself, hstate]
  exact ⟨.same (hread'.trans hread.symm) (hwrite'.trans hwrite.symm) rfl rfl, hprepared⟩

theorem tryReadCheck_effect (hread : (s.tasks f).holdsRead = false)
    (hwrite : (s.tasks f).holdsWrite = false) :
    Effect (s.tasks f) ((s.tryReadCheck f seen).tasks f) s.state (s.tryReadCheck f seen).state ∧
      ((s.tryReadCheck f seen).tasks f).Prepared := by
  unfold tryReadCheck
  split
  · exact Effect.idle hread hwrite setTask_self rfl rfl trivial rfl
  · rename_i hpass
    refine Effect.idle hread hwrite setTask_self rfl rfl ?_ rfl
    simp only [Bool.or_eq_true, not_or, Bool.not_eq_true, beq_iff_eq] at hpass
    exact ⟨hpass.1.1, hpass.2⟩

/-- Acquiring the lock with the word as it was seen. -/
theorem acquire_effect (hread : (s.tasks f).holdsRead = false)
    (hmay : mayAcquire (s.tasks f) s.state = true) (hroom : ¬ Overflows (s.tasks f) s.state)
    (hread' : t.holdsRead = decide ((s.tasks f).kind = .reader))
    (hwrite' : t.holdsWrite = decide ((s.tasks f).kind = .writer)) :
    Effect (s.tasks f) t s.state (acquire (s.tasks f).kind s.state) := by
  obtain ⟨hwriter, hreaders, -⟩ := mayAcquire_spec hmay
  cases hkind : (s.tasks f).kind with
  | reader =>
    rw [hkind] at hread' hwrite'
    exact .beginRead hread hread' hwrite' hwriter (fun hmax => hroom ⟨hkind, hmay, hmax⟩) hwriter rfl
  | writer =>
    rw [hkind] at hread' hwrite'
    exact .beginWrite hwrite' hread' hwriter (hreaders hkind) rfl rfl

/-- A step under the queue lock has its effect if it is taken. -/
theorem critical_effect {next : RwLock} (hs : s.critical next = some s')
    (hnext : Effect (s.tasks f) (next.tasks f) s.state next.state ∧ (next.tasks f).Prepared) :
    Effect (s.tasks f) (s'.tasks f) s.state s'.state ∧ (s'.tasks f).Prepared := by
  unfold critical at hs
  split at hs
  · cases hs
    exact hnext
  · exact absurd hs (by simp)

theorem advance_effect (h : s.Holders) (hprepared : (s.tasks f).Prepared)
    (hs : s.advance f = some s') :
    Effect (s.tasks f) (s'.tasks f) s.state s'.state ∧ (s'.tasks f).Prepared := by
  unfold Task.Prepared at hprepared
  unfold advance at hs
  cases hpc : (s.tasks f).pc <;> simp only [hpc] at hs hprepared
  case tryRead seen =>
    cases hs
    have hread : (s.tasks f).holdsRead = false := by simp [Task.holdsRead, hpc]
    have hwrite : (s.tasks f).holdsWrite = false := by simp [Task.holdsWrite, hpc]
    unfold tryReadExchange
    split
    · rename_i hseen
      subst hseen
      exact ⟨.beginRead hread (by simp [goto, Task.holdsRead]) (by simp [goto, Task.holdsWrite])
        hprepared.1 hprepared.2 hprepared.1 rfl, by simp [goto, Task.Prepared]⟩
    · exact tryReadCheck_effect hread hwrite
  case load spins =>
    cases hs
    have hread : (s.tasks f).holdsRead = false := by simp [Task.holdsRead, hpc]
    have hwrite : (s.tasks f).holdsWrite = false := by simp [Task.holdsWrite, hpc]
    unfold pollLoad
    simp only
    split
    · exact Effect.idle hread hwrite setTask_self rfl rfl trivial rfl
    · rename_i hroom
      split
      · rename_i hmay
        exact Effect.idle hread hwrite setTask_self rfl rfl ⟨hmay, hroom⟩ rfl
      · split <;> exact Effect.idle hread hwrite setTask_self rfl rfl trivial rfl
  case exchange spins seen =>
    cases hs
    have hread : (s.tasks f).holdsRead = false := by simp [Task.holdsRead, hpc]
    have hwrite : (s.tasks f).holdsWrite = false := by simp [Task.holdsWrite, hpc]
    unfold pollExchange
    simp only
    split
    · rename_i hseen
      subst hseen
      obtain ⟨hmay, hroom⟩ := hprepared
      split
      · rw [show (RwLock.goto _ f .acquired).tasks f = _ from setTask_self]
        exact ⟨acquire_effect hread hmay hroom rfl rfl, trivial⟩
      · rw [show (RwLock.ready _ f _).tasks f = _ from setTask_self]
        refine ⟨acquire_effect hread hmay hroom ?_ ?_, ?_⟩
        all_goals cases (s.tasks f).kind <;> first | rfl | trivial
    · exact Effect.idle hread hwrite setTask_self rfl rfl trivial rfl
  case acquired =>
    unfold lockQueue at hs
    split at hs
    · cases hs
      exact ⟨.same (by simp [goto, Task.holdsRead, hpc]) (by simp [goto, Task.holdsWrite, hpc]) rfl rfl,
        by simp [goto, Task.Prepared]⟩
    · exact absurd hs (by simp)
  case mark =>
    cases hs
    unfold pollMark
    simp only
    split
    · rename_i hkind
      rw [setTask_self]
      exact ⟨.same (by simp [Task.holdsRead, hpc, hkind]) (by simp [Task.holdsWrite, hpc, hkind])
        rfl rfl, trivial⟩
    · rename_i hkind
      rw [show (RwLock.ready _ f _).tasks f = _ from setTask_self]
      exact ⟨.same (by simp [Task.holdsRead, hpc, hkind]) (by simp [Task.holdsWrite, hpc, hkind])
        rfl rfl, trivial⟩
  case cascade =>
    cases hs
    have hword : (s.pollCascade f).state = s.state := (wakeFirstReader_shared s).1
    have hself : (s.pollCascade f).tasks f =
        { s.wakeFirstReader.tasks f with notified := false, pc := .reading } := setTask_self
    rw [hword, hself]
    exact ⟨.same (by simp [Task.holdsRead, hpc]) (by simp [Task.holdsWrite, hpc]) rfl rfl, trivial⟩
  case register spins =>
    cases hs
    have hread : (s.tasks f).holdsRead = false := by simp [Task.holdsRead, hpc]
    have hwrite : (s.tasks f).holdsWrite = false := by simp [Task.holdsWrite, hpc]
    refine Effect.idle hread hwrite setTask_self ?_ ?_ ?_ rfl
    all_goals cases hqueued : (s.tasks f).queued <;> simp [Task.holdsRead, Task.holdsWrite, Task.Prepared]
  case enter spins =>
    unfold lockQueue at hs
    split at hs
    · cases hs
      exact Effect.idle (by simp [Task.holdsRead, hpc]) (by simp [Task.holdsWrite, hpc]) setTask_self
        rfl rfl trivial rfl
    · exact absurd hs (by simp)
  case recheck spins =>
    cases hs
    have hread : (s.tasks f).holdsRead = false := by simp [Task.holdsRead, hpc]
    have hwrite : (s.tasks f).holdsWrite = false := by simp [Task.holdsWrite, hpc]
    unfold pollRecheck
    split
    · exact Effect.idle hread hwrite setTask_self rfl rfl trivial rfl
    · split <;> exact Effect.idle hread hwrite setTask_self rfl rfl trivial rfl
  case announce =>
    cases hs
    rw [show (s.pollAnnounce f).tasks f = _ from setTask_self]
    exact ⟨.same (by simp [Task.holdsRead, hpc]) (by simp [Task.holdsWrite, hpc]) rfl rfl, trivial⟩
  case push =>
    cases hs
    exact Effect.idle (by simp [Task.holdsRead, hpc]) (by simp [Task.holdsWrite, hpc]) setTask_self
      rfl rfl trivial rfl
  case checkLinked spins =>
    refine critical_effect hs ?_
    have hread : (s.tasks f).holdsRead = false := by simp [Task.holdsRead, hpc]
    have hwrite : (s.tasks f).holdsWrite = false := by simp [Task.holdsWrite, hpc]
    unfold pollCheckLinked
    split <;> exact Effect.idle hread hwrite setTask_self rfl rfl trivial rfl
  case removing =>
    refine critical_effect hs ?_
    exact Effect.idle (by simp [Task.holdsRead, hpc]) (by simp [Task.holdsWrite, hpc]) setTask_self
      rfl rfl trivial rfl
  case storing =>
    cases hs
    rw [show (s.dropStore f).tasks f = _ from setTask_self]
    exact ⟨.endWrite (by simp [Task.holdsWrite, hpc]) rfl rfl rfl, trivial⟩
  case popping =>
    refine critical_effect hs ?_
    have hread : (s.tasks f).holdsRead = false := by simp [Task.holdsRead, hpc]
    have hwrite : (s.tasks f).holdsWrite = false := by simp [Task.holdsWrite, hpc]
    unfold dropPop
    split
    · exact Effect.idle hread hwrite setTask_self rfl rfl trivial rfl
    · exact Effect.idle hread hwrite setTask_self rfl rfl trivial (wake_state ..)
  case downgrade seen =>
    cases hs
    have hwrite : (s.tasks f).holdsWrite = true := by simp [Task.holdsWrite, hpc]
    have hzero := h.exclusive (h.writer.mpr ⟨f, hwrite⟩)
    unfold downgradeExchange
    split
    · rename_i hseen
      subst hseen
      rw [show (RwLock.goto _ f .handOver).tasks f = _ from setTask_self]
      refine ⟨.endWrite hwrite rfl rfl ?_, trivial⟩
      show s.state.readers + 1 = 1
      rw [hzero]
    · rw [show (RwLock.goto _ f _).tasks f = _ from setTask_self]
      exact ⟨.same (by simp [Task.holdsRead, hpc]) (by simp [Task.holdsWrite, hpc]) rfl rfl, trivial⟩
  case handOver =>
    refine critical_effect hs ?_
    have hword : (s.downgradeWake f).state = s.state := (wakeFirstReader_shared s).1
    have hself : (s.downgradeWake f).tasks f =
        { s.wakeFirstReader.tasks f with pc := .reading } := setTask_self
    rw [hword, hself]
    exact ⟨.same (by simp [Task.holdsRead, hpc]) (by simp [Task.holdsWrite, hpc]) rfl rfl, trivial⟩
  all_goals exact absurd hs (by simp)

theorem step_effect (h : s.Holders) (hprepared : (s.tasks f).Prepared) {a : Action}
    (hs : s.step (f, a) = some s') :
    Effect (s.tasks f) (s'.tasks f) s.state s'.state ∧ (s'.tasks f).Prepared := by
  unfold step at hs
  split at hs
  case h_1 hpc _ =>
    cases hs
    exact tryReadCheck_effect (by simp [Task.holdsRead, hpc]) (by simp [Task.holdsWrite, hpc])
  case h_2 hpc _ =>
    cases hs
    unfold tryWrite
    split
    · rename_i hfree
      rw [show (RwLock.goto _ f .writing).tasks f = _ from setTask_self]
      exact ⟨.beginWrite rfl rfl (by rw [hfree]; rfl) (by rw [hfree]; rfl) rfl rfl, trivial⟩
    · exact Effect.idle (by simp [Task.holdsRead, hpc]) (by simp [Task.holdsWrite, hpc]) setTask_self
        rfl rfl trivial rfl
  case h_3 hpc _ =>
    cases hs
    exact Effect.idle (by simp [Task.holdsRead, hpc]) (by simp [Task.holdsWrite, hpc]) setTask_self
      rfl rfl trivial rfl
  case h_4 hpc _ =>
    cases hs
    exact Effect.idle (by simp [Task.holdsRead, hpc]) (by simp [Task.holdsWrite, hpc]) setTask_self
      rfl rfl trivial rfl
  case h_5 hpc _ =>
    cases hs
    unfold dropFuture
    split <;> exact Effect.idle (by simp [Task.holdsRead, hpc]) (by simp [Task.holdsWrite, hpc])
      setTask_self rfl rfl trivial rfl
  case h_6 hpc _ =>
    cases hs
    have hread : (s.tasks f).holdsRead = true := by simp [Task.holdsRead, hpc]
    unfold dropRead
    simp only
    split
    · rw [show (RwLock.goto _ f .popping).tasks f = _ from setTask_self]
      exact ⟨.endRead hread rfl rfl rfl rfl, trivial⟩
    · rw [show (RwLock.finish _ f).tasks f = _ from setTask_self]
      exact ⟨.endRead hread rfl rfl rfl rfl, trivial⟩
  case h_7 hpc _ =>
    cases hs
    have hwrite : (s.tasks f).holdsWrite = true := by simp [Task.holdsWrite, hpc]
    unfold dropWrite
    split
    · rw [show (RwLock.finish _ f).tasks f = _ from setTask_self]
      exact ⟨.endWrite hwrite rfl rfl rfl, trivial⟩
    · rw [show (RwLock.goto _ f .storing).tasks f = _ from setTask_self]
      exact ⟨.same (by simp [Task.holdsRead, hpc]) (by simp [Task.holdsWrite, hpc]) rfl rfl, trivial⟩
  case h_8 hpc _ | h_9 hpc _ =>
    cases hs
    rw [show (RwLock.goto _ f _).tasks f = _ from setTask_self]
    exact ⟨.same (by simp [Task.holdsRead, hpc]) (by simp [Task.holdsWrite, hpc]) rfl rfl, trivial⟩
  case h_10 => exact advance_effect h hprepared hs
  case h_11 => exact absurd hs (by simp)

/-- The word counts the holders, as many as it has room for. -/
structure Guarded (s : RwLock) : Prop where
  holders : s.Holders
  room : s.state.readers ≤ maxReaders
  prepared : ∀ g, (s.tasks g).Prepared

theorem Guarded.step (h : s.Guarded) {e : Nat × Action} (hs : RwStep s e s') : s'.Guarded := by
  obtain ⟨f, a⟩ := e
  have hothers : ∀ g, g ≠ f → (s.tasks g).Woken (s'.tasks g) := fun g hne => step_others hs hne
  obtain ⟨heffect, hprepared⟩ := step_effect h.holders (h.prepared f) hs
  have hall : ∀ g, (s'.tasks g).Prepared := by
    intro g
    by_cases hne : g = f
    · exact hne ▸ hprepared
    · exact (hothers g hne).prepared (h.prepared g)
  have hroom := h.room
  rcases heffect with ⟨hread, hwrite, hreaders, hwriter⟩ |
    ⟨hf, hread, hwrite, hfree, hmax, hwriter, hreaders⟩ |
    ⟨hwrite, hread, hfree, hzero, hwriter, hreaders⟩ | ⟨hf, hread, hwrite, hwriter, hreaders⟩ |
    ⟨hf, hwrite, hwriter, hreaders⟩
  · exact ⟨h.holders.same hothers hread hwrite hreaders hwriter, by omega, hall⟩
  · exact ⟨h.holders.beginRead hothers hfree hf hread hwrite hwriter hreaders, by omega, hall⟩
  · exact ⟨h.holders.beginWrite hothers hfree hzero hwrite hread hwriter hreaders, by omega, hall⟩
  · exact ⟨h.holders.endRead hothers hf hread hwrite hwriter hreaders, by omega, hall⟩
  · refine ⟨h.holders.endWrite hothers hf hwrite hwriter hreaders, ?_, hall⟩
    rw [hreaders]
    split <;> decide

theorem Guarded.initial : Guarded RwLock.new := by
  refine ⟨⟨Census.zero fun g hg => absurd hg Bool.false_ne_true, ⟨?_, ?_⟩, ?_, fun _ => rfl⟩,
    Nat.zero_le _, fun _ => trivial⟩
  · exact fun hw => absurd hw Bool.false_ne_true
  · exact fun ⟨_, hg⟩ => absurd hg Bool.false_ne_true
  · exact fun _ _ hg => absurd hg Bool.false_ne_true

end RwLock

/-- The state word as a number: `WRITER_LOCKED` is 1, `CONTENDED` 2 and `READER_UNIT` 4. -/
def Word.bits (w : Word) : Nat :=
  (if w.writer then 1 else 0) + (if w.contended then 2 else 0) + 4 * w.readers

theorem Word.bits_lt {w : Word} (h : w.readers ≤ maxReaders) : w.bits < 2 ^ 64 := by
  unfold maxReaders at h
  unfold Word.bits
  split <;> split <;> omega

/-- Subtracting `READER_UNIT` borrows nothing as long as there is a reader. -/
theorem Word.bits_release {w w' : Word} (hpos : 0 < w.readers) (hwriter : w'.writer = w.writer)
    (hcontended : w'.contended = w.contended) (hreaders : w'.readers = w.readers - 1) :
    w'.bits + 4 = w.bits := by
  unfold Word.bits
  rw [hwriter, hcontended, hreaders]
  omega

/-- A guard is about to be returned. -/
def Pc.returning : Pc → Bool
  | acquired | mark | cascade | handOver => true
  | _ => false

namespace RwLock

/-- What the reader-writer lock promises. -/
structure Excludes (s : RwLock) : Prop where
  writers : ∀ g g', (s.tasks g).holdsWrite = true → (s.tasks g').holdsWrite = true → g = g'
  readers : ∀ g g', (s.tasks g).holdsWrite = true → (s.tasks g').holdsRead = false
  /-- The word counts the read guards from their exchange on. -/
  count : Census (fun g => (s.tasks g).holdsRead = true) s.state.readers
  /-- These are the guards there are, once those acquired have been returned. -/
  guards : (∀ g, (s.tasks g).pc.returning = false) →
    Census (fun g => (s.tasks g).pc = .reading) s.state.readers
  room : s.state.readers ≤ maxReaders ∧ s.state.bits < 2 ^ 64
  release : ∀ g, (s.tasks g).pc = .reading → (s.dropRead g).state.bits + 4 = s.state.bits ∧
    (s.dropRead g).state.writer = s.state.writer ∧
    (s.dropRead g).state.contended = s.state.contended

theorem Guarded.excludes {s : RwLock} (h : s.Guarded) : s.Excludes := by
  refine ⟨h.holders.unique, fun g g' hg => ?_, h.holders.readers, fun hreturned => ?_,
    ⟨h.room, Word.bits_lt h.room⟩, fun g hg => ?_⟩
  · have hzero := h.holders.exclusive (h.holders.writer.mpr ⟨g, hg⟩)
    rw [Bool.eq_false_iff]
    intro hread
    have hpos := h.holders.readers.pos hread
    omega
  · refine h.holders.readers.congr fun g => ?_
    have hg := hreturned g
    unfold Task.holdsRead
    revert hg
    cases (s.tasks g).pc <;> simp [Pc.returning]
  · have hread : (s.tasks g).holdsRead = true := by simp [Task.holdsRead, hg]
    have hpos := h.holders.readers.pos hread
    obtain ⟨hwriter, hcontended, hreaders⟩ : (s.dropRead g).state.writer = s.state.writer ∧
        (s.dropRead g).state.contended = s.state.contended ∧
        (s.dropRead g).state.readers = s.state.readers - 1 := by
      unfold dropRead
      simp only
      split <;> exact ⟨rfl, rfl, rfl⟩
    exact ⟨Word.bits_release hpos hwriter hcontended hreaders, hwriter, hcontended⟩

end RwLock

/-- In every run of the asynchronous locks the mutex has one holder at most, and the
reader-writer lock has one writer and no reader, or as many readers as its word says. -/
theorem async_locks_exclude {m : Mutex} {s : RwLock}
    (hm : Run MutexStep Always (fun m => m = .new) m)
    (hs : Run RwStep Always (fun s => s = .new) s) :
    (∀ g g', (m.tasks g).pc.holds = true → (m.tasks g').pc.holds = true → g = g') ∧
      s.Excludes := by
  have hmutex : m.Guarded := by
    refine hm.invariant ?_ fun _ _ _ h _ hs => h.step hs
    rintro _ rfl
    exact Mutex.Guarded.initial
  have hlock : s.Guarded := by
    refine hs.invariant ?_ fun _ _ _ h _ hs => h.step hs
    rintro _ rfl
    exact RwLock.Guarded.initial
  exact ⟨hmutex.unique, hlock.excludes⟩

/-- A mutex that is held while somebody else tries to lock it, and a lock with two
readers. -/
def heldMutex : Mutex :=
  (replay Mutex.step (fun _ _ => true) Mutex.new
    [(0, .tryLock), (1, .lock), (1, .poll), (1, .advance), (1, .advance)]).get (by decide +kernel)

def sharedLock : RwLock :=
  (replay RwLock.step (fun _ _ => true) RwLock.new
    [(0, .tryRead), (1, .create .reader), (0, .advance), (1, .poll), (1, .advance),
      (1, .advance)]).get (by decide +kernel)

theorem async_locks_exclude_shared :
    (heldMutex.tasks 0).pc.holds = true ∧ sharedLock.state.readers = 2 ∧
      (∀ g g', (heldMutex.tasks g).pc.holds = true → (heldMutex.tasks g').pc.holds = true →
        g = g') ∧ sharedLock.Excludes := by
  have hmutex : Run MutexStep Always (fun m => m = .new) Mutex.new := Run.start rfl
  have hlock : Run RwStep Always (fun s => s = .new) RwLock.new := Run.start rfl
  have hm : Run MutexStep Always (fun m => m = .new) heldMutex :=
    hmutex.replay (fun _ _ _ h => h) (fun _ _ _ => trivial) (Option.some_get _).symm
  have hs : Run RwStep Always (fun s => s = .new) sharedLock :=
    hlock.replay (fun _ _ _ h => h) (fun _ _ _ => trivial) (Option.some_get _).symm
  exact ⟨by decide +kernel, by decide +kernel, async_locks_exclude hm hs⟩

end Veloq.Sync
