import Veloq.Foundation.Census
import Veloq.Sync.RwLock
set_option autoImplicit false

/-!
# Sync: who looks after the queue of the reader-writer lock

While a future is queued, somebody has to come back to the queue: the holder of a lock
that is marked as contended, a guard drop that has yet to pop, a future that has just
acquired the lock, or one that a release has unlinked and that has yet to end its poll.
The invariant says so, and that whoever is to come back has been notified.
-/

namespace Veloq.Sync

open Veloq.Foundation

/-! ## Where a task stands -/

namespace Pc

/-- Inside the queue lock. -/
def inside : Pc → Bool
  | mark | cascade | recheck _ | announce | push => true
  | _ => false

/-- A guard drop that is going to pop the queue. -/
def releasing : Pc → Bool
  | storing | popping => true
  | _ => false

/-- The lock is acquired, the queue not yet updated. -/
def acquiring : Pc → Bool
  | acquired | mark => true
  | _ => false

/-- No future of this task waits. -/
def idle : Pc → Bool
  | fresh | tryRead _ | cascade | reading | writing | storing | popping | downgrade _ | handOver
  | gone => true
  | _ => false

/-- On the way into the queue. -/
def joining : Pc → Bool
  | enter _ | recheck _ | announce | push => true
  | _ => false

/-- Past the registration of the waker. -/
def alert : Pc → Bool
  | enter _ | recheck _ | announce | push | checkLinked _ => true
  | _ => false

end Pc

namespace Task

/-- The task accounts for one of the readers in the word. -/
def holdsRead (t : Task) : Bool :=
  match t.pc with
  | .reading | .handOver | .cascade => true
  | .acquired | .mark => t.kind = .reader
  | _ => false

/-- The task accounts for `WRITER_LOCKED`. -/
def holdsWrite (t : Task) : Bool :=
  match t.pc with
  | .writing | .storing | .downgrade _ => true
  | .acquired | .mark => t.kind = .writer
  | _ => false

/-- What the flags of a future say at each point. -/
structure Flags (t : Task) : Prop where
  idle : t.pc.idle = true → t.queued = false ∧ t.woken = false
  joining : t.pc.joining = true → t.queued = false
  pending : t.pc = .pending → t.woken = true → t.queued = true
  alert : t.pc.alert = true → t.registered = true ∨ t.notified = true
  tryRead : ∀ seen, t.pc = .tryRead seen → seen.writer = false ∧ seen.contended = false
  exchange : ∀ spins seen, t.pc = .exchange spins seen → RwLock.mayAcquire t seen = true

/-- A future that waits has been notified, or can be. -/
def Alarmed (t : Task) (linked : Prop) : Prop :=
  t.pc = .pending → t.queued = true → t.notified = true ∨ t.registered = true ∧ linked

/-- The task is as it was, or was woken. -/
def Woken (t t' : Task) : Prop :=
  t' = t ∨ t.registered = true ∧ t' = { t with registered := false, notified := true }

namespace Woken

variable {t t' : Task}

theorem pc (h : t.Woken t') : t'.pc = t.pc := by
  rcases h with rfl | ⟨-, rfl⟩ <;> rfl

theorem queued (h : t.Woken t') : t'.queued = t.queued := by
  rcases h with rfl | ⟨-, rfl⟩ <;> rfl

theorem woken (h : t.Woken t') : t'.woken = t.woken := by
  rcases h with rfl | ⟨-, rfl⟩ <;> rfl

theorem holdsRead (h : t.Woken t') : t'.holdsRead = t.holdsRead := by
  rcases h with rfl | ⟨-, rfl⟩ <;> rfl

theorem holdsWrite (h : t.Woken t') : t'.holdsWrite = t.holdsWrite := by
  rcases h with rfl | ⟨-, rfl⟩ <;> rfl

theorem flags (h : t.Woken t') (hflags : t.Flags) : t'.Flags := by
  rcases h with rfl | ⟨-, rfl⟩
  · exact hflags
  · exact ⟨hflags.idle, hflags.joining, hflags.pending, fun _ => Or.inr rfl, hflags.tryRead,
      hflags.exchange⟩

end Woken

end Task

/-- The lock is held. -/
def Held (w : Word) : Prop := w.writer = true ∨ 0 < w.readers

namespace RwLock

/-- A release has unlinked the future, which has yet to end a poll. -/
def Awake (s : RwLock) (g : Nat) : Prop :=
  (s.tasks g).queued = true ∧ g ∉ s.waiters ∨
    (s.tasks g).woken = true ∧ (s.tasks g).queued = false

/-- Task `g` is going to come back to the queue. -/
def Watches (s : RwLock) (g : Nat) : Prop :=
  (s.tasks g).pc.releasing = true ∨ (s.tasks g).pc.acquiring = true ∨ s.Awake g

/-- Somebody is going to come back to the queue. -/
def Covered (s : RwLock) : Prop :=
  Held s.state ∧ s.state.contended = true ∨ ∃ g, s.Watches g

/-- `CONTENDED` is set, or about to be dealt with by a guard drop. -/
def Marked (s : RwLock) : Prop :=
  s.state.contended = true ∨ ∃ g, (s.tasks g).pc.releasing = true

/-- The word counts the tasks that hold the lock. -/
structure Holders (s : RwLock) : Prop where
  readers : Census (fun g => (s.tasks g).holdsRead = true) s.state.readers
  writer : s.state.writer = true ↔ ∃ g, (s.tasks g).holdsWrite = true
  unique : ∀ g g', (s.tasks g).holdsWrite = true → (s.tasks g').holdsWrite = true → g = g'
  exclusive : s.state.writer = true → s.state.readers = 0

structure Inv (s : RwLock) : Prop where
  lock : ∀ g, (s.tasks g).pc.inside = true ↔ s.queueLock = some g
  nodup : s.waiters.Nodup
  linked : ∀ g ∈ s.waiters, (s.tasks g).queued = true
  flags : ∀ g, (s.tasks g).Flags
  alarmed : ∀ g, (s.tasks g).Alarmed (g ∈ s.waiters)
  holders : s.Holders
  marked : ∀ g, (s.tasks g).pc = .push → s.Marked
  covered : s.waiters ≠ [] → s.Covered

/-! ## Frames -/

/-- What a step of task `f` leaves alone. -/
structure Frame (s s' : RwLock) (f : Nat) : Prop where
  others : ∀ g, g ≠ f → (s.tasks g).Woken (s'.tasks g)
  lock : ∀ g, g ≠ f → (s'.queueLock = some g ↔ s.queueLock = some g)
  linked : ∀ g, g ≠ f → g ∈ s'.waiters → g ∈ s.waiters
  unlinked : ∀ g, g ≠ f → g ∈ s.waiters → g ∉ s'.waiters → (s.tasks g).registered = true →
    (s'.tasks g).notified = true

variable {s s' : RwLock} {f g : Nat} {t : Task} {pc : Pc}

@[simp] theorem setTask_self : (s.setTask f t).tasks f = t := Function.update_self ..

theorem setTask_of_ne (h : g ≠ f) : (s.setTask f t).tasks g = s.tasks g :=
  Function.update_of_ne h ..

theorem wake_woken (g h : Nat) : (s.tasks h).Woken ((s.wake g).tasks h) := by
  unfold wake
  split
  · rename_i hregistered
    by_cases heq : h = g
    · subst heq
      rw [setTask_self]
      exact Or.inr ⟨hregistered, rfl⟩
    · rw [setTask_of_ne heq]
      exact Or.inl rfl
  · exact Or.inl rfl

@[simp] theorem wake_state (g : Nat) : (s.wake g).state = s.state := by
  unfold wake
  split <;> rfl

@[simp] theorem wake_waiters (g : Nat) : (s.wake g).waiters = s.waiters := by
  unfold wake
  split <;> rfl

@[simp] theorem wake_queueLock (g : Nat) : (s.wake g).queueLock = s.queueLock := by
  unfold wake
  split <;> rfl

/-- A registered waker is used up. -/
theorem wake_notified (h : (s.tasks g).registered = true) : ((s.wake g).tasks g).notified = true := by
  unfold wake
  rw [if_pos h, setTask_self]

theorem wakeFirstReader_cases (s : RwLock) :
    s.wakeFirstReader = s ∨ ∃ g, s.wakeFirstReader = s.wake g := by
  unfold wakeFirstReader
  split
  · exact Or.inl rfl
  · split
    · exact Or.inr ⟨_, rfl⟩
    · exact Or.inl rfl

theorem wakeFirstReader_shared (s : RwLock) : s.wakeFirstReader.state = s.state ∧
    s.wakeFirstReader.waiters = s.waiters ∧ s.wakeFirstReader.queueLock = s.queueLock := by
  rcases s.wakeFirstReader_cases with heq | ⟨g, heq⟩ <;> rw [heq] <;> simp

theorem wakeFirstReader_frame (s : RwLock) (h : Nat) :
    (s.tasks h).Woken (s.wakeFirstReader.tasks h) := by
  rcases s.wakeFirstReader_cases with heq | ⟨g, heq⟩ <;> rw [heq]
  · exact Or.inl rfl
  · exact wake_woken g h

namespace Frame

/-- Another task that watches goes on watching. -/
theorem watches (h : Frame s s' f) (hne : g ≠ f) (hg : s.Watches g) : s'.Watches g := by
  have hw := h.others g hne
  unfold Watches Awake at hg ⊢
  rw [hw.pc, hw.queued, hw.woken]
  rcases hg with hg | hg | ⟨hqueued, hnot⟩ | hg
  · exact Or.inl hg
  · exact Or.inr (Or.inl hg)
  · exact Or.inr (Or.inr (Or.inl ⟨hqueued, fun hmem => hnot (h.linked g hne hmem)⟩))
  · exact Or.inr (Or.inr (Or.inr hg))

theorem releasing (h : Frame s s' f) (hne : g ≠ f) (hg : (s.tasks g).pc.releasing = true) :
    (s'.tasks g).pc.releasing = true := by
  rw [(h.others g hne).pc]
  exact hg

/-- The mark stays if `f` does not take it back. -/
theorem marked (h : Frame s s' f) (hs : s.Marked)
    (hword : s.state.contended = true → s'.Marked)
    (hf : (s.tasks f).pc.releasing = true → (s'.tasks f).pc.releasing = true) : s'.Marked := by
  rcases hs with hcontended | ⟨g, hg⟩
  · exact hword hcontended
  · by_cases hne : g = f
    · subst hne
      exact Or.inr ⟨g, hf hg⟩
    · exact Or.inr ⟨g, h.releasing hne hg⟩

/-- The queue stays covered if the holder's and `f`'s part in it do. -/
theorem covered (h : Frame s s' f) (hs : s.Covered)
    (hword : Held s.state → s.state.contended = true → s'.Covered)
    (hf : s.Watches f → s'.Covered) : s'.Covered := by
  rcases hs with ⟨hheld, hcontended⟩ | ⟨g, hg⟩
  · exact hword hheld hcontended
  · by_cases hne : g = f
    · subst hne
      exact hf hg
    · exact Or.inr ⟨g, h.watches hne hg⟩

end Frame

/-- The invariant from what a step does to its own task and to the shared state. -/
theorem Inv.of_frame (h : s.Inv) (hframe : Frame s s' f)
    (hlock : (s'.tasks f).pc.inside = true ↔ s'.queueLock = some f) (hnodup : s'.waiters.Nodup)
    (hlinked : f ∈ s'.waiters → (s'.tasks f).queued = true) (hflags : (s'.tasks f).Flags)
    (halarmed : (s'.tasks f).Alarmed (f ∈ s'.waiters)) (hholders : s'.Holders)
    (hmarked : (s'.tasks f).pc = .push ∨ (∃ g, g ≠ f ∧ s.queueLock = some g ∧ s.Marked) →
      s'.Marked)
    (hcovered : s'.waiters ≠ [] → s'.Covered) : s'.Inv := by
  refine ⟨?_, hnodup, ?_, ?_, ?_, hholders, ?_, hcovered⟩
  · intro g
    by_cases hne : g = f
    · subst hne
      exact hlock
    · rw [(hframe.others g hne).pc, hframe.lock g hne]
      exact h.lock g
  · intro g hg
    by_cases hne : g = f
    · subst hne
      exact hlinked hg
    · rw [(hframe.others g hne).queued]
      exact h.linked g (hframe.linked g hne hg)
  · intro g
    by_cases hne : g = f
    · subst hne
      exact hflags
    · exact (hframe.others g hne).flags (h.flags g)
  · intro g
    by_cases hne : g = f
    · subst hne
      exact halarmed
    · intro hpc hqueued
      have hw := hframe.others g hne
      rw [hw.pc] at hpc
      rw [hw.queued] at hqueued
      rcases h.alarmed g hpc hqueued with hnotified | ⟨hregistered, hmem⟩
      · left
        rcases hw with heq | ⟨-, heq⟩
        · rw [heq]
          exact hnotified
        · rw [heq]
      · by_cases hmem' : g ∈ s'.waiters
        · rcases hw with heq | ⟨-, heq⟩
          · rw [heq]
            exact Or.inr ⟨hregistered, hmem'⟩
          · rw [heq]
            exact Or.inl rfl
        · exact Or.inl (hframe.unlinked g hne hmem hmem' hregistered)
  · intro g hpc
    by_cases hne : g = f
    · subst hne
      exact hmarked (Or.inl hpc)
    · rw [(hframe.others g hne).pc] at hpc
      refine hmarked (Or.inr ⟨g, hne, (h.lock g).mp ?_, h.marked g hpc⟩)
      rw [hpc]
      rfl

/-! ## Who holds the lock -/

namespace Holders

/-- Nobody begins or ceases to hold the lock. -/
theorem same (h : s.Holders)
    (hothers : ∀ g, g ≠ f → (s.tasks g).Woken (s'.tasks g))
    (hread : (s'.tasks f).holdsRead = (s.tasks f).holdsRead)
    (hwrite : (s'.tasks f).holdsWrite = (s.tasks f).holdsWrite)
    (hreaders : s'.state.readers = s.state.readers) (hwriter : s'.state.writer = s.state.writer) :
    s'.Holders := by
  have hreads : ∀ g, (s'.tasks g).holdsRead = (s.tasks g).holdsRead := by
    intro g
    by_cases hne : g = f
    · rw [hne, hread]
    · exact (hothers g hne).holdsRead
  have hwrites : ∀ g, (s'.tasks g).holdsWrite = (s.tasks g).holdsWrite := by
    intro g
    by_cases hne : g = f
    · rw [hne, hwrite]
    · exact (hothers g hne).holdsWrite
  refine ⟨?_, ?_, ?_, ?_⟩
  · rw [hreaders]
    exact h.readers.congr fun g => by rw [hreads]
  · simp only [hwriter, hwrites]
    exact h.writer
  · simp only [hwrites]
    exact h.unique
  · rw [hwriter, hreaders]
    exact h.exclusive

/-- What `f` holds before and after decides who holds the lock for reading. -/
theorem reads_iff (hothers : ∀ g, g ≠ f → (s.tasks g).Woken (s'.tasks g)) (g : Nat) :
    (s'.tasks g).holdsRead = true ↔
      g = f ∧ (s'.tasks f).holdsRead = true ∨ g ≠ f ∧ (s.tasks g).holdsRead = true := by
  by_cases hne : g = f
  · subst hne
    simp
  · rw [(hothers g hne).holdsRead]
    simp [hne]

theorem writes_iff (hothers : ∀ g, g ≠ f → (s.tasks g).Woken (s'.tasks g)) (g : Nat) :
    (s'.tasks g).holdsWrite = true ↔
      g = f ∧ (s'.tasks f).holdsWrite = true ∨ g ≠ f ∧ (s.tasks g).holdsWrite = true := by
  by_cases hne : g = f
  · subst hne
    simp
  · rw [(hothers g hne).holdsWrite]
    simp [hne]

/-- No task writes. -/
theorem of_no_writer (hothers : ∀ g, g ≠ f → (s.tasks g).Woken (s'.tasks g))
    (hreaders : Census (fun g => (s'.tasks g).holdsRead = true) s'.state.readers)
    (hwriter : s'.state.writer = false) (hwrite : (s'.tasks f).holdsWrite = false)
    (hother : ∀ g, g ≠ f → (s.tasks g).holdsWrite ≠ true) : s'.Holders := by
  have hnone : ∀ g, (s'.tasks g).holdsWrite ≠ true := by
    intro g hg
    rcases (writes_iff hothers g).mp hg with ⟨-, hg⟩ | ⟨hne, hg⟩
    · rw [hwrite] at hg
      exact absurd hg (by simp)
    · exact hother g hne hg
  refine ⟨hreaders, ?_, fun g g' hg => absurd hg (hnone g), ?_⟩
  · rw [hwriter]
    exact ⟨fun hw => absurd hw (by simp), fun ⟨g, hg⟩ => absurd hg (hnone g)⟩
  · rw [hwriter]
    exact fun hw => absurd hw (by simp)

theorem no_writer (h : s.Holders) (hfree : s.state.writer = false) (g : Nat) :
    (s.tasks g).holdsWrite ≠ true := by
  intro hg
  have hwriter := h.writer.mpr ⟨g, hg⟩
  rw [hfree] at hwriter
  exact absurd hwriter (by simp)

/-- `f` begins to read. -/
theorem beginRead (h : s.Holders)
    (hothers : ∀ g, g ≠ f → (s.tasks g).Woken (s'.tasks g)) (hfree : s.state.writer = false)
    (hf : (s.tasks f).holdsRead = false) (hread : (s'.tasks f).holdsRead = true)
    (hwrite : (s'.tasks f).holdsWrite = false) (hwriter : s'.state.writer = false)
    (hreaders : s'.state.readers = s.state.readers + 1) : s'.Holders := by
  refine of_no_writer hothers ?_ hwriter hwrite fun g _ => h.no_writer hfree g
  rw [hreaders]
  refine h.readers.join (i := f) (by simp [hf]) fun g => ?_
  rw [reads_iff hothers g]
  by_cases hne : g = f
  · simp [hne, hread]
  · simp [hne]

/-- `f` ceases to read. -/
theorem endRead (h : s.Holders)
    (hothers : ∀ g, g ≠ f → (s.tasks g).Woken (s'.tasks g)) (hf : (s.tasks f).holdsRead = true)
    (hread : (s'.tasks f).holdsRead = false) (hwrite : (s'.tasks f).holdsWrite = false)
    (hwriter : s'.state.writer = s.state.writer)
    (hreaders : s'.state.readers = s.state.readers - 1) : s'.Holders := by
  -- while somebody reads, nobody writes
  have hfree : s.state.writer = false := by
    cases hw : s.state.writer with
    | false => rfl
    | true =>
      have hzero := h.exclusive hw
      have hpos := h.readers.pos hf
      omega
  refine of_no_writer hothers ?_ (hwriter.trans hfree) hwrite fun g _ => h.no_writer hfree g
  rw [hreaders]
  refine h.readers.leave hf fun g => ?_
  rw [reads_iff hothers g, hread]
  simp

/-- `f` begins to write. -/
theorem beginWrite (h : s.Holders)
    (hothers : ∀ g, g ≠ f → (s.tasks g).Woken (s'.tasks g)) (hfree : s.state.writer = false)
    (hzero : s.state.readers = 0) (hwrite : (s'.tasks f).holdsWrite = true)
    (hread : (s'.tasks f).holdsRead = false) (hwriter : s'.state.writer = true)
    (hreaders : s'.state.readers = 0) : s'.Holders := by
  have honly : ∀ g, (s'.tasks g).holdsWrite = true → g = f := by
    intro g hg
    rcases (writes_iff hothers g).mp hg with ⟨heq, -⟩ | ⟨-, hg⟩
    · exact heq
    · exact absurd hg (h.no_writer hfree g)
  refine ⟨?_, ⟨fun _ => ⟨f, hwrite⟩, fun _ => hwriter⟩, ?_, fun _ => hreaders⟩
  · rw [hreaders]
    refine Census.zero fun g hg => ?_
    rcases (reads_iff hothers g).mp hg with ⟨-, hg⟩ | ⟨-, hg⟩
    · rw [hread] at hg
      exact absurd hg (by simp)
    · have hpos := h.readers.pos hg
      omega
  · intro g g' hg hg'
    rw [honly g hg, honly g' hg']

/-- `f` ceases to write; it may go on as a reader. -/
theorem endWrite (h : s.Holders)
    (hothers : ∀ g, g ≠ f → (s.tasks g).Woken (s'.tasks g)) (hf : (s.tasks f).holdsWrite = true)
    (hwrite : (s'.tasks f).holdsWrite = false) (hwriter : s'.state.writer = false)
    (hreaders : s'.state.readers = if (s'.tasks f).holdsRead then 1 else 0) : s'.Holders := by
  have hzero := h.exclusive (h.writer.mpr ⟨f, hf⟩)
  have hother : ∀ g, (s.tasks g).holdsRead ≠ true := by
    intro g hg
    have hpos := h.readers.pos hg
    omega
  refine of_no_writer hothers ?_ hwriter hwrite fun g hne hg => hne (h.unique g f hg hf)
  rw [hreaders]
  cases hread : (s'.tasks f).holdsRead with
  | false =>
    refine Census.zero fun g hg => ?_
    rcases (reads_iff hothers g).mp hg with ⟨-, hg⟩ | ⟨-, hg⟩
    · rw [hread] at hg
      exact absurd hg (by simp)
    · exact hother g hg
  | true =>
    refine (Census.zero hother).join (i := f) (hother f) fun g => ?_
    rw [reads_iff hothers g, hread]
    by_cases hne : g = f
    · simp [hne]
    · simp [hne]

/-- A task that holds the lock keeps it held. -/
theorem held (h : s.Holders) (hf : (s.tasks f).holdsRead = true ∨ (s.tasks f).holdsWrite = true) :
    Held s.state := by
  rcases hf with hf | hf
  · exact Or.inr (h.readers.pos hf)
  · exact Or.inl (h.writer.mpr ⟨f, hf⟩)

end Holders

end RwLock

end Veloq.Sync
