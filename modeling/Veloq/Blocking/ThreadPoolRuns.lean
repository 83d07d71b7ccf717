import Veloq.Blocking.ThreadPoolBooks
set_option autoImplicit false

/-!
# Blocking: which tasks the thread pool strands

A worker sleeps only after it has seen the queue empty under the lock, and whoever queues a
task afterwards notifies somebody: as long as a worker sleeps, some worker looks at the queue
or some call notifies.  What goes wrong is that the last worker leaves although a task is
queued, or although a call counts on it.
-/

namespace Veloq.Blocking

open Veloq.Foundation

variable {α : Type}

namespace WorkerPc

theorem live_of_idle {pc : WorkerPc α} (h : pc.idle = true) : pc.live = true := by
  cases pc with
  | absent | gone => cases h
  | pop | addIdle | lock | popLocked | unlockWith | subIdleWith | subCount | run | wait | asleep
  | relock | unlock | subIdle | checkEmpty | loadActive | leave => rfl

theorem live_of_looking {pc : WorkerPc α} (h : pc.looking = true) : pc.live = true := by
  cases pc with
  | absent | gone => cases h
  | pop | addIdle | lock | popLocked | unlockWith | subIdleWith | subCount | run | wait | asleep
  | relock | unlock | subIdle | checkEmpty | loadActive | leave => rfl

theorem idle_of_dormant {pc : WorkerPc α} (h : pc.dormant = true) : pc.idle = true := by
  cases pc with
  | wait | asleep => rfl
  | absent | pop | addIdle | lock | popLocked | unlockWith | subIdleWith | subCount | run | relock
  | unlock | subIdle | checkEmpty | loadActive | leave | gone => cases h

theorem dormant_of_atRest {pc : WorkerPc α} (h : pc.atRest = true) (hlive : pc.live = true) :
    pc.dormant = true := by
  cases pc with
  | asleep => rfl
  | absent | gone => cases hlive
  | pop | addIdle | lock | popLocked | unlockWith | subIdleWith | subCount | run | wait | relock
  | unlock | subIdle | checkEmpty | loadActive | leave => cases h

theorem not_looking_of_atRest {pc : WorkerPc α} (h : pc.atRest = true) : pc.looking = false := by
  cases pc with
  | absent | asleep | gone => rfl
  | pop | addIdle | lock | popLocked | unlockWith | subIdleWith | subCount | run | wait | relock
  | unlock | subIdle | checkEmpty | loadActive | leave => cases h

end WorkerPc

theorem ExecutePc.passive_of_not_inProgress {pc : ExecutePc α} (h : pc.inProgress = false) :
    pc.starts = false ∧ pc.notifying = false := by
  cases pc with
  | absent | returned => exact ⟨rfl, rfl⟩
  | loadIdle | loadActive | addActive | spawn | subActive | loadCount | addCount | push
  | loadIdleAgain | lock | notify | unlock => cases h

namespace PoolState

variable {pool : ThreadPool} {s s' : PoolState α} {n w : Nat} {pc : ExecutePc α}
  {next : WorkerPc α}

/-! ## The lock and the condition variable -/

/-- Who holds the lock, and who waits. -/
structure Guarded (s : PoolState α) : Prop where
  call : ∀ n, (s.calls n).holdsLock = true → s.sleeperLock = some (.call n)
  worker : ∀ w, (s.workers w).holdsLock = true → s.sleeperLock = some (.worker w)
  cond : ∀ w, w ∈ s.cond ↔ s.workers w = .asleep

/-- A party keeps to what it holds, takes the free lock, or gives it up. -/
def Passes (s s' : PoolState α) (party : Party) (held holds : Bool) : Prop :=
  (s'.sleeperLock = s.sleeperLock ∧ (holds = true → held = true)) ∨
    (s.sleeperLock = none ∧ s'.sleeperLock = some party) ∨ (held = true ∧ holds = false)

/-- Nobody else holds a lock that is passed on. -/
theorem Passes.other {party other : Party} {held holds : Bool} (h : Passes s s' party held holds)
    (hheld : held = true → s.sleeperLock = some party) (hne : other ≠ party)
    (hother : s.sleeperLock = some other) : s'.sleeperLock = some other := by
  rcases h with ⟨hsame, -⟩ | ⟨hfree, -⟩ | ⟨hheld', -⟩
  · exact hsame.trans hother
  · rw [hfree] at hother
    cases hother
  · rw [hheld hheld'] at hother
    exact absurd (Option.some.inj hother).symm hne

theorem Passes.self {party : Party} {held holds : Bool} (h : Passes s s' party held holds)
    (hheld : held = true → s.sleeperLock = some party) (hholds : holds = true) :
    s'.sleeperLock = some party := by
  rcases h with ⟨hsame, hkept⟩ | ⟨-, htaken⟩ | ⟨-, hnot⟩
  · exact hsame.trans (hheld (hkept hholds))
  · exact htaken
  · rw [hnot] at hholds
    cases hholds

/-- What holds of all members but one, and of that one's new value. -/
theorem update_forall {β : Type} {f : Nat → β} {i : Nat} {b : β} {p : Nat → β → Prop}
    (hself : p i b) (hother : ∀ j, j ≠ i → p j (f j)) (j : Nat) :
    p j (Function.update f i b j) := by
  by_cases hj : j = i
  · rw [hj, Function.update_self]
    exact hself
  · rw [Function.update_of_ne hj]
    exact hother j hj

/-- A member that is left alone is still there. -/
theorem update_exists {β : Type} {f : Nat → β} {i : Nat} {b : β} {p : β → Bool}
    (hi : p (f i) = true → p b = true) (h : ∃ j, p (f j) = true) :
    ∃ j, p (Function.update f i b j) = true := by
  obtain ⟨j, hj⟩ := h
  by_cases hji : j = i
  · refine ⟨i, ?_⟩
    rw [Function.update_self]
    exact hi (hji ▸ hj)
  · refine ⟨j, ?_⟩
    rw [Function.update_of_ne hji]
    exact hj

theorem Guarded.move_call (h : s.Guarded) (n : Nat) (pc : ExecutePc α)
    (hcalls : s'.calls = Function.update s.calls n pc) (hworkers : s'.workers = s.workers)
    (hcond : s'.cond = s.cond)
    (hlock : Passes s s' (.call n) (s.calls n).holdsLock pc.holdsLock) : s'.Guarded := by
  refine ⟨?_, fun w hw => ?_, ?_⟩
  · rw [hcalls]
    exact update_forall
      (p := fun m (q : ExecutePc α) => q.holdsLock = true → s'.sleeperLock = some (.call m))
      (hlock.self (h.call n))
      fun m hm hheld => hlock.other (h.call n) (fun heq => hm (Party.call.inj heq)) (h.call m hheld)
  · rw [hworkers] at hw
    exact hlock.other (h.call n) (fun heq => by cases heq) (h.worker w hw)
  · rw [hcond, hworkers]
    exact h.cond

theorem Guarded.move_worker (h : s.Guarded) (w : Nat) (next : WorkerPc α)
    (hworkers : s'.workers = Function.update s.workers w next) (hcalls : s'.calls = s.calls)
    (hcond : (w ∈ s'.cond ↔ next = .asleep) ∧ ∀ v, v ≠ w → (v ∈ s'.cond ↔ v ∈ s.cond))
    (hlock : Passes s s' (.worker w) (s.workers w).holdsLock next.holdsLock) : s'.Guarded := by
  refine ⟨fun n hn => ?_, ?_, ?_⟩
  · rw [hcalls] at hn
    exact hlock.other (h.worker w) (fun heq => by cases heq) (h.call n hn)
  · rw [hworkers]
    exact update_forall
      (p := fun v (q : WorkerPc α) => q.holdsLock = true → s'.sleeperLock = some (.worker v))
      (hlock.self (h.worker w))
      fun v hv hheld =>
        hlock.other (h.worker w) (fun heq => hv (Party.worker.inj heq)) (h.worker v hheld)
  · rw [hworkers]
    exact update_forall (p := fun v (q : WorkerPc α) => v ∈ s'.cond ↔ q = .asleep) hcond.1
      fun v hv => (hcond.2 v hv).trans (h.cond v)

/-- A worker that does not wait goes on, and does not wait. -/
theorem Guarded.stays_up (h : s.Guarded) (hw : s.workers w ≠ .asleep) (hnext : next ≠ .asleep)
    (hcond : s'.cond = s.cond) :
    (w ∈ s'.cond ↔ next = .asleep) ∧ ∀ v, v ≠ w → (v ∈ s'.cond ↔ v ∈ s.cond) := by
  rw [hcond]
  exact ⟨⟨fun hin => absurd ((h.cond w).mp hin) hw, fun heq => absurd heq hnext⟩,
    fun _ _ => Iff.rfl⟩

theorem Guarded.wake (h : s.Guarded) (hw : w ∈ s.cond) (timedOut : Bool) :
    (s.wake w timedOut).Guarded := by
  refine h.move_worker w (.relock timedOut) rfl rfl ⟨?_, fun v hv => ?_⟩ (.inl ⟨rfl, ?_⟩)
  · refine ⟨fun hin => ?_, fun heq => by cases heq⟩
    have hne := (List.mem_filter.mp hin).2
    exact absurd rfl (of_decide_eq_true hne)
  · show v ∈ s.cond.filter (· ≠ w) ↔ _
    rw [List.mem_filter]
    exact ⟨And.left, fun hin => ⟨hin, decide_eq_true hv⟩⟩
  · exact fun hf => absurd hf Bool.false_ne_true

/-! ## Whoever sleeps is woken -/

/-- While a worker sleeps, or is about to, and a task is queued, somebody sees to it. -/
def Awake (s : PoolState α) : Prop :=
  (∃ w, (s.workers w).dormant = true) → s.queue ≠ [] →
    (∃ w, (s.workers w).looking = true) ∨ ∃ n, (s.calls n).notifying = true

theorem Awake.of_empty (hqueue : s.queue = []) : s.Awake := fun _ hne => absurd hqueue hne

theorem Awake.of_looking (hw : (s.workers w).looking = true) : s.Awake :=
  fun _ _ => .inl ⟨w, hw⟩

theorem Awake.of_notifying (hn : (s.calls n).notifying = true) : s.Awake :=
  fun _ _ => .inr ⟨n, hn⟩

theorem Awake.of_no_dormant (hnone : ∀ w, (s.workers w).dormant = false) : s.Awake := by
  rintro ⟨w, hw⟩
  rw [hnone w] at hw
  cases hw

theorem Awake.move_call (h : s.Awake) (hcalls : s'.calls = Function.update s.calls n pc)
    (hworkers : s'.workers = s.workers) (hqueue : s'.queue = s.queue)
    (hpc : (s.calls n).notifying = true → pc.notifying = true) : s'.Awake := by
  intro hdormant hne
  rw [hworkers] at hdormant
  rw [hqueue] at hne
  rw [hworkers, hcalls]
  exact (h hdormant hne).imp_right (update_exists hpc)

/-- A worker that does not look at the queue goes on. -/
theorem Awake.move_worker (h : s.Awake) (hworkers : s'.workers = Function.update s.workers w next)
    (hcalls : s'.calls = s.calls) (hqueue : s'.queue = s.queue)
    (hw : (s.workers w).looking = false)
    (hnext : next.dormant = true → (s.workers w).dormant = true) : s'.Awake := by
  intro hdormant hne
  rw [hqueue] at hne
  have hbefore : ∃ v, (s.workers v).dormant = true := by
    obtain ⟨v, hv⟩ := hdormant
    rw [hworkers] at hv
    by_cases hvw : v = w
    · rw [hvw, Function.update_self] at hv
      exact ⟨w, hnext hv⟩
    · rw [Function.update_of_ne hvw] at hv
      exact ⟨v, hv⟩
  rw [hworkers, hcalls]
  refine (h hbefore hne).imp_left (update_exists fun hl => ?_)
  rw [hw] at hl
  cases hl

/-! ## The last worker -/

/-- There is a worker, or a call may start one, or nothing is queued or going to be. -/
def Manned (pool : ThreadPool) (s : PoolState α) : Prop :=
  (∃ w, (s.workers w).live = true) ∨ (∃ n, (s.calls n).starts = true) ∨
    (s.queue = [] ∧ ∀ n, (s.calls n).relies pool = false)

theorem Manned.of_live (hw : (s.workers w).live = true) : s.Manned pool := .inl ⟨w, hw⟩

theorem Manned.of_starts (hn : (s.calls n).starts = true) : s.Manned pool := .inr (.inl ⟨n, hn⟩)

/-- A call that starts no worker goes on, and only a call that somebody sees to queues a task. -/
theorem Manned.move_call (h : s.Manned pool) (hcalls : s'.calls = Function.update s.calls n pc)
    (hworkers : s'.workers = s.workers) (hstarts : (s.calls n).starts = false)
    (hqueue : s'.queue = s.queue ∨ (s.calls n).relies pool = true)
    (hpc : pc.relies pool = true → (s.calls n).relies pool = true) : s'.Manned pool := by
  unfold Manned
  rw [hcalls, hworkers]
  refine h.imp_right (Or.imp (update_exists fun hf => ?_) fun hidle => ?_)
  · rw [hstarts] at hf
    cases hf
  · have hn := hidle.2 n
    refine ⟨?_, update_forall (p := fun _ (q : ExecutePc α) => q.relies pool = false) ?_
      fun m _ => hidle.2 m⟩
    · rcases hqueue with hsame | hrelies
      · exact hsame.trans hidle.1
      · rw [hn] at hrelies
        cases hrelies
    · rw [Bool.eq_false_iff]
      intro hrelies
      rw [hn] at hpc
      exact absurd (hpc hrelies) Bool.false_ne_true

theorem Manned.move_worker (hworkers : s'.workers = Function.update s.workers w next)
    (hnext : next.live = true) : s'.Manned pool := by
  refine .of_live (w := w) ?_
  rw [hworkers, Function.update_self]
  exact hnext

/-! ## Runs in which the last worker does not leave a task behind -/

/-- Threads can be created, and the last worker leaves only when a call may start another, or
when the queue is empty and no call relies on a worker. -/
def Careful (pool : ThreadPool) (s : PoolState α) (e : PoolEvent α) : Prop :=
  e.succeeds = true ∧
    ∀ w, e = .worker w → s.workers w = .leave → (∀ v, v ≠ w → (s.workers v).live = false) →
      (∃ n, (s.calls n).starts = true) ∨
        (s.queue = [] ∧ ∀ n, (s.calls n).relies pool = false)

/-- What holds in such runs. -/
structure Tended (pool : ThreadPool) (s : PoolState α) : Prop where
  books : s.Books
  guarded : s.Guarded
  awake : s.Awake
  manned : s.Manned pool
  created : ∀ n task, s.calls n ≠ .subActive task

theorem Tended.new : (PoolState.new : PoolState α).Tended pool where
  books := Books.new
  guarded :=
    ⟨fun _ hf => absurd hf Bool.false_ne_true, fun _ hf => absurd hf Bool.false_ne_true,
      fun _ => ⟨fun hf => absurd hf List.not_mem_nil, fun hf => by cases hf⟩⟩
  awake := .of_empty rfl
  manned := .inr (.inr ⟨rfl, fun _ => rfl⟩)
  created := fun _ _ hf => by cases hf

/-- A call moves. -/
theorem Tended.move_call (h : s.Tended pool) (n : Nat) (pc : ExecutePc α) (hbooks : s'.Books)
    (hcalls : s'.calls = Function.update s.calls n pc) (hworkers : s'.workers = s.workers)
    (hcond : s'.cond = s.cond)
    (hlock : Passes s s' (.call n) (s.calls n).holdsLock pc.holdsLock) (hawake : s'.Awake)
    (hmanned : s'.Manned pool) (hpc : ∀ task, pc ≠ .subActive task) : s'.Tended pool := by
  refine ⟨hbooks, h.guarded.move_call n pc hcalls hworkers hcond hlock, hawake, hmanned, ?_⟩
  rw [hcalls]
  exact update_forall (p := fun _ (q : ExecutePc α) => ∀ task, q ≠ .subActive task) hpc
    fun m _ => h.created m

/-- A worker moves. -/
theorem Tended.move_worker (h : s.Tended pool) (w : Nat) (next : WorkerPc α) (hbooks : s'.Books)
    (hworkers : s'.workers = Function.update s.workers w next) (hcalls : s'.calls = s.calls)
    (hcond : (w ∈ s'.cond ↔ next = .asleep) ∧ ∀ v, v ≠ w → (v ∈ s'.cond ↔ v ∈ s.cond))
    (hlock : Passes s s' (.worker w) (s.workers w).holdsLock next.holdsLock) (hawake : s'.Awake)
    (hmanned : s'.Manned pool) : s'.Tended pool := by
  refine ⟨hbooks, h.guarded.move_worker w next hworkers hcalls hcond hlock, hawake, hmanned, ?_⟩
  rw [hcalls]
  exact h.created

theorem Tended.exists_idle_live (h : s.Tended pool) (hpos : 0 < s.idleWorkers) :
    ∃ w, (s.workers w).live = true := by
  obtain ⟨w, hw⟩ := h.books.exists_idle hpos
  exact ⟨w, WorkerPc.live_of_idle hw⟩

/-- When the limit of workers is reached there is one, or there will be. -/
theorem Tended.manned_of_active (h : s.Tended pool) (hpos : 0 < s.activeWorkers) :
    (∃ w, (s.workers w).live = true) ∨ ∃ n task, s.calls n = .spawn task := by
  refine (h.books.exists_active hpos).imp_right ?_
  rintro ⟨n, hn⟩
  refine ⟨n, ?_⟩
  cases hpc : s.calls n with
  | spawn task => exact ⟨task, rfl⟩
  | subActive task => exact absurd hpc (h.created n task)
  | absent | loadIdle | loadActive | addActive | loadCount | addCount | push | loadIdleAgain | lock
  | notify | unlock | returned =>
    rw [hpc] at hn
    cases hn

theorem Tended.no_dormant (h : s.Tended pool) (hzero : s.idleWorkers = 0) (w : Nat) :
    (s.workers w).dormant = false := by
  rw [Bool.eq_false_iff]
  intro hw
  have hpos := h.books.idle_pos (WorkerPc.idle_of_dormant hw)
  omega

/-- A call that has queued nothing goes on, without the lock. -/
theorem Tended.move_early (h : s.Tended pool) (n : Nat) (pc : ExecutePc α) (hbooks : s'.Books)
    (hcalls : s'.calls = Function.update s.calls n pc)
    (hsame : s'.workers = s.workers ∧ s'.cond = s.cond ∧ s'.queue = s.queue ∧
      s'.sleeperLock = s.sleeperLock)
    (hearly : (s.calls n).notifying = false) (hlock : pc.holdsLock = false)
    (hmanned : s'.Manned pool) (hpc : ∀ task, pc ≠ .subActive task) : s'.Tended pool := by
  obtain ⟨hworkers, hcond, hqueue, hsame⟩ := hsame
  refine h.move_call n pc hbooks hcalls hworkers hcond (.inl ⟨hsame, fun hf => ?_⟩)
    (h.awake.move_call hcalls hworkers hqueue fun hf => ?_) hmanned hpc
  · rw [hlock] at hf
    cases hf
  · rw [hearly] at hf
    cases hf

/-- A call queues its task, and is going to notify somebody. -/
theorem Tended.push (h : s.Tended pool) {on : Reliance} {task : α}
    (hold : s.calls n = .push on task) (hbooks : s'.Books)
    (hcalls : s'.calls = Function.update s.calls n pc)
    (hsame : s'.workers = s.workers ∧ s'.cond = s.cond ∧ s'.sleeperLock = s.sleeperLock)
    (hpc : pc = .loadIdleAgain ∨ pc = .lock) : s'.Tended pool := by
  obtain ⟨hworkers, hcond, hlock⟩ := hsame
  have hflags : pc.notifying = true ∧ pc.holdsLock = false ∧ pc.relies pool = false ∧
      ∀ t, pc ≠ .subActive t := by
    rcases hpc with rfl | rfl
    · exact ⟨rfl, rfl, rfl, fun _ hf => by cases hf⟩
    · exact ⟨rfl, rfl, rfl, fun _ hf => by cases hf⟩
  obtain ⟨hnotifying, hholds, hrelies, hsub⟩ := hflags
  refine h.move_call n pc hbooks hcalls hworkers hcond (.inl ⟨hlock, fun hf => ?_⟩)
    (.of_notifying (n := n) ?_)
    (h.manned.move_call hcalls hworkers (by rw [hold]; rfl) (.inr (by rw [hold]; rfl))
      fun hf => ?_) hsub
  · rw [hholds] at hf
    cases hf
  · rw [hcalls, Function.update_self]
    exact hnotifying
  · rw [hrelies] at hf
    cases hf

theorem Tended.executeStep (h : s.Tended pool) (hmax : 0 < pool.maxThreads)
    (hs : s.executeStep pool n = some s') : s'.Tended pool := by
  have hbooks := h.books.executeStep hs
  unfold PoolState.executeStep at hs
  split at hs
  case h_1 task hpc =>
    cases hs
    have hearly : (s.calls n).notifying = false := by rw [hpc]; rfl
    by_cases hidle : 0 < s.idleWorkers
    · rw [if_pos hidle] at hbooks ⊢
      obtain ⟨w, hw⟩ := h.exists_idle_live hidle
      exact h.move_early n _ hbooks rfl ⟨rfl, rfl, rfl, rfl⟩ hearly rfl (.of_live (w := w) hw)
        fun _ hf => by cases hf
    · rw [if_neg hidle] at hbooks ⊢
      refine h.move_early n (.loadActive task) hbooks rfl ⟨rfl, rfl, rfl, rfl⟩ hearly rfl
        (.of_starts (n := n) ?_) fun _ hf => by cases hf
      rw [setCall_self]
      rfl
  case h_2 task hpc =>
    cases hs
    have hearly : (s.calls n).notifying = false := by rw [hpc]; rfl
    by_cases hactive : s.activeWorkers < pool.maxThreads
    · rw [if_pos hactive] at hbooks ⊢
      refine h.move_early n (.addActive task) hbooks rfl ⟨rfl, rfl, rfl, rfl⟩ hearly rfl
        (.of_starts (n := n) ?_) fun _ hf => by cases hf
      rw [setCall_self]
      rfl
    · rw [if_neg hactive] at hbooks ⊢
      refine h.move_early n (.loadCount task) hbooks rfl ⟨rfl, rfl, rfl, rfl⟩ hearly rfl ?_
        fun _ hf => by cases hf
      rcases h.manned_of_active (by omega) with ⟨w, hw⟩ | ⟨m, other, hm⟩
      · exact .of_live (w := w) hw
      · refine .of_starts (n := m) ?_
        have hne : m ≠ n := by
          rintro rfl
          rw [hm] at hpc
          cases hpc
        show (Function.update s.calls n _ m).starts = true
        rw [Function.update_of_ne hne, hm]
        rfl
  case h_3 task hpc =>
    cases hs
    refine h.move_early n (.spawn task) hbooks rfl ⟨rfl, rfl, rfl, rfl⟩ (by rw [hpc]; rfl) rfl
      (.of_starts (n := n) ?_) fun _ hf => by cases hf
    show ((s.setCall n (.spawn task)).calls n).starts = true
    rw [setCall_self]
    rfl
  case h_4 task hpc => exact absurd hpc (h.created n task)
  case h_5 task hpc =>
    cases hs
    have hearly : (s.calls n).notifying = false := by rw [hpc]; rfl
    by_cases hcount : s.taskCount < pool.queueCapacity
    · rw [if_pos hcount] at hbooks ⊢
      refine h.move_early n (.addCount .queued task) hbooks rfl ⟨rfl, rfl, rfl, rfl⟩ hearly rfl
        (h.manned.move_call rfl rfl (by rw [hpc]; rfl) (.inl rfl) fun _ => ?_) fun _ hf => by cases hf
      rw [hpc]
      exact decide_eq_true (by omega)
    · rw [if_neg hcount] at hbooks ⊢
      exact h.move_early n (.returned (.error .overloaded)) hbooks rfl ⟨rfl, rfl, rfl, rfl⟩ hearly
        rfl (h.manned.move_call rfl rfl (by rw [hpc]; rfl) (.inl rfl)
          fun hf => absurd hf Bool.false_ne_true) fun _ hf => by cases hf
  case h_6 on task hpc =>
    cases hs
    exact h.move_early n (.push on task) hbooks rfl ⟨rfl, rfl, rfl, rfl⟩ (by rw [hpc]; rfl) rfl
      (h.manned.move_call rfl rfl (by rw [hpc]; rfl) (.inl rfl) fun _ => by rw [hpc]; rfl)
      fun _ hf => by cases hf
  case h_7 on task hpc =>
    cases hs
    refine h.push hpc hbooks rfl ⟨rfl, rfl, rfl⟩ ?_
    split
    · exact .inl rfl
    · exact .inr rfl
  case h_8 hpc =>
    cases hs
    have hstarts : (s.calls n).starts = false := by rw [hpc]; rfl
    by_cases hidle : 0 < s.idleWorkers
    · rw [if_pos hidle] at hbooks ⊢
      exact h.move_call n .lock hbooks rfl rfl rfl
        (.inl ⟨rfl, fun hf => absurd hf Bool.false_ne_true⟩)
        (h.awake.move_call rfl rfl rfl fun _ => rfl)
        (h.manned.move_call rfl rfl hstarts (.inl rfl) fun hf => absurd hf Bool.false_ne_true)
        fun _ hf => by cases hf
    · rw [if_neg hidle] at hbooks ⊢
      exact h.move_call n (.returned (.ok ())) hbooks rfl rfl rfl
        (.inl ⟨rfl, fun hf => absurd hf Bool.false_ne_true⟩)
        (.of_no_dormant fun w => h.no_dormant (by omega) w)
        (h.manned.move_call rfl rfl hstarts (.inl rfl) fun hf => absurd hf Bool.false_ne_true)
        fun _ hf => by cases hf
  case h_9 hpc =>
    obtain ⟨hfree, rfl⟩ := acquire_eq _ _ hs
    exact h.move_call n .notify hbooks rfl rfl rfl (.inr (.inl ⟨hfree, rfl⟩))
      (h.awake.move_call rfl rfl rfl fun _ => rfl)
      (h.manned.move_call rfl rfl (by rw [hpc]; rfl) (.inl rfl)
        fun hf => absurd hf Bool.false_ne_true) fun _ hf => by cases hf
  case h_10 hpc =>
    cases hs
    refine h.move_call n (.returned (.ok ())) hbooks rfl rfl rfl
      (.inr (.inr ⟨by rw [hpc]; rfl, rfl⟩)) (h.awake.move_call rfl rfl rfl fun hf => ?_)
      (h.manned.move_call rfl rfl (by rw [hpc]; rfl) (.inl rfl)
        fun hf => absurd hf Bool.false_ne_true) fun _ hf => by cases hf
    rw [hpc] at hf
    cases hf
  all_goals cases hs

theorem not_asleep (hw : s.workers w = next) (hnext : next.dormant = false) :
    s.workers w ≠ .asleep := by
  rintro heq
  rw [← hw, heq] at hnext
  cases hnext

/-- A worker goes on that looks at the queue before and after. -/
theorem Tended.move_looking (h : s.Tended pool) (w : Nat) (next : WorkerPc α) (hbooks : s'.Books)
    (hworkers : s'.workers = Function.update s.workers w next) (hcalls : s'.calls = s.calls)
    (hcond : s'.cond = s.cond)
    (hlock : Passes s s' (.worker w) (s.workers w).holdsLock next.holdsLock)
    (hold : s.workers w ≠ .asleep) (hnext : next.looking = true) : s'.Tended pool := by
  refine h.move_worker w next hbooks hworkers hcalls
    (h.guarded.stays_up hold (fun heq => ?_) hcond) hlock (.of_looking (w := w) ?_)
    (.move_worker hworkers (WorkerPc.live_of_looking hnext))
  · rw [heq] at hnext
    cases hnext
  · rw [hworkers, Function.update_self]
    exact hnext

/-- A worker goes on that has seen the queue empty. -/
theorem Tended.move_empty (h : s.Tended pool) (w : Nat) (next : WorkerPc α) (hbooks : s'.Books)
    (hworkers : s'.workers = Function.update s.workers w next) (hcalls : s'.calls = s.calls)
    (hcond : s'.cond = s.cond) (hqueue : s'.queue = [])
    (hlock : Passes s s' (.worker w) (s.workers w).holdsLock next.holdsLock)
    (hold : s.workers w ≠ .asleep) (hnext : next ≠ .asleep) (hlive : next.live = true) :
    s'.Tended pool :=
  h.move_worker w next hbooks hworkers hcalls (h.guarded.stays_up hold hnext hcond) hlock
    (.of_empty hqueue) (.move_worker hworkers hlive)

/-- A worker pops, and goes on with the task or with the empty queue. -/
theorem Tended.popFor (h : s.Tended pool) {found : α → WorkerPc α} {empty : WorkerPc α}
    (hbooks : (s.popFor w found empty).Books) (hold : s.workers w ≠ .asleep)
    (hempty : empty ≠ .asleep ∧ empty.live = true ∧ empty.holdsLock = (s.workers w).holdsLock)
    (hfound : ∀ task, (found task).looking = true ∧
      (found task).holdsLock = (s.workers w).holdsLock) : (s.popFor w found empty).Tended pool := by
  unfold PoolState.popFor at hbooks ⊢
  split
  · rename_i hqueue
    rw [hqueue] at hbooks
    refine h.move_empty w empty hbooks rfl rfl rfl hqueue (.inl ⟨rfl, fun hf => ?_⟩) hold hempty.1
      hempty.2.1
    rw [← hempty.2.2]
    exact hf
  · rename_i task rest hqueue
    rw [hqueue] at hbooks
    refine h.move_looking w (found task) hbooks rfl rfl rfl (.inl ⟨rfl, fun hf => ?_⟩) hold
      (hfound task).1
    rw [← (hfound task).2]
    exact hf

/-- The guard of a worker is dropped. -/
theorem Tended.leave (h : s.Tended pool) (hw : s.workers w = .leave)
    (hcareful : (∀ v, v ≠ w → (s.workers v).live = false) →
      (∃ n, (s.calls n).starts = true) ∨
        (s.queue = [] ∧ ∀ n, (s.calls n).relies pool = false)) (hbooks : s'.Books)
    (hworkers : s'.workers = Function.update s.workers w .gone)
    (hsame : s'.calls = s.calls ∧ s'.cond = s.cond ∧ s'.queue = s.queue ∧
      s'.sleeperLock = s.sleeperLock) : s'.Tended pool := by
  obtain ⟨hcalls, hcond, hqueue, hlock⟩ := hsame
  have hold : s.workers w ≠ .asleep := fun heq => by rw [hw] at heq; cases heq
  refine h.move_worker w .gone hbooks hworkers hcalls
    (h.guarded.stays_up hold (fun heq => by cases heq) hcond)
    (.inl ⟨hlock, fun hf => absurd hf Bool.false_ne_true⟩)
    (h.awake.move_worker hworkers hcalls hqueue (by rw [hw]; rfl)
      fun hf => absurd hf Bool.false_ne_true) ?_
  by_cases hother : ∃ v, v ≠ w ∧ (s.workers v).live = true
  · obtain ⟨v, hv, hlive⟩ := hother
    refine .of_live (w := v) ?_
    rw [hworkers, Function.update_of_ne hv]
    exact hlive
  · refine .inr ?_
    rw [hcalls, hqueue]
    exact hcareful fun v hv => Bool.eq_false_iff.mpr fun hlive => hother ⟨v, hv, hlive⟩

theorem Tended.workerLoopStep (h : s.Tended pool) (hcareful : Careful pool s (.worker w))
    (hs : s.workerLoopStep pool w = some s') : s'.Tended pool := by
  have hbooks := h.books.workerLoopStep hs
  unfold PoolState.workerLoopStep at hs
  split at hs
  case h_1 hpc =>
    cases hs
    exact h.popFor hbooks (not_asleep hpc rfl) ⟨(fun hf => by cases hf), rfl, by rw [hpc]; rfl⟩
      fun _ => ⟨rfl, by rw [hpc]; rfl⟩
  case h_2 hpc =>
    cases hs
    exact h.move_looking w .lock hbooks rfl rfl rfl
      (.inl ⟨rfl, fun hf => absurd hf Bool.false_ne_true⟩) (not_asleep hpc rfl) rfl
  case h_3 hpc =>
    obtain ⟨hfree, rfl⟩ := acquire_eq _ _ hs
    exact h.move_looking w .popLocked hbooks rfl rfl rfl (.inr (.inl ⟨hfree, rfl⟩)) (not_asleep hpc rfl) rfl
  case h_4 hpc =>
    cases hs
    exact h.popFor hbooks (not_asleep hpc rfl) ⟨(fun hf => by cases hf), rfl, by rw [hpc]; rfl⟩
      fun _ => ⟨rfl, by rw [hpc]; rfl⟩
  case h_5 task hpc =>
    cases hs
    exact h.move_looking w (.subIdleWith task) hbooks rfl rfl rfl
      (.inr (.inr ⟨by rw [hpc]; rfl, rfl⟩)) (not_asleep hpc rfl) rfl
  case h_6 task hpc =>
    cases hs
    exact h.move_looking w (.subCount task) hbooks rfl rfl rfl
      (.inl ⟨rfl, fun hf => absurd hf Bool.false_ne_true⟩) (not_asleep hpc rfl) rfl
  case h_7 task hpc =>
    cases hs
    exact h.move_looking w (.run task) hbooks rfl rfl rfl
      (.inl ⟨rfl, fun hf => absurd hf Bool.false_ne_true⟩) (not_asleep hpc rfl) rfl
  case h_8 task hpc =>
    cases hs
    exact h.move_looking w .pop hbooks rfl rfl rfl
      (.inl ⟨rfl, fun hf => absurd hf Bool.false_ne_true⟩) (not_asleep hpc rfl) rfl
  case h_9 hpc =>
    cases hs
    have hold : s.workers w ≠ .asleep := fun heq => by rw [hpc] at heq; cases heq
    refine h.move_worker w .asleep hbooks rfl rfl ⟨?_, fun v hv => ?_⟩
      (.inr (.inr ⟨by rw [hpc]; rfl, rfl⟩))
      (h.awake.move_worker rfl rfl rfl (by rw [hpc]; rfl) fun _ => by rw [hpc]; rfl)
      (.move_worker rfl rfl)
    · exact ⟨fun _ => rfl, fun _ => List.mem_append_right _ (List.mem_singleton.mpr rfl)⟩
    · show v ∈ s.cond ++ [w] ↔ v ∈ s.cond
      rw [List.mem_append, List.mem_singleton]
      exact ⟨fun hin => hin.resolve_right hv, .inl⟩
  case h_10 timedOut hpc =>
    obtain ⟨hfree, rfl⟩ := acquire_eq _ _ hs
    exact h.move_looking w (.unlock timedOut) hbooks rfl rfl rfl (.inr (.inl ⟨hfree, rfl⟩))
      (not_asleep hpc rfl) rfl
  case h_11 timedOut hpc =>
    cases hs
    exact h.move_looking w (.subIdle timedOut) hbooks rfl rfl rfl
      (.inr (.inr ⟨by rw [hpc]; rfl, rfl⟩)) (not_asleep hpc rfl) rfl
  case h_12 timedOut hpc =>
    cases hs
    cases timedOut with
    | false =>
      exact h.move_looking w .pop hbooks rfl rfl rfl
        (.inl ⟨rfl, fun hf => absurd hf Bool.false_ne_true⟩) (not_asleep hpc rfl) rfl
    | true =>
      exact h.move_looking w .checkEmpty hbooks rfl rfl rfl
        (.inl ⟨rfl, fun hf => absurd hf Bool.false_ne_true⟩) (not_asleep hpc rfl) rfl
  case h_13 hpc =>
    cases hs
    by_cases hempty : s.queue.isEmpty
    · rw [if_pos hempty] at hbooks ⊢
      exact h.move_empty w .loadActive hbooks rfl rfl rfl (List.isEmpty_iff.mp hempty)
        (.inl ⟨rfl, fun hf => absurd hf Bool.false_ne_true⟩) (not_asleep hpc rfl) (fun hf => by cases hf) rfl
    · rw [if_neg hempty] at hbooks ⊢
      exact h.move_looking w .pop hbooks rfl rfl rfl
        (.inl ⟨rfl, fun hf => absurd hf Bool.false_ne_true⟩) (not_asleep hpc rfl) rfl
  case h_14 hpc =>
    cases hs
    by_cases hcore : pool.coreThreads < s.activeWorkers
    · rw [if_pos hcore] at hbooks ⊢
      exact h.move_worker w .leave hbooks rfl rfl
        (h.guarded.stays_up (not_asleep hpc rfl) (fun hf => by cases hf) rfl)
        (.inl ⟨rfl, fun hf => absurd hf Bool.false_ne_true⟩)
        (h.awake.move_worker rfl rfl rfl (by rw [hpc]; rfl)
          fun hf => absurd hf Bool.false_ne_true) (.move_worker rfl rfl)
    · rw [if_neg hcore] at hbooks ⊢
      exact h.move_looking w .pop hbooks rfl rfl rfl
        (.inl ⟨rfl, fun hf => absurd hf Bool.false_ne_true⟩) (not_asleep hpc rfl) rfl
  case h_15 hpc =>
    cases hs
    exact h.leave hpc (hcareful.2 w rfl hpc) hbooks rfl ⟨rfl, rfl, rfl, rfl⟩
  all_goals cases hs

/-! ## All steps -/

/-- Who holds the lock keeps the workers from falling asleep. -/
theorem Guarded.none_waits (h : s.Guarded) (hn : (s.calls n).holdsLock = true)
    (hcond : s.cond = []) (w : Nat) : (s.workers w).dormant = false := by
  cases hw : s.workers w with
  | wait =>
    have hlock := h.worker w (by rw [hw]; rfl)
    rw [h.call n hn] at hlock
    cases hlock
  | asleep =>
    have hin := (h.cond w).mpr hw
    rw [hcond] at hin
    cases hin
  | absent | pop | addIdle | lock | popLocked | unlockWith | subIdleWith | subCount | run | relock
  | unlock | subIdle | checkEmpty | loadActive | leave | gone => rfl

theorem Tended.wake (h : s.Tended pool) (hw : w ∈ s.cond) (timedOut : Bool) :
    (s.wake w timedOut).Tended pool := by
  refine ⟨h.books.wake ((h.guarded.cond w).mp hw) timedOut, h.guarded.wake hw timedOut,
    .of_looking (w := w) ?_, .of_live (w := w) ?_, h.created⟩
  · show (Function.update s.workers w (.relock timedOut) w).looking = true
    rw [Function.update_self]
    rfl
  · show (Function.update s.workers w (.relock timedOut) w).live = true
    rw [Function.update_self]
    rfl

/-- `notify_one` is over. -/
theorem Tended.notified (h : s.Tended pool) (hn : s.calls n = .notify)
    (hbooks : (s.setCall n .unlock).Books)
    (hsomebody : (∃ w, (s.workers w).looking = true) ∨ ∀ w, (s.workers w).dormant = false) :
    (s.setCall n .unlock).Tended pool := by
  refine h.move_call n .unlock hbooks rfl rfl rfl (.inl ⟨rfl, fun _ => by rw [hn]; rfl⟩) ?_
    (h.manned.move_call rfl rfl (by rw [hn]; rfl) (.inl rfl)
      fun hf => absurd hf Bool.false_ne_true) fun _ hf => by cases hf
  rcases hsomebody with ⟨w, hw⟩ | hnone
  · exact .of_looking (w := w) hw
  · exact .of_no_dormant hnone

theorem Tended.spawns (h : s.Tended pool) {task : α} (hn : s.calls n = .spawn task)
    (hw : s.workers w = .absent)
    (hbooks : ((s.setCall n (.addCount .spawned task)).setWorker w .pop).Books) :
    ((s.setCall n (.addCount .spawned task)).setWorker w .pop).Tended pool := by
  have hlooking : (((s.setCall n (.addCount .spawned task)).setWorker w .pop).workers w).looking =
      true := by
    rw [setWorker_self]
    rfl
  refine ⟨hbooks, ?_, .of_looking hlooking, .of_live (WorkerPc.live_of_looking hlooking), ?_⟩
  · have hcall : (s.setCall n (.addCount .spawned task)).Guarded :=
      h.guarded.move_call n _ rfl rfl rfl (.inl ⟨rfl, fun hf => absurd hf Bool.false_ne_true⟩)
    refine hcall.move_worker w .pop rfl rfl (hcall.stays_up ?_ (fun hf => by cases hf) rfl)
      (.inl ⟨rfl, fun hf => absurd hf Bool.false_ne_true⟩)
    exact not_asleep hw rfl
  · exact update_forall (p := fun _ (q : ExecutePc α) => ∀ t, q ≠ .subActive t)
      (fun _ hf => by cases hf) fun m _ => h.created m

theorem Tended.step (h : s.Tended pool) (hmax : 0 < pool.maxThreads) {e : PoolEvent α}
    (hcareful : Careful pool s e) (hs : s.step pool e = some s') : s'.Tended pool := by
  have hbooks := h.books.step (h.guarded.cond · |>.mp) hs
  cases e with
  | execute n task =>
    simp only [PoolState.step] at hs
    split at hs
    · rename_i hpc
      cases hs
      refine h.move_early n (.loadIdle task) hbooks rfl ⟨rfl, rfl, rfl, rfl⟩ (by rw [hpc]; rfl) rfl
        (.of_starts (n := n) ?_) fun _ hf => by cases hf
      rw [setCall_self]
      rfl
    · cases hs
  | call n => exact h.executeStep hmax hs
  | spawns n w =>
    simp only [PoolState.step] at hs
    split at hs
    · rename_i task hn hw
      cases hs
      exact h.spawns hn hw hbooks
    · cases hs
  | spawnFails n => exact absurd hcareful.1 Bool.false_ne_true
  | notifies n w =>
    simp only [PoolState.step] at hs
    split at hs
    · rename_i hn
      have hlock : (s.calls n).holdsLock = true := by rw [hn]; rfl
      split at hs
      · rename_i hempty
        cases hs
        exact h.notified hn hbooks
          (.inr (h.guarded.none_waits hlock (List.isEmpty_iff.mp hempty)))
      · obtain ⟨hw, heq⟩ := Option.ite_none_right_eq_some.mp hs
        rw [← Option.some.inj heq] at hbooks ⊢
        refine (h.wake hw false).notified hn hbooks (.inl ⟨w, ?_⟩)
        show (Function.update s.workers w (.relock false) w).looking = true
        rw [Function.update_self]
        rfl
    · cases hs
  | worker w => exact h.workerLoopStep hcareful hs
  | timeout w =>
    simp only [PoolState.step] at hs
    obtain ⟨hw, heq⟩ := Option.ite_none_right_eq_some.mp hs
    rw [← Option.some.inj heq]
    exact h.wake hw true

/-! ## Runs -/

/-- No call is in progress, and every worker is gone or waits for a notification. -/
def Quiet (s : PoolState α) : Prop :=
  (∀ n, (s.calls n).inProgress = false) ∧ ∀ w, (s.workers w).atRest = true

/-- Whatever is queued when nothing moves any more, nobody relies on. -/
theorem Tended.queue_empty (h : s.Tended pool) (hquiet : s.Quiet) : s.queue = [] := by
  obtain ⟨hcalls, hworkers⟩ := hquiet
  by_contra hne
  rcases h.manned with ⟨w, hw⟩ | ⟨n, hn⟩ | ⟨hempty, -⟩
  · -- a worker at rest that is there sleeps
    rcases h.awake ⟨w, WorkerPc.dormant_of_atRest (hworkers w) hw⟩ hne with ⟨v, hv⟩ | ⟨n, hn⟩
    · rw [WorkerPc.not_looking_of_atRest (hworkers v)] at hv
      cases hv
    · rw [(ExecutePc.passive_of_not_inProgress (hcalls n)).2] at hn
      cases hn
  · rw [(ExecutePc.passive_of_not_inProgress (hcalls n)).1] at hn
    cases hn
  · exact hne hempty

/-- No task is stranded while the last worker does not leave one behind. -/
theorem tasks_not_stranded (pool : ThreadPool) (hmax : 0 < pool.maxThreads) (s : PoolState α)
    (h : Run (PoolStep pool) (Careful pool) (· = PoolState.new) s) (hquiet : s.Quiet) :
    s.queue = [] := by
  have htended : s.Tended pool := by
    refine h.invariant (fun s hs => ?_) fun _ _ _ hinv hcareful hstep => hinv.step hmax hcareful hstep
    rw [hs]
    exact Tended.new
  exact htended.queue_empty hquiet

/-- Threads can be created. -/
def Spawning (_ : PoolState α) (e : PoolEvent α) : Prop := e.succeeds = true

/-- Neither a thread that cannot be created nor a worker that leaves. -/
def remains (s : PoolState α) (e : PoolEvent α) : Bool :=
  e.succeeds &&
    match e with
    | .worker w =>
        match s.workers w with
        | .leave => false
        | _ => true
    | _ => true

theorem careful_of_remains {e : PoolEvent α} (h : s.remains e = true) : Careful pool s e := by
  obtain ⟨hsucceeds, hstays⟩ := Bool.and_eq_true_iff.mp h
  refine ⟨hsucceeds, ?_⟩
  rintro w rfl hw
  simp only [hw] at hstays
  cases hstays

/-- A call starts worker 0, which runs the task and falls asleep. -/
def oneTask : List (PoolEvent Nat) :=
  [.execute 0 7, .call 0, .call 0, .call 0, .spawns 0 0, .call 0, .call 0, .worker 0, .worker 0,
    .call 0, .notifies 0 0, .call 0, .worker 0, .worker 0, .worker 0, .worker 0, .worker 0,
    .worker 0]

/-- A second call counts on that worker, whose time is over. -/
def lateTask : List (PoolEvent Nat) :=
  [.execute 1 8, .call 1, .timeout 0, .worker 0, .worker 0, .worker 0, .worker 0, .worker 0,
    .call 1, .call 1, .call 1, .notifies 1 0, .call 1, .worker 0]

theorem no_core_le_one : 0 ≤ 1 := Nat.zero_le 1

def single : ThreadPool := ⟨0, 1, 10, no_core_le_one⟩

def servedState : PoolState Nat :=
  (replay (fun s e => s.step single e) (fun s e => s.remains e) new oneTask).get (by decide +kernel)

theorem tasks_not_stranded_served : servedState.queue = [] := by
  have hreplay : replay (fun s e => s.step single e) (fun s e => s.remains e) new oneTask =
      some servedState := (Option.some_get _).symm
  have hstart : Run (PoolStep single) (Careful single) (· = new) (new : PoolState Nat) := .start rfl
  refine tasks_not_stranded single (by decide) servedState
    (hstart.replay (fun _ _ _ h => h) (fun _ _ h => careful_of_remains h) hreplay)
    ⟨fun n => ?_, fun w => ?_⟩
  · cases n with
    | zero => decide +kernel
    | succ n => rfl
  · cases w with
    | zero => decide +kernel
    | succ w => rfl

def strandedState : PoolState Nat :=
  (replay (fun s e => s.step single e) (fun _ e => e.succeeds) new (oneTask ++ lateTask)).get
    (by decide +kernel)

/-- The worker has seen the queue empty before the task came, and the call counts on it: the
task stays in the queue with nobody left. -/
theorem task_stranded :
    ¬ ∀ (pool : ThreadPool) (s : PoolState Nat), 0 < pool.maxThreads →
      Run (PoolStep pool) Spawning (· = new) s → s.Quiet → s.queue = [] := by
  intro hclaim
  have hreplay : replay (fun s e => s.step single e) (fun _ e => e.succeeds) new
      (oneTask ++ lateTask) = some strandedState := (Option.some_get _).symm
  have hstart : Run (PoolStep single) Spawning (· = new) (new : PoolState Nat) := .start rfl
  have hrun := hstart.replay (fun _ _ _ h => h) (fun _ _ h => h) hreplay
  have hqueue : strandedState.queue = [8] := by decide +kernel
  have hempty := hclaim single strandedState (by decide) hrun ⟨fun n => ?_, fun w => ?_⟩
  · rw [hqueue] at hempty
    cases hempty
  · rcases n with _ | _ | n
    · decide +kernel
    · decide +kernel
    · rfl
  · cases w with
    | zero => decide +kernel
    | succ w => rfl

end PoolState

end Veloq.Blocking
