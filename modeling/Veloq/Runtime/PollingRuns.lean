import Mathlib.Tactic.Common
import Mathlib.Data.List.Count
import Veloq.Runtime.Polling
set_option autoImplicit false

/-!
# Runtime: runs of polls on nested stacks

Per task, the entries that have entered its poll are all on one worker: for a `Send` task
because of `POLLING`, for a local task because it never leaves its worker.
-/

namespace Veloq.Runtime.Polling

open Foundation

/-! ## Counting entries -/

/-- How many entries of a stack have entered the poll of the task. -/
def holdsIn (stack : List Frame) (t : Nat) : Nat :=
  stack.countP fun f => f.task == t && f.pc.holds

section Counts

variable {stack : List Frame} {t u : Nat} {pc : FramePc}

theorem holdsIn_cons (stack : List Frame) (t u : Nat) (pc : FramePc) :
    holdsIn (⟨t, pc⟩ :: stack) u = holdsIn stack u + if t = u ∧ pc.holds = true then 1 else 0 := by
  unfold holdsIn
  rw [List.countP_cons]
  simp only [Bool.and_eq_true, beq_iff_eq]

theorem pollsIn_cons (stack : List Frame) (t u : Nat) (pc : FramePc) :
    pollsIn (⟨t, pc⟩ :: stack) u = pollsIn stack u + if t = u ∧ pc = .poll then 1 else 0 := by
  unfold pollsIn
  rw [List.countP_cons]
  simp only [Bool.and_eq_true, beq_iff_eq]

theorem holdsIn_cons_ne (hne : t ≠ u) : holdsIn (⟨t, pc⟩ :: stack) u = holdsIn stack u := by
  rw [holdsIn_cons, if_neg fun h => hne h.1, Nat.add_zero]

theorem pollsIn_cons_ne (hne : t ≠ u) : pollsIn (⟨t, pc⟩ :: stack) u = pollsIn stack u := by
  rw [pollsIn_cons, if_neg fun h => hne h.1, Nat.add_zero]

theorem holdsIn_cons_out (hpc : pc.holds = false) :
    holdsIn (⟨t, pc⟩ :: stack) u = holdsIn stack u := by
  rw [holdsIn_cons, if_neg fun h => Bool.false_ne_true (hpc.symm.trans h.2), Nat.add_zero]

theorem pollsIn_cons_out (hpc : pc ≠ .poll) : pollsIn (⟨t, pc⟩ :: stack) u = pollsIn stack u := by
  rw [pollsIn_cons, if_neg fun h => hpc h.2, Nat.add_zero]

theorem holdsIn_cons_self (hpc : pc.holds = true) :
    holdsIn (⟨t, pc⟩ :: stack) t = holdsIn stack t + 1 := by
  rw [holdsIn_cons, if_pos ⟨rfl, hpc⟩]

theorem pollsIn_cons_self : pollsIn (⟨t, .poll⟩ :: stack) t = pollsIn stack t + 1 := by
  rw [pollsIn_cons, if_pos ⟨rfl, rfl⟩]

/-- An entry inside `poll_fn` has entered the poll. -/
theorem pollsIn_le_holdsIn (stack : List Frame) (t : Nat) : pollsIn stack t ≤ holdsIn stack t := by
  refine List.countP_mono_left fun f _ hf => ?_
  rw [Bool.and_eq_true, beq_iff_eq, beq_iff_eq] at hf
  rw [Bool.and_eq_true, beq_iff_eq, hf.2]
  exact ⟨hf.1, rfl⟩

end Counts

/-! ## Whose turn it is -/

/-- All entries that have entered the poll of `t` are on the worker `home`, at most one of
them inside `poll_fn`, and for a `Send` task `POLLING` says whether there is one. -/
structure Turn (task : Task) (t : Nat) (frames : Nat → List Frame) (home : Nat) : Prop where
  alone : ∀ w, w ≠ home → holdsIn (frames w) t = 0
  active : task.active = pollsIn (frames home) t
  once : pollsIn (frames home) t ≤ 1
  localTask : ∀ w, task.kind = .localTask w → home = w
  polling : task.kind.isLocal = false →
    holdsIn (frames home) t = if task.polling then 1 else 0

namespace Turn

variable {task task' : Task} {t w home : Nat} {frames : Nat → List Frame} {stack rest : List Frame}

/-- Only the entries of the task itself count. -/
theorem congr (h : Turn task t frames home) (hkind : task'.kind = task.kind)
    (hactive : task'.active = task.active) (hpolling : task'.polling = task.polling)
    (hholds : holdsIn stack t = holdsIn (frames w) t)
    (hpolls : pollsIn stack t = pollsIn (frames w) t) :
    Turn task' t (Function.update frames w stack) home := by
  have hholds' : ∀ v, holdsIn (Function.update frames w stack v) t = holdsIn (frames v) t := by
    intro v
    by_cases hv : v = w
    · subst hv
      rw [Function.update_self, hholds]
    · rw [Function.update_of_ne hv]
  have hpolls' : ∀ v, pollsIn (Function.update frames w stack v) t = pollsIn (frames v) t := by
    intro v
    by_cases hv : v = w
    · subst hv
      rw [Function.update_self, hpolls]
    · rw [Function.update_of_ne hv]
  refine ⟨fun v hv => ?_, ?_, ?_, fun v hv => ?_, fun hlocal => ?_⟩
  · rw [hholds']
    exact h.alone v hv
  · rw [hactive, hpolls']
    exact h.active
  · rw [hpolls']
    exact h.once
  · exact h.localTask v (hkind.symm.trans hv)
  · rw [hholds', hpolling]
    exact h.polling (by rw [← hkind]; exact hlocal)

/-- A worker with an entry that has entered the poll is the one. -/
theorem home_eq (h : Turn task t frames home) (hin : 0 < holdsIn (frames w) t) : home = w := by
  by_contra hne
  rw [h.alone w (Ne.symm hne)] at hin
  exact absurd hin (Nat.lt_irrefl 0)

/-- What becomes of the turn when the worker `w`, which has all the entries, goes on. -/
theorem act (h : Turn task t frames home) (hhome : home = w ∨ holdsIn (frames home) t = 0)
    (hactive : task'.active = pollsIn stack t) (honce : pollsIn stack t ≤ 1)
    (hkind : task'.kind = task.kind) (hlocal : ∀ v, task.kind = .localTask v → w = v)
    (hpolling : task.kind.isLocal = false → holdsIn stack t = if task'.polling then 1 else 0) :
    Turn task' t (Function.update frames w stack) w := by
  refine ⟨fun v hv => ?_, ?_, ?_, fun v hv => ?_, fun hl => ?_⟩
  · rw [Function.update_of_ne hv]
    rcases hhome with rfl | hzero
    · exact h.alone v hv
    · by_cases hvh : v = home
      · rw [hvh]
        exact hzero
      · exact h.alone v hvh
  · rw [Function.update_self]
    exact hactive
  · rw [Function.update_self]
    exact honce
  · exact hlocal v (hkind.symm.trans hv)
  · rw [Function.update_self]
    exact hpolling (by rw [← hkind]; exact hl)

end Turn

/-! ## The invariant -/

namespace State

/-- Somebody stands for `QUEUED` of the task. -/
def Held (s : State) (t : Nat) : Prop :=
  (∃ k, s.wakers k = some t) ∨ (∃ w, t ∈ s.localQueue w) ∨ (∃ w, t ∈ s.pinnedQueue w) ∨
    t ∈ s.sendQueue ∨ ∃ w, ⟨t, .clear⟩ ∈ s.frames w

/-- A task that is owed a poll will get it, or is complete. -/
def Covered (s : State) (t : Nat) : Prop :=
  (s.tasks t).completed = true ∨ (s.tasks t).queued = true ∨ (∃ w, ⟨t, .enter⟩ ∈ s.frames w) ∨
    (s.tasks t).kind.isLocal = false ∧ (s.tasks t).woken = true ∧ (s.tasks t).polling = true

/-- What holds between any two steps. -/
structure Inv (s : State) : Prop where
  turn : ∀ t, ∃ home, Turn (s.tasks t) t s.frames home
  home : ∀ w, ∀ f ∈ s.frames w, ∀ v, (s.tasks f.task).kind = .localTask v → w = v
  localQueue : ∀ w, ∀ t ∈ s.localQueue w, (s.tasks t).kind = .localTask w
  pinnedQueue : ∀ w, ∀ t ∈ s.pinnedQueue w, (s.tasks t).kind.isLocal = false
  sendQueue : ∀ t ∈ s.sendQueue, (s.tasks t).kind.isLocal = false
  held : ∀ t, (s.tasks t).queued = true → s.Held t
  leave : ∀ w t, ⟨t, .leave⟩ ∈ s.frames w → (s.tasks t).completed = true
  covered : ∀ t, (s.tasks t).owed = true → s.Covered t

variable {s : State}

theorem ne_localTask {kind : Kind} (h : kind.isLocal = false) (w : Nat) : kind ≠ .localTask w := by
  rintro rfl
  exact Bool.noConfusion h

theorem setTask_self (s : State) (t : Nat) : s.setTask t (s.tasks t) = s := by
  unfold setTask
  rw [Function.update_eq_self]

/-! ## Steps of a worker -/

section Work

variable {w t : Nat} {pc : FramePc} {rest l : List Frame} {task : Task}

theorem tasks_self {stack : List Frame} : ((s.setTask t task).setStack w stack).tasks t = task :=
  Function.update_self ..

/-- The other tasks do not notice that the topmost entry of a stack goes on. -/
theorem Inv.turn_work (h : s.Inv) (hframes : s.frames w = ⟨t, pc⟩ :: rest)
    (hnew : ∀ f ∈ l, f.task = t)
    (hturn : ∃ home, Turn task t (Function.update s.frames w (l ++ rest)) home) (u : Nat) :
    ∃ home, Turn (Function.update s.tasks t task u) u (Function.update s.frames w (l ++ rest))
      home := by
  by_cases hu : u = t
  · subst hu
    rw [Function.update_self]
    exact hturn
  · rw [Function.update_of_ne hu]
    obtain ⟨home, hturn⟩ := h.turn u
    have hnone : ∀ p : FramePc → Bool, l.countP (fun f => f.task == u && p f.pc) = 0 := by
      intro p
      refine List.countP_eq_zero.mpr fun f hf => ?_
      rw [hnew f hf, Bool.and_eq_true, beq_iff_eq]
      exact fun hand => hu hand.1.symm
    refine ⟨home, hturn.congr rfl rfl rfl ?_ ?_⟩
    · rw [hframes, holdsIn_cons_ne (Ne.symm hu)]
      unfold holdsIn
      rw [List.countP_append, hnone, Nat.zero_add]
    · rw [hframes, pollsIn_cons_ne (Ne.symm hu)]
      unfold pollsIn
      rw [List.countP_append, hnone (· == .poll), Nat.zero_add]

/-- An entry other than the topmost one stays. -/
theorem mem_work (hframes : s.frames w = ⟨t, pc⟩ :: rest) {f : Frame} (hf : f ≠ ⟨t, pc⟩) {v : Nat}
    (hmem : f ∈ s.frames v) : f ∈ Function.update s.frames w (l ++ rest) v := by
  by_cases hv : v = w
  · subst hv
    rw [Function.update_self]
    rw [hframes] at hmem
    exact List.mem_append_right l ((List.mem_cons.mp hmem).resolve_left hf)
  · rw [Function.update_of_ne hv]
    exact hmem

/-- What is on a stack afterwards was there before or is newew. -/
theorem of_mem_work (hframes : s.frames w = ⟨t, pc⟩ :: rest) {f : Frame} {v : Nat}
    (hmem : f ∈ Function.update s.frames w (l ++ rest) v) :
    v = w ∧ f ∈ l ∨ f ∈ s.frames v := by
  by_cases hv : v = w
  · subst hv
    rw [Function.update_self] at hmem
    rcases List.mem_append.mp hmem with hin | hin
    · exact Or.inl ⟨rfl, hin⟩
    · refine Or.inr ?_
      rw [hframes]
      exact List.mem_cons_of_mem _ hin
  · rw [Function.update_of_ne hv] at hmem
    exact Or.inr hmem

/-- The topmost entry of a stack goes on. -/
theorem Inv.work (h : s.Inv) (hframes : s.frames w = ⟨t, pc⟩ :: rest)
    (hnew : ∀ f ∈ l, f.task = t) (hkind : task.kind = (s.tasks t).kind)
    (hturn : ∃ home, Turn task t (Function.update s.frames w (l ++ rest)) home)
    (hqueued : task.queued = true → (s.tasks t).queued = true ∧ pc ≠ .clear)
    (hcompleted : (s.tasks t).completed = true → task.completed = true)
    (hleave : ⟨t, .leave⟩ ∈ l → task.completed = true)
    (hcovered : task.owed = true → ((s.setTask t task).setStack w (l ++ rest)).Covered t) :
    ((s.setTask t task).setStack w (l ++ rest)).Inv := by
  have hkinds : ∀ u, (Function.update s.tasks t task u).kind = (s.tasks u).kind := by
    intro u
    by_cases hu : u = t
    · subst hu
      rw [Function.update_self]
      exact hkind
    · rw [Function.update_of_ne hu]
  refine ⟨h.turn_work hframes hnew hturn, fun v f hf u hu => ?_, fun v u hu => ?_, fun v u hu => ?_,
    fun u hu => ?_, fun u hu => ?_, fun v u hu => ?_, fun u hu => ?_⟩
  · replace hu : (Function.update s.tasks t task f.task).kind = .localTask u := hu
    rw [hkinds] at hu
    rcases of_mem_work hframes hf with ⟨rfl, hin⟩ | hin
    · refine h.home v ⟨t, pc⟩ (by rw [hframes]; exact List.mem_cons_self ..) u ?_
      rw [← hnew f hin]
      exact hu
    · exact h.home v f hin u hu
  · exact (hkinds u).trans (h.localQueue v u hu)
  · exact (congrArg Kind.isLocal (hkinds u)).trans (h.pinnedQueue v u hu)
  · exact (congrArg Kind.isLocal (hkinds u)).trans (h.sendQueue u hu)
  · have hheld : s.Held u ∧ (u = t → pc ≠ .clear) := by
      replace hu : (Function.update s.tasks t task u).queued = true := hu
      by_cases hut : u = t
      · subst hut
        rw [Function.update_self] at hu
        obtain ⟨hold, hpc⟩ := hqueued hu
        exact ⟨h.held u hold, fun _ => hpc⟩
      · rw [Function.update_of_ne hut] at hu
        exact ⟨h.held u hu, fun heq => absurd heq hut⟩
    obtain ⟨hheld, hpc⟩ := hheld
    refine hheld.imp id (Or.imp id (Or.imp id (Or.imp id ?_)))
    rintro ⟨v, hv⟩
    refine ⟨v, mem_work hframes ?_ hv⟩
    intro heq
    exact hpc (congrArg Frame.task heq) (congrArg Frame.pc heq).symm
  · show (Function.update s.tasks t task u).completed = true
    by_cases hut : u = t
    · subst hut
      rw [Function.update_self]
      rcases of_mem_work hframes hu with ⟨_, hin⟩ | hin
      · exact hleave hin
      · exact hcompleted (h.leave v u hin)
    · rw [Function.update_of_ne hut]
      rcases of_mem_work hframes hu with ⟨_, hin⟩ | hin
      · exact absurd (hnew _ hin) hut
      · exact h.leave v u hin
  · by_cases hut : u = t
    · subst hut
      replace hu : (Function.update s.tasks u task u).owed = true := hu
      rw [Function.update_self] at hu
      exact hcovered hu
    · replace hu : (Function.update s.tasks t task u).owed = true := hu
      rw [Function.update_of_ne hut] at hu
      have htask : ((s.setTask t task).setStack w (l ++ rest)).tasks u = s.tasks u :=
        Function.update_of_ne hut ..
      unfold Covered
      rw [htask]
      refine (h.covered u hu).imp id (Or.imp id (Or.imp ?_ id))
      rintro ⟨v, hv⟩
      refine ⟨v, mem_work hframes ?_ hv⟩
      intro heq
      exact hut (congrArg Frame.task heq)

/-- A task stays covered when an entry goes on that is not about to enter the poll. -/
theorem Inv.covered_work (h : s.Inv) (hframes : s.frames w = ⟨t, pc⟩ :: rest) (hpc : pc ≠ .enter)
    (howed : (s.tasks t).owed = true) (hcompleted : task.completed = (s.tasks t).completed)
    (hqueued : task.queued = (s.tasks t).queued) (hkind : task.kind = (s.tasks t).kind)
    (hwoken : (s.tasks t).woken = true → (s.tasks t).polling = true →
      task.woken = true ∧ task.polling = true) :
    ((s.setTask t task).setStack w (l ++ rest)).Covered t := by
  unfold Covered
  rw [tasks_self, hcompleted, hqueued, hkind]
  refine (h.covered t howed).imp id (Or.imp id (Or.imp ?_ fun hand =>
    ⟨hand.1, hwoken hand.2.1 hand.2.2⟩))
  rintro ⟨v, hv⟩
  refine ⟨v, mem_work hframes ?_ hv⟩
  intro heq
  exact hpc (congrArg Frame.pc heq).symm

theorem mem_singleton_task {pc' : FramePc} : ∀ f ∈ [(⟨t, pc'⟩ : Frame)], f.task = t := by
  intro f hf
  rw [List.mem_singleton] at hf
  rw [hf]

theorem not_mem_nil_task : ∀ f ∈ ([] : List Frame), f.task = t := fun _ hf =>
  absurd hf List.not_mem_nil

/-- Entries of the same task with other places on the stack. -/
theorem leave_notMem {pc' : FramePc} (hpc : pc' ≠ .leave) {p : Prop}
    (hmem : (⟨t, .leave⟩ : Frame) ∈ [(⟨t, pc'⟩ : Frame)]) : p := by
  rw [List.mem_singleton] at hmem
  exact absurd (congrArg Frame.pc hmem).symm hpc

theorem Inv.clear (h : s.Inv) (hframes : s.frames w = ⟨t, .clear⟩ :: rest) :
    ((s.setTask t { s.tasks t with queued := false }).setStack w (⟨t, .enter⟩ :: rest)).Inv := by
  obtain ⟨home, hturn⟩ := h.turn t
  refine h.work (l := [⟨t, .enter⟩]) hframes mem_singleton_task rfl ⟨home, ?_⟩
    (fun hq => absurd hq Bool.false_ne_true) id (leave_notMem FramePc.noConfusion)
    fun _ => Or.inr (Or.inr (Or.inl ⟨w, ?_⟩))
  · refine hturn.congr rfl rfl rfl ?_ ?_
    · rw [hframes, holdsIn_cons_out rfl]
      exact holdsIn_cons_out rfl
    · rw [hframes, pollsIn_cons_out FramePc.noConfusion]
      exact pollsIn_cons_out FramePc.noConfusion
  · show _ ∈ Function.update s.frames w _ w
    rw [Function.update_self]
    exact List.mem_cons_self ..

/-- A local task is on its own worker. -/
theorem Inv.home_of_local (h : s.Inv) (hframes : s.frames w = ⟨t, pc⟩ :: rest) {home : Nat}
    (hturn : Turn (s.tasks t) t s.frames home) (hlocal : (s.tasks t).kind.isLocal = true) :
    home = w := by
  cases hkind : (s.tasks t).kind with
  | localTask v =>
    have hw := h.home w ⟨t, pc⟩ (by rw [hframes]; exact List.mem_cons_self ..) v hkind
    exact (hturn.localTask v hkind).trans hw.symm
  | pinned v =>
    rw [hkind] at hlocal
    exact absurd hlocal Bool.false_ne_true
  | shared =>
    rw [hkind] at hlocal
    exact absurd hlocal Bool.false_ne_true

theorem Inv.localTask_eq (h : s.Inv) (hframes : s.frames w = ⟨t, pc⟩ :: rest) (v : Nat)
    (hkind : (s.tasks t).kind = .localTask v) : w = v :=
  h.home w ⟨t, pc⟩ (by rw [hframes]; exact List.mem_cons_self ..) v hkind

/-- An entry that is not inside `poll_fn` leaves its stack, and `POLLING` with it if it held
that. -/
theorem Inv.quit (h : s.Inv) (hframes : s.frames w = ⟨t, pc⟩ :: rest) (hpoll : pc ≠ .poll)
    (hclear : pc ≠ .clear) (hkind : task.kind = (s.tasks t).kind)
    (hactive : task.active = (s.tasks t).active)
    (hholds : pc.holds = true ∨ task.polling = (s.tasks t).polling)
    (hpolling : pc.holds = true → task.kind.isLocal = false → task.polling = false)
    (hqueued : task.queued = (s.tasks t).queued)
    (hcompleted : task.completed = (s.tasks t).completed)
    (hcovered : task.owed = true → ((s.setTask t task).setStack w rest).Covered t) :
    ((s.setTask t task).setStack w rest).Inv := by
  obtain ⟨home, hturn⟩ := h.turn t
  refine h.work (l := []) hframes not_mem_nil_task hkind ?_
    (fun hq => ⟨hqueued.symm.trans hq, hclear⟩) hcompleted.trans (fun hmem => absurd hmem List.not_mem_nil)
    hcovered
  rw [List.nil_append]
  cases hpc : pc.holds with
  | false =>
    refine ⟨home, hturn.congr hkind hactive (hholds.resolve_left ?_) ?_ ?_⟩
    · rw [hpc]
      exact Bool.false_ne_true
    · rw [hframes, holdsIn_cons_out hpc]
    · rw [hframes, pollsIn_cons_out hpoll]
  | true =>
    have hin : holdsIn (s.frames w) t = holdsIn rest t + 1 := by
      rw [hframes]
      exact holdsIn_cons_self hpc
    have hhome : home = w := hturn.home_eq (by rw [hin]; exact Nat.succ_pos _)
    subst hhome
    have hpolls : pollsIn (s.frames home) t = pollsIn rest t := by
      rw [hframes]
      exact pollsIn_cons_out hpoll
    refine ⟨home, hturn.act (Or.inl rfl) ?_ ?_ hkind (h.localTask_eq hframes) fun hsend => ?_⟩
    · rw [hactive, hturn.active, hpolls]
    · rw [← hpolls]
      exact hturn.once
    · have hone := hturn.polling hsend
      rw [hpolling hpc (by rw [hkind]; exact hsend), if_neg Bool.false_ne_true]
      rw [hin] at hone
      split at hone <;> omega

/-- An entry enters `poll_fn`, where no other entry of the task is. -/
theorem Inv.beginPoll (h : s.Inv) (hframes : s.frames w = ⟨t, pc⟩ :: rest) (hclear : pc ≠ .clear)
    (hnone : pollsIn rest t = 0) {home : Nat}
    (hturn : Turn (s.tasks t) t s.frames home)
    (hhome : home = w ∨ holdsIn (s.frames home) t = 0)
    (hkind : task.kind = (s.tasks t).kind) (hactive : task.active = 0)
    (hpolling : (s.tasks t).kind.isLocal = false → task.polling = true ∧ holdsIn rest t = 0)
    (hqueued : task.queued = (s.tasks t).queued)
    (hcompleted : task.completed = (s.tasks t).completed) : (s.beginPoll w t rest task).Inv := by
  refine h.work (l := [⟨t, .poll⟩]) hframes mem_singleton_task hkind ⟨w, ?_⟩
    (fun hq => ⟨hqueued.symm.trans hq, hclear⟩) hcompleted.trans (leave_notMem FramePc.noConfusion)
    fun howed => absurd howed Bool.false_ne_true
  refine hturn.act hhome ?_ ?_ hkind (h.localTask_eq hframes) fun hsend => ?_
  · show task.active + 1 = pollsIn (⟨t, .poll⟩ :: rest) t
    rw [pollsIn_cons_self, hactive, hnone]
  · show pollsIn (⟨t, .poll⟩ :: rest) t ≤ 1
    exact Nat.le_of_eq (by rw [pollsIn_cons_self, hnone])
  · obtain ⟨hset, hzero⟩ := hpolling hsend
    show holdsIn (⟨t, .poll⟩ :: rest) t = if task.polling then 1 else 0
    rw [holdsIn_cons_self rfl, hzero, hset, if_pos rfl]

theorem Inv.enterPoll (h : s.Inv) (hframes : s.frames w = ⟨t, .enter⟩ :: rest)
    (hcare : (s.tasks t).kind.isLocal = true → pollsIn rest t = 0) : (s.enterPoll w t rest).Inv := by
  obtain ⟨home, hturn⟩ := h.turn t
  have hholds : holdsIn (s.frames w) t = holdsIn rest t := by
    rw [hframes]
    exact holdsIn_cons_out rfl
  have hpolls : pollsIn (s.frames w) t = pollsIn rest t := by
    rw [hframes]
    exact pollsIn_cons_out FramePc.noConfusion
  dsimp only [State.enterPoll]
  split
  · rename_i hcompleted
    rw [← setTask_self s t]
    exact h.quit hframes FramePc.noConfusion FramePc.noConfusion rfl rfl (Or.inr rfl)
      (fun hpc => absurd hpc Bool.false_ne_true) rfl rfl
      fun _ => Or.inl (by rw [tasks_self]; exact hcompleted)
  · split
    · rename_i hlocal
      have hhome := h.home_of_local hframes hturn hlocal
      subst hhome
      refine h.beginPoll hframes FramePc.noConfusion (hcare hlocal) hturn
        (Or.inl rfl) rfl ?_ (fun hsend => ?_) rfl rfl
      · rw [hturn.active, hpolls, hcare hlocal]
      · exact absurd (hsend.symm.trans hlocal) Bool.false_ne_true
    · rename_i hsend
      replace hsend := eq_false_of_ne_true hsend
      split
      · rename_i hpolling
        refine h.quit hframes FramePc.noConfusion FramePc.noConfusion rfl rfl (Or.inr rfl)
          (fun hpc => absurd hpc Bool.false_ne_true) rfl rfl fun _ => ?_
        unfold Covered
        rw [tasks_self]
        exact Or.inr (Or.inr (Or.inr ⟨hsend, rfl, hpolling⟩))
      · rename_i hfree
        -- nobody has entered the poll
        have hzero : holdsIn (s.frames home) t = 0 := by
          rw [hturn.polling hsend, if_neg hfree]
        have hrest : holdsIn rest t = 0 := by
          rw [← hholds]
          by_cases hw : w = home
          · rw [hw]
            exact hzero
          · exact hturn.alone w hw
        have hnone : pollsIn rest t = 0 := Nat.le_zero.mp (hrest ▸ pollsIn_le_holdsIn rest t)
        refine h.beginPoll hframes FramePc.noConfusion hnone hturn
          (Or.inr hzero) rfl ?_ (fun _ => ⟨rfl, hrest⟩) rfl rfl
        show (s.tasks t).active = 0
        rw [hturn.active]
        exact Nat.le_zero.mp (hzero ▸ pollsIn_le_holdsIn (s.frames home) t)

theorem Inv.exitPending (h : s.Inv) (hframes : s.frames w = ⟨t, .exit⟩ :: rest) :
    (s.exitPending w t rest).Inv := by
  obtain ⟨home, hturn⟩ := h.turn t
  have hin : holdsIn (s.frames w) t = holdsIn rest t + 1 := by
    rw [hframes]
    exact holdsIn_cons_self rfl
  have hhome : home = w := hturn.home_eq (by rw [hin]; exact Nat.succ_pos _)
  dsimp only [State.exitPending]
  split
  · rename_i hlocal
    rw [← setTask_self s t]
    refine h.quit hframes FramePc.noConfusion FramePc.noConfusion rfl rfl (Or.inl rfl)
      (fun _ hsend => absurd (hsend.symm.trans hlocal) Bool.false_ne_true) rfl rfl fun howed => ?_
    exact h.covered_work (l := []) hframes FramePc.noConfusion howed rfl rfl rfl
      fun hwoken hpolling => ⟨hwoken, hpolling⟩
  · rename_i hsend
    replace hsend := eq_false_of_ne_true hsend
    split
    · have hone := hturn.polling hsend
      rw [hhome, hin] at hone
      have hrest : holdsIn rest t = 0 := by
        split at hone <;> omega
      have hset : (s.tasks t).polling = true := by
        by_contra hne
        rw [if_neg hne] at hone
        omega
      have hnone : pollsIn rest t = 0 := Nat.le_zero.mp (hrest ▸ pollsIn_le_holdsIn rest t)
      refine h.beginPoll hframes FramePc.noConfusion hnone hturn (Or.inl hhome)
        rfl ?_ (fun _ => ⟨hset, hrest⟩) rfl rfl
      show (s.tasks t).active = 0
      rw [hturn.active, hhome, hframes, pollsIn_cons_out FramePc.noConfusion]
      exact hnone
    · rename_i hwoken
      refine h.quit hframes FramePc.noConfusion FramePc.noConfusion rfl rfl (Or.inl rfl)
        (fun _ _ => rfl) rfl rfl fun howed => ?_
      exact h.covered_work (l := []) hframes FramePc.noConfusion howed rfl rfl rfl
        fun hset _ => absurd hset hwoken

theorem Inv.complete (h : s.Inv) (hframes : s.frames w = ⟨t, .complete⟩ :: rest) :
    ((s.setTask t { s.tasks t with completed := true }).setStack w (⟨t, .leave⟩ :: rest)).Inv := by
  obtain ⟨home, hturn⟩ := h.turn t
  refine h.work (l := [⟨t, .leave⟩]) hframes mem_singleton_task rfl ⟨home, ?_⟩
    (fun hq => ⟨hq, FramePc.noConfusion⟩) (fun _ => rfl) (fun _ => rfl)
    fun _ => Or.inl (by rw [tasks_self])
  refine hturn.congr rfl rfl rfl ?_ ?_
  · rw [hframes, holdsIn_cons_self rfl]
    exact holdsIn_cons_self rfl
  · rw [hframes, pollsIn_cons_out FramePc.noConfusion]
    exact pollsIn_cons_out FramePc.noConfusion

theorem Inv.leavePoll {s' : State} (h : s.Inv) (hframes : s.frames w = ⟨t, .leave⟩ :: rest)
    (hs : s.advance w t rest .leave = some s') : s'.Inv := by
  have hcompleted := h.leave w t (by rw [hframes]; exact List.mem_cons_self ..)
  simp only [State.advance] at hs
  split at hs
  · rename_i hlocal
    obtain rfl := Option.some.inj hs
    rw [← setTask_self s t]
    exact h.quit hframes FramePc.noConfusion FramePc.noConfusion rfl rfl (Or.inl rfl)
      (fun _ hsend => absurd (hsend.symm.trans hlocal) Bool.false_ne_true) rfl rfl
      fun _ => Or.inl (by rw [tasks_self]; exact hcompleted)
  · obtain rfl := Option.some.inj hs
    exact h.quit hframes FramePc.noConfusion FramePc.noConfusion rfl rfl (Or.inl rfl)
      (fun _ _ => rfl) rfl rfl fun _ => Or.inl (by rw [tasks_self]; exact hcompleted)

theorem Inv.pollReturns (h : s.Inv) (hframes : s.frames w = ⟨t, .poll⟩ :: rest) (hpc : pc ≠ .poll)
    (hholds : pc.holds = true) (hleave : pc ≠ .leave) :
    ((s.setTask t { s.tasks t with active := (s.tasks t).active - 1 }).setStack w
      (⟨t, pc⟩ :: rest)).Inv := by
  obtain ⟨home, hturn⟩ := h.turn t
  have hin : holdsIn (s.frames w) t = holdsIn rest t + 1 := by
    rw [hframes]
    exact holdsIn_cons_self rfl
  have hpolls : pollsIn (s.frames w) t = pollsIn rest t + 1 := by
    rw [hframes]
    exact pollsIn_cons_self
  have hhome : home = w := hturn.home_eq (by rw [hin]; exact Nat.succ_pos _)
  subst hhome
  have hactive := hturn.active
  have honce := hturn.once
  have hout : pollsIn (⟨t, pc⟩ :: rest) t = pollsIn rest t := pollsIn_cons_out hpc
  refine h.work (l := [⟨t, pc⟩]) hframes mem_singleton_task rfl ⟨home, ?_⟩
    (fun hq => ⟨hq, FramePc.noConfusion⟩) id (leave_notMem hleave) fun howed =>
      h.covered_work hframes FramePc.noConfusion howed rfl rfl rfl fun hwoken hpolling => ⟨hwoken, hpolling⟩
  refine hturn.act (Or.inl rfl) ?_ ?_ rfl (h.localTask_eq hframes) fun hsend => ?_
  · show (s.tasks t).active - 1 = pollsIn (⟨t, pc⟩ :: rest) t
    omega
  · show pollsIn (⟨t, pc⟩ :: rest) t ≤ 1
    omega
  · show holdsIn (⟨t, pc⟩ :: rest) t = _
    rw [holdsIn_cons_self hholds, ← hin]
    exact hturn.polling hsend

/-- A worker begins with an entry. -/
theorem Inv.begin {s' : State} (h : s.Inv)
    (hframes : s'.frames = Function.update s.frames w (⟨t, .clear⟩ :: s.frames w))
    (htasks : s'.tasks = s.tasks) (hkind : ∀ v, (s.tasks t).kind = .localTask v → w = v)
    (hwakers : s'.wakers = s.wakers)
    (hlocal : ∀ v u, u ∈ s'.localQueue v → u ∈ s.localQueue v)
    (hpinned : ∀ v u, u ∈ s'.pinnedQueue v → u ∈ s.pinnedQueue v)
    (hsend : ∀ u, u ∈ s'.sendQueue → u ∈ s.sendQueue)
    (hothers : ∀ u, u ≠ t → (∀ v, u ∈ s.localQueue v → u ∈ s'.localQueue v) ∧
      (∀ v, u ∈ s.pinnedQueue v → u ∈ s'.pinnedQueue v) ∧ (u ∈ s.sendQueue → u ∈ s'.sendQueue)) :
    s'.Inv := by
  have hmem : ∀ v, ∀ f ∈ s.frames v, f ∈ s'.frames v := by
    intro v f hf
    rw [hframes]
    by_cases hv : v = w
    · subst hv
      rw [Function.update_self]
      exact List.mem_cons_of_mem _ hf
    · rw [Function.update_of_ne hv]
      exact hf
  have hof : ∀ v, ∀ f ∈ s'.frames v, v = w ∧ f = ⟨t, .clear⟩ ∨ f ∈ s.frames v := by
    intro v f hf
    rw [hframes] at hf
    by_cases hv : v = w
    · subst hv
      rw [Function.update_self] at hf
      exact (List.mem_cons.mp hf).imp (fun heq => ⟨rfl, heq⟩) id
    · rw [Function.update_of_ne hv] at hf
      exact Or.inr hf
  refine ⟨fun u => ?_, fun v f hf u hu => ?_, fun v u hu => ?_, fun v u hu => ?_, fun u hu => ?_,
    fun u hu => ?_, fun v u hu => ?_, fun u hu => ?_⟩
  · obtain ⟨home, hturn⟩ := h.turn u
    rw [htasks, hframes]
    exact ⟨home, hturn.congr rfl rfl rfl (holdsIn_cons_out rfl) (pollsIn_cons_out FramePc.noConfusion)⟩
  · rw [htasks] at hu
    rcases hof v f hf with ⟨rfl, rfl⟩ | hin
    · exact hkind u hu
    · exact h.home v f hin u hu
  · rw [htasks]
    exact h.localQueue v u (hlocal v u hu)
  · rw [htasks]
    exact h.pinnedQueue v u (hpinned v u hu)
  · rw [htasks]
    exact h.sendQueue u (hsend u hu)
  · rw [htasks] at hu
    by_cases hut : u = t
    · refine Or.inr (Or.inr (Or.inr (Or.inr ⟨w, ?_⟩)))
      rw [hframes, Function.update_self, hut]
      exact List.mem_cons_self ..
    · obtain ⟨hq, hp, hg⟩ := hothers u hut
      refine (h.held u hu).imp (fun hex => ?_) (Or.imp (fun hex => ?_) (Or.imp (fun hex => ?_)
        (Or.imp hg fun hex => ?_)))
      · rw [hwakers]
        exact hex
      · exact hex.imp hq
      · exact hex.imp hp
      · exact hex.imp fun v => hmem v _
  · rw [htasks]
    rcases hof v _ hu with ⟨_, heq⟩ | hin
    · exact FramePc.noConfusion (congrArg Frame.pc heq)
    · exact h.leave v u hin
  · rw [htasks] at hu
    unfold Covered
    rw [htasks]
    exact (h.covered u hu).imp id (Or.imp id (Or.imp (fun hex => hex.imp fun v => hmem v _) id))

end Work

/-! ## Wakers and queues -/

section Queues

variable {capacity k t w : Nat}

theorem Inv.popLocal {queue : List Nat} (h : s.Inv) (hqueue : s.localQueue w = t :: queue) :
    ({ s.setStack w (⟨t, .clear⟩ :: s.frames w) with
      localQueue := Function.update s.localQueue w queue } : State).Inv := by
  have hkind := h.localQueue w t (by rw [hqueue]; exact List.mem_cons_self ..)
  refine h.begin rfl rfl (fun v hv => ?_) rfl (fun v u hu => ?_) (fun _ _ => id) (fun _ => id)
    fun u hu => ⟨fun v hv => ?_, fun _ => id, id⟩
  · exact Kind.localTask.inj (hkind.symm.trans hv)
  · replace hu : u ∈ Function.update s.localQueue w queue v := hu
    by_cases hvw : v = w
    · subst hvw
      rw [Function.update_self] at hu
      rw [hqueue]
      exact List.mem_cons_of_mem _ hu
    · rw [Function.update_of_ne hvw] at hu
      exact hu
  · show u ∈ Function.update s.localQueue w queue v
    by_cases hvw : v = w
    · subst hvw
      rw [Function.update_self]
      rw [hqueue] at hv
      exact (List.mem_cons.mp hv).resolve_left hu
    · rw [Function.update_of_ne hvw]
      exact hv

theorem Inv.popPinned {queue : List Nat} (h : s.Inv) (hqueue : s.pinnedQueue w = t :: queue) :
    ({ s.setStack w (⟨t, .clear⟩ :: s.frames w) with
      pinnedQueue := Function.update s.pinnedQueue w queue } : State).Inv := by
  have hkind := h.pinnedQueue w t (by rw [hqueue]; exact List.mem_cons_self ..)
  refine h.begin rfl rfl (fun v hv => absurd hv (ne_localTask hkind v)) rfl (fun _ _ => id)
    (fun v u hu => ?_) (fun _ => id) fun u hu => ⟨fun _ => id, fun v hv => ?_, id⟩
  · replace hu : u ∈ Function.update s.pinnedQueue w queue v := hu
    by_cases hvw : v = w
    · subst hvw
      rw [Function.update_self] at hu
      rw [hqueue]
      exact List.mem_cons_of_mem _ hu
    · rw [Function.update_of_ne hvw] at hu
      exact hu
  · show u ∈ Function.update s.pinnedQueue w queue v
    by_cases hvw : v = w
    · subst hvw
      rw [Function.update_self]
      rw [hqueue] at hv
      exact (List.mem_cons.mp hv).resolve_left hu
    · rw [Function.update_of_ne hvw]
      exact hv

theorem Inv.popSend (h : s.Inv) (hmem : t ∈ s.sendQueue) :
    ({ s.setStack w (⟨t, .clear⟩ :: s.frames w) with
      sendQueue := s.sendQueue.erase t } : State).Inv := by
  have hkind := h.sendQueue t hmem
  exact h.begin rfl rfl (fun v hv => absurd hv (ne_localTask hkind v)) rfl (fun _ _ => id)
    (fun _ _ => id) (fun u hu => List.mem_of_mem_erase hu)
    fun u hu => ⟨fun _ => id, fun _ => id, fun hin => (List.mem_erase_of_ne hu).mpr hin⟩

/-- A step that changes no stack and only the `QUEUED` bit and the debt of one task. -/
theorem Inv.outside {s' : State} {task : Task} (h : s.Inv) (hframes : s'.frames = s.frames)
    (htasks : s'.tasks = Function.update s.tasks t task)
    (hsame : task.kind = (s.tasks t).kind ∧ task.active = (s.tasks t).active ∧
      task.polling = (s.tasks t).polling ∧ task.completed = (s.tasks t).completed ∧
      task.woken = (s.tasks t).woken)
    (hlocal : ∀ v, ∀ u ∈ s'.localQueue v, (s.tasks u).kind = .localTask v)
    (hpinned : ∀ v, ∀ u ∈ s'.pinnedQueue v, (s.tasks u).kind.isLocal = false)
    (hsend : ∀ u ∈ s'.sendQueue, (s.tasks u).kind.isLocal = false)
    (hheld : ∀ u, (s'.tasks u).queued = true → s'.Held u)
    (hcovered : task.owed = true → task.queued = true ∨ task.owed = (s.tasks t).owed ∧
      task.queued = (s.tasks t).queued) : s'.Inv := by
  have hself : s'.tasks t = task := by
    rw [htasks, Function.update_self]
  have hother : ∀ u, u ≠ t → s'.tasks u = s.tasks u := fun u hu => by
    rw [htasks, Function.update_of_ne hu]
  have hkinds : ∀ u, (s'.tasks u).kind = (s.tasks u).kind := by
    intro u
    by_cases hu : u = t
    · subst hu
      rw [hself]
      exact hsame.1
    · rw [hother u hu]
  refine ⟨fun u => ?_, fun v f hf u hu => ?_, fun v u hu => (hkinds u).trans (hlocal v u hu),
    fun v u hu => ?_, fun u hu => ?_, hheld, fun v u hu => ?_, fun u hu => ?_⟩
  · obtain ⟨home, hturn⟩ := h.turn u
    rw [hframes]
    by_cases hut : u = t
    · subst hut
      have hcongr : Turn task u (Function.update s.frames 0 (s.frames 0)) home :=
        hturn.congr hsame.1 hsame.2.1 hsame.2.2.1 rfl rfl
      rw [Function.update_eq_self] at hcongr
      rw [hself]
      exact ⟨home, hcongr⟩
    · rw [hother u hut]
      exact ⟨home, hturn⟩
  · rw [hframes] at hf
    exact h.home v f hf u ((hkinds f.task).symm.trans hu)
  · rw [hkinds]
    exact hpinned v u hu
  · rw [hkinds]
    exact hsend u hu
  · rw [hframes] at hu
    by_cases hut : u = t
    · subst hut
      rw [hself, hsame.2.2.2.1]
      exact h.leave v u hu
    · rw [hother u hut]
      exact h.leave v u hu
  · unfold Covered
    by_cases hut : u = t
    · subst hut
      rw [hself] at hu
      rw [hself, hframes, hsame.1, hsame.2.2.1, hsame.2.2.2.1, hsame.2.2.2.2]
      rcases hcovered hu with hq | ⟨howed, hq⟩
      · exact Or.inr (Or.inl hq)
      · rw [hq]
        exact h.covered u (howed.symm.trans hu)
    · rw [hother u hut] at hu
      rw [hother u hut, hframes]
      exact h.covered u hu

theorem Inv.mark (h : s.Inv) (hk : s.wakers k = none) : (s.mark k t).Inv := by
  dsimp only [State.mark]
  split
  · exact h
  · split
    · rename_i hqueued
      refine h.outside rfl rfl ⟨rfl, rfl, rfl, rfl, rfl⟩ h.localQueue h.pinnedQueue h.sendQueue
        (fun u hu => ?_) fun _ => Or.inl hqueued
      refine h.held u ?_
      by_cases hut : u = t
      · subst hut
        exact hqueued
      · exact (congrArg Task.queued (Function.update_of_ne hut ..)).symm.trans hu
    · refine h.outside rfl rfl ⟨rfl, rfl, rfl, rfl, rfl⟩ h.localQueue h.pinnedQueue h.sendQueue
        (fun u hu => ?_) fun _ => Or.inl rfl
      by_cases hut : u = t
      · refine Or.inl ⟨k, ?_⟩
        rw [hut]
        exact Function.update_self ..
      · have hold : (s.tasks u).queued = true :=
          (congrArg Task.queued (Function.update_of_ne hut ..)).symm.trans hu
        refine (h.held u hold).imp ?_ id
        rintro ⟨j, hj⟩
        refine ⟨j, (Function.update_of_ne ?_ ..).trans hj⟩
        rintro rfl
        rw [hk] at hj
        exact Option.some_ne_none u hj.symm

/-- A waker that is through stands for nothing but the task it had marked. -/
theorem Held.of_wakers {s' : State} {u : Nat} (h : s.Held u) (hk : s.wakers k = some t) (hut : u ≠ t)
    (hwakers : s'.wakers = Function.update s.wakers k none) (hframes : s'.frames = s.frames)
    (hlocal : ∀ v, u ∈ s.localQueue v → u ∈ s'.localQueue v)
    (hpinned : ∀ v, u ∈ s.pinnedQueue v → u ∈ s'.pinnedQueue v)
    (hsend : u ∈ s.sendQueue → u ∈ s'.sendQueue) : s'.Held u := by
  refine h.imp (fun hex => ?_) (Or.imp (fun hex => hex.imp hlocal) (Or.imp (fun hex => hex.imp hpinned)
    (Or.imp hsend fun hex => ?_)))
  · obtain ⟨j, hj⟩ := hex
    refine ⟨j, ?_⟩
    rw [hwakers, Function.update_of_ne]
    · exact hj
    · rintro rfl
      exact hut (Option.some.inj (hj.symm.trans hk))
  · rw [hframes]
    exact hex

/-- The entry is added to the queue of a worker. -/
theorem mem_append_queue {queue : Nat → List Nat} {v u : Nat} :
    u ∈ Function.update queue w (queue w ++ [t]) v ↔ u ∈ queue v ∨ v = w ∧ u = t := by
  by_cases hv : v = w
  · subst hv
    rw [Function.update_self, List.mem_append, List.mem_singleton]
    exact or_congr Iff.rfl ⟨fun heq => ⟨rfl, heq⟩, And.right⟩
  · rw [Function.update_of_ne hv]
    exact ⟨Or.inl, fun hor => hor.resolve_right fun hand => hv hand.1⟩

theorem Inv.enqueue (h : s.Inv) (hk : s.wakers k = some t) :
    ({ s.enqueue t with wakers := Function.update s.wakers k none } : State).Inv := by
  have htasks : s.tasks = Function.update s.tasks t (s.tasks t) := (Function.update_eq_self ..).symm
  have hsame : (s.tasks t).kind = (s.tasks t).kind ∧ (s.tasks t).active = (s.tasks t).active ∧
      (s.tasks t).polling = (s.tasks t).polling ∧ (s.tasks t).completed = (s.tasks t).completed ∧
      (s.tasks t).woken = (s.tasks t).woken := ⟨rfl, rfl, rfl, rfl, rfl⟩
  unfold State.enqueue
  cases hkind : (s.tasks t).kind with
  | localTask w =>
    refine h.outside rfl htasks hsame (fun v u hu => ?_) h.pinnedQueue h.sendQueue (fun u hu => ?_)
      fun _ => Or.inr ⟨rfl, rfl⟩
    · rcases mem_append_queue.mp hu with hin | ⟨rfl, rfl⟩
      · exact h.localQueue v u hin
      · exact hkind
    · by_cases hut : u = t
      · exact Or.inr (Or.inl ⟨w, mem_append_queue.mpr (Or.inr ⟨rfl, hut⟩)⟩)
      · exact (h.held u hu).of_wakers hk hut rfl rfl (fun v hv => mem_append_queue.mpr (Or.inl hv))
          (fun _ => id) id
  | pinned w =>
    refine h.outside rfl htasks hsame h.localQueue (fun v u hu => ?_) h.sendQueue (fun u hu => ?_)
      fun _ => Or.inr ⟨rfl, rfl⟩
    · rcases mem_append_queue.mp hu with hin | ⟨rfl, rfl⟩
      · exact h.pinnedQueue v u hin
      · rw [hkind]
        rfl
    · by_cases hut : u = t
      · exact Or.inr (Or.inr (Or.inl ⟨w, mem_append_queue.mpr (Or.inr ⟨rfl, hut⟩)⟩))
      · exact (h.held u hu).of_wakers hk hut rfl rfl (fun _ => id)
          (fun v hv => mem_append_queue.mpr (Or.inl hv)) id
  | shared =>
    refine h.outside rfl htasks hsame h.localQueue h.pinnedQueue (fun u hu => ?_) (fun u hu => ?_)
      fun _ => Or.inr ⟨rfl, rfl⟩
    · rcases List.mem_cons.mp hu with rfl | hin
      · rw [hkind]
        rfl
      · exact h.sendQueue u hin
    · by_cases hut : u = t
      · refine Or.inr (Or.inr (Or.inr (Or.inl ?_)))
        rw [hut]
        exact List.mem_cons_self ..
      · exact (h.held u hu).of_wakers hk hut rfl rfl (fun _ => id) (fun _ => id)
          (List.mem_cons_of_mem t)

theorem Inv.push (h : s.Inv) (hk : s.wakers k = some t)
    (hcare : (s.tasks t).owed = true → s.room capacity t = true) : (s.push capacity k t).Inv := by
  unfold State.push
  split
  · exact h.enqueue hk
  · rename_i hfull
    refine h.outside rfl rfl ⟨rfl, rfl, rfl, rfl, rfl⟩ h.localQueue h.pinnedQueue h.sendQueue
      (fun u hu => ?_) fun howed => absurd (hcare howed) hfull
    have hut : u ≠ t := by
      rintro rfl
      exact Bool.false_ne_true ((congrArg Task.queued (Function.update_self ..)).symm.trans hu)
    have hold : (s.tasks u).queued = true :=
      (congrArg Task.queued (Function.update_of_ne hut ..)).symm.trans hu
    exact (h.held u hold).of_wakers hk hut rfl rfl (fun _ => id) (fun _ => id) id

end Queues

/-! ## Runs -/

theorem Inv.init (kind : Nat → Kind) : (State.init kind).Inv where
  turn t := by
    cases hkind : kind t with
    | localTask w =>
      refine ⟨w, fun _ _ => rfl, rfl, Nat.zero_le 1, fun v hv => ?_, fun _ => rfl⟩
      exact Kind.localTask.inj (hkind.symm.trans hv)
    | pinned w =>
      refine ⟨0, fun _ _ => rfl, rfl, Nat.zero_le 1, fun v hv => ?_, fun _ => rfl⟩
      exact Kind.noConfusion (hkind.symm.trans hv)
    | shared =>
      refine ⟨0, fun _ _ => rfl, rfl, Nat.zero_le 1, fun v hv => ?_, fun _ => rfl⟩
      exact Kind.noConfusion (hkind.symm.trans hv)
  home _ _ hf := absurd hf List.not_mem_nil
  localQueue _ _ ht := absurd ht List.not_mem_nil
  pinnedQueue _ _ ht := absurd ht List.not_mem_nil
  sendQueue _ ht := absurd ht List.not_mem_nil
  held _ hq := absurd hq Bool.false_ne_true
  leave _ _ hf := absurd hf List.not_mem_nil
  covered _ howed := absurd howed Bool.false_ne_true

theorem Inv.advance {capacity w : Nat} {s' : State} (h : s.Inv)
    (hcare : Careful capacity s (.advance w)) (hs : s.step capacity (.advance w) = some s') :
    s'.Inv := by
  unfold State.step at hs
  cases hframes : s.frames w with
  | nil =>
    simp only [hframes] at hs
    cases hs
  | cons f rest =>
    obtain ⟨t, pc⟩ := f
    simp only [hframes] at hs
    cases pc with
    | clear =>
      obtain rfl := Option.some.inj hs
      exact h.clear hframes
    | enter =>
      obtain rfl := Option.some.inj hs
      refine h.enterPoll hframes fun hlocal => ?_
      simp only [Careful, hframes] at hcare
      exact hcare hlocal
    | poll => cases hs
    | exit =>
      obtain rfl := Option.some.inj hs
      exact h.exitPending hframes
    | complete =>
      obtain rfl := Option.some.inj hs
      exact h.complete hframes
    | leave => exact h.leavePoll hframes hs

theorem Inv.step {capacity : Nat} {e : Event} {s' : State} (h : s.Inv)
    (hcare : Careful capacity s e) (hs : Step capacity s e s') : s'.Inv := by
  unfold Step at hs
  cases e with
  | wake k t =>
    unfold State.step at hs
    cases hk : s.wakers k with
    | none =>
      simp only [hk] at hs
      obtain rfl := Option.some.inj hs
      exact h.mark hk
    | some _ =>
      simp only [hk] at hs
      cases hs
  | push k =>
    unfold State.step at hs
    cases hk : s.wakers k with
    | none =>
      simp only [hk] at hs
      cases hs
    | some t =>
      simp only [hk] at hs
      obtain rfl := Option.some.inj hs
      exact h.push hk (hcare t hk)
  | popLocal w =>
    simp only [State.step] at hs
    split at hs
    · rename_i hqueue
      obtain rfl := Option.some.inj hs
      exact h.popLocal hqueue
    · cases hs
  | popPinned w =>
    simp only [State.step] at hs
    split at hs
    · rename_i hqueue
      obtain rfl := Option.some.inj hs
      exact h.popPinned hqueue
    · cases hs
  | popSend w t =>
    simp only [State.step] at hs
    split at hs
    · rename_i hguard
      obtain rfl := Option.some.inj hs
      exact h.popSend hguard.2
    · cases hs
  | pollReturns w ready =>
    simp only [State.step] at hs
    split at hs
    · rename_i t rest hframes
      obtain rfl := Option.some.inj hs
      cases ready
      · exact h.pollReturns hframes FramePc.noConfusion rfl FramePc.noConfusion
      · exact h.pollReturns hframes FramePc.noConfusion rfl FramePc.noConfusion
    · cases hs
  | advance w => exact h.advance hcare hs

theorem Inv.sound (h : s.Inv) : Sound s where
  once w t := by
    obtain ⟨home, hturn⟩ := h.turn t
    by_cases hw : w = home
    · rw [hw]
      exact hturn.once
    · exact Nat.le_trans (pollsIn_le_holdsIn _ _) (by rw [hturn.alone w hw]; exact Nat.zero_le 1)
  oneWorker w v t hne := by
    obtain ⟨home, hturn⟩ := h.turn t
    have hzero : ∀ u, u ≠ home → pollsIn (s.frames u) t = 0 := fun u hu =>
      Nat.le_zero.mp (hturn.alone u hu ▸ pollsIn_le_holdsIn (s.frames u) t)
    by_cases hw : w = home
    · exact Or.inr (hzero v fun hv => hne (hw.trans hv.symm))
    · exact Or.inl (hzero w hw)
  polledAgain hquiet t hcompleted := by
    cases howed : (s.tasks t).owed with
    | false => rfl
    | true =>
      rcases h.covered t howed with hc | hq | ⟨w, hw⟩ | ⟨hsend, -, hpolling⟩
      · exact absurd (hcompleted.symm.trans hc) Bool.false_ne_true
      · rcases h.held t hq with ⟨k, hk⟩ | ⟨w, hw⟩ | ⟨w, hw⟩ | hin | ⟨w, hw⟩
        · exact absurd (hquiet.wakers k ▸ hk) (Option.some_ne_none t).symm
        · exact absurd (hquiet.localQueue w ▸ hw) List.not_mem_nil
        · exact absurd (hquiet.pinnedQueue w ▸ hw) List.not_mem_nil
        · exact absurd (hquiet.sendQueue ▸ hin) List.not_mem_nil
        · exact absurd (hquiet.frames w ▸ hw) List.not_mem_nil
      · exact absurd (hquiet.frames w ▸ hw) List.not_mem_nil
      · -- `POLLING` is held by an entry on a stack
        obtain ⟨home, hturn⟩ := h.turn t
        have hone := hturn.polling hsend
        rw [hpolling, hquiet.frames home, if_pos rfl] at hone
        exact absurd hone Nat.zero_ne_one

end State

/-- The states reached by steps that are all allowed where they are taken. -/
abbrev Reached (capacity : Nat) (kind : Nat → Kind) (allowed : State → Event → Prop) :
    State → Prop :=
  Run (Step capacity) allowed (· = State.init kind)

/-- While local tasks are not run from inside their own poll and wakes find room, no task is
polled re-entrantly, and a task woken during its poll is polled again. -/
theorem polls_not_reentrant (capacity : Nat) (kind : Nat → Kind) (s : State)
    (h : Reached capacity kind (Careful capacity) s) : Sound s := by
  refine State.Inv.sound (Run.invariant ?_ (fun s e s' => State.Inv.step) h)
  rintro s rfl
  exact State.Inv.init kind

/-- Task 0 is local to worker 0, all others are not. -/
def oneLocal (t : Nat) : Kind := if t = 0 then .localTask 0 else .shared

/-- Executable form of `Careful`. -/
def carefulTest (capacity : Nat) (s : State) : Event → Bool
  | .push k =>
      match s.wakers k with
      | none => true
      | some t => !(s.tasks t).owed || s.room capacity t
  | .advance w =>
      match s.frames w with
      | ⟨t, .enter⟩ :: rest => !(s.tasks t).kind.isLocal || pollsIn rest t == 0
      | _ => true
  | _ => true

theorem careful_of_test {capacity : Nat} (s : State) (e : Event)
    (h : carefulTest capacity s e = true) : Careful capacity s e := by
  cases e with
  | push k =>
    intro t ht howed
    simp only [carefulTest, Option.mem_def.mp ht, howed, Bool.not_true, Bool.false_or] at h
    exact h
  | advance w =>
    simp only [carefulTest] at h
    simp only [Careful]
    split
    · rename_i t rest hframes
      intro hlocal
      simp only [hframes, hlocal, Bool.not_true, Bool.false_or, beq_iff_eq] at h
      exact h
    · trivial
  | _ => trivial

/-- Worker 0 polls the local task 0, which drives the worker; the worker polls task 1 on top
of it, task 1 is woken during its poll, and worker 1 sees it; both polls end. -/
def nestedPolls : List Event :=
  [.wake 0 0, .push 0, .wake 0 1, .push 0, .popLocal 0, .advance 0, .advance 0, .popSend 0 1,
    .advance 0, .advance 0, .wake 0 1, .push 0, .popSend 1 1, .advance 1, .advance 1,
    .pollReturns 0 false, .advance 0, .pollReturns 0 false, .advance 0, .pollReturns 0 false,
    .advance 0]

def nestedState : State :=
  (replay (fun s e => s.step 4 e) (carefulTest 4) (.init oneLocal) nestedPolls).get (by decide +kernel)

theorem polls_not_reentrant_nested :
    nestedState.frames 0 = [] ∧ (nestedState.tasks 1).owed = false ∧ Sound nestedState := by
  have hreplay : replay (fun s e => s.step 4 e) (carefulTest 4) (.init oneLocal) nestedPolls =
      some nestedState := (Option.some_get _).symm
  have hstart : Reached 4 oneLocal (Careful 4) (.init oneLocal) := .start rfl
  have hrun : Reached 4 oneLocal (Careful 4) nestedState :=
    hstart.replay (fun _ _ _ h => h) careful_of_test hreplay
  exact ⟨by decide +kernel, by decide +kernel, polls_not_reentrant 4 oneLocal nestedState hrun⟩

/-- The local task wakes itself during its poll and then drives the worker. -/
def selfWake : List Event :=
  [.wake 0 0, .push 0, .popLocal 0, .advance 0, .advance 0, .wake 0 0, .push 0, .popLocal 0,
    .advance 0, .advance 0]

def selfState : State :=
  (replay (fun s e => s.step 4 e) (fun _ _ => true) (.init oneLocal) selfWake).get (by decide +kernel)

/-- Two polls of the local task are on one stack. -/
theorem polls_reentrant :
    ¬ ∀ (capacity : Nat) (kind : Nat → Kind) (s : State), 0 < capacity →
      Reached capacity kind Always s → Sound s := by
  intro hsound
  have hreplay : replay (fun s e => s.step 4 e) (fun _ _ => true) (.init oneLocal) selfWake =
      some selfState := (Option.some_get _).symm
  have hstart : Reached 4 oneLocal Always (.init oneLocal) := .start rfl
  have hrun : Reached 4 oneLocal Always selfState :=
    hstart.replay (fun _ _ _ h => h) (fun _ _ _ => trivial) hreplay
  exact absurd ((hsound 4 oneLocal selfState (by decide) hrun).once 0 0) (by decide +kernel)

end Veloq.Runtime.Polling
