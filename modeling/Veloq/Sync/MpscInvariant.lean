import Veloq.Sync.Mpsc
set_option autoImplicit false

/-!
# Sync: the tasks of the single-receiver channel

What a task may look like depends on the channel only through its `View`: whether its
reference is queued, whether the receiver has just popped it or is about to wake it, and how
far the receiver is with its own drop.  `Fits` is the invariant of one task in its view, and
`Tidy` says it of all of them.
-/

namespace Veloq.Sync

open Veloq.Foundation

/-! ## One task -/

/-- The part of the channel that concerns one task. -/
structure View where
  queued : Bool
  swapping : Bool
  waking : Bool
  active : Bool
  ended : Bool
  deriving DecidableEq

namespace SendPc

/-- The waker of the future is armed unless it has been woken. -/
def armed : SendPc → Bool
  | swap | enqueue | recheck | full | selfWake | pending => true
  | _ => false

/-- The future has no reference of its own in the queue. -/
def apart : SendPc → Bool
  | fresh | enqueue | lastWake => true
  | _ => false

/-- The future relies on its reference. -/
def parked : SendPc → Bool
  | full | pending => true
  | _ => false

theorem armed_of_parked {pc : SendPc} (h : pc.parked = true) : pc.armed = true := by
  cases pc with
  | full | pending => rfl
  | fresh | load | push | wakeRx | register | swap | enqueue | recheck | selfWake | dropStore
  | lastWake | gone => cases h

end SendPc

/-- Somebody is going to see the reference, or is about to wake the future. -/
def View.attended (v : View) : Bool := v.queued || v.swapping || v.waking

namespace SendFuture

/-- What holds of a task in its view. -/
structure Fits (v : View) (t : SendFuture) : Prop where
  queued : v.queued = true → t.pc.apart = false ∧ (t.pc = .gone ∨ t.waiting = true)
  popped : v.swapping = true →
    v.queued = false ∧ t.pc.apart = false ∧ (t.pc = .gone ∨ t.waiting = true)
  waiting : v.active = true → t.waiting = true →
    v.queued = true ∨ v.swapping = true ∨ t.pc = .enqueue
  waking : v.waking = true → t.pc ≠ .fresh
  enqueue : t.pc = .enqueue → t.waiting = true ∧ v.queued = false ∧ v.swapping = false
  alive : t.waiting = true → t.created = true ∧ t.pc ≠ .gone
  idle : t.pc = .fresh ∨ t.pc = .lastWake → t.created = false
  armed : t.pc.armed = true → t.created = true ∧ (t.registered = true ∨ t.notified = true)
  parked : t.pc.parked = true → t.notified = true ∨ v.attended = true
  recheck : t.pc = .recheck → v.active = true → t.notified = true ∨ v.attended = true
  ended : v.ended = true → v.active = false ∧ (t.pc.parked = true → t.notified = true)

variable (v : View) (t : SendFuture)

/-- The task after its next step. -/
def next (active room : Bool) : SendFuture :=
  let finished := { t with pc := if t.created then .dropStore else .gone }
  match t.pc with
  | .load => if active then { t with pc := .push } else finished
  | .push => { t with pc := if room then .wakeRx else .register }
  | .wakeRx => finished
  | .register => { t with created := true, registered := true, pc := .swap }
  | .swap => { t with waiting := true, pc := if t.waiting then .recheck else .enqueue }
  | .enqueue => { t with pc := .recheck }
  | .recheck => if active then { t with pc := .full } else finished
  | .full => { t with pc := if room then .selfWake else .pending }
  | .selfWake =>
      { t with registered := false, notified := t.notified || t.registered, pc := .pending }
  | .dropStore => { t with waiting := false, pc := .gone }
  | .lastWake => { t with pc := .gone }
  | .fresh | .pending | .gone => t

/-- The task after a wake-up. -/
def woken (t : SendFuture) : SendFuture :=
  if t.registered then { t with registered := false, notified := true } else t

variable {v t}

attribute [local grind =] SendPc.apart SendPc.armed SendPc.parked View.attended

/-- An attempt to send goes on. -/
theorem Fits.attempt (h : t.Fits v) (room : Bool)
    (hpc : t.pc = .load ∨ t.pc = .push ∨ t.pc = .wakeRx) : (t.next v.active room).Fits v := by
  obtain ⟨created, waiting, registered, notified, pc⟩ := t
  obtain ⟨hqueued, hpopped, hwaiting, hwaking, henqueue, halive, hidle, harmed, hparked,
    hrecheck, hover⟩ := h
  rcases hpc with rfl | rfl | rfl <;> constructor <;> grind -linarith [SendFuture.next]

/-- The future gets ready to wait. -/
theorem Fits.prepare (h : t.Fits v) (room : Bool) (hpc : t.pc = .register ∨ t.pc = .swap) :
    (t.next v.active room).Fits v := by
  obtain ⟨created, waiting, registered, notified, pc⟩ := t
  obtain ⟨hqueued, hpopped, hwaiting, hwaking, henqueue, halive, hidle, harmed, hparked,
    hrecheck, hover⟩ := h
  rcases hpc with rfl | rfl <;> constructor <;> grind -linarith [SendFuture.next]

/-- The reference enters the queue. -/
theorem Fits.enqueued (h : t.Fits v) (room : Bool) (hpc : t.pc = .enqueue) :
    (t.next v.active room).Fits { v with queued := true } := by
  obtain ⟨created, waiting, registered, notified, pc⟩ := t
  obtain ⟨hqueued, hpopped, hwaiting, hwaking, henqueue, halive, hidle, harmed, hparked,
    hrecheck, hover⟩ := h
  cases hpc
  constructor <;> grind -linarith [SendFuture.next]

/-- The future looks once more before it waits. -/
theorem Fits.look (h : t.Fits v) (room : Bool)
    (hpc : t.pc = .recheck ∨ t.pc = .full ∨ t.pc = .selfWake) :
    (t.next v.active room).Fits v := by
  obtain ⟨created, waiting, registered, notified, pc⟩ := t
  obtain ⟨hqueued, hpopped, hwaiting, hwaking, henqueue, halive, hidle, harmed, hparked,
    hrecheck, hover⟩ := h
  rcases hpc with rfl | rfl | rfl <;> constructor <;> grind -linarith [SendFuture.next]

theorem Fits.leave (h : t.Fits v) (room : Bool) (hpc : t.pc = .dropStore ∨ t.pc = .lastWake) :
    (t.next v.active room).Fits v := by
  obtain ⟨created, waiting, registered, notified, pc⟩ := t
  obtain ⟨hqueued, hpopped, hwaiting, hwaking, henqueue, halive, hidle, harmed, hparked,
    hrecheck, hover⟩ := h
  rcases hpc with rfl | rfl <;> constructor <;> grind -linarith [SendFuture.next]

theorem Fits.next (h : t.Fits v) (room : Bool) :
    (t.next v.active room).Fits { v with queued := v.queued || t.pc == .enqueue } := by
  have hsame : t.pc ≠ .enqueue → { v with queued := v.queued || t.pc == .enqueue } = v := by
    intro hne
    rw [beq_eq_false_iff_ne.mpr hne, Bool.or_false]
  cases hpc : t.pc with
  | load => rw [← hpc, hsame (by rw [hpc]; decide)]; exact h.attempt room (.inl hpc)
  | push => rw [← hpc, hsame (by rw [hpc]; decide)]; exact h.attempt room (.inr (.inl hpc))
  | wakeRx => rw [← hpc, hsame (by rw [hpc]; decide)]; exact h.attempt room (.inr (.inr hpc))
  | register => rw [← hpc, hsame (by rw [hpc]; decide)]; exact h.prepare room (.inl hpc)
  | swap => rw [← hpc, hsame (by rw [hpc]; decide)]; exact h.prepare room (.inr hpc)
  | enqueue =>
    rw [beq_self_eq_true, Bool.or_true]
    exact h.enqueued room hpc
  | recheck => rw [← hpc, hsame (by rw [hpc]; decide)]; exact h.look room (.inl hpc)
  | full => rw [← hpc, hsame (by rw [hpc]; decide)]; exact h.look room (.inr (.inl hpc))
  | selfWake => rw [← hpc, hsame (by rw [hpc]; decide)]; exact h.look room (.inr (.inr hpc))
  | dropStore => rw [← hpc, hsame (by rw [hpc]; decide)]; exact h.leave room (.inl hpc)
  | lastWake => rw [← hpc, hsame (by rw [hpc]; decide)]; exact h.leave room (.inr hpc)
  | fresh | pending | gone =>
    rw [← hpc, hsame (by rw [hpc]; decide)]
    unfold SendFuture.next
    rw [hpc]
    exact h

/-- A call begins. -/
theorem Fits.begin (h : t.Fits v) {pc : SendPc} (hpc : t.pc = .fresh)
    (hto : pc = .load ∨ pc = .lastWake ∨ pc = .gone) : ({ t with pc := pc } : SendFuture).Fits v := by
  obtain ⟨hqueued, hpopped, hwaiting, hwaking, henqueue, halive, hidle, harmed, hparked,
    hrecheck, hover⟩ := h
  constructor <;> grind -linarith

theorem Fits.poll (h : t.Fits v) (hpc : t.pc = .pending) :
    ({ t with notified := false, pc := .load } : SendFuture).Fits v := by
  obtain ⟨hqueued, hpopped, hwaiting, hwaking, henqueue, halive, hidle, harmed, hparked,
    hrecheck, hover⟩ := h
  constructor <;> grind -linarith

theorem Fits.drop (h : t.Fits v) (hpc : t.pc = .pending) :
    ({ t with pc := .dropStore } : SendFuture).Fits v := by
  obtain ⟨hqueued, hpopped, hwaiting, hwaking, henqueue, halive, hidle, harmed, hparked,
    hrecheck, hover⟩ := h
  constructor <;> grind -linarith

/-- The receiver pops the reference, to wake the future if it waits. -/
theorem Fits.pop (h : t.Fits v) (hq : v.queued = true) :
    t.Fits { v with queued := false, swapping := true } := by
  obtain ⟨hqueued, hpopped, hwaiting, hwaking, henqueue, halive, hidle, harmed, hparked,
    hrecheck, hover⟩ := h
  constructor <;> grind -linarith

/-- The receiver finds that the future waits. -/
theorem Fits.swap (h : t.Fits v) (hsw : v.swapping = true) :
    ({ t with waiting := false } : SendFuture).Fits { v with swapping := false, waking := true } := by
  obtain ⟨hqueued, hpopped, hwaiting, hwaking, henqueue, halive, hidle, harmed, hparked,
    hrecheck, hover⟩ := h
  constructor <;> grind -linarith

/-- The receiver finds that the future does not wait. -/
theorem Fits.stale (h : t.Fits v) (hsw : v.swapping = true) (hw : t.waiting = false) :
    t.Fits { v with swapping := false } := by
  obtain ⟨hqueued, hpopped, hwaiting, hwaking, henqueue, halive, hidle, harmed, hparked,
    hrecheck, hover⟩ := h
  constructor <;> grind -linarith

theorem Fits.woken (h : t.Fits v) : t.woken.Fits { v with waking := false } := by
  obtain ⟨hqueued, hpopped, hwaiting, hwaking, henqueue, halive, hidle, harmed, hparked,
    hrecheck, hover⟩ := h
  constructor <;> grind -linarith [SendFuture.woken, SendPc.armed_of_parked]

/-- The receiver ceases to be active. -/
theorem Fits.inactive (h : t.Fits v) : t.Fits { v with active := false } := by
  obtain ⟨hqueued, hpopped, hwaiting, hwaking, henqueue, halive, hidle, harmed, hparked,
    hrecheck, hover⟩ := h
  constructor <;> grind -linarith

/-- The receiver pops the reference to wake the future in any case. -/
theorem Fits.drain (h : t.Fits v) (hq : v.queued = true) (hactive : v.active = false) :
    t.Fits { v with queued := false, waking := true } := by
  obtain ⟨hqueued, hpopped, hwaiting, hwaking, henqueue, halive, hidle, harmed, hparked,
    hrecheck, hover⟩ := h
  constructor <;> grind -linarith

/-- The receiver has found no more references. -/
theorem Fits.finish (h : t.Fits v) (hactive : v.active = false) (hnot : v.attended = false) :
    t.Fits { v with ended := true } := by
  obtain ⟨hqueued, hpopped, hwaiting, hwaking, henqueue, halive, hidle, harmed, hparked,
    hrecheck, hover⟩ := h
  constructor <;> grind -linarith

/-- A sleeping future is attended and has its waker armed. -/
theorem Fits.asleep (h : t.Fits v) (hasleep : t.asleep = true) :
    t.registered = true ∧ v.attended = true ∧ v.ended = false := by
  obtain ⟨hpc, hn⟩ : t.pc = .pending ∧ t.notified = false := by
    simpa [SendFuture.asleep] using hasleep
  have hparked : t.pc.parked = true := by
    rw [hpc]
    rfl
  have harmed : t.pc.armed = true := by
    rw [hpc]
    rfl
  refine ⟨?_, ?_, ?_⟩
  · exact (h.armed harmed).2.resolve_right (by rw [hn]; decide)
  · exact (h.parked hparked).resolve_left (by rw [hn]; decide)
  · rw [Bool.eq_false_iff]
    intro hover
    exact absurd ((h.ended hover).2 hparked) (by rw [hn]; decide)

end SendFuture

/-- The receiver is being dropped or gone. -/
def RecvPc.ending : RecvPc → Bool
  | drainPop | drainWake _ | gone => true
  | _ => false

namespace Mpsc

variable {s s' : Mpsc} {f g h : Nat}

/-- The channel as it concerns `f`, given the references and where the receiver is. -/
def viewOf (waiters : List Nat) (recv : RecvPc) (active : Bool) (f : Nat) : View :=
  { queued := decide (f ∈ waiters)
    swapping := decide (recv = .waitersSwap f)
    waking := decide (recv = .waitersWake f ∨ recv = .drainWake f)
    active := active
    ended := decide (recv = .gone) }

def view (s : Mpsc) (f : Nat) : View := viewOf s.sendWaiters s.recv s.receiverActive f

structure Tidy (s : Mpsc) : Prop where
  nodup : s.sendWaiters.Nodup
  ending : s.receiverActive = !s.recv.ending
  fits : ∀ f, (s.tasks f).Fits (s.view f)

/-! ## The steps of a task -/

/-- What the next step of a task does to the channel. -/
structure Stepped (s s' : Mpsc) (f : Nat) : Prop where
  task : s'.tasks f = (s.tasks f).next s.receiverActive (decide (s.len < s.capacity))
  others : ∀ g, g ≠ f → s'.tasks g = s.tasks g
  recv : s'.recv = s.recv
  active : s'.receiverActive = s.receiverActive
  capacity : s'.capacity = s.capacity
  waiters : s'.sendWaiters =
    if (s.tasks f).pc = .enqueue then s.sendWaiters ++ [f] else s.sendWaiters
  len : s'.len = if (s.tasks f).pc = .push ∧ s.len < s.capacity then s.len + 1 else s.len

theorem setTask_self (s : Mpsc) (f : Nat) (t : SendFuture) : (s.setTask f t).tasks f = t :=
  Function.update_self ..

theorem setTask_of_ne {s : Mpsc} {f g : Nat} {t : SendFuture} (h : g ≠ f) :
    (s.setTask f t).tasks g = s.tasks g := Function.update_of_ne h ..

/-- `wake_rx` concerns nobody but the receiver. -/
theorem notifyRx_eq (s : Mpsc) : s.notifyRx.tasks = s.tasks ∧ s.notifyRx.recv = s.recv ∧
    s.notifyRx.receiverActive = s.receiverActive ∧ s.notifyRx.capacity = s.capacity ∧
    s.notifyRx.sendWaiters = s.sendWaiters ∧ s.notifyRx.len = s.len := by
  unfold notifyRx
  split
  · exact ⟨rfl, rfl, rfl, rfl, rfl, rfl⟩
  · exact ⟨rfl, rfl, rfl, rfl, rfl, rfl⟩

/-- A step that only sets the task, perhaps after waking the receiver. -/
theorem Stepped.set {t : SendFuture} {c : Mpsc} (hc : c = s ∨ c = s.notifyRx)
    (ht : t = (s.tasks f).next s.receiverActive (decide (s.len < s.capacity)))
    (henqueue : (s.tasks f).pc ≠ .enqueue)
    (hpush : ¬ ((s.tasks f).pc = .push ∧ s.len < s.capacity)) :
    Stepped s (c.setTask f t) f := by
  have hsame : c.tasks = s.tasks ∧ c.recv = s.recv ∧ c.receiverActive = s.receiverActive ∧
      c.capacity = s.capacity ∧ c.sendWaiters = s.sendWaiters ∧ c.len = s.len := by
    rcases hc with rfl | rfl
    · exact ⟨rfl, rfl, rfl, rfl, rfl, rfl⟩
    · exact s.notifyRx_eq
  obtain ⟨htasks, hrecv, hactive, hcapacity, hwaiters, hlen⟩ := hsame
  refine ⟨?_, ?_, hrecv, hactive, hcapacity, ?_, ?_⟩
  · rw [setTask_self]
    exact ht
  · intro g hg
    rw [setTask_of_ne hg, htasks]
  · rw [if_neg henqueue]
    exact hwaiters
  · rw [if_neg hpush]
    exact hlen

theorem stepped_of_advance (hs : s.advance f = some s') : Stepped s s' f := by
  unfold advance at hs
  split at hs
  case h_1 hpc =>
    cases hs
    unfold sendLoad finish goto
    split
    · exact .set (.inl rfl) (by simp [SendFuture.next, *]) (by simp [hpc]) (by simp [hpc])
    · exact .set (.inl rfl) (by simp [SendFuture.next, *]) (by simp [hpc]) (by simp [hpc])
  case h_2 hpc =>
    cases hs
    unfold sendPush goto
    split
    · rename_i hroom
      refine ⟨?_, fun g hg => setTask_of_ne hg, rfl, rfl, rfl, ?_, ?_⟩
      · exact (setTask_self ..).trans (by simp [SendFuture.next, hpc, hroom])
      · rw [if_neg (by simp [hpc])]
        rfl
      · rw [if_pos ⟨hpc, hroom⟩]
    · rename_i hroom
      exact .set (.inl rfl) (by simp [SendFuture.next, hpc, hroom]) (by simp [hpc])
        fun h => hroom h.2
  case h_3 hpc =>
    cases hs
    unfold finish goto
    exact .set (.inr rfl) (by rw [(notifyRx_eq s).1]; simp [SendFuture.next, hpc])
      (by simp [hpc]) (by simp [hpc])
  case h_4 hpc =>
    cases hs
    exact .set (.inl rfl) (by simp [SendFuture.next, hpc]) (by simp [hpc]) (by simp [hpc])
  case h_5 hpc =>
    cases hs
    exact .set (.inl rfl) (by simp [SendFuture.next, hpc]) (by simp [hpc]) (by simp [hpc])
  case h_6 hpc =>
    cases hs
    refine ⟨?_, fun g hg => setTask_of_ne hg, rfl, rfl, rfl, ?_, ?_⟩
    · exact (setTask_self ..).trans (by simp [SendFuture.next, hpc])
    · rw [if_pos hpc]
      rfl
    · rw [if_neg (by simp [hpc])]
      rfl
  case h_7 hpc =>
    cases hs
    unfold sendRecheck finish goto
    split
    · exact .set (.inl rfl) (by simp [SendFuture.next, *]) (by simp [hpc]) (by simp [hpc])
    · exact .set (.inl rfl) (by simp [SendFuture.next, *]) (by simp [hpc]) (by simp [hpc])
  case h_8 hpc =>
    cases hs
    unfold sendFull goto
    split
    · exact .set (.inl rfl) (by simp [SendFuture.next, *]) (by simp [hpc]) (by simp [hpc])
    · exact .set (.inl rfl) (by simp [SendFuture.next, *]) (by simp [hpc]) (by simp [hpc])
  case h_9 hpc =>
    cases hs
    unfold wake
    split
    · rename_i hregistered
      unfold goto
      rw [setTask_self]
      have hset : ∀ t t' : SendFuture, (s.setTask f t).setTask f t' = s.setTask f t' := by
        intro t t'
        unfold setTask
        dsimp only
        rw [Function.update_idem]
      rw [hset]
      exact .set (.inl rfl) (by simp [SendFuture.next, hpc, hregistered]) (by simp [hpc])
        (by simp [hpc])
    · rename_i hregistered
      have hfalse : (s.tasks f).registered = false := by simpa using hregistered
      exact .set (.inl rfl) (by simp [SendFuture.next, hpc, ← hfalse]) (by simp [hpc])
        (by simp [hpc])
  case h_10 hpc =>
    cases hs
    exact .set (.inl rfl) (by simp [SendFuture.next, hpc]) (by simp [hpc]) (by simp [hpc])
  case h_11 hpc =>
    cases hs
    unfold goto
    exact .set (.inr rfl) (by rw [(notifyRx_eq s).1]; simp [SendFuture.next, hpc])
      (by simp [hpc]) (by simp [hpc])
  all_goals cases hs

/-! ## The tasks along a run -/

theorem view_congr (hwaiters : s'.sendWaiters = s.sendWaiters) (hrecv : s'.recv = s.recv)
    (hactive : s'.receiverActive = s.receiverActive) (g : Nat) : s'.view g = s.view g := by
  unfold view
  rw [hwaiters, hrecv, hactive]

/-- A task changes, the rest of the channel looks the same. -/
theorem Tidy.task (h : s.Tidy) (hwaiters : s'.sendWaiters = s.sendWaiters)
    (hrecv : s'.recv = s.recv) (hactive : s'.receiverActive = s.receiverActive)
    (hothers : ∀ g, g ≠ f → s'.tasks g = s.tasks g) (hfits : (s'.tasks f).Fits (s.view f)) :
    s'.Tidy := by
  refine ⟨by rw [hwaiters]; exact h.nodup, by rw [hrecv, hactive]; exact h.ending, ?_⟩
  intro g
  rw [view_congr hwaiters hrecv hactive]
  by_cases hg : g = f
  · subst hg
    exact hfits
  · rw [hothers g hg]
    exact h.fits g

theorem Tidy.advance (h : s.Tidy) (hstep : Stepped s s' f) : s'.Tidy := by
  have hnext : ((s.tasks f).next s.receiverActive (decide (s.len < s.capacity))).Fits
      { s.view f with queued := (s.view f).queued || (s.tasks f).pc == .enqueue } :=
    (h.fits f).next (decide (s.len < s.capacity))
  by_cases hpc : (s.tasks f).pc = .enqueue
  · have hwaiters := hstep.waiters
    rw [if_pos hpc] at hwaiters
    have hnot : f ∉ s.sendWaiters := by
      have hq := ((h.fits f).enqueue hpc).2.1
      simpa [view, viewOf] using hq
    refine ⟨?_, by rw [hstep.recv, hstep.active]; exact h.ending, ?_⟩
    · rw [hwaiters]
      exact List.nodup_append.mpr ⟨h.nodup, List.nodup_singleton f,
        fun a ha b hb => by rw [List.mem_singleton.mp hb]; rintro rfl; exact hnot ha⟩
    · intro g
      have hview : s'.view g = { s.view g with queued := (s.view g).queued || decide (g = f) } := by
        unfold view
        rw [hwaiters, hstep.recv, hstep.active]
        simp [viewOf, List.mem_append]
      rw [hview]
      by_cases hg : g = f
      · subst hg
        rw [hstep.task]
        simpa [hpc] using hnext
      · rw [hstep.others g hg]
        simpa [hg] using h.fits g
  · have hwaiters := hstep.waiters
    rw [if_neg hpc] at hwaiters
    refine h.task hwaiters hstep.recv hstep.active hstep.others ?_
    rw [beq_eq_false_iff_ne.mpr hpc, Bool.or_false] at hnext
    rw [hstep.task]
    exact hnext

/-! ## The steps of the receiver -/

/-- The receiver goes on to a place that concerns no task. -/
theorem Tidy.recv (h : s.Tidy) (htasks : s'.tasks = s.tasks)
    (hwaiters : s'.sendWaiters = s.sendWaiters) (hactive : s'.receiverActive = s.receiverActive)
    (hending : s'.recv.ending = s.recv.ending)
    (hplain : ∀ f, s'.view f = s.view f) : s'.Tidy := by
  refine ⟨by rw [hwaiters]; exact h.nodup, by rw [hactive, hending]; exact h.ending, ?_⟩
  intro f
  rw [hplain, htasks]
  exact h.fits f

/-- The receiver pops the first reference. -/
theorem Tidy.popWaiter (h : s.Tidy) (hrecv : s.recv = .waitersPop) {rest : List Nat}
    (hwaiters : s.sendWaiters = g :: rest) :
    Tidy { s with sendWaiters := rest, recv := .waitersSwap g } := by
  have hnodup := h.nodup
  rw [hwaiters, List.nodup_cons] at hnodup
  have hending := h.ending
  rw [hrecv] at hending
  refine ⟨hnodup.2, hending, ?_⟩
  intro f
  have hfits := h.fits f
  unfold view at hfits
  rw [hwaiters, hrecv] at hfits
  show (s.tasks f).Fits (viewOf rest (.waitersSwap g) s.receiverActive f)
  by_cases hf : f = g
  · subst hf
    have hpop := hfits.pop (decide_eq_true (List.mem_cons_self ..))
    rw [show viewOf rest (.waitersSwap f) s.receiverActive f =
      { viewOf (f :: rest) .waitersPop s.receiverActive f with queued := false, swapping := true }
      by simp [viewOf, hnodup.1]]
    exact hpop
  · rw [show viewOf rest (.waitersSwap g) s.receiverActive f =
      viewOf (g :: rest) .waitersPop s.receiverActive f by simp [viewOf, hf, Ne.symm hf]]
    exact hfits

/-- Where the receiver is makes no difference to the tasks that it has not popped. -/
theorem viewOf_other {waiters : List Nat} {active : Bool} (hf : f ≠ g) :
    viewOf waiters (.waitersSwap g) active f = viewOf waiters .waitersPop active f ∧
      viewOf waiters (.waitersWake g) active f = viewOf waiters .waitersPop active f ∧
      viewOf waiters .idle active f = viewOf waiters .waitersPop active f ∧
      viewOf waiters (.drainWake g) active f = viewOf waiters .drainPop active f := by
  simp [viewOf, Ne.symm hf]

/-- The receiver looks whether the future waits. -/
theorem Tidy.swapWaiting (h : s.Tidy) (hrecv : s.recv = .waitersSwap g) :
    (s.swapWaiting g).Tidy := by
  have hending := h.ending
  have hfits := h.fits
  unfold view at hfits
  rw [hrecv] at hending hfits
  have hsw : (viewOf s.sendWaiters (.waitersSwap g) s.receiverActive g).swapping = true :=
    decide_eq_true rfl
  unfold Mpsc.swapWaiting
  split
  · refine ⟨h.nodup, hending, ?_⟩
    intro f
    show (Function.update s.tasks g _ f).Fits
      (viewOf s.sendWaiters (.waitersWake g) s.receiverActive f)
    by_cases hf : f = g
    · subst hf
      rw [Function.update_self, show viewOf s.sendWaiters (.waitersWake f) s.receiverActive f =
        { viewOf s.sendWaiters (.waitersSwap f) s.receiverActive f with
          swapping := false, waking := true } by simp [viewOf]]
      exact (hfits f).swap hsw
    · rw [Function.update_of_ne hf, (viewOf_other hf).2.1, ← (viewOf_other hf).1]
      exact hfits f
  · rename_i hw
    have hw' : (s.tasks g).waiting = false := by simpa using hw
    refine ⟨h.nodup, hending, ?_⟩
    intro f
    show (s.tasks f).Fits (viewOf s.sendWaiters .waitersPop s.receiverActive f)
    by_cases hf : f = g
    · subst hf
      rw [show viewOf s.sendWaiters .waitersPop s.receiverActive f =
        { viewOf s.sendWaiters (.waitersSwap f) s.receiverActive f with swapping := false }
        by simp [viewOf]]
      exact (hfits f).stale hsw hw'
    · rw [← (viewOf_other hf).1]
      exact hfits f

/-- The wake-up of a task. -/
theorem wake_tasks (s : Mpsc) (g : Nat) :
    (s.wake g).tasks = Function.update s.tasks g (s.tasks g).woken ∧
      (s.wake g).sendWaiters = s.sendWaiters ∧ (s.wake g).recv = s.recv ∧
      (s.wake g).receiverActive = s.receiverActive ∧ (s.wake g).capacity = s.capacity ∧
      (s.wake g).len = s.len := by
  unfold wake SendFuture.woken
  split
  · exact ⟨rfl, rfl, rfl, rfl, rfl, rfl⟩
  · exact ⟨(Function.update_eq_self ..).symm, rfl, rfl, rfl, rfl, rfl⟩

/-- The receiver wakes `g` and goes on. -/
theorem Tidy.wake (h : s.Tidy) {pc : RecvPc}
    (hrecv : (s.recv = .waitersWake g ∧ pc = .idle) ∨ (s.recv = .drainWake g ∧ pc = .drainPop)) :
    Tidy { s.wake g with recv := pc } := by
  obtain ⟨htasks, hwaiters, -, hactive, -, -⟩ := s.wake_tasks g
  have hending : s.receiverActive = !pc.ending := by
    have hending := h.ending
    rcases hrecv with ⟨hr, rfl⟩ | ⟨hr, rfl⟩
    · rw [hr] at hending
      exact hending
    · rw [hr] at hending
      exact hending
  have hview : ∀ f, viewOf s.sendWaiters pc s.receiverActive f =
      { s.view f with waking := if f = g then false else (s.view f).waking } := by
    intro f
    unfold view
    by_cases hf : f = g
    · rcases hrecv with ⟨hr, rfl⟩ | ⟨hr, rfl⟩ <;> simp [viewOf, hr, hf]
    · rcases hrecv with ⟨hr, rfl⟩ | ⟨hr, rfl⟩ <;> simp [viewOf, hr, hf, Ne.symm hf]
  refine ⟨?_, by rw [hactive]; exact hending, ?_⟩
  · show (s.wake g).sendWaiters.Nodup
    rw [hwaiters]
    exact h.nodup
  · intro f
    show ((s.wake g).tasks f).Fits
      (viewOf (s.wake g).sendWaiters pc (s.wake g).receiverActive f)
    rw [hwaiters, hactive, hview, htasks]
    by_cases hf : f = g
    · subst hf
      rw [Function.update_self, if_pos rfl]
      exact (h.fits f).woken
    · rw [Function.update_of_ne hf, if_neg hf]
      exact h.fits f

/-- The receiver begins to be dropped. -/
theorem Tidy.inactive (h : s.Tidy) (hrecv : s.recv = .inactive) :
    Tidy { s with receiverActive := false, recv := .drainPop } := by
  refine ⟨h.nodup, rfl, ?_⟩
  intro f
  have hfits := h.fits f
  unfold view at hfits
  rw [hrecv] at hfits
  show (s.tasks f).Fits (viewOf s.sendWaiters .drainPop false f)
  rw [show viewOf s.sendWaiters .drainPop false f =
    { viewOf s.sendWaiters .inactive s.receiverActive f with active := false } by simp [viewOf]]
  exact hfits.inactive

/-- The receiver pops the next reference or is gone. -/
theorem Tidy.drainWaiter (h : s.Tidy) (hrecv : s.recv = .drainPop) : s.drainWaiter.Tidy := by
  have hending := h.ending
  have hfits := h.fits
  have hnodup := h.nodup
  unfold view at hfits
  rw [hrecv] at hending hfits
  unfold Mpsc.drainWaiter
  split
  · rename_i hwaiters
    rw [hwaiters] at hfits
    refine ⟨h.nodup, hending, ?_⟩
    intro f
    show (s.tasks f).Fits (viewOf s.sendWaiters .gone s.receiverActive f)
    rw [hwaiters, show viewOf [] .gone s.receiverActive f =
      { viewOf [] .drainPop s.receiverActive f with ended := true } by simp [viewOf]]
    exact (hfits f).finish hending (by simp [viewOf, View.attended])
  · rename_i g rest hwaiters
    rw [hwaiters] at hfits hnodup
    rw [List.nodup_cons] at hnodup
    refine ⟨hnodup.2, hending, ?_⟩
    intro f
    show (s.tasks f).Fits (viewOf rest (.drainWake g) s.receiverActive f)
    by_cases hf : f = g
    · subst hf
      rw [show viewOf rest (.drainWake f) s.receiverActive f =
        { viewOf (f :: rest) .drainPop s.receiverActive f with queued := false, waking := true }
        by simp [viewOf, hnodup.1]]
      exact (hfits f).drain (decide_eq_true (List.mem_cons_self ..)) hending
    · rw [(viewOf_other hf).2.2.2, show viewOf rest .drainPop s.receiverActive f =
        viewOf (g :: rest) .drainPop s.receiverActive f by simp [viewOf, hf]]
      exact hfits f

end Mpsc

end Veloq.Sync
