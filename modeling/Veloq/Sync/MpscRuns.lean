import Veloq.Sync.MpscInvariant
set_option autoImplicit false

/-!
# Sync: no sender of the single-receiver channel is stranded

A sleeping future sees the free places of the channel made up for by the futures that are
going to try to push, and by the wake-up the receiver still has to give.  A future whose
reference stands before its own does not count, since the next wake-up goes there too.  The
steps keep this, but for a wake-up that nobody uses: `Careful` speaks of these two.
-/

namespace Veloq.Sync

open Veloq.Foundation

namespace SendFuture

/-! ## Who is going to push -/

variable {v : View} {t : SendFuture}

/-- A future falls asleep only when it has found the queue full. -/
theorem asleep_of_next (h : t.Fits v) (hpc : t.pc ≠ .pending)
    (hasleep : (t.next v.active true).asleep = true) : False := by
  have harmed := h.armed
  obtain ⟨created, waiting, registered, notified, pc⟩ := t
  cases pc <;> grind -linarith [SendFuture.next, SendFuture.asleep, SendPc.armed]

/-- While there is room, a future that is going to push does so. -/
theorem attempting_next (h : t.Fits v) (hactive : v.active = true) (hpc : t.pc ≠ .push)
    (hattempting : t.attempting = true) : (t.next v.active true).attempting = true := by
  have harmed := h.armed
  obtain ⟨created, waiting, registered, notified, pc⟩ := t
  cases pc <;> grind -linarith [SendFuture.next, SendFuture.attempting, SendPc.polling, SendPc.armed]

theorem attempting_of_next {active room : Bool}
    (hattempting : (t.next active room).attempting = true) : t.attempting = true := by
  obtain ⟨created, waiting, registered, notified, pc⟩ := t
  cases pc <;> grind -linarith [SendFuture.next, SendFuture.attempting, SendPc.polling]

/-- A sleeping future is the one that a wake-up makes push. -/
theorem attempting_woken (h : t.Fits v) (hasleep : t.asleep = true) :
    t.woken.attempting = true := by
  have hregistered := (h.asleep hasleep).1
  grind -linarith [SendFuture.woken, SendFuture.attempting, SendFuture.asleep]

theorem attempting_woken_of (hattempting : t.attempting = true) :
    t.woken.attempting = true := by
  grind -linarith [SendFuture.woken, SendFuture.attempting]

theorem asleep_of_woken (hasleep : t.woken.asleep = true) : t.asleep = true := by
  grind -linarith [SendFuture.woken, SendFuture.asleep]

theorem not_attempting_of_asleep (hasleep : t.asleep = true) : t.attempting = false := by
  grind -linarith [SendFuture.attempting, SendFuture.asleep, SendPc.polling]

end SendFuture

/-- The receiver is where it concerns no task and owes nothing. -/
def RecvPc.plain : RecvPc → Bool
  | idle | register | pop | senderLoad | popAgain | inactive => true
  | _ => false

namespace Mpsc

variable {s s' : Mpsc} {f g h : Nat} {waiters : List Nat}

/-! ## The order of the references -/

theorem not_before_of_notMem (hg : g ∉ waiters) : ¬ Before waiters g h := by
  rintro ⟨hmem, hlt⟩
  have hlen := List.idxOf_lt_length_of_mem hmem
  rw [List.idxOf_eq_length hg] at hlt
  omega

/-- A reference at the end stands before nothing. -/
theorem Before.of_append (hb : Before (waiters ++ [f]) g h) (hf : h ≠ f) :
    Before waiters g h := by
  obtain ⟨hmem, hlt⟩ := hb
  have hh : h ∈ waiters := by simpa [hf] using hmem
  rw [List.idxOf_append_of_mem hh] at hlt
  have hlen := List.idxOf_lt_length_of_mem hh
  have hg : g ∈ waiters := by
    by_contra hg
    rw [List.idxOf_append_of_notMem hg] at hlt
    omega
  rw [List.idxOf_append_of_mem hg] at hlt
  exact ⟨hh, hlt⟩

/-- The references keep their order when the first one is popped. -/
theorem Before.cons (hb : Before waiters g h) (hf : f ∉ waiters) :
    Before (f :: waiters) g h := by
  have hg : g ≠ f := by
    rintro rfl
    exact not_before_of_notMem hf hb
  obtain ⟨hmem, hlt⟩ := hb
  have hh : h ≠ f := fun heq => hf (heq ▸ hmem)
  refine ⟨List.mem_cons_of_mem f hmem, ?_⟩
  rw [List.idxOf_cons_ne _ hg.symm, List.idxOf_cons_ne _ hh.symm]
  exact Nat.succ_lt_succ hlt

theorem before_head (hh : h ∈ g :: waiters) (hne : h ≠ g) : Before (g :: waiters) g h := by
  refine ⟨hh, ?_⟩
  rw [List.idxOf_cons_self, List.idxOf_cons_ne _ hne.symm]
  exact Nat.succ_pos _

/-! ## The debt of the receiver -/

/-- The receiver has popped the reference of `f`, and is not done with it. -/
def Busy (s : Mpsc) (f : Nat) : Prop := s.recv = .waitersSwap f ∨ s.recv = .waitersWake f

theorem Busy.owing (hbusy : s.Busy f) : s.owing h =
    if (s.tasks f).attempting = true ∨ Before s.sendWaiters f h then 0 else 1 := by
  unfold Mpsc.owing
  rcases hbusy with hr | hr <;> rw [hr]

/-- The receiver owes no less when the future is going to push no more. -/
theorem Busy.owing_le (hbusy : s.Busy f) (hbusy' : s'.Busy f)
    (hattempting : (s'.tasks f).attempting = true → (s.tasks f).attempting = true)
    (hbefore : Before s'.sendWaiters f h → Before s.sendWaiters f h) :
    s.owing h ≤ s'.owing h := by
  rw [hbusy.owing, hbusy'.owing]
  split
  · exact Nat.zero_le _
  · rename_i hnot
    rw [if_neg fun hor => hnot (hor.imp hattempting hbefore)]

theorem owing_mono (hrecv : s'.recv = s.recv)
    (hattempting : ∀ g, s.Busy g →
      (s'.tasks g).attempting = true → (s.tasks g).attempting = true)
    (hbefore : ∀ g, Before s'.sendWaiters g h → Before s.sendWaiters g h) :
    s.owing h ≤ s'.owing h := by
  by_cases hbusy : ∃ g, s.Busy g
  · obtain ⟨g, hg⟩ := hbusy
    have hg' : s'.Busy g := by
      unfold Busy
      rw [hrecv]
      exact hg
    exact hg.owing_le hg' (hattempting g hg) (hbefore g)
  · unfold owing
    rw [hrecv]
    split
    · exact Nat.le_refl 1
    · rename_i g hr
      exact absurd ⟨g, .inl hr⟩ hbusy
    · rename_i g hr
      exact absurd ⟨g, .inr hr⟩ hbusy
    · exact Nat.le_refl 0

/-! ## Service along the steps of a task -/

/-- Only one task changes: if it falls asleep the queue is full. -/
theorem Served.of_others (hactive : s'.receiverActive = s.receiverActive)
    (hothers : ∀ g, g ≠ f → s'.tasks g = s.tasks g)
    (hself : s.receiverActive = true → (s'.tasks f).asleep = true → s'.capacity ≤ s'.len)
    (hrest : s.receiverActive = true → ∀ h, h ≠ f → (s.tasks h).asleep = true →
      Backed (fun _ => False) (s'.Backs h) s'.capacity (s'.len + s'.owing h)) : s'.Served := by
  intro hact h hasleep
  rw [hactive] at hact
  by_cases hf : h = f
  · subst hf
    exact .of_le (Nat.le_add_right_of_le (hself hact hasleep)) fun _ => id
  · rw [hothers h hf] at hasleep
    exact hrest hact h hf hasleep

theorem Served.advance (hserved : s.Served) (htidy : s.Tidy) (hpc : (s.tasks f).pc ≠ .pending)
    (hstep : Stepped s s' f) : s'.Served := by
  have hfits := htidy.fits f
  have htask := hstep.task
  have hlen := hstep.len
  by_cases hroom : s.len < s.capacity
  · rw [decide_eq_true hroom] at htask
    refine .of_others hstep.active hstep.others ?_ ?_
    · intro _ hasleep
      rw [htask] at hasleep
      exact (SendFuture.asleep_of_next hfits hpc hasleep).elim
    · intro hactive h hf hasleep
      have hback := hserved hactive h hasleep
      have hbefore : ∀ g, Before s'.sendWaiters g h → Before s.sendWaiters g h := by
        intro g hb
        rw [hstep.waiters] at hb
        split at hb
        · exact hb.of_append hf
        · exact hb
      have howing : s.owing h ≤ s'.owing h := by
        refine owing_mono hstep.recv (fun g _ hg => ?_) hbefore
        by_cases hgf : g = f
        · subst hgf
          rw [htask] at hg
          exact SendFuture.attempting_of_next hg
        · rwa [hstep.others g hgf] at hg
      have hbacks : ∀ g, g ≠ f → s.Backs h g → s'.Backs h g := by
        intro g hg hb
        refine ⟨?_, fun hb' => hb.2 (hbefore g hb')⟩
        rw [hstep.others g hg]
        exact hb.1
      rw [hstep.capacity]
      by_cases hpush : (s.tasks f).pc = .push
      · rw [if_pos ⟨hpush, hroom⟩] at hlen
        exact (hback.spend f (fun _ => id) hbacks).mono (fun _ => id) (fun _ => id) (by omega)
      · rw [if_neg fun hand => hpush hand.1] at hlen
        refine hback.mono (fun _ => id) (fun g hb => ?_) (by omega)
        by_cases hgf : g = f
        · subst hgf
          refine ⟨?_, fun hb' => hb.2 (hbefore g hb')⟩
          rw [htask]
          exact SendFuture.attempting_next hfits hactive hpush hb.1
        · exact hbacks g hgf hb
  · rw [if_neg fun hand => hroom hand.2] at hlen
    have hle : s'.capacity ≤ s'.len := by
      rw [hstep.capacity, hlen]
      omega
    exact .of_others hstep.active hstep.others (fun _ _ => hle)
      fun _ h _ _ => .of_le (Nat.le_add_right_of_le hle) fun _ => id

/-- Nothing changes but one task, and perhaps the number of senders. -/
structure Touched (s s' : Mpsc) (f : Nat) : Prop where
  others : ∀ g, g ≠ f → s'.tasks g = s.tasks g
  recv : s'.recv = s.recv
  active : s'.receiverActive = s.receiverActive
  capacity : s'.capacity = s.capacity
  waiters : s'.sendWaiters = s.sendWaiters
  len : s'.len = s.len

theorem Touched.backs (h' : Touched s s' f) (hg : g ≠ f) (hb : s.Backs h g) : s'.Backs h g := by
  unfold Backs at hb ⊢
  rw [h'.others g hg, h'.waiters]
  exact hb

theorem Touched.busy (h' : Touched s s' f) (hbusy : s.Busy g) : s'.Busy g := by
  unfold Busy
  rw [h'.recv]
  exact hbusy

theorem Touched.owing_le (h' : Touched s s' f)
    (hf : s.Busy f →
      (s'.tasks f).attempting = true → (s.tasks f).attempting = true) :
    s.owing h ≤ s'.owing h := by
  refine owing_mono h'.recv (fun g hr hg => ?_) (fun g hb => by rwa [h'.waiters] at hb)
  by_cases hgf : g = f
  · subst hgf
    exact hf hr hg
  · rwa [h'.others g hgf] at hg

/-- A future that was not going to push changes, and the receiver is not busy with it. -/
theorem Served.touched (hserved : s.Served) (h' : Touched s s' f)
    (hnot : (s.tasks f).attempting = false) (hasleep : (s'.tasks f).asleep = false)
    (hrecv : s.Busy f →
      (s'.tasks f).attempting = false) : s'.Served := by
  refine .of_others h'.active h'.others (fun _ ha => ?_) fun hactive h hf ha => ?_
  · rw [hasleep] at ha
    cases ha
  · rw [h'.capacity, h'.len]
    refine (hserved hactive h ha).mono (fun _ => id) (fun g hb => ?_) ?_
    · refine h'.backs ?_ hb
      rintro rfl
      rw [hb.1] at hnot
      cases hnot
    · refine Nat.add_le_add_left (h'.owing_le fun hr hatt => ?_) _
      rw [hrecv hr] at hatt
      cases hatt

/-- A sleeping future is polled. -/
theorem Served.poll (hserved : s.Served) (h' : Touched s s' f)
    (hnot : (s.tasks f).attempting = false) (hto : (s'.tasks f).attempting = true)
    (hasleep : (s'.tasks f).asleep = false) : s'.Served := by
  by_cases hr : s.Busy f
  · refine .of_others h'.active h'.others (fun _ ha => ?_) fun hactive h hf ha => ?_
    · rw [hasleep] at ha
      cases ha
    · have hback := hserved hactive h ha
      have hbacks : ∀ g, s.Backs h g → s'.Backs h g := by
        intro g hb
        refine h'.backs ?_ hb
        rintro rfl
        rw [hb.1] at hnot
        cases hnot
      have howing' : s'.owing h = 0 := by
        rw [(h'.busy hr).owing, if_pos (.inl hto)]
      rw [hr.owing] at hback
      rw [h'.capacity, h'.len, howing']
      -- Either the debt is not seen by `h`, or `f` takes it over.
      by_cases hb : Before s.sendWaiters f h
      · rw [if_pos (.inr hb)] at hback
        exact hback.mono (fun _ => id) hbacks (Nat.le_refl _)
      · rw [if_neg (by rw [hnot]; simpa using hb)] at hback
        refine hback.lend (i := f) (fun hc => ?_) ⟨hto, ?_⟩ (fun _ => id) hbacks
        · rw [hc.1] at hnot
          cases hnot
        · rw [h'.waiters]
          exact hb
  · exact hserved.touched h' hnot hasleep fun hr' => absurd hr' hr

/-- A future that is going to push goes on to do so. -/
theorem Served.again (hserved : s.Served) (h' : Touched s s' f)
    (hwas : (s.tasks f).attempting = true) (hto : (s'.tasks f).attempting = true)
    (hasleep : (s'.tasks f).asleep = false) : s'.Served := by
  refine .of_others h'.active h'.others (fun _ ha => ?_) fun hactive h hf ha => ?_
  · rw [hasleep] at ha
    cases ha
  · rw [h'.capacity, h'.len]
    refine (hserved hactive h ha).mono (fun _ => id) (fun g hb => ?_)
      (Nat.add_le_add_left (h'.owing_le fun _ _ => hwas) _)
    by_cases hg : g = f
    · subst hg
      refine ⟨hto, ?_⟩
      rw [h'.waiters]
      exact hb.2
    · exact h'.backs hg hb

/-- A woken future is dropped with care. -/
theorem Served.drop (hserved : s.Served) (h' : Touched s s' f)
    (hwas : (s.tasks f).attempting = true) (hnot : (s'.tasks f).attempting = false)
    (hasleep : (s'.tasks f).asleep = false)
    (hcare : s.recv ≠ .waitersSwap f → s.recv ≠ .waitersWake f → s.receiverActive = true →
      ∀ h, (s.tasks h).asleep = true →
        Backed (fun _ => False) (fun g => g ≠ f ∧ s.Backs h g) s.capacity (s.len + s.owing h)) :
    s'.Served := by
  refine .of_others h'.active h'.others (fun _ ha => ?_) fun hactive h hf ha => ?_
  · rw [hasleep] at ha
    cases ha
  · rw [h'.capacity, h'.len]
    by_cases hr : s.Busy f
    · have hback := hserved hactive h ha
      rw [hr.owing, if_pos (.inl hwas)] at hback
      rw [(h'.busy hr).owing, h'.waiters]
      by_cases hb : Before s.sendWaiters f h
      · rw [if_pos (.inr hb)]
        refine hback.mono (fun _ => id) (fun g hg => h'.backs ?_ hg) (Nat.le_refl _)
        rintro rfl
        exact hg.2 hb
      · rw [if_neg (by rw [hnot]; simpa using hb)]
        exact hback.spend f (fun _ => id) fun g hg => h'.backs hg
    · refine (hcare (fun hc => hr (.inl hc)) (fun hc => hr (.inr hc)) hactive h ha).mono (fun _ => id)
        (fun g hg => h'.backs hg.1 hg.2) (Nat.add_le_add_left ?_ _)
      exact h'.owing_le fun _ _ => hwas

/-! ## Service along the steps of the receiver -/

/-- The receiver goes on without touching a task or a reference. -/
theorem Served.recv (hserved : s.Served) (htasks : s'.tasks = s.tasks)
    (hwaiters : s'.sendWaiters = s.sendWaiters) (hactive : s'.receiverActive = s.receiverActive)
    (hcapacity : s'.capacity = s.capacity)
    (hle : ∀ h, s.len + s.owing h ≤ s'.len + s'.owing h) : s'.Served := by
  intro hact h hasleep
  rw [hactive] at hact
  rw [htasks] at hasleep
  rw [hcapacity]
  refine (hserved hact h hasleep).mono (fun _ => id) (fun g hb => ?_) (hle h)
  unfold Backs at hb ⊢
  rw [htasks, hwaiters]
  exact hb

/-- The first reference is popped.  If its future is going to push it makes up for the debt,
and from now on it counts: no reference of it is left in the queue. -/
theorem Served.popWaiter (hserved : s.Served) (htidy : s.Tidy) (hrecv : s.recv = .waitersPop)
    {rest : List Nat} (hwaiters : s.sendWaiters = g :: rest) :
    Served { s with sendWaiters := rest, recv := .waitersSwap g } := by
  intro hactive h hasleep
  have hback := hserved hactive h hasleep
  have hnodup := htidy.nodup
  rw [hwaiters, List.nodup_cons] at hnodup
  have howing : s.owing h = 1 := by
    unfold owing
    rw [hrecv]
  rw [howing] at hback
  have hbacks : ∀ k, s.Backs h k →
      Backs { s with sendWaiters := rest, recv := .waitersSwap g } h k := by
    intro k hb
    refine ⟨hb.1, fun hb' => hb.2 ?_⟩
    rw [hwaiters]
    exact hb'.cons hnodup.1
  have hnot : ¬ Before rest g h := not_before_of_notMem hnodup.1
  have hbusy : Busy { s with sendWaiters := rest, recv := .waitersSwap g } g := .inl rfl
  show Backed _ _ s.capacity (s.len + owing _ h)
  by_cases hattempting : (s.tasks g).attempting = true
  · rw [hbusy.owing, if_pos (.inl hattempting)]
    refine hback.lend (i := g) (fun hc => hc.2 ?_) ⟨hattempting, hnot⟩ (fun _ => id) hbacks
    have hattended := ((htidy.fits h).asleep hasleep).2.1
    have hmem : h ∈ s.sendWaiters := by
      simpa [View.attended, view, viewOf, hrecv] using hattended
    rw [hwaiters] at hmem ⊢
    refine before_head hmem ?_
    rintro rfl
    rw [SendFuture.not_attempting_of_asleep hasleep] at hattempting
    cases hattempting
  · rw [hbusy.owing, if_neg fun hor => hor.elim hattempting hnot]
    exact hback.mono (fun _ => id) hbacks (Nat.le_refl _)

/-- Nobody sleeps when the receiver finds no reference. -/
theorem Served.nobody (htidy : s.Tidy) (hrecv : s.recv = .waitersPop)
    (hwaiters : s.sendWaiters = []) : Served { s with recv := .idle } := by
  intro _ h hasleep
  have hattended := ((htidy.fits h).asleep hasleep).2.1
  simp [View.attended, view, viewOf, hrecv, hwaiters] at hattended

theorem Served.swapWaiting (hserved : s.Served) (hrecv : s.recv = .waitersSwap g) :
    (s.swapWaiting g).Served := by
  unfold Mpsc.swapWaiting
  split
  · have htasks : ∀ k, (Function.update s.tasks g { s.tasks g with waiting := false } k).asleep =
          (s.tasks k).asleep ∧
        (Function.update s.tasks g { s.tasks g with waiting := false } k).attempting =
          (s.tasks k).attempting := by
      intro k
      by_cases hk : k = g
      · subst hk
        rw [Function.update_self]
        exact ⟨rfl, rfl⟩
      · rw [Function.update_of_ne hk]
        exact ⟨rfl, rfl⟩
    intro hactive h hasleep
    have hback := hserved hactive h ((htasks h).1 ▸ hasleep)
    refine hback.mono (fun _ => id) (fun k hb => ?_) (Nat.add_le_add_left ?_ _)
    · exact ⟨((htasks k).2).trans hb.1, hb.2⟩
    · refine Busy.owing_le (f := g) (.inl hrecv) (.inr rfl) (fun hatt => ?_) id
      exact (htasks g).2 ▸ hatt
  · refine hserved.recv rfl rfl rfl rfl fun h => Nat.add_le_add_left ?_ _
    rw [Busy.owing (.inl hrecv)]
    show _ ≤ 1
    split
    · exact Nat.zero_le 1
    · exact Nat.le_refl 1

/-- The wake-up is given. -/
theorem Served.wake (hserved : s.Served) (htidy : s.Tidy) (hrecv : s.recv = .waitersWake g)
    (hcare : (s.tasks g).attempting = false → (s.tasks g).asleep = false →
      ∀ h, (s.tasks h).asleep = true →
        Backed (fun _ => False) (s.Backs h) s.capacity s.len) :
    Served { s.wake g with recv := .idle } := by
  obtain ⟨htasks, hwaiters, -, hact, hcapacity, hlen⟩ := s.wake_tasks g
  have hself : (s.wake g).tasks g = (s.tasks g).woken := by rw [htasks, Function.update_self]
  have hothers : ∀ k, k ≠ g → (s.wake g).tasks k = s.tasks k := by
    intro k hk
    rw [htasks, Function.update_of_ne hk]
  intro hactive h hasleep
  replace hactive : s.receiverActive = true := hact ▸ hactive
  replace hasleep : ((s.wake g).tasks h).asleep = true := hasleep
  show Backed _ (Backs { s.wake g with recv := .idle } h) (s.wake g).capacity ((s.wake g).len + 0)
  rw [hcapacity, hlen]
  have hwas : (s.tasks h).asleep = true := by
    by_cases hh : h = g
    · subst hh
      rw [hself] at hasleep
      exact SendFuture.asleep_of_woken hasleep
    · rwa [hothers h hh] at hasleep
  have hbacks : ∀ k, s.Backs h k → Backs { s.wake g with recv := .idle } h k := by
    intro k hb
    refine ⟨?_, fun hb' => hb.2 (hwaiters ▸ hb')⟩
    show ((s.wake g).tasks k).attempting = true
    by_cases hk : k = g
    · subst hk
      rw [hself]
      exact SendFuture.attempting_woken_of hb.1
    · rw [hothers k hk]
      exact hb.1
  have hback := hserved hactive h hwas
  rw [Busy.owing (.inr hrecv)] at hback
  split at hback
  · exact hback.mono (fun _ => id) hbacks (Nat.le_refl _)
  · rename_i hnot
    rw [not_or] at hnot
    have hfalse : (s.tasks g).attempting = false := Bool.eq_false_iff.mpr hnot.1
    cases hg : (s.tasks g).asleep with
    | false => exact (hcare hfalse hg h hwas).mono (fun _ => id) hbacks (Nat.le_refl _)
    | true =>
        refine hback.lend (i := g) (fun hc => hnot.1 hc.1) ⟨?_, ?_⟩ (fun _ => id) hbacks
        · show ((s.wake g).tasks g).attempting = true
          rw [hself]
          exact SendFuture.attempting_woken (htidy.fits g) hg
        · intro hb
          exact hnot.2 (hwaiters ▸ hb)

/-! ## Runs -/

/-- What holds in every state of a careful run. -/
structure Inv (s : Mpsc) : Prop where
  tidy : s.Tidy
  served : s.Served

theorem Inv.bounded (capacity : Nat) : (Mpsc.bounded capacity).Inv := by
  refine ⟨⟨List.nodup_nil, rfl, fun f => ?_⟩, fun _ h hasleep => ?_⟩
  · show SendFuture.fresh.Fits (viewOf [] .idle true f)
    simp only [viewOf]
    constructor <;> simp [SendFuture.fresh, SendPc.armed, SendPc.parked]
  · cases hasleep

/-- A call of a task begins or ends. -/
theorem Tidy.touched (h : s.Tidy) (h' : Touched s s' f) (hfits : (s'.tasks f).Fits (s.view f)) :
    s'.Tidy := h.task h'.waiters h'.recv h'.active h'.others hfits

/-- The receiver is not busy with a task that has not begun. -/
theorem Tidy.not_busy (h : s.Tidy) (hpc : (s.tasks f).pc = .fresh) : ¬ s.Busy f := by
  rintro (hr | hr)
  · have hpopped := ((h.fits f).popped (by simp [view, viewOf, hr])).2.1
    rw [hpc] at hpopped
    cases hpopped
  · exact (h.fits f).waking (by simp [view, viewOf, hr]) hpc

/-- A task begins. -/
theorem Inv.begin (h : s.Inv) (h' : Touched s s' f) {pc : SendPc}
    (hpc : (s.tasks f).pc = .fresh) (hto : pc = .load ∨ pc = .lastWake ∨ pc = .gone)
    (htask : s'.tasks f = { s.tasks f with pc := pc }) : s'.Inv := by
  refine ⟨h.tidy.touched h' ?_, h.served.touched h' ?_ ?_ fun hbusy => ?_⟩
  · rw [htask]
    exact (h.tidy.fits f).begin hpc hto
  · simp [SendFuture.attempting, SendPc.polling, hpc]
  · rw [htask]
    rcases hto with rfl | rfl | rfl <;> rfl
  · exact absurd hbusy (h.tidy.not_busy hpc)

theorem touched_setTask (t : SendFuture) : Touched s (s.setTask f t) f :=
  ⟨fun _ hg => setTask_of_ne hg, rfl, rfl, rfl, rfl, rfl⟩

theorem touched_senderCount (t : SendFuture) (n : Nat) :
    Touched s { s.setTask f t with senderCount := n } f :=
  ⟨fun _ hg => setTask_of_ne hg, rfl, rfl, rfl, rfl, rfl⟩

theorem Inv.poll (h : s.Inv) (hpc : (s.tasks f).pc = .pending) :
    (s.setTask f { s.tasks f with notified := false, pc := .load }).Inv := by
  refine ⟨h.tidy.touched (touched_setTask _) ?_, ?_⟩
  · rw [setTask_self]
    exact (h.tidy.fits f).poll hpc
  · have hto : ((s.setTask f { s.tasks f with notified := false, pc := .load }).tasks f).attempting =
        true := by
      rw [setTask_self]
      rfl
    have hasleep : ((s.setTask f { s.tasks f with notified := false, pc := .load }).tasks f).asleep =
        false := by
      rw [setTask_self]
      rfl
    cases hwas : (s.tasks f).attempting with
    | true => exact h.served.again (touched_setTask _) hwas hto hasleep
    | false => exact h.served.poll (touched_setTask _) hwas hto hasleep

theorem Inv.drop (h : s.Inv) (hpc : (s.tasks f).pc = .pending)
    (hcare : s.Careful (.task f .drop)) : (s.goto f .dropStore).Inv := by
  refine ⟨h.tidy.touched (touched_setTask _) ?_, ?_⟩
  · unfold goto
    rw [setTask_self]
    exact (h.tidy.fits f).drop hpc
  · have hnot : ((s.goto f .dropStore).tasks f).attempting = false := by
      unfold goto
      rw [setTask_self]
      rfl
    have hasleep : ((s.goto f .dropStore).tasks f).asleep = false := by
      unfold goto
      rw [setTask_self]
      rfl
    cases hwas : (s.tasks f).attempting with
    | true =>
        refine h.served.drop (touched_setTask _) hwas hnot hasleep (hcare ?_)
        simpa [SendFuture.attempting, SendPc.polling, hpc] using hwas
    | false => exact h.served.touched (touched_setTask _) hwas hasleep fun _ => hnot

theorem Inv.taskStep {action : SendAction} (h : s.Inv) (hcare : s.Careful (.task f action))
    (hs : s.taskStep f action = some s') : s'.Inv := by
  unfold Mpsc.taskStep at hs
  split at hs
  · split at hs
    · rename_i hpc
      cases hs
      exact h.begin (touched_setTask _) hpc (.inl rfl) (setTask_self ..)
    · cases hs
  · split at hs
    · rename_i hpc
      cases hs
      exact h.poll hpc
    · cases hs
  · split at hs
    · rename_i hpc
      cases hs
      exact h.drop hpc hcare
    · cases hs
  · split at hs
    · rename_i hpc
      cases hs
      exact h.begin (touched_senderCount _ _) hpc (.inr (.inr rfl)) (setTask_self ..)
    · cases hs
  · split at hs
    · rename_i hpc
      cases hs
      refine h.begin (touched_senderCount _ _) hpc.1 ?_ (setTask_self ..)
      split
      · exact .inr (.inl rfl)
      · exact .inr (.inr rfl)
    · cases hs
  · have hstep := stepped_of_advance hs
    refine ⟨h.tidy.advance hstep, h.served.advance h.tidy (fun hpc => ?_) hstep⟩
    unfold Mpsc.advance at hs
    rw [hpc] at hs
    cases hs

theorem ending_plain {pc : RecvPc} (h : pc.plain = true ∨ pc = .waitersPop) : pc.ending = false := by
  rcases h with h | rfl
  · cases pc with
    | idle | register | pop | senderLoad | popAgain | inactive => rfl
    | waitersPop | waitersSwap | waitersWake | drainPop | drainWake | gone => cases h
  · rfl

theorem viewOf_plain {pc : RecvPc} (h : pc.plain = true ∨ pc = .waitersPop) (active : Bool)
    (f : Nat) :
    viewOf waiters pc active f = viewOf waiters .idle active f := by
  rcases h with h | rfl
  · cases pc with
    | idle | register | pop | senderLoad | popAgain | inactive => rfl
    | waitersPop | waitersSwap | waitersWake | drainPop | drainWake | gone => cases h
  · rfl

theorem owing_plain (hplain : s.recv.plain = true) : s.owing h = 0 := by
  unfold owing
  cases hr : s.recv with
  | idle | register | pop | senderLoad | popAgain | inactive => rfl
  | drainPop | drainWake | gone => rfl
  | waitersPop | waitersSwap | waitersWake =>
    rw [hr] at hplain
    cases hplain

/-- The receiver goes on, perhaps with a message. -/
theorem Inv.plain (h : s.Inv) (hfrom : s.recv.plain = true)
    (htasks : s'.tasks = s.tasks) (hwaiters : s'.sendWaiters = s.sendWaiters)
    (hactive : s'.receiverActive = s.receiverActive) (hcapacity : s'.capacity = s.capacity)
    (hto : (s'.recv.plain = true ∧ s'.len = s.len) ∨ (s'.recv = .waitersPop ∧ s.len = s'.len + 1)) :
    s'.Inv := by
  have hplain : s'.recv.plain = true ∨ s'.recv = .waitersPop := hto.imp (·.1) (·.1)
  refine ⟨h.tidy.recv htasks hwaiters hactive ?_ fun f => ?_,
    h.served.recv htasks hwaiters hactive hcapacity fun f => ?_⟩
  · rw [ending_plain hplain, ending_plain (.inl hfrom)]
  · unfold view
    rw [hwaiters, hactive, viewOf_plain hplain, viewOf_plain (.inl hfrom)]
  · rw [owing_plain hfrom]
    rcases hto with ⟨-, hlen⟩ | ⟨hr, hlen⟩
    · omega
    · have howing : s'.owing f = 1 := by
        unfold owing
        rw [hr]
      omega

theorem Inv.popMessage (h : s.Inv) {next : RecvPc} (hfrom : s.recv.plain = true)
    (hnext : next.plain = true) : (s.popMessage next).Inv := by
  unfold Mpsc.popMessage
  split
  · rename_i hpos
    exact h.plain hfrom rfl rfl rfl rfl (.inr ⟨rfl, (Nat.sub_add_cancel hpos).symm⟩)
  · exact h.plain hfrom rfl rfl rfl rfl (.inl ⟨hnext, rfl⟩)

/-- Nobody is served once the receiver is being dropped. -/
theorem Served.of_inactive (h : s.receiverActive = false) : s.Served := by
  intro hactive
  rw [h] at hactive
  cases hactive

theorem Inv.recvAdvance (h : s.Inv) (hcare : s.Careful (.recv .advance))
    (hs : s.recvAdvance = some s') : s'.Inv := by
  unfold Mpsc.recvAdvance at hs
  split at hs
  case h_1 hr =>
    cases hs
    exact h.plain (by rw [hr]; rfl) rfl rfl rfl rfl (.inl ⟨rfl, rfl⟩)
  case h_2 hr =>
    cases hs
    exact h.popMessage (by rw [hr]; rfl) rfl
  case h_3 hr =>
    cases hs
    refine h.plain (by rw [hr]; rfl) rfl rfl rfl rfl (.inl ⟨?_, rfl⟩)
    unfold loadSenders
    dsimp only
    split
    · rfl
    · rfl
  case h_4 hr =>
    cases hs
    exact h.popMessage (by rw [hr]; rfl) rfl
  case h_5 hr =>
    cases hs
    unfold Mpsc.popWaiter
    split
    · rename_i hwaiters
      refine ⟨h.tidy.recv rfl rfl rfl (by rw [hr]; rfl) fun f => ?_, .nobody h.tidy hr hwaiters⟩
      unfold view
      rw [hr]
      rfl
    · rename_i g rest hwaiters
      exact ⟨h.tidy.popWaiter hr hwaiters, h.served.popWaiter h.tidy hr hwaiters⟩
  case h_6 g hr =>
    cases hs
    exact ⟨h.tidy.swapWaiting hr, h.served.swapWaiting hr⟩
  case h_7 g hr =>
    cases hs
    refine ⟨h.tidy.wake (.inl ⟨hr, rfl⟩), h.served.wake h.tidy hr ?_⟩
    simpa only [Careful, hr] using hcare
  case h_8 hr =>
    cases hs
    exact ⟨h.tidy.inactive hr, .of_inactive rfl⟩
  case h_9 hr =>
    cases hs
    have htidy := h.tidy.drainWaiter hr
    refine ⟨htidy, .of_inactive ?_⟩
    have hending := h.tidy.ending
    rw [hr] at hending
    unfold Mpsc.drainWaiter
    split
    · exact hending
    · exact hending
  case h_10 g hr =>
    cases hs
    refine ⟨h.tidy.wake (.inr ⟨hr, rfl⟩), .of_inactive ?_⟩
    have hending := h.tidy.ending
    rw [hr] at hending
    exact (s.wake_tasks g).2.2.2.1.trans hending
  all_goals cases hs

theorem Inv.recvStep {action : RecvAction} (h : s.Inv) (hcare : s.Careful (.recv action))
    (hs : s.recvStep action = some s') : s'.Inv := by
  cases action with
  | advance => exact h.recvAdvance hcare hs
  | tryRecv | poll | drop =>
    unfold Mpsc.recvStep at hs
    dsimp only at hs
    split at hs
    · rename_i hr
      cases hs
      exact h.plain (by rw [hr]; rfl) rfl rfl rfl rfl (.inl ⟨rfl, rfl⟩)
    · cases hs

theorem Inv.step {e : MpscEvent} (h : s.Inv) (hcare : s.Careful e) (hs : MpscStep s e s') :
    s'.Inv := by
  cases e with
  | task f action => exact h.taskStep hcare hs
  | recv action => exact h.recvStep hcare hs

theorem Quiescent.not_attempting (hquiet : s.Quiescent) : ¬ (s.tasks f).attempting = true := by
  obtain ⟨hresting, hpending⟩ := hquiet.2 f
  intro hattempting
  unfold SendFuture.attempting at hattempting
  cases hpc : (s.tasks f).pc with
  | fresh | gone =>
    rw [hpc] at hattempting
    cases hattempting
  | pending =>
    rw [hpc, hpending hpc] at hattempting
    cases hattempting
  | load | push | wakeRx | register | swap | enqueue | recheck | full | selfWake | dropStore
  | lastWake =>
    rw [hpc] at hresting
    cases hresting

end Mpsc

/-- In a run whose wake-ups are all used, no future waits while there is room or without a
receiver. -/
theorem mpsc_no_stranded_sender {s : Mpsc} {f : Nat}
    (h : Run MpscStep Mpsc.Careful (fun s => ∃ capacity, 0 < capacity ∧ s = .bounded capacity) s)
    (hquiet : s.Quiescent) (hpc : (s.tasks f).pc = .pending) :
    ¬ s.len < s.capacity ∧ s.receiverActive = true := by
  have hinv : s.Inv := by
    refine h.invariant ?_ fun s e s' hs hcare hstep => hs.step hcare hstep
    rintro s ⟨capacity, -, rfl⟩
    exact .bounded capacity
  have hasleep : (s.tasks f).asleep = true := by
    simp [SendFuture.asleep, hpc, (hquiet.2 f).2 hpc]
  have hidle : s.recv = .idle := by
    refine hquiet.1.resolve_right fun hgone => ?_
    have hover := ((hinv.tidy.fits f).asleep hasleep).2.2
    simp [Mpsc.view, Mpsc.viewOf, hgone] at hover
  have hactive : s.receiverActive = true := by
    rw [hinv.tidy.ending, hidle]
    rfl
  have hle := (hinv.served hactive f hasleep).le_of_no_credit
    fun g hb => hquiet.not_attempting hb.1
  rw [Mpsc.owing_plain (by rw [hidle]; rfl)] at hle
  exact ⟨Nat.not_lt.mpr hle, hactive⟩

namespace Mpsc

/-- A test for careful steps: a wake-up goes to somebody who uses it, and nobody is dropped
after a wake-up. -/
def carefulTest (s : Mpsc) : MpscEvent → Bool
  | .recv .advance =>
      match s.recv with
      | .waitersWake g => (s.tasks g).attempting || (s.tasks g).asleep
      | _ => true
  | .task f .drop => !(s.tasks f).notified
  | _ => true

theorem careful_of_test (s : Mpsc) (e : MpscEvent) (h : carefulTest s e = true) :
    s.Careful e := by
  cases e with
  | task f action =>
    cases action with
    | drop =>
      intro hnotified
      simp [carefulTest, hnotified] at h
    | send | poll | clone | dropSender | advance => trivial
  | recv action =>
    cases action with
    | advance =>
      cases hr : s.recv with
      | waitersWake g =>
        simp only [carefulTest, hr] at h
        simp only [Careful, hr]
        intro hattempting hasleep
        rw [hattempting, hasleep] at h
        cases h
      | idle | register | pop | senderLoad | popAgain | inactive | waitersPop | waitersSwap
      | drainPop | drainWake | gone =>
        simp only [Careful, hr]
    | tryRecv | poll | drop => trivial

end Mpsc

/-- A message fills the queue, two futures wait, and the first is woken by a receive. -/
def firstWoken : List MpscEvent :=
  ([.task 0 .send] : List MpscEvent) ++ List.replicate 3 (.task 0 .advance) ++
    ([.task 1 .send] : List MpscEvent) ++ List.replicate 7 (.task 1 .advance) ++
    ([.task 2 .send] : List MpscEvent) ++ List.replicate 7 (.task 2 .advance) ++
    ([.recv .tryRecv] : List MpscEvent) ++ List.replicate 4 (.recv .advance)

/-- The first future uses its wake-up. -/
def secondWaits : List MpscEvent :=
  firstWoken ++ ([.task 1 .poll] : List MpscEvent) ++ List.replicate 4 (.task 1 .advance)

def secondWaitsMpsc : Mpsc :=
  (replay Mpsc.step Mpsc.carefulTest (.bounded 1) secondWaits).get (by decide +kernel)

theorem mpsc_second_waits :
    Run MpscStep Mpsc.Careful (fun s => ∃ capacity, 0 < capacity ∧ s = .bounded capacity)
        secondWaitsMpsc ∧
      secondWaitsMpsc.Quiescent ∧ (secondWaitsMpsc.tasks 2).pc = .pending ∧
      ¬ secondWaitsMpsc.len < secondWaitsMpsc.capacity ∧
      secondWaitsMpsc.receiverActive = true := by
  have hreplay : replay Mpsc.step Mpsc.carefulTest (.bounded 1) secondWaits =
      some secondWaitsMpsc := (Option.some_get _).symm
  have hstart : Run MpscStep Mpsc.Careful
      (fun s => ∃ capacity, 0 < capacity ∧ s = .bounded capacity) (.bounded 1) :=
    Run.start ⟨1, Nat.one_pos, rfl⟩
  have hrun := hstart.replay (fun _ _ _ h => h) Mpsc.careful_of_test hreplay
  have hquiet : secondWaitsMpsc.Quiescent := by
    refine ⟨.inl (by decide +kernel), fun f => ?_⟩
    rcases f with _ | _ | _ | f
    · decide +kernel
    · decide +kernel
    · decide +kernel
    · exact ⟨rfl, fun hpc => SendPc.noConfusion hpc⟩
  have hpc : (secondWaitsMpsc.tasks 2).pc = .pending := by decide +kernel
  exact ⟨hrun, hquiet, hpc, mpsc_no_stranded_sender hrun hquiet hpc⟩

/-- The first future is dropped instead. -/
def wokenDropped : List MpscEvent := firstWoken ++ [.task 1 .drop, .task 1 .advance]

def wokenDroppedMpsc : Mpsc :=
  (replay Mpsc.step (fun _ _ => true) (.bounded 1) wokenDropped).get (by decide +kernel)

theorem mpsc_strands_sender :
    Run MpscStep Always (fun s => ∃ capacity, 0 < capacity ∧ s = .bounded capacity)
        wokenDroppedMpsc ∧
      wokenDroppedMpsc.Quiescent ∧ (wokenDroppedMpsc.tasks 2).pc = .pending ∧
      2 ∈ wokenDroppedMpsc.sendWaiters ∧ wokenDroppedMpsc.len < wokenDroppedMpsc.capacity := by
  have hreplay : replay Mpsc.step (fun _ _ => true) (.bounded 1) wokenDropped =
      some wokenDroppedMpsc := (Option.some_get _).symm
  have hstart : Run MpscStep Always (fun s => ∃ capacity, 0 < capacity ∧ s = .bounded capacity)
      (.bounded 1) := Run.start ⟨1, Nat.one_pos, rfl⟩
  have hquiet : wokenDroppedMpsc.Quiescent := by
    refine ⟨.inl (by decide +kernel), fun f => ?_⟩
    rcases f with _ | _ | _ | f
    · decide +kernel
    · decide +kernel
    · decide +kernel
    · exact ⟨rfl, fun hpc => SendPc.noConfusion hpc⟩
  exact ⟨hstart.replay (fun _ _ _ h => h) (fun _ _ _ => trivial) hreplay,
    hquiet, by decide +kernel, by decide +kernel, by decide +kernel⟩

end Veloq.Sync
