import Veloq.Waker.MwsrSteps
import Veloq.Foundation.Run
set_option autoImplicit false

/-!
# Waker: a waker with one registrar loses no wake-up

Once `register` has returned, its waker is registered, or is in the hands of a `wake` call,
or has been woken; a later `register` call may put another waker in its place, and then that
one is on the same way.  A `wake` call that returns with nothing has seen that somebody else
is waking.
-/

namespace Veloq.Waker

open Veloq.Foundation

/-- The call wakes this waker. -/
def VtableCall.Rouses (w : RawWaker) : VtableCall → Prop
  | wake vtable data => vtable = some w.vtable ∧ data.ptr = w.data
  | wakeByRef w' => w' = w
  | clone _ => False
  | drop _ _ => False

namespace RegisterPc

/-- The registrar is going to wake the waker it was given. -/
def rousing : RegisterPc → Bool
  | resetVtable | resetData | clearVtable | clearData | wakeOwn | wakeByRef => true
  | _ => false

/-- The last call has registered its waker, or is going to wake it. -/
def settled : RegisterPc → Bool
  | idle | cacheVtable | cacheData | resetVtable | resetData | clearVtable | clearData | wakeOwn
  | wakeByRef => true
  | _ => false

end RegisterPc

namespace WakePc

/-- The `wake` call has nothing in its hands yet. -/
def looking : WakePc → Bool
  | load | mark _ | claim _ => true
  | _ => false

/-- The `wake` call is not running. -/
def ended : WakePc → Bool
  | fresh | gone => true
  | _ => false

end WakePc

namespace MwsrWaker

variable (s : MwsrWaker) (r : Nat) (log : List VtableCall)

/-- The waker has been woken since the log was `log`. -/
def WokenSince (w : RawWaker) : Prop := ∃ done, s.log = done ++ log ∧ ∃ e ∈ done, e.Rouses w

/-- The waker was passed to call `r` or to a later one. -/
def Passed (w : RawWaker) : Prop := ∃ g, r ≤ g ∧ g ≤ s.call ∧ s.args g = w

/-- The vtable and the data are those of such a waker. -/
def Recent (vtable : Option Nat) (data : Slot) : Prop :=
  ∃ w, s.Passed r w ∧ vtable = some w.vtable ∧ data.ptr = w.data

/-- The registrar is going to wake the waker it was given, or will find that it has to. -/
def Rousing : Prop := s.pc.rousing = true ∨ s.pc.holding = true ∧ s.vtable.tag = .waking

/-- A waker that was passed to call `r` or to a later one has been woken, or is about to be. -/
def Delivered : Prop :=
  (∃ w, s.Passed r w ∧ s.WokenSince log w) ∨
    (∃ k vtable data, s.held (.wake k) = some (vtable, data) ∧ s.Recent r vtable data) ∨ s.Rousing

/-- Call `r` has registered its waker or is going to wake it. -/
def Settled : Prop := r < s.call ∨ s.pc.settled = true

/-- What holds from the start of call `r` on, at which the log was `log`. -/
structure Reach : Prop where
  called : r ≤ s.call
  grown : ∃ done, s.log = done ++ log
  recent : s.Settled r → s.vtable.tag = .registered → s.Recent r s.vtable.ptr s.data
  arrived : s.Settled r →
    s.vtable.tag = .registered ∨ s.vtable.tag = .registering ∨ s.Delivered r log

variable {s r log} {s' : MwsrWaker} {e : MwsrAction} {k : Nat} {vtable : Option Nat} {data : Slot}
  {w : RawWaker}

/-! ## What every step keeps -/

/-- The wakers that were passed stay the same, and the log grows. -/
structure Grows (s s' : MwsrWaker) : Prop where
  call : s.call ≤ s'.call
  args : ∀ g, g ≤ s.call → s'.args g = s.args g
  log : ∃ done, s'.log = done ++ s.log

theorem grows_of_log (hcall : s'.call = s.call) (hargs : s'.args = s.args)
    (hlog : ∃ done, s'.log = done ++ s.log) : Grows s s' :=
  ⟨Nat.le_of_eq hcall.symm, fun g _ => congrFun hargs g, hlog⟩

theorem grows_of_advance (hs : s.advance = some s') : Grows s s' := by
  have hturn : ∀ seen, Grows s (s.turn seen) := by
    intro seen
    unfold turn
    split
    · exact grows_of_log rfl rfl ⟨[], rfl⟩
    · exact grows_of_log rfl rfl ⟨[], rfl⟩
    · split <;> exact grows_of_log rfl rfl ⟨[], rfl⟩
    · exact grows_of_log rfl rfl ⟨[], rfl⟩
  unfold advance at hs
  cases hpc : s.pc <;> rw [hpc] at hs <;> cases hs
  case load => exact hturn _
  case acquire seen =>
    unfold tryAcquire
    split
    · exact grows_of_log rfl rfl ⟨[], rfl⟩
    · exact hturn _
  case cachedData seen =>
    unfold loadCachedData
    split <;> exact grows_of_log rfl rfl ⟨[], rfl⟩
  case quick =>
    unfold quickCheck
    split <;> exact grows_of_log rfl rfl ⟨[], rfl⟩
  case publish old =>
    unfold tryPublish
    split <;> exact grows_of_log rfl rfl ⟨[], rfl⟩
  case replace old =>
    unfold dropOld
    refine grows_of_log rfl rfl ?_
    show ∃ done, (if old = none then s.log else .drop old s.data :: s.log) = done ++ s.log
    split
    · exact ⟨[], rfl⟩
    · exact ⟨[_], rfl⟩
  case directStore => exact grows_of_log rfl rfl ⟨[_], rfl⟩
  case store old => exact grows_of_log rfl rfl ⟨[_], rfl⟩
  case wakeOwn => exact grows_of_log rfl rfl ⟨[_], rfl⟩
  case wakeByRef => exact grows_of_log rfl rfl ⟨[_], rfl⟩
  all_goals exact grows_of_log rfl rfl ⟨[], rfl⟩

theorem grows_of_wakeStep (hs : s.wakeStep k = some s') : Grows s s' := by
  have hturn : ∀ seen, Grows s (s.takeTurn k seen) := by
    intro seen
    unfold takeTurn
    split <;> exact grows_of_log rfl rfl ⟨[], rfl⟩
  unfold wakeStep at hs
  cases hpc : s.wakes k <;> rw [hpc] at hs <;> cases hs
  case load => exact hturn _
  case mark seen =>
    unfold mark
    split
    · exact grows_of_log rfl rfl ⟨[], rfl⟩
    · exact hturn _
  case claim seen =>
    unfold claim
    split
    · exact grows_of_log rfl rfl ⟨[], rfl⟩
    · exact hturn _
  case wake old data => exact grows_of_log rfl rfl ⟨[_], rfl⟩
  all_goals exact grows_of_log rfl rfl ⟨[], rfl⟩

theorem grows_of_step (hs : MwsrStep s e s') : Grows s s' := by
  cases e with
  | register w =>
    obtain ⟨-, heq⟩ := Option.ite_none_right_eq_some.mp hs
    cases heq
    exact ⟨Nat.le_succ _, fun g hg => Function.update_of_ne (Nat.ne_of_lt (Nat.lt_succ_of_le hg)) ..,
      [], rfl⟩
  | registrar => exact grows_of_advance hs
  | wake k =>
    obtain ⟨-, heq⟩ := Option.ite_none_right_eq_some.mp hs
    cases heq
    exact grows_of_log rfl rfl ⟨[], rfl⟩
  | waker k => exact grows_of_wakeStep hs

namespace Grows

theorem passed (h : Grows s s') (hw : s.Passed r w) : s'.Passed r w := by
  obtain ⟨g, hr, hle, hg⟩ := hw
  exact ⟨g, hr, Nat.le_trans hle h.call, (h.args g hle).trans hg⟩

theorem recent (h : Grows s s') (hr : s.Recent r vtable data) : s'.Recent r vtable data := by
  obtain ⟨w, hw, heq⟩ := hr
  exact ⟨w, h.passed hw, heq⟩

theorem wokenSince (h : Grows s s') (hw : s.WokenSince log w) : s'.WokenSince log w := by
  obtain ⟨done, hdone, e, he, hrouses⟩ := hw
  obtain ⟨more, hmore⟩ := h.log
  refine ⟨more ++ done, ?_, e, List.mem_append_right more he, hrouses⟩
  rw [hmore, hdone, List.append_assoc]

theorem grown (h : Grows s s') (hlog : ∃ done, s.log = done ++ log) :
    ∃ done, s'.log = done ++ log := by
  obtain ⟨done, hdone⟩ := hlog
  obtain ⟨more, hmore⟩ := h.log
  exact ⟨more ++ done, by rw [hmore, hdone, List.append_assoc]⟩

end Grows

/-! ## What a step of the registrar does -/

inductive RegisterEffect (s s' : MwsrWaker) : Prop
  /-- Nothing changes that a `wake` call could see. -/
  | keep (vtable : s'.vtable = s.vtable) (data : s.vtable.tag = .registered → s'.data = s.data)
      (settled : s'.pc.settled = s.pc.settled) (rousing : s.Rousing → s'.Rousing)
  /-- The waker is registered already. -/
  | hit (vtable : s'.vtable = s.vtable) (data : s'.data = s.data) (quiet : ¬ s.Rousing)
      (idle : s'.pc = .idle) (same : s.vtable = { ptr := some s.waker.vtable, tag := .registered })
      (ptr : s.data.ptr = s.waker.data)
  | lock (old : s.vtable.tag = .registered) (tag : s'.vtable.tag = .registering)
      (quiet : ¬ s.Rousing) (before : s.pc.settled = false) (after : s'.pc.settled = false)
  | publish (vtable : s'.vtable = { ptr := some s.waker.vtable, tag := .registered })
      (data : s'.data = s.data) (ptr : s.data.ptr = s.waker.data) (quiet : ¬ s.Rousing)
      (after : s'.pc = .cacheVtable)
  /-- The registrar is going to wake its waker. -/
  | rouse (tag : s'.vtable.tag ≠ .registered) (rousing : s'.pc.rousing = true)
      (vtable : s'.vtable = s.vtable ∨ s'.vtable = .noop)
      (cause : s.vtable.tag = .waking ∨ s.vtable.tag ≠ .registered ∧ s.pc.settled = true)
  | woke (vtable : s'.vtable = s.vtable) (data : s'.data = s.data) (before : s.pc.settled = true)
      (idle : s'.pc = .idle) (log : ∃ e, s'.log = e :: s.log ∧ e.Rouses s.waker)

theorem not_rousing {pc : RegisterPc} (hpc : s.pc = pc) (hrousing : pc.rousing = false)
    (hholding : pc.holding = false ∨ s.vtable.tag ≠ .waking) : ¬ s.Rousing := by
  subst hpc
  rintro (h | ⟨h, htag⟩)
  · exact Bool.false_ne_true (hrousing.symm.trans h)
  · rcases hholding with hh | hh
    · exact Bool.false_ne_true (hh.symm.trans h)
    · exact hh htag

theorem RegisterEffect.look {pc pc' : RegisterPc} (hpc : s.pc = pc) (hrousing : pc.rousing = false)
    (hholding : pc.holding = false) (hsettled : pc'.settled = pc.settled) :
    RegisterEffect s (s.goto pc') :=
  .keep rfl (fun _ => rfl) (hsettled.trans (congrArg _ hpc.symm)) fun h =>
    absurd h (not_rousing hpc hrousing (.inl hholding))

theorem RegisterEffect.turn (h : s.Inv) (hpc : s.pc = .load ∨ ∃ seen, s.pc = .acquire seen) :
    RegisterEffect s (s.turn s.vtable) := by
  have hlook : ∀ pc' : RegisterPc, pc'.settled = false → RegisterEffect s (s.goto pc') := by
    intro pc' hpc'
    rcases hpc with hpc | ⟨seen, hpc⟩
    · exact .look hpc rfl rfl hpc'
    · exact .look hpc rfl rfl hpc'
  unfold MwsrWaker.turn
  cases htag : s.vtable.tag with
  | waking =>
    refine .rouse ?_ rfl (.inl rfl) (.inl htag)
    show s.vtable.tag ≠ .registered
    rw [htag]
    exact Tag.noConfusion
  | registering => exact hlook .load rfl
  | idle =>
    simp only
    rw [if_pos (h.control.locked.noop htag)]
    exact hlook .directStore rfl
  | registered => exact hlook (.acquire s.vtable) rfl

theorem registerEffect (h : s.Inv) (hs : s.advance = some s') : RegisterEffect s s' := by
  have hlocked := h.control.locked
  have hnot : s.pc.alone = true ∨ s.pc.holding = true → s.vtable.tag ≠ .registered := by
    rintro (hpc | hpc) htag
    · exact Tag.noConfusion (htag.symm.trans (hlocked.alone hpc))
    · exact Bool.false_ne_true ((hlocked.free (.inr htag)).symm.trans hpc)
  unfold advance at hs
  cases hpc : s.pc <;> rw [hpc] at hs hnot <;> cases hs
  case cachedVtable => exact .look hpc rfl rfl rfl
  case cachedData seen =>
    unfold loadCachedData
    split <;> exact .look hpc rfl rfl rfl
  case quick =>
    unfold quickCheck
    split
    case isTrue heq =>
      have hcaching : s.pc.caching = false := by
        rw [hpc]
        rfl
      have hagrees := h.control.cached.agrees (by rw [heq]) hcaching
      exact .hit rfl rfl (not_rousing hpc rfl (.inl rfl)) rfl heq
        (hagrees.2.symm.trans (h.control.cached.hit hpc).2)
    case isFalse => exact .look hpc rfl rfl rfl
  case load => exact .turn h (.inl hpc)
  case directStore =>
    refine .keep rfl (fun htag => absurd htag (hnot (.inl rfl))) ?_ fun hr =>
      absurd hr (not_rousing hpc rfl (.inl rfl))
    rw [hpc]
    rfl
  case directPublish =>
    have hstored := h.control.stored (by rw [hpc]; rfl)
    exact .publish rfl rfl (congrArg Slot.ptr hstored) (not_rousing hpc rfl (.inl rfl)) rfl
  case acquire seen =>
    unfold tryAcquire
    split
    case isTrue heq =>
      refine .lock ?_ rfl (not_rousing hpc rfl (.inl rfl)) ?_ rfl
      · rw [heq]
        exact h.control.seen seen hpc
      · rw [hpc]
        rfl
    case isFalse => exact .turn h (.inr ⟨seen, hpc⟩)
  case replace old =>
    refine .keep rfl (fun _ => rfl) ?_ ?_
    · rw [hpc]
      rfl
    · rintro (hr | ⟨-, htag⟩)
      · rw [hpc] at hr
        exact absurd hr.symm Bool.false_ne_true.symm
      · exact .inr ⟨rfl, htag⟩
  case store old =>
    refine .keep rfl (fun htag => absurd htag (hnot (.inr rfl))) ?_ ?_
    · rw [hpc]
      rfl
    · rintro (hr | ⟨-, htag⟩)
      · rw [hpc] at hr
        exact absurd hr.symm Bool.false_ne_true.symm
      · exact .inr ⟨rfl, htag⟩
  case publish old =>
    unfold tryPublish
    split
    case isTrue heq =>
      have hstored := h.control.stored (by rw [hpc]; rfl)
      refine .publish rfl rfl (congrArg Slot.ptr hstored) (not_rousing hpc rfl (.inr ?_)) rfl
      rw [heq]
      exact Tag.noConfusion
    case isFalse hne =>
      have hwaking := (hlocked.tag_of_locked (by rw [hpc]; rfl)).resolve_left hne
      exact .rouse (hnot (.inr rfl)) rfl (.inl rfl) (.inl hwaking)
  case cacheVtable =>
    refine .keep rfl (fun _ => rfl) ?_ fun hr => absurd hr (not_rousing hpc rfl (.inl rfl))
    rw [hpc]
    rfl
  case cacheData =>
    refine .keep rfl (fun _ => rfl) ?_ fun hr => absurd hr (not_rousing hpc rfl (.inl rfl))
    rw [hpc]
    rfl
  case resetVtable =>
    exact .rouse Tag.noConfusion rfl (.inr rfl) (.inr ⟨hnot (.inr rfl), by rw [hpc]; rfl⟩)
  case resetData =>
    exact .rouse (hnot (.inl rfl)) rfl (.inl rfl) (.inr ⟨hnot (.inl rfl), by rw [hpc]; rfl⟩)
  case clearVtable =>
    exact .rouse (hnot (.inl rfl)) rfl (.inl rfl) (.inr ⟨hnot (.inl rfl), by rw [hpc]; rfl⟩)
  case clearData =>
    exact .rouse (hnot (.inl rfl)) rfl (.inl rfl) (.inr ⟨hnot (.inl rfl), by rw [hpc]; rfl⟩)
  case wakeOwn => exact .woke rfl rfl (by rw [hpc]; rfl) rfl ⟨_, rfl, rfl, rfl⟩
  case wakeByRef => exact .woke rfl rfl (by rw [hpc]; rfl) rfl ⟨_, rfl, rfl⟩

/-- The registrar touches the data only under the lock or while the slot is empty. -/
theorem advance_frame (hs : s.advance = some s') :
    s'.wakes = s.wakes ∧ s'.call = s.call ∧
      (s'.data = s.data ∨ s.pc.alone = true ∨ s.pc.holding = true) := by
  have hturn : ∀ seen, (s.turn seen).wakes = s.wakes ∧ (s.turn seen).call = s.call ∧
      ((s.turn seen).data = s.data ∨ s.pc.alone = true ∨ s.pc.holding = true) := by
    intro seen
    unfold turn
    split
    · exact ⟨rfl, rfl, .inl rfl⟩
    · exact ⟨rfl, rfl, .inl rfl⟩
    · split <;> exact ⟨rfl, rfl, .inl rfl⟩
    · exact ⟨rfl, rfl, .inl rfl⟩
  unfold advance at hs
  cases hpc : s.pc <;> rw [hpc] at hs hturn <;> cases hs
  case load => exact hturn _
  case acquire seen =>
    unfold tryAcquire
    split
    · exact ⟨rfl, rfl, .inl rfl⟩
    · exact hturn _
  case cachedData seen =>
    unfold loadCachedData
    split <;> exact ⟨rfl, rfl, .inl rfl⟩
  case quick =>
    unfold quickCheck
    split <;> exact ⟨rfl, rfl, .inl rfl⟩
  case publish old =>
    unfold tryPublish
    split <;> exact ⟨rfl, rfl, .inl rfl⟩
  case directStore => exact ⟨rfl, rfl, .inr (.inl rfl)⟩
  case store old => exact ⟨rfl, rfl, .inr (.inr rfl)⟩
  case resetData => exact ⟨rfl, rfl, .inr (.inl rfl)⟩
  all_goals exact ⟨rfl, rfl, .inl rfl⟩

/-- What a `wake` call has in its hands stays there when the data changes. -/
theorem hand_keep (hwakes : s'.wakes k = s.wakes k)
    (hdata : s'.data = s.data ∨ (s.wakes k).busy = false) :
    s'.held (.wake k) = s.held (.wake k) := by
  show (s'.wakes k).hand s'.data = (s.wakes k).hand s.data
  rw [hwakes]
  rcases hdata with heq | hfalse
  · rw [heq]
  · exact WakePc.hand_data hfalse _ _

theorem held_of_advance (h : s.Inv) (hs : s.advance = some s') :
    s'.held (.wake k) = s.held (.wake k) := by
  obtain ⟨hwakes, -, hdata⟩ := advance_frame hs
  refine hand_keep (congrFun hwakes k) (hdata.imp_right fun hpc => ?_)
  rcases hpc with hpc | hpc
  · refine h.control.locked.not_busy (.inl ?_) k
    rw [h.control.locked.alone hpc]
    exact Tag.noConfusion
  · exact h.control.locked.not_busy (.inr hpc) k

/-! ## What a step of `wake` does -/

inductive WakeEffect (s s' : MwsrWaker) (k : Nat) : Prop
  /-- The call looks, and leaves when the slot is empty or somebody is waking. -/
  | look (vtable : s'.vtable = s.vtable) (data : s'.data = s.data)
      (before : (s.wakes k).looking = true)
      (after : (s'.wakes k).looking = true ∨ s.vtable.tag = .idle ∨ s.vtable.tag = .waking)
  | mark (old : s.vtable.tag = .registering) (tag : s'.vtable.tag = .waking)
      (data : s'.data = s.data) (before : (s.wakes k).looking = true)
  | claim (old : s.vtable.tag = .registered) (tag : s'.vtable.tag = .waking)
      (data : s'.data = s.data) (before : (s.wakes k).looking = true)
      (held : s'.held (.wake k) = some (s.vtable.ptr, s.data))
  /-- The call has a waker in its hands. -/
  | hold (old : s.vtable.tag = .waking) (tag : s'.vtable.tag ≠ .registered)
      (quiet : s.pc.holding = false) (held : s'.held (.wake k) = s.held (.wake k))
      (before : (s.wakes k).looking = false)
  | woken (vtable : Option Nat) (taken : Slot) (same : s'.vtable = s.vtable)
      (data : s'.data = s.data) (held : s.held (.wake k) = some (vtable, taken))
      (log : s'.log = .wake vtable taken :: s.log) (before : (s.wakes k).looking = false)

theorem WakeEffect.turn (hpc : (s.wakes k).looking = true) :
    WakeEffect s (s.takeTurn k s.vtable) k := by
  have hself : ∀ wpc, (s.wakeTo k wpc).wakes k = wpc := fun wpc => Function.update_self ..
  unfold MwsrWaker.takeTurn
  cases htag : s.vtable.tag with
  | registering => exact .look rfl rfl hpc (.inl (by simp only [hself]; rfl))
  | registered => exact .look rfl rfl hpc (.inl (by simp only [hself]; rfl))
  | idle => exact .look rfl rfl hpc (.inr (.inl htag))
  | waking => exact .look rfl rfl hpc (.inr (.inr htag))

theorem wakeEffect (h : s.Inv) (hs : s.wakeStep k = some s') : WakeEffect s s' k := by
  have hself : ∀ wpc, (s.wakeTo k wpc).wakes k = wpc := fun wpc => Function.update_self ..
  have hbusy : (s.wakes k).busy = true → s.vtable.tag = .waking ∧ s.pc.holding = false :=
    h.control.locked.busy k
  unfold wakeStep at hs
  cases hpc : s.wakes k <;> rw [hpc] at hs hbusy <;> cases hs
  case load => exact .turn (by rw [hpc]; rfl)
  case mark seen =>
    unfold MwsrWaker.mark
    split
    case isTrue heq =>
      refine .mark ?_ rfl rfl (by rw [hpc]; rfl)
      rw [heq]
      exact h.control.marks k seen hpc
    case isFalse => exact .turn (by rw [hpc]; rfl)
  case claim seen =>
    unfold MwsrWaker.claim
    split
    case isTrue heq =>
      refine .claim ?_ rfl rfl (by rw [hpc]; rfl) ?_
      · rw [heq]
        exact h.control.claims k seen hpc
      · show ((s.wakeTo k (.data seen.ptr)).wakes k).hand s.data = some (s.vtable.ptr, s.data)
        rw [hself, heq]
        rfl
    case isFalse => exact .turn (by rw [hpc]; rfl)
  case data old =>
    obtain ⟨htag, hquiet⟩ := hbusy rfl
    refine .hold htag ?_ hquiet ?_ (by rw [hpc]; rfl)
    · show s.vtable.tag ≠ .registered
      rw [htag]
      exact Tag.noConfusion
    · show ((s.wakeTo k (.clear old s.data)).wakes k).hand s.data = (s.wakes k).hand s.data
      rw [hself, hpc]
      rfl
  case clear old data =>
    obtain ⟨htag, hquiet⟩ := hbusy rfl
    refine .hold htag ?_ hquiet ?_ (by rw [hpc]; rfl)
    · show s.vtable.tag ≠ .registered
      rw [htag]
      exact Tag.noConfusion
    · show ((s.wakeTo k (.reset old data)).wakes k).hand .null = (s.wakes k).hand s.data
      rw [hself, hpc]
      rfl
  case reset old data =>
    obtain ⟨htag, hquiet⟩ := hbusy rfl
    refine .hold htag Tag.noConfusion hquiet ?_ (by rw [hpc]; rfl)
    show ((s.wakeTo k (.wake old data)).wakes k).hand s.data = (s.wakes k).hand s.data
    rw [hself, hpc]
    rfl
  case wake old data =>
    refine .woken old data rfl rfl ?_ rfl (by rw [hpc]; rfl)
    show (s.wakes k).hand s.data = some (old, data)
    rw [hpc]
    rfl

/-- A `wake` call touches nothing but its own place, and the data only under the lock. -/
theorem wakeStep_frame (hs : s.wakeStep k = some s') :
    s'.pc = s.pc ∧ s'.call = s.call ∧ (∀ l, l ≠ k → s'.wakes l = s.wakes l) ∧
      (s'.data = s.data ∨ (s.wakes k).busy = true) := by
  have hothers : ∀ wpc l, l ≠ k → (s.wakeTo k wpc).wakes l = s.wakes l := fun wpc l hl =>
    Function.update_of_ne hl ..
  have hturn : ∀ seen, (s.takeTurn k seen).pc = s.pc ∧ (s.takeTurn k seen).call = s.call ∧
      (∀ l, l ≠ k → (s.takeTurn k seen).wakes l = s.wakes l) ∧
      (s.takeTurn k seen).data = s.data := by
    intro seen
    unfold takeTurn
    split <;> exact ⟨rfl, rfl, hothers _, rfl⟩
  unfold wakeStep at hs
  cases hpc : s.wakes k <;> rw [hpc] at hs <;> cases hs
  case load =>
    obtain ⟨h1, h2, h3, h4⟩ := hturn s.vtable
    exact ⟨h1, h2, h3, .inl h4⟩
  case mark seen =>
    unfold mark
    split
    · exact ⟨rfl, rfl, hothers _, .inl rfl⟩
    · obtain ⟨h1, h2, h3, h4⟩ := hturn s.vtable
      exact ⟨h1, h2, h3, .inl h4⟩
  case claim seen =>
    unfold claim
    split
    · exact ⟨rfl, rfl, hothers _, .inl rfl⟩
    · obtain ⟨h1, h2, h3, h4⟩ := hturn s.vtable
      exact ⟨h1, h2, h3, .inl h4⟩
  case clear old data => exact ⟨rfl, rfl, hothers _, .inr rfl⟩
  all_goals exact ⟨rfl, rfl, hothers _, .inl rfl⟩

theorem held_of_wakeStep (h : s.Inv) (hs : s.wakeStep k = some s') {l : Nat} (hl : l ≠ k) :
    s'.held (.wake l) = s.held (.wake l) := by
  obtain ⟨-, -, hothers, hdata⟩ := wakeStep_frame hs
  refine hand_keep (hothers l hl) (hdata.imp_right fun hk => ?_)
  rw [Bool.eq_false_iff]
  exact fun hbusy => hl (h.control.locked.apart l k hbusy hk)

/-! ## The way of a wake-up -/

theorem passed_waker (h : r ≤ s.call) : s.Passed r s.waker := ⟨s.call, h, Nat.le_refl _, rfl⟩

theorem delivered_of_log (hgrows : Grows s s') (hgrown : ∃ done, s.log = done ++ log)
    (hw : s.Passed r w) (hlog : ∃ e, s'.log = e :: s.log ∧ e.Rouses w) : s'.Delivered r log := by
  obtain ⟨done, hdone⟩ := hgrown
  obtain ⟨e, he, hrouses⟩ := hlog
  exact .inl ⟨w, hgrows.passed hw, e :: done, by rw [he, hdone]; rfl, e, List.mem_cons_self ..,
    hrouses⟩

/-- A wake-up that is on its way stays so. -/
theorem Delivered.step (hd : s.Delivered r log) (h : s.Inv) (hcalled : r ≤ s.call)
    (hgrown : ∃ done, s.log = done ++ log) (hs : MwsrStep s e s') : s'.Delivered r log := by
  have hgrows := grows_of_step hs
  rcases hd with ⟨w, hw, hwoken⟩ | ⟨k, vtable, data, hheld, hrecent⟩ | hrousing
  · exact .inl ⟨w, hgrows.passed hw, hgrows.wokenSince hwoken⟩
  · have hkeep : s'.held (.wake k) = s.held (.wake k) → s'.Delivered r log := fun heq =>
      .inr (.inl ⟨k, vtable, data, heq.trans hheld, hgrows.recent hrecent⟩)
    cases e with
    | register w =>
      obtain ⟨-, heq⟩ := Option.ite_none_right_eq_some.mp hs
      cases heq
      exact hkeep rfl
    | registrar => exact hkeep (held_of_advance h hs)
    | wake l =>
      obtain ⟨hfresh, heq⟩ := Option.ite_none_right_eq_some.mp hs
      cases heq
      refine hkeep (hand_keep (Function.update_of_ne ?_ ..) (.inl rfl))
      rintro rfl
      rw [show s.held (.wake k) = (s.wakes k).hand s.data from rfl, hfresh] at hheld
      exact absurd hheld.symm (Option.some_ne_none _)
    | waker l =>
      rcases Classical.em (k = l) with rfl | hne
      · cases wakeEffect h hs with
        | look _ _ before _ =>
          rw [show s.held (.wake k) = (s.wakes k).hand s.data from rfl] at hheld
          cases hpc : s.wakes k <;> rw [hpc] at hheld before <;> first
            | exact absurd hheld.symm (Option.some_ne_none _)
            | exact absurd before.symm Bool.false_ne_true.symm
        | mark _ _ _ before =>
          rw [show s.held (.wake k) = (s.wakes k).hand s.data from rfl] at hheld
          cases hpc : s.wakes k <;> rw [hpc] at hheld before <;> first
            | exact absurd hheld.symm (Option.some_ne_none _)
            | exact absurd before.symm Bool.false_ne_true.symm
        | claim _ _ _ before _ =>
          rw [show s.held (.wake k) = (s.wakes k).hand s.data from rfl] at hheld
          cases hpc : s.wakes k <;> rw [hpc] at hheld before <;> first
            | exact absurd hheld.symm (Option.some_ne_none _)
            | exact absurd before.symm Bool.false_ne_true.symm
        | hold _ _ _ held _ => exact hkeep held
        | woken vtable' taken _ _ held hlog _ =>
          cases held.symm.trans hheld
          obtain ⟨w, hw, hrouses⟩ := hrecent
          exact delivered_of_log hgrows hgrown hw ⟨_, hlog, hrouses⟩
      · exact hkeep (held_of_wakeStep h hs hne)
  · cases e with
    | register w =>
      obtain ⟨hidle, heq⟩ := Option.ite_none_right_eq_some.mp hs
      exact absurd hrousing (not_rousing hidle rfl (.inl rfl))
    | registrar =>
      cases registerEffect h hs with
      | keep _ _ _ rousing => exact .inr (.inr (rousing hrousing))
      | hit _ _ quiet _ _ _ => exact absurd hrousing quiet
      | lock _ _ quiet _ _ => exact absurd hrousing quiet
      | publish _ _ _ quiet _ => exact absurd hrousing quiet
      | rouse _ rousing _ _ => exact .inr (.inr (.inl rousing))
      | woke _ _ _ _ hlog => exact delivered_of_log hgrows hgrown (passed_waker hcalled) hlog
    | wake l =>
      obtain ⟨-, heq⟩ := Option.ite_none_right_eq_some.mp hs
      cases heq
      exact .inr (.inr hrousing)
    | waker l =>
      have hpc := (wakeStep_frame hs).1
      refine .inr (.inr (hrousing.imp (fun hr => ?_) fun ⟨hholding, htag⟩ => ?_))
      · rw [hpc]
        exact hr
      · rw [hpc]
        refine ⟨hholding, ?_⟩
        cases wakeEffect h hs with
        | look vtable _ _ _ => rw [vtable, htag]
        | mark old _ _ _ => exact Tag.noConfusion (old.symm.trans htag)
        | claim old _ _ _ _ => exact Tag.noConfusion (old.symm.trans htag)
        | hold _ _ quiet _ _ => exact absurd (quiet.symm.trans hholding) Bool.false_ne_true
        | woken _ _ same _ _ _ _ => rw [same, htag]

theorem Settled.step (hsettled : s.Settled r) (h : s.Inv) (hs : MwsrStep s e s')
    (hcalled : r ≤ s.call) : s'.Settled r := by
  have hcall := (grows_of_step hs).call
  rcases hsettled with hlt | hpc
  · exact .inl (Nat.lt_of_lt_of_le hlt hcall)
  · cases e with
    | register w =>
      obtain ⟨-, heq⟩ := Option.ite_none_right_eq_some.mp hs
      cases heq
      exact .inl (Nat.lt_succ_of_le hcalled)
    | registrar =>
      cases registerEffect h hs with
      | keep _ _ settled _ => exact .inr (settled.trans hpc)
      | hit _ _ _ idle _ _ => exact .inr (by rw [idle]; rfl)
      | lock _ _ _ before _ => exact absurd (before.symm.trans hpc) Bool.false_ne_true
      | publish _ _ _ _ after => exact .inr (by rw [after]; rfl)
      | rouse _ rousing _ _ =>
        refine .inr ?_
        cases hpc' : s'.pc <;> rw [hpc'] at rousing <;> first
          | rfl
          | exact absurd rousing.symm Bool.false_ne_true.symm
      | woke _ _ _ idle _ => exact .inr (by rw [idle]; rfl)
    | wake l =>
      obtain ⟨-, heq⟩ := Option.ite_none_right_eq_some.mp hs
      cases heq
      exact .inr hpc
    | waker l => exact .inr ((congrArg _ (wakeStep_frame hs).1).trans hpc)

/-- Where the number of the call stays the same, so does whether it has settled, unless it
settles now. -/
theorem settled_of_call (hcall : s'.call = s.call) (hpc : s'.pc.settled = s.pc.settled) :
    s'.Settled r → s.Settled r := by
  rintro (hlt | hsettled)
  · exact .inl (hcall ▸ hlt)
  · exact .inr (hpc.symm.trans hsettled)

theorem Reach.step (hr : s.Reach r log) (h : s.Inv) (hs : MwsrStep s e s') : s'.Reach r log := by
  have hgrows := grows_of_step hs
  have hcalled : r ≤ s'.call := Nat.le_trans hr.called hgrows.call
  have hdelivered : s.Delivered r log → s'.Delivered r log := fun hd =>
    hd.step h hr.called hr.grown hs
  have hkeep : s'.vtable = s.vtable → (s.vtable.tag = .registered → s'.data = s.data) →
      (s'.Settled r → s.Settled r) → s'.Reach r log := by
    intro hvtable hdata hsettled
    refine ⟨hcalled, hgrows.grown hr.grown, fun hset htag => ?_, fun hset => ?_⟩
    · rw [hvtable] at htag ⊢
      rw [hdata htag]
      exact hgrows.recent (hr.recent (hsettled hset) htag)
    · rw [hvtable]
      exact (hr.arrived (hsettled hset)).imp_right (Or.imp_right hdelivered)
  cases e with
  | register w =>
    obtain ⟨hidle, heq⟩ := Option.ite_none_right_eq_some.mp hs
    cases heq
    exact hkeep rfl (fun _ => rfl) fun _ => .inr (by rw [hidle]; rfl)
  | registrar =>
    have hcall : s'.call = s.call := (advance_frame hs).2.1
    have hown : ∀ vtable data, vtable = some s.waker.vtable → data.ptr = s.waker.data →
        s'.Recent r vtable data := fun vtable data hvtable hdata =>
      ⟨s.waker, hgrows.passed (passed_waker hr.called), hvtable, hdata⟩
    cases registerEffect h hs with
    | keep vtable data settled rousing => exact hkeep vtable data (settled_of_call hcall settled)
    | hit vtable data quiet idle same ptr =>
      refine ⟨hcalled, hgrows.grown hr.grown, fun _ _ => hown _ _ ?_ ?_, fun _ => .inl ?_⟩
      · rw [vtable, same]
      · rw [data, ptr]
      · rw [vtable, same]
    | lock old tag quiet before after =>
      refine ⟨hcalled, hgrows.grown hr.grown, fun _ htag => ?_, fun _ => .inr (.inl tag)⟩
      exact Tag.noConfusion (tag.symm.trans htag)
    | publish vtable data ptr quiet after =>
      refine ⟨hcalled, hgrows.grown hr.grown, fun _ _ => hown _ _ ?_ ?_, fun _ => .inl ?_⟩
      · rw [vtable]
      · rw [data, ptr]
      · rw [vtable]
    | rouse tag rousing _ _ =>
      exact ⟨hcalled, hgrows.grown hr.grown, fun _ htag => absurd htag tag,
        fun _ => .inr (.inr (.inr (.inr (.inl rousing))))⟩
    | woke vtable data before idle log => exact hkeep vtable (fun _ => data) fun _ => .inr before
  | wake l =>
    obtain ⟨-, heq⟩ := Option.ite_none_right_eq_some.mp hs
    cases heq
    exact hkeep rfl (fun _ => rfl) id
  | waker l =>
    obtain ⟨hpc, hcall, -, -⟩ := wakeStep_frame hs
    have hsettled : s'.Settled r → s.Settled r := settled_of_call hcall (congrArg _ hpc)
    cases wakeEffect h hs with
    | look vtable data _ _ => exact hkeep vtable (fun _ => data) hsettled
    | mark old tag data _ =>
      refine ⟨hcalled, hgrows.grown hr.grown, fun _ htag => ?_, fun _ => ?_⟩
      · exact Tag.noConfusion (tag.symm.trans htag)
      · have hholding := RegisterPc.holding_of_lockedFrom (h.control.locked.registering old)
        exact .inr (.inr (.inr (.inr (.inr ⟨by rw [hpc]; exact hholding, tag⟩))))
    | claim old tag data _ held =>
      refine ⟨hcalled, hgrows.grown hr.grown, fun _ htag => ?_, fun hset => ?_⟩
      · exact Tag.noConfusion (tag.symm.trans htag)
      · exact .inr (.inr (.inr (.inl ⟨l, _, _, held,
          hgrows.recent (hr.recent (hsettled hset) old)⟩)))
    | hold old tag quiet held _ =>
      refine ⟨hcalled, hgrows.grown hr.grown, fun _ htag => absurd htag tag, fun hset => ?_⟩
      refine .inr (.inr (hdelivered ?_))
      rcases hr.arrived (hsettled hset) with htag | htag | hd
      · exact Tag.noConfusion (old.symm.trans htag)
      · exact Tag.noConfusion (old.symm.trans htag)
      · exact hd
    | woken vtable taken same data _ _ _ => exact hkeep same (fun _ => data) hsettled

/-! ## A registration and the wake-ups after it -/

/-- Call `r` was given `w`. -/
structure Track (w : RawWaker) (r : Nat) (log : List VtableCall) (s : MwsrWaker) : Prop where
  inv : s.Inv
  reach : s.Reach r log
  arg : s.args r = w

/-- `wake` call `k`, begun after call `r` had settled, has something to show, or is looking. -/
structure Watch (w : RawWaker) (r : Nat) (log : List VtableCall) (k : Nat) (s : MwsrWaker) :
    Prop where
  track : s.Track w r log
  settled : s.Settled r
  quiet : s.call = r → s.pc = .idle
  attended : s.Delivered r log ∨ (s.wakes k).looking = true

theorem Track.step (ht : s.Track w r log) (hs : MwsrStep s e s') : s'.Track w r log :=
  ⟨ht.inv.step hs, ht.reach.step ht.inv hs,
    ((grows_of_step hs).args r ht.reach.called).trans ht.arg⟩

/-- Call `r` begins. -/
theorem track_register (h : s.Inv) (hs : MwsrStep s (.register w) s') :
    s'.Track w s'.call s.log := by
  have h' := h.step hs
  obtain ⟨-, heq⟩ := Option.ite_none_right_eq_some.mp hs
  cases heq
  have hnot : ¬ (s.register w).Settled (s.register w).call := by
    rintro (hlt | hpc)
    · exact Nat.lt_irrefl _ hlt
    · exact Bool.false_ne_true hpc
  exact ⟨h', ⟨Nat.le_refl _, ⟨[], rfl⟩, fun hset => absurd hset hnot,
    fun hset => absurd hset hnot⟩, Function.update_self ..⟩

theorem Watch.attend (hw : s.Watch w r log k) (hs : MwsrStep s e s') (hreach : s'.Reach r log)
    (hsettled : s'.Settled r) : s'.Delivered r log ∨ (s'.wakes k).looking = true := by
  rcases hw.attended with hd | hlooking
  · exact .inl (hd.step hw.track.inv hw.track.reach.called hw.track.reach.grown hs)
  · cases e with
    | register w =>
      obtain ⟨-, heq⟩ := Option.ite_none_right_eq_some.mp hs
      cases heq
      exact .inr hlooking
    | registrar =>
      have hwakes : s'.wakes = s.wakes := (advance_frame hs).1
      exact .inr (by rw [hwakes]; exact hlooking)
    | wake l =>
      obtain ⟨hfresh, heq⟩ := Option.ite_none_right_eq_some.mp hs
      cases heq
      have hne : k ≠ l := by
        rintro rfl
        rw [hfresh] at hlooking
        exact Bool.false_ne_true hlooking
      refine .inr ?_
      rw [show (s.wakeTo l .load).wakes k = s.wakes k from Function.update_of_ne hne ..]
      exact hlooking
    | waker l =>
      rcases Classical.em (k = l) with rfl | hne
      · have harrived : s'.vtable.tag = .idle ∨ s'.vtable.tag = .waking → s'.Delivered r log := by
          intro htag
          rcases hreach.arrived hsettled with hr | hr | hd
          · rcases htag with htag | htag <;> exact Tag.noConfusion (htag.symm.trans hr)
          · rcases htag with htag | htag <;> exact Tag.noConfusion (htag.symm.trans hr)
          · exact hd
        cases wakeEffect hw.track.inv hs with
        | look vtable _ _ after =>
          rw [← vtable] at after
          exact after.symm.imp_left harrived
        | mark _ tag _ _ => exact .inl (harrived (.inr tag))
        | claim _ tag _ _ _ => exact .inl (harrived (.inr tag))
        | hold _ _ _ _ before => exact absurd (before.symm.trans hlooking) Bool.false_ne_true
        | woken _ _ _ _ _ _ before => exact absurd (before.symm.trans hlooking) Bool.false_ne_true
      · refine .inr ?_
        rw [(wakeStep_frame hs).2.2.1 k hne]
        exact hlooking

theorem Watch.step (hw : s.Watch w r log k) (hs : MwsrStep s e s') : s'.Watch w r log k := by
  have htrack := hw.track.step hs
  have hsettled := hw.settled.step hw.track.inv hs hw.track.reach.called
  refine ⟨htrack, hsettled, fun hcall => ?_, hw.attend hs htrack.reach hsettled⟩
  cases e with
  | register w =>
    obtain ⟨-, heq⟩ := Option.ite_none_right_eq_some.mp hs
    cases heq
    exact absurd hcall.symm (Nat.ne_of_lt (Nat.lt_succ_of_le hw.track.reach.called))
  | registrar =>
    have hs : s.advance = some s' := hs
    have hidle := hw.quiet ((advance_frame hs).2.1.symm.trans hcall)
    unfold advance at hs
    rw [hidle] at hs
    exact absurd hs.symm (Option.some_ne_none _)
  | wake l =>
    obtain ⟨-, heq⟩ := Option.ite_none_right_eq_some.mp hs
    cases heq
    exact hw.quiet hcall
  | waker l =>
    obtain ⟨hpc, hcall', -, -⟩ := wakeStep_frame hs
    exact hpc.trans (hw.quiet (hcall'.symm.trans hcall))

/-- Once nobody is waking, what was on its way has arrived. -/
theorem Watch.woken (hw : s.Watch w r log k) (hended : ∀ l, (s.wakes l).ended = true)
    (hidle : s.pc = .idle) : ∃ w', s.Passed r w' ∧ s.WokenSince log w' := by
  have hnone : ∀ l, s.held (.wake l) = none := by
    intro l
    have hl := hended l
    show (s.wakes l).hand s.data = none
    cases hpc : s.wakes l <;> rw [hpc] at hl <;> first
      | rfl
      | exact absurd hl.symm Bool.false_ne_true.symm
  rcases hw.attended with (hroused | ⟨l, vtable, data, hheld, -⟩ | hrousing) | hlooking
  · exact hroused
  · exact absurd ((hnone l).symm.trans hheld).symm (Option.some_ne_none _)
  · exact absurd hrousing (not_rousing hidle rfl (.inl rfl))
  · have hk := hended k
    cases hpc : s.wakes k <;> rw [hpc] at hk hlooking <;> first
      | exact absurd hk.symm Bool.false_ne_true.symm
      | exact absurd hlooking.symm Bool.false_ne_true.symm

/-! ## A registration without any wake-up -/

/-- `w` is the waker that is registered. -/
def Registered (s : MwsrWaker) (w : RawWaker) : Prop :=
  s.vtable = { ptr := some w.vtable, tag := .registered } ∧ s.data.ptr = w.data

/-- Call `r` is not disturbed. -/
structure Alone (w : RawWaker) (r : Nat) (s : MwsrWaker) : Prop where
  inv : s.Inv
  called : r ≤ s.call
  arg : s.args r = w
  ended : ∀ l, (s.wakes l).ended = true
  calm : s.vtable.tag ≠ .waking
  registered : s.call = r → s.pc.settled = true → s.Registered w

/-- No `wake` call begins. -/
def NoWake (_ : MwsrWaker) (e : MwsrAction) : Prop := ∀ k, e ≠ .wake k

theorem Alone.step (ha : s.Alone w r) (hno : NoWake s e) (hs : MwsrStep s e s') :
    s'.Alone w r := by
  have hinv := ha.inv.step hs
  have hgrows := grows_of_step hs
  have hcalled := Nat.le_trans ha.called hgrows.call
  have harg := (hgrows.args r ha.called).trans ha.arg
  cases e with
  | register w' =>
    obtain ⟨-, heq⟩ := Option.ite_none_right_eq_some.mp hs
    cases heq
    exact ⟨hinv, hcalled, harg, ha.ended, ha.calm, fun hcall =>
      absurd hcall.symm (Nat.ne_of_lt (Nat.lt_succ_of_le ha.called))⟩
  | registrar =>
    have hs : s.advance = some s' := hs
    obtain ⟨hwakes, hcall, -⟩ := advance_frame hs
    have hended : ∀ l, (s'.wakes l).ended = true := by
      rw [hwakes]
      exact ha.ended
    have hwaker : s'.call = r → s.waker = w := fun hr => by
      rw [← ha.arg, ← hcall.symm.trans hr]
      rfl
    cases registerEffect ha.inv hs with
    | keep vtable data settled rousing =>
      refine ⟨hinv, hcalled, harg, hended, by rw [vtable]; exact ha.calm, fun hr hset => ?_⟩
      obtain ⟨hvtable, hdata⟩ := ha.registered (hcall.symm.trans hr) (settled.symm.trans hset)
      refine ⟨vtable.trans hvtable, ?_⟩
      rw [data (by rw [hvtable]), hdata]
    | hit vtable data quiet idle same ptr =>
      refine ⟨hinv, hcalled, harg, hended, by rw [vtable]; exact ha.calm, fun hr _ => ?_⟩
      rw [← hwaker hr]
      exact ⟨vtable.trans same, (congrArg Slot.ptr data).trans ptr⟩
    | lock old tag quiet before after =>
      refine ⟨hinv, hcalled, harg, hended, by rw [tag]; exact Tag.noConfusion, fun _ hset => ?_⟩
      exact absurd (after.symm.trans hset) Bool.false_ne_true
    | publish vtable data ptr quiet after =>
      refine ⟨hinv, hcalled, harg, hended, by rw [vtable]; exact Tag.noConfusion, fun hr _ => ?_⟩
      rw [← hwaker hr]
      exact ⟨vtable, (congrArg Slot.ptr data).trans ptr⟩
    | rouse tag rousing vtable cause =>
      rcases cause with hwaking | ⟨htag, hset⟩
      · exact absurd hwaking ha.calm
      · have hcalm : s'.vtable.tag ≠ .waking := by
          rcases vtable with heq | heq
          · rw [heq]
            exact ha.calm
          · rw [heq]
            exact Tag.noConfusion
        refine ⟨hinv, hcalled, harg, hended, hcalm, fun hr _ => ?_⟩
        refine absurd ?_ htag
        rw [(ha.registered (hcall.symm.trans hr) hset).1]
    | woke vtable data before idle log =>
      refine ⟨hinv, hcalled, harg, hended, by rw [vtable]; exact ha.calm, fun hr _ => ?_⟩
      obtain ⟨hvtable, hdata⟩ := ha.registered (hcall.symm.trans hr) before
      exact ⟨vtable.trans hvtable, (congrArg Slot.ptr data).trans hdata⟩
  | wake k => exact absurd rfl (hno k)
  | waker k =>
    have hs : s.wakeStep k = some s' := hs
    have hk := ha.ended k
    unfold wakeStep at hs
    cases hpc : s.wakes k <;> rw [hpc] at hs hk <;> first
      | exact absurd hs.symm (Option.some_ne_none _)
      | exact absurd hk.symm Bool.false_ne_true.symm

/-! ## The last drop -/

/-- No call is in progress. -/
def Quiet (s : MwsrWaker) : Prop := s.pc = .idle ∧ ∀ k, (s.wakes k).ended = true

/-- When the waker itself is dropped, every clone has been consumed once. -/
theorem Inv.drop (h : s.Inv) (hquiet : s.Quiet) {g : Nat} (hg : .clone g ∈ s.log) :
    s.drop.consumed.count g = 1 := by
  obtain ⟨hidle, hended⟩ := hquiet
  have hregistrar : s.held .registrar = none := by
    unfold held
    rw [hidle]
    rfl
  have hwakes : ∀ k, s.held (.wake k) = none := by
    intro k
    have hk := hended k
    show (s.wakes k).hand s.data = none
    cases hpc : s.wakes k <;> rw [hpc] at hk <;> first
      | rfl
      | exact absurd hk.symm Bool.false_ne_true.symm
  have hnone : ∀ p, p ≠ .slot → s.cloneAt p = none := by
    intro p hp
    cases p with
    | slot => exact absurd rfl hp
    | registrar =>
      unfold cloneAt
      rw [hregistrar]
      rfl
    | wake k =>
      unfold cloneAt
      rw [hwakes]
      rfl
  unfold MwsrWaker.drop
  rcases Classical.em (s.vtable.tag = .registered) with htag | htag
  · have hslot : s.held .slot = some (s.vtable.ptr, s.data) := if_pos htag
    obtain ⟨g', -, -, hclone, hvtable, -⟩ := h.ledger.whole _ _ _ hslot
    have hsome : s.vtable.ptr ≠ none := by
      rw [hvtable]
      exact Option.some_ne_none _
    have hspent : s.cloneAt .slot = some g' := by
      unfold cloneAt
      rw [hslot]
      exact hclone
    rw [if_pos ⟨htag, hsome⟩]
    have hconsumed : consumed { s with log := .drop s.vtable.ptr s.data :: s.log } =
        g' :: s.consumed :=
      List.filterMap_cons_some hclone
    have hcustody : Custody (fun _ => none) (fun g => .clone g ∈ s.log) (g' :: s.consumed) :=
      h.ledger.custody.spend hspent rfl fun p hp => (hnone p hp).symm
    rw [hconsumed]
    exact hcustody.count_eq_one (fun _ => rfl) hg
  · rw [if_neg fun hand => htag hand.1]
    refine h.ledger.custody.count_eq_one (fun p => ?_) hg
    rcases Classical.em (p = .slot) with rfl | hp
    · unfold cloneAt
      rw [show s.held .slot = none from if_neg htag]
      rfl
    · exact hnone p hp

theorem Inv.of_run (h : Run MwsrStep Always (· = new) s) : s.Inv :=
  h.invariant (fun _ hs => by rw [hs]; exact Inv.initial) fun _ _ _ hinv _ hs => hinv.step hs

end MwsrWaker

open MwsrWaker

/-- Every waker that is woken or dropped is, vtable and data, one that was passed to `register`;
no clone is consumed twice, and none is left over once the waker itself has been dropped.  After
`register(w)`, with no `wake` call from its start on, `w` is registered.  If a `wake` call begins
after `register(w)` has returned and before the next `register` call, then, once no `wake` call
is running, `w` has been woken; where `register` has been called again and has returned, it may
be a waker of a later call that was woken in place of `w`. -/
theorem mwsr_waker_sound {s₀ : MwsrWaker} (hrun : Run MwsrStep Always (· = .new) s₀) :
    (∀ e ∈ s₀.log, s₀.Sound e) ∧
    (s₀.consumed.Nodup ∧ (∀ g ∈ s₀.consumed, .clone g ∈ s₀.log) ∧
      (s₀.Quiet → ∀ g, .clone g ∈ s₀.log → s₀.drop.consumed.count g = 1)) ∧
    ∀ w s₁, MwsrStep s₀ (.register w) s₁ → ∀ s₂, s₂.pc = .idle → s₂.call = s₁.call →
      ((∀ l, (s₀.wakes l).ended = true) → Run MwsrStep NoWake (· = s₁) s₂ → s₂.Registered w) ∧
      (Run MwsrStep Always (· = s₁) s₂ → ∀ k s₃ s₄, MwsrStep s₂ (.wake k) s₃ →
        Run MwsrStep Always (· = s₃) s₄ → (∀ l, (s₄.wakes l).ended = true) →
          (s₄.call = s₁.call → s₄.WokenSince s₀.log w) ∧
          (s₄.pc = .idle → ∃ g, s₁.call ≤ g ∧ g ≤ s₄.call ∧
            s₄.WokenSince s₀.log (s₄.args g))) := by
  have hinv := Inv.of_run hrun
  refine ⟨hinv.ledger.sound, ⟨hinv.ledger.custody.nodup, hinv.ledger.custody.known,
    fun hquiet g hg => hinv.drop hquiet hg⟩, fun w s₁ hregister s₂ hidle hcall => ⟨?_, ?_⟩⟩
  · intro hended hrun₂
    have htrack := track_register hinv hregister
    have hstart : s₁.Alone w s₁.call := by
      obtain ⟨hidle₀, heq⟩ := Option.ite_none_right_eq_some.mp hregister
      have hcalm : s₀.vtable.tag ≠ .waking := by
        intro htag
        rcases hinv.control.locked.waking htag with hholding | ⟨k, hk⟩
        · rw [hidle₀] at hholding
          exact Bool.false_ne_true hholding
        · have hk' := hended k
          cases hpc : s₀.wakes k <;> rw [hpc] at hk hk' <;> first
            | exact absurd hk.symm Bool.false_ne_true.symm
            | exact absurd hk'.symm Bool.false_ne_true.symm
      cases heq
      exact ⟨htrack.inv, Nat.le_refl _, htrack.arg, hended, hcalm, fun _ hset =>
        absurd hset Bool.false_ne_true⟩
    have halone : s₂.Alone w s₁.call :=
      hrun₂.invariant (fun _ hs => by rw [hs]; exact hstart) fun _ _ _ ha hno hs => ha.step hno hs
    exact halone.registered hcall (by rw [hidle]; rfl)
  · intro hrun₂ k s₃ s₄ hwake hrun₄ hended
    have htrack : s₂.Track w s₁.call s₀.log :=
      hrun₂.invariant (fun _ hs => by rw [hs]; exact track_register hinv hregister)
        fun _ _ _ ht _ hs => ht.step hs
    have hsettled : s₂.Settled s₁.call := .inr (by rw [hidle]; rfl)
    have hstart : s₃.Watch w s₁.call s₀.log k := by
      refine ⟨htrack.step hwake, hsettled.step htrack.inv hwake htrack.reach.called, ?_, .inr ?_⟩
      · obtain ⟨-, heq⟩ := Option.ite_none_right_eq_some.mp hwake
        cases heq
        exact fun _ => hidle
      · obtain ⟨-, heq⟩ := Option.ite_none_right_eq_some.mp hwake
        cases heq
        rw [show (s₂.wakeTo k .load).wakes k = .load from Function.update_self ..]
        rfl
    have hwatch : s₄.Watch w s₁.call s₀.log k :=
      hrun₄.invariant (fun _ hs => by rw [hs]; exact hstart) fun _ _ _ hw _ hs => hw.step hs
    refine ⟨fun hsame => ?_, fun hidle₄ => ?_⟩
    · obtain ⟨w', ⟨g, hle, hge, hg⟩, hwoken⟩ := hwatch.woken hended (hwatch.quiet hsame)
      rw [Nat.le_antisymm (hsame ▸ hge) hle, hwatch.track.arg] at hg
      rw [hg]
      exact hwoken
    · obtain ⟨w', ⟨g, hle, hge, hg⟩, hwoken⟩ := hwatch.woken hended hidle₄
      exact ⟨g, hle, hge, by rw [hg]; exact hwoken⟩

/-! ## Runs of one `wake` call -/

namespace MwsrWaker

/-- The `wake` calls other than the first are not running. -/
def OnlyFirst (s : MwsrWaker) : Prop := ∀ k, k ≠ 0 → (s.wakes k).ended = true

theorem OnlyFirst.step {s s' : MwsrWaker} (h : s.OnlyFirst) {e : MwsrAction}
    (he : (∃ w, e = .register w) ∨ e = .registrar ∨ e = .wake 0 ∨ e = .waker 0)
    (hs : s.step e = some s') : s'.OnlyFirst := by
  intro k hk
  have hfrom : s'.wakes k = s.wakes k → (s'.wakes k).ended = true := fun heq => by
    rw [heq]
    exact h k hk
  rcases he with ⟨w, rfl⟩ | rfl | rfl | rfl
  · obtain ⟨-, heq⟩ := Option.ite_none_right_eq_some.mp hs
    cases heq
    exact hfrom rfl
  · exact hfrom (congrFun (advance_frame hs).1 k)
  · obtain ⟨-, heq⟩ := Option.ite_none_right_eq_some.mp hs
    cases heq
    exact hfrom (Function.update_of_ne hk ..)
  · exact hfrom ((wakeStep_frame hs).2.2.1 k hk)

/-- It is the registrar that steps. -/
def registrarTest (_ : MwsrWaker) (e : MwsrAction) : Bool := decide (e = .registrar)

/-- The first waker has been registered. -/
def oneRegistered : MwsrWaker :=
  (replay MwsrWaker.step registrarTest (new.register ⟨1, 1⟩) (List.replicate 7 .registrar)).get
    (by decide +kernel)

theorem oneRegistered_eq : replay MwsrWaker.step registrarTest (new.register ⟨1, 1⟩)
    (List.replicate 7 .registrar) = some oneRegistered := (Option.some_get _).symm

/-- A `wake` call of its own. -/
def wakingOnce : List MwsrAction := List.replicate 6 (.waker 0)

def oneWoken : MwsrWaker :=
  (replay MwsrWaker.step (fun _ _ => true) (oneRegistered.wakeTo 0 .load) wakingOnce).get
    (by decide +kernel)

/-- A `wake` call that is overtaken by the registration of a second waker. -/
def wakingOvertaken : List MwsrAction :=
  .waker 0 :: .register ⟨2, 2⟩ :: (List.replicate 9 .registrar ++ List.replicate 6 (.waker 0))

def secondWoken : MwsrWaker :=
  (replay MwsrWaker.step (fun _ _ => true) (oneRegistered.wakeTo 0 .load) wakingOvertaken).get
    (by decide +kernel)

theorem ended_of_replay {s : MwsrWaker} {es : List MwsrAction}
    (hes : ∀ e ∈ es, (∃ w, e = .register w) ∨ e = .registrar ∨ e = .wake 0 ∨ e = .waker 0)
    (hreplay : replay MwsrWaker.step (fun _ _ => true) (oneRegistered.wakeTo 0 .load) es = some s)
    (hfirst : (s.wakes 0).ended = true) (k : Nat) : (s.wakes k).ended = true := by
  have hregistered : oneRegistered.OnlyFirst := by
    refine replay_invariant (fun e he s s' hs hstep => hs.step ?_ hstep) (fun _ _ => rfl)
      oneRegistered_eq
    exact .inr (.inl (List.eq_of_mem_replicate he))
  have hstart : (oneRegistered.wakeTo 0 .load).OnlyFirst := by
    intro k hk
    rw [show (oneRegistered.wakeTo 0 .load).wakes k = _ from Function.update_of_ne hk ..]
    exact hregistered k hk
  have honly : s.OnlyFirst :=
    replay_invariant (fun e he s s' hs hstep => hs.step (hes e he) hstep) hstart hreplay
  rcases Classical.em (k = 0) with rfl | hk
  · exact hfirst
  · exact honly k hk

end MwsrWaker

/-- One registration and one `wake` call. -/
theorem mwsr_waker_sound_once :
    oneRegistered.Registered ⟨1, 1⟩ ∧ oneWoken.WokenSince [] ⟨1, 1⟩ := by
  have hstart : Run MwsrStep Always (· = MwsrWaker.new) .new := Run.start rfl
  have hsound := (mwsr_waker_sound hstart).2.2 ⟨1, 1⟩ (MwsrWaker.new.register ⟨1, 1⟩) rfl
    oneRegistered (by decide +kernel) (by decide +kernel)
  have hwoken : replay MwsrWaker.step (fun _ _ => true) (oneRegistered.wakeTo 0 .load) wakingOnce =
      some oneWoken := (Option.some_get _).symm
  have hfirst : Run MwsrStep NoWake (· = MwsrWaker.new.register ⟨1, 1⟩)
      (MwsrWaker.new.register ⟨1, 1⟩) := Run.start rfl
  have hsecond : Run MwsrStep Always (· = oneRegistered.wakeTo 0 .load)
      (oneRegistered.wakeTo 0 .load) := Run.start rfl
  have hregistered : Run MwsrStep NoWake (· = MwsrWaker.new.register ⟨1, 1⟩) oneRegistered := by
    refine hfirst.replay (fun _ _ _ hs => hs) (fun _ e he k hk => ?_) oneRegistered_eq
    rw [of_decide_eq_true he] at hk
    exact MwsrAction.noConfusion hk
  refine ⟨hsound.1 (fun _ => rfl) hregistered, (hsound.2 ?_ 0 _ oneWoken rfl ?_ ?_).1 ?_⟩
  · exact hregistered.mono fun _ _ _ => trivial
  · exact hsecond.replay (fun _ _ _ hs => hs) (fun _ _ _ => trivial) hwoken
  · refine ended_of_replay (fun e he => ?_) hwoken (by decide +kernel)
    exact .inr (.inr (.inr (List.eq_of_mem_replicate he)))
  · decide +kernel

/-- A `wake` call that begins after `register` has returned may wake the waker of the next
`register` call instead. -/
theorem mwsr_waker_wakes_replacement :
    ¬ ∀ s₀ s₁ s₂ s₃ s₄ w k, Run MwsrStep Always (· = MwsrWaker.new) s₀ →
      MwsrStep s₀ (.register w) s₁ → Run MwsrStep Always (· = s₁) s₂ → s₂.pc = .idle →
      s₂.call = s₁.call → MwsrStep s₂ (.wake k) s₃ → Run MwsrStep Always (· = s₃) s₄ →
      (∀ l, (s₄.wakes l).ended = true) → s₄.WokenSince s₀.log w := by
  intro hclaim
  have hwoken : replay MwsrWaker.step (fun _ _ => true) (oneRegistered.wakeTo 0 .load)
      wakingOvertaken = some secondWoken := (Option.some_get _).symm
  have hnew : Run MwsrStep Always (· = MwsrWaker.new) .new := Run.start rfl
  have hfirst : Run MwsrStep Always (· = MwsrWaker.new.register ⟨1, 1⟩)
      (MwsrWaker.new.register ⟨1, 1⟩) := Run.start rfl
  have hsecond : Run MwsrStep Always (· = oneRegistered.wakeTo 0 .load)
      (oneRegistered.wakeTo 0 .load) := Run.start rfl
  have hended : ∀ l, (secondWoken.wakes l).ended = true := by
    refine ended_of_replay (fun e he => ?_) hwoken (by decide +kernel)
    simp only [wakingOvertaken, List.mem_cons, List.mem_append, List.mem_replicate] at he
    rcases he with rfl | rfl | ⟨-, rfl⟩ | ⟨-, rfl⟩
    · exact .inr (.inr (.inr rfl))
    · exact .inl ⟨_, rfl⟩
    · exact .inr (.inl rfl)
    · exact .inr (.inr (.inr rfl))
  obtain ⟨done, hdone, e, he, hrouses⟩ := hclaim .new (MwsrWaker.new.register ⟨1, 1⟩) oneRegistered
    (oneRegistered.wakeTo 0 .load) secondWoken ⟨1, 1⟩ 0 hnew rfl
    (hfirst.replay (fun _ _ _ hs => hs) (fun _ _ _ => trivial) oneRegistered_eq)
    (by decide +kernel) (by decide +kernel) rfl
    (hsecond.replay (fun _ _ _ hs => hs) (fun _ _ _ => trivial) hwoken) hended
  have hlog : secondWoken.log = [.wake (some 2) ⟨2, some 2⟩, .clone 2, .drop (some 1) ⟨1, some 1⟩,
      .clone 1] := by decide +kernel
  rw [hlog, show MwsrWaker.new.log = [] from rfl, List.append_nil] at hdone
  rw [← hdone] at he
  simp only [List.mem_cons, List.not_mem_nil, or_false] at he
  rcases he with rfl | rfl | rfl | rfl
  · exact absurd hrouses.2 (by decide)
  · exact hrouses
  · exact hrouses
  · exact hrouses

end Veloq.Waker
