import Veloq.Waker.Mwsr
import Veloq.Foundation.Custody
set_option autoImplicit false

/-!
# Waker: where the clones of a waker with one registrar are

The tag of the vtable is a lock between the registrar and the calls of `wake`.  Every clone
is registered, or in the hands of the registrar or of one `wake` call, or has been consumed;
wherever it is, vtable and data are those of one `register` call.
-/

namespace Veloq.Waker

open Veloq.Foundation

namespace RegisterPc

/-- The registrar has set the tag to `REGISTERING`, with this vtable. -/
def lockedFrom : RegisterPc → Option (Option Nat)
  | replace old | store old | publish old => some old
  | _ => none

/-- The registrar holds the lock. -/
def holding : RegisterPc → Bool
  | replace _ | store _ | publish _ | resetVtable => true
  | _ => false

/-- The slot is empty, and only the registrar can change that. -/
def alone : RegisterPc → Bool
  | directStore | directPublish | resetData | clearVtable | clearData | wakeOwn => true
  | _ => false

/-- The last call has not cloned its waker. -/
def unmade : RegisterPc → Bool
  | cachedVtable | cachedData _ | quick | load | directStore | acquire _ | replace _
  | store _ => true
  | _ => false

/-- What the registrar has in its hands: the waker it is about to drop, or its own clone. -/
def hand (pc : RegisterPc) (data : Slot) (own : Option Nat × Slot) : Option (Option Nat × Slot) :=
  match pc with
  | replace old => some (old, data)
  | directPublish | publish _ | resetVtable | resetData | clearVtable | clearData
  | wakeOwn => some own
  | _ => none

/-- The registrar is about to publish. -/
def publishing : RegisterPc → Bool
  | directPublish | publish _ => true
  | _ => false

/-- The registrar has yet to write the cached copy. -/
def caching : RegisterPc → Bool
  | cacheVtable | cacheData => true
  | _ => false

/-- The data matters only to a registrar that is about to drop what it has read. -/
theorem hand_data {pc : RegisterPc} (h : pc.holding = false) (data data' : Slot)
    (own : Option Nat × Slot) : pc.hand data own = pc.hand data' own := by
  cases pc <;> first | rfl | exact absurd h.symm Bool.false_ne_true

theorem holding_of_lockedFrom {pc : RegisterPc} {old : Option Nat} (h : pc.lockedFrom = some old) :
    pc.holding = true := by
  cases pc <;> first | rfl | exact absurd h.symm (Option.some_ne_none _)

end RegisterPc

namespace WakePc

/-- The `wake` call holds the lock. -/
def busy : WakePc → Bool
  | data _ | clear _ _ | reset _ _ => true
  | _ => false

/-- What the `wake` call has in its hands. -/
def hand (pc : WakePc) (data : Slot) : Option (Option Nat × Slot) :=
  match pc with
  | .data old => some (old, data)
  | clear old taken | reset old taken | wake old taken => some (old, taken)
  | _ => none

theorem hand_data {pc : WakePc} (h : pc.busy = false) (data data' : Slot) :
    pc.hand data = pc.hand data' := by
  cases pc <;> first | rfl | exact absurd h.symm Bool.false_ne_true

end WakePc

/-! ## The lock -/

structure MwsrLocked (word : Word) (pc : RegisterPc) (wakes : Nat → WakePc) : Prop where
  noop : word.tag = .idle → word.ptr = none
  free : word.tag = .idle ∨ word.tag = .registered → pc.holding = false
  registering : word.tag = .registering → pc.lockedFrom = some word.ptr
  waking : word.tag = .waking → pc.holding = true ∨ ∃ k, (wakes k).busy = true
  busy : ∀ k, (wakes k).busy = true → word.tag = .waking ∧ pc.holding = false
  apart : ∀ k l, (wakes k).busy = true → (wakes l).busy = true → k = l
  alone : pc.alone = true → word.tag = .idle

namespace MwsrLocked

variable {word word' : Word} {pc pc' : RegisterPc} {wakes wakes' : Nat → WakePc} {k : Nat}
  {old : Option Nat}

/-- The registrar goes on without the lock, or with it as before. -/
theorem keep (h : MwsrLocked word pc wakes) (hlocked : pc'.lockedFrom = pc.lockedFrom)
    (hholding : pc'.holding = pc.holding) (halone : pc'.alone = true → word.tag = .idle) :
    MwsrLocked word pc' wakes := by
  refine ⟨h.noop, ?_, ?_, ?_, ?_, h.apart, halone⟩
  · rw [hholding]
    exact h.free
  · rw [hlocked]
    exact h.registering
  · rw [hholding]
    exact h.waking
  · rw [hholding]
    exact h.busy

/-- The tag is `REGISTERING`, or a wake-up has come in between. -/
theorem tag_of_locked (h : MwsrLocked word pc wakes) (hpc : pc.lockedFrom = some old) :
    word = { ptr := old, tag := .registering } ∨ word.tag = .waking := by
  have hholding := RegisterPc.holding_of_lockedFrom hpc
  obtain ⟨ptr, tag⟩ := word
  cases tag with
  | idle =>
    rw [h.free (.inl rfl)] at hholding
    exact absurd hholding Bool.false_ne_true
  | registered =>
    rw [h.free (.inr rfl)] at hholding
    exact absurd hholding Bool.false_ne_true
  | registering =>
    have heq := (h.registering rfl).symm.trans hpc
    cases heq
    exact .inl rfl
  | waking => exact .inr rfl

theorem not_busy (h : MwsrLocked word pc wakes) (hword : word.tag ≠ .waking ∨ pc.holding = true)
    (k : Nat) : (wakes k).busy = false := by
  rw [Bool.eq_false_iff]
  intro hk
  obtain ⟨htag, hholding⟩ := h.busy k hk
  rcases hword with hne | hpc
  · exact hne htag
  · exact Bool.false_ne_true (hholding.symm.trans hpc)

/-- The registrar takes the lock. -/
theorem acquire (h : MwsrLocked word pc wakes) (htag : word.tag = .registered)
    (hpc' : pc'.lockedFrom = some word.ptr) (halone : pc'.alone = false) :
    MwsrLocked { word with tag := .registering } pc' wakes := by
  have hbusy := h.not_busy (.inl (by rw [htag]; exact Tag.noConfusion))
  refine ⟨Tag.noConfusion, ?_, fun _ => hpc', Tag.noConfusion, fun k hk => ?_, h.apart, fun ha => ?_⟩
  · rintro (hidle | hregistered)
    · exact Tag.noConfusion hidle
    · exact Tag.noConfusion hregistered
  · exact absurd (hk.symm.trans (hbusy k)) Bool.false_ne_true.symm
  · exact absurd (halone.symm.trans ha) Bool.false_ne_true

/-- The registrar publishes, or gives the lock back. -/
theorem publish (h : MwsrLocked word pc wakes) (hheld : word.tag ≠ .waking ∨ pc.holding = true)
    (hword : word' = .noop ∨ word'.tag = .registered ∧ pc'.alone = false)
    (hpc' : pc'.holding = false) : MwsrLocked word' pc' wakes := by
  have hbusy := h.not_busy hheld
  refine ⟨fun hidle => ?_, fun _ => hpc', fun htag => ?_, fun htag => ?_, fun k hk => ?_, h.apart,
    fun ha => ?_⟩
  · rcases hword with rfl | ⟨hregistered, -⟩
    · rfl
    · exact Tag.noConfusion (hidle.symm.trans hregistered)
  · rcases hword with rfl | ⟨hregistered, -⟩
    · exact Tag.noConfusion htag
    · exact Tag.noConfusion (htag.symm.trans hregistered)
  · rcases hword with rfl | ⟨hregistered, -⟩
    · exact Tag.noConfusion htag
    · exact Tag.noConfusion (htag.symm.trans hregistered)
  · exact absurd (hk.symm.trans (hbusy k)) Bool.false_ne_true.symm
  · rcases hword with rfl | ⟨-, hfalse⟩
    · rfl
    · exact absurd (hfalse.symm.trans ha) Bool.false_ne_true

/-- A wake-up has come in between, and the registrar is going to give the lock back. -/
theorem giveUp (h : MwsrLocked word pc wakes) (htag : word.tag = .waking)
    (hpc : pc.holding = true) (hpc' : pc'.holding = true) (halone : pc'.alone = false) :
    MwsrLocked word pc' wakes := by
  refine ⟨h.noop, fun hfree => ?_, fun hr => Tag.noConfusion (htag.symm.trans hr),
    fun _ => .inl hpc', fun k hk => ?_, h.apart, fun ha => ?_⟩
  · exact absurd ((h.free hfree).symm.trans hpc) Bool.false_ne_true
  · exact absurd ((h.not_busy (.inr hpc) k).symm.trans hk) Bool.false_ne_true
  · exact absurd (halone.symm.trans ha) Bool.false_ne_true

/-- A `wake` call goes on without the lock, or with it as before. -/
theorem wakeKeep (h : MwsrLocked word pc wakes) (hothers : ∀ l, l ≠ k → wakes' l = wakes l)
    (hbusy : (wakes' k).busy = (wakes k).busy) : MwsrLocked word pc wakes' := by
  have hsame : ∀ l, (wakes' l).busy = (wakes l).busy := by
    intro l
    rcases Classical.em (l = k) with rfl | hne
    · exact hbusy
    · rw [hothers l hne]
  refine ⟨h.noop, h.free, h.registering, fun htag => ?_, fun l hl => ?_, fun l m hl hm => ?_,
    h.alone⟩
  · exact (h.waking htag).imp id fun ⟨l, hl⟩ => ⟨l, (hsame l).trans hl⟩
  · exact h.busy l ((hsame l).symm.trans hl)
  · exact h.apart l m ((hsame l).symm.trans hl) ((hsame m).symm.trans hm)

/-- A wake-up falls into a registration. -/
theorem mark (h : MwsrLocked word pc wakes) (htag : word.tag = .registering) :
    MwsrLocked { word with tag := .waking } pc wakes := by
  have hholding := RegisterPc.holding_of_lockedFrom (h.registering htag)
  refine ⟨Tag.noConfusion, ?_, Tag.noConfusion, fun _ => .inl hholding, fun k hk => ?_, h.apart,
    fun ha => ?_⟩
  · rintro (hidle | hregistered)
    · exact Tag.noConfusion hidle
    · exact Tag.noConfusion hregistered
  · exact Tag.noConfusion (htag.symm.trans (h.busy k hk).1)
  · exact Tag.noConfusion (htag.symm.trans (h.alone ha))

/-- A `wake` call takes the lock. -/
theorem claim (h : MwsrLocked word pc wakes) (htag : word.tag = .registered)
    (hothers : ∀ l, l ≠ k → wakes' l = wakes l) (hbusy : (wakes' k).busy = true) :
    MwsrLocked { word with tag := .waking } pc wakes' := by
  have hnone := h.not_busy (.inl (by rw [htag]; exact Tag.noConfusion))
  have honly : ∀ l, (wakes' l).busy = true → l = k := by
    intro l hl
    by_contra hne
    rw [hothers l hne, hnone l] at hl
    exact Bool.false_ne_true hl
  refine ⟨Tag.noConfusion, ?_, Tag.noConfusion, fun _ => .inr ⟨k, hbusy⟩,
    fun l _ => ⟨rfl, h.free (.inr htag)⟩, fun l m hl hm => (honly l hl).trans (honly m hm).symm,
    fun ha => ?_⟩
  · rintro (hidle | hregistered)
    · exact Tag.noConfusion hidle
    · exact Tag.noConfusion hregistered
  · exact Tag.noConfusion (htag.symm.trans (h.alone ha))

/-- A `wake` call gives the lock back. -/
theorem release (h : MwsrLocked word pc wakes) (hk : (wakes k).busy = true)
    (hothers : ∀ l, l ≠ k → wakes' l = wakes l) (hk' : (wakes' k).busy = false) :
    MwsrLocked .noop pc wakes' := by
  have hnone : ∀ l, (wakes' l).busy = false := by
    intro l
    rcases Classical.em (l = k) with rfl | hne
    · exact hk'
    · rw [hothers l hne, Bool.eq_false_iff]
      exact fun hl => hne (h.apart l k hl hk)
  refine ⟨fun _ => rfl, fun _ => (h.busy k hk).2, Tag.noConfusion, Tag.noConfusion, fun l hl => ?_,
    fun l m hl => ?_, fun _ => rfl⟩
  · exact absurd ((hnone l).symm.trans hl) Bool.false_ne_true
  · exact absurd ((hnone l).symm.trans hl) Bool.false_ne_true

end MwsrLocked

/-! ## The clones -/

/-- Where a clone can be. -/
inductive Place where
  | slot
  | registrar
  | wake (k : Nat)
  deriving DecidableEq, Repr

/-- The clone that is consumed, if the call does that. -/
def VtableCall.consumes : VtableCall → Option Nat
  | wake _ data => data.clone
  | drop _ data => data.clone
  | clone _ => none
  | wakeByRef _ => none

namespace MwsrWaker

variable (s : MwsrWaker)

/-- The vtable and the data of the clone at a place. -/
def held : Place → Option (Option Nat × Slot)
  | .slot => if s.vtable.tag = .registered then some (s.vtable.ptr, s.data) else none
  | .registrar => s.pc.hand s.data (some s.waker.vtable, s.own)
  | .wake k => (s.wakes k).hand s.data

/-- The clone at a place. -/
def cloneAt (p : Place) : Option Nat := (s.held p).bind fun waker => waker.2.clone

/-- The clones that were consumed. -/
def consumed : List Nat := s.log.filterMap VtableCall.consumes

/-- The vtable and the data are those of the waker that one `register` call was given, whose
clone this is. -/
def Assembled (vtable : Option Nat) (data : Slot) : Prop :=
  ∃ g, 1 ≤ g ∧ g ≤ s.call ∧ data.clone = some g ∧ vtable = some (s.args g).vtable ∧
    data.ptr = (s.args g).data

/-- What was done was done to a waker that was registered. -/
def Sound : VtableCall → Prop
  | .clone g => 1 ≤ g ∧ g ≤ s.call
  | .wake vtable data => s.Assembled vtable data
  | .drop vtable data => s.Assembled vtable data
  | .wakeByRef w => ∃ g, 1 ≤ g ∧ g ≤ s.call ∧ w = s.args g

/-- Every clone is somewhere. -/
structure Ledger : Prop where
  custody : Custody s.cloneAt (fun g => .clone g ∈ s.log) s.consumed
  whole : ∀ p vtable data, s.held p = some (vtable, data) → s.Assembled vtable data
  sound : ∀ e ∈ s.log, s.Sound e

/-- The cached copy is that of the registered waker, once the registrar has written it. -/
structure Cached : Prop where
  agrees : s.vtable.tag = .registered → s.pc.caching = false →
    s.cachedVtable = s.vtable.ptr ∧ s.cachedData = s.data.ptr
  fresh : s.vtable.tag = .registered → s.pc.caching = true →
    s.vtable.ptr = some s.waker.vtable ∧ s.data.ptr = s.waker.data
  half : s.pc = .cacheData → s.cachedVtable = some s.waker.vtable
  looked : ∀ seen, s.pc = .cachedData seen → seen = s.cachedVtable
  hit : s.pc = .quick → s.cachedVtable = some s.waker.vtable ∧ s.cachedData = s.waker.data

structure Control : Prop where
  locked : MwsrLocked s.vtable s.pc s.wakes
  stored : s.pc.publishing = true → s.data = s.own
  unmade : s.pc.unmade = true → .clone s.call ∉ s.log
  begun : s.pc ≠ .idle → 1 ≤ s.call
  seen : ∀ seen, s.pc = .acquire seen → seen.tag = .registered
  marks : ∀ k seen, s.wakes k = .mark seen → seen.tag = .registering
  claims : ∀ k seen, s.wakes k = .claim seen → seen.tag = .registered
  cached : s.Cached

structure Inv : Prop where
  ledger : s.Ledger
  control : s.Control

/-! ## The ways of a clone -/

variable {s} {s' : MwsrWaker} {p q : Place} {vtable : Option Nat} {data : Slot}

theorem Assembled.congr (h : s.Assembled vtable data) (hcall : s.call ≤ s'.call)
    (hargs : ∀ g, g ≤ s.call → s'.args g = s.args g) : s'.Assembled vtable data := by
  obtain ⟨g, hpos, hle, hclone, hvtable, hdata⟩ := h
  rw [← hargs g hle] at hvtable hdata
  exact ⟨g, hpos, Nat.le_trans hle hcall, hclone, hvtable, hdata⟩

theorem Sound.congr {e : VtableCall} (h : s.Sound e) (hcall : s.call ≤ s'.call)
    (hargs : ∀ g, g ≤ s.call → s'.args g = s.args g) : s'.Sound e := by
  cases e with
  | clone g => exact ⟨h.1, Nat.le_trans h.2 hcall⟩
  | wake vtable data => exact Assembled.congr h hcall hargs
  | drop vtable data => exact Assembled.congr h hcall hargs
  | wakeByRef w =>
    obtain ⟨g, hpos, hle, hw⟩ := h
    exact ⟨g, hpos, Nat.le_trans hle hcall, hw.trans (hargs g hle).symm⟩

namespace Ledger

/-- Every clone stays where it is. -/
theorem same (h : s.Ledger) (hlog : s'.log = s.log) (hcall : s.call ≤ s'.call)
    (hargs : ∀ g, g ≤ s.call → s'.args g = s.args g) (hheld : ∀ r, s'.held r = s.held r) :
    s'.Ledger := by
  refine ⟨?_, fun r vtable data hr => ?_, fun e he => ?_⟩
  · unfold consumed
    rw [hlog]
    exact h.custody.congr fun r => congrArg (Option.bind · _) (hheld r)
  · exact (h.whole r vtable data (hheld r ▸ hr)).congr hcall hargs
  · exact (h.sound e (hlog ▸ he)).congr hcall hargs

/-- A clone goes from one place to another. -/
theorem move (h : s.Ledger) (hlog : s'.log = s.log) (hcall : s'.call = s.call)
    (hargs : s'.args = s.args) (hp : s.held p = some (vtable, data)) (hp' : s'.held p = none)
    (hq : s.held q = none) (hq' : s'.held q = some (vtable, data))
    (hothers : ∀ r, r ≠ p → r ≠ q → s'.held r = s.held r) : s'.Ledger := by
  have hwhole := h.whole p vtable data hp
  obtain ⟨g, -, -, hclone, -, -⟩ := h.whole p vtable data hp
  have hkeep : ∀ {v d}, s.Assembled v d → s'.Assembled v d := fun ha =>
    ha.congr (Nat.le_of_eq hcall.symm) fun g _ => congrFun hargs g
  refine ⟨?_, fun r v d hr => ?_, fun e he => ?_⟩
  · unfold consumed
    rw [hlog]
    refine h.custody.move (i := p) (j := q) (x := g) ?_ ?_ ?_ ?_ fun r hrp hrq =>
      congrArg (Option.bind · _) (hothers r hrp hrq)
    · rw [cloneAt, hp]
      exact hclone
    · rw [cloneAt, hp']
      rfl
    · rw [cloneAt, hq]
      rfl
    · rw [cloneAt, hq']
      exact hclone
  · rcases Classical.em (r = q) with rfl | hrq
    · cases hq'.symm.trans hr
      exact hkeep hwhole
    · rcases Classical.em (r = p) with rfl | hrp
      · exact absurd (hp'.symm.trans hr).symm (Option.some_ne_none _)
      · exact hkeep (h.whole r v d (hothers r hrp hrq ▸ hr))
  · exact (h.sound e (hlog ▸ he)).congr (Nat.le_of_eq hcall.symm) fun g _ => congrFun hargs g

/-- A clone is woken or dropped. -/
theorem spend (h : s.Ledger) {e : VtableCall}
    (he : e = .wake vtable data ∨ e = .drop vtable data) (hlog : s'.log = e :: s.log)
    (hcall : s'.call = s.call) (hargs : s'.args = s.args)
    (hp : s.held p = some (vtable, data)) (hp' : s'.held p = none)
    (hothers : ∀ r, r ≠ p → s'.held r = s.held r) : s'.Ledger := by
  have hwhole := h.whole p vtable data hp
  obtain ⟨g, -, -, hclone, -, -⟩ := h.whole p vtable data hp
  have hkeep : ∀ {v d}, s.Assembled v d → s'.Assembled v d := fun ha =>
    ha.congr (Nat.le_of_eq hcall.symm) fun g _ => congrFun hargs g
  have hmade : ∀ g, VtableCall.clone g ∈ s'.log ↔ VtableCall.clone g ∈ s.log := by
    intro g
    rw [hlog, List.mem_cons]
    rcases he with rfl | rfl
    · exact ⟨fun hor => hor.resolve_left VtableCall.noConfusion, .inr⟩
    · exact ⟨fun hor => hor.resolve_left VtableCall.noConfusion, .inr⟩
  have hconsumed : s'.consumed = g :: s.consumed := by
    unfold consumed
    rw [hlog, List.filterMap_cons_some]
    rcases he with rfl | rfl
    · exact hclone
    · exact hclone
  refine ⟨?_, fun r v d hr => ?_, fun e' he' => ?_⟩
  · rw [hconsumed]
    simp only [hmade]
    refine h.custody.spend (i := p) (x := g) ?_ ?_ fun r hr =>
      congrArg (Option.bind · _) (hothers r hr)
    · rw [cloneAt, hp]
      exact hclone
    · rw [cloneAt, hp']
      rfl
  · rcases Classical.em (r = p) with rfl | hrp
    · exact absurd (hp'.symm.trans hr).symm (Option.some_ne_none _)
    · exact hkeep (h.whole r v d (hothers r hrp ▸ hr))
  · rw [hlog] at he'
    rcases List.mem_cons.mp he' with rfl | hmem
    · rcases he with rfl | rfl
      · exact hkeep hwhole
      · exact hkeep hwhole
    · exact (h.sound e' hmem).congr (Nat.le_of_eq hcall.symm) fun g _ => congrFun hargs g

/-- The registrar clones the waker it was given. -/
theorem make (h : s.Ledger) (hbegun : 1 ≤ s.call) (hunmade : .clone s.call ∉ s.log)
    (hlog : s'.log = .clone s.call :: s.log) (hcall : s'.call = s.call) (hargs : s'.args = s.args)
    (hp : s.held .registrar = none)
    (hp' : s'.held .registrar = some (some s.waker.vtable, s.own))
    (hothers : ∀ r, r ≠ .registrar → s'.held r = s.held r) : s'.Ledger := by
  have hkeep : ∀ {v d}, s.Assembled v d → s'.Assembled v d := fun ha =>
    ha.congr (Nat.le_of_eq hcall.symm) fun g _ => congrFun hargs g
  refine ⟨?_, fun r v d hr => ?_, fun e he => ?_⟩
  · unfold consumed
    rw [hlog, List.filterMap_cons_none rfl]
    refine h.custody.make (i := .registrar) hunmade ?_ ?_ (fun r hr =>
      congrArg (Option.bind · _) (hothers r hr)) fun g => ?_
    · rw [cloneAt, hp]
      rfl
    · rw [cloneAt, hp']
      rfl
    · rw [List.mem_cons, VtableCall.clone.injEq]
  · rcases Classical.em (r = .registrar) with rfl | hr'
    · cases hp'.symm.trans hr
      exact hkeep ⟨s.call, hbegun, Nat.le_refl _, rfl, rfl, rfl⟩
    · exact hkeep (h.whole r v d (hothers r hr' ▸ hr))
  · rw [hlog] at he
    rcases List.mem_cons.mp he with rfl | hmem
    · exact ⟨hbegun, Nat.le_of_eq hcall.symm⟩
    · exact (h.sound e hmem).congr (Nat.le_of_eq hcall.symm) fun g _ => congrFun hargs g

/-- A waker is woken without its clone. -/
theorem byRef (h : s.Ledger) (hbegun : 1 ≤ s.call)
    (hlog : s'.log = .wakeByRef s.waker :: s.log) (hcall : s'.call = s.call)
    (hargs : s'.args = s.args) (hheld : ∀ r, s'.held r = s.held r) : s'.Ledger := by
  have hmade : ∀ g, VtableCall.clone g ∈ s'.log ↔ VtableCall.clone g ∈ s.log := by
    intro g
    rw [hlog, List.mem_cons]
    exact ⟨fun hor => hor.resolve_left VtableCall.noConfusion, .inr⟩
  refine ⟨?_, fun r v d hr => ?_, fun e he => ?_⟩
  · unfold consumed
    simp only [hmade]
    rw [hlog, List.filterMap_cons_none rfl]
    exact h.custody.congr fun r => congrArg (Option.bind · _) (hheld r)
  · exact (h.whole r v d (hheld r ▸ hr)).congr (Nat.le_of_eq hcall.symm) fun g _ => congrFun hargs g
  · rw [hlog] at he
    rcases List.mem_cons.mp he with rfl | hmem
    · exact ⟨s.call, hbegun, Nat.le_of_eq hcall.symm, (congrFun hargs s.call).symm⟩
    · exact (h.sound e hmem).congr (Nat.le_of_eq hcall.symm) fun g _ => congrFun hargs g

end Ledger

end MwsrWaker

end Veloq.Waker
