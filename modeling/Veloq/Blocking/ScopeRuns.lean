import Veloq.Blocking.Scope
set_option autoImplicit false

/-!
# Blocking: when a scope outlives its threads

`num_running_threads` counts the threads that have not been through the guard of their closure.
What a thread does after that is not counted: it stores its result and releases the state that it
shares with its handle, and if the handle is gone the result is dropped there, maybe after the
scope has returned.
-/

namespace Veloq.Blocking

open Veloq.Foundation

namespace ScopedThread

variable {r : ScopedThread}

/-- The thread is in `num_running_threads`. -/
def counts (r : ScopedThread) : Bool :=
  match r.pc with
  | .counted | .running | .report | .decrement _ => true
  | .fresh | .failed | .wake _ | .store _ | .status _ | .release _ | .exited _ => false

def handleRefs (r : ScopedThread) : Nat := if r.handle = .held then 1 else 0

/-- The stage of a value that there is only if the closure has returned. -/
def valueIf (o : Outcome) (stage : ValueStage) : ValueStage :=
  if o = .returned then stage else .absent

/-- The thread has its reference to the shared state. -/
structure Shares (r : ScopedThread) (value : ValueStage) : Prop where
  handle : r.handle = .held ∨ r.handle = .dropped
  refs : r.refs = 1 + r.handleRefs
  value : r.value = value
  result : r.result = none

/-- The thread is gone. -/
structure Gone (r : ScopedThread) (o : Outcome) : Prop where
  finished : r.finished = true
  refs : r.refs = r.handleRefs
  held : r.handle = .held → r.value = valueIf o .stored ∧ r.result = none
  dropped : r.handle = .dropped → r.value = valueIf o .dropped ∧ r.result = none
  joined : r.handle = .joined → r.value = valueIf o .handedOut ∧
    (o = .returned → r.result = some .ok) ∧
      (o = .panicked → ∃ payload, r.result = some (.err payload))
  created : r.handle ≠ .absent

/-- What the fields of a thread have to do with each other. -/
def OkAt (r : ScopedThread) : ScopedPc → Prop
  | .fresh | .counted | .failed => r.handle = .absent ∧ r.value = .absent ∧ r.result = none
  | .running | .report => r.Shares .absent
  | .decrement o | .wake o | .store o => r.Shares (valueIf o .moving)
  | .status o => r.Shares (valueIf o .stored)
  | .release o => r.Shares (valueIf o .stored) ∧ r.finished = true
  | .exited o => r.Gone o

def Ok (r : ScopedThread) : Prop := r.OkAt r.pc

/-! ## The steps of one thread -/

theorem Shares.congr {r' : ScopedThread} {value : ValueStage} (h : r.Shares value)
    (hhandle : r'.handle = r.handle) (hrefs : r'.refs = r.refs) (hvalue : r'.value = r.value)
    (hresult : r'.result = r.result) : r'.Shares value :=
  ⟨hhandle ▸ h.handle, by rw [hrefs, h.refs, handleRefs, handleRefs, hhandle], hvalue.trans h.value,
    hresult.trans h.result⟩

/-- The handle goes while the thread has its reference: the value stays where it is. -/
theorem Shares.dropHandle {value : ValueStage} (h : r.Shares value) (hheld : r.handle = .held) :
    Shares { r.releaseState with handle := .dropped } value := by
  have hrefs : r.refs = 2 := by rw [h.refs, handleRefs, if_pos hheld]
  refine ⟨.inr rfl, ?_, ?_, h.result⟩
  · show r.refs - 1 = 1 + 0
    rw [hrefs]
  · show (if r.refs = 1 ∧ r.value = .stored then ValueStage.dropped else r.value) = value
    rw [hrefs, if_neg (by simp), h.value]

/-- The thread releases the shared state, and is the last to do so if its handle is gone. -/
theorem Shares.release {o : Outcome} (h : r.Shares (valueIf o .stored)) (hfin : r.finished = true) :
    Gone { r.releaseState with pc := .exited o } o := by
  rcases h.handle with hheld | hdropped
  · have hrefs : r.refs = 2 := by rw [h.refs, handleRefs, if_pos hheld]
    refine ⟨hfin, ?_, fun _ => ⟨?_, h.result⟩, fun hd => ?_, fun hj => ?_, fun ha => ?_⟩
    · show r.refs - 1 = if r.handle = .held then 1 else 0
      rw [hrefs, if_pos hheld]
    · show (if r.refs = 1 ∧ r.value = .stored then ValueStage.dropped else r.value) = _
      rw [hrefs, if_neg (by simp), h.value]
    · exact absurd (hheld.symm.trans hd) (by simp)
    · exact absurd (hheld.symm.trans hj) (by simp)
    · exact absurd (hheld.symm.trans ha) (by simp)
  · have hrefs : r.refs = 1 := by
      rw [h.refs, handleRefs, if_neg (by rw [hdropped]; simp)]
    refine ⟨hfin, ?_, fun hh => ?_, fun _ => ⟨?_, h.result⟩, fun hj => ?_, fun ha => ?_⟩
    · show r.refs - 1 = if r.handle = .held then 1 else 0
      rw [hrefs, if_neg (by rw [hdropped]; simp)]
    · exact absurd (hdropped.symm.trans hh) (by simp)
    · show (if r.refs = 1 ∧ r.value = .stored then ValueStage.dropped else r.value) = _
      rw [hrefs, h.value]
      cases o <;> rfl
    · exact absurd (hdropped.symm.trans hj) (by simp)
    · exact absurd (hdropped.symm.trans ha) (by simp)

/-- The handle of a thread that is gone is dropped. -/
theorem Gone.dropHandle {o : Outcome} (h : r.Gone o) (hheld : r.handle = .held) :
    Gone { r.releaseState with handle := .dropped } o := by
  have hrefs : r.refs = 1 := by rw [h.refs, handleRefs, if_pos hheld]
  obtain ⟨hvalue, hresult⟩ := h.held hheld
  refine ⟨h.finished, ?_, fun hh => ?_, fun _ => ⟨?_, hresult⟩, fun hj => ?_, fun ha => ?_⟩
  · show r.refs - 1 = 0
    rw [hrefs]
  · cases hh
  · show (if r.refs = 1 ∧ r.value = .stored then ValueStage.dropped else r.value) = _
    rw [hrefs, hvalue]
    cases o <;> rfl
  · cases hj
  · cases ha

/-- A thread that is gone is joined. -/
theorem Gone.join {o : Outcome} {result : JoinResult} (h : r.Gone o) (hheld : r.handle = .held)
    (hok : o = .returned → result = .ok) (herr : o = .panicked → ∃ payload, result = .err payload) :
    Gone { r.takeValue.releaseState with handle := .joined, result := some result } o := by
  have hrefs : r.refs = 1 := by rw [h.refs, handleRefs, if_pos hheld]
  obtain ⟨hvalue, _⟩ := h.held hheld
  refine ⟨h.finished, ?_, fun hh => ?_, fun hd => ?_, fun _ => ⟨?_, fun ho => ?_, fun ho => ?_⟩,
    fun ha => ?_⟩
  · show r.refs - 1 = 0
    rw [hrefs]
  · cases hh
  · cases hd
  · show (if r.refs = 1 ∧ r.takeValue.value = .stored then ValueStage.dropped
      else r.takeValue.value) = _
    unfold takeValue
    rw [hrefs, hvalue]
    cases o <;> rfl
  · rw [hok ho]
  · obtain ⟨payload, hp⟩ := herr ho
    exact ⟨payload, by rw [hp]⟩
  · cases ha

/-- Only a handle that is held can be dropped, and the rest stays in order. -/
theorem Ok.dropHandle (h : r.Ok) (hheld : r.handle = .held) :
    Ok { r.releaseState with handle := .dropped } := by
  unfold Ok at h
  show OkAt _ r.pc
  cases hpc : r.pc with
  | fresh | counted | failed =>
      rw [hpc] at h
      exact absurd (h.1.symm.trans hheld) (by simp)
  | running | report | decrement o | wake o | store o | status o =>
      rw [hpc] at h
      exact Shares.dropHandle h hheld
  | release o =>
      rw [hpc] at h
      exact ⟨h.1.dropHandle hheld, h.2⟩
  | exited o =>
      rw [hpc] at h
      exact Gone.dropHandle h hheld

end ScopedThread

namespace ThreadScope

variable {s s' : ThreadScope} {e : ScopeEvent} {t : Nat} {r : ScopedThread}

/-- What holds in every state as long as the counter has room. -/
structure Inv (s : ThreadScope) : Prop where
  records : ∀ t, (s.threads t).Ok
  running : ∃ n, Census (fun t => (s.threads t).counts = true) n ∧ s.numRunning.toNat = n
  spawning : ∀ t, (s.threads t).pc = .counted ↔ s.owner = .spawning t
  drained : s.owner = .pop ∨ s.owner = .done → ∀ t, (s.threads t).counts = false

/-- A step touches at most the thread `t`, and the counter as much as that takes. -/
structure Touches (s s' : ThreadScope) (t : Nat) (r : ScopedThread) : Prop where
  threads : s'.threads = Function.update s.threads t r
  record : r.Ok
  running : s'.numRunning.toNat + (s.threads t).counts.toNat =
    s.numRunning.toNat + r.counts.toNat
  self : r.pc = .counted ↔ s'.owner = .spawning t
  others : ∀ u, u ≠ t → (s'.owner = .spawning u ↔ s.owner = .spawning u)
  drained : s'.owner = .pop ∨ s'.owner = .done →
    (s.owner = .pop ∨ s.owner = .done) ∧ ((s.threads t).counts = false → r.counts = false)

theorem Touches.inv (htouch : Touches s s' t r) (h : Inv s) : Inv s' := by
  have hself : s'.threads t = r := by
    rw [htouch.threads]
    exact Function.update_self ..
  have hother : ∀ u, u ≠ t → s'.threads u = s.threads u := fun u hu => by
    rw [htouch.threads]
    exact Function.update_of_ne hu ..
  refine ⟨fun u => ?_, ?_, fun u => ?_, fun hover u => ?_⟩
  · by_cases hu : u = t
    · rw [hu, hself]
      exact htouch.record
    · rw [hother u hu]
      exact h.records u
  · obtain ⟨n, hcensus, hnum⟩ := h.running
    obtain ⟨m, hcensus', hcount⟩ := hcensus.update (p := ScopedThread.counts) t r
    have hbalance := htouch.running
    exact ⟨m, htouch.threads ▸ hcensus', by omega⟩
  · by_cases hu : u = t
    · rw [hu, hself]
      exact htouch.self
    · rw [hother u hu, htouch.others u hu]
      exact h.spawning u
  · obtain ⟨hover', hkept⟩ := htouch.drained hover
    by_cases hu : u = t
    · rw [hu, hself]
      exact hkept (h.drained hover' t)
    · rw [hother u hu]
      exact h.drained hover' u

theorem Inv.new : Inv new := by
  refine ⟨fun t => ⟨rfl, rfl, rfl⟩, ⟨0, Census.zero fun t => ?_, rfl⟩, fun t => ?_, fun h => ?_⟩
  · exact Bool.false_ne_true
  · exact ⟨fun h => (by cases h), fun h => (by cases h)⟩
  · rcases h with h | h <;> cases h

/-- A step of a thread that changes neither the counter nor the owner. -/
theorem Inv.setThread (h : Inv s) (hrecord : r.Ok) (hcounts : r.counts = (s.threads t).counts)
    (hpc : r.pc = .counted ↔ (s.threads t).pc = .counted) : Inv (s.setThread t r) := by
  refine Touches.inv (s := s) (t := t) (r := r) ⟨rfl, hrecord, ?_, ?_, fun _ _ => Iff.rfl,
    fun hover => ⟨hover, fun hf => ?_⟩⟩ h
  · rw [hcounts]
    rfl
  · rw [hpc]
    exact h.spawning t
  · rw [hcounts, hf]

/-- A counted thread is behind the counter. -/
theorem Inv.numRunning_pos (h : Inv s) (hcounts : (s.threads t).counts = true) :
    0 < s.numRunning.toNat := by
  obtain ⟨n, hcensus, hnum⟩ := h.running
  have := hcensus.pos (i := t) hcounts
  omega

theorem Inv.counts_eq_false (h : Inv s) (hzero : s.numRunning = 0) (t : Nat) :
    (s.threads t).counts = false := by
  by_contra hcounts
  have hpos := h.numRunning_pos (t := t) (eq_true_of_ne_false hcounts)
  rw [hzero] at hpos
  exact absurd hpos (by decide)

/-- A step that touches no thread. -/
theorem Inv.ownerStep (h : Inv s) (hthreads : s'.threads = s.threads)
    (hnum : s'.numRunning = s.numRunning)
    (howner : ∀ u, s'.owner = .spawning u ↔ s.owner = .spawning u)
    (hover : s'.owner = .pop ∨ s'.owner = .done → ∀ t, (s.threads t).counts = false) : Inv s' := by
  refine ⟨fun t => ?_, ?_, fun t => ?_, fun ho t => ?_⟩
  · rw [hthreads]
    exact h.records t
  · rw [hthreads, hnum]
    exact h.running
  · rw [hthreads, howner]
    exact h.spawning t
  · rw [hthreads]
    exact hover ho t

theorem wakeOwner_threads : s.wakeOwner.threads = s.threads := by
  unfold wakeOwner
  split <;> rfl

theorem wakeOwner_numRunning : s.wakeOwner.numRunning = s.numRunning := by
  unfold wakeOwner
  split <;> rfl

theorem wakeOwner_panics : s.wakeOwner.panics = s.panics := by
  unfold wakeOwner
  split <;> rfl

theorem wakeOwner_spawning (u : Nat) :
    s.wakeOwner.owner = .spawning u ↔ s.owner = .spawning u := by
  unfold wakeOwner
  split
  · rename_i hasleep
    rw [hasleep]
    exact ⟨fun h => (by cases h), fun h => (by cases h)⟩
  · rfl

theorem wakeOwner_over (h : s.wakeOwner.owner = .pop ∨ s.wakeOwner.owner = .done) :
    s.owner = .pop ∨ s.owner = .done := by
  unfold wakeOwner at h
  split at h
  · rcases h with h | h <;> cases h
  · exact h

theorem toNat_sub_one {n : UInt32} (h : 0 < n.toNat) : (n - 1).toNat + 1 = n.toNat := by
  rw [UInt32.toNat_sub_of_le n 1 (UInt32.le_iff_toNat_le.mpr h)]
  exact Nat.sub_add_cancel h

namespace Inv

/-- The record of a thread whose place is known. -/
theorem okAt {pc : ScopedPc} (h : Inv s) (hpc : (s.threads t).pc = pc) :
    (s.threads t).OkAt pc := hpc ▸ h.records t

/-- A thread goes on from a known place, and is counted as before. -/
theorem moves {pc : ScopedPc} (h : Inv s) (hpc : (s.threads t).pc = pc) (hrecord : r.Ok)
    (hcounts : r.counts = ScopedThread.counts { s.threads t with pc := pc }) (hne : pc ≠ .counted)
    (hne' : r.pc ≠ .counted) : Inv (s.setThread t r) := by
  refine h.setThread hrecord (hcounts.trans ?_) (iff_of_false hne' (hpc ▸ hne))
  rw [← hpc]

theorem advance (h : Inv s) (hs : s.advance t = some s') : Inv s' := by
  unfold ThreadScope.advance at hs
  simp only at hs
  split at hs
  · rename_i hpc
    cases hs
    split
    · have hmoved : Inv (s.goto t (.decrement .panicked)) :=
        h.moves hpc (ScopedThread.Shares.congr (h.okAt hpc) rfl rfl rfl rfl) rfl (by simp) (by simp)
      exact hmoved.ownerStep rfl rfl (fun _ => Iff.rfl) hmoved.drained
    · exact h.moves hpc (ScopedThread.Shares.congr (h.okAt hpc) rfl rfl rfl rfl) rfl (by simp)
        (by simp)
  · rename_i o hpc
    cases hs
    have hcounts : (s.threads t).counts = true := by
      unfold ScopedThread.counts
      rw [hpc]
    have hnot : ∀ q, q = ScopedPc.wake o ∨ q = .store o →
        ScopedThread.Ok { s.threads t with pc := q } ∧
          ScopedThread.counts { s.threads t with pc := q } = false ∧ q ≠ .counted := by
      rintro q (rfl | rfl)
      · exact ⟨ScopedThread.Shares.congr (h.okAt hpc) rfl rfl rfl rfl, rfl, by simp⟩
      · exact ⟨ScopedThread.Shares.congr (h.okAt hpc) rfl rfl rfl rfl, rfl, by simp⟩
    obtain ⟨hok, hnocount, hne⟩ := hnot (if s.numRunning = 1 then .wake o else .store o)
      (by split <;> simp)
    refine Touches.inv (s := s) (t := t) ⟨rfl, hok, ?_, ?_, fun _ _ => Iff.rfl,
      fun hover => ⟨hover, fun _ => hnocount⟩⟩ h
    · rw [hcounts, hnocount]
      exact toNat_sub_one (h.numRunning_pos hcounts)
    · refine iff_of_false hne fun hspawn => ?_
      rw [(h.spawning t).mpr hspawn] at hpc
      cases hpc
  · rename_i o hpc
    cases hs
    have hok : ScopedThread.Ok { s.threads t with pc := .store o } :=
      ScopedThread.Shares.congr (h.okAt hpc) rfl rfl rfl rfl
    have hwoken : Inv s.wakeOwner :=
      h.ownerStep wakeOwner_threads wakeOwner_numRunning wakeOwner_spawning
        fun hover => h.drained (wakeOwner_over hover)
    unfold goto
    rw [wakeOwner_threads]
    exact hwoken.moves (by rw [wakeOwner_threads, hpc]) hok rfl (by simp) (by simp)
  · rename_i o hpc
    cases hs
    have hshares : (s.threads t).Shares (ScopedThread.valueIf o .moving) := h.okAt hpc
    refine h.moves hpc ⟨hshares.handle, hshares.refs, ?_, hshares.result⟩ rfl (by simp) (by simp)
    show (if o = .returned then ValueStage.stored else (s.threads t).value) = _
    rw [hshares.value]
    cases o <;> rfl
  · rename_i o hpc
    cases hs
    exact h.moves hpc ⟨ScopedThread.Shares.congr (h.okAt hpc) rfl rfl rfl rfl, rfl⟩ rfl (by simp)
      (by simp)
  · rename_i o hpc
    cases hs
    obtain ⟨hshares, hfin⟩ := h.okAt hpc
    exact h.moves hpc (hshares.release hfin) rfl (by simp) (by simp)
  · cases hs
  · cases hs
  · cases hs
  · cases hs
  · cases hs

/-- The closure of a thread ends. -/
theorem finish {o : Outcome} (h : Inv s) (hs : s.step (.finish t o) = some s') : Inv s' := by
  obtain ⟨hpc, hs⟩ := Option.ite_none_right_eq_some.mp hs
  cases hs
  have hshares : (s.threads t).Shares .absent := h.okAt hpc
  cases o with
  | returned =>
      exact h.moves hpc (r := { s.threads t with pc := .decrement .returned, value := .moving })
        ⟨hshares.handle, hshares.refs, rfl, hshares.result⟩ rfl (by simp) (by simp)
  | panicked =>
      exact h.moves hpc (r := { s.threads t with pc := .report, value := .absent })
        ⟨hshares.handle, hshares.refs, rfl, hshares.result⟩ rfl (by simp) (by simp)

/-- The owner joins a thread that has ended. -/
theorem join (h : Inv s) (hs : s.join t = some s') : Inv s' := by
  unfold ThreadScope.join at hs
  simp only at hs
  split at hs
  · rename_i o hpc
    obtain ⟨⟨hheld, _⟩, hs⟩ := Option.ite_none_right_eq_some.mp hs
    have hgone : (s.threads t).Gone o := h.okAt hpc
    cases o with
    | returned =>
        cases hs
        refine h.setThread ?_ rfl Iff.rfl
        show ScopedThread.OkAt _ (s.threads t).pc
        rw [hpc]
        exact hgone.join hheld (fun _ => rfl) fun ho => by cases ho
    | panicked =>
        cases hs
        have hjoined : Inv (s.setThread t
            { (s.threads t).takeValue.releaseState with
              handle := .joined
              result := some (.err s.panics) }) := by
          refine h.setThread ?_ rfl Iff.rfl
          show ScopedThread.OkAt _ (s.threads t).pc
          rw [hpc]
          exact hgone.join hheld (fun ho => by cases ho) fun _ => ⟨_, rfl⟩
        exact hjoined.ownerStep rfl rfl (fun _ => Iff.rfl) hjoined.drained
  · cases hs

theorem dropHandle (h : Inv s) (hs : s.dropHandle t = some s') : Inv s' := by
  unfold ThreadScope.dropHandle at hs
  obtain ⟨hheld, hs⟩ := Option.ite_none_right_eq_some.mp hs
  cases hs
  exact h.setThread ((h.records t).dropHandle hheld) rfl Iff.rfl

theorem spawn (h : Inv s) (hbody : s.owner = .body) (hroom : s.numRunning.toNat + 1 < 2 ^ 32)
    (hfresh : (s.threads t).pc = .fresh) :
    Inv { s.goto t .counted with numRunning := s.numRunning + 1, owner := .spawning t } := by
  have hok : (s.threads t).OkAt .fresh := h.okAt hfresh
  have hnocount : (s.threads t).counts = false := by
    unfold ScopedThread.counts
    rw [hfresh]
  refine Touches.inv (s := s) (t := t) ⟨rfl, hok, ?_, iff_of_true rfl rfl, fun u hu => ?_,
    fun hover => ?_⟩ h
  · rw [hnocount]
    show (s.numRunning + 1).toNat + 0 = s.numRunning.toNat + 1
    rw [UInt32.toNat_add]
    exact Nat.mod_eq_of_lt hroom
  · rw [hbody]
    exact ⟨fun hs => absurd (OwnerPc.spawning.inj hs).symm hu, fun hs => (by cases hs)⟩
  · rcases hover with hover | hover <;> cases hover

theorem create (h : Inv s) (hspawn : s.owner = .spawning t) :
    Inv { s.setThread t { s.threads t with pc := .running, handle := .held, refs := 2 } with
      owner := .body } := by
  have hpc := (h.spawning t).mpr hspawn
  obtain ⟨_, hvalue, hresult⟩ := h.okAt hpc
  have hcounts : (s.threads t).counts = true := by
    unfold ScopedThread.counts
    rw [hpc]
  refine Touches.inv (s := s) (t := t) ⟨rfl, ⟨.inl rfl, rfl, hvalue, hresult⟩, ?_, ?_,
    fun u hu => ?_, fun hover => ?_⟩ h
  · rw [hcounts]
    rfl
  · exact ⟨fun hf => (by cases hf), fun hf => (by cases hf)⟩
  · rw [hspawn]
    exact ⟨fun hf => (by cases hf), fun hf => absurd (OwnerPc.spawning.inj hf).symm hu⟩
  · rcases hover with hover | hover <;> cases hover

theorem createFail (h : Inv s) (hspawn : s.owner = .spawning t) :
    Inv { s.goto t .failed with numRunning := s.numRunning - 1, owner := .body } := by
  have hpc := (h.spawning t).mpr hspawn
  have hok : (s.threads t).OkAt .counted := h.okAt hpc
  have hcounts : (s.threads t).counts = true := by
    unfold ScopedThread.counts
    rw [hpc]
  refine Touches.inv (s := s) (t := t) ⟨rfl, hok, ?_, ?_, fun u hu => ?_, fun hover => ?_⟩ h
  · rw [hcounts]
    exact toNat_sub_one (h.numRunning_pos hcounts)
  · exact ⟨fun hf => (by cases hf), fun hf => (by cases hf)⟩
  · rw [hspawn]
    exact ⟨fun hf => (by cases hf), fun hf => absurd (OwnerPc.spawning.inj hf).symm hu⟩
  · rcases hover with hover | hover <;> cases hover

theorem stepOwner (h : Inv s) (hs : s.stepOwner = some s') : Inv s' := by
  unfold ThreadScope.stepOwner at hs
  split at hs
  · rename_i hload
    cases hs
    refine h.ownerStep rfl rfl (fun u => ?_) fun hover => ?_
    · rw [hload]
      refine iff_of_false ?_ (by simp)
      show ¬ (if s.numRunning = 0 then if s.bodyPanicked then OwnerPc.done else .pop
        else .wait s.numRunning) = .spawning u
      split
      · split <;> simp
      · simp
    · by_cases hzero : s.numRunning = 0
      · exact h.counts_eq_false hzero
      · simp only [if_neg hzero] at hover
        rcases hover with hover | hover <;> cases hover
  · rename_i val hwait
    cases hs
    refine h.ownerStep rfl rfl (fun u => ?_) fun hover => ?_
    · rw [hwait]
      refine iff_of_false ?_ (by simp)
      show ¬ (if s.numRunning = val then OwnerPc.asleep else .load) = .spawning u
      split <;> simp
    · simp only at hover
      split at hover <;> rcases hover with hover | hover <;> cases hover
  · rename_i hpop
    cases hs
    exact h.ownerStep rfl rfl (fun u => by rw [hpop]; simp) fun _ => h.drained (.inl hpop)
  · cases hs
  · cases hs
  · cases hs
  · cases hs

/-- Every step keeps the invariant as long as the counter has room. -/
theorem step (h : Inv s) (hroom : s.HasRoom e) (hs : ScopeStep s e s') : Inv s' := by
  unfold ScopeStep at hs
  cases e with
  | spawn t =>
      obtain ⟨hbody, hs⟩ := Option.ite_none_right_eq_some.mp hs
      obtain ⟨hfresh, hs⟩ := Option.ite_none_right_eq_some.mp hs
      cases hs
      exact h.spawn hbody hroom hfresh
  | create =>
      simp only [ThreadScope.step] at hs
      split at hs
      · rename_i t hspawn
        cases hs
        exact h.create hspawn
      · cases hs
  | createFail =>
      simp only [ThreadScope.step] at hs
      split at hs
      · rename_i t hspawn
        cases hs
        exact h.createFail hspawn
      · cases hs
  | join t => exact h.join (Option.ite_none_right_eq_some.mp hs).2
  | dropHandle t => exact h.dropHandle (Option.ite_none_right_eq_some.mp hs).2
  | bodyReturn | bodyPanic =>
      obtain ⟨hbody, hs⟩ := Option.ite_none_right_eq_some.mp hs
      cases hs
      refine h.ownerStep rfl rfl (fun u => by rw [hbody]; simp) fun hover => ?_
      rcases hover with hover | hover <;> cases hover
  | owner => exact h.stepOwner hs
  | interrupt =>
      obtain ⟨hasleep, hs⟩ := Option.ite_none_right_eq_some.mp hs
      cases hs
      refine h.ownerStep rfl rfl (fun u => by rw [hasleep]; simp) fun hover => ?_
      rcases hover with hover | hover <;> cases hover
  | finish t o => exact h.finish hs
  | advance t => exact h.advance hs

end Inv

/-! ## After the wait -/

/-- The owner has found that no thread is running. -/
def Over (s : ThreadScope) : Prop := s.owner = .pop ∨ s.owner = .done

/-- What a thread that is past its closure does not change any more. -/
structure Settled (r r' : ScopedThread) : Prop where
  outcome : r'.pc.outcome = r.pc.outcome
  spawned : r'.pc.spawned = r.pc.spawned
  handle : r'.handle = r.handle
  result : r'.result = r.result
  exited : ∀ o, r.pc = .exited o → r' = r

namespace Settled

theorem same : Settled r r := ⟨rfl, rfl, rfl, rfl, fun _ _ => rfl⟩

/-- A thread goes on from a known place. -/
theorem of_pc {r' : ScopedThread} {pc : ScopedPc} (hpc : r.pc = pc)
    (houtcome : r'.pc.outcome = pc.outcome) (hspawned : r'.pc.spawned = pc.spawned)
    (hhandle : r'.handle = r.handle) (hresult : r'.result = r.result)
    (hne : ∀ o, pc ≠ .exited o) : Settled r r' := by
  subst hpc
  exact ⟨houtcome, hspawned, hhandle, hresult, fun o ho => absurd ho (hne o)⟩

theorem setThread (hr : Settled (s.threads t) r) (u : Nat) :
    Settled (s.threads u) ((s.setThread t r).threads u) := by
  by_cases hu : u = t
  · rw [hu, show (s.setThread t r).threads t = r from Function.update_self ..]
    exact hr
  · rw [show (s.setThread t r).threads u = s.threads u from Function.update_of_ne hu ..]
    exact same

end Settled

/-- A thread that goes on after its closure keeps what has become of the closure. -/
theorem settled_of_advance (hs : s.advance t = some s') (u : Nat) :
    Settled (s.threads u) (s'.threads u) := by
  unfold advance at hs
  simp only at hs
  split at hs
  · rename_i hpc
    cases hs
    split
    · refine Settled.setThread ?_ u
      exact .of_pc hpc rfl rfl rfl rfl (by simp)
    · refine Settled.setThread ?_ u
      exact .of_pc hpc rfl rfl rfl rfl (by simp)
  · rename_i o hpc
    cases hs
    refine Settled.setThread (s := s) ?_ u
    refine .of_pc hpc ?_ ?_ rfl rfl (by simp)
    · show (if s.numRunning = 1 then ScopedPc.wake o else .store o).outcome = _
      split <;> rfl
    · show (if s.numRunning = 1 then ScopedPc.wake o else .store o).spawned = _
      split <;> rfl
  · rename_i o hpc
    cases hs
    have hthreads : ∀ v, s.wakeOwner.threads v = s.threads v := congrFun wakeOwner_threads
    have hset : Settled (s.wakeOwner.threads t) { s.wakeOwner.threads t with pc := .store o } :=
      .of_pc ((congrArg ScopedThread.pc (hthreads t)).trans hpc) rfl rfl rfl rfl (by simp)
    rw [← hthreads u]
    exact hset.setThread u
  · rename_i o hpc
    cases hs
    refine Settled.setThread ?_ u
    exact .of_pc hpc rfl rfl rfl rfl (by simp)
  · rename_i o hpc
    cases hs
    refine Settled.setThread ?_ u
    exact .of_pc hpc rfl rfl rfl rfl (by simp)
  · rename_i o hpc
    cases hs
    refine Settled.setThread ?_ u
    exact .of_pc hpc rfl rfl rfl rfl (by simp)
  · cases hs
  · cases hs
  · cases hs
  · cases hs
  · cases hs

/-- A thread wakes the owner and does nothing else with it. -/
theorem owner_of_advance (hs : s.advance t = some s') :
    s'.owner = s.owner ∨ s.owner = .asleep ∧ s'.owner = .load := by
  unfold advance at hs
  simp only at hs
  split at hs
  · cases hs
    split
    · exact .inl rfl
    · exact .inl rfl
  · cases hs
    exact .inl rfl
  · cases hs
    show s.wakeOwner.owner = s.owner ∨ s.owner = .asleep ∧ s.wakeOwner.owner = .load
    unfold wakeOwner
    split
    · rename_i hasleep
      exact .inr ⟨hasleep, rfl⟩
    · exact .inl rfl
  · cases hs
    exact .inl rfl
  · cases hs
    exact .inl rfl
  · cases hs
    exact .inl rfl
  · cases hs
  · cases hs
  · cases hs
  · cases hs
  · cases hs

/-- Once the owner has found that no thread is running, only threads that are past their closures
go on, and the owner returns. -/
theorem Inv.after_over (h : Inv s) (hover : s.Over) (hs : ScopeStep s e s') :
    s'.Over ∧ ∀ u, Settled (s.threads u) (s'.threads u) := by
  unfold ScopeStep at hs
  have hnot : ∀ pc, pc ≠ .pop → pc ≠ .done → s.owner ≠ pc := by
    rintro pc hpop hdone rfl
    exact hover.elim hpop hdone
  cases e with
  | spawn t | join t | dropHandle t | bodyReturn | bodyPanic =>
      exact absurd (Option.ite_none_right_eq_some.mp hs).1 (hnot .body (by simp) (by simp))
  | create | createFail =>
      simp only [ThreadScope.step] at hs
      split at hs
      · rename_i t hspawn
        exact absurd hspawn (hnot _ (by simp) (by simp))
      · cases hs
  | owner =>
      simp only [ThreadScope.step, ThreadScope.stepOwner] at hs
      split at hs
      · rename_i hload
        exact absurd hload (hnot _ (by simp) (by simp))
      · rename_i val hwait
        exact absurd hwait (hnot _ (by simp) (by simp))
      · cases hs
        exact ⟨.inr rfl, fun _ => .same⟩
      · cases hs
      · cases hs
      · cases hs
      · cases hs
  | interrupt =>
      exact absurd (Option.ite_none_right_eq_some.mp hs).1 (hnot .asleep (by simp) (by simp))
  | finish t o =>
      obtain ⟨hrunning, _⟩ := Option.ite_none_right_eq_some.mp hs
      have hcounts := h.drained hover t
      unfold ScopedThread.counts at hcounts
      rw [hrunning] at hcounts
      cases hcounts
  | advance t =>
      refine ⟨?_, settled_of_advance hs⟩
      unfold Over
      rcases owner_of_advance hs with hsame | ⟨hasleep, _⟩
      · rw [hsame]
        exact hover
      · exact absurd hasleep (hnot .asleep (by simp) (by simp))

theorem owner_of_join (hs : s.join t = some s') : s'.owner = s.owner := by
  unfold join at hs
  simp only at hs
  split at hs
  · obtain ⟨_, hs⟩ := Option.ite_none_right_eq_some.mp hs
    split at hs <;> cases hs <;> rfl
  · cases hs

theorem not_over_of_owner {pc : OwnerPc} (howner : s.owner = pc) (hpop : pc ≠ .pop)
    (hdone : pc ≠ .done) : ¬ s.Over := by
  subst howner
  exact fun hover => hover.elim hpop hdone

/-- The only way out of the wait is to find that no thread is running. -/
theorem leaves_of_over (hnot : ¬ s.Over) (hover : s'.Over) (hs : ScopeStep s e s') :
    s.Leaves e ∧ s'.threads = s.threads := by
  unfold ScopeStep at hs
  cases e with
  | spawn t =>
      obtain ⟨_, hs⟩ := Option.ite_none_right_eq_some.mp hs
      obtain ⟨_, hs⟩ := Option.ite_none_right_eq_some.mp hs
      cases hs
      exact absurd hover (not_over_of_owner rfl (by simp) (by simp))
  | create | createFail =>
      simp only [ThreadScope.step] at hs
      split at hs <;> cases hs
      exact absurd hover (not_over_of_owner rfl (by simp) (by simp))
  | join t =>
      obtain ⟨hbody, hs⟩ := Option.ite_none_right_eq_some.mp hs
      refine absurd hover (not_over_of_owner ((owner_of_join hs).trans hbody) (by simp) (by simp))
  | dropHandle t =>
      obtain ⟨hbody, hs⟩ := Option.ite_none_right_eq_some.mp hs
      obtain ⟨_, hs⟩ := Option.ite_none_right_eq_some.mp hs
      cases hs
      exact absurd hover (not_over_of_owner hbody (by simp) (by simp))
  | bodyReturn | bodyPanic | interrupt =>
      obtain ⟨_, hs⟩ := Option.ite_none_right_eq_some.mp hs
      cases hs
      exact absurd hover (not_over_of_owner rfl (by simp) (by simp))
  | owner =>
      simp only [ThreadScope.step, ThreadScope.stepOwner] at hs
      split at hs
      · rename_i hload
        cases hs
        refine ⟨⟨hload, ?_⟩, rfl⟩
        by_contra hzero
        unfold Over at hover
        simp only [if_neg hzero] at hover
        rcases hover with hover | hover <;> cases hover
      · cases hs
        unfold Over at hover
        simp only at hover
        split at hover <;> rcases hover with hover | hover <;> cases hover
      · rename_i hpop
        exact absurd (.inl hpop) hnot
      · cases hs
      · cases hs
      · cases hs
      · cases hs
  | finish t o =>
      obtain ⟨_, hs⟩ := Option.ite_none_right_eq_some.mp hs
      cases hs
      exact absurd hover hnot
  | advance t =>
      rcases owner_of_advance hs with hsame | ⟨_, hload⟩
      · refine absurd ?_ hnot
        unfold Over at hover ⊢
        rwa [hsame] at hover
      · exact absurd hover (not_over_of_owner hload (by simp) (by simp))

/-- A thread that is not counted and exists is past its closure. -/
theorem outcome_of_spawned (hspawned : r.pc.spawned = true) (hcounts : r.counts = false) :
    r.pc.outcome ≠ none := by
  unfold ScopedThread.counts at hcounts
  cases hpc : r.pc with
  | fresh | counted | failed =>
      rw [hpc] at hspawned
      cases hspawned
  | running | report | decrement =>
      rw [hpc] at hcounts
      cases hcounts
  | wake | store | status | release | exited => simp [ScopedPc.outcome]

/-- What holds in every state if the owner leaves last. -/
structure LastInv (s : ThreadScope) : Prop where
  inv : Inv s
  left : s.Over → ∀ t, s.Unclaimed t →
    (s.threads t).pc = .exited .returned ∧ (s.threads t).handle = .dropped

theorem LastInv.step (h : LastInv s) (hlast : s.LeavesLast e) (hs : ScopeStep s e s') :
    LastInv s' := by
  refine ⟨h.inv.step hlast.1 hs, fun hover' t ht => ?_⟩
  by_cases hover : s.Over
  · obtain ⟨_, hsettled⟩ := h.inv.after_over hover hs
    have hbefore : s.Unclaimed t :=
      ⟨(hsettled t).outcome ▸ ht.1, (hsettled t).result ▸ ht.2⟩
    obtain ⟨hexited, hdropped⟩ := h.left hover t hbefore
    rw [(hsettled t).exited _ hexited]
    exact ⟨hexited, hdropped⟩
  · obtain ⟨hleaves, hthreads⟩ := leaves_of_over hover hover' hs
    unfold Unclaimed at ht
    rw [hthreads] at ht ⊢
    exact hlast.2 hleaves t ht

theorem LastInv.endsLast (h : LastInv s) : s.EndsLast := by
  refine ⟨fun hdone t hspawned => ?_, fun hdone t ht => ?_⟩
  · exact outcome_of_spawned hspawned (h.inv.drained (.inr hdone) t)
  · obtain ⟨hexited, hdropped⟩ := h.left (.inr hdone) t ht
    have hgone : (s.threads t).Gone .returned := h.inv.okAt hexited
    exact (hgone.dropped hdropped).1

/-- **Runs in which a scope ends after its threads.**  In every run of a scope with any number of
threads and every order of their steps, in which the counter has room for every thread and the
owner finds it at zero only when the threads whose values nobody has claimed have released their
shared state and their handles are dropped: when `scope` returns, every closure has ended and every
value that `join` has not handed out is dropped. -/
theorem scope_ends_last (s : ThreadScope)
    (hrun : Run ScopeStep LeavesLast (fun s => s = new) s) : s.EndsLast := by
  have hinv : LastInv s := by
    refine Run.invariant (fun s hnew => ?_) (fun s e s' h hlast hs => ?_) hrun
    · rw [hnew]
      refine ⟨Inv.new, fun hover => ?_⟩
      rcases hover with hover | hover <;> cases hover
    · exact h.step hlast hs
  exact hinv.endsLast

/-- The counter has room, and the owner is not waiting. -/
def roomy (s : ThreadScope) (e : ScopeEvent) : Bool :=
  decide (e ≠ .owner) && decide (s.numRunning.toNat + 1 < 2 ^ 32)

theorem leavesLast_of_roomy (h : s.roomy e = true) : s.LeavesLast e := by
  obtain ⟨hne, hroom⟩ := (Bool.and_eq_true ..).mp h
  constructor
  · cases e with
    | spawn t => exact (of_decide_eq_true hroom : s.numRunning.toNat + 1 < 2 ^ 32)
    | create | createFail | join | dropHandle | bodyReturn | bodyPanic | owner | interrupt | finish
    | advance => trivial
  · intro hleaves
    cases e with
    | owner => exact absurd rfl (of_decide_eq_true hne)
    | spawn | create | createFail | join | dropHandle | bodyReturn | bodyPanic | interrupt | finish
    | advance => exact hleaves.elim

/-- Two threads return a value.  The handle of the first is dropped, and the second is joined. -/
def dropAndJoin : List ScopeEvent :=
  [.spawn 0, .create, .spawn 1, .create, .dropHandle 0, .finish 0 .returned, .finish 1 .returned,
    .advance 0, .advance 0, .advance 0, .advance 0, .advance 1, .advance 1, .advance 1, .advance 1,
    .advance 1, .join 1, .bodyReturn]

def lastReleased : ThreadScope := (replay step roomy new dropAndJoin).get (by decide +kernel)

theorem lastReleased_exited (t : Nat) (h : lastReleased.Unclaimed t) :
    (lastReleased.threads t).pc = .exited .returned ∧ (lastReleased.threads t).handle = .dropped := by
  rcases t with _ | _ | t
  · decide +kernel
  · exact absurd h.2 (by decide +kernel)
  · cases h.1

theorem lastReleased_endsLast :
    ∃ s : ThreadScope, s.owner = .done ∧ (s.threads 0).value = .dropped ∧
      (s.threads 1).value = .handedOut ∧ s.EndsLast := by
  have hstart : Run ScopeStep LeavesLast (fun s => s = new) new := .start rfl
  have hreplay : replay step roomy new dropAndJoin = some lastReleased := (Option.some_get _).symm
  have hrun := hstart.replay (fun _ _ _ hs => hs) (fun _ _ => leavesLast_of_roomy) hreplay
  have hload := hrun.next ScopeEvent.owner ⟨trivial, fun _ => lastReleased_exited⟩ rfl
  have hpop := hload.next ScopeEvent.owner
    ⟨trivial, fun hleaves => absurd hleaves.1 (by decide +kernel)⟩ rfl
  exact ⟨_, rfl, by decide +kernel, by decide +kernel, scope_ends_last _ hpop⟩

/-- A thread whose handle is dropped has been through the guard of its closure and still has its
value when the scope returns. -/
def leftBehind : List ScopeEvent :=
  [.spawn 0, .create, .dropHandle 0, .bodyReturn, .finish 0 .returned, .advance 0, .owner, .owner]

def scopeLeft : ThreadScope := (replay step (fun _ _ => true) new leftBehind).get (by decide +kernel)

theorem value_outlives_scope :
    ¬ ∀ s : ThreadScope, Run ScopeStep Always (fun s => s = new) s → s.EndsLast := by
  intro hall
  have hstart : Run ScopeStep Always (fun s => s = new) new := .start rfl
  have hreplay : replay step (fun _ _ => true) new leftBehind = some scopeLeft :=
    (Option.some_get _).symm
  have hrun := hstart.replay (fun _ _ _ hs => hs) (fun _ _ _ => trivial) hreplay
  have hdropped := (hall scopeLeft hrun).values (by decide +kernel) 0
    ⟨by decide +kernel, by decide +kernel⟩
  exact absurd hdropped (by decide +kernel)

end ThreadScope

end Veloq.Blocking
