import Veloq.Foundation.Census
import Veloq.Foundation.Chain
import Veloq.Foundation.Run
import Veloq.Driver.Registry
import Mathlib.Data.List.Nodup
set_option autoImplicit false

/-!
# Driver: every slot of the registry has one place

A slot is active, on the local free list or on the shared free list, and in one of these
places only.  `alloc` walks the local list and sets slots aside; that they come back is part
of the invariant while the walk is under way.
-/

namespace Veloq.Driver

open Veloq.Foundation

variable {Op Payload Data : Type}

/-- The calls of the driver and of the consumers.  `remove` also stands for `insert`'s
counterparts `finalize_checked`, `finalize_waiting_completion`, `finalize_orphaned_completion`
and `finalize_corrupt_slot`, `alloc` for `insert`. -/
inductive RegistryCall (Op Payload Data : Type) where
  | alloc (data : Data)
  | submit (token : OpToken) (op : Op) (payload : Payload) (accepted : Bool)
  | remove (token : OpToken)
  | recycle (token : OpToken) (nextGeneration : Nat)
  | record (record : CompletionRecord Payload)
  | take (token : OpToken)
  | discard (token : OpToken)
  | orphan (token : OpToken)
  | registerWaker (token : OpToken)

/-- A registry and the handles that were given out and not given back. -/
structure Tenancy (Op Payload Data : Type) where
  registry : OpRegistry Op Payload Data
  handles : List OpRegistry.OpHandle

namespace Tenancy

variable [Inhabited Data]

/-- A registry that nobody has used yet. -/
def new (capacity : Nat) : Tenancy Op Payload Data := ⟨.new capacity, []⟩

/-- The handle of `token` is given back, if the registry takes it. -/
def giveBack (s : Tenancy Op Payload Data) (token : OpToken) : List OpRegistry.OpHandle :=
  if s.registry.holds token then
    s.handles.filter (fun handle => handle ≠ ⟨token.index, token.generation⟩)
  else
    s.handles

/-- One call, run to its end. -/
def step (s : Tenancy Op Payload Data) : RegistryCall Op Payload Data →
    Option (Tenancy Op Payload Data)
  | .alloc data =>
      match s.registry.alloc data with
      | none => none
      | some (r, .ok handle) => some ⟨r, handle :: s.handles⟩
      | some (r, .error _) => some ⟨r, s.handles⟩
  | .submit token op payload accepted =>
      some { s with registry := s.registry.submit token op payload accepted }
  | .remove token => some ⟨s.registry.remove token, s.giveBack token⟩
  | .recycle token nextGeneration =>
      some ⟨s.registry.recycle token nextGeneration, s.giveBack token⟩
  | .record record => some { s with registry := s.registry.recordCompletion record }
  | .take token => some { s with registry := (s.registry.tryTakeRecord token).1 }
  | .discard token => some { s with registry := (s.registry.tryTakeRecord token).1 }
  | .orphan token => some { s with registry := s.registry.markOrphaned token }
  | .registerWaker _ => some s

end Tenancy

/-- The calls as a relation. -/
def TenancyStep [Inhabited Data] (s : Tenancy Op Payload Data) (call : RegistryCall Op Payload Data)
    (s' : Tenancy Op Payload Data) : Prop := s.step call = some s'

namespace OpRegistry

variable {r r' : OpRegistry Op Payload Data} {idx : Nat} {free aside shared : List Nat}

/-- What a slot points to; every slot is there. -/
def link (r : OpRegistry Op Payload Data) (idx : Nat) : Option (Option Nat) :=
  some (r.slots idx).nextFree

/-! ## The free lists -/

/-- The places of the slots, with those that `alloc` has set aside. -/
structure Parted (r : OpRegistry Op Payload Data) (free aside shared : List Nat) : Prop where
  localFree : Chain r.link r.localFreeHead free
  sharedFree : Chain r.link r.remoteFreeHead shared
  nodup : (free ++ aside ++ shared).Nodup
  free_iff : ∀ i, i ∈ free ++ aside ++ shared ↔ i < r.capacity ∧ (r.locals i).active = false
  active_lt : ∀ i, (r.locals i).active = true → i < r.capacity
  activeCount : Census (fun i => (r.locals i).active = true) r.activeCount

/-- Only the links, the heads and who is active matter. -/
structure SameOwners (r r' : OpRegistry Op Payload Data) : Prop where
  capacity : r'.capacity = r.capacity
  link : r'.link = r.link
  localFreeHead : r'.localFreeHead = r.localFreeHead
  remoteFreeHead : r'.remoteFreeHead = r.remoteFreeHead
  active : ∀ i, (r'.locals i).active = (r.locals i).active
  generation : ∀ i, (r'.locals i).generation = (r.locals i).generation
  activeCount : r'.activeCount = r.activeCount

theorem SameOwners.refl (r : OpRegistry Op Payload Data) : SameOwners r r :=
  ⟨rfl, rfl, rfl, rfl, fun _ => rfl, fun _ => rfl, rfl⟩

theorem Parted.congr (h : Parted r free aside shared) (hsame : SameOwners r r') :
    Parted r' free aside shared := by
  obtain ⟨hcapacity, hlink, hlocal, hremote, hactive, -, hcount⟩ := hsame
  refine ⟨?_, ?_, h.nodup, fun i => ?_, fun i => ?_, ?_⟩
  · rw [hlink, hlocal]
    exact h.localFree
  · rw [hlink, hremote]
    exact h.sharedFree
  · rw [hcapacity, hactive]
    exact h.free_iff i
  · rw [hcapacity, hactive]
    exact h.active_lt i
  · rw [hcount]
    exact h.activeCount.congr fun i => by rw [hactive]

/-- A change of a shared slot that leaves its link alone. -/
theorem sameOwners_setSlot {slot : SlotData Payload}
    (hlink : slot.nextFree = (r.slots idx).nextFree) : SameOwners r (r.setSlot idx slot) := by
  refine ⟨rfl, funext fun i => ?_, rfl, rfl, fun _ => rfl, fun _ => rfl, rfl⟩
  show some (Function.update r.slots idx slot i).nextFree = some (r.slots i).nextFree
  by_cases hi : i = idx
  · rw [hi, Function.update_self, hlink]
  · rw [Function.update_of_ne hi]

/-- A change of a local slot that leaves its owner alone. -/
theorem sameOwners_setLocal {slot : LocalSlot Op Payload Data}
    (hactive : slot.active = (r.locals idx).active)
    (hgeneration : slot.generation = (r.locals idx).generation) :
    SameOwners r (r.setLocal idx slot) := by
  refine ⟨rfl, rfl, rfl, rfl, fun i => ?_, fun i => ?_, rfl⟩
  · show (Function.update r.locals idx slot i).active = (r.locals i).active
    by_cases hi : i = idx
    · rw [hi, Function.update_self, hactive]
    · rw [Function.update_of_ne hi]
  · show (Function.update r.locals idx slot i).generation = (r.locals i).generation
    by_cases hi : i = idx
    · rw [hi, Function.update_self, hgeneration]
    · rw [Function.update_of_ne hi]

theorem SameOwners.trans {r'' : OpRegistry Op Payload Data} (h : SameOwners r r')
    (h' : SameOwners r' r'') : SameOwners r r'' :=
  ⟨h'.capacity.trans h.capacity, h'.link.trans h.link, h'.localFreeHead.trans h.localFreeHead,
    h'.remoteFreeHead.trans h.remoteFreeHead, fun i => (h'.active i).trans (h.active i),
    fun i => (h'.generation i).trans (h.generation i), h'.activeCount.trans h.activeCount⟩

theorem SameOwners.counted (h : SameOwners r r') (count : Nat) :
    SameOwners r { r' with readyCompletionCount := count } :=
  ⟨h.capacity, h.link, h.localFreeHead, h.remoteFreeHead, h.active, h.generation, h.activeCount⟩

/-- A slot that was set aside is pushed onto the shared list. -/
theorem Parted.pushFree (h : Parted r free (idx :: aside) shared) :
    Parted (r.pushFree idx) free aside (idx :: shared) := by
  have hnodup := h.nodup
  have hother : ∀ i, i ≠ idx → (r.pushFree idx).link i = r.link i := by
    intro i hi
    show some (Function.update r.slots idx _ i).nextFree = some (r.slots i).nextFree
    rw [Function.update_of_ne hi]
  have hself : (r.pushFree idx).link idx = some r.remoteFreeHead := by
    show some (Function.update r.slots idx _ idx).nextFree = _
    rw [Function.update_self]
  have hperm : (free ++ aside ++ idx :: shared).Perm (free ++ idx :: aside ++ shared) := by
    rw [List.append_assoc, List.append_assoc]
    exact List.Perm.append_left free List.perm_middle
  refine ⟨?_, ?_, hperm.nodup_iff.mpr hnodup, fun i => (hperm.mem_iff).trans (h.free_iff i),
    h.active_lt, h.activeCount⟩
  · refine h.localFree.congr fun i hi => hother i ?_
    rintro rfl
    rw [List.append_assoc] at hnodup
    exact (List.disjoint_of_nodup_append hnodup) hi (List.mem_append_left _ (List.mem_cons_self ..))
  · refine Chain.cons hself (h.sharedFree.congr fun i hi => hother i ?_)
    rintro rfl
    exact (List.disjoint_of_nodup_append hnodup)
      (List.mem_append_right _ (List.mem_cons_self ..)) hi

/-- All slots that were set aside are pushed onto the shared list. -/
theorem Parted.foldl_pushFree (h : Parted r free aside shared) :
    Parted (aside.foldl OpRegistry.pushFree r) free [] (aside.reverse ++ shared) := by
  induction aside generalizing r shared with
  | nil => exact h
  | cons idx aside ih =>
    rw [List.reverse_cons, List.append_assoc]
    exact ih h.pushFree

theorem foldl_pushFree_locals (r : OpRegistry Op Payload Data) (aside : List Nat) :
    (aside.foldl OpRegistry.pushFree r).locals = r.locals := by
  induction aside generalizing r with
  | nil => rfl
  | cons idx aside ih => exact ih _

theorem Parted.new [Inhabited Data] (capacity : Nat) :
    ∃ shared, Parted (OpRegistry.new capacity : OpRegistry Op Payload Data) [] [] shared := by
  suffices h : Parted _ [] (List.range capacity).reverse [] from ⟨_, h.foldl_pushFree⟩
  refine ⟨Chain.nil, Chain.nil, ?_, fun i => ?_, fun i hi => ?_, ?_⟩
  · rw [List.append_nil, List.nil_append, List.nodup_reverse]
    exact List.nodup_range
  · rw [List.append_nil, List.nil_append, List.mem_reverse, List.mem_range]
    exact ⟨fun hi => ⟨hi, rfl⟩, And.left⟩
  · cases hi
  · exact Census.zero fun i => Bool.false_ne_true

/-! ## Allocation -/

/-- The free places are those of slots of the table, so there are no more than that. -/
theorem Parted.length_le (h : Parted r free aside shared) : free.length ≤ r.capacity := by
  have hnodup : free.Nodup := by
    have hall := h.nodup
    rw [List.append_assoc] at hall
    exact hall.of_append_left
  have hsub : free ⊆ List.range r.capacity := fun i hi =>
    List.mem_range.mpr ((h.free_iff i).mp
      (List.mem_append_left _ (List.mem_append_left _ hi))).1
  have hle := (List.subperm_of_subset hnodup hsub).length_le
  rwa [List.length_range] at hle

/-- The front of the local list is set aside. -/
theorem Parted.setAside (h : Parted r (idx :: free) aside shared)
    (hchain : Chain r.link (r.slots idx).nextFree free) :
    Parted { r with localFreeHead := (r.slots idx).nextFree } free (aside ++ [idx]) shared := by
  have hperm : (free ++ (aside ++ [idx]) ++ shared).Perm (idx :: free ++ aside ++ shared) := by
    refine List.Perm.append_right shared ?_
    rw [← List.append_assoc]
    exact List.perm_append_singleton idx (free ++ aside)
  exact ⟨hchain, h.sharedFree, hperm.nodup_iff.mpr h.nodup,
    fun i => hperm.mem_iff.trans (h.free_iff i), h.active_lt, h.activeCount⟩

/-- The front of the local list becomes active. -/
theorem Parted.reserve (h : Parted r (idx :: free) aside shared)
    (hchain : Chain r.link (r.slots idx).nextFree free) (data : Data) :
    Parted (reserve { r with localFreeHead := (r.slots idx).nextFree } idx data).1 free aside
      shared := by
  have hnodup := h.nodup
  rw [List.cons_append, List.cons_append, List.nodup_cons] at hnodup
  obtain ⟨hnot, hnodup⟩ := hnodup
  obtain ⟨hlt, hinactive⟩ := (h.free_iff idx).mp (List.mem_cons_self ..)
  set r' := (OpRegistry.reserve { r with localFreeHead := (r.slots idx).nextFree } idx data).1
    with hr'
  have hlink : ∀ i, r'.link i = r.link i := by
    intro i
    show some (Function.update r.slots idx _ i).nextFree = some (r.slots i).nextFree
    by_cases hi : i = idx
    · rw [hi, Function.update_self]
    · rw [Function.update_of_ne hi]
  have hself : (r'.locals idx).active = true := by
    show (Function.update r.locals idx _ idx).active = true
    rw [Function.update_self]
  have hother : ∀ i, i ≠ idx → (r'.locals i).active = (r.locals i).active := by
    intro i hi
    show (Function.update r.locals idx _ i).active = _
    rw [Function.update_of_ne hi]
  refine ⟨hchain.congr fun i _ => hlink i, h.sharedFree.congr fun i _ => hlink i, hnodup,
    fun i => ?_, fun i hi => ?_, ?_⟩
  · by_cases hi : i = idx
    · subst hi
      rw [hself]
      exact ⟨fun hmem => absurd hmem hnot, fun hboth => absurd hboth.2 Bool.noConfusion⟩
    · rw [hother i hi]
      refine Iff.trans ?_ (h.free_iff i)
      rw [List.cons_append, List.cons_append, List.mem_cons]
      exact ⟨.inr, fun hor => hor.resolve_left hi⟩
  · by_cases hidx : i = idx
    · rw [hidx]
      exact hlt
    · rw [hother i hidx] at hi
      exact h.active_lt i hi
  · refine h.activeCount.join (i := idx) ?_ fun i => ?_
    · rw [hinactive]
      exact Bool.false_ne_true
    · by_cases hi : i = idx
      · subst hi
        exact ⟨fun _ => .inl rfl, fun _ => hself⟩
      · rw [hother i hi]
        exact ⟨.inr, fun hor => hor.resolve_left hi⟩

/-- What `alloc` leaves behind: every slot has its place, and a handle is that of a slot that
was not active before. -/
structure Allocated (r r' : OpRegistry Op Payload Data) (result : Except Data OpHandle) :
    Prop where
  parted : ∃ free shared, Parted r' free [] shared
  failed : ∀ data, result = .error data → r'.locals = r.locals
  given : ∀ handle, result = .ok handle → (r.locals handle.index).active = false ∧
    (r'.locals handle.index).active = true ∧
    (r'.locals handle.index).generation = handle.generation ∧
    ∀ i, i ≠ handle.index → r'.locals i = r.locals i

/-- The walk over the local list ends, whatever it finds. -/
theorem Parted.allocLoop {fuel : Nat} (h : Parted r free aside shared)
    (hfuel : free.length < fuel) (data : Data) :
    ∃ r' result, OpRegistry.allocLoop fuel r aside data = some (r', result) ∧
      Allocated r r' result := by
  induction fuel generalizing r free aside with
  | zero => exact absurd hfuel (Nat.not_lt_zero _)
  | succ fuel ih =>
    rw [OpRegistry.allocLoop]
    cases hhead : r.localFreeHead with
    | none =>
      have hnil : free = [] := Chain.nil_of_none (hhead ▸ h.localFree)
      subst hnil
      refine ⟨_, _, rfl, ⟨[], _, h.foldl_pushFree⟩, fun _ _ => foldl_pushFree_locals r aside,
        fun handle hok => ?_⟩
      cases hok
    | some idx =>
      obtain ⟨rest, tail, rfl, hlink, hchain⟩ := Chain.exists_of_some (hhead ▸ h.localFree)
      cases hlink
      obtain ⟨hlt, hinactive⟩ := (h.free_iff idx).mp (List.mem_cons_self ..)
      simp only [Nat.not_le.mpr hlt, if_false]
      split
      · obtain ⟨r', result, hrun, hdone⟩ := ih (h.setAside hchain) (Nat.lt_of_succ_lt_succ hfuel)
        exact ⟨r', result, hrun, hdone.parted, hdone.failed, hdone.given⟩
      · refine ⟨_, _, rfl, ⟨tail, _, (h.reserve hchain data).foldl_pushFree⟩, fun _ herr => ?_,
          fun handle hok => ?_⟩
        · cases herr
        · cases hok
          rw [foldl_pushFree_locals]
          have hlocals : (OpRegistry.reserve { r with localFreeHead := (r.slots idx).nextFree }
              idx data).1.locals = Function.update r.locals idx ⟨none, none, data, true,
                nextGeneration (r.slots idx).generation⟩ := rfl
          have hhandle : (OpRegistry.reserve { r with localFreeHead := (r.slots idx).nextFree }
              idx data).2 = ⟨idx, nextGeneration (r.slots idx).generation⟩ := rfl
          rw [hlocals, hhandle, Function.update_self]
          exact ⟨hinactive, rfl, rfl, fun i hi => Function.update_of_ne hi ..⟩

/-- The shared list becomes the local one. -/
theorem Parted.fetch (h : Parted r [] [] shared) :
    Parted { r with localFreeHead := r.remoteFreeHead, remoteFreeHead := none } shared [] [] := by
  refine ⟨h.sharedFree, Chain.nil, ?_, fun i => ?_, h.active_lt, h.activeCount⟩
  · rw [List.append_nil, List.append_nil]
    exact h.nodup
  · rw [List.append_nil, List.append_nil]
    exact h.free_iff i

theorem Parted.alloc (h : Parted r free [] shared) (data : Data) :
    ∃ r' result, r.alloc data = some (r', result) ∧ Allocated r r' result := by
  unfold OpRegistry.alloc
  cases hhead : r.localFreeHead with
  | some idx =>
    dsimp only
    exact h.allocLoop (Nat.lt_succ_of_le h.length_le) data
  | none =>
    have hnil : free = [] := Chain.nil_of_none (hhead ▸ h.localFree)
    subst hnil
    have hswapped := h.fetch
    obtain ⟨r', result, hrun, hdone⟩ :=
      hswapped.allocLoop (Nat.lt_succ_of_le hswapped.length_le) data
    exact ⟨r', result, hrun, hdone.parted, hdone.failed, hdone.given⟩

/-! ## The other calls -/

variable {token : OpToken}

theorem active_of_holds (h : r.holds token = true) : (r.locals token.index).active = true := by
  unfold holds at h
  exact (Bool.and_eq_true_iff.mp (Bool.and_eq_true_iff.mp h).1).2

theorem sameOwners_submit (r : OpRegistry Op Payload Data) (token : OpToken) (op : Op)
    (payload : Payload) (accepted : Bool) :
    SameOwners r (r.submit token op payload accepted) := by
  have hpayload : SameOwners r (r.slotSetPayload token payload) := by
    unfold OpRegistry.slotSetPayload
    split
    · exact sameOwners_setLocal rfl rfl
    · exact .refl r
  refine hpayload.trans ?_
  unfold OpRegistry.submit OpRegistry.submitSqe
  split
  · split
    · have hlocal : SameOwners (r.slotSetPayload token payload)
          ((r.slotSetPayload token payload).modifyLocal token fun slot =>
            { slot with op := some op }) := sameOwners_setLocal rfl rfl
      exact hlocal.trans (sameOwners_setSlot rfl)
    · exact sameOwners_setLocal rfl rfl
  · exact .refl _

theorem sameOwners_recordCompletion (r : OpRegistry Op Payload Data)
    (record : CompletionRecord Payload) : SameOwners r (r.recordCompletion record) := by
  unfold OpRegistry.recordCompletion
  dsimp only
  split
  · have hslot : SameOwners r (r.setSlot record.token.index { r.slots record.token.index with
        state := .inFlightReady, completionData := some record }) := sameOwners_setSlot rfl
    exact hslot.counted _
  · exact .refl r

theorem sameOwners_tryTakeRecord (r : OpRegistry Op Payload Data) (token : OpToken) :
    SameOwners r (r.tryTakeRecord token).1 := by
  unfold OpRegistry.tryTakeRecord
  dsimp only
  split
  · have hslot : SameOwners r (r.setSlot token.index { r.slots token.index with
        state := .idle, generation := nextGeneration token.generation, completionData := none }) :=
      sameOwners_setSlot rfl
    exact hslot.counted _
  · exact .refl r

theorem sameOwners_markOrphaned (r : OpRegistry Op Payload Data) (token : OpToken) :
    SameOwners r (r.markOrphaned token) := by
  unfold OpRegistry.markOrphaned
  dsimp only
  split
  · exact sameOwners_setSlot rfl
  · exact sameOwners_tryTakeRecord r token

/-! ## Removal -/

/-- An active slot is given up; it is in no list yet. -/
theorem Parted.release (h : Parted r free [] shared) (hactive : (r.locals idx).active = true)
    (hcapacity : r'.capacity = r.capacity) (hlink : r'.link = r.link)
    (hlocal : r'.localFreeHead = r.localFreeHead) (hremote : r'.remoteFreeHead = r.remoteFreeHead)
    (hself : (r'.locals idx).active = false) (hother : ∀ i, i ≠ idx → r'.locals i = r.locals i)
    (hcount : r'.activeCount = r.activeCount - 1) : Parted r' free [idx] shared := by
  have hfree := h.free_iff
  rw [List.append_nil] at hfree
  have hnot : idx ∉ free ++ shared := fun hmem => by
    have hinactive := ((hfree idx).mp hmem).2
    rw [hactive] at hinactive
    cases hinactive
  have hperm : (free ++ [idx] ++ shared).Perm (idx :: (free ++ shared)) := by
    rw [List.append_assoc]
    exact List.perm_middle
  refine ⟨?_, ?_, ?_, fun i => hperm.mem_iff.trans ?_, fun i hi => ?_, ?_⟩
  · rw [hlink, hlocal]
    exact h.localFree
  · rw [hlink, hremote]
    exact h.sharedFree
  · have hnodup := h.nodup
    rw [List.append_nil] at hnodup
    exact hperm.nodup_iff.mpr (List.nodup_cons.mpr ⟨hnot, hnodup⟩)
  · rw [List.mem_cons, hcapacity]
    by_cases hi : i = idx
    · subst hi
      exact ⟨fun _ => ⟨h.active_lt i hactive, hself⟩, fun _ => .inl rfl⟩
    · rw [hother i hi]
      exact ⟨fun hor => (hfree i).mp (hor.resolve_left hi), fun hboth => .inr ((hfree i).mpr hboth)⟩
  · rw [hcapacity]
    by_cases hidx : i = idx
    · rw [hidx]
      exact h.active_lt idx hactive
    · rw [hother i hidx] at hi
      exact h.active_lt i hi
  · rw [hcount]
    refine h.activeCount.leave hactive fun i => ?_
    by_cases hi : i = idx
    · subst hi
      rw [hself]
      exact ⟨Bool.noConfusion, fun hboth => absurd rfl hboth.1⟩
    · rw [hother i hi]
      exact ⟨fun ha => ⟨hi, ha⟩, And.right⟩

/-- What a removal that takes place leaves behind. -/
structure Released (r r' : OpRegistry Op Payload Data) (idx : Nat) : Prop where
  parted : ∃ free shared, Parted r' free [] shared
  inactive : (r'.locals idx).active = false
  other : ∀ i, i ≠ idx → r'.locals i = r.locals i

variable [Inhabited Data]

theorem Parted.removeAtIndex (h : Parted r free [] shared)
    (hactive : (r.locals idx).active = true) : Released r (r.removeAtIndex idx) idx := by
  set released : OpRegistry Op Payload Data :=
    { (r.setLocal idx { r.locals idx with
        active := false, op := none, payload := none, platformData := default }).setSlot idx
      (r.slots idx).free with activeCount := r.activeCount - 1 } with hreleased
  have hself : (released.locals idx).active = false := by
    show (Function.update r.locals idx _ idx).active = false
    rw [Function.update_self]
  have hother : ∀ i, i ≠ idx → released.locals i = r.locals i :=
    fun i hi => Function.update_of_ne hi ..
  have hfreed : (r.slots idx).free.nextFree = (r.slots idx).nextFree := by
    unfold SlotData.free
    split
    · rfl
    · rfl
  have hlink : released.link = r.link := (sameOwners_setSlot hfreed).link
  have hparted : Parted released free [idx] shared :=
    h.release hactive rfl hlink rfl rfl hself hother rfl
  exact ⟨⟨free, _, hparted.pushFree⟩, hself, hother⟩

theorem Parted.recycleAtIndex (h : Parted r free [] shared)
    (hactive : (r.locals idx).active = true) (generation : Nat) :
    Released r (r.recycleAtIndex idx generation) idx := by
  set counted : OpRegistry Op Payload Data :=
    if (r.slots idx).state = .inFlightReady then
      { r.setLocal idx { r.locals idx with
          active := false, op := none, payload := none, platformData := default } with
        readyCompletionCount := r.readyCompletionCount - 1 }
    else r.setLocal idx { r.locals idx with
          active := false, op := none, payload := none, platformData := default } with hcounted
  have hsame : counted.locals = Function.update r.locals idx { r.locals idx with
      active := false, op := none, payload := none, platformData := default } ∧
      counted.capacity = r.capacity ∧ counted.slots = r.slots ∧
      counted.localFreeHead = r.localFreeHead ∧ counted.remoteFreeHead = r.remoteFreeHead ∧
      counted.activeCount = r.activeCount := by
    rw [hcounted]
    split
    · exact ⟨rfl, rfl, rfl, rfl, rfl, rfl⟩
    · exact ⟨rfl, rfl, rfl, rfl, rfl, rfl⟩
  obtain ⟨hlocals, hcapacity, hslots, hlocal, hremote, hcount⟩ := hsame
  set released : OpRegistry Op Payload Data :=
    { counted.setSlot idx { counted.slots idx with generation := generation, state := .idle } with
      activeCount := counted.activeCount - 1 } with hreleased
  have hself : (released.locals idx).active = false := by
    show (counted.locals idx).active = false
    rw [hlocals, Function.update_self]
  have hother : ∀ i, i ≠ idx → released.locals i = r.locals i := by
    intro i hi
    show counted.locals i = _
    rw [hlocals, Function.update_of_ne hi]
  have hlink : released.link = r.link := by
    have hreset : SameOwners counted (counted.setSlot idx
        { counted.slots idx with generation := generation, state := .idle }) :=
      sameOwners_setSlot rfl
    refine hreset.link.trans ?_
    unfold link
    rw [hslots]
  have hone : released.activeCount = r.activeCount - 1 := by
    show counted.activeCount - 1 = _
    rw [hcount]
  have hparted : Parted released free [idx] shared :=
    h.release hactive hcapacity hlink hlocal hremote hself hother hone
  have hpush : released.pushFree idx = r.recycleAtIndex idx generation := rfl
  rw [← hpush]
  exact ⟨⟨free, _, hparted.pushFree⟩, hself, hother⟩

theorem remove_eq (r : OpRegistry Op Payload Data) (token : OpToken) :
    r.remove token = if r.holds token then r.removeAtIndex token.index else r := by
  unfold OpRegistry.remove holds
  by_cases hlt : token.index < r.capacity
  · rw [if_neg (Nat.not_le.mpr hlt), decide_eq_true hlt, Bool.true_and]
    dsimp only
    cases hactive : (r.locals token.index).active with
    | false => rw [if_pos (.inl rfl), Bool.false_and, if_neg Bool.false_ne_true]
    | true =>
      rw [Bool.true_and]
      by_cases hgen : (r.locals token.index).generation = token.generation
      · rw [decide_eq_true hgen, if_pos rfl, if_neg]
        exact fun hor => hor.elim Bool.noConfusion fun hne => hne hgen
      · rw [decide_eq_false hgen, if_neg Bool.false_ne_true, if_pos (.inr hgen)]
  · rw [if_pos (Nat.not_lt.mp hlt), decide_eq_false hlt, Bool.false_and, Bool.false_and,
      if_neg Bool.false_ne_true]

end OpRegistry

/-! ## Runs -/

namespace Tenancy

open OpRegistry

variable {s s' : Tenancy Op Payload Data}

/-- Every slot has its place, and every active slot its handle. -/
structure Inv (s : Tenancy Op Payload Data) : Prop where
  parted : ∃ free shared, Parted s.registry free [] shared
  owned : ∀ handle ∈ s.handles, (s.registry.locals handle.index).active = true ∧
    (s.registry.locals handle.index).generation = handle.generation
  held : ∀ i, (s.registry.locals i).active = true → i ∈ s.handles.map (·.index)
  apart : (s.handles.map (·.index)).Nodup

/-- Nobody's place changes. -/
theorem Inv.congr (h : s.Inv) (hsame : SameOwners s.registry s'.registry)
    (hhandles : s'.handles = s.handles) : s'.Inv := by
  obtain ⟨free, shared, hparted⟩ := h.parted
  refine ⟨⟨free, shared, hparted.congr hsame⟩, fun handle hmem => ?_, fun i hi => ?_, ?_⟩
  · rw [hhandles] at hmem
    rw [hsame.active, hsame.generation]
    exact h.owned handle hmem
  · rw [hsame.active] at hi
    rw [hhandles]
    exact h.held i hi
  · rw [hhandles]
    exact h.apart

/-- The removal of `token` does nothing, or frees its slot. -/
theorem Inv.giveBack (h : s.Inv) {token : OpToken} {r' : OpRegistry Op Payload Data}
    (hheld : s.registry.holds token = true → Released s.registry r' token.index)
    (hnot : s.registry.holds token = false → r' = s.registry) :
    Inv ⟨r', s.giveBack token⟩ := by
  unfold Tenancy.giveBack
  cases hholds : s.registry.holds token with
  | false =>
    rw [hnot hholds, if_neg Bool.false_ne_true]
    exact h
  | true =>
    obtain ⟨hparted, hinactive, hother⟩ := hheld hholds
    have hgeneration : (s.registry.locals token.index).generation = token.generation := by
      unfold holds at hholds
      exact of_decide_eq_true (Bool.and_eq_true_iff.mp hholds).2
    rw [if_pos rfl]
    -- the handles of other slots stay, and nobody else has this one
    have hkeep : ∀ x ∈ s.handles, x.index ≠ token.index ↔ x ≠ ⟨token.index, token.generation⟩ := by
      intro x hx
      refine ⟨fun hne heq => hne (by rw [heq]), fun hne heq => hne ?_⟩
      have hgen := (h.owned x hx).2
      rw [heq, hgeneration] at hgen
      obtain ⟨index, generation⟩ := x
      cases heq
      cases hgen
      rfl
    refine ⟨hparted, fun x hx => ?_, fun i hi => ?_, ?_⟩
    · obtain ⟨hmem, hne⟩ := List.mem_filter.mp hx
      rw [hother x.index ((hkeep x hmem).mpr (of_decide_eq_true hne))]
      exact h.owned x hmem
    · have hne : i ≠ token.index := by
        rintro rfl
        rw [hinactive] at hi
        cases hi
      rw [hother i hne] at hi
      obtain ⟨x, hx, hindex⟩ := List.mem_map.mp (h.held i hi)
      refine List.mem_map.mpr ⟨x, List.mem_filter.mpr ⟨hx, decide_eq_true ?_⟩, hindex⟩
      exact (hkeep x hx).mp (by rw [hindex]; exact hne)
    · exact h.apart.sublist (List.filter_sublist.map _)

variable [Inhabited Data]

theorem Inv.new (capacity : Nat) : (new capacity : Tenancy Op Payload Data).Inv := by
  obtain ⟨shared, hparted⟩ :
      ∃ shared, Parted (OpRegistry.new capacity : OpRegistry Op Payload Data) [] [] shared :=
    Parted.new capacity
  refine ⟨⟨[], shared, hparted⟩, fun handle hmem => ?_, fun i hi => ?_, List.nodup_nil⟩
  · cases hmem
  · have hlocals : ((OpRegistry.new capacity : OpRegistry Op Payload Data).locals i).active =
        false := by
      unfold OpRegistry.new
      rw [foldl_pushFree_locals]
    exact absurd (hlocals.symm.trans hi) Bool.false_ne_true

/-- A slot is taken over by a new handle, or none is. -/
theorem Inv.alloc (h : s.Inv) (data : Data) :
    ∃ s', s.step (.alloc data) = some s' ∧ s'.Inv := by
  obtain ⟨free, shared, hparted⟩ := h.parted
  obtain ⟨r', result, hrun, hdone⟩ := hparted.alloc data
  unfold step
  simp only [hrun]
  cases result with
  | error data =>
    have hlocals := hdone.failed data rfl
    refine ⟨_, rfl, hdone.parted, fun handle hmem => ?_, fun i hi => ?_, h.apart⟩
    · rw [hlocals]
      exact h.owned handle hmem
    · rw [hlocals] at hi
      exact h.held i hi
  | ok handle =>
    obtain ⟨hbefore, hactive, hgeneration, hother⟩ := hdone.given handle rfl
    have hnew : handle.index ∉ s.handles.map (·.index) := by
      intro hmem
      obtain ⟨old, hold, hindex⟩ := List.mem_map.mp hmem
      have hactive' := (h.owned old hold).1
      rw [hindex, hbefore] at hactive'
      cases hactive'
    refine ⟨_, rfl, hdone.parted, fun x hx => ?_, fun i hi => ?_, List.nodup_cons.mpr ⟨hnew, h.apart⟩⟩
    · rcases List.mem_cons.mp hx with rfl | hx
      · exact ⟨hactive, hgeneration⟩
      · have hne : x.index ≠ handle.index := by
          intro heq
          exact hnew (List.mem_map.mpr ⟨x, hx, heq⟩)
        rw [hother x.index hne]
        exact h.owned x hx
    · show i ∈ handle.index :: s.handles.map (·.index)
      by_cases hidx : i = handle.index
      · rw [hidx]
        exact List.mem_cons_self ..
      · rw [hother i hidx] at hi
        exact List.mem_cons_of_mem _ (h.held i hi)

theorem Inv.step (h : s.Inv) {call : RegistryCall Op Payload Data} (hs : s.step call = some s') :
    s'.Inv := by
  cases call with
  | alloc data =>
    obtain ⟨s'', hs'', hinv⟩ := h.alloc data
    rw [hs''] at hs
    cases hs
    exact hinv
  | submit token op payload accepted =>
    cases hs
    exact h.congr (sameOwners_submit ..) rfl
  | remove token =>
    cases hs
    obtain ⟨free, shared, hparted⟩ := h.parted
    rw [remove_eq]
    refine h.giveBack (fun hholds => ?_) fun hnot => ?_
    · rw [if_pos hholds]
      exact hparted.removeAtIndex (active_of_holds hholds)
    · rw [hnot, if_neg Bool.false_ne_true]
  | recycle token nextGeneration =>
    cases hs
    obtain ⟨free, shared, hparted⟩ := h.parted
    refine h.giveBack (fun hholds => ?_) fun hnot => ?_
    · unfold OpRegistry.recycle
      rw [if_pos hholds]
      exact hparted.recycleAtIndex (active_of_holds hholds) nextGeneration
    · unfold OpRegistry.recycle
      rw [hnot, if_neg Bool.false_ne_true]
  | record record =>
    cases hs
    exact h.congr (sameOwners_recordCompletion ..) rfl
  | take token =>
    cases hs
    exact h.congr (sameOwners_tryTakeRecord ..) rfl
  | discard token =>
    cases hs
    exact h.congr (sameOwners_tryTakeRecord ..) rfl
  | orphan token =>
    cases hs
    exact h.congr (sameOwners_markOrphaned ..) rfl
  | registerWaker token =>
    cases hs
    exact h

end Tenancy

/-- After any calls a slot of the table is active, on the local free list or on the shared
one, in one of these places and there once; both lists end; the counter is the number of
active slots; the handles that are out have slots of their own, which are the active ones; and
`alloc` always returns. -/
theorem registry_partitioned [Inhabited Data] {s : Tenancy Op Payload Data}
    (h : Run TenancyStep Always (fun s => ∃ capacity, s = Tenancy.new capacity) s) :
    (∃ localFree sharedFree : List Nat,
      Chain s.registry.link s.registry.localFreeHead localFree ∧
      Chain s.registry.link s.registry.remoteFreeHead sharedFree ∧
      (localFree ++ sharedFree).Nodup ∧
      ∀ i, (i < s.registry.capacity ↔
          i ∈ localFree ++ sharedFree ∨ (s.registry.locals i).active = true) ∧
        ¬(i ∈ localFree ++ sharedFree ∧ (s.registry.locals i).active = true)) ∧
    Census (fun i => (s.registry.locals i).active = true) s.registry.activeCount ∧
    (s.handles.map (·.index)).Nodup ∧
    (∀ i, (s.registry.locals i).active = true ↔ i ∈ s.handles.map (·.index)) ∧
    ∀ data, (s.registry.alloc data).isSome = true := by
  have hinv : s.Inv := by
    refine h.invariant ?_ fun _ _ _ hinv _ hs => hinv.step hs
    rintro _ ⟨capacity, rfl⟩
    exact .new capacity
  obtain ⟨free, shared, hparted⟩ := hinv.parted
  have hfree := hparted.free_iff
  have hnodup := hparted.nodup
  rw [List.append_nil] at hfree hnodup
  refine ⟨⟨free, shared, hparted.localFree, hparted.sharedFree, hnodup, fun i => ⟨⟨fun hlt => ?_,
    fun hor => ?_⟩, fun hboth => ?_⟩⟩, hparted.activeCount, hinv.apart, fun i => ⟨hinv.held i,
    fun hmem => ?_⟩, fun data => ?_⟩
  · cases hactive : (s.registry.locals i).active with
    | true => exact .inr rfl
    | false => exact .inl ((hfree i).mpr ⟨hlt, hactive⟩)
  · exact hor.elim (fun hmem => ((hfree i).mp hmem).1) (hparted.active_lt i)
  · exact absurd (hboth.2.symm.trans ((hfree i).mp hboth.1).2) Bool.noConfusion
  · obtain ⟨handle, hhandle, rfl⟩ := List.mem_map.mp hmem
    exact (hinv.owned handle hhandle).1
  · obtain ⟨r', result, hrun, -⟩ := hparted.alloc data
    rw [hrun]
    rfl

/-- The first slot is allocated twice, with a stale removal in between. -/
def reusedSlot : List (RegistryCall Unit Unit Unit) :=
  [.alloc (), .alloc (), .remove ⟨0, 1, indexLimit_pos, first_generation_lt⟩, .alloc (),
    .remove ⟨0, 1, indexLimit_pos, first_generation_lt⟩, .recycle ⟨1, 1, one_lt_indexLimit, first_generation_lt⟩ 9]

def reusedTenancy : Tenancy Unit Unit Unit :=
  (replay Tenancy.step (fun _ _ => true) (.new 2) reusedSlot).get (by decide +kernel)

theorem registry_partitioned_reused :
    reusedTenancy.handles.map (·.index) = [0] ∧ reusedTenancy.registry.activeCount = 1 ∧
      (∀ i, (reusedTenancy.registry.locals i).active = true ↔ i ∈ [0]) := by
  have hreplay : replay Tenancy.step (fun _ _ => true) (.new 2) reusedSlot = some reusedTenancy :=
    (Option.some_get _).symm
  have hstart : Run TenancyStep Always (fun s => ∃ capacity, s = Tenancy.new capacity)
      (Tenancy.new 2 : Tenancy Unit Unit Unit) := Run.start ⟨2, rfl⟩
  have hrun := hstart.replay (fun _ _ _ hs => hs) (fun _ _ _ => trivial) hreplay
  have hhandles : reusedTenancy.handles.map (·.index) = [0] := by decide +kernel
  obtain ⟨-, -, -, hactive, -⟩ := registry_partitioned hrun
  rw [hhandles] at hactive
  exact ⟨hhandles, by decide +kernel, hactive⟩

end Veloq.Driver
