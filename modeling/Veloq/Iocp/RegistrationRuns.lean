import Veloq.Iocp.Registration
import Veloq.Foundation.Run
import Veloq.Foundation.Slab
set_option autoImplicit false

/-!
# Iocp: the table of registered handles stays consistent

The list of the free slots is that of a slab.  A generation is drawn when a slot is made and when
it is released, so that a slot never has a generation which its index had before.  An owned handle
is in the table, in the hands of a call, in the queue or closed; the counter of a socket is the
number of the requests on it, and a socket is closed when that is 0.
-/

namespace Veloq.Iocp

open Veloq.Foundation
open Veloq.Driver (RawHandleKind IoFd)

namespace IocpFiles

variable {s s' t : IocpFiles} {fds : List IoFd} {hand : List RegisteredHandle} {base idx : Nat}
  {fd : IoFd} {slot : RegisteredSlot} {entry : RegisteredHandle} {key : SocketKey}

/-- The slot is empty. -/
def vacant (slot : RegisteredSlot) : Bool := slot.handle.isNone

theorem vacant_eq_true : vacant slot = true ↔ slot.handle = none := Option.isNone_iff_eq_none

theorem vacant_of_some (h : slot.handle = some entry) : vacant slot = false := by
  unfold vacant
  rw [h]
  rfl

theorem some_of_vacant (h : vacant slot = false) : ∃ entry, slot.handle = some entry := by
  cases hhandle : slot.handle with
  | none => exact absurd (h.symm.trans (vacant_eq_true.mpr hhandle)) (by decide)
  | some entry => exact ⟨entry, rfl⟩

/-! ## What a call does to the table -/

/-- The fields that only the table uses are the same. -/
structure SameTable (s t : IocpFiles) : Prop where
  slots : t.slots = s.slots
  freeSlots : t.freeSlots = s.freeSlots
  fileGenerationCounter : t.fileGenerationCounter = s.fileGenerationCounter
  drawn : t.drawn = s.drawn
  released : t.released = s.released

theorem dropEntry_table (registered : Bool) : SameTable s (s.dropEntry registered entry) := by
  cases entry <;> exact ⟨rfl, rfl, rfl, rfl, rfl⟩

theorem releaseSlot_slots : (s.releaseSlot idx).slots =
    (s.slots.modify idx fun slot => { slot with generation := s.fileGenerationCounter }).rdropWhile
      vacant := by
  unfold releaseSlot compactTailSlots
  dsimp only
  split <;> rfl

theorem releaseSlot_rest (s : IocpFiles) (idx : Nat) : ∃ slots free, s.releaseSlot idx =
    { s.nextFileGeneration with slots := slots, freeSlots := free } := by
  unfold releaseSlot compactTailSlots
  dsimp only
  split
  · exact ⟨_, _, rfl⟩
  · exact ⟨_, _, rfl⟩

theorem emptySlot_slots (hslot : s.slots[idx]? = some slot) :
    (s.emptySlot idx).slots = s.slots.set idx { slot with handle := none } :=
  Slab.modify_eq_set _ hslot

/-- The slot with the generation that it gets when it is released. -/
def freed (s : IocpFiles) : RegisteredSlot :=
  { handle := none, generation := s.fileGenerationCounter }

/-- The table after a slot was emptied and released. -/
theorem slots_of_release (hslot : s.slots[idx]? = some slot) (ht : SameTable (s.emptySlot idx) t) :
    (t.releaseSlot idx).slots = (s.slots.set idx s.freed).rdropWhile vacant := by
  have hlt : idx < s.slots.length := (List.getElem?_eq_some_iff.mp hslot).1
  rw [releaseSlot_slots, ht.slots, emptySlot_slots hslot,
    Slab.modify_eq_set _ (List.getElem?_set_self hlt), List.set_set, ht.fileGenerationCounter]
  rfl

/-- The `IoFd`s that are out name the slots in use. -/
structure Indexed (fds : List IoFd) (s : IocpFiles) : Prop where
  free : Slab.Free vacant s.slots s.freeSlots
  nodup : fds.Nodup
  mem_iff : ∀ fd, fd ∈ fds ↔ ∃ slot, s.slots[fd.fixedIndex]? = some slot ∧
    vacant slot = false ∧ slot.generation = fd.generation

theorem Indexed.congr (h : Indexed fds s) (ht : SameTable s t) : Indexed fds t := by
  refine ⟨?_, h.nodup, ?_⟩
  · rw [ht.slots, ht.freeSlots]
    exact h.free
  · rw [ht.slots]
    exact h.mem_iff

theorem fd_ext {fd fd' : IoFd} (hidx : fd.fixedIndex = fd'.fixedIndex)
    (hgen : fd.generation = fd'.generation) : fd = fd' := by
  cases fd
  cases fd'
  cases hidx
  cases hgen
  rfl

theorem Indexed.vacate (h : Indexed fds s) (hslot : s.slots[fd.fixedIndex]? = some slot)
    (hused : vacant slot = false) (hgen : slot.generation = fd.generation)
    (ht : SameTable (s.emptySlot fd.fixedIndex) t) :
    Indexed (fds.erase fd) (t.releaseSlot fd.fixedIndex) := by
  have hslots := slots_of_release hslot ht
  have hfree : Slab.Free vacant (s.slots.set fd.fixedIndex s.freed)
      (fd.fixedIndex :: s.freeSlots) := h.free.vacate hslot hused rfl
  refine ⟨?_, h.nodup.erase fd, fun fd' => ?_⟩
  · have hmodified : (t.slots.modify fd.fixedIndex fun slot =>
        { slot with generation := t.fileGenerationCounter }) =
        s.slots.set fd.fixedIndex s.freed := by
      rw [ht.slots, emptySlot_slots hslot, Slab.modify_eq_set _
        (List.getElem?_set_self (List.getElem?_eq_some_iff.mp hslot).1), List.set_set,
        ht.fileGenerationCounter]
      rfl
    unfold releaseSlot compactTailSlots
    dsimp only
    rw [hmodified, ht.freeSlots]
    split
    · rename_i hlength
      exact hfree.compact_self hlength
    · exact hfree.compact
  · rw [hslots, h.nodup.mem_erase_iff, h.mem_iff]
    constructor
    · rintro ⟨hne, slot', hslot', hused', hgen'⟩
      have hidx : fd'.fixedIndex ≠ fd.fixedIndex := by
        intro hidx
        rw [hidx] at hslot'
        cases hslot.symm.trans hslot'
        exact hne (fd_ext hidx (hgen'.symm.trans hgen))
      refine ⟨slot', (Slab.getElem?_compact hused').mpr ?_, hused', hgen'⟩
      rw [List.getElem?_set_ne (Ne.symm hidx)]
      exact hslot'
    · rintro ⟨slot', hslot', hused', hgen'⟩
      have hset := (Slab.getElem?_compact hused').mp hslot'
      rcases Slab.getElem?_set_iff (y := s.freed) (j := fd'.fixedIndex) hslot with
        ⟨heq, hidx⟩ | ⟨hidx, heq⟩
      · cases heq.symm.trans hset
        cases hused'
      · refine ⟨fun hf => hidx (congrArg _ hf), slot', heq.symm.trans hset, hused', hgen'⟩

/-- Every slot and every released `IoFd` has a generation that was drawn, and no slot has the one
of a released `IoFd` for its index. -/
structure Dated (s : IocpFiles) : Prop where
  counter : s.fileGenerationCounter = s.drawn % (2 ^ 64 - 1) + 1
  recent : s.drawn < 2 ^ 64 → ∀ (idx : Nat) (slot : RegisteredSlot),
    s.slots[idx]? = some slot → slot.generation ≤ s.drawn
  known : s.drawn < 2 ^ 64 → ∀ fd ∈ s.released, fd.generation ≤ s.drawn
  stale : s.drawn < 2 ^ 64 → ∀ fd ∈ s.released, ∀ slot : RegisteredSlot,
    s.slots[fd.fixedIndex]? = some slot → slot.generation ≠ fd.generation

theorem advanceGeneration_eq (n : Nat) :
    advanceGeneration (n % (2 ^ 64 - 1) + 1) = (n + 1) % (2 ^ 64 - 1) + 1 := by
  unfold advanceGeneration
  dsimp only
  split <;> omega

/-- A step that draws no generation. -/
theorem Dated.keep (h : Dated s) (hcounter : t.fileGenerationCounter = s.fileGenerationCounter)
    (hdrawn : t.drawn = s.drawn) (hreleased : t.released = s.released)
    (hslots : ∀ (idx : Nat) (slot : RegisteredSlot), t.slots[idx]? = some slot →
      ∃ old : RegisteredSlot, s.slots[idx]? = some old ∧ old.generation = slot.generation) :
    Dated t := by
  refine ⟨?_, ?_, ?_, ?_⟩
  · rw [hcounter, hdrawn]
    exact h.counter
  · rw [hdrawn]
    intro hlt idx slot hslot
    obtain ⟨old, hold, heq⟩ := hslots idx slot hslot
    rw [← heq]
    exact h.recent hlt idx old hold
  · rw [hdrawn, hreleased]
    exact h.known
  · rw [hdrawn, hreleased]
    intro hlt fd hfd slot hslot
    obtain ⟨old, hold, heq⟩ := hslots _ slot hslot
    rw [← heq]
    exact h.stale hlt fd hfd old hold

theorem Dated.congr (h : Dated s) (ht : SameTable s t) : Dated t := by
  refine h.keep ht.fileGenerationCounter ht.drawn ht.released fun idx slot hslot => ?_
  rw [ht.slots] at hslot
  exact ⟨slot, hslot, rfl⟩

/-- A step that draws a generation. -/
theorem Dated.draw (h : Dated s)
    (hcounter : t.fileGenerationCounter = advanceGeneration s.fileGenerationCounter)
    (hdrawn : t.drawn = s.drawn + 1)
    (hslots : ∀ (idx : Nat) (slot : RegisteredSlot), t.slots[idx]? = some slot →
      (∃ old : RegisteredSlot, s.slots[idx]? = some old ∧ old.generation = slot.generation) ∨
        slot.generation = s.fileGenerationCounter)
    (hreleased : ∀ fd ∈ t.released, fd ∈ s.released ∨
      (∃ old : RegisteredSlot, s.slots[fd.fixedIndex]? = some old ∧
        old.generation = fd.generation) ∧
        ∀ slot : RegisteredSlot, t.slots[fd.fixedIndex]? = some slot →
          slot.generation = s.fileGenerationCounter) : Dated t := by
  have hfresh : s.drawn + 1 < 2 ^ 64 → s.fileGenerationCounter = s.drawn + 1 := by
    intro hlt
    rw [h.counter]
    omega
  refine ⟨?_, ?_, ?_, ?_⟩
  · rw [hcounter, hdrawn, h.counter]
    exact advanceGeneration_eq _
  · rw [hdrawn]
    intro hlt idx slot hslot
    rcases hslots idx slot hslot with ⟨old, hold, heq⟩ | heq
    · have := h.recent (by omega) idx old hold
      omega
    · rw [heq, hfresh hlt]
  · rw [hdrawn]
    intro hlt fd hfd
    rcases hreleased fd hfd with hfd | ⟨⟨old, hold, heq⟩, _⟩
    · exact Nat.le_succ_of_le (h.known (by omega) fd hfd)
    · have := h.recent (by omega) _ old hold
      omega
  · rw [hdrawn]
    intro hlt fd hfd slot hslot
    rcases hreleased fd hfd with hfd | ⟨⟨old, hold, heq⟩, hnew⟩
    · have hknown := h.known (by omega) fd hfd
      rcases hslots _ slot hslot with ⟨old, hold, heq⟩ | heq
      · rw [← heq]
        exact h.stale (by omega) fd hfd old hold
      · have := hfresh hlt
        omega
    · have := hnew slot hslot
      have := hfresh hlt
      have := h.recent (by omega) _ old hold
      omega

/-- The slot of a released `IoFd` gets another generation. -/
theorem Dated.release (h : Dated s) (hslot : s.slots[fd.fixedIndex]? = some slot)
    (hgen : slot.generation = fd.generation) (ht : SameTable (s.emptySlot fd.fixedIndex) t) :
    Dated ((t.releaseSlot fd.fixedIndex).retire fd) := by
  have hslots := slots_of_release hslot ht
  have hback : ∀ (idx : Nat) (slot' : RegisteredSlot),
      (t.releaseSlot fd.fixedIndex).slots[idx]? = some slot' →
        slot' = s.freed ∧ idx = fd.fixedIndex ∨
          idx ≠ fd.fixedIndex ∧ s.slots[idx]? = some slot' := by
    intro idx slot' hslot'
    rw [hslots] at hslot'
    have hset := Slab.getElem?_of_compact hslot'
    rcases Slab.getElem?_set_iff (y := s.freed) (j := idx) hslot with ⟨heq, hidx⟩ | ⟨hidx, heq⟩
    · exact .inl ⟨Option.some.inj (hset.symm.trans heq), hidx⟩
    · exact .inr ⟨hidx, heq.symm.trans hset⟩
  obtain ⟨slots, free, heq⟩ := t.releaseSlot_rest fd.fixedIndex
  rw [heq] at hback ⊢
  refine h.draw ?_ ?_ (fun idx slot' hslot' => ?_) fun fd' hfd' => ?_
  · exact congrArg advanceGeneration ht.fileGenerationCounter
  · exact congrArg (· + 1) ht.drawn
  · rcases hback idx slot' hslot' with ⟨rfl, -⟩ | ⟨-, hold⟩
    · exact .inr rfl
    · exact .inl ⟨slot', hold, rfl⟩
  · rcases List.mem_cons.mp hfd' with rfl | hfd'
    · refine .inr ⟨⟨slot, hslot, hgen⟩, fun slot' hslot' => ?_⟩
      rcases hback _ slot' hslot' with ⟨rfl, -⟩ | ⟨hne, -⟩
      · rfl
      · exact absurd rfl hne
    · have hreleased : t.released = s.released := ht.released
      exact .inl (hreleased ▸ hfd')

theorem Dated.of_retire (h : Dated (s.retire fd)) : Dated s :=
  ⟨h.counter, h.recent, fun hlt fd' hfd' => h.known hlt fd' (List.mem_cons_of_mem fd hfd'),
    fun hlt fd' hfd' => h.stale hlt fd' (List.mem_cons_of_mem fd hfd')⟩

/-! ## An entry is put into the table -/

/-- What `insert_registered` does: a slot of the list is filled, a slot is added, or there is no
room. -/
theorem insertRegistered_cases (entry : RegisteredHandle)
    (hfree : Slab.Free vacant s.slots s.freeSlots) :
    (∃ idx free slot, s.freeSlots = idx :: free ∧ s.slots[idx]? = some slot ∧
      vacant slot = true ∧ s.insertRegistered entry =
        ({ s with freeSlots := free, slots := s.slots.set idx { slot with handle := some entry } },
          some ⟨idx, slot.generation⟩)) ∨
    (s.insertRegistered entry =
      ({ s.nextFileGeneration with
          slots := s.slots ++ [{ handle := some entry, generation := s.fileGenerationCounter }] },
        some ⟨s.slots.length, s.fileGenerationCounter⟩)) ∨
    s.insertRegistered entry = (s.dropEntry false entry, none) := by
  unfold insertRegistered
  cases hlist : s.freeSlots with
  | cons idx free =>
      rw [hlist] at hfree
      obtain ⟨slot, hslot, hvacant⟩ := (hfree.mem_iff idx).mp (List.mem_cons_self ..)
      refine .inl ⟨idx, free, slot, rfl, hslot, hvacant, ?_⟩
      simp only [hslot]
  | nil =>
      dsimp only
      split
      · exact .inr (.inl rfl)
      · exact .inr (.inr rfl)

/-- A slot is filled. -/
theorem Indexed.fill (h : Indexed fds s) {free : List Nat} (hlist : s.freeSlots = idx :: free)
    (hslot : s.slots[idx]? = some slot) (hvacant : vacant slot = true)
    (hslots : t.slots = s.slots.set idx { slot with handle := some entry })
    (hfree : t.freeSlots = free) : Indexed (fds ++ [⟨idx, slot.generation⟩]) t := by
  have hfresh : (⟨idx, slot.generation⟩ : IoFd) ∉ fds := by
    intro hmem
    obtain ⟨slot', hslot', hused, -⟩ := (h.mem_iff _).mp hmem
    cases hslot.symm.trans hslot'
    exact absurd (hused.symm.trans hvacant) (by decide)
  refine ⟨?_, h.nodup.append (List.nodup_singleton _) ?_, fun fd => ?_⟩
  · rw [hslots, hfree]
    exact (hlist ▸ h.free).fill hslot rfl
  · intro fd hfd hsingle
    rw [List.mem_singleton.mp hsingle] at hfd
    exact hfresh hfd
  · rw [hslots, List.mem_append, List.mem_singleton, h.mem_iff]
    rcases Slab.getElem?_set_iff (y := { slot with handle := some entry }) (j := fd.fixedIndex)
      hslot with ⟨heq, hidx⟩ | ⟨hidx, heq⟩
    · rw [heq]
      constructor
      · rintro (⟨slot', hslot', hused, -⟩ | rfl)
        · rw [hidx, hslot] at hslot'
          cases hslot'
          exact absurd (hused.symm.trans hvacant) (by decide)
        · exact ⟨_, rfl, rfl, rfl⟩
      · rintro ⟨slot', hslot', -, hgen⟩
        cases hslot'
        exact .inr (fd_ext hidx hgen.symm)
    · rw [heq]
      refine ⟨fun hf => hf.elim id fun hf => ?_, .inl⟩
      rw [hf] at hidx
      exact absurd rfl hidx

/-- A slot is added. -/
theorem Indexed.push (h : Indexed fds s) {generation : Nat}
    (hslots : t.slots = s.slots ++ [{ handle := some entry, generation := generation }])
    (hfree : t.freeSlots = s.freeSlots) : Indexed (fds ++ [⟨s.slots.length, generation⟩]) t := by
  have hfresh : ∀ fd ∈ fds, fd.fixedIndex < s.slots.length := by
    intro fd hfd
    obtain ⟨slot', hslot', -, -⟩ := (h.mem_iff fd).mp hfd
    exact (List.getElem?_eq_some_iff.mp hslot').1
  refine ⟨?_, h.nodup.append (List.nodup_singleton _) ?_, fun fd => ?_⟩
  · rw [hslots, hfree]
    exact h.free.push rfl
  · intro fd hfd hsingle
    rw [List.mem_singleton.mp hsingle] at hfd
    exact absurd (hfresh _ hfd) (Nat.lt_irrefl _)
  · rw [hslots, List.mem_append, List.mem_singleton, h.mem_iff]
    rcases Nat.lt_trichotomy fd.fixedIndex s.slots.length with hlt | heq | hgt
    · rw [List.getElem?_append_left hlt]
      refine ⟨fun hf => hf.elim id fun hf => ?_, .inl⟩
      rw [hf] at hlt
      exact absurd hlt (Nat.lt_irrefl _)
    · rw [heq, List.getElem?_concat_length, List.getElem?_eq_none (Nat.le_refl _)]
      constructor
      · rintro (⟨slot', hslot', -, -⟩ | rfl)
        · cases hslot'
        · exact ⟨_, rfl, rfl, rfl⟩
      · rintro ⟨slot', hslot', -, hgen⟩
        cases hslot'
        exact .inr (fd_ext heq hgen.symm)
    · rw [List.getElem?_eq_none (Nat.le_of_lt hgt), List.getElem?_eq_none (by
        rw [List.length_append, List.length_singleton]
        exact hgt)]
      refine ⟨fun hf => hf.elim id fun hf => ?_, .inl⟩
      rw [hf] at hgt
      exact absurd hgt (Nat.lt_irrefl _)

theorem Dated.fill (h : Dated s) {free : List Nat} (hslot : s.slots[idx]? = some slot) :
    Dated { s with
      freeSlots := free
      slots := s.slots.set idx { slot with handle := some entry } } := by
  refine h.keep rfl rfl rfl fun idx' slot' hslot' => ?_
  rcases Slab.getElem?_set_iff (y := { slot with handle := some entry }) (j := idx') hslot with
    ⟨heq, hidx⟩ | ⟨hidx, heq⟩
  · cases heq.symm.trans hslot'
    exact ⟨slot, hidx ▸ hslot, rfl⟩
  · exact ⟨slot', heq.symm.trans hslot', rfl⟩

theorem Dated.push (h : Dated s) :
    Dated { s.nextFileGeneration with
      slots := s.slots ++ [{ handle := some entry, generation := s.fileGenerationCounter }] } := by
  refine h.draw rfl rfl (fun idx' slot' hslot' => ?_) fun fd hfd => .inl hfd
  rcases Nat.lt_or_ge idx' s.slots.length with hlt | hge
  · refine .inl ⟨slot', ?_, rfl⟩
    exact (List.getElem?_append_left hlt).symm.trans hslot'
  · have hmem := List.mem_of_getElem? ((List.getElem?_append_right hge).symm.trans hslot')
    rw [List.mem_singleton.mp hmem]
    exact .inr rfl

/-! ## The owned handles -/

def holds (id : Nat) (slot : RegisteredSlot) : Bool :=
  decide (slot.handle.bind RegisteredHandle.owner = some id)

def owns (id : Nat) (entry : RegisteredHandle) : Bool := decide (entry.owner = some id)

theorem holds_some (id : Nat) (generation : Nat) :
    holds id { handle := some entry, generation := generation } = owns id entry := rfl

theorem not_vacant_of_holds {id : Nat} (h : holds id slot = true) : vacant slot = false := by
  cases hhandle : slot.handle with
  | none =>
      rw [holds, hhandle] at h
      cases h
  | some entry => exact vacant_of_some hhandle

/-- How often the owned handle is in the table, in the hands of the call, in the queue, or
closed. -/
def places (hand : List RegisteredHandle) (s : IocpFiles) (id : Nat) : Nat :=
  s.slots.countP (holds id) + hand.countP (owns id) +
    s.deferredSocketCleanup.countP (fun pending => owns id pending.entry) +
      s.closes.countP fun c => decide (c.id = id)

/-- Every owned handle that was handed over is in one place. -/
def Owned (hand : List RegisteredHandle) (s : IocpFiles) : Prop :=
  ∀ id, places hand s id = if id < s.received then 1 else 0

theorem Owned.congr (h : Owned hand s) {hand' : List RegisteredHandle}
    (hplaces : ∀ id, places hand' t id = places hand s id) (hreceived : t.received = s.received) :
    Owned hand' t := by
  intro id
  rw [hplaces, hreceived]
  exact h id

theorem Owned.take (h : Owned hand s) (hslot : s.slots[idx]? = some slot)
    (hentry : slot.handle = some entry) : Owned (entry :: hand) (s.emptySlot idx) := by
  refine h.congr (fun id => ?_) rfl
  have hcount := Slab.countP_set_add (y := { slot with handle := none }) (holds id) hslot
  have hholds : holds id slot = owns id entry := by
    unfold holds
    rw [hentry]
    rfl
  have hnone : holds id { slot with handle := none } = false := rfl
  rw [hholds, hnone, ← emptySlot_slots hslot] at hcount
  unfold places
  rw [List.countP_cons]
  show (s.emptySlot idx).slots.countP (holds id) + _ +
    s.deferredSocketCleanup.countP (fun pending => owns id pending.entry) +
      s.closes.countP (fun c => decide (c.id = id)) = _
  cases howns : owns id entry <;> rw [howns] at hcount <;>
    simp only [Bool.false_eq_true, if_true, if_false, Bool.toNat_true, Bool.toNat_false]
      at hcount ⊢ <;> omega

theorem Owned.releaseSlot (h : Owned hand s) : Owned hand (s.releaseSlot idx) := by
  have hcount : ∀ id, (s.releaseSlot idx).slots.countP (holds id) = s.slots.countP (holds id) := by
    intro id
    rw [releaseSlot_slots, Slab.countP_compact _ fun slot => not_vacant_of_holds]
    cases hslot : s.slots[idx]? with
    | none =>
        rw [List.modify_eq_self (List.getElem?_eq_none_iff.mp hslot)]
    | some slot =>
        rw [Slab.modify_eq_set _ hslot]
        exact Nat.add_right_cancel (Slab.countP_set_add
          (y := { slot with generation := s.fileGenerationCounter }) (holds id) hslot)
  obtain ⟨slots, free, heq⟩ := s.releaseSlot_rest idx
  refine h.congr (fun id => ?_) ?_
  · unfold places
    rw [hcount, heq]
    rfl
  · rw [heq]
    rfl

theorem Owned.defer (h : Owned (entry :: hand) s) :
    Owned hand (s.deferSocketCleanup key entry) := by
  refine h.congr (fun id => ?_) rfl
  unfold places deferSocketCleanup
  simp only [List.countP_append, List.countP_cons, List.countP_nil]
  omega

theorem owns_owned (raw : IocpHandle) (id id' : Nat) :
    owns id (.owned raw id') = decide (id' = id) :=
  decide_eq_decide.mpr Option.some_inj

theorem Owned.drop (h : Owned (entry :: hand) s) (registered : Bool) :
    Owned hand (s.dropEntry registered entry) := by
  cases entry with
  | weak raw =>
      refine h.congr (fun id => ?_) rfl
      unfold places
      rw [List.countP_cons]
      rfl
  | owned raw id' =>
      refine h.congr (fun id => ?_) rfl
      unfold places dropEntry
      simp only [List.countP_append, List.countP_cons, List.countP_nil, owns_owned]
      omega

theorem Owned.fill (h : Owned (entry :: hand) s) {free : List Nat}
    (hslot : s.slots[idx]? = some slot) (hvacant : vacant slot = true) :
    Owned hand { s with
      freeSlots := free
      slots := s.slots.set idx { slot with handle := some entry } } := by
  refine h.congr (fun id => ?_) rfl
  have hcount :=
    Slab.countP_set_add (y := { slot with handle := some entry }) (holds id) hslot
  have hholds : holds id slot = false := by
    unfold holds
    rw [vacant_eq_true.mp hvacant]
    rfl
  rw [hholds, holds_some] at hcount
  unfold places
  rw [List.countP_cons]
  dsimp only
  cases howns : owns id entry <;> rw [howns] at hcount <;>
    simp only [Bool.false_eq_true, if_true, if_false, Bool.toNat_true, Bool.toNat_false]
      at hcount ⊢ <;> omega

theorem Owned.push (h : Owned (entry :: hand) s) {generation : Nat} :
    Owned hand { s.nextFileGeneration with
      slots := s.slots ++ [{ handle := some entry, generation := generation }] } := by
  refine h.congr (fun id => ?_) rfl
  unfold places nextFileGeneration
  dsimp only
  rw [List.countP_append, List.countP_singleton, List.countP_cons, holds_some]
  omega

/-- A handle that a call has in its hands, or that is kept, was handed over. -/
theorem Owned.lt_received (h : Owned hand s) {id : Nat} (hslot : s.slots[idx]? = some slot)
    (hentry : slot.handle = some entry) (howner : entry.owner = some id) : id < s.received := by
  have h' := h id
  unfold places at h'
  have hpos : 0 < s.slots.countP (holds id) := by
    rw [List.countP_pos_iff]
    refine ⟨slot, List.mem_of_getElem? hslot, ?_⟩
    unfold holds
    rw [hentry]
    exact decide_eq_true howner
  split at h'
  · assumption
  · omega

/-! ## The requests on the sockets -/

/-- Counters and requests agree, and no socket was closed with a request in flight.  The requests
were submitted on handles below `base`. -/
structure Counted (base : Nat) (s : IocpFiles) : Prop where
  keys : ∀ pending ∈ s.deferredSocketCleanup, pending.handle = pending.entry.raw
  runtime : ∀ key, (s.runtimeOrDefault key).inflight =
    s.requests.countP fun r => decide (r.key = key)
  owners : ∀ r ∈ s.requests, ∀ id, r.owner = some id → id < base
  never_busy : ∀ c ∈ s.closes, c.raw.isSocket = true →
    c.own = 0 ∧ (c.registered = true → c.inflight = 0)

theorem Counted.congr (h : Counted base s)
    (hdeferred : t.deferredSocketCleanup = s.deferredSocketCleanup)
    (hruntime : ∀ key, (t.runtimeOrDefault key).inflight = (s.runtimeOrDefault key).inflight)
    (hrequests : t.requests = s.requests) (hcloses : t.closes = s.closes) : Counted base t := by
  refine ⟨?_, fun key => ?_, ?_, ?_⟩
  · rw [hdeferred]
    exact h.keys
  · rw [hruntime, hrequests]
    exact h.runtime key
  · rw [hrequests]
    exact h.owners
  · rw [hcloses]
    exact h.never_busy

theorem Counted.releaseSlot (h : Counted base s) : Counted base (s.releaseSlot idx) := by
  obtain ⟨slots, free, heq⟩ := s.releaseSlot_rest idx
  rw [heq]
  exact h.congr rfl (fun _ => rfl) rfl rfl

theorem inflight_setRuntime (key' : SocketKey) (state : Option SocketRuntimeState) :
    ((s.setRuntime key state).runtimeOrDefault key').inflight =
      if key' = key then (state.getD { lifecycle := .opened, inflight := 0 }).inflight
      else (s.runtimeOrDefault key').inflight := by
  unfold runtimeOrDefault setRuntime
  dsimp only
  by_cases hkey : key' = key
  · rw [if_pos hkey, hkey, Function.update_self]
  · rw [if_neg hkey, Function.update_of_ne hkey]

/-- The counter of a socket stays when its runtime changes. -/
theorem Counted.setRuntime (h : Counted base s) {state : Option SocketRuntimeState}
    (hstate : (state.getD { lifecycle := .opened, inflight := 0 }).inflight =
      (s.runtimeOrDefault key).inflight) : Counted base (s.setRuntime key state) := by
  refine h.congr rfl (fun key' => ?_) rfl rfl
  rw [inflight_setRuntime, hstate]
  split
  · rename_i heq
    rw [heq]
  · rfl

theorem Counted.defer (h : Counted base s) :
    Counted base (s.deferSocketCleanup entry.raw entry) := by
  refine ⟨fun pending hmem => ?_, h.runtime, h.owners, h.never_busy⟩
  rcases List.mem_append.mp hmem with hmem | hmem
  · exact h.keys pending hmem
  · rw [List.mem_singleton.mp hmem]

theorem Counted.drop (h : Counted base s) {registered : Bool}
    (hentry : ∀ raw id, entry = .owned raw id → raw.isSocket = true →
      (registered = false ∧ base ≤ id) ∨ s.requests.countP (fun r => decide (r.key = raw)) = 0) :
    Counted base (s.dropEntry registered entry) := by
  cases entry with
  | weak raw => exact h
  | owned raw id =>
      refine ⟨h.keys, h.runtime, h.owners, fun c hc hsocket => ?_⟩
      rcases List.mem_append.mp hc with hc | hc
      · exact h.never_busy c hc hsocket
      rw [List.mem_singleton.mp hc] at hsocket ⊢
      rcases hentry raw id rfl hsocket with ⟨rfl, hbase⟩ | hnone
      · refine ⟨?_, fun hf => by cases hf⟩
        rw [List.countP_eq_zero]
        intro r hr hown
        have hr' := h.owners r hr id (by rw [of_decide_eq_true hown])
        omega
      · refine ⟨?_, fun _ => hnone⟩
        rw [List.countP_eq_zero] at hnone ⊢
        intro r hr hown
        exact hnone r hr (decide_eq_true (by rw [of_decide_eq_true hown]))

theorem Counted.mono {base' : Nat} (h : Counted base s) (hle : base ≤ base') : Counted base' s :=
  ⟨h.keys, h.runtime, fun r hr id hid => Nat.lt_of_lt_of_le (h.owners r hr id hid) hle,
    h.never_busy⟩

/-! ## Within a call -/

/-- The invariant in the middle of a call: `acc` are the `IoFd`s that it has made, `hand` are the
entries that it has in its hands, and no request was submitted on a handle from `base` on. -/
structure Inv (acc : List IoFd) (hand : List RegisteredHandle) (base : Nat) (s : IocpFiles) :
    Prop where
  indexed : Indexed (s.outstanding ++ acc) s
  dated : Dated s
  owned : Owned hand s
  counted : Counted base s
  base_le : base ≤ s.received

/-- The invariant between two calls. -/
def Sound (s : IocpFiles) : Prop := Inv [] [] s.received s

section Steps

variable {acc : List IoFd}

theorem dropEntry_outstanding (registered : Bool) :
    (s.dropEntry registered entry).outstanding = s.outstanding := by
  cases entry <;> rfl

theorem dropEntry_received (registered : Bool) :
    (s.dropEntry registered entry).received = s.received := by
  cases entry <;> rfl

theorem releaseSlot_outstanding : (s.releaseSlot idx).outstanding = s.outstanding := by
  obtain ⟨slots, free, heq⟩ := s.releaseSlot_rest idx
  rw [heq]
  rfl

theorem releaseSlot_received : (s.releaseSlot idx).received = s.received := by
  obtain ⟨slots, free, heq⟩ := s.releaseSlot_rest idx
  rw [heq]
  rfl

theorem Inv.drop {registered : Bool} (h : Inv acc (entry :: hand) base s)
    (hentry : ∀ raw id, entry = .owned raw id → raw.isSocket = true →
      (registered = false ∧ base ≤ id) ∨ s.requests.countP (fun r => decide (r.key = raw)) = 0) :
    Inv acc hand base (s.dropEntry registered entry) := by
  refine ⟨?_, h.dated.congr (dropEntry_table registered), h.owned.drop registered,
    h.counted.drop hentry, ?_⟩
  · rw [dropEntry_outstanding]
    exact h.indexed.congr (dropEntry_table registered)
  · rw [dropEntry_received]
    exact h.base_le

theorem Inv.setRuntime (h : Inv acc hand base s) {state : Option SocketRuntimeState}
    (hstate : (state.getD { lifecycle := .opened, inflight := 0 }).inflight =
      (s.runtimeOrDefault key).inflight) : Inv acc hand base (s.setRuntime key state) :=
  ⟨⟨h.indexed.free, h.indexed.nodup, h.indexed.mem_iff⟩, h.dated.congr ⟨rfl, rfl, rfl, rfl, rfl⟩,
    h.owned.congr (fun _ => rfl) rfl, h.counted.setRuntime hstate, h.base_le⟩

theorem inflight_markClosing :
    ((s.markClosing key).runtimeOrDefault key).inflight = (s.runtimeOrDefault key).inflight :=
  (inflight_setRuntime ..).trans (if_pos rfl)

theorem Counted.markClosing (h : Counted base s) : Counted base (s.markClosing key) :=
  h.setRuntime rfl

theorem Counted.forget (h : Counted base s) (hidle : (s.runtimeOrDefault key).inflight = 0) :
    Counted base (s.forgetSocketRuntime key) := h.setRuntime hidle.symm

theorem Inv.markClosing (h : Inv acc hand base s) : Inv acc hand base (s.markClosing key) :=
  h.setRuntime rfl

theorem Inv.forget (h : Inv acc hand base s) (hidle : (s.runtimeOrDefault key).inflight = 0) :
    Inv acc hand base (s.forgetSocketRuntime key) := h.setRuntime hidle.symm

theorem Inv.defer (h : Inv acc (entry :: hand) base s) :
    Inv acc hand base (s.deferSocketCleanup entry.raw entry) :=
  ⟨⟨h.indexed.free, h.indexed.nodup, h.indexed.mem_iff⟩, h.dated.congr ⟨rfl, rfl, rfl, rfl, rfl⟩,
    h.owned.defer, h.counted.defer, h.base_le⟩

/-- The slot of an `IoFd` that is out is emptied and released; in between the call may have changed
what is not in the table. -/
theorem Inv.release (h : Inv [] hand base s) {hand' : List RegisteredHandle}
    (hslot : s.slots[fd.fixedIndex]? = some slot) (hgen : slot.generation = fd.generation)
    (hentry : slot.handle = some entry) (hcounted : Counted base t) (howned : Owned hand' t)
    (hbase : base ≤ t.received) (hout : t.outstanding = s.outstanding)
    (ht : SameTable (s.emptySlot fd.fixedIndex) t) :
    Inv [] hand' base ((t.releaseSlot fd.fixedIndex).retire fd) := by
  have hindexed := h.indexed.vacate hslot (vacant_of_some hentry) hgen ht
  refine ⟨?_, h.dated.release hslot hgen ht, howned.releaseSlot.congr (fun _ => rfl) rfl,
    hcounted.releaseSlot.congr rfl (fun _ => rfl) rfl rfl, ?_⟩
  · show Indexed ((t.releaseSlot fd.fixedIndex).outstanding.erase fd ++ []) _
    rw [releaseSlot_outstanding, hout, List.append_nil]
    rw [List.append_nil] at hindexed
    exact ⟨hindexed.free, hindexed.nodup, hindexed.mem_iff⟩
  · show base ≤ (t.releaseSlot fd.fixedIndex).received
    rw [releaseSlot_received]
    exact hbase

end Steps

/-! ## `unregister_files` and `close_registered_owned_fd` -/

theorem takeForUnregister_eq_some {entry : RegisteredHandle}
    (h : s.takeForUnregister fd = some (entry, t)) : ∃ slot,
      s.slots[fd.fixedIndex]? = some slot ∧ slot.generation = fd.generation ∧
        slot.handle = some entry ∧ t = s.emptySlot fd.fixedIndex := by
  unfold takeForUnregister at h
  split at h
  · cases h
  · rename_i slot hslot
    split at h
    · cases h
    · rename_i hgen
      obtain ⟨entry', hentry, heq⟩ := Option.map_eq_some_iff.mp h
      cases heq
      exact ⟨slot, hslot, Decidable.not_not.mp hgen, hentry, rfl⟩

theorem takeOwnedForClose_eq_ok {entry : RegisteredHandle}
    (h : s.takeOwnedForClose fd = .ok (entry, t)) : ∃ slot,
      s.slots[fd.fixedIndex]? = some slot ∧ slot.generation = fd.generation ∧
        slot.handle = some entry ∧ t = s.emptySlot fd.fixedIndex := by
  unfold takeOwnedForClose at h
  split at h
  · cases h
  · rename_i slot hslot
    split at h
    · cases h
    · rename_i hgen
      split at h
      · rename_i raw id hentry
        cases h
        exact ⟨slot, hslot, Decidable.not_not.mp hgen, hentry, rfl⟩
      · cases h
      · cases h

theorem Inv.sound (h : Inv [] [] base s) : Sound s :=
  ⟨h.indexed, h.dated, h.owned, h.counted.mono h.base_le, Nat.le_refl _⟩

theorem releaseSlot_requests (s : IocpFiles) (idx : Nat) :
    (s.releaseSlot idx).requests = s.requests := by
  obtain ⟨slots, free, heq⟩ := s.releaseSlot_rest idx
  rw [heq]
  rfl

theorem inflight_of_idle (h : (s.markClosing key).idle key = true) :
    (s.runtimeOrDefault key).inflight = 0 := by
  unfold idle at h
  rw [inflight_markClosing] at h
  exact eq_of_beq h

/-- No request is in flight on a handle that is closed because its counter is 0. -/
theorem Counted.none_of_idle (h : Counted base s)
    (hidle : (s.runtimeOrDefault entry.raw).inflight = 0) (hrequests : t.requests = s.requests)
    {raw : IocpHandle} {id : Nat} (hentry : entry = .owned raw id) :
    t.requests.countP (fun r => decide (r.key = raw)) = 0 := by
  rw [hrequests]
  subst hentry
  exact (h.runtime raw).symm.trans hidle

theorem Sound.unregisterFile (h : Sound s) (fd : IoFd) : Sound (s.unregisterFile fd) := by
  unfold IocpFiles.unregisterFile
  split
  · exact h
  · rename_i entry t htake
    obtain ⟨slot, hslot, hgen, hentry, rfl⟩ := takeForUnregister_eq_some htake
    have howned := h.owned.take hslot hentry
    have hcounted : Counted s.received (s.emptySlot fd.fixedIndex) :=
      h.counted.congr rfl (fun _ => rfl) rfl rfl
    dsimp only
    split
    · split
      · rename_i hidle
        have hzero := inflight_of_idle hidle
        have hcleared : Counted s.received
            (((s.emptySlot fd.fixedIndex).markClosing entry.raw).forgetSocketRuntime entry.raw) :=
          hcounted.markClosing.forget (inflight_markClosing.trans hzero)
        have hreleased := Inv.release h hslot hgen hentry hcleared
          (howned.congr (fun _ => rfl) rfl) h.base_le rfl ⟨rfl, rfl, rfl, rfl, rfl⟩
        refine (hreleased.drop fun raw id hraw _ => .inr ?_).sound
        have hrequests := releaseSlot_requests
          (((s.emptySlot fd.fixedIndex).markClosing entry.raw).forgetSocketRuntime entry.raw)
          fd.fixedIndex
        exact hcounted.none_of_idle hzero hrequests hraw
      · have hdeferred : Counted s.received
            (((s.emptySlot fd.fixedIndex).markClosing entry.raw).deferSocketCleanup entry.raw
              entry) := hcounted.markClosing.defer
        have howned' : Owned [entry] ((s.emptySlot fd.fixedIndex).markClosing entry.raw) :=
          howned.congr (fun _ => rfl) rfl
        exact (Inv.release h hslot hgen hentry hdeferred howned'.defer h.base_le rfl
          ⟨rfl, rfl, rfl, rfl, rfl⟩).sound
    · rename_i hsocket
      have hreleased := Inv.release h hslot hgen hentry hcounted howned h.base_le rfl
        ⟨rfl, rfl, rfl, rfl, rfl⟩
      refine (hreleased.drop fun raw id hraw hf => ?_).sound
      rw [hraw] at hsocket
      exact absurd hf hsocket

theorem Sound.unregisterFiles (h : Sound s) (fds : List IoFd) : Sound (s.unregisterFiles fds) := by
  unfold IocpFiles.unregisterFiles
  induction fds generalizing s with
  | nil => exact h
  | cons fd fds ih => exact ih (h.unregisterFile fd)

theorem Sound.closeRegisteredOwnedFd (h : Sound s) (fd : IoFd) :
    Sound (s.closeRegisteredOwnedFd fd).1 := by
  unfold IocpFiles.closeRegisteredOwnedFd
  split
  · exact h
  · rename_i entry t htake
    obtain ⟨slot, hslot, hgen, hentry, rfl⟩ := takeOwnedForClose_eq_ok htake
    have hcounted : Counted s.received (s.emptySlot fd.fixedIndex) :=
      h.counted.congr rfl (fun _ => rfl) rfl rfl
    have hreleased := Inv.release h hslot hgen hentry hcounted (h.owned.take hslot hentry)
      h.base_le rfl ⟨rfl, rfl, rfl, rfl, rfl⟩
    dsimp only
    split
    · split
      · rename_i hidle
        have hzero := inflight_of_idle hidle
        refine ((hreleased.markClosing.forget ?_).drop fun raw id hraw _ => .inr ?_).sound
        · exact inflight_markClosing.trans hzero
        · exact hreleased.counted.none_of_idle hzero rfl hraw
      · exact hreleased.markClosing.defer.sound
    · rename_i hsocket
      refine (hreleased.drop fun raw id hraw hf => ?_).sound
      rw [hraw] at hsocket
      exact absurd hf hsocket

/-! ## `drain_deferred_socket_cleanup` -/

theorem Sound.drainOne (h : Sound s) : Sound s.drainOne := by
  unfold IocpFiles.drainOne
  split
  · exact h
  · rename_i pending rest hlist
    have hkey : pending.handle = pending.entry.raw :=
      h.counted.keys pending (hlist ▸ List.mem_cons_self ..)
    have htaken : Inv [] [pending.entry] s.received { s with deferredSocketCleanup := rest } := by
      refine ⟨⟨h.indexed.free, h.indexed.nodup, h.indexed.mem_iff⟩,
        h.dated.congr ⟨rfl, rfl, rfl, rfl, rfl⟩, h.owned.congr (fun id => ?_) rfl,
        ⟨fun p hp => ?_, h.counted.runtime, h.counted.owners, h.counted.never_busy⟩, h.base_le⟩
      · unfold places
        rw [hlist]
        simp only [List.countP_cons, List.countP_nil]
        omega
      · exact h.counted.keys p (hlist ▸ List.mem_cons_of_mem _ hp)
    dsimp only
    split
    · rename_i hready
      have hzero : (s.runtimeOrDefault pending.entry.raw).inflight = 0 := by
        unfold socketReadyForCleanup at hready
        split at hready
        · cases hready
        · rename_i state hstate
          rw [Bool.and_eq_true] at hready
          unfold runtimeOrDefault
          rw [← hkey]
          dsimp only at hstate
          rw [hstate]
          exact eq_of_beq hready.2
      rw [hkey]
      exact ((htaken.forget hzero).drop fun raw id hraw _ => .inr
        (h.counted.none_of_idle hzero rfl hraw)).sound
    · have hdeferred := htaken.defer
      rw [show pending = ⟨pending.entry.raw, pending.entry⟩ from by rw [← hkey]]
      exact hdeferred.sound

theorem Sound.drainDeferredSocketCleanup (h : Sound s) : Sound s.drainDeferredSocketCleanup := by
  unfold IocpFiles.drainDeferredSocketCleanup
  generalize s.deferredSocketCleanup.length = rounds
  induction rounds generalizing s with
  | zero => exact h
  | succ rounds ih => exact ih h.drainOne

/-! ## `register_files` -/

/-- The owned handles at these places of the table were handed over from number `base` on. -/
def Fresh (base : Nat) (fds : List IoFd) (s : IocpFiles) : Prop :=
  ∀ fd ∈ fds, ∀ slot : RegisteredSlot, s.slots[fd.fixedIndex]? = some slot →
    ∀ entry, slot.handle = some entry → ∀ id, entry.owner = some id → base ≤ id

/-- All these entries were handed over from number `base` on. -/
def FreshEntries (base : Nat) (entries : List RegisteredHandle) : Prop :=
  ∀ entry ∈ entries, ∀ id, entry.owner = some id → base ≤ id

section Register

variable {acc : List IoFd}

theorem Inv.dropFresh (h : Inv acc (entry :: hand) base s)
    (hentry : ∀ id, entry.owner = some id → base ≤ id) :
    Inv acc hand base (s.dropEntry false entry) :=
  h.drop fun _ id hraw _ => .inl ⟨rfl, hentry id (by rw [hraw]; rfl)⟩

theorem Inv.dropAll {entries : List RegisteredHandle} (h : Inv acc entries base s)
    (hentries : FreshEntries base entries) : Inv acc [] base (s.dropAll entries) := by
  unfold IocpFiles.dropAll
  induction entries generalizing s with
  | nil => exact h
  | cons entry entries ih =>
      exact ih (h.dropFresh (hentries entry (List.mem_cons_self ..)))
        fun entry' hmem => hentries entry' (List.mem_cons_of_mem _ hmem)

theorem Fresh.congr (h : Fresh base fds s) (hslots : t.slots = s.slots) : Fresh base fds t := by
  intro fd hfd slot hslot
  rw [hslots] at hslot
  exact h fd hfd slot hslot

/-- An entry is put into the table. -/
theorem Inv.insert (h : Inv acc (entry :: hand) base s) (hfresh : Fresh base acc s)
    (hentry : ∀ id, entry.owner = some id → base ≤ id) :
    (∃ t fd, s.insertRegistered entry = (t, some fd) ∧ Inv (acc ++ [fd]) hand base t ∧
      Fresh base (acc ++ [fd]) t) ∨
    s.insertRegistered entry = (s.dropEntry false entry, none) := by
  rcases insertRegistered_cases entry h.indexed.free with
    ⟨idx, free, slot, hlist, hslot, hvacant, heq⟩ | heq | heq
  · refine .inl ⟨_, _, heq, ⟨?_, h.dated.fill hslot, h.owned.fill hslot hvacant,
      h.counted.congr rfl (fun _ => rfl) rfl rfl, h.base_le⟩, fun fd hfd slot' hslot' => ?_⟩
    · rw [← List.append_assoc]
      exact h.indexed.fill hlist hslot hvacant rfl rfl
    · rcases Slab.getElem?_set_iff (y := { slot with handle := some entry })
        (j := fd.fixedIndex) hslot with ⟨hset, -⟩ | ⟨hne, hset⟩
      · cases hset.symm.trans hslot'
        rintro entry' hentry'
        cases hentry'
        exact hentry
      · rcases List.mem_append.mp hfd with hfd | hfd
        · exact hfresh fd hfd slot' (hset.symm.trans hslot')
        · rw [List.mem_singleton.mp hfd] at hne
          exact absurd rfl hne
  · refine .inl ⟨_, _, heq, ⟨?_, h.dated.push, h.owned.push,
      h.counted.congr rfl (fun _ => rfl) rfl rfl, h.base_le⟩, fun fd hfd slot' hslot' => ?_⟩
    · rw [← List.append_assoc]
      exact h.indexed.push rfl rfl
    · rcases Nat.lt_or_ge fd.fixedIndex s.slots.length with hlt | hge
      · have hold : s.slots[fd.fixedIndex]? = some slot' :=
          (List.getElem?_append_left hlt).symm.trans hslot'
        rcases List.mem_append.mp hfd with hfd | hfd
        · exact hfresh fd hfd slot' hold
        · rw [List.mem_singleton.mp hfd] at hlt
          exact absurd hlt (Nat.lt_irrefl _)
      · have hmem := List.mem_of_getElem? ((List.getElem?_append_right hge).symm.trans hslot')
        rw [List.mem_singleton.mp hmem]
        rintro entry' hentry'
        cases hentry'
        exact hentry
  · exact .inr heq

/-- The first of the `IoFd`s that the call has made is taken back. -/
theorem Inv.takeBack (h : Inv (fd :: acc) hand base s) (hfresh : Fresh base (fd :: acc) s) :
    ∃ entry, s.takeForUnregister fd = some (entry, s.emptySlot fd.fixedIndex) ∧
      Inv acc hand base (((s.emptySlot fd.fixedIndex).releaseSlot fd.fixedIndex).dropEntry false
        entry) ∧
      Fresh base acc (((s.emptySlot fd.fixedIndex).releaseSlot fd.fixedIndex).dropEntry false
        entry) := by
  have hmem : fd ∈ s.outstanding ++ fd :: acc :=
    List.mem_append_right _ (List.mem_cons_self ..)
  obtain ⟨slot, hslot, hused, hgen⟩ := (h.indexed.mem_iff fd).mp hmem
  obtain ⟨entry, hentry⟩ := some_of_vacant hused
  have hsame : SameTable (s.emptySlot fd.fixedIndex) (s.emptySlot fd.fixedIndex) :=
    ⟨rfl, rfl, rfl, rfl, rfl⟩
  have hnotmem : fd ∉ s.outstanding := fun hf =>
    (List.nodup_append.mp h.indexed.nodup).2.2 fd hf fd (List.mem_cons_self ..) rfl
  have hindexed := h.indexed.vacate hslot hused hgen hsame
  rw [List.erase_append_right _ hnotmem, List.erase_cons_head] at hindexed
  have hcounted : Counted base (s.emptySlot fd.fixedIndex) :=
    h.counted.congr rfl (fun _ => rfl) rfl rfl
  have hreleased : Inv acc (entry :: hand) base
      ((s.emptySlot fd.fixedIndex).releaseSlot fd.fixedIndex) := by
    refine ⟨?_, (h.dated.release hslot hgen hsame).of_retire,
      (h.owned.take hslot hentry).releaseSlot, hcounted.releaseSlot, ?_⟩
    · rw [releaseSlot_outstanding]
      exact hindexed
    · rw [releaseSlot_received]
      exact h.base_le
  have hbase := hfresh fd (List.mem_cons_self ..) slot hslot entry hentry
  refine ⟨entry, ?_, hreleased.dropFresh hbase, Fresh.congr (fun fd' hfd' slot' hslot' => ?_)
    (dropEntry_table false).slots⟩
  · unfold takeForUnregister
    rw [hslot]
    dsimp only
    rw [if_neg (Decidable.not_not.mpr hgen), hentry]
    rfl
  · rw [slots_of_release hslot hsame] at hslot'
    have hset := Slab.getElem?_of_compact hslot'
    rcases Slab.getElem?_set_iff (y := s.freed) (j := fd'.fixedIndex) hslot with
      ⟨heq, -⟩ | ⟨-, heq⟩
    · cases heq.symm.trans hset
      intro entry' hentry'
      cases hentry'
    · exact hfresh fd' (List.mem_cons_of_mem _ hfd') slot' (heq.symm.trans hset)

theorem Inv.rollback (h : Inv acc hand base s) (hfresh : Fresh base acc s) :
    Inv [] hand base (rollback acc s) := by
  induction acc generalizing s with
  | nil => exact h
  | cons fd acc ih =>
      obtain ⟨entry, htake, hinv, hfresh'⟩ := h.takeBack hfresh
      unfold IocpFiles.rollback
      rw [htake]
      exact ih hinv hfresh'

/-- The second loop: either everything that it has done is taken back, or all the entries are in
the table. -/
theorem Inv.insertAll {prepared : List RegisteredHandle} (h : Inv acc prepared base s)
    (hfresh : Fresh base acc s) (hprepared : FreshEntries base prepared) :
    ((insertAll prepared acc s).2 = none → Inv [] [] base (insertAll prepared acc s).1) ∧
    ∀ fds, (insertAll prepared acc s).2 = some fds →
      Inv fds [] base (insertAll prepared acc s).1 := by
  induction prepared generalizing acc s with
  | nil =>
      refine ⟨fun hf => (by cases hf), fun fds hfds => ?_⟩
      cases hfds
      exact h
  | cons entry prepared ih =>
      have hrest : FreshEntries base prepared := fun entry' hmem =>
        hprepared entry' (List.mem_cons_of_mem _ hmem)
      have hentry := hprepared entry (List.mem_cons_self ..)
      unfold IocpFiles.insertAll
      rcases h.insert hfresh hentry with ⟨t, fd, heq, hinv, hfresh'⟩ | heq
      · rw [heq]
        exact ih hinv hfresh' hrest
      · rw [heq]
        refine ⟨fun _ => ?_, fun fds hfds => by cases hfds⟩
        have hdropped := h.dropFresh hentry
        exact (hdropped.rollback (hfresh.congr (dropEntry_table false).slots)).dropAll hrest

theorem withGeneration_eq (raw : IocpHandle) : ∃ counter,
    (s.withGeneration raw).1 = { s with socketGenerationCounter := counter } := by
  unfold withGeneration
  split
  · exact ⟨_, rfl⟩
  · exact ⟨s.socketGenerationCounter, rfl⟩

theorem owner_intoEntry (raw : IocpHandle) : (entry.intoEntry raw).owner = entry.owner := by
  cases entry <;> rfl

theorem owns_intoEntry (id : Nat) (raw : IocpHandle) :
    owns id (entry.intoEntry raw) = owns id entry := by
  unfold owns
  rw [owner_intoEntry]

/-- The first loop: either everything is dropped, or all the entries are prepared. -/
theorem Inv.prepare {files : List (RegisteredHandle × Probe)} {prepared : List RegisteredHandle}
    (h : Inv [] (prepared ++ files.map Prod.fst) base s)
    (hfresh : FreshEntries base (prepared ++ files.map Prod.fst)) :
    ((prepare files prepared s).2 = none → Inv [] [] base (prepare files prepared s).1) ∧
    ∀ entries, (prepare files prepared s).2 = some entries →
      Inv [] entries base (prepare files prepared s).1 ∧ FreshEntries base entries := by
  induction files generalizing prepared s with
  | nil =>
      rw [List.map_nil, List.append_nil] at h hfresh
      refine ⟨fun hf => (by cases hf), fun entries hentries => ?_⟩
      cases hentries
      exact ⟨h, hfresh⟩
  | cons file files ih =>
      obtain ⟨input, probe⟩ := file
      unfold IocpFiles.prepare
      cases hcanonical : canonical input.raw probe with
      | none => exact ⟨fun _ => h.dropAll hfresh, fun entries hf => by cases hf⟩
      | some raw =>
          obtain ⟨counter, heq⟩ := s.withGeneration_eq raw
          dsimp only
          rw [heq]
          refine ih ⟨⟨h.indexed.free, h.indexed.nodup, h.indexed.mem_iff⟩,
            h.dated.congr ⟨rfl, rfl, rfl, rfl, rfl⟩, h.owned.congr (fun id => ?_) rfl,
            h.counted.congr rfl (fun _ => rfl) rfl rfl, h.base_le⟩ fun entry hmem id hid => ?_
          · unfold places
            simp only [List.map_cons, List.countP_append, List.countP_cons, List.countP_nil,
              owns_intoEntry]
            omega
          · rw [List.append_assoc, List.mem_append, List.singleton_append, List.mem_cons] at hmem
            rcases hmem with hmem | rfl | hmem
            · exact hfresh entry (List.mem_append_left _ hmem) id hid
            · rw [owner_intoEntry] at hid
              exact hfresh input (List.mem_append_right _ (List.mem_cons_self ..)) id hid
            · exact hfresh entry
                (List.mem_append_right _ (List.mem_cons_of_mem _ hmem)) id hid

theorem Inv.markRegistered (h : Inv acc hand base s) (prepared : List RegisteredHandle) :
    Inv acc hand base (s.markRegistered prepared) := by
  unfold IocpFiles.markRegistered
  induction prepared.filter fun entry => entry.raw.isSocket generalizing s with
  | nil => exact h
  | cons entry entries ih => exact ih (h.setRuntime rfl)

theorem markRegistered_outstanding (prepared : List RegisteredHandle) :
    (s.markRegistered prepared).outstanding = s.outstanding := by
  unfold IocpFiles.markRegistered
  induction prepared.filter fun entry => entry.raw.isSocket generalizing s with
  | nil => rfl
  | cons entry entries ih => exact ih.trans rfl

theorem countP_number (id : Nat) (files : List (RegisterFd × Probe)) : ∀ next,
    ((number next files).map Prod.fst).countP (owns id) =
      if next ≤ id ∧ id < next + ((number next files).filterMap fun input => input.1.owner).length
      then 1 else 0 := by
  induction files with
  | nil =>
      intro next
      rw [if_neg]
      · rfl
      · unfold number
        rw [List.filterMap_nil, List.length_nil]
        omega
  | cons file files ih =>
      intro next
      obtain ⟨file, probe⟩ := file
      cases file with
      | borrowed raw => exact ih next
      | owned raw =>
          unfold number
          have hrest := ih (next + 1)
          simp only [List.map_cons, List.countP_cons, owns_owned, RegisteredHandle.owner,
            List.filterMap_cons_some, List.length_cons, decide_eq_true_eq] at hrest ⊢
          rw [hrest]
          grind

theorem fresh_number (files : List (RegisterFd × Probe)) : ∀ next,
    FreshEntries next ((number next files).map Prod.fst) := by
  induction files with
  | nil => exact fun _ _ hmem => absurd hmem List.not_mem_nil
  | cons file files ih =>
      intro next entry hmem id hid
      obtain ⟨file, probe⟩ := file
      cases file with
      | borrowed raw =>
          rcases List.mem_cons.mp hmem with rfl | hmem
          · cases hid
          · exact ih next entry hmem id hid
      | owned raw =>
          rcases List.mem_cons.mp hmem with rfl | hmem
          · cases hid
            exact Nat.le_refl _
          · exact Nat.le_of_succ_le (ih (next + 1) entry hmem id hid)

/-- The handles are handed over. -/
theorem Sound.receive (h : Sound s) (files : List (RegisterFd × Probe)) :
    Inv [] ((number s.received files).map Prod.fst) s.received
      { s with
        received := s.received +
          ((number s.received files).filterMap fun input => input.1.owner).length } := by
  refine ⟨⟨h.indexed.free, h.indexed.nodup, h.indexed.mem_iff⟩,
    h.dated.congr ⟨rfl, rfl, rfl, rfl, rfl⟩, fun id => ?_,
    h.counted.congr rfl (fun _ => rfl) rfl rfl, Nat.le_add_right ..⟩
  have hplaces := h.owned id
  unfold places at hplaces ⊢
  rw [countP_number]
  dsimp only
  rw [List.countP_nil] at hplaces
  split at hplaces <;> split <;> split <;> omega

theorem Sound.registerFiles (h : Sound s) (files : List (RegisterFd × Probe)) :
    Sound (s.registerFiles files).1 := by
  have hreceived : Inv [] ([] ++ (number s.received files).map Prod.fst) s.received _ :=
    h.receive files
  obtain ⟨hfail, hok⟩ := hreceived.prepare (fresh_number files s.received)
  unfold IocpFiles.registerFiles
  dsimp only
  split
  · rename_i t hprepare
    rw [hprepare] at hfail
    exact (hfail rfl).sound
  · rename_i t prepared hprepare
    rw [hprepare] at hok
    obtain ⟨hinv, hfresh⟩ := hok prepared rfl
    obtain ⟨hfail', hok'⟩ := hinv.insertAll (fun _ hmem => absurd hmem List.not_mem_nil) hfresh
    split
    · rename_i u hinsert
      rw [hinsert] at hfail'
      exact (hfail' rfl).sound
    · rename_i u fds hinsert
      rw [hinsert] at hok'
      have hmarked := (hok' fds rfl).markRegistered prepared
      have hindexed := hmarked.indexed
      rw [markRegistered_outstanding] at hindexed
      have hreturned : Inv [] [] s.received
          { u.markRegistered prepared with outstanding := u.outstanding ++ fds } := by
        refine ⟨?_, hmarked.dated.congr ⟨rfl, rfl, rfl, rfl, rfl⟩,
          hmarked.owned.congr (fun _ => rfl) rfl,
          hmarked.counted.congr rfl (fun _ => rfl) rfl rfl, hmarked.base_le⟩
        rw [List.append_nil]
        exact ⟨hindexed.free, hindexed.nodup, hindexed.mem_iff⟩
      exact hreturned.sound

end Register

/-! ## The other steps -/

theorem Sound.setRuntime (h : Sound s) {state : Option SocketRuntimeState}
    (hstate : (state.getD { lifecycle := .opened, inflight := 0 }).inflight =
      (s.runtimeOrDefault key).inflight) : Sound (s.setRuntime key state) :=
  (Inv.setRuntime h hstate).sound

theorem resolveFdHandle_eq_ok (h : resolveFdHandle s.slots fd = .ok entry) : ∃ slot,
    s.slots[fd.fixedIndex]? = some slot ∧ slot.generation = fd.generation ∧
      slot.handle = some entry := by
  unfold resolveFdHandle at h
  split at h
  · cases h
  · rename_i slot hslot
    split at h
    · cases h
    · rename_i hgen
      split at h
      · cases h
      · rename_i entry' hentry
        cases h
        exact ⟨slot, hslot, Decidable.not_not.mp hgen, hentry⟩

theorem tryAcquire_eq_some (h : s.tryAcquireSocketInflightToken key = some t) :
    ∃ state, s.socketRuntime key = some state ∧
      t = s.setRuntime key (some { state with inflight := state.inflight + 1 }) := by
  unfold tryAcquireSocketInflightToken at h
  split at h
  · cases h
  · split at h
    · cases h
    · rename_i state hstate
      split at h
      · cases h
      · split at h
        · cases h
          exact ⟨state, hstate, rfl⟩
        · cases h

theorem Sound.acquire (h : Sound s) (hs : s.acquire fd = some s') : Sound s' := by
  unfold IocpFiles.acquire at hs
  split at hs
  · cases hs
  · rename_i entry hresolve
    obtain ⟨slot, hslot, -, hentry⟩ := resolveFdHandle_eq_ok hresolve
    obtain ⟨t, hacquire, rfl⟩ := Option.map_eq_some_iff.mp hs
    obtain ⟨state, hstate, rfl⟩ := tryAcquire_eq_some hacquire
    refine Inv.sound ⟨⟨h.indexed.free, h.indexed.nodup, h.indexed.mem_iff⟩,
      h.dated.congr ⟨rfl, rfl, rfl, rfl, rfl⟩, h.owned.congr (fun _ => rfl) rfl,
      ⟨h.counted.keys, fun key => ?_, fun r hr id hid => ?_, h.counted.never_busy⟩, h.base_le⟩
    · show ((s.setRuntime entry.raw _).runtimeOrDefault key).inflight = _
      have hcount := h.counted.runtime key
      rw [inflight_setRuntime, List.countP_cons]
      by_cases hkey : key = entry.raw
      · subst hkey
        unfold runtimeOrDefault at hcount
        rw [hstate] at hcount
        rw [if_pos rfl, if_pos (decide_eq_true rfl)]
        exact congrArg (· + 1) hcount
      · rw [if_neg hkey, if_neg fun hf => hkey (of_decide_eq_true hf).symm]
        exact hcount
    · rcases List.mem_cons.mp hr with rfl | hr
      · exact h.owned.lt_received hslot hentry hid
      · exact h.counted.owners r hr id hid

theorem Sound.finish (h : Sound s) {r : SocketRequest} (hs : s.finish r = some s') :
    Sound s' := by
  unfold IocpFiles.finish at hs
  obtain ⟨hmem, heq⟩ := Option.ite_none_right_eq_some.mp hs
  cases heq
  have hcount : ∀ key, s.requests.countP (fun r => decide (r.key = key)) =
      (s.requests.erase r).countP (fun r => decide (r.key = key)) +
        if r.key = key then 1 else 0 := by
    intro key
    rw [(List.perm_cons_erase hmem).countP_eq, List.countP_cons]
    simp only [decide_eq_true_eq]
  have hkey := h.counted.runtime r.key
  rw [hcount, if_pos rfl] at hkey
  obtain ⟨state, hstate, hpos⟩ : ∃ state, s.socketRuntime r.key = some state ∧
      state.inflight ≠ 0 := by
    unfold runtimeOrDefault at hkey
    cases hstate : s.socketRuntime r.key with
    | none =>
        rw [hstate] at hkey
        exact absurd hkey (Nat.succ_ne_zero _).symm
    | some state =>
        rw [hstate] at hkey
        refine ⟨state, rfl, fun hzero => ?_⟩
        exact absurd (hkey.symm.trans hzero) (Nat.succ_ne_zero _)
  have hreleased : s.releaseSocketInflightToken r.key =
      s.setRuntime r.key (some { state with inflight := state.inflight - 1 }) := by
    unfold releaseSocketInflightToken
    rw [hstate]
    exact if_neg hpos
  rw [hreleased]
  refine Inv.sound ⟨⟨h.indexed.free, h.indexed.nodup, h.indexed.mem_iff⟩,
    h.dated.congr ⟨rfl, rfl, rfl, rfl, rfl⟩, h.owned.congr (fun _ => rfl) rfl,
    ⟨h.counted.keys, fun key => ?_, fun r' hr' => h.counted.owners r' (List.mem_of_mem_erase hr'),
      h.counted.never_busy⟩, h.base_le⟩
  show ((s.setRuntime r.key _).runtimeOrDefault key).inflight = _
  rw [inflight_setRuntime]
  by_cases hne : key = r.key
  · rw [if_pos hne, hne]
    unfold runtimeOrDefault at hkey
    rw [hstate] at hkey
    exact congrArg (· - 1) hkey
  · have hother := h.counted.runtime key
    rw [hcount, if_neg (Ne.symm hne)] at hother
    rw [if_neg hne]
    exact hother

theorem Sound.ensureActor (h : Sound s) (hs : s.ensureActor fd = some s') : Sound s' := by
  unfold IocpFiles.ensureActor at hs
  split at hs
  · cases hs
  · split at hs
    · cases hs
    · cases hs
      exact h.setRuntime rfl

theorem Sound.stop (h : Sound s) : Sound s.stopAcceptingNewSubmissions := by
  refine Inv.sound ⟨⟨h.indexed.free, h.indexed.nodup, h.indexed.mem_iff⟩,
    h.dated.congr ⟨rfl, rfl, rfl, rfl, rfl⟩, h.owned.congr (fun _ => rfl) rfl,
    h.counted.congr rfl (fun key => ?_) rfl rfl, h.base_le⟩
  unfold runtimeOrDefault stopAcceptingNewSubmissions
  dsimp only
  cases s.socketRuntime key <;> rfl

theorem Sound.step {e : IocpFilesEvent} (h : Sound s) (hs : IocpFilesStep s e s') : Sound s' := by
  unfold IocpFilesStep at hs
  cases e with
  | registerFiles files =>
      cases hs
      exact h.registerFiles files
  | unregisterFiles fds =>
      cases hs
      exact h.unregisterFiles fds
  | closeRegisteredOwnedFd fd =>
      cases hs
      exact h.closeRegisteredOwnedFd fd
  | drainDeferredSocketCleanup =>
      cases hs
      exact h.drainDeferredSocketCleanup
  | acquire fd => exact h.acquire hs
  | finish r => exact h.finish hs
  | ensureActor fd => exact h.ensureActor hs
  | stopAcceptingNewSubmissions =>
      cases hs
      exact h.stop

theorem Sound.new : Sound new := by
  refine ⟨⟨.nil, List.nodup_nil, fun fd => ⟨fun hf => absurd hf List.not_mem_nil, ?_⟩⟩,
    ⟨rfl, ?_, ?_, ?_⟩, fun id => rfl, ⟨?_, fun _ => rfl, ?_, ?_⟩, Nat.le_refl _⟩
  · rintro ⟨slot, hslot, -⟩
    cases hslot
  · exact fun _ _ _ hslot => by cases hslot
  · exact fun _ _ hfd => absurd hfd List.not_mem_nil
  · exact fun _ _ hfd => absurd hfd List.not_mem_nil
  · exact fun _ hmem => absurd hmem List.not_mem_nil
  · exact fun _ hmem => absurd hmem List.not_mem_nil
  · exact fun _ hmem => absurd hmem List.not_mem_nil

theorem Sound.consistent (h : Sound s) : s.Consistent := by
  refine ⟨h.indexed.free.nodup, fun idx => ?_, ?_, fun hlt fd hfd entry hresolve => ?_,
    fun id hid => ?_, h.counted.runtime, h.counted.never_busy⟩
  · rw [h.indexed.free.mem_iff]
    simp only [vacant_eq_true]
  · have hnodup := h.indexed.nodup
    rwa [List.append_nil] at hnodup
  · obtain ⟨slot, hslot, hgen, -⟩ := resolveFdHandle_eq_ok hresolve
    exact h.dated.stale hlt fd hfd slot hslot hgen
  · have hplaces := h.owned id
    rw [if_pos hid] at hplaces
    exact hplaces

/-- Over all runs: whatever is registered, released and closed in whatever order, whichever calls
fail, the table is consistent. -/
theorem table_consistent {s : IocpFiles} (hrun : Run IocpFilesStep Always (fun s => s = new) s) :
    s.Consistent := by
  refine Sound.consistent (hrun.invariant ?_ ?_)
  · rintro _ rfl
    exact Sound.new
  · exact fun _ _ _ h _ hs => h.step hs

/-- A socket is closed while a request is in flight; its slot is cut off and made again. -/
def regrown : IocpFiles :=
  (replay step (fun _ _ => true) new
    [.registerFiles [(.owned (.socket 7 0), .socket)], .acquire ⟨0, 1⟩,
      .closeRegisteredOwnedFd ⟨0, 1⟩, .registerFiles [(.borrowed (.file 9), .file)],
      .finish ⟨.socket 7 1, some 0⟩, .drainDeferredSocketCleanup]).get (by decide +kernel)

theorem table_consistent_example : regrown.outstanding = [⟨0, 3⟩] ∧
    regrown.closes =
      [{ raw := .socket 7 1, id := 0, registered := true, inflight := 0, own := 0 }] ∧
      regrown.Consistent := by
  have hreplay : replay step (fun _ _ => true) new _ = some regrown := (Option.some_get _).symm
  have hstart : Run IocpFilesStep Always (fun s => s = new) new := .start rfl
  refine ⟨by decide +kernel, by decide +kernel, table_consistent ?_⟩
  exact hstart.replay (fun _ _ _ hs => hs) (fun _ _ _ => trivial) hreplay

end IocpFiles

end Veloq.Iocp
