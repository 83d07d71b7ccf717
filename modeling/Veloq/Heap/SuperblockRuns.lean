import Veloq.Foundation.Bits
import Veloq.Heap.Superblock
set_option autoImplicit false

/-!
# Heap: a superblock is returned once in careful runs

The slots that are handed out are not free, so the mask is completed by one `free_one` at a
time; together with the parts of the calls in the return this is kept by every careful step.
Where `free_one` and `set_inactive` overlap, both find the superblock empty and given up.
-/

namespace Veloq.Heap

open Veloq.Foundation

/-- The slots in use, by their holders and by the calls that are about to free them. -/
structure Slots (mask : BitVec 64) (live : List Nat) (tasks : Nat → SlotPc) : Prop where
  taken : ∀ i ∈ live, i < 64 ∧ mask.getLsbD i = false
  nodup : live.Nodup
  held : ∀ g i, tasks g = .fetchOr i → i < 64 ∧ mask.getLsbD i = false ∧ i ∉ live
  single : ∀ g g' i, tasks g = .fetchOr i → tasks g' = .fetchOr i → g = g'

namespace Slots

variable {mask : BitVec 64} {live : List Nat} {tasks : Nat → SlotPc} {f idx : Nat} {pc : SlotPc}

/-- A call that does not begin to free a slot goes on. -/
theorem move (h : Slots mask live tasks) (hpc : ∀ i, pc ≠ .fetchOr i) :
    Slots mask live (Function.update tasks f pc) := by
  have hkeep : ∀ g i, Function.update tasks f pc g = .fetchOr i → tasks g = .fetchOr i := by
    intro g i hg
    by_cases hne : g = f
    · subst hne
      rw [Function.update_self] at hg
      exact absurd hg (hpc i)
    · rwa [Function.update_of_ne hne] at hg
  exact ⟨h.taken, h.nodup, fun g i hg => h.held g i (hkeep g i hg),
    fun g g' i hg hg' => h.single g g' i (hkeep g i hg) (hkeep g' i hg')⟩

/-- A free slot is handed out. -/
theorem alloc (h : Slots mask live tasks) (hidx : idx < 64) (hfree : mask.getLsbD idx = true) :
    Slots (mask &&& ~~~(1#64 <<< idx)) (idx :: live) tasks := by
  have hbit : ∀ i, mask.getLsbD i = false → i ≠ idx := by
    rintro i hi rfl
    rw [hfree] at hi
    exact absurd hi (by simp)
  have hclear : ∀ i, mask.getLsbD i = false → (mask &&& ~~~(1#64 <<< idx)).getLsbD i = false := by
    intro i hi
    rw [Bits.getLsbD_and_not_bit mask hidx, hi]
    rfl
  refine ⟨fun i hi => ?_, List.nodup_cons.mpr ⟨fun hmem => ?_, h.nodup⟩, fun g i hg => ?_,
    h.single⟩
  · rcases List.mem_cons.mp hi with rfl | hi
    · refine ⟨hidx, ?_⟩
      rw [Bits.getLsbD_and_not_bit mask hidx]
      simp
    · exact ⟨(h.taken i hi).1, hclear i (h.taken i hi).2⟩
  · exact hbit idx (h.taken idx hmem).2 rfl
  · obtain ⟨hlt, hi, hnot⟩ := h.held g i hg
    exact ⟨hlt, hclear i hi, fun hmem => (List.mem_cons.mp hmem).elim (hbit i hi) hnot⟩

/-- The holder of a slot begins to free it. -/
theorem free (h : Slots mask live tasks) (hmem : idx ∈ live) :
    Slots mask (live.erase idx) (Function.update tasks f (.fetchOr idx)) := by
  have hother : ∀ g i, g ≠ f → Function.update tasks f (.fetchOr idx) g = .fetchOr i →
      tasks g = .fetchOr i := by
    intro g i hne hg
    rwa [Function.update_of_ne hne] at hg
  have hself : ∀ i, Function.update tasks f (.fetchOr idx) f = .fetchOr i → i = idx := by
    intro i hi
    rw [Function.update_self] at hi
    exact (SlotPc.fetchOr.inj hi).symm
  refine ⟨fun i hi => h.taken i (List.mem_of_mem_erase hi), h.nodup.erase idx, fun g i hg => ?_,
    fun g g' i hg hg' => ?_⟩
  · by_cases hne : g = f
    · subst hne
      obtain rfl := hself i hg
      exact ⟨(h.taken i hmem).1, (h.taken i hmem).2, h.nodup.not_mem_erase⟩
    · obtain ⟨hlt, hi, hnot⟩ := h.held g i (hother g i hne hg)
      exact ⟨hlt, hi, fun hi' => hnot (List.mem_of_mem_erase hi')⟩
  · by_cases hne : g = f
    · by_cases hne' : g' = f
      · rw [hne, hne']
      · rw [hne] at hg
        obtain rfl := hself i hg
        exact absurd hmem (h.held g' i (hother g' i hne' hg')).2.2
    · by_cases hne' : g' = f
      · rw [hne'] at hg'
        obtain rfl := hself i hg'
        exact absurd hmem (h.held g i (hother g i hne hg)).2.2
      · exact h.single g g' i (hother g i hne hg) (hother g' i hne' hg')

/-- A slot is free. -/
theorem freed (h : Slots mask live tasks) (hf : tasks f = .fetchOr idx)
    (hpc : ∀ i, pc ≠ .fetchOr i) :
    Slots (mask ||| 1#64 <<< idx) live (Function.update tasks f pc) := by
  obtain ⟨hidx, -, hnot⟩ := h.held f idx hf
  have hset : ∀ i, i ≠ idx → mask.getLsbD i = false →
      (mask ||| 1#64 <<< idx).getLsbD i = false := by
    intro i hne hi
    rw [Bits.getLsbD_or_bit mask hidx, hi]
    simp [hne]
  have hother : ∀ g i, Function.update tasks f pc g = .fetchOr i → g ≠ f ∧ tasks g = .fetchOr i := by
    intro g i hg
    by_cases hne : g = f
    · subst hne
      rw [Function.update_self] at hg
      exact absurd hg (hpc i)
    · rw [Function.update_of_ne hne] at hg
      exact ⟨hne, hg⟩
  refine ⟨fun i hi => ⟨(h.taken i hi).1, hset i ?_ (h.taken i hi).2⟩, h.nodup, fun g i hg => ?_,
    fun g g' i hg hg' => h.single g g' i (hother g i hg).2 (hother g' i hg').2⟩
  · rintro rfl
    exact hnot hi
  · obtain ⟨hne, hg⟩ := hother g i hg
    obtain ⟨hlt, hi, hnot'⟩ := h.held g i hg
    refine ⟨hlt, hset i ?_ hi, hnot'⟩
    rintro rfl
    exact hne (h.single g f i hg hf)

end Slots

/-- A mask with a zero is not full. -/
theorem ne_allOnes {mask : BitVec 64} {i : Nat} (hi : i < 64) (h : mask.getLsbD i = false) :
    mask ≠ BitVec.allOnes 64 := by
  rintro rfl
  rw [BitVec.getLsbD_allOnes] at h
  simp [hi] at h

namespace SlotPc

variable {pc : SlotPc}

theorem role_eq_check : pc.role = .check ↔ pc = .check := by cases pc <;> simp [role]

theorem role_eq_load : pc.role = .load ↔ pc = .load := by cases pc <;> simp [role]

theorem settling_role : pc.role.settling = pc.settling := by cases pc <;> rfl

end SlotPc

namespace Superblock

structure Inv (c : Chunk) (s : Superblock) : Prop where
  target : c.shardForIndex (Chunk.baseSlot s.index) = s.home
  homed : ∀ b ∈ s.returned, b = s.home
  slots : Slots s.state.freeMask s.live s.tasks
  returning : Returning s.entry s.state.isActive (decide (s.state.freeMask = BitVec.allOnes 64))
    s.returned.length fun g => (s.tasks g).role

variable {c : Chunk} {s s' : Superblock} {f g : Nat} {pc : SlotPc}

/-- The parts of the calls after a step of `f`. -/
theorem role_goto (s : Superblock) (f : Nat) (pc : SlotPc) :
    (fun g => ((s.goto f pc).tasks g).role) =
      Function.update (fun g => (s.tasks g).role) f pc.role := by
  funext g
  show (Function.update s.tasks f pc g).role = _
  by_cases hne : g = f
  · subst hne
    rw [Function.update_self, Function.update_self]
  · rw [Function.update_of_ne hne, Function.update_of_ne hne]

/-- A step of `f` that leaves its part as it is. -/
theorem role_same (h : pc.role = (s.tasks f).role) :
    (fun g => ((s.goto f pc).tasks g).role) = fun g => (s.tasks g).role := by
  rw [role_goto, h, Function.update_eq_self]

namespace Inv

/-- A call without a part in the return goes on. -/
theorem move (h : Inv c s) (hpc : ∀ i, pc ≠ .fetchOr i) (hrole : pc.role = (s.tasks f).role) :
    Inv c (s.goto f pc) := by
  refine ⟨h.target, h.homed, h.slots.move hpc, ?_⟩
  rw [role_same hrole]
  exact h.returning

theorem allocLoop (h : Inv c s) (hrole : (s.tasks f).role = .gone) : Inv c (s.allocLoop f) := by
  unfold Superblock.allocLoop
  split
  · exact h.move nofun hrole.symm
  · exact h.move nofun hrole.symm

theorem allocExchange (h : Inv c s) {old : BitVec 64} (hpc : s.tasks f = .exchange old)
    (hcare : s.state.freeMask = old →
      s.state.isActive = true ∨ s.returned = [] ∧ ∀ g, (s.tasks g).settling = false) :
    Inv c (s.allocExchange f old) := by
  have hrole : (s.tasks f).role = .gone := by
    rw [hpc]
    rfl
  unfold Superblock.allocExchange
  split
  · rename_i hmask
    by_cases hzero : s.state.freeMask = 0
    · rw [SuperblockState.allocOne, if_pos hzero]
      exact h.move nofun hrole.symm
    · obtain ⟨idx, hidx, hfree, halloc⟩ := SuperblockState.allocOne_of_ne hzero
      rw [halloc]
      have hgone : ∀ i, SlotPc.gone ≠ .fetchOr i := nofun
      have hslots := (h.slots.alloc hidx hfree).move (f := f) hgone
      refine ⟨h.target, h.homed, hslots, ?_⟩
      have hfull := ne_allOnes hidx (hslots.taken idx (List.mem_cons_self ..)).2
      have hreturning : Returning s.entry s.state.isActive false s.returned.length
          fun g => (s.tasks g).role := by
        refine h.returning.alloc ((hcare hmask).imp_right fun ⟨hnil, hnone⟩ => ⟨?_, fun g => ?_⟩)
        · rw [hnil]
          rfl
        · rw [SlotPc.settling_role]
          exact hnone g
      have hsame : SlotPc.gone.role = (s.tasks f).role := hrole.symm
      rw [← decide_eq_false hfull, ← role_same hsame] at hreturning
      exact hreturning
  · exact h.allocLoop hrole

theorem free (h : Inv c s) {idx : Nat} (hpc : s.tasks f = .fresh) (hmem : idx ∈ s.live) :
    Inv c (s.free f idx) := by
  refine ⟨h.target, h.homed, h.slots.free hmem, ?_⟩
  have hsame : (fun g => ((s.goto f (.fetchOr idx)).tasks g).role) = fun g => (s.tasks g).role :=
    role_same (by rw [hpc]; rfl)
  show Returning _ _ _ _ fun g => ((s.goto f (.fetchOr idx)).tasks g).role
  rw [hsame]
  exact h.returning

theorem freeFetchOr (h : Inv c s) {idx : Nat} (hpc : s.tasks f = .fetchOr idx)
    (hcare : s.state.freeMask ||| 1#64 <<< idx = BitVec.allOnes 64 → ∀ g, s.tasks g ≠ .load) :
    Inv c (s.freeFetchOr f idx) := by
  obtain ⟨hidx, hbit, -⟩ := h.slots.held f idx hpc
  have hbefore := h.returning
  rw [decide_eq_false (ne_allOnes hidx hbit)] at hbefore
  unfold Superblock.freeFetchOr
  simp only
  split
  · rename_i hfull
    refine ⟨h.target, h.homed, h.slots.freed hpc nofun, ?_⟩
    show Returning _ _ (decide (s.state.freeMask ||| 1#64 <<< idx = BitVec.allOnes 64)) _
      fun g => ((s.goto f .check).tasks g).role
    rw [decide_eq_true hfull, role_goto]
    refine hbefore.complete (by rw [hpc]; rfl) fun g hg => ?_
    exact hcare hfull g (SlotPc.role_eq_load.mp hg)
  · rename_i hpart
    refine ⟨h.target, h.homed, h.slots.freed hpc nofun, ?_⟩
    show Returning _ _ (decide (s.state.freeMask ||| 1#64 <<< idx = BitVec.allOnes 64)) _
      fun g => ((s.goto f .gone).tasks g).role
    rw [decide_eq_false hpart, role_same (by rw [hpc]; rfl)]
    exact hbefore

theorem freeCheck (h : Inv c s) (hpc : s.tasks f = .check) : Inv c (s.freeCheck f) := by
  have hbefore := h.returning
  have hrole : (s.tasks f).role = .check := by
    rw [hpc]
    rfl
  unfold Superblock.freeCheck
  cases hactive : s.state.isActive with
  | true =>
    refine ⟨h.target, h.homed, h.slots.move nofun, ?_⟩
    rw [hactive] at hbefore
    rw [role_goto]
    show Returning _ s.state.isActive _ _ _
    rw [hactive]
    exact hbefore.checkActive hrole
  | false =>
    refine ⟨h.target, h.homed, h.slots.move nofun, ?_⟩
    rw [hactive] at hbefore
    rw [role_goto]
    show Returning _ s.state.isActive _ _ _
    rw [hactive]
    exact hbefore.checkInactive hrole

theorem retire (h : Inv c s) (hentry : s.entry = true) : Inv c (s.retire f) := by
  have hbefore := h.returning
  rw [hentry] at hbefore
  refine ⟨h.target, h.homed, h.slots.move nofun, ?_⟩
  show Returning _ _ _ _ fun g => ((s.goto f .store).tasks g).role
  rw [role_goto]
  exact hbefore.retire

theorem retireStore (h : Inv c s) (hpc : s.tasks f = .store) (hcare : ∀ g, s.tasks g ≠ .check) :
    Inv c (s.retireStore f) := by
  refine ⟨h.target, h.homed, h.slots.move nofun, ?_⟩
  show Returning _ _ _ _ fun g => ((s.goto f .load).tasks g).role
  rw [role_goto]
  exact h.returning.clear (by rw [hpc]; rfl) fun g hg => hcare g (SlotPc.role_eq_check.mp hg)

theorem retireLoad (h : Inv c s) (hpc : s.tasks f = .load) : Inv c (s.retireLoad f) := by
  have hlook := h.returning.look (f := f) (by rw [hpc]; rfl)
  unfold Superblock.retireLoad
  split
  · rename_i hfull
    refine ⟨h.target, h.homed, h.slots.move nofun, ?_⟩
    rw [decide_eq_true hfull] at hlook
    rw [role_goto]
    show Returning _ _ (decide (s.state.freeMask = _)) _ _
    rw [decide_eq_true hfull]
    exact hlook
  · rename_i hpart
    refine ⟨h.target, h.homed, h.slots.move nofun, ?_⟩
    rw [decide_eq_false hpart] at hlook
    rw [role_goto]
    show Returning _ _ (decide (s.state.freeMask = _)) _ _
    rw [decide_eq_false hpart]
    exact hlook

theorem deallocSuperblock (h : Inv c s) (hpc : s.tasks f = .dealloc) :
    Inv c (s.deallocSuperblock f c) := by
  refine ⟨h.target, fun b hb => ?_, h.slots.move nofun, ?_⟩
  · rcases List.mem_cons.mp hb with rfl | hb
    · exact h.target
    · exact h.homed b hb
  · show Returning _ _ _ (s.returned.length + 1) fun g => ((s.goto f .gone).tasks g).role
    rw [role_goto]
    exact h.returning.dealloc (by rw [hpc]; rfl)

/-- Every careful step keeps the invariant. -/
theorem step (h : Inv c s) {e : Nat × SlotAction} (hcare : Careful s e)
    (hs : SuperblockStep c s e s') : Inv c s' := by
  obtain ⟨f, a⟩ := e
  unfold SuperblockStep Superblock.step at hs
  split at hs
  case h_1 hpc _ => cases hs; exact h.allocLoop (congrArg SlotPc.role hpc)
  case h_2 hpc _ =>
    split at hs
    · cases hs
      exact h.free hpc ‹_›
    · exact absurd hs (by simp)
  case h_3 hpc _ =>
    split at hs
    · cases hs
      exact h.retire ‹_›
    · exact absurd hs (by simp)
  case h_4 hpc _ => cases hs; exact h.allocLoop (congrArg SlotPc.role hpc)
  case h_5 ha =>
    have hcare := hcare ha
    unfold Superblock.advance at hs
    cases hpc : s.tasks f <;> simp only [hpc] at hs hcare
    case exchange old => cases hs; exact h.allocExchange hpc hcare
    case fetchOr idx => cases hs; exact h.freeFetchOr hpc hcare
    case check => cases hs; exact h.freeCheck hpc
    case store => cases hs; exact h.retireStore hpc hcare
    case load => cases hs; exact h.retireLoad hpc
    case dealloc => cases hs; exact h.deallocSuperblock hpc
    all_goals exact absurd hs (by simp)
  case h_6 => exact absurd hs (by simp)

/-- The base slot of the superblock leads back to where it was taken from. -/
theorem acquired {shard block : Nat} (hgeometry : superblockSize ∣ c.slotsPerShard)
    (hblock : block < c.slotsPerShard) (haligned : superblockSize ∣ block) :
    Inv c (acquire c shard block) := by
  have hbase : Chunk.baseSlot (Chunk.superblockIndex (c.fromShardLocal shard block)) =
      shard * c.slotsPerShard + block :=
    Nat.div_mul_cancel (Nat.dvd_add (hgeometry.mul_left shard) haligned)
  refine ⟨?_, nofun, ⟨nofun, List.nodup_nil, nofun, nofun⟩, ?_⟩
  · obtain ⟨hdiv, hmod⟩ := shard_local_round_trip shard hblock
    show c.shardForIndex (Chunk.baseSlot
      (Chunk.superblockIndex (c.fromShardLocal shard block))) = (shard, block)
    unfold Chunk.shardForIndex
    rw [hbase, hdiv, hmod]
  · exact ⟨fun _ => ⟨rfl, fun _ => rfl⟩, nofun, nofun, fun _ => ⟨rfl, fun _ => ⟨nofun, nofun⟩⟩,
      nofun, nofun⟩

end Inv

/-- A superblock has just been taken from an aligned block of a shard. -/
def Acquired (c : Chunk) (s : Superblock) : Prop :=
  ∃ shard block, block < c.slotsPerShard ∧ superblockSize ∣ block ∧ s = acquire c shard block

/-- No call is in progress. -/
def Idle (s : Superblock) : Prop := ∀ g, s.tasks g = .fresh ∨ s.tasks g = .gone

/-- Only `dealloc_superblock` returns the superblock. -/
theorem dealloc_of_returned {e : Nat × SlotAction} (hs : SuperblockStep c s e s')
    (hne : s'.returned ≠ s.returned) : s.tasks e.1 = .dealloc := by
  obtain ⟨f, a⟩ := e
  unfold SuperblockStep Superblock.step at hs
  split at hs
  case h_5 =>
    unfold Superblock.advance at hs
    cases hpc : s.tasks f <;> simp only [hpc, allocExchange, allocLoop] at hs
    case dealloc => rfl
    all_goals repeat' split at hs
    all_goals cases hs <;> exact absurd rfl hne
  all_goals
    try simp only [allocLoop] at hs
    repeat' split at hs
  all_goals cases hs <;> exact absurd rfl hne

end Superblock

/-- In careful runs a superblock is returned at most once, to where it was taken from, only
when all its slots are free and it was given up, and at last indeed. -/
theorem superblock_returned_once {c : Chunk} (hgeometry : superblockSize ∣ c.slotsPerShard)
    {s : Superblock}
    (h : Run (SuperblockStep c) Superblock.Careful (Superblock.Acquired c) s) :
    (s.returned.length ≤ 1 ∧ ∀ b ∈ s.returned, b = s.home) ∧
      (∀ e s', SuperblockStep c s e s' → s'.returned ≠ s.returned →
        s.state.freeMask = BitVec.allOnes 64 ∧ s.state.isActive = false) ∧
      (s.Idle → s.state.freeMask = BitVec.allOnes 64 → s.state.isActive = false →
        s.returned.length = 1) := by
  have hinv : s.Inv c := by
    refine h.invariant ?_ fun _ _ _ hinv hcare hs => hinv.step hcare hs
    rintro _ ⟨shard, block, hblock, haligned, rfl⟩
    exact Superblock.Inv.acquired hgeometry hblock haligned
  refine ⟨⟨?_, hinv.homed⟩, fun e s' hs hne => ?_, fun hidle hfull hinactive => ?_⟩
  · by_cases hload : ∃ g, s.tasks g = .load
    · obtain ⟨g, hg⟩ := hload
      rw [(hinv.returning.loading g (by rw [hg]; rfl)).1]
      exact Nat.zero_le 1
    · cases hactive : s.state.isActive with
      | true =>
        rw [(hinv.returning.running hactive).1]
        exact Nat.zero_le 1
      | false =>
        obtain ⟨n, -, hsum⟩ := hinv.returning.settled hactive fun g hg =>
          hload ⟨g, SlotPc.role_eq_load.mp hg⟩
        have hle := Bool.toNat_le (decide (s.state.freeMask = BitVec.allOnes 64))
        omega
  · have hpc := Superblock.dealloc_of_returned hs hne
    obtain ⟨hfull, hinactive, -⟩ := hinv.returning.full_of_dealloc (f := e.1) (by rw [hpc]; rfl)
    exact ⟨of_decide_eq_true hfull, hinactive⟩
  · have hgone : ∀ g, (s.tasks g).role = .gone := by
      intro g
      rcases hidle g with hg | hg <;> rw [hg] <;> rfl
    obtain ⟨n, hcensus, hsum⟩ := hinv.returning.settled hinactive fun g hg => by
      rw [hgone g] at hg
      exact absurd hg (by simp)
    rw [decide_eq_true hfull] at hsum
    have hzero : n = 0 := by
      by_contra hne
      obtain ⟨g, hg⟩ := hcensus.exists_of_pos (Nat.pos_of_ne_zero hne)
      rw [hgone g] at hg
      exact absurd hg (by simp [SlotPc.settling])
    rw [hzero, Nat.zero_add] at hsum
    exact hsum

/-! ## Two runs -/

/-- A chunk with shards of two superblocks; nothing else of it matters here. -/
def pairChunk : Chunk :=
  { shards := [], superblocks := [], memoryLen := 0, slotsPerShard := 2 * superblockSize }

/-- A slot is taken, the superblock is given up, and the slot is freed. -/
def givenUp : List (Nat × SlotAction) :=
  [(0, .alloc), (0, .advance), (1, .retire), (1, .advance), (1, .advance), (2, .free 0),
    (2, .advance), (2, .advance), (2, .advance)]

namespace Superblock

/-- A test for careful steps: none of the calls that can do harm to each other overlap. -/
def carefulTest (n : Nat) (s : Superblock) (e : Nat × SlotAction) : Bool :=
  match s.tasks e.1 with
  | .store | .fetchOr _ => decide (∀ g < n, s.tasks g ≠ .check ∧ s.tasks g ≠ .load)
  | .exchange _ => s.state.isActive
  | _ => true

/-- Only the first `n` calls have begun. -/
def Within (n : Nat) (s : Superblock) : Prop := ∀ g, n ≤ g → s.tasks g = .fresh

theorem careful_of_test {n : Nat} (s : Superblock) (e : Nat × SlotAction) (hw : Within n s)
    (h : carefulTest n s e = true) : s.Careful e := by
  intro _
  unfold carefulTest at h
  have hrest : (∀ g < n, s.tasks g ≠ .check ∧ s.tasks g ≠ .load) →
      ∀ g, s.tasks g ≠ .check ∧ s.tasks g ≠ .load := by
    intro hfirst g
    by_cases hg : g < n
    · exact hfirst g hg
    · rw [hw g (Nat.not_lt.mp hg)]
      exact ⟨nofun, nofun⟩
  cases hpc : s.tasks e.1 <;> simp only [hpc] at h ⊢
  case store => exact fun g => (hrest (of_decide_eq_true h) g).1
  case fetchOr idx => exact fun _ g => (hrest (of_decide_eq_true h) g).2
  case exchange old => exact fun _ => Or.inl h

theorem Within.step {c : Chunk} {n : Nat} {s s' : Superblock} {e : Nat × SlotAction}
    (h : Within n s) (he : e.1 < n) (hs : s.step c e = some s') : Within n s' := by
  intro g hg
  have hset : ∀ (s : Superblock) (pc : SlotPc), (s.goto e.1 pc).tasks g = s.tasks g :=
    fun _ _ => Function.update_of_ne (by omega) ..
  unfold Superblock.step at hs
  split at hs
  case h_5 =>
    unfold Superblock.advance at hs
    cases hpc : s.tasks e.1 <;> simp only [hpc, allocExchange, allocLoop] at hs
    all_goals repeat' split at hs
    all_goals cases hs <;> exact (hset ..).trans (h g hg)
  all_goals
    try simp only [allocLoop] at hs
    repeat' split at hs
  all_goals cases hs <;> exact (hset ..).trans (h g hg)

end Superblock

def givenUpBlock : Superblock :=
  (replay (fun s => s.step pairChunk) (Superblock.carefulTest 3) (.acquire pairChunk 1 64)
    givenUp).get (by decide +kernel)

theorem superblock_given_up :
    superblockSize ∣ pairChunk.slotsPerShard ∧
      Run (SuperblockStep pairChunk) Superblock.Careful (Superblock.Acquired pairChunk)
        givenUpBlock ∧
      givenUpBlock.Idle ∧ givenUpBlock.returned = [(1, 64)] ∧ givenUpBlock.returned.length ≤ 1 := by
  have hgeometry : superblockSize ∣ pairChunk.slotsPerShard := ⟨2, rfl⟩
  have hreplay : replay (fun s => s.step pairChunk) (Superblock.carefulTest 3)
      (.acquire pairChunk 1 64) givenUp = some givenUpBlock := (Option.some_get _).symm
  have hkeep : ∀ e ∈ givenUp, ∀ s s', Superblock.Within 3 s →
      s.step pairChunk e = some s' → Superblock.Within 3 s' := by
    have hlt : ∀ e ∈ givenUp, e.1 < 3 := by decide
    exact fun e he s s' hw hs => hw.step (hlt e he) hs
  have hstart : Run (SuperblockStep pairChunk) Superblock.Careful (Superblock.Acquired pairChunk)
      (.acquire pairChunk 1 64) := Run.start ⟨1, 64, by decide, ⟨1, rfl⟩, rfl⟩
  have hrun := Run.replay_within (fun _ _ _ h => h) hkeep Superblock.careful_of_test
    (fun _ _ => rfl) hstart hreplay
  have hwithin := replay_invariant hkeep (fun _ _ => rfl) hreplay
  refine ⟨hgeometry, hrun, fun g => ?_, by decide +kernel,
    (superblock_returned_once hgeometry hrun).1.1⟩
  by_cases hg : g < 3
  · revert hg g
    decide +kernel
  · exact Or.inl (hwithin g (Nat.not_lt.mp hg))

/-- The last slot is freed while the superblock is given up. -/
def overlap : List (Nat × SlotAction) :=
  [(0, .alloc), (0, .advance), (1, .free 0), (2, .retire), (1, .advance), (2, .advance),
    (1, .advance), (2, .advance), (1, .advance), (2, .advance)]

def overlapBlock : Superblock :=
  (replay (fun s => s.step pairChunk) (fun _ _ => true) (.acquire pairChunk 1 64) overlap).get
    (by decide +kernel)

theorem superblock_returned_twice :
    superblockSize ∣ pairChunk.slotsPerShard ∧
      Run (SuperblockStep pairChunk) Always (Superblock.Acquired pairChunk) overlapBlock ∧
      overlapBlock.returned = [(1, 64), (1, 64)] := by
  have hreplay : replay (fun s => s.step pairChunk) (fun _ _ => true) (.acquire pairChunk 1 64)
      overlap = some overlapBlock := (Option.some_get _).symm
  have hstart : Run (SuperblockStep pairChunk) Always (Superblock.Acquired pairChunk)
      (.acquire pairChunk 1 64) := Run.start ⟨1, 64, by decide, ⟨1, rfl⟩, rfl⟩
  exact ⟨⟨2, rfl⟩, hstart.replay (fun _ _ _ h => h) (fun _ _ _ => trivial) hreplay,
    by decide +kernel⟩

end Veloq.Heap
