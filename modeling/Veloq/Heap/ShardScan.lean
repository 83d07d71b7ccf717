import Veloq.Foundation.Probing
import Veloq.Heap.ChunkGeometry
set_option autoImplicit false

/-!
# Heap: the scan over the shards

`alloc_global` walks the shards from a hashed start with an odd stride.  The number of
shards is a power of two, so the walk meets every shard exactly once, also where the
arithmetic wraps.  The first pass skips the shards whose lock is taken, the second one
waits for them; hence no block is handed out only if every shard refused the order when
the second pass held its lock.
-/

namespace Veloq.Heap

open Veloq.Foundation

namespace Chunk

variable {c : Chunk} {order : Nat}

/-! ## The walk -/

/-- The shard count is a power of two below the word size, whatever the memory. -/
theorem shardCount_two_pow (totalSlots parallelism : Nat) :
    ∃ k, k < 64 ∧ shardCount totalSlots parallelism = 2 ^ k := by
  have hwanted : max (nextPowerOfTwo parallelism % 2 ^ 64) 16 < 2 ^ 64 :=
    Nat.max_lt.mpr ⟨Nat.mod_lt _ (by decide), by decide⟩
  obtain ⟨k, -, hk⟩ := wanted_two_pow parallelism
  have hk64 : k < 64 := (Nat.pow_lt_pow_iff_right (by decide)).mp (hk ▸ hwanted)
  unfold shardCount
  simp only
  split
  · rename_i hcap
    have hle : 2 ^ Nat.log2 (totalSlots / superblockSize) < 2 ^ 64 :=
      Nat.lt_of_le_of_lt (Nat.log2_self_le (Nat.ne_of_gt hcap.1)) (Nat.lt_trans hcap.2 hwanted)
    exact ⟨_, (Nat.pow_lt_pow_iff_right (by decide)).mp hle, rfl⟩
  · split
    · exact ⟨0, by decide, rfl⟩
    · exact ⟨k, hk64, hk⟩

theorem length_of_mapM {α β : Type} {f : α → Option β} {xs : List α} {ys : List β}
    (h : xs.mapM f = some ys) : ys.length = xs.length := by
  induction xs generalizing ys with
  | nil =>
    cases h
    rfl
  | cons x xs ih =>
    rw [List.mapM_cons] at h
    obtain ⟨y, -, h⟩ := Option.bind_eq_some_iff.mp h
    obtain ⟨zs, hzs, h⟩ := Option.bind_eq_some_iff.mp h
    cases h
    rw [List.length_cons, List.length_cons, ih hzs]

/-- A chunk has as many shards as were computed for it. -/
theorem new_shards {memory : Nat → FreeNode} {size parallelism : Nat}
    (h : Chunk.new memory size parallelism = .ok c) :
    c.shards.length = shardCount (size / slotSize) parallelism := by
  unfold Chunk.new at h
  simp only at h
  split at h
  · cases h
  · split at h
    · cases h
    · rename_i hshards
      cases h
      exact (length_of_mapM hshards).trans List.length_range

/-- The walk is a probe sequence over the shards. -/
theorem visitOrder_eq {k hash : Nat} (hk : k ≤ 64) (hcount : c.shards.length = 2 ^ k) :
    c.visitOrder hash = probes (2 ^ k) (hash % 2 ^ k) (hash >>> 16 ||| 1) := by
  simp only [visitOrder, probes, hcount, Nat.and_two_pow_sub_one_eq_mod hash k,
    wrapped_probe hk]

theorem stride_odd (hash : Nat) : (hash >>> 16 ||| 1) % 2 = 1 := by
  rw [Nat.or_mod_two_eq_one]
  exact Or.inr rfl

/-- The walk meets every shard exactly once. -/
theorem visitOrder_perm {k : Nat} (hk : k ≤ 64) (hcount : c.shards.length = 2 ^ k) (hash : Nat) :
    (c.visitOrder hash).Perm (List.range c.shards.length) := by
  rw [visitOrder_eq hk hcount, hcount]
  exact Probes.perm (coprime_two_pow_of_odd (stride_odd hash) k)

/-! ## What the scan has seen -/

/-- The allocator of `shard` has no block of the order. -/
def Refuses (c : Chunk) (order shard : Nat) : Prop :=
  ∃ b b', c.shards[shard]? = some b ∧ b.alloc order = some (b', none)

/-- A scan that finds nothing was refused by every shard that it met. -/
theorem scan_refused {idxs : List Nat} (hnodup : idxs.Nodup) {c c' : Chunk}
    (h : c.scan order idxs = some (c', none)) : ∀ shard ∈ idxs, c.Refuses order shard := by
  induction idxs generalizing c with
  | nil => exact fun _ hmem => absurd hmem (List.not_mem_nil)
  | cons idx rest ih =>
    obtain ⟨hfresh, hrest⟩ := List.nodup_cons.mp hnodup
    unfold scan at h
    split at h
    · cases h
    · rename_i b hb
      split at h
      · cases h
      · cases h
      · rename_i b' halloc
        intro shard hmem
        rcases List.mem_cons.mp hmem with rfl | hmem
        · exact ⟨b, b', hb, halloc⟩
        · -- the refusal of another shard does not touch this one
          obtain ⟨b₁, b₂, hget, hrefused⟩ := ih hrest h shard hmem
          have hne : idx ≠ shard := fun heq => hfresh (heq ▸ hmem)
          exact ⟨b₁, b₂, by rwa [List.getElem?_set_ne hne] at hget, hrefused⟩

/-! ## Other threads -/

/-- One pass of `alloc_global` amid other threads: `sight i` is the chunk as they have
left it when the lock of visit `i` is asked for, and `taken i` says that `try_lock` found
it taken. -/
def pass (order : Nat) : (Nat → Chunk) → (Nat → Bool) → List Nat → Option (Option (Nat × Nat))
  | _, _, [] => some none
  | sight, taken, idx :: rest =>
      match (sight 0).shards[idx]? with
      | none => none
      | some buddy =>
          if taken 0 then
            pass order (fun i => sight (i + 1)) (fun i => taken (i + 1)) rest
          else
            match buddy.alloc order with
            | none => none
            | some (_, some slot) => some (some (idx, slot))
            | some (_, none) => pass order (fun i => sight (i + 1)) (fun i => taken (i + 1)) rest

/-- `alloc_global` amid other threads.  The first pass gives up on a lock that is taken,
the second one, from visit `c.shards.length` on, blocks on every lock. -/
def allocGlobalAmid (c : Chunk) (order : Nat) (seed : Option Nat) (threadHash : Nat)
    (sight : Nat → Chunk) (taken : Nat → Bool) : Option (Option (Nat × Nat)) :=
  let visits := c.visitOrder (startHash seed threadHash)
  match pass order sight taken visits with
  | none => none
  | some (some found) => some (some found)
  | some none => pass order (fun i => sight (c.shards.length + i)) (fun _ => false) visits

/-- A pass that blocks on every lock and finds nothing was refused at every visit. -/
theorem pass_refused {sight : Nat → Chunk} {idxs : List Nat}
    (h : pass order sight (fun _ => false) idxs = some none) {i shard : Nat}
    (hvisit : idxs[i]? = some shard) : (sight i).Refuses order shard := by
  induction idxs generalizing sight i with
  | nil => cases hvisit
  | cons idx rest ih =>
    simp only [pass, Bool.false_eq_true, if_false] at h
    split at h
    · cases h
    · rename_i b hb
      split at h
      · cases h
      · cases h
      · rename_i b' halloc
        cases i with
        | zero =>
          obtain rfl : idx = shard := by simpa using hvisit
          exact ⟨b, b', hb, halloc⟩
        | succ i => exact ih h (by simpa using hvisit)

theorem alloc_none {a a' : BuddyAllocator} (h : a.alloc order = some (a', none)) : a' = a := by
  unfold BuddyAllocator.alloc at h
  split at h
  · cases h
    rfl
  · dsimp only at h
    split at h
    · cases h
      rfl
    · split at h
      · cases h
      · split at h
        · cases h
        · cases h

theorem set_same {shards : List BuddyAllocator} {idx : Nat} {buddy : BuddyAllocator}
    (h : shards[idx]? = some buddy) : shards.set idx buddy = shards := by
  obtain ⟨hlt, heq⟩ := List.getElem?_eq_some_iff.mp h
  rw [← heq, List.set_getElem_self]

theorem scan_none {c' : Chunk} {visit : List Nat} (h : c.scan order visit = some (c', none)) : c' = c := by
  induction visit generalizing c with
  | nil =>
    cases h
    rfl
  | cons idx rest ih =>
    rw [scan] at h
    split at h
    · cases h
    · rename_i buddy hbuddy
      split at h
      · cases h
      · cases h
      · rename_i buddy' halloc
        obtain rfl := alloc_none halloc
        rw [set_same hbuddy] at h
        exact ih h

/-- Amid threads that leave the chunk alone, a pass that blocks on every lock is a scan. -/
theorem pass_eq_scan (idxs : List Nat) :
    pass order (fun _ => c) (fun _ => false) idxs = (c.scan order idxs).map Prod.snd := by
  induction idxs with
  | nil => rfl
  | cons idx rest ih =>
    simp only [pass, scan, Bool.false_eq_true, if_false]
    cases hbuddy : c.shards[idx]? with
    | none => rfl
    | some buddy =>
      dsimp only
      cases halloc : buddy.alloc order with
      | none => rfl
      | some result =>
        obtain ⟨buddy', _ | slot⟩ := result
        · obtain rfl := alloc_none halloc
          simp only [set_same hbuddy]
          exact ih
        · rfl

/-- Where every shard refuses, the ones that are passed over do not matter. -/
theorem pass_skips {taken : Nat → Bool} {idxs : List Nat}
    (h : pass order (fun _ => c) (fun _ => false) idxs = some none) :
    pass order (fun _ => c) taken idxs = some none := by
  induction idxs generalizing taken with
  | nil => rfl
  | cons idx rest ih =>
    simp only [pass, Bool.false_eq_true, if_false] at h ⊢
    split at h
    · cases h
    · split at h
      · cases h
      · cases h
      · split
        · exact ih h
        · exact ih h

/-- Amid other threads that leave the chunk alone, `alloc_global` finds what it finds by itself,
and those that only hold a lock do not make it fail: whichever locks it finds taken, it refuses
if and only if it refuses by itself. -/
theorem allocGlobal_amid_idle (c : Chunk) (order : Nat) (seed : Option Nat) (threadHash : Nat) :
    (c.allocGlobalAmid order seed threadHash (fun _ => c) fun _ => false) =
      (c.allocGlobal order seed threadHash).map Prod.snd ∧
    ∀ taken, c.allocGlobalAmid order seed threadHash (fun _ => c) taken = some none ↔
      (c.allocGlobal order seed threadHash).map Prod.snd = some none := by
  have hpass : pass order (fun _ => c) (fun _ => false) (c.visitOrder (startHash seed threadHash)) =
      (c.scan order (c.visitOrder (startHash seed threadHash))).map Prod.snd := pass_eq_scan _
  have halone : (c.allocGlobalAmid order seed threadHash (fun _ => c) fun _ => false) =
      (c.allocGlobal order seed threadHash).map Prod.snd := by
    simp only [allocGlobalAmid, allocGlobal, hpass]
    cases hscan : c.scan order (c.visitOrder (startHash seed threadHash)) with
    | none => rfl
    | some result =>
      obtain ⟨c', _ | found⟩ := result
      · obtain rfl := scan_none hscan
        simp only [Option.map_some, hscan]
      · rfl
  refine ⟨halone, fun taken => ?_⟩
  rw [← halone]
  simp only [allocGlobalAmid]
  constructor
  · intro h
    split at h
    · cases h
    · cases h
    · rw [h]
  · intro h
    have hrefused : pass order (fun _ => c) (fun _ => false)
        (c.visitOrder (startHash seed threadHash)) = some none := by
      split at h
      · cases h
      · cases h
      · exact h
    rw [pass_skips hrefused]
    exact hrefused

/-! ## What a refusal means -/

/-- For every memory size and parallelism the shard count is a power of two; the walk of
`alloc_global` over the shards of the chunk is a permutation of them for every hash; and
`alloc_global` finds nothing only if every shard refuses the order, alone as well as amid
other threads, where each refusal is that of a visit of the second pass. -/
theorem allocGlobal_visits_all (size parallelism : Nat) :
    (∃ k, k < 64 ∧ shardCount (size / slotSize) parallelism = 2 ^ k) ∧
      ∀ (memory : Nat → FreeNode) (c₀ c : Chunk),
        Chunk.new memory size parallelism = .ok c₀ → c.shards.length = c₀.shards.length →
        (∀ hash, (c.visitOrder hash).Perm (List.range c.shards.length)) ∧
        ∀ (order : Nat) (seed : Option Nat) (threadHash : Nat),
          (∀ c', c.allocGlobal order seed threadHash = some (c', none) →
            ∀ shard, shard < c.shards.length → c.Refuses order shard) ∧
          ∀ (sight : Nat → Chunk) (taken : Nat → Bool),
            c.allocGlobalAmid order seed threadHash sight taken = some none →
            ∀ shard, shard < c.shards.length →
              ∃ i, i < c.shards.length ∧
                (c.visitOrder (startHash seed threadHash))[i]? = some shard ∧
                (sight (c.shards.length + i)).Refuses order shard := by
  obtain ⟨k, hk, hcount⟩ := shardCount_two_pow (size / slotSize) parallelism
  refine ⟨⟨k, hk, hcount⟩, fun memory c₀ c hnew hsame => ?_⟩
  have hlength : c.shards.length = 2 ^ k := by rw [hsame, new_shards hnew, hcount]
  have hperm := fun hash => visitOrder_perm (Nat.le_of_lt hk) hlength hash
  refine ⟨hperm, fun order seed threadHash => ⟨?_, ?_⟩⟩
  · intro c' h shard hshard
    unfold allocGlobal at h
    simp only at h
    have hwalk := hperm (startHash seed threadHash)
    have hmem := hwalk.mem_iff.mpr (List.mem_range.mpr hshard)
    have hnodup := hwalk.nodup_iff.mpr List.nodup_range
    split at h
    · cases h
    · cases h
    · rename_i c₁ hfirst
      exact scan_refused hnodup hfirst shard hmem
  · intro sight taken h shard hshard
    unfold allocGlobalAmid at h
    simp only at h
    have hwalk := hperm (startHash seed threadHash)
    have hmem := hwalk.mem_iff.mpr (List.mem_range.mpr hshard)
    obtain ⟨i, hi⟩ := List.mem_iff_getElem?.mp hmem
    have hlt : i < c.shards.length := by
      have hlt := (List.getElem?_eq_some_iff.mp hi).1
      rwa [hwalk.length_eq, List.length_range] at hlt
    split at h
    · cases h
    · cases h
    · exact ⟨i, hlt, hi, pass_refused h hi⟩

/-- 512 slots make eight shards of one superblock each, and all of them refuse a block of
two superblocks. -/
theorem allocGlobal_visits_eight_shards :
    ∃ c, Chunk.new (fun _ => ⟨⟨none, none, false⟩, 0⟩) (512 * slotSize) 6 = .ok c ∧
      c.shards.length = 8 ∧ (∀ hash, (c.visitOrder hash).Perm (List.range c.shards.length)) ∧
      (∀ shard, shard < 8 → c.Refuses 7 shard) ∧
      ∀ shard, shard < 8 → ∃ i, i < 8 ∧ (c.visitOrder (startHash (some 1) 0))[i]? = some shard ∧
        c.Refuses 7 shard := by
  have hrun : (Chunk.new (fun _ => ⟨⟨none, none, false⟩, 0⟩) (512 * slotSize) 6).toOption.map
      (fun c => (c.shards.length, (c.allocGlobal 7 (some 1) 0).map (·.2),
        c.allocGlobalAmid 7 (some 1) 0 (fun _ => c) (fun i => i % 2 = 0))) =
      some (8, some none, some none) := by decide +kernel
  obtain ⟨c, hc, hfacts⟩ := Option.map_eq_some_iff.mp hrun
  obtain ⟨hlength, hfacts⟩ := Prod.mk.inj hfacts
  obtain ⟨halone, hamid⟩ := Prod.mk.inj hfacts
  have hnew : Chunk.new (fun _ => ⟨⟨none, none, false⟩, 0⟩) (512 * slotSize) 6 = .ok c := by
    revert hc
    cases Chunk.new (fun _ => ⟨⟨none, none, false⟩, 0⟩) (512 * slotSize) 6 with
    | error e => exact fun hc => by cases hc
    | ok c₀ => exact fun hc => congrArg Except.ok (Option.some.inj hc)
  obtain ⟨⟨c', found⟩, hfound, rfl⟩ := Option.map_eq_some_iff.mp halone
  obtain ⟨hperm, hrefuse⟩ :=
    (allocGlobal_visits_all (512 * slotSize) 6).2 _ c c hnew rfl
  obtain ⟨hrefuse₁, hrefuse₂⟩ := hrefuse 7 (some 1) 0
  refine ⟨c, hnew, hlength, hperm, ?_, ?_⟩
  · exact fun shard hshard => hrefuse₁ c' hfound shard (hlength ▸ hshard)
  · intro shard hshard
    obtain ⟨i, hi, hvisit, hrefused⟩ := hrefuse₂ _ _ hamid shard (hlength ▸ hshard)
    exact ⟨i, hlength ▸ hi, hvisit, hrefused⟩

end Chunk

end Veloq.Heap
