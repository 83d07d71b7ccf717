import Veloq.Heap.PoolInvariant
set_option autoImplicit false

/-!
# Heap: the caches of the threads over whole runs

The cells of the hot segment mirror the entry that it owns, and a pool has at most one
entry in a cache.  With that, what a thread has cached under an address is all that
`Consistent` needs to know about its cache.
-/

namespace Veloq.Heap

open Veloq.Foundation

/-! ## One cache -/

namespace LocalCache

/-- The entry under the address `key`. -/
def cached (cache : LocalCache) (key : Nat) : Option LocalCacheEntry :=
  if cache.hot.poolId = key ∧ cache.hot.owner.isSome then cache.hot.owner
  else cache.others.lookup key

/-- The hot cells say what the owner says, and `others` has no entry for the hot pool. -/
structure Mirrored (chunks : List SharedChunk) (cache : LocalCache) : Prop where
  null : cache.hot.owner = none → cache.hot.sbState = none
  state : ∀ entry, cache.hot.owner = some entry →
    cache.hot.sbState = some (entry.chunk, entry.sbIdx) ∧ cache.hot.sbIdx = entry.sbIdx ∧
      cache.hot.chunkId = entry.chunkId ∧
      ∃ c, chunks[entry.chunk]? = some c ∧ cache.hot.chunkBase = c.base
  apart : cache.hot.owner ≠ none → cache.others.lookup cache.hot.poolId = none

variable {cache : LocalCache} {chunks : List SharedChunk} {entry : LocalCacheEntry} {key : Nat}

theorem cached_new (key : Nat) : LocalCache.new.cached key = none := by
  unfold cached
  exact if_neg (by simp [LocalCache.new, HotSegment.new])

theorem cached_hot (h : cache.hot.owner = some entry) :
    cache.cached cache.hot.poolId = some entry := by
  unfold cached
  rw [if_pos ⟨rfl, by rw [h]; rfl⟩, h]

/-- What is not hot is among the others. -/
theorem cached_others (h : cache.hot.owner = none ∨ cache.hot.poolId ≠ key) :
    cache.cached key = cache.others.lookup key := by
  unfold cached
  refine if_neg ?_
  rintro ⟨hkey, hsome⟩
  rcases h with hnone | hne
  · rw [hnone] at hsome
    cases hsome
  · exact hne hkey

/-- The cache after its hot entry moved to the others. -/
def stash (cache : LocalCache) : LocalCache :=
  match cache.hot.owner with
  | none => cache
  | some entry =>
      { hot := { cache.hot with owner := none }
        others := cache.others.insert cache.hot.poolId entry }

theorem stash_owner (cache : LocalCache) : cache.stash.hot.owner = none := by
  unfold stash
  cases howner : cache.hot.owner with
  | none => exact howner
  | some entry => rfl

theorem lookup_stash (cache : LocalCache) (key : Nat) :
    cache.stash.others.lookup key = cache.cached key := by
  unfold stash
  cases howner : cache.hot.owner with
  | none => exact (cached_others (Or.inl howner)).symm
  | some entry =>
    by_cases hkey : key = cache.hot.poolId
    · subst hkey
      rw [cached_hot howner]
      exact AList.lookup_insert _
    · rw [cached_others (Or.inr (Ne.symm hkey))]
      exact AList.lookup_insert_ne hkey

/-- The entries of a cache in the order in which they are dropped. -/
theorem stash_entries (hapart : cache.hot.owner ≠ none →
      cache.others.lookup cache.hot.poolId = none) :
    cache.hot.owner.toList ++ cache.others.entries.map Sigma.snd =
      cache.stash.others.entries.map Sigma.snd := by
  unfold stash
  cases howner : cache.hot.owner with
  | none => rfl
  | some entry =>
    have hnot := AList.lookup_eq_none.mp (hapart (by rw [howner]; exact Option.some_ne_none _))
    dsimp only
    rw [AList.entries_insert_of_notMem hnot]
    rfl

/-- A hot segment for an entry whose chunk has its memory at `base`. -/
def hotOf (poolId base : Nat) (entry : LocalCacheEntry) : HotSegment :=
  { poolId := poolId
    sbState := some (entry.chunk, entry.sbIdx)
    chunkBase := base
    sbIdx := entry.sbIdx
    chunkId := entry.chunkId
    owner := some entry }

theorem cached_hotOf {poolId base : Nat} {others : AList fun _ : Nat => LocalCacheEntry} :
    LocalCache.cached ⟨hotOf poolId base entry, others⟩ =
      Function.update (fun key => others.lookup key) poolId (some entry) := by
  funext key
  by_cases hkey : key = poolId
  · subst hkey
    rw [Function.update_self]
    exact cached_hot rfl
  · rw [Function.update_of_ne hkey]
    exact cached_others (Or.inr (Ne.symm hkey))

theorem Mirrored.new (chunks : List SharedChunk) : LocalCache.new.Mirrored chunks :=
  ⟨fun _ => rfl, fun _ h => absurd h (Option.some_ne_none _).symm, fun h => absurd rfl h⟩

/-- The cache after `clear`. -/
def cleared (cache : LocalCache) : LocalCache :=
  { cache with hot := { cache.hot with sbState := none, chunkBase := 0, owner := none } }

theorem cached_cleared (h : cache.others.lookup cache.hot.poolId = none) :
    cache.cleared.cached = Function.update cache.cached cache.hot.poolId none := by
  funext key
  rw [cached_others (Or.inl rfl)]
  by_cases hkey : key = cache.hot.poolId
  · subst hkey
    rw [Function.update_self]
    exact h
  · rw [Function.update_of_ne hkey]
    exact (cached_others (Or.inr (Ne.symm hkey))).symm

theorem Mirrored.cleared (chunks : List SharedChunk) (cache : LocalCache) :
    cache.cleared.Mirrored chunks :=
  ⟨fun _ => rfl, fun _ he => absurd he (Option.some_ne_none _).symm, fun he => absurd rfl he⟩

/-- Only where the chunks lie matters. -/
theorem Mirrored.congr {chunks' : List SharedChunk} (h : cache.Mirrored chunks)
    (hchunks : ∀ (i : Nat) (c : SharedChunk), chunks[i]? = some c →
      ∃ c', chunks'[i]? = some c' ∧ c'.base = c.base) : cache.Mirrored chunks' := by
  refine ⟨h.null, ?_, h.apart⟩
  intro entry hentry
  obtain ⟨hstate, hidx, hid, c, hc, hbase⟩ := h.state entry hentry
  obtain ⟨c', hc', hsame⟩ := hchunks _ c hc
  exact ⟨hstate, hidx, hid, c', hc', hbase.trans hsame.symm⟩

end LocalCache

namespace PoolHeap

variable {s s' : PoolHeap} {r : Records} {t poolId : Nat} {entry : LocalCacheEntry}

/-- The entries that the threads have. -/
def held (s : PoolHeap) (t key : Nat) : Option LocalCacheEntry := (s.caches t).cached key

structure Inv (r : Records) (s : PoolHeap) : Prop where
  consistent : Consistent r s.chunks s.pools s.held s.handles
  mirrored : ∀ t, (s.caches t).Mirrored s.chunks

/-! ## The operations of a cache -/

/-- Changing the cache of one thread changes what that thread has. -/
theorem held_setCache (s : PoolHeap) (t : Nat) (cache : LocalCache) :
    (s.setCache t cache).held = Function.update s.held t cache.cached := by
  funext t' key
  unfold held setCache
  by_cases ht : t' = t
  · subst ht
    simp only [Function.update_self]
  · simp only [Function.update_of_ne ht]

theorem stashHot_eq (hapart : (s.caches t).hot.owner ≠ none →
      (s.caches t).others.lookup (s.caches t).hot.poolId = none) :
    s.stashHot t = some (s.setCache t (s.caches t).stash) := by
  unfold stashHot LocalCache.stash
  cases howner : (s.caches t).hot.owner with
  | none =>
    have hsame : s.setCache t (s.caches t) = s := by
      unfold setCache
      rw [Function.update_eq_self]
    simp only [howner, hsame]
  | some entry =>
    have hlookup := hapart (by rw [howner]; exact Option.some_ne_none _)
    simp only [howner, hlookup]
    rfl

/-- `insert` adds the entry to what the thread has. -/
theorem cacheInsert_spec {c : SharedChunk} {state : SuperblockState}
    (hapart : (s.caches t).hot.owner ≠ none →
      (s.caches t).others.lookup (s.caches t).hot.poolId = none)
    (hnone : (s.caches t).cached poolId = none) (hc : s.chunks[entry.chunk]? = some c)
    (hstate : c.chunk.superblocks[entry.sbIdx]? = some state) :
    ∃ cache, s.cacheInsert t poolId entry = some (s.setCache t cache) ∧
      cache.cached = Function.update (s.caches t).cached poolId (some entry) ∧
      cache.others.lookup poolId = none ∧ cache.Mirrored s.chunks := by
  have hlookup : (s.caches t).stash.others.lookup poolId = none := by
    rw [LocalCache.lookup_stash]
    exact hnone
  refine ⟨⟨LocalCache.hotOf poolId c.base entry, (s.caches t).stash.others⟩, ?_, ?_, hlookup, ?_⟩
  · have howner : ((s.setCache t (s.caches t).stash).caches t).hot.owner = none := by
      unfold setCache
      dsimp only
      rw [Function.update_self]
      exact LocalCache.stash_owner _
    have hchunks : (s.setCache t (s.caches t).stash).chunks[entry.chunk]? = some c := hc
    unfold cacheInsert
    rw [stashHot_eq hapart]
    show (s.setCache t (s.caches t).stash).hotSet t poolId entry = _
    unfold hotSet
    rw [hchunks]
    show ((c.chunk.superblocks[entry.sbIdx]?).bind fun _ => _) = _
    rw [hstate, Option.bind_some, howner]
    show some (setCache _ _ _) = _
    unfold setCache
    dsimp only
    rw [Function.update_self, Function.update_idem]
    rfl
  · rw [LocalCache.cached_hotOf]
    simp only [LocalCache.lookup_stash]
  · refine ⟨fun h => absurd h (Option.some_ne_none _), ?_, fun _ => hlookup⟩
    intro entry' hentry'
    cases hentry'
    exact ⟨rfl, rfl, rfl, c, hc, rfl⟩

/-- Only what the thread has under the address matters to `Inv`. -/
theorem Inv.setCache {chunks : List SharedChunk} (hother : ∀ t', t' ≠ t →
      (s.caches t').Mirrored chunks) {cache : LocalCache} (hcache : cache.Mirrored chunks)
    {handles : List (Nat × SlotHandle)}
    (h : Consistent r chunks s.pools (Function.update s.held t cache.cached) handles) :
    Inv r { s.setCache t cache with chunks := chunks, handles := handles } := by
  refine ⟨?_, ?_⟩
  · have hheld := held_setCache s t cache
    show Consistent r chunks s.pools (s.setCache t cache).held handles
    rw [hheld]
    exact h
  · intro t'
    show (Function.update s.caches t cache t').Mirrored chunks
    by_cases ht : t' = t
    · subst ht
      rw [Function.update_self]
      exact hcache
    · rw [Function.update_of_ne ht]
      exact hother t' ht

/-- A chunk changes and stays where it is. -/
theorem mirrored_setAt {cache : LocalCache} {chunks : List SharedChunk}
    (h : cache.Mirrored chunks) (i : Nat) (chunk : Chunk) : cache.Mirrored (setAt chunks i chunk) := by
  refine h.congr ?_
  intro j c hc
  obtain ⟨c', hc', hsame⟩ := exists_setAt i chunk ⟨c, hc⟩
  exact ⟨c', hc', (hsame c hc).2⟩

theorem hotClear_eq {c : SharedChunk} {chunk : Chunk} (howner : (s.caches t).hot.owner = some entry)
    (hc : s.chunks[entry.chunk]? = some c) (hretire : c.chunk.retire entry.sbIdx = some chunk) :
    s.hotClear t = some { s.setCache t (s.caches t).cleared with
      chunks := setAt s.chunks entry.chunk chunk } := by
  unfold PoolHeap.hotClear
  simp only [howner, dropOwner, dropEntry, setHot, PoolHeap.setCache, hc, hretire,
    Option.bind_eq_bind, Option.bind_some, Option.pure_def]
  rfl

/-- A full superblock is given up. -/
theorem Inv.hotClear (h : Inv r s) (howner : (s.caches t).hot.owner = some entry) :
    ∃ s' r', s.hotClear t = some s' ∧ Inv r' s' ∧ s'.pools = s.pools ∧
      (s'.caches t).hot.owner = none ∧ (s'.caches t).others = (s.caches t).others := by
  have hheld : s.held t (s.caches t).hot.poolId = some entry := LocalCache.cached_hot howner
  obtain ⟨⟨c, hc⟩, -⟩ := h.consistent.entry t _ entry hheld
  obtain ⟨chunk, r', hretire, hcons⟩ := h.consistent.retire hheld hc
  have hlookup := (h.mirrored t).apart (by rw [howner]; exact Option.some_ne_none _)
  refine ⟨_, r', hotClear_eq howner hc hretire, ?_, rfl, ?_⟩
  · refine Inv.setCache (fun t' _ => mirrored_setAt (h.mirrored t') _ _)
      (LocalCache.Mirrored.cleared _ _) ?_
    rw [LocalCache.cached_cleared hlookup]
    exact hcons
  · show (Function.update s.caches t (s.caches t).cleared t).hot.owner = none ∧
      (Function.update s.caches t (s.caches t).cleared t).others = _
    rw [Function.update_self]
    exact ⟨rfl, rfl⟩

/-- The hot segment is used up for the pool. -/
def Cold (s : PoolHeap) (t poolId : Nat) : Prop :=
  (s.caches t).hot.owner = none ∨ (s.caches t).hot.poolId ≠ poolId

/-- What the fast path does. -/
theorem Inv.tryHot (h : Inv r s) {refs : List Nat} (hpool : s.pools poolId = some refs) :
    (∃ s' r' handle, s.tryHot t poolId = some (s', some handle) ∧
      Inv r' { s' with handles := (poolId, handle) :: s'.handles }) ∨
    ∃ s' r', s.tryHot t poolId = some (s', none) ∧ Inv r' s' ∧ s'.pools = s.pools ∧
      s'.Cold t poolId ∧ (s'.caches t).others = (s.caches t).others := by
  unfold PoolHeap.tryHot
  cases howner : (s.caches t).hot.owner with
  | none =>
    right
    simp only [(h.mirrored t).null howner]
    exact ⟨s, r, rfl, h, rfl, Or.inl howner, rfl⟩
  | some entry =>
    obtain ⟨hstate, hidx, hid, c, hc, hbase⟩ := (h.mirrored t).state entry howner
    simp only [hstate]
    by_cases hkey : (s.caches t).hot.poolId = poolId
    · subst hkey
      rw [if_pos rfl]
      have hheld : s.held t (s.caches t).hot.poolId = some entry := LocalCache.cached_hot howner
      obtain ⟨-, ⟨e, he, hsb⟩, -⟩ := h.consistent.entry t _ entry hheld
      have hinv := h.consistent.chunk _ c hc
      obtain ⟨state, hstate', -⟩ := hinv.active e he
      rw [hsb] at hstate'
      simp only [hc, Option.bind_eq_bind, Option.bind_some]
      by_cases hfull : state.freeMask = 0
      · right
        obtain ⟨s', r', hclear, hrest⟩ := h.hotClear howner
        have hsame : s.setChunk entry.chunk c.chunk = s := by
          unfold setChunk
          rw [show s.chunks.modify entry.chunk _ = s.chunks from setAt_same hc]
        simp only [ChunkInv.allocOne_full hstate' hfull, Option.bind_some, hsame, hclear,
          Option.pure_def]
        exact ⟨s', r', rfl, hrest.1, hrest.2.1, Or.inl hrest.2.2.1, hrest.2.2.2⟩
      · left
        obtain ⟨chunk, offset, hone, -⟩ :=
          hinv.allocOne he (by rw [hsb]; exact hstate') hfull
        rw [hsb] at hone
        obtain ⟨r', hcons⟩ := h.consistent.takeSlot hheld hpool hc hone
        simp only [hone, Option.bind_some, Option.pure_def, hidx, hid, hbase]
        exact ⟨_, r', _, rfl, hcons, fun t' => mirrored_setAt (h.mirrored t') _ _⟩
    · right
      rw [if_neg hkey]
      exact ⟨s, r, rfl, h, rfl, Or.inr hkey, rfl⟩

/-- An entry of `others` becomes hot; what the thread has stays the same. -/
theorem Inv.promote_eq (h : Inv r s) (hcold : s.Cold t poolId)
    (hlookup : (s.caches t).others.lookup poolId = some entry) :
    ∃ cache, (s.setCache t { s.caches t with others := (s.caches t).others.erase poolId }).cacheInsert
        t poolId entry = some (s.setCache t cache) ∧ cache.cached = (s.caches t).cached ∧
      cache.others.lookup poolId = none ∧ cache.Mirrored s.chunks := by
  have hheld : s.held t poolId = some entry := (LocalCache.cached_others hcold).trans hlookup
  obtain ⟨⟨c, hc⟩, ⟨e, he, hsb⟩, -⟩ := h.consistent.entry t poolId entry hheld
  obtain ⟨state, hstate, -⟩ := (h.consistent.chunk _ c hc).active e he
  rw [hsb] at hstate
  set erased : LocalCache :=
    { s.caches t with others := (s.caches t).others.erase poolId } with herased
  have hcache : (s.setCache t erased).caches t = erased := Function.update_self ..
  have hcached : erased.cached = Function.update (s.caches t).cached poolId none := by
    funext key
    by_cases hkey : key = poolId
    · subst hkey
      rw [Function.update_self, show erased.cached key = _ from LocalCache.cached_others hcold]
      exact AList.lookup_erase ..
    · rw [Function.update_of_ne hkey]
      unfold LocalCache.cached
      rw [show erased.others.lookup key = (s.caches t).others.lookup key from
        AList.lookup_erase_ne hkey]
  have hapart : ((s.setCache t erased).caches t).hot.owner ≠ none →
      ((s.setCache t erased).caches t).others.lookup
        ((s.setCache t erased).caches t).hot.poolId = none := by
    rw [hcache]
    intro howner
    by_cases hkey : (s.caches t).hot.poolId = poolId
    · show (AList.erase poolId (s.caches t).others).lookup (s.caches t).hot.poolId = none
      rw [hkey]
      exact AList.lookup_erase ..
    · exact (AList.lookup_erase_ne hkey).trans ((h.mirrored t).apart howner)
  have hfree : ((s.setCache t erased).caches t).cached poolId = none := by
    rw [hcache, hcached, Function.update_self]
  have hchunk : (s.setCache t erased).chunks[entry.chunk]? = some c := hc
  obtain ⟨cache, hinsert, hcached', hnone', hmirrored⟩ := cacheInsert_spec hapart hfree hchunk hstate
  rw [hcache, hcached, Function.update_idem,
    Function.update_eq_self_iff.mpr (show some entry = (s.caches t).cached poolId from
      hheld.symm)] at hcached'
  have hset : (s.setCache t erased).setCache t cache = s.setCache t cache := by
    unfold PoolHeap.setCache
    dsimp only
    rw [Function.update_idem]
  rw [hset] at hinsert
  exact ⟨cache, hinsert, hcached', hnone', hmirrored⟩

theorem Inv.promote (h : Inv r s) (hcold : s.Cold t poolId)
    (hlookup : (s.caches t).others.lookup poolId = some entry) :
    ∃ s', (s.setCache t { s.caches t with others := (s.caches t).others.erase poolId }).cacheInsert
        t poolId entry = some s' ∧ Inv r s' ∧ s'.pools = s.pools ∧
      (s'.caches t).others.lookup poolId = none := by
  obtain ⟨cache, hinsert, hcached, hnone, hmirrored⟩ := h.promote_eq hcold hlookup
  refine ⟨s.setCache t cache, hinsert, ?_, rfl, ?_⟩
  · refine Inv.setCache (fun t' _ => h.mirrored t') hmirrored ?_
    rw [hcached, show Function.update s.held t (s.caches t).cached = s.held from
      Function.update_eq_self t s.held]
    exact h.consistent
  · rw [show (s.setCache t cache).caches t = cache from Function.update_self ..]
    exact hnone

/-- What a thread gets out of its cache: a slot of the pool, or the certainty that it has
no entry for the pool. -/
theorem Inv.tryAlloc (h : Inv r s) {refs : List Nat} (hpool : s.pools poolId = some refs) :
    (∃ s' r' handle, s.tryAlloc 2 t poolId = some (s', some handle) ∧
      Inv r' { s' with handles := (poolId, handle) :: s'.handles }) ∨
    ∃ s' r', s.tryAlloc 2 t poolId = some (s', none) ∧ Inv r' s' ∧ s'.pools = s.pools ∧
      s'.held t poolId = none := by
  rw [PoolHeap.tryAlloc]
  rcases h.tryHot (t := t) hpool with ⟨s₁, r₁, handle, hrun, hinv⟩ |
    ⟨s₁, r₁, hrun, hinv, hpools, hcold, -⟩
  · left
    simp only [hrun, Option.bind_eq_bind, Option.bind_some, Option.pure_def]
    exact ⟨s₁, r₁, handle, rfl, hinv⟩
  simp only [hrun, Option.bind_eq_bind, Option.bind_some, Option.pure_def]
  cases hlookup : (s₁.caches t).others.lookup poolId with
  | none =>
    right
    exact ⟨s₁, r₁, rfl, hinv, hpools, (LocalCache.cached_others hcold).trans hlookup⟩
  | some entry =>
    obtain ⟨s₂, hinsert, hinv₂, hpools₂, hnone₂⟩ := hinv.promote hcold hlookup
    unfold cacheInsert at hinsert
    rw [Option.bind_eq_bind] at hinsert
    simp only
    rw [← Option.bind_assoc, hinsert, Option.bind_some, PoolHeap.tryAlloc]
    rcases hinv₂.tryHot (t := t) (by rw [hpools₂, hpools]; exact hpool) with
      ⟨s₃, r₃, handle, hrun₃, hinv₃⟩ | ⟨s₃, r₃, hrun₃, hinv₃, hpools₃, hcold₃, hothers₃⟩
    · left
      simp only [hrun₃, Option.bind_eq_bind, Option.bind_some, Option.pure_def]
      exact ⟨s₃, r₃, handle, rfl, hinv₃⟩
    · right
      rw [← hothers₃] at hnone₂
      simp only [hrun₃, Option.bind_eq_bind, Option.bind_some, Option.pure_def, hnone₂]
      exact ⟨s₃, r₃, rfl, hinv₃, hpools₃.trans (hpools₂.trans hpools),
        (LocalCache.cached_others hcold₃).trans hnone₂⟩

/-! ## The operations of a pool -/

/-- A slot carved from a chunk of the pool is handed out, and the superblock cached. -/
theorem Inv.finishAlloc_eq (h : Inv r s) (hnone : s.held t poolId = none) {refs : List Nat}
    {i j : Nat} (hpool : s.pools poolId = some refs) (hj : refs[j]? = some i) {c : SharedChunk}
    (hc : s.chunks[i]? = some c) {seed : Option Nat} {threadHash : Nat} {chunk : Chunk}
    {a : Allocation} {e : CacheEntry}
    (hsmall : c.chunk.allocSmall seed threadHash = some (chunk, some (a, e))) :
    ∃ cache, (s.setChunk i chunk).finishAlloc t poolId
        ⟨i, c.id, e.superblock, a.index, c.base + a.index * slotSize⟩ =
          some ({ s.setCache t cache with chunks := setAt s.chunks i chunk },
            some ⟨c.id, a.index, c.base + a.index * slotSize⟩) ∧
      cache.cached = Function.update (s.caches t).cached poolId (some ⟨i, e.superblock, c.id⟩) ∧
      cache.Mirrored (setAt s.chunks i chunk) := by
  obtain ⟨r', hcons⟩ := h.consistent.carve t hpool hj hc hsmall
  have hchunk : (s.setChunk i chunk).chunks[i]? = some { c with chunk := chunk } :=
    setAt_self hc
  obtain ⟨-, ⟨e', he', hsb⟩, -⟩ := hcons.entry t poolId _ (hold_self ..)
  obtain ⟨state, hstate, -⟩ := (hcons.chunk i _ (setAt_self hc)).active e' he'
  rw [hsb] at hstate
  have hapart : ((s.setChunk i chunk).caches t).hot.owner ≠ none →
      ((s.setChunk i chunk).caches t).others.lookup ((s.setChunk i chunk).caches t).hot.poolId =
        none := (h.mirrored t).apart
  have hfree : ((s.setChunk i chunk).caches t).cached poolId = none := hnone
  have hentry : (s.setChunk i chunk).chunks[
      (LocalCacheEntry.mk i e.superblock c.id).chunk]? = some { c with chunk := chunk } := hchunk
  obtain ⟨cache, hinsert, hcached, -, hmirrored⟩ := cacheInsert_spec hapart hfree hentry hstate
  refine ⟨cache, ?_, hcached, hmirrored⟩
  unfold PoolHeap.finishAlloc
  simp only [hinsert, Option.bind_eq_bind, Option.bind_some, Option.pure_def]
  rfl

theorem Inv.finishAlloc (h : Inv r s) (hnone : s.held t poolId = none) {refs : List Nat} {i j : Nat}
    (hpool : s.pools poolId = some refs) (hj : refs[j]? = some i) {c : SharedChunk}
    (hc : s.chunks[i]? = some c) {seed : Option Nat} {threadHash : Nat} {chunk : Chunk}
    {a : Allocation} {e : CacheEntry}
    (hsmall : c.chunk.allocSmall seed threadHash = some (chunk, some (a, e))) :
    ∃ s' r' handle, (s.setChunk i chunk).finishAlloc t poolId
        ⟨i, c.id, e.superblock, a.index, c.base + a.index * slotSize⟩ = some (s', some handle) ∧
      Inv r' { s' with handles := (poolId, handle) :: s'.handles } := by
  obtain ⟨r', hcons⟩ := h.consistent.carve t hpool hj hc hsmall
  obtain ⟨cache, hrun, hcached, hmirrored⟩ := h.finishAlloc_eq hnone hpool hj hc hsmall
  refine ⟨_, r', _, hrun, ?_⟩
  refine Inv.setCache (s := s) (fun t' _ => mirrored_setAt (h.mirrored t') i chunk) hmirrored ?_
  rw [hcached]
  exact hcons

/-- The scan over the chunks of a pool ends with a slot carved from one of them, or
without a change. -/
theorem Inv.scanChunks (h : Inv r s) (seed : Option Nat) (threadHash : Nat) (refs : List Nat)
    (hrefs : ∀ i ∈ refs, ∃ c, s.chunks[i]? = some c) :
    PoolHeap.scanChunks seed threadHash s refs = some (s, none) ∨
    ∃ i c chunk a e, i ∈ refs ∧ s.chunks[i]? = some c ∧
      c.chunk.allocSmall seed threadHash = some (chunk, some (a, e)) ∧
      PoolHeap.scanChunks seed threadHash s refs = some (s.setChunk i chunk,
        some ⟨i, c.id, e.superblock, a.index, c.base + a.index * slotSize⟩) := by
  induction refs with
  | nil => exact Or.inl rfl
  | cons i rest ih =>
    obtain ⟨c, hc⟩ := hrefs i (List.mem_cons_self ..)
    rw [PoolHeap.scanChunks]
    rcases (h.consistent.chunk i c hc).allocSmall seed threadHash with hfail |
      ⟨chunk, a, e, owned, hsome, -⟩
    · have hsame : s.setChunk i c.chunk = s := by
        unfold setChunk
        rw [show s.chunks.modify i _ = s.chunks from setAt_same hc]
      simp only [hc, hfail, Option.bind_eq_bind, Option.bind_some, hsame]
      rcases ih fun j hj => hrefs j (List.mem_cons_of_mem i hj) with hnone |
        ⟨j, d, chunk, a, e, hj, hrest⟩
      · exact Or.inl hnone
      · exact Or.inr ⟨j, d, chunk, a, e, List.mem_cons_of_mem i hj, hrest⟩
    · right
      refine ⟨i, c, chunk, a, e, List.mem_cons_self .., hc, hsome, ?_⟩
      simp only [hc, hsome, Option.bind_eq_bind, Option.bind_some, Option.pure_def]

/-- A new chunk whose shards consist of whole superblocks is in order. -/
theorem ordered_of_new {memory : Nat → FreeNode} {size parallelism : Nat} {chunk : Chunk}
    (hsize : 8 * superblockSize ≤ size / slotSize)
    (haligned : superblockSize ∣ size / slotSize / Chunk.shardCount (size / slotSize) parallelism)
    (hnew : Chunk.new memory size parallelism = .ok chunk) : ChunkUse.Ordered ⟨chunk, [], []⟩ := by
  obtain ⟨c, hok, hfresh, hshards, hsuperblocks, hmemory, hper⟩ :=
    Chunk.new_spec hsize parallelism memory
  cases hok.symm.trans hnew
  refine hfresh.ordered (by rw [hper]; exact haligned) ?_ hsuperblocks hmemory
  rw [hshards, hper]
  exact Nat.mul_div_le ..

/-- The chunks that a pool grows by have shards of whole superblocks. -/
theorem expansion_aligned (parallelism : Nat) :
    superblockSize ∣ expansionSize / slotSize /
      Chunk.shardCount (expansionSize / slotSize) parallelism := by
  obtain ⟨⟨k, -, hcount⟩, hroom⟩ := Chunk.shardCount_spec
    (show 8 * superblockSize ≤ expansionSize / slotSize by decide) parallelism
  have htotal : expansionSize / slotSize = 2 ^ 14 := by decide
  rw [hcount] at hroom ⊢
  rw [htotal] at hroom ⊢
  have hk : k ≤ 8 := by
    by_contra hgt
    have hle : 2 ^ 9 ≤ 2 ^ k := Nat.pow_le_pow_right (by decide) (by omega)
    unfold superblockSize at hroom
    omega
  rw [Nat.pow_div (by omega) (by decide)]
  exact Nat.pow_dvd_pow 2 (show 6 ≤ 14 - k by omega)

/-- A pool that has no slot left grows. -/
theorem Inv.expand (h : Inv r s) (hnone : s.held t poolId = none) {refs : List Nat}
    (hpool : s.pools poolId = some refs) (seed : Option Nat) (threadHash : Nat)
    (provision : Option Provision) :
    ∃ s' r' found, s.expand t poolId refs seed threadHash provision = some (s', found) ∧
      Inv r' { s' with
        handles := (found.map fun handle => (poolId, handle)).toList ++ s'.handles } := by
  unfold PoolHeap.expand
  by_cases hroom : refs.length < 2 ^ 16
  · rw [if_pos hroom]
    cases provision with
    | none => exact ⟨s, r, none, rfl, h⟩
    | some p =>
      obtain ⟨chunk, hnew, -⟩ := Chunk.new_spec
        (show 8 * superblockSize ≤ expansionSize / slotSize by decide) p.parallelism p.memory
      have hordered := ordered_of_new (by decide) (expansion_aligned p.parallelism) hnew
      obtain ⟨r', hcons⟩ := h.consistent.addChunk (Or.inl hpool) hordered p.base
      simp only [hnew]
      have hmirrored : ∀ t, (s.caches t).Mirrored (s.chunks ++ [⟨refs.length, p.base, chunk⟩]) := by
        intro t
        refine (h.mirrored t).congr ?_
        intro i c hc
        obtain ⟨hlt, -⟩ := List.getElem?_eq_some_iff.mp hc
        exact ⟨c, by rw [List.getElem?_append_left hlt]; exact hc, rfl⟩
      set grown : PoolHeap := { s with
        chunks := s.chunks ++ [⟨refs.length, p.base, chunk⟩]
        pools := Function.update s.pools poolId (some (refs ++ [s.chunks.length])) } with hgrown
      have hinv : Inv r' grown := ⟨hcons, hmirrored⟩
      obtain ⟨owned, hchunk⟩ := hordered
      rcases hchunk.allocSmall seed threadHash with hfail | ⟨chunk', a, e, owned', hsome, -⟩
      · have hfail' : chunk.allocSmall seed threadHash = some (chunk, none) := hfail
        simp only [hfail', Option.bind_eq_bind, Option.bind_some, Option.pure_def]
        exact ⟨grown, r', none, rfl, hinv⟩
      · have hsome' : chunk.allocSmall seed threadHash = some (chunk', some (a, e)) := hsome
        simp only [hsome', Option.bind_eq_bind, Option.bind_some]
        have hnone' : grown.held t poolId = none := hnone
        have hrefs : grown.pools poolId = some (refs ++ [s.chunks.length]) :=
          Function.update_self ..
        have hindex : (refs ++ [s.chunks.length])[refs.length]? = some s.chunks.length :=
          List.getElem?_concat_length ..
        have hlast : grown.chunks[s.chunks.length]? = some ⟨refs.length, p.base, chunk⟩ :=
          List.getElem?_concat_length ..
        obtain ⟨s', r'', handle, hfinish, hinv'⟩ :=
          hinv.finishAlloc hnone' hrefs hindex hlast hsome'
        refine ⟨s', r'', some handle, ?_, hinv'⟩
        have hset : grown.setChunk s.chunks.length chunk' = { grown with
            chunks := s.chunks ++ [⟨refs.length, p.base, chunk'⟩] } := by
          unfold setChunk
          rw [show grown.chunks.modify s.chunks.length _ = _ from setAt_concat ..]
        rw [hset] at hfinish
        exact hfinish
  · rw [if_neg hroom]
    exact ⟨s, r, none, rfl, h⟩

/-- `alloc_slots` returns, with a slot of the pool if it returns one. -/
theorem Inv.allocSlots (h : Inv r s) {refs : List Nat} (hpool : s.pools poolId = some refs)
    (t : Nat) (seed : Option Nat) (threadHash : Nat) (provision : Option Provision) :
    ∃ s' r' found, s.allocSlots t poolId seed threadHash provision = some (s', found) ∧
      Inv r' { s' with
        handles := (found.map fun handle => (poolId, handle)).toList ++ s'.handles } := by
  unfold PoolHeap.allocSlots
  rcases h.tryAlloc (t := t) hpool with ⟨s₁, r₁, handle, hrun, hinv⟩ |
    ⟨s₁, r₁, hrun, hinv, hpools, hnone⟩
  · simp only [hrun, Option.bind_eq_bind, Option.bind_some, Option.pure_def]
    exact ⟨s₁, r₁, some handle, rfl, hinv⟩
  have hpool₁ : s₁.pools poolId = some refs := by
    rw [hpools]
    exact hpool
  have hrefs : ∀ i ∈ refs, ∃ c, s₁.chunks[i]? = some c := by
    intro i hi
    obtain ⟨j, hj⟩ := List.mem_iff_getElem?.mp hi
    obtain ⟨c, hc, -⟩ := hinv.consistent.pool poolId refs j i hpool₁ hj
    exact ⟨c, hc⟩
  simp only [hrun, Option.bind_eq_bind, Option.bind_some, hpool₁]
  rcases hinv.scanChunks seed threadHash refs hrefs with hscan |
    ⟨i, c, chunk, a, e, hi, hc, hsmall, hscan⟩
  · simp only [hscan, Option.bind_some]
    exact hinv.expand hnone hpool₁ seed threadHash provision
  · obtain ⟨j, hj⟩ := List.mem_iff_getElem?.mp hi
    obtain ⟨s₂, r₂, handle, hfinish, hinv₂⟩ := hinv.finishAlloc (t := t) hnone hpool₁ hj hc hsmall
    simp only [hscan, Option.bind_some]
    exact ⟨s₂, r₂, some handle, hfinish, hinv₂⟩

/-- `dealloc_slots` returns and frees the slot of the handle and no other. -/
theorem Inv.deallocSlots (h : Inv r s) {x : Nat × SlotHandle} (hx : x ∈ s.handles) :
    ∃ i c chunk r', (place s.pools x).1 = some i ∧ s.chunks[i]? = some c ∧
      x.2.ptr = c.base + x.2.slot * slotSize ∧ x.2.slot * slotSize < c.chunk.memoryLen ∧
      c.chunk.OnlyFreed chunk x.2.slot ∧
      s.deallocSlots x.1 x.2.chunkId x.2.slot = some (s.setChunk i chunk) ∧
      Inv r' { s.setChunk i chunk with handles := s.handles.erase x } := by
  obtain ⟨i, c, hi, hc, hused, hptr, hlt⟩ := h.consistent.used hx
  obtain ⟨chunk, r', hdealloc, hcons⟩ := h.consistent.free hx hi hc
  refine ⟨i, c, chunk, r', hi, hc, hptr, hlt, Chunk.onlyFreed_of_deallocSlots hused hdealloc, ?_,
    hcons, fun t => mirrored_setAt (h.mirrored t) _ _⟩
  obtain ⟨refs, hrefs, hj⟩ := Option.bind_eq_some_iff.mp hi
  unfold PoolHeap.deallocSlots
  simp only [hrefs, hj, hc, hdealloc, Option.bind_eq_bind, Option.bind_some, Option.pure_def]

/-- The entries of a thread are dropped one after the other. -/
theorem dropEntries_spec (l : List (Sigma fun _ : Nat => LocalCacheEntry)) (hkeys : l.NodupKeys)
    {s : PoolHeap} {r : Records} {held : Nat → Nat → Option LocalCacheEntry}
    (hheld : ∀ key, held t key = l.dlookup key)
    (h : Consistent r s.chunks s.pools held s.handles)
    (hmirrored : ∀ t, (s.caches t).Mirrored s.chunks) :
    ∃ s' r', dropEntries (l.map Sigma.snd) s = some s' ∧ s'.pools = s.pools ∧
      s'.handles = s.handles ∧ s'.caches = s.caches ∧
      Consistent r' s'.chunks s.pools (Function.update held t fun _ => none) s.handles ∧
      ∀ t, (s.caches t).Mirrored s'.chunks := by
  induction l generalizing s r held with
  | nil =>
    refine ⟨s, r, rfl, rfl, rfl, rfl, ?_, hmirrored⟩
    have hnone : held t = fun _ => none := funext hheld
    rw [← hnone, Function.update_eq_self]
    exact h
  | cons p l ih =>
    obtain ⟨key, entry⟩ := p
    obtain ⟨hnot, hkeys'⟩ := List.nodupKeys_cons.mp hkeys
    have hentry : held t key = some entry := by
      rw [hheld]
      exact List.dlookup_cons_eq ..
    obtain ⟨⟨c, hc⟩, -⟩ := h.entry t key entry hentry
    obtain ⟨chunk, r', hretire, hcons⟩ := h.retire hentry hc
    have hheld' : ∀ key', hold held t key none t key' = l.dlookup key' := by
      intro key'
      by_cases hkey : key' = key
      · subst hkey
        rw [hold_self]
        exact (List.dlookup_eq_none.mpr hnot).symm
      · rw [hold_of_ne fun hloc => hkey hloc.2, hheld]
        exact List.dlookup_cons_ne _ _ hkey
    obtain ⟨s', r'', hrun, hpools, hhandles, hcaches, hcons', hmirrored'⟩ :=
      ih hkeys' (s := s.setChunk entry.chunk chunk) hheld' hcons
        fun t => mirrored_setAt (hmirrored t) _ _
    refine ⟨s', r'', ?_, hpools, hhandles, hcaches, ?_, hmirrored'⟩
    · rw [List.map_cons, dropEntries]
      simp only [dropEntry, hc, hretire, Option.bind_eq_bind, Option.bind_some, Option.pure_def]
      exact hrun
    · have hsame : Function.update (hold held t key none) t (fun _ => none) =
          Function.update held t fun _ => none := by
        unfold hold
        rw [Function.update_idem]
      rw [hsame] at hcons'
      exact hcons'

/-- A thread ends. -/
theorem Inv.exitThread (h : Inv r s) (t : Nat) :
    ∃ s' r', s.exitThread t = some s' ∧ Inv r' s' := by
  unfold PoolHeap.exitThread
  simp only
  rw [LocalCache.stash_entries (h.mirrored t).apart]
  have hmirrored : ∀ t', ((s.setCache t LocalCache.new).caches t').Mirrored s.chunks := by
    intro t'
    show (Function.update s.caches t LocalCache.new t').Mirrored s.chunks
    by_cases ht : t' = t
    · subst ht
      rw [Function.update_self]
      exact LocalCache.Mirrored.new _
    · rw [Function.update_of_ne ht]
      exact h.mirrored t'
  have hheld : ∀ key, s.held t key = (s.caches t).stash.others.entries.dlookup key :=
    fun key => (LocalCache.lookup_stash (s.caches t) key).symm
  have hconsistent : Consistent r (s.setCache t LocalCache.new).chunks
      (s.setCache t LocalCache.new).pools s.held (s.setCache t LocalCache.new).handles :=
    h.consistent
  obtain ⟨s', r', hrun, hpools, hhandles, hcaches, hcons, hmirrored'⟩ :=
    dropEntries_spec _ (s.caches t).stash.others.nodupKeys hheld hconsistent hmirrored
  refine ⟨s', r', hrun, ?_, ?_⟩
  · have hheld : s'.held = Function.update s.held t fun _ => none := by
      funext t' key
      unfold held
      rw [hcaches]
      have hset := congrFun (congrFun (held_setCache s t LocalCache.new) t') key
      unfold held at hset
      rw [hset]
      by_cases ht : t' = t
      · subst ht
        rw [Function.update_self, Function.update_self]
        exact LocalCache.cached_new key
      · rw [Function.update_of_ne ht, Function.update_of_ne ht]
    rw [hheld, hpools, hhandles]
    exact hcons
  · intro t'
    rw [hcaches]
    exact hmirrored' t'

/-! ## Runs -/

/-- A pool is created only at an address under which no thread has an entry left, and
with shards of whole superblocks. -/
def Careful (s : PoolHeap) : Event → Prop
  | .create address totalMemory provision => (∀ t, s.held t address = none) ∧
      ∀ p, provision = some p → superblockSize ∣
        totalMemory / slotSize / Chunk.shardCount (totalMemory / slotSize) p.parallelism
  | _ => True

theorem inv_new : Inv ⟨fun _ => [], fun _ => [], fun _ _ _ => none⟩ PoolHeap.new := by
  have hheld : ∀ t key entry, PoolHeap.new.held t key ≠ some entry := by
    intro t key entry hentry
    rw [held, show (PoolHeap.new.caches t).cached key = none from LocalCache.cached_new key]
      at hentry
    cases hentry
  refine ⟨⟨?_, ?_, ?_, ?_, ?_, List.nodup_nil⟩, fun t => LocalCache.Mirrored.new _⟩
  · intro i c hc
    cases hc
  · intro a refs j i hrefs
    cases hrefs
  · intro t key entry hentry
    exact absurd hentry (hheld t key entry)
  · intro t key entry t' key' entry' hentry
    exact absurd hentry (hheld t key entry)
  · intro x hx
    cases hx

/-- A pool is created. -/
theorem Inv.createPool (h : Inv r s) {address totalMemory : Nat} {provision : Option Provision}
    (hfree : s.pools address = none) (hcareful : s.Careful (.create address totalMemory provision))
    (hrun : s.createPool address totalMemory provision = some s') : ∃ r', Inv r' s' := by
  unfold PoolHeap.createPool at hrun
  split at hrun
  · cases hrun
    exact ⟨r, h⟩
  rename_i hsize
  cases provision with
  | none =>
    cases hrun
    exact ⟨r, h⟩
  | some p =>
    have hslots : 8 * superblockSize ≤ totalMemory / slotSize :=
      (Nat.le_div_iff_mul_le (by decide)).mpr (Nat.le_of_not_lt fun hlt => hsize (Or.inl hlt))
    obtain ⟨chunk, hnew, -⟩ := Chunk.new_spec hslots p.parallelism p.memory
    simp only [hnew] at hrun
    cases hrun
    have hordered := ordered_of_new hslots (hcareful.2 p rfl) hnew
    obtain ⟨r', hcons⟩ := h.consistent.addChunk (Or.inr ⟨hfree, rfl, hcareful.1⟩) hordered p.base
    refine ⟨r', hcons, ?_⟩
    intro t
    refine (h.mirrored t).congr ?_
    intro i c hc
    obtain ⟨hlt, -⟩ := List.getElem?_eq_some_iff.mp hc
    exact ⟨c, by rw [List.getElem?_append_left hlt]; exact hc, rfl⟩

/-- Every operation keeps the invariant. -/
theorem Inv.step (h : Inv r s) {e : Event} (hcareful : s.Careful e) (hstep : PoolStep s e s') :
    ∃ r', Inv r' s' := by
  unfold PoolStep at hstep
  cases e with
  | create address totalMemory provision =>
    simp only [PoolHeap.step] at hstep
    split at hstep
    · rename_i hfree
      exact h.createPool hfree hcareful hstep
    · cases hstep
  | drop address =>
    simp only [PoolHeap.step] at hstep
    split at hstep
    · cases hstep
    · cases hstep
      exact ⟨r, h.consistent.dropPool address, h.mirrored⟩
  | alloc t address seed threadHash provision =>
    simp only [PoolHeap.step] at hstep
    split at hstep
    · cases hstep
    · rename_i hlive
      obtain ⟨refs, hpool⟩ := Option.ne_none_iff_exists'.mp hlive
      obtain ⟨s₁, r₁, found, hrun, hinv⟩ := h.allocSlots hpool t seed threadHash provision
      rw [hrun] at hstep
      cases hstep
      exact ⟨r₁, hinv⟩
  | free x =>
    simp only [PoolHeap.step] at hstep
    split at hstep
    · rename_i hx
      obtain ⟨i, c, chunk, r', -, -, -, -, -, hrun, hinv⟩ := h.deallocSlots hx
      rw [hrun] at hstep
      cases hstep
      exact ⟨r', hinv⟩
    · cases hstep
  | exit t =>
    obtain ⟨s₁, r₁, hrun, hinv⟩ := h.exitThread t
    cases hrun.symm.trans hstep
    exact ⟨r₁, hinv⟩

/-- Every slot that was allocated from a pool lies in a chunk of that pool, under the id
and at the pointer that were returned, and freeing it through the pool frees exactly that
slot. -/
def Sound (s : PoolHeap) : Prop :=
  ∀ x ∈ s.handles, ∃ refs i c chunk, s.pools x.1 = some refs ∧ refs[x.2.chunkId]? = some i ∧
    s.chunks[i]? = some c ∧ x.2.ptr = c.base + x.2.slot * slotSize ∧
    x.2.slot * slotSize < c.chunk.memoryLen ∧ c.chunk.OnlyFreed chunk x.2.slot ∧
    s.deallocSlots x.1 x.2.chunkId x.2.slot = some (s.setChunk i chunk)

/-- The invariant, with some records. -/
def Recorded (s : PoolHeap) : Prop := ∃ r, Inv r s

/-- **Caches stay within their pools.**  As long as no pool comes to lie at an address
under which some thread still has an entry, and the shards of the pools consist of whole
superblocks, every slot belongs to the pool it was allocated from. -/
theorem pool_cache_sound {s : PoolHeap} (h : Run PoolStep Careful (fun s => s = PoolHeap.new) s) :
    s.Sound := by
  have hrecorded : Recorded s := by
    refine h.invariant ?_ ?_
    · rintro _ rfl
      exact ⟨_, inv_new⟩
    · rintro s e s' ⟨r, hinv⟩ hcareful hstep
      exact hinv.step hcareful hstep
  obtain ⟨r, hinv⟩ := hrecorded
  intro x hx
  obtain ⟨i, c, chunk, r', hi, hc, hptr, hlt, hfreed, hrun, -⟩ := hinv.deallocSlots hx
  obtain ⟨refs, hrefs, hj⟩ := Option.bind_eq_some_iff.mp hi
  exact ⟨refs, i, c, chunk, hrefs, hj, hc, hptr, hlt, hfreed, hrun⟩

/-- The smallest pool on a single core, with its memory at `base`. -/
def provide (base : Nat) : Option Provision := some ⟨base, fun _ => zeroPage, 1⟩

/-- A pool at address 4096. -/
def created : PoolHeap :=
  (PoolHeap.new.step (.create 4096 minThreadMemory (provide 0x10000000))).get (by decide +kernel)

/-- Two threads allocate from it. -/
def twoAllocs : List Event := [.alloc 0 4096 (some 0) 0 none, .alloc 1 4096 (some 0) 0 none]

def Event.isCreate : Event → Bool
  | .create .. => true
  | _ => false

def shared : PoolHeap :=
  (replay step (fun _ e => !e.isCreate) created twoAllocs).get (by decide +kernel)

/-- The two slots lie in the pool. -/
theorem pool_cache_sound_shared :
    Run PoolStep Careful (fun s => s = PoolHeap.new) shared ∧ shared.handles.length = 2 ∧
      shared.Sound := by
  have hcreate : PoolHeap.new.step (.create 4096 minThreadMemory (provide 0x10000000)) =
      some created := (Option.some_get _).symm
  have hreplay : replay step (fun _ e => !e.isCreate) created twoAllocs = some shared :=
    (Option.some_get _).symm
  have hcareful : PoolHeap.new.Careful (.create 4096 minThreadMemory (provide 0x10000000)) := by
    refine ⟨fun t => LocalCache.cached_new 4096, ?_⟩
    intro p hp
    cases hp
    decide +kernel
  have hnew : Run PoolStep Careful (fun s => s = PoolHeap.new) PoolHeap.new := Run.start rfl
  have hstart := hnew.next _ hcareful hcreate
  have hrun : Run PoolStep Careful (fun s => s = PoolHeap.new) shared := by
    refine Run.replay (fun _ _ _ h => h) ?_ hstart hreplay
    intro s e htest
    cases e with
    | create => cases htest
    | drop | alloc | free | exit => trivial
  exact ⟨hrun, by decide +kernel, pool_cache_sound hrun⟩

/-- A pool is created at the address of a pool that the thread had used. -/
def reuse : List Event :=
  [.create 4096 minThreadMemory (provide 0x10000000), .alloc 0 4096 (some 0) 0 none,
   .drop 4096, .create 4096 minThreadMemory (provide 0x20000000),
   .alloc 0 4096 (some 0) 0 none]

def reused : PoolHeap :=
  (replay step (fun _ _ => true) PoolHeap.new reuse).get (by decide +kernel)

/-- The new pool hands out a slot of the old one. -/
theorem pool_cache_foreign :
    Run PoolStep Always (fun s => s = PoolHeap.new) reused ∧
      (4096, ⟨0, 1, 0x10000000 + 4096⟩) ∈ reused.handles ∧ ¬ reused.Sound := by
  have hreplay : replay step (fun _ _ => true) PoolHeap.new reuse = some reused :=
    (Option.some_get _).symm
  have hnew : Run PoolStep Always (fun s => s = PoolHeap.new) PoolHeap.new := Run.start rfl
  have hrun := hnew.replay (fun _ _ _ h => h) (fun _ _ _ => trivial) hreplay
  have hmem : (4096, (⟨0, 1, 0x10000000 + 4096⟩ : SlotHandle)) ∈ reused.handles := by
    decide +kernel
  have hbase : (((reused.pools 4096).bind fun refs => refs[0]?).bind
      fun i => reused.chunks[i]?).map SharedChunk.base = some 0x20000000 := by decide +kernel
  refine ⟨hrun, hmem, ?_⟩
  -- from here on the state is only a name
  generalize reused = s at hmem hbase
  intro hsound
  obtain ⟨refs, i, c, chunk, hrefs, hi, hc, hptr, -⟩ := hsound _ hmem
  rw [hrefs, Option.bind_some, hi, Option.bind_some, hc, Option.map_some] at hbase
  rw [Option.some.inj hbase] at hptr
  exact absurd hptr (by decide)

end PoolHeap

end Veloq.Heap
