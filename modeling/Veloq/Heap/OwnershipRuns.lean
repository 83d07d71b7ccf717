import Veloq.Heap.Ownership
set_option autoImplicit false

/-!
# Heap: each active superblock has one holder

What an operation does to the entries and to the flags is a sequence of moves of the tenancy: a
full superblock is retired, a carved one acquired.  The invariant of the pools says that the
carved superblock is not in use.
-/

namespace Veloq.Heap

open Veloq.Foundation
open Veloq.Foundation.Dyadic

/-- The superblock that is carved is held nowhere. -/
theorem Consistent.carve_fresh {r : Records} {chunks : List SharedChunk}
    {pools : Nat → Option (List Nat)} {held : Nat → Nat → Option LocalCacheEntry}
    {handles : List (Nat × SlotHandle)} (h : Consistent r chunks pools held handles) {t key i j : Nat}
    (hnone : held t key = none) {refs : List Nat} (hpool : pools key = some refs)
    (hj : refs[j]? = some i) {c : SharedChunk} (hc : chunks[i]? = some c) {seed : Option Nat}
    {threadHash : Nat} {chunk : Chunk} {a : Allocation} {e : CacheEntry}
    (hsmall : c.chunk.allocSmall seed threadHash = some (chunk, some (a, e)))
    (t' key' : Nat) (entry' : LocalCacheEntry) (hentry' : held t' key' = some entry') :
    entry'.superblock ≠ (i, e.superblock) := by
  intro heq
  obtain ⟨hchunk, hsb⟩ := Prod.mk.inj heq
  obtain ⟨r', hcons⟩ := h.carve t hpool hj hc hsmall
  have hne : ¬ (t' = t ∧ key' = key) := by
    rintro ⟨rfl, rfl⟩
    exact absurd (hnone.symm.trans hentry').symm (Option.some_ne_none _)
  exact hne (hcons.sole t' key' entry' t key _ ((hold_of_ne hne).trans hentry') (hold_self ..)
    hchunk hsb)

namespace PoolHeap

variable {s s' s'' : PoolHeap} {r : Records} {t poolId : Nat} {entry : LocalCacheEntry}

/-- The entries and the flags change by moves of the tenancy; entries are new only under
`address`, and no pool disappears. -/
structure Traffic (address : Nat) (s s' : PoolHeap) : Prop where
  passes : Passes s.chunks s.held s'.chunks s'.held
  keys : ∀ t key, s'.held t key ≠ none → s.held t key ≠ none ∨ key = address
  pools : ∀ key, s.pools key ≠ none → s'.pools key ≠ none

variable {address : Nat}

theorem Traffic.refl (address : Nat) (s : PoolHeap) : Traffic address s s :=
  ⟨.refl _ _, fun _ _ => .inl, fun _ => id⟩

theorem Traffic.trans (h : Traffic address s s') (h' : Traffic address s' s'') :
    Traffic address s s'' := by
  refine ⟨h.passes.trans h'.passes, fun t key hkey => ?_, fun key hkey => h'.pools key (h.pools key hkey)⟩
  rcases h'.keys t key hkey with hold | hnew
  · exact h.keys t key hold
  · exact .inr hnew

/-- A chunk changes, but no flag of it. -/
theorem Traffic.quiet {i : Nat} {c : SharedChunk} {chunk : Chunk} (address : Nat)
    (hc : s.chunks[i]? = some c) (h : chunk.activeAt = c.chunk.activeAt) :
    Traffic address s (s.setChunk i chunk) :=
  ⟨.quiet (activeIn_same hc h), fun _ _ => .inl, fun _ => id⟩

theorem update_held (s : PoolHeap) (t key : Nat) (value : Option LocalCacheEntry) :
    Function.update s.held t (Function.update (s.caches t).cached key value) =
      hold s.held t key value := rfl

theorem hold_ne_none {held : Nat → Nat → Option LocalCacheEntry} {key t' key' : Nat}
    {value : Option LocalCacheEntry} (h : hold held t key value t' key' ≠ none) :
    held t' key' ≠ none ∨ key' = key ∧ value ≠ none := by
  rcases Classical.em (t' = t ∧ key' = key) with ⟨rfl, rfl⟩ | hne
  · rw [hold_self] at h
    exact .inr ⟨rfl, h⟩
  · rw [hold_of_ne hne] at h
    exact .inl h

/-! ## The operations of a cache -/

theorem Inv.hotClear_traffic (h : Inv r s) (address : Nat)
    (howner : (s.caches t).hot.owner = some entry) (hrun : s.hotClear t = some s') :
    Traffic address s s' := by
  have hheld : s.held t (s.caches t).hot.poolId = some entry := LocalCache.cached_hot howner
  obtain ⟨⟨c, hc⟩, -⟩ := h.consistent.entry t _ entry hheld
  obtain ⟨chunk, r', hretire, -⟩ := h.consistent.retire hheld hc
  have hlookup := (h.mirrored t).apart (by rw [howner]; exact Option.some_ne_none _)
  cases (hotClear_eq howner hc hretire).symm.trans hrun
  have hheld' : (s.setCache t (s.caches t).cleared).held =
      hold s.held t (s.caches t).hot.poolId none := by
    rw [held_setCache, LocalCache.cached_cleared hlookup, update_held]
  refine ⟨?_, fun t' key hkey => ?_, fun _ => id⟩
  · show Passes s.chunks s.held (setAt s.chunks entry.chunk chunk)
      (s.setCache t (s.caches t).cleared).held
    rw [hheld']
    exact .retire hheld hc hretire
  · change (s.setCache t (s.caches t).cleared).held t' key ≠ none at hkey
    rw [hheld'] at hkey
    rcases hold_ne_none hkey with hold | ⟨-, hnone⟩
    · exact .inl hold
    · exact absurd rfl hnone

theorem Inv.tryHot_traffic (h : Inv r s) {found : Option SlotHandle}
    (hrun : s.tryHot t poolId = some (s', found)) : Traffic address s s' := by
  unfold PoolHeap.tryHot at hrun
  cases howner : (s.caches t).hot.owner with
  | none =>
    simp only [(h.mirrored t).null howner] at hrun
    cases hrun
    exact .refl address s
  | some entry =>
    obtain ⟨hstate, -, -, c, hc, -⟩ := (h.mirrored t).state entry howner
    simp only [hstate] at hrun
    split at hrun
    case isFalse =>
      cases hrun
      exact .refl address s
    case isTrue =>
      rw [hc, Option.bind_eq_bind, Option.bind_some] at hrun
      obtain ⟨⟨chunk, offset⟩, hone, hrun⟩ := Option.bind_eq_some_iff.mp hrun
      have hquiet : Traffic address s (s.setChunk entry.chunk chunk) :=
        .quiet address hc (Chunk.activeAt_allocOne hone)
      cases offset with
      | some offset =>
        cases hrun
        exact hquiet
      | none =>
        obtain ⟨s₁, hclear, hrun⟩ := Option.bind_eq_some_iff.mp hrun
        cases hrun
        -- a full superblock is left as it was
        have hsame : chunk = c.chunk := by
          unfold Chunk.allocOne SuperblockState.allocOne at hone
          split at hone
          · cases hone
          · rename_i state hsb
            dsimp only at hone
            split at hone
            · cases hone
              obtain ⟨hlt, rfl⟩ := List.getElem?_eq_some_iff.mp hsb
              rw [List.set_getElem_self]
            · cases hone
        have hchunk : s.setChunk entry.chunk chunk = s := by
          unfold setChunk
          rw [hsame, show s.chunks.modify entry.chunk _ = s.chunks from setAt_same hc]
        rw [hchunk] at hclear
        exact h.hotClear_traffic address howner hclear

theorem Inv.promote_traffic (h : Inv r s) (hcold : s.Cold t poolId)
    (hlookup : (s.caches t).others.lookup poolId = some entry)
    (hrun : (s.setCache t { s.caches t with
      others := (s.caches t).others.erase poolId }).cacheInsert t poolId entry = some s') :
    Traffic address s s' := by
  obtain ⟨cache, hinsert, hcached, -⟩ := h.promote_eq hcold hlookup
  cases hinsert.symm.trans hrun
  have hheld : (s.setCache t cache).held = s.held := by
    rw [held_setCache, hcached]
    exact Function.update_eq_self t s.held
  refine ⟨?_, fun t' key hkey => ?_, fun _ => id⟩
  · rw [hheld]
    exact .refl _ _
  · rw [hheld] at hkey
    exact .inl hkey

/-- The steps of `try_alloc`, with the second call if there is one. -/
inductive Tried (t poolId : Nat) (s : PoolHeap) : PoolHeap → Option SlotHandle → Prop where
  | first {s' : PoolHeap} {found : Option SlotHandle} :
      s.tryHot t poolId = some (s', found) → Tried t poolId s s' found
  | second {s₁ s₂ s' : PoolHeap} {r₁ r₂ : Records} {entry : LocalCacheEntry}
      {found : Option SlotHandle} :
      s.tryHot t poolId = some (s₁, none) → Inv r₁ s₁ → s₁.Cold t poolId →
      (s₁.caches t).others.lookup poolId = some entry →
      (s₁.setCache t { s₁.caches t with
        others := (s₁.caches t).others.erase poolId }).cacheInsert t poolId entry = some s₂ →
      Inv r₂ s₂ → s₂.tryHot t poolId = some (s', found) → Tried t poolId s s' found

/-- However many calls there may be, at most two are made. -/
theorem Inv.tryAlloc_tried (h : Inv r s) {refs : List Nat} (hpool : s.pools poolId = some refs) :
    ∃ s' found, Tried t poolId s s' found ∧
      ∀ depth, s.tryAlloc (depth + 2) t poolId = some (s', found) := by
  rcases h.tryHot (t := t) hpool with ⟨s₁, r₁, handle, hrun, -⟩ |
    ⟨s₁, r₁, hrun, hinv, hpools, hcold, -⟩
  · refine ⟨s₁, some handle, .first hrun, fun depth => ?_⟩
    rw [PoolHeap.tryAlloc, hrun]
    rfl
  cases hlookup : (s₁.caches t).others.lookup poolId with
  | none =>
    refine ⟨s₁, none, .first hrun, fun depth => ?_⟩
    rw [PoolHeap.tryAlloc]
    simp only [hrun, Option.bind_eq_bind, Option.bind_some, Option.pure_def, hlookup]
  | some entry =>
    obtain ⟨s₂, hinsert, hinv₂, hpools₂, hnone₂⟩ := hinv.promote hcold hlookup
    have hunfold : ∀ depth, s.tryAlloc (depth + 2) t poolId = s₂.tryAlloc (depth + 1) t poolId := by
      intro depth
      unfold cacheInsert at hinsert
      rw [Option.bind_eq_bind] at hinsert
      rw [PoolHeap.tryAlloc]
      simp only [hrun, Option.bind_eq_bind, Option.bind_some, Option.pure_def, hlookup]
      rw [← Option.bind_assoc, hinsert, Option.bind_some]
    rcases hinv₂.tryHot (t := t) (by rw [hpools₂, hpools]; exact hpool) with
      ⟨s₃, r₃, handle, hrun₃, -⟩ | ⟨s₃, r₃, hrun₃, hinv₃, -, -, hothers₃⟩
    · refine ⟨s₃, some handle, .second hrun hinv hcold hlookup hinsert hinv₂ hrun₃,
        fun depth => ?_⟩
      rw [hunfold, PoolHeap.tryAlloc, hrun₃]
      rfl
    · rw [← hothers₃] at hnone₂
      refine ⟨s₃, none, .second hrun hinv hcold hlookup hinsert hinv₂ hrun₃,
        fun depth => ?_⟩
      rw [hunfold, PoolHeap.tryAlloc]
      simp only [hrun₃, Option.bind_eq_bind, Option.bind_some, Option.pure_def, hnone₂]

theorem Inv.tried_traffic (h : Inv r s) {found : Option SlotHandle}
    (htried : Tried t poolId s s' found) : Traffic address s s' := by
  cases htried with
  | first hrun => exact h.tryHot_traffic hrun
  | second hrun hinv hcold hlookup hinsert hinv₂ hrun₂ =>
    exact (h.tryHot_traffic hrun).trans
      ((hinv.promote_traffic hcold hlookup hinsert).trans (hinv₂.tryHot_traffic hrun₂))

/-! ## The operations of a pool -/

theorem Inv.finishAlloc_traffic (h : Inv r s) (hnone : s.held t poolId = none) {refs : List Nat}
    {i j : Nat} (hpool : s.pools poolId = some refs) (hj : refs[j]? = some i) {c : SharedChunk}
    (hc : s.chunks[i]? = some c) {seed : Option Nat} {threadHash : Nat} {chunk : Chunk}
    {a : Allocation} {e : CacheEntry} {found : Option SlotHandle}
    (hsmall : c.chunk.allocSmall seed threadHash = some (chunk, some (a, e)))
    (hrun : (s.setChunk i chunk).finishAlloc t poolId
      ⟨i, c.id, e.superblock, a.index, c.base + a.index * slotSize⟩ = some (s', found)) :
    Traffic poolId s s' := by
  obtain ⟨cache, hfinish, hcached, -⟩ := h.finishAlloc_eq hnone hpool hj hc hsmall
  cases hfinish.symm.trans hrun
  have hheld : (s.setCache t cache).held =
      hold s.held t poolId (some ⟨i, e.superblock, c.id⟩) := by
    rw [held_setCache, hcached, update_held]
  refine ⟨?_, fun t' key hkey => ?_, fun _ => id⟩
  · show Passes s.chunks s.held (setAt s.chunks i chunk) (s.setCache t cache).held
    rw [hheld]
    exact .carve hnone hc hsmall (h.consistent.carve_fresh hnone hpool hj hc hsmall)
  · change (s.setCache t cache).held t' key ≠ none at hkey
    rw [hheld] at hkey
    rcases hold_ne_none hkey with hold | ⟨hkey, -⟩
    · exact .inl hold
    · exact .inr hkey

/-- The pool gets a chunk in which nothing is active. -/
theorem Traffic.grow (s : PoolHeap) {c : SharedChunk} (h : ∀ j, c.chunk.activeAt j = false)
    (refs : List Nat) : Traffic address s { s with
      chunks := s.chunks ++ [c]
      pools := Function.update s.pools address (some refs) } := by
  refine ⟨.quiet (activeIn_concat h), fun _ _ => .inl, fun key hkey => ?_⟩
  show Function.update s.pools address (some refs) key ≠ none
  rcases Classical.em (key = address) with rfl | hne
  · rw [Function.update_self]
    exact Option.some_ne_none _
  · rw [Function.update_of_ne hne]
    exact hkey

theorem Inv.expand_traffic (h : Inv r s) (hnone : s.held t poolId = none) {refs : List Nat}
    (hpool : s.pools poolId = some refs) {seed : Option Nat} {threadHash : Nat}
    {provision : Option Provision} {found : Option SlotHandle}
    (hrun : s.expand t poolId refs seed threadHash provision = some (s', found)) :
    Traffic poolId s s' := by
  unfold PoolHeap.expand at hrun
  split at hrun
  case isFalse =>
    cases hrun
    exact .refl _ _
  case isTrue =>
    cases provision with
    | none =>
      cases hrun
      exact .refl _ _
    | some p =>
      obtain ⟨chunk, hnew, -⟩ := Chunk.new_spec
        (show 8 * superblockSize ≤ expansionSize / slotSize by decide) p.parallelism p.memory
      have hordered := ordered_of_new (by decide) (expansion_aligned p.parallelism) hnew
      obtain ⟨r', hcons⟩ := h.consistent.addChunk (Or.inl hpool) hordered p.base
      have hmirrored : ∀ t, (s.caches t).Mirrored (s.chunks ++ [⟨refs.length, p.base, chunk⟩]) := by
        intro t
        refine (h.mirrored t).congr ?_
        intro i c hc
        obtain ⟨hlt, -⟩ := List.getElem?_eq_some_iff.mp hc
        exact ⟨c, by rw [List.getElem?_append_left hlt]; exact hc, rfl⟩
      set grown : PoolHeap := { s with
        chunks := s.chunks ++ [⟨refs.length, p.base, chunk⟩]
        pools := Function.update s.pools poolId (some (refs ++ [s.chunks.length])) } with hgrown
      have hinv : Inv r' grown := ⟨hcons, hmirrored⟩
      have hgrow : Traffic poolId s grown := .grow s (Chunk.activeAt_new hnew) _
      simp only [hnew] at hrun
      obtain ⟨⟨chunk', found'⟩, hsmall, hrun⟩ := Option.bind_eq_some_iff.mp hrun
      obtain ⟨owned, hchunk⟩ := hordered
      have hset : ({ s with
            chunks := s.chunks ++ [⟨refs.length, p.base, chunk'⟩]
            pools := Function.update s.pools poolId (some (refs ++ [s.chunks.length])) } :
            PoolHeap) = grown.setChunk s.chunks.length chunk' := by
        unfold setChunk
        rw [show grown.chunks.modify s.chunks.length _ = _ from setAt_concat ..]
      have hlast : grown.chunks[s.chunks.length]? = some ⟨refs.length, p.base, chunk⟩ :=
        List.getElem?_concat_length ..
      cases found' with
      | none =>
        cases hrun
        rw [hset]
        have hsame : chunk' = chunk := by
          rcases hchunk.allocSmall seed threadHash with hfail | ⟨_, _, _, _, hsome, -⟩
          · cases hfail.symm.trans hsmall
            rfl
          · cases hsome.symm.trans hsmall
        rw [hsame]
        exact hgrow.trans (.quiet _ hlast rfl)
      | some ae =>
        obtain ⟨a, e⟩ := ae
        have hnone' : grown.held t poolId = none := hnone
        have hrefs : grown.pools poolId = some (refs ++ [s.chunks.length]) :=
          Function.update_self ..
        have hindex : (refs ++ [s.chunks.length])[refs.length]? = some s.chunks.length :=
          List.getElem?_concat_length ..
        dsimp only at hrun
        rw [hset] at hrun
        exact hgrow.trans (hinv.finishAlloc_traffic hnone' hrefs hindex hlast hsmall hrun)

theorem Inv.allocSlots_traffic (h : Inv r s) {refs : List Nat} (hpool : s.pools poolId = some refs)
    {seed : Option Nat} {threadHash : Nat} {provision : Option Provision}
    {found : Option SlotHandle}
    (hrun : s.allocSlots t poolId seed threadHash provision = some (s', found)) :
    Traffic poolId s s' := by
  obtain ⟨s₁, found₁, htried, htry⟩ := h.tryAlloc_tried (t := t) hpool
  have hfirst : Traffic poolId s s₁ := h.tried_traffic htried
  unfold PoolHeap.allocSlots at hrun
  rw [show s.tryAlloc 2 t poolId = _ from htry 0, Option.bind_eq_bind, Option.bind_some] at hrun
  rcases h.tryAlloc (t := t) hpool with ⟨s₂, r₂, handle, hrun₂, -⟩ |
    ⟨s₂, r₂, hrun₂, hinv, hpools, hnone⟩
  · cases hrun₂.symm.trans (htry 0)
    cases hrun
    exact hfirst
  cases hrun₂.symm.trans (htry 0)
  have hpool₁ : s₁.pools poolId = some refs := by
    rw [hpools]
    exact hpool
  have hrefs : ∀ i ∈ refs, ∃ c, s₁.chunks[i]? = some c := by
    intro i hi
    obtain ⟨j, hj⟩ := List.mem_iff_getElem?.mp hi
    obtain ⟨c, hc, -⟩ := hinv.consistent.pool poolId refs j i hpool₁ hj
    exact ⟨c, hc⟩
  refine hfirst.trans ?_
  dsimp only at hrun
  rw [hpool₁, Option.bind_eq_bind, Option.bind_some] at hrun
  rcases hinv.scanChunks seed threadHash refs hrefs with hscan |
    ⟨i, c, chunk, a, e, hi, hc, hsmall, hscan⟩
  · simp only [hscan, Option.bind_eq_bind, Option.bind_some] at hrun
    exact hinv.expand_traffic hnone hpool₁ hrun
  · obtain ⟨j, hj⟩ := List.mem_iff_getElem?.mp hi
    simp only [hscan, Option.bind_eq_bind, Option.bind_some] at hrun
    exact hinv.finishAlloc_traffic hnone hpool₁ hj hc hsmall hrun

theorem createPool_traffic {totalMemory : Nat} {provision : Option Provision}
    (hrun : s.createPool address totalMemory provision = some s') :
    Traffic address s s' ∧ s'.caches = s.caches := by
  unfold PoolHeap.createPool at hrun
  split at hrun
  · cases hrun
    exact ⟨.refl _ _, rfl⟩
  · cases provision with
    | none =>
      cases hrun
      exact ⟨.refl _ _, rfl⟩
    | some p =>
      dsimp only at hrun
      split at hrun
      · cases hrun
        exact ⟨.refl _ _, rfl⟩
      · cases hrun
      · rename_i chunk hnew
        cases hrun
        exact ⟨.grow s (Chunk.activeAt_new hnew) _, rfl⟩

theorem deallocSlots_traffic {chunkId slot : Nat} (address' : Nat)
    (hrun : s.deallocSlots address' chunkId slot = some s') : Traffic address s s' := by
  unfold PoolHeap.deallocSlots at hrun
  obtain ⟨refs, -, hrun⟩ := Option.bind_eq_some_iff.mp hrun
  obtain ⟨i, -, hrun⟩ := Option.bind_eq_some_iff.mp hrun
  obtain ⟨c, hc, hrun⟩ := Option.bind_eq_some_iff.mp hrun
  obtain ⟨chunk, hdealloc, hrun⟩ := Option.bind_eq_some_iff.mp hrun
  cases hrun
  exact .quiet _ hc (Chunk.activeAt_deallocSlots hdealloc)

/-- Each entry of the list is dropped, from its place. -/
theorem dropEntries_passes (l : List (Sigma fun _ : Nat => LocalCacheEntry)) (hkeys : l.NodupKeys)
    {held : Nat → Nat → Option LocalCacheEntry} (hheld : ∀ key, held t key = l.dlookup key)
    (hrun : dropEntries (l.map Sigma.snd) s = some s') :
    Passes s.chunks held s'.chunks (Function.update held t fun _ => none) := by
  induction l generalizing s held with
  | nil =>
    cases hrun
    rw [show (fun _ => none) = held t from (funext hheld).symm, Function.update_eq_self]
    exact .refl _ _
  | cons p l ih =>
    obtain ⟨key, entry⟩ := p
    obtain ⟨hnot, hkeys'⟩ := List.nodupKeys_cons.mp hkeys
    have hentry : held t key = some entry := by
      rw [hheld]
      exact List.dlookup_cons_eq ..
    obtain ⟨s₁, hdrop, hrest⟩ := Option.bind_eq_some_iff.mp hrun
    obtain ⟨c, hc, hdrop⟩ := Option.bind_eq_some_iff.mp hdrop
    obtain ⟨chunk, hretire, hdrop⟩ := Option.bind_eq_some_iff.mp hdrop
    cases hdrop
    have hheld' : ∀ key', hold held t key none t key' = l.dlookup key' := by
      intro key'
      rcases Classical.em (key' = key) with rfl | hne
      · rw [hold_self]
        exact (List.dlookup_eq_none.mpr hnot).symm
      · rw [hold_of_ne fun hloc => hne hloc.2, hheld]
        exact List.dlookup_cons_ne _ _ hne
    have hpasses := ih hkeys' hheld' hrest
    rw [show Function.update (hold held t key none) t (fun _ => none) =
        Function.update held t fun _ => none from Function.update_idem ..] at hpasses
    exact (Passes.retire hentry hc hretire).trans hpasses

/-- What the entries of a thread that exits leave behind. -/
theorem dropEntries_same {l : List LocalCacheEntry} (hrun : dropEntries l s = some s') :
    s'.caches = s.caches ∧ s'.pools = s.pools := by
  induction l generalizing s with
  | nil =>
    cases hrun
    exact ⟨rfl, rfl⟩
  | cons entry l ih =>
    obtain ⟨s₁, hdrop, hrest⟩ := Option.bind_eq_some_iff.mp hrun
    obtain ⟨c, hc, hdrop⟩ := Option.bind_eq_some_iff.mp hdrop
    obtain ⟨chunk, hretire, hdrop⟩ := Option.bind_eq_some_iff.mp hdrop
    cases hdrop
    have hsame := ih hrest
    exact hsame

theorem Inv.exitThread_traffic (h : Inv r s) (hrun : s.exitThread t = some s') :
    Traffic address s s' := by
  unfold PoolHeap.exitThread at hrun
  dsimp only at hrun
  rw [LocalCache.stash_entries (h.mirrored t).apart] at hrun
  obtain ⟨hcaches, hpools⟩ := dropEntries_same hrun
  have hheld : s'.held = Function.update s.held t fun _ => none := by
    have hnone : LocalCache.new.cached = fun _ => none := funext LocalCache.cached_new
    rw [← hnone, ← held_setCache]
    unfold held
    rw [hcaches]
  refine ⟨?_, fun t' key hkey => ?_, fun key hkey => ?_⟩
  · rw [hheld]
    have hentries : ∀ key, s.held t key = (s.caches t).stash.others.entries.dlookup key :=
      fun key => (LocalCache.lookup_stash (s.caches t) key).symm
    have hpasses := dropEntries_passes _ (s.caches t).stash.others.nodupKeys hentries hrun
    exact hpasses
  · rw [hheld] at hkey
    rcases Classical.em (t' = t) with rfl | hne
    · rw [Function.update_self] at hkey
      exact absurd rfl hkey
    · rw [Function.update_of_ne hne] at hkey
      exact .inl hkey
  · rw [hpools]
    exact hkey

theorem Chunk.activeAt_write (c : Chunk) (page : Nat) (node : FreeNode) :
    (c.write page node).activeAt = c.activeAt := rfl

/-- A write to a slot stays within it. -/
theorem Inv.writeSlot (h : Inv r s) {x : Nat × SlotHandle} {node : FreeNode}
    (hrun : s.writeSlot x node = some s') : Traffic address s s' ∧ ∃ r', Inv r' s' := by
  unfold PoolHeap.writeSlot at hrun
  split at hrun
  case isFalse => cases hrun
  case isTrue hx =>
    obtain ⟨refs, hrefs, hrun⟩ := Option.bind_eq_some_iff.mp hrun
    obtain ⟨i, hi, hrun⟩ := Option.bind_eq_some_iff.mp hrun
    obtain ⟨c, hc, hrun⟩ := Option.bind_eq_some_iff.mp hrun
    cases hrun
    refine ⟨.quiet _ hc (Chunk.activeAt_write ..), ?_⟩
    have hplace : (place s.pools x).1 = some i := Option.bind_eq_some_iff.mpr ⟨refs, hrefs, hi⟩
    obtain ⟨a, ha, hindex, hsb⟩ := h.consistent.live_of_handle hx hplace
    have hinv := (h.consistent.chunk i c hc).write ha (covers_self a.index a.order) node
    rw [hindex] at hinv
    refine ⟨_, h.consistent.change hc hinv (fun _ _ _ => id) (List.Sublist.refl _)
      (fun t key entry hentry hchunk => hchunk ▸ (h.consistent.entry t key entry hentry).2.1)
      (fun y hy hiy => h.consistent.live_of_handle hy hiy),
      fun t => mirrored_setAt (h.mirrored t) _ _⟩

/-! ## Runs -/

/-- The invariant, the accounts, and the pools behind the entries. -/
structure Accounted (s : PoolHeap) : Prop where
  recorded : s.Recorded
  rooted : ∀ t key, s.held t key ≠ none → s.pools key ≠ none
  ledger : ∃ l, l.Sound ∧ Tenancy.empty.Moves l ∧ Follows l s.chunks s.held

theorem Accounted.new : PoolHeap.new.Accounted := by
  have hnone : ∀ t key, PoolHeap.new.held t key = none := fun _ key => LocalCache.cached_new key
  refine ⟨⟨_, inv_new⟩, fun t key hkey => absurd (hnone t key) hkey,
    .empty, .empty, .refl _, fun t key => ?_, ?_⟩
  · rw [hnone]
    rfl
  · funext x
    rfl

/-- A step makes entries only under an address at which there is a pool. -/
structure Passage (s s' : PoolHeap) (address : Nat) : Prop where
  traffic : Traffic address s s'
  pool : ∀ t, s'.held t address ≠ none → s'.pools address ≠ none
  recorded : s'.Recorded

/-- A pool is created where no thread has an entry left, since pools stay alive. -/
theorem Accounted.careful (h : s.Accounted) {e : Event} (hwhole : s.Whole (.op e))
    (hstep : s.step e = some s') : s.Careful e := by
  cases e with
  | create address totalMemory provision =>
    obtain ⟨hfree, -⟩ := Option.ite_none_right_eq_some.mp hstep
    refine ⟨fun t => ?_, hwhole⟩
    by_contra hkey
    exact h.rooted t address hkey hfree
  | drop address => trivial
  | alloc t address seed threadHash provision => trivial
  | free x => trivial
  | exit t => trivial

theorem Accounted.op (h : s.Accounted) {e : Event} (hwhole : s.Whole (.op e))
    (hstep : s.step e = some s') : ∃ address, Passage s s' address := by
  obtain ⟨r, hinv⟩ := h.recorded
  have hrecorded : s'.Recorded := hinv.step (h.careful hwhole hstep) hstep
  cases e with
  | create address totalMemory provision =>
    obtain ⟨-, hrun⟩ := Option.ite_none_right_eq_some.mp hstep
    obtain ⟨htraffic, hcaches⟩ := createPool_traffic hrun
    refine ⟨address, htraffic,
      fun t hkey => htraffic.pools address (h.rooted t address ?_), hrecorded⟩
    unfold held at hkey ⊢
    rwa [hcaches] at hkey
  | drop address => exact absurd hwhole id
  | alloc t address seed threadHash provision =>
    unfold PoolHeap.step at hstep
    dsimp only at hstep
    split at hstep
    · cases hstep
    · rename_i hlive
      obtain ⟨refs, hpool⟩ := Option.ne_none_iff_exists'.mp hlive
      obtain ⟨⟨s₁, found⟩, hrun, hstep⟩ := Option.map_eq_some_iff.mp hstep
      have htraffic := hinv.allocSlots_traffic hpool hrun
      cases hstep
      exact ⟨address, ⟨htraffic.passes, htraffic.keys, htraffic.pools⟩,
        fun _ _ => htraffic.pools address hlive, hrecorded⟩
  | free x =>
    obtain ⟨hx, hstep⟩ := Option.ite_none_right_eq_some.mp hstep
    obtain ⟨s₁, hrun, hstep⟩ := Option.map_eq_some_iff.mp hstep
    have htraffic : Traffic x.1 s s₁ := deallocSlots_traffic x.1 hrun
    have hlive : s.pools x.1 ≠ none := by
      obtain ⟨refs, hrefs, -⟩ := Option.bind_eq_some_iff.mp hrun
      rw [hrefs]
      exact Option.some_ne_none _
    cases hstep
    exact ⟨x.1, ⟨htraffic.passes, htraffic.keys, htraffic.pools⟩,
      fun _ _ => htraffic.pools x.1 hlive, hrecorded⟩
  | exit t =>
    -- no address gets an entry
    have htraffic : ∀ address, Traffic address s s' := fun _ => hinv.exitThread_traffic hstep
    refine ⟨0, htraffic 0, fun t' hkey => ?_, hrecorded⟩
    rcases (htraffic 1).keys t' 0 hkey with hold | hne
    · exact (htraffic 0).pools 0 (h.rooted t' 0 hold)
    · exact absurd hne Nat.zero_ne_one

theorem Accounted.step (h : s.Accounted) {e : CacheEvent} (hwhole : s.Whole e)
    (hstep : CacheStep s e s') : ∃ address, Passage s s' address := by
  cases e with
  | op e => exact h.op hwhole hstep
  | write x node =>
    obtain ⟨r, hinv⟩ := h.recorded
    have hwrite : Traffic x.1 s s' ∧ ∃ r', Inv r' s' := hinv.writeSlot hstep
    obtain ⟨htraffic, hrecorded⟩ := hwrite
    refine ⟨x.1, htraffic, fun _ _ => htraffic.pools x.1 ?_, hrecorded⟩
    obtain ⟨-, hstep⟩ := Option.ite_none_right_eq_some.mp hstep
    obtain ⟨refs, hrefs, -⟩ := Option.bind_eq_some_iff.mp hstep
    rw [hrefs]
    exact Option.some_ne_none _

/-- The hot cells are those of the entry that the hot segment owns. -/
theorem Accounted.hot (h : s.Accounted) {x : Nat × Nat}
    (hx : (s.caches t).hot.sbState = some x) :
    ∃ entry c refs, (s.caches t).hot.owner = some entry ∧ x = entry.superblock ∧
      (s.caches t).hot.sbIdx = entry.sbIdx ∧ (s.caches t).hot.chunkId = entry.chunkId ∧
      s.chunks[entry.chunk]? = some c ∧ (s.caches t).hot.chunkBase = c.base ∧
      s.pools (s.caches t).hot.poolId = some refs ∧
      refs[entry.chunkId]? = some entry.chunk := by
  obtain ⟨r, hinv⟩ := h.recorded
  cases howner : (s.caches t).hot.owner with
  | none => exact absurd (hx.symm.trans ((hinv.mirrored t).null howner)) (Option.some_ne_none x)
  | some entry =>
    obtain ⟨hstate, hidx, hid, c, hc, hbase⟩ := (hinv.mirrored t).state entry howner
    have hheld : s.held t (s.caches t).hot.poolId = some entry := LocalCache.cached_hot howner
    obtain ⟨refs, hrefs⟩ := Option.ne_none_iff_exists'.mp (h.rooted t _ (by
      rw [hheld]
      exact Option.some_ne_none entry))
    exact ⟨entry, c, refs, rfl, Option.some.inj (hx.symm.trans hstate), hidx, hid, hc, hbase, hrefs,
      (hinv.consistent.entry t _ entry hheld).2.2 refs hrefs⟩

end PoolHeap

namespace PoolHeap

/-- A thread allocates from the pool at address 4096, with a seed. -/
def allocBy (t seed : Nat) : CacheEvent := .op (.alloc t 4096 (some seed) 0 none)

end PoolHeap

namespace PoolHeap

/-- A slot of the first chunk. -/
def slotAt (slot : Nat) : Nat × SlotHandle := (4096, ⟨0, slot, 0x10000000 + slot * slotSize⟩)

/-- A pool of 14 MiB on a single core has 16 shards of 224 slots.  Superblock 3, which thread 3
carves at the start of shard 1, has its first slots at the end of shard 0; what is written there
looks like a free block of 64 slots next to superblock 2, which thread 0 fills and frees. -/
def overlap : List CacheEvent :=
  [.op (.create 4096 (3584 * slotSize) (provide 0x10000000)), allocBy 0 0, allocBy 1 0, allocBy 2 5,
    allocBy 3 5, .write (slotAt 192) { link := Intrusive.Link.new, order := 6 }] ++
  List.replicate 63 (allocBy 0 0) ++ [allocBy 0 2] ++
  (List.range 64).map (fun k => .op (.free (slotAt (128 + k)))) ++ [allocBy 4 0, allocBy 5 0]

end PoolHeap

end Veloq.Heap
