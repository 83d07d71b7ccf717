import Veloq.Buffer.SlotPool
import Veloq.Foundation.Run
import Mathlib.Algebra.Order.BigOperators.Group.Finset
set_option autoImplicit false

/-!
# Buffer: a slot pool is freed exactly when nothing refers to it

The strong count of a pool is the number of its handles, its live buffers and the balances that
the caches of the threads record for it.  In the middle of an operation one reference may be in
the hands of the thread.
-/

namespace Veloq.Buffer

open Finset Veloq.Foundation

namespace SlotPools

variable {s s' : SlotPools} {p q t n : Nat} {inner : PoolCacheInner}

/-- The strong count, `0` for a pool that does not exist. -/
def count (s : SlotPools) (p : Nat) : Nat := (s.strong p).getD 0

/-- `n` at `p` and nothing elsewhere. -/
def only (p n q : Nat) : Nat := if q = p then n else 0

/-- The references to a pool. -/
def owed (s : SlotPools) (p : Nat) : Nat := s.handles p + s.live p + s.credit p

/-- The counts are those of pools that exist, and the caches those of threads that do. -/
structure Regular (s : SlotPools) : Prop where
  positive : ∀ p, s.strong p ≠ some 0
  fresh : ∀ t, s.threads ≤ t → s.cache t = none
  bounded : ∀ t inner, s.cache t = some inner → inner.balance ≤ arcCacheLimit

/-- What holds between the operations. -/
structure Sound (s : SlotPools) : Prop where
  regular : s.Regular
  exact : ∀ p, s.count p = s.owed p

/-- Only the strong counts have changed. -/
structure SameOwners (s s' : SlotPools) : Prop where
  handles : s'.handles = s.handles
  bufs : s'.bufs = s.bufs
  threads : s'.threads = s.threads
  cache : s'.cache = s.cache

theorem SameOwners.refl (s : SlotPools) : SameOwners s s := ⟨rfl, rfl, rfl, rfl⟩

theorem SameOwners.trans {s'' : SlotPools} (h : SameOwners s s') (h' : SameOwners s' s'') :
    SameOwners s s'' :=
  ⟨h'.handles.trans h.handles, h'.bufs.trans h.bufs, h'.threads.trans h.threads,
    h'.cache.trans h.cache⟩

theorem SameOwners.owed (h : SameOwners s s') (p : Nat) : s'.owed p = s.owed p := by
  unfold SlotPools.owed live credit
  rw [h.handles, h.bufs, h.threads, h.cache]

theorem SameOwners.regular (h : SameOwners s s') (hs : s.Regular)
    (hpositive : ∀ p, s'.strong p ≠ some 0) : s'.Regular :=
  ⟨hpositive, fun t ht => (congrFun h.cache t).trans (hs.fresh t (h.threads ▸ ht)),
    fun t inner ht => hs.bounded t inner ((congrFun h.cache t).symm.trans ht)⟩

/-! ## Reference counts -/

theorem exists_of_count (h : 0 < s.count p) : ∃ n, s.strong p = some n ∧ s.count p = n := by
  unfold count at h ⊢
  cases hp : s.strong p with
  | none =>
    rw [hp] at h
    exact absurd h (Nat.lt_irrefl 0)
  | some n => exact ⟨n, rfl, rfl⟩

theorem count_update (v : Option Nat) :
    count { s with strong := Function.update s.strong p v } q =
      if q = p then v.getD 0 else s.count q := by
  show (Function.update s.strong p v q).getD 0 = _
  rcases Classical.em (q = p) with rfl | hne
  · rw [if_pos rfl, Function.update_self]
  · rw [if_neg hne, Function.update_of_ne hne]
    rfl

theorem Regular.increment (h : s.Regular) (hp : 0 < s.count p) :
    ∃ s', s.incrementStrongCount p = some s' ∧ SameOwners s s' ∧ s'.Regular ∧
      ∀ q, s'.count q = s.count q + only p 1 q := by
  obtain ⟨n, hn, hcount⟩ := exists_of_count hp
  have hsame : SameOwners s { s with strong := Function.update s.strong p (some (n + 1)) } :=
    ⟨rfl, rfl, rfl, rfl⟩
  refine ⟨_, by unfold incrementStrongCount; rw [hn]; rfl, hsame, hsame.regular h fun q => ?_,
    fun q => ?_⟩
  · show Function.update s.strong p (some (n + 1)) q ≠ some 0
    rcases Classical.em (q = p) with rfl | hne
    · rw [Function.update_self]
      exact fun heq => Nat.succ_ne_zero n (Option.some.inj heq)
    · rw [Function.update_of_ne hne]
      exact h.positive q
  · rw [count_update]
    unfold only
    split
    case isTrue heq =>
      rw [heq, hcount]
      rfl
    case isFalse => rfl

theorem Regular.decrement (h : s.Regular) (hp : 0 < s.count p) :
    ∃ s', s.decrementStrongCount p = some s' ∧ SameOwners s s' ∧ s'.Regular ∧
      ∀ q, s'.count q + only p 1 q = s.count q := by
  obtain ⟨n, hn, hcount⟩ := exists_of_count hp
  have hsame : SameOwners s
      { s with strong := Function.update s.strong p (if n ≤ 1 then none else some (n - 1)) } :=
    ⟨rfl, rfl, rfl, rfl⟩
  refine ⟨_, by unfold decrementStrongCount; rw [hn]; rfl, hsame, hsame.regular h fun q => ?_,
    fun q => ?_⟩
  · show Function.update s.strong p (if n ≤ 1 then none else some (n - 1)) q ≠ some 0
    rcases Classical.em (q = p) with rfl | hne
    · rw [Function.update_self]
      split
      · exact (Option.some_ne_none _).symm
      · exact fun heq => absurd (Option.some.inj heq) (by omega)
    · rw [Function.update_of_ne hne]
      exact h.positive q
  · rw [count_update]
    unfold only
    split
    case isTrue heq =>
      rw [heq, hcount]
      split
      · show 0 + 1 = n
        omega
      · show n - 1 + 1 = n
        omega
    case isFalse => rfl

theorem Regular.increments (h : s.Regular) (hp : 0 < s.count p) (n : Nat) :
    ∃ s', times (·.incrementStrongCount p) n s = some s' ∧ SameOwners s s' ∧ s'.Regular ∧
      ∀ q, s'.count q = s.count q + only p n q := by
  induction n generalizing s with
  | zero =>
    refine ⟨s, rfl, .refl s, h, fun q => ?_⟩
    unfold only
    split <;> rfl
  | succ n ih =>
    obtain ⟨s₁, h₁, hsame₁, hregular₁, hcount₁⟩ := h.increment hp
    obtain ⟨s₂, h₂, hsame₂, hregular₂, hcount₂⟩ := ih hregular₁ (by rw [hcount₁]; omega)
    refine ⟨s₂, ?_, hsame₁.trans hsame₂, hregular₂, fun q => ?_⟩
    · show (s.incrementStrongCount p).bind _ = _
      rw [h₁]
      exact h₂
    · rw [hcount₂, hcount₁]
      unfold only
      split <;> omega

theorem Regular.decrements (h : s.Regular) (n : Nat) (hp : n ≤ s.count p) :
    ∃ s', times (·.decrementStrongCount p) n s = some s' ∧ SameOwners s s' ∧ s'.Regular ∧
      ∀ q, s'.count q + only p n q = s.count q := by
  induction n generalizing s with
  | zero =>
    refine ⟨s, rfl, .refl s, h, fun q => ?_⟩
    unfold only
    split <;> rfl
  | succ n ih =>
    obtain ⟨s₁, h₁, hsame₁, hregular₁, hcount₁⟩ := h.decrement (Nat.lt_of_lt_of_le n.succ_pos hp)
    have hp₁ := hcount₁ p
    unfold only at hp₁
    rw [if_pos rfl] at hp₁
    obtain ⟨s₂, h₂, hsame₂, hregular₂, hcount₂⟩ := ih hregular₁ (by omega)
    refine ⟨s₂, ?_, hsame₁.trans hsame₂, hregular₂, fun q => ?_⟩
    · show (s.decrementStrongCount p).bind _ = _
      rw [h₁]
      exact h₂
    · rw [← hcount₁, ← hcount₂]
      unfold only
      split <;> omega

/-! ## The cache of a thread -/

/-- The balance of one cache changes, and with it what is owed. -/
theorem credit_update (ht : t < s.threads) (inner : Option PoolCacheInner) (p : Nat) :
    credit { s with cache := Function.update s.cache t inner } p + creditOf p (s.cache t) =
      s.credit p + creditOf p inner := by
  have hmem := mem_range.mpr ht
  unfold credit
  rw [← add_sum_erase _ _ hmem, ← add_sum_erase (range s.threads) _ hmem]
  dsimp only
  rw [Function.update_self]
  have hrest : ∑ u ∈ (range s.threads).erase t, creditOf p (Function.update s.cache t inner u) =
      ∑ u ∈ (range s.threads).erase t, creditOf p (s.cache u) := by
    refine sum_congr rfl fun u hu => ?_
    rw [Function.update_of_ne (mem_erase.mp hu).1]
  rw [hrest]
  omega

theorem creditOf_cacheOf (s : SlotPools) (t p : Nat) :
    creditOf p (some (s.cacheOf t)) = creditOf p (s.cache t) := by
  unfold cacheOf
  cases s.cache t with
  | none => rfl
  | some inner => rfl

theorem creditOf_le_credit (ht : t < s.threads) (p : Nat) : creditOf p (s.cache t) ≤ s.credit p :=
  single_le_sum (f := fun u => creditOf p (s.cache u)) (fun _ _ => Nat.zero_le _)
    (mem_range.mpr ht)

theorem Regular.setCache (h : s.Regular) (ht : t < s.threads)
    (hinner : inner.balance ≤ arcCacheLimit) : (s.setCache t inner).Regular := by
  refine ⟨h.positive, fun u hu => ?_, fun u inner' hu => ?_⟩
  · rw [show (s.setCache t inner).cache u = s.cache u from
      Function.update_of_ne (Nat.ne_of_gt (Nat.lt_of_lt_of_le ht hu)) ..]
    exact h.fresh u hu
  · rcases Classical.em (u = t) with rfl | hne
    · rw [show (s.setCache u inner).cache u = some inner from Function.update_self ..] at hu
      cases hu
      exact hinner
    · rw [show (s.setCache t inner).cache u = s.cache u from Function.update_of_ne hne ..] at hu
      exact h.bounded u inner' hu

theorem owed_setCache (ht : t < s.threads) (inner : PoolCacheInner) (p : Nat) :
    (s.setCache t inner).owed p + creditOf p (s.cache t) = s.owed p + creditOf p (some inner) := by
  have hcredit := credit_update ht (some inner) p
  show s.handles p + s.live p + (s.setCache t inner).credit p + _ =
    s.handles p + s.live p + s.credit p + _
  unfold SlotPools.setCache
  omega

theorem balance_cacheOf (h : s.Regular) (t : Nat) : (s.cacheOf t).balance ≤ arcCacheLimit := by
  unfold cacheOf
  cases hc : s.cache t with
  | none => exact Nat.zero_le _
  | some inner => exact h.bounded t inner hc

/-- What is left in the cache of a thread is given back; the cache still records it. -/
theorem Sound.flush (h : s.Sound) (ht : t < s.threads) :
    ∃ s', s.flush (s.cacheOf t) = some s' ∧ SameOwners s s' ∧ s'.Regular ∧
      ∀ q, s'.count q + creditOf q (s.cache t) = s.count q := by
  unfold SlotPools.flush
  split
  case h_1 old hold =>
    have hcredit : ∀ q, creditOf q (s.cache t) = only old (s.cacheOf t).balance q := by
      intro q
      rw [← creditOf_cacheOf]
      unfold creditOf only
      dsimp only
      rw [hold]
      simp only [Option.some.injEq, eq_comm]
    split
    · have hle := creditOf_le_credit ht old
      rw [hcredit] at hle
      unfold only at hle
      rw [if_pos rfl] at hle
      obtain ⟨s', hs', hsame, hregular, hcount⟩ := h.regular.decrements (s.cacheOf t).balance
        (Nat.le_trans hle (by rw [h.exact]; exact Nat.le_add_left ..))
      exact ⟨s', hs', hsame, hregular, fun q => by rw [hcredit]; exact hcount q⟩
    · refine ⟨s, rfl, .refl s, h.regular, fun q => ?_⟩
      rw [hcredit]
      unfold only
      split <;> omega
  case h_2 hnone =>
    refine ⟨s, rfl, .refl s, h.regular, fun q => ?_⟩
    rw [← creditOf_cacheOf]
    unfold creditOf
    dsimp only
    rw [hnone]
    rfl

theorem creditOf_some (p q n : Nat) :
    creditOf q (some { ptr := some p, balance := n }) = only p n q := by
  unfold creditOf only
  simp only [Option.some.injEq, eq_comm]

theorem creditOf_hit (h : (s.cacheOf t).ptr = some p) (q : Nat) :
    creditOf q (s.cache t) = only p (s.cacheOf t).balance q := by
  rw [← creditOf_cacheOf, ← creditOf_some, ← h]

theorem only_add (p m n q : Nat) : only p (m + n) q = only p m q + only p n q := by
  unfold only
  split <;> rfl

/-- The balance of the pool that the cache records already is changed. -/
theorem owed_setCache_hit (ht : t < s.threads) (h : (s.cacheOf t).ptr = some p) (n q : Nat) :
    (s.setCache t { s.cacheOf t with balance := n }).owed q + only p (s.cacheOf t).balance q =
      s.owed q + only p n q := by
  rw [← creditOf_hit h, owed_setCache ht, ← creditOf_some, ← h]

theorem live_cons (s : SlotPools) (buf : SlotBuf) (p : Nat) :
    live { s with bufs := buf :: s.bufs } p = s.live p + only buf.poolData 1 p := by
  unfold live only
  rw [List.countP_cons]
  simp only [decide_eq_true_eq, eq_comm (a := p)]

theorem live_eraseIdx {i : Nat} {buf : SlotBuf} (hi : s.bufs[i]? = some buf) (p : Nat) :
    live { s with bufs := s.bufs.eraseIdx i } p + only buf.poolData 1 p = s.live p := by
  obtain ⟨hlt, hget⟩ := List.getElem?_eq_some_iff.mp hi
  rw [← live_cons]
  unfold live
  rw [← (List.getElem_cons_eraseIdx_perm hlt).countP_eq, hget]

/-! ## A reference in the hands of the thread -/

/-- One reference to the pool at `p` belongs to nobody yet. -/
structure InHand (p : Nat) (s : SlotPools) : Prop where
  regular : s.Regular
  exact : ∀ q, s.count q = s.owed q + only p 1 q

/-- Everything but the counts and the cache of the thread is as before. -/
structure SameBuffers (s s' : SlotPools) : Prop where
  handles : s'.handles = s.handles
  bufs : s'.bufs = s.bufs
  threads : s'.threads = s.threads

theorem InHand.exists (h : InHand p s) : (s.strong p).isSome = true := by
  have hp := h.exact p
  unfold only at hp
  rw [if_pos rfl] at hp
  obtain ⟨n, hn, -⟩ := exists_of_count (s := s) (p := p) (by omega)
  rw [hn]
  rfl

/-- The references of the thread to another pool are given back before the cache is used for
this one. -/
theorem Sound.vacate (h : s.Sound) (ht : t < s.threads)
    (hmiss : ¬((s.cacheOf t).ptr = some p ∧ 0 < (s.cacheOf t).balance)) :
    ∃ s', (if (s.cacheOf t).ptr = some p then some s else s.flush (s.cacheOf t)) = some s' ∧
      SameOwners s s' ∧ s'.Regular ∧ ∀ q, s'.count q + creditOf q (s.cache t) = s.count q := by
  split
  case isTrue hptr =>
    refine ⟨s, rfl, .refl s, h.regular, fun q => ?_⟩
    have hzero : (s.cacheOf t).balance = 0 :=
      Nat.eq_zero_of_not_pos fun hpos => hmiss ⟨hptr, hpos⟩
    rw [creditOf_hit hptr, hzero]
    unfold only
    split <;> rfl
  case isFalse => exact h.flush ht

theorem Sound.poolData (h : s.Sound) (ht : t < s.threads) (hp : 0 < s.handles p) :
    ∃ s', s.poolData t p = some s' ∧ SameBuffers s s' ∧ InHand p s' := by
  unfold SlotPools.poolData
  dsimp only
  split
  case isTrue hhit =>
    have hle := balance_cacheOf h.regular t
    refine ⟨_, rfl, ⟨rfl, rfl, rfl⟩, h.regular.setCache ht (by dsimp only; omega), fun q => ?_⟩
    have howed := owed_setCache_hit ht hhit.1 ((s.cacheOf t).balance - 1) q
    have hspent := only_add p ((s.cacheOf t).balance - 1) 1 q
    rw [Nat.sub_add_cancel hhit.2] at hspent
    have hexact : s.count q = s.owed q := h.exact q
    show s.count q = (s.setCache t _).owed q + only p 1 q
    dsimp only at howed ⊢
    omega
  case isFalse hmiss =>
    obtain ⟨s₁, h₁, hsame₁, hregular₁, hcount₁⟩ := h.vacate ht hmiss
    have hcredit := creditOf_le_credit ht p
    have hexact : s.count p = s.handles p + s.live p + s.credit p := h.exact p
    have hleft := hcount₁ p
    obtain ⟨s₂, h₂, hsame₂, hregular₂, hcount₂⟩ :=
      hregular₁.increments (p := p) (by omega) prefetchCount
    have hsame := hsame₁.trans hsame₂
    have ht₂ : t < s₂.threads := by
      rw [hsame.threads]
      exact ht
    refine ⟨s₂.setCache t { ptr := some p, balance := prefetchCount - 1 }, ?_,
      ⟨hsame.handles, hsame.bufs, hsame.threads⟩, hregular₂.setCache ht₂ (show prefetchCount - 1 ≤ arcCacheLimit by decide),
      fun q => ?_⟩
    · rw [h₁, Option.bind_some, h₂]
      rfl
    · have howed := owed_setCache ht₂ { ptr := some p, balance := prefetchCount - 1 } q
      rw [creditOf_some, hsame.cache, hsame.owed, ← h.exact, ← hcount₁] at howed
      have hspent : only p prefetchCount q = _ := only_add p (prefetchCount - 1) 1 q
      show s₂.count q = _
      rw [hcount₂]
      omega

/-- A buffer takes the reference. -/
theorem InHand.give (h : InHand p s) (context : Nat) :
    Sound { s with bufs := { poolData := p, context := context } :: s.bufs } := by
  refine ⟨⟨h.regular.positive, h.regular.fresh, h.regular.bounded⟩, fun q => ?_⟩
  show s.count q = s.handles q + live _ q + s.credit q
  rw [live_cons, h.exact]
  unfold owed
  dsimp only
  omega

/-- The buffer that is dropped leaves its reference. -/
theorem Sound.take {i : Nat} {buf : SlotBuf} (h : s.Sound) (hi : s.bufs[i]? = some buf) :
    InHand buf.poolData { s with bufs := s.bufs.eraseIdx i } := by
  refine ⟨⟨h.regular.positive, h.regular.fresh, h.regular.bounded⟩, fun q => ?_⟩
  have hlive := live_eraseIdx hi q
  show s.count q = s.handles q + live _ q + s.credit q + _
  rw [h.exact]
  unfold owed
  omega

theorem InHand.slotBasedDealloc {buf : SlotBuf} (h : InHand buf.poolData s) (ht : t < s.threads) :
    ∃ s', s.slotBasedDealloc t buf = some s' ∧ s'.Sound := by
  have hexists := h.exists
  have hle := balance_cacheOf h.regular t
  unfold SlotPools.slotBasedDealloc deallocSlots
  dsimp only
  split
  case isTrue hhit =>
    refine ⟨_, if_pos hexists, h.regular.setCache ht hhit.2, fun q => ?_⟩
    have howed := owed_setCache_hit ht hhit.1 ((s.cacheOf t).balance + 1) q
    have hgained := only_add buf.poolData (s.cacheOf t).balance 1 q
    have hexact := h.exact q
    show s.count q = (s.setCache t _).owed q
    dsimp only at howed ⊢
    omega
  case isFalse =>
    have howed : ∀ q, (s.setCache t (s.cacheOf t)).owed q = s.owed q := by
      intro q
      have := owed_setCache ht (s.cacheOf t) q
      rw [creditOf_cacheOf] at this
      omega
    have hexact := h.exact buf.poolData
    unfold only at hexact
    rw [if_pos rfl] at hexact
    obtain ⟨s', hs', hsame, hregular, hcount⟩ :=
      (h.regular.setCache ht hle).decrement (p := buf.poolData) (show 0 < s.count _ by omega)
    refine ⟨s', ?_, hregular, fun q => ?_⟩
    · rw [if_pos (show ((s.setCache t _).strong _).isSome = true from hexists)]
      exact hs'
    · have hq : s'.count q + only buf.poolData 1 q = s.count q := hcount q
      rw [h.exact] at hq
      rw [hsame.owed, howed]
      omega

/-! ## The operations -/

theorem Sound.alloc (h : s.Sound) (ht : t < s.threads) (hp : 0 < s.handles p)
    (granted : Option Nat) : ∃ s', s.alloc t p granted = some s' ∧ s'.Sound := by
  cases granted with
  | none => exact ⟨s, rfl, h⟩
  | some context =>
    obtain ⟨s', hs', -, hhand⟩ := h.poolData ht hp
    refine ⟨_, ?_, hhand.give context⟩
    show (s.poolData t p).map _ = _
    rw [hs']
    rfl

theorem Sound.dropBuf (h : s.Sound) (ht : t < s.threads) (i : Nat) :
    ∃ s', s.dropBuf t i = some s' ∧ s'.Sound := by
  unfold SlotPools.dropBuf
  split
  case h_1 buf hi => exact (h.take hi).slotBasedDealloc ht
  case h_2 => exact ⟨s, rfl, h⟩

theorem Sound.exit (h : s.Sound) (ht : t < s.threads) :
    ∃ s', s.exit t = some s' ∧ s'.Sound := by
  obtain ⟨s', hs', hsame, hregular, hcount⟩ := h.flush ht
  have ht' : t < s'.threads := by
    rw [hsame.threads]
    exact ht
  refine ⟨{ s' with cache := Function.update s'.cache t none }, ?_, ⟨hregular.positive, ?_, ?_⟩,
    fun q => ?_⟩
  · unfold SlotPools.exit
    rw [hs']
    rfl
  · intro u hu
    show Function.update s'.cache t none u = none
    rw [Function.update_of_ne (Nat.ne_of_gt (Nat.lt_of_lt_of_le ht' hu))]
    exact hregular.fresh u hu
  · intro u inner hu
    change Function.update s'.cache t none u = some inner at hu
    rcases Classical.em (u = t) with rfl | hne
    · rw [Function.update_self] at hu
      exact absurd hu.symm (Option.some_ne_none _)
    · rw [Function.update_of_ne hne] at hu
      exact hregular.bounded u inner hu
  · have hcredit := credit_update ht' none q
    have howed : s'.handles q + s'.live q + s'.credit q = s.count q :=
      (hsame.owed q).trans (h.exact q).symm
    have hleft := hcount q
    rw [hsame.cache] at hcredit
    show s'.count q = s'.handles q + s'.live q + credit _ q
    rw [hsame.cache]
    unfold creditOf at hcredit hleft
    dsimp only at hcredit
    omega

theorem Sound.newPool (h : s.Sound) (hfree : s.strong p = none) : (s.newPool p).Sound := by
  refine ⟨⟨fun q => ?_, h.regular.fresh, h.regular.bounded⟩, fun q => ?_⟩
  · show Function.update s.strong p (some 1) q ≠ some 0
    rcases Classical.em (q = p) with rfl | hne
    · rw [Function.update_self]
      exact fun heq => absurd (Option.some.inj heq) Nat.one_ne_zero
    · rw [Function.update_of_ne hne]
      exact h.regular.positive q
  · have hexact : s.count q = s.handles q + s.live q + s.credit q := h.exact q
    show (Function.update s.strong p (some 1) q).getD 0 =
      Function.update s.handles p 1 q + s.live q + s.credit q
    rcases Classical.em (q = p) with rfl | hne
    · rw [Function.update_self, Function.update_self]
      unfold count at hexact
      rw [hfree] at hexact
      change 0 = _ at hexact
      show 1 = _
      omega
    · rw [Function.update_of_ne hne, Function.update_of_ne hne]
      exact hexact

theorem Sound.cloneHandle (h : s.Sound) (hp : 0 < s.handles p) :
    ∃ s', s.cloneHandle p = some s' ∧ s'.Sound := by
  have hexact : s.count p = s.handles p + s.live p + s.credit p := h.exact p
  obtain ⟨s', hs', hsame, hregular, hcount⟩ := h.regular.increment (p := p) (by omega)
  refine ⟨{ s' with handles := Function.update s'.handles p (s'.handles p + 1) }, ?_,
    ⟨hregular.positive, hregular.fresh, hregular.bounded⟩, fun q => ?_⟩
  · unfold SlotPools.cloneHandle
    rw [hs']
    rfl
  · have howed : s'.handles q + s'.live q + s'.credit q = s.count q :=
      (hsame.owed q).trans (h.exact q).symm
    have hq := hcount q
    show s'.count q = Function.update s'.handles p (s'.handles p + 1) q + s'.live q + s'.credit q
    unfold only at hq
    rcases Classical.em (q = p) with rfl | hne
    · rw [if_pos rfl] at hq
      rw [Function.update_self]
      omega
    · rw [if_neg hne] at hq
      rw [Function.update_of_ne hne]
      omega

theorem Sound.dropHandle (h : s.Sound) (hp : 0 < s.handles p) :
    ∃ s', s.dropHandle p = some s' ∧ s'.Sound := by
  have hexact : s.count p = s.handles p + s.live p + s.credit p := h.exact p
  obtain ⟨s', hs', hsame, hregular, hcount⟩ := h.regular.decrement (p := p) (by omega)
  refine ⟨{ s' with handles := Function.update s'.handles p (s'.handles p - 1) }, ?_,
    ⟨hregular.positive, hregular.fresh, hregular.bounded⟩, fun q => ?_⟩
  · unfold SlotPools.dropHandle
    rw [hs']
    rfl
  · have howed : s'.handles q + s'.live q + s'.credit q = s.count q :=
      (hsame.owed q).trans (h.exact q).symm
    have hq := hcount q
    show s'.count q = Function.update s'.handles p (s'.handles p - 1) q + s'.live q + s'.credit q
    unfold only at hq
    rcases Classical.em (q = p) with rfl | hne
    · rw [if_pos rfl] at hq
      rw [Function.update_self, hsame.handles]
      rw [hsame.handles] at howed
      omega
    · rw [if_neg hne] at hq
      rw [Function.update_of_ne hne]
      omega

theorem Sound.spawn (h : s.Sound) : Sound { s with threads := s.threads + 1 } := by
  refine ⟨⟨h.regular.positive, fun t ht => h.regular.fresh t (Nat.le_of_succ_le ht),
    h.regular.bounded⟩, fun q => ?_⟩
  have hcredit : credit { s with threads := s.threads + 1 } q = s.credit q := by
    show ∑ t ∈ range (s.threads + 1), creditOf q (s.cache t) = _
    rw [sum_range_succ, h.regular.fresh s.threads (Nat.le_refl _)]
    rfl
  show s.count q = s.handles q + s.live q + credit _ q
  rw [hcredit]
  exact h.exact q

/-- No call accesses a pool that has been freed. -/
theorem Sound.call (h : s.Sound) {e : SlotPoolCall} (he : s.enabled e = true) :
    ∃ s', s.call e = some s' ∧ s'.Sound := by
  cases e with
  | newPool p => exact ⟨_, rfl, h.newPool (Option.isNone_iff_eq_none.mp he)⟩
  | cloneHandle p => exact h.cloneHandle (of_decide_eq_true he)
  | dropHandle p => exact h.dropHandle (of_decide_eq_true he)
  | spawn => exact ⟨_, rfl, h.spawn⟩
  | alloc t p granted =>
    have ⟨ht, hp⟩ := of_decide_eq_true he
    exact h.alloc ht hp granted
  | dropBuf t i => exact h.dropBuf (of_decide_eq_true he).1 i
  | exit t => exact h.exit (of_decide_eq_true he)

theorem Sound.step {e : SlotPoolCall} (h : s.Sound) (hs : SlotPoolStep s e s') : s'.Sound := by
  obtain ⟨he, hcall⟩ := Option.ite_none_right_eq_some.mp hs
  obtain ⟨s'', hs'', hsound⟩ := h.call he
  cases hs''.symm.trans hcall
  exact hsound

theorem Sound.new : SlotPools.new.Sound := by
  refine ⟨⟨fun _ => (Option.some_ne_none 0).symm, fun _ _ => rfl, ?_⟩, fun _ => rfl⟩
  intro t inner hinner
  exact absurd hinner.symm (Option.some_ne_none _)

theorem Sound.count_of_strong (h : s.Sound) {n : Nat} (hn : s.strong p = some n) :
    n = s.handles p + s.live p + s.credit p := by
  have hexact := h.exact p
  unfold count at hexact
  rw [hn] at hexact
  exact hexact

theorem Sound.exists_of_buf {buf : SlotBuf} (h : s.Sound) (hbuf : buf ∈ s.bufs) :
    s.strong buf.poolData ≠ none := by
  have hlive : 0 < s.live buf.poolData :=
    List.countP_pos_iff.mpr ⟨buf, hbuf, decide_eq_true rfl⟩
  have hexact : s.count buf.poolData = s.handles _ + s.live _ + s.credit _ := h.exact _
  obtain ⟨n, hn, -⟩ := exists_of_count (s := s) (p := buf.poolData) (by omega)
  rw [hn]
  exact Option.some_ne_none n

/-- The last of those that refer to a pool has freed it. -/
theorem Sound.freed (h : s.Sound) (hhandles : s.handles p = 0)
    (hbufs : ∀ buf ∈ s.bufs, buf.poolData ≠ p)
    (hcaches : ∀ t inner, s.cache t = some inner → inner.ptr ≠ some p) : s.strong p = none := by
  have hlive : s.live p = 0 :=
    List.countP_eq_zero.mpr fun buf hbuf heq => hbufs buf hbuf (of_decide_eq_true heq)
  have hcredit : s.credit p = 0 := by
    refine sum_eq_zero fun t _ => ?_
    unfold creditOf
    split
    case h_1 inner hinner => exact if_neg (hcaches t inner hinner)
    case h_2 => rfl
  cases hp : s.strong p with
  | none => rfl
  | some n =>
    have hn := h.count_of_strong hp
    rw [hhandles, hlive, hcredit] at hn
    rw [hn] at hp
    exact absurd hp (h.regular.positive p)

end SlotPools

/-- In every state that any number of threads can reach, the strong count of a pool is the number
of its handles, of its live buffers and of the references that the caches of the threads record;
no cache records more than the limit; a pool with a live buffer has not been freed, one that
nothing refers to has been, and no call accesses a pool that has been freed. -/
theorem slot_pool_references_exact {s : SlotPools}
    (h : Run SlotPoolStep Always (fun s => s = .new) s) :
    (∀ p n, s.strong p = some n → n = s.handles p + s.live p + s.credit p) ∧
      (∀ t inner, s.cache t = some inner → inner.balance ≤ arcCacheLimit) ∧
      (∀ buf ∈ s.bufs, s.strong buf.poolData ≠ none) ∧
      (∀ p, s.handles p = 0 → (∀ buf ∈ s.bufs, buf.poolData ≠ p) →
        (∀ t inner, s.cache t = some inner → inner.ptr ≠ some p) → s.strong p = none) ∧
      (∀ e, s.enabled e = true → s.call e ≠ none) := by
  have hsound : s.Sound := by
    refine h.invariant (fun s hs => ?_) fun _ _ _ hs _ hstep => hs.step hstep
    rw [hs]
    exact .new
  refine ⟨fun _ _ => hsound.count_of_strong, hsound.regular.bounded,
    fun _ hbuf => hsound.exists_of_buf hbuf,
    fun _ hhandles hbufs hcaches => hsound.freed hhandles hbufs hcaches, fun e he => ?_⟩
  obtain ⟨s', hs', -⟩ := hsound.call he
  rw [hs']
  exact Option.some_ne_none s'

namespace SlotPools

/-- A buffer is dropped by another thread, which uses another pool before it exits; the buffer of
that pool is never dropped. -/
def acrossThreads : List SlotPoolCall :=
  [.spawn, .spawn, .newPool 7, .newPool 9, .alloc 0 7 (some 3), .alloc 1 7 (some 4), .dropBuf 1 1,
    .alloc 1 9 (some 5), .exit 1, .dropBuf 0 1, .dropHandle 7, .dropHandle 9, .exit 0]

def traded : SlotPools :=
  (replay next (fun _ _ => true) new acrossThreads).get (by decide +kernel)

end SlotPools

theorem slot_pool_references_exact_traded :
    SlotPools.traded.strong 7 = none ∧ SlotPools.traded.strong 9 = some 1 ∧
      1 = SlotPools.traded.handles 9 + SlotPools.traded.live 9 + SlotPools.traded.credit 9 := by
  have hstart : Run SlotPoolStep Always (· = SlotPools.new) SlotPools.new := Run.start rfl
  have hreplay : replay SlotPools.next (fun _ _ => true) SlotPools.new SlotPools.acrossThreads =
      some SlotPools.traded := (Option.some_get _).symm
  exact ⟨by decide +kernel, by decide +kernel, (slot_pool_references_exact
    (hstart.replay (fun _ _ _ hs => hs) (fun _ _ _ => trivial) hreplay)).1 9 1
      (by decide +kernel)⟩

end Veloq.Buffer
