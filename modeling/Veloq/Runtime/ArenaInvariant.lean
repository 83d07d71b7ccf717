import Veloq.Foundation.Bits
import Veloq.Runtime.Arena
set_option autoImplicit false

/-!
# Runtime: who owns the chunks of an arena

`Owned a total` says that the boxes hold one chunk for every `c` with `total c` above 0, that
this is the count in it, and that the list of the chunks is made of them.  Every reference
that is given out or given up is one change of `total`; `Kept` says what it leaves alone.
-/

namespace Veloq.Runtime

open Veloq.Foundation
open Veloq.Intrusive (Link LinkedList Represents)

/-! ## Layouts -/

theorem Layout.align_pos (layout : Layout) : 0 < layout.align := by
  obtain ⟨k, -, hk⟩ := layout.align_pow
  rw [hk]
  exact Nat.two_pow_pos k

theorem le_roundUp (n : Nat) {a : Nat} (ha : 0 < a) : n ≤ roundUp n a := by
  unfold roundUp
  have hdiv := Nat.div_add_mod (n + (a - 1)) a
  have hmod := Nat.mod_lt (n + (a - 1)) ha
  rw [Nat.mul_comm]
  omega

theorem roundUp_le (n a : Nat) : roundUp n a ≤ n + (a - 1) := Nat.div_mul_le_self _ a

theorem dvd_roundUp (n a : Nat) : a ∣ roundUp n a := Nat.dvd_mul_left a _

/-- Of two alignments the smaller divides the larger. -/
theorem Layout.align_dvd_max (first next : Layout) :
    next.align ∣ max first.align next.align := by
  obtain ⟨j, -, hj⟩ := first.align_pow
  obtain ⟨k, -, hk⟩ := next.align_pow
  rcases Nat.le_total first.align next.align with hle | hle
  · rw [Nat.max_eq_right hle]
  · rw [Nat.max_eq_left hle, hj, hk]
    rw [hj, hk] at hle
    exact Nat.pow_dvd_pow 2 ((Nat.pow_le_pow_iff_right (by decide)).mp hle)

/-- The second part of a layout lies behind the first and is aligned. -/
theorem Layout.extend_spec {first next total : Layout} {offset : Nat}
    (h : first.extend next = some (total, offset)) :
    offset = roundUp first.size next.align ∧ total.size = offset + next.size ∧
      next.align ∣ total.align ∧ next.align ∣ offset ∧ first.size ≤ offset := by
  unfold Layout.extend at h
  simp only at h
  split at h
  · cases h
    exact ⟨rfl, rfl, first.align_dvd_max next, dvd_roundUp .., le_roundUp _ next.align_pos⟩
  · exact absurd h (by simp)

/-- Masking out the low bits rounds down. -/
theorem and_not_mask {n k : Nat} (hn : n < 2 ^ 64) (hk : k < 64) :
    n &&& (2 ^ 64 - 1 - (2 ^ k - 1)) = n / 2 ^ k * 2 ^ k := by
  have hsplit : 2 ^ 64 = 2 ^ k * 2 ^ (64 - k) := by
    rw [← Nat.pow_add, Nat.add_sub_cancel' (Nat.le_of_lt hk)]
  have hpos := Nat.two_pow_pos k
  have hmask : 2 ^ 64 - 1 - (2 ^ k - 1) = 2 ^ k * (2 ^ (64 - k) - 1) := by
    rw [Nat.mul_sub, ← hsplit]
    omega
  have hlt : n / 2 ^ k < 2 ^ (64 - k) := by
    rw [Nat.div_lt_iff_lt_mul hpos, Nat.mul_comm, ← hsplit]
    exact hn
  rw [hmask, Bits.land_field, Nat.mod_eq_of_lt hlt, Nat.mul_comm]

/-! ## Cutting memory off a chunk -/

/-- A chunk lies within the address space, and its used part within it. -/
structure Chunk.Wf (chunk : Chunk) : Prop where
  pos : 0 < chunk.ptr
  fits : chunk.ptr + chunk.size ≤ 2 ^ 64
  used : chunk.used ≤ chunk.size

namespace Chunk

variable {chunk chunk' : Chunk} {layout : Layout} {p : Nat}

/-- The next aligned address behind the used part. -/
theorem aligned_spec {x : Nat} (h : x + (layout.align - 1) < 2 ^ 64) :
    (x + (layout.align - 1)) &&& (2 ^ 64 - 1 - (layout.align - 1)) = roundUp x layout.align := by
  obtain ⟨k, hk, halign⟩ := layout.align_pow
  rw [halign] at h ⊢
  rw [and_not_mask h hk]
  rfl

/-- `try_alloc` returns null and changes nothing, or cuts off an aligned piece behind the
used part. -/
theorem tryAlloc_spec (h : chunk.tryAlloc layout = some (chunk', p)) (hwf : chunk.Wf) :
    (p = 0 ∧ chunk' = chunk) ∨
      (0 < p ∧ layout.align ∣ p ∧ chunk.ptr + chunk.used ≤ p ∧
        p + layout.size ≤ chunk.ptr + chunk.size ∧
        chunk' = { chunk with used := p - chunk.ptr + layout.size }) := by
  unfold tryAlloc at h
  simp only at h
  split at h
  · cases h
    exact Or.inl ⟨rfl, rfl⟩
  · rename_i current hcurrent
    obtain ⟨sum, hsum, h⟩ := Option.bind_eq_some_iff.mp h
    obtain ⟨newUsed, hused, h⟩ := Option.map_eq_some_iff.mp h
    obtain rfl := checkedAdd_eq_some hcurrent
    obtain rfl := checkedAdd_eq_some hsum
    obtain rfl := checkedAdd_eq_some hused
    rw [aligned_spec (lt_of_checkedAdd hsum)] at h
    have hle := le_roundUp (chunk.ptr + chunk.used) layout.align_pos
    split at h
    · rename_i hfits
      cases h
      have hpos := hwf.pos
      exact Or.inr ⟨by omega, dvd_roundUp .., hle, by omega, rfl⟩
    · cases h
      exact Or.inl ⟨rfl, rfl⟩

/-- A chunk that is large enough for any alignment of its base does not return null. -/
theorem tryAlloc_fits (hwf : chunk.Wf) (hused : chunk.used = 0)
    (hsize : layout.size + layout.align ≤ chunk.size) :
    ∃ chunk' p, chunk.tryAlloc layout = some (chunk', p) ∧ p ≠ 0 := by
  have hpos := hwf.pos
  have hfits := hwf.fits
  have halign := layout.align_pos
  have hle := le_roundUp chunk.ptr halign
  have hup := roundUp_le chunk.ptr layout.align
  have hmask : chunk.ptr + (layout.align - 1) < 2 ^ 64 := by omega
  unfold tryAlloc
  simp only [hused, Nat.add_zero, checkedAdd_of_lt (show chunk.ptr + 0 < 2 ^ 64 by omega),
    checkedAdd_of_lt hmask, Option.bind_some, aligned_spec hmask]
  rw [checkedAdd_of_lt (by omega), Option.map_some, if_pos (by omega)]
  exact ⟨_, _, rfl, by omega⟩

end Chunk

/-! ## References to chunks -/

namespace Arena

variable {a b : Arena} {total total' : Nat → Nat} {layout : Layout} {c p : Nat} {chunk : Chunk}

/-- The boxes hold the chunks to which there are references, and count these. -/
structure Owned (a : Arena) (total : Nat → Nat) : Prop where
  wf : ∀ c chunk, a.boxes c = some chunk → chunk.Wf
  apart : ∀ c c' chunk chunk', c ≠ c' → a.boxes c = some chunk → a.boxes c' = some chunk' →
    chunk.ptr + chunk.size ≤ chunk'.ptr ∨ chunk'.ptr + chunk'.size ≤ chunk.ptr
  listed : ∃ keys, Represents (chunkLinks a.boxes) a.chunks keys ∧
    ∀ c, c ∈ keys ↔ a.boxes c ≠ none
  count : ∀ c chunk, a.boxes c = some chunk → chunk.activeCount = total c
  held : ∀ c, a.boxes c ≠ none ↔ 0 < total c

/-- The same piece of memory, of which no less is used. -/
structure Grown (chunk chunk' : Chunk) : Prop where
  ptr : chunk'.ptr = chunk.ptr
  size : chunk'.size = chunk.size
  used : chunk.used ≤ chunk'.used

theorem Grown.refl (chunk : Chunk) : Grown chunk chunk := ⟨rfl, rfl, Nat.le_refl _⟩

theorem Grown.trans {chunk' chunk'' : Chunk} (h : Grown chunk chunk') (h' : Grown chunk' chunk'') :
    Grown chunk chunk'' :=
  ⟨h'.ptr.trans h.ptr, h'.size.trans h.size, Nat.le_trans h.used h'.used⟩

/-- `Owned` is about the boxes and their list. -/
theorem Owned.congr (h : Owned a total) (hboxes : b.boxes = a.boxes) (hchunks : b.chunks = a.chunks)
    (htotal : ∀ c, total' c = total c) : Owned b total' := by
  obtain rfl : total' = total := funext htotal
  refine ⟨?_, ?_, ?_, ?_, ?_⟩
  · rw [hboxes]
    exact h.wf
  · rw [hboxes]
    exact h.apart
  · rw [hboxes, hchunks]
    exact h.listed
  · rw [hboxes]
    exact h.count
  · rw [hboxes]
    exact h.held

/-- No chunk is new. -/
theorem Owned.of_old (h : Owned a total)
    (hold : ∀ c chunk', b.boxes c = some chunk' → ∃ chunk, a.boxes c = some chunk ∧
      Grown chunk chunk' ∧ chunk'.used ≤ chunk'.size ∧ chunk'.activeCount = total' c)
    (hlisted : ∃ keys, Represents (chunkLinks b.boxes) b.chunks keys ∧
      ∀ c, c ∈ keys ↔ b.boxes c ≠ none)
    (hheld : ∀ c, b.boxes c ≠ none ↔ 0 < total' c) : Owned b total' := by
  refine ⟨?_, ?_, hlisted, ?_, hheld⟩
  · intro c chunk' hc
    obtain ⟨chunk, hc, hgrown, hused, -⟩ := hold c chunk' hc
    have hwf := h.wf c chunk hc
    refine ⟨?_, ?_, hused⟩
    · rw [hgrown.ptr]
      exact hwf.pos
    · rw [hgrown.ptr, hgrown.size]
      exact hwf.fits
  · intro c d chunk₁' chunk₂' hne hc hd
    obtain ⟨chunk₁, hc, hgrown₁, -⟩ := hold c chunk₁' hc
    obtain ⟨chunk₂, hd, hgrown₂, -⟩ := hold d chunk₂' hd
    rw [hgrown₁.ptr, hgrown₁.size, hgrown₂.ptr, hgrown₂.size]
    exact h.apart c d chunk₁ chunk₂ hne hc hd
  · intro c chunk' hc
    obtain ⟨-, -, -, -, hcount⟩ := hold c chunk' hc
    exact hcount

theorem setBox_self : (a.setBox c chunk).boxes c = some chunk := Function.update_self ..

theorem setBox_of_ne {d : Nat} (h : d ≠ c) : (a.setBox c chunk).boxes d = a.boxes d :=
  Function.update_of_ne h ..

/-- One chunk changes, but for its link and its memory. -/
theorem Owned.setBox (h : Owned a total) (hc : a.boxes c = some chunk) {chunk' : Chunk}
    (hgrown : Grown chunk chunk') (hused : chunk'.used ≤ chunk'.size)
    (hlink : chunk'.link = chunk.link) (hpos : 0 < chunk'.activeCount) :
    Owned (a.setBox c chunk') (Function.update total c chunk'.activeCount) := by
  have hmem : ∀ d, (a.setBox c chunk').boxes d ≠ none ↔ a.boxes d ≠ none := by
    intro d
    by_cases hdc : d = c
    · subst hdc
      rw [setBox_self, hc]
      simp
    · rw [setBox_of_ne hdc]
  refine h.of_old ?_ ?_ ?_
  · intro d chunk'' hd
    by_cases hdc : d = c
    · subst hdc
      obtain rfl := Option.some.inj (setBox_self.symm.trans hd)
      rw [Function.update_self]
      exact ⟨chunk, hc, hgrown, hused, rfl⟩
    · rw [setBox_of_ne hdc] at hd
      rw [Function.update_of_ne hdc]
      exact ⟨chunk'', hd, Grown.refl chunk'', (h.wf d chunk'' hd).used, h.count d chunk'' hd⟩
  · obtain ⟨keys, hrep, hkeys⟩ := h.listed
    refine ⟨keys, hrep.congr fun d _ => ?_, fun d => (hkeys d).trans (hmem d).symm⟩
    unfold chunkLinks
    by_cases hdc : d = c
    · subst hdc
      rw [setBox_self, hc]
      exact hlink
    · rw [setBox_of_ne hdc]
  · intro d
    rw [hmem d]
    by_cases hdc : d = c
    · subst hdc
      rw [Function.update_self, hc]
      simp [hpos]
    · rw [Function.update_of_ne hdc]
      exact h.held d

/-- A change of the boxes that keeps the memory: every chunk is one that was there, or is new
and has no drop nodes. -/
structure Kept (a b : Arena) : Prop where
  nodes : b.nodes = a.nodes
  old : ∀ c chunk', b.boxes c = some chunk' →
    (∃ chunk, a.boxes c = some chunk ∧ Grown chunk chunk' ∧ chunk'.dropList = chunk.dropList) ∨
      (a.boxes c = none ∧ chunk'.dropList = LinkedList.new)

theorem Kept.refl (a : Arena) : Kept a a :=
  ⟨rfl, fun _ chunk hc => Or.inl ⟨chunk, hc, Grown.refl chunk, rfl⟩⟩

theorem Kept.trans {a' : Arena} (h : Kept a b) (hstay : ∀ c, b.boxes c = none → a.boxes c = none)
    (h' : Kept b a') : Kept a a' := by
  refine ⟨h'.nodes.trans h.nodes, fun c chunk'' hc => ?_⟩
  rcases h'.old c chunk'' hc with ⟨chunk', hc', hgrown', hlist'⟩ | ⟨hnone, hlist'⟩
  · rcases h.old c chunk' hc' with ⟨chunk, hc, hgrown, hlist⟩ | ⟨hnone, hlist⟩
    · exact Or.inl ⟨chunk, hc, hgrown.trans hgrown', hlist'.trans hlist⟩
    · exact Or.inr ⟨hnone, hlist'.trans hlist⟩
  · exact Or.inr ⟨hstay c hnone, hlist'⟩

theorem Kept.setBox (hc : a.boxes c = some chunk) {chunk' : Chunk} (hgrown : Grown chunk chunk')
    (hlist : chunk'.dropList = chunk.dropList) : Kept a (a.setBox c chunk') := by
  refine ⟨rfl, fun d chunk'' hd => Or.inl ?_⟩
  by_cases hdc : d = c
  · subst hdc
    obtain rfl := Option.some.inj (setBox_self.symm.trans hd)
    exact ⟨chunk, hc, hgrown, hlist⟩
  · rw [setBox_of_ne hdc] at hd
    exact ⟨chunk'', hd, Grown.refl chunk'', rfl⟩

/-! ## Chunks that leave and chunks that come -/

theorem withChunkLinks_eq_some {boxes : Nat → Option Chunk} {links : Nat → Link Nat}
    (h : withChunkLinks boxes links c = some chunk) :
    ∃ chunk', boxes c = some chunk' ∧ chunk = { chunk' with link := links c } := by
  obtain ⟨chunk', hc, rfl⟩ := Option.map_eq_some_iff.mp h
  exact ⟨chunk', hc, rfl⟩

theorem withChunkLinks_ne_none {boxes : Nat → Option Chunk} {links : Nat → Link Nat} :
    withChunkLinks boxes links c ≠ none ↔ boxes c ≠ none :=
  not_congr Option.map_eq_none_iff

theorem chunkLinks_withChunkLinks {boxes : Nat → Option Chunk} {links : Nat → Link Nat}
    (h : boxes c ≠ none) : chunkLinks (withChunkLinks boxes links) c = links c := by
  obtain ⟨chunk, hc⟩ := Option.ne_none_iff_exists'.mp h
  unfold chunkLinks withChunkLinks
  rw [hc]
  rfl

theorem chunkLinks_congr {boxes boxes' : Nat → Option Chunk} (h : boxes' c = boxes c) :
    chunkLinks boxes' c = chunkLinks boxes c := by
  unfold chunkLinks
  rw [h]

/-- A chunk without references leaves. -/
theorem Owned.free (h : Owned a total) {links : Nat → Link Nat}
    (hremove : a.chunks.remove (chunkLinks a.boxes) c = (links, b.chunks))
    (hgone : b.boxes c = none) (hboxes : ∀ d, d ≠ c → b.boxes d = withChunkLinks a.boxes links d)
    (hpos : 0 < total c) : Owned b (Function.update total c 0) := by
  obtain ⟨keys, hrep, hkeys⟩ := h.listed
  obtain ⟨as, bs, rfl⟩ := List.append_of_mem ((hkeys c).mpr ((h.held c).mpr hpos))
  obtain ⟨links', chunks', hremove', hrest, -⟩ := hrep.remove
  obtain ⟨rfl, rfl⟩ := Prod.mk.inj (hremove.symm.trans hremove')
  have hnotMem : c ∉ as ++ bs := (List.nodup_middle.mp hrep.nodup).notMem
  have hmem : ∀ d, d ∈ as ++ bs ↔ b.boxes d ≠ none := by
    intro d
    by_cases hdc : d = c
    · subst hdc
      rw [hgone]
      simp only [ne_eq, not_true_eq_false, iff_false]
      exact hnotMem
    · rw [hboxes d hdc, withChunkLinks_ne_none, ← hkeys d]
      simp [hdc]
  refine h.of_old ?_ ⟨as ++ bs, ?_, hmem⟩ ?_
  · intro d chunk' hd
    have hdc : d ≠ c := by
      rintro rfl
      exact Option.some_ne_none _ (hd.symm.trans hgone)
    rw [hboxes d hdc] at hd
    obtain ⟨chunk'', hold, rfl⟩ := withChunkLinks_eq_some hd
    rw [Function.update_of_ne hdc]
    exact ⟨chunk'', hold, ⟨rfl, rfl, Nat.le_refl _⟩, (h.wf d chunk'' hold).used,
      h.count d chunk'' hold⟩
  · refine hrest.congr fun d hd => ?_
    have hdc : d ≠ c := by
      rintro rfl
      exact hnotMem hd
    have hbox := (hmem d).mp hd
    rw [hboxes d hdc, withChunkLinks_ne_none] at hbox
    rw [chunkLinks_congr (hboxes d hdc), chunkLinks_withChunkLinks hbox]
  · intro d
    by_cases hdc : d = c
    · subst hdc
      rw [hgone, Function.update_self]
      simp
    · rw [Function.update_of_ne hdc, hboxes d hdc, withChunkLinks_ne_none]
      exact h.held d

/-- With one reference less a chunk stays, or it is freed. -/
theorem Owned.release (h : Owned a total) (hpos : 0 < total c) :
    ∃ b, a.releaseChunk c = some b ∧ Owned b (Function.update total c (total c - 1)) ∧ Kept a b ∧
      b.activeChunk = a.activeChunk := by
  obtain ⟨chunk, hc⟩ := Option.ne_none_iff_exists'.mp ((h.held c).mpr hpos)
  have hcount := h.count c chunk hc
  unfold releaseChunk
  simp only [hc]
  by_cases hlast : chunk.activeCount = 1
  · rw [if_pos hlast]
    have hzero : total c - 1 = 0 := by omega
    rw [hzero]
    refine ⟨_, rfl, ?_, ⟨rfl, fun d chunk' hd => ?_⟩, rfl⟩
    · exact h.free rfl (Function.update_self ..) (fun d hd => Function.update_of_ne hd ..) hpos
    · by_cases hdc : d = c
      · subst hdc
        exact absurd ((Function.update_self ..).symm.trans hd) (Option.some_ne_none _).symm
      · have hlinked : withChunkLinks a.boxes (a.chunks.remove (chunkLinks a.boxes) c).1 d =
            some chunk' := (Function.update_of_ne hdc ..).symm.trans hd
        obtain ⟨chunk'', hold, rfl⟩ := withChunkLinks_eq_some hlinked
        exact Or.inl ⟨chunk'', hold, ⟨rfl, rfl, Nat.le_refl _⟩, rfl⟩
  · rw [if_neg hlast]
    have hgrown : Grown chunk { chunk with activeCount := chunk.activeCount - 1 } :=
      ⟨rfl, rfl, Nat.le_refl _⟩
    have hstay : 0 < chunk.activeCount - 1 := by omega
    refine ⟨_, rfl, ?_, Kept.setBox hc hgrown rfl, rfl⟩
    rw [← hcount]
    exact h.setBox hc hgrown (h.wf c chunk hc).used rfl hstay

/-- A new chunk comes with its references. -/
theorem Owned.add (h : Owned a total) {boxes : Nat → Option Chunk} (hnew : a.boxes c = none)
    (hself : boxes c = some chunk) (hother : ∀ d, d ≠ c → boxes d = a.boxes d) (hwf : chunk.Wf)
    (happart : ∀ d chunk', a.boxes d = some chunk' →
      chunk'.ptr + chunk'.size ≤ chunk.ptr ∨ chunk.ptr + chunk.size ≤ chunk'.ptr)
    (hlink : chunk.link = Link.new) (hpos : 0 < chunk.activeCount) :
    ∃ links chunks, a.chunks.pushBack (chunkLinks boxes) c = some (links, chunks) ∧
      ∀ b : Arena, b.boxes = withChunkLinks boxes links → b.chunks = chunks →
        Owned b (Function.update total c chunk.activeCount) ∧
        b.boxes c = some { chunk with link := links c } ∧
        ∀ d chunk', d ≠ c → b.boxes d = some chunk' →
          ∃ chunk'', a.boxes d = some chunk'' ∧ chunk' = { chunk'' with link := links d } := by
  obtain ⟨keys, hrep, hkeys⟩ := h.listed
  have hc : c ∉ keys := fun hc => (hkeys c).mp hc hnew
  have hrep' : Represents (chunkLinks boxes) a.chunks keys := hrep.congr fun d hd =>
    chunkLinks_congr (hother d fun heq => hc (heq ▸ hd))
  have hlinked : (chunkLinks boxes c).linked = false := by
    have hlink' : chunkLinks boxes c = chunk.link := by
      unfold chunkLinks
      rw [hself]
    rw [hlink', hlink]
    rfl
  obtain ⟨links, chunks, hpush, hrest, -⟩ := hrep'.pushBack hc hlinked
  refine ⟨links, chunks, hpush, ?_⟩
  rintro ⟨active, chunks, boxes', nodes⟩ rfl rfl
  -- every box holds the new chunk or one that was there, up to its link
  have hold : ∀ d chunk', withChunkLinks boxes links d = some chunk' →
      (d = c ∧ chunk' = { chunk with link := links c }) ∨
        (d ≠ c ∧ ∃ chunk'', a.boxes d = some chunk'' ∧
          chunk' = { chunk'' with link := links d }) := by
    intro d chunk' hd
    obtain ⟨chunk'', hbox, rfl⟩ := withChunkLinks_eq_some hd
    by_cases hdc : d = c
    · subst hdc
      obtain rfl := Option.some.inj (hself.symm.trans hbox)
      exact Or.inl ⟨rfl, rfl⟩
    · exact Or.inr ⟨hdc, chunk'', (hother d hdc).symm.trans hbox, rfl⟩
  have hheld : ∀ d, withChunkLinks boxes links d ≠ none ↔ d = c ∨ a.boxes d ≠ none := by
    intro d
    rw [withChunkLinks_ne_none]
    by_cases hdc : d = c
    · subst hdc
      rw [hself]
      simp
    · rw [hother d hdc]
      simp [hdc]
  have hmem : ∀ d, d ∈ keys ++ [c] ↔ withChunkLinks boxes links d ≠ none := by
    intro d
    rw [hheld d, ← hkeys d, List.mem_append, List.mem_singleton, or_comm]
  refine ⟨⟨?_, ?_, ⟨keys ++ [c], hrest.congr fun d hd => ?_, hmem⟩, ?_, ?_⟩,
    ?_, fun d chunk' hdc hd => ?_⟩
  · intro d chunk' hd
    rcases hold d chunk' hd with ⟨-, rfl⟩ | ⟨-, chunk'', hbox, rfl⟩
    · exact ⟨hwf.pos, hwf.fits, hwf.used⟩
    · have hwf'' := h.wf d chunk'' hbox
      exact ⟨hwf''.pos, hwf''.fits, hwf''.used⟩
  · intro d d' chunk₁ chunk₂ hne hd hd'
    rcases hold d chunk₁ hd with ⟨rfl, rfl⟩ | ⟨-, chunk₁, hbox, rfl⟩
    · rcases hold d' chunk₂ hd' with ⟨rfl, -⟩ | ⟨-, chunk₂, hbox', rfl⟩
      · exact absurd rfl hne
      · exact (happart d' chunk₂ hbox').symm
    · rcases hold d' chunk₂ hd' with ⟨rfl, rfl⟩ | ⟨-, chunk₂, hbox', rfl⟩
      · exact happart d chunk₁ hbox
      · exact h.apart d d' chunk₁ chunk₂ hne hbox hbox'
  · exact chunkLinks_withChunkLinks (withChunkLinks_ne_none.mp ((hmem d).mp hd))
  · intro d chunk' hd
    rcases hold d chunk' hd with ⟨rfl, rfl⟩ | ⟨hdc, chunk'', hbox, rfl⟩
    · rw [Function.update_self]
    · rw [Function.update_of_ne hdc]
      exact h.count d chunk'' hbox
  · intro d
    rw [hheld d]
    by_cases hdc : d = c
    · subst hdc
      rw [Function.update_self]
      simp [hpos]
    · rw [Function.update_of_ne hdc, ← h.held d]
      simp [hdc]
  · show (boxes c).map _ = _
    rw [hself]
    rfl
  · rcases hold d chunk' hd with ⟨heq, -⟩ | ⟨-, hchunk⟩
    · exact absurd heq hdc
    · exact hchunk

/-! ## One allocation -/

/-- The references to a chunk: the active chunk has one of its own, its objects have the
others. -/
def references (active : Option Nat) (objects : Nat → Nat) (c : Nat) : Nat :=
  (if active = some c then 1 else 0) + objects c

/-- The memory at `p` has been cut off from the chunk in the box `c`, which counts one object
more. -/
structure Granted (a b : Arena) (objects : Nat → Nat) (layout : Layout) (p c : Nat) : Prop where
  owned : Owned b (references b.activeChunk (Function.update objects c (objects c + 1)))
  kept : Kept a b
  pos : 0 < p
  aligned : layout.align ∣ p
  within : ∃ chunk, b.boxes c = some chunk ∧ chunk.ptr ≤ p ∧
    p + layout.size ≤ chunk.ptr + chunk.used
  beyond : ∀ chunk, a.boxes c = some chunk → chunk.ptr + chunk.used ≤ p

variable {active : Option Nat} {objects : Nat → Nat} {r : Option (Nat × Nat)} {ptr : Nat}

theorem references_update (active : Option Nat) (objects : Nat → Nat) (c n d : Nat) :
    references active (Function.update objects c n) d =
      Function.update (references active objects) c (references active (fun _ => n) c) d := by
  unfold references
  by_cases hdc : d = c
  · subst hdc
    rw [Function.update_self, Function.update_self]
  · rw [Function.update_of_ne hdc, Function.update_of_ne hdc]

/-- The first try fails and changes nothing, or it is an allocation. -/
theorem tryAllocFast_spec (h : Owned a (references a.activeChunk objects))
    (htry : a.tryAllocFast layout = some (b, r)) :
    (r = none ∧ b = a) ∨ ∃ p c, r = some (p, c) ∧ Granted a b objects layout p c := by
  unfold tryAllocFast at htry
  split at htry
  · cases htry
    exact Or.inl ⟨rfl, rfl⟩
  · rename_i c hactive
    split at htry
    · exact absurd htry (by simp)
    · rename_i chunk hc
      obtain ⟨⟨chunk', p⟩, halloc, hr⟩ := Option.map_eq_some_iff.mp htry
      rcases Chunk.tryAlloc_spec halloc (h.wf c chunk hc) with
        ⟨rfl, rfl⟩ | ⟨hpos, haligned, hbeyond, hwithin, rfl⟩
      · cases hr
        exact Or.inl ⟨rfl, rfl⟩
      · rw [if_neg (Nat.ne_of_gt hpos)] at hr
        cases hr
        have hgrown : Grown chunk { chunk with
            used := p - chunk.ptr + layout.size
            activeCount := chunk.activeCount + 1 } := ⟨rfl, rfl, by
              show chunk.used ≤ p - chunk.ptr + layout.size
              omega⟩
        refine Or.inr ⟨p, c, rfl, ?_, Kept.setBox hc hgrown rfl, hpos, haligned,
          ⟨_, setBox_self, ?_, ?_⟩, ?_⟩
        · refine (h.setBox hc hgrown ?_ rfl (Nat.succ_pos _)).congr rfl rfl fun d => ?_
          · show p - chunk.ptr + layout.size ≤ chunk.size
            omega
          · rw [references_update, h.count c chunk hc]
            rfl
        · show chunk.ptr ≤ p
          omega
        · show p + layout.size ≤ chunk.ptr + (p - chunk.ptr + layout.size)
          omega
        · intro chunk' hc'
          obtain rfl := Option.some.inj (hc.symm.trans hc')
          exact hbeyond

/-- A box that is empty has no references. -/
theorem Owned.unused (h : Owned a (references active objects)) (hnew : a.boxes c = none) :
    active ≠ some c ∧ objects c = 0 := by
  have hzero : references active objects c = 0 := by
    have hheld := h.held c
    rw [hnew] at hheld
    simpa using hheld
  unfold references at hzero
  constructor
  · intro heq
    rw [if_pos heq] at hzero
    omega
  · omega

/-- The new chunk of `alloc_slow`, once it is active and the old one has been given up. -/
theorem Granted.of_new {a' : Arena} {links : Nat → Link Nat} (hunused : objects c = 0)
    (hnodes : a'.nodes = a.nodes) (hnew : a.boxes c = none)
    (hbox : a'.boxes c = some { chunk with link := links c })
    (hlist : chunk.dropList = LinkedList.new)
    (hother : ∀ d chunk', d ≠ c → a'.boxes d = some chunk' →
      ∃ chunk'', a.boxes d = some chunk'' ∧ chunk' = { chunk'' with link := links d })
    (hstay : ∀ d, d ≠ c → a'.boxes d = none → a.boxes d = none)
    (hpos : 0 < p) (haligned : layout.align ∣ p) (hbeyond : chunk.ptr ≤ p)
    (hwithin : p + layout.size ≤ chunk.ptr + chunk.used)
    (howned : Owned b (references (some c) (Function.update objects c 1))) (hkept : Kept a' b)
    (hactive : b.activeChunk = some c) : Granted a b objects layout p c := by
  have hkept' : Kept a a' := by
    refine ⟨hnodes, fun d chunk' hd => ?_⟩
    by_cases hdc : d = c
    · subst hdc
      obtain rfl := Option.some.inj (hbox.symm.trans hd)
      exact Or.inr ⟨hnew, hlist⟩
    · obtain ⟨chunk'', hold, rfl⟩ := hother d chunk' hdc hd
      exact Or.inl ⟨chunk'', hold, ⟨rfl, rfl, Nat.le_refl _⟩, rfl⟩
  have hsub : ∀ d, a'.boxes d = none → a.boxes d = none := by
    intro d hd
    by_cases hdc : d = c
    · rw [hdc]
      exact hnew
    · exact hstay d hdc hd
  refine ⟨?_, hkept'.trans hsub hkept, hpos, haligned, ?_, ?_⟩
  · rw [hactive, hunused]
    exact howned
  · have hheld : 0 < references (some c) (Function.update objects c 1) c := by
      unfold references
      rw [if_pos rfl]
      omega
    obtain ⟨chunk', hc⟩ := Option.ne_none_iff_exists'.mp ((howned.held c).mpr hheld)
    refine ⟨chunk', hc, ?_⟩
    rcases hkept.old c chunk' hc with ⟨chunk'', hc'', hgrown, -⟩ | ⟨hnone, -⟩
    · obtain rfl := Option.some.inj (hbox.symm.trans hc'')
      have hptr : chunk'.ptr = chunk.ptr := hgrown.ptr
      have hused : chunk.used ≤ chunk'.used := hgrown.used
      exact ⟨by omega, by omega⟩
    · exact absurd (hbox.symm.trans hnone) (Option.some_ne_none _)
  · intro chunk' hc
    exact absurd (hc.symm.trans hnew) (Option.some_ne_none _)

/-- `alloc_slow` never returns null. -/
theorem allocSlow_spec (h : Owned a (references a.activeChunk objects)) (hnew : a.boxes c = none)
    (hfresh : Fresh a ptr (chunkSize layout)) {d : Nat}
    (halloc : a.allocSlow layout ptr c = some (b, p, d)) : Granted a b objects layout p d := by
  unfold allocSlow at halloc
  split at halloc
  · exact absurd halloc (by simp)
  · rename_i b' r htry
    cases halloc
    rcases tryAllocFast_spec h htry with ⟨hr, -⟩ | ⟨p', d', hr, hgranted⟩
    · exact absurd hr (Option.some_ne_none _)
    · cases hr
      exact hgranted
  · rename_i a' htry
    obtain ⟨-, heq⟩ | ⟨p', d', hr, -⟩ := tryAllocFast_spec h htry
    · obtain rfl := heq.symm
      split at halloc
      · rename_i hsize
        simp only at halloc
        have hwf : Chunk.Wf ⟨Link.new, ptr, chunkSize layout, 0, 2, LinkedList.new⟩ :=
          ⟨hfresh.pos, hfresh.fits, Nat.zero_le _⟩
        obtain ⟨cut, q, hcut, hq⟩ := Chunk.tryAlloc_fits hwf rfl (Nat.le_max_right ..)
        rw [hcut] at halloc
        simp only at halloc
        rcases Chunk.tryAlloc_spec hcut hwf with
          ⟨hzero, -⟩ | ⟨hpos, haligned, hbeyond, hwithin, heq⟩
        · exact absurd hzero hq
        · simp only at hbeyond hwithin
          have hptr : cut.ptr = ptr := congrArg Chunk.ptr heq
          have hcutSize : cut.size = chunkSize layout := congrArg Chunk.size heq
          have hused : cut.used = q - ptr + layout.size := congrArg Chunk.used heq
          have hcount : cut.activeCount = 2 := congrArg Chunk.activeCount heq
          have hwf' : cut.Wf := ⟨hptr ▸ hfresh.pos, by
            rw [hptr, hcutSize]
            exact hfresh.fits, by omega⟩
          have happart : ∀ d chunk', a.boxes d = some chunk' →
              chunk'.ptr + chunk'.size ≤ cut.ptr ∨ cut.ptr + cut.size ≤ chunk'.ptr := by
            rw [hptr, hcutSize]
            exact hfresh.apart
          obtain ⟨hactive, hunused⟩ := h.unused hnew
          have hself : Function.update a.boxes c (some cut) c = some cut :=
            Function.update_self ..
          have hrest : ∀ d, d ≠ c → Function.update a.boxes c (some cut) d = a.boxes d :=
            fun d hd => Function.update_of_ne hd ..
          generalize Function.update a.boxes c (some cut) = boxes at halloc hself hrest
          obtain ⟨links, chunks, hpush, hadd⟩ := h.add hnew hself hrest hwf' happart
            (congrArg Chunk.link heq) (by omega)
          rw [hpush] at halloc
          simp only at halloc
          obtain ⟨howned, hbox, hother⟩ := hadd ⟨some c, chunks, withChunkLinks boxes links, a.nodes⟩ rfl rfl
          rw [hcount] at howned
          have hstay : ∀ d, d ≠ c → withChunkLinks boxes links d = none → a.boxes d = none := by
            intro d hd hnone
            rw [← hrest d hd]
            exact Option.map_eq_none_iff.mp hnone
          have hgranted : ∀ b, Owned b (references (some c) (Function.update objects c 1)) →
              Kept ⟨some c, chunks, withChunkLinks boxes links, a.nodes⟩ b → b.activeChunk = some c →
              Granted a b objects layout q c := fun b =>
            Granted.of_new hunused rfl hnew hbox (congrArg Chunk.dropList heq) hother hstay hpos
              haligned (by omega) (by omega)
          split at halloc
          · rename_i hnone
            cases halloc
            refine hgranted _ (howned.congr rfl rfl fun d => ?_) (Kept.refl _) rfl
            rw [hnone]
            unfold references
            by_cases hdc : d = c
            · subst hdc
              rw [Function.update_self, Function.update_self, if_pos rfl]
            · have hne : some c ≠ some d := fun heq => hdc (Option.some.inj heq).symm
              rw [Function.update_of_ne hdc, Function.update_of_ne hdc, if_neg hne, if_neg (by simp)]
          · rename_i old hold
            have hne : old ≠ c := fun heq => hactive (heq ▸ hold)
            have hcounted : Function.update (references a.activeChunk objects) c 2 old =
                1 + objects old := by
              rw [Function.update_of_ne hne, hold]
              unfold references
              rw [if_pos rfl]
            obtain ⟨b', hrelease, howned', hkept, hactive'⟩ := howned.release (c := old) (by omega)
            rw [hrelease] at halloc
            cases halloc
            refine hgranted _ (howned'.congr rfl rfl fun d => ?_) hkept hactive'
            rw [hcounted, hold]
            unfold references
            by_cases hdc : d = c
            · subst hdc
              rw [Function.update_of_ne (Ne.symm hne), Function.update_self, Function.update_self,
                if_pos rfl]
            · have hne' : some c ≠ some d := fun heq => hdc (Option.some.inj heq).symm
              rw [Function.update_of_ne hdc, if_neg hne']
              by_cases hdold : d = old
              · subst hdold
                rw [Function.update_self]
                omega
              · have hne'' : some old ≠ some d := fun heq => hdold (Option.some.inj heq).symm
                rw [Function.update_of_ne hdold, Function.update_of_ne hdc, if_neg hne'']
      · exact absurd halloc (by simp)
    · exact absurd hr.symm (Option.some_ne_none _)

theorem allocRaw_spec (h : Owned a (references a.activeChunk objects)) (hnew : a.boxes c = none)
    (hfresh : Fresh a ptr (chunkSize layout)) {d : Nat}
    (halloc : a.allocRaw layout ptr c = some (b, p, d)) : Granted a b objects layout p d := by
  unfold allocRaw at halloc
  split at halloc
  · exact absurd halloc (by simp)
  · rename_i b' r htry
    cases halloc
    rcases tryAllocFast_spec h htry with ⟨hr, -⟩ | ⟨p', d', hr, hgranted⟩
    · exact absurd hr (Option.some_ne_none _)
    · cases hr
      exact hgranted
  · rename_i a' htry
    obtain ⟨-, heq⟩ | ⟨p', d', hr, -⟩ := tryAllocFast_spec h htry
    · obtain rfl := heq.symm
      exact allocSlow_spec h hnew hfresh halloc
    · exact absurd hr.symm (Option.some_ne_none _)

end Arena

end Veloq.Runtime
