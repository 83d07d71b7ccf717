import Mathlib.Data.List.Basic
import Mathlib.Data.List.Nodup
set_option autoImplicit false

/-!
# Foundation: agendas and what is delivered from them

An agenda says which items are pending and when each is due.  `Batch` relates two
agendas by the keys that were taken from the first one: all due within a closed
interval, each once, in order of their due times.  Batches over successive
intervals compose.
-/

namespace Veloq.Foundation

/-- The pending items with their due times. -/
def Agenda (Key T : Type) := Key → Option (T × Nat)

namespace Agenda

variable {Key T : Type} [DecidableEq Key]

def empty : Agenda Key T := fun _ => none

/-- `item` becomes pending under `k`. -/
def add (a : Agenda Key T) (k : Key) (item : T) (due : Nat) : Agenda Key T :=
  fun k' => if k' = k then some (item, due) else a k'

/-- Nothing is pending under `k` any more. -/
def drop (a : Agenda Key T) (k : Key) : Agenda Key T :=
  fun k' => if k' = k then none else a k'

/-- What is left once everything due by `now` is gone. -/
def after (a : Agenda Key T) (now : Nat) : Agenda Key T :=
  fun k => (a k).filter fun p => decide (now < p.2)

/-- The items pending under `keys`, in the order of the keys. -/
def items (a : Agenda Key T) (keys : List Key) : List T :=
  keys.filterMap fun k => (a k).map Prod.fst

/-- The same items, all due at once. -/
def undated (a : Agenda Key T) : Agenda Key T := fun k => (a k).map fun p => (p.1, 0)

/-- The item pending under `k` is due at `t`. -/
def DueAt (a : Agenda Key T) (k : Key) (t : Nat) : Prop :=
  ∃ item, a k = some (item, t)

end Agenda

namespace Agenda

variable {Key T : Type}

theorem items_undated (a : Agenda Key T) (keys : List Key) : a.undated.items keys = a.items keys := by
  refine List.filterMap_congr fun k _ => ?_
  unfold undated
  cases a k <;> rfl

/-- What is left was there before. -/
theorem of_after {a : Agenda Key T} {now : Nat} {k : Key} {p : T × Nat}
    (h : a.after now k = some p) : a k = some p := by
  unfold after at h
  cases hk : a k with
  | none =>
    rw [hk] at h
    exact absurd h (by simp)
  | some q =>
    rw [hk, Option.filter_some] at h
    split at h
    · exact h
    · exact absurd h (by simp)

end Agenda

/-- `keys` were delivered from `a`, leaving `a'`: each was pending in `a` and due
within `[lo, hi]`, none occurs twice, and their due times do not decrease. -/
structure Batch {Key T : Type} [DecidableEq Key] (a a' : Agenda Key T) (lo hi : Nat)
    (keys : List Key) : Prop where
  nodup : keys.Nodup
  due : ∀ k ∈ keys, ∃ t, a.DueAt k t ∧ lo ≤ t ∧ t ≤ hi
  sorted : keys.Pairwise fun k k' => ∀ t t', a.DueAt k t → a.DueAt k' t' → t ≤ t'
  rest : ∀ k, a' k = if k ∈ keys then none else a k

namespace Batch

variable {Key T : Type} [DecidableEq Key] {a a' a'' : Agenda Key T} {lo hi lo' hi' : Nat}
  {keys keys' : List Key}

omit [DecidableEq Key] in
theorem dueAt_unique {k : Key} {t t' : Nat} (h : a.DueAt k t) (h' : a.DueAt k t') : t = t' := by
  obtain ⟨item, hk⟩ := h
  obtain ⟨item', hk'⟩ := h'
  rw [hk] at hk'
  cases hk'
  rfl

theorem refl (a : Agenda Key T) (lo hi : Nat) : Batch a a lo hi [] :=
  ⟨List.nodup_nil, by simp, List.Pairwise.nil, by simp⟩

/-- The agenda loses one item. -/
theorem single {k : Key} {t : Nat} (hk : a.DueAt k t) (hlo : lo ≤ t) (hhi : t ≤ hi) :
    Batch a (a.drop k) lo hi [k] := by
  refine ⟨List.nodup_singleton k, ?_, List.pairwise_singleton _ k, ?_⟩
  · intro j hj
    rw [List.mem_singleton] at hj
    subst hj
    exact ⟨t, hk, hlo, hhi⟩
  · intro j
    simp [Agenda.drop]

/-- Items that are all due at one time and are gone together. -/
theorem of_gone {t : Nat} (hnodup : keys.Nodup) (hdue : ∀ k ∈ keys, ∀ u, a.DueAt k u → u = t)
    (hrest : ∀ k, a' k = if k ∈ keys then none else a k) :
    ∃ keys', Batch a a' t t keys' ∧ a.items keys' = a.items keys := by
  refine ⟨keys.filter fun k => (a k).isSome, ⟨hnodup.filter _, ?_, ?_, ?_⟩, ?_⟩
  · intro k hk
    obtain ⟨hmem, hsome⟩ := List.mem_filter.mp hk
    obtain ⟨p, hp⟩ := Option.isSome_iff_exists.mp hsome
    have hat : a.DueAt k p.2 := ⟨p.1, hp⟩
    exact ⟨t, hdue k hmem _ hat ▸ hat, Nat.le_refl t, Nat.le_refl t⟩
  · refine List.Pairwise.imp_of_mem ?_ (hnodup.filter _)
    intro k k' hk hk' _ u u' hu hu'
    have h1 := hdue k (List.mem_filter.mp hk).1 u hu
    have h2 := hdue k' (List.mem_filter.mp hk').1 u' hu'
    omega
  · intro k
    rw [hrest k]
    by_cases hk : k ∈ keys
    · rw [if_pos hk]
      cases hp : a k with
      | none => simp
      | some p => rw [if_pos (List.mem_filter.mpr ⟨hk, by rw [hp]; rfl⟩)]
    · rw [if_neg hk, if_neg fun hin => hk (List.mem_filter.mp hin).1]
  · unfold Agenda.items
    rw [List.filterMap_filter]
    refine List.filterMap_congr ?_
    intro k _
    cases a k with
    | none => rfl
    | some p => rfl

theorem mono (h : Batch a a' lo hi keys) (hlo : lo' ≤ lo) (hhi : hi ≤ hi') :
    Batch a a' lo' hi' keys := by
  refine ⟨h.nodup, ?_, h.sorted, h.rest⟩
  intro k hk
  obtain ⟨t, ht, hl, hh⟩ := h.due k hk
  exact ⟨t, ht, Nat.le_trans hlo hl, Nat.le_trans hh hhi⟩

/-- What is pending after a batch was pending before it. -/
theorem dueAt_of_rest (h : Batch a a' lo hi keys) {k : Key} {t : Nat} (hk : a'.DueAt k t) :
    k ∉ keys ∧ a.DueAt k t := by
  obtain ⟨item, hitem⟩ := hk
  rw [h.rest k] at hitem
  split at hitem
  · exact absurd hitem (by simp)
  · exact ⟨by assumption, item, hitem⟩

/-- Batches over successive intervals compose. -/
theorem trans (h : Batch a a' lo hi keys) (h' : Batch a' a'' lo' hi' keys') (hle : hi ≤ lo')
    (hlo : lo ≤ lo') (hhi : hi ≤ hi') : Batch a a'' lo hi' (keys ++ keys') := by
  have hpending : ∀ k ∈ keys', k ∉ keys ∧ ∃ t, a.DueAt k t ∧ lo' ≤ t ∧ t ≤ hi' := by
    intro k hk
    obtain ⟨t, ht, hl, hh⟩ := h'.due k hk
    obtain ⟨hnot, hdue⟩ := h.dueAt_of_rest ht
    exact ⟨hnot, t, hdue, hl, hh⟩
  have hsame : ∀ k ∈ keys', a' k = a k := by
    intro k hk
    rw [h.rest k, if_neg (hpending k hk).1]
  refine ⟨?_, ?_, ?_, ?_⟩
  · refine List.Nodup.append h.nodup h'.nodup ?_
    intro k hk hk'
    exact (hpending k hk').1 hk
  · intro k hk
    rcases List.mem_append.mp hk with hk | hk
    · obtain ⟨t, ht, hl, hh⟩ := h.due k hk
      exact ⟨t, ht, hl, Nat.le_trans hh hhi⟩
    · obtain ⟨t, ht, hl, hh⟩ := (hpending k hk).2
      exact ⟨t, ht, Nat.le_trans hlo hl, hh⟩
  · refine List.pairwise_append.mpr ⟨h.sorted, ?_, ?_⟩
    · refine h'.sorted.imp_of_mem ?_
      intro k k' hk hk' himp t t' ht ht'
      refine himp t t' ?_ ?_
      · unfold Agenda.DueAt
        rw [hsame k hk]
        exact ht
      · unfold Agenda.DueAt
        rw [hsame k' hk']
        exact ht'
    · intro k hk k' hk' t t' ht ht'
      obtain ⟨u, hu, _, huhi⟩ := h.due k hk
      obtain ⟨u', hu', hulo, _⟩ := (hpending k' hk').2
      rw [dueAt_unique ht hu, dueAt_unique ht' hu']
      exact Nat.le_trans (Nat.le_trans huhi hle) hulo
  · intro k
    rw [h'.rest k, h.rest k]
    simp only [List.mem_append]
    by_cases hk : k ∈ keys' <;> by_cases hk' : k ∈ keys <;> simp [hk, hk']

/-- The items of composed batches are those of the first followed by those of the
second. -/
theorem items_append (h : Batch a a' lo hi keys) (h' : Batch a' a'' lo' hi' keys') :
    a.items keys ++ a'.items keys' = a.items (keys ++ keys') := by
  unfold Agenda.items
  rw [List.filterMap_append]
  congr 1
  refine List.filterMap_congr ?_
  intro k hk
  obtain ⟨t, ht, _⟩ := h'.due k hk
  rw [h.rest k, if_neg (h.dueAt_of_rest ht).1]

/-- What was delivered between two agendas does not depend on the way. -/
theorem perm {keys' : List Key} (h : Batch a a' lo hi keys) (h' : Batch a a' lo' hi' keys') :
    keys.Perm keys' := by
  have htaken : ∀ {lo hi : Nat} {keys : List Key}, Batch a a' lo hi keys →
      ∀ k, k ∈ keys ↔ a k ≠ none ∧ a' k = none := by
    intro lo hi keys h k
    constructor
    · intro hk
      obtain ⟨t, ⟨item, hitem⟩, -⟩ := h.due k hk
      exact ⟨by rw [hitem]; exact Option.some_ne_none _, by rw [h.rest k, if_pos hk]⟩
    · rintro ⟨hpending, hgone⟩
      by_contra hk
      rw [h.rest k, if_neg hk] at hgone
      exact hpending hgone
  exact (List.perm_ext_iff_of_nodup h.nodup h'.nodup).mpr fun k =>
    (htaken h k).trans (htaken h' k).symm

/-- When nothing due by `hi` is left, the batch holds exactly what was due. -/
theorem mem_iff (h : Batch a a' lo hi keys) (hrest : ∀ k t, a'.DueAt k t → hi < t) (k : Key) :
    k ∈ keys ↔ ∃ t, a.DueAt k t ∧ t ≤ hi := by
  constructor
  · intro hk
    obtain ⟨t, ht, _, hhi⟩ := h.due k hk
    exact ⟨t, ht, hhi⟩
  · rintro ⟨t, ⟨item, hitem⟩, hhi⟩
    by_contra hk
    have hleft : a'.DueAt k t := ⟨item, by rw [h.rest k, if_neg hk, hitem]⟩
    exact absurd (hrest k t hleft) (by omega)

/-- When nothing due by `hi` is left, what remains is the agenda after `hi`. -/
theorem eq_after (h : Batch a a' lo hi keys) (hrest : ∀ k t, a'.DueAt k t → hi < t) :
    a' = a.after hi := by
  funext k
  unfold Agenda.after
  cases hk : a k with
  | none =>
    rw [h.rest k, hk]
    simp
  | some p =>
    obtain ⟨item, t⟩ := p
    by_cases hdue : t ≤ hi
    · have hmem : k ∈ keys := (h.mem_iff hrest k).mpr ⟨t, ⟨item, hk⟩, hdue⟩
      rw [h.rest k, if_pos hmem, Option.filter_some, if_neg (by simpa using hdue)]
    · have hmem : k ∉ keys := by
        intro hmem
        obtain ⟨t', ht', hle⟩ := (h.mem_iff hrest k).mp hmem
        rw [dueAt_unique ⟨item, hk⟩ ht'] at hdue
        exact hdue hle
      rw [h.rest k, if_neg hmem, hk, Option.filter_some, if_pos (by simpa using hdue)]

end Batch

end Veloq.Foundation
