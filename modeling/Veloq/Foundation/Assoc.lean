import Mathlib.Data.List.Nodup
set_option autoImplicit false

/-!
# Foundation: finite maps with an order of their entries

A hash map is looked up by its keys and iterated over.  `Assoc` has both: a list of
entries of which no two have the same key.  Beside the usual operations it can be
thinned out by a test on the values.
-/

namespace Veloq.Foundation

structure Assoc (κ ν : Type) where
  entries : List (κ × ν)
  nodup : (entries.map Prod.fst).Nodup

namespace Assoc

variable {κ ν : Type}

instance [DecidableEq κ] [DecidableEq ν] : DecidableEq (Assoc κ ν) := fun m m' =>
  decidable_of_iff (m.entries = m'.entries) ⟨fun h => by cases m; cases m'; cases h; rfl,
    congrArg entries⟩

def empty : Assoc κ ν := ⟨[], List.nodup_nil⟩

/-- The entries that pass a test. -/
def filter (m : Assoc κ ν) (p : κ × ν → Bool) : Assoc κ ν where
  entries := m.entries.filter p
  nodup := m.nodup.sublist (List.filter_sublist.map _)

/-- Every value is changed in its place. -/
def mapValues (m : Assoc κ ν) (f : κ → ν → ν) : Assoc κ ν where
  entries := m.entries.map fun e => (e.1, f e.1 e.2)
  nodup := by
    rw [List.map_map]
    exact m.nodup

def size (m : Assoc κ ν) : Nat := m.entries.length

theorem map_entries_mapValues {β : Type} {m : Assoc κ ν} (f : κ → ν → ν) (g : κ × ν → β)
    (h : ∀ k v, (k, v) ∈ m.entries → g (k, f k v) = g (k, v)) :
    (m.mapValues f).entries.map g = m.entries.map g := by
  refine List.map_map.trans (List.map_congr_left fun e he => ?_)
  exact h e.1 e.2 he

variable [DecidableEq κ]

def get (m : Assoc κ ν) (k : κ) : Option ν := m.entries.lookup k

def erase (m : Assoc κ ν) (k : κ) : Assoc κ ν := m.filter fun e => decide (e.1 ≠ k)

theorem notMem_erase (m : Assoc κ ν) (k : κ) : k ∉ (m.erase k).entries.map Prod.fst := by
  intro h
  obtain ⟨e, he, hk⟩ := List.mem_map.mp h
  exact of_decide_eq_true (List.mem_filter.mp he).2 hk

def insert (m : Assoc κ ν) (k : κ) (v : ν) : Assoc κ ν where
  entries := (k, v) :: (m.erase k).entries
  nodup := List.nodup_cons.mpr ⟨m.notMem_erase k, (m.erase k).nodup⟩

/-- `get_mut`, followed by an update of the value. -/
def modify (m : Assoc κ ν) (k : κ) (f : ν → ν) : Assoc κ ν :=
  m.mapValues fun k' v => if k' = k then f v else v

variable {m : Assoc κ ν} {k k' : κ} {v : ν}

theorem lookup_iff {l : List (κ × ν)} (h : (l.map Prod.fst).Nodup) :
    l.lookup k = some v ↔ (k, v) ∈ l := by
  induction l with
  | nil => exact iff_of_false (fun h => by cases h) List.not_mem_nil
  | cons e l ih =>
    obtain ⟨k₀, v₀⟩ := e
    obtain ⟨hnotmem, hnodup⟩ := List.nodup_cons.mp h
    rw [List.lookup_cons, List.mem_cons]
    by_cases hk : k = k₀
    · subst hk
      rw [beq_self_eq_true]
      constructor
      · intro hv
        exact .inl (Option.some.inj hv ▸ rfl)
      · rintro (heq | hmem)
        · exact congrArg some (congrArg Prod.snd heq).symm
        · exact absurd (List.mem_map_of_mem hmem) hnotmem
    · rw [beq_false_of_ne hk]
      refine (ih hnodup).trans ⟨.inr, fun hmem => hmem.resolve_left fun heq => ?_⟩
      exact hk (congrArg Prod.fst heq)

/-- A look-up finds the entry of the key. -/
theorem get_eq_some_iff : m.get k = some v ↔ (k, v) ∈ m.entries := lookup_iff m.nodup

theorem get_eq_none_iff : m.get k = none ↔ ∀ v, (k, v) ∉ m.entries := by
  rw [Option.eq_none_iff_forall_ne_some]
  exact forall_congr' fun v => not_congr get_eq_some_iff

theorem get_filter (p : κ × ν → Bool) : (m.filter p).get k = (m.get k).filter fun v => p (k, v) := by
  refine Option.ext fun v => ?_
  rw [get_eq_some_iff, Option.filter_eq_some_iff, get_eq_some_iff]
  exact List.mem_filter

@[simp] theorem get_erase_self : (m.erase k).get k = none := by
  rw [erase, get_filter]
  cases m.get k with
  | none => rfl
  | some v => simp [Option.filter]

theorem get_erase_ne (h : k' ≠ k) : (m.erase k).get k' = m.get k' := by
  rw [erase, get_filter]
  cases m.get k' with
  | none => rfl
  | some v => simp [Option.filter, h]

@[simp] theorem get_insert_self : (m.insert k v).get k = some v :=
  get_eq_some_iff.mpr (List.mem_cons_self ..)

theorem get_insert_ne (h : k' ≠ k) : (m.insert k v).get k' = m.get k' := by
  refine Eq.trans (Option.ext fun v' => ?_) (get_erase_ne h)
  rw [get_eq_some_iff, get_eq_some_iff]
  refine List.mem_cons.trans (or_iff_right fun heq => h ?_)
  exact congrArg Prod.fst heq

theorem get_mapValues (f : κ → ν → ν) : (m.mapValues f).get k = (m.get k).map (f k) := by
  refine Option.ext fun v => ?_
  rw [get_eq_some_iff, Option.map_eq_some_iff]
  constructor
  · intro hmem
    obtain ⟨⟨k', v'⟩, hentry, heq⟩ := List.mem_map.mp hmem
    cases heq
    exact ⟨v', get_eq_some_iff.mpr hentry, rfl⟩
  · rintro ⟨v', hget, rfl⟩
    exact List.mem_map.mpr ⟨(k, v'), get_eq_some_iff.mp hget, rfl⟩

theorem get_modify_self (f : ν → ν) : (m.modify k f).get k = (m.get k).map f := by
  rw [modify, get_mapValues]
  exact congrArg (Option.map · _) (funext fun v => if_pos rfl)

theorem get_modify_ne (f : ν → ν) (h : k' ≠ k) : (m.modify k f).get k' = m.get k' := by
  rw [modify, get_mapValues]
  exact (congrArg (Option.map · _) (funext fun v => if_neg h)).trans Option.map_id_apply

/-! ## The entries as a whole -/

/-- What is erased was there once. -/
theorem perm_erase (h : m.get k = some v) : m.entries.Perm ((k, v) :: (m.erase k).entries) := by
  have hpart := (List.filter_append_perm (fun e => decide (e.1 ≠ k)) m.entries).symm
  have hsingle : m.entries.filter (fun e => !decide (e.1 ≠ k)) = [(k, v)] := by
    have hmem := get_eq_some_iff.mp h
    refine List.perm_singleton.mp ?_
    refine (List.perm_ext_iff_of_nodup ?_ (List.nodup_singleton _)).mpr fun e => ?_
    · exact ((List.Nodup.of_map _ m.nodup).sublist List.filter_sublist)
    · rw [List.mem_filter, List.mem_singleton]
      constructor
      · rintro ⟨he, hk⟩
        obtain ⟨k', v'⟩ := e
        have hk : k' = k := by simpa using hk
        subst hk
        have hget := get_eq_some_iff.mpr he
        rw [h] at hget
        exact congrArg _ (Option.some.inj hget).symm
      · rintro rfl
        exact ⟨hmem, by simp⟩
  rw [hsingle] at hpart
  exact hpart.trans List.perm_append_comm

/-- It does not matter what was written to an entry that is erased. -/
theorem erase_modify (f : ν → ν) : (m.modify k f).erase k = m.erase k := by
  have hentries : ((m.modify k f).erase k).entries = (m.erase k).entries := by
    change (m.entries.map _).filter _ = m.entries.filter _
    rw [List.filter_map]
    refine (List.map_congr_left fun e he => ?_).trans (List.map_id _)
    have hk : e.1 ≠ k := of_decide_eq_true (List.mem_filter.mp he).2
    exact congrArg (Prod.mk e.1) (if_neg hk)
  cases hleft : (m.modify k f).erase k
  cases hright : m.erase k
  rw [hleft, hright] at hentries
  cases hentries
  rfl

theorem erase_of_get_none (h : m.get k = none) : (m.erase k).entries = m.entries := by
  refine List.filter_eq_self.mpr fun e he => decide_eq_true fun hk => ?_
  exact get_eq_none_iff.mp h e.2 (hk ▸ he)

/-- What is put in takes the place of what was there. -/
theorem perm_insert (m : Assoc κ ν) (k : κ) (v : ν) :
    ((m.insert k v).entries ++ ((m.get k).map (Prod.mk k)).toList).Perm ((k, v) :: m.entries) := by
  cases h : m.get k with
  | none =>
    change ((k, v) :: (m.erase k).entries ++ []).Perm _
    rw [List.append_nil, erase_of_get_none h]
  | some v' =>
    refine List.Perm.cons _ ?_
    exact (List.perm_append_singleton _ _).trans (perm_erase h).symm

end Assoc

end Veloq.Foundation
