import Veloq.Rio.Buffers
import Mathlib.Data.List.Perm.Basic
set_option autoImplicit false

/-!
# RIO: where registrations are

A registration is in the table of chunks, in the map of retired chunks or in the heap
cache; every other id that the kernel knows waits to be deregistered or belongs to the
address buffer.
-/

namespace Veloq.Rio

open Foundation Buffer

/-- The key of a registration. -/
inductive Place where
  | chunk (key : ChunkRegistrationKey)
  | heap (key : HeapBufferKey)
  deriving DecidableEq, Repr

namespace BufferLeaseToken

def place : BufferLeaseToken → Place
  | .chunk lease => .chunk lease.key
  | .heap lease => .heap lease.key

def id : BufferLeaseToken → BufferId
  | .chunk lease => lease.id
  | .heap lease => lease.id

end BufferLeaseToken

/-! ## The kernel's side -/

/-- The registered ids after some calls. -/
def registeredAfter : List BufferId → List KernelCall → List BufferId
  | known, [] => known
  | known, .register id _ _ :: calls => registeredAfter (id :: known) calls
  | known, .deregister id :: calls => registeredAfter (known.erase id) calls

/-- What the kernel ensures: it registers under ids that are not in use. -/
def FreshIds : List BufferId → List KernelCall → Prop
  | _, [] => True
  | known, .register id _ _ :: calls => id ≠ 0 ∧ id ∉ known ∧ FreshIds (id :: known) calls
  | known, .deregister id :: calls => FreshIds (known.erase id) calls

/-- What the kernel relies on: only registered ids are deregistered. -/
def Registered : List BufferId → List KernelCall → Prop
  | _, [] => True
  | known, .register id _ _ :: calls => Registered (id :: known) calls
  | known, .deregister id :: calls => id ∈ known ∧ Registered (known.erase id) calls

section Kernel

variable {known ids : List BufferId} {calls calls' : List KernelCall} {id : BufferId}

instance FreshIds.decidable : (known : List BufferId) → (calls : List KernelCall) →
    Decidable (FreshIds known calls)
  | _, [] => inferInstanceAs (Decidable True)
  | known, .register id _ _ :: calls =>
      have := FreshIds.decidable (id :: known) calls
      inferInstanceAs (Decidable (_ ∧ _ ∧ _))
  | known, .deregister id :: calls => FreshIds.decidable (known.erase id) calls

theorem registeredAfter_append : registeredAfter known (calls ++ calls') =
    registeredAfter (registeredAfter known calls) calls' := by
  induction calls generalizing known with
  | nil => rfl
  | cons call calls ih =>
    cases call with
    | register id ptr len => exact ih
    | deregister id => exact ih

theorem registered_append : Registered known (calls ++ calls') ↔
    Registered known calls ∧ Registered (registeredAfter known calls) calls' := by
  induction calls generalizing known with
  | nil => exact (and_iff_right trivial).symm
  | cons call calls ih =>
    cases call with
    | register id ptr len => exact ih
    | deregister id =>
      change _ ∧ Registered _ (calls ++ calls') ↔ (_ ∧ Registered _ calls) ∧ _
      rw [ih, and_assoc]
      rfl

/-- Ids that are registered once are registered once after calls of a sound kernel. -/
theorem nodup_registeredAfter (hnodup : known.Nodup) (hfresh : FreshIds known calls) :
    (registeredAfter known calls).Nodup := by
  induction calls generalizing known with
  | nil => exact hnodup
  | cons call calls ih =>
    cases call with
    | register id ptr len => exact ih (List.nodup_cons.mpr ⟨hfresh.2.1, hnodup⟩) hfresh.2.2
    | deregister id => exact ih (hnodup.erase id) hfresh

theorem ne_zero_registeredAfter (hpos : ∀ id ∈ known, id ≠ 0) (hfresh : FreshIds known calls) :
    ∀ id ∈ registeredAfter known calls, id ≠ 0 := by
  induction calls generalizing known with
  | nil => exact hpos
  | cons call calls ih =>
    cases call with
    | register id ptr len => exact ih (List.forall_mem_cons.mpr ⟨hfresh.1, hpos⟩) hfresh.2.2
    | deregister id => exact ih (fun x hx => hpos x (List.mem_of_mem_erase hx)) hfresh

/-- The ids that calls deregister. -/
def deregistered (calls : List KernelCall) : List BufferId :=
  calls.filterMap fun call => match call with
    | .register _ _ _ => none
    | .deregister id => some id

/-- The ids that calls register. -/
def newlyRegistered (calls : List KernelCall) : List BufferId :=
  calls.filterMap fun call => match call with
    | .register id _ _ => some id
    | .deregister _ => none

/-- An id that was registered before the calls and is registered by them was deregistered
in between. -/
theorem mem_deregistered (hknown : id ∈ known) (hfresh : FreshIds known calls)
    (hnew : id ∈ newlyRegistered calls) : id ∈ deregistered calls := by
  induction calls generalizing known with
  | nil => exact absurd hnew List.not_mem_nil
  | cons call calls ih =>
    cases call with
    | register x ptr len =>
      rcases List.mem_cons.mp hnew with rfl | hnew
      · exact absurd hknown hfresh.2.1
      · exact ih (List.mem_cons_of_mem _ hknown) hfresh.2.2 hnew
    | deregister x =>
      by_cases hid : id = x
      · subst hid
        exact List.mem_cons_self ..
      · exact List.mem_cons_of_mem _ (ih ((List.mem_erase_of_ne hid).mpr hknown) hfresh hnew)

/-- An id that is not deregistered stays registered. -/
theorem mem_registeredAfter (hknown : id ∈ known) (hkept : id ∉ deregistered calls) :
    id ∈ registeredAfter known calls := by
  induction calls generalizing known with
  | nil => exact hknown
  | cons call calls ih =>
    cases call with
    | register x ptr len => exact ih (List.mem_cons_of_mem _ hknown) hkept
    | deregister x =>
      obtain ⟨hne, hkept⟩ := not_or.mp (mt List.mem_cons.mpr hkept)
      exact ih ((List.mem_erase_of_ne hne).mpr hknown) hkept

theorem deregisterBuffers_eq (ids : List BufferId) (h : ∀ id ∈ ids, id ≠ 0) :
    deregisterBuffers ids = ids.map .deregister := by
  induction ids with
  | nil => rfl
  | cons id ids ih =>
    obtain ⟨hid, hids⟩ := List.forall_mem_cons.mp h
    rw [deregisterBuffers, List.flatMap_cons, List.map_cons, deregisterBuffer, if_neg hid]
    exact congrArg _ (ih hids)

theorem deregistered_map (ids : List BufferId) :
    deregistered (ids.map KernelCall.deregister) = ids := by
  induction ids with
  | nil => rfl
  | cons id ids ih => exact congrArg _ ih

theorem freshIds_deregister (known ids : List BufferId) :
    FreshIds known (ids.map .deregister) := by
  induction ids generalizing known with
  | nil => trivial
  | cons id ids ih => exact ih _

/-- Registered ids can be deregistered one after the other. -/
theorem deregister_all (ids : List BufferId) {rest : List BufferId}
    (h : known.Perm (ids ++ rest)) :
    Registered known (ids.map .deregister) ∧
      (registeredAfter known (ids.map .deregister)).Perm rest := by
  induction ids generalizing known with
  | nil => exact ⟨trivial, h⟩
  | cons id ids ih =>
    have hmem : id ∈ known := h.mem_iff.mpr (List.mem_cons_self ..)
    have herase : (known.erase id).Perm (ids ++ rest) := by
      have := h.erase id
      rwa [List.cons_append, List.erase_cons_head] at this
    obtain ⟨hregistered, hrest⟩ := ih herase
    exact ⟨⟨hmem, hregistered⟩, hrest⟩

/-- A loop over ids of which each valid one occurs once deregisters the valid ones. -/
theorem deregisterOnce_eq {seen : List BufferId} (hnodup : (ids.filter (· ≠ 0)).Nodup)
    (hseen : ∀ id ∈ ids, id ≠ 0 → id ∉ seen) :
    Buffers.deregisterOnce seen ids = (ids.filter (· ≠ 0)).map .deregister := by
  induction ids generalizing seen with
  | nil => rfl
  | cons id ids ih =>
    obtain ⟨hid, hids⟩ := List.forall_mem_cons.mp hseen
    unfold Buffers.deregisterOnce
    by_cases hzero : id = 0
    · subst hzero
      rw [if_pos (.inl rfl)]
      exact ih hnodup hids
    · rw [List.filter_cons_of_pos (by simpa using hzero)] at hnodup ⊢
      obtain ⟨hnotmem, hnodup⟩ := List.nodup_cons.mp hnodup
      rw [if_neg (fun h => h.elim hzero (hid hzero)), deregisterBuffer, if_neg hzero]
      refine congrArg (_ :: ·) (ih hnodup fun x hx hpos hmem => ?_)
      rcases List.mem_cons.mp hmem with rfl | hmem
      · exact hnotmem (List.mem_filter.mpr ⟨hx, by simpa using hpos⟩)
      · exact hids x hx hpos hmem

end Kernel

namespace Buffers

/-! ## The registrations of a registry -/

def chunkAt (b : Buffers) (key : ChunkRegistrationKey) : Option BufferRegistration :=
  match (b.chunkRegistry.get key.id).filter fun entry =>
      decide (entry.generation = key.generation) with
  | some entry => some entry.registration
  | none => b.retiredChunkRegistrations.get key

/-- The registration of a key. -/
def regAt (b : Buffers) : Place → Option BufferRegistration
  | .chunk key => b.chunkAt key
  | .heap key => b.heapRioBufs.get key

def chunkIds (b : Buffers) : List BufferId :=
  b.chunkRegistry.entries.map fun e => e.2.registration.id

def retiredIds (b : Buffers) : List BufferId :=
  b.retiredChunkRegistrations.entries.map fun e => e.2.id

def heapIds (b : Buffers) : List BufferId := b.heapRioBufs.entries.map fun e => e.2.id

def addrIds (b : Buffers) : List BufferId :=
  if b.addrBufferId = 0 then [] else [b.addrBufferId]

/-- The ids that the registry has to deregister some day. -/
def ids (b : Buffers) : List BufferId :=
  b.chunkIds ++ (b.retiredIds ++ (b.heapIds ++ (b.pendingDeregistrations ++ b.addrIds)))

/-- All registrations with their keys. -/
def registrations (b : Buffers) : List (Place × BufferRegistration) :=
  b.chunkRegistry.entries.map (fun e => (.chunk ⟨e.1, e.2.generation⟩, e.2.registration)) ++
    (b.retiredChunkRegistrations.entries.map (fun e => (.chunk e.1, e.2)) ++
      b.heapRioBufs.entries.map fun e => (.heap e.1, e.2))

/-- Generations tell the registrations of a chunk apart; a retired registration is kept
for its leases only. -/
structure Shape (b : Buffers) : Prop where
  current_le : ∀ id entry, b.chunkRegistry.get id = some entry →
    entry.generation ≤ b.nextRegistrationGeneration
  retired_le : ∀ key r, b.retiredChunkRegistrations.get key = some r →
    key.generation ≤ b.nextRegistrationGeneration
  apart : ∀ id entry, b.chunkRegistry.get id = some entry →
    b.retiredChunkRegistrations.get ⟨id, entry.generation⟩ = none
  current_live : ∀ id entry, b.chunkRegistry.get id = some entry →
    entry.registration.retired = false
  retired_busy : ∀ key r, b.retiredChunkRegistrations.get key = some r →
    r.retired = true ∧ 0 < r.activeRefs
  heap_busy : ∀ key r, b.heapRioBufs.get key = some r → r.retired = true → 0 < r.activeRefs

variable {b b' : Buffers} {id : BufferId} {p q : Place} {r r' : BufferRegistration}
  {key : ChunkRegistrationKey}

theorem Shape.empty : Shape {} where
  current_le := fun _ _ h => by cases h
  retired_le := fun _ _ h => by cases h
  apart := fun _ _ h => by cases h
  current_live := fun _ _ h => by cases h
  retired_busy := fun _ _ h => by cases h
  heap_busy := fun _ _ h => by cases h

/-- A chunk's registration is current or retired. -/
theorem chunkAt_eq_some_iff (h : b.Shape) : b.chunkAt key = some r ↔
    (∃ entry, b.chunkRegistry.get key.id = some entry ∧ entry.generation = key.generation ∧
      entry.registration = r) ∨ b.retiredChunkRegistrations.get key = some r := by
  obtain ⟨id, generation⟩ := key
  unfold chunkAt
  split
  · rename_i entry hentry
    obtain ⟨hget, hgen⟩ := Option.filter_eq_some_iff.mp hentry
    have hgen : entry.generation = generation := of_decide_eq_true hgen
    subst hgen
    constructor
    · intro heq
      exact .inl ⟨entry, hget, rfl, Option.some.inj heq⟩
    · rintro (⟨entry', hget', -, rfl⟩ | hretired)
      · cases hget.symm.trans hget'
        rfl
      · cases (h.apart id entry hget).symm.trans hretired
  · rename_i hnone
    refine (or_iff_right ?_).symm
    rintro ⟨entry, hget, hgen, -⟩
    have hfound := Option.filter_eq_none_iff.mp hnone entry hget
    exact hfound (decide_eq_true hgen)

theorem mem_registrations_iff (h : b.Shape) : (p, r) ∈ b.registrations ↔ b.regAt p = some r := by
  unfold registrations
  rw [List.mem_append, List.mem_append, List.mem_map, List.mem_map, List.mem_map]
  cases p with
  | chunk key =>
    refine Iff.trans ?_ (chunkAt_eq_some_iff h).symm
    constructor
    · rintro (⟨e, he, heq⟩ | ⟨e, he, heq⟩ | ⟨e, -, heq⟩)
      · cases heq
        exact .inl ⟨e.2, Assoc.get_eq_some_iff.mpr he, rfl, rfl⟩
      · cases heq
        exact .inr (Assoc.get_eq_some_iff.mpr he)
      · cases heq
    · rintro (⟨entry, hget, hgen, rfl⟩ | hget)
      · exact .inl ⟨(key.id, entry), Assoc.get_eq_some_iff.mp hget, by rw [hgen]⟩
      · exact .inr (.inl ⟨(key, r), Assoc.get_eq_some_iff.mp hget, rfl⟩)
  | heap key =>
    change _ ↔ b.heapRioBufs.get key = some r
    rw [Assoc.get_eq_some_iff]
    constructor
    · rintro (⟨e, -, heq⟩ | ⟨e, -, heq⟩ | ⟨e, he, heq⟩)
      · cases heq
      · cases heq
      · cases heq
        exact he
    · intro hmem
      exact .inr (.inr ⟨(key, r), hmem, rfl⟩)

theorem map_registrations (b : Buffers) :
    b.registrations.map (fun e => e.2.id) = b.chunkIds ++ (b.retiredIds ++ b.heapIds) := by
  simp only [registrations, List.map_append, List.map_map, chunkIds, retiredIds, heapIds]
  rfl

theorem ids_eq (b : Buffers) : b.ids = b.registrations.map (fun e => e.2.id) ++
    (b.pendingDeregistrations ++ b.addrIds) := by
  rw [map_registrations]
  simp only [ids, List.append_assoc]

/-- An id belongs to one registration. -/
theorem place_eq (h : b.Shape) (hnodup : b.ids.Nodup) (hp : b.regAt p = some r)
    (hq : b.regAt q = some r') (hid : r.id = r'.id) : p = q := by
  rw [ids_eq] at hnodup
  have hnodup := (List.nodup_append.mp hnodup).1
  have heq := List.inj_on_of_nodup_map hnodup ((mem_registrations_iff h).mpr hp)
    ((mem_registrations_iff h).mpr hq) hid
  exact congrArg Prod.fst heq

theorem mem_ids (h : b.Shape) (hp : b.regAt p = some r) : r.id ∈ b.ids := by
  rw [ids_eq]
  exact List.mem_append_left _ (List.mem_map_of_mem ((mem_registrations_iff h).mpr hp))

/-- A registration's id is not one that waits to be deregistered. -/
theorem notMem_pending (h : b.Shape) (hnodup : b.ids.Nodup) (hp : b.regAt p = some r) :
    r.id ∉ b.pendingDeregistrations := by
  intro hmem
  rw [ids_eq] at hnodup
  have hdisjoint := (List.nodup_append.mp hnodup).2.2
  exact hdisjoint _ (List.mem_map_of_mem ((mem_registrations_iff h).mpr hp)) _
    (List.mem_append_left _ hmem) rfl

/-- The leases on a registration: its id and how many there are. -/
def held (b : Buffers) (p : Place) : Option (BufferId × Nat) :=
  (b.regAt p).bind fun r => if r.activeRefs = 0 then none else some (r.id, r.activeRefs)

theorem held_of_regAt (h : b.regAt p = some r) :
    b.held p = if r.activeRefs = 0 then none else some (r.id, r.activeRefs) := by
  rw [held, h]
  rfl

theorem held_of_none (h : b.regAt p = none) : b.held p = none := by
  rw [held, h]
  rfl

theorem held_eq_some_iff {n : Nat} : b.held p = some (id, n) ↔
    ∃ r, b.regAt p = some r ∧ r.id = id ∧ r.activeRefs = n ∧ n ≠ 0 := by
  unfold held
  rw [Option.bind_eq_some_iff]
  refine exists_congr fun r => and_congr_right fun _ => ?_
  split
  · rename_i hzero
    exact iff_of_false (fun h => by cases h) fun h => h.2.2 (h.2.1.symm.trans hzero)
  · rename_i hne
    rw [Option.some.injEq, Prod.mk.injEq]
    constructor
    · rintro ⟨rfl, rfl⟩
      exact ⟨rfl, rfl, hne⟩
    · rintro ⟨rfl, rfl, -⟩
      exact ⟨rfl, rfl⟩

/-- Every registration has its own id, and no id is invalid. -/
structure Wf (b : Buffers) : Prop extends Shape b where
  nodup : b.ids.Nodup
  pos : ∀ id ∈ b.ids, id ≠ 0

/-- The calls of an operation take the kernel from the ids of the registry before it to
those after it, only idle registrations are given up, and no lease is touched. -/
structure Accounted (b : Buffers) (calls : List KernelCall) (b' : Buffers) : Prop where
  conserved : ∀ known, known.Perm b.ids →
    Registered known calls ∧ (registeredAfter known calls).Perm b'.ids
  idle : ∀ id ∈ deregistered calls, ∀ p n, b.held p ≠ some (id, n)
  held : ∀ p, b'.held p = b.held p
  marks : ∀ p r', b'.regAt p = some r' →
    (∃ r, b.regAt p = some r ∧ r.id = r'.id ∧ (r.retired = true → r'.retired = true)) ∨
      r'.id ∈ newlyRegistered calls
  addr : ∀ id ∈ b'.addrIds, id ∈ b.addrIds ∨ id ∈ newlyRegistered calls

/-- Nothing happens to the registrations. -/
theorem Accounted.of_same {calls : List KernelCall} (hconserved : ∀ known, known.Perm b.ids →
      Registered known calls ∧ (registeredAfter known calls).Perm b'.ids)
    (hidle : ∀ id ∈ deregistered calls, ∀ p n, b.held p ≠ some (id, n))
    (hregs : ∀ p, b'.regAt p = b.regAt p) (haddr : b'.addrIds = b.addrIds) :
    Accounted b calls b' := by
  refine ⟨hconserved, hidle, fun p => congrArg (Option.bind · _) (hregs p), fun p r' hp => ?_,
    fun id hid => .inl (haddr ▸ hid)⟩
  rw [hregs] at hp
  exact .inl ⟨r', hp, rfl, id⟩

theorem Accounted.refl (b : Buffers) : Accounted b [] b :=
  .of_same (fun _ hperm => ⟨trivial, hperm⟩) (fun _ h => absurd h List.not_mem_nil)
    (fun _ => rfl) rfl

theorem Accounted.trans {b'' : Buffers} {calls calls' : List KernelCall}
    (h : Accounted b calls b') (h' : Accounted b' calls' b'') :
    Accounted b (calls ++ calls') b'' := by
  refine ⟨fun known hperm => ?_, fun id hid p n => ?_, fun p => (h'.held p).trans (h.held p),
    fun p r'' hp => ?_, fun id hid => ?_⟩
  · obtain ⟨hregistered, hafter⟩ := h.conserved known hperm
    rw [registered_append, registeredAfter_append]
    exact ⟨⟨hregistered, (h'.conserved _ hafter).1⟩, (h'.conserved _ hafter).2⟩
  · rw [deregistered, List.filterMap_append] at hid
    rcases List.mem_append.mp hid with hid | hid
    · exact h.idle id hid p n
    · rw [← h.held p]
      exact h'.idle id hid p n
  · rw [newlyRegistered, List.filterMap_append, List.mem_append]
    rcases h'.marks p r'' hp with ⟨r', hr', hid', hmark'⟩ | hnew
    · rcases h.marks p r' hr' with ⟨r, hr, hid, hmark⟩ | hnew
      · exact .inl ⟨r, hr, hid.trans hid', fun hret => hmark' (hmark hret)⟩
      · exact .inr (.inl (hid' ▸ hnew))
    · exact .inr (.inr hnew)
  · rw [newlyRegistered, List.filterMap_append, List.mem_append]
    rcases h'.addr id hid with hid | hnew
    · exact (h.addr id hid).imp_right .inl
    · exact .inr (.inr hnew)

/-- What is well formed stays so, if the kernel gives fresh ids. -/
theorem Wf.after {known : List BufferId} {calls : List KernelCall} (h : b.Wf)
    (hperm : known.Perm b.ids) (hfresh : FreshIds known calls) (hshape : b'.Shape)
    (hacc : Accounted b calls b') : b'.Wf := by
  have hafter := (hacc.conserved known hperm).2
  refine ⟨hshape, ?_, fun id hid => ?_⟩
  · exact hafter.nodup_iff.mp (nodup_registeredAfter (hperm.nodup_iff.mpr h.nodup) hfresh)
  · refine ne_zero_registeredAfter (fun x hx => ?_) hfresh id (hafter.mem_iff.mpr hid)
    exact h.pos x (hperm.mem_iff.mp hx)

/-- A registration without leases can be deregistered. -/
theorem not_held_of_idle (h : b.Wf) (hp : b.regAt p = some r) (hidle : r.activeRefs = 0)
    (q : Place) (n : Nat) : b.held q ≠ some (r.id, n) := by
  intro hheld
  obtain ⟨r', hq, hid, hrefs, hne⟩ := held_eq_some_iff.mp hheld
  obtain rfl := place_eq h.toShape h.nodup hp hq hid.symm
  cases hp.symm.trans hq
  exact hne (hrefs.symm.trans hidle)

/-! ## Registering a chunk -/

section InstallChunk

variable {bufId : BufferId} {previous : ChunkRegistration}

theorem chunkAt_current (key : ChunkRegistrationKey) (previous : ChunkRegistration)
    (hget : b.chunkRegistry.get key.id = some previous)
    (hgen : previous.generation = key.generation) :
    b.chunkAt key = some previous.registration := by
  simp only [chunkAt, hget, Option.filter_some, hgen, decide_true, if_true]

theorem chunkAt_of_ne (hget : b.chunkRegistry.get key.id = some previous)
    (hgen : previous.generation ≠ key.generation) :
    b.chunkAt key = b.retiredChunkRegistrations.get key := by
  simp only [chunkAt, hget, Option.filter_some, decide_eq_false hgen, Bool.false_eq_true, if_false]

theorem chunkAt_of_none (hget : b.chunkRegistry.get key.id = none) :
    b.chunkAt key = b.retiredChunkRegistrations.get key := by
  unfold chunkAt
  rw [hget]
  rfl

theorem chunkAt_install_new : (b.installChunk id bufId).chunkAt
    ⟨id, b.nextRegistrationGeneration + 1⟩ = some (.new bufId) := by
  have hget : (b.installChunk id bufId).chunkRegistry.get id =
      some ⟨b.nextRegistrationGeneration + 1, .new bufId⟩ := Assoc.get_insert_self
  exact chunkAt_current ⟨id, _⟩ ⟨_, .new bufId⟩ hget rfl

theorem chunkAt_install_old (hgen : key.generation ≠ b.nextRegistrationGeneration + 1) :
    (b.installChunk key.id bufId).chunkAt key = b.retiredChunkRegistrations.get key :=
  chunkAt_of_ne (b := b.installChunk key.id bufId) Assoc.get_insert_self (Ne.symm hgen)

theorem chunkAt_install_other (hid : key.id ≠ id) :
    (b.installChunk id bufId).chunkAt key = b.chunkAt key := by
  unfold chunkAt installChunk
  dsimp only
  rw [Assoc.get_insert_ne hid]

/-- Before a chunk has a registration with the next generation there is none. -/
theorem chunkAt_next (h : b.Shape) :
    b.chunkAt ⟨id, b.nextRegistrationGeneration + 1⟩ = none := by
  cases hat : b.chunkAt ⟨id, b.nextRegistrationGeneration + 1⟩ with
  | none => rfl
  | some r =>
    exfalso
    rcases (chunkAt_eq_some_iff h).mp hat with ⟨entry, hget, hgen, -⟩ | hget
    · have hle := h.current_le id entry hget
      rw [hgen] at hle
      exact Nat.not_succ_le_self _ hle
    · exact Nat.not_succ_le_self _ (h.retired_le _ r hget)

theorem perm_chunkIds_install (b : Buffers) (id : Nat) (bufId : BufferId) :
    ((b.installChunk id bufId).chunkIds ++
      ((b.chunkRegistry.get id).map fun e => e.registration.id).toList).Perm
        (bufId :: b.chunkIds) := by
  have hperm := (b.chunkRegistry.perm_insert id
    ⟨b.nextRegistrationGeneration + 1, .new bufId⟩).map fun e => e.2.registration.id
  rw [List.map_append] at hperm
  cases hget : b.chunkRegistry.get id with
  | none =>
    rw [hget] at hperm
    exact hperm
  | some previous =>
    rw [hget] at hperm
    exact hperm

end InstallChunk

end Buffers

end Veloq.Rio
