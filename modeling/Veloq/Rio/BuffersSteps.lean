import Veloq.Rio.BuffersInvariant
set_option autoImplicit false

/-!
# RIO: what the operations on registered buffers do

Registering and resolving move registrations about but never touch a lease; acquiring
and releasing change the number of leases on one registration.
-/

namespace Veloq.Rio.Buffers

open Foundation Buffer

variable {b b' : Buffers} {id bufId : BufferId} {p q : Place} {r r' : BufferRegistration}
  {key : ChunkRegistrationKey} {previous : ChunkRegistration} {calls : List KernelCall}
  {env : BufferEnv}

/-! ## Registering a chunk -/

theorem get_install_ne {other : Nat} (h : other ≠ id) :
    (b.installChunk id bufId).chunkRegistry.get other = b.chunkRegistry.get other :=
  Assoc.get_insert_ne h

/-- The entries of the table after a registration. -/
theorem get_install_cases {other : Nat} {entry : ChunkRegistration}
    (h : (b.installChunk id bufId).chunkRegistry.get other = some entry) :
    other = id ∧ entry = ⟨b.nextRegistrationGeneration + 1, .new bufId⟩ ∨
      other ≠ id ∧ b.chunkRegistry.get other = some entry := by
  by_cases hid : other = id
  · subst hid
    exact .inl ⟨rfl, (Option.some.inj (Assoc.get_insert_self.symm.trans h)).symm⟩
  · exact .inr ⟨hid, (get_install_ne hid).symm.trans h⟩

theorem shape_install (h : b.Shape) : (b.installChunk id bufId).Shape where
  current_le := by
    intro other entry hget
    rcases get_install_cases hget with ⟨-, rfl⟩ | ⟨-, hget⟩
    · exact Nat.le_refl _
    · exact Nat.le_succ_of_le (h.current_le other entry hget)
  retired_le := fun key r hget => Nat.le_succ_of_le (h.retired_le key r hget)
  apart := by
    intro other entry hget
    rcases get_install_cases hget with ⟨-, rfl⟩ | ⟨-, hget⟩
    · change b.retiredChunkRegistrations.get ⟨other, b.nextRegistrationGeneration + 1⟩ = none
      cases hretired :
        b.retiredChunkRegistrations.get ⟨other, b.nextRegistrationGeneration + 1⟩ with
      | none => rfl
      | some r => exact absurd (h.retired_le _ r hretired) (Nat.not_succ_le_self _)
    · exact h.apart other entry hget
  current_live := by
    intro other entry hget
    rcases get_install_cases hget with ⟨-, rfl⟩ | ⟨-, hget⟩
    · rfl
    · exact h.current_live other entry hget
  retired_busy := h.retired_busy
  heap_busy := h.heap_busy

/-- A registration of the table after a new one was put in: the new one, or another than
the replaced one. -/
theorem regAt_install_cases (h : b.Shape) (hp : (b.installChunk id bufId).regAt p = some r) :
    p = .chunk ⟨id, b.nextRegistrationGeneration + 1⟩ ∧ r = .new bufId ∨
      b.regAt p = some r ∧ ∀ previous, b.chunkRegistry.get id = some previous →
        p ≠ .chunk ⟨id, previous.generation⟩ := by
  cases p with
  | heap key => exact .inr ⟨hp, fun _ _ hkey => by cases hkey⟩
  | chunk key =>
    by_cases hid : key.id = id
    · subst hid
      by_cases hgen : key.generation = b.nextRegistrationGeneration + 1
      · obtain ⟨id, generation⟩ := key
        subst hgen
        exact .inl ⟨rfl, (Option.some.inj (chunkAt_install_new.symm.trans hp)).symm⟩
      · have hretired := (chunkAt_install_old hgen).symm.trans hp
        refine .inr ⟨(chunkAt_eq_some_iff h).mpr (.inr hretired), fun previous hget hkey => ?_⟩
        injection hkey with hkey
        have hnone := h.apart key.id previous hget
        rw [← hkey, hretired] at hnone
        cases hnone
    · refine .inr ⟨(chunkAt_install_other hid).symm.trans hp, fun previous _ hkey => hid ?_⟩
      injection hkey with hkey
      rw [hkey]

/-- Apart from the new registration and the replaced one nothing changes. -/
theorem regAt_install (h : b.Shape) (hnew : p ≠ .chunk ⟨id, b.nextRegistrationGeneration + 1⟩)
    (hold : ∀ previous, b.chunkRegistry.get id = some previous →
      p ≠ .chunk ⟨id, previous.generation⟩) :
    (b.installChunk id bufId).regAt p = b.regAt p := by
  cases p with
  | heap key => rfl
  | chunk key =>
    by_cases hid : key.id = id
    · subst hid
      refine (chunkAt_install_old fun hgen => hnew ?_).trans ?_
      · rw [← hgen]
      · change _ = b.chunkAt key
        cases hget : b.chunkRegistry.get key.id with
        | none => exact (chunkAt_of_none hget).symm
        | some previous =>
          refine (chunkAt_of_ne hget fun hgen => hold previous hget ?_).symm
          rw [hgen]
    · exact chunkAt_install_other hid

theorem regAt_install_new :
    (b.installChunk id bufId).regAt (.chunk ⟨id, b.nextRegistrationGeneration + 1⟩) =
      some (.new bufId) :=
  chunkAt_install_new

theorem regAt_next (h : b.Shape) :
    b.regAt (.chunk ⟨id, b.nextRegistrationGeneration + 1⟩) = none :=
  chunkAt_next h

theorem held_next (h : b.Shape) :
    (b.installChunk id bufId).held (.chunk ⟨id, b.nextRegistrationGeneration + 1⟩) =
      b.held (.chunk ⟨id, b.nextRegistrationGeneration + 1⟩) := by
  rw [held_of_regAt regAt_install_new, held_of_none (regAt_next h)]
  rfl

/-- The table with a new registration, where there was none. -/
theorem accounted_install_none (h : b.Wf) (hget : b.chunkRegistry.get id = none) (ptr len : Nat) :
    Accounted b [.register bufId ptr len] (b.installChunk id bufId) := by
  refine ⟨fun known hperm => ⟨trivial, ?_⟩, fun x hx => absurd hx List.not_mem_nil, fun p => ?_,
    fun p r' hp => ?_, fun _ => .inl⟩
  · have hchunk := perm_chunkIds_install b id bufId
    rw [hget] at hchunk
    have hchunk : (bufId :: b.chunkIds).Perm (b.installChunk id bufId).chunkIds := by
      simpa using hchunk.symm
    exact (hperm.cons bufId).trans (hchunk.append_right _)
  · by_cases hnew : p = .chunk ⟨id, b.nextRegistrationGeneration + 1⟩
    · rw [hnew]
      exact held_next h.toShape
    · refine congrArg (Option.bind · _) (regAt_install h.toShape hnew fun previous hget' => ?_)
      cases hget.symm.trans hget'
  · rcases regAt_install_cases h.toShape hp with ⟨-, rfl⟩ | ⟨hold, -⟩
    · exact .inr (List.mem_singleton.mpr rfl)
    · exact .inl ⟨r', hold, rfl, fun hret => hret⟩

/-- The table with a new registration in the place of an idle one. -/
theorem accounted_install_idle (h : b.Wf) (hget : b.chunkRegistry.get id = some previous)
    (hidle : previous.registration.activeRefs = 0) (ptr len : Nat) :
    Accounted b [.register bufId ptr len, .deregister previous.registration.id]
      (b.installChunk id bufId) := by
  have hat : b.regAt (.chunk ⟨id, previous.generation⟩) = some previous.registration :=
    chunkAt_current ⟨id, _⟩ previous hget rfl
  refine ⟨fun known hperm => ?_, fun x hx => ?_, fun p => ?_, fun p r' hp => ?_, fun _ => .inl⟩
  · refine deregister_all [previous.registration.id] ?_
    have hchunk := perm_chunkIds_install b id bufId
    rw [hget] at hchunk
    refine (hperm.cons bufId).trans ?_
    change ((bufId :: b.chunkIds) ++ _).Perm ((_ :: (b.installChunk id bufId).chunkIds) ++ _)
    exact (hchunk.symm.trans (List.perm_append_singleton ..)).append_right _
  · rw [List.mem_singleton.mp hx]
    exact not_held_of_idle h hat hidle
  · by_cases hnew : p = .chunk ⟨id, b.nextRegistrationGeneration + 1⟩
    · rw [hnew]
      exact held_next h.toShape
    · by_cases hold : p = .chunk ⟨id, previous.generation⟩
      · have hnone : (b.installChunk id bufId).regAt p = none := by
          cases hp : (b.installChunk id bufId).regAt p with
          | none => rfl
          | some r =>
            rcases regAt_install_cases h.toShape hp with ⟨heq, -⟩ | ⟨-, hne⟩
            · exact absurd heq hnew
            · exact absurd hold (hne previous hget)
        rw [held_of_none hnone, hold, held_of_regAt hat, if_pos hidle]
      · refine congrArg (Option.bind · _) (regAt_install h.toShape hnew fun previous' hget' => ?_)
        cases hget.symm.trans hget'
        exact hold
  · rcases regAt_install_cases h.toShape hp with ⟨-, rfl⟩ | ⟨hold, -⟩
    · exact .inr (List.mem_cons_self ..)
    · exact .inl ⟨r', hold, rfl, fun hret => hret⟩

/-- A registration goes to the map of the retired ones. -/
theorem regAt_retire_self (hne : ∀ entry, b.chunkRegistry.get key.id = some entry →
      entry.generation ≠ key.generation) :
    regAt { b with retiredChunkRegistrations := b.retiredChunkRegistrations.insert key r }
      (.chunk key) = some r := by
  cases hget : b.chunkRegistry.get key.id with
  | none =>
    simp only [regAt, chunkAt, hget, Option.filter_none, Assoc.get_insert_self]
  | some entry =>
    simp only [regAt, chunkAt, hget, Option.filter_some, decide_eq_false (hne entry hget),
      Bool.false_eq_true, if_false, Assoc.get_insert_self]

theorem regAt_retire_ne (hne : p ≠ .chunk key) :
    regAt { b with retiredChunkRegistrations := b.retiredChunkRegistrations.insert key r } p =
      b.regAt p := by
  cases p with
  | heap _ => rfl
  | chunk other =>
    have hother : (b.retiredChunkRegistrations.insert key r).get other =
        b.retiredChunkRegistrations.get other :=
      Assoc.get_insert_ne fun heq => hne (by rw [heq])
    unfold regAt chunkAt
    dsimp only
    rw [hother]

/-- The table with a new registration in the place of one with leases, which is kept as
a retired one. -/
theorem retired_install (bufId : BufferId) (h : b.Wf)
    (hget : b.chunkRegistry.get id = some previous)
    (hbusy : previous.registration.activeRefs ≠ 0) (ptr len : Nat) (hb' : b' =
      { b.installChunk id bufId with
        retiredChunkRegistrations := b.retiredChunkRegistrations.insert ⟨id, previous.generation⟩
          { previous.registration with retired := true } }) :
    b'.Shape ∧ Accounted b [.register bufId ptr len] b' ∧
      b'.regAt (.chunk ⟨id, previous.generation⟩) =
        some { previous.registration with retired := true } := by
  have hle := h.current_le id previous hget
  have hshape : (b.installChunk id bufId).Shape := shape_install h.toShape
  have hat : b.regAt (.chunk ⟨id, previous.generation⟩) = some previous.registration :=
    chunkAt_current ⟨id, _⟩ previous hget rfl
  have hself : b'.regAt (.chunk ⟨id, previous.generation⟩) =
      some { previous.registration with retired := true } := by
    subst hb'
    refine regAt_retire_self (b := b.installChunk id bufId) fun entry hentry => ?_
    rcases get_install_cases hentry with ⟨-, rfl⟩ | ⟨hne, -⟩
    · exact fun heq => Nat.not_succ_le_self _ (heq.trans_le hle)
    · exact absurd rfl hne
  have hothers : ∀ p, p ≠ .chunk ⟨id, previous.generation⟩ →
      b'.regAt p = (b.installChunk id bufId).regAt p := by
    intro p hp
    subst hb'
    exact regAt_retire_ne (b := b.installChunk id bufId) hp
  have hretired : ∀ key r, b'.retiredChunkRegistrations.get key = some r →
      key = ⟨id, previous.generation⟩ ∧ r = { previous.registration with retired := true } ∨
        key ≠ ⟨id, previous.generation⟩ ∧ b.retiredChunkRegistrations.get key = some r := by
    intro key r hkey
    subst hb'
    by_cases heq : key = ⟨id, previous.generation⟩
    · subst heq
      exact .inl ⟨rfl, (Option.some.inj (Assoc.get_insert_self.symm.trans hkey)).symm⟩
    · exact .inr ⟨heq, (Assoc.get_insert_ne heq).symm.trans hkey⟩
  refine ⟨⟨?_, ?_, ?_, ?_, ?_, ?_⟩, ⟨?_, ?_, ?_, ?_, ?_⟩, hself⟩
  · subst hb'
    exact hshape.current_le
  · intro key r hkey
    have hnext : b'.nextRegistrationGeneration = b.nextRegistrationGeneration + 1 := by
      subst hb'
      rfl
    rw [hnext]
    rcases hretired key r hkey with ⟨rfl, -⟩ | ⟨-, hkey⟩
    · exact Nat.le_succ_of_le hle
    · exact Nat.le_succ_of_le (h.retired_le key r hkey)
  · intro other entry hentry
    have hentry : (b.installChunk id bufId).chunkRegistry.get other = some entry := by
      subst hb'
      exact hentry
    cases hr : b'.retiredChunkRegistrations.get ⟨other, entry.generation⟩ with
    | none => rfl
    | some r =>
      exfalso
      rcases hretired _ r hr with ⟨hkey, -⟩ | ⟨-, hkey⟩
      · injection hkey with hid hgen
        rcases get_install_cases hentry with ⟨-, rfl⟩ | ⟨hne, -⟩
        · exact Nat.not_succ_le_self _ (hgen.trans_le hle)
        · exact hne hid
      · have hnone := hshape.apart other entry hentry
        exact Option.some_ne_none r (hkey.symm.trans hnone)
  · subst hb'
    exact hshape.current_live
  · intro key r hkey
    rcases hretired key r hkey with ⟨-, rfl⟩ | ⟨-, hkey⟩
    · exact ⟨rfl, Nat.pos_of_ne_zero hbusy⟩
    · exact h.retired_busy key r hkey
  · subst hb'
    exact h.heap_busy
  · intro known hperm
    refine ⟨trivial, (hperm.cons bufId).trans ?_⟩
    have hchunk := perm_chunkIds_install b id bufId
    rw [hget] at hchunk
    have hinsert := (b.retiredChunkRegistrations.perm_insert ⟨id, previous.generation⟩
      { previous.registration with retired := true }).map fun e => e.2.id
    rw [h.apart id previous hget] at hinsert
    have hinsert : b'.retiredIds.Perm (previous.registration.id :: b.retiredIds) := by
      subst hb'
      simpa [retiredIds] using hinsert
    have hids : b'.ids = (b.installChunk id bufId).chunkIds ++ (b'.retiredIds ++
        (b.heapIds ++ (b.pendingDeregistrations ++ b.addrIds))) := by
      subst hb'
      rfl
    rw [hids]
    refine List.Perm.trans ?_ ((hinsert.symm.append_right _).append_left _)
    change ((bufId :: b.chunkIds) ++ _).Perm _
    refine (hchunk.symm.append_right _).trans ?_
    rw [List.append_assoc]
    rfl
  · exact fun x hx => absurd hx List.not_mem_nil
  · intro p
    by_cases hold : p = .chunk ⟨id, previous.generation⟩
    · rw [hold, held_of_regAt hself, held_of_regAt hat]
    · rw [held, hothers p hold]
      by_cases hnew : p = .chunk ⟨id, b.nextRegistrationGeneration + 1⟩
      · rw [hnew]
        exact held_next h.toShape
      · refine congrArg (Option.bind · _) (regAt_install h.toShape hnew fun previous' hget' => ?_)
        cases hget.symm.trans hget'
        exact hold
  · intro p r' hp
    by_cases hold : p = .chunk ⟨id, previous.generation⟩
    · subst hold
      cases hself.symm.trans hp
      exact .inl ⟨_, hat, rfl, fun _ => rfl⟩
    · rw [hothers p hold] at hp
      rcases regAt_install_cases h.toShape hp with ⟨-, rfl⟩ | ⟨hat', -⟩
      · exact .inr (List.mem_singleton.mpr rfl)
      · exact .inl ⟨r', hat', rfl, fun hret => hret⟩
  · subst hb'
    exact fun _ => .inl

/-- What is left of a superseded registration is marked as retired. -/
def Marked (b' : Buffers) (calls : List KernelCall) (id : BufferId) : Prop :=
  ∀ p r', b'.regAt p = some r' → r'.id = id → r'.retired = true ∨ id ∈ newlyRegistered calls

theorem marked_install (h : b.Wf) (hget : b.chunkRegistry.get id = some previous) (ptr len : Nat)
    (hp : (b.installChunk id bufId).regAt p = some r') (hid : r'.id = previous.registration.id) :
    previous.registration.id ∈ newlyRegistered [.register bufId ptr len] := by
  rcases regAt_install_cases h.toShape hp with ⟨-, rfl⟩ | ⟨hat', hne⟩
  · exact List.mem_singleton.mpr hid.symm
  · have hat : b.regAt (.chunk ⟨id, previous.generation⟩) = some previous.registration :=
      chunkAt_current ⟨id, _⟩ previous hget rfl
    exact absurd (place_eq h.toShape h.nodup hat' hat hid) (hne previous hget)

theorem registerChunk_spec (h : b.Wf) (id : Nat) (mem : ChunkInfo) (env : BufferEnv) :
    (b.registerChunk id mem env).2.1.Shape ∧
      Accounted b (b.registerChunk id mem env).2.2 (b.registerChunk id mem env).2.1 ∧
      ((b.registerChunk id mem env).1 = .ok () →
        ∀ previous, b.chunkRegistry.get id = some previous →
          Marked (b.registerChunk id mem env).2.1 (b.registerChunk id mem env).2.2
            previous.registration.id) := by
  unfold registerChunk
  split
  · exact ⟨h.toShape, .refl b, fun hok => by cases hok⟩
  · split
    · exact ⟨⟨h.current_le, h.retired_le, h.apart, h.current_live, h.retired_busy, h.heap_busy⟩,
        .of_same (fun _ hperm => ⟨trivial, hperm⟩) (fun _ hx => absurd hx List.not_mem_nil)
          (fun _ => rfl) rfl, fun hok => by cases hok⟩
    · rename_i bufId hbufId
      split
      · rename_i hget
        refine ⟨shape_install h.toShape, accounted_install_none h hget _ _,
          fun _ previous hget' => ?_⟩
        cases hget.symm.trans hget'
      · rename_i previous hget
        have hat : b.regAt (.chunk ⟨id, previous.generation⟩) = some previous.registration :=
          chunkAt_current ⟨id, _⟩ previous hget rfl
        have hpos := h.pos _ (mem_ids h.toShape hat)
        unfold retireChunkRegistration
        by_cases hidle : previous.registration.activeRefs = 0
        · rw [if_pos hidle, deregisterBuffer, if_neg hpos]
          refine ⟨shape_install h.toShape, accounted_install_idle h hget hidle _ _, ?_⟩
          intro _ previous' hget' p r' hp hid
          cases hget.symm.trans hget'
          exact .inr (List.mem_cons.mpr (.inl (List.mem_singleton.mp
            (marked_install h hget 0 0 hp hid))))
        · rw [if_neg hidle]
          obtain ⟨hshape, hacc, hself⟩ :=
            retired_install bufId h hget hidle mem.ptr (mem.len % 2 ^ 32) rfl
          refine ⟨hshape, hacc, ?_⟩
          intro _ previous' hget' p r' hp hid
          cases hget.symm.trans hget'
          by_cases hold : p = .chunk ⟨id, previous.generation⟩
          · subst hold
            cases hself.symm.trans hp
            exact .inl rfl
          · have hp := (regAt_retire_ne (b := b.installChunk id bufId) hold).symm.trans hp
            exact .inr (marked_install h hget _ _ hp hid)

/-! ## Resolving a buffer -/

/-- The heap cache after an eviction. -/
theorem get_evict (b : Buffers) (k : HeapBufferKey) :
    b.evictHeapCache.1.heapRioBufs.get k = ((b.heapRioBufs.get k).filter fun r =>
      !decide (r.activeRefs = 0)).map fun r => { r with retired := true } := by
  unfold evictHeapCache
  dsimp only
  rw [Assoc.get_mapValues, Assoc.get_filter]

/-- The heap registrations that an eviction gives up. -/
def idleHeapIds (b : Buffers) : List BufferId :=
  (b.heapRioBufs.entries.filter fun e => decide (e.2.activeRefs = 0)).map fun e => e.2.id

theorem perm_heapIds_evict (b : Buffers) :
    b.heapIds.Perm (b.idleHeapIds ++ b.evictHeapCache.1.heapIds) := by
  have hbusy : b.evictHeapCache.1.heapIds = (b.heapRioBufs.entries.filter fun e =>
      !decide (e.2.activeRefs = 0)).map fun e => e.2.id :=
    Assoc.map_entries_mapValues (m := b.heapRioBufs.filter _)
      (fun _ entry => { entry with retired := true })
      (fun e : HeapBufferKey × BufferRegistration => e.2.id) fun _ _ _ => rfl
  rw [hbusy, idleHeapIds, ← List.map_append]
  exact (List.filter_append_perm (fun e : HeapBufferKey × BufferRegistration =>
    decide (e.2.activeRefs = 0)) _).symm.map _

theorem evict_calls (h : b.Wf) : b.evictHeapCache.2 = b.idleHeapIds.map .deregister := by
  refine deregisterBuffers_eq _ fun x hx => h.pos x ?_
  refine List.mem_append_right _ (List.mem_append_right _ (List.mem_append_left _ ?_))
  exact (perm_heapIds_evict b).mem_iff.mpr (List.mem_append_left _ hx)

theorem evict_spec (h : b.Wf) : b.evictHeapCache.1.Shape ∧
    Accounted b b.evictHeapCache.2 b.evictHeapCache.1 ∧
    ∀ k r, b.evictHeapCache.1.heapRioBufs.get k = some r → r.retired = true := by
  have hfound : ∀ k r', b.evictHeapCache.1.heapRioBufs.get k = some r' →
      ∃ r, b.heapRioBufs.get k = some r ∧ r.activeRefs ≠ 0 ∧ { r with retired := true } = r' := by
    intro k r' hget
    rw [get_evict, Option.map_eq_some_iff] at hget
    obtain ⟨r, hr, heq⟩ := hget
    obtain ⟨hr, hbusy⟩ := Option.filter_eq_some_iff.mp hr
    exact ⟨r, hr, by simpa using hbusy, heq⟩
  have hperm := perm_heapIds_evict b
  have hcalls := evict_calls h
  refine ⟨⟨h.current_le, h.retired_le, h.apart, h.current_live, h.retired_busy, ?_⟩,
    ⟨?_, ?_, ?_, ?_, fun _ => .inl⟩, ?_⟩
  · intro k r' hget _
    obtain ⟨r, -, hbusy, rfl⟩ := hfound k r' hget
    exact Nat.pos_of_ne_zero hbusy
  · intro known hknown
    rw [hcalls]
    refine deregister_all _ (hknown.trans ?_)
    have hmove := ((hperm.append_right (b.pendingDeregistrations ++ b.addrIds)).append_left
      b.retiredIds).append_left b.chunkIds
    refine hmove.trans (List.perm_iff_count.mpr fun x => ?_)
    simp only [ids, List.count_append]
    have hsame : b.evictHeapCache.1.chunkIds = b.chunkIds ∧
        b.evictHeapCache.1.retiredIds = b.retiredIds ∧
        b.evictHeapCache.1.pendingDeregistrations = b.pendingDeregistrations ∧
        b.evictHeapCache.1.addrIds = b.addrIds := ⟨rfl, rfl, rfl, rfl⟩
    rw [hsame.1, hsame.2.1, hsame.2.2.1, hsame.2.2.2]
    omega
  · intro x hx
    rw [hcalls, deregistered_map] at hx
    obtain ⟨e, he, rfl⟩ := List.mem_map.mp hx
    obtain ⟨he, hidle⟩ := List.mem_filter.mp he
    exact not_held_of_idle (p := .heap e.1) h (Assoc.get_eq_some_iff.mpr he) (by simpa using hidle)
  · intro p
    cases p with
    | chunk key => rfl
    | heap k =>
      change (b.evictHeapCache.1.heapRioBufs.get k).bind _ = (b.heapRioBufs.get k).bind _
      rw [get_evict]
      cases b.heapRioBufs.get k with
      | none => rfl
      | some r =>
        by_cases hrefs : r.activeRefs = 0
        · simp [Option.filter_some, hrefs]
        · simp [Option.filter_some, hrefs]
  · intro p r' hp
    cases p with
    | chunk key => exact .inl ⟨r', hp, rfl, fun hret => hret⟩
    | heap k =>
      obtain ⟨r, hr, -, rfl⟩ := hfound k r' hp
      exact .inl ⟨r, hr, rfl, fun _ => rfl⟩
  · intro k r' hget
    obtain ⟨r, -, -, rfl⟩ := hfound k r' hget
    rfl

/-- An operation moves registrations about and touches no lease. -/
structure Moved (b : Buffers) (calls : List KernelCall) (b' : Buffers) : Prop where
  shape : b'.Shape
  accounted : Accounted b calls b'

/-- The part of the registry that records failures does not matter. -/
theorem Moved.of_eq (h : b.Wf) (hchunk : b'.chunkRegistry = b.chunkRegistry)
    (hretired : b'.retiredChunkRegistrations = b.retiredChunkRegistrations)
    (hheap : b'.heapRioBufs = b.heapRioBufs) (haddr : b'.addrBufferId = b.addrBufferId)
    (hpending : b'.pendingDeregistrations = b.pendingDeregistrations)
    (hnext : b'.nextRegistrationGeneration = b.nextRegistrationGeneration) : Moved b [] b' := by
  obtain ⟨chunk, retired, addr, heap, pending, chunkFailures, heapFailures, next⟩ := b'
  dsimp only at hchunk hretired hheap haddr hpending hnext
  subst hchunk hretired hheap haddr hpending hnext
  exact ⟨⟨h.current_le, h.retired_le, h.apart, h.current_live, h.retired_busy, h.heap_busy⟩,
    .of_same (fun _ hperm => ⟨trivial, hperm⟩) (fun _ hx => absurd hx List.not_mem_nil)
      (fun _ => rfl) rfl⟩

/-- A heap buffer gets a registration. -/
theorem insertHeap_spec (h : b.Wf) {k : HeapBufferKey} (hget : b.heapRioBufs.get k = none)
    (failures : Assoc HeapBufferKey Nat) (ptr len : Nat) (hb' : b' = { b with
      heapRioBufs := b.heapRioBufs.insert k (.new bufId)
      heapRegisterFailuresRecent := failures }) :
    Moved b [.register bufId ptr len] b' := by
  have hothers : ∀ p, p ≠ .heap k → b'.regAt p = b.regAt p := by
    intro p hp
    subst hb'
    cases p with
    | chunk key => rfl
    | heap k' => exact Assoc.get_insert_ne fun heq => hp (by rw [heq])
  have hself : b'.regAt (.heap k) = some (.new bufId) := by
    subst hb'
    exact Assoc.get_insert_self
  have hnone : b.regAt (.heap k) = none := hget
  refine ⟨?_, ?_, fun x hx => absurd hx List.not_mem_nil, fun p => ?_, fun p r' hp => ?_,
    fun _ hx => ?_⟩
  · have hheap : ∀ k' r, b'.heapRioBufs.get k' = some r →
        k' = k ∧ r = .new bufId ∨ b.heapRioBufs.get k' = some r := by
      intro k' r hget'
      by_cases hk : k' = k
      · subst hk
        exact .inl ⟨rfl, (Option.some.inj (hself.symm.trans hget')).symm⟩
      · exact .inr ((hothers (.heap k') fun heq => hk (Place.heap.inj heq)).symm.trans hget')
    subst hb'
    refine ⟨h.current_le, h.retired_le, h.apart, h.current_live, h.retired_busy, ?_⟩
    intro k' r hget' hret
    rcases hheap k' r hget' with ⟨-, rfl⟩ | hget'
    · cases hret
    · exact h.heap_busy k' r hget' hret
  · intro known hperm
    have hinsert := (b.heapRioBufs.perm_insert k (.new bufId)).map fun e => e.2.id
    rw [hget] at hinsert
    have hinsert : (bufId :: b.heapIds).Perm b'.heapIds := by
      subst hb'
      simpa [heapIds, BufferRegistration.new] using hinsert.symm
    refine ⟨trivial, (hperm.cons bufId).trans ?_⟩
    have hids : b'.ids = b.chunkIds ++ (b.retiredIds ++ (b'.heapIds ++
        (b.pendingDeregistrations ++ b.addrIds))) := by
      subst hb'
      rfl
    rw [hids]
    refine List.Perm.trans ?_ (((hinsert.append_right _).append_left _).append_left _)
    refine List.perm_iff_count.mpr fun x => ?_
    simp only [ids, List.count_append, List.count_cons]
    omega
  · by_cases hp : p = .heap k
    · rw [hp, held_of_regAt hself, held_of_none hnone]
      rfl
    · exact congrArg (Option.bind · _) (hothers p hp)
  · by_cases hp' : p = .heap k
    · subst hp'
      cases hself.symm.trans hp
      exact .inr (List.mem_singleton.mpr rfl)
    · exact .inl ⟨r', (hothers p hp').symm.trans hp, rfl, fun hret => hret⟩
  · subst hb'
    exact .inl hx

/-- The cache is thinned out where it has to be before something is put into it. -/
def evicts (b : Buffers) : Prop := heapRegistrationCacheLimit ≤ b.heapRioBufs.size

instance (b : Buffers) : Decidable b.evicts := inferInstanceAs (Decidable (_ ≤ _))

theorem retireHeapCacheForInsert_eq (b : Buffers) :
    b.retireHeapCacheForInsert = if b.evicts then b.evictHeapCache else (b, []) := by
  by_cases hlimit : b.evicts
  · rw [if_pos hlimit]
    exact if_neg (Nat.not_lt_of_le hlimit)
  · rw [if_neg hlimit]
    exact if_pos (Nat.lt_of_not_le hlimit)

theorem retireHeapCache_moved (h : b.Wf) :
    Moved b b.retireHeapCacheForInsert.2 b.retireHeapCacheForInsert.1 := by
  rw [retireHeapCacheForInsert_eq]
  split
  · exact ⟨(evict_spec h).1, (evict_spec h).2.1⟩
  · exact ⟨h.toShape, .refl b⟩

/-- What is not in the cache is not there after an eviction. -/
theorem get_retireHeapCache {k : HeapBufferKey} (hget : b.heapRioBufs.get k = none) :
    b.retireHeapCacheForInsert.1.heapRioBufs.get k = none := by
  rw [retireHeapCacheForInsert_eq]
  split
  · rw [get_evict, hget]
    rfl
  · exact hget

theorem Moved.trans {b'' : Buffers} {calls' : List KernelCall} (h : Moved b calls b')
    (h' : Moved b' calls' b'') : Moved b (calls ++ calls') b'' :=
  ⟨h'.shape, h.accounted.trans h'.accounted⟩

/-- Ids stay apart even while a kernel call is on its way; the call itself may fail. -/
theorem registerHeapRaw_moved (h : b.Wf) {k : HeapBufferKey} (hget : b.heapRioBufs.get k = none)
    (env : BufferEnv) :
    Moved b (b.registerHeapRaw k env).2.2 (b.registerHeapRaw k env).2.1 := by
  unfold registerHeapRaw
  split
  · exact .of_eq h rfl rfl rfl rfl rfl rfl
  · exact insertHeap_spec h hget _ _ _ rfl

theorem retireHeapCache_wf (h : b.Wf) : b.retireHeapCacheForInsert.1.Wf := by
  have hmoved := retireHeapCache_moved h
  refine h.after (List.Perm.refl _) ?_ hmoved.shape hmoved.accounted
  rw [retireHeapCacheForInsert_eq]
  split
  · rw [evict_calls h]
    exact freshIds_deregister ..
  · trivial

/-- A lease names a registration that is there. -/
def Offers (b : Buffers) (lease : BufferLeaseToken) : Prop :=
  ∃ r, b.regAt lease.place = some r ∧ r.id = lease.id

/-- The outcome of resolving: an id with a lease on its registration, or an error. -/
def ResolvesTo (b : Buffers) (offset : Nat) : RioResult Resolved → Prop
  | .error _ => True
  | .ok (id, offset', lease) =>
      offset' = offset ∧ ∃ token, lease = some token ∧ token.id = id ∧ Offers b token

theorem resolveHeapId_spec (h : b.Wf) (k : HeapBufferKey) (offset : Nat) (env : BufferEnv) :
    Moved b (b.resolveHeapId k offset env).2.2 (b.resolveHeapId k offset env).2.1 ∧
      ResolvesTo (b.resolveHeapId k offset env).2.1 offset (b.resolveHeapId k offset env).1 := by
  unfold resolveHeapId
  split
  · rename_i entry hget
    exact ⟨⟨h.toShape, .refl b⟩, rfl, _, rfl, rfl, entry, hget, rfl⟩
  · rename_i hget
    split
    · exact ⟨⟨h.toShape, .refl b⟩, trivial⟩
    · have hmoved := (retireHeapCache_moved h).trans
        (registerHeapRaw_moved (retireHeapCache_wf h) (get_retireHeapCache hget) env)
      dsimp only
      split
      · rename_i e b'' calls' hraw
        rw [hraw] at hmoved
        exact ⟨hmoved, trivial⟩
      · rename_i id b'' calls' hraw
        rw [hraw] at hmoved
        refine ⟨hmoved, rfl, _, rfl, rfl, .new id, ?_, rfl⟩
        unfold registerHeapRaw at hraw
        split at hraw
        · cases hraw
        · cases hraw
          exact Assoc.get_insert_self

theorem currentChunkLease_offers {id : Nat} {lease : ChunkLeaseToken}
    (hlease : b.currentChunkLease id = some lease) : Offers b (.chunk lease) := by
  obtain ⟨entry, hget, rfl⟩ := Option.map_eq_some_iff.mp hlease
  exact ⟨entry.registration, chunkAt_current ⟨id, _⟩ entry hget rfl, rfl⟩

theorem resolveChunkLease_spec (b : Buffers) (info : RegionInfo) :
    ResolvesTo b info.offset (b.resolveChunkLease info) := by
  unfold resolveChunkLease
  split
  · rename_i lease hlease
    exact ⟨rfl, _, rfl, rfl, currentChunkLease_offers hlease⟩
  · trivial

theorem resolveBufferId_spec (h : b.Wf) (buf : FixedBuf) (info : RegionInfo) (env : BufferEnv) :
    Moved b (b.resolveBufferId buf info env).2.2 (b.resolveBufferId buf info env).2.1 ∧
      ResolvesTo (b.resolveBufferId buf info env).2.1 info.offset
        (b.resolveBufferId buf info env).1 := by
  unfold resolveBufferId
  split
  · exact resolveHeapId_spec h _ _ env
  · split
    · rename_i mem _ _
      have hspec := registerChunk_spec h info.id mem env
      split
      · rename_i e b' calls hreg
        rw [hreg] at hspec
        exact ⟨⟨hspec.1, hspec.2.1⟩, trivial⟩
      · rename_i b' calls hreg
        rw [hreg] at hspec
        exact ⟨⟨hspec.1, hspec.2.1⟩, resolveChunkLease_spec b' info⟩
    · exact ⟨⟨h.toShape, .refl b⟩, resolveChunkLease_spec b info⟩

/-! ## What an eviction leaves behind -/

/-- A resolution goes through the cache because the buffer is not in it. -/
def evictsFor (b : Buffers) (buf : FixedBuf) (info : RegionInfo) (env : BufferEnv) : Prop :=
  info.poolKind = .heap ∧ b.heapRioBufs.get (heapKey buf info) = none ∧
    failedRecently (b.heapRegisterFailuresRecent.get (heapKey buf info)) env.now = false ∧ b.evicts

instance (b : Buffers) (buf : FixedBuf) (info : RegionInfo) (env : BufferEnv) :
    Decidable (b.evictsFor buf info env) :=
  inferInstanceAs (Decidable (_ ∧ _ ∧ _ ∧ _))

theorem marked_evict (h : b.Wf) {buf : FixedBuf} {info : RegionInfo}
    (hevicts : b.evictsFor buf info env) {x : BufferId} (hx : x ∈ b.heapIds) :
    Marked (b.resolveBufferId buf info env).2.1 (b.resolveBufferId buf info env).2.2 x := by
  obtain ⟨hkind, hget, hrecent, hfull⟩ := hevicts
  obtain ⟨⟨k₀, r₀⟩, hmem, rfl⟩ := List.mem_map.mp hx
  have hplace : b.regAt (.heap k₀) = some r₀ := Assoc.get_eq_some_iff.mpr hmem
  have hretire : b.retireHeapCacheForInsert = b.evictHeapCache := by
    rw [retireHeapCacheForInsert_eq, if_pos hfull]
  have hchunk : ∀ key r', b.regAt (.chunk key) = some r' → r'.id = r₀.id → False := by
    intro key r' hp hid
    cases place_eq h.toShape h.nodup hp hplace hid
  have hevicted : ∀ k r', b.evictHeapCache.1.heapRioBufs.get k = some r' → r'.retired = true :=
    (evict_spec h).2.2
  unfold resolveBufferId
  rw [hkind]
  dsimp only
  unfold resolveHeapId
  rw [hget]
  dsimp only
  rw [hrecent, if_neg Bool.false_ne_true, hretire]
  unfold registerHeapRaw
  cases env.registerBuffer with
  | none =>
    intro p r' hp hid
    cases p with
    | chunk key => exact (hchunk key r' hp hid).elim
    | heap k => exact .inl (hevicted k r' hp)
  | some bufId =>
    intro p r' hp hid
    cases p with
    | chunk key => exact (hchunk key r' hp hid).elim
    | heap k =>
      by_cases hk : k = heapKey buf info
      · subst hk
        cases Assoc.get_insert_self.symm.trans hp
        refine .inr ?_
        rw [newlyRegistered, List.filterMap_append, ← hid]
        exact List.mem_append_right _ (List.mem_singleton.mpr rfl)
      · exact .inl (hevicted k r' ((Assoc.get_insert_ne hk).symm.trans hp))

/-! ## The address buffer and the deferred list -/

theorem ensureAddr_moved (h : b.Wf) (mem : ChunkInfo) (answer : Option BufferId)
    {known : List BufferId}
    (hfresh : FreshIds known (b.ensureAddrBufferRegistered mem answer).2.2) :
    Moved b (b.ensureAddrBufferRegistered mem answer).2.2
      (b.ensureAddrBufferRegistered mem answer).2.1 := by
  revert hfresh
  unfold ensureAddrBufferRegistered
  split
  · exact fun _ => ⟨h.toShape, .refl b⟩
  · rename_i hnone
    have hnone : b.addrBufferId = 0 := not_not.mp hnone
    split
    · exact fun _ => ⟨h.toShape, .refl b⟩
    · split
      · exact fun _ => ⟨h.toShape, .refl b⟩
      · rename_i id
        intro hfresh
        have hpos : id ≠ 0 := hfresh.1
        have hold : b.addrIds = [] := if_pos hnone
        have hnew : addrIds { b with addrBufferId := id } = [id] := if_neg hpos
        refine ⟨⟨h.current_le, h.retired_le, h.apart, h.current_live, h.retired_busy, h.heap_busy⟩,
          fun known hperm => ⟨trivial, (hperm.cons id).trans ?_⟩,
          fun x hx => absurd hx List.not_mem_nil, fun _ => rfl,
          fun p r' hp => .inl ⟨r', hp, rfl, fun hret => hret⟩, fun x hx => ?_⟩
        · refine List.perm_iff_count.mpr fun x => ?_
          simp only [ids, List.count_append, List.count_cons, hold, hnew, chunkIds, retiredIds,
            heapIds, List.count_nil]
          omega
        · have hx : x ∈ addrIds { b with addrBufferId := id } := hx
          rw [hnew] at hx
          exact .inr hx

theorem flush_moved (h : b.Wf) : Moved b b.flushDeregs.2 b.flushDeregs.1 := by
  have hcalls : b.flushDeregs.2 = b.pendingDeregistrations.map .deregister := by
    refine deregisterBuffers_eq _ fun x hx => h.pos x ?_
    exact List.mem_append_right _ (List.mem_append_right _ (List.mem_append_right _
      (List.mem_append_left _ hx)))
  refine ⟨⟨h.current_le, h.retired_le, h.apart, h.current_live, h.retired_busy, h.heap_busy⟩,
    .of_same (fun known hperm => ?_) (fun x hx p n hheld => ?_) (fun _ => rfl)
      rfl⟩
  · rw [hcalls]
    refine deregister_all _ (hperm.trans (List.perm_iff_count.mpr fun x => ?_))
    have hsame : b.flushDeregs.1.chunkIds = b.chunkIds ∧ b.flushDeregs.1.retiredIds = b.retiredIds ∧
        b.flushDeregs.1.heapIds = b.heapIds ∧ b.flushDeregs.1.pendingDeregistrations = [] ∧
        b.flushDeregs.1.addrIds = b.addrIds := ⟨rfl, rfl, rfl, rfl, rfl⟩
    simp only [ids, List.count_append]
    rw [hsame.1, hsame.2.1, hsame.2.2.1, hsame.2.2.2.1, hsame.2.2.2.2, List.count_nil]
    omega
  · rw [hcalls, deregistered_map] at hx
    obtain ⟨r, hp, rfl, -, -⟩ := held_eq_some_iff.mp hheld
    exact notMem_pending h.toShape h.nodup hp hx

end Veloq.Rio.Buffers
