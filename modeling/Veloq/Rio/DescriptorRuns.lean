import Veloq.Rio.BuffersRuns
import Veloq.Rio.Descriptor
set_option autoImplicit false

/-!
# RIO: descriptors and the memory that is registered

Runs of the registry beside the memory behind each id of the kernel.  Chunks are
registered with the length that is left of theirs in 32 bits, so that a descriptor can
leave its registration where a chunk has 4 GiB or more.
-/

namespace Veloq.Rio

open Foundation Buffer Buffers

/-- The memory behind the ids after some calls. -/
def memoryAfter (memory : BufferId → Option ChunkInfo) :
    List KernelCall → BufferId → Option ChunkInfo
  | [] => memory
  | .register id ptr len :: calls =>
      memoryAfter (fun x => if x = id then some ⟨ptr, len⟩ else memory x) calls
  | .deregister id :: calls => memoryAfter (fun x => if x = id then none else memory x) calls

/-- The registry, and the memory behind the ids that the kernel knows. -/
structure DescriptorLedger where
  ledger : BufferLedger := {}
  memory : BufferId → Option ChunkInfo := fun _ => none

namespace DescriptorLedger

def next (s : DescriptorLedger) (e : BufferEvent) : DescriptorLedger where
  ledger := s.ledger.next e
  memory := memoryAfter s.memory (BufferLedger.effect s.ledger.buffers e).2

def Step (s : DescriptorLedger) (e : BufferEvent) (s' : DescriptorLedger) : Prop := s.next e = s'

/-- The driver knows no other chunks than there are. -/
def Knows (chunks : Nat → Option ChunkInfo) (env : BufferEnv) : Prop :=
  ∀ id mem, env.resolveChunkInfo id = some mem → chunks id = some mem

/-- A chunk is registered with the memory that it has. -/
def OwnMemory (chunks : Nat → Option ChunkInfo) : BufferEvent → Prop
  | .registerChunk id mem _ => chunks id = some mem
  | .resolve _ _ env => Knows chunks env
  | _ => True

def Allowed (chunks : Nat → Option ChunkInfo) (s : DescriptorLedger) (e : BufferEvent) : Prop :=
  BufferLedger.Allowed s.ledger e ∧ OwnMemory chunks e

/-- The memory that a place is registered with. -/
def memOf (chunks : Nat → Option ChunkInfo) : Place → Option ChunkInfo
  | .chunk key => (chunks key.id).map fun mem => ⟨mem.ptr, mem.len % 2 ^ 32⟩
  | .heap key => some ⟨key.ptr, key.cap % 2 ^ 32⟩

variable {s s' : DescriptorLedger} {chunks : Nat → Option ChunkInfo} {e : BufferEvent}
  {memory : BufferId → Option ChunkInfo} {known : List BufferId} {calls : List KernelCall}
  {b b' : Buffers} {id : BufferId} {env : BufferEnv}

/-! ## The kernel's memory -/

/-- An id that is not called on keeps its memory; another has the memory of one of the
registrations, or none. -/
theorem memoryAfter_cases (memory : BufferId → Option ChunkInfo) (calls : List KernelCall)
    (id : BufferId) :
    memoryAfter memory calls id = memory id ∧ id ∉ newlyRegistered calls ∨
      memoryAfter memory calls id = none ∨
      ∃ ptr len, .register id ptr len ∈ calls ∧ memoryAfter memory calls id = some ⟨ptr, len⟩ := by
  induction calls generalizing memory with
  | nil => exact .inl ⟨rfl, List.not_mem_nil⟩
  | cons call calls ih =>
    cases call with
    | register x ptr len =>
      rcases ih (fun y => if y = x then some ⟨ptr, len⟩ else memory y) with
        ⟨hkept, hnot⟩ | hnone | ⟨ptr', len', hmem, hlast⟩
      · by_cases hid : id = x
        · subst hid
          exact .inr (.inr ⟨ptr, len, List.mem_cons_self, hkept.trans (if_pos rfl)⟩)
        · refine .inl ⟨hkept.trans (if_neg hid), fun hmem => ?_⟩
          exact (List.mem_cons.mp hmem).elim hid hnot
      · exact .inr (.inl hnone)
      · exact .inr (.inr ⟨ptr', len', List.mem_cons_of_mem _ hmem, hlast⟩)
    | deregister x =>
      rcases ih (fun y => if y = x then none else memory y) with
        ⟨hkept, hnot⟩ | hnone | ⟨ptr', len', hmem, hlast⟩
      · by_cases hid : id = x
        · exact .inr (.inl (hkept.trans (if_pos hid)))
        · exact .inl ⟨hkept.trans (if_neg hid), hnot⟩
      · exact .inr (.inl hnone)
      · exact .inr (.inr ⟨ptr', len', List.mem_cons_of_mem _ hmem, hlast⟩)

/-- Every registered id has its memory. -/
theorem memoryAfter_ne_none (hnodup : known.Nodup) (hfresh : FreshIds known calls)
    (hmemory : ∀ x ∈ known, memory x ≠ none) (hid : id ∈ registeredAfter known calls) :
    memoryAfter memory calls id ≠ none := by
  induction calls generalizing known memory with
  | nil => exact hmemory id hid
  | cons call calls ih =>
    cases call with
    | register x ptr len =>
      refine ih (List.nodup_cons.mpr ⟨hfresh.2.1, hnodup⟩) hfresh.2.2 (fun y hy => ?_) hid
      split
      · exact Option.some_ne_none _
      · rename_i hne
        exact hmemory y ((List.mem_cons.mp hy).resolve_left hne)
    | deregister x =>
      refine ih (hnodup.erase x) hfresh (fun y hy => ?_) hid
      rw [if_neg (fun heq => hnodup.not_mem_erase (heq ▸ hy))]
      exact hmemory y (List.mem_of_mem_erase hy)

/-! ## What the operations register -/

/-- The ids that calls register are in the registry, with their memory. -/
def Placed (chunks : Nat → Option ChunkInfo) (b' : Buffers) (calls : List KernelCall) : Prop :=
  ∀ id ptr len, .register id ptr len ∈ calls → id ∈ b'.addrIds ∨
    ∃ p r, b'.regAt p = some r ∧ r.id = id ∧ memOf chunks p = some ⟨ptr, len⟩

theorem Placed.nil : Placed chunks b' [] := fun _ _ _ h => absurd h List.not_mem_nil

theorem Placed.append {calls' : List KernelCall} (h : Placed chunks b' calls)
    (h' : Placed chunks b' calls') : Placed chunks b' (calls ++ calls') := by
  intro id ptr len hmem
  exact (List.mem_append.mp hmem).elim (h id ptr len) (h' id ptr len)

theorem Placed.deregisterBuffers (ids : List BufferId) :
    Placed chunks b' (deregisterBuffers ids) := by
  intro id ptr len hmem
  obtain ⟨x, -, hx⟩ := List.mem_flatMap.mp hmem
  unfold deregisterBuffer at hx
  split at hx
  · cases hx
  · cases List.mem_singleton.mp hx

theorem Placed.single {ptr len : Nat} {p : Place} {r : BufferRegistration}
    (hp : b'.regAt p = some r) (hmem : memOf chunks p = some ⟨ptr, len⟩) :
    Placed chunks b' [.register r.id ptr len] := by
  intro id ptr' len' h
  cases List.mem_singleton.mp h
  exact .inr ⟨p, r, hp, rfl, hmem⟩

theorem retire_chunkRegistry (b : Buffers) (key : ChunkRegistrationKey) (r : BufferRegistration) :
    (b.retireChunkRegistration key r).1.chunkRegistry = b.chunkRegistry := by
  unfold retireChunkRegistration
  split <;> rfl

theorem retire_placed (b : Buffers) (key : ChunkRegistrationKey) (r : BufferRegistration) :
    Placed chunks b' (b.retireChunkRegistration key r).2 := by
  unfold retireChunkRegistration
  split
  · have h : Placed chunks b' (Rio.deregisterBuffers [r.id]) := .deregisterBuffers [r.id]
    rwa [Rio.deregisterBuffers, List.flatMap_cons, List.flatMap_nil, List.append_nil] at h
  · exact .nil

theorem registerChunk_placed {chunk : Nat} {mem : ChunkInfo} (hmem : chunks chunk = some mem) :
    Placed chunks (b.registerChunk chunk mem env).2.1 (b.registerChunk chunk mem env).2.2 := by
  have hplace : ∀ bufId (b' : Buffers),
      b'.chunkRegistry = (b.installChunk chunk bufId).chunkRegistry →
        Placed chunks b' [.register bufId mem.ptr (mem.len % 2 ^ 32)] := by
    intro bufId b' hsame
    have hget : b'.chunkRegistry.get chunk =
        some ⟨b.nextRegistrationGeneration + 1, .new bufId⟩ := by
      rw [hsame]
      exact Assoc.get_insert_self
    refine Placed.single (p := .chunk ⟨chunk, b.nextRegistrationGeneration + 1⟩)
      (r := .new bufId) (chunkAt_current ⟨chunk, _⟩ _ hget rfl) ?_
    change (chunks chunk).map _ = _
    rw [hmem]
    rfl
  unfold registerChunk
  split
  · exact .nil
  · cases env.registerBuffer with
    | none => exact .nil
    | some bufId =>
      dsimp only
      cases b.chunkRegistry.get chunk with
      | none => exact hplace bufId _ rfl
      | some previous =>
        exact (hplace bufId _ (retire_chunkRegistry ..)).append (retire_placed _ _ _)

theorem retireHeapCache_placed (b : Buffers) :
    Placed chunks b' b.retireHeapCacheForInsert.2 := by
  unfold retireHeapCacheForInsert
  split
  · exact .nil
  · exact .deregisterBuffers _

theorem registerHeapRaw_placed (b : Buffers) (key : HeapBufferKey) (env : BufferEnv) :
    Placed chunks (b.registerHeapRaw key env).2.1 (b.registerHeapRaw key env).2.2 := by
  unfold registerHeapRaw
  cases env.registerBuffer with
  | none => exact .nil
  | some id =>
    refine Placed.single (p := .heap key) (r := .new id) ?_ rfl
    exact Assoc.get_insert_self

theorem resolveHeapId_placed (b : Buffers) (key : HeapBufferKey) (offset : Nat) (env : BufferEnv) :
    Placed chunks (b.resolveHeapId key offset env).2.1 (b.resolveHeapId key offset env).2.2 := by
  unfold resolveHeapId
  split
  · exact .nil
  · split
    · exact .nil
    · have hraw : Placed chunks (b.retireHeapCacheForInsert.1.registerHeapRaw key env).2.1
          (b.retireHeapCacheForInsert.1.registerHeapRaw key env).2.2 :=
        registerHeapRaw_placed _ key env
      dsimp only
      split
      · rename_i e b' calls' hresult
        rw [hresult] at hraw
        exact (retireHeapCache_placed b).append hraw
      · rename_i id b' calls' hresult
        rw [hresult] at hraw
        exact (retireHeapCache_placed b).append hraw

theorem resolveBufferId_placed (b : Buffers) (buf : FixedBuf) (info : RegionInfo)
    (hknows : Knows chunks env) : Placed chunks (b.resolveBufferId buf info env).2.1
      (b.resolveBufferId buf info env).2.2 := by
  unfold resolveBufferId
  split
  · exact resolveHeapId_placed b _ _ env
  · split
    · rename_i mem hnone hmem
      have hchunk : Placed chunks (b.registerChunk info.id mem env).2.1
          (b.registerChunk info.id mem env).2.2 := registerChunk_placed (hknows _ _ hmem)
      split
      · rename_i e b' calls hresult
        rw [hresult] at hchunk
        exact hchunk
      · rename_i b' calls hresult
        rw [hresult] at hchunk
        exact hchunk
    · exact .nil

theorem ensureAddr_placed (b : Buffers) (mem : ChunkInfo) (answer : Option BufferId)
    (hfresh : FreshIds known (b.ensureAddrBufferRegistered mem answer).2.2) :
    Placed chunks (b.ensureAddrBufferRegistered mem answer).2.1
      (b.ensureAddrBufferRegistered mem answer).2.2 := by
  unfold ensureAddrBufferRegistered at hfresh ⊢
  split
  · exact .nil
  · split
    · exact .nil
    · rename_i hzero hlen
      rw [if_neg hzero, if_neg hlen] at hfresh
      cases answer with
      | none => exact .nil
      | some id =>
        intro x ptr len hmem
        cases List.mem_singleton.mp hmem
        refine .inl ?_
        change id ∈ if id = 0 then [] else [id]
        rw [if_neg hfresh.1]
        exact List.mem_singleton_self _

/-- Every event puts what it registers into the registry. -/
theorem effect_placed (hfresh : FreshIds known (BufferLedger.effect b e).2)
    (hown : OwnMemory chunks e) :
    Placed chunks (BufferLedger.effect b e).1 (BufferLedger.effect b e).2 := by
  cases e with
  | registerChunk id mem env => exact registerChunk_placed hown
  | resolve buf info env => exact resolveBufferId_placed b buf info hown
  | registerAddr mem answer => exact ensureAddr_placed b mem answer hfresh
  | flush => exact .deregisterBuffers _
  | acquire lease =>
    unfold BufferLedger.effect
    dsimp only
    split
    · exact .nil
    · exact .nil
  | release lease deferred =>
    cases deferred with
    | true =>
      unfold BufferLedger.effect
      dsimp only
      split
      · exact .nil
      · exact .nil
    | false =>
      unfold BufferLedger.effect
      dsimp only
      unfold releaseBufferLease
      cases b.releaseBufferLeaseInner (some lease) with
      | error e => exact .nil
      | ok result => exact .deregisterBuffers _

/-! ## The invariant -/

/-- What the registry has was there before or is new. -/
theorem origin {s : BufferLedger} (h : BufferLedger.Inv s) (hallowed : BufferLedger.Allowed s e)
    {p : Place} {r' : BufferRegistration}
    (hp : (BufferLedger.effect s.buffers e).1.regAt p = some r') :
    (∃ r, s.buffers.regAt p = some r ∧ r.id = r'.id) ∨
      r'.id ∈ newlyRegistered (BufferLedger.effect s.buffers e).2 := by
  have hmoved : ∀ calls b', Moved s.buffers calls b' → b'.regAt p = some r' →
      (∃ r, s.buffers.regAt p = some r ∧ r.id = r'.id) ∨ r'.id ∈ newlyRegistered calls := by
    intro calls b' hmoved hp
    refine (hmoved.accounted.marks p r' hp).imp_left ?_
    rintro ⟨r, hr, hid, -⟩
    exact ⟨r, hr, hid⟩
  have hrefs : ∀ {q : Place} {r₀ r₁ : BufferRegistration} {b' : Buffers},
      s.buffers.regAt q = some r₀ → Updated s.buffers q r₁ b' → r₁.id = r₀.id →
        b'.regAt p = some r' → ∃ r, s.buffers.regAt p = some r ∧ r.id = r'.id := by
    intro q r₀ r₁ b' hq hupd hid hp
    by_cases heq : p = q
    · subst heq
      cases hupd.self.symm.trans hp
      exact ⟨r₀, hq, hid.symm⟩
    · exact ⟨r', (hupd.others p heq).symm.trans hp, rfl⟩
  have hrelease : ∀ {lease : BufferLeaseToken} {id : Option BufferId} {b' : Buffers},
      lease ∈ s.leases → s.buffers.releaseBufferLeaseInner (some lease) = .ok (id, b') →
        b'.regAt p = some r' → ∃ r, s.buffers.regAt p = some r ∧ r.id = r'.id := by
    intro lease id b' hlease hrelease hp
    obtain ⟨r, hq, hid, hne⟩ := h.counted.exists_regAt hlease
    obtain ⟨id', b₁, hrelease₁, hrel⟩ := release_spec h.wf.toShape hq hid hne
    obtain ⟨rfl, rfl⟩ := Prod.mk.inj (Except.ok.inj (hrelease₁.symm.trans hrelease))
    cases hrel with
    | kept _ hupd => exact hrefs hq hupd rfl hp
    | gone _ _ hrem =>
      by_cases heq : p = lease.place
      · subst heq
        cases hrem.self.symm.trans hp
      · exact ⟨r', (hrem.others p heq).symm.trans hp, rfl⟩
  obtain ⟨hfresh, hlease⟩ := hallowed
  cases e with
  | registerChunk id mem env =>
    have hspec := registerChunk_spec h.wf id mem env
    exact hmoved _ _ ⟨hspec.1, hspec.2.1⟩ hp
  | resolve buf info env => exact hmoved _ _ (resolveBufferId_spec h.wf buf info env).1 hp
  | registerAddr mem answer => exact hmoved _ _ (ensureAddr_moved h.wf mem answer hfresh) hp
  | flush => exact hmoved _ _ (flush_moved h.wf) hp
  | acquire lease =>
    unfold BufferLedger.effect at hp
    dsimp only at hp
    cases hacquire : s.buffers.acquireBufferLease (some lease) with
    | error e =>
      rw [hacquire] at hp
      exact .inl ⟨r', hp, rfl⟩
    | ok b' =>
      rw [hacquire] at hp
      obtain ⟨r, hq, -, hupd⟩ := acquire_spec h.wf.toShape hacquire
      exact .inl (hrefs hq hupd rfl hp)
  | release lease deferred =>
    obtain ⟨r, hq, hid, hne⟩ := h.counted.exists_regAt hlease
    obtain ⟨id, b', hinner, -⟩ := release_spec h.wf.toShape hq hid hne
    cases deferred with
    | true =>
      simp only [BufferLedger.effect, releaseBufferLeaseDeferred, hinner, bind, Except.bind, pure,
        Except.pure] at hp
      have hp : b'.regAt p = some r' := by
        cases p with
        | chunk key => exact hp
        | heap key => exact hp
      exact .inl (hrelease hlease hinner hp)
    | false =>
      simp only [BufferLedger.effect, releaseBufferLease, hinner, bind, Except.bind, pure,
        Except.pure] at hp
      exact .inl (hrelease hlease hinner hp)

structure Inv (chunks : Nat → Option ChunkInfo) (s : DescriptorLedger) : Prop where
  ledger : BufferLedger.Inv s.ledger
  known : ∀ id ∈ s.ledger.registered, s.memory id ≠ none
  backed : ∀ p r, s.ledger.buffers.regAt p = some r → s.memory r.id = memOf chunks p

theorem Inv.start : Inv chunks {} where
  ledger := BufferLedger.Inv.start
  known := fun _ h => absurd h List.not_mem_nil
  backed := fun p r h => by cases p <;> cases h

theorem Inv.next (h : Inv chunks s) (hallowed : Allowed chunks s e) : Inv chunks (s.next e) := by
  obtain ⟨hallowed, hown⟩ := hallowed
  have hledger := h.ledger.next hallowed
  have hnodup : s.ledger.registered.Nodup := h.ledger.known.nodup_iff.mpr h.ledger.wf.nodup
  have hknown : ∀ id ∈ (s.next e).ledger.registered, (s.next e).memory id ≠ none :=
    fun id hid => memoryAfter_ne_none hnodup hallowed.1 h.known hid
  refine ⟨hledger, hknown, fun p r' hp => ?_⟩
  have hids := mem_ids hledger.wf.toShape hp
  have hmem := hknown r'.id (hledger.known.mem_iff.mpr hids)
  rcases memoryAfter_cases s.memory (BufferLedger.effect s.ledger.buffers e).2 r'.id with
    ⟨hkept, hnot⟩ | hnone | ⟨ptr, len, hcall, hlast⟩
  · obtain ⟨r, hr, hid⟩ := (origin h.ledger hallowed hp).resolve_right hnot
    refine hkept.trans ?_
    rw [← hid]
    exact h.backed p r hr
  · exact absurd hnone hmem
  · refine hlast.trans ?_
    rcases effect_placed hallowed.1 hown r'.id ptr len hcall with haddr | ⟨q, r, hq, hid, hof⟩
    · -- the id of the address buffer is not that of a registration
      exfalso
      have hnodup' := hledger.wf.nodup
      rw [ids_eq] at hnodup'
      exact (List.nodup_append.mp hnodup').2.2 _ (List.mem_map_of_mem
        ((mem_registrations_iff hledger.wf.toShape).mpr hp)) _
          (List.mem_append_right _ haddr) rfl
    · rw [place_eq hledger.wf.toShape hledger.wf.nodup hp hq hid.symm]
      exact hof.symm

theorem Inv.of_run (h : Run Step (Allowed chunks) (fun s => s = {}) s) : Inv chunks s := by
  refine h.invariant ?_ fun _ _ _ hinv hallowed hs => ?_
  · rintro _ rfl
    exact Inv.start
  · subst hs
    exact hinv.next hallowed

/-! ## Where a buffer is registered -/

/-- The places that a buffer's registration can have. -/
def IsPlaceOf (buf : FixedBuf) (info : RegionInfo) (p : Place) : Prop :=
  match info.poolKind with
  | .heap => p = .heap (heapKey buf info)
  | .slotBased => ∃ generation, p = .chunk ⟨info.id, generation⟩

theorem resolveHeapId_lease {key : HeapBufferKey} {offset : Nat} {base : Nat}
    {lease : Option BufferLeaseToken}
    (h : (b.resolveHeapId key offset env).1 = .ok (id, base, lease)) :
    lease = some (.heap ⟨key, id⟩) := by
  unfold resolveHeapId at h
  split at h
  · cases h
    rfl
  · split at h
    · cases h
    · dsimp only at h
      split at h
      · cases h
      · cases h
        rfl

theorem resolveChunkLease_lease {info : RegionInfo} {base : Nat} {lease : Option BufferLeaseToken}
    (h : b.resolveChunkLease info = .ok (id, base, lease)) :
    ∃ generation, lease = some (.chunk ⟨⟨info.id, generation⟩, id⟩) := by
  unfold resolveChunkLease at h
  split at h
  · rename_i found hfound
    obtain ⟨entry, -, rfl⟩ := Option.map_eq_some_iff.mp hfound
    cases h
    exact ⟨entry.generation, rfl⟩
  · cases h

/-- A resolved buffer has a registration in its place. -/
theorem resolve_place (hwf : b.Wf) {buf : FixedBuf} {info : RegionInfo} {base : Nat}
    {lease : Option BufferLeaseToken}
    (h : b.resolveBufferId buf info env = (.ok (id, base, lease), b', calls)) :
    base = info.offset ∧
      ∃ p r, b'.regAt p = some r ∧ r.id = id ∧ IsPlaceOf buf info p := by
  have hspec := (resolveBufferId_spec hwf buf info env).2
  rw [h] at hspec
  obtain ⟨hbase, token, rfl, hid, r, hp, hrid⟩ := hspec
  refine ⟨hbase, token.place, r, hp, hrid.trans hid, ?_⟩
  unfold IsPlaceOf
  unfold resolveBufferId at h
  cases hkind : info.poolKind with
  | heap =>
    rw [hkind] at h
    cases resolveHeapId_lease (congrArg Prod.fst h)
    rfl
  | slotBased =>
    rw [hkind] at h
    have hlease : ∀ {b₁ : Buffers}, b₁.resolveChunkLease info = .ok (id, base, some token) →
        ∃ generation, token.place = .chunk ⟨info.id, generation⟩ := by
      intro b₁ h
      obtain ⟨generation, heq⟩ := resolveChunkLease_lease h
      cases heq
      exact ⟨generation, rfl⟩
    dsimp only at h ⊢
    split at h
    · split at h
      · cases h
      · exact hlease (congrArg Prod.fst h)
    · exact hlease (congrArg Prod.fst h)

/-- A chunk has no registration and gets none. -/
def Unregistrable (b : Buffers) (chunk : Nat) (env : BufferEnv) : Prop :=
  b.chunkRegistry.get chunk = none ∧ (env.resolveChunkInfo chunk = none ∨
    failedRecently (b.chunkRegisterFailuresRecent.get chunk) env.now = true ∨
      env.registerBuffer = none)

theorem resolveChunkLease_of_some {info : RegionInfo} {entry : ChunkRegistration}
    (h : b.chunkRegistry.get info.id = some entry) :
    ∃ resolved, b.resolveChunkLease info = .ok resolved := by
  unfold resolveChunkLease currentChunkLease
  rw [h]
  exact ⟨_, rfl⟩

theorem resolveChunkLease_of_none {info : RegionInfo}
    (h : b.chunkRegistry.get info.id = none) :
    ∃ e, b.resolveChunkLease info = .error e := by
  unfold resolveChunkLease currentChunkLease
  rw [h]
  exact ⟨_, rfl⟩

/-- A buffer of a pool is resolved unless its chunk has no registration and gets none. -/
theorem resolve_slotBased {buf : FixedBuf} {info : RegionInfo} (hkind : info.poolKind = .slotBased) :
    (∃ resolved, (b.resolveBufferId buf info env).1 = .ok resolved) ↔
      ¬ Unregistrable b info.id env := by
  unfold resolveBufferId
  rw [hkind]
  dsimp only
  cases hget : b.chunkRegistry.get info.id with
  | some entry =>
    have hcurrent : b.currentChunkLease info.id =
        some ⟨⟨info.id, entry.generation⟩, entry.registration.id⟩ := by
      rw [currentChunkLease, hget]
      rfl
    rw [hcurrent]
    refine iff_of_true (resolveChunkLease_of_some hget) fun h => ?_
    cases hget.symm.trans h.1
  | none =>
    have hcurrent : b.currentChunkLease info.id = none := by
      rw [currentChunkLease, hget]
      rfl
    rw [hcurrent]
    cases hinfo : env.resolveChunkInfo info.id with
    | none =>
      obtain ⟨e, he⟩ := resolveChunkLease_of_none hget
      refine iff_of_false ?_ fun h => h ⟨hget, .inl hinfo⟩
      rintro ⟨resolved, hresolved⟩
      cases he.symm.trans hresolved
    | some mem =>
      dsimp only
      by_cases hfailed :
          failedRecently (b.chunkRegisterFailuresRecent.get info.id) env.now = true
      · have hreg : b.registerChunk info.id mem env = (.error ⟨.resourceExhaustion,
            "RIO chunk registration skipped due to recent failure"⟩, b, []) := if_pos hfailed
        rw [hreg]
        refine iff_of_false ?_ fun h => h ⟨hget, .inr (.inl hfailed)⟩
        rintro ⟨resolved, hresolved⟩
        cases hresolved
      · cases hanswer : env.registerBuffer with
        | none =>
          simp only [registerChunk, if_neg hfailed, hanswer]
          refine iff_of_false ?_ fun h => h ⟨hget, .inr (.inr hanswer)⟩
          rintro ⟨resolved, hresolved⟩
          cases hresolved
        | some bufId =>
          simp only [registerChunk, if_neg hfailed, hanswer, hget]
          refine iff_of_true (resolveChunkLease_of_some (Assoc.get_insert_self ..)) ?_
          rintro ⟨-, hnone | hfailed' | hnone⟩
          · cases hinfo.symm.trans hnone
          · exact hfailed hfailed'
          · cases hanswer.symm.trans hnone

/-! ## Descriptors -/

/-- A buffer lies in the chunk of its context word, or behind the header of its heap
allocation. -/
def InRegion (chunks : Nat → Option ChunkInfo) (buf : FixedBuf) : Prop :=
  match buf.context.poolKind with
  | .heap => buf.ptr = buf.poolData + 4096
  | .slotBased => ∃ mem, chunks buf.context.chunkId = some mem ∧ mem.ptr ≤ buf.ptr ∧
      buf.ptr + buf.cap ≤ mem.ptr + mem.len

/-- A descriptor lies in the memory behind its id and stands for the bytes of the buffer
from the offset to the end. -/
def Denotes (memory : BufferId → Option ChunkInfo) (buf : FixedBuf) (kind : SubmissionKind)
    (bufOffset : Nat) (d : RioBuf) : Prop :=
  ∃ mem, memory d.bufferId = some mem ∧ d.offset + d.length ≤ mem.len ∧
    mem.ptr + d.offset = buf.ptr + bufOffset ∧ d.length = kind.bound buf - bufOffset

/-- The end of the buffer in its chunk is not behind the 32 bits of the chunk's length. -/
def FitsRegistration (chunks : Nat → Option ChunkInfo) (buf : FixedBuf) (info : RegionInfo)
    (kind : SubmissionKind) : Prop :=
  info.poolKind = .slotBased → ∀ mem, chunks info.id = some mem →
    info.offset + kind.bound buf ≤ mem.len % 2 ^ 32

/-- The submission is refused: an offset is too large, or the chunk is not registered. -/
def Refused (b : Buffers) (buf : FixedBuf) (info : RegionInfo) (kind : SubmissionKind)
    (bufOffset : Nat) (env : BufferEnv) : Prop :=
  kind.bound buf < bufOffset ∨ 2 ^ 32 ≤ info.offset + bufOffset ∨
    info.poolKind = .slotBased ∧ Unregistrable b info.id env

variable {buf : FixedBuf} {info : RegionInfo} {kind : SubmissionKind} {bufOffset : Nat}
  {prepared : PreparedBuffer}

/-- What `resolve_region_info` says of a buffer in its region. -/
theorem region_of_info (hinfo : buf.resolveRegionInfo chunks = some info)
    (hregion : InRegion chunks buf) : info.poolKind = buf.context.poolKind ∧
      (info.poolKind = .heap → info.offset = 0) ∧
      (info.poolKind = .slotBased → ∃ mem, chunks info.id = some mem ∧
        mem.ptr + info.offset = buf.ptr ∧ info.offset + buf.cap ≤ mem.len) := by
  unfold FixedBuf.resolveRegionInfo at hinfo
  unfold InRegion at hregion
  cases hkind : buf.context.poolKind with
  | heap =>
    rw [hkind] at hinfo hregion
    obtain rfl := Option.some.inj hinfo
    refine ⟨rfl, fun _ => ?_, fun h => by cases h⟩
    change buf.ptr - (buf.poolData + 4096) = 0
    rw [hregion, Nat.sub_self]
  | slotBased =>
    rw [hkind] at hinfo hregion
    obtain ⟨mem, hmem, hle, hend⟩ := hregion
    obtain ⟨mem', hmem', rfl⟩ := Option.map_eq_some_iff.mp hinfo
    rw [PackedContext.chunkId_rawPayload] at hmem' ⊢
    obtain rfl := Option.some.inj (hmem.symm.trans hmem')
    refine ⟨rfl, (fun h => by cases h), fun _ => ⟨mem, hmem, ?_, ?_⟩⟩
    · exact Nat.add_sub_cancel' hle
    · change buf.ptr - mem.ptr + buf.cap ≤ mem.len
      omega

theorem length_mod (buf : FixedBuf) : buf.cap % 2 ^ 32 = buf.cap := Nat.mod_eq_of_lt buf.cap_lt

/-- A refused submission gets no descriptor. -/
theorem not_ok_of_refused (hwf : b.Wf) (h : Refused b buf info kind bufOffset env) :
    b.prepareBuffer buf info kind bufOffset env ≠ (.ok prepared, b', calls) := by
  intro hok
  obtain ⟨id, base, lease, hresolve, hle, hsum, -⟩ := prepareBuffer_ok_iff.mp hok
  obtain ⟨rfl, -⟩ := resolve_place hwf hresolve
  rcases h with hlt | hge | ⟨hkind, hnot⟩
  · exact absurd hle (Nat.not_le_of_lt hlt)
  · exact absurd hsum (Nat.not_lt_of_le hge)
  · exact (resolve_slotBased hkind).mp ⟨_, congrArg Prod.fst hresolve⟩ hnot

/-- A submission that is not refused gets a descriptor, in a pool. -/
theorem ok_of_not_refused (hwf : b.Wf) (hkind : info.poolKind = .slotBased)
    (h : ¬ Refused b buf info kind bufOffset env) : ∃ prepared b' calls,
      b.prepareBuffer buf info kind bufOffset env = (.ok prepared, b', calls) := by
  obtain ⟨hle, hrest⟩ := not_or.mp h
  obtain ⟨hsum, hregistrable⟩ := not_or.mp hrest
  obtain ⟨⟨id, base, lease⟩, hresolved⟩ : ∃ resolved,
      (b.resolveBufferId buf info env).1 = .ok resolved :=
    resolve_slotBased hkind |>.mpr fun hnot => hregistrable ⟨hkind, hnot⟩
  have hresolve : b.resolveBufferId buf info env =
      (.ok (id, base, lease), (b.resolveBufferId buf info env).2) := Prod.ext hresolved rfl
  obtain ⟨rfl, -⟩ := resolve_place hwf hresolve
  exact ⟨_, _, _, prepareBuffer_ok_iff.mpr ⟨id, info.offset, lease, hresolve,
    Nat.not_lt.mp hle, Nat.not_le.mp hsum, rfl⟩⟩

/-- In every state that the operations lead to: a descriptor stands for the bytes of its
buffer, and it lies in its registration exactly where the end of the buffer does. -/
theorem denotes_iff (h : Inv chunks s) (hinfo : buf.resolveRegionInfo chunks = some info)
    (hregion : InRegion chunks buf) (hknows : Knows chunks env)
    (hfresh : FreshIds s.ledger.registered
      (s.ledger.buffers.resolveBufferId buf info env).2.2)
    (hok : s.ledger.buffers.prepareBuffer buf info kind bufOffset env = (.ok prepared, b', calls)) :
    Denotes (memoryAfter s.memory calls) buf kind bufOffset prepared.rioBuf ↔
      FitsRegistration chunks buf info kind := by
  obtain ⟨id, base, lease, hresolve, hle, hsum, rfl⟩ := prepareBuffer_ok_iff.mp hok
  obtain ⟨rfl, p, r, hp, rfl, hplace⟩ := resolve_place h.ledger.wf hresolve
  have hafter : Inv chunks (s.next (.resolve buf info env)) :=
    h.next ⟨⟨hfresh, trivial⟩, hknows⟩
  have hmemory : memoryAfter s.memory calls r.id = memOf chunks p := by
    have hbacked := hafter.backed p r
    change regAt (s.ledger.buffers.resolveBufferId buf info env).2.1 p = some r →
      memoryAfter s.memory (s.ledger.buffers.resolveBufferId buf info env).2.2 r.id = _ at hbacked
    rw [hresolve] at hbacked
    exact hbacked hp
  obtain ⟨-, hheap, hslot⟩ := region_of_info hinfo hregion
  have hbound := bound_le_cap kind buf
  unfold Denotes FitsRegistration
  dsimp only
  rw [hmemory]
  unfold IsPlaceOf at hplace
  cases hkind : info.poolKind with
  | heap =>
    rw [hkind] at hplace
    subst hplace
    rw [hheap hkind, Nat.zero_add]
    refine iff_of_true ⟨⟨buf.ptr, buf.cap⟩, ?_, ?_, rfl, rfl⟩ (fun h => by cases h)
    · change some (ChunkInfo.mk buf.ptr (buf.cap % 2 ^ 32)) = _
      rw [length_mod]
    · dsimp only
      omega
  | slotBased =>
    rw [hkind] at hplace
    obtain ⟨generation, rfl⟩ := hplace
    obtain ⟨mem, hmem, hptr, hend⟩ := hslot hkind
    have hof : memOf chunks (.chunk ⟨info.id, generation⟩) =
        some ⟨mem.ptr, mem.len % 2 ^ 32⟩ := by
      change (chunks info.id).map _ = _
      rw [hmem]
      rfl
    rw [hof]
    constructor
    · rintro ⟨mem', hmem', hlen, -, -⟩ - mem'' hmem''
      cases hmem'
      cases hmem.symm.trans hmem''
      dsimp only at hlen
      omega
    · intro hfits
      have hfits := hfits rfl mem hmem
      refine ⟨_, rfl, ?_, ?_, rfl⟩
      · dsimp only
        omega
      · dsimp only
        omega

/-! ## The claim -/

/-- In every state that the operations on a registry lead to, and for every buffer in its
region: the submission fails or gives a descriptor that lies in its registration and
stands for the rest of the buffer, exactly if it is refused, or the buffer is of the heap
or ends before the 32 bits of its chunk's length. -/
theorem descriptors_lie_in_registrations (h : Run Step (Allowed chunks) (fun s => s = {}) s)
    (hinfo : buf.resolveRegionInfo chunks = some info) (hregion : InRegion chunks buf)
    (hknows : Knows chunks env) (hfresh : FreshIds s.ledger.registered
      (s.ledger.buffers.resolveBufferId buf info env).2.2) :
    (∀ prepared b' calls,
        s.ledger.buffers.prepareBuffer buf info kind bufOffset env = (.ok prepared, b', calls) →
          Denotes (memoryAfter s.memory calls) buf kind bufOffset prepared.rioBuf) ↔
      FitsRegistration chunks buf info kind ∨
        Refused s.ledger.buffers buf info kind bufOffset env := by
  have hinv := Inv.of_run h
  constructor
  · intro hall
    by_cases hrefused : Refused s.ledger.buffers buf info kind bufOffset env
    · exact .inr hrefused
    · refine .inl fun hkind => ?_
      obtain ⟨prepared, b', calls, hok⟩ := ok_of_not_refused hinv.ledger.wf hkind hrefused
      exact (denotes_iff hinv hinfo hregion hknows hfresh hok).mp (hall prepared b' calls hok) hkind
  · rintro (hfits | hrefused) prepared b' calls hok
    · exact (denotes_iff hinv hinfo hregion hknows hfresh hok).mpr hfits
    · exact absurd hok (not_ok_of_refused hinv.ledger.wf hrefused)

/-- A chunk of 4 GiB and 4 MiB. -/
def largeChunk (id : Nat) : Option ChunkInfo :=
  if id = 0 then some ⟨2 ^ 40, 2 ^ 32 + 2 ^ 22⟩ else none

theorem page_lt : 4096 < 2 ^ 32 := by decide

/-- The page of the chunk with a number. -/
def page (n : Nat) : FixedBuf where
  ptr := 2 ^ 40 + n * 4096
  poolData := 0
  context := .fromSlotParts n 0 0 .slotBased
  len := 4096
  cap := 4096
  len_le := Nat.le_refl _
  cap_lt := page_lt

/-- Its `RegionInfo`. -/
def pageInfo (n : Nat) : RegionInfo where
  poolKind := .slotBased
  id := 0
  offset := n * 4096
  cookie := 0

theorem page_info (n : Nat) :
    (page n).resolveRegionInfo largeChunk = some (pageInfo n) := by
  have hoffset : 2 ^ 40 + n * 4096 - 2 ^ 40 = n * 4096 := Nat.add_sub_cancel_left ..
  change FixedBuf.slotBasedResolveRegionInfo largeChunk (page n) = _
  unfold FixedBuf.slotBasedResolveRegionInfo
  rw [PackedContext.chunkId_rawPayload]
  change some (RegionInfo.mk .slotBased 0 (2 ^ 40 + n * 4096 - 2 ^ 40) 0) = _
  rw [hoffset]
  rfl

theorem page_inRegion {n : Nat} (h : n ≤ 1024) : InRegion largeChunk (page n) := by
  refine ⟨⟨2 ^ 40, 2 ^ 32 + 2 ^ 22⟩, rfl, Nat.le_add_right _ _, ?_⟩
  change 2 ^ 40 + n * 4096 + 4096 ≤ 2 ^ 40 + (2 ^ 32 + 2 ^ 22)
  omega

/-- The page behind the first 4 MiB of the chunk: its descriptor is behind the end of the
registration. -/
theorem descriptor_outside_registration : ∃ s info env prepared b' calls,
    Run Step (Allowed largeChunk) (fun s => s = {}) s ∧
      (page 1024).resolveRegionInfo largeChunk = some info ∧ InRegion largeChunk (page 1024) ∧
      Knows largeChunk env ∧ FreshIds s.ledger.registered calls ∧
      s.ledger.buffers.prepareBuffer (page 1024) info .recv 0 env = (.ok prepared, b', calls) ∧
      ¬ Denotes (memoryAfter s.memory calls) (page 1024) .recv 0 prepared.rioBuf := by
  have hresolve : resolveBufferId {} (page 1024) (pageInfo 1024) ⟨largeChunk, 0, some 7⟩ =
      (.ok (7, 1024 * 4096, some (.chunk ⟨⟨0, 1⟩, 7⟩)), installChunk {} 0 7,
        [.register 7 (2 ^ 40) (2 ^ 22)]) := rfl
  have hok : prepareBuffer {} (page 1024) (pageInfo 1024) .recv 0 ⟨largeChunk, 0, some 7⟩ =
      (.ok ⟨⟨7, 1024 * 4096 + 0, 4096 - 0⟩, some (.chunk ⟨⟨0, 1⟩, 7⟩)⟩, installChunk {} 0 7,
        [.register 7 (2 ^ 40) (2 ^ 22)]) :=
    prepareBuffer_ok_iff.mpr ⟨7, 1024 * 4096, _, hresolve, Nat.zero_le _, by decide, rfl⟩
  have hfresh : FreshIds ([] : List BufferId) [.register 7 (2 ^ 40) (2 ^ 22)] :=
    ⟨Nat.succ_ne_zero _, List.not_mem_nil, trivial⟩
  refine ⟨{}, pageInfo 1024, ⟨largeChunk, 0, some 7⟩, _, _, _, .start rfl, page_info 1024,
    page_inRegion (Nat.le_refl _), fun _ _ h => h, hfresh, hok, ?_⟩
  rintro ⟨mem, hmem, hlen, -, -⟩
  cases hmem
  exact absurd hlen (by decide)

/-- The second page of the chunk has its descriptor in the registration. -/
theorem descriptors_lie_in_registrations_page : ∃ prepared b' calls,
    ({} : Buffers).prepareBuffer (page 1) (pageInfo 1) .send 96 ⟨largeChunk, 0, some 7⟩ =
        (.ok prepared, b', calls) ∧
      Denotes (memoryAfter (fun _ => none) calls) (page 1) .send 96 prepared.rioBuf := by
  have hrun : Run Step (Allowed largeChunk) (fun s => s = {}) ({} : DescriptorLedger) := .start rfl
  have hknows : Knows largeChunk ⟨largeChunk, 0, some 7⟩ := fun _ _ h => h
  have hfresh : FreshIds ([] : List BufferId) [.register 7 (2 ^ 40) (2 ^ 22)] :=
    ⟨Nat.succ_ne_zero _, List.not_mem_nil, trivial⟩
  have hresolve : resolveBufferId {} (page 1) (pageInfo 1) ⟨largeChunk, 0, some 7⟩ =
      (.ok (7, 1 * 4096, some (.chunk ⟨⟨0, 1⟩, 7⟩)), installChunk {} 0 7,
        [.register 7 (2 ^ 40) (2 ^ 22)]) := rfl
  have hok := prepareBuffer_ok_iff.mpr
    ⟨7, 1 * 4096, _, hresolve, show 96 ≤ SubmissionKind.send.bound (page 1) by decide, by decide, rfl⟩
  refine ⟨_, _, _, hok, ?_⟩
  refine (descriptors_lie_in_registrations hrun (page_info 1) (page_inRegion (by decide))
    hknows hfresh).mpr (.inl fun _ mem hmem => ?_) _ _ _ hok
  cases hmem
  change 1 * 4096 + 4096 ≤ (2 ^ 32 + 2 ^ 22) % 2 ^ 32
  decide

end DescriptorLedger

end Veloq.Rio
