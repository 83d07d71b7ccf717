import Veloq.Rio.BuffersSteps
set_option autoImplicit false

/-!
# RIO: leases on registered buffers

An acquired lease adds one to the references of the registration that its key finds; a
released one takes one away, and takes the registration out of its place if it was the
last one and the registration is retired.
-/

namespace Veloq.Rio.Buffers

open Foundation Buffer

variable {b b' : Buffers} {p q : Place} {r r' : BufferRegistration}
  {key : ChunkRegistrationKey} {lease : ChunkLeaseToken} {location : ChunkRegistrationLocation}

/-! ## Finding the registration of a chunk lease -/

/-- Where the registration of a key is. -/
def Located (b : Buffers) (key : ChunkRegistrationKey) :
    ChunkRegistrationLocation → BufferRegistration → Prop
  | .current, r => ∃ entry, b.chunkRegistry.get key.id = some entry ∧
      entry.generation = key.generation ∧ entry.registration = r
  | .retired, r => (∀ entry, b.chunkRegistry.get key.id = some entry →
      entry.generation ≠ key.generation) ∧ b.retiredChunkRegistrations.get key = some r

theorem exists_located (hat : b.chunkAt key = some r) : ∃ location, Located b key location r := by
  unfold chunkAt at hat
  split at hat
  · rename_i entry hentry
    obtain ⟨hget, hgen⟩ := Option.filter_eq_some_iff.mp hentry
    exact ⟨.current, entry, hget, of_decide_eq_true hgen, Option.some.inj hat⟩
  · rename_i hnone
    refine ⟨.retired, fun entry hget hgen => ?_, hat⟩
    exact Option.filter_eq_none_iff.mp hnone entry hget (decide_eq_true hgen)

theorem chunkAt_of_located (h : Located b key location r) : b.chunkAt key = some r := by
  cases location with
  | current =>
    obtain ⟨entry, hget, hgen, rfl⟩ := h
    exact chunkAt_current key entry hget hgen
  | retired =>
    obtain ⟨hne, hretired⟩ := h
    cases hget : b.chunkRegistry.get key.id with
    | none => exact (chunkAt_of_none hget).trans hretired
    | some entry => exact (chunkAt_of_ne hget (hne entry hget)).trans hretired

/-- A lease whose id fits is found. -/
theorem locate_of_located (h : Located b lease.key location r) (hid : r.id = lease.id) :
    b.locateChunkLease lease = .ok (location, r) := by
  cases location with
  | current =>
    obtain ⟨entry, hget, hgen, rfl⟩ := h
    simp only [locateChunkLease, hget, Option.filter_some, hgen, decide_true, if_true, hid, ne_eq,
      not_true_eq_false, if_false]
  | retired =>
    obtain ⟨hne, hretired⟩ := h
    cases hget : b.chunkRegistry.get lease.key.id with
    | none =>
      simp only [locateChunkLease, hget, Option.filter_none, hretired, hid, ne_eq,
        not_true_eq_false, if_false]
    | some entry =>
      simp only [locateChunkLease, hget, Option.filter_some, decide_eq_false (hne entry hget),
        Bool.false_eq_true, if_false, hretired, hid, ne_eq, not_true_eq_false]

/-- What is found is the registration of the lease. -/
theorem located_of_locate (h : b.locateChunkLease lease = .ok (location, r)) :
    Located b lease.key location r ∧ r.id = lease.id := by
  unfold locateChunkLease at h
  split at h
  · rename_i entry hentry
    obtain ⟨hget, hgen⟩ := Option.filter_eq_some_iff.mp hentry
    split at h
    · cases h
    · rename_i hid
      cases h
      exact ⟨⟨entry, hget, of_decide_eq_true hgen, rfl⟩, not_not.mp hid⟩
  · rename_i hnone
    split at h
    · cases h
    · rename_i entry hget
      split at h
      · cases h
      · rename_i hid
        cases h
        refine ⟨⟨fun entry hget hgen => ?_, hget⟩, not_not.mp hid⟩
        exact Option.filter_eq_none_iff.mp hnone entry hget (decide_eq_true hgen)

/-! ## Writing it -/

/-- One registration is written and keeps its id. -/
structure Updated (b : Buffers) (p : Place) (r' : BufferRegistration) (b' : Buffers) : Prop where
  shape : b'.Shape
  ids : b'.ids = b.ids
  self : b'.regAt p = some r'
  others : ∀ q, q ≠ p → b'.regAt q = b.regAt q
  pending : b'.pendingDeregistrations = b.pendingDeregistrations
  addr : b'.addrIds = b.addrIds

/-- One registration is taken out. -/
structure Removed (b : Buffers) (p : Place) (r : BufferRegistration) (b' : Buffers) : Prop where
  shape : b'.Shape
  ids : b.ids.Perm (r.id :: b'.ids)
  self : b'.regAt p = none
  others : ∀ q, q ≠ p → b'.regAt q = b.regAt q
  pending : b'.pendingDeregistrations = b.pendingDeregistrations
  addr : b'.addrIds = b.addrIds

theorem write_current (h : b.Shape) (hloc : Located b key .current r) (hid : r'.id = r.id)
    (hret : r'.retired = r.retired) :
    Updated b (.chunk key) r' (b.writeChunkRegistration .current key r') := by
  obtain ⟨entry, hget, hgen, rfl⟩ := hloc
  have hself : (b.writeChunkRegistration .current key r').chunkRegistry.get key.id =
      some { entry with registration := r' } := by
    refine Assoc.get_modify_self _ |>.trans ?_
    rw [hget]
    rfl
  have hcases : ∀ other entry', (b.writeChunkRegistration .current key r').chunkRegistry.get other =
      some entry' → other = key.id ∧ entry' = { entry with registration := r' } ∨
        other ≠ key.id ∧ b.chunkRegistry.get other = some entry' := by
    intro other entry' hget'
    by_cases hother : other = key.id
    · subst hother
      exact .inl ⟨rfl, (Option.some.inj (hself.symm.trans hget')).symm⟩
    · exact .inr ⟨hother, (Assoc.get_modify_ne _ hother).symm.trans hget'⟩
  refine ⟨⟨?_, h.retired_le, ?_, ?_, h.retired_busy, h.heap_busy⟩, ?_, ?_, ?_, rfl, rfl⟩
  · intro other entry' hget'
    rcases hcases other entry' hget' with ⟨rfl, rfl⟩ | ⟨-, hget'⟩
    · exact h.current_le key.id entry hget
    · exact h.current_le other entry' hget'
  · intro other entry' hget'
    rcases hcases other entry' hget' with ⟨rfl, rfl⟩ | ⟨-, hget'⟩
    · exact h.apart key.id entry hget
    · exact h.apart other entry' hget'
  · intro other entry' hget'
    rcases hcases other entry' hget' with ⟨rfl, rfl⟩ | ⟨-, hget'⟩
    · exact hret.trans (h.current_live key.id entry hget)
    · exact h.current_live other entry' hget'
  · have hchunk : (b.writeChunkRegistration .current key r').chunkIds = b.chunkIds := by
      refine Assoc.map_entries_mapValues _
        (fun e : Nat × ChunkRegistration => e.2.registration.id) fun k v hmem => ?_
      by_cases hk : k = key.id
      · subst hk
        cases hget.symm.trans (Assoc.get_eq_some_iff.mpr hmem)
        rw [if_pos rfl]
        exact hid
      · rw [if_neg hk]
    exact congrArg (· ++ _) hchunk
  · exact chunkAt_current key _ hself hgen
  · intro q hq
    cases q with
    | heap _ => rfl
    | chunk other =>
      by_cases hother : other.id = key.id
      · have hne : entry.generation ≠ other.generation := by
          intro heq
          refine hq ?_
          obtain ⟨id, generation⟩ := other
          obtain ⟨id', generation'⟩ := key
          cases hother
          cases heq.symm.trans hgen
          rfl
        rw [← hother] at hself hget
        exact (chunkAt_of_ne hself hne).trans (chunkAt_of_ne hget hne).symm
      · unfold regAt chunkAt writeChunkRegistration
        dsimp only
        rw [Assoc.get_modify_ne _ hother]

theorem write_retired (h : b.Shape) (hloc : Located b key .retired r) (hid : r'.id = r.id)
    (hret : r'.retired = true) (hbusy : 0 < r'.activeRefs) :
    Updated b (.chunk key) r' (b.writeChunkRegistration .retired key r') := by
  obtain ⟨hne, hget⟩ := hloc
  have hself : (b.writeChunkRegistration .retired key r').retiredChunkRegistrations.get key =
      some r' := by
    refine Assoc.get_modify_self _ |>.trans ?_
    rw [hget]
    rfl
  have hother : ∀ other, other ≠ key →
      (b.writeChunkRegistration .retired key r').retiredChunkRegistrations.get other =
        b.retiredChunkRegistrations.get other := fun other hother => Assoc.get_modify_ne _ hother
  refine ⟨⟨h.current_le, ?_, ?_, h.current_live, ?_, h.heap_busy⟩, ?_, ?_, ?_, rfl, rfl⟩
  · intro other r₁ hget₁
    by_cases heq : other = key
    · subst heq
      exact h.retired_le other r hget
    · exact h.retired_le other r₁ ((hother other heq).symm.trans hget₁)
  · intro id entry hentry
    refine (hother ⟨id, entry.generation⟩ fun heq => ?_).trans (h.apart id entry hentry)
    subst heq
    exact hne entry hentry rfl
  · intro other r₁ hget₁
    by_cases heq : other = key
    · subst heq
      cases hself.symm.trans hget₁
      exact ⟨hret, hbusy⟩
    · exact h.retired_busy other r₁ ((hother other heq).symm.trans hget₁)
  · have hretired : (b.writeChunkRegistration .retired key r').retiredIds = b.retiredIds := by
      refine Assoc.map_entries_mapValues _
        (fun e : ChunkRegistrationKey × BufferRegistration => e.2.id) fun k v hmem => ?_
      by_cases hk : k = key
      · subst hk
        cases hget.symm.trans (Assoc.get_eq_some_iff.mpr hmem)
        rw [if_pos rfl]
        exact hid
      · rw [if_neg hk]
    exact congrArg (_ ++ ·) (congrArg (· ++ _) hretired)
  · have hloc' : Located (b.writeChunkRegistration .retired key r') key .retired r' := ⟨hne, hself⟩
    exact chunkAt_of_located hloc'
  · intro q hq
    cases q with
    | heap _ => rfl
    | chunk other =>
      have heq := hother other fun heq => hq (by rw [heq])
      unfold regAt chunkAt
      dsimp only
      rw [heq]
      rfl

theorem erase_retired (h : b.Shape) (hloc : Located b key .retired r) :
    Removed b (.chunk key) r
      { b with retiredChunkRegistrations := b.retiredChunkRegistrations.erase key } := by
  obtain ⟨hne, hget⟩ := hloc
  have hof : ∀ other r₁, (b.retiredChunkRegistrations.erase key).get other = some r₁ →
      b.retiredChunkRegistrations.get other = some r₁ := by
    intro other r₁ hget₁
    by_cases heq : other = key
    · subst heq
      rw [Assoc.get_erase_self] at hget₁
      cases hget₁
    · exact (Assoc.get_erase_ne heq).symm.trans hget₁
  refine ⟨⟨h.current_le, fun other r₁ hget₁ => h.retired_le other r₁ (hof other r₁ hget₁), ?_,
    h.current_live, fun other r₁ hget₁ => h.retired_busy other r₁ (hof other r₁ hget₁),
    h.heap_busy⟩, ?_, ?_, ?_, rfl, rfl⟩
  · intro id entry hentry
    cases hget₁ : (b.retiredChunkRegistrations.erase key).get ⟨id, entry.generation⟩ with
    | none => rfl
    | some r₁ => exact absurd (hof _ r₁ hget₁) (by rw [h.apart id entry hentry]; simp)
  · have hretired : b.retiredIds.Perm
        (r.id :: (b.retiredChunkRegistrations.erase key).entries.map fun e => e.2.id) :=
      (Assoc.perm_erase hget).map fun e : ChunkRegistrationKey × BufferRegistration => e.2.id
    refine ((hretired.append_right _).append_left _).trans (List.perm_iff_count.mpr fun x => ?_)
    simp only [ids, List.count_append, List.count_cons, retiredIds, chunkIds, heapIds, addrIds]
    omega
  · cases hchunk : b.chunkRegistry.get key.id with
    | none => simp only [regAt, chunkAt, hchunk, Option.filter_none, Assoc.get_erase_self]
    | some entry =>
      simp only [regAt, chunkAt, hchunk, Option.filter_some, decide_eq_false (hne entry hchunk),
        Bool.false_eq_true, if_false, Assoc.get_erase_self]
  · intro q hq
    cases q with
    | heap _ => rfl
    | chunk other =>
      have heq : (b.retiredChunkRegistrations.erase key).get other =
          b.retiredChunkRegistrations.get other :=
        Assoc.get_erase_ne fun heq => hq (by rw [heq])
      unfold regAt chunkAt
      dsimp only
      rw [heq]

theorem write_heap (h : b.Shape) {k : HeapBufferKey} (hget : b.heapRioBufs.get k = some r)
    (hid : r'.id = r.id) (hbusy : r'.retired = true → 0 < r'.activeRefs) :
    Updated b (.heap k) r' (b.writeHeapRegistration k r') := by
  have hself : (b.writeHeapRegistration k r').heapRioBufs.get k = some r' := by
    refine Assoc.get_modify_self _ |>.trans ?_
    rw [hget]
    rfl
  have hother : ∀ other, other ≠ k →
      (b.writeHeapRegistration k r').heapRioBufs.get other = b.heapRioBufs.get other :=
    fun other hother => Assoc.get_modify_ne _ hother
  refine ⟨⟨h.current_le, h.retired_le, h.apart, h.current_live, h.retired_busy, ?_⟩, ?_, hself, ?_,
    rfl, rfl⟩
  · intro other r₁ hget₁ hret
    by_cases heq : other = k
    · subst heq
      cases hself.symm.trans hget₁
      exact hbusy hret
    · exact h.heap_busy other r₁ ((hother other heq).symm.trans hget₁) hret
  · have hheap : (b.writeHeapRegistration k r').heapIds = b.heapIds := by
      refine Assoc.map_entries_mapValues _
        (fun e : HeapBufferKey × BufferRegistration => e.2.id) fun k' v hmem => ?_
      by_cases hk : k' = k
      · subst hk
        cases hget.symm.trans (Assoc.get_eq_some_iff.mpr hmem)
        rw [if_pos rfl]
        exact hid
      · rw [if_neg hk]
    exact congrArg (_ ++ ·) (congrArg (_ ++ ·) (congrArg (· ++ _) hheap))
  · intro q hq
    cases q with
    | chunk _ => rfl
    | heap other => exact hother other fun heq => hq (by rw [heq])

theorem erase_heap (h : b.Shape) {k : HeapBufferKey} (hget : b.heapRioBufs.get k = some r) :
    Removed b (.heap k) r { b with heapRioBufs := b.heapRioBufs.erase k } := by
  refine ⟨⟨h.current_le, h.retired_le, h.apart, h.current_live, h.retired_busy, ?_⟩, ?_,
    Assoc.get_erase_self, ?_, rfl, rfl⟩
  · intro other r₁ hget₁ hret
    by_cases heq : other = k
    · subst heq
      exact absurd hget₁ (by simp)
    · exact h.heap_busy other r₁ ((Assoc.get_erase_ne heq).symm.trans hget₁) hret
  · have hheap : b.heapIds.Perm (r.id :: (b.heapRioBufs.erase k).entries.map fun e => e.2.id) :=
      (Assoc.perm_erase hget).map fun e : HeapBufferKey × BufferRegistration => e.2.id
    refine (((hheap.append_right _).append_left _).append_left _).trans
      (List.perm_iff_count.mpr fun x => ?_)
    simp only [ids, List.count_append, List.count_cons, retiredIds, chunkIds, heapIds, addrIds]
    omega
  · intro q hq
    cases q with
    | chunk _ => rfl
    | heap other => exact Assoc.get_erase_ne fun heq => hq (by rw [heq])

/-! ## Acquiring -/

variable {token : BufferLeaseToken}

theorem acquireRef_eq_ok_iff : r.acquireRef = .ok r' ↔
    r.activeRefs + 1 < 2 ^ 64 ∧ r' = { r with activeRefs := r.activeRefs + 1 } := by
  unfold BufferRegistration.acquireRef
  split
  · rename_i hlt
    exact ⟨fun h => ⟨hlt, (Except.ok.inj h).symm⟩, fun h => congrArg _ h.2.symm⟩
  · rename_i hge
    exact ⟨fun h => (by cases h), fun h => absurd h.1 hge⟩

/-- An acquired lease is one more reference to the registration it names. -/
theorem acquire_spec (h : b.Shape) (hacquire : b.acquireBufferLease (some token) = .ok b') :
    ∃ r, b.regAt token.place = some r ∧ r.id = token.id ∧
      Updated b token.place { r with activeRefs := r.activeRefs + 1 } b' := by
  cases token with
  | chunk lease =>
    simp only [acquireBufferLease, acquireChunkLease] at hacquire
    cases hlocate : b.locateChunkLease lease with
    | error e =>
      rw [hlocate] at hacquire
      cases hacquire
    | ok found =>
      obtain ⟨location, r⟩ := found
      rw [hlocate] at hacquire
      simp only [bind, Except.bind] at hacquire
      cases href : r.acquireRef with
      | error e =>
        rw [href] at hacquire
        cases hacquire
      | ok r' =>
        rw [href] at hacquire
        obtain ⟨-, rfl⟩ := acquireRef_eq_ok_iff.mp href
        cases hacquire
        obtain ⟨hloc, hid⟩ := located_of_locate hlocate
        refine ⟨r, chunkAt_of_located hloc, hid, ?_⟩
        cases location with
        | current => exact write_current h hloc rfl rfl
        | retired =>
          exact write_retired h hloc rfl (h.retired_busy _ _ hloc.2).1 (Nat.succ_pos _)
  | heap lease =>
    simp only [acquireBufferLease, acquireHeapLease, heapRegistrationForLease] at hacquire
    cases hget : b.heapRioBufs.get lease.key with
    | none =>
      rw [hget] at hacquire
      cases hacquire
    | some r =>
      rw [hget] at hacquire
      by_cases hid : r.id = lease.id
      · simp only [hid, ne_eq, not_true_eq_false, if_false, bind, Except.bind] at hacquire
        cases href : r.acquireRef with
        | error e =>
          rw [href] at hacquire
          cases hacquire
        | ok r' =>
          rw [href] at hacquire
          obtain ⟨-, rfl⟩ := acquireRef_eq_ok_iff.mp href
          cases hacquire
          exact ⟨r, hget, hid, write_heap h hget rfl fun _ => Nat.succ_pos _⟩
      · simp only [hid, ne_eq, not_false_eq_true, if_true, bind, Except.bind] at hacquire
        cases hacquire

/-! ## Releasing -/

/-- What a release of a lease does to the registration it names, with the id that is to
be deregistered. -/
inductive Released (b : Buffers) (p : Place) (r : BufferRegistration) :
    Option BufferId → Buffers → Prop where
  | kept {b' : Buffers} : (r.retired = true → r.activeRefs ≠ 1) →
      Updated b p { r with activeRefs := r.activeRefs - 1 } b' → Released b p r none b'
  | gone {b' : Buffers} : r.retired = true → r.activeRefs = 1 → Removed b p r b' →
      Released b p r (some r.id) b'

theorem releaseRef_eq (hrefs : r.activeRefs ≠ 0) :
    r.releaseRef = some { r with activeRefs := r.activeRefs - 1 } := if_neg hrefs

/-- A lease whose registration has references can be released. -/
theorem release_spec (h : b.Shape) (hat : b.regAt token.place = some r) (hid : r.id = token.id)
    (hrefs : r.activeRefs ≠ 0) : ∃ id b', b.releaseBufferLeaseInner (some token) = .ok (id, b') ∧
      Released b token.place r id b' := by
  cases token with
  | chunk lease =>
    obtain ⟨location, hloc⟩ := exists_located hat
    have hlocate := locate_of_located hloc hid
    simp only [releaseBufferLeaseInner, releaseChunkLeaseInner, hlocate, bind, Except.bind,
      releaseRef_eq hrefs]
    by_cases hlast : r.activeRefs - 1 = 0 ∧ r.retired = true
    · have hone : r.activeRefs = 1 := by omega
      rw [if_pos hlast]
      cases location with
      | current =>
        obtain ⟨entry, hget, -, rfl⟩ := hloc
        exact absurd hlast.2 (by rw [h.current_live _ _ hget]; decide)
      | retired =>
        refine ⟨_, _, rfl, ?_⟩
        have hself : (b.retiredChunkRegistrations.modify lease.key fun _ =>
            { r with activeRefs := r.activeRefs - 1 }).get lease.key =
              some { r with activeRefs := r.activeRefs - 1 } := by
          rw [Assoc.get_modify_self, hloc.2]
          rfl
        simp only [writeChunkRegistration, hself, Option.map_some, Assoc.erase_modify]
        exact .gone hlast.2 hone (erase_retired h hloc)
    · rw [if_neg hlast]
      refine ⟨_, _, rfl, .kept (fun hret hone => hlast ⟨by omega, hret⟩) ?_⟩
      cases location with
      | current => exact write_current h hloc rfl rfl
      | retired =>
        have hret := (h.retired_busy _ _ hloc.2).1
        refine write_retired h hloc rfl hret ?_
        change 0 < r.activeRefs - 1
        have hne : r.activeRefs - 1 ≠ 0 := fun hzero => hlast ⟨hzero, hret⟩
        exact Nat.pos_of_ne_zero hne
  | heap lease =>
    have hget : b.heapRioBufs.get lease.key = some r := hat
    have hid : r.id = lease.id := hid
    have hfind : b.heapRegistrationForLease lease = .ok r := by
      simp only [heapRegistrationForLease, hget, hid, ne_eq, not_true_eq_false, if_false]
    simp only [releaseBufferLeaseInner, releaseHeapLeaseInner, hfind, bind, Except.bind,
      releaseRef_eq hrefs]
    by_cases hlast : r.activeRefs - 1 = 0 ∧ r.retired = true
    · have hone : r.activeRefs = 1 := by omega
      rw [if_pos hlast]
      refine ⟨_, _, rfl, ?_⟩
      have hself : (b.heapRioBufs.modify lease.key fun _ =>
          { r with activeRefs := r.activeRefs - 1 }).get lease.key =
            some { r with activeRefs := r.activeRefs - 1 } := by
        rw [Assoc.get_modify_self, hget]
        rfl
      simp only [writeHeapRegistration, hself, Option.map_some, Assoc.erase_modify]
      exact .gone hlast.2 hone (erase_heap h hget)
    · rw [if_neg hlast]
      refine ⟨_, _, rfl, .kept (fun hret hone => hlast ⟨by omega, hret⟩) ?_⟩
      refine write_heap h hget rfl fun hret => ?_
      change 0 < r.activeRefs - 1
      have hne : r.activeRefs - 1 ≠ 0 := fun hzero => hlast ⟨hzero, hret⟩
      exact Nat.pos_of_ne_zero hne

end Veloq.Rio.Buffers
