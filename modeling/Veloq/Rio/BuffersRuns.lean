import Veloq.Rio.BuffersLeases
import Veloq.Foundation.Run
set_option autoImplicit false

/-!
# RIO: registrations live exactly as long as they are leased

Any sequence of operations on the registry, beside the kernel's own list of registered
ids, the leases that are held, and the ids whose registration was replaced or came into
an eviction.
-/

namespace Veloq.Rio

open Foundation Buffer Buffers

inductive BufferEvent where
  | registerChunk (id : Nat) (mem : ChunkInfo) (env : BufferEnv)
  | resolve (buf : FixedBuf) (info : RegionInfo) (env : BufferEnv)
  | registerAddr (mem : ChunkInfo) (answer : Option BufferId)
  | acquire (lease : BufferLeaseToken)
  | release (lease : BufferLeaseToken) (deferred : Bool)
  | flush

/-- The registry and its surroundings. -/
structure BufferLedger where
  buffers : Buffers := {}
  /-- What the kernel has registered. -/
  registered : List BufferId := []
  /-- The leases that were acquired and not yet released. -/
  leases : List BufferLeaseToken := []
  /-- The registered ids that were replaced or came into an eviction. -/
  superseded : List BufferId := []
  deriving DecidableEq

namespace BufferLedger

/-- What an event does to the registry, and the calls it makes. -/
def effect (b : Buffers) : BufferEvent → Buffers × List KernelCall
  | .registerChunk id mem env => (b.registerChunk id mem env).2
  | .resolve buf info env => (b.resolveBufferId buf info env).2
  | .registerAddr mem answer => (b.ensureAddrBufferRegistered mem answer).2
  | .acquire lease =>
      match b.acquireBufferLease (some lease) with
      | .ok b' => (b', [])
      | .error _ => (b, [])
  | .release lease false =>
      match b.releaseBufferLease (some lease) with
      | .ok result => result
      | .error _ => (b, [])
  | .release lease true =>
      match b.releaseBufferLeaseDeferred (some lease) with
      | .ok b' => (b', [])
      | .error _ => (b, [])
  | .flush => b.flushDeregs

/-- The leases after an event. -/
def leasesAfter (b : Buffers) (leases : List BufferLeaseToken) :
    BufferEvent → List BufferLeaseToken
  | .acquire lease =>
      match b.acquireBufferLease (some lease) with
      | .ok _ => lease :: leases
      | .error _ => leases
  | .release lease _ => leases.erase lease
  | _ => leases

/-- The registrations that an event replaces or lets the cache give up. -/
def supersedes (b : Buffers) : BufferEvent → List BufferId
  | .registerChunk id mem env =>
      match (b.registerChunk id mem env).1 with
      | .ok () => ((b.chunkRegistry.get id).map fun entry => entry.registration.id).toList
      | .error _ => []
  | .resolve buf info env => if b.evictsFor buf info env then b.heapIds else []
  | _ => []

def next (s : BufferLedger) (e : BufferEvent) : BufferLedger where
  buffers := (effect s.buffers e).1
  registered := registeredAfter s.registered (effect s.buffers e).2
  leases := leasesAfter s.buffers s.leases e
  superseded := (supersedes s.buffers e ++ s.superseded).filter fun id =>
    decide (id ∉ deregistered (effect s.buffers e).2)

/-- The events as steps of a run. -/
def Step (s : BufferLedger) (e : BufferEvent) (s' : BufferLedger) : Prop := s.next e = s'

/-- The kernel registers under ids that are not in use, and what is released was
acquired. -/
def Allowed (s : BufferLedger) (e : BufferEvent) : Prop :=
  FreshIds s.registered (effect s.buffers e).2 ∧
    match e with
    | .release lease _ => lease ∈ s.leases
    | _ => True

instance (s : BufferLedger) : (e : BufferEvent) → Decidable (Allowed s e)
  | .registerChunk _ _ _ => inferInstanceAs (Decidable (FreshIds _ _ ∧ True))
  | .resolve _ _ _ => inferInstanceAs (Decidable (FreshIds _ _ ∧ True))
  | .registerAddr _ _ => inferInstanceAs (Decidable (FreshIds _ _ ∧ True))
  | .acquire _ => inferInstanceAs (Decidable (FreshIds _ _ ∧ True))
  | .release lease _ => inferInstanceAs (Decidable (FreshIds _ _ ∧ lease ∈ s.leases))
  | .flush => inferInstanceAs (Decidable (FreshIds _ _ ∧ True))

variable {s s' : BufferLedger} {b b' : Buffers} {p q : Place} {r : BufferRegistration}
  {lease : BufferLeaseToken} {leases : List BufferLeaseToken} {e : BufferEvent}

/-! ## Leases and references -/

/-- The leases on a registration. -/
def leasesAt (leases : List BufferLeaseToken) (p : Place) : Nat :=
  leases.countP fun lease => decide (lease.place = p)

/-- The references of the registrations are the leases. -/
structure Counted (b : Buffers) (leases : List BufferLeaseToken) : Prop where
  count : ∀ p, (b.held p).elim 0 Prod.snd = leasesAt leases p
  named : ∀ lease ∈ leases, ∃ n, b.held lease.place = some (lease.id, n)

theorem Counted.of_held (h : Counted b leases) (hheld : ∀ p, b'.held p = b.held p) :
    Counted b' leases :=
  ⟨fun p => (congrArg (Option.elim · 0 Prod.snd) (hheld p)).trans (h.count p),
    fun lease hlease => (hheld lease.place).symm ▸ h.named lease hlease⟩

theorem refs_eq (hp : b.regAt p = some r) : (b.held p).elim 0 Prod.snd = r.activeRefs := by
  rw [held_of_regAt hp]
  split
  · rename_i hzero
    exact hzero.symm
  · rfl

/-- The registration of a lease that is held. -/
theorem Counted.exists_regAt (h : Counted b leases) (hlease : lease ∈ leases) :
    ∃ r, b.regAt lease.place = some r ∧ r.id = lease.id ∧ r.activeRefs ≠ 0 := by
  obtain ⟨n, hheld⟩ := h.named lease hlease
  obtain ⟨r, hp, hid, hrefs, hne⟩ := held_eq_some_iff.mp hheld
  exact ⟨r, hp, hid, hrefs ▸ hne⟩

theorem leasesAt_cons_self : leasesAt (lease :: leases) lease.place =
    leasesAt leases lease.place + 1 :=
  List.countP_cons_of_pos (decide_eq_true rfl)

theorem leasesAt_cons_ne (h : lease.place ≠ p) : leasesAt (lease :: leases) p = leasesAt leases p :=
  List.countP_cons_of_neg (by simpa using h)

theorem Counted.acquire (h : Counted b leases) (hp : b.regAt lease.place = some r)
    (hid : r.id = lease.id)
    (hupd : Updated b lease.place { r with activeRefs := r.activeRefs + 1 } b') :
    Counted b' (lease :: leases) := by
  have hself : b'.held lease.place = some (lease.id, r.activeRefs + 1) := by
    rw [held_of_regAt hupd.self, ← hid]
    exact if_neg (Nat.succ_ne_zero _)
  have hothers : ∀ q, q ≠ lease.place → b'.held q = b.held q := fun q hq =>
    congrArg (Option.bind · _) (hupd.others q hq)
  refine ⟨fun q => ?_, fun lease' hlease' => ?_⟩
  · by_cases hq : q = lease.place
    · subst hq
      rw [hself, leasesAt_cons_self, ← h.count, refs_eq hp]
      rfl
    · rw [hothers q hq, leasesAt_cons_ne (Ne.symm hq), h.count]
  · by_cases hq : lease'.place = lease.place
    · rcases List.mem_cons.mp hlease' with rfl | hlease'
      · exact ⟨_, hself⟩
      · obtain ⟨r', hp', hid', -⟩ := h.exists_regAt hlease'
        rw [hq, hp] at hp'
        cases hp'
        exact ⟨_, by rw [hq, hself, ← hid, hid']⟩
    · rcases List.mem_cons.mp hlease' with rfl | hlease'
      · exact absurd rfl hq
      · rw [hothers _ hq]
        exact h.named lease' hlease'

theorem leasesAt_erase (hlease : lease ∈ leases) (p : Place) : leasesAt (leases.erase lease) p +
    (if lease.place = p then 1 else 0) = leasesAt leases p := by
  have hcount := (List.perm_cons_erase hlease).countP_eq fun l => decide (l.place = p)
  unfold leasesAt
  rw [hcount, List.countP_cons]
  simp only [decide_eq_true_eq]

/-- What a release leaves: one reference less, or no registration where it was the last. -/
theorem Counted.release (h : Counted b leases) (hlease : lease ∈ leases)
    (hp : b.regAt lease.place = some r) {id : Option BufferId}
    (hrel : Released b lease.place r id b') : Counted b' (leases.erase lease) := by
  have hcount := h.count lease.place
  rw [refs_eq hp, ← leasesAt_erase hlease lease.place, if_pos rfl] at hcount
  have hself : (b'.held lease.place).elim 0 Prod.snd = r.activeRefs - 1 ∧
      (b'.regAt lease.place = none ∨
        b'.regAt lease.place = some { r with activeRefs := r.activeRefs - 1 }) := by
    cases hrel with
    | kept _ hupd => exact ⟨refs_eq hupd.self, .inr hupd.self⟩
    | gone _ hone hrem =>
      rw [held_of_none hrem.self, hone]
      exact ⟨rfl, .inl hrem.self⟩
  have hothers : ∀ q, q ≠ lease.place → b'.held q = b.held q := by
    intro q hq
    refine congrArg (Option.bind · _) ?_
    cases hrel with
    | kept _ hupd => exact hupd.others q hq
    | gone _ _ hrem => exact hrem.others q hq
  refine ⟨fun q => ?_, fun lease' hlease' => ?_⟩
  · by_cases hq : q = lease.place
    · subst hq
      rw [hself.1]
      omega
    · have herase := leasesAt_erase hlease q
      rw [if_neg (Ne.symm hq)] at herase
      rw [hothers q hq, h.count, ← herase]
      rfl
  · have hmem := List.mem_of_mem_erase hlease'
    by_cases hq : lease'.place = lease.place
    · obtain ⟨r', hp', hid', -⟩ := h.exists_regAt hmem
      rw [hq, hp] at hp'
      cases hp'
      have hpos : 0 < leasesAt (leases.erase lease) lease.place :=
        List.countP_pos_iff.mpr ⟨lease', hlease', decide_eq_true hq⟩
      rw [hq]
      rcases hself.2 with hnone | hsome
      · rw [held_of_none hnone] at hself
        have hzero : (0 : Nat) = r.activeRefs - 1 := hself.1
        omega
      · refine ⟨r.activeRefs - 1, ?_⟩
        rw [held_of_regAt hsome, ← hid']
        exact if_neg (by change r.activeRefs - 1 ≠ 0; omega)
    · rw [hothers _ hq]
      exact h.named lease' hmem

/-! ## The invariant -/

structure Inv (s : BufferLedger) : Prop where
  wf : s.buffers.Wf
  known : s.registered.Perm s.buffers.ids
  counted : Counted s.buffers s.leases
  superseded_known : ∀ id ∈ s.superseded, id ∈ s.registered
  marked : ∀ p r, s.buffers.regAt p = some r → r.id ∈ s.superseded → r.retired = true
  addr : ∀ id ∈ s.buffers.addrIds, id ∉ s.superseded

theorem Inv.start : Inv {} where
  wf := ⟨Shape.empty, List.nodup_nil, fun _ h => absurd h List.not_mem_nil⟩
  known := List.Perm.nil
  counted := ⟨fun p => by cases p <;> rfl, fun _ h => absurd h List.not_mem_nil⟩
  superseded_known := fun _ h => absurd h List.not_mem_nil
  marked := fun _ _ _ h => absurd h List.not_mem_nil
  addr := fun _ h => absurd h List.not_mem_nil

theorem mem_superseded {calls : List KernelCall} {ids : List BufferId} {id : BufferId} :
    id ∈ ids.filter (fun id => decide (id ∉ deregistered calls)) ↔
      id ∈ ids ∧ id ∉ deregistered calls := by
  rw [List.mem_filter, decide_eq_true_eq]

/-- Events that move registrations about keep the invariant. -/
theorem Inv.moved (h : Inv s) {calls : List KernelCall} (news : List BufferId)
    (hmoved : Moved s.buffers calls b') (hfresh : FreshIds s.registered calls)
    (hnews : ∀ x ∈ news, Marked b' calls x ∧ ∃ p r, s.buffers.regAt p = some r ∧ r.id = x) :
    Inv ⟨b', registeredAfter s.registered calls, s.leases,
      (news ++ s.superseded).filter fun id => decide (id ∉ deregistered calls)⟩ := by
  have hacc := hmoved.accounted
  have hknown : ∀ x ∈ news ++ s.superseded, x ∈ s.registered := by
    intro x hx
    rcases List.mem_append.mp hx with hx | hx
    · obtain ⟨-, p, r, hp, rfl⟩ := hnews x hx
      exact h.known.mem_iff.mpr (mem_ids h.wf.toShape hp)
    · exact h.superseded_known x hx
  have hold : ∀ x, x ∈ news ++ s.superseded → x ∉ deregistered calls → x ∉ newlyRegistered calls :=
    fun x hx hkept hnew => hkept (mem_deregistered (hknown x hx) hfresh hnew)
  refine ⟨h.wf.after h.known hfresh hmoved.shape hacc, (hacc.conserved _ h.known).2,
    h.counted.of_held hacc.held, fun x hx => ?_, fun p r' hp hx => ?_, fun x hx hsup => ?_⟩
  · obtain ⟨hx, hkept⟩ := mem_superseded.mp hx
    exact mem_registeredAfter (hknown x hx) hkept
  · obtain ⟨hx, hkept⟩ := mem_superseded.mp hx
    have hnotnew := hold _ hx hkept
    rcases List.mem_append.mp hx with hx | hx
    · exact ((hnews _ hx).1 p r' hp rfl).resolve_right hnotnew
    · rcases hacc.marks p r' hp with ⟨r, hr, hid, hmark⟩ | hnew
      · exact hmark (h.marked p r hr (hid.symm ▸ hx))
      · exact absurd hnew hnotnew
  · obtain ⟨hsup, hkept⟩ := mem_superseded.mp hsup
    rcases hacc.addr x hx with haddr | hnew
    · rcases List.mem_append.mp hsup with hsup | hsup
      · obtain ⟨-, p, r, hp, rfl⟩ := hnews x hsup
        have hnodup := h.wf.nodup
        rw [ids_eq] at hnodup
        refine (List.nodup_append.mp hnodup).2.2 _ (List.mem_map_of_mem
          ((mem_registrations_iff h.wf.toShape).mpr hp)) _ (List.mem_append_right _ haddr) rfl
      · exact h.addr x haddr hsup
    · exact hold x hsup hkept hnew

theorem filter_self {ids : List BufferId} :
    ids.filter (fun id => decide (id ∉ deregistered [])) = ids :=
  List.filter_eq_self.mpr fun _ _ => decide_eq_true List.not_mem_nil

/-- One reference more, or one less, with the registration in its place. -/
theorem Inv.updated (h : Inv s) (hp : s.buffers.regAt p = some r) {r' : BufferRegistration}
    (hupd : Updated s.buffers p r' b') (hid : r'.id = r.id) (hret : r'.retired = r.retired)
    (hcounted : Counted b' leases) : Inv ⟨b', s.registered, leases, s.superseded⟩ := by
  refine ⟨⟨hupd.shape, hupd.ids ▸ h.wf.nodup, hupd.ids ▸ h.wf.pos⟩, hupd.ids ▸ h.known, hcounted,
    h.superseded_known, fun q r₁ hq hsup => ?_, hupd.addr ▸ h.addr⟩
  by_cases heq : q = p
  · subst heq
    cases hupd.self.symm.trans hq
    rw [hret]
    exact h.marked q r hp (hid ▸ hsup)
  · exact h.marked q r₁ ((hupd.others q heq).symm.trans hq) hsup

/-- The last reference is gone, and the kernel is told at once. -/
theorem Inv.removed (h : Inv s) (hp : s.buffers.regAt p = some r)
    (hrem : Removed s.buffers p r b') (hcounted : Counted b' leases) :
    Inv ⟨b', registeredAfter s.registered [.deregister r.id], leases,
      s.superseded.filter fun id => decide (id ∉ deregistered [.deregister r.id])⟩ := by
  have hafter := deregister_all [r.id] (h.known.trans hrem.ids)
  have hnodup : b'.ids.Nodup := (List.nodup_cons.mp (hrem.ids.nodup_iff.mp h.wf.nodup)).2
  refine ⟨⟨hrem.shape, hnodup, fun x hx => ?_⟩, hafter.2, hcounted, fun x hx => ?_,
    fun q r₁ hq hsup => ?_, fun x hx hsup => ?_⟩
  · exact h.wf.pos x (hrem.ids.mem_iff.mpr (List.mem_cons_of_mem _ hx))
  · obtain ⟨hx, hkept⟩ := mem_superseded.mp hx
    exact mem_registeredAfter (h.superseded_known x hx) hkept
  · by_cases heq : q = p
    · subst heq
      rw [hrem.self] at hq
      cases hq
    · exact h.marked q r₁ ((hrem.others q heq).symm.trans hq) (mem_superseded.mp hsup).1
  · rw [hrem.addr] at hx
    exact h.addr x hx (mem_superseded.mp hsup).1

/-- The last reference is gone, and the kernel is told later. -/
theorem Inv.deferred (h : Inv s) (hp : s.buffers.regAt p = some r)
    (hrem : Removed s.buffers p r b') (hcounted : Counted b' leases) :
    Inv ⟨{ b' with pendingDeregistrations := b'.pendingDeregistrations ++ [r.id] }, s.registered,
      leases, s.superseded⟩ := by
  have hids : s.buffers.ids.Perm
      (ids { b' with pendingDeregistrations := b'.pendingDeregistrations ++ [r.id] }) := by
    refine hrem.ids.trans (List.perm_iff_count.mpr fun x => ?_)
    simp only [ids, List.count_append, List.count_cons, List.count_nil, chunkIds, retiredIds,
      heapIds, addrIds]
    omega
  have hshape := hrem.shape
  refine ⟨⟨⟨hshape.current_le, hshape.retired_le, hshape.apart, hshape.current_live,
    hshape.retired_busy, hshape.heap_busy⟩, hids.nodup_iff.mp h.wf.nodup,
    fun x hx => h.wf.pos x (hids.mem_iff.mpr hx)⟩, h.known.trans hids,
    hcounted.of_held fun _ => rfl, h.superseded_known, fun q r₁ hq hsup => ?_, ?_⟩
  · by_cases heq : q = p
    · subst heq
      cases (show regAt b' q = some r₁ from hq).symm.trans hrem.self
    · exact h.marked q r₁ ((hrem.others q heq).symm.trans hq) hsup
  · exact hrem.addr ▸ h.addr

theorem Inv.acquire (h : Inv s) (lease : BufferLeaseToken) : Inv (s.next (.acquire lease)) := by
  cases hacquire : s.buffers.acquireBufferLease (some lease) with
  | error e =>
    simp only [next, effect, leasesAfter, supersedes, hacquire, List.nil_append, filter_self]
    exact ⟨h.wf, h.known, h.counted, h.superseded_known, h.marked, h.addr⟩
  | ok b' =>
    simp only [next, effect, leasesAfter, supersedes, hacquire, List.nil_append, filter_self]
    obtain ⟨r, hp, hid, hupd⟩ := acquire_spec h.wf.toShape hacquire
    exact h.updated hp hupd rfl rfl (h.counted.acquire hp hid hupd)

theorem Inv.release (h : Inv s) (hlease : lease ∈ s.leases) (deferred : Bool) :
    Inv (s.next (.release lease deferred)) := by
  obtain ⟨r, hp, hid, hrefs⟩ := h.counted.exists_regAt hlease
  obtain ⟨id, b', hrelease, hrel⟩ := release_spec h.wf.toShape hp hid hrefs
  have hcounted := h.counted.release hlease hp hrel
  have hpos : r.id ≠ 0 := h.wf.pos _ (mem_ids h.wf.toShape hp)
  cases deferred with
  | false =>
    simp only [next, effect, leasesAfter, supersedes, releaseBufferLease, hrelease, bind,
      Except.bind, pure, Except.pure, List.nil_append]
    cases hrel with
    | kept _ hupd =>
      change Inv ⟨b', s.registered, _, s.superseded.filter fun id =>
        decide (id ∉ deregistered [])⟩
      rw [filter_self]
      exact h.updated hp hupd rfl rfl hcounted
    | gone _ _ hrem =>
      have hcalls : deregisterBuffers (some r.id).toList = [.deregister r.id] :=
        deregisterBuffers_eq [r.id] fun x hx => List.mem_singleton.mp hx ▸ hpos
      rw [hcalls]
      exact h.removed hp hrem hcounted
  | true =>
    simp only [next, effect, leasesAfter, supersedes, releaseBufferLeaseDeferred, hrelease, bind,
      Except.bind, pure, Except.pure, List.nil_append, filter_self]
    cases hrel with
    | kept _ hupd =>
      have hsame : { b' with pendingDeregistrations := b'.pendingDeregistrations ++
          (none : Option BufferId).toList } = b' := by
        rw [Option.toList_none, List.append_nil]
      rw [hsame]
      exact h.updated hp hupd rfl rfl hcounted
    | gone _ _ hrem => exact h.deferred hp hrem hcounted

theorem Inv.next (h : Inv s) (hallowed : Allowed s e) : Inv (s.next e) := by
  obtain ⟨hfresh, hlease⟩ := hallowed
  cases e with
  | registerChunk id mem env =>
    have hspec := registerChunk_spec h.wf id mem env
    refine h.moved (supersedes s.buffers (.registerChunk id mem env))
      ⟨hspec.1, hspec.2.1⟩ hfresh fun x hx => ?_
    unfold supersedes at hx
    dsimp only at hx
    split at hx
    · rename_i hok
      cases hget : s.buffers.chunkRegistry.get id with
      | none =>
        rw [hget] at hx
        cases hx
      | some previous =>
        rw [hget] at hx
        obtain rfl := List.mem_singleton.mp hx
        exact ⟨hspec.2.2 hok previous hget, .chunk ⟨id, previous.generation⟩,
          previous.registration, chunkAt_current ⟨id, _⟩ previous hget rfl, rfl⟩
    · cases hx
  | resolve buf info env =>
    refine h.moved (supersedes s.buffers (.resolve buf info env))
      (resolveBufferId_spec h.wf buf info env).1 hfresh fun x hx => ?_
    unfold supersedes at hx
    dsimp only at hx
    split at hx
    · rename_i hevicts
      refine ⟨marked_evict h.wf hevicts hx, ?_⟩
      obtain ⟨⟨k, r⟩, hmem, rfl⟩ := List.mem_map.mp hx
      exact ⟨.heap k, r, Assoc.get_eq_some_iff.mpr hmem, rfl⟩
    · cases hx
  | registerAddr mem answer =>
    exact h.moved [] (ensureAddr_moved h.wf mem answer hfresh) hfresh
      fun x hx => absurd hx List.not_mem_nil
  | acquire lease => exact h.acquire lease
  | release lease deferred => exact h.release hlease deferred
  | flush =>
    exact h.moved [] (flush_moved h.wf) hfresh fun x hx => absurd hx List.not_mem_nil

theorem Inv.of_run (h : Run Step Allowed (fun s => s = {}) s) : Inv s := by
  refine h.invariant ?_ fun _ _ _ hinv hallowed hs => ?_
  · rintro _ rfl
    exact Inv.start
  · subst hs
    exact hinv.next hallowed

/-- What the calls of an event do to the kernel. -/
theorem Inv.calls (h : Inv s) (hallowed : Allowed s e) :
    Registered s.registered (effect s.buffers e).2 ∧
      ∀ id ∈ deregistered (effect s.buffers e).2, ∀ lease ∈ (s.next e).leases, lease.id ≠ id := by
  have hafter := h.next hallowed
  have hmoved : ∀ calls b', Moved s.buffers calls b' → Registered s.registered calls ∧
      ∀ id ∈ deregistered calls, ∀ lease ∈ s.leases, lease.id ≠ id := by
    intro calls b' hmoved
    refine ⟨(hmoved.accounted.conserved _ h.known).1, fun id hid lease hlease heq => ?_⟩
    obtain ⟨n, hheld⟩ := h.counted.named lease hlease
    exact hmoved.accounted.idle id hid lease.place n (heq ▸ hheld)
  obtain ⟨hfresh, hlease⟩ := hallowed
  cases e with
  | registerChunk id mem env =>
    have hspec := registerChunk_spec h.wf id mem env
    exact hmoved _ _ ⟨hspec.1, hspec.2.1⟩
  | resolve buf info env => exact hmoved _ _ (resolveBufferId_spec h.wf buf info env).1
  | registerAddr mem answer => exact hmoved _ _ (ensureAddr_moved h.wf mem answer hfresh)
  | flush => exact hmoved _ _ (flush_moved h.wf)
  | acquire lease =>
    have hcalls : (effect s.buffers (.acquire lease)).2 = [] := by
      unfold effect
      dsimp only
      split <;> rfl
    rw [hcalls]
    exact ⟨trivial, fun id hid => absurd hid List.not_mem_nil⟩
  | release lease deferred =>
    obtain ⟨r, hp, hid, hrefs⟩ := h.counted.exists_regAt hlease
    obtain ⟨id, b', hrelease, hrel⟩ := release_spec h.wf.toShape hp hid hrefs
    have hpos : r.id ≠ 0 := h.wf.pos _ (mem_ids h.wf.toShape hp)
    cases deferred with
    | true =>
      have hcalls : (effect s.buffers (.release lease true)).2 = [] := by
        unfold effect
        dsimp only
        split <;> rfl
      rw [hcalls]
      exact ⟨trivial, fun id hid => absurd hid List.not_mem_nil⟩
    | false =>
      have hbuffers : (s.next (.release lease false)).buffers = b' := by
        simp only [BufferLedger.next, effect, releaseBufferLease, hrelease, bind, Except.bind, pure,
          Except.pure]
      simp only [effect, releaseBufferLease, hrelease, bind, Except.bind, pure, Except.pure]
      cases hrel with
      | kept _ hupd => exact ⟨trivial, fun id hid => absurd hid List.not_mem_nil⟩
      | gone _ _ hrem =>
        have hcalls : deregisterBuffers (some r.id).toList = [.deregister r.id] :=
          deregisterBuffers_eq [r.id] fun x hx => List.mem_singleton.mp hx ▸ hpos
        rw [hcalls]
        refine ⟨⟨h.known.mem_iff.mpr (mem_ids h.wf.toShape hp), trivial⟩, ?_⟩
        intro x hx lease' hlease' heq
        obtain rfl := List.mem_singleton.mp hx
        -- a lease that is still held would have its registration in another place
        obtain ⟨r', hp', hid', -⟩ := hafter.counted.exists_regAt hlease'
        rw [hbuffers] at hp'
        have hnodup := hrem.ids.nodup_iff.mp h.wf.nodup
        have hmem := mem_ids hrem.shape hp'
        rw [hid', heq] at hmem
        exact (List.nodup_cons.mp hnodup).1 hmem

/-- A registration that was replaced or came into an eviction waits for leases or to be
deregistered. -/
theorem Inv.waits (h : Inv s) {id : BufferId} (hid : id ∈ s.superseded) :
    id ∈ s.buffers.pendingDeregistrations ∨ ∃ lease ∈ s.leases, lease.id = id := by
  have hmem := h.known.mem_iff.mp (h.superseded_known id hid)
  rw [ids_eq] at hmem
  rcases List.mem_append.mp hmem with hreg | hrest
  · obtain ⟨⟨p, r⟩, hp, rfl⟩ := List.mem_map.mp hreg
    have hp := (mem_registrations_iff h.wf.toShape).mp hp
    have hret := h.marked p r hp hid
    have hbusy : 0 < r.activeRefs := by
      cases p with
      | heap k => exact h.wf.heap_busy k r hp hret
      | chunk key =>
        rcases (chunkAt_eq_some_iff h.wf.toShape).mp hp with ⟨entry, hget, -, rfl⟩ | hget
        · rw [h.wf.current_live _ _ hget] at hret
          cases hret
        · exact (h.wf.retired_busy key r hget).2
    have hcount := h.counted.count p
    rw [refs_eq hp] at hcount
    obtain ⟨lease, hlease, hplace⟩ := List.countP_pos_iff.mp (hcount ▸ hbusy)
    obtain ⟨r', hp', hid', -⟩ := h.counted.exists_regAt hlease
    rw [of_decide_eq_true hplace, hp] at hp'
    cases hp'
    exact .inr ⟨lease, hlease, hid'.symm⟩
  · rcases List.mem_append.mp hrest with hpending | haddr
    · exact .inl hpending
    · exact absurd hid (h.addr id haddr)

/-- `cleanup_deregister` gives up everything. -/
theorem Inv.cleanup (h : Inv s) : Registered s.registered s.buffers.cleanupDeregister.2 ∧
    registeredAfter s.registered s.buffers.cleanupDeregister.2 = [] := by
  have hvalid : (s.buffers.cleanupIds.filter (· ≠ 0)).Perm s.buffers.ids := by
    have hfilter : ∀ l : List BufferId, (∀ x ∈ l, x ∈ s.buffers.ids) → l.filter (· ≠ 0) = l :=
      fun l hl => List.filter_eq_self.mpr fun x hx => by simpa using h.wf.pos x (hl x hx)
    have hchunk := hfilter s.buffers.chunkIds fun x hx => List.mem_append_left _ hx
    have hretired := hfilter s.buffers.retiredIds fun x hx =>
      List.mem_append_right _ (List.mem_append_left _ hx)
    have hheap := hfilter s.buffers.heapIds fun x hx =>
      List.mem_append_right _ (List.mem_append_right _ (List.mem_append_left _ hx))
    have hpending := hfilter s.buffers.pendingDeregistrations fun x hx =>
      List.mem_append_right _ (List.mem_append_right _ (List.mem_append_right _
        (List.mem_append_left _ hx)))
    have haddr : [s.buffers.addrBufferId].filter (· ≠ 0) = s.buffers.addrIds := by
      unfold addrIds
      by_cases hzero : s.buffers.addrBufferId = 0
      · simp [hzero]
      · simp [hzero]
    have heq : s.buffers.cleanupIds.filter (· ≠ 0) = s.buffers.chunkIds ++ (s.buffers.retiredIds ++
        (s.buffers.pendingDeregistrations ++ (s.buffers.addrIds ++ s.buffers.heapIds))) := by
      change (s.buffers.chunkIds ++ (s.buffers.retiredIds ++ (s.buffers.pendingDeregistrations ++
        ([s.buffers.addrBufferId] ++ s.buffers.heapIds)))).filter (· ≠ 0) = _
      rw [List.filter_append, List.filter_append, List.filter_append, List.filter_append, hchunk,
        hretired, hheap, hpending, haddr]
    rw [heq]
    refine List.perm_iff_count.mpr fun x => ?_
    simp only [ids, List.count_append]
    omega
  have hcalls : s.buffers.cleanupDeregister.2 =
      (s.buffers.cleanupIds.filter (· ≠ 0)).map .deregister :=
    deregisterOnce_eq (hvalid.nodup_iff.mpr h.wf.nodup) fun _ _ _ => List.not_mem_nil
  rw [hcalls]
  have hall := deregister_all (s.buffers.cleanupIds.filter (· ≠ 0))
    ((h.known.trans hvalid.symm).trans (List.Perm.of_eq (List.append_nil _).symm))
  exact ⟨hall.1, hall.2.eq_nil⟩

/-! ## The claim -/

end BufferLedger

end Veloq.Rio
