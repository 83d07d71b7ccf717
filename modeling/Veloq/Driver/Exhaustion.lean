import Veloq.Driver.Partition
set_option autoImplicit false

/-!
# Driver: when `alloc` finds nothing

`alloc` fetches the shared free list when the local one is empty on entry, and never after
that.  So it fails exactly if the list that it walks has no idle slot, whatever the other list
holds; and what it has walked over goes to the shared list.
-/

namespace Veloq.Driver

open Veloq.Foundation

variable {Op Payload Data : Type}

namespace OpRegistry

variable {r r' : OpRegistry Op Payload Data} {free aside shared : List Nat}

/-- A slot of the list can be given out. -/
def HasIdle (r : OpRegistry Op Payload Data) (slots : List Nat) : Prop :=
  ∃ i ∈ slots, (r.slots i).state = .idle

/-- `alloc` has nothing to give out, and leaves `r'` behind. -/
def AllocFails (r : OpRegistry Op Payload Data) (data : Data) (r' : OpRegistry Op Payload Data) :
    Prop :=
  ∃ data', r.alloc data = some (r', .error data')

theorem allocFails_of_map {data : Data}
    (h : (r.alloc data).map (fun allocated => allocated.2.isOk) = some false) :
    ∃ r', r.AllocFails data r' := by
  obtain ⟨⟨r', result⟩, hrun, hresult⟩ := Option.map_eq_some_iff.mp h
  cases result with
  | error data' => exact ⟨r', data', hrun⟩
  | ok handle => cases hresult

theorem HasIdle.cons_iff {idx : Nat} (hstate : (r.slots idx).state ≠ .idle) :
    r.HasIdle (idx :: free) ↔ r.HasIdle free := by
  constructor
  · rintro ⟨i, hi, hidle⟩
    rcases List.mem_cons.mp hi with rfl | hi
    · exact absurd hidle hstate
    · exact ⟨i, hi, hidle⟩
  · rintro ⟨i, hi, hidle⟩
    exact ⟨i, List.mem_cons_of_mem idx hi, hidle⟩

/-- The walk fails exactly if it meets no idle slot. -/
theorem Parted.allocLoop_fails (h : Parted r free aside shared) {fuel : Nat} {data : Data}
    {result : Except Data OpHandle}
    (hrun : OpRegistry.allocLoop fuel r aside data = some (r', result)) :
    (∃ data', result = .error data') ↔ ¬ r.HasIdle free := by
  induction fuel generalizing r free aside with
  | zero => cases hrun
  | succ fuel ih =>
    rw [OpRegistry.allocLoop] at hrun
    cases hhead : r.localFreeHead with
    | none =>
      have hnil : free = [] := Chain.nil_of_none (hhead ▸ h.localFree)
      subst hnil
      simp only [hhead] at hrun
      cases hrun
      refine ⟨fun _ hidle => ?_, fun _ => ⟨_, rfl⟩⟩
      obtain ⟨i, hi, -⟩ := hidle
      cases hi
    | some idx =>
      obtain ⟨rest, tail, rfl, hlink, hchain⟩ := Chain.exists_of_some (hhead ▸ h.localFree)
      cases hlink
      obtain ⟨hlt, -⟩ := (h.free_iff idx).mp (List.mem_cons_self ..)
      simp only [hhead, Nat.not_le.mpr hlt, if_false] at hrun
      by_cases hstate : (r.slots idx).state = .idle
      · rw [if_neg (not_not_intro hstate)] at hrun
        cases hrun
        refine ⟨?_, fun hnone => absurd ⟨idx, List.mem_cons_self .., hstate⟩ hnone⟩
        rintro ⟨data', heq⟩
        cases heq
      · rw [if_pos hstate] at hrun
        rw [HasIdle.cons_iff hstate]
        have hrest := ih (h.setAside hchain) hrun
        exact hrest

theorem foldl_pushFree_capacity (r : OpRegistry Op Payload Data) (aside : List Nat) :
    (aside.foldl OpRegistry.pushFree r).capacity = r.capacity := by
  induction aside generalizing r with
  | nil => rfl
  | cons idx aside ih => exact ih _

theorem allocLoop_capacity {fuel : Nat} {data : Data} {result : Except Data OpHandle}
    (hrun : OpRegistry.allocLoop fuel r aside data = some (r', result)) :
    r'.capacity = r.capacity := by
  induction fuel generalizing r aside with
  | zero => cases hrun
  | succ fuel ih =>
    rw [OpRegistry.allocLoop] at hrun
    split at hrun
    · cases hrun
      exact foldl_pushFree_capacity r aside
    · dsimp only at hrun
      split at hrun
      · cases hrun
      · split at hrun
        · have hrest := ih hrun
          exact hrest
        · cases hrun
          exact foldl_pushFree_capacity _ aside

/-- The list that `alloc` walks: the shared one if the local one is empty. -/
theorem Parted.alloc_fails (h : Parted r free [] shared) (data : Data) :
    (∃ r', r.AllocFails data r') ↔ ¬ r.HasIdle (if free = [] then shared else free) := by
  obtain ⟨r', result, hrun, -⟩ := h.alloc data
  have hfails : (∃ r', r.AllocFails data r') ↔ ∃ data', result = .error data' := by
    unfold AllocFails
    constructor
    · rintro ⟨r'', data', heq⟩
      rw [hrun] at heq
      cases heq
      exact ⟨data', rfl⟩
    · rintro ⟨data', rfl⟩
      exact ⟨r', data', hrun⟩
  rw [hfails]
  unfold OpRegistry.alloc at hrun
  cases hhead : r.localFreeHead with
  | none =>
    have hnil : free = [] := Chain.nil_of_none (hhead ▸ h.localFree)
    subst hnil
    rw [if_pos rfl]
    simp only [hhead] at hrun
    have hswapped : Parted { r with localFreeHead := r.remoteFreeHead, remoteFreeHead := none }
        shared [] [] := h.fetch
    exact hswapped.allocLoop_fails hrun
  | some idx =>
    have hcons : free ≠ [] := by
      rintro rfl
      have hchain := h.localFree
      rw [hhead] at hchain
      exact hchain
    rw [if_neg hcons]
    simp only [hhead] at hrun
    exact h.allocLoop_fails hrun

/-- A slot that was on a free list is on one after a failed `alloc`. -/
theorem Parted.alloc_keeps (h : Parted r free [] shared) {data : Data}
    (hfails : r.AllocFails data r') :
    ∃ free' shared', Chain r'.link r'.localFreeHead free' ∧
      Chain r'.link r'.remoteFreeHead shared' ∧ (free' ++ shared').Perm (free ++ shared) := by
  obtain ⟨data', heq⟩ := hfails
  obtain ⟨r'', result, hrun, hdone⟩ := h.alloc data
  rw [heq] at hrun
  cases hrun
  obtain ⟨free', shared', hparted⟩ := hdone.parted
  have hcapacity : r'.capacity = r.capacity := by
    unfold OpRegistry.alloc at heq
    have hsame := allocLoop_capacity heq
    rw [hsame]
    split
    · rfl
    · rfl
  have hbefore := h.free_iff
  have hafter := hparted.free_iff
  have hnodup := h.nodup
  have hnodup' := hparted.nodup
  rw [List.append_nil] at hbefore hafter hnodup hnodup'
  refine ⟨free', shared', hparted.localFree, hparted.sharedFree,
    (List.perm_ext_iff_of_nodup hnodup' hnodup).mpr fun i => ?_⟩
  rw [hafter, hbefore, hcapacity, hdone.failed data' rfl]

end OpRegistry

/-! ## Reachable registries -/

variable [Inhabited Data]

theorem Tenancy.Inv.of_run {s : Tenancy Op Payload Data}
    (h : Run TenancyStep Always (fun s => ∃ capacity, s = Tenancy.new capacity) s) : s.Inv := by
  refine h.invariant ?_ fun _ _ _ hinv _ hs => hinv.step hs
  rintro _ ⟨capacity, rfl⟩
  exact .new capacity

/-- A failed `alloc` loses no slot; and that it fails means that no slot on either free list is
idle, exactly if the local list is empty, or has an idle slot, or the shared list has none. -/
theorem alloc_fails_when_exhausted {s : Tenancy Op Payload Data}
    (h : Run TenancyStep Always (fun s => ∃ capacity, s = Tenancy.new capacity) s) (data : Data) :
    ∃ localFree sharedFree : List Nat,
      Chain s.registry.link s.registry.localFreeHead localFree ∧
      Chain s.registry.link s.registry.remoteFreeHead sharedFree ∧
      (∀ r', s.registry.AllocFails data r' → ∃ localFree' sharedFree',
        Chain r'.link r'.localFreeHead localFree' ∧ Chain r'.link r'.remoteFreeHead sharedFree' ∧
          (localFree' ++ sharedFree').Perm (localFree ++ sharedFree)) ∧
      (((∃ r', s.registry.AllocFails data r') →
          ∀ i ∈ localFree ++ sharedFree, (s.registry.slots i).state ≠ .idle) ↔
        localFree = [] ∨ (∃ i ∈ localFree, (s.registry.slots i).state = .idle) ∨
          ∀ i ∈ sharedFree, (s.registry.slots i).state ≠ .idle) := by
  obtain ⟨free, shared, hparted⟩ := (Tenancy.Inv.of_run h).parted
  refine ⟨free, shared, hparted.localFree, hparted.sharedFree,
    fun r' hfails => hparted.alloc_keeps hfails, ?_⟩
  rw [hparted.alloc_fails data]
  constructor
  · intro hclaim
    by_cases hnil : free = []
    · exact .inl hnil
    · rw [if_neg hnil] at hclaim
      by_cases hidle : s.registry.HasIdle free
      · exact .inr (.inl hidle)
      · exact .inr (.inr fun i hi => hclaim hidle i (List.mem_append_right free hi))
  · intro hcases hfails i hi
    rcases hcases with rfl | hidle | hnone
    · rw [if_pos rfl] at hfails
      exact fun hstate => hfails ⟨i, hi, hstate⟩
    · obtain ⟨j, hj, -⟩ := id hidle
      rw [if_neg (List.ne_nil_of_mem hj)] at hfails
      exact absurd hidle hfails
    · rcases List.mem_append.mp hi with hlocal | hshared
      · rw [if_neg (List.ne_nil_of_mem hlocal)] at hfails
        exact fun hstate => hfails ⟨i, hlocal, hstate⟩
      · exact hnone i hshared

/-- `alloc` takes slot 1 and leaves slot 2, whose completion nobody has taken, on the local
list; slot 0 is then freed. -/
def skipped : List (RegistryCall Unit Unit Unit) :=
  [.alloc (), .alloc (), .alloc (),
    .submit ⟨2, 1, two_lt_indexLimit, first_generation_lt⟩ () () true,
    .record ⟨⟨2, 1, two_lt_indexLimit, first_generation_lt⟩, 0, 0, ()⟩,
    .remove ⟨2, 1, two_lt_indexLimit, first_generation_lt⟩,
    .remove ⟨1, 1, one_lt_indexLimit, first_generation_lt⟩, .alloc (),
    .remove ⟨0, 1, indexLimit_pos, first_generation_lt⟩]

def skippedTenancy : Tenancy Unit Unit Unit :=
  (replay Tenancy.step (fun _ _ => true) (.new 3) skipped).get (by decide +kernel)

/-- `alloc` fails although slot 0 is idle, and on the shared list. -/
theorem alloc_fails_with_idle_slot :
    ¬ ∀ s : Tenancy Unit Unit Unit,
      Run TenancyStep Always (fun s => ∃ capacity, s = Tenancy.new capacity) s →
      ∀ r', s.registry.AllocFails () r' → ∀ localFree sharedFree : List Nat,
        Chain s.registry.link s.registry.localFreeHead localFree →
        Chain s.registry.link s.registry.remoteFreeHead sharedFree →
        ∀ i ∈ localFree ++ sharedFree, (s.registry.slots i).state ≠ .idle := by
  intro hclaim
  have hreplay : replay Tenancy.step (fun _ _ => true) (.new 3) skipped = some skippedTenancy :=
    (Option.some_get _).symm
  have hstart : Run TenancyStep Always (fun s => ∃ capacity, s = Tenancy.new capacity)
      (Tenancy.new 3 : Tenancy Unit Unit Unit) := Run.start ⟨3, rfl⟩
  have hrun := hstart.replay (fun _ _ _ hs => hs) (fun _ _ _ => trivial) hreplay
  obtain ⟨r', hfails⟩ : ∃ r', skippedTenancy.registry.AllocFails () r' :=
    OpRegistry.allocFails_of_map (by decide +kernel)
  have hlocal : Chain skippedTenancy.registry.link skippedTenancy.registry.localFreeHead [2] := by
    have hhead : skippedTenancy.registry.localFreeHead = some 2 := by decide +kernel
    have hlink : skippedTenancy.registry.link 2 = some none := by decide +kernel
    rw [hhead]
    exact Chain.cons hlink Chain.nil
  have hshared : Chain skippedTenancy.registry.link skippedTenancy.registry.remoteFreeHead [0] := by
    have hhead : skippedTenancy.registry.remoteFreeHead = some 0 := by decide +kernel
    have hlink : skippedTenancy.registry.link 0 = some none := by decide +kernel
    rw [hhead]
    exact Chain.cons hlink Chain.nil
  exact hclaim skippedTenancy hrun r' hfails [2] [0] hlocal hshared 0 (by decide) (by decide +kernel)

/-- Both slots were allocated; slot 1 was removed before its completion was taken. -/
def exhausted : List (RegistryCall Unit Unit Unit) :=
  [.alloc (), .alloc (), .submit ⟨1, 1, one_lt_indexLimit, first_generation_lt⟩ () () true,
    .record ⟨⟨1, 1, one_lt_indexLimit, first_generation_lt⟩, 0, 0, ()⟩,
    .remove ⟨1, 1, one_lt_indexLimit, first_generation_lt⟩]

def exhaustedTenancy : Tenancy Unit Unit Unit :=
  (replay Tenancy.step (fun _ _ => true) (.new 2) exhausted).get (by decide +kernel)

theorem alloc_fails_when_exhausted_ready :
    ∃ localFree sharedFree : List Nat,
      Chain exhaustedTenancy.registry.link exhaustedTenancy.registry.localFreeHead localFree ∧
      Chain exhaustedTenancy.registry.link exhaustedTenancy.registry.remoteFreeHead sharedFree ∧
      ∀ i ∈ localFree ++ sharedFree, (exhaustedTenancy.registry.slots i).state ≠ .idle := by
  have hreplay : replay Tenancy.step (fun _ _ => true) (.new 2) exhausted = some exhaustedTenancy :=
    (Option.some_get _).symm
  have hstart : Run TenancyStep Always (fun s => ∃ capacity, s = Tenancy.new capacity)
      (Tenancy.new 2 : Tenancy Unit Unit Unit) := Run.start ⟨2, rfl⟩
  have hrun := hstart.replay (fun _ _ _ hs => hs) (fun _ _ _ => trivial) hreplay
  obtain ⟨free, shared, hfree, hshared, -, hiff⟩ := alloc_fails_when_exhausted hrun ()
  have hhead : exhaustedTenancy.registry.localFreeHead = none := by decide +kernel
  have hnil : free = [] := Chain.nil_of_none (hhead ▸ hfree)
  have hfails : ∃ r', exhaustedTenancy.registry.AllocFails () r' :=
    OpRegistry.allocFails_of_map (by decide +kernel)
  exact ⟨free, shared, hfree, hshared, hiff.mpr (.inl hnil) hfails⟩

end Veloq.Driver
