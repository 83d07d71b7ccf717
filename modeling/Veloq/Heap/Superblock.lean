import Veloq.Foundation.Census
import Veloq.Foundation.Run
import Veloq.Heap.ChunkRuns
import Mathlib.Logic.Function.Basic
set_option autoImplicit false

/-!
# Heap: the return of a superblock, step by step

From the moment a thread has acquired a superblock on, any number of `alloc_one` and
`free_one` calls run on it next to the `set_inactive` of the thread that holds it.  Every
operation on the mask of free slots or on the flag is a step of its own.  A slot is freed by
whoever was given it, and only once.
-/

namespace Veloq.Heap

open Veloq.Foundation

/-- What a call does next. -/
inductive SlotPc where
  | fresh
  /-- `alloc_one`: exchange the mask that was seen last. -/
  | exchange (old : BitVec 64)
  /-- `free_one`: set the bit of the slot. -/
  | fetchOr (idx : Nat)
  /-- `free_one`, all slots are free: load `is_active`. -/
  | check
  /-- `set_inactive`: store `is_active`. -/
  | store
  /-- `set_inactive`: load the mask. -/
  | load
  /-- The superblock is to be returned. -/
  | dealloc
  | gone
  deriving DecidableEq, Repr

/-- A superblock in use: where it was taken from, its number, its state, whether a thread
still holds it, the slots that are handed out, and what has been given back to the shards. -/
structure Superblock where
  home : Nat × Nat
  index : Nat
  state : SuperblockState
  entry : Bool
  live : List Nat
  returned : List (Nat × Nat)
  tasks : Nat → SlotPc

/-- What a call is made to do. -/
inductive SlotAction where
  | alloc
  | free (idx : Nat)
  | retire
  | advance
  /-- `compare_exchange_weak` fails though the mask is as expected. -/
  | spurious
  deriving DecidableEq, Repr

namespace Superblock

/-- The block at `block` of `shard` has just become a superblock. -/
def acquire (c : Chunk) (shard block : Nat) : Superblock :=
  { home := (shard, block)
    index := Chunk.superblockIndex (c.fromShardLocal shard block)
    state := SuperblockState.init
    entry := true
    live := []
    returned := []
    tasks := fun _ => .fresh }

variable (s : Superblock) (f : Nat)

def goto (pc : SlotPc) : Superblock := { s with tasks := Function.update s.tasks f pc }

/-- The loop of `alloc_one` goes on with the mask just seen. -/
def allocLoop : Superblock :=
  if s.state.freeMask = 0 then s.goto f .gone else s.goto f (.exchange s.state.freeMask)

def allocExchange (old : BitVec 64) : Superblock :=
  if s.state.freeMask = old then
    match s.state.allocOne with
    | (state, some idx) => { s.goto f .gone with state := state, live := idx :: s.live }
    | (_, none) => s.goto f .gone
  else
    s.allocLoop f

/-- The holder of a slot begins to free it. -/
def free (idx : Nat) : Superblock := { s.goto f (.fetchOr idx) with live := s.live.erase idx }

def freeFetchOr (idx : Nat) : Superblock :=
  let newMask := s.state.freeMask ||| 1#64 <<< idx
  { s.goto f (if newMask = BitVec.allOnes 64 then .check else .gone) with
    state := { s.state with freeMask := newMask } }

def freeCheck : Superblock := s.goto f (if s.state.isActive then .gone else .dealloc)

/-- `drop` of the cache entry begins. -/
def retire : Superblock := { s.goto f .store with entry := false }

def retireStore : Superblock :=
  { s.goto f .load with state := { s.state with isActive := false } }

def retireLoad : Superblock :=
  s.goto f (if s.state.freeMask = BitVec.allOnes 64 then .dealloc else .gone)

/-- `dealloc_superblock`: the shard and the slot that the block is given back to. -/
def deallocSuperblock (c : Chunk) : Superblock :=
  { s.goto f .gone with returned := c.shardForIndex (Chunk.baseSlot s.index) :: s.returned }

/-- The next step of a call. -/
def advance (c : Chunk) : Option Superblock :=
  match s.tasks f with
  | .exchange old => some (s.allocExchange f old)
  | .fetchOr idx => some (s.freeFetchOr f idx)
  | .check => some (s.freeCheck f)
  | .store => some (s.retireStore f)
  | .load => some (s.retireLoad f)
  | .dealloc => some (s.deallocSuperblock f c)
  | .fresh | .gone => none

/-- One step of call `e.1`. -/
def step (c : Chunk) (e : Nat × SlotAction) : Option Superblock :=
  match s.tasks e.1, e.2 with
  | .fresh, .alloc => some (s.allocLoop e.1)
  | .fresh, .free idx => if idx ∈ s.live then some (s.free e.1 idx) else none
  | .fresh, .retire => if s.entry then some (s.retire e.1) else none
  | .exchange _, .spurious => some (s.allocLoop e.1)
  | _, .advance => s.advance e.1 c
  | _, _ => none

end Superblock

/-- The steps as a relation. -/
def SuperblockStep (c : Chunk) (s : Superblock) (e : Nat × SlotAction) (s' : Superblock) : Prop :=
  s.step c e = some s'

namespace SlotPc

/-- All slots were free; the superblock may have to be returned. -/
def settling : SlotPc → Bool
  | check | dealloc => true
  | _ => false

/-- `set_inactive` is running. -/
def retiring : SlotPc → Bool
  | store | load => true
  | _ => false

/-- The part of a call in the return of the superblock; `gone` if it has none. -/
def role : SlotPc → SlotPc
  | check => check
  | store => store
  | load => load
  | dealloc => dealloc
  | _ => gone

end SlotPc

namespace Superblock

/-- The flag is cleared while no `free_one` is between the mask and the flag; no `free_one`
completes the mask while `set_inactive` is between the flag and the mask; and no slot is
allocated from a superblock that is given up and to be returned. -/
def Careful (s : Superblock) (e : Nat × SlotAction) : Prop :=
  e.2 = .advance →
    match s.tasks e.1 with
    | .store => ∀ g, s.tasks g ≠ .check
    | .fetchOr idx =>
        s.state.freeMask ||| 1#64 <<< idx = BitVec.allOnes 64 → ∀ g, s.tasks g ≠ .load
    | .exchange old =>
        s.state.freeMask = old →
          s.state.isActive = true ∨ s.returned = [] ∧ ∀ g, (s.tasks g).settling = false
    | _ => True

end Superblock

/-! ## Who returns the superblock -/

/-- The calls that have a part in the return, given whether a thread holds the superblock,
whether it is active, whether all its slots are free and how often it was returned. -/
structure Returning (entry active full : Bool) (returned : Nat) (role : Nat → SlotPc) : Prop where
  holding : entry = true → active = true ∧ ∀ g, (role g).retiring = false
  owner : ∀ g g', (role g).retiring = true → (role g').retiring = true → g = g'
  storing : ∀ g, role g = .store → active = true
  running : active = true → returned = 0 ∧ ∀ g, role g ≠ .dealloc ∧ role g ≠ .load
  loading : ∀ g, role g = .load → returned = 0 ∧ ∀ g', (role g').settling = false
  settled : active = false → (∀ g, role g ≠ .load) →
    ∃ n, Census (fun g => (role g).settling = true) n ∧ n + returned = full.toNat

namespace Returning

variable {entry entry' active active' full full' : Bool} {returned returned' : Nat}
  {role : Nat → SlotPc} {f g : Nat} {pc : SlotPc}

/-- No other call retires while `f` does. -/
theorem not_retiring (h : Returning entry active full returned role)
    (hf : (role f).retiring = true) (hne : g ≠ f) : (role g).retiring = false := by
  rw [Bool.eq_false_iff]
  exact fun hg => hne (h.owner g f hg hf)

/-- The part of `f` changes. -/
theorem update (h : Returning entry active full returned role)
    (hholding : entry' = true → entry = true ∧ active' = true ∧ pc.retiring = false)
    (howner : pc.retiring = true → ∀ g, g ≠ f → (role g).retiring = false)
    (hstoring : pc = .store → active' = true)
    (hactive : active' = active ∨ (role f).retiring = true)
    (hrunning : active' = true → active = true ∧ returned' = 0 ∧ pc ≠ .dealloc ∧ pc ≠ .load)
    (hloading : (∃ g, g ≠ f ∧ role g = .load) ∨ pc = .load →
      returned' = 0 ∧ pc.settling = false ∧ ∀ g, g ≠ f → (role g).settling = false)
    (hsettled : active' = false → pc ≠ .load → (∀ g, g ≠ f → role g ≠ .load) →
      ∃ n, Census (fun g => (Function.update role f pc g).settling = true) n ∧
        n + returned' = full'.toNat) :
    Returning entry' active' full' returned' (Function.update role f pc) := by
  have hself : Function.update role f pc f = pc := Function.update_self ..
  have hother : ∀ g, g ≠ f → Function.update role f pc g = role g :=
    fun g hne => Function.update_of_ne hne ..
  refine ⟨fun he => ?_, fun g g' hg hg' => ?_, fun g hg => ?_, fun ha => ?_, fun g hg => ?_,
    fun ha hl => ?_⟩
  · obtain ⟨he, ha, hpc⟩ := hholding he
    refine ⟨ha, fun g => ?_⟩
    by_cases hne : g = f
    · rw [hne, hself]
      exact hpc
    · rw [hother g hne]
      exact (h.holding he).2 g
  · by_cases hne : g = f
    · by_cases hne' : g' = f
      · rw [hne, hne']
      · rw [hne, hself] at hg
        rw [hother g' hne', howner hg g' hne'] at hg'
        exact absurd hg' (by simp)
    · rw [hother g hne] at hg
      by_cases hne' : g' = f
      · rw [hne', hself] at hg'
        rw [howner hg' g hne] at hg
        exact absurd hg (by simp)
      · rw [hother g' hne'] at hg'
        exact h.owner g g' hg hg'
  · by_cases hne : g = f
    · rw [hne, hself] at hg
      exact hstoring hg
    · rw [hother g hne] at hg
      rcases hactive with heq | hf
      · rw [heq]
        exact h.storing g hg
      · have hg' := h.not_retiring hf hne
        rw [hg] at hg'
        exact absurd hg' (by simp [SlotPc.retiring])
  · obtain ⟨ha, hzero, hd, hl⟩ := hrunning ha
    refine ⟨hzero, fun g => ?_⟩
    by_cases hne : g = f
    · rw [hne, hself]
      exact ⟨hd, hl⟩
    · rw [hother g hne]
      exact (h.running ha).2 g
  · have hwho : (∃ g, g ≠ f ∧ role g = .load) ∨ pc = .load := by
      by_cases hne : g = f
      · rw [hne, hself] at hg
        exact Or.inr hg
      · rw [hother g hne] at hg
        exact Or.inl ⟨g, hne, hg⟩
    obtain ⟨hzero, hpc, hnone⟩ := hloading hwho
    refine ⟨hzero, fun g' => ?_⟩
    by_cases hne : g' = f
    · rw [hne, hself]
      exact hpc
    · rw [hother g' hne]
      exact hnone g' hne
  · refine hsettled ha (hself ▸ hl f) fun g hne => ?_
    rw [← hother g hne]
    exact hl g

/-- A slot is allocated. -/
theorem alloc (h : Returning entry active full returned role)
    (hcare : active = true ∨ returned = 0 ∧ ∀ g, (role g).settling = false) :
    Returning entry active false returned role := by
  refine ⟨h.holding, h.owner, h.storing, h.running, h.loading, fun hinactive _ => ?_⟩
  obtain ⟨hzero, hnone⟩ := hcare.resolve_left (by simp [hinactive])
  exact ⟨0, Census.zero fun g => by simp [hnone g], by simp [hzero]⟩

/-- The settling calls after `f` has joined them. -/
theorem settling_join {n : Nat} (h : Census (fun g => (role g).settling = true) n)
    (hf : (role f).settling = false) (hpc : pc.settling = true) :
    Census (fun g => (Function.update role f pc g).settling = true) (n + 1) := by
  refine h.join (i := f) (by simp [hf]) fun g => ?_
  by_cases hne : g = f
  · subst hne
    simp [hpc]
  · simp [hne]

/-- The settling calls after `f` has left them. -/
theorem settling_leave {n : Nat} (h : Census (fun g => (role g).settling = true) n)
    (hf : (role f).settling = true) (hpc : pc.settling = false) :
    Census (fun g => (Function.update role f pc g).settling = true) (n - 1) := by
  refine h.leave (i := f) hf fun g => ?_
  by_cases hne : g = f
  · subst hne
    simp [hpc]
  · simp [hne]

/-- The last slot is freed, outside of the moment between flag and mask. -/
theorem complete (h : Returning entry active false returned role) (hf : role f = .gone)
    (hload : ∀ g, role g ≠ .load) :
    Returning entry active true returned (Function.update role f .check) := by
  refine h.update (fun he => ⟨he, (h.holding he).1, rfl⟩) nofun nofun (Or.inl rfl)
    (fun ha => ⟨ha, (h.running ha).1, nofun, nofun⟩) ?_ fun ha _ _ => ?_
  · rintro (⟨g, -, hg⟩ | hl)
    · exact absurd hg (hload g)
    · exact absurd hl nofun
  · obtain ⟨n, hcensus, hsum⟩ := h.settled ha hload
    refine ⟨n + 1, settling_join hcensus (by rw [hf]; rfl) rfl, ?_⟩
    simp only [Bool.toNat_false, Bool.toNat_true] at hsum ⊢
    omega

/-- Nobody loads the mask while a call settles. -/
theorem not_loading (h : Returning entry active full returned role)
    (hf : (role f).settling = true) : ∀ g, role g ≠ .load := by
  intro g hg
  rw [(h.loading g hg).2 f] at hf
  exact absurd hf (by simp)

/-- `free_one` finds the superblock active. -/
theorem checkActive (h : Returning entry true full returned role) (hf : role f = .check) :
    Returning entry true full returned (Function.update role f .gone) := by
  refine h.update (fun he => ⟨he, rfl, rfl⟩) nofun nofun (Or.inl rfl)
    (fun _ => ⟨rfl, (h.running rfl).1, nofun, nofun⟩) ?_ nofun
  rintro (⟨g, -, hg⟩ | hl)
  · exact absurd hg (h.not_loading (by rw [hf]; rfl) g)
  · exact absurd hl nofun

/-- `free_one` finds the superblock inactive. -/
theorem checkInactive (h : Returning entry false full returned role) (hf : role f = .check) :
    Returning entry false full returned (Function.update role f .dealloc) := by
  have hload := h.not_loading (f := f) (by rw [hf]; rfl)
  refine h.update (fun he => absurd (h.holding he).1 nofun) nofun nofun (Or.inl rfl) nofun ?_
    fun _ _ _ => ?_
  · rintro (⟨g, -, hg⟩ | hl)
    · exact absurd hg (hload g)
    · exact absurd hl nofun
  · obtain ⟨n, hcensus, hsum⟩ := h.settled rfl hload
    refine ⟨n, hcensus.congr fun g => ?_, hsum⟩
    by_cases hne : g = f
    · subst hne
      simp [hf, SlotPc.settling]
    · simp [Function.update_of_ne hne]

/-- The thread that holds the superblock begins to give it up. -/
theorem retire (h : Returning true active full returned role) :
    Returning false active full returned (Function.update role f .store) := by
  obtain ⟨ha, hnone⟩ := h.holding rfl
  refine h.update nofun (fun _ g _ => hnone g) (fun _ => ha) (Or.inl rfl)
    (fun _ => ⟨ha, (h.running ha).1, nofun, nofun⟩) ?_ fun hinactive => ?_
  · rintro (⟨g, -, hg⟩ | hl)
    · exact absurd hg ((h.running ha).2 g).2
    · exact absurd hl nofun
  · rw [ha] at hinactive
    exact absurd hinactive nofun

/-- The flag is cleared while nobody is between mask and flag. -/
theorem clear (h : Returning entry active full returned role) (hf : role f = .store)
    (hcheck : ∀ g, role g ≠ .check) :
    Returning entry false full returned (Function.update role f .load) := by
  have hretiring : (role f).retiring = true := by
    rw [hf]
    rfl
  obtain ⟨hzero, hrest⟩ := h.running (h.storing f hf)
  refine h.update (fun he => ?_) (fun _ g hne => h.not_retiring hretiring hne) nofun
    (Or.inr hretiring) nofun (fun _ => ⟨hzero, rfl, fun g _ => ?_⟩) fun _ hl => absurd rfl hl
  · rw [(h.holding he).2 f] at hretiring
    exact absurd hretiring (by simp)
  · have hd := (hrest g).1
    have hc := hcheck g
    revert hd hc
    cases role g <;> simp [SlotPc.settling]

/-- `set_inactive` looks at the mask. -/
theorem look (h : Returning entry active full returned role) (hf : role f = .load) :
    Returning entry active full returned
      (Function.update role f (if full then .dealloc else .gone)) := by
  have hretiring : (role f).retiring = true := by
    rw [hf]
    rfl
  obtain ⟨hzero, hnone⟩ := h.loading f hf
  have hinactive : active = false := by
    rw [Bool.eq_false_iff]
    exact fun ha => ((h.running ha).2 f).2 hf
  have hload : ∀ g, g ≠ f → role g ≠ .load := by
    intro g hne hg
    have hg' := h.not_retiring hretiring hne
    rw [hg] at hg'
    exact absurd hg' (by simp [SlotPc.retiring])
  have hcensus : Census (fun g => (role g).settling = true) 0 :=
    Census.zero fun g => by simp [hnone g]
  refine h.update (fun he => ?_) (by cases full <;> nofun) (by cases full <;> nofun) (Or.inl rfl)
    (fun ha => absurd ha (by simp [hinactive])) ?_ fun _ _ _ => ?_
  · rw [(h.holding he).1] at hinactive
    exact absurd hinactive nofun
  · rintro (⟨g, hne, hg⟩ | hl)
    · exact absurd hg (hload g hne)
    · cases full <;> exact absurd hl nofun
  · cases full with
    | false =>
      refine ⟨0, hcensus.congr fun g => ?_, by simp [hzero]⟩
      by_cases hne : g = f
      · subst hne
        simp [hf, SlotPc.settling]
      · simp [Function.update_of_ne hne]
    | true => exact ⟨1, settling_join hcensus (by rw [hf]; rfl) rfl, by simp [hzero]⟩

/-- The superblock is to be returned only if all its slots are free and it was given up. -/
theorem full_of_dealloc (h : Returning entry active full returned role) (hf : role f = .dealloc) :
    full = true ∧ active = false ∧ returned = 0 := by
  have hinactive : active = false := by
    rw [Bool.eq_false_iff]
    exact fun ha => ((h.running ha).2 f).1 hf
  obtain ⟨n, hcensus, hsum⟩ := h.settled hinactive (h.not_loading (f := f) (by rw [hf]; rfl))
  have hpos : 0 < n := hcensus.pos (i := f) (by simp [hf, SlotPc.settling])
  cases full with
  | false =>
    simp only [Bool.toNat_false] at hsum
    omega
  | true =>
    simp only [Bool.toNat_true] at hsum
    exact ⟨rfl, hinactive, by omega⟩

/-- The superblock is returned. -/
theorem dealloc (h : Returning entry active full returned role) (hf : role f = .dealloc) :
    Returning entry active full (returned + 1) (Function.update role f .gone) := by
  obtain ⟨-, hinactive, -⟩ := h.full_of_dealloc hf
  have hload := h.not_loading (f := f) (by rw [hf]; rfl)
  refine h.update (fun he => ?_) nofun nofun (Or.inl rfl)
    (fun ha => absurd ha (by simp [hinactive])) ?_ fun _ _ _ => ?_
  · rw [(h.holding he).1] at hinactive
    exact absurd hinactive nofun
  · rintro (⟨g, -, hg⟩ | hl)
    · exact absurd hg (hload g)
    · exact absurd hl nofun
  · obtain ⟨n, hcensus, hsum⟩ := h.settled hinactive hload
    have hpos : 0 < n := hcensus.pos (i := f) (by simp [hf, SlotPc.settling])
    exact ⟨n - 1, settling_leave hcensus (by rw [hf]; rfl) rfl, by omega⟩

end Returning

end Veloq.Heap
