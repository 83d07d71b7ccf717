import Veloq.Driver.UringFiles
import Mathlib.Data.List.Nodup
import Mathlib.Algebra.Group.Nat.Defs
set_option autoImplicit false

/-!
# Driver: the file table stays consistent

Every operation leaves a table in which the free slots are the empty ones and the kernel has the
descriptors of the entries.  A slot is emptied with a new generation, or by a rollback, of a
descriptor that nobody was given.
-/

namespace Veloq.Driver

open Veloq.Foundation

/-- What the kernel has for an entry. -/
def entryFd : Option RegisteredFileEntry → Int
  | none => -1
  | some entry => entry.fd

namespace UringFiles

variable {fails : Nat → Bool} {s s' : UringFiles} {i idx : Nat} {slot : FileSlot}
  {entry : RegisteredFileEntry} {fd : IoFd}

/-- The free slots are the empty ones, and the kernel has the descriptors of the others. -/
structure Table (s : UringFiles) : Prop where
  nodup : s.freeFileSlots.Nodup
  free : ∀ i, i ∈ s.freeFileSlots ↔ ∃ generation, s.fileSlots[i]? = some ⟨none, generation⟩
  kernel : s.kernel = s.fileSlots.map fun slot => entryFd slot.entry
  blank : s.fileTableInitialized = false → s.fileSlots = []
  small : s.capacity < 2 ^ 32

theorem Table.new (entries : UInt32) : (UringFiles.new entries).Table := by
  refine ⟨List.nodup_nil, fun i => ⟨fun h => absurd h List.not_mem_nil, ?_⟩, rfl, fun _ => rfl,
    entries.toNat_lt⟩
  rintro ⟨generation, h⟩
  exact absurd h.symm (Option.some_ne_none _)

/-- The number of calls does not matter. -/
theorem Table.calls (h : s.Table) (n : Nat) : Table { s with calls := n } :=
  ⟨h.nodup, h.free, h.kernel, h.blank, h.small⟩

theorem modify_eq_set {α : Type} {l : List α} {a : α} (f : α → α) (h : l[i]? = some a) :
    l.modify i f = l.set i (f a) := by
  refine List.ext_getElem? fun j => ?_
  rcases Classical.em (j = i) with rfl | hne
  · obtain ⟨hlt, -⟩ := List.getElem?_eq_some_iff.mp h
    rw [List.getElem?_modify_eq, h, List.getElem?_set_self hlt]
    rfl
  · rw [List.getElem?_modify_ne _ _ (Ne.symm hne), List.getElem?_set_ne (Ne.symm hne)]

theorem set_same {α : Type} {l : List α} {a : α} (h : l[i]? = some a) : l.set i a = l := by
  obtain ⟨hlt, rfl⟩ := List.getElem?_eq_some_iff.mp h
  exact List.set_getElem_self hlt

/-- One slot changes, with its place on the free list and with the kernel. -/
theorem Table.set (h : s.Table) (hslot : s.fileSlots[i]? = some slot) (slot' : FileSlot)
    {free : List Nat} (hnodup : free.Nodup) (hi : i ∈ free ↔ slot'.entry = none)
    (hothers : ∀ j, j ≠ i → (j ∈ free ↔ j ∈ s.freeFileSlots)) (n : Nat) :
    Table { s with
      fileSlots := s.fileSlots.set i slot'
      freeFileSlots := free
      kernel := s.kernel.set i (entryFd slot'.entry)
      calls := n } := by
  obtain ⟨hlt, -⟩ := List.getElem?_eq_some_iff.mp hslot
  refine ⟨hnodup, fun j => ?_, ?_, fun hfalse => ?_, h.small⟩
  · dsimp only
    rcases Classical.em (j = i) with rfl | hne
    · rw [hi, List.getElem?_set_self hlt]
      constructor
      · intro hnone
        exact ⟨slot'.generation, by rw [← hnone]⟩
      · rintro ⟨generation, heq⟩
        rw [Option.some.inj heq]
    · rw [hothers j hne, List.getElem?_set_ne (Ne.symm hne)]
      exact h.free j
  · dsimp only
    rw [h.kernel, List.map_set]
  · have hblank := h.blank hfalse
    rw [hblank] at hslot
    exact absurd hslot.symm (Option.some_ne_none _)

/-- A slot whose entry is given. -/
def Has (s : UringFiles) (i : Nat) (entry : RegisteredFileEntry) (generation : Nat) : Prop :=
  s.fileSlots[i]? = some ⟨some entry, generation⟩

theorem Table.not_free (h : s.Table) {generation : Nat} (hs : s.Has i entry generation) :
    i ∉ s.freeFileSlots := by
  intro hfree
  obtain ⟨generation', hnone⟩ := (h.free i).mp hfree
  exact absurd (congrArg FileSlot.entry (Option.some.inj (hnone.symm.trans hs))).symm
    (Option.some_ne_none _)

/-! ## The calls of the kernel -/

theorem registerFilesUpdate_failed (h : fails s.calls = true) (idx : Nat) (fd : Int) :
    s.registerFilesUpdate fails idx fd = ({ s with calls := s.calls + 1 }, false) := by
  unfold registerFilesUpdate
  rw [h]
  rfl

theorem registerFilesUpdate_done (h : fails s.calls = false) (idx : Nat) (fd : Int) :
    s.registerFilesUpdate fails idx fd =
      ({ s with kernel := s.kernel.set idx fd, calls := s.calls + 1 }, true) := by
  unfold registerFilesUpdate
  rw [h]
  rfl

theorem registerFiles_failed (h : fails s.calls = true) (table : List Int) :
    s.registerFiles fails table = ({ s with calls := s.calls + 1 }, false) := by
  unfold registerFiles
  rw [h]
  rfl

theorem registerFiles_done (h : fails s.calls = false) (table : List Int) :
    s.registerFiles fails table = ({ s with kernel := table, calls := s.calls + 1 }, true) := by
  unfold registerFiles
  rw [h]
  rfl

theorem setEntry_eq (h : s.fileSlots[idx]? = some slot) (entry : Option RegisteredFileEntry) :
    s.setEntry idx entry = s.setSlot idx { slot with entry := entry } := by
  unfold setEntry setSlot
  rw [modify_eq_set _ h]

theorem advanceSlot_eq (h : s.fileSlots[idx]? = some slot) :
    s.advanceSlot idx =
      s.setSlot idx { slot with generation := advanceFileGeneration slot.generation } := by
  unfold advanceSlot setSlot
  rw [modify_eq_set _ h]

/-! ## Unregistration -/

/-- The state after a slot was emptied. -/
def emptied (s : UringFiles) (idx generation : Nat) : UringFiles :=
  { s with
    fileSlots := s.fileSlots.set idx ⟨none, generation⟩
    freeFileSlots := idx :: s.freeFileSlots
    kernel := s.kernel.set idx (-1)
    calls := s.calls + 1 }

theorem Table.emptied (h : s.Table) {generation : Nat} (hs : s.Has idx entry generation)
    (generation' : Nat) : (s.emptied idx generation').Table := by
  refine h.set hs ⟨none, generation'⟩
    (List.nodup_cons.mpr ⟨h.not_free hs, h.nodup⟩)
    ⟨fun _ => rfl, fun _ => List.mem_cons_self ..⟩ (fun j hne => ?_) _
  rw [List.mem_cons]
  exact ⟨fun hj => hj.resolve_left hne, .inr⟩

/-- What `unregister_file_slot` does: nothing, since the slot is empty; a call that fails; or the
slot is emptied. -/
inductive SlotOutcome (s : UringFiles) (idx : Nat) (advance : Bool) :
    UringFiles × Except FileError Unit → Prop where
  | empty : (∀ entry generation, ¬ s.Has idx entry generation) → SlotOutcome s idx advance (s, .ok ())
  | failed {entry : RegisteredFileEntry} {generation : Nat} : s.Has idx entry generation →
      SlotOutcome s idx advance ({ s with calls := s.calls + 1 }, .error .registration)
  | emptied {entry : RegisteredFileEntry} {generation : Nat} : s.Has idx entry generation →
      SlotOutcome s idx advance
        (s.emptied idx (if advance then advanceFileGeneration generation else generation), .ok ())

variable (fails) in
theorem unregisterFileSlot_outcome (s : UringFiles) (idx : Nat) (advance : Bool) :
    SlotOutcome s idx advance (s.unregisterFileSlot fails idx advance) := by
  unfold unregisterFileSlot
  cases hslot : s.fileSlots[idx]? with
  | none =>
    refine .empty fun entry generation hs => ?_
    exact absurd (hslot.symm.trans hs).symm (Option.some_ne_none _)
  | some slot =>
    obtain ⟨entry, generation⟩ := slot
    cases entry with
    | none =>
      refine .empty fun entry generation' hs => ?_
      exact absurd (congrArg FileSlot.entry (Option.some.inj (hslot.symm.trans hs))).symm
        (Option.some_ne_none _)
    | some entry =>
      have hlt := (List.getElem?_eq_some_iff.mp hslot).1
      have hnone : (s.fileSlots.set idx ⟨none, generation⟩)[idx]? = some ⟨none, generation⟩ :=
        List.getElem?_set_self hlt
      dsimp only
      rw [setEntry_eq hslot]
      cases hfails : fails s.calls with
      | true =>
        rw [registerFilesUpdate_failed (show fails (s.setSlot idx _).calls = true from hfails)]
        dsimp only
        rw [setEntry_eq hnone]
        unfold setSlot
        dsimp only
        rw [List.set_set, set_same hslot]
        exact .failed hslot
      | false =>
        rw [registerFilesUpdate_done (show fails (s.setSlot idx _).calls = false from hfails)]
        dsimp only
        cases advance with
        | true =>
          rw [if_pos rfl, advanceSlot_eq hnone]
          unfold setSlot pushFree
          dsimp only
          rw [List.set_set]
          exact .emptied hslot
        | false => exact .emptied hslot

/-- The two ways to unregister differ in who closes the file. -/
theorem unregisterCloseOwnedFd_eq (s : UringFiles) (fd : IoFd) :
    s.unregisterCloseOwnedFd fails fd = s.unregisterFixedFd fails fd := by
  unfold unregisterCloseOwnedFd unregisterFixedFd unregisterFileSlot
  split
  case isTrue => rfl
  case isFalse =>
    cases s.fileSlots[fd.fixedIndex]? with
    | none => rfl
    | some slot => rfl

/-- What `unregister_fixed_fd` does. -/
inductive FdOutcome (s : UringFiles) (fd : IoFd) : UringFiles × Except FileError Unit → Prop where
  | stale : (∀ entry, ¬ s.Has fd.fixedIndex entry fd.generation) → FdOutcome s fd (s, .ok ())
  | failed {entry : RegisteredFileEntry} : s.Has fd.fixedIndex entry fd.generation →
      FdOutcome s fd ({ s with calls := s.calls + 1 }, .error .registration)
  | emptied {entry : RegisteredFileEntry} : s.Has fd.fixedIndex entry fd.generation →
      FdOutcome s fd
        (s.emptied fd.fixedIndex (advanceFileGeneration fd.generation), .ok ())

variable (fails) in
theorem Table.unregisterFixedFd_outcome (h : s.Table) (fd : IoFd) :
    FdOutcome s fd (s.unregisterFixedFd fails fd) := by
  unfold unregisterFixedFd
  split
  case isTrue hblank =>
    refine .stale fun entry hs => ?_
    unfold Has at hs
    rw [h.blank hblank] at hs
    exact absurd hs.symm (Option.some_ne_none _)
  case isFalse =>
    cases hslot : s.fileSlots[fd.fixedIndex]? with
    | none =>
      refine .stale fun entry hs => ?_
      exact absurd (hslot.symm.trans hs).symm (Option.some_ne_none _)
    | some slot =>
      dsimp only
      split
      case isTrue hne =>
        refine .stale fun entry hs => hne ?_
        rw [Option.some.inj (hslot.symm.trans hs)]
      case isFalse heq =>
        have hgeneration : slot.generation = fd.generation := Classical.not_not.mp heq
        have hsame : ∀ {entry generation}, s.Has fd.fixedIndex entry generation →
            generation = fd.generation := by
          intro entry generation hs
          rw [← hgeneration, Option.some.inj (hslot.symm.trans hs)]
        generalize hresult : s.unregisterFileSlot fails fd.fixedIndex true = result
        have houtcome := unregisterFileSlot_outcome fails s fd.fixedIndex true
        rw [hresult] at houtcome
        cases houtcome with
        | empty hempty => exact .stale fun entry => hempty entry _
        | failed hs =>
          cases hsame hs
          exact .failed hs
        | emptied hs =>
          cases hsame hs
          exact .emptied hs

/-! ## Replacement -/

/-- The state after the entry of a slot was replaced. -/
def replaced (s : UringFiles) (fd : IoFd) (raw : RawHandle) : UringFiles :=
  { s with
    fileSlots := s.fileSlots.set fd.fixedIndex ⟨some (.borrowedFd raw.fd raw.kind), fd.generation⟩
    kernel := s.kernel.set fd.fixedIndex raw.fd
    calls := s.calls + 1 }

theorem Table.replaced (h : s.Table) (hs : s.Has fd.fixedIndex entry fd.generation)
    (raw : RawHandle) : (s.replaced fd raw).Table := by
  refine h.set hs ⟨some (.borrowedFd raw.fd raw.kind), fd.generation⟩ h.nodup
    ⟨fun hfree => absurd hfree (h.not_free hs), fun hnone => ?_⟩ (fun _ _ => Iff.rfl) _
  exact absurd hnone (Option.some_ne_none _)

/-- What `replace_registered_fixed_fd` does. -/
inductive ReplaceOutcome (s : UringFiles) (fd : IoFd) (raw : RawHandle) :
    UringFiles × Except FileError Unit → Prop where
  | refused (e : FileError) : (∀ entry, ¬ s.Has fd.fixedIndex entry fd.generation) →
      ReplaceOutcome s fd raw (s, .error e)
  | failed {entry : RegisteredFileEntry} : s.Has fd.fixedIndex entry fd.generation →
      ReplaceOutcome s fd raw ({ s with calls := s.calls + 1 }, .error .registration)
  | replaced {entry : RegisteredFileEntry} : s.Has fd.fixedIndex entry fd.generation →
      ReplaceOutcome s fd raw (s.replaced fd raw, .ok ())

variable (fails) in
theorem Table.replace_outcome (h : s.Table) (fd : IoFd) (raw : RawHandle) :
    ReplaceOutcome s fd raw (s.replaceRegisteredFixedFd fails fd raw) := by
  unfold replaceRegisteredFixedFd
  split
  case isTrue hblank =>
    refine .refused _ fun entry hs => ?_
    unfold Has at hs
    rw [h.blank hblank] at hs
    exact absurd hs.symm (Option.some_ne_none _)
  case isFalse =>
    cases hslot : s.fileSlots[fd.fixedIndex]? with
    | none =>
      refine .refused _ fun entry hs => ?_
      exact absurd (hslot.symm.trans hs).symm (Option.some_ne_none _)
    | some slot =>
      dsimp only
      split
      case isTrue hne =>
        refine .refused _ fun entry hs => hne ?_
        rw [Option.some.inj (hslot.symm.trans hs)]
      case isFalse heq =>
        have hgeneration : slot.generation = fd.generation := Classical.not_not.mp heq
        split
        case isTrue hnone =>
          refine .refused _ fun entry hs => ?_
          rw [Option.some.inj (hslot.symm.trans hs)] at hnone
          exact absurd hnone (Option.some_ne_none _)
        case isFalse hsome =>
          obtain ⟨entry, hentry⟩ := Option.ne_none_iff_exists'.mp hsome
          have hs : s.Has fd.fixedIndex entry fd.generation := by
            unfold Has
            rw [hslot, ← hentry, ← hgeneration]
          cases hfails : fails s.calls with
          | true =>
            rw [registerFilesUpdate_failed hfails]
            exact .failed hs
          | false =>
            rw [registerFilesUpdate_done hfails]
            dsimp only
            rw [setEntry_eq (show ({ s with
              kernel := s.kernel.set fd.fixedIndex raw.fd
              calls := s.calls + 1 } : UringFiles).fileSlots[fd.fixedIndex]? = some slot
                from hslot), hgeneration]
            exact .replaced hs

/-! ## Registration -/

/-- Generations stay, and entries do except in some slots. -/
structure Keeps (s s' : UringFiles) (except : List Nat) : Prop where
  generation : ∀ i : Nat,
    s'.fileSlots[i]?.map FileSlot.generation = s.fileSlots[i]?.map FileSlot.generation
  entry : ∀ i entry generation, s.Has i entry generation → i ∉ except → s'.Has i entry generation
  initialized : s'.fileTableInitialized = s.fileTableInitialized

theorem Keeps.calls (s : UringFiles) (n : Nat) (except : List Nat) :
    Keeps s { s with calls := n } except :=
  ⟨fun _ => rfl, fun _ _ _ hs _ => hs, rfl⟩

theorem Keeps.trans {s'' : UringFiles} {except except' : List Nat} (h : Keeps s s' except)
    (h' : Keeps s' s'' except') (hsub : ∀ i, i ∉ except' → i ∉ except) : Keeps s s'' except' :=
  ⟨fun i => (h'.generation i).trans (h.generation i),
    fun i entry generation hs hi =>
      h'.entry i entry generation (h.entry i entry generation hs (hsub i hi)) hi,
    h'.initialized.trans h.initialized⟩

/-- A slot gets another entry and keeps its generation. -/
theorem Keeps.set {e : Option RegisteredFileEntry} (hslot : s.fileSlots[idx]? = some slot)
    (h : s'.fileSlots = s.fileSlots.set idx { slot with entry := e })
    (hinitialized : s'.fileTableInitialized = s.fileTableInitialized) : Keeps s s' [idx] := by
  obtain ⟨hlt, -⟩ := List.getElem?_eq_some_iff.mp hslot
  refine ⟨fun i => ?_, fun i entry generation hs hi => ?_, hinitialized⟩
  · rw [h]
    rcases Classical.em (i = idx) with rfl | hne
    · rw [List.getElem?_set_self hlt, hslot]
      rfl
    · rw [List.getElem?_set_ne (Ne.symm hne)]
  · unfold Has
    rw [h, List.getElem?_set_ne fun heq => hi (List.mem_singleton.mpr heq.symm)]
    exact hs

variable (fails) in
theorem Table.rollback (h : s.Table) (registered : List Nat) :
    (s.rollbackFileSlots fails registered).1.Table ∧
      Keeps s (s.rollbackFileSlots fails registered).1 registered := by
  induction registered generalizing s with
  | nil => exact ⟨h, .calls s s.calls []⟩
  | cons idx registered ih =>
    have hslot : (s.unregisterFileSlot fails idx false).1.Table ∧
        Keeps s (s.unregisterFileSlot fails idx false).1 (idx :: registered) := by
      generalize hresult : s.unregisterFileSlot fails idx false = result
      have houtcome := unregisterFileSlot_outcome fails s idx false
      rw [hresult] at houtcome
      cases houtcome with
      | empty => exact ⟨h, .calls s s.calls _⟩
      | failed => exact ⟨h.calls _, .calls s _ _⟩
      | emptied hs =>
        refine ⟨h.emptied hs _, ?_⟩
        have hkeeps : Keeps s (s.emptied idx _) [idx] := .set hs rfl rfl
        refine hkeeps.trans (.calls _ (s.calls + 1) _) fun i hi hmem => ?_
        exact hi (List.mem_singleton.mp hmem ▸ List.mem_cons_self ..)
    obtain ⟨htable, hkeeps⟩ := hslot
    obtain ⟨htable', hkeeps'⟩ := ih htable
    have hrest : (s.rollbackFileSlots fails (idx :: registered)).1 =
        ((s.unregisterFileSlot fails idx false).1.rollbackFileSlots fails registered).1 := by
      rw [rollbackFileSlots]
      generalize s.unregisterFileSlot fails idx false = result
      obtain ⟨s₁, r⟩ := result
      cases r with
      | ok u => rfl
      | error e => rfl
    rw [hrest]
    refine ⟨htable', ⟨fun i => (hkeeps'.generation i).trans (hkeeps.generation i),
      fun i entry generation hs hi => ?_, hkeeps'.initialized.trans hkeeps.initialized⟩⟩
    exact hkeeps'.entry i entry generation (hkeeps.entry i entry generation hs hi) fun hmem =>
      hi (List.mem_cons_of_mem idx hmem)

/-- The state after a free slot was given an entry. -/
def filled (s : UringFiles) (idx : Nat) (free : List Nat) (slot : FileSlot)
    (entry : RegisteredFileEntry) : UringFiles :=
  { s with
    fileSlots := s.fileSlots.set idx { slot with entry := some entry }
    freeFileSlots := free
    kernel := s.kernel.set idx entry.fd
    calls := s.calls + 1 }

theorem Table.filled (h : s.Table) {free : List Nat} (hfree : s.freeFileSlots = idx :: free)
    (hslot : s.fileSlots[idx]? = some slot) (entry : RegisteredFileEntry) :
    (s.filled idx free slot entry).Table := by
  have hnodup := h.nodup
  rw [hfree, List.nodup_cons] at hnodup
  refine h.set hslot { slot with entry := some entry } hnodup.2
    ⟨fun hi => absurd hi hnodup.1, fun hnone => absurd hnone (Option.some_ne_none _)⟩
    (fun j hne => ?_) _
  rw [hfree, List.mem_cons]
  exact ⟨.inr, fun hj => hj.resolve_left hne⟩

variable (fails) in
/-- The loop ends with an error, after a rollback, or with a new descriptor for each file. -/
theorem Table.registerLoop (h : s.Table) (files : List RegisterFd)
    (hroom : files.length ≤ s.freeFileSlots.length) (fixedFds : List IoFd)
    (registered : List Nat) :
    ∃ s' r, UringFiles.registerLoop fails files fixedFds registered s = some (s', r) ∧ s'.Table ∧
      ((∃ e, r = .error e) ∧ Keeps s s' registered ∨
        ∃ fds, r = .ok (fixedFds ++ fds) ∧ Keeps s s' [] ∧ (fds.map IoFd.fixedIndex).Nodup ∧
          ∀ fd ∈ fds, fd.fixedIndex ∈ s.freeFileSlots ∧
            ∃ entry, s'.Has fd.fixedIndex entry fd.generation) := by
  induction files generalizing s fixedFds registered with
  | nil =>
    exact ⟨s, _, rfl, h, .inr ⟨[], by rw [List.append_nil], .calls s s.calls [], List.nodup_nil,
      nofun⟩⟩
  | cons file files ih =>
    unfold UringFiles.registerLoop
    cases hfree : s.freeFileSlots with
    | nil =>
      rw [hfree] at hroom
      exact absurd hroom (Nat.not_succ_le_zero _)
    | cons idx free =>
      dsimp only
      cases hfails : fails s.calls with
      | true =>
        rw [registerFilesUpdate_failed (show fails ({ s with
          freeFileSlots := free } : UringFiles).calls = true from hfails)]
        have hpush : ({ s with freeFileSlots := free, calls := s.calls + 1 } :
            UringFiles).pushFree idx = { s with calls := s.calls + 1 } := by
          unfold pushFree
          dsimp only
          rw [← hfree]
        dsimp only
        rw [hpush]
        obtain ⟨htable, hkeeps⟩ := (h.calls (s.calls + 1)).rollback fails registered
        have hkeeps' : Keeps s _ registered :=
          ⟨hkeeps.generation, hkeeps.entry, hkeeps.initialized⟩
        generalize ({ s with calls := s.calls + 1 } : UringFiles).rollbackFileSlots fails registered =
          result at htable hkeeps'
        obtain ⟨s₁, r⟩ := result
        cases r with
        | error e => exact ⟨s₁, _, rfl, htable, .inl ⟨⟨_, rfl⟩, hkeeps'⟩⟩
        | ok u => exact ⟨s₁, _, rfl, htable, .inl ⟨⟨_, rfl⟩, hkeeps'⟩⟩
      | false =>
        rw [registerFilesUpdate_done (show fails ({ s with
          freeFileSlots := free } : UringFiles).calls = false from hfails)]
        have hmem : idx ∈ s.freeFileSlots := by
          rw [hfree]
          exact List.mem_cons_self ..
        obtain ⟨generation, hslot⟩ := (h.free idx).mp hmem
        dsimp only
        rw [hslot]
        dsimp only
        rw [setEntry_eq (show ({ s with
          freeFileSlots := free
          kernel := s.kernel.set idx file.entry.fd
          calls := s.calls + 1 } : UringFiles).fileSlots[idx]? = some ⟨none, generation⟩ from hslot)]
        have htable := h.filled hfree hslot file.entry
        have hkeeps : Keeps s (s.filled idx free ⟨none, generation⟩ file.entry) [idx] :=
          .set hslot rfl rfl
        have hlength : files.length ≤ free.length := by
          rw [hfree] at hroom
          exact Nat.le_of_succ_le_succ hroom
        have hkept : ∀ i entry generation', s.Has i entry generation' → i ∉ [idx] := by
          intro i entry generation' hs hi
          cases List.mem_singleton.mp hi
          exact h.not_free hs hmem
        have hfilled : (s.filled idx free ⟨none, generation⟩ file.entry).Has idx file.entry
            generation := List.getElem?_set_self (List.getElem?_eq_some_iff.mp hslot).1
        obtain ⟨s', r, hrun, htable', hresult⟩ := ih htable hlength
          (fixedFds ++ [⟨idx, generation⟩]) (idx :: registered)
        refine ⟨s', r, hrun, htable', ?_⟩
        rcases hresult with ⟨herror, hkeeps'⟩ | ⟨fds, hok, hkeeps', hnodup, hfds⟩
        · refine .inl ⟨herror, ⟨fun i => (hkeeps'.generation i).trans (hkeeps.generation i),
            fun i entry generation' hs hi => ?_, hkeeps'.initialized.trans hkeeps.initialized⟩⟩
          refine hkeeps'.entry i entry generation'
            (hkeeps.entry i entry generation' hs (hkept i entry generation' hs)) fun hcons => ?_
          rcases List.mem_cons.mp hcons with rfl | hcons
          · exact h.not_free hs hmem
          · exact hi hcons
        · refine .inr ⟨⟨idx, generation⟩ :: fds, ?_, ⟨fun i =>
            (hkeeps'.generation i).trans (hkeeps.generation i), fun i entry generation' hs _ =>
              hkeeps'.entry i entry generation' (hkeeps.entry i entry generation' hs
                (hkept i entry generation' hs)) List.not_mem_nil,
            hkeeps'.initialized.trans hkeeps.initialized⟩, ?_, ?_⟩
          · rw [hok, List.append_assoc]
            rfl
          · rw [List.map_cons, List.nodup_cons]
            refine ⟨fun hidx => ?_, hnodup⟩
            obtain ⟨fd, hfd, heq⟩ := List.mem_map.mp hidx
            have hfresh := (hfds fd hfd).1
            rw [heq] at hfresh
            exact htable.not_free hfilled hfresh
          · intro fd hfd
            rcases List.mem_cons.mp hfd with rfl | hfd
            · exact ⟨List.mem_cons_self .., file.entry,
                hkeeps'.entry idx file.entry generation hfilled List.not_mem_nil⟩
            · exact ⟨List.mem_cons_of_mem idx (hfds fd hfd).1, (hfds fd hfd).2⟩

/-- What a registration leaves of the table before it, which may not have been there yet. -/
structure Starts (s s' : UringFiles) : Prop where
  generation : ∀ (i : Nat) (slot' : FileSlot), s'.fileSlots[i]? = some slot' →
    (∃ slot, s.fileSlots[i]? = some slot ∧ slot.generation = slot'.generation) ∨
      s.fileTableInitialized = false ∧ slot'.generation = initialFileGeneration
  entry : ∀ i entry generation, s.Has i entry generation → s'.Has i entry generation
  initialized : s'.fileTableInitialized = false → s.fileTableInitialized = false

theorem Keeps.starts (h : Keeps s s' []) : Starts s s' := by
  refine ⟨fun i slot' hslot' => .inl ?_, fun i entry generation hs =>
    h.entry i entry generation hs List.not_mem_nil, fun hfalse => h.initialized.symm.trans hfalse⟩
  have hgeneration := h.generation i
  rw [hslot'] at hgeneration
  obtain ⟨slot, hslot, heq⟩ := Option.map_eq_some_iff.mp hgeneration.symm
  exact ⟨slot, hslot, heq⟩

variable (fails) in
/-- The table of the driver before and after it was made. -/
theorem Table.ensure (h : s.Table) :
    (s.ensureFileTableInitialized fails).1.Table ∧
      Starts s (s.ensureFileTableInitialized fails).1 ∧
      ∀ i, i ∈ (s.ensureFileTableInitialized fails).1.freeFileSlots →
        ∀ entry generation, ¬ s.Has i entry generation := by
  unfold ensureFileTableInitialized
  split
  case isTrue =>
    refine ⟨h, (Keeps.calls s s.calls []).starts, fun i hi entry generation hs => ?_⟩
    exact h.not_free hs hi
  case isFalse hblank =>
    have hblank : s.fileTableInitialized = false := Bool.eq_false_iff.mpr hblank
    have hslots := h.blank hblank
    have hnone : ∀ i entry generation, ¬ s.Has i entry generation := by
      intro i entry generation hs
      unfold Has at hs
      rw [hslots] at hs
      exact absurd hs.symm (Option.some_ne_none _)
    dsimp only
    cases hfails : fails s.calls with
    | true =>
      rw [registerFiles_failed hfails]
      exact ⟨h.calls _, (Keeps.calls s _ []).starts, fun i _ => hnone i⟩
    | false =>
      have hsmall : max s.capacity minFileTableCapacity % 2 ^ 32 =
          max s.capacity minFileTableCapacity := by
        refine Nat.mod_eq_of_lt (Nat.max_lt.mpr ⟨h.small, ?_⟩)
        decide
      rw [registerFiles_done hfails]
      dsimp only
      rw [hsmall]
      refine ⟨⟨List.nodup_range, fun i => ?_, ?_, fun htrue => absurd htrue.symm
        Bool.false_ne_true, h.small⟩, ⟨fun i slot' hslot' => .inr ⟨hblank, ?_⟩,
          fun i entry generation hs => absurd hs (hnone i entry generation), fun _ => hblank⟩,
        fun i _ => hnone i⟩
      · dsimp only
        rw [List.mem_range, List.getElem?_replicate]
        split
        case isTrue hlt => exact ⟨fun _ => ⟨_, rfl⟩, fun _ => hlt⟩
        case isFalse hge =>
          refine ⟨fun hlt => absurd hlt hge, ?_⟩
          rintro ⟨generation, heq⟩
          exact absurd heq.symm (Option.some_ne_none _)
      · dsimp only
        rw [List.map_replicate]
        rfl
      · dsimp only at hslot'
        rw [List.getElem?_replicate] at hslot'
        split at hslot'
        · rw [← Option.some.inj hslot']
        · exact absurd hslot'.symm (Option.some_ne_none _)

theorem Starts.trans {s'' : UringFiles} (h : Starts s s') (h' : Keeps s' s'' []) :
    Starts s s'' := by
  have hstarts := h'.starts
  refine ⟨fun i slot hslot => ?_, fun i entry generation hs =>
    hstarts.entry i entry generation (h.entry i entry generation hs),
    fun hfalse => h.initialized (hstarts.initialized hfalse)⟩
  rcases hstarts.generation i slot hslot with ⟨slot', hslot', heq⟩ | ⟨hblank, heq⟩
  · rcases h.generation i slot' hslot' with ⟨slot₀, hslot₀, heq₀⟩ | ⟨hblank, heq₀⟩
    · exact .inl ⟨slot₀, hslot₀, heq₀.trans heq⟩
    · exact .inr ⟨hblank, heq.symm.trans heq₀⟩
  · exact .inr ⟨h.initialized hblank, heq⟩

variable (fails) in
/-- The expectation of the loop is met, and the new descriptors are those of empty slots. -/
theorem Table.registerFilesInternal (h : s.Table) (files : List RegisterFd) :
    ∃ s' r, s.registerFilesInternal fails files = some (s', r) ∧ s'.Table ∧ Starts s s' ∧
      ∀ fds, r = .ok fds → (fds.map IoFd.fixedIndex).Nodup ∧
        ∀ fd ∈ fds, (∀ entry generation, ¬ s.Has fd.fixedIndex entry generation) ∧
          ∃ entry, s'.Has fd.fixedIndex entry fd.generation := by
  obtain ⟨htable, hstarts, hempty⟩ := h.ensure fails
  unfold UringFiles.registerFilesInternal
  generalize s.ensureFileTableInitialized fails = result at htable hstarts hempty
  obtain ⟨s₁, r⟩ := result
  cases r with
  | error e => exact ⟨s₁, _, rfl, htable, hstarts, nofun⟩
  | ok u =>
    dsimp only
    split
    case isTrue => exact ⟨s₁, _, rfl, htable, hstarts, nofun⟩
    case isFalse hroom =>
      obtain ⟨s', r, hrun, htable', hresult⟩ :=
        htable.registerLoop fails files (Nat.le_of_not_lt hroom) [] []
      refine ⟨s', r, hrun, htable', ?_⟩
      rcases hresult with ⟨⟨e, rfl⟩, hkeeps⟩ | ⟨fds, rfl, hkeeps, hnodup, hfds⟩
      · exact ⟨hstarts.trans hkeeps, nofun⟩
      · refine ⟨hstarts.trans hkeeps, fun fds' heq => ?_⟩
        cases heq
        exact ⟨hnodup, fun fd hfd => ⟨hempty fd.fixedIndex (hfds fd hfd).1, (hfds fd hfd).2⟩⟩

end UringFiles

/-! ## Generations -/

/-- How many generations a slot has. -/
def fileGenerations : Nat := 2 ^ 64 - 1

/-- The generation of a slot that has been retired `n` times. -/
def generationAfter (n : Nat) : Nat := initialFileGeneration + n % fileGenerations

theorem advance_generationAfter (n : Nat) :
    advanceFileGeneration (generationAfter n) = generationAfter (n + 1) := by
  unfold advanceFileGeneration generationAfter initialFileGeneration fileGenerations
  dsimp only
  split <;> omega

/-- Generations differ until all have been used. -/
theorem generationAfter_ne {k n : Nat} (hlt : k < n) (hfew : n - k < fileGenerations) :
    generationAfter n ≠ generationAfter k := by
  unfold generationAfter initialFileGeneration
  unfold fileGenerations at hfew ⊢
  omega

/-! ## Runs -/

namespace FileCallers

open UringFiles

variable {fails : Nat → Bool} {s s' : FileCallers} {fd : IoFd} {k : Nat}

structure Inv (s : FileCallers) : Prop where
  table : s.files.Table
  generation : ∀ (i : Nat) (slot : FileSlot), s.files.fileSlots[i]? = some slot →
    slot.generation = generationAfter (s.retired i)
  unused : s.files.fileTableInitialized = false → ∀ i, s.retired i = 0
  live : ∀ fd ∈ s.live, ∃ entry, s.files.Has fd.fixedIndex entry fd.generation
  nodup : s.live.Nodup
  gone : ∀ fd k, (fd, k) ∈ s.gone → fd.generation = generationAfter k ∧ k < s.retired fd.fixedIndex

theorem Inv.new (entries : UInt32) : (FileCallers.new entries).Inv :=
  ⟨.new entries, fun _ _ hslot => absurd hslot.symm (Option.some_ne_none _), fun _ _ => rfl,
    fun _ hfd => absurd hfd List.not_mem_nil, List.nodup_nil,
    fun _ _ hgone => absurd hgone List.not_mem_nil⟩

theorem Inv.register (h : s.Inv) (files : List RegisterFd) :
    ∃ s', s.next fails (.register files) = some s' ∧ s'.Inv := by
  obtain ⟨files', r, hrun, htable, hstarts, hfds⟩ :=
    h.table.registerFilesInternal fails files
  have hgeneration : ∀ (i : Nat) (slot : FileSlot), files'.fileSlots[i]? = some slot →
      slot.generation = generationAfter (s.retired i) := by
    intro i slot hslot
    rcases hstarts.generation i slot hslot with ⟨slot₀, hslot₀, heq⟩ | ⟨hblank, heq⟩
    · rw [← heq]
      exact h.generation i slot₀ hslot₀
    · rw [heq, h.unused hblank]
      rfl
  have hlive : ∀ fd ∈ s.live, ∃ entry, files'.Has fd.fixedIndex entry fd.generation := by
    intro fd hfd
    obtain ⟨entry, hentry⟩ := h.live fd hfd
    exact ⟨entry, hstarts.entry _ _ _ hentry⟩
  have hunused : files'.fileTableInitialized = false → ∀ i, s.retired i = 0 :=
    fun hblank => h.unused (hstarts.initialized hblank)
  show ∃ s' : FileCallers, (s.files.registerFilesInternal fails files).map _ = some s' ∧ s'.Inv
  rw [hrun]
  cases r with
  | error e => exact ⟨_, rfl, htable, hgeneration, hunused, hlive, h.nodup, h.gone⟩
  | ok fds =>
    obtain ⟨hnodup, hnew⟩ := hfds fds rfl
    refine ⟨_, rfl, htable, hgeneration, hunused, fun fd hfd => ?_, ?_, h.gone⟩
    · rcases List.mem_append.mp hfd with hfd | hfd
      · exact (hnew fd hfd).2
      · exact hlive fd hfd
    · refine List.nodup_append'.mpr ⟨hnodup.of_map _, h.nodup, fun fd hfd hold => ?_⟩
      obtain ⟨entry, hentry⟩ := h.live fd hold
      exact (hnew fd hfd).1 entry _ hentry

/-- A slot that is emptied has its generation advanced. -/
theorem Inv.emptied (h : s.Inv) {entry : RegisteredFileEntry}
    (hs : s.files.Has fd.fixedIndex entry fd.generation) :
    (s.settle fd (s.files.emptied fd.fixedIndex (advanceFileGeneration fd.generation),
      .ok ())).Inv := by
  have hlt := (List.getElem?_eq_some_iff.mp hs).1
  have hold : fd.generation = generationAfter (s.retired fd.fixedIndex) := h.generation _ _ hs
  have hself : (s.files.fileSlots.set fd.fixedIndex
      ⟨none, advanceFileGeneration fd.generation⟩)[fd.fixedIndex]? =
        some ⟨none, advanceFileGeneration fd.generation⟩ := List.getElem?_set_self hlt
  have hchanged : generationAt (s.files.emptied fd.fixedIndex
      (advanceFileGeneration fd.generation)) fd.fixedIndex ≠
        generationAt s.files fd.fixedIndex := by
    unfold generationAt UringFiles.emptied
    dsimp only
    rw [hself, hs]
    intro heq
    have heq : advanceFileGeneration fd.generation = fd.generation := Option.some.inj heq
    rw [hold, advance_generationAfter] at heq
    have hone : s.retired fd.fixedIndex + 1 - s.retired fd.fixedIndex < fileGenerations := by
      rw [Nat.add_sub_cancel_left]
      decide
    exact generationAfter_ne (Nat.lt_succ_self _) hone heq
  have hretired : ∀ i, Function.update s.retired fd.fixedIndex (s.retired fd.fixedIndex + 1) i =
      if i = fd.fixedIndex then s.retired i + 1 else s.retired i := by
    intro i
    rcases Classical.em (i = fd.fixedIndex) with rfl | hne
    · rw [Function.update_self, if_pos rfl]
    · rw [Function.update_of_ne hne, if_neg hne]
  unfold settle
  dsimp only
  rw [if_neg hchanged]
  refine ⟨h.table.emptied hs _, fun i slot hslot => ?_, fun hblank => ?_, fun fd' hfd' => ?_,
    h.nodup.erase _, fun fd' k hgone => ?_⟩
  · dsimp only
    rw [hretired]
    change (s.files.fileSlots.set fd.fixedIndex _)[i]? = some slot at hslot
    split
    case isTrue heq =>
      rw [heq, hself] at hslot
      rw [← Option.some.inj hslot, heq, ← advance_generationAfter, ← hold]
    case isFalse hne =>
      rw [List.getElem?_set_ne (Ne.symm hne)] at hslot
      exact h.generation i slot hslot
  · unfold UringFiles.Has at hs
    rw [h.table.blank hblank] at hs
    exact absurd hs.symm (Option.some_ne_none _)
  · obtain ⟨hne, hmem⟩ := (List.Nodup.mem_erase_iff h.nodup).mp hfd'
    obtain ⟨entry', hentry'⟩ := h.live fd' hmem
    have hindex : fd'.fixedIndex ≠ fd.fixedIndex := by
      intro heq
      unfold UringFiles.Has at hentry'
      rw [heq, hs] at hentry'
      have hgeneration := congrArg FileSlot.generation (Option.some.inj hentry')
      obtain ⟨i', g'⟩ := fd'
      obtain ⟨i, g⟩ := fd
      exact hne (IoFd.mk.injEq .. ▸ ⟨heq, hgeneration.symm⟩)
    exact ⟨entry', (List.getElem?_set_ne (Ne.symm hindex)).trans hentry'⟩
  · dsimp only
    rw [hretired]
    have hcases : (fd', k) = (fd, s.retired fd.fixedIndex) ∨ (fd', k) ∈ s.gone := by
      split at hgone
      · exact List.mem_cons.mp hgone
      · exact .inr hgone
    rcases hcases with heq | hgone
    · cases heq
      exact ⟨hold, by rw [if_pos rfl]; exact Nat.lt_succ_self _⟩
    · obtain ⟨hgeneration, hk⟩ := h.gone fd' k hgone
      refine ⟨hgeneration, ?_⟩
      split
      · exact Nat.lt_succ_of_lt hk
      · exact hk

theorem Inv.settle (h : s.Inv) (fd : IoFd) :
    (s.settle fd (s.files.unregisterFixedFd fails fd)).Inv := by
  generalize hresult : s.files.unregisterFixedFd fails fd = result
  have houtcome := h.table.unregisterFixedFd_outcome fails fd
  rw [hresult] at houtcome
  cases houtcome with
  | stale hstale =>
    have hlive : fd ∉ s.live := by
      intro hfd
      obtain ⟨entry, hentry⟩ := h.live fd hfd
      exact hstale entry hentry
    unfold FileCallers.settle
    dsimp only
    rw [if_pos rfl, if_neg hlive, List.erase_of_not_mem hlive]
    exact h
  | failed => exact ⟨h.table.calls _, h.generation, h.unused, h.live, h.nodup, h.gone⟩
  | emptied hs => exact h.emptied hs

theorem Inv.replace (h : s.Inv) (fd : IoFd) (raw : RawHandle) :
    Inv { s with files := (s.files.replaceRegisteredFixedFd fails fd raw).1 } := by
  generalize hresult : s.files.replaceRegisteredFixedFd fails fd raw = result
  have houtcome := h.table.replace_outcome fails fd raw
  rw [hresult] at houtcome
  cases houtcome with
  | refused => exact h
  | failed => exact ⟨h.table.calls _, h.generation, h.unused, h.live, h.nodup, h.gone⟩
  | replaced hs =>
    have hlt := (List.getElem?_eq_some_iff.mp hs).1
    have hself : (s.files.fileSlots.set fd.fixedIndex
        ⟨some (.borrowedFd raw.fd raw.kind), fd.generation⟩)[fd.fixedIndex]? =
          some ⟨some (.borrowedFd raw.fd raw.kind), fd.generation⟩ := List.getElem?_set_self hlt
    refine ⟨h.table.replaced hs raw, fun i slot hslot => ?_, h.unused, fun fd' hfd' => ?_, h.nodup,
      h.gone⟩
    · change (s.files.fileSlots.set fd.fixedIndex _)[i]? = some slot at hslot
      rcases Classical.em (i = fd.fixedIndex) with rfl | hne
      · rw [hself] at hslot
        rw [← Option.some.inj hslot]
        have hold := h.generation _ _ hs
        exact hold
      · rw [List.getElem?_set_ne (Ne.symm hne)] at hslot
        exact h.generation i slot hslot
    · obtain ⟨entry', hentry'⟩ := h.live fd' hfd'
      unfold UringFiles.Has at hentry'
      rcases Classical.em (fd'.fixedIndex = fd.fixedIndex) with heq | hne
      · refine ⟨.borrowedFd raw.fd raw.kind, ?_⟩
        rw [heq, hs] at hentry'
        have hgeneration : fd.generation = fd'.generation :=
          congrArg FileSlot.generation (Option.some.inj hentry')
        unfold UringFiles.Has
        rw [heq, ← hgeneration]
        exact hself
      · exact ⟨entry', (List.getElem?_set_ne (Ne.symm hne)).trans hentry'⟩

variable (fails) in
/-- No call panics. -/
theorem Inv.next (h : s.Inv) (e : FileCall) : ∃ s', s.next fails e = some s' ∧ s'.Inv := by
  cases e with
  | register files => exact h.register files
  | unregister fd => exact ⟨_, rfl, h.settle fd⟩
  | unregisterCloseOwned fd =>
    refine ⟨_, rfl, ?_⟩
    rw [unregisterCloseOwnedFd_eq]
    exact h.settle fd
  | replace fd raw => exact ⟨_, rfl, h.replace fd raw⟩

/-- A descriptor that was unregistered names no entry until its slot has been used again
`fileGenerations` times. -/
theorem Inv.not_has (h : s.Inv) (hgone : (fd, k) ∈ s.gone)
    (hfew : s.reuses fd.fixedIndex k < fileGenerations) (entry : RegisteredFileEntry) :
    ¬ s.files.Has fd.fixedIndex entry fd.generation := by
  intro hs
  obtain ⟨hgeneration, hk⟩ := h.gone fd k hgone
  unfold reuses at hfew
  rw [if_neg (h.table.not_free hs)] at hfew
  refine generationAfter_ne hk (by omega) ?_
  rw [← hgeneration]
  exact (h.generation _ _ hs).symm

end FileCallers

/-- What resolves names an entry. -/
theorem has_of_resolve {files : UringFiles} {fd : IoFd} {kind : Option RawHandleKind} {i : Nat}
    (h : resolveRegisteredFixedFd files.fileSlots fd kind = .ok i) :
    ∃ entry, files.Has fd.fixedIndex entry fd.generation := by
  unfold resolveRegisteredFixedFd at h
  cases hslot : files.fileSlots[fd.fixedIndex]? with
  | none =>
    rw [hslot] at h
    cases h
  | some slot =>
    rw [hslot] at h
    dsimp only at h
    split at h
    case isTrue => cases h
    case isFalse heq =>
      obtain ⟨entry, generation⟩ := slot
      cases entry with
      | none => cases h
      | some entry =>
        have hgeneration : generation = fd.generation := Classical.not_not.mp heq
        rw [hgeneration] at hslot
        exact ⟨entry, hslot⟩

/-- **The registered-file table stays consistent.**  Whatever descriptors the calls are made with
and whichever of the kernel's updates fail: the free slots are the empty ones, each once; the
kernel has the descriptors of the entries; no call panics; the descriptors that are registered
are different; and one that was unregistered does nothing any more until its slot has been used
again `2 ^ 64 - 1` times. -/
theorem registered_files_consistent {fails : Nat → Bool} {entries : UInt32} {s : FileCallers}
    (h : Run (FileStep fails) Always (fun s => s = .new entries) s) :
    s.files.freeFileSlots.Nodup ∧
    (∀ i, i ∈ s.files.freeFileSlots ↔
      ∃ slot, s.files.fileSlots[i]? = some slot ∧ slot.entry = none) ∧
    s.files.kernel = s.files.fileSlots.map (fun slot => entryFd slot.entry) ∧
    (∀ e, s.next fails e ≠ none) ∧
    s.live.Nodup ∧
    ∀ fd k, (fd, k) ∈ s.gone → s.reuses fd.fixedIndex k < 2 ^ 64 - 1 →
      (∀ kind i, resolveRegisteredFixedFd s.files.fileSlots fd kind ≠ .ok i) ∧
      s.files.unregisterFixedFd fails fd = (s.files, .ok ()) ∧
      s.files.unregisterCloseOwnedFd fails fd = (s.files, .ok ()) ∧
      ∀ raw, ∃ e, s.files.replaceRegisteredFixedFd fails fd raw = (s.files, .error e) := by
  have hinv : s.Inv := by
    refine h.invariant (fun s hs => ?_) fun s e s' hs _ hstep => ?_
    · rw [hs]
      exact .new entries
    · obtain ⟨s'', hnext, hinv⟩ := hs.next fails e
      cases hnext.symm.trans hstep
      exact hinv
  refine ⟨hinv.table.nodup, fun i => ?_, hinv.table.kernel, fun e => ?_, hinv.nodup,
    fun fd k hgone hfew => ?_⟩
  · rw [hinv.table.free]
    constructor
    · rintro ⟨generation, hslot⟩
      exact ⟨_, hslot, rfl⟩
    · rintro ⟨slot, hslot, hnone⟩
      exact ⟨slot.generation, by rw [hslot, ← hnone]⟩
  · obtain ⟨s', hnext, -⟩ := hinv.next fails e
    rw [hnext]
    exact Option.some_ne_none s'
  · have hnot := hinv.not_has hgone hfew
    have hunregister : s.files.unregisterFixedFd fails fd = (s.files, .ok ()) := by
      generalize hresult : s.files.unregisterFixedFd fails fd = result
      have houtcome := hinv.table.unregisterFixedFd_outcome fails fd
      rw [hresult] at houtcome
      cases houtcome with
      | stale => rfl
      | failed hs => exact absurd hs (hnot _)
      | emptied hs => exact absurd hs (hnot _)
    refine ⟨fun kind i hresolve => ?_, hunregister, ?_, fun raw => ?_⟩
    · obtain ⟨entry, hs⟩ := has_of_resolve hresolve
      exact hnot entry hs
    · rw [UringFiles.unregisterCloseOwnedFd_eq, hunregister]
    · generalize hresult : s.files.replaceRegisteredFixedFd fails fd raw = result
      have houtcome := hinv.table.replace_outcome fails fd raw
      rw [hresult] at houtcome
      cases houtcome with
      | refused e => exact ⟨e, rfl⟩
      | failed hs => exact absurd hs (hnot _)
      | replaced hs => exact absurd hs (hnot _)

namespace FileCallers

/-- A ring of two entries.  The second file of the first call fails, and so does its rollback; the
slot that is left is registered again after the first one was unregistered. -/
def failing (n : Nat) : Bool := n == 2 || n == 3

def fileCalls : List FileCall :=
  [.register [.borrowed ⟨7, .file⟩, .owned ⟨8, .socket⟩], .register [.owned ⟨9, .socket⟩],
    .replace ⟨1, 1⟩ ⟨10, .socket⟩, .unregister ⟨1, 1⟩, .unregisterCloseOwned ⟨1, 1⟩,
    .register [.borrowed ⟨11, .file⟩]]

def reused : FileCallers :=
  (replay (next failing) (fun _ _ => true) (.new 2) fileCalls).get (by decide +kernel)

end FileCallers

theorem registered_files_consistent_reused :
    FileCallers.reused.files.kernel = [7, 11] ∧ FileCallers.reused.live = [⟨1, 2⟩] ∧
      (⟨1, 1⟩, 0) ∈ FileCallers.reused.gone ∧
      FileCallers.reused.files.unregisterFixedFd FileCallers.failing ⟨1, 1⟩ =
        (FileCallers.reused.files, .ok ()) := by
  have hstart : Run (FileStep FileCallers.failing) Always (fun s => s = FileCallers.new 2)
      (FileCallers.new 2) := Run.start rfl
  have hreplay : replay (FileCallers.next FileCallers.failing) (fun _ _ => true) (.new 2)
      FileCallers.fileCalls = some FileCallers.reused := (Option.some_get _).symm
  have hrun := hstart.replay (fun _ _ _ hs => hs) (fun _ _ _ => trivial) hreplay
  have hgone : ((⟨1, 1⟩, 0) : IoFd × Nat) ∈ FileCallers.reused.gone := by decide +kernel
  exact ⟨by decide +kernel, by decide +kernel, hgone,
    ((registered_files_consistent hrun).2.2.2.2.2 ⟨1, 1⟩ 0 hgone (by decide +kernel)).2.1⟩

end Veloq.Driver
