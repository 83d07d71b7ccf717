import Veloq.Driver.UringFilesRuns
set_option autoImplicit false

/-!
# Driver: a failed batch of files is undone

`register_files_internal` takes back the slots of a batch when the kernel refuses one of them.
What is carried along the loop is that a rollback of the slots so far leads to the table of the
beginning.
-/

namespace Veloq.Driver

open Veloq.Foundation

namespace UringFiles

variable {fails : Nat → Bool} {s start : UringFiles} {idx : Nat}

/-- A rollback of `registered` in `s` leads to `start`, up to the number of calls. -/
def Undoes (fails : Nat → Bool) (start s : UringFiles) (registered : List Nat) : Prop :=
  ∀ n, (∀ i < registered.length, fails (n + i) = false) →
    rollbackFileSlots fails registered { s with calls := n } =
      ({ start with calls := n + registered.length }, .ok ())

/-- A slot is emptied again as it was. -/
theorem Table.unregister_filled (h : s.Table) {free : List Nat} {generation n : Nat}
    (hfree : s.freeFileSlots = idx :: free) (hslot : s.fileSlots[idx]? = some ⟨none, generation⟩)
    (entry : RegisteredFileEntry) (hdone : fails n = false) :
    unregisterFileSlot fails { s.filled idx free ⟨none, generation⟩ entry with calls := n } idx
      false = ({ s with calls := n + 1 }, .ok ()) := by
  have hlt := (List.getElem?_eq_some_iff.mp hslot).1
  have hkernel : s.kernel[idx]? = some (-1) := by
    rw [h.kernel, List.getElem?_map, hslot]
    rfl
  have hfilled : (s.fileSlots.set idx ⟨some entry, generation⟩)[idx]? =
      some ⟨some entry, generation⟩ := List.getElem?_set_self hlt
  have hentry : ({ s.filled idx free ⟨none, generation⟩ entry with calls := n } :
      UringFiles).setEntry idx none = { s with
        freeFileSlots := free
        kernel := s.kernel.set idx entry.fd
        calls := n } := by
    rw [setEntry_eq (show ({ s.filled idx free ⟨none, generation⟩ entry with calls := n } :
      UringFiles).fileSlots[idx]? = _ from hfilled)]
    unfold setSlot UringFiles.filled
    dsimp only
    rw [List.set_set, set_same hslot]
  unfold unregisterFileSlot
  rw [show ({ s.filled idx free ⟨none, generation⟩ entry with calls := n } :
    UringFiles).fileSlots[idx]? = _ from hfilled]
  dsimp only
  rw [hentry, registerFilesUpdate_done hdone]
  unfold pushFree
  dsimp only
  rw [List.set_set, set_same hkernel, ← hfree]
  rfl

/-- One more slot is registered. -/
theorem Undoes.filled {registered : List Nat} (hundo : Undoes fails start s registered)
    (h : s.Table) {free : List Nat} {generation : Nat} (hfree : s.freeFileSlots = idx :: free)
    (hslot : s.fileSlots[idx]? = some ⟨none, generation⟩) (entry : RegisteredFileEntry) :
    Undoes fails start (s.filled idx free ⟨none, generation⟩ entry) (idx :: registered) := by
  intro n hdone
  have hfirst : fails n = false := hdone 0 (Nat.succ_pos _)
  rw [rollbackFileSlots, h.unregister_filled hfree hslot entry hfirst]
  dsimp only
  rw [hundo (n + 1) fun i hi => ?_, List.length_cons, Nat.add_assoc, Nat.add_comm 1]
  rw [Nat.add_assoc, Nat.add_comm 1]
  exact hdone (i + 1) (Nat.succ_lt_succ hi)

/-- The loop fails with its `n`-th file. -/
theorem Undoes.registerLoop {registered : List Nat} (hundo : Undoes fails start s registered)
    (h : s.Table) {files : List RegisterFd} (hroom : files.length ≤ s.freeFileSlots.length)
    (fixedFds : List IoFd) {n : Nat} (hn : n < files.length)
    (hdone : ∀ i < n, fails (s.calls + i) = false) (hfail : fails (s.calls + n) = true)
    (hback : ∀ i < registered.length + n, fails (s.calls + n + 1 + i) = false) :
    UringFiles.registerLoop fails files fixedFds registered s =
      some ({ start with calls := s.calls + n + 1 + (registered.length + n) },
        .error .registration) := by
  induction files generalizing s registered fixedFds n with
  | nil => exact absurd hn (Nat.not_lt_zero n)
  | cons file files ih =>
    rw [UringFiles.registerLoop]
    cases hfree : s.freeFileSlots with
    | nil =>
      rw [hfree] at hroom
      exact absurd hroom (Nat.not_succ_le_zero _)
    | cons idx free =>
      dsimp only
      rcases n with _ | n
      · have hpush : ({ s with freeFileSlots := free, calls := s.calls + 1 } :
            UringFiles).pushFree idx = { s with calls := s.calls + 1 } := by
          unfold pushFree
          dsimp only
          rw [← hfree]
        rw [registerFilesUpdate_failed (show fails ({ s with
          freeFileSlots := free } : UringFiles).calls = true from hfail)]
        dsimp only
        rw [hpush, hundo (s.calls + 1) hback]
        rfl
      · have hmem : idx ∈ s.freeFileSlots := by
          rw [hfree]
          exact List.mem_cons_self ..
        obtain ⟨generation, hslot⟩ := (h.free idx).mp hmem
        have hlength : files.length ≤ free.length := by
          rw [hfree] at hroom
          exact Nat.le_of_succ_le_succ hroom
        rw [registerFilesUpdate_done (show fails ({ s with
          freeFileSlots := free } : UringFiles).calls = false from hdone 0 (Nat.succ_pos n))]
        dsimp only
        rw [hslot]
        dsimp only
        rw [setEntry_eq (show ({ s with
          freeFileSlots := free
          kernel := s.kernel.set idx file.entry.fd
          calls := s.calls + 1 } : UringFiles).fileSlots[idx]? = some ⟨none, generation⟩ from hslot)]
        have hshift : s.calls + 1 + n = s.calls + (n + 1) := by omega
        have hrest := ih (hundo.filled h hfree hslot file.entry) (h.filled hfree hslot file.entry)
          hlength (fixedFds ++ [⟨idx, generation⟩]) (Nat.lt_of_succ_lt_succ hn)
          (fun i hi => by
            show fails (s.calls + 1 + i) = false
            rw [Nat.add_assoc, Nat.add_comm 1]
            exact hdone (i + 1) (Nat.succ_lt_succ hi))
          (hshift ▸ hfail)
          (fun i hi => by
            show fails (s.calls + 1 + n + 1 + i) = false
            rw [hshift]
            refine hback i ?_
            rw [List.length_cons] at hi
            omega)
        refine hrest.trans ?_
        rw [List.length_cons, show (s.filled idx free ⟨none, generation⟩ file.entry).calls =
          s.calls + 1 from rfl, hshift, Nat.add_assoc registered.length 1 n, Nat.add_comm 1 n]

end UringFiles

theorem FileCallers.inv_of_run {fails : Nat → Bool} {entries : UInt32} {s : FileCallers}
    (h : Run (FileStep fails) Always (fun s => s = .new entries) s) : s.Inv := by
  refine h.invariant (fun s hs => ?_) fun s e s' hs _ hstep => ?_
  · rw [hs]
    exact .new entries
  · obtain ⟨s'', hnext, hinv⟩ := hs.next fails e
    cases hnext.symm.trans hstep
    exact hinv

/-- **A failed batch is undone.**  Whatever has happened to the table: a batch that does not fit
is refused before anything is touched, and where the kernel refuses a file of the batch, and no
update of the rollback, only the number of calls has changed. -/
theorem failed_batch_undone {fails : Nat → Bool} {entries : UInt32} {s : FileCallers}
    (h : Run (FileStep fails) Always (fun s => s = .new entries) s)
    (hinit : s.files.fileTableInitialized = true) (files : List RegisterFd) :
    (s.files.freeFileSlots.length < files.length →
      s.files.registerFilesInternal fails files = some (s.files, .error .exhausted)) ∧
    (files.length ≤ s.files.freeFileSlots.length → ∀ n < files.length,
      (∀ i < n, fails (s.files.calls + i) = false) → fails (s.files.calls + n) = true →
      (∀ i < n, fails (s.files.calls + n + 1 + i) = false) →
      s.files.registerFilesInternal fails files =
        some ({ s.files with calls := s.files.calls + n + 1 + n }, .error .registration)) := by
  have hinv := FileCallers.inv_of_run h
  have hensure : s.files.ensureFileTableInitialized fails = (s.files, .ok ()) := by
    unfold UringFiles.ensureFileTableInitialized
    rw [if_pos hinit]
  unfold UringFiles.registerFilesInternal
  rw [hensure]
  dsimp only
  refine ⟨fun hfull => if_pos hfull, fun hroom n hn hdone hfail hback => ?_⟩
  have hundo : UringFiles.Undoes fails s.files s.files [] := fun m _ => rfl
  rw [if_neg (Nat.not_lt.mpr hroom), hundo.registerLoop hinv.table hroom [] hn hdone hfail
    (by rwa [List.length_nil, Nat.zero_add]), List.length_nil, Nat.zero_add]

namespace FileCallers

/-- The second file of the second batch is refused. -/
def refusing (n : Nat) : Bool := n == 3

def refused : FileCallers :=
  (replay (next refusing) (fun _ _ => true) (.new 4) [.register [.borrowed ⟨7, .file⟩]]).get
    (by decide +kernel)

end FileCallers

theorem FileCallers.refused_run :
    Run (FileStep refusing) Always (fun s => s = .new 4) refused := by
  have hstart : Run (FileStep refusing) Always (fun s => s = FileCallers.new 4) (.new 4) :=
    Run.start rfl
  have hreplay : replay (next refusing) (fun _ _ => true) (.new 4)
      [.register [.borrowed ⟨7, .file⟩]] = some refused := (Option.some_get _).symm
  exact hstart.replay (fun _ _ _ hs => hs) (fun _ _ _ => trivial) hreplay

theorem failed_batch_undone_refused :
    FileCallers.refused.files.registerFilesInternal FileCallers.refusing
        [.borrowed ⟨8, .file⟩, .owned ⟨9, .socket⟩] =
      some ({ FileCallers.refused.files with calls := 5 }, .error .registration) := by
  exact (failed_batch_undone FileCallers.refused_run (by decide +kernel) _).2 (by decide +kernel) 1
    (by decide) (fun i hi => by cases Nat.lt_one_iff.mp hi; decide +kernel) (by decide +kernel)
    (fun i hi => by cases Nat.lt_one_iff.mp hi; decide +kernel)

end Veloq.Driver
