import Veloq.Foundation.Run
import Mathlib.Algebra.Group.Nat.Defs
import Mathlib.Logic.Function.Basic
set_option autoImplicit false

/-!
# Driver: the registered files of io_uring

`driver/registration.rs`.  The kernel has a table of registered files; the driver keeps the
entries, with a generation for each slot, and the slots that are free.  An `IoFd` names a slot and
a generation.  Which of the kernel's updates fail is a parameter, by the number of the call; a
failed update leaves the kernel's table as it was.  `none` as the outcome of an operation is a
panic.
-/

namespace Veloq.Driver

/-- `INITIAL_FILE_GENERATION`. -/
def initialFileGeneration : Nat := 1

/-- `MIN_FILE_TABLE_CAPACITY`. -/
def minFileTableCapacity : Nat := 1

inductive RawHandleKind where
  | file
  | socket
  deriving DecidableEq, Repr

structure RawHandle where
  fd : Int
  kind : RawHandleKind
  deriving DecidableEq, Repr

/-- `RegisterFd`. -/
inductive RegisterFd where
  | borrowed (raw : RawHandle)
  | owned (raw : RawHandle)
  deriving DecidableEq, Repr

inductive RegisteredFileEntry where
  | borrowedFd (fd : Int) (kind : RawHandleKind)
  | ownedHandle (handle : RawHandle)
  deriving DecidableEq, Repr

namespace RegisteredFileEntry

def fd : RegisteredFileEntry → Int
  | .borrowedFd fd _ => fd
  | .ownedHandle handle => handle.fd

def kind : RegisteredFileEntry → RawHandleKind
  | .borrowedFd _ kind => kind
  | .ownedHandle handle => handle.kind

end RegisteredFileEntry

/-- What `register_files_internal` puts into a slot. -/
def RegisterFd.entry : RegisterFd → RegisteredFileEntry
  | .borrowed raw => .borrowedFd raw.fd raw.kind
  | .owned raw => .ownedHandle raw

structure FileSlot where
  entry : Option RegisteredFileEntry
  generation : Nat
  deriving DecidableEq, Repr

structure IoFd where
  fixedIndex : Nat
  generation : Nat
  deriving DecidableEq, Repr

/-- The reports, by their notes; `registration` is the one of a failed call of the kernel. -/
inductive FileError where
  | indexOutOfBounds
  | staleGeneration
  | invalidDescriptor
  | kindMismatch
  | registration
  | notInitialized
  | replaceOutOfBounds
  | replaceGenerationMismatch
  | replaceEmptySlot
  | exhausted
  | rollbackFailed
  deriving DecidableEq, Repr

/-- `resolve_registered_fixed_fd`. -/
def resolveRegisteredFixedFd (fileSlots : List FileSlot) (fd : IoFd)
    (expectedKind : Option RawHandleKind) : Except FileError Nat :=
  match fileSlots[fd.fixedIndex]? with
  | none => .error .indexOutOfBounds
  | some slot =>
      if slot.generation ≠ fd.generation then
        .error .staleGeneration
      else
        match slot.entry with
        | none => .error .invalidDescriptor
        | some entry =>
            match expectedKind with
            | none => .ok fd.fixedIndex
            | some expected =>
                if entry.kind ≠ expected then .error .kindMismatch else .ok fd.fixedIndex

/-- `advance_file_generation`. -/
def advanceFileGeneration (generation : Nat) : Nat :=
  let next := (generation + 1) % 2 ^ 64
  if next = 0 then initialFileGeneration else next

/-- The file table of the driver, the one of the kernel, and the number of calls made.  The last
of `free_file_slots` is the first here. -/
structure UringFiles where
  capacity : Nat
  fileSlots : List FileSlot
  freeFileSlots : List Nat
  fileTableInitialized : Bool
  kernel : List Int
  calls : Nat

namespace UringFiles

/-- A driver with a ring of `entries`. -/
def new (entries : UInt32) : UringFiles where
  capacity := entries.toNat
  fileSlots := []
  freeFileSlots := []
  fileTableInitialized := false
  kernel := []
  calls := 0

variable (fails : Nat → Bool) (s : UringFiles)

/-- The kernel's `register_files_update` of one slot. -/
def registerFilesUpdate (idx : Nat) (fd : Int) : UringFiles × Bool :=
  ({ s with
      kernel := if fails s.calls then s.kernel else s.kernel.set idx fd
      calls := s.calls + 1 }, !fails s.calls)

/-- The kernel's `register_files`. -/
def registerFiles (table : List Int) : UringFiles × Bool :=
  ({ s with
      kernel := if fails s.calls then s.kernel else table
      calls := s.calls + 1 }, !fails s.calls)

def setSlot (idx : Nat) (slot : FileSlot) : UringFiles :=
  { s with fileSlots := s.fileSlots.set idx slot }

def setEntry (idx : Nat) (entry : Option RegisteredFileEntry) : UringFiles :=
  { s with fileSlots := s.fileSlots.modify idx fun slot => { slot with entry := entry } }

def advanceSlot (idx : Nat) : UringFiles :=
  { s with fileSlots := s.fileSlots.modify idx fun slot =>
      { slot with generation := advanceFileGeneration slot.generation } }

/-- `free_file_slots.push`. -/
def pushFree (idx : Nat) : UringFiles := { s with freeFileSlots := idx :: s.freeFileSlots }

/-- `unregister_file_slot`. -/
def unregisterFileSlot (idx : Nat) (advanceGeneration : Bool) :
    UringFiles × Except FileError Unit :=
  match s.fileSlots[idx]? with
  | none => (s, .ok ())
  | some slot =>
      match slot.entry with
      | none => (s, .ok ())
      | some entry =>
          match (s.setEntry idx none).registerFilesUpdate fails idx (-1) with
          | (s, false) => (s.setEntry idx (some entry), .error .registration)
          | (s, true) =>
              let s := s.pushFree idx
              (if advanceGeneration then s.advanceSlot idx else s, .ok ())

/-- `rollback_file_slots`, the last slot first; the first error is kept. -/
def rollbackFileSlots : List Nat → UringFiles → UringFiles × Except FileError Unit
  | [], s => (s, .ok ())
  | idx :: registered, s =>
      match s.unregisterFileSlot fails idx false with
      | (s, .ok ()) => rollbackFileSlots registered s
      | (s, .error e) => ((rollbackFileSlots registered s).1, .error e)

/-- `unregister_fixed_fd`. -/
def unregisterFixedFd (fd : IoFd) : UringFiles × Except FileError Unit :=
  if s.fileTableInitialized = false then
    (s, .ok ())
  else
    match s.fileSlots[fd.fixedIndex]? with
    | none => (s, .ok ())
    | some slot =>
        if slot.generation ≠ fd.generation then (s, .ok ())
        else s.unregisterFileSlot fails fd.fixedIndex true

/-- `unregister_close_owned_fd`, which leaves the descriptor to the kernel's close. -/
def unregisterCloseOwnedFd (fd : IoFd) : UringFiles × Except FileError Unit :=
  if s.fileTableInitialized = false then
    (s, .ok ())
  else
    match s.fileSlots[fd.fixedIndex]? with
    | none => (s, .ok ())
    | some slot =>
        if slot.generation ≠ fd.generation then (s, .ok ())
        else
          match slot.entry with
          | none => (s, .ok ())
          | some entry =>
              match (s.setEntry fd.fixedIndex none).registerFilesUpdate fails fd.fixedIndex (-1) with
              | (s, false) => (s.setEntry fd.fixedIndex (some entry), .error .registration)
              | (s, true) => ((s.pushFree fd.fixedIndex).advanceSlot fd.fixedIndex, .ok ())

/-- `replace_registered_fixed_fd`. -/
def replaceRegisteredFixedFd (fixedFd : IoFd) (raw : RawHandle) :
    UringFiles × Except FileError Unit :=
  if s.fileTableInitialized = false then
    (s, .error .notInitialized)
  else
    match s.fileSlots[fixedFd.fixedIndex]? with
    | none => (s, .error .replaceOutOfBounds)
    | some slot =>
        if slot.generation ≠ fixedFd.generation then (s, .error .replaceGenerationMismatch)
        else if slot.entry = none then (s, .error .replaceEmptySlot)
        else
          match s.registerFilesUpdate fails fixedFd.fixedIndex raw.fd with
          | (s, false) => (s, .error .registration)
          | (s, true) =>
              (s.setEntry fixedFd.fixedIndex (some (.borrowedFd raw.fd raw.kind)), .ok ())

/-- `ensure_file_table_initialized`. -/
def ensureFileTableInitialized : UringFiles × Except FileError Unit :=
  if s.fileTableInitialized then
    (s, .ok ())
  else
    let capacity := max s.capacity minFileTableCapacity
    match s.registerFiles fails (List.replicate capacity (-1)) with
    | (s, false) => (s, .error .registration)
    | (s, true) =>
        ({ s with
            fileSlots := List.replicate capacity
              { entry := none, generation := initialFileGeneration }
            freeFileSlots := List.range (capacity % 2 ^ 32)
            fileTableInitialized := true }, .ok ())

/-- The loop of `register_files_internal`; `registered` are the slots so far, the last first. -/
def registerLoop : List RegisterFd → List IoFd → List Nat → UringFiles →
    Option (UringFiles × Except FileError (List IoFd))
  | [], fixedFds, _, s => some (s, .ok fixedFds)
  | file :: files, fixedFds, registered, s =>
      match s.freeFileSlots with
      | [] => none
      | idx :: free =>
          match ({ s with freeFileSlots := free } : UringFiles).registerFilesUpdate fails idx
              file.entry.fd with
          | (s, false) =>
              match (s.pushFree idx).rollbackFileSlots fails registered with
              | (s, .error _) => some (s, .error .rollbackFailed)
              | (s, .ok ()) => some (s, .error .registration)
          | (s, true) =>
              match s.fileSlots[idx]? with
              | none => none
              | some slot =>
                  registerLoop files (fixedFds ++ [⟨idx, slot.generation⟩]) (idx :: registered)
                    (s.setEntry idx (some file.entry))

/-- `register_files_internal`. -/
def registerFilesInternal (files : List RegisterFd) :
    Option (UringFiles × Except FileError (List IoFd)) :=
  match s.ensureFileTableInitialized fails with
  | (s, .error e) => some (s, .error e)
  | (s, .ok ()) =>
      if s.freeFileSlots.length < files.length then some (s, .error .exhausted)
      else registerLoop fails files [] [] s

end UringFiles

/-! ## Callers -/

inductive FileCall where
  | register (files : List RegisterFd)
  | unregister (fd : IoFd)
  | unregisterCloseOwned (fd : IoFd)
  | replace (fd : IoFd) (raw : RawHandle)
  deriving DecidableEq, Repr

/-- The files with what the callers know: the descriptors that they were given and have not
unregistered, those that they have, each with how often its slot had been retired before, and how
often each slot has been retired. -/
structure FileCallers where
  files : UringFiles
  live : List IoFd
  gone : List (IoFd × Nat)
  retired : Nat → Nat

namespace FileCallers

def new (entries : UInt32) : FileCallers where
  files := .new entries
  live := []
  gone := []
  retired := fun _ => 0

/-- The generation of a slot. -/
def generationAt (files : UringFiles) (idx : Nat) : Option Nat :=
  files.fileSlots[idx]?.map FileSlot.generation

/-- What an unregistration means to the callers. -/
def settle (s : FileCallers) (fd : IoFd) : UringFiles × Except FileError Unit → FileCallers
  | (files, .error _) => { s with files := files }
  | (files, .ok ()) =>
      { files := files
        live := s.live.erase fd
        gone := if fd ∈ s.live then (fd, s.retired fd.fixedIndex) :: s.gone else s.gone
        retired :=
          if generationAt files fd.fixedIndex = generationAt s.files fd.fixedIndex then s.retired
          else Function.update s.retired fd.fixedIndex (s.retired fd.fixedIndex + 1) }

/-- How often a slot has been used again since it was retired for the `k`-th time, counting from
zero: each use but the one at present has ended with a retirement. -/
def reuses (s : FileCallers) (idx k : Nat) : Nat :=
  s.retired idx - (k + 1) + if idx ∈ s.files.freeFileSlots then 0 else 1

def next (fails : Nat → Bool) (s : FileCallers) : FileCall → Option FileCallers
  | .register files =>
      (s.files.registerFilesInternal fails files).map fun
        | (files, .ok fds) => { s with files := files, live := fds ++ s.live }
        | (files, .error _) => { s with files := files }
  | .unregister fd => some (s.settle fd (s.files.unregisterFixedFd fails fd))
  | .unregisterCloseOwned fd => some (s.settle fd (s.files.unregisterCloseOwnedFd fails fd))
  | .replace fd raw => some { s with files := (s.files.replaceRegisteredFixedFd fails fd raw).1 }

end FileCallers

/-- The steps as a relation. -/
def FileStep (fails : Nat → Bool) (s : FileCallers) (e : FileCall) (s' : FileCallers) : Prop :=
  s.next fails e = some s'

end Veloq.Driver
