import Veloq.Rio.Buffers
set_option autoImplicit false

/-!
# RIO: the descriptor of a submission

`prepare_submission` of `rio/core/registry.rs`: from a buffer, an offset into it and the
kind of the submission to the `RIO_BUF` that the kernel gets.
-/

namespace Veloq.Rio

open Buffer

/-- `RioSubmissionKind`. -/
inductive SubmissionKind where
  | recv
  | send
  deriving DecidableEq, Repr

namespace SubmissionKind

/-- `bound`. -/
def bound (kind : SubmissionKind) (buf : FixedBuf) : Nat :=
  match kind with
  | .recv => buf.capacity
  | .send => buf.len

/-- `offset_exceeded_note`. -/
def offsetExceededNote : SubmissionKind → String
  | .recv => "RIO recv buffer offset exceeds buffer capacity"
  | .send => "RIO send buffer offset exceeds buffer length"

/-- `data_len`. -/
def dataLen (kind : SubmissionKind) (buf : FixedBuf) (bufOffset : Nat) : RioResult Nat :=
  if kind.bound buf < bufOffset then
    .error ⟨.invalidInput, kind.offsetExceededNote⟩
  else if kind.bound buf - bufOffset < 2 ^ 32 then
    .ok (kind.bound buf - bufOffset)
  else
    .error ⟨.resourceExhaustion, "RIO data buffer length exceeds u32"⟩

end SubmissionKind

/-- `RIO_BUF`. -/
structure RioBuf where
  bufferId : BufferId
  offset : Nat
  length : Nat
  deriving DecidableEq, Repr

/-- `RioPreparedBuffer`. -/
structure PreparedBuffer where
  rioBuf : RioBuf
  lease : Option BufferLeaseToken
  deriving DecidableEq, Repr

/-- `checked_rio_buffer_offset`. -/
def checkedRioBufferOffset (baseOffset bufOffset : Nat) : RioResult Nat :=
  if 2 ^ 32 ≤ baseOffset then
    .error ⟨.resourceExhaustion, "RIO registered buffer base offset exceeds u32"⟩
  else if baseOffset + bufOffset < 2 ^ 32 then
    .ok (baseOffset + bufOffset)
  else
    .error ⟨.resourceExhaustion, "RIO buffer offset addition overflow"⟩

namespace Buffers

/-- The end of `prepare_submission`. -/
def descriptor (resolved : Resolved) (bufOffset len : Nat) : RioResult PreparedBuffer :=
  match checkedRioBufferOffset resolved.2.1 bufOffset with
  | .error e => .error e
  | .ok offset => .ok ⟨⟨resolved.1, offset, len⟩, resolved.2.2⟩

/-- `prepare_submission`; `info` is `buf.resolve_region_info()`. -/
def prepareSubmission (b : Buffers) (buf : FixedBuf) (info : RegionInfo) (bufOffset len : Nat)
    (env : BufferEnv) : RioResult PreparedBuffer × Buffers × List KernelCall :=
  if 2 ^ 32 ≤ bufOffset then
    (.error ⟨.invalidInput, "RIO buffer offset exceeds u32"⟩, b, [])
  else
    match b.resolveBufferId buf info env with
    | (.error e, b, calls) => (.error e, b, calls)
    | (.ok resolved, b, calls) => (descriptor resolved bufOffset len, b, calls)

/-- `data_len` and `prepare_submission`, as the stage `prepare_buffer` calls them. -/
def prepareBuffer (b : Buffers) (buf : FixedBuf) (info : RegionInfo) (kind : SubmissionKind)
    (bufOffset : Nat) (env : BufferEnv) : RioResult PreparedBuffer × Buffers × List KernelCall :=
  match kind.dataLen buf bufOffset with
  | .error e => (.error e, b, [])
  | .ok len => b.prepareSubmission buf info bufOffset len env

variable {b b' : Buffers} {buf : FixedBuf} {info : RegionInfo} {kind : SubmissionKind}
  {bufOffset : Nat} {env : BufferEnv} {calls : List KernelCall} {prepared : PreparedBuffer}

theorem bound_le_cap (kind : SubmissionKind) (buf : FixedBuf) : kind.bound buf ≤ buf.cap := by
  cases kind with
  | recv => exact Nat.le_refl _
  | send => exact buf.len_le

theorem bound_lt (kind : SubmissionKind) (buf : FixedBuf) : kind.bound buf < 2 ^ 32 :=
  Nat.lt_of_le_of_lt (bound_le_cap kind buf) buf.cap_lt

/-- The length of a submission is what is left of the buffer behind the offset. -/
theorem dataLen_eq (h : bufOffset ≤ kind.bound buf) :
    kind.dataLen buf bufOffset = .ok (kind.bound buf - bufOffset) := by
  have hlt := bound_lt kind buf
  unfold SubmissionKind.dataLen
  rw [if_neg (Nat.not_lt_of_le h), if_pos (Nat.lt_of_le_of_lt (Nat.sub_le ..) hlt)]

theorem dataLen_error (h : kind.bound buf < bufOffset) :
    kind.dataLen buf bufOffset = .error ⟨.invalidInput, kind.offsetExceededNote⟩ := if_pos h

/-- The checked sum of the offsets is the sum, where it fits. -/
theorem checkedRioBufferOffset_ok_iff {base offset : Nat} :
    checkedRioBufferOffset base bufOffset = .ok offset ↔
      base + bufOffset < 2 ^ 32 ∧ offset = base + bufOffset := by
  unfold checkedRioBufferOffset
  by_cases hbase : 2 ^ 32 ≤ base
  · rw [if_pos hbase]
    exact iff_of_false (fun h => by cases h) (fun h => by omega)
  · rw [if_neg hbase]
    by_cases hsum : base + bufOffset < 2 ^ 32
    · rw [if_pos hsum]
      constructor
      · intro h
        cases h
        exact ⟨hsum, rfl⟩
      · rintro ⟨-, rfl⟩
        rfl
    · rw [if_neg hsum]
      exact iff_of_false (fun h => by cases h) (fun h => hsum h.1)

/-- A descriptor stands for what was resolved, with the sum of the offsets. -/
theorem prepareBuffer_ok_iff :
    b.prepareBuffer buf info kind bufOffset env = (.ok prepared, b', calls) ↔
      ∃ id base lease, b.resolveBufferId buf info env = (.ok (id, base, lease), b', calls) ∧
        bufOffset ≤ kind.bound buf ∧ base + bufOffset < 2 ^ 32 ∧
        prepared = ⟨⟨id, base + bufOffset, kind.bound buf - bufOffset⟩, lease⟩ := by
  unfold prepareBuffer
  by_cases hbound : bufOffset ≤ kind.bound buf
  · have hlt : bufOffset < 2 ^ 32 := Nat.lt_of_le_of_lt hbound (bound_lt kind buf)
    rw [dataLen_eq hbound]
    unfold prepareSubmission
    dsimp only
    rw [if_neg (Nat.not_le_of_lt hlt)]
    cases hresolve : b.resolveBufferId buf info env with
    | mk result rest =>
      obtain ⟨b₁, calls₁⟩ := rest
      cases result with
      | error e =>
        refine iff_of_false (fun h => by cases h) ?_
        rintro ⟨id, base, lease, h, -⟩
        cases h
      | ok resolved =>
        obtain ⟨id, base, lease⟩ := resolved
        dsimp only [descriptor]
        cases hoffset : checkedRioBufferOffset base bufOffset with
        | error e =>
          refine iff_of_false (fun h => by cases h) ?_
          rintro ⟨id', base', lease', h, -, hsum, -⟩
          cases h
          cases hoffset.symm.trans (checkedRioBufferOffset_ok_iff.mpr ⟨hsum, rfl⟩)
        | ok offset =>
          obtain ⟨hsum, rfl⟩ := checkedRioBufferOffset_ok_iff.mp hoffset
          constructor
          · intro h
            cases h
            exact ⟨id, base, lease, rfl, hbound, hsum, rfl⟩
          · rintro ⟨id', base', lease', h, -, -, rfl⟩
            cases h
            rfl
  · rw [dataLen_error (Nat.lt_of_not_le hbound)]
    refine iff_of_false (fun h => by cases h) ?_
    rintro ⟨id, base, lease, -, hbound', -⟩
    exact hbound hbound'

end Buffers

end Veloq.Rio
