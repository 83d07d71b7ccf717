import Mathlib.Data.Nat.Bitwise
set_option autoImplicit false

/-!
# Driver: operation tokens and completion tokens

`completion/token.rs`.  An operation is named by the index of its slot and the
slot's 32-bit generation.  The 64-bit `user_data` of a kernel submission has room
for a flag, 15 bits of generation and 48 bits of index, so `user` drops the upper
bits of the generation and `classify` gives back what is left of it.
-/

namespace Veloq.Driver

/-- `INDEX_LIMIT`. -/
def indexLimit : Nat := 2 ^ 48

/-- `CONTROL_TOKEN_FLAG`. -/
def controlTokenFlag : Nat := 2 ^ 63

/-- `OpToken`: an index that `try_new` accepts, and a `u32` generation. -/
structure OpToken where
  index : Nat
  generation : Nat
  index_lt : index < indexLimit
  generation_lt : generation < 2 ^ 32
  deriving DecidableEq

theorem indexLimit_pos : 0 < indexLimit := by decide

theorem one_lt_indexLimit : 1 < indexLimit := by decide

theorem two_lt_indexLimit : 2 < indexLimit := by decide

/-- The generation of a slot that is used for the first time. -/
theorem first_generation_lt : 1 < 2 ^ 32 := by decide

/-- `OpToken::try_new`; `none` is `ReservedControlIndex`. -/
def OpToken.tryNew (index generation : Nat) (hgen : generation < 2 ^ 32) : Option OpToken :=
  if h : index < indexLimit then some ⟨index, generation, h, hgen⟩ else none

/-- `CompletionControlKind`. -/
inductive CompletionControlKind where
  | waker
  | cancel
  deriving DecidableEq, Repr

/-- `CompletionControlKind::from_raw`. -/
def CompletionControlKind.fromRaw : Nat → Option CompletionControlKind
  | 1 => some .waker
  | 2 => some .cancel
  | _ => none

/-- `CompletionTokenClass`. -/
inductive CompletionTokenClass where
  | user (token : OpToken)
  | control (kind : CompletionControlKind) (id : Nat)
  | unknownControl (kind id : Nat)
  deriving DecidableEq

/-- `CompletionToken::user(token).raw()`. -/
def CompletionToken.user (token : OpToken) : Nat :=
  ((token.generation &&& 0x7fff) <<< 48) ||| (token.index &&& 0x0000ffffffffffff)

/-- `CompletionToken::classify` of a raw token. -/
def CompletionToken.classify (raw : Nat) : CompletionTokenClass :=
  let kind := (raw >>> 48) &&& 0x7fff
  let id := (raw >>> 32) &&& 0xffff
  let control := match CompletionControlKind.fromRaw kind with
    | some kind => CompletionTokenClass.control kind id
    | none => CompletionTokenClass.unknownControl kind id
  if raw &&& controlTokenFlag = 0 then
    let index := raw &&& 0x0000ffffffffffff
    let generation := (raw >>> 48) &&& 0x7fff
    match OpToken.tryNew index generation
        (Nat.lt_of_le_of_lt Nat.and_le_right (by decide)) with
    | some token => .user token
    | none => control
  else
    control

namespace CompletionToken

theorem and_low48 (n : Nat) : n &&& 0x0000ffffffffffff = n % 2 ^ 48 :=
  Nat.and_two_pow_sub_one_eq_mod n 48

theorem and_low15 (n : Nat) : n &&& 0x7fff = n % 2 ^ 15 :=
  Nat.and_two_pow_sub_one_eq_mod n 15

/-- The layout of a user token: 15 bits of generation above 48 bits of index. -/
theorem user_eq (token : OpToken) :
    user token = token.generation % 2 ^ 15 * 2 ^ 48 + token.index := by
  have hindex : token.index < 2 ^ 48 := token.index_lt
  rw [user, and_low15, and_low48, Nat.mod_eq_of_lt hindex,
    ← Nat.shiftLeft_add_eq_or_of_lt hindex, Nat.shiftLeft_eq]

/-- What is left of a token on its way through the kernel: its generation modulo
`2 ^ 15`. -/
theorem classify_user (token : OpToken) :
    classify (user token) = .user ⟨token.index, token.generation % 2 ^ 15, token.index_lt,
      Nat.lt_trans (Nat.mod_lt _ (Nat.two_pow_pos 15)) (by decide)⟩ := by
  have hindex : token.index < 2 ^ 48 := token.index_lt
  have hgen : token.generation % 2 ^ 15 < 2 ^ 15 := Nat.mod_lt _ (Nat.two_pow_pos 15)
  have hraw := user_eq token
  have hlow : user token &&& 0x0000ffffffffffff = token.index := by
    rw [and_low48, hraw]
    omega
  have hhigh : (user token >>> 48) &&& 0x7fff = token.generation % 2 ^ 15 := by
    rw [and_low15, Nat.shiftRight_eq_div_pow, hraw]
    omega
  have hflag : user token &&& controlTokenFlag = 0 := by
    rw [controlTokenFlag, Nat.and_two_pow]
    have hbit : (user token).testBit 63 = false := by
      refine Nat.testBit_lt_two_pow ?_
      rw [hraw]
      omega
    rw [hbit]
    rfl
  unfold classify
  simp only [hflag, if_true, hlow, hhigh, OpToken.tryNew]
  rw [dif_pos token.index_lt]

/-- A token survives the kernel when its generation fits into 15 bits, and only
then. -/
theorem classify_user_eq_iff (token : OpToken) :
    classify (user token) = .user token ↔ token.generation < 2 ^ 15 := by
  rw [classify_user]
  constructor
  · intro h
    have heq : token.generation % 2 ^ 15 = token.generation := by
      injection h with h
      exact congrArg OpToken.generation h
    rw [← heq]
    exact Nat.mod_lt _ (Nat.two_pow_pos 15)
  · intro h
    congr 1
    cases token
    simp only [OpToken.mk.injEq, true_and]
    exact Nat.mod_eq_of_lt h

/-! ## Control tokens -/

/-- The layout of `encode_control` and `internal`. -/
def control (kind id : Nat) : Nat := controlTokenFlag ||| kind <<< 48 ||| id <<< 32

/-- `CompletionToken::encode_control`; `none` is an error. -/
def encodeControl (kind id : Nat) : Option Nat :=
  if 0x7fff < kind then none else if kind = 1 ∨ kind = 2 then none else some (control kind id)

/-- `CompletionToken::waker`. -/
def waker (id : Nat) : Nat := control 1 id

/-- `CompletionToken::cancel`. -/
def cancel (id : Nat) : Nat := control 2 id

theorem control_eq {kind id : Nat} (hkind : kind < 2 ^ 15) (hid : id < 2 ^ 16) :
    control kind id = 2 ^ 63 + kind * 2 ^ 48 + id * 2 ^ 32 := by
  have hhigh : 1 <<< 63 ||| kind <<< 48 = (2 ^ 15 + kind) <<< 48 := by
    rw [← Nat.shiftLeft_add_eq_or_of_lt (by rw [Nat.shiftLeft_eq]; omega)]
    simp only [Nat.shiftLeft_eq]
    omega
  rw [control, show controlTokenFlag = 1 <<< 63 from rfl, hhigh,
    ← Nat.shiftLeft_add_eq_or_of_lt (by rw [Nat.shiftLeft_eq]; omega)]
  simp only [Nat.shiftLeft_eq]
  omega

theorem control_flag {kind id : Nat} (hkind : kind < 2 ^ 15) (hid : id < 2 ^ 16) :
    control kind id &&& controlTokenFlag ≠ 0 := by
  have hbit : (control kind id).testBit 63 = true := by
    rw [Nat.testBit_eq_decide_div_mod_eq, control_eq hkind hid]
    refine decide_eq_true ?_
    omega
  rw [controlTokenFlag, Nat.and_two_pow, hbit]
  decide

theorem classify_control {kind id : Nat} (hkind : kind < 2 ^ 15) (hid : id < 2 ^ 16) :
    classify (control kind id) = match CompletionControlKind.fromRaw kind with
      | some kind => .control kind id
      | none => .unknownControl kind id := by
  have hkind' : (control kind id >>> 48) &&& 0x7fff = kind := by
    rw [and_low15, Nat.shiftRight_eq_div_pow, control_eq hkind hid]
    omega
  have hid' : (control kind id >>> 32) &&& 0xffff = id := by
    rw [Nat.and_two_pow_sub_one_eq_mod _ 16, Nat.shiftRight_eq_div_pow, control_eq hkind hid]
    omega
  unfold classify
  simp only [control_flag hkind hid, if_false, hkind', hid']

/-- The tokens that a driver makes are told apart: the kinds and ids of the control tokens come
back as they were, those of other subsystems do not pass for the driver's own, and no control
token is the one of an operation. -/
theorem tokens_told_apart :
    (∀ id < 2 ^ 16, classify (waker id) = .control .waker id ∧
      classify (cancel id) = .control .cancel id) ∧
    (∀ kind raw, ∀ id < 2 ^ 16, encodeControl kind id = some raw →
      classify raw = .unknownControl kind id) ∧
    ∀ token kind, kind < 2 ^ 15 → ∀ id < 2 ^ 16, user token ≠ control kind id := by
  refine ⟨fun id hid => ⟨classify_control (by decide) hid, classify_control (by decide) hid⟩,
    fun kind raw id hid h => ?_, fun token kind hkind id hid heq => ?_⟩
  · unfold encodeControl at h
    split at h
    · cases h
    · split at h
      · cases h
      · rename_i hsmall hfree
        cases h
        rw [classify_control (by omega) hid]
        have hnone : CompletionControlKind.fromRaw kind = none := by
          unfold CompletionControlKind.fromRaw
          split <;> simp_all
        rw [hnone]
  · have hclass := classify_user token
    rw [heq, classify_control hkind hid] at hclass
    split at hclass <;> cases hclass

theorem tokens_told_apart_seven : classify (cancel 7) = .control .cancel 7 :=
  (tokens_told_apart.1 7 (by decide)).2

end CompletionToken

end Veloq.Driver
