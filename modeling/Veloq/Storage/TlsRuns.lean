import Mathlib.Data.List.Nodup
import Veloq.Storage.Tls
set_option autoImplicit false

/-!
# Storage: nestings of calls on a thread-local value

The closures that run either all borrow the value in the slot, or there is one of them, an
initialiser, and the slot holds the sentinel.  This and the count of owners survive every
step that is careful; the steps that are not are shown at the end.
-/

namespace Veloq.Storage.Tls

open Veloq.Foundation

variable {addr : Nat → Nat} {s s' : State} {e : Event}

/-- The slot fits the closures that run. -/
inductive Shape : Slot → List Frame → Prop
  | idle {slot : Slot} (slot_ne : slot ≠ .sentinel) : Shape slot []
  | initialising : Shape .sentinel [.init]
  | borrowed {v : Nat} {stack : List Frame} (bodies : ∀ f ∈ stack, f = .body v) :
      Shape (.value v) stack

structure Inv (addr : Nat → Nat) (s : State) : Prop where
  shape : Shape s.slot s.stack
  placed : ∀ v, s.slot = .value v → addr v ≠ 1
  nodup : s.callers.Nodup
  apart : ∀ v, s.slot = .value v → v ∉ s.callers
  stored : ∀ v ∈ s.stored, s.slot = .value v ∨ v ∈ s.callers
  held : ∀ v, s.slot = .value v → v ∈ s.stored
  boxed : ∀ v, v ∈ s.callers ∨ v ∈ s.stored → v ∈ s.boxed

theorem Inv.new : Inv addr new where
  shape := .idle (fun h => by cases h)
  placed _ h := by cases h
  nodup := List.nodup_nil
  apart _ h := by cases h
  stored _ h := absurd h List.not_mem_nil
  held _ h := by cases h
  boxed _ h := by
    rcases h with h | h
    · exact absurd h List.not_mem_nil
    · exact absurd h List.not_mem_nil

/-- Every value that was stored has exactly one owner. -/
theorem Inv.owners (h : Inv addr s) {v : Nat} (hv : v ∈ s.stored) : s.owners v = 1 := by
  unfold State.owners
  rcases h.stored v hv with hslot | hcaller
  · rw [if_pos hslot, List.count_eq_zero_of_not_mem (h.apart v hslot)]
  · rw [if_neg fun hslot => h.apart v hslot hcaller,
      List.count_eq_one_of_mem h.nodup hcaller]

theorem Inv.not_sentinel (h : Inv addr s) {v : Nat} (hslot : s.slot = .value v) :
    s.isSentinel addr = false := by
  unfold State.isSentinel
  rw [hslot]
  exact decide_eq_false (h.placed v hslot)

theorem Shape.body {slot : Slot} {stack : List Frame} (h : Shape slot stack) {v : Nat}
    (hbody : Frame.body v ∈ stack) : slot = .value v := by
  cases h with
  | idle => cases hbody
  | initialising => cases List.mem_singleton.mp hbody
  | borrowed hbodies => rw [Frame.body.inj (hbodies _ hbody)]

/-- Without a closure on a value the slot may hold any value. -/
theorem Shape.store {slot : Slot} {stack : List Frame} (h : Shape slot stack)
    (hne : slot ≠ .sentinel) (hunborrowed : ∀ v, Frame.body v ∉ stack) : stack = [] := by
  cases h with
  | idle => rfl
  | initialising => exact absurd rfl hne
  | @borrowed v stack hbodies =>
    cases stack with
    | nil => rfl
    | cons f rest =>
      have hf := hbodies f (List.mem_cons_self ..)
      exact absurd (hf ▸ List.mem_cons_self ..) (hunborrowed v)

/-! ## Calls -/

/-- The key changes nothing else. -/
theorem Inv.getKey (h : Inv addr s) {keyOk : Bool} {s₁ : State} (hkey : s.getKey keyOk = some s₁) :
    Inv addr s₁ ∧ s₁.slot = s.slot ∧ s₁.stack = s.stack := by
  unfold State.getKey at hkey
  split at hkey
  · cases hkey
    exact ⟨h, rfl, rfl⟩
  · split at hkey
    · cases hkey
      exact ⟨⟨h.shape, h.placed, h.nodup, h.apart, h.stored, h.held, h.boxed⟩, rfl, rfl⟩
    · cases hkey

/-- A closure borrows the value in the slot. -/
theorem Inv.borrow (h : Inv addr s) {v : Nat} (hslot : s.slot = .value v) :
    Inv addr { s with stack := .body v :: s.stack } := by
  refine ⟨?_, h.placed, h.nodup, h.apart, h.stored, h.held, h.boxed⟩
  have hshape := h.shape
  show Shape s.slot (.body v :: s.stack)
  rw [hslot] at hshape ⊢
  generalize s.stack = stack at hshape ⊢
  cases hshape with
  | idle => exact .borrowed fun f hf => List.mem_singleton.mp hf
  | borrowed hbodies =>
    refine .borrowed fun f hf => ?_
    rcases List.mem_cons.mp hf with rfl | hf
    · rfl
    · exact hbodies f hf

theorem Inv.tryWith (h : Inv addr s) (keyOk : Bool) : Inv addr (s.tryWith addr keyOk).2 := by
  unfold State.tryWith
  split
  · exact h
  · rename_i s₁ hkey
    obtain ⟨h₁, -, -⟩ := h.getKey hkey
    split
    · exact h₁
    · exact h₁
    · rename_i v hslot
      rw [h₁.not_sentinel hslot]
      exact h₁.borrow hslot

theorem Inv.tryWithOrInit (h : Inv addr s) (keyOk setOk : Bool) :
    Inv addr (s.tryWithOrInit addr keyOk setOk).2 := by
  unfold State.tryWithOrInit
  split
  · exact h
  · rename_i s₁ hkey
    obtain ⟨h₁, -, -⟩ := h.getKey hkey
    split
    · rename_i hslot
      split
      · have hshape := h₁.shape
        rw [hslot] at hshape
        have hempty : s₁.stack = [] := hshape.store (fun h => Slot.noConfusion h)
          fun v hv => Slot.noConfusion (hshape.body hv)
        refine ⟨?_, fun v hv => Slot.noConfusion hv, h₁.nodup, fun v hv => Slot.noConfusion hv,
          fun v hv => ?_, fun v hv => Slot.noConfusion hv, h₁.boxed⟩
        · show Shape .sentinel (.init :: s₁.stack)
          rw [hempty]
          exact .initialising
        · refine Or.inr ((h₁.stored v hv).resolve_left fun hvalue => ?_)
          cases hslot.symm.trans hvalue
      · exact h₁
    · exact h₁
    · rename_i v hslot
      rw [h₁.not_sentinel hslot]
      exact h₁.borrow hslot

/-- An initialiser is alone. -/
theorem Inv.initialising (h : Inv addr s) {rest : List Frame} (hstack : s.stack = .init :: rest) :
    s.slot = .sentinel ∧ rest = [] := by
  have hshape := h.shape
  rw [hstack] at hshape
  generalize hslot : s.slot = slot at hshape
  cases hshape with
  | initialising => exact ⟨rfl, rfl⟩
  | borrowed hbodies => cases hbodies .init (List.mem_cons_self ..)

theorem Inv.callers_of_sentinel (h : Inv addr s) (hslot : s.slot = .sentinel) {v : Nat}
    (hv : v ∈ s.stored) : v ∈ s.callers := by
  refine (h.stored v hv).resolve_left fun hvalue => ?_
  cases hslot.symm.trans hvalue

theorem Inv.initReturn (h : Inv addr s) {v : Nat} {setOk resetOk : Bool} {rest : List Frame}
    (hcareful : Careful addr s (.initReturn v setOk resetOk)) (hstack : s.stack = .init :: rest)
    (hfresh : v ∉ s.boxed) : Inv addr (s.initReturn v setOk resetOk rest).2 := by
  obtain ⟨hslot, rfl⟩ := h.initialising hstack
  obtain ⟨hplaced, hreset⟩ := hcareful
  unfold State.initReturn
  cases setOk with
  | true =>
    refine ⟨?_, fun w hw => ?_, h.nodup, fun w hw hcaller => ?_, fun w hw => ?_, fun w hw => ?_,
      fun w hw => ?_⟩
    · exact .borrowed fun f hf => List.mem_singleton.mp hf
    · cases hw
      exact hplaced rfl
    · cases hw
      exact hfresh (h.boxed v (.inl hcaller))
    · rcases List.mem_cons.mp hw with rfl | hw
      · exact .inl rfl
      · exact .inr (h.callers_of_sentinel hslot hw)
    · cases hw
      exact List.mem_cons_self ..
    · rcases hw with hw | hw
      · exact List.mem_cons_of_mem _ (h.boxed w (.inl hw))
      · rcases List.mem_cons.mp hw with rfl | hw
        · exact List.mem_cons_self ..
        · exact List.mem_cons_of_mem _ (h.boxed w (.inr hw))
  | false =>
    obtain rfl := hreset rfl
    exact ⟨.idle fun h => Slot.noConfusion h, fun w hw => Slot.noConfusion hw, h.nodup,
      fun w hw => Slot.noConfusion hw, fun w hw => .inr (h.callers_of_sentinel hslot hw),
      fun w hw => Slot.noConfusion hw, fun w hw => List.mem_cons_of_mem _ (h.boxed w hw)⟩

theorem Inv.initPanic (h : Inv addr s) {rest : List Frame} (hstack : s.stack = .init :: rest) :
    Inv addr { s.reset true with stack := rest } := by
  obtain ⟨hslot, rfl⟩ := h.initialising hstack
  exact ⟨.idle fun h => Slot.noConfusion h, fun w hw => Slot.noConfusion hw, h.nodup,
    fun w hw => Slot.noConfusion hw, fun w hw => .inr (h.callers_of_sentinel hslot hw),
    fun w hw => Slot.noConfusion hw, h.boxed⟩

theorem Inv.bodyEnd (h : Inv addr s) {v : Nat} {rest : List Frame}
    (hstack : s.stack = .body v :: rest) : Inv addr { s with stack := rest } := by
  refine ⟨?_, h.placed, h.nodup, h.apart, h.stored, h.held, h.boxed⟩
  have hshape := h.shape
  show Shape s.slot rest
  rw [hstack] at hshape
  generalize s.slot = slot at hshape ⊢
  cases hshape with
  | borrowed hbodies => exact .borrowed fun f hf => hbodies f (List.mem_cons_of_mem _ hf)

/-- What `set_owned` may do to the value in the slot. -/
inductive Replaced (s s' : State) : Reply → Prop
  | stored (old : Option Nat) : Replaced s s' (.set old)
  | refused (kind : TlsErrorKind) (v : Nat) (slot : s'.slot = s.slot) :
      Replaced s s' (.setError kind v)

theorem Inv.isSentinel_iff (h : Inv addr s) : s.isSentinel addr = true ↔ s.slot = .sentinel := by
  cases hslot : s.slot with
  | null => simp [State.isSentinel, hslot]
  | sentinel => simp [State.isSentinel, hslot]
  | value v => simp [h.not_sentinel hslot]

/-- A box of a caller goes into the empty slot. -/
theorem Inv.fill (h : Inv addr s) {v : Nat} (hv : v ∈ s.callers) (hslot : s.slot = .null)
    (hplaced : addr v ≠ 1) : Inv addr { s with
      slot := .value v, callers := s.callers.erase v, stored := v :: s.stored } := by
  have hshape := h.shape
  rw [hslot] at hshape
  have hempty : s.stack = [] := hshape.store (fun h => Slot.noConfusion h)
    fun v hv => Slot.noConfusion (hshape.body hv)
  refine ⟨?_, fun w hw => ?_, h.nodup.erase v, fun w hw => ?_, fun w hw => ?_, fun w hw => ?_,
    fun w hw => ?_⟩
  · show Shape (.value v) s.stack
    rw [hempty]
    exact .idle fun h => Slot.noConfusion h
  · cases hw
    exact hplaced
  · cases hw
    exact h.nodup.not_mem_erase
  · rcases Classical.em (w = v) with rfl | hne
    · exact .inl rfl
    · have hw := (List.mem_cons.mp hw).resolve_left hne
      refine .inr ((List.mem_erase_of_ne hne).mpr ((h.stored w hw).resolve_left fun hvalue => ?_))
      cases hslot.symm.trans hvalue
  · cases hw
    exact List.mem_cons_self ..
  · rcases hw with hw | hw
    · exact h.boxed w (.inl (List.mem_of_mem_erase hw))
    · rcases List.mem_cons.mp hw with rfl | hw
      · exact h.boxed w (.inl hv)
      · exact h.boxed w (.inr hw)

/-- The value in the slot goes to the caller. -/
theorem Inv.empty (h : Inv addr s) {old : Nat} (hslot : s.slot = .value old)
    (hunborrowed : s.Unborrowed) :
    Inv addr { s with slot := .null, callers := old :: s.callers } := by
  have hempty : s.stack = [] :=
    h.shape.store (fun hs => Slot.noConfusion (hslot.symm.trans hs)) hunborrowed
  refine ⟨?_, fun w hw => Slot.noConfusion hw, List.nodup_cons.mpr ⟨h.apart old hslot, h.nodup⟩,
    fun w hw => Slot.noConfusion hw, fun w hw => ?_, fun w hw => Slot.noConfusion hw,
    fun w hw => ?_⟩
  · show Shape .null s.stack
    rw [hempty]
    exact .idle fun h => Slot.noConfusion h
  · rcases h.stored w hw with hvalue | hcaller
    · rw [hslot] at hvalue
      cases hvalue
      exact .inr (List.mem_cons_self ..)
    · exact .inr (List.mem_cons_of_mem _ hcaller)
  · rcases hw with hw | hw
    · rcases List.mem_cons.mp hw with rfl | hw
      · exact h.boxed w (.inr (h.held w hslot))
      · exact h.boxed w (.inl hw)
    · exact h.boxed w (.inr hw)

/-- A value is replaced as if it were taken first. -/
theorem Inv.replace (h : Inv addr s) {v old : Nat} (hv : v ∈ s.callers)
    (hslot : s.slot = .value old) (hplaced : addr v ≠ 1) (hunborrowed : s.Unborrowed) :
    Inv addr { s with slot := .value v, callers := old :: s.callers.erase v
                      stored := v :: s.stored } := by
  have hne : old ≠ v := fun heq => h.apart old hslot (heq ▸ hv)
  have hfill := (h.empty hslot hunborrowed).fill (List.mem_cons_of_mem _ hv) rfl hplaced
  have herase : (old :: s.callers).erase v = old :: s.callers.erase v := by
    rw [List.erase_cons_tail (by simpa using hne)]
  rwa [herase] at hfill

theorem Inv.setOwned (h : Inv addr s) {v : Nat} {keyOk setOk resetOk : Bool}
    (hcareful : Careful addr s (.setOwned v keyOk setOk resetOk)) (hv : v ∈ s.callers) :
    Inv addr (s.setOwned addr v keyOk setOk resetOk).2 ∧
      Replaced s (s.setOwned addr v keyOk setOk resetOk).2
        (s.setOwned addr v keyOk setOk resetOk).1 := by
  obtain ⟨hplaced, hover⟩ := hcareful
  unfold State.setOwned
  split
  · exact ⟨h, .refused _ _ rfl⟩
  · rename_i s₁ hkey
    obtain ⟨h₁, hslot₁, hstack₁⟩ := h.getKey hkey
    have hcallers₁ : v ∈ s₁.callers := by
      unfold State.getKey at hkey
      split at hkey
      · cases hkey
        exact hv
      · split at hkey
        · cases hkey
          exact hv
        · cases hkey
    split
    · exact ⟨h₁, .refused _ _ hslot₁⟩
    · rename_i hnot
      have hne : s.slot ≠ .sentinel := fun hs => hnot (h₁.isSentinel_iff.mpr (hslot₁.trans hs))
      cases setOk with
      | true =>
        have hplaced := hplaced ⟨by rw [hkey]; exact Option.some_ne_none _, hne, rfl⟩
        simp only [if_true]
        split
        · rename_i old hold
          have hunborrowed : s₁.Unborrowed := by
            rcases hover old (hslot₁.symm.trans hold) with ⟨-, hfree⟩ | ⟨hfail, -⟩
            · exact fun w hw => hfree w (hstack₁ ▸ hw)
            · cases hfail
          exact ⟨h₁.replace hcallers₁ hold hplaced hunborrowed, .stored _⟩
        · rename_i hold
          have hnull : s₁.slot = .null := by
            cases hs : s₁.slot with
            | null => rfl
            | sentinel => exact absurd (hslot₁.symm.trans hs) hne
            | value old => exact absurd hs (hold old)
          exact ⟨h₁.fill hcallers₁ hnull hplaced, .stored _⟩
      | false =>
        -- the guard clears a slot that is empty, or fails like the store before it
        have hsame : (s₁.reset resetOk) = s₁ := by
          cases hs : s₁.slot with
          | null =>
            cases resetOk with
            | true =>
              show ({ s₁ with slot := .null } : State) = s₁
              rw [← hs]
            | false => rfl
          | sentinel => exact absurd (hslot₁.symm.trans hs) hne
          | value old =>
            rcases hover old (hslot₁.symm.trans hs) with ⟨hset, -⟩ | ⟨-, hreset⟩
            · cases hset
            · rw [hreset]
              rfl
        simp only [Bool.false_eq_true, if_false]
        rw [hsame]
        exact ⟨h₁, .refused _ _ hslot₁⟩

theorem Inv.take (h : Inv addr s) {keyOk setOk : Bool}
    (hcareful : Careful addr s (.take keyOk setOk)) : Inv addr (s.take addr keyOk setOk).2 := by
  unfold State.take
  split
  · exact h
  · rename_i s₁ hkey
    obtain ⟨h₁, hslot₁, hstack₁⟩ := h.getKey hkey
    split
    · rename_i old hold
      obtain ⟨rfl, hfree⟩ := hcareful old (hslot₁.symm.trans hold)
      rw [h₁.not_sentinel hold]
      exact h₁.empty hold fun w hw => hfree w (hstack₁ ▸ hw)
    · exact h₁

theorem Inv.box (h : Inv addr s) {v : Nat} (hfresh : v ∉ s.boxed) :
    Inv addr { s with boxed := v :: s.boxed, callers := v :: s.callers } := by
  refine ⟨h.shape, h.placed, List.nodup_cons.mpr ⟨fun hv => hfresh (h.boxed v (.inl hv)), h.nodup⟩,
    fun w hw hcaller => ?_, fun w hw => ?_, h.held, fun w hw => ?_⟩
  · rcases List.mem_cons.mp hcaller with rfl | hcaller
    · exact hfresh (h.boxed w (.inr (h.held w hw)))
    · exact h.apart w hw hcaller
  · exact (h.stored w hw).imp id (List.mem_cons_of_mem _)
  · rcases hw with hw | hw
    · rcases List.mem_cons.mp hw with rfl | hw
      · exact List.mem_cons_self ..
      · exact List.mem_cons_of_mem _ (h.boxed w (.inl hw))
    · exact List.mem_cons_of_mem _ (h.boxed w (.inr hw))

theorem Inv.step (h : Inv addr s) (hcareful : Careful addr s e) (hs : TlsStep addr s e s') :
    Inv addr s' := by
  obtain ⟨reply, hs⟩ := hs
  cases e with
  | box v =>
    obtain ⟨hfresh, hs⟩ := Option.ite_none_left_eq_some.mp hs
    cases hs
    exact h.box hfresh
  | tryWith keyOk =>
    have h' := h.tryWith keyOk
    rwa [Option.some.inj hs] at h'
  | tryWithOrInit keyOk setOk =>
    have h' := h.tryWithOrInit keyOk setOk
    rwa [Option.some.inj hs] at h'
  | initReturn v setOk resetOk =>
    simp only [State.step] at hs
    split at hs
    · rename_i rest hstack
      obtain ⟨hfresh, hs⟩ := Option.ite_none_left_eq_some.mp hs
      have h' := h.initReturn hcareful hstack hfresh
      rwa [Option.some.inj hs] at h'
    · cases hs
  | initPanic resetOk =>
    simp only [State.step] at hs
    split at hs
    · rename_i rest hstack
      obtain rfl : resetOk = true := hcareful
      cases hs
      exact h.initPanic hstack
    · cases hs
  | bodyEnd =>
    simp only [State.step] at hs
    split at hs
    · rename_i v rest hstack
      cases hs
      exact h.bodyEnd hstack
    · cases hs
  | setOwned v keyOk setOk resetOk =>
    obtain ⟨hv, hs⟩ := Option.ite_none_right_eq_some.mp hs
    have h' := (h.setOwned hcareful hv).1
    rwa [Option.some.inj hs] at h'
  | take keyOk setOk =>
    have h' := h.take hcareful
    rwa [Option.some.inj hs] at h'

/-- In every run whose steps are all careful, the value that a running closure borrows is in
the slot, every value that was ever stored has exactly one owner, the slot or a caller, and
while no closure runs the slot is not the sentinel; and a `set_owned` that returns an error
leaves the slot as it was. -/
theorem borrowed_values_stay (h : Run (TlsStep addr) (Careful addr) (· = new) s) :
    (∀ v, Frame.body v ∈ s.stack → s.slot = .value v) ∧
    (∀ v ∈ s.stored, s.owners v = 1) ∧
    (s.stack = [] → s.isSentinel addr = false) ∧
    ∀ v keyOk setOk resetOk, Careful addr s (.setOwned v keyOk setOk resetOk) →
      ∀ kind s', s.step addr (.setOwned v keyOk setOk resetOk) = some (.setError kind v, s') →
        s'.slot = s.slot := by
  have hinv : Inv addr s := by
    refine h.invariant ?_ fun _ _ _ hinv hcareful hs => hinv.step hcareful hs
    rintro _ rfl
    exact .new
  refine ⟨fun v hv => hinv.shape.body hv, fun v hv => hinv.owners hv, fun hempty => ?_, ?_⟩
  · refine Bool.eq_false_iff.mpr fun hsentinel => ?_
    have hshape := hinv.shape
    rw [hinv.isSentinel_iff.mp hsentinel, hempty] at hshape
    cases hshape with
    | idle hne => exact hne rfl
  · intro v keyOk setOk resetOk hcareful kind s' hs
    obtain ⟨hv, hs⟩ := Option.ite_none_right_eq_some.mp hs
    have hreplaced := (hinv.setOwned hcareful hv).2
    rw [Option.some.inj hs] at hreplaced
    cases hreplaced with
    | refused _ _ hslot => exact hslot

/-! ## Fixed runs -/

/-- The state after a step, without the reply. -/
def State.next (addr : Nat → Nat) (s : State) (e : Event) : Option State :=
  (s.step addr e).map (·.2)

theorem step_of_next (s : State) (e : Event) (s' : State) (h : s.next addr e = some s') :
    TlsStep addr s e s' := by
  obtain ⟨⟨reply, s₁⟩, hstep, rfl⟩ := Option.map_eq_some_iff.mp h
  exact ⟨reply, hstep⟩

def State.unborrowedTest (s : State) : Bool :=
  s.stack.all fun
    | .init => true
    | .body _ => false

/-- The computable form of `Careful`, which asks for a little more. -/
def carefulTest (addr : Nat → Nat) (s : State) : Event → Bool
  | .initReturn v setOk resetOk => addr v ≠ 1 && (setOk || resetOk)
  | .initPanic resetOk => resetOk
  | .setOwned v _ setOk resetOk => addr v ≠ 1 &&
      match s.slot with
      | .value _ => setOk && s.unborrowedTest || !setOk && !resetOk
      | _ => true
  | .take _ setOk =>
      match s.slot with
      | .value _ => setOk && s.unborrowedTest
      | _ => true
  | _ => true

theorem State.unborrowed_of_test (h : s.unborrowedTest = true) : s.Unborrowed := fun v hv =>
  Bool.false_ne_true (List.all_eq_true.mp h (.body v) hv)

theorem careful_of_test (s : State) (e : Event) (h : carefulTest addr s e = true) :
    Careful addr s e := by
  cases e with
  | box v => trivial
  | tryWith keyOk => trivial
  | tryWithOrInit keyOk setOk => trivial
  | bodyEnd => trivial
  | initReturn v setOk resetOk =>
    obtain ⟨hplaced, hreset⟩ := Bool.and_eq_true_iff.mp h
    refine ⟨fun _ => of_decide_eq_true hplaced, ?_⟩
    rintro rfl
    exact hreset
  | initPanic resetOk => exact h
  | setOwned v keyOk setOk resetOk =>
    obtain ⟨hplaced, hover⟩ := Bool.and_eq_true_iff.mp h
    refine ⟨fun _ => of_decide_eq_true hplaced, fun old hold => ?_⟩
    rw [hold] at hover
    rcases Bool.or_eq_true_iff.mp hover with hset | hfail
    · obtain ⟨hset, hfree⟩ := Bool.and_eq_true_iff.mp hset
      exact .inl ⟨hset, State.unborrowed_of_test hfree⟩
    · obtain ⟨hset, hreset⟩ := Bool.and_eq_true_iff.mp hfail
      exact .inr ⟨Bool.not_eq_true' _ ▸ hset, Bool.not_eq_true' _ ▸ hreset⟩
  | take keyOk setOk =>
    intro old hold
    simp only [carefulTest, hold] at h
    obtain ⟨hset, hfree⟩ := Bool.and_eq_true_iff.mp h
    exact ⟨hset, State.unborrowed_of_test hfree⟩

/-- A value is initialised and borrowed twice, the box that replaces it is refused while the
system fails, stored later and taken at the end. -/
theorem borrowed_values_stay_nested : ∃ s : State,
    s.stack = [.body 1, .body 1] ∧ s.slot = .value 1 ∧ s.owners 0 = 1 ∧ s.owners 1 = 1 := by
  have hreplay : (replay (State.next fun v => 16 * (v + 1)) (carefulTest fun v => 16 * (v + 1)) new
      [.tryWithOrInit true true, .initReturn 0 true true, .tryWith true, .bodyEnd, .bodyEnd,
        .box 1, .setOwned 1 true false false, .setOwned 1 true true true, .tryWith true,
        .tryWithOrInit true true]).map (fun s => (s.stack, s.stored)) =
      some ([.body 1, .body 1], [1, 0]) := by decide +kernel
  obtain ⟨s, hs, hfacts⟩ := Option.map_eq_some_iff.mp hreplay
  obtain ⟨hstack, hstored⟩ := Prod.mk.inj hfacts
  have hstart : Run (TlsStep fun v => 16 * (v + 1)) (Careful fun v => 16 * (v + 1)) (· = new) new :=
    Run.start rfl
  obtain ⟨hbody, howners, -⟩ :=
    borrowed_values_stay (hstart.replay step_of_next careful_of_test hs)
  refine ⟨s, hstack, hbody 1 ?_, howners 0 ?_, howners 1 ?_⟩
  · rw [hstack]
    exact List.mem_cons_self ..
  · rw [hstored]
    exact List.mem_cons_of_mem _ (List.mem_singleton_self 0)
  · rw [hstored]
    exact List.mem_cons_self ..

/-- What goes wrong.  `take` inside a `with` closure hands out what the closure borrows; a
`set_owned` that fails returns an error and the previous value is nobody's; a `take` that
cannot clear the slot makes a second owner; an initialiser that panics leaves the sentinel if
the slot cannot be reset; and a box at address one is taken for the sentinel. -/
theorem values_pulled_away :
    ((replay (State.next fun v => 16 * (v + 1)) (fun _ _ => true) new
      [.tryWithOrInit true true, .initReturn 0 true true, .take true true]).map fun s =>
        (s.stack, s.slot, s.callers)) = some ([.body 0], .null, [0]) ∧
    ((replay (State.next fun v => 16 * (v + 1)) (fun _ _ => true) new
      [.box 0, .setOwned 0 true true true, .box 1]).bind fun s =>
        (s.step (fun v => 16 * (v + 1)) (.setOwned 1 true false true)).map fun r =>
          (s.slot, r.1, r.2.slot, r.2.owners 0)) =
      some (.value 0, .setError .setFailed 1, .null, 0) ∧
    ((replay (State.next fun v => 16 * (v + 1)) (fun _ _ => true) new
      [.box 0, .setOwned 0 true true true, .take true false]).map fun s => s.owners 0) = some 2 ∧
    ((replay (State.next fun v => 16 * (v + 1)) (fun _ _ => true) new
      [.tryWithOrInit true true, .initPanic false]).map fun s => (s.stack, s.slot)) =
      some ([], .sentinel) ∧
    ((replay (State.next fun _ => 1) (fun _ _ => true) new
      [.tryWithOrInit true true, .initReturn 0 true true, .bodyEnd]).map fun s =>
        (s.stack, s.isSentinel fun _ => 1)) = some ([], true) := by
  decide +kernel

end Veloq.Storage.Tls
