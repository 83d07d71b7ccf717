import Veloq.Rio.RequestContextSteps
import Veloq.Foundation.Run
set_option autoImplicit false

/-!
# RIO: request contexts identify their requests

Over any sequence of allocations, roll backs and decoded values the table agrees
with a book of all contexts ever handed out: a value is decoded to an init exactly
if it is the value of a context that is still open, and then to the init of that
context.
-/

namespace Veloq.Rio

open Foundation

/-- A context that was handed out. -/
structure Handed (ι : Type) where
  id : RequestContextId
  init : ι
  opened : Bool
  deriving DecidableEq

/-- The table, and a book of all contexts that came out of it, the last one first. -/
structure ContextLedger (ι : Type) where
  contexts : RequestContexts ι := {}
  book : List (Handed ι) := []
  deriving DecidableEq

inductive ContextEvent (ι : Type) where
  | alloc (init : ι)
  | rollback (id : RequestContextId)
  | decode (raw : Nat)
  deriving DecidableEq

namespace ContextLedger

variable {ι : Type} {s s' : ContextLedger ι} {a b : Handed ι} {later earlier : List (Handed ι)}

/-- The book says that the context of a value is closed. -/
def close (raw : Nat) (a : Handed ι) : Handed ι :=
  if a.id.raw = raw then { a with opened := false } else a

/-- One operation; `none` where an assertion fails. -/
def next (s : ContextLedger ι) : ContextEvent ι → Option (ContextLedger ι)
  | .alloc init => (s.contexts.alloc init).map fun (id, contexts) =>
      ⟨contexts, ⟨id, init, true⟩ :: s.book⟩
  | .rollback id => some ⟨(s.contexts.takeInit id).2, s.book.map (close id.raw)⟩
  | .decode raw => some ⟨(s.contexts.decode raw).2, s.book.map (close raw)⟩

/-- The operations as steps of a run. -/
def Step (s : ContextLedger ι) (e : ContextEvent ι) (s' : ContextLedger ι) : Prop :=
  s.next e = some s'

/-- Fewer than `2 ^ 24` contexts at a time; the kernel's values have 64 bits. -/
def Allowed (s : ContextLedger ι) : ContextEvent ι → Prop
  | .alloc _ => s.contexts.inUse < 2 ^ 24
  | .rollback _ => True
  | .decode raw => raw < 2 ^ 64

instance (s : ContextLedger ι) : (e : ContextEvent ι) → Decidable (Allowed s e)
  | .alloc _ => inferInstanceAs (Decidable (_ < _))
  | .rollback _ => inferInstanceAs (Decidable True)
  | .decode _ => inferInstanceAs (Decidable (_ < _))

/-! ## Generations -/

/-- The generation of a slot after so many allocations. -/
def generationAfter : Nat → Nat
  | 0 => 0
  | n + 1 => n % (2 ^ 32 - 1) + 1

theorem nextGeneration_after (n : Nat) :
    ContextSlot.nextGeneration (generationAfter n) = generationAfter (n + 1) := by
  cases n with
  | zero => rfl
  | succ n =>
    have hdiv := Nat.div_add_mod n (2 ^ 32 - 1)
    have hlt := Nat.mod_lt n (show 0 < 2 ^ 32 - 1 by decide)
    unfold ContextSlot.nextGeneration generationAfter
    dsimp only
    split <;> omega

/-- A generation does not come back before `2 ^ 32 - 1` further allocations. -/
theorem generationAfter_ne {n k : Nat} (hk : 0 < k) (hlt : k < 2 ^ 32 - 1) :
    generationAfter (n + 1 + k) ≠ generationAfter (n + 1) := by
  intro heq
  rw [show n + 1 + k = (n + k) + 1 by omega] at heq
  simp only [generationAfter] at heq
  omega

/-- The allocations of a slot in a book. -/
def uses (index : Nat) (book : List (Handed ι)) : Nat :=
  book.countP fun a => a.id.index == index

/-- Every context has the generation that its slot had reached. -/
def Dated : List (Handed ι) → Prop
  | [] => True
  | a :: earlier => a.id.generation = generationAfter (uses a.id.index earlier + 1) ∧ Dated earlier

theorem close_id (raw : Nat) (a : Handed ι) : (close raw a).id = a.id := by
  unfold close
  split <;> rfl

theorem uses_close (index raw : Nat) (book : List (Handed ι)) :
    uses index (book.map (close raw)) = uses index book := by
  unfold uses
  rw [List.countP_map]
  refine List.countP_congr fun a _ => ?_
  rw [Function.comp_apply, close_id]

theorem Dated.close {book : List (Handed ι)} (raw : Nat) (h : Dated book) :
    Dated (book.map (ContextLedger.close raw)) := by
  induction book with
  | nil => trivial
  | cons a earlier ih =>
    refine ⟨?_, ih h.2⟩
    rw [uses_close, close_id]
    exact h.1

theorem Dated.at (h : Dated (later ++ a :: earlier)) :
    a.id.generation = generationAfter (uses a.id.index earlier + 1) := by
  induction later with
  | nil => exact h.1
  | cons b later ih => exact ih h.2

/-- An open context is the last one of its slot. -/
def Newest (book : List (Handed ι)) : Prop :=
  book.Pairwise fun a b => b.opened = true → b.id.index ≠ a.id.index

/-! ## The invariant -/

structure Inv (s : ContextLedger ι) : Prop where
  wf : s.contexts.Wf
  live_iff : ∀ id init, s.contexts.live id = some init ↔ ⟨id, init, true⟩ ∈ s.book
  dated : Dated s.book
  generation : ∀ i, s.contexts.generationAt i = generationAfter (uses i s.book)
  newest : Newest s.book

theorem Inv.start : Inv ({} : ContextLedger ι) where
  wf := RequestContexts.Wf.empty
  live_iff := fun _ _ => iff_of_false (fun h => by cases h) List.not_mem_nil
  dated := trivial
  generation := fun _ => rfl
  newest := List.Pairwise.nil

theorem mem_close_iff {raw : Nat} {id : RequestContextId} {init : ι} {book : List (Handed ι)} :
    ⟨id, init, true⟩ ∈ book.map (close raw) ↔ ⟨id, init, true⟩ ∈ book ∧ id.raw ≠ raw := by
  rw [List.mem_map]
  constructor
  · rintro ⟨a, ha, hclose⟩
    unfold close at hclose
    split at hclose
    · cases hclose
    · rename_i hne
      subst hclose
      exact ⟨ha, hne⟩
  · rintro ⟨hmem, hne⟩
    exact ⟨_, hmem, if_neg hne⟩

theorem Newest.close {book : List (Handed ι)} (raw : Nat) (h : Newest book) :
    Newest (book.map (ContextLedger.close raw)) := by
  refine List.pairwise_map.mpr (h.imp fun {a b} hab hopen => ?_)
  rw [close_id, close_id]
  refine hab ?_
  unfold ContextLedger.close at hopen
  split at hopen
  · cases hopen
  · exact hopen

/-- A context is handed out. -/
theorem Inv.alloc (h : Inv s) {id : RequestContextId} {init : ι} {c : RequestContexts ι}
    (hwf : c.Wf) (hopened : RequestContexts.Opened s.contexts id init c) :
    Inv ⟨c, ⟨id, init, true⟩ :: s.book⟩ := by
  refine ⟨hwf, ?_, ⟨?_, h.dated⟩, ?_, List.pairwise_cons.mpr ⟨?_, h.newest⟩⟩
  · intro id' init'
    rw [List.mem_cons]
    by_cases hid : id' = id
    · subst hid
      rw [hopened.after]
      have hnone : ⟨id', init', true⟩ ∉ s.book := by
        intro hmem
        rw [← h.live_iff, hopened.vacant id' rfl] at hmem
        cases hmem
      rw [Option.some.injEq]
      refine ⟨fun heq => .inl (heq ▸ rfl), fun hmem => ?_⟩
      rcases hmem with heq | hmem
      · exact (congrArg Handed.init heq).symm
      · exact absurd hmem hnone
    · rw [hopened.others id' hid, h.live_iff]
      refine ⟨.inr, fun hmem => hmem.resolve_left fun heq => ?_⟩
      exact hid (congrArg Handed.id heq)
  · change id.generation = generationAfter (uses id.index s.book + 1)
    rw [hopened.generation, h.generation, nextGeneration_after]
  · intro i
    unfold uses
    by_cases hi : i = id.index
    · subst hi
      rw [List.countP_cons_of_pos (by simp)]
      change c.generationAt id.index = generationAfter (uses id.index s.book + 1)
      rw [hopened.generationAt, hopened.generation, h.generation, nextGeneration_after]
    · rw [List.countP_cons_of_neg (by simpa using Ne.symm hi), hopened.generations i hi]
      exact h.generation i
  · intro b hb hopen hindex
    obtain ⟨id', init', opened⟩ := b
    cases hopen
    rw [← h.live_iff, hopened.vacant id' hindex] at hb
    cases hb

theorem Inv.decode (h : Inv s) {raw : Nat} (hraw : raw < 2 ^ 64) :
    Inv ⟨(s.contexts.decode raw).2, s.book.map (close raw)⟩ := by
  rcases RequestContexts.decode_cases h.wf hraw with
    ⟨id, init, c, rfl, -, hdecode, hwf, hclosed⟩ | ⟨hother, -, hsame⟩
  · rw [hdecode]
    refine ⟨hwf, ?_, h.dated.close _, ?_, h.newest.close _⟩
    · intro id' init'
      rw [mem_close_iff]
      by_cases hid : id' = id
      · subst hid
        rw [hclosed.after]
        exact iff_of_false (fun h => by cases h) (fun h => h.2 rfl)
      · rw [hclosed.others id' hid, h.live_iff]
        exact (and_iff_left fun heq => hid (RequestContextId.raw_inj.mp heq)).symm
    · intro i
      rw [uses_close, hclosed.generationAt]
      exact h.generation i
  · rw [hsame]
    refine ⟨h.wf, ?_, h.dated.close _, ?_, h.newest.close _⟩
    · intro id' init'
      rw [mem_close_iff, h.live_iff]
      refine (and_iff_left_of_imp fun hmem heq => ?_).symm
      rw [← h.live_iff, hother id' heq] at hmem
      cases hmem
    · intro i
      rw [uses_close]
      exact h.generation i

theorem Inv.step {e : ContextEvent ι} (h : Inv s) (hallowed : Allowed s e) (hs : Step s e s') :
    Inv s' := by
  cases e with
  | alloc init =>
    obtain ⟨id, c, halloc, hwf, hopened⟩ := RequestContexts.alloc_spec h.wf hallowed init
    simp only [Step, next, halloc, Option.map_some, Option.some.injEq] at hs
    subst hs
    exact h.alloc hwf hopened
  | rollback id =>
    simp only [Step, next, RequestContexts.takeInit_eq h.wf, Option.some.injEq] at hs
    subst hs
    exact h.decode id.raw_lt
  | decode raw =>
    simp only [Step, next, Option.some.injEq] at hs
    subst hs
    exact h.decode hallowed

theorem Inv.of_run (h : Run Step Allowed (fun s => s = {}) s) : Inv s := by
  refine h.invariant ?_ fun _ _ _ hinv hallowed hs => hinv.step hallowed hs
  rintro _ rfl
  exact Inv.start

/-- The generation of an open context is the one that its slot has now. -/
theorem Inv.generation_eq (h : Inv s) {id : RequestContextId} {init : ι}
    (hlive : s.contexts.live id = some init) :
    id.generation = generationAfter (uses id.index s.book) := by
  obtain ⟨slot, hslot, -, hgen, -⟩ := RequestContexts.live_eq_some_iff.mp hlive
  rw [← h.generation, RequestContexts.generationAt_eq hslot, hgen]

/-- A closed context is not confused with a later one of its slot. -/
theorem Inv.past (h : Inv s) (hbook : s.book = later ++ a :: earlier) (hclosed : a.opened = false)
    (huses : uses a.id.index later < 2 ^ 32 - 1) : s.contexts.live a.id = none := by
  cases hlive : s.contexts.live a.id with
  | none => rfl
  | some init =>
    exfalso
    have hmem := (h.live_iff a.id init).mp hlive
    have hgen := h.generation_eq hlive
    have hdated := h.dated
    have hnewest := h.newest
    rw [hbook] at hmem hgen hdated hnewest
    rw [hdated.at] at hgen
    have hsum : uses a.id.index (later ++ a :: earlier) =
        uses a.id.index earlier + 1 + uses a.id.index later := by
      unfold uses
      rw [List.countP_append, List.countP_cons_of_pos (by simp), Nat.add_comm]
    rw [hsum] at hgen
    rcases Nat.eq_zero_or_pos (uses a.id.index later) with hzero | hpos
    · rcases List.mem_append.mp hmem with hlater | hrest
      · exact List.countP_eq_zero.mp hzero _ hlater (beq_self_eq_true a.id.index)
      · rcases List.mem_cons.mp hrest with heq | hearlier
        · rw [← heq] at hclosed
          cases hclosed
        · have hpair := (List.pairwise_append.mp hnewest).2.1
          exact (List.pairwise_cons.mp hpair).1 _ hearlier rfl rfl
    · exact generationAfter_ne hpos huses hgen.symm

/-! ## The claim -/

/-- In every state that allocations, roll backs and decoded values lead to: the value
of an open context brings back the init it was opened with and frees that context and
no other; any other value brings nothing back and changes nothing, in particular that
of a context that was closed and whose slot was used fewer than `2 ^ 32 - 1` times
since; a roll back does what decoding the context's value does; the free list has the
slots without a context, each one once; and with fewer than `2 ^ 24` contexts in use an
allocation succeeds. -/
theorem contexts_identify_requests (h : Run Step Allowed (fun s => s = {}) s) :
    (∀ a ∈ s.book, a.opened = true → ∃ c, s.contexts.decode a.id.raw = (.valid a.init, c) ∧
        c.live a.id = none ∧ (∀ id, id ≠ a.id → c.live id = s.contexts.live id) ∧
        c.free = a.id.index :: s.contexts.free) ∧
      (∀ raw, raw < 2 ^ 64 → (∀ a ∈ s.book, a.opened = true → a.id.raw ≠ raw) →
        (s.contexts.decode raw).1.init? = none ∧ (s.contexts.decode raw).2 = s.contexts) ∧
      (∀ later a earlier, s.book = later ++ a :: earlier → a.opened = false →
        uses a.id.index later < 2 ^ 32 - 1 →
        (s.contexts.decode a.id.raw).1.init? = none ∧
          (s.contexts.decode a.id.raw).2 = s.contexts) ∧
      (∀ id, s.contexts.takeInit id =
        ((s.contexts.decode id.raw).1.init?, (s.contexts.decode id.raw).2)) ∧
      (s.contexts.free.Nodup ∧ ∀ i, i ∈ s.contexts.free ↔ i < s.contexts.slots.length ∧
        ∀ a ∈ s.book, a.opened = true → a.id.index ≠ i) ∧
      (s.contexts.inUse < 2 ^ 24 → ∀ init, (s.contexts.alloc init).isSome) := by
  have hinv := Inv.of_run h
  have hlive : ∀ a ∈ s.book, a.opened = true → s.contexts.live a.id = some a.init := by
    rintro ⟨id, init, opened⟩ ha rfl
    exact (hinv.live_iff id init).mpr ha
  refine ⟨fun a ha hopen => ?_, fun raw hraw hother => ?_,
    fun later a earlier hbook hclosed huses => ?_, RequestContexts.takeInit_eq hinv.wf,
    ⟨hinv.wf.free.nodup, fun i => ?_⟩, fun hroom init => ?_⟩
  · obtain ⟨c, hdecode, -, hclosed⟩ := RequestContexts.decode_live hinv.wf (hlive a ha hopen)
    exact ⟨c, hdecode, hclosed.after, hclosed.others, hclosed.free⟩
  · refine RequestContexts.decode_other hinv.wf hraw fun id hid => ?_
    cases hinit : s.contexts.live id with
    | none => rfl
    | some init =>
      exact absurd hid (hother ⟨id, init, true⟩ ((hinv.live_iff id init).mp hinit) rfl)
  · refine RequestContexts.decode_other hinv.wf a.id.raw_lt fun id hid => ?_
    rw [RequestContextId.raw_inj.mp hid]
    exact hinv.past hbook hclosed huses
  · rw [hinv.wf.free.mem_iff i]
    constructor
    · rintro ⟨slot, hslot, hvacant⟩
      refine ⟨(List.getElem?_eq_some_iff.mp hslot).1, fun a ha hopen hindex => ?_⟩
      obtain ⟨slot', hslot', hinUse, -⟩ :=
        RequestContexts.live_eq_some_iff.mp (hlive a ha hopen)
      rw [hindex] at hslot'
      cases hslot.symm.trans hslot'
      rw [ContextSlot.vacant, hinUse] at hvacant
      cases hvacant
    · rintro ⟨hlt, hnone⟩
      refine ⟨s.contexts.slots[i], List.getElem?_eq_getElem hlt, ?_⟩
      cases hinUse : (s.contexts.slots[i]).inUse with
      | false => rw [ContextSlot.vacant, hinUse]; rfl
      | true =>
        obtain ⟨id, init, hindex, hlive⟩ :=
          RequestContexts.exists_live hinv.wf (List.getElem?_eq_getElem hlt) hinUse
        exact absurd hindex (hnone _ ((hinv.live_iff id init).mp hlive) rfl)
  · obtain ⟨id, c, halloc, -⟩ := RequestContexts.alloc_spec hinv.wf hroom init
    rw [halloc]
    rfl

/-- Two requests, of which the first one completes and its slot is used again. -/
theorem contexts_identify_requests_reused : ∃ s : ContextLedger Nat,
    s.book.map (fun a => (a.id.raw, a.init, a.opened)) =
      [(0xA700000000000002, 9, true), (0xA700000100000001, 8, true),
        (0xA700000000000001, 7, false)] ∧
    ∀ a ∈ s.book, a.opened = true → ∃ c, s.contexts.decode a.id.raw = (.valid a.init, c) ∧
      c.live a.id = none ∧ (∀ id, id ≠ a.id → c.live id = s.contexts.live id) ∧
      c.free = a.id.index :: s.contexts.free := by
  have hreplay : (replay next (fun s e => decide (Allowed s e)) ({} : ContextLedger Nat)
      [.alloc 7, .alloc 8, .decode 0xA700000000000001, .alloc 9]).map
        (fun s => s.book.map fun a => (a.id.raw, a.init, a.opened)) =
      some [(0xA700000000000002, 9, true), (0xA700000100000001, 8, true),
        (0xA700000000000001, 7, false)] := by
    decide +kernel
  obtain ⟨s, hs, hbook⟩ := Option.map_eq_some_iff.mp hreplay
  have hstart : Run Step Allowed (fun s => s = {}) ({} : ContextLedger Nat) := Run.start rfl
  have hrun := hstart.replay (fun _ _ _ h => h) (fun _ _ h => of_decide_eq_true h) hs
  exact ⟨s, hbook, (contexts_identify_requests hrun).1⟩

end ContextLedger

end Veloq.Rio
