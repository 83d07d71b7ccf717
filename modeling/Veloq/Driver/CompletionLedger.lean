import Veloq.Driver.Completions
import Mathlib.Data.List.Nodup
import Mathlib.Logic.Equiv.Basic
set_option autoImplicit false

/-!
# Driver: the accounts of the completion packets

Every packet that was handed over is somewhere: in a cell, in the hands of the call that is
running, delivered, or discarded; and its cleanup has run exactly if it was discarded.
`Accounts` says this of the lists in which the packets are recorded, given the places where
packets are kept.
-/

namespace Veloq.Driver

variable {Op Payload Data Detail : Type}

/-- The records of what has become of the packets. -/
structure Ledger (Payload Detail : Type) where
  made : Nat
  armed : List Nat
  handed : List Nat
  delivered : List (Delivery Payload Detail)
  discarded : List Nat
  ran : List Nat

/-- What has become of the packets so far. -/
def Completions.ledger (s : Completions Op Payload Data Detail) : Ledger Payload Detail :=
  ⟨s.made, s.armed, s.handed, s.delivered, s.discarded, s.ran⟩

namespace Ledger

variable (l : Ledger Payload Detail)

/-- The packets that were delivered. -/
def received : List Nat := l.delivered.map (·.id)

/-- The guard of the next packet. -/
def guard (armed : Bool) : CompletionCleanupGuard := ⟨if armed then some l.made else none⟩

def make (armed : Bool) : Ledger Payload Detail :=
  { l with made := l.made + 1, armed := if armed then l.armed ++ [l.made] else l.armed }

/-- The guard of a new packet is made, and the packet is handed over. -/
def hand (armed : Bool) : Ledger Payload Detail :=
  { l.make armed with handed := l.handed ++ [l.made] }

/-- A guard that belongs to no packet is made and dropped. -/
def clean (armed : Bool) : Ledger Payload Detail :=
  { l.make armed with ran := (l.guard armed).drop l.ran }

def discard (rest : Attached Detail) : Ledger Payload Detail :=
  { l with discarded := l.discarded ++ [rest.id], ran := rest.cleanup.drop l.ran }

def deliver (delivery : Delivery Payload Detail) : Ledger Payload Detail :=
  { l with delivered := l.delivered ++ [delivery] }

end Ledger

/-- The cells of the slots, and the hands of the call that is running. -/
def places (attached : Nat → Option (Attached Detail)) (hand : Option (Attached Detail)) :
    Option Nat → Option (Attached Detail)
  | none => hand
  | some idx => attached idx

/-- The packet is as it was made, and nothing has become of it. -/
structure Fresh (l : Ledger Payload Detail) (rest : Attached Detail) : Prop where
  handed : rest.id ∈ l.handed
  not_received : rest.id ∉ l.received
  not_discarded : rest.id ∉ l.discarded
  not_ran : rest.id ∉ l.ran
  cleanup : rest.cleanup = ⟨if rest.id ∈ l.armed then some rest.id else none⟩

/-- Every packet is accounted for. -/
structure Accounts (place : Option Nat → Option (Attached Detail)) (l : Ledger Payload Detail) :
    Prop where
  own : ∀ delivery ∈ l.delivered, delivery.token = delivery.consumer
  armed_lt : ∀ id ∈ l.armed, id < l.made
  handed_lt : ∀ id ∈ l.handed, id < l.made
  placed : ∀ p rest, place p = some rest → Fresh l rest
  apart : ∀ p q rest rest', place p = some rest → place q = some rest' → rest.id = rest'.id → p = q
  settled : ∀ id ∈ l.handed, (∃ p rest, place p = some rest ∧ rest.id = id) ∨
    id ∈ l.received ∨ id ∈ l.discarded
  nodup : (l.received ++ l.discarded).Nodup
  handed_of : ∀ id ∈ l.received ++ l.discarded, id ∈ l.handed
  ran_nodup : l.ran.Nodup
  ran_armed : ∀ id ∈ l.ran, id ∈ l.armed
  ran_of_discarded : ∀ id ∈ l.discarded, id ∈ l.armed → id ∈ l.ran
  not_ran : ∀ id ∈ l.received, id ∉ l.ran

namespace Accounts

variable {place : Option Nat → Option (Attached Detail)} {l : Ledger Payload Detail}
  {rest : Attached Detail}

theorem new : Accounts (places (fun _ => none) none)
    (⟨0, [], [], [], [], []⟩ : Ledger Payload Detail) := by
  have hempty : ∀ p, places (fun _ => (none : Option (Attached Detail))) none p = none := by
    intro p
    cases p with
    | none => rfl
    | some idx => rfl
  refine ⟨?_, ?_, ?_, ?_, ?_, ?_, List.nodup_nil, ?_, List.nodup_nil, ?_, ?_, ?_⟩
  · intro delivery hmem
    cases hmem
  · intro id hmem
    cases hmem
  · intro id hmem
    cases hmem
  · intro p rest hp
    rw [hempty] at hp
    cases hp
  · intro p q rest rest' hp
    rw [hempty] at hp
    cases hp
  · intro id hmem
    cases hmem
  · intro id hmem
    cases hmem
  · intro id hmem
    cases hmem
  · intro id hmem
    cases hmem
  · intro id hmem
    cases hmem

/-- The packets change places. -/
theorem exchange (h : Accounts place l) (σ : Equiv.Perm (Option Nat)) :
    Accounts (place ∘ σ) l := by
  refine { h with
    placed := fun p rest hp => h.placed (σ p) rest hp
    apart := fun p q rest rest' hp hq hid => σ.injective (h.apart _ _ rest rest' hp hq hid)
    settled := fun id hid => (h.settled id hid).imp_left ?_ }
  rintro ⟨p, rest, hp, hrest⟩
  exact ⟨σ.symm p, rest, by rw [Function.comp_apply, σ.apply_symm_apply]; exact hp, hrest⟩

/-- The packet in the hands of the call goes to an empty cell, or a packet is taken there. -/
theorem swap {attached : Nat → Option (Attached Detail)} {hand : Option (Attached Detail)}
    (h : Accounts (places attached hand) l) (idx : Nat) :
    Accounts (places (Function.update attached idx hand) (attached idx)) l := by
  have hswap := h.exchange (Equiv.swap none (some idx))
  have hplaces : places attached hand ∘ Equiv.swap none (some idx) =
      places (Function.update attached idx hand) (attached idx) := by
    funext p
    cases p with
    | none =>
      rw [Function.comp_apply, Equiv.swap_apply_left]
      rfl
    | some i =>
      rw [Function.comp_apply]
      by_cases hi : i = idx
      · rw [hi, Equiv.swap_apply_right]
        exact (Function.update_self idx hand attached).symm
      · have hne : some i ≠ some idx := fun heq => hi (Option.some.inj heq)
        rw [Equiv.swap_apply_of_ne_of_ne (Option.some_ne_none i) hne]
        exact (Function.update_of_ne hi hand attached).symm
  rw [hplaces] at hswap
  exact hswap

/-! ## New guards -/

theorem ran_lt (h : Accounts place l) {id : Nat} (hid : id ∈ l.ran) : id < l.made :=
  h.armed_lt id (h.ran_armed id hid)

theorem settled_lt (h : Accounts place l) {id : Nat} (hid : id ∈ l.received ++ l.discarded) :
    id < l.made :=
  h.handed_lt id (h.handed_of id hid)

theorem mem_make_armed {armed : Bool} {id : Nat} :
    id ∈ (l.make armed).armed ↔ id ∈ l.armed ∨ (armed = true ∧ id = l.made) := by
  unfold Ledger.make
  cases armed with
  | true =>
    rw [if_pos rfl, List.mem_append, List.mem_singleton]
    exact or_congr_right ⟨fun hid => ⟨rfl, hid⟩, And.right⟩
  | false =>
    rw [if_neg Bool.false_ne_true]
    exact ⟨.inl, fun hor => hor.resolve_right fun hboth => Bool.noConfusion hboth.1⟩

/-- What is older than the new guard is armed as before. -/
theorem mem_make_armed_of_lt {armed : Bool} {id : Nat} (hid : id < l.made) :
    id ∈ (l.make armed).armed ↔ id ∈ l.armed := by
  rw [mem_make_armed]
  exact ⟨fun hor => hor.resolve_right fun hboth => absurd hboth.2 (Nat.ne_of_lt hid), .inl⟩

/-- An older packet has the guard it had. -/
theorem cleanup_make {armed : Bool} (hfresh : Fresh l rest) (hlt : rest.id < l.made) :
    rest.cleanup = ⟨if rest.id ∈ (l.make armed).armed then some rest.id else none⟩ := by
  have hiff : rest.id ∈ (l.make armed).armed ↔ rest.id ∈ l.armed := mem_make_armed_of_lt hlt
  rw [hfresh.cleanup]
  by_cases harmed : rest.id ∈ l.armed
  · rw [if_pos harmed, if_pos (hiff.mpr harmed)]
  · rw [if_neg harmed, if_neg fun hm => harmed (hiff.mp hm)]

/-- The action of the new guard. -/
theorem guard_eq (h : Accounts place l) (armed : Bool) :
    l.guard armed = ⟨if l.made ∈ (l.make armed).armed then some l.made else none⟩ := by
  have hmem : l.made ∈ (l.make armed).armed ↔ armed = true := by
    rw [mem_make_armed]
    refine ⟨fun hor => hor.elim (fun hold => ?_) And.left, fun harmed => .inr ⟨harmed, rfl⟩⟩
    exact absurd (h.armed_lt _ hold) (Nat.lt_irrefl _)
  unfold Ledger.guard
  cases armed with
  | true => rw [if_pos rfl, if_pos (hmem.mpr rfl)]
  | false => rw [if_neg Bool.false_ne_true, if_neg fun hm => Bool.noConfusion (hmem.mp hm)]

theorem make_armed_lt (h : Accounts place l) (armed : Bool) :
    ∀ id ∈ (l.make armed).armed, id < l.made + 1 := by
  intro id hid
  rcases mem_make_armed.mp hid with hold | ⟨-, rfl⟩
  · exact Nat.lt_succ_of_lt (h.armed_lt id hold)
  · exact Nat.lt_succ_self _

/-- A new packet is handed over. -/
theorem hand {attached : Nat → Option (Attached Detail)} (h : Accounts (places attached none) l)
    (armed : Bool) (detail : Option Detail) :
    Accounts (places attached (some ⟨l.made, detail, l.guard armed⟩)) (l.hand armed) := by
  have hold : ∀ idx rest, attached idx = some rest → rest.id < l.made :=
    fun idx rest hrest => h.handed_lt _ (h.placed (some idx) rest hrest).handed
  have hnot : l.made ∉ l.received ++ l.discarded := fun hmem =>
    Nat.lt_irrefl _ (h.settled_lt hmem)
  rw [List.mem_append, not_or] at hnot
  refine ⟨h.own, h.make_armed_lt armed, fun id hid => ?_, fun p rest hp => ?_,
    fun p q rest rest' hp hq hid => ?_, fun id hid => ?_, h.nodup,
    fun id hid => List.mem_append_left _ (h.handed_of id hid), h.ran_nodup,
    fun id hid => mem_make_armed.mpr (.inl (h.ran_armed id hid)), fun id hid harmed => ?_, h.not_ran⟩
  · rcases List.mem_append.mp hid with hid | hid
    · exact Nat.lt_succ_of_lt (h.handed_lt id hid)
    · rw [List.mem_singleton.mp hid]
      exact Nat.lt_succ_self _
  · cases p with
    | none =>
      cases hp
      exact ⟨List.mem_append_right _ (List.mem_singleton_self _), hnot.1, hnot.2,
        fun hran => Nat.lt_irrefl _ (h.ran_lt hran), h.guard_eq armed⟩
    | some idx =>
      have hfresh := h.placed (some idx) rest hp
      exact ⟨List.mem_append_left _ hfresh.handed, hfresh.not_received, hfresh.not_discarded,
        hfresh.not_ran, cleanup_make hfresh (h.handed_lt _ hfresh.handed)⟩
  · cases p with
    | none =>
      cases hp
      cases q with
      | none => rfl
      | some idx => exact absurd (hold idx rest' hq) (by rw [← hid]; exact Nat.lt_irrefl _)
    | some idx =>
      cases q with
      | none =>
        cases hq
        exact absurd (hold idx rest hp) (by rw [hid]; exact Nat.lt_irrefl _)
      | some idx' => exact h.apart _ _ rest rest' hp hq hid
  · rcases List.mem_append.mp hid with hid | hid
    · refine (h.settled id hid).imp_left ?_
      rintro ⟨p, rest, hp, hrest⟩
      cases p with
      | none => cases hp
      | some idx => exact ⟨some idx, rest, hp, hrest⟩
    · rw [List.mem_singleton.mp hid]
      exact .inl ⟨none, _, rfl, rfl⟩
  · refine h.ran_of_discarded id hid ((mem_make_armed_of_lt ?_).mp harmed)
    exact h.settled_lt (List.mem_append_right _ hid)

/-- The actions that have run when a guard was dropped. -/
theorem mem_drop {guard : CompletionCleanupGuard} {ran : List Nat} {id : Nat} :
    id ∈ guard.drop ran ↔ id ∈ ran ∨ guard.cleanup = some id := by
  obtain ⟨cleanup⟩ := guard
  cases cleanup with
  | none => exact ⟨.inl, fun hor => hor.resolve_right (Option.some_ne_none id).symm⟩
  | some action =>
    show id ∈ ran ++ [action] ↔ id ∈ ran ∨ some action = some id
    rw [List.mem_append, List.mem_singleton, Option.some_inj, @eq_comm _ action id]

theorem nodup_drop {guard : CompletionCleanupGuard} {ran : List Nat} (hran : ran.Nodup)
    (hnot : ∀ id, guard.cleanup = some id → id ∉ ran) : (guard.drop ran).Nodup := by
  obtain ⟨cleanup⟩ := guard
  cases cleanup with
  | none => exact hran
  | some action =>
    show (ran ++ [action]).Nodup
    rw [List.nodup_append_comm]
    exact List.nodup_cons.mpr ⟨hnot action rfl, hran⟩

theorem guard_cleanup {armed : Bool} {id : Nat} :
    (l.guard armed).cleanup = some id ↔ armed = true ∧ id = l.made := by
  unfold Ledger.guard
  cases armed with
  | true => exact ⟨fun heq => ⟨rfl, (Option.some.inj heq).symm⟩, fun hboth => by rw [hboth.2]; rfl⟩
  | false =>
    exact ⟨fun heq => absurd heq.symm (Option.some_ne_none id), fun hboth => Bool.noConfusion hboth.1⟩

/-- A guard that belongs to no packet is dropped. -/
theorem clean (h : Accounts place l) (armed : Bool) : Accounts place (l.clean armed) := by
  have hran : ∀ id, id < l.made → (id ∈ (l.guard armed).drop l.ran ↔ id ∈ l.ran) := by
    intro id hid
    rw [mem_drop, guard_cleanup]
    exact ⟨fun hor => hor.resolve_right fun hboth => absurd hboth.2 (Nat.ne_of_lt hid), .inl⟩
  refine ⟨h.own, h.make_armed_lt armed, fun id hid => Nat.lt_succ_of_lt (h.handed_lt id hid),
    fun p rest hp => ?_, h.apart, h.settled, h.nodup, h.handed_of, ?_, fun id hid => ?_,
    fun id hid harmed => ?_, fun id hid hmem => ?_⟩
  · have hfresh := h.placed p rest hp
    have hlt := h.handed_lt _ hfresh.handed
    exact ⟨hfresh.handed, hfresh.not_received, hfresh.not_discarded,
      fun hmem => hfresh.not_ran ((hran _ hlt).mp hmem), cleanup_make hfresh hlt⟩
  · refine nodup_drop h.ran_nodup fun id hid hmem => ?_
    rw [(guard_cleanup.mp hid).2] at hmem
    exact Nat.lt_irrefl _ (h.ran_lt hmem)
  · rw [show (l.clean armed).armed = (l.make armed).armed from rfl, mem_make_armed]
    exact (mem_drop.mp hid).imp (h.ran_armed id) guard_cleanup.mp
  · have hlt := h.settled_lt (List.mem_append_right _ hid)
    exact (hran id hlt).mpr (h.ran_of_discarded id hid ((mem_make_armed_of_lt hlt).mp harmed))
  · have hlt := h.settled_lt (List.mem_append_left _ hid)
    exact h.not_ran id hid ((hran id hlt).mp hmem)

/-! ## Settling a packet -/

variable {attached : Nat → Option (Attached Detail)}

/-- What the other packets are is not touched by settling the one in hand. -/
theorem others_ne (h : Accounts (places attached (some rest)) l) {p : Option Nat}
    {other : Attached Detail} (hp : places attached none p = some other) :
    Fresh l other ∧ other.id ≠ rest.id := by
  cases p with
  | none => cases hp
  | some idx =>
    refine ⟨h.placed (some idx) other hp, fun hid => ?_⟩
    exact Option.some_ne_none idx (h.apart (some idx) none other rest hp rfl hid)

/-- The packets that are left are still apart, and those that are not are settled. -/
theorem settled_without (h : Accounts (places attached (some rest)) l) {id : Nat}
    (hid : id ∈ l.handed) (hne : id ≠ rest.id) :
    (∃ p other, places attached none p = some other ∧ other.id = id) ∨
      id ∈ l.received ∨ id ∈ l.discarded := by
  refine (h.settled id hid).imp_left ?_
  rintro ⟨p, other, hp, hother⟩
  cases p with
  | none =>
    cases hp
    exact absurd hother.symm hne
  | some idx => exact ⟨some idx, other, hp, hother⟩

theorem apart_without (h : Accounts (places attached (some rest)) l) :
    ∀ p q a b, places attached none p = some a → places attached none q = some b → a.id = b.id →
      p = q := by
  intro p q a b hp hq hid
  cases p with
  | none => cases hp
  | some i =>
    cases q with
    | none => cases hq
    | some j => exact h.apart _ _ a b hp hq hid

/-- The packet in hand is delivered. -/
theorem deliver (h : Accounts (places attached (some rest)) l)
    {delivery : Delivery Payload Detail} (hid : delivery.id = rest.id)
    (hown : delivery.token = delivery.consumer) :
    Accounts (places attached none) (l.deliver delivery) := by
  have hrest := h.placed none rest rfl
  have hreceived : ∀ id, id ∈ (l.deliver delivery).received ↔ id ∈ l.received ∨ id = rest.id := by
    intro id
    show id ∈ (l.delivered ++ [delivery]).map (·.id) ↔ _
    rw [List.map_append, List.mem_append, List.map_singleton, List.mem_singleton, hid]
    exact Iff.rfl
  refine ⟨fun d hd => ?_, h.armed_lt, h.handed_lt, fun p other hp => ?_, h.apart_without,
    fun id hhanded => ?_, ?_, fun id hmem => ?_, h.ran_nodup, h.ran_armed, h.ran_of_discarded,
    fun id hmem => ?_⟩
  · rcases List.mem_append.mp hd with hd | hd
    · exact h.own d hd
    · rw [List.mem_singleton.mp hd]
      exact hown
  · obtain ⟨hfresh, hne⟩ := h.others_ne hp
    exact ⟨hfresh.handed, fun hmem => ((hreceived _).mp hmem).elim hfresh.not_received hne,
      hfresh.not_discarded, hfresh.not_ran, hfresh.cleanup⟩
  · by_cases hthis : id = rest.id
    · exact .inr (.inl ((hreceived id).mpr (.inr hthis)))
    · exact (h.settled_without hhanded hthis).imp_right
        (Or.imp_left fun hmem => (hreceived id).mpr (.inl hmem))
  · have hperm : ((l.deliver delivery).received ++ (l.deliver delivery).discarded).Perm
        (rest.id :: (l.received ++ l.discarded)) := by
      show ((l.delivered ++ [delivery]).map (·.id) ++ l.discarded).Perm _
      rw [List.map_append, List.map_singleton, hid, List.append_assoc]
      exact List.perm_middle
    refine hperm.nodup_iff.mpr (List.nodup_cons.mpr ⟨fun hmem => ?_, h.nodup⟩)
    exact (List.mem_append.mp hmem).elim hrest.not_received hrest.not_discarded
  · rcases List.mem_append.mp hmem with hmem | hmem
    · rcases (hreceived id).mp hmem with hold | rfl
      · exact h.handed_of id (List.mem_append_left _ hold)
      · exact hrest.handed
    · exact h.handed_of id (List.mem_append_right _ hmem)
  · rcases (hreceived id).mp hmem with hold | rfl
    · exact h.not_ran id hold
    · exact hrest.not_ran

/-- The packet in hand is dropped, and its cleanup runs. -/
theorem discard (h : Accounts (places attached (some rest)) l) :
    Accounts (places attached none) (l.discard rest) := by
  have hrest := h.placed none rest rfl
  have hcleanup : ∀ id, rest.cleanup.cleanup = some id ↔ id = rest.id ∧ rest.id ∈ l.armed := by
    intro id
    rw [hrest.cleanup]
    by_cases harmed : rest.id ∈ l.armed
    · rw [if_pos harmed]
      exact ⟨fun heq => ⟨(Option.some.inj heq).symm, harmed⟩, fun hboth => by rw [hboth.1]⟩
    · rw [if_neg harmed]
      exact ⟨fun heq => absurd heq.symm (Option.some_ne_none id), fun hboth => absurd hboth.2 harmed⟩
  have hran : ∀ id, id ∈ rest.cleanup.drop l.ran ↔
      id ∈ l.ran ∨ (id = rest.id ∧ rest.id ∈ l.armed) := by
    intro id
    rw [mem_drop, hcleanup]
  have hdiscarded : ∀ id, id ∈ (l.discard rest).discarded ↔ id ∈ l.discarded ∨ id = rest.id := by
    intro id
    show id ∈ l.discarded ++ [rest.id] ↔ _
    rw [List.mem_append, List.mem_singleton]
  refine ⟨h.own, h.armed_lt, h.handed_lt, fun p other hp => ?_, h.apart_without,
    fun id hhanded => ?_, ?_, fun id hmem => ?_, ?_, fun id hmem => ?_, fun id hmem harmed => ?_,
    fun id hmem hr => ?_⟩
  · obtain ⟨hfresh, hne⟩ := h.others_ne hp
    exact ⟨hfresh.handed, hfresh.not_received,
      fun hmem => ((hdiscarded _).mp hmem).elim hfresh.not_discarded hne,
      fun hmem => ((hran _).mp hmem).elim hfresh.not_ran fun hboth => hne hboth.1, hfresh.cleanup⟩
  · by_cases hthis : id = rest.id
    · exact .inr (.inr ((hdiscarded id).mpr (.inr hthis)))
    · exact (h.settled_without hhanded hthis).imp_right
        (Or.imp_right fun hmem => (hdiscarded id).mpr (.inl hmem))
  · show (l.received ++ (l.discarded ++ [rest.id])).Nodup
    rw [← List.append_assoc, List.nodup_append_comm, List.singleton_append]
    refine List.nodup_cons.mpr ⟨fun hmem => ?_, h.nodup⟩
    exact (List.mem_append.mp hmem).elim hrest.not_received hrest.not_discarded
  · rcases List.mem_append.mp hmem with hmem | hmem
    · exact h.handed_of id (List.mem_append_left _ hmem)
    · rcases (hdiscarded id).mp hmem with hold | rfl
      · exact h.handed_of id (List.mem_append_right _ hold)
      · exact hrest.handed
  · refine nodup_drop h.ran_nodup fun id hid => ?_
    rw [((hcleanup id).mp hid).1]
    exact hrest.not_ran
  · rcases (hran id).mp hmem with hold | ⟨rfl, harmed⟩
    · exact h.ran_armed id hold
    · exact harmed
  · rcases (hdiscarded id).mp hmem with hold | rfl
    · exact (hran id).mpr (.inl (h.ran_of_discarded id hold harmed))
    · exact (hran _).mpr (.inr ⟨rfl, harmed⟩)
  · rcases (hran id).mp hr with hold | ⟨rfl, -⟩
    · exact h.not_ran id hmem hold
    · exact hrest.not_received hmem

end Accounts

end Veloq.Driver
