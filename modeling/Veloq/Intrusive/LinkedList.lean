import Mathlib.Data.List.Induction
import Mathlib.Data.List.Nodup
import Mathlib.Logic.Function.Basic
set_option autoImplicit false

/-!
# Intrusive: the doubly linked list

`GenericLinkedList` keeps only `head`, `tail` and `len`; the links live in the nodes
themselves.  A node is named by its address, the memory is a function from addresses
to links, and every operation passes both along.  `Represents links list keys` says
that the links thread exactly `keys`, in order and in both directions.  Each
operation is specified once against this relation, with a frame condition for the
nodes of other lists.
-/

namespace Veloq.Intrusive

variable {Key : Type}

/-- `Link`. -/
structure Link (Key : Type) where
  next : Option Key
  prev : Option Key
  linked : Bool
  deriving DecidableEq, Repr

/-- `Link::new()`, also what `unsafe_unlink` leaves behind. -/
def Link.new : Link Key := { next := none, prev := none, linked := false }

/-- `GenericLinkedList`. -/
structure LinkedList (Key : Type) where
  head : Option Key
  tail : Option Key
  len : Nat
  deriving DecidableEq, Repr

/-- `GenericLinkedList::new`. -/
def LinkedList.new : LinkedList Key := { head := none, tail := none, len := 0 }

def LinkedList.isEmpty (list : LinkedList Key) : Bool := list.head.isNone

section Operations

variable [DecidableEq Key]

/-- `set_next` on a node that may be absent. -/
def setNext (links : Key → Link Key) (node next : Option Key) : Key → Link Key :=
  match node with
  | none => links
  | some k => Function.update links k { links k with next := next }

/-- `set_prev` on a node that may be absent. -/
def setPrev (links : Key → Link Key) (node prev : Option Key) : Key → Link Key :=
  match node with
  | none => links
  | some k => Function.update links k { links k with prev := prev }

namespace LinkedList

/-- `push_front`; `none` is the panic on a node that is already linked. -/
def pushFront (links : Key → Link Key) (list : LinkedList Key) (k : Key) :
    Option ((Key → Link Key) × LinkedList Key) :=
  if (links k).linked then
    none
  else
    let oldHead := list.head
    let links := Function.update links k { next := oldHead, prev := none, linked := true }
    let links := setPrev links oldHead (some k)
    let tail := match oldHead with
      | some _ => list.tail
      | none => some k
    some (links, { head := some k, tail := tail, len := list.len + 1 })

/-- `push_back`; `none` is the panic on a node that is already linked. -/
def pushBack (links : Key → Link Key) (list : LinkedList Key) (k : Key) :
    Option ((Key → Link Key) × LinkedList Key) :=
  if (links k).linked then
    none
  else
    let oldTail := list.tail
    let links := Function.update links k { next := none, prev := oldTail, linked := true }
    let links := setNext links oldTail (some k)
    let head := match oldTail with
      | some _ => list.head
      | none => some k
    some (links, { head := head, tail := some k, len := list.len + 1 })

/-- `pop_front`. -/
def popFront (links : Key → Link Key) (list : LinkedList Key) :
    (Key → Link Key) × LinkedList Key × Option Key :=
  match list.head with
  | none => (links, list, none)
  | some head =>
      let next := (links head).next
      let links := setPrev links next none
      let tail := match next with
        | some _ => list.tail
        | none => none
      (Function.update links head Link.new,
        { head := next, tail := tail, len := list.len - 1 }, some head)

/-- `cursor_mut_from_ptr(k).remove()`. -/
def remove (links : Key → Link Key) (list : LinkedList Key) (k : Key) :
    (Key → Link Key) × LinkedList Key :=
  let prev := (links k).prev
  let next := (links k).next
  let links := setNext links prev next
  let head := match prev with
    | some _ => list.head
    | none => next
  let links := setPrev links next prev
  let tail := match next with
    | some _ => list.tail
    | none => prev
  (Function.update links k Link.new, { head := head, tail := tail, len := list.len - 1 })

end LinkedList

end Operations

/-! ## Segments of a list -/

/-- The links of `keys` form a piece of a list: the first node points back to `prev`,
the last one on to `next`. -/
def Segment (links : Key → Link Key) : Option Key → List Key → Option Key → Prop
  | _, [], _ => True
  | prev, k :: keys, next =>
      links k = { next := keys.head?.or next, prev := prev, linked := true } ∧
        Segment links (some k) keys next

namespace Segment

variable {links links' : Key → Link Key} {prev next : Option Key} {k : Key} {keys as bs : List Key}

/-- A segment depends on the links of its own nodes only. -/
theorem congr (h : Segment links prev keys next) (heq : ∀ k ∈ keys, links' k = links k) :
    Segment links' prev keys next := by
  induction keys generalizing prev with
  | nil => trivial
  | cons k keys ih =>
    refine ⟨?_, ih h.2 fun j hj => heq j (List.mem_cons_of_mem k hj)⟩
    rw [heq k (List.mem_cons_self ..)]
    exact h.1

/-- The first node and the length determine a segment. -/
theorem unique (h : Segment links prev as next) (h' : Segment links prev bs next)
    (hhead : as.head? = bs.head?) (hlen : as.length = bs.length) : as = bs := by
  induction as generalizing prev bs with
  | nil => exact (List.eq_nil_of_length_eq_zero hlen.symm).symm
  | cons k as ih =>
    cases bs with
    | nil => exact absurd hlen (by simp)
    | cons j bs =>
      obtain rfl : k = j := Option.some.inj hhead
      have hlen' : as.length = bs.length := Nat.succ.inj hlen
      have hnext : as.head?.or next = bs.head?.or next :=
        congrArg Link.next (h.1.symm.trans h'.1)
      have hfirst : as.head? = bs.head? := by
        cases as with
        | nil => rw [List.eq_nil_of_length_eq_zero hlen'.symm]
        | cons a as =>
          cases bs with
          | nil => exact absurd hlen' (by simp)
          | cons b bs => exact hnext
      rw [ih h.2 h'.2 hfirst hlen']

/-- Two segments that point at each other are one. -/
theorem append_iff : Segment links prev (as ++ bs) next ↔
    Segment links prev as (bs.head?.or next) ∧ Segment links (as.getLast?.or prev) bs next := by
  induction as generalizing prev with
  | nil => simp [Segment]
  | cons a as ih =>
    have hlast : (a :: as).getLast?.or prev = as.getLast?.or (some a) := by
      rw [List.getLast?_cons]
      cases as.getLast? with
      | none => rfl
      | some b => rfl
    have hhead : (as ++ bs).head?.or next = as.head?.or (bs.head?.or next) := by
      rw [List.head?_append, Option.or_assoc]
    rw [hlast]
    show links a = { next := (as ++ bs).head?.or next, prev := prev, linked := true } ∧
        Segment links (some a) (as ++ bs) next ↔
      (links a = { next := as.head?.or (bs.head?.or next), prev := prev, linked := true } ∧
        Segment links (some a) as (bs.head?.or next)) ∧ _
    rw [ih, hhead, and_assoc]

/-- The nodes of a segment are linked. -/
theorem linked (h : Segment links prev keys next) (hk : k ∈ keys) : (links k).linked = true := by
  induction keys generalizing prev with
  | nil => exact absurd hk List.not_mem_nil
  | cons j keys ih =>
    rcases List.mem_cons.mp hk with rfl | hk
    · rw [h.1]
    · exact ih h.2 hk

variable [DecidableEq Key]

/-- Pointing the last node elsewhere. -/
theorem setNext_last (h : Segment links prev as next) (hnodup : as.Nodup) (next' : Option Key) :
    Segment (setNext links as.getLast? next') prev as next' := by
  induction as using List.reverseRecOn with
  | nil => trivial
  | append_singleton as a _ =>
    rw [append_iff] at h ⊢
    rw [List.getLast?_concat]
    obtain ⟨hinit, hlast, _⟩ := h
    have ha : a ∉ as := by
      have := List.nodup_append.mp hnodup
      exact fun hin => this.2.2 a hin a (by simp) rfl
    refine ⟨hinit.congr ?_, ?_, trivial⟩
    · intro j hj
      exact Function.update_of_ne (fun heq : j = a => ha (heq ▸ hj)) ..
    · show Function.update links a _ a = _
      rw [Function.update_self, hlast]
      rfl

/-- Pointing the first node back elsewhere. -/
theorem setPrev_first (h : Segment links prev bs next) (hnodup : bs.Nodup) (prev' : Option Key) :
    Segment (setPrev links bs.head? prev') prev' bs next := by
  cases bs with
  | nil => trivial
  | cons b bs =>
    refine ⟨?_, h.2.congr ?_⟩
    · show Function.update links b _ b = _
      rw [Function.update_self, h.1]
    · intro j hj
      have hb : b ∉ bs := (List.nodup_cons.mp hnodup).1
      exact Function.update_of_ne (fun heq : j = b => hb (heq ▸ hj)) ..

end Segment

section Frames

variable [DecidableEq Key]

theorem setNext_of_ne {links : Key → Link Key} {node next : Option Key} {j : Key}
    (h : node ≠ some j) : setNext links node next j = links j := by
  cases node with
  | none => rfl
  | some k => exact Function.update_of_ne (fun heq : j = k => h (congrArg some heq.symm)) ..

theorem setPrev_of_ne {links : Key → Link Key} {node prev : Option Key} {j : Key}
    (h : node ≠ some j) : setPrev links node prev j = links j := by
  cases node with
  | none => rfl
  | some k => exact Function.update_of_ne (fun heq : j = k => h (congrArg some heq.symm)) ..

end Frames

/-- A node that has been taken out is not linked. -/
theorem LinkedList.remove_self [DecidableEq Key] (links : Key → Link Key) (list : LinkedList Key)
    (k : Key) : (list.remove links k).1 k = Link.new :=
  Function.update_self ..

theorem LinkedList.popFront_self [DecidableEq Key] {links links' : Key → Link Key}
    {list list' : LinkedList Key} {k : Key}
    (h : list.popFront links = (links', list', some k)) : links' k = Link.new := by
  unfold LinkedList.popFront at h
  split at h
  · cases h
  · cases h
    exact Function.update_self ..

/-! ## What a list stands for -/

/-- The list consists of the nodes `keys`, in this order. -/
structure Represents (links : Key → Link Key) (list : LinkedList Key) (keys : List Key) : Prop where
  head : list.head = keys.head?
  tail : list.tail = keys.getLast?
  len : list.len = keys.length
  nodup : keys.Nodup
  segment : Segment links none keys none

namespace Represents

variable {links links' : Key → Link Key} {list : LinkedList Key} {k : Key} {keys as bs : List Key}

theorem new : Represents links LinkedList.new [] := ⟨rfl, rfl, rfl, List.nodup_nil, trivial⟩

theorem congr (h : Represents links list keys) (heq : ∀ k ∈ keys, links' k = links k) :
    Represents links' list keys :=
  ⟨h.head, h.tail, h.len, h.nodup, h.segment.congr heq⟩

/-- A list consists of one sequence of nodes only. -/
theorem unique (h : Represents links list keys) {keys' : List Key}
    (h' : Represents links list keys') : keys = keys' :=
  h.segment.unique h'.segment (h.head.symm.trans h'.head) (h.len.symm.trans h'.len)

theorem isEmpty_iff (h : Represents links list keys) : list.isEmpty = true ↔ keys = [] := by
  unfold LinkedList.isEmpty
  rw [h.head, Option.isNone_iff_eq_none, List.head?_eq_none_iff]

theorem linked (h : Represents links list keys) (hk : k ∈ keys) : (links k).linked = true :=
  h.segment.linked hk

variable [DecidableEq Key]

/-- `push_front` puts an unlinked node in front. -/
theorem pushFront (h : Represents links list keys) (hk : k ∉ keys)
    (hlinked : (links k).linked = false) :
    ∃ links' list', list.pushFront links k = some (links', list') ∧
      Represents links' list' (k :: keys) ∧
      ∀ j, j ≠ k → j ∉ keys → links' j = links j := by
  unfold LinkedList.pushFront
  rw [hlinked, h.head]
  refine ⟨_, _, rfl, ?_, ?_⟩
  · refine ⟨rfl, ?_, ?_, List.nodup_cons.mpr ⟨hk, h.nodup⟩, ?_, ?_⟩
    · cases keys with
      | nil => rfl
      | cons a keys => simp [h.tail]
    · simp [h.len]
    · rw [setPrev_of_ne fun heq => hk (List.mem_of_mem_head? heq), Function.update_self,
        Option.or_none]
    · refine Segment.setPrev_first (h.segment.congr ?_) h.nodup _
      intro j hj
      exact Function.update_of_ne (fun heq : j = k => hk (heq ▸ hj)) ..
  · intro j hj hjkeys
    rw [setPrev_of_ne fun heq => hjkeys (List.mem_of_mem_head? heq), Function.update_of_ne hj]

/-- `push_back` puts an unlinked node at the end. -/
theorem pushBack (h : Represents links list keys) (hk : k ∉ keys)
    (hlinked : (links k).linked = false) :
    ∃ links' list', list.pushBack links k = some (links', list') ∧
      Represents links' list' (keys ++ [k]) ∧
      ∀ j, j ≠ k → j ∉ keys → links' j = links j := by
  have hother : ∀ j, j ∈ keys → j ≠ k := fun j hj heq => hk (heq ▸ hj)
  unfold LinkedList.pushBack
  rw [hlinked, h.tail]
  refine ⟨_, _, rfl, ?_, ?_⟩
  · refine ⟨?_, ?_, ?_, ?_, ?_⟩
    · cases keys with
      | nil => rfl
      | cons a keys =>
        rw [List.getLast?_cons]
        exact h.head
    · simp
    · simp [h.len]
    · refine List.Nodup.append h.nodup (List.nodup_singleton k) fun j hj hin => ?_
      exact hother j hj (List.mem_singleton.mp hin)
    · rw [Segment.append_iff, Option.or_none]
      constructor
      · -- the last node so far now points at the new one
        refine Segment.setNext_last (h.segment.congr ?_) h.nodup _
        intro j hj
        exact Function.update_of_ne (hother j hj) ..
      · refine ⟨?_, trivial⟩
        rw [setNext_of_ne fun heq => hk (List.mem_of_getLast? heq), Function.update_self]
        simp
  · intro j hj hjkeys
    rw [setNext_of_ne fun heq => hjkeys (List.mem_of_getLast? heq), Function.update_of_ne hj]

/-- Taking out a node joins what is before it to what is after it. -/
theorem remove (h : Represents links list (as ++ k :: bs)) :
    ∃ links' list', list.remove links k = (links', list') ∧ Represents links' list' (as ++ bs) ∧
      ∀ j ∉ as ++ k :: bs, links' j = links j := by
  obtain ⟨hbefore, hk, hafter⟩ := Segment.append_iff.mp h.segment
  rw [Option.or_none, Option.or_none] at hk
  have hnodup := List.nodup_append.mp h.nodup
  have hkbs : k ∉ bs := (List.nodup_cons.mp hnodup.2.1).1
  have hkas : k ∉ as := fun hin => hnodup.2.2 k hin k (by simp) rfl
  have hdisjoint : ∀ j ∈ as, j ∉ bs := fun j hj hj' =>
    hnodup.2.2 j hj j (List.mem_cons_of_mem k hj') rfl
  unfold LinkedList.remove
  rw [hk]
  refine ⟨_, _, rfl, ?_, ?_⟩
  · refine ⟨?_, ?_, ?_, hnodup.1.append (List.nodup_cons.mp hnodup.2.1).2 hdisjoint, ?_⟩
    · cases as with
      | nil => rfl
      | cons a as =>
        rw [List.getLast?_cons]
        exact h.head
    · cases bs with
      | nil => simp
      | cons b bs => simp [h.tail]
    · simp [h.len]
    · -- the last node before `k` and the first one after it are pointed at each other
      have hbefore' : Segment (setNext links as.getLast? bs.head?) none as bs.head? :=
        hbefore.setNext_last hnodup.1 _
      have hafter' : Segment (setPrev (setNext links as.getLast? bs.head?) bs.head? as.getLast?)
          as.getLast? bs none := by
        refine Segment.setPrev_first (hafter.congr ?_) (List.nodup_cons.mp hnodup.2.1).2 _
        intro j hj
        exact setNext_of_ne fun heq => hdisjoint j (List.mem_of_getLast? heq) hj
      rw [Segment.append_iff, Option.or_none, Option.or_none]
      constructor
      · refine hbefore'.congr fun j hj => ?_
        rw [Function.update_of_ne (fun heq : j = k => hkas (heq ▸ hj)),
          setPrev_of_ne fun heq => hdisjoint j hj (List.mem_of_mem_head? heq)]
      · exact hafter'.congr fun j hj =>
          Function.update_of_ne (fun heq : j = k => hkbs (heq ▸ hj)) ..
  · intro j hj
    simp only [List.mem_append, List.mem_cons, not_or] at hj
    obtain ⟨hjas, hjk, hjbs⟩ := hj
    rw [Function.update_of_ne hjk, setPrev_of_ne fun heq => hjbs (List.mem_of_mem_head? heq),
      setNext_of_ne fun heq => hjas (List.mem_of_getLast? heq)]

/-- `pop_front` takes out the first node. -/
theorem popFront (h : Represents links list (k :: keys)) :
    ∃ links' list', list.popFront links = (links', list', some k) ∧
      Represents links' list' keys ∧ ∀ j ∉ k :: keys, links' j = links j := by
  have happend : Represents links list ([] ++ k :: keys) := h
  obtain ⟨links', list', hremove, hrep, hframe⟩ := happend.remove
  refine ⟨links', list', ?_, hrep, hframe⟩
  have hk : links k = { next := keys.head?, prev := none, linked := true } := by
    rw [h.segment.1, Option.or_none]
  unfold LinkedList.popFront
  unfold LinkedList.remove at hremove
  rw [hk] at hremove
  rw [h.head]
  simp only [List.head?_cons, hk]
  simp only [setNext, Prod.mk.injEq] at hremove
  obtain ⟨rfl, rfl⟩ := hremove
  rfl

end Represents

end Veloq.Intrusive
