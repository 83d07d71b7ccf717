import Veloq.Foundation.Machine
import Veloq.Foundation.SlotMap
set_option autoImplicit false

/-!
# Timing: the two-level timing wheel

`Wheel` of `veloq-wheel/src/wheel.rs`.  Entries live in a slot map; every slot of
the two levels holds the head of a singly linked list threaded through them.  A
cancelled entry stays linked, without its item, until the wheel reaches it.

The slot map is the third-party `slotmap` crate and is a parameter.  A result
`none` means that the operation does not return a value: a division by a zero
`l1_tick_ratio`, the `expect` of `cascade_list`, an arithmetic overflow, or a list
that never ends.  The loops over lists run on the number of stored entries, which
bounds the length of every list that ends.
-/

namespace Veloq.Timing

open Veloq.Foundation

/-- The two levels of `levels`, `0` and `1`. -/
inductive LevelIdx where
  | l0
  | l1
  deriving DecidableEq, Repr

/-- `WheelEntry`. -/
structure WheelEntry (Key T : Type) where
  item : Option T
  deadline : Nat
  next : Option Key
  level : LevelIdx
  slotIndex : Nat

/-- `Level`: the list heads of `slotCount` slots. -/
structure Level (Key : Type) where
  slots : Nat → Option Key
  slotCount : Nat
  mask : Nat

def Level.new {Key : Type} (slotCount : Nat) : Level Key :=
  { slots := fun _ => none, slotCount := slotCount, mask := slotCount - 1 }

/-- `WheelConfig`. -/
structure WheelConfig where
  l0TickDuration : Duration
  l0SlotCount : Nat
  l1TickDuration : Duration
  l1SlotCount : Nat

/-- `WheelConfig::default`. -/
def WheelConfig.default : WheelConfig :=
  { l0TickDuration := Duration.fromMillis 10
    l0SlotCount := 512
    l1TickDuration := Duration.fromMillis 1000
    l1SlotCount := 64 }

variable {Key T : Type} [DecidableEq Key]

/-- `Wheel`, over a slot map of its entries. -/
structure Wheel (S : SlotMap Key (WheelEntry Key T)) where
  tasks : S.Map
  levels : LevelIdx → Level Key
  globalTick : Nat
  tickDurationMs : Nat
  l1TickRatio : Nat
  l0CapacityTicks : Nat

namespace Wheel

variable {S : SlotMap Key (WheelEntry Key T)}

/-- `Wheel::new`. -/
def new (S : SlotMap Key (WheelEntry Key T)) (config : WheelConfig) : Wheel S :=
  let l0 := Level.new config.l0SlotCount
  let l1 := Level.new config.l1SlotCount
  let tickDurationMs := max (asU64 config.l0TickDuration.asMillis) 1
  let l1Ms := asU64 config.l1TickDuration.asMillis
  { tasks := S.new
    levels := fun
      | .l0 => l0
      | .l1 => l1
    globalTick := 0
    tickDurationMs := tickDurationMs
    l1TickRatio := l1Ms / tickDurationMs
    l0CapacityTicks := config.l0SlotCount }

/-- `delay_to_ticks`. -/
def delayToTicks (w : Wheel S) (delay : Duration) : Nat :=
  asU64 delay.asMillis / w.tickDurationMs

/-- `tick_duration`. -/
def tickDuration (w : Wheel S) : Duration := Duration.fromMillis w.tickDurationMs

/-- `determine_location`. -/
def determineLocation (w : Wheel S) (deadline : Nat) : Option (LevelIdx × Nat) :=
  let remaining := wrappingSub deadline w.globalTick
  if remaining < w.l0CapacityTicks then
    some (.l0, deadline &&& (w.levels .l0).mask)
  else if w.l1TickRatio = 0 then
    none
  else
    some (.l1, (deadline / w.l1TickRatio) &&& (w.levels .l1).mask)

/-- `levels[level].slots[slot_index] = head`. -/
def setSlot (w : Wheel S) (level : LevelIdx) (slotIndex : Nat) (head : Option Key) : Wheel S :=
  { w with
    levels := Function.update w.levels level
      { w.levels level with slots := Function.update (w.levels level).slots slotIndex head } }

/-- `link`: the entry becomes the head of the list of its slot. -/
def link (w : Wheel S) (key : Key) (level : LevelIdx) (slotIndex : Nat) : Wheel S :=
  let oldHead := (w.levels level).slots slotIndex
  let tasks := S.modify w.tasks key fun entry =>
    { entry with next := oldHead, level := level, slotIndex := slotIndex % 2 ^ 32 }
  setSlot { w with tasks := tasks } level slotIndex (some key)

/-- `insert`. -/
def insert (w : Wheel S) (item : T) (delay : Duration) : Option (Wheel S × Key) :=
  let ticks := max (w.delayToTicks delay) 1
  let deadline := wrappingAdd w.globalTick ticks
  (w.determineLocation deadline).map fun location =>
    let stored := S.insert w.tasks
      { item := some item, deadline := deadline, next := none, level := location.1,
        slotIndex := location.2 % 2 ^ 32 }
    (link { w with tasks := stored.1 } stored.2 location.1 location.2, stored.2)

/-- `cancel`: the item is taken, the entry stays where it is. -/
def cancel (w : Wheel S) (key : Key) : Wheel S × Option T :=
  ({ w with tasks := S.modify w.tasks key fun entry => { entry with item := none } },
    (S.get w.tasks key).bind WheelEntry.item)

/-- `drain_list`: every entry from `current` on is removed, its item expires. -/
def drainList (S : SlotMap Key (WheelEntry Key T)) :
    Nat → S.Map → Option Key → List T → Option (S.Map × List T)
  | _, tasks, none, expired => some (tasks, expired)
  | 0, _, some _, _ => none
  | fuel + 1, tasks, some key, expired =>
      let removed := S.remove tasks key
      match removed.2 with
      | none => some (removed.1, expired)
      | some entry => drainList S fuel removed.1 entry.next (expired ++ entry.item.toList)

/-- One slot of `L0`: its list is taken and drained. -/
def drainSlot (w : Wheel S) (idx : Nat) (expired : List T) : Option (Wheel S × List T) :=
  match (w.levels .l0).slots idx with
  | none => some (w, expired)
  | some head =>
      (drainList S (S.len w.tasks) w.tasks (some head) expired).map fun r =>
        ({ setSlot w .l0 idx none with tasks := r.1 }, r.2)

/-- The slots `idxs` of `L0`, one after the other. -/
def drainSlots : List Nat → Wheel S → List T → Option (Wheel S × List T)
  | [], w, expired => some (w, expired)
  | idx :: idxs, w, expired =>
      (drainSlot w idx expired).bind fun r => drainSlots idxs r.1 r.2

/-- The body of the loop of `cascade_list`: the entry is dropped if it was
cancelled, expires if it is due, and is linked anew otherwise. -/
def cascadeEntry (w : Wheel S) (key : Key) (entry : WheelEntry Key T) (expired : List T) :
    Option (Wheel S × List T) :=
  if entry.item.isNone then
    some ({ w with tasks := (S.remove w.tasks key).1 }, expired)
  else if entry.deadline ≤ w.globalTick then
    let removed := S.remove w.tasks key
    some ({ w with tasks := removed.1 }, expired ++ (removed.2.bind WheelEntry.item).toList)
  else
    (w.determineLocation entry.deadline).map fun location =>
      (w.link key location.1 location.2, expired)

/-- `cascade_list`. -/
def cascadeList : Nat → Wheel S → Option Key → List T → Option (Wheel S × List T)
  | _, w, none, expired => some (w, expired)
  | 0, _, some _, _ => none
  | fuel + 1, w, some key, expired =>
      match S.get w.tasks key with
      | none => none
      | some entry =>
          (cascadeEntry w key entry expired).bind fun r => cascadeList fuel r.1 entry.next r.2

/-- The slots of `L0` that a step of `step` ticks drains: all of them when the step
covers the level, else those of the ticks it passes. -/
def stepSlots (w : Wheel S) (step : Nat) : List Nat :=
  if step ≥ w.l0CapacityTicks then
    List.range (w.levels .l0).slotCount
  else
    (List.range step).map fun i => wrappingAdd w.globalTick (i + 1) &&& (w.levels .l0).mask

/-- The slot of `L1` that falls due at the current tick, if the tick is a multiple
of the ratio, moves down. -/
def cascade (w : Wheel S) (expired : List T) : Option (Wheel S × List T) :=
  if w.globalTick % w.l1TickRatio = 0 then
    let l1Idx := (w.globalTick / w.l1TickRatio) &&& (w.levels .l1).mask
    match (w.levels .l1).slots l1Idx with
    | none => some (w, expired)
    | some head =>
        let taken := w.setSlot .l1 l1Idx none
        cascadeList (S.len taken.tasks) taken (some head) expired
  else
    some (w, expired)

/-- The body of the loop of `advance`, for a step that does not pass a multiple of
the ratio. -/
def advanceStep (w : Wheel S) (step : Nat) (expired : List T) : Option (Wheel S × List T) :=
  (drainSlots (w.stepSlots step) w expired).bind fun r =>
    cascade { r.1 with globalTick := wrappingAdd r.1.globalTick step } r.2

/-- How far `advance` goes at once. -/
def stepLength (w : Wheel S) (remainingTicks : Nat) : Nat :=
  min remainingTicks (w.l1TickRatio - w.globalTick % w.l1TickRatio)

/-- The loop of `advance`.  A step is at least one tick long, so the number of
ticks bounds the number of iterations. -/
def advanceLoop : Nat → Wheel S → Nat → List T → Option (Wheel S × List T)
  | _, w, 0, expired => some (w, expired)
  | 0, _, _ + 1, _ => none
  | fuel + 1, w, remaining + 1, expired =>
      if w.l1TickRatio = 0 then
        none
      else
        (advanceStep w (w.stepLength (remaining + 1)) expired).bind fun r =>
          advanceLoop fuel r.1 (remaining + 1 - w.stepLength (remaining + 1)) r.2

/-- `advance`: the wheel moves by `elapsed`, what falls due is appended to
`expired`. -/
def advance (w : Wheel S) (elapsed : Duration) (expired : List T) :
    Option (Wheel S × List T) :=
  let ticks := w.delayToTicks elapsed
  advanceLoop ticks w ticks expired

/-- The first occupied slot of a level at or after `start`, as a distance. -/
def firstOccupied (level : Level Key) (start : Nat) : Option Nat :=
  (List.range level.slotCount).find? fun i => (level.slots ((start + i) &&& level.mask)).isSome

/-- The delay until the slot of `L1` at distance `i` from the current one is
reached, in milliseconds. -/
def l1DelayMs (w : Wheel S) (i : Nat) : Option Nat := do
  let l1Tick := w.globalTick / w.l1TickRatio
  let l1Mask := (w.levels .l1).mask
  let idx := ((l1Tick &&& l1Mask) + i) &&& l1Mask
  let diff := wrappingSub idx l1Tick &&& l1Mask
  let target ← checkedAdd l1Tick diff
  let targetStart ← checkedMul target w.l1TickRatio
  let target ← (if targetStart ≤ w.globalTick then checkedAdd target (w.levels .l1).slotCount
    else some target)
  let slotStartTick ← checkedMul target w.l1TickRatio
  checkedMul (slotStartTick - w.globalTick) w.tickDurationMs

/-- `next_timeout`.  The outer `none` is an arithmetic overflow. -/
def nextTimeout (w : Wheel S) : Option (Option Duration) :=
  if S.isEmpty w.tasks then
    some none
  else
    match firstOccupied (w.levels .l0) (w.globalTick &&& (w.levels .l0).mask) with
    | some i => (checkedMul i w.tickDurationMs).map fun ms => some (Duration.fromMillis ms)
    | none =>
        if w.l1TickRatio = 0 then
          none
        else
          let l1Start := (w.globalTick / w.l1TickRatio) &&& (w.levels .l1).mask
          match firstOccupied (w.levels .l1) l1Start with
          | some i => (w.l1DelayMs i).map fun ms => some (Duration.fromMillis ms)
          | none =>
              (checkedMul w.l0CapacityTicks w.tickDurationMs).map fun ms =>
                some (Duration.fromMillis ms)

end Wheel

end Veloq.Timing
