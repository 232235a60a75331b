/-
# `RigExec.Scene.Switches` — the parent contexts of space switches

A space switch composes over a checkpoint of its parent.  Which one follows from
how deep its explicit sources go: a source below another switch makes the reader
one deeper than that switch, and the parent context goes up the namespace past
every provider whose nearest switch is at least as deep as the reader.

    nearest     the first switch on the way up from a slot
    depth       relaxation over the sources, capped at the number of switches
    bind        the walk up to the anchor, with what is recomposed below it

Slots are integers; `-1` is no slot.  They are `int`s in the source, converted from
the sizes of the tables, and unbounded here.  A table is read at a slot its checks
have bounded, so what stands outside it does not matter.
-/
import RigExec.Lib.Chains

namespace RigExec.Scene

/-! ## The source -/

structure SpaceParentContext where
  anchor : Int := -1
  recompose : List Int := []
deriving DecidableEq

/-- A slot's entry in a table. -/
def slotAt (table : List Int) (slot : Int) : Int := table[slot.toNat]?.getD (-1)

/-- A slot of `count` providers, or none. -/
def SlotOrNone (count : Nat) (slot : Int) : Prop := -1 ≤ slot ∧ slot < count

instance (count : Nat) (slot : Int) : Decidable (SlotOrNone count slot) :=
  inferInstanceAs (Decidable (_ ∧ _))

/-- `bySlot`, with the checks made while it is filled; the switches from the `i`th on. -/
def bindSlots (count : Nat) : Nat → List (Int × List Int) → List Int → Option (List Int)
  | _, [], bySlot => some bySlot
  | i, (slot, sources) :: rest, bySlot =>
      if slot < 0 ∨ slot ≥ count ∨ slotAt bySlot slot ≥ 0 then none
      else if ∀ source ∈ sources, SlotOrNone count source then
        bindSlots count (i + 1) rest (bySlot.set slot.toNat i)
      else none

section

variable (parents : List Int)

/-- `nearest`, with `remaining` slots to go. -/
def nearest (bySlot : List Int) : Nat → Int → Int
  | 0, _ => -1
  | remaining + 1, slot =>
      if slot < 0 then -1
      else if slotAt bySlot slot ≥ 0 then slotAt bySlot slot
      else nearest bySlot remaining (slotAt parents slot)

/-- The producers a switch's sources name. -/
def producers (bySlot : List Int) (sources : List (List Int)) (i : Nat) : List Nat :=
  (sources[i]?.getD []).filterMap fun source =>
    let producer := nearest parents bySlot parents.length source
    if producer ≥ 0 then some producer.toNat else none

/-- `depth`, when the passes are over. -/
def switchDepths (bySlot : List Int) (sources : List (List Int)) : List Nat :=
  Lib.settle sources.length (producers parents bySlot sources) sources.length
    (List.replicate sources.length 0)

/-- The walk of `bind`: what it pushes, and where it stops. -/
def bindWalk (composed : List Bool) (bySlot : List Int) (depth : List Nat) (reader : Nat) :
    Nat → Int → List Int × Int
  | 0, at_ => ([], at_)
  | remaining + 1, at_ =>
      if at_ < 0 ∨ composed[at_.toNat]?.getD false = false then ([], at_)
      else
        let producer := nearest parents bySlot parents.length at_
        if producer < 0 ∨ depth[producer.toNat]?.getD 0 < depth[reader]?.getD 0 then ([], at_)
        else
          let above := bindWalk composed bySlot depth reader remaining (slotAt parents at_)
          (at_ :: above.1, above.2)

/-- `bind`. -/
def bindContext (composed : List Bool) (bySlot : List Int) (depth : List Nat) (reader : Nat)
    (at_ : Int) : SpaceParentContext :=
  let walk := bindWalk parents composed bySlot depth reader parents.length at_
  { anchor := walk.2, recompose := walk.1.reverse }

/-- `ownTarget`: whether the target is among the slots from `at_` up. -/
def ownTarget (target : Int) : Nat → Int → Bool
  | 0, _ => false
  | remaining + 1, at_ =>
      if at_ < 0 then false
      else if at_ = target then true
      else ownTarget target remaining (slotAt parents at_)

end

/-- `RigExecDeriveSpaceSwitchParentContexts`: whether it succeeded, and what its two destinations
hold afterwards.  A destination that is `none` is a null pointer. -/
def deriveSpaceSwitchParentContexts (parents : List Int) (composed : List Bool)
    (switchSlots : List Int) (sources : List (List Int))
    (output : Option (List SpaceParentContext)) (carrySlots : Option (List Int))
    (carryOutput : Option (List SpaceParentContext)) :
    Bool × Option (List SpaceParentContext) × Option (List SpaceParentContext) :=
  let count := parents.length
  let switchCount := switchSlots.length
  if output.isNone ∨ parents.length ≠ composed.length ∨ switchSlots.length ≠ sources.length then
    (false, output, carryOutput)
  else if carrySlots.isNone ≠ carryOutput.isNone ∨
      ∃ slots ∈ carrySlots, slots.length ≠ switchSlots.length then
    (false, output, carryOutput)
  else if ∃ slots ∈ carrySlots, ∃ slot ∈ slots, ¬ SlotOrNone count slot then
    (false, output, carryOutput)
  else if ∃ parent ∈ parents, ¬ SlotOrNone count parent then (false, output, carryOutput)
  else
    match bindSlots count 0 (switchSlots.zip sources) (List.replicate count (-1)) with
    | none => (false, output, carryOutput)
    | some bySlot =>
        let depth := switchDepths parents bySlot sources
        let bind := bindContext parents composed bySlot depth
        (true,
          some ((List.range switchCount).map fun i =>
            bind i (slotAt parents (switchSlots[i]?.getD (-1)))),
          carrySlots.map fun slots => (List.range switchCount).map fun i =>
            let slot := slots[i]?.getD (-1)
            if ownTarget parents (switchSlots[i]?.getD (-1)) count slot then { anchor := slot }
            else bind i slot)

end RigExec.Scene
