/-
# `RigExec.Closure.SmallValue` — two encoders of one key

`RrOpValue` appends the fields of a slot to a key; `RrPublishSmallValue` writes those of a few
domains to a key of fixed size and refuses the others.  A slot outside its table is refused by the
second and read by nobody; the first has no key there.

    keyText               the bytes of a key as a string
    the other domains     `OpSources.otherValue`
-/
import RigExec.Closure.Keys
import RigExec.Closure.Model

namespace RigExec.Closure

open Lib (Bytes)

/-! ## What is keyed -/

/-- `GfMatrix4d`, as the runtime has it. -/
abbrev Mat4d := Vector Double 16

/-- The domains the small key knows. -/
inductive SlotDomain where
  | poseBase | poseFin | posedM | finalMatrix | baseMatrix | commitStaging | constraintDelta
  | weightFrames | poseWeight | frameMatrix | weightFramesBase | spaceValue | switchFrame
  | other (domain : Nat)

/-- `RigExecWireSlotDomain(domain)`. -/
def SlotDomain.ofNat : Nat → SlotDomain
  | 1 => .poseBase
  | 2 => .poseFin
  | 3 => .posedM
  | 4 => .finalMatrix
  | 5 => .baseMatrix
  | 11 => .commitStaging
  | 12 => .constraintDelta
  | 23 => .weightFrames
  | 24 => .poseWeight
  | 26 => .frameMatrix
  | 31 => .weightFramesBase
  | 32 => .spaceValue
  | 37 => .switchFrame
  | domain => .other domain

/-- The fields of `RigExecWireCommit` that place its staging. -/
structure WireCommit where
  stagingBase : Int
  /-- `propagate.size()`. -/
  propagate : Nat

/-- The fields of `RrCommitScratch` that are keyed. -/
structure CommitScratch where
  staged : List PointFrame := []
  outcome : List UInt8 := []

/-- What the encoders read of a program. -/
structure OpSources where
  base : List PointFrame := []
  fin : List PointFrame := []
  posedM : List Mat4d := []
  finalMatrix : List Mat4d := []
  baseMatrix : List Mat4d := []
  switchFrames : List Mat4d := []
  poseWeights : List (BitVec 32) := []
  deltaPresent : List UInt8 := []
  deltaValues : List Mat4d := []
  volumePlaced : List UInt8 := []
  volumePlacement : List Mat4d := []
  volumePlacedBase : List UInt8 := []
  volumePlacementBase : List Mat4d := []
  frameMatrixValid : List UInt8 := []
  frameMatrix : List Mat4d := []
  commits : List CommitScratch := []
  providerValues : List PlainState := []
  /-- `p->poses->commits`, `none` for a program without poses. -/
  poses : Option (List WireCommit) := none
  /-- What `RrOpValue` appends for a domain that the small key does not know. -/
  otherValue : Nat → Nat → Option Bytes := fun _ _ => some []

/-- The first commit that owns a slot of the staging, with the slot's place in it. -/
def stagingOwner (slot : Nat) (c : Nat) : List WireCommit → Option (Nat × Nat)
  | [] => none
  | wire :: commits =>
      let base := (wire.stagingBase % 2 ^ 32).toNat
      if slot < base ∨ base + wire.propagate ≤ slot then stagingOwner slot (c + 1) commits
      else some (c, slot - base)

/-! ## The general key -/

/-- `RrOpValue` on an empty key, `none` where it reads outside a table. -/
def opValue (s : OpSources) (domain slot : Nat) : Option Bytes :=
  match SlotDomain.ofNat domain with
  | .poseBase => (s.base[slot]?).map (opFrame [])
  | .poseFin => (s.fin[slot]?).map (opFrame [])
  | .posedM => (s.posedM[slot]?).map (keyAppend [])
  | .finalMatrix => (s.finalMatrix[slot]?).map (keyAppend [])
  | .baseMatrix => (s.baseMatrix[slot]?).map (keyAppend [])
  | .switchFrame => (s.switchFrames[slot]?).map (keyAppend [])
  | .poseWeight => (s.poseWeights[slot]?).map (keyAppend [])
  | .constraintDelta => do
      return keyAppend (keyAppend [] (← s.deltaPresent[slot]?)) (← s.deltaValues[slot]?)
  | .weightFrames => do
      return keyAppend (keyAppend [] (← s.volumePlaced[slot]?)) (← s.volumePlacement[slot]?)
  | .weightFramesBase => do
      return keyAppend (keyAppend [] (← s.volumePlacedBase[slot]?)) (← s.volumePlacementBase[slot]?)
  | .frameMatrix => do
      return keyAppend (keyAppend [] (← s.frameMatrixValid[slot]?)) (← s.frameMatrix[slot]?)
  | .commitStaging => do
      match stagingOwner slot 0 (← s.poses) with
      | none => return []
      | some (c, k) => do
          let commit ← s.commits[c]?
          return keyAppend (opFrame [] (← commit.staged[k]?)) (← commit.outcome[k]?)
  | .spaceValue => do
      let v ← s.providerValues[slot]?
      let key := keyAppend (keyAppend (keyAppend [] v.initialized) v.authoritative) v.blocked
      let key := keyAppendText (keyAppend key v.count) v.error
      return keyPlainValue (keyAppend key v.value.index) v.value
  | .other domain => s.otherValue domain slot

/-! ## The small key -/

/-- The small key of a frame, after what it holds. -/
def SmallKey.frame {N : Nat} (key : SmallKey N) (v : PointFrame) : SmallKey N :=
  (key.append v.points).append v.flags

/-- `matrix`. -/
def smallMatrix {N : Nat} (values : List Mat4d) (slot : Nat) : Option (SmallKey N) :=
  (values[slot]?).map (SmallKey.empty N).append

/-- `flagged`. -/
def smallFlagged {N : Nat} (flags : List UInt8) (values : List Mat4d) (slot : Nat) :
    Option (SmallKey N) := do
  let flag ← flags[slot]?
  let value ← values[slot]?
  return ((SmallKey.empty N).append flag).append value

/-- The payload of a provider value; strings and vectors are refused. -/
def SmallKey.plainValue {N : Nat} (key : SmallKey N) : PlainValue → Option (SmallKey N)
  | .monostate => some key
  | .double v => some (key.append v)
  | .float v => some (key.append v)
  | .vec3d v => some (key.append v)
  | .matrix v => some (key.append v)
  | .text _ => none
  | .frame v => some (key.frame v)
  | .vec3f v => some (key.append v)
  | .bool v => some (key.append v)
  | .int32 v => some (key.append v)
  | .floats _ | .doubles _ | .vec3fs _ | .vec3ds _ | .int32s _ | .matrices _ | .texts _
  | .bools _ => none
  | .vec2f v => some (key.append v)
  | .vec2fs _ => none
  | .int3 v => some (key.append v)

/-- The small key of a slot, `none` where it is not keyed. -/
def smallKey (s : OpSources) (domain slot : Nat) : Option (SmallKey 192) :=
  match SlotDomain.ofNat domain with
  | .poseBase => (s.base[slot]?).map (SmallKey.empty 192).frame
  | .poseFin => (s.fin[slot]?).map (SmallKey.empty 192).frame
  | .posedM => smallMatrix s.posedM slot
  | .finalMatrix => smallMatrix s.finalMatrix slot
  | .baseMatrix => smallMatrix s.baseMatrix slot
  | .switchFrame => smallMatrix s.switchFrames slot
  | .poseWeight => (s.poseWeights[slot]?).map (SmallKey.empty 192).append
  | .constraintDelta => smallFlagged s.deltaPresent s.deltaValues slot
  | .weightFrames => smallFlagged s.volumePlaced s.volumePlacement slot
  | .weightFramesBase => smallFlagged s.volumePlacedBase s.volumePlacementBase slot
  | .frameMatrix => smallFlagged s.frameMatrixValid s.frameMatrix slot
  | .commitStaging => do
      let (c, k) ← stagingOwner slot 0 (← s.poses)
      let commit ← s.commits[c]?
      let frame ← commit.staged[k]?
      let outcome ← commit.outcome[k]?
      return ((SmallKey.empty 192).frame frame).append outcome
  | .spaceValue => do
      let v ← s.providerValues[slot]?
      if v.error ≠ [] then none
      else
        let key := ((((SmallKey.empty 192).append v.initialized).append v.authoritative).append
          v.blocked).append v.count
        ((key.append (sizeOf_ v.error)).append v.value.index).plainValue v.value
  | .other _ => none

/-- The bytes `RrPublishSmallValue` publishes, `none` where it refuses. -/
def smallBytes (s : OpSources) (domain slot : Nat) : Option Bytes := do
  let key ← smallKey s domain slot
  if key.overflow = true then none else return key.bytes

/-- The bytes of a key as a string. -/
def keyText (key : Bytes) : String := String.ofList (key.map fun b => Char.ofNat b.toNat)

/-- `RrPublishSmallValue`, `none` where it refuses. -/
def publishSmallValue (s : OpSources) (value : OpValueState) : Option OpValueState :=
  (smallBytes s value.domain value.slot).map fun bytes => publishKeyBytes value (keyText bytes)

/-- `RigExecOpPublishValue` with `RrOpValue`. -/
def publishOpValue (s : OpSources) (value : OpValueState) : Option OpValueState :=
  (opValue s value.domain value.slot).map fun key => publishValue value (keyText key)

end RigExec.Closure
