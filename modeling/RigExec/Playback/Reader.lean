/-
# `RigExec.Playback.Reader` — the input slots of a played-back file

A reader holds a value, or none, in each slot of its file.  The first slots are the listed
inputs, which callers set by name or index; the slots behind them are reached by the stage
transport alone.

    RrInputTag                       `InputTag`
    slotCurrent, slotHasValue        `Held.value`
    slotBlocked                      `Held.blocked`
    RigExecWireInputSlot             `Slot`, with the transports that reach it
    stageArraySlots, stageTokenSlots the flags `stageArray` and `stageToken` of a slot
    slotProviderSource               the flags `providerSource` and `sourceBacked`

A value's elements (an array's elements, a scalar's components) are told apart by their
bits, a token by its text.  A set that is refused leaves the reader as it is.
-/
import Mathlib.Logic.Function.Basic
import Mathlib.Data.List.Nodup

namespace RigExec.Playback

/-! ## Values and slots -/

/-- `RrInputTag`. -/
inductive InputTag where
  | double | float | bool | int | matrix4d | token | vec3d | vec3f
  | intArray | floatArray | doubleArray | vec2fArray | vec3fArray
  | vec3dArray | matrix4dArray | tokenArray | boolArray | vec3i
deriving DecidableEq

/-- `RrInputTagIsArray`. -/
def InputTag.isArray : InputTag → Bool
  | .intArray | .floatArray | .doubleArray | .vec2fArray | .vec3fArray
  | .vec3dArray | .matrix4dArray | .tokenArray | .boolArray => true
  | _ => false

/-- `RigExecInputTagName`. -/
def InputTag.name : InputTag → String
  | .double => "double"
  | .float => "float"
  | .bool => "bool"
  | .int => "int"
  | .matrix4d => "matrix4d"
  | .token => "token"
  | .vec3d => "vec3d"
  | .vec3f => "vec3f"
  | .vec3i => "int3"
  | .intArray => "int[]"
  | .floatArray => "float[]"
  | .doubleArray => "double[]"
  | .vec2fArray => "float2[]"
  | .vec3fArray => "float3[]"
  | .vec3dArray => "double3[]"
  | .matrix4dArray => "matrix4d[]"
  | .tokenArray => "token[]"
  | .boolArray => "bool[]"

/-- Whether an input of the type can be listed: the later types are held in private slots. -/
def InputTag.listable : InputTag → Bool
  | .vec3dArray | .matrix4dArray | .tokenArray | .boolArray | .vec3i => false
  | _ => true

/-- `_RrTagName`, which the reader's refusals use. -/
def InputTag.runtimeName (tag : InputTag) : String :=
  if tag.listable = true then tag.name else "unknown"

/-- `RrInputValue`, `RigExecRuntimeArray` or a `VtValue` that holds one of their types. -/
structure Value where
  tag : InputTag
  elements : List Nat
deriving DecidableEq

/-- A `UsdTimeCode`: the default time, or a number. -/
inductive SampleTime (T : Type) where
  | default
  | numeric (value : T)
deriving DecidableEq

def SampleTime.isDefault {T : Type} : SampleTime T → Bool
  | .default => true
  | .numeric _ => false

/-- A slot of the file, and the transports that reach it. -/
structure Slot where
  name : String
  tag : InputTag
  animated : Bool
  /-- In `stageArraySlots`: an Animated array with a consumer at the evaluation time. -/
  stageArray : Bool
  /-- In `stageTokenSlots`. -/
  stageToken : Bool
  /-- Bits 1 and 4 of `slotProviderSource`. -/
  providerRead : Bool
  /-- Bit 2 of `slotProviderSource`. -/
  sourceBacked : Bool
  /-- `slotTopology`: the element count is fixed for this reader. -/
  topology : Bool
  /-- The element count of the default, which an array has even where it holds no value. -/
  defaultCount : Nat
  /-- The value at the bake time, if the attribute had one. -/
  default : Option Value
  stageArray_animated : stageArray = true → tag.isArray = true ∧ animated = true
  stageToken_animated : stageToken = true → tag = .token ∧ animated = true

/-- `slotProviderSource[slot]`, read as a condition. -/
def Slot.providerSource (slot : Slot) : Bool :=
  slot.providerRead || slot.sourceBacked

/-- The input table of an opened file. -/
structure File (T : Type) where
  bakeTime : SampleTime T
  slots : List Slot
  /-- `GetInputCount`: the listed inputs are the first slots. -/
  listed : Nat
  names_nodup : (slots.map Slot.name).Nodup
  listable : ∀ index slot, index < listed → slots[index]? = some slot →
    slot.tag.listable = true

/-- What a slot holds. -/
structure Held where
  value : Option Value
  blocked : Bool

/-- `RigExecRuntimeReader`, as far as its inputs go. -/
structure Reader (T : Type) where
  file : File T
  held : Nat → Held
  animatedTouched : Bool

section

variable {T : Type}

/-- `inputInfo[index]`. -/
def File.input (file : File T) (index : Nat) : Option Slot :=
  if index < file.listed then file.slots[index]? else none

def File.findInput (file : File T) (name : String) : Option Nat :=
  match file.slots.findIdx? fun slot => slot.name = name with
  | some index => if index < file.listed then some index else none
  | none => none

def File.noInputAt (file : File T) (index : Nat) : String :=
  "no input at index " ++ toString index ++ "; the file lists " ++ toString file.listed

/-! ## What a setter leaves -/

variable (reader : Reader T)

/-- Slot `index` holds `held` from now on. -/
def Reader.store (index : Nat) (held : Held) : Reader T :=
  { reader with held := Function.update reader.held index held }

@[simp] theorem Reader.store_held_self (reader : Reader T) (index : Nat) (held : Held) :
    (reader.store index held).held index = held := by
  simp only [Reader.store, Function.update_self]

theorem Reader.store_held_of_ne {index other : Nat} (held : Held)
    (h : other ≠ index) : (reader.store index held).held other = reader.held other := by
  simp only [Reader.store, Function.update_of_ne h]

/-! ## The setters of the listed inputs -/

/-- The value `RrInputsSet` stores: it copies no components of a `Vec3i`. -/
def stored (value : Value) : Value :=
  if value.tag = .vec3i then ⟨.vec3i, [0, 0, 0]⟩ else value

/-- `SetSampledInputAt`, of a value no call passes with a type to be narrowed. -/
def Reader.setSampledInputAt (index : Nat) (value : Value) : Except String (Reader T) :=
  match reader.file.input index with
  | none => .error (reader.file.noInputAt index)
  | some info =>
      if info.tag.isArray = true then
        .error (info.name ++ " is a " ++ info.tag.runtimeName ++
          " input: set it with SetInputArray")
      else if value.tag ≠ info.tag then
        .error (info.name ++ " is a " ++ info.tag.runtimeName ++ " input, not a " ++
          value.tag.runtimeName)
      else
        .ok (reader.store index ⟨some (stored value), false⟩)

def Reader.clearInputAt (index : Nat) : Except String (Reader T) :=
  match reader.file.input index with
  | none => .error (reader.file.noInputAt index)
  | some info =>
      if info.tag.isArray = true then
        .error (info.name ++ " is an array input; ResetInput restores it")
      else
        .ok (reader.store index ⟨none, false⟩)

def Reader.setInputToken (name : String) (token : Value) : Except String (Reader T) :=
  match reader.file.findInput name with
  | none => .error ("no input named " ++ name)
  | some index =>
      match reader.file.input index with
      | none => .error (reader.file.noInputAt index)
      | some info =>
          if info.tag ≠ .token then
            .error (info.name ++ " is a " ++ info.tag.runtimeName ++ " input, not a token")
          else
            .ok (reader.store index ⟨some token, false⟩)

/-- `ResetInput`.  A reset array keeps its blocked flag; a scalar's store clears it, also
after a source-backed slot took the file's. -/
def Reader.resetInput (name : String) : Except String (Reader T) :=
  match reader.file.findInput name with
  | none => .error ("no input named " ++ name)
  | some index =>
      match reader.file.input index with
      | none => .ok reader
      | some info =>
          if info.tag.isArray = true then
            .ok (reader.store index ⟨info.default, (reader.held index).blocked⟩)
          else
            .ok (reader.store index ⟨info.default, false⟩)

/-- `_RrSetArraySlot`. -/
def Reader.setArraySlot (index : Nat) (value : Value) (authored : Bool) :
    Except String (Reader T) :=
  match reader.file.slots[index]? with
  | none => .error ("no input at index " ++ toString index ++ "; the file lists " ++
      toString reader.file.slots.length)
  | some info =>
      if info.tag.isArray = false then
        .error (info.name ++ " is a " ++ info.tag.runtimeName ++ " input, not an array")
      else if value.tag ≠ info.tag then
        .error (info.name ++ " is a " ++ info.tag.runtimeName ++ " input, not a " ++
          value.tag.runtimeName)
      else if authored = true ∧ value.elements.length ≠ info.defaultCount then
        .error (info.name ++ " holds " ++ toString info.defaultCount ++
          " elements; an array set keeps that count, not " ++
          toString value.elements.length)
      else if info.topology = true ∧ value.elements.length ≠ info.defaultCount then
        .error (info.name ++ " is topology, fixed at " ++ toString info.defaultCount ++
          " elements for this reader; a sampled set of " ++
          toString value.elements.length ++ " is refused")
      else
        .ok (reader.store index ⟨some value, (reader.held index).blocked⟩)

def Reader.touchAnimatedInputs : Reader T :=
  { reader with animatedTouched := true }

/-! ## The stage transport -/

/-- A flag of slot `index`. -/
def File.slotFlag (file : File T) (flag : Slot → Bool) (index : Nat) : Bool :=
  (file.slots[index]?.map flag).getD false

def Reader.canSample (index : Nat) : Bool :=
  reader.file.slotFlag Slot.stageArray index

def Reader.canSampleToken (index : Nat) : Bool :=
  reader.file.slotFlag Slot.stageToken index

def Reader.canSampleProviderValue (index : Nat) : Bool :=
  reader.file.slotFlag Slot.providerSource index

def Reader.setSample (index : Nat) (value : Value) : Except String (Reader T) :=
  if reader.canSample index = true then reader.setArraySlot index value false
  else .error ("no sampled array at slot " ++ toString index)

def Reader.clearSample (index : Nat) : Except String (Reader T) :=
  if reader.canSample index = true then
    .ok (reader.store index ⟨none, (reader.held index).blocked⟩)
  else .error ("no sampled array at slot " ++ toString index)

def Reader.setTokenArraySample (index : Nat) (texts : Value) : Except String (Reader T) :=
  if reader.file.slotFlag (fun slot => slot.tag = .tokenArray) index = true then
    reader.setSample index texts
  else .error "sampled token array has incompatible slot type"

/-- `SetTokenSample`, and `ClearTokenSample` for no text. -/
def Reader.tokenSample (index : Nat) (token : Option Value) : Except String (Reader T) :=
  if reader.canSampleToken index = true then .ok (reader.store index ⟨token, false⟩)
  else .error ("no sampled token at slot " ++ toString index)

def Reader.setScalarSample (index : Nat) (value : Value) : Except String (Reader T) :=
  if reader.canSampleProviderValue index = true then
    if reader.file.slotFlag (fun slot => slot.tag.isArray || slot.tag = .token ||
        value.tag ≠ slot.tag) index = true then
      .error "wrong provider scalar type"
    else .ok (reader.store index ⟨some value, false⟩)
  else .error "not a declared provider raw source"

def Reader.clearScalarSample (index : Nat) : Except String (Reader T) :=
  if reader.canSampleProviderValue index = true ∧
      reader.file.slotFlag (fun slot => slot.tag.isArray) index = false then
    .ok (reader.store index ⟨none, false⟩)
  else .error "not a declared provider scalar source"

def Reader.setSampleBlocked (index : Nat) (blocked : Bool) : Except String (Reader T) :=
  if reader.canSampleProviderValue index = true then
    .ok (reader.store index ⟨(reader.held index).value, blocked⟩)
  else .error "not a declared provider raw source"

end

end RigExec.Playback
