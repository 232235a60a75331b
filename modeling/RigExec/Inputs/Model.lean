/-
# `RigExec.Inputs.Model` — the input slots of a runtime program

A slot holds the value that reads see, and the value that the last run read.  A call writes the
first through one of the helpers, which list the slot as touched and as written; the next run
compares the touched slots with what was read, flags those that moved, and reads them.

    double, float          their bits
    a vector's elements    the bytes of each
    `size_t`, `uint32_t`   `Nat`
    an error               `some` message, beside the state that the call leaves
-/
import RigExec.Lib.SortedList
import RigExec.Lib.Bytes
import Mathlib.Logic.Function.Basic

namespace RigExec.Inputs

open Lib (Bytes sortUnique)

/-! ## Values -/

/-- `RrInputTag`, and `RigExecWireInputTag`. -/
inductive InputTag where
  | double | float | bool | int | matrix4d | token | vec3d | vec3f
  | intArray | floatArray | doubleArray | vec2fArray | vec3fArray
  | vec3dArray | matrix4dArray | tokenArray | boolArray | vec3i
deriving DecidableEq, Inhabited

/-- `uint8_t(tag)`. -/
def InputTag.value (tag : InputTag) : Nat := tag.ctorIdx

/-- `RrInputTagIsArray`, and `RigExecFormatIsArrayTag`. -/
def InputTag.isArray (tag : InputTag) : Bool :=
  decide (InputTag.intArray.value ≤ tag.value) && decide (tag.value ≤ InputTag.boolArray.value)

/-- `_RrTagName`. -/
def tagName : InputTag → String
  | .double => "double"
  | .float => "float"
  | .bool => "bool"
  | .int => "int"
  | .matrix4d => "matrix4d"
  | .token => "token"
  | .vec3d => "vec3d"
  | .vec3f => "vec3f"
  | .intArray => "int[]"
  | .floatArray => "float[]"
  | .doubleArray => "double[]"
  | .vec2fArray => "float2[]"
  | .vec3fArray => "float3[]"
  | _ => "unknown"

/-- `RrWireValue`. -/
structure WireValue where
  tag : InputTag := .double
  bits : BitVec 64 := 0
  matrix : Vector (BitVec 64) 16 := Vector.replicate 16 0
  vec3d : Vector (BitVec 64) 3 := Vector.replicate 3 0
  vec3f : Vector (BitVec 32) 3 := Vector.replicate 3 0
  vec3i : Vector (BitVec 32) 3 := Vector.replicate 3 0
deriving DecidableEq, Inhabited

/-- `_RrSameValueBits`. -/
def sameValueBits (a b : WireValue) : Bool :=
  if a.tag ≠ b.tag then false
  else
    match a.tag with
    | .matrix4d => a.matrix == b.matrix
    | .vec3d => a.vec3d == b.vec3d
    | .vec3i => a.vec3i == b.vec3i
    | .vec3f => a.vec3f == b.vec3f
    | _ => a.bits == b.bits

/-- `_RrSameKeyedValue`. -/
def sameKeyedValue (a b : WireValue) : Bool :=
  a.tag == b.tag && a.bits == b.bits && a.matrix == b.matrix && a.vec3d == b.vec3d &&
    a.vec3f == b.vec3f && a.vec3i == b.vec3i

/-- `std::isfinite`, of a double. -/
def isFinite (d : BitVec 64) : Bool := d.extractLsb' 52 11 != 0x7ff#11

/-- `std::isfinite`, of a float that was widened. -/
def isFiniteFloat (f : BitVec 32) : Bool := f.extractLsb' 23 8 != 0xff#8

/-- `n` over the power `k` of two, to the nearest, a tie to the even one. -/
def roundEven (n k : Nat) : Nat :=
  let q := n >>> k
  let r := n % (1 <<< k)
  if 2 * r > 1 <<< k ∨ (2 * r = 1 <<< k ∧ q % 2 = 1) then q + 1 else q

/-- `static_cast<float>`, of a double. -/
def narrowed (d : BitVec 64) : BitVec 32 :=
  let exponent := (d.extractLsb' 52 11).toNat
  let fraction := (d.extractLsb' 0 52).toNat
  let magnitude :=
    if exponent = 0x7ff then
      if fraction = 0 then 0x7f800000 else 0x7fc00000 ||| fraction >>> 29
    else
      let significand := if exponent = 0 then fraction else fraction + 1 <<< 52
      let place := max exponent 1
      -- the last place of a float stands 29 above that of a double, and no lower than at 897
      min 0x7f800000
        ((max place 897 - 897) <<< 23 + roundEven significand (max 29 (926 - place)))
  (d.extractLsb' 63 1).zeroExtend 32 <<< 31 ||| BitVec.ofNat 32 magnitude

/-- `_RrFloatValue`. -/
def floatValue (f : BitVec 32) : WireValue := { tag := .float, bits := f.zeroExtend 64 }

/-- `RrInputValue`. -/
structure InputValue where
  tag : InputTag := .double
  f64 : BitVec 64 := 0
  f32 : BitVec 32 := 0
  boolean : Bool := false
  i32 : BitVec 32 := 0
  matrix : Vector (BitVec 64) 16 := Vector.replicate 16 0
  token : Nat := 0
  vec : Vector (BitVec 64) 3 := Vector.replicate 3 0
  vec3f : Vector (BitVec 32) 3 := Vector.replicate 3 0
  vec3i : Vector (BitVec 32) 3 := Vector.replicate 3 0

/-- `RigExecRuntimeArray`: a pointer may be null, one that is not holds `count` elements. -/
structure RuntimeArray where
  tag : InputTag
  data : Option (List Bytes)
  count : Nat
  length_data : ∀ elements, data = some elements → elements.length = count

/-- The elements of an array that a set has accepted. -/
def RuntimeArray.elements (value : RuntimeArray) : List Bytes := value.data.getD []

def arrayOf (tag : InputTag) (elements : List Bytes) : RuntimeArray where
  tag := tag
  data := some elements
  count := elements.length
  length_data _ h := by rw [Option.some.inj h]

/-! ## The file -/

/-- `RigExecWireInputSlot`, with what the open derives for it from the other tables. -/
structure InputSlot where
  name : String := ""
  type : InputTag := .double
  /-- `values[slot.value()]`. -/
  value : WireValue := {}
  /-- The flag `HasValue`. -/
  defaultHasValue : Bool := false
  /-- The flag `Animated`. -/
  animated : Bool := false
  /-- The flag `SourceBlocked`. -/
  sourceBlocked : Bool := false
  /-- The elements that `RrArraySlot::defaultVector` borrows. -/
  defaultVector : List Bytes := []
  /-- `slotTopology`. -/
  topology : Bool := false
  /-- A member of `timeSlots` in `RigExecStageArraySlots`. -/
  arrayAtTime : Bool := false
  /-- One of the oracle slots that `RigExecStageTokenSlots` looks at. -/
  oracleToken : Bool := false
  /-- `slotProviderSource`. -/
  providerSource : Nat := 0
deriving Inhabited

/-- `RigExecStageArraySlots` lists the slot. -/
def InputSlot.stageArray (slot : InputSlot) : Bool :=
  slot.arrayAtTime && slot.type.isArray && slot.animated

/-- `RigExecStageTokenSlots` lists the slot. -/
def InputSlot.stageToken (slot : InputSlot) : Bool :=
  slot.oracleToken && slot.type == .token && slot.animated

/-- The fields of a registered read that the override tables are built from. -/
structure RegisteredRead where
  overrideIndex : Int := -1
  walk : List Nat := []

/-- What the slots take from a file and from the tables of its program. -/
structure InputsFile where
  inputs : List InputSlot
  listedInputs : Nat
  /-- `RrProgram::registeredReads`. -/
  registeredReads : List RegisteredRead := []
  /-- The size of `RrStore::overridden`. -/
  overrideCount : Nat := 0
  /-- `RrProgram::nodeText`. -/
  nodeText : List String := []
  /-- `paths.size()`. -/
  paths : Nat := 0
  /-- The ids of the nodes of kind `Token`. -/
  tokenNodes : List Nat := []
  tokenArrays : List (List String) := []
  /-- A read with an override number is a scalar read, whose walk holds no array slot. -/
  scalarWalk : ∀ read ∈ registeredReads, 0 ≤ read.overrideIndex → ∀ s ∈ read.walk,
    ∃ slot, inputs[s]? = some slot ∧ slot.type.isArray = false

namespace InputsFile

variable (file : InputsFile)

/-- `inputs[s]`; a slot past the inputs is read nowhere. -/
def input (s : Nat) : InputSlot := file.inputs[s]?.getD {}

/-- `inputInfo.size()`. -/
def listed : Nat := min file.listedInputs file.inputs.length

/-- `_RrIsArraySlot`. -/
def isArraySlot (s : Nat) : Bool :=
  decide (s < file.inputs.length) && (file.input s).type.isArray

/-- `reach`: a slot, and the override number of a read whose walk passes it. -/
def reach : List (Nat × Nat) :=
  file.registeredReads.flatMap fun read =>
    if 0 ≤ read.overrideIndex then read.walk.map fun s => (s, read.overrideIndex.toNat) else []

/-- The row of `slotOverrideNumbers`. -/
def slotOverrides (s : Nat) : List Nat :=
  sortUnique ((file.reach.filter fun entry => decide (entry.1 = s)).map Prod.snd)

/-- The row of `overrideSlotList`. -/
def overrideSlots (number : Nat) : List Nat :=
  sortUnique ((file.reach.filter fun entry => decide (entry.2 = number)).map Prod.fst)

/-- `overrideSlotBegin.size() - 1`. -/
def overrideNumbers : Nat := (file.reach.map fun entry => entry.2 + 1).foldl max 0

end InputsFile

/-! ## The state -/

/-- `RrArraySlot`; the default is the file's. -/
structure ArraySlot where
  held : List Bytes := []
  holdsSet : Bool := false
  authored : Bool := false
  ran : List Bytes := []
  ranHeld : Bool := false
  version : Nat := 0

/-- The bits of `_RrKeyedBits`. -/
structure KeyedBits where
  hasValue : Bool := false
  authored : Bool := false
  blocked : Bool := false
deriving DecidableEq

/-- What the vectors of `RrInputState` hold at one slot. -/
structure SlotState where
  /-- `slotCurrent`. -/
  current : WireValue := {}
  /-- `slotHasValue`. -/
  hasValue : Bool := false
  /-- `slotBlocked`. -/
  blocked : Bool := false
  /-- `slotAuthored`. -/
  authored : Bool := false
  /-- `slotRan`. -/
  ran : WireValue := {}
  /-- `slotRanHasValue`. -/
  ranHasValue : Bool := false
  /-- `slotRanAuthored`. -/
  ranAuthored : Bool := false
  /-- `slotChangedSinceRun`. -/
  changedSinceRun : Bool := false
  touchedFlag : Bool := false
  writtenFlag : Bool := false
  keyedValue : WireValue := {}
  keyedBits : KeyedBits := {}
  array : ArraySlot := {}

/-- Interned token text: `extraTokens` and `tokenIds`. -/
structure TokenTable where
  extraTokens : List String := []
  tokenIds : String → Option Nat := fun _ => none

/-- The fields of `RrStore` that the touched slots set. -/
structure OverrideFlags where
  overridden : Nat → Bool := fun _ => false
  anyOverridden : Bool := false
  changedSinceRun : Nat → Bool := fun _ => false
  anyChangedSinceRun : Bool := false
  animatedTouched : Bool := false

/-- `RrInputState`, with the flags of the store. -/
structure InputState where
  slot : Nat → SlotState
  touched : List Nat := []
  written : List Nat := []
  changedSlots : List Nat := []
  valueOverridden : Nat → Bool := fun _ => false
  tokens : TokenTable := {}
  store : OverrideFlags := {}

/-- One slot is rewritten. -/
def InputState.update (st : InputState) (s : Nat) (f : SlotState → SlotState) : InputState :=
  { st with slot := Function.update st.slot s (f (st.slot s)) }

/-- `_RrKeyedBits`. -/
def keyedBits (slot : SlotState) : KeyedBits where
  hasValue := slot.hasValue
  authored := slot.authored
  blocked := slot.blocked

/-! ## Token text -/

/-- `tokenIds.find`, and where there is none the next id. -/
def TokenTable.intern (base : Nat) (tokens : TokenTable) (text : String) : Nat × TokenTable :=
  match tokens.tokenIds text with
  | some id => (id, tokens)
  | none =>
      let id := base + tokens.extraTokens.length
      (id, { extraTokens := tokens.extraTokens ++ [text]
             tokenIds := Function.update tokens.tokenIds text (some id) })

/-- The texts interned one after another, with their ids. -/
def TokenTable.internAll (base : Nat) (tokens : TokenTable) :
    List String → List Nat × TokenTable
  | [] => ([], tokens)
  | text :: texts =>
      let first := tokens.intern base text
      let rest := first.2.internAll base texts
      (first.1 :: rest.1, rest.2)

/-- `tokenIds.emplace`. -/
def TokenTable.emplace (tokens : TokenTable) (text : String) (id : Nat) : TokenTable :=
  match tokens.tokenIds text with
  | some _ => tokens
  | none => { tokens with tokenIds := Function.update tokens.tokenIds text (some id) }

variable (file : InputsFile)

/-- The token text the file holds: the pools, the empty token, then each token node. -/
def openTokens : TokenTable :=
  let pooled : TokenTable := file.tokenArrays.foldl
    (fun (tokens : TokenTable) texts => (tokens.internAll file.paths texts).2) {}
  file.tokenNodes.foldl (fun (tokens : TokenTable) id =>
    match file.nodeText[id]? with
    | some text => tokens.emplace text id
    | none => tokens) (pooled.emplace "" 0)

def getText (tokens : TokenTable) (id : Nat) : Option String :=
  match file.nodeText[id]? with
  | some text => some text
  | none => if id < file.paths then none else tokens.extraTokens[id - file.paths]?

/-- `RrInputsOpen`, of one slot. -/
def openSlot (slot : InputSlot) : SlotState where
  current := slot.value
  hasValue := slot.defaultHasValue
  blocked := slot.sourceBlocked
  ran := slot.value
  ranHasValue := slot.defaultHasValue
  keyedValue := slot.value
  keyedBits := { hasValue := slot.defaultHasValue, blocked := slot.sourceBlocked }

/-- The state after `RrInputsOpen`. -/
def openState : InputState where
  slot s := openSlot (file.input s)
  tokens := openTokens file

/-! ## Helpers -/

section Helpers

variable (s : Nat) (st : InputState)

/-- `RrInputsMarkWritten`. -/
def markWritten : InputState :=
  if s < file.inputs.length ∧ (st.slot s).writtenFlag = false then
    { st.update s fun slot => { slot with writtenFlag := true } with written := st.written ++ [s] }
  else st

/-- The slot is listed as touched, once. -/
def touch : InputState :=
  if (st.slot s).touchedFlag = true then st
  else
    { st.update s fun slot => { slot with touchedFlag := true } with touched := st.touched ++ [s] }

/-- What `_RrTouchArray` makes of the array at its first mark since the last run. -/
def ArraySlot.keepRan (a : ArraySlot) : ArraySlot :=
  { a with
    ranHeld := a.holdsSet
    ran := if a.holdsSet then a.held else a.ran
    held := if a.holdsSet then [] else a.held }

/-- `_RrTouchArray`. -/
def touchArray : InputState :=
  let marked := markWritten file s st
  if (marked.slot s).touchedFlag = true then marked
  else touch s (marked.update s fun slot => { slot with array := slot.array.keepRan })

/-- `_RrStoreSlot`. -/
def storeSlot (value : WireValue) (has : Bool) : InputState :=
  touch s ((markWritten file s st).update s fun slot =>
    { slot with current := value, hasValue := has, blocked := false })

def setAuthored (authored : Bool) : InputState :=
  st.update s fun slot => { slot with authored }

/-- `_RrArrayView`. -/
def arrayView (slot : SlotState) : List Bytes :=
  if slot.array.holdsSet then slot.array.held else (file.input s).defaultVector

/-- What the memos read of a slot. -/
structure SlotView where
  current : WireValue
  hasValue : Bool
  /-- `slotAuthored`, and `RrInputArrayAuthored` of an array slot. -/
  authored : Bool
  blocked : Bool
  /-- The elements of an array slot. -/
  elements : List Bytes
  /-- `RrInputArrayVersion`. -/
  version : Nat
deriving DecidableEq

/-- What the memos read of a slot in this state. -/
def slotView (slot : SlotState) : SlotView where
  current := slot.current
  hasValue := slot.hasValue
  authored := if (file.input s).type.isArray then slot.array.authored else slot.authored
  blocked := slot.blocked
  elements := if (file.input s).type.isArray then arrayView file s slot else []
  version := if (file.input s).type.isArray then slot.array.version else 0

/-- `_RrSlotDiffersFromDefault`. -/
def slotDiffersFromDefault : Bool :=
  (st.slot s).hasValue != (file.input s).defaultHasValue ||
    !sameValueBits (st.slot s).current (file.input s).value

/-- `_RrArrayDiffersFromDefault`. -/
def arrayDiffersFromDefault : Bool :=
  (st.slot s).array.holdsSet || (st.slot s).hasValue != (file.input s).defaultHasValue

end Helpers

/-! ## Calls -/

/-- A call that fails leaves this message and this state. -/
abbrev Outcome : Type := Option String × InputState

/-- The message of an index past the inputs. -/
def noInput (index count : Nat) : String :=
  "no input at index " ++ toString index ++ "; the file lists " ++ toString count

/-- The value that `RrInputsSet` stores, of an input of this name and type. -/
def inputWire (tokens : TokenTable) (name : String) (type : InputTag) (value : InputValue)
    (acceptNonFinite : Bool) : Except String WireValue :=
  let narrow := type == .float && value.tag == .double
  let notFinite : Except String WireValue := .error (name ++ " takes finite values only")
  let accepts (d : BitVec 64) := acceptNonFinite || isFinite d
  let acceptsFloat (f : BitVec 32) := acceptNonFinite || isFiniteFloat f
  if value.tag ≠ type ∧ narrow = false then
    .error (name ++ " is a " ++ tagName type ++ " input, not a " ++ tagName value.tag)
  else
    match type with
    | .double => if accepts value.f64 then .ok { tag := type, bits := value.f64 } else notFinite
    | .float =>
        if narrow && !accepts value.f64 then notFinite
        else
          let f := if narrow then narrowed value.f64 else value.f32
          if acceptsFloat f then .ok (floatValue f) else notFinite
    | .bool => .ok { tag := type, bits := if value.boolean then 1 else 0 }
    | .int => .ok { tag := type, bits := value.i32.zeroExtend 64 }
    | .matrix4d =>
        if value.matrix.toList.all accepts then .ok { tag := type, matrix := value.matrix }
        else notFinite
    | .token =>
        match getText file tokens value.token with
        | none => .error (name ++ ": token id " ++ toString value.token ++ " names no text")
        | some _ => .ok { tag := type, bits := BitVec.ofNat 64 value.token }
    | .vec3d =>
        if value.vec.toList.all accepts then .ok { tag := type, vec3d := value.vec } else notFinite
    | .vec3f =>
        if value.vec3f.toList.all acceptsFloat then .ok { tag := type, vec3f := value.vec3f }
        else notFinite
    | _ => .ok { tag := type }

/-- `RrInputsSet`. -/
def inputsSet (index : Nat) (value : InputValue) (acceptNonFinite : Bool) (st : InputState) :
    Outcome :=
  let slot := file.input index
  if file.listed ≤ index then (some (noInput index file.listed), st)
  else if slot.type.isArray then
    (some (slot.name ++ " is a " ++ tagName slot.type ++ " input: set it with SetInputArray"), st)
  else
    match inputWire file st.tokens slot.name slot.type value acceptNonFinite with
    | .error message => (some message, st)
    | .ok wire => (none, storeSlot file index (setAuthored index st (!acceptNonFinite)) wire true)

/-- What `_RrSetArraySlot` refuses. -/
def arrayRefusal (index : Nat) (value : RuntimeArray) (authored : Bool) : Option String :=
  let slot := file.input index
  let defaultCount := slot.defaultVector.length
  if file.inputs.length ≤ index then some (noInput index file.inputs.length)
  else if slot.type.isArray = false then
    some (slot.name ++ " is a " ++ tagName slot.type ++ " input, not an array")
  else if value.tag ≠ slot.type then
    some (slot.name ++ " is a " ++ tagName slot.type ++ " input, not a " ++ tagName value.tag)
  else if 0 < value.count ∧ value.data = none then some (slot.name ++ ": no elements to copy")
  else if authored = true ∧ value.count ≠ defaultCount then
    some (slot.name ++ " holds " ++ toString defaultCount ++
      " elements; an array set keeps that count, not " ++ toString value.count)
  else if slot.topology = true ∧ value.count ≠ defaultCount then
    some (slot.name ++ " is topology, fixed at " ++ toString defaultCount ++
      " elements for this reader; a sampled set of " ++ toString value.count ++ " is refused")
  else none

/-- The array of a slot that takes these elements. -/
def ArraySlot.take (a : ArraySlot) (atDefault : Bool) (elements : List Bytes) (authored : Bool) :
    ArraySlot :=
  { a with
    holdsSet := !atDefault
    held := if atDefault then [] else elements
    authored }

/-- `_RrSetArraySlot`, of a value that is not refused. -/
def storeArray (s : Nat) (elements : List Bytes) (authored : Bool) (st : InputState) :
    InputState :=
  let marked := markWritten file s st
  if (marked.slot s).hasValue = true ∧ arrayView file s (marked.slot s) = elements then
    marked.update s fun slot => { slot with array := { slot.array with authored } }
  else
    let atDefault := (file.input s).defaultHasValue &&
      decide ((file.input s).defaultVector = elements)
    (touchArray file s marked).update s fun slot =>
      { slot with array := slot.array.take atDefault elements authored, hasValue := true }

/-- `_RrSetArraySlot`. -/
def setArraySlot (index : Nat) (value : RuntimeArray) (authored : Bool) (st : InputState) :
    Outcome :=
  match arrayRefusal file index value authored with
  | some message => (some message, st)
  | none => (none, storeArray file index value.elements authored st)

/-- `RrInputsSetArray`. -/
def inputsSetArray (index : Nat) (value : RuntimeArray) (authored : Bool) (st : InputState) :
    Outcome :=
  if file.listed ≤ index then (some (noInput index file.listed), st)
  else setArraySlot file index value authored st

def tokenValue (id : Nat) : WireValue := { tag := .token, bits := BitVec.ofNat 64 id }

/-- `RrInputsSetToken`. -/
def inputsSetToken (index : Nat) (text : String) (st : InputState) : Outcome :=
  let slot := file.input index
  if file.listed ≤ index then (some (noInput index file.listed), st)
  else if slot.type ≠ .token then
    (some (slot.name ++ " is a " ++ tagName slot.type ++ " input, not a token"), st)
  else
    let found := st.tokens.intern file.paths text
    (none, storeSlot file index (setAuthored index { st with tokens := found.2 } true)
      (tokenValue found.1) true)

/-- What a reset leaves of an array that differs from its default. -/
def clearArray (s : Nat) (has : Bool) (st : InputState) : InputState :=
  (touchArray file s st).update s fun slot =>
    { slot with array := { slot.array with holdsSet := false, held := [] }, hasValue := has }

/-- `RrInputsReset`. -/
def inputsReset (index : Nat) (st : InputState) : InputState :=
  let slot := file.input index
  let marked := markWritten file index st
  let unauthored := if index < file.inputs.length then setAuthored index marked false else marked
  if file.listed ≤ index then unauthored
  else if file.isArraySlot index then
    let cleared :=
      if arrayDiffersFromDefault file index unauthored then
        clearArray file index slot.defaultHasValue unauthored
      else unauthored
    cleared.update index fun slot => { slot with array := { slot.array with authored := false } }
  else
    let unblocked :=
      if slot.providerSource &&& 2 ≠ 0 then
        unauthored.update index fun held => { held with blocked := slot.sourceBlocked }
      else unauthored
    storeSlot file index unblocked slot.value slot.defaultHasValue

/-- `RrInputsClear`. -/
def inputsClear (index : Nat) (st : InputState) : Outcome :=
  let slot := file.input index
  if file.listed ≤ index then (some (noInput index file.listed), st)
  else if file.isArraySlot index then
    (some (slot.name ++ " is an array input; ResetInput restores it"), st)
  else (none, setAuthored index (storeSlot file index st slot.value false) false)

/-- The value that `RrStageScalarSet` stores, of a slot of this type. -/
def stageWire (type : InputTag) (value : InputValue) : WireValue :=
  match type with
  | .double => { tag := type, bits := value.f64 }
  | .float => { tag := type, bits := value.f32.zeroExtend 64 }
  | .bool => { tag := type, bits := if value.boolean then 1 else 0 }
  | .int => { tag := type, bits := value.i32.zeroExtend 64 }
  | .vec3d => { tag := type, vec3d := value.vec }
  | .vec3f => { tag := type, vec3f := value.vec3f }
  | .vec3i => { tag := type, vec3i := value.vec3i }
  | .matrix4d => { tag := type, matrix := value.matrix }
  | _ => { tag := type }

/-- `RrStageScalarSet`. -/
def stageScalarSet (s : Nat) (value : InputValue) (st : InputState) : Outcome :=
  let slot := file.input s
  if file.inputs.length ≤ s ∨ slot.providerSource = 0 then
    (some "not a declared provider raw source", st)
  else if slot.type.isArray = true ∨ slot.type = .token ∨ value.tag ≠ slot.type then
    (some "wrong provider scalar type", st)
  else
    (none, storeSlot file s (setAuthored s st false) (stageWire slot.type value) true)

/-- `RrStageScalarClear`. -/
def stageScalarClear (s : Nat) (st : InputState) : Outcome :=
  let slot := file.input s
  if file.inputs.length ≤ s ∨ slot.providerSource = 0 ∨ slot.type.isArray = true then
    (some "not a declared provider scalar source", st)
  else (none, storeSlot file s (setAuthored s st false) slot.value false)

/-- `RrStageArraySet`. -/
def stageArraySet (s : Nat) (value : RuntimeArray) (st : InputState) : Outcome :=
  if file.inputs.length ≤ s ∨ (file.input s).stageArray = false then
    (some ("no sampled array at slot " ++ toString s), st)
  else setArraySlot file s value false st

/-- `RrStageTokenArraySet`: the texts are interned before the slot is asked. -/
def stageTokenArraySet (s : Nat) (texts : List String) (st : InputState) : Outcome :=
  if file.inputs.length ≤ s ∨ (file.input s).type ≠ .tokenArray then
    (some "sampled token array has incompatible slot type", st)
  else
    let found := st.tokens.internAll file.paths texts
    stageArraySet file s (arrayOf .tokenArray (found.1.map fun id => Lib.leBytes id 4))
      { st with tokens := found.2 }

/-- `RrStageArrayClear`. -/
def stageArrayClear (s : Nat) (st : InputState) : Outcome :=
  if file.inputs.length ≤ s ∨ (file.input s).stageArray = false then
    (some ("no sampled array at slot " ++ toString s), st)
  else
    let marked := markWritten file s st
    if (marked.slot s).hasValue = true then
      (none, (clearArray file s false marked).update s fun slot =>
        { slot with array := { slot.array with authored := false } })
    else (none, marked)

/-- `RrStageTokenSet`. -/
def stageTokenSet (s : Nat) (text : String) (hasValue : Bool) (st : InputState) : Outcome :=
  if file.inputs.length ≤ s ∨ (file.input s).stageToken = false then
    (some ("no sampled token at slot " ++ toString s), st)
  else
    let found := if hasValue then st.tokens.intern file.paths text else (0, st.tokens)
    (none, storeSlot file s (setAuthored s { st with tokens := found.2 } false)
      (tokenValue found.1) hasValue)

/-- `RrStageInputBlockedSet`. -/
def stageInputBlockedSet (s : Nat) (blocked : Bool) (st : InputState) : Outcome :=
  if file.inputs.length ≤ s ∨ (file.input s).providerSource = 0 then
    (some "not a declared provider raw source", st)
  else (none, (markWritten file s st).update s fun slot => { slot with blocked })

inductive Call where
  | set (index : Nat) (value : InputValue) (acceptNonFinite : Bool)
  | setArray (index : Nat) (value : RuntimeArray) (authored : Bool)
  | setToken (index : Nat) (text : String)
  | reset (index : Nat)
  | clear (index : Nat)
  | stageScalarSet (s : Nat) (value : InputValue)
  | stageScalarClear (s : Nat)
  | stageArraySet (s : Nat) (value : RuntimeArray)
  | stageTokenArraySet (s : Nat) (texts : List String)
  | stageArrayClear (s : Nat)
  | stageTokenSet (s : Nat) (text : String) (hasValue : Bool)
  | stageInputBlockedSet (s : Nat) (blocked : Bool)

/-- What a call answers, and the state it leaves. -/
def Call.run (st : InputState) : Call → Outcome
  | .set index value acceptNonFinite => inputsSet file index value acceptNonFinite st
  | .setArray index value authored => inputsSetArray file index value authored st
  | .setToken index text => inputsSetToken file index text st
  | .reset index => (none, inputsReset file index st)
  | .clear index => inputsClear file index st
  | .stageScalarSet s value => Inputs.stageScalarSet file s value st
  | .stageScalarClear s => Inputs.stageScalarClear file s st
  | .stageArraySet s value => Inputs.stageArraySet file s value st
  | .stageTokenArraySet s texts => Inputs.stageTokenArraySet file s texts st
  | .stageArrayClear s => Inputs.stageArrayClear file s st
  | .stageTokenSet s text hasValue => Inputs.stageTokenSet file s text hasValue st
  | .stageInputBlockedSet s blocked => Inputs.stageInputBlockedSet file s blocked st

/-- Calls one after another, those that fail included. -/
def runCalls (calls : List Call) (st : InputState) : InputState :=
  calls.foldl (fun st call => (call.run file st).2) st

/-! ## Runs -/

/-- Whether the elements of an array slot moved against what the last run read. -/
def arrayMoved (s : Nat) (slot : SlotState) : Bool :=
  let before := if slot.array.ranHeld then slot.array.ran else (file.input s).defaultVector
  decide (arrayView file s slot ≠ before)

/-- Whether an array slot changed against what the last run read. -/
def arrayChanged (s : Nat) (slot : SlotState) : Bool :=
  slot.hasValue != slot.ranHasValue || arrayMoved file s slot

/-- What an array slot holds is what was read. -/
def appliedArray (s : Nat) (slot : SlotState) : SlotState :=
  { slot with
    ranHasValue := slot.hasValue
    changedSinceRun := arrayChanged file s slot || slot.changedSinceRun
    array :=
      { slot.array with
        version := if arrayMoved file s slot then slot.array.version + 1 else slot.array.version
        ran := []
        ranHeld := false } }

/-- The slot is listed as changed. -/
def record (changed : Bool) (s : Nat) (st : InputState) : InputState :=
  if changed then { st with changedSlots := st.changedSlots ++ [s] } else st

/-- An array slot is flagged, and its version moves; it raises no override number. -/
def applyArray (s : Nat) (st : InputState) : InputState :=
  record (arrayChanged file s (st.slot s)) s (st.update s (appliedArray file s))

/-- Whether the walk of an override number holds a value, or another one than its default. -/
def walkDiffers (st : InputState) (number : Nat) : Bool :=
  (file.overrideSlots number).any fun t =>
    (st.slot t).authored && (st.slot t).hasValue || slotDiffersFromDefault file t st

/-- One override number that a touched slot reaches. -/
def raiseOverride (changed : Bool) (st : InputState) (number : Nat) : InputState :=
  let marked :=
    if changed = true ∧ number < file.overrideCount then
      { st with store :=
        { st.store with
          changedSinceRun := Function.update st.store.changedSinceRun number true
          anyChangedSinceRun := true } }
    else st
  if file.overrideCount ≤ number ∨ file.overrideNumbers ≤ number then marked
  else
    { marked with
      valueOverridden :=
        Function.update marked.valueOverridden number (walkDiffers file marked number) }

/-- Whether a scalar slot moved against what the last run read. -/
def scalarChanged (slot : SlotState) : Bool :=
  slot.authored != slot.ranAuthored || slot.hasValue != slot.ranHasValue ||
    !sameValueBits slot.current slot.ran

/-- What a scalar slot holds is what was read. -/
def appliedScalar (slot : SlotState) : SlotState :=
  if scalarChanged slot then
    { slot with
      ranAuthored := slot.authored, ran := slot.current, ranHasValue := slot.hasValue
      changedSinceRun := true }
  else { slot with ranAuthored := slot.authored }

/-- An animated slot moves with time. -/
def noteAnimated (s : Nat) (st : InputState) : InputState :=
  if (file.input s).animated then { st with store := { st.store with animatedTouched := true } }
  else st

/-- A scalar slot raises the override numbers that it reaches. -/
def applyScalar (s : Nat) (st : InputState) : InputState :=
  (file.slotOverrides s).foldl (raiseOverride file (scalarChanged (st.slot s)))
    (record (scalarChanged (st.slot s)) s (noteAnimated file s (st.update s appliedScalar)))

/-- One touched slot. -/
def applySlot (st : InputState) (s : Nat) : InputState :=
  let unmarked := st.update s fun slot => { slot with touchedFlag := false }
  if file.isArraySlot s then applyArray file s unmarked else applyScalar file s unmarked

/-- The flags of the run before are cleared. -/
def clearChanged (st : InputState) : InputState :=
  { st.changedSlots.foldl
      (fun st s => st.update s fun slot => { slot with changedSinceRun := false }) st
    with changedSlots := [] }

/-- The store takes the override flags. -/
def publishOverrides (st : InputState) : InputState :=
  { st with store :=
    { st.store with
      overridden := st.valueOverridden
      anyOverridden := (List.range file.overrideCount).any st.valueOverridden } }

/-- `RrInputsApplyTouched`. -/
def applyTouched (st : InputState) : InputState :=
  let cleared := clearChanged st
  publishOverrides file { cleared.touched.foldl (applySlot file) cleared with touched := [] }

/-- A run that ends well clears the marks it has read. -/
def endRun (st : InputState) : InputState :=
  { st with store :=
    { st.store with
      changedSinceRun := fun _ => false, anyChangedSinceRun := false, animatedTouched := false } }

/-- `RrInputsFilterWritten`. -/
def filterWritten (enabled all : Bool) (st : InputState) : InputState :=
  let record (slot : SlotState) : SlotState :=
    { slot with keyedValue := slot.current, keyedBits := keyedBits slot }
  if all then { st with slot := fun s => record (st.slot s) }
  else
    st.written.foldl (fun kept s =>
        if file.isArraySlot s = false ∧ s < file.inputs.length then
          let slot := kept.slot s
          if enabled && keyedBits slot == slot.keyedBits &&
              sameKeyedValue slot.current slot.keyedValue then
            kept.update s fun slot => { slot with writtenFlag := false }
          else { kept.update s record with written := kept.written ++ [s] }
        else { kept with written := kept.written ++ [s] })
      { st with written := [] }

end RigExec.Inputs
