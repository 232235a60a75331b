/-
# `RigExec.Inputs.Memos` — what the memos of a run read

The source memo of a step and the key of a leaf are bytes: what input slots hold, and for a bound
read its constant and every slot that the read may consult.  Of the input state they take what
`slotView` has of these slots, and the text of the tokens that stand there.

    versioned          the elements of an array by their version, not by their bytes
    `sampleTime` 1     a Default read: what no set has authored is read at its default
    the slots          `WireInput.slots` and `SourceStep.slots`, which the index lists
    the tokens         `tokenIds` of a slot, and of the constant of a read
-/
import RigExec.Inputs.Model
import RigExec.Closure.Keys

namespace RigExec.Inputs

open Lib (Bytes readLE sortUnique)
open Closure (ObjectBytes keyAppend keyAppendText sizeOf_)

/-! ## Reads and steps -/

/-- The fields of `RigExecWirePropertyInputCandidate` that a memo reads. -/
structure InputCandidate where
  raw : Bool
  slot : Nat

/-- The slots of the candidates that are raw. -/
def rawHops (candidates : List InputCandidate) : List Nat :=
  (candidates.filter fun candidate => candidate.raw).map fun candidate => candidate.slot

/-- The fields of `RigExecWireInput` that a memo reads. -/
structure WireInput where
  tag : InputTag := .double
  sampleTime : UInt8 := 0
  /-- `values[read.constant]`. -/
  constant : WireValue := {}
  walk : List Nat := []
  propertyCandidates : List InputCandidate := []
  doubleCandidates : List InputCandidate := []
  rawFallbackSlot : Int := -1

/-- The raw fallback, where there is one. -/
def WireInput.fallbackSlots (read : WireInput) : List Nat :=
  if 0 ≤ read.rawFallbackSlot then [read.rawFallbackSlot.toNat] else []

/-- The slots that a read may consult. -/
def WireInput.slots (read : WireInput) : List Nat :=
  read.walk ++ read.fallbackSlots ++ rawHops read.propertyCandidates ++
    rawHops read.doubleCandidates

/-- `RigExecWireStepKind`. -/
inductive StepKind where
  | composeSubtree | solve | solverCommit | constraint | commitDelta | propagateChunk | commitApply
  | providerMatrix | snapshotFinals | poseInterpolator | volumePlacements | weightPacket
  | influenceFold | revisionStatic | revisionChunk | revisionFuse | chainStatus | derived
  | frameMatrix | propertyRevision | restCompose | ladderCompose | skinTopology | weightField
  | spaceExpression | chainInputs | avarInputs | spaceCheckpoint | providerRefresh
deriving DecidableEq

/-- `_RrIsGeometryKind`. -/
def isGeometryKind : StepKind → Bool
  | .influenceFold | .revisionStatic | .revisionChunk | .revisionFuse | .chainStatus | .derived
  | .chainInputs => true
  | _ => false

/-- `_RrIsWeightKind`. -/
def isWeightKind (kind : StepKind) : Bool :=
  kind == .weightField || kind == .weightPacket || kind == .volumePlacements

/-- A registered read of an avar. -/
structure AvarRead where
  avar : BitVec 32
  read : WireInput

/-- The fields of `RigExecWireStep` that a memo reads. -/
structure SourceStep where
  kind : StepKind := .composeSubtree
  headInputSlots : List Nat := []
  headInputReads : List WireInput := []
  overrideInputs : List Int := []
  /-- The reads in `RrAvarReadRange` of the object. -/
  avarReads : List AvarRead := []

/-- The reads that an `AvarInputs` step memoizes. -/
def SourceStep.avarSources (step : SourceStep) : List AvarRead :=
  if step.kind = .avarInputs then step.avarReads else []

section Memos

variable (file : InputsFile)

/-- The slots of an override number that has any. -/
def overrideRow (number : Int) : List Nat :=
  if number < 0 ∨ file.overrideNumbers ≤ number.toNat then [] else file.overrideSlots number.toNat

/-- The slots that the source memo of a step may consult. -/
def SourceStep.slots (step : SourceStep) : List Nat :=
  step.headInputSlots ++ step.headInputReads.flatMap WireInput.slots ++
    step.avarSources.flatMap (fun binding => binding.read.slots) ++
    step.overrideInputs.flatMap (overrideRow file)

/-- `_RrInputMemoIsConstant`. -/
def SourceStep.isConstant (step : SourceStep) : Bool :=
  step.kind != .avarInputs && step.headInputSlots.isEmpty && step.headInputReads.isEmpty &&
    step.overrideInputs.isEmpty

/-! ## Bytes -/

instance : ObjectBytes InputTag where
  size := 1
  bytes tag := [UInt8.ofNat tag.value]
  length_bytes _ := rfl

def textOrEmpty (tokens : TokenTable) (id : Nat) : Bytes :=
  ((getText file tokens id).getD "").toUTF8.toList

/-- `uint32_t(value.bits)`. -/
def WireValue.tokenId (value : WireValue) : Nat := (value.bits.setWidth 32).toNat

/-- The token that an element of an array is. -/
def elementId (element : Bytes) : Nat := readLE element 4

/-- `_RrMemoValue`. -/
def memoValue (value : WireValue) (key : Bytes) : Bytes :=
  let key := keyAppend key value.tag
  let key := keyAppend key value.bits
  let key := keyAppend key value.matrix
  let key := keyAppend key value.vec3d
  let key := keyAppend key value.vec3f
  keyAppend key value.vec3i

/-- `_RrMemoArray`, of the elements that the array has. -/
def memoArray (elements : List Bytes) (key : Bytes) : Bytes :=
  keyAppend key (sizeOf_ elements) ++ elements.flatten

/-! ## Memos -/

variable (text : Nat → Bytes) (view : Nat → SlotView)

/-- `_RrRawSlotMemo`. -/
def rawSlotMemo (versioned : Bool) (slot : Int) (key : Bytes) : Bytes :=
  let declared := decide (0 ≤ slot ∧ slot.toNat < file.inputs.length)
  let key := keyAppend key declared
  if declared = false then key
  else
    let seen := view slot.toNat
    let tag := (file.input slot.toNat).type
    let key := keyAppend key seen.hasValue
    let key := keyAppend key seen.authored
    let key := keyAppend key seen.blocked
    let key := keyAppend key tag
    if tag.isArray && versioned then
      if seen.hasValue then keyAppend key (UInt64.ofNat seen.version) else key
    else if tag.isArray then memoArray (if seen.hasValue then seen.elements else []) key
    else
      let key := memoValue seen.current key
      if tag = .token then keyAppendText key (text seen.current.tokenId) else key

/-- `scalar`, of a read. -/
def sourceScalar (value : WireValue) (key : Bytes) : Bytes :=
  let key := memoValue value key
  if value.tag = .token then keyAppendText key (text value.tokenId) else key

/-- `array`, of a read. -/
def sourceArray (tag : InputTag) (elements : List Bytes) (key : Bytes) : Bytes :=
  if tag = .tokenArray then
    keyAppend (elements.foldl (fun key element => keyAppendText key (text (elementId element))) key)
      (sizeOf_ elements)
  else memoArray elements key

/-- One slot of `RrSourceReadMemo`. -/
def sourceSlotMemo (sampleTime : UInt8) (versioned : Bool) (key : Bytes) (slot : Nat) : Bytes :=
  let seen := view slot
  let declared := file.input slot
  let defaultRead := sampleTime == 1 && !seen.authored
  let held := if defaultRead then declared.defaultHasValue else seen.hasValue
  let key := keyAppend key (UInt32.ofNat slot)
  let key := keyAppend key held
  let key := keyAppend key seen.authored
  let key := keyAppend key (!defaultRead && seen.blocked)
  let key := keyAppend key declared.type
  if held = false then key
  else if declared.type.isArray then
    let key := keyAppend key true
    -- token arrays key their text, which ids need not spell uniquely
    if versioned && declared.type != .tokenArray then
      if defaultRead then key else keyAppend key (UInt64.ofNat seen.version)
    else
      sourceArray text declared.type
        (if defaultRead then declared.defaultVector else seen.elements) key
  else sourceScalar text (if defaultRead then declared.value else seen.current) key

/-- `RrSourceReadMemo`. -/
def sourceReadMemo (versioned : Bool) (key : Bytes) (read : WireInput) : Bytes :=
  let key := keyAppend key read.sampleTime
  let key := keyAppend key read.tag
  let key := sourceScalar text read.constant key
  (sortUnique read.slots).foldl (sourceSlotMemo file text view read.sampleTime versioned) key

/-- Raw slots, one after another. -/
def rawSlotsMemo (versioned : Bool) (slots : List Nat) (key : Bytes) : Bytes :=
  slots.foldl (fun key (slot : Nat) => rawSlotMemo file text view versioned slot key) key

/-- One read of an `AvarInputs` step. -/
def avarReadMemo (versioned : Bool) (key : Bytes) (binding : AvarRead) : Bytes :=
  let read := binding.read
  let key := keyAppend key binding.avar
  let key := memoValue read.constant key
  let key := rawSlotsMemo file text view versioned read.walk key
  let key := rawSlotsMemo file text view versioned (rawHops read.propertyCandidates) key
  let key := rawSlotsMemo file text view versioned (rawHops read.doubleCandidates) key
  rawSlotsMemo file text view versioned read.fallbackSlots key

/-- `_RrInputMemo`. -/
def inputMemo (step : SourceStep) (contentArrays : Bool) : Bytes :=
  let versioned := !contentArrays &&
    (isGeometryKind step.kind || isWeightKind step.kind || step.kind == .skinTopology)
  let key := rawSlotsMemo file text view versioned step.headInputSlots []
  let key := step.headInputReads.foldl (sourceReadMemo file text view versioned) key
  let key := step.avarSources.foldl (avarReadMemo file text view versioned) key
  step.overrideInputs.foldl
    (fun key number => rawSlotsMemo file text view versioned (overrideRow file number) key) key

/-- `RrOpValue`, of a `SpaceLeaf` of this input slot. -/
def spaceLeafKey (inputSlot : Int) : Bytes :=
  let key := keyAppend [] (BitVec.ofInt 32 inputSlot)
  if inputSlot < 0 then keyAppend key (0 : UInt8) else rawSlotMemo file text view false inputSlot key

/-- `RrOpValue`, of the `ConstraintInputs` with these raw slots. -/
def constraintInputsKey (rawSlots : List Int) : Bytes :=
  rawSlots.foldl (fun key slot => rawSlotMemo file text view false slot key) []

end Memos

/-! ## What a memo depends on -/

/-- The tokens that a value may be read as. -/
def valueIds (type : InputTag) (value : WireValue) : List Nat :=
  if type = .token ∨ value.tag = .token then [value.tokenId] else []

/-- The tokens that elements may be read as. -/
def elementIds (type : InputTag) (elements : List Bytes) : List Nat :=
  if type = .tokenArray then elements.map elementId else []

/-- The tokens that a memo may spell of a slot. -/
def tokenIds (file : InputsFile) (s : Nat) (seen : SlotView) : List Nat :=
  let declared := file.input s
  valueIds declared.type seen.current ++ valueIds declared.type declared.value ++
    elementIds declared.type seen.elements ++ elementIds declared.type declared.defaultVector

/-- Two texts and two views that a memo of these slots cannot tell apart. -/
structure SameSources (file : InputsFile) (text text' : Nat → Bytes) (view view' : Nat → SlotView)
    (slots : List Nat) : Prop where
  views : ∀ s ∈ slots, s < file.inputs.length → view s = view' s
  texts : ∀ s ∈ slots, s < file.inputs.length → ∀ id ∈ tokenIds file s (view s), text id = text' id

section Depends

variable {file : InputsFile} {text text' : Nat → Bytes} {view view' : Nat → SlotView}
  {slots slots' : List Nat} {versioned : Bool}

theorem SameSources.mono (h : SameSources file text text' view view' slots)
    (hsub : slots' ⊆ slots) : SameSources file text text' view view' slots' where
  views s hs := h.views s (hsub hs)
  texts s hs := h.texts s (hsub hs)

theorem rawSlotMemo_congr {slot : Int}
    (h : 0 ≤ slot → SameSources file text text' view view' [slot.toNat]) (key : Bytes) :
    rawSlotMemo file text view versioned slot key =
      rawSlotMemo file text' view' versioned slot key := by
  unfold rawSlotMemo
  dsimp only
  split
  · rfl
  · rename_i hdeclared
    obtain ⟨hslot, hlt⟩ := of_decide_eq_true (eq_true_of_ne_false hdeclared)
    have h := h hslot
    have hmem : slot.toNat ∈ [slot.toNat] := List.mem_cons_self
    have htext := h.texts _ hmem hlt
    rw [← h.views _ hmem hlt]
    split
    · rfl
    · split
      · rfl
      · split
        · rename_i htoken
          rw [htext]
          refine List.mem_append_left _ (List.mem_append_left _ (List.mem_append_left _ ?_))
          rw [valueIds, if_pos (.inl htoken)]
          exact List.mem_cons_self
        · rfl

theorem rawSlotsMemo_congr (h : SameSources file text text' view view' slots) (key : Bytes) :
    rawSlotsMemo file text view versioned slots key =
      rawSlotsMemo file text' view' versioned slots key := by
  refine List.foldl_ext _ _ key fun key slot hslot => ?_
  refine rawSlotMemo_congr (fun _ => h.mono fun s hs => ?_) key
  rw [List.mem_singleton.mp hs]
  exact hslot

theorem sourceScalar_congr (type : InputTag) {value : WireValue}
    (h : ∀ id ∈ valueIds type value, text id = text' id) (key : Bytes) :
    sourceScalar text value key = sourceScalar text' value key := by
  unfold sourceScalar
  dsimp only
  split
  · rename_i htoken
    rw [h]
    rw [valueIds, if_pos (.inr htoken)]
    exact List.mem_cons_self
  · rfl

theorem sourceArray_congr {type : InputTag} {elements : List Bytes}
    (h : ∀ id ∈ elementIds type elements, text id = text' id) (key : Bytes) :
    sourceArray text type elements key = sourceArray text' type elements key := by
  unfold sourceArray
  split
  · rename_i htype
    rw [elementIds, if_pos htype] at h
    rw [List.foldl_ext _ _ key fun key element helement => ?_]
    rw [h _ (List.mem_map_of_mem helement)]
  · rfl

theorem sourceSlotMemo_congr {sampleTime : UInt8} {s : Nat} (hs : s < file.inputs.length)
    (h : SameSources file text text' view view' [s]) (key : Bytes) :
    sourceSlotMemo file text view sampleTime versioned key s =
      sourceSlotMemo file text' view' sampleTime versioned key s := by
  have hmem : s ∈ [s] := List.mem_cons_self
  have htext := h.texts s hmem hs
  have harray : ∀ (atDefault : Bool) (key : Bytes),
      sourceArray text (file.input s).type
          (if atDefault then (file.input s).defaultVector else (view s).elements) key =
        sourceArray text' (file.input s).type
          (if atDefault then (file.input s).defaultVector else (view s).elements) key := by
    intro atDefault key
    refine sourceArray_congr (fun id hid => htext id ?_) key
    split at hid
    · exact List.mem_append_right _ hid
    · exact List.mem_append_left _ (List.mem_append_right _ hid)
  have hscalar : ∀ (atDefault : Bool) (key : Bytes),
      sourceScalar text (if atDefault then (file.input s).value else (view s).current) key =
        sourceScalar text' (if atDefault then (file.input s).value else (view s).current) key := by
    intro atDefault key
    refine sourceScalar_congr (file.input s).type (fun id hid => htext id ?_) key
    refine List.mem_append_left _ (List.mem_append_left _ ?_)
    split at hid
    · exact List.mem_append_right _ hid
    · exact List.mem_append_left _ hid
  unfold sourceSlotMemo
  simp only [← h.views s hmem hs, harray, hscalar]

theorem sourceReadMemo_congr {read : WireInput} (hslots : ∀ s ∈ read.slots, s < file.inputs.length)
    (h : SameSources file text text' view view' read.slots)
    (hconstant : ∀ id ∈ valueIds read.tag read.constant, text id = text' id) (key : Bytes) :
    sourceReadMemo file text view versioned key read =
      sourceReadMemo file text' view' versioned key read := by
  unfold sourceReadMemo
  dsimp only
  rw [sourceScalar_congr read.tag hconstant]
  refine List.foldl_ext _ _ _ fun key s hs => ?_
  have hs := Lib.mem_sortUnique.mp hs
  refine sourceSlotMemo_congr (hslots s hs) (h.mono fun t ht => ?_) key
  rw [List.mem_singleton.mp ht]
  exact hs

theorem avarReadMemo_congr {binding : AvarRead}
    (h : SameSources file text text' view view' binding.read.slots) (key : Bytes) :
    avarReadMemo file text view versioned key binding =
      avarReadMemo file text' view' versioned key binding := by
  have hparts : ∀ part, part ⊆ binding.read.slots → ∀ key,
      rawSlotsMemo file text view versioned part key =
        rawSlotsMemo file text' view' versioned part key :=
    fun part hpart key => rawSlotsMemo_congr (h.mono hpart) key
  unfold avarReadMemo
  dsimp only
  unfold WireInput.slots at hparts
  rw [hparts binding.read.walk (fun s hs => by simp [hs]),
    hparts (rawHops binding.read.propertyCandidates) (fun s hs => by simp [hs]),
    hparts (rawHops binding.read.doubleCandidates) (fun s hs => by simp [hs]),
    hparts binding.read.fallbackSlots (fun s hs => by simp [hs])]

/-- The reads of a step are in range, and the tokens of their constants spelled alike. -/
structure SourceStep.Sound (file : InputsFile) (text text' : Nat → Bytes) (step : SourceStep) :
    Prop where
  slots : ∀ read ∈ step.headInputReads, ∀ s ∈ read.slots, s < file.inputs.length
  constants : ∀ read ∈ step.headInputReads, ∀ id ∈ valueIds read.tag read.constant,
    text id = text' id

/-- **The source memo of a step depends on the slots of the step.** -/
theorem inputMemo_congr {step : SourceStep} {contentArrays : Bool}
    (hsound : step.Sound file text text')
    (h : SameSources file text text' view view' (step.slots file)) :
    inputMemo file text view step contentArrays = inputMemo file text' view' step contentArrays := by
  have hslots : ∀ part, part ⊆ step.slots file → SameSources file text text' view view' part :=
    fun part hpart => h.mono hpart
  unfold SourceStep.slots at hslots
  unfold inputMemo
  dsimp only
  rw [rawSlotsMemo_congr (hslots step.headInputSlots fun s hs => by simp [hs])]
  rw [List.foldl_ext _ _ _ fun key read (hread : read ∈ step.headInputReads) => ?_]
  rw [List.foldl_ext _ _ _ fun key binding (hbinding : binding ∈ step.avarSources) => ?_]
  rw [List.foldl_ext _ _ _ fun key number (hnumber : number ∈ step.overrideInputs) => ?_]
  · refine rawSlotsMemo_congr (hslots _ fun s hs => ?_) key
    exact List.mem_append_right _ (List.mem_flatMap.mpr ⟨number, hnumber, hs⟩)
  · refine avarReadMemo_congr (hslots _ fun s hs => ?_) key
    refine List.mem_append_left _ (List.mem_append_right _ ?_)
    exact List.mem_flatMap.mpr ⟨binding, hbinding, hs⟩
  · refine sourceReadMemo_congr (hsound.slots read hread) (hslots _ fun s hs => ?_)
      (hsound.constants read hread) key
    refine List.mem_append_left _ (List.mem_append_left _ (List.mem_append_right _ ?_))
    exact List.mem_flatMap.mpr ⟨read, hread, hs⟩

/-- The slots that are no less than zero. -/
def declaredSlots (slots : List Int) : List Nat :=
  (slots.filter fun slot => decide (0 ≤ slot)).map Int.toNat

theorem mem_declaredSlots {rawSlots : List Int} {slot : Int} (hmem : slot ∈ rawSlots)
    (hslot : 0 ≤ slot) : slot.toNat ∈ declaredSlots rawSlots :=
  List.mem_map_of_mem (List.mem_filter.mpr ⟨hmem, decide_eq_true hslot⟩)

theorem SameSources.declared {rawSlots : List Int}
    (h : SameSources file text text' view view' (declaredSlots rawSlots)) {slot : Int}
    (hmem : slot ∈ rawSlots) (hslot : 0 ≤ slot) :
    SameSources file text text' view view' [slot.toNat] := by
  refine h.mono fun s hs => ?_
  rw [List.mem_singleton.mp hs]
  exact mem_declaredSlots hmem hslot

theorem spaceLeafKey_congr {inputSlot : Int}
    (h : SameSources file text text' view view' (declaredSlots [inputSlot])) :
    spaceLeafKey file text view inputSlot = spaceLeafKey file text' view' inputSlot := by
  unfold spaceLeafKey
  dsimp only
  split
  · rfl
  · exact rawSlotMemo_congr (fun hslot => h.declared List.mem_cons_self hslot) _

theorem constraintInputsKey_congr {rawSlots : List Int}
    (h : SameSources file text text' view view' (declaredSlots rawSlots)) :
    constraintInputsKey file text view rawSlots =
      constraintInputsKey file text' view' rawSlots :=
  List.foldl_ext _ _ [] fun key _ hslot =>
    rawSlotMemo_congr (fun hdeclared => h.declared hslot hdeclared) key

end Depends

end RigExec.Inputs
