/-
# `RigExec.Inputs.Sources` — the runs of a program that reads inputs

The memory of a run is the input state, and the rest.  The bodies of a run read the inputs and write
the rest; the run itself filters and clears the written slots.  A program is what the open has
built: the steps with their reads, the slots of the leaves, and what the reader has checked of them.

    `SpaceLeaf`           keyed by the input slot of a sampled leaf
    `ConstraintInputs`    keyed by the raw slots of a constraint's arrays
    any other domain      read from the inputs and the rest, in whatever way
-/
import RigExec.Inputs.Written
import RigExec.Closure.Sparse
import RigExec.Closure.SmallValue

namespace RigExec.Inputs

open OpGraph
open Closure (ClosureProgram OpValueState OpAdapterState keyText leafSlots moves publishAt)
open Lib (Bytes)

/-! ## Programs -/

/-- `RigExecWireSlotDomain::SpaceLeaf`. -/
def spaceLeaf : Nat := 33

/-- `RigExecWireSlotDomain::ConstraintInputs`. -/
def constraintInputs : Nat := 36

/-- The memory of a run. -/
structure Memory (ρ : Type) where
  inputs : InputState
  rest : ρ

/-- A program whose runs write `ρ`. -/
structure SourceProgram (ρ : Type) where
  file : InputsFile
  declared : file.Declared
  graph : CompiledGraph
  /-- The step of an operation. -/
  step : Nat → SourceStep
  /-- The slots of a read are inputs. -/
  readSlots : ∀ c, ∀ read ∈ (step c).headInputReads, ∀ s ∈ read.slots, s < file.inputs.length
  /-- The tokens of the constants are the file's. -/
  constants : ∀ c, ∀ read ∈ (step c).headInputReads, ∀ id ∈ valueIds read.tag read.constant,
    id < file.paths
  /-- The input slots of `providerProgram->sampled`. -/
  sampled : List Int := []
  /-- The raw slots of `pose->constraintArrays`. -/
  constraintArrays : List (List Int) := []
  /-- `RrInputState::filterWritten`. -/
  filters : Bool := true
  headAlwaysRuns : Nat → Bool := fun _ => false
  verifySparseLeaves : Bool := false
  verifyConstantSources : Bool := false
  verifyLeafVersions : Bool := false
  verifySourceKeys : Bool := false
  /-- `RrOpValue` of the other domains. -/
  otherValue : Nat → Nat → InputState → ρ → String := fun _ _ _ _ => ""
  smallValue : Nat → Nat → InputState → ρ → Option String := fun _ _ _ _ => none
  effectiveInput : Nat → (ValueId → Nat) → InputState → ρ → String × Bool :=
    fun _ _ _ _ => ("", true)
  shadowed : Nat → Nat → ρ → Bool := fun _ _ _ => false
  begin : InputState → ρ → ρ := fun _ rest => rest
  resetExcludedValue : Nat → Nat → InputState → ρ → ρ := fun _ _ _ rest => rest
  publishChainInputs : InputState → ρ → ρ := fun _ rest => rest
  runOpBody : Nat → InputState → ρ → ρ × Bool := fun _ _ rest => (rest, true)
  notePublished : OpValueState → InputState → ρ → ρ := fun _ _ rest => rest
  skipStep : Nat → InputState → ρ → ρ := fun _ _ rest => rest
  versionsDisagree : OpAdapterState → InputState → ρ → ρ × Bool := fun _ _ rest => (rest, false)
  foldHeldSteps : InputState → ρ → ρ := fun _ rest => rest
  propertyPublish : InputState → ρ → ρ := fun _ rest => rest
  admitted : InputState → ρ → Bool := fun _ _ => true

namespace SourceProgram

variable {ρ : Type} (program : SourceProgram ρ)

section Keys

variable (text : Nat → Bytes) (view : Nat → SlotView)

/-- The source memo of an operation. -/
def memo (c : Nat) (contentArrays : Bool) : String :=
  keyText (inputMemo program.file text view (program.step c) contentArrays)

/-- The key of a leaf that input slots key. -/
def leafKey (domain slot : Nat) : Option String :=
  if domain = spaceLeaf then
    (program.sampled[slot]?).map fun inputSlot => keyText (spaceLeafKey program.file text view inputSlot)
  else if domain = constraintInputs then
    (program.constraintArrays[slot]?).map fun rawSlots =>
      keyText (constraintInputsKey program.file text view rawSlots)
  else none

/-- The slots that key a leaf. -/
def keyedSlots (domain slot : Nat) : Option (List Nat) :=
  if domain = spaceLeaf then
    (program.sampled[slot]?).map fun inputSlot => declaredSlots [inputSlot]
  else if domain = constraintInputs then (program.constraintArrays[slot]?).map declaredSlots
  else none

end Keys

/-- `TextOrEmpty`, in this state. -/
def texts (inputs : InputState) : Nat → Bytes := textOrEmpty program.file inputs.tokens

/-- `RrOpValue`. -/
def opValue (domain slot : Nat) (memory : Memory ρ) : String :=
  (program.leafKey (program.texts memory.inputs) (views program.file memory.inputs) domain
    slot).getD (program.otherValue domain slot memory.inputs memory.rest)

/-- The rest is rewritten. -/
def onRest (f : InputState → ρ → ρ) (memory : Memory ρ) : Memory ρ :=
  { memory with rest := f memory.inputs memory.rest }

/-- What the runs take from the program. -/
def closure : ClosureProgram (Memory ρ) where
  graph := program.graph
  keyedSlots := program.keyedSlots
  sourceSlots c := (program.step c).slots program.file
  headAlwaysRuns := program.headAlwaysRuns
  memoIsConstant c := (program.step c).isConstant
  verifySparseLeaves := program.verifySparseLeaves
  verifyConstantSources := program.verifyConstantSources
  verifyLeafVersions := program.verifyLeafVersions
  verifySourceKeys := program.verifySourceKeys
  opValue := program.opValue
  smallValue domain slot memory :=
    if (program.keyedSlots domain slot).isSome then none
    else program.smallValue domain slot memory.inputs memory.rest
  inputMemo c contentArrays memory :=
    program.memo (program.texts memory.inputs) (views program.file memory.inputs) c contentArrays
  effectiveInput c revisions memory :=
    program.effectiveInput c revisions memory.inputs memory.rest
  shadowed c slot memory := program.shadowed c slot memory.rest
  begin := onRest program.begin
  resetExcludedValue domain slot := onRest (program.resetExcludedValue domain slot)
  publishChainInputs := onRest program.publishChainInputs
  filterWritten all memory :=
    { memory with inputs := filterWritten program.file program.filters all memory.inputs }
  written memory := memory.inputs.written
  clearWritten memory := { memory with inputs := clearWritten memory.inputs }
  runOpBody c memory :=
    let ran := program.runOpBody c memory.inputs memory.rest
    ({ memory with rest := ran.1 }, ran.2)
  notePublished value := onRest (program.notePublished value)
  skipStep c := onRest (program.skipStep c)
  versionsDisagree adapter memory :=
    let checked := program.versionsDisagree adapter memory.inputs memory.rest
    ({ memory with rest := checked.1 }, checked.2)
  foldHeldSteps := onRest program.foldHeldSteps
  propertyPublish := onRest program.propertyPublish
  admitted memory := program.admitted memory.inputs memory.rest

end SourceProgram

/-! ## What a key depends on -/

section Depends

variable {ρ : Type} {program : SourceProgram ρ} {record record' : Nat → SlotView}
  {tokens tokens' : TokenTable} {domain slot c : Nat} {id : ValueId}

theorem sameSources_grows (hspelled : ∀ s, ∀ id ∈ tokenIds program.file s (record s),
      Spelled program.file tokens id)
    (hgrows : tokens.extraTokens <+: tokens'.extraTokens) {slots : List Nat}
    (hviews : ∀ s ∈ slots, s < program.file.inputs.length → record s = record' s) :
    SameSources program.file (textOrEmpty program.file tokens) (textOrEmpty program.file tokens')
      record record' slots where
  views := hviews
  texts s _ _ id hid := textOrEmpty_grows (hspelled s id hid) hgrows

/-- **A source memo depends on the slots that the index has for its step.** -/
theorem memo_congr (hspelled : ∀ s, ∀ id ∈ tokenIds program.file s (record s),
      Spelled program.file tokens id)
    (hgrows : tokens.extraTokens <+: tokens'.extraTokens)
    (hviews : ∀ s ∈ (program.step c).slots program.file, s < program.file.inputs.length →
      record s = record' s) (contentArrays : Bool) :
    program.memo (textOrEmpty program.file tokens) record c contentArrays =
      program.memo (textOrEmpty program.file tokens') record' c contentArrays := by
  refine congrArg keyText (inputMemo_congr ?_ (sameSources_grows hspelled hgrows hviews))
  exact
    { slots := program.readSlots c
      constants := fun read hread id hid =>
        textOrEmpty_grows (spelled_of_lt (program.constants c read hread id hid) tokens) hgrows }

theorem isSome_leafKey (text : Nat → Bytes) (view : Nat → SlotView) :
    (program.leafKey text view domain slot).isSome = (program.keyedSlots domain slot).isSome := by
  unfold SourceProgram.leafKey SourceProgram.keyedSlots
  split
  · rw [Option.isSome_map, Option.isSome_map]
  · split
    · rw [Option.isSome_map, Option.isSome_map]
    · rfl

/-- **The key of a leaf depends on the slots that key it.** -/
theorem leafKey_congr {text text' : Nat → Bytes} {slots : List Nat}
    (hslots : program.keyedSlots domain slot = some slots)
    (h : SameSources program.file text text' record record' slots) :
    program.leafKey text record domain slot = program.leafKey text' record' domain slot := by
  unfold SourceProgram.keyedSlots at hslots
  unfold SourceProgram.leafKey
  split
  · rename_i hdomain
    rw [if_pos hdomain] at hslots
    obtain ⟨inputSlot, hsampled, rfl⟩ := Option.map_eq_some_iff.mp hslots
    rw [hsampled, Option.map_some, Option.map_some, spaceLeafKey_congr h]
  · rename_i hdomain
    rw [if_neg hdomain] at hslots
    split
    · rename_i harrays
      rw [if_pos harrays] at hslots
      obtain ⟨rawSlots, hraw, rfl⟩ := Option.map_eq_some_iff.mp hslots
      rw [hraw, Option.map_some, Option.map_some, constraintInputsKey_congr h]
    · rfl

end Depends

end RigExec.Inputs
