/-
# `RigExec.Closure.Model` — one run of the runtime's operation graph

`RrExecuteOpGraph` clears the flags of the last run, publishes the leaves, finds the
operations whose source memos moved, executes the graph and gathers the flags it has
set.  What the bodies and the memos read and write is the memory `σ`, and the
functions on it are the fields of a `ClosureProgram`.

    full publication      every leaf, on a first run, by force, or without a table
    sparse publication    the leaves not keyed by input slots, and those keyed by a
                          slot that was written
    verified runs         re-key what they skip, and stop where something moved
    joined runs           execute the graph, gather, and fail or end

A run that is stopped or fails makes the next one a first run.
-/
import RigExec.Closure.Values
import RigExec.OpGraph.Bodies

namespace RigExec.Closure

open RigExec.OpGraph
open Lib (sortUnique)

/-- `RigExecWireSlotDomain::PropertyResult`. -/
def propertyResult : Nat := 13

/-- `RigExecWireSlotDomain::RevisionDone`. -/
def revisionDone : Nat := 18

/-- `RigExecWireSlotDomain::ChainDirty`. -/
def chainDirty : Nat := 19

/-- What a run takes from the program.  Steps are named by the index of their operation. -/
structure ClosureProgram (σ : Type) where
  graph : CompiledGraph
  /-- The input slots that key a leaf, of a domain and a slot, if only these do. -/
  keyedSlots : Nat → Nat → Option (List Nat)
  /-- The input slots that the source memo of a step reads. -/
  sourceSlots : Nat → List Nat
  headAlwaysRuns : Nat → Bool
  /-- `_RrInputMemoIsConstant`. -/
  memoIsConstant : Nat → Bool
  verifySparseLeaves : Bool := false
  verifyConstantSources : Bool := false
  verifyLeafVersions : Bool := false
  verifySourceKeys : Bool := false
  /-- `RrOpValue`. -/
  opValue : Nat → Nat → σ → String
  /-- The bytes of `RrPublishSmallValue`, if the value has a key of fixed size. -/
  smallValue : Nat → Nat → σ → Option String := fun _ _ _ => none
  /-- `_RrInputMemo`; the flag is `contentArrays`. -/
  inputMemo : Nat → Bool → σ → String
  /-- `RrEffectiveInputMemo` with the revisions of the reads it does not cover, and whether the
  memo is exact. -/
  effectiveInput : Nat → (ValueId → Nat) → σ → String × Bool
  /-- `_RrShadowed`. -/
  shadowed : Nat → Nat → σ → Bool := fun _ _ _ => false
  /-- `RrPropertyBegin`, with what is resized and cleared before it. -/
  begin : σ → σ := id
  /-- `RrResetExcludedValue`. -/
  resetExcludedValue : Nat → Nat → σ → σ := fun _ _ => id
  /-- `RrGeometryPublishChainInputs`. -/
  publishChainInputs : σ → σ := id
  /-- `RrInputsFilterWritten`. -/
  filterWritten : Bool → σ → σ := fun _ => id
  /-- `inputs.written`. -/
  written : σ → List Nat
  clearWritten : σ → σ := id
  /-- `RrRunOpBody`. -/
  runOpBody : Nat → σ → σ × Bool
  /-- What a published write tells the properties and the weight fields. -/
  notePublished : OpValueState → σ → σ := fun _ => id
  /-- The body of `callbacks.skip`. -/
  skipStep : Nat → σ → σ := fun _ => id
  /-- `verifyChain` and `verifyPacket` over the writes of the run; `true` if one disagrees. -/
  versionsDisagree : OpAdapterState → σ → σ × Bool := fun _ memory => (memory, false)
  /-- `RrFoldHeldSteps`. -/
  foldHeldSteps : σ → σ := id
  /-- `RrPropertyPublish`. -/
  propertyPublish : σ → σ := id
  /-- `requiredStageFramesAdmission.admitted`. -/
  admitted : σ → Bool := fun _ => true

/-- The tables of `_RrIndexSlotLeaves`; `rows` is `none` where `slotLeafBegin` is empty. -/
structure SlotLeaves where
  rows : Option (List (List ValueId)) := none
  slotKeyedLeaves : List ValueId := []
  otherLeaves : List ValueId := []

/-- What a run leaves for the next one. -/
structure Store (σ : Type) where
  memory : σ
  adapter : OpAdapterState
  slotLeaves : SlotLeaves := {}
  /-- The rows of `slotSourceBegin` and `slotSourceOps`. -/
  slotSources : List (List Nat) := []
  headMemoKeys : Nat → String := fun _ => ""
  headContentKeys : Nat → String := fun _ => ""
  opExecution : OpExecution := {}
  opWorkspace : OpWorkspace := {}
  requiredStageFramesFullOwed : Bool := false

section

variable {σ : Type} (program : ClosureProgram σ)

/-! ## Compiling -/

/-- The input slots that key a leaf. -/
def leafSlots (values : List OpValueState) (id : ValueId) : Option (List Nat) :=
  match values[id]? with
  | some value => program.keyedSlots value.domain value.slot
  | none => none

/-- `_RrIndexSlotLeaves`; a program from no file has no table. -/
def indexSlotLeaves (fromFile : Bool) (slots : Nat) (adapter : OpAdapterState) : SlotLeaves :=
  if fromFile then
    { rows := some ((List.range slots).map fun s => sortUnique (adapter.leaves.filter fun id =>
        decide (s ∈ (leafSlots program adapter.values id).getD [])))
      slotKeyedLeaves := adapter.leaves.filter fun id =>
        (leafSlots program adapter.values id).isSome
      otherLeaves := adapter.leaves.filter fun id =>
        (leafSlots program adapter.values id).isNone }
  else {}

/-- `RrCompileOpGraph`, on values and leaves that it has checked. -/
def compileOpGraph (fromFile : Bool) (slots : Nat) (values : List (Nat × Nat))
    (leaves excludedValues : List ValueId) (skipEffects : List Nat) (memory : σ) : Store σ :=
  let ops := List.range program.graph.ops.length
  let adapter : OpAdapterState :=
    { values := values.map fun (domain, slot) => { domain, slot }
      leaves, excludedValues, skipEffects
      constantSource := ops.map program.memoIsConstant
      sourceVisits := ops.filter fun c => !program.memoIsConstant c || program.headAlwaysRuns c }
  { memory, adapter
    slotLeaves := indexSlotLeaves program fromFile slots adapter
    slotSources := (List.range slots).map fun s =>
      ops.filter fun c => !program.memoIsConstant c && decide (s ∈ program.sourceSlots c) }

/-! ## Leaves -/

/-- A fixed-size value compares in place; any other through its key. -/
def publishAt (memory : σ) (value : OpValueState) : OpValueState :=
  match program.smallValue value.domain value.slot memory with
  | some bytes => publishKeyBytes value bytes
  | none => publishValue value (program.opValue value.domain value.slot memory)

/-- `publish`, of a leaf. -/
def publishLeaf (memory : σ) (adapter : OpAdapterState) (id : ValueId) : OpAdapterState :=
  match adapter.values[id]? with
  | none => adapter
  | some value =>
      let published := publishAt program memory value
      { adapter with
        values := adapter.values.set id published
        changedLeaves :=
          if published.changed then adapter.changedLeaves ++ [id] else adapter.changedLeaves }

/-- The rows of the slots that were written, of a table by slot. -/
def writtenRows (rows : List (List Nat)) (written : List Nat) : List Nat :=
  written.flatMap fun slot => rows[slot]?.getD []

/-- The leaves whose slots were written. -/
def leafQueue (rows : List (List ValueId)) (memory : σ) : List ValueId :=
  sortUnique (writtenRows rows (program.written memory))

/-- A leaf that was skipped and whose key moved. -/
def skippedMoved (memory : σ) (adapter : OpAdapterState) (slotKeyedLeaves queue : List ValueId) :
    Option ValueId :=
  slotKeyedLeaves.find? fun id =>
    decide (id ∉ queue) &&
      match adapter.values[id]? with
      | none => false
      | some value =>
          !(value.initialized && program.opValue value.domain value.slot memory == value.key)

/-- The leaves, published in full or sparsely; a message where a skipped leaf moved. -/
def publishLeaves (full : Bool) (memory : σ) (slotLeaves : SlotLeaves)
    (adapter : OpAdapterState) : OpAdapterState × Option String :=
  if full then (adapter.leaves.foldl (publishLeaf program memory) adapter, none)
  else
    let others := slotLeaves.otherLeaves.foldl (publishLeaf program memory) adapter
    let queue := leafQueue program (slotLeaves.rows.getD []) memory
    let queued := queue.foldl (publishLeaf program memory) { others with changedLeaves := [] }
    ({ queued with changedLeaves := others.changedLeaves.merge queued.changedLeaves },
      if program.verifySparseLeaves then
        (skippedMoved program memory queued slotLeaves.slotKeyedLeaves queue).map fun id =>
          "sparse publication skipped leaf " ++ toString id ++ ", whose key moved"
      else none)

/-! ## Source memos -/

/-- The sweep over the source memos. -/
structure SourceSweep where
  seeds : List Nat := []
  candidateOps : List Nat := []
  memoKeys : Nat → String
  contentKeys : Nat → String
  moved : Option Nat := none
  disagreed : Option Nat := none
  kept : Option Nat := none

/-- The first one that was found. -/
def noteFirst (found : Option Nat) (c : Nat) (here : Bool) : Option Nat :=
  match found with
  | some first => some first
  | none => if here then some c else none

/-- The memo of one step is rebuilt. -/
def rebuildMemo (first : Bool) (memory : σ) (sweep : SourceSweep) (c : Nat) :
    SourceSweep × Bool :=
  let memo := program.inputMemo c false memory
  let changed := sweep.memoKeys c != memo
  let content := program.inputMemo c true memory
  ({ sweep with
      memoKeys := Function.update sweep.memoKeys c memo
      contentKeys :=
        if program.verifyLeafVersions then Function.update sweep.contentKeys c content
        else sweep.contentKeys
      disagreed := noteFirst sweep.disagreed c
        (program.verifyLeafVersions && !first && changed != (sweep.contentKeys c != content)) },
    changed)

/-- `source`, of one step. -/
def source (first sparseSources : Bool) (sourceDirty : List Nat) (constantSource : List Bool)
    (memory : σ) (sweep : SourceSweep) (c : Nat) : SourceSweep :=
  let seed := first || program.headAlwaysRuns c
  let constant := flagAt constantSource c
  let visited : SourceSweep × Bool :=
    if sparseSources && decide (c < program.graph.ops.length) && decide (c ∉ sourceDirty) &&
        !constant then
      ({ sweep with
          kept := noteFirst sweep.kept c
            (program.verifySourceKeys && program.inputMemo c false memory != sweep.memoKeys c) },
        false)
    else if first || !constant then rebuildMemo program first memory sweep c
    else
      ({ sweep with
          moved := noteFirst sweep.moved c (program.verifyConstantSources &&
            program.inputMemo c false memory != sweep.memoKeys c) },
        false)
  if seed then { visited.1 with seeds := visited.1.seeds ++ [c] }
  else if visited.2 then { visited.1 with candidateOps := visited.1.candidateOps ++ [c] }
  else visited.1

/-- What stops a run after the sweep. -/
def SourceSweep.stop (sweep : SourceSweep) : Option String :=
  match sweep.moved, sweep.disagreed, sweep.kept with
  | some c, _, _ => some ("constant source memo of step " ++ toString c ++ " changed")
  | none, some c, _ =>
      some ("source memo of step " ++ toString c ++ " moved otherwise than its array contents")
  | none, none, some c =>
      some ("source memo of step " ++ toString c ++ " moved while no slot it reads was written")
  | none, none, none => none

/-! ## Before the graph -/

/-- The state of a run that has still to execute the graph. -/
structure Prelude (σ : Type) where
  store : Store σ
  force : Bool
  /-- The message of a run that stops here. -/
  stop : Option String

/-- The run up to the flags of the last one. -/
def beginRun (store : Store σ) : Store σ :=
  let adapter := { store.adapter with changedLeaves := [], seeds := [], candidateOps := [] }
  { store with
    memory := adapter.excludedValues.foldl
      (fun memory id =>
        match adapter.values[id]? with
        | some value => program.resetExcludedValue value.domain value.slot memory
        | none => memory)
      (program.begin store.memory)
    adapter := adapter.clearChanges }

/-- The sweep of the source memos, and what it makes of the run. -/
def sweepSources (first force : Bool) (store : Store σ) : Store σ × Option String :=
  let adapter := store.adapter
  let sparseSources := !first && !force && !program.verifyLeafVersions
  let sourceDirty := if sparseSources then
    writtenRows store.slotSources (program.written store.memory) else []
  let memory := program.clearWritten store.memory
  let sweep := (if first || program.verifyConstantSources ||
      decide (adapter.constantSource.length ≠ program.graph.ops.length) then
      List.range program.graph.ops.length
    else adapter.sourceVisits).foldl
      (source program first sparseSources sourceDirty adapter.constantSource memory)
      { memoKeys := store.headMemoKeys, contentKeys := store.headContentKeys }
  ({ store with
      memory
      adapter := { adapter with seeds := sweep.seeds, candidateOps := sweep.candidateOps }
      headMemoKeys := sweep.memoKeys
      headContentKeys := sweep.contentKeys }, sweep.stop)

/-- The run up to the callbacks. -/
def prepareRun (forced : Bool) (store : Store σ) : Prelude σ :=
  let force := forced || store.requiredStageFramesFullOwed
  let first := !store.adapter.everRan
  let begun := beginRun program store
  let full := first || force || store.slotLeaves.rows.isNone
  let memory := program.filterWritten full (program.publishChainInputs begun.memory)
  let leaves := publishLeaves program full memory store.slotLeaves begun.adapter
  let published := { begun with memory, adapter := leaves.1 }
  match leaves.2 with
  | some message => { store := published, force, stop := some message }
  | none =>
      let swept := sweepSources program first force published
      { store := swept.1, force, stop := swept.2 }

/-! ## Callbacks -/

/-- What the callbacks change. -/
structure Working (σ : Type) where
  memory : σ
  adapter : OpAdapterState

/-- The revision of a value. -/
def revisionAt (adapter : OpAdapterState) (id : ValueId) : Nat :=
  match adapter.values[id]? with
  | some value => value.revision
  | none => 0

/-- One write of a body is published; `done` is the fuse whose key a `ChainDirty` repeats. -/
def publishWrite (state : Working σ × Option OpValueState) (id : ValueId) :
    Working σ × Option OpValueState :=
  match state.1.adapter.values[id]? with
  | none => state
  | some value =>
      let published :=
        match state.2 with
        | some done =>
            if value.slot = done.slot ∧ value.domain = chainDirty then publishValue value done.key
            else publishAt program state.1.memory value
        | none => publishAt program state.1.memory value
      ({ memory := program.notePublished published state.1.memory
         adapter :=
          { state.1.adapter with values := state.1.adapter.values.set id published } },
        if published.domain = revisionDone then some published else state.2)

/-- `callbacks.run`: a body that fails publishes nothing. -/
def runOp (c : Nat) (working : Working σ) : Working σ × Bool :=
  match program.runOpBody c working.memory with
  | (memory, false) => ({ working with memory }, false)
  | (memory, true) =>
      (((program.graph.writes c).foldl (publishWrite program) ({ working with memory }, none)).1,
        true)

/-- The callbacks of a run. -/
def closureCallbacks (skipEffects : List Nat) : OpCallbacks (Working σ) where
  run := runOp program
  skip c working := { working with memory := program.skipStep c working.memory }
  skipEffects := some skipEffects
  changed id working := working.adapter.changedAt id
  inputChanged := some fun c id working =>
    match working.adapter.values[id]? with
    | none => false
    | some value =>
        value.changed &&
          (value.domain != propertyResult || !program.shadowed c value.slot working.memory)
  inputsChanged := some fun c working =>
    let input := program.effectiveInput c (revisionAt working.adapter) working.memory
    ({ working with
        adapter :=
          { working.adapter with
            inputKeys := Function.update working.adapter.inputKeys c input.1 } },
      !input.2 || working.adapter.inputKeys c != input.1)

/-! ## Runs -/

/-- How a run ends. -/
inductive RunEnd where
  /-- A check found, before the graph was executed, that something had moved. -/
  | stopped (message : String)
  | failed
  /-- The versions of points or packets disagree with their bytes. -/
  | mismatched
  /-- The required stage frames were refused. -/
  | refused
  | done
deriving DecidableEq

/-- The state of the graph's execution. -/
def Prelude.request (prelude : Prelude σ) : OpRequest where
  changedLeaves := prelude.store.adapter.changedLeaves
  seedOps := prelude.store.adapter.seeds
  force := prelude.force
  candidateOps := some prelude.store.adapter.candidateOps

/-- A run that is stopped makes the next one a first run. -/
def stopRun (store : Store σ) : Store σ :=
  { store with adapter := { store.adapter with everRan := false } }

/-- After the join. -/
def finishRun (store : Store σ) (executed : Executed (Working σ)) : RunEnd × Store σ :=
  let gathered := executed.memory.adapter.gatherChanges program.graph executed.out.ran none
  let checked := program.versionsDisagree gathered (program.foldHeldSteps executed.memory.memory)
  let joined := { store with
    memory := checked.1
    adapter := gathered
    opExecution := executed.out
    opWorkspace := executed.workspace }
  match executed.outcome with
  | .error _ => (.failed, stopRun joined)
  | .ok () =>
      if checked.2 then (.mismatched, stopRun joined)
      else
        let ended := { joined with
          memory := program.propertyPublish checked.1
          adapter := { gathered with everRan := true } }
        if program.admitted ended.memory then
          (.done, { ended with requiredStageFramesFullOwed := false })
        else (.refused, { ended with requiredStageFramesFullOwed := true })

/-- `RrExecuteOpGraph`, on one thread or dispatched. -/
inductive Runs (forced : Bool) (store : Store σ) : RunEnd → Store σ → Prop
  | stopped {message : String} (h : (prepareRun program forced store).stop = some message) :
      Runs forced store (.stopped message) (stopRun (prepareRun program forced store).store)
  | joined {executed : Executed (Working σ)}
      (h : (prepareRun program forced store).stop = none)
      (hexecutes : Executes program.graph (closureCallbacks program store.adapter.skipEffects)
        (prepareRun program forced store).request
        { memory := (prepareRun program forced store).store.memory
          adapter := (prepareRun program forced store).store.adapter }
        store.opExecution store.opWorkspace executed) :
      Runs forced store
        (finishRun program (prepareRun program forced store).store executed).1
        (finishRun program (prepareRun program forced store).store executed).2

/-- A store after some runs, with the end of the last one.  The callers write the memory between
the runs. -/
inductive History : Store σ → Option RunEnd → Prop
  | compiled {fromFile : Bool} {slots : Nat} {values : List (Nat × Nat)}
      {leaves excludedValues : List ValueId} {skipEffects : List Nat} {memory : σ} :
      History (compileOpGraph program fromFile slots values leaves excludedValues skipEffects
        memory) none
  | write {store : Store σ} {last : Option RunEnd} (h : History store last) (memory : σ)
      (requiredStageFramesFullOwed : Bool) :
      History { store with memory, requiredStageFramesFullOwed } last
  | run {store store' : Store σ} {last : Option RunEnd} {forced : Bool} {runEnd : RunEnd}
      (h : History store last) (hrun : Runs program forced store runEnd store') :
      History store' (some runEnd)

end

end RigExec.Closure
