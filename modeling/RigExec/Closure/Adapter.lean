/-
# `RigExec.Closure.Adapter` — from steps with slot ranges to a graph

`RigExecOpCompileAdapter` numbers the typed slots that the steps of a backend write
and read, compiles the graph over these numbers, and renumbers the values in the
order of their slots.

    bindOps            writes, in step order; a slot has one producing step
    bindSemantic       authored prerequisites, by descriptor key
    bindAllReads       reads; what nobody produces has to be sampled, and is a leaf
    compileOpGraph     over the values as they were found
    renumber           values, leaves, excluded values, ops and readers

The loops over ranges and their slots run over the list of those slots.  A `values`
or `writers` map whose absent entries are `none` is a function.
-/
import RigExec.Closure.Values
import RigExec.OpGraph.ValueRenaming

namespace RigExec.Closure

open Lib (sortUnique Ascending)
open RigExec.OpGraph

/-- A typed slot, `(domain, slot)`, in the order of pairs. -/
abbrev TypedSlot := Nat ×ₗ Nat

instance : LawfulBEq TypedSlot :=
  inferInstanceAs (LawfulBEq (Nat × Nat))

/-- What `RigExecOpCompileAdapter` asks of a backend: the fields it reads of a step and its
callbacks. -/
structure AdapterBackend (Step Range : Type) where
  kind : Step → Nat
  externalReads : Step → Bool
  reads : Step → List Range
  writes : Step → List Range
  domain : Range → Nat
  begin_ : Range → Nat
  end_ : Range → Nat
  key : Step → String
  sampled : Nat → Nat → Bool

/-- The slot of a value. -/
def OpValueState.typed (value : OpValueState) : TypedSlot := toLex (value.domain, value.slot)

/-- A value of a slot before anything was published. -/
def freshValue (typed : TypedSlot) : OpValueState :=
  { domain := (ofLex typed).1, slot := (ofLex typed).2 }

def opAddValue (state : OpAdapterState) (typed : TypedSlot) : OpAdapterState × ValueId :=
  ({ state with values := state.values ++ [freshValue typed] }, state.values.length)

/-- The state while values are numbered, with the index of its slots. -/
structure Numbering where
  state : OpAdapterState := {}
  values : TypedSlot → Option ValueId := fun _ => none

/-- The value of a slot, added when there is none. -/
def Numbering.valueOf (n : Numbering) (typed : TypedSlot) : Numbering × ValueId :=
  match n.values typed with
  | some id => (n, id)
  | none =>
      let added := opAddValue n.state typed
      ({ state := added.1, values := Function.update n.values typed (some added.2) }, added.2)

/-- The same for a read: an added value is a leaf. -/
def Numbering.leafOf (n : Numbering) (typed : TypedSlot) : Numbering × ValueId :=
  match n.values typed with
  | some id => (n, id)
  | none =>
      let added := n.valueOf typed
      ({ added.1 with
          state := { added.1.state with leaves := added.1.state.leaves ++ [added.2] } }, added.2)

section

variable {Step Range : Type} (backend : AdapterBackend Step Range)

namespace AdapterBackend

def rangeSlots (range : Range) : List TypedSlot :=
  (List.range' (backend.begin_ range) (backend.end_ range - backend.begin_ range)).map
    fun slot => toLex (backend.domain range, slot)

def writeSlots (step : Step) : List TypedSlot := (backend.writes step).flatMap backend.rangeSlots

def readSlots (step : Step) : List TypedSlot := (backend.reads step).flatMap backend.rangeSlots

/-- The key of a step by its index. -/
def keyAt (steps : List Step) (i : Nat) : String := (steps[i]?.map backend.key).getD ""

end AdapterBackend

/-! ## Writes -/

/-- The slots a step writes, each claimed for the step. -/
def bindWrites (steps : List Step) (i : Nat) :
    List TypedSlot → Numbering → (TypedSlot → Option Nat) →
      Except String (Numbering × (TypedSlot → Option Nat) × List ValueId)
  | [], n, writers => .ok (n, writers, [])
  | typed :: slots, n, writers =>
      let found := (writers typed).getD i
      if found ≠ i then
        .error ("multiple typed producers for domain " ++ toString (ofLex typed).1 ++ " slot " ++
          toString (ofLex typed).2 ++ ": " ++ backend.keyAt steps found ++ " and " ++
          backend.keyAt steps i)
      else
        let value := n.valueOf typed
        match bindWrites steps i slots value.1 (Function.update writers typed (some i)) with
        | .error message => .error message
        | .ok (n, writers, ids) => .ok (n, writers, value.2 :: ids)

/-- The descriptors of the steps from the `i`th on, with their writes. -/
def bindOps (steps : List Step) : Nat → List Step → Numbering → (TypedSlot → Option Nat) →
    Except String (Numbering × List OpDescriptor)
  | _, [], n, _ => .ok (n, [])
  | i, step :: rest, n, writers =>
      match bindWrites backend steps i (backend.writeSlots step) n writers with
      | .error message => .error message
      | .ok (n, writers, ids) =>
          match bindOps steps (i + 1) rest n writers with
          | .error message => .error message
          | .ok (n, ops) =>
              .ok (n, { key := backend.key step
                        kind := backend.kind step
                        volatileInput := backend.externalReads step
                        writes := ids } :: ops)

/-! ## Semantic predecessors -/

/-- `byKey`: the first descriptor of a key. -/
def byKey (keys : List String) (key : String) : Option Nat :=
  if key ∈ keys then some (keys.idxOf key) else none

/-- The descriptors one descriptor requires. -/
def requiredOps (keys : List String) (key : String) : List String → Except String (List Nat)
  | [] => .ok []
  | required :: rest =>
      match byKey keys required with
      | none => .error ("semantic predecessor has no descriptor: " ++ key ++ " requires " ++ required)
      | some found => (requiredOps keys key rest).map (found :: ·)

/-- The requirements of the descriptors from the `i`th on. -/
def bindSemantic (keys : List String) (semanticPredecessors : Nat → List String) :
    Nat → List OpDescriptor → Except String (List OpDescriptor)
  | _, [] => .ok []
  | i, op :: rest =>
      match requiredOps keys op.key (semanticPredecessors i) with
      | .error message => .error message
      | .ok found =>
          (bindSemantic keys semanticPredecessors (i + 1) rest).map
            ({ op with predecessors := op.predecessors ++ found } :: ·)

/-! ## Reads -/

/-- The slots a step reads. -/
def bindReads (key : String) : List TypedSlot → Numbering →
    Except String (Numbering × List ValueId)
  | [], n => .ok (n, [])
  | typed :: slots, n =>
      if n.values typed = none ∧ backend.sampled (ofLex typed).1 (ofLex typed).2 = false then
        .error ("read has no producer or declared sampled source: " ++ key ++ " domain " ++
          toString (ofLex typed).1 ++ " slot " ++ toString (ofLex typed).2)
      else
        let value := n.leafOf typed
        match bindReads key slots value.1 with
        | .error message => .error message
        | .ok (n, ids) => .ok (n, value.2 :: ids)

/-- The reads of the steps join their descriptors. -/
def bindAllReads : List Step → List OpDescriptor → Numbering →
    Except String (Numbering × List OpDescriptor)
  | step :: steps, op :: ops, n =>
      match bindReads backend (backend.key step) (backend.readSlots step) n with
      | .error message => .error message
      | .ok (n, ids) =>
          match bindAllReads steps ops n with
          | .error message => .error message
          | .ok (n, ops) => .ok (n, { op with reads := op.reads ++ ids } :: ops)
  | _, _, n => .ok (n, [])

/-- All three loops: the values as they were found, and the descriptors over them. -/
def numberSteps (steps : List Step) (semanticPredecessors : Option (Nat → List String)) :
    Except String (Numbering × List OpDescriptor) :=
  match bindOps backend steps 0 steps {} (fun _ => none) with
  | .error message => .error message
  | .ok (n, ops) =>
      match semanticPredecessors.elim (.ok ops) fun required =>
          bindSemantic (ops.map OpDescriptor.key) required 0 ops with
      | .error message => .error message
      | .ok ops => bindAllReads backend steps ops n

end

/-! ## Renumbering -/

namespace OpAdapterState

variable (state : OpAdapterState)

/-- The slot of the value with an id. -/
def typedAt (id : ValueId) : TypedSlot := (state.values[id]?.map OpValueState.typed).getD (toLex (0, 0))

/-- `order`: the ids by their slots. -/
def slotOrder : List ValueId :=
  (List.range state.values.length).insertionSort fun a b => state.typedAt a ≤ state.typedAt b

/-- `remap`: the place of every id in the order. -/
def remap : List ValueId := (List.range state.values.length).map state.slotOrder.idxOf

/-- The new id of a value. -/
def remapped (id : ValueId) : ValueId := state.remap[id]?.getD id

end OpAdapterState

/-- The writes of the descriptors that are not in the graph, in their order. -/
def excludedWrites (descriptors : List OpDescriptor) (graph : CompiledGraph) : List ValueId :=
  (List.range descriptors.length).flatMap fun i =>
    if graph.canonicalIndex[i]?.any (· < 0) then
      match descriptors[i]? with
      | some op => op.writes
      | none => []
    else []

/-- An op over the new ids. -/
def remapOp (f : ValueId → ValueId) (op : CompiledOp) : CompiledOp :=
  { op with descriptor :=
    { op.descriptor with
      reads := sortUnique (op.descriptor.reads.map f)
      writes := sortUnique (op.descriptor.writes.map f) } }

/-- The graph over the new ids, its readers collected again. -/
def remapGraph (f : ValueId → ValueId) (graph : CompiledGraph) : CompiledGraph :=
  { graph with
    ops := graph.ops.map (remapOp f)
    readers := readersOf (graph.ops.map (remapOp f)) }

/-- What follows a successful compilation. -/
def renumber (state : OpAdapterState) (descriptors : List OpDescriptor) (graph : CompiledGraph) :
    OpAdapterState × CompiledGraph :=
  let excludedValues := excludedWrites descriptors graph
  let leaves := state.leaves ++ excludedValues
  ({ state with
      values := state.slotOrder.filterMap fun id => state.values[id]?
      leaves := sortUnique (leaves.map state.remapped)
      excludedValues := excludedValues.map state.remapped },
    remapGraph state.remapped graph)

def opCompileAdapter {Step Range : Type} (backend : AdapterBackend Step Range) (steps : List Step)
    (cyclePolicy : CyclePolicy) (semanticPredecessors : Option (Nat → List String))
    (retainedExclusions : Option OpExclusionProof) :
    Except String (OpAdapterState × CompiledGraph) :=
  match numberSteps backend steps semanticPredecessors with
  | .error message => .error message
  | .ok (n, descriptors) =>
      match OpGraph.compileOpGraph descriptors n.state.leaves cyclePolicy retainedExclusions with
      | .error message => .error message
      | .ok graph => .ok (renumber n.state descriptors graph)

end RigExec.Closure
