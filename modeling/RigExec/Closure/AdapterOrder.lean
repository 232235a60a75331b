/-
# `RigExec.Closure.AdapterOrder` — the values in the order of their slots

Renumbering puts `slotOrder` between the ids as they were found and the ids that
stay.  It is injective, so compiling before it is compiling after it
(`compileOpGraph_mapValues`), and what is left depends on the slots of the steps only:

    canonicalSlots      every slot read or written, in order
    describeSteps       the steps over the places in that list
    canonicalState      values, leaves and excluded values of a graph over them

`opCompileAdapter_ok` is this second description.
-/
import RigExec.Closure.AdapterNumbering

namespace RigExec.Closure

open Lib (sortUnique Ascending)
open RigExec.OpGraph

/-! ## The order of the values -/

section

variable {state : OpAdapterState} {id : ValueId}

theorem mem_slotOrder : id ∈ state.slotOrder ↔ id < state.values.length := by
  rw [OpAdapterState.slotOrder, List.mem_insertionSort, List.mem_range]

theorem nodup_slotOrder (state : OpAdapterState) : state.slotOrder.Nodup :=
  (List.perm_insertionSort _ _).nodup_iff.mpr List.nodup_range

theorem length_slotOrder (state : OpAdapterState) :
    state.slotOrder.length = state.values.length := by
  rw [OpAdapterState.slotOrder, List.length_insertionSort, List.length_range]

theorem remapped_of_lt (h : id < state.values.length) :
    state.remapped id = state.slotOrder.idxOf id := by
  rw [OpAdapterState.remapped, OpAdapterState.remap, List.getElem?_map, List.getElem?_range h]
  rfl

theorem remapped_of_le (h : state.values.length ≤ id) : state.remapped id = id := by
  have hnone : state.remap[id]? = none := by
    rw [List.getElem?_eq_none_iff, OpAdapterState.remap, List.length_map, List.length_range]
    exact h
  rw [OpAdapterState.remapped, hnone]
  rfl

theorem remapped_lt (h : id < state.values.length) : state.remapped id < state.values.length := by
  rw [remapped_of_lt h, ← length_slotOrder]
  exact List.idxOf_lt_length_of_mem (mem_slotOrder.mpr h)

/-- **Distinct values stay distinct.** -/
theorem remapped_injective (state : OpAdapterState) : state.remapped.Injective := by
  intro a b hab
  rcases Nat.lt_or_ge a state.values.length with ha | ha
  · rcases Nat.lt_or_ge b state.values.length with hb | hb
    · rw [remapped_of_lt ha, remapped_of_lt hb] at hab
      have hget := (getElem?_idxOf_iff (nodup_slotOrder state) (mem_slotOrder.mpr ha)).mpr rfl
      rw [hab, (getElem?_idxOf_iff (nodup_slotOrder state) (mem_slotOrder.mpr hb)).mpr rfl] at hget
      exact (Option.some.inj hget).symm
    · have hlt := remapped_lt ha
      rw [hab, remapped_of_le hb] at hlt
      exact absurd hlt (Nat.not_lt.mpr hb)
  · rcases Nat.lt_or_ge b state.values.length with hb | hb
    · have hlt := remapped_lt hb
      rw [← hab, remapped_of_le ha] at hlt
      exact absurd hlt (Nat.not_lt.mpr ha)
    · rwa [remapped_of_le ha, remapped_of_le hb] at hab

theorem typedAt_of_getElem? {typed : TypedSlot}
    (h : (state.values.map OpValueState.typed)[id]? = some typed) : state.typedAt id = typed := by
  rw [List.getElem?_map] at h
  rw [OpAdapterState.typedAt, h]
  rfl

theorem map_typedAt_range (state : OpAdapterState) :
    (List.range state.values.length).map state.typedAt = state.values.map OpValueState.typed := by
  refine List.ext_getElem? fun id => ?_
  rw [List.getElem?_map, List.getElem?_map]
  rcases Nat.lt_or_ge id state.values.length with h | h
  · rw [List.getElem?_range h, Option.map_some, OpAdapterState.typedAt, List.getElem?_eq_getElem h]
    rfl
  · rw [List.getElem?_eq_none h, List.getElem?_eq_none (by rwa [List.length_range])]
    rfl

theorem map_typedAt_slotOrder (hnodup : (state.values.map OpValueState.typed).Nodup) :
    state.slotOrder.map state.typedAt = sortUnique (state.values.map OpValueState.typed) := by
  have hperm : (state.slotOrder.map state.typedAt).Perm (state.values.map OpValueState.typed) := by
    rw [← map_typedAt_range]
    exact (List.perm_insertionSort _ _).map _
  have hsorted : (state.slotOrder.map state.typedAt).Pairwise (· ≤ ·) :=
    List.pairwise_map.mpr (List.pairwise_insertionSort _ _)
  refine Lib.Ascending.eq_of_mem_iff ?_ (Lib.ascending_sortUnique _) fun typed => ?_
  · refine (hsorted.and (hperm.nodup_iff.mpr hnodup)).imp ?_
    rintro a b ⟨hle, hne⟩
    exact lt_of_le_of_ne hle hne
  · rw [Lib.mem_sortUnique]
    exact hperm.mem_iff

/-- **The new id of a slot is its place in the order.** -/
theorem remapped_idxOf (hnodup : (state.values.map OpValueState.typed).Nodup) {typed : TypedSlot}
    (hin : typed ∈ state.values.map OpValueState.typed) :
    state.remapped ((state.values.map OpValueState.typed).idxOf typed) =
      (sortUnique (state.values.map OpValueState.typed)).idxOf typed := by
  have hold := (getElem?_idxOf_iff hnodup hin).mpr rfl
  have hlt : (state.values.map OpValueState.typed).idxOf typed < state.values.length := by
    simpa using List.idxOf_lt_length_of_mem hin
  have hmem := mem_slotOrder.mpr hlt
  rw [remapped_of_lt hlt]
  refine ((getElem?_idxOf_iff (Lib.ascending_sortUnique _).nodup
    (Lib.mem_sortUnique.mpr hin)).mp ?_).symm
  rw [← map_typedAt_slotOrder hnodup, List.getElem?_map,
    (getElem?_idxOf_iff (nodup_slotOrder state) hmem).mpr rfl, Option.map_some,
    typedAt_of_getElem? hold]

end

/-! ## The second description -/

section

variable {Step Range : Type}

/-- Numbering leaves values that nothing was published to. -/
def Numbering.Fresh (n : Numbering) : Prop :=
  ∃ (slots : List TypedSlot) (leaves : List ValueId),
    n.state = { values := slots.map freshValue, leaves := leaves }

theorem Numbering.Fresh.values_eq {n : Numbering} (h : n.Fresh) :
    n.state = { values := n.slots.map freshValue, leaves := n.state.leaves } := by
  obtain ⟨slots, leaves, hstate⟩ := h
  have hslots : n.slots = slots := by
    rw [Numbering.slots, hstate, List.map_map]
    exact List.map_id slots
  rw [hslots, hstate]

theorem Numbering.Fresh.add {n : Numbering} (h : n.Fresh) (typed : TypedSlot) :
    (n.valueOf typed).1.Fresh ∧ (n.leafOf typed).1.Fresh := by
  obtain ⟨slots, leaves, hstate⟩ := h
  cases hvalue : n.values typed with
  | some id =>
      simp only [Numbering.valueOf, Numbering.leafOf, hvalue]
      exact ⟨⟨slots, leaves, hstate⟩, slots, leaves, hstate⟩
  | none =>
      constructor
      · refine ⟨slots ++ [typed], leaves, ?_⟩
        simp [Numbering.valueOf, hvalue, opAddValue, hstate]
      · refine ⟨slots ++ [typed], leaves ++ [slots.length], ?_⟩
        simp [Numbering.leafOf, Numbering.valueOf, hvalue, opAddValue, hstate]

theorem fresh_numbering (backend : AdapterBackend Step Range) (steps : List Step) :
    (backend.numbering steps).Fresh := by
  have hwrites : ∀ (slots : List TypedSlot) (n : Numbering), n.Fresh → (n.addAll slots).Fresh := by
    intro slots
    induction slots with
    | nil => exact fun _ h => h
    | cons typed slots ih => exact fun n h => ih _ (h.add typed).1
  have hreads : ∀ (slots : List TypedSlot) (n : Numbering), n.Fresh → (n.addLeaves slots).Fresh := by
    intro slots
    induction slots with
    | nil => exact fun _ h => h
    | cons typed slots ih => exact fun n h => ih _ (h.add typed).2
  exact hreads _ _ (hwrites _ _ ⟨[], [], rfl⟩)

namespace AdapterBackend

variable (backend : AdapterBackend Step Range)

/-- Every slot the steps read or write, in order. -/
def canonicalSlots (steps : List Step) : List TypedSlot :=
  sortUnique (backend.written steps ++ backend.readBy steps)

/-- The places of the slots that nobody writes. -/
def canonicalLeaves (steps : List Step) : List ValueId :=
  ((backend.canonicalSlots steps).filter fun typed => decide (typed ∉ backend.written steps)).map
    (backend.canonicalSlots steps).idxOf

/-- The steps over the places of their slots in order. -/
def canonicalSteps (semanticPredecessors : Option (Nat → List String)) (steps : List Step) :
    List OpDescriptor :=
  backend.describeSteps semanticPredecessors (backend.canonicalSlots steps) steps

/-- The state that goes with a graph over them. -/
def canonicalState (semanticPredecessors : Option (Nat → List String)) (steps : List Step)
    (graph : CompiledGraph) : OpAdapterState where
  values := (backend.canonicalSlots steps).map freshValue
  leaves := sortUnique (backend.canonicalLeaves steps ++
    excludedWrites (backend.canonicalSteps semanticPredecessors steps) graph)
  excludedValues := excludedWrites (backend.canonicalSteps semanticPredecessors steps) graph

end AdapterBackend

variable {backend : AdapterBackend Step Range} {steps : List Step} {typed : TypedSlot}

theorem mem_canonicalSlots : typed ∈ backend.canonicalSlots steps ↔
    typed ∈ backend.written steps ∨ typed ∈ backend.readBy steps := by
  rw [AdapterBackend.canonicalSlots, Lib.mem_sortUnique, List.mem_append]

theorem nodup_canonicalSlots (backend : AdapterBackend Step Range) (steps : List Step) :
    (backend.canonicalSlots steps).Nodup := (Lib.ascending_sortUnique _).nodup

theorem mem_foundSlots : typed ∈ backend.foundSlots steps ↔
    typed ∈ backend.written steps ∨ typed ∈ backend.readBy steps := by
  rw [AdapterBackend.foundSlots, mem_findSlots, mem_findSlots]
  simp

theorem sortUnique_foundSlots (backend : AdapterBackend Step Range) (steps : List Step) :
    sortUnique (backend.foundSlots steps) = backend.canonicalSlots steps :=
  Lib.sortUnique_congr fun typed => by rw [mem_foundSlots, List.mem_append]

theorem describeSteps_mapValues {f : ValueId → ValueId} {found slots : List TypedSlot}
    (semanticPredecessors : Option (Nat → List String))
    (hf : ∀ typed, typed ∈ backend.written steps ∨ typed ∈ backend.readBy steps →
      f (found.idxOf typed) = slots.idxOf typed) :
    (backend.describeSteps semanticPredecessors found steps).map (OpDescriptor.mapValues f) =
      backend.describeSteps semanticPredecessors slots steps := by
  refine List.ext_getElem? fun i => ?_
  rw [List.getElem?_map, AdapterBackend.describeSteps, AdapterBackend.describeSteps,
    List.getElem?_mapIdx, List.getElem?_mapIdx, Option.map_map]
  cases hstep : steps[i]? with
  | none => rfl
  | some step =>
      have hin := List.mem_of_getElem? hstep
      have hwrites : (backend.writeSlots step).map (f ∘ found.idxOf) =
          (backend.writeSlots step).map slots.idxOf :=
        List.map_congr_left fun typed htyped =>
          hf typed (Or.inl (List.mem_flatMap.mpr ⟨step, hin, htyped⟩))
      have hreads : (backend.readSlots step).map (f ∘ found.idxOf) =
          (backend.readSlots step).map slots.idxOf :=
        List.map_congr_left fun typed htyped =>
          hf typed (Or.inr (List.mem_flatMap.mpr ⟨step, hin, htyped⟩))
      simp only [Option.map_some, Function.comp_apply, OpDescriptor.mapValues,
        AdapterBackend.describeWrites, List.map_map, hwrites, hreads]

theorem map_typed_numbering (backend : AdapterBackend Step Range) (steps : List Step) :
    (backend.numbering steps).state.values.map OpValueState.typed = backend.foundSlots steps :=
  (indexed_numbering backend steps).2

theorem remapped_foundSlots (hin : typed ∈ backend.written steps ∨ typed ∈ backend.readBy steps) :
    (backend.numbering steps).state.remapped ((backend.foundSlots steps).idxOf typed) =
      (backend.canonicalSlots steps).idxOf typed := by
  have hnodup : ((backend.numbering steps).state.values.map OpValueState.typed).Nodup :=
    (indexed_numbering backend steps).1.nodup
  have hplace := @remapped_idxOf (backend.numbering steps).state hnodup typed
  rw [map_typed_numbering, sortUnique_foundSlots] at hplace
  exact hplace (mem_foundSlots.mpr hin)

theorem mem_leaves_remapped {id : ValueId} :
    (backend.numbering steps).state.remapped id ∈ backend.canonicalLeaves steps ↔
      id ∈ (backend.numbering steps).state.leaves := by
  have hslots := (indexed_numbering backend steps).2
  have hwrites := Numbering.indexed_empty.addAll (backend.written steps)
  have hleaves : id ∈ (backend.numbering steps).state.leaves ↔
      ∃ typed ∈ backend.readBy steps, typed ∉ backend.written steps ∧
        (backend.foundSlots steps).idxOf typed = id := by
    have hmem := @Numbering.Indexed.mem_leaves _ id hwrites.1 (backend.readBy steps)
    have hnone : (({} : Numbering).addAll (backend.written steps)).state.leaves = [] := by
      have hkeep : ∀ (slots : List TypedSlot) (n : Numbering),
          (n.addAll slots).state.leaves = n.state.leaves := by
        intro slots
        induction slots with
        | nil => exact fun _ => rfl
        | cons typed slots ih =>
            intro n
            refine (ih (n.valueOf typed).1).trans ?_
            unfold Numbering.valueOf
            cases n.values typed <;> rfl
      exact hkeep _ _
    rw [AdapterBackend.numbering, hmem, hnone, ← AdapterBackend.numbering, hslots, hwrites.2]
    simp [mem_findSlots, Numbering.slots]
  rw [hleaves, AdapterBackend.canonicalLeaves, List.mem_map]
  constructor
  · rintro ⟨typed, htyped, hid⟩
    obtain ⟨hin, hnew⟩ := List.mem_filter.mp htyped
    have hnew := of_decide_eq_true hnew
    have hread := (mem_canonicalSlots.mp hin).resolve_left hnew
    rw [← remapped_foundSlots (Or.inr hread)] at hid
    exact ⟨typed, hread, hnew, remapped_injective _ hid⟩
  · rintro ⟨typed, hread, hnew, rfl⟩
    refine ⟨typed, List.mem_filter.mpr ⟨mem_canonicalSlots.mpr (Or.inr hread), decide_eq_true hnew⟩, ?_⟩
    exact (remapped_foundSlots (Or.inr hread)).symm

theorem excludedWrites_mapValues (f : ValueId → ValueId) (descriptors : List OpDescriptor)
    (graph : CompiledGraph) :
    excludedWrites (descriptors.map (OpDescriptor.mapValues f)) (graph.mapValues f) =
      (excludedWrites descriptors graph).map f := by
  rw [excludedWrites, excludedWrites, List.length_map, List.map_flatMap]
  refine List.flatMap_congr fun i _ => ?_
  have hindex : (graph.mapValues f).canonicalIndex = graph.canonicalIndex := rfl
  rw [hindex, List.getElem?_map]
  split_ifs
  · cases descriptors[i]? <;> rfl
  · rfl

theorem remapGraph_mapValues (f : ValueId → ValueId) (graph : CompiledGraph) :
    remapGraph id (graph.mapValues f) = remapGraph f graph := by
  have hops : (graph.ops.map (CompiledOp.mapValues f)).map (remapOp id) =
      graph.ops.map (remapOp f) := by
    rw [List.map_map]
    refine List.map_congr_left fun op _ => ?_
    simp [remapOp, CompiledOp.mapValues, OpDescriptor.mapValues]
  simp only [remapGraph, CompiledGraph.mapValues, hops]

theorem renumber_numbering (semanticPredecessors : Option (Nat → List String))
    (graph : CompiledGraph) :
    renumber (backend.numbering steps).state
        (backend.describeSteps semanticPredecessors (backend.foundSlots steps) steps) graph =
      (backend.canonicalState semanticPredecessors steps
          (graph.mapValues (backend.numbering steps).state.remapped),
        remapGraph id (graph.mapValues (backend.numbering steps).state.remapped)) := by
  have hfresh := (fresh_numbering backend steps).values_eq
  have hnodup : ((backend.numbering steps).state.values.map OpValueState.typed).Nodup :=
    (indexed_numbering backend steps).1.nodup
  have hvalues : ((backend.numbering steps).state.slotOrder.filterMap fun id =>
      (backend.numbering steps).state.values[id]?) =
      (backend.canonicalSlots steps).map freshValue := by
    have horder := map_typedAt_slotOrder hnodup
    rw [map_typed_numbering, sortUnique_foundSlots] at horder
    rw [← horder, List.map_map, ← List.filterMap_eq_map]
    refine List.filterMap_congr fun id hid => ?_
    have hlt := mem_slotOrder.mp hid
    have hget : (backend.numbering steps).state.values[id]? =
        (backend.numbering steps).slots[id]?.map freshValue := by
      conv_lhs => rw [hfresh]
      exact List.getElem?_map ..
    have hlt' : id < (backend.numbering steps).slots.length := by
      simpa [Numbering.slots] using hlt
    rw [hget, List.getElem?_eq_getElem hlt', Option.map_some]
    have htyped := @typedAt_of_getElem? (backend.numbering steps).state id _
      (List.getElem?_eq_getElem hlt')
    rw [Function.comp_apply, Function.comp_apply, htyped]
  have hexcluded : excludedWrites (backend.canonicalSteps semanticPredecessors steps)
      (graph.mapValues (backend.numbering steps).state.remapped) =
      (excludedWrites (backend.describeSteps semanticPredecessors (backend.foundSlots steps) steps)
        graph).map (backend.numbering steps).state.remapped := by
    rw [← excludedWrites_mapValues, describeSteps_mapValues semanticPredecessors
      fun typed htyped => remapped_foundSlots htyped]
    rfl
  have hleaves : ∀ id, id ∈ (backend.numbering steps).state.leaves.map
      (backend.numbering steps).state.remapped ↔ id ∈ backend.canonicalLeaves steps := by
    intro id
    constructor
    · intro hid
      obtain ⟨old, hold, rfl⟩ := List.mem_map.mp hid
      exact mem_leaves_remapped.mpr hold
    · intro hid
      obtain ⟨typed, htyped, rfl⟩ := List.mem_map.mp hid
      have hin := mem_canonicalSlots.mp (List.mem_filter.mp htyped).1
      rw [← remapped_foundSlots hin] at hid ⊢
      exact List.mem_map_of_mem (mem_leaves_remapped.mp hid)
  have hsorted : sortUnique (((backend.numbering steps).state.leaves ++
      excludedWrites (backend.describeSteps semanticPredecessors (backend.foundSlots steps) steps)
        graph).map (backend.numbering steps).state.remapped) =
      sortUnique (backend.canonicalLeaves steps ++ excludedWrites
        (backend.canonicalSteps semanticPredecessors steps)
        (graph.mapValues (backend.numbering steps).state.remapped)) := by
    refine Lib.sortUnique_congr fun id => ?_
    rw [List.map_append, List.mem_append, List.mem_append, hleaves, hexcluded]
  have hfields : ∀ (values : List OpValueState) (leaves excludedValues : List ValueId),
      { (backend.numbering steps).state with
        values := values
        leaves := leaves
        excludedValues := excludedValues } =
      ({ values, leaves, excludedValues } : OpAdapterState) := by
    obtain ⟨slots, leaves, hstate⟩ := fresh_numbering backend steps
    intro _ _ _
    rw [hstate]
  rw [renumber, AdapterBackend.canonicalState, remapGraph_mapValues, hsorted, hexcluded, hvalues]
  simp only [hfields]

/-- **Compiling in the order in which values are found is compiling in the order of slots.** -/
theorem opCompileAdapter_ok {cyclePolicy : CyclePolicy}
    {semanticPredecessors : Option (Nat → List String)}
    {retainedExclusions : Option OpExclusionProof} {result : OpAdapterState × CompiledGraph} :
    opCompileAdapter backend steps cyclePolicy semanticPredecessors retainedExclusions =
        .ok result ↔
      backend.Admissible steps semanticPredecessors ∧
      ∃ graph, OpGraph.compileOpGraph (backend.canonicalSteps semanticPredecessors steps)
          (backend.canonicalLeaves steps) cyclePolicy retainedExclusions = .ok graph ∧
        result = (backend.canonicalState semanticPredecessors steps graph, remapGraph id graph) := by
  have hdescribe := @describeSteps_mapValues _ _ backend steps
    (backend.numbering steps).state.remapped (backend.foundSlots steps)
    (backend.canonicalSlots steps) semanticPredecessors fun typed htyped =>
      remapped_foundSlots htyped
  have hcompile := fun graph' => @compileOpGraph_mapValues
    (backend.numbering steps).state.remapped
    (backend.describeSteps semanticPredecessors (backend.foundSlots steps) steps)
    (backend.numbering steps).state.leaves (backend.canonicalLeaves steps) retainedExclusions
    cyclePolicy (remapped_injective _) (fun id => mem_leaves_remapped) graph'
  rw [hdescribe, ← AdapterBackend.canonicalSteps] at hcompile
  rw [opCompileAdapter]
  cases hnumber : numberSteps backend steps semanticPredecessors with
  | error message =>
      refine iff_of_false (fun heq => (nomatch heq)) ?_
      rintro ⟨hadmissible, -⟩
      rw [numberSteps_ok.mpr ⟨hadmissible, rfl⟩] at hnumber
      cases hnumber
  | ok numbered =>
      obtain ⟨hadmissible, rfl⟩ := numberSteps_ok.mp hnumber
      rw [and_iff_right hadmissible]
      simp only
      cases hgraph : OpGraph.compileOpGraph
          (backend.describeSteps semanticPredecessors (backend.foundSlots steps) steps)
          (backend.numbering steps).state.leaves cyclePolicy retainedExclusions with
      | error message =>
          refine iff_of_false (fun heq => (nomatch heq)) ?_
          rintro ⟨graph', hgraph', -⟩
          obtain ⟨graph, hok, -⟩ := (hcompile graph').mp hgraph'
          rw [hok] at hgraph
          cases hgraph
      | ok graph =>
          simp only [Except.ok.injEq]
          rw [renumber_numbering]
          constructor
          · rintro rfl
            exact ⟨_, (hcompile _).mpr ⟨graph, hgraph, rfl⟩, rfl⟩
          · rintro ⟨graph', hgraph', rfl⟩
            obtain ⟨other, hok, rfl⟩ := (hcompile graph').mp hgraph'
            rw [hok] at hgraph
            cases hgraph
            rfl

end

end RigExec.Closure
