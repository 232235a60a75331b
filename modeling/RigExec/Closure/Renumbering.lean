/-
# `RigExec.Closure.Renumbering` — the adapter's tables are consistent

After a successful compilation every table is over the ids in slot order
(`Renumbered`), and steps in another order leave the same tables, up to the original
indices of the ops.  One list is not put in order: `excludedValues` has the writes of
the excluded steps as these stand in the step list.
-/
import RigExec.Closure.AdapterOrder
import RigExec.OpGraph.Renaming

namespace RigExec.Closure

open Lib (sortUnique Ascending)
open RigExec.OpGraph

/-! ## What the tables hold -/

/-- The ids are those of the slots, ascending. -/
structure IdsOf (state : OpAdapterState) (slots : List TypedSlot) (ids : List ValueId) : Prop where
  ascending : Ascending ids
  mem_iff : ∀ id, id ∈ ids ↔ ∃ typed ∈ slots, state.values[id]?.map OpValueState.typed = some typed

/-- A slot of a step that the graph leaves out. -/
def ExcludedSlot {Step Range : Type} (backend : AdapterBackend Step Range) (steps : List Step)
    (graph : CompiledGraph) (typed : TypedSlot) : Prop :=
  ∃ i step, steps[i]? = some step ∧ typed ∈ backend.writeSlots step ∧
    ∀ op ∈ graph.ops, op.originalIndex ≠ i

/-- **One numbering for every table.** -/
structure Renumbered {Step Range : Type} (backend : AdapterBackend Step Range) (steps : List Step)
    (state : OpAdapterState) (graph : CompiledGraph) : Prop where
  /-- A slot has one producing step. -/
  single : ∀ (i j : Nat) (a b : Step) (typed : TypedSlot), steps[i]? = some a → steps[j]? = some b →
    typed ∈ backend.writeSlots a → typed ∈ backend.writeSlots b → i = j
  /-- A read has a producer or is sampled. -/
  sourced : ∀ step ∈ steps, ∀ typed ∈ backend.readSlots step,
    (∃ producer ∈ steps, typed ∈ backend.writeSlots producer) ∨
      backend.sampled (ofLex typed).1 (ofLex typed).2 = true
  /-- The values are the slots read or written, once each and in order. -/
  values_ascending : Ascending (state.values.map OpValueState.typed)
  values_mem : ∀ typed, typed ∈ state.values.map OpValueState.typed ↔
    ∃ step ∈ steps, typed ∈ backend.readSlots step ∨ typed ∈ backend.writeSlots step
  /-- A kept op is its step over the ids of the step's slots. -/
  ops : ∀ op ∈ graph.ops, ∃ step, steps[op.originalIndex]? = some step ∧
    op.descriptor.key = backend.key step ∧
    IdsOf state (backend.readSlots step) op.descriptor.reads ∧
    IdsOf state (backend.writeSlots step) op.descriptor.writes
  /-- The readers are the ops that read. -/
  readers_ascending : ∀ id, Ascending (graph.readers id)
  readers_mem : ∀ id k, k ∈ graph.readers id ↔ ∃ op, graph.ops[k]? = some op ∧
    id ∈ op.descriptor.reads
  /-- The leaves are the reads that nobody produces and the writes of excluded steps. -/
  leaves_ascending : Ascending state.leaves
  leaves_mem : ∀ id, id ∈ state.leaves ↔
    ∃ typed, state.values[id]?.map OpValueState.typed = some typed ∧
      (((∃ step ∈ steps, typed ∈ backend.readSlots step) ∧
        ∀ step ∈ steps, typed ∉ backend.writeSlots step) ∨
      ExcludedSlot backend steps graph typed)
  excluded_mem : ∀ id, id ∈ state.excludedValues ↔
    ∃ typed, state.values[id]?.map OpValueState.typed = some typed ∧
      ExcludedSlot backend steps graph typed

section

variable {Step Range : Type} {backend : AdapterBackend Step Range} {steps : List Step}
  {semanticPredecessors : Option (Nat → List String)} {descriptors : List OpDescriptor}
  {leaves : List ValueId} {policy : CyclePolicy} {retained : Option OpExclusionProof}
  {graph : CompiledGraph} {typed : TypedSlot} {value : ValueId}

theorem compileOpGraph_places
    (h : OpGraph.compileOpGraph descriptors leaves policy retained = .ok graph) :
    (∀ op ∈ graph.ops, ∃ d, descriptors[op.originalIndex]? = some d ∧
      op.descriptor = { d with predecessors := [] }) ∧
    ∀ i < descriptors.length, ((graph.canonicalIndex[i]?.any (· < 0)) = true ↔
      ∀ op ∈ graph.ops, op.originalIndex ≠ i) := by
  obtain ⟨hdeclared, -, edges, hedges, horder⟩ := compileOpGraph_ok.mp h
  have hkept := (orderOf_spec retained hdeclared hedges).1
  rw [orderGraph_ok hdeclared hedges] at horder
  split_ifs at horder
  cases horder
  constructor
  · intro op hop
    obtain ⟨old, hold, rfl⟩ := List.mem_map.mp hop
    have hlt := ((hkept.mem_iff old).mp hold).1
    refine ⟨descriptors[old], List.getElem?_eq_getElem hlt, ?_⟩
    simp only [emitOp, List.getElem?_eq_getElem hlt]
  · intro i hi
    have hindex : (singly (emitted descriptors retained edges
        (cycleReports descriptors retained edges)
        (orderOf descriptors retained edges))).canonicalIndex[i]? =
        some (if (orderOf descriptors retained edges).contains i then
          (((orderOf descriptors retained edges).idxOf i : Nat) : Int) else -1) := by
      simp only [singly, emitted, emitGraph, List.getElem?_map, List.getElem?_range hi,
        Option.map_some]
    rw [hindex, Option.any_some, decide_eq_true_iff]
    split_ifs with hin
    · refine iff_of_false (by omega) ?_
      intro hall
      have hmem := List.contains_iff_mem.mp hin
      exact hall _ (List.mem_map_of_mem hmem) rfl
    · refine iff_of_true (by decide) ?_
      rintro op hop rfl
      obtain ⟨old, hold, rfl⟩ := List.mem_map.mp hop
      exact hin (List.contains_iff_mem.mpr hold)

theorem getElem?_canonicalState :
    (backend.canonicalState semanticPredecessors steps graph).values[value]?.map
        OpValueState.typed = (backend.canonicalSlots steps)[value]? := by
  rw [AdapterBackend.canonicalState, List.getElem?_map, Option.map_map]
  exact congrFun Option.map_id _

theorem idsOf_canonical {slots : List TypedSlot}
    (hin : ∀ typed ∈ slots, typed ∈ backend.canonicalSlots steps) :
    IdsOf (backend.canonicalState semanticPredecessors steps graph) slots
      (sortUnique ((slots.map (backend.canonicalSlots steps).idxOf).map id)) where
  ascending := Lib.ascending_sortUnique _
  mem_iff := by
    intro value
    rw [List.map_id, Lib.mem_sortUnique, List.mem_map, getElem?_canonicalState]
    refine exists_congr fun typed => and_congr_right fun htyped => ?_
    exact (getElem?_idxOf_iff (nodup_canonicalSlots backend steps) (hin typed htyped)).symm

theorem getElem?_canonicalSteps (i : Nat) :
    (backend.canonicalSteps semanticPredecessors steps)[i]? = steps[i]?.map fun step =>
      { backend.describeWrites (backend.canonicalSlots steps) step with
        predecessors := backend.requiredAt semanticPredecessors steps i
        reads := (backend.readSlots step).map (backend.canonicalSlots steps).idxOf } := by
  rw [AdapterBackend.canonicalSteps, AdapterBackend.describeSteps, List.getElem?_mapIdx]

theorem length_canonicalSteps :
    (backend.canonicalSteps semanticPredecessors steps).length = steps.length := List.length_mapIdx

theorem idxOf_canonicalSlots (hin : typed ∈ backend.canonicalSlots steps) :
    (backend.canonicalSlots steps).idxOf typed = value ↔
      (backend.canonicalSlots steps)[value]? = some typed :=
  (getElem?_idxOf_iff (nodup_canonicalSlots backend steps) hin).symm

theorem mem_canonicalSlots_of_write {step : Step} (hstep : step ∈ steps)
    (h : typed ∈ backend.writeSlots step) : typed ∈ backend.canonicalSlots steps :=
  mem_canonicalSlots.mpr (Or.inl (List.mem_flatMap.mpr ⟨step, hstep, h⟩))

theorem mem_canonicalSlots_of_read {step : Step} (hstep : step ∈ steps)
    (h : typed ∈ backend.readSlots step) : typed ∈ backend.canonicalSlots steps :=
  mem_canonicalSlots.mpr (Or.inr (List.mem_flatMap.mpr ⟨step, hstep, h⟩))

theorem mem_excludedWrites
    (h : OpGraph.compileOpGraph (backend.canonicalSteps semanticPredecessors steps) leaves policy retained =
      .ok graph) :
    value ∈ excludedWrites (backend.canonicalSteps semanticPredecessors steps) graph ↔
      ∃ typed, (backend.canonicalSlots steps)[value]? = some typed ∧
        ExcludedSlot backend steps graph typed := by
  have hplaces := (compileOpGraph_places h).2
  rw [length_canonicalSteps] at hplaces
  rw [excludedWrites, List.mem_flatMap, length_canonicalSteps]
  constructor
  · rintro ⟨i, hi, hvalue⟩
    have hi := List.mem_range.mp hi
    split_ifs at hvalue with hout
    · rw [getElem?_canonicalSteps, List.getElem?_eq_getElem hi] at hvalue
      obtain ⟨typed, htyped, hid⟩ := List.mem_map.mp hvalue
      have hin := mem_canonicalSlots_of_write (List.getElem_mem hi) htyped
      exact ⟨typed, (idxOf_canonicalSlots hin).mp hid, i, steps[i], List.getElem?_eq_getElem hi, htyped,
        (hplaces i hi).mp hout⟩
    · cases hvalue
  · rintro ⟨typed, hget, i, step, hstep, htyped, hout⟩
    have hi := (List.getElem?_eq_some_iff.mp hstep).1
    refine ⟨i, List.mem_range.mpr hi, ?_⟩
    rw [if_pos ((hplaces i hi).mpr hout), getElem?_canonicalSteps, hstep]
    have hin := mem_canonicalSlots_of_write (List.mem_of_getElem? hstep) htyped
    exact List.mem_map.mpr ⟨typed, htyped, (idxOf_canonicalSlots hin).mpr hget⟩

theorem mem_canonicalLeaves : value ∈ backend.canonicalLeaves steps ↔
    ∃ typed, (backend.canonicalSlots steps)[value]? = some typed ∧
      (∃ step ∈ steps, typed ∈ backend.readSlots step) ∧
      ∀ step ∈ steps, typed ∉ backend.writeSlots step := by
  rw [AdapterBackend.canonicalLeaves, List.mem_map]
  constructor
  · rintro ⟨typed, htyped, hid⟩
    obtain ⟨hin, hnew⟩ := List.mem_filter.mp htyped
    have hnew := of_decide_eq_true hnew
    have hread := (mem_canonicalSlots.mp hin).resolve_left hnew
    refine ⟨typed, (idxOf_canonicalSlots hin).mp hid, List.mem_flatMap.mp hread, ?_⟩
    intro step hstep hwrite
    exact hnew (List.mem_flatMap.mpr ⟨step, hstep, hwrite⟩)
  · rintro ⟨typed, hget, ⟨step, hstep, hread⟩, hnew⟩
    have hin := mem_canonicalSlots_of_read hstep hread
    refine ⟨typed, List.mem_filter.mpr ⟨hin, decide_eq_true ?_⟩, (idxOf_canonicalSlots hin).mpr hget⟩
    intro hwritten
    obtain ⟨other, hother, hwrite⟩ := List.mem_flatMap.mp hwritten
    exact hnew other hother hwrite

/-- **What a successful compilation leaves.** -/
theorem renumbered_of_ok {state : OpAdapterState}
    (h : opCompileAdapter backend steps policy semanticPredecessors retained = .ok (state, graph)) :
    Renumbered backend steps state graph := by
  obtain ⟨hadmissible, compiled, hcompile, hresult⟩ := opCompileAdapter_ok.mp h
  cases hresult
  have hexcluded : ∀ typed, ExcludedSlot backend steps (remapGraph id compiled) typed ↔
      ExcludedSlot backend steps compiled typed := by
    intro typed
    refine exists_congr fun i => exists_congr fun step => and_congr_right fun _ =>
      and_congr_right fun _ => ?_
    exact List.forall_mem_map
  have hslots : (backend.canonicalState semanticPredecessors steps compiled).values.map
      OpValueState.typed = backend.canonicalSlots steps := by
    rw [AdapterBackend.canonicalState, List.map_map]
    exact List.map_id _
  refine {
    single := ?_
    sourced := ?_
    values_ascending := ?_
    values_mem := ?_
    ops := ?_
    readers_ascending := ?_
    readers_mem := ?_
    leaves_ascending := Lib.ascending_sortUnique _
    leaves_mem := ?_
    excluded_mem := ?_ }
  · intro i j a b typed ha hb hina hinb
    obtain ⟨hi, rfl⟩ := List.getElem?_eq_some_iff.mp ha
    obtain ⟨hj, rfl⟩ := List.getElem?_eq_some_iff.mp hb
    have hpairs := List.pairwise_iff_getElem.mp hadmissible.single
    rcases Nat.lt_trichotomy i j with hlt | heq | hlt
    · exact absurd hinb (hpairs i j hi hj hlt typed hina)
    · exact heq
    · exact absurd hina (hpairs j i hj hi hlt typed hinb)
  · intro step hstep typed htyped
    exact (hadmissible.sourced step hstep typed htyped).imp_left List.mem_flatMap.mp
  · rw [hslots]
    exact Lib.ascending_sortUnique _
  · intro typed
    rw [hslots, mem_canonicalSlots, AdapterBackend.written, AdapterBackend.readBy,
      List.mem_flatMap, List.mem_flatMap]
    constructor
    · rintro (⟨step, hstep, hin⟩ | ⟨step, hstep, hin⟩)
      · exact ⟨step, hstep, Or.inr hin⟩
      · exact ⟨step, hstep, Or.inl hin⟩
    · rintro ⟨step, hstep, hin | hin⟩
      · exact Or.inr ⟨step, hstep, hin⟩
      · exact Or.inl ⟨step, hstep, hin⟩
  · intro op hop
    obtain ⟨old, hold, rfl⟩ := List.mem_map.mp hop
    obtain ⟨d, hd, hdescriptor⟩ := (compileOpGraph_places hcompile).1 old hold
    rw [getElem?_canonicalSteps, Option.map_eq_some_iff] at hd
    obtain ⟨step, hstep, rfl⟩ := hd
    have hin := List.mem_of_getElem? hstep
    refine ⟨step, hstep, ?_, ?_, ?_⟩
    · simp only [remapOp, hdescriptor]
      rfl
    · simp only [remapOp, hdescriptor]
      exact idsOf_canonical fun typed htyped => mem_canonicalSlots_of_read hin htyped
    · simp only [remapOp, hdescriptor]
      exact idsOf_canonical fun typed htyped => mem_canonicalSlots_of_write hin htyped
  · intro value
    exact List.pairwise_lt_range.filter _
  · intro value k
    simp only [remapGraph, readersOf, List.mem_filter, List.mem_range, Option.any_eq_true,
      List.contains_iff_mem]
    constructor
    · rintro ⟨-, hop⟩
      exact hop
    · rintro ⟨op, hop, hread⟩
      exact ⟨(List.getElem?_eq_some_iff.mp hop).1, op, hop, hread⟩
  · intro value
    rw [AdapterBackend.canonicalState, Lib.mem_sortUnique, List.mem_append, mem_canonicalLeaves,
      mem_excludedWrites hcompile, ← AdapterBackend.canonicalState, getElem?_canonicalState,
      ← exists_or]
    refine exists_congr fun typed => ?_
    rw [← and_or_left, hexcluded]
  · intro value
    refine (mem_excludedWrites hcompile).trans (exists_congr fun typed => ?_)
    rw [getElem?_canonicalState, hexcluded]

/-! ## Steps in another order -/

/-- The second list is the first one in another order, each step with its requirements. -/
structure Reordered (σ : Equiv.Perm Nat) (steps steps' : List Step)
    (semanticPredecessors semanticPredecessors' : Option (Nat → List String)) : Prop where
  length_eq : steps'.length = steps.length
  lt_iff : ∀ i, σ i < steps.length ↔ i < steps.length
  get_eq : ∀ i, steps'[σ i]? = steps[i]?
  required : semanticPredecessors = semanticPredecessors'.map fun semantic i => semantic (σ i)

section

variable {σ : Equiv.Perm Nat} {steps' : List Step}
  {semanticPredecessors' : Option (Nat → List String)}

section

variable (h : Reordered σ steps steps' semanticPredecessors semanticPredecessors')
include h

theorem Reordered.perm_range :
    ((List.range steps.length).map σ).Perm (List.range steps.length) := by
  refine (List.perm_ext_iff_of_nodup (List.nodup_range.map σ.injective) List.nodup_range).mpr ?_
  intro i
  rw [List.mem_map, List.mem_range]
  constructor
  · rintro ⟨j, hj, rfl⟩
    exact (h.lt_iff j).mpr (List.mem_range.mp hj)
  · intro hi
    refine ⟨σ.symm i, List.mem_range.mpr ((h.lt_iff _).mp ?_), σ.apply_symm_apply i⟩
    rwa [σ.apply_symm_apply]

theorem Reordered.perm :
    steps'.Perm steps := by
  have hread : ∀ list : List Step,
      list.map some = (List.range list.length).map fun i => list[i]? := by
    intro list
    refine List.ext_getElem? fun i => ?_
    rw [List.getElem?_map, List.getElem?_map]
    rcases Nat.lt_or_ge i list.length with hi | hi
    · rw [List.getElem?_range hi, Option.map_some, List.getElem?_eq_getElem hi, Option.map_some]
    · rw [List.getElem?_eq_none hi, List.getElem?_eq_none (by rwa [List.length_range])]
      rfl
  have hplaces : ((List.range steps.length).map σ).map (fun i => steps'[i]?) =
      (List.range steps.length).map fun i => steps[i]? := by
    rw [List.map_map]
    exact List.map_congr_left fun i _ => h.get_eq i
  have hsome : (steps'.map some).Perm (steps.map some) := by
    rw [hread, hread, h.length_eq, ← hplaces]
    exact (h.perm_range.map _).symm
  have hlists := hsome.filterMap id
  rwa [List.filterMap_map, List.filterMap_map, Function.id_comp, List.filterMap_some,
    List.filterMap_some] at hlists

theorem Reordered.mem_iff (typed : TypedSlot) :
    (typed ∈ backend.written steps' ↔ typed ∈ backend.written steps) ∧
      (typed ∈ backend.readBy steps' ↔ typed ∈ backend.readBy steps) :=
  ⟨(h.perm.flatMap_right _).mem_iff, (h.perm.flatMap_right _).mem_iff⟩

theorem Reordered.canonicalSlots_eq :
    backend.canonicalSlots steps' = backend.canonicalSlots steps := by
  refine Lib.sortUnique_congr fun typed => ?_
  rw [List.mem_append, List.mem_append, (h.mem_iff typed).1, (h.mem_iff typed).2]

theorem Reordered.canonicalLeaves_eq :
    backend.canonicalLeaves steps' = backend.canonicalLeaves steps := by
  rw [AdapterBackend.canonicalLeaves, AdapterBackend.canonicalLeaves, h.canonicalSlots_eq]
  refine congrArg (List.map _) (List.filter_congr fun typed _ => ?_)
  exact decide_eq_decide.mpr (not_congr (h.mem_iff typed).1)

theorem Reordered.admissible (hadmissible : backend.Admissible steps semanticPredecessors) :
    backend.Admissible steps' semanticPredecessors' where
  single := by
    refine (h.perm.pairwise_iff ?_).mpr hadmissible.single
    intro a b hab typed hb ha
    exact hab typed ha hb
  required := by
    intro semantic heq i hi key hkey
    have hat := hadmissible.required (fun i => semantic (σ i)) (by rw [h.required, heq]; rfl)
    have hlt : σ.symm i < steps.length := by
      rw [← h.lt_iff, σ.apply_symm_apply, ← h.length_eq]
      exact hi
    have hin := hat (σ.symm i) hlt key (by rwa [σ.apply_symm_apply])
    exact (h.perm.map backend.key).mem_iff.mpr hin
  sourced := by
    intro step hstep typed htyped
    rw [(h.mem_iff typed).1]
    exact hadmissible.sourced step (h.perm.mem_iff.mp hstep) typed htyped

/-- **The descriptors are renamed with the steps.** -/
theorem Reordered.renames (hadmissible : backend.Admissible steps semanticPredecessors)
    (hkeys : (steps.map backend.key).Nodup) :
    Renames σ (backend.canonicalSteps semanticPredecessors steps)
      (backend.canonicalSteps semanticPredecessors' steps') where
  length_eq := by
    rw [length_canonicalSteps, length_canonicalSteps, h.length_eq]
  lt_iff := by
    intro i
    rw [length_canonicalSteps]
    exact h.lt_iff i
  get_eq := by
    intro i
    have hplace : ∀ key ∈ steps.map backend.key,
        (steps'.map backend.key).idxOf key = σ ((steps.map backend.key).idxOf key) := by
      intro key hkey
      have hnodup' : (steps'.map backend.key).Nodup := (h.perm.map _).nodup_iff.mpr hkeys
      refine (getElem?_idxOf_iff hnodup' ((h.perm.map _).mem_iff.mpr hkey)).mp ?_
      rw [List.getElem?_map, h.get_eq, ← List.getElem?_map]
      exact (getElem?_idxOf_iff hkeys hkey).mpr rfl
    rw [getElem?_canonicalSteps, getElem?_canonicalSteps, h.get_eq, Option.map_map,
      h.canonicalSlots_eq]
    cases hstep : steps[i]? with
    | none => rfl
    | some step =>
        have hi := (List.getElem?_eq_some_iff.mp hstep).1
        have hrequired : backend.requiredAt semanticPredecessors' steps' (σ i) =
            (backend.requiredAt semanticPredecessors steps i).map σ := by
          have hsemantic := h.required
          cases hsome : semanticPredecessors' with
          | none =>
              rw [hsome] at hsemantic
              rw [hsemantic]
              rfl
          | some semantic =>
              rw [hsome] at hsemantic
              have hin := hadmissible.required _ hsemantic i hi
              rw [hsemantic, AdapterBackend.requiredAt, Option.map_some, AdapterBackend.requiredAt,
                List.map_map]
              exact List.map_congr_left fun key hkey => hplace key (hin key hkey)
        simp only [Option.map_some, Function.comp_apply, OpDescriptor.rename, hrequired]

theorem Reordered.excludedWrites_perm {canonical : List Int}
    (hcanonical : ∀ i < steps.length, canonical[σ i]? = graph.canonicalIndex[i]?) :
    (excludedWrites (backend.canonicalSteps semanticPredecessors' steps')
      (graph.rename σ canonical)).Perm
      (excludedWrites (backend.canonicalSteps semanticPredecessors steps) graph) := by
  rw [excludedWrites, excludedWrites, length_canonicalSteps, length_canonicalSteps, h.length_eq]
  refine (h.perm_range.symm.flatMap_right _).trans ?_
  rw [List.flatMap_map]
  refine List.Perm.of_eq (List.flatMap_congr fun i hi => ?_)
  have hindex : (graph.rename σ canonical).canonicalIndex = canonical := rfl
  rw [hindex, hcanonical i (List.mem_range.mp hi), getElem?_canonicalSteps,
    getElem?_canonicalSteps, h.get_eq, h.canonicalSlots_eq]
  cases steps[i]? <;> rfl

end

theorem remapGraph_rename {canonical : List Int} (f : ValueId → ValueId) :
    remapGraph f (graph.rename σ canonical) = (remapGraph f graph).rename σ canonical := by
  have hops : (graph.ops.map (CompiledOp.rename σ)).map (remapOp f) =
      (graph.ops.map (remapOp f)).map (CompiledOp.rename σ) := by
    rw [List.map_map, List.map_map]
    rfl
  have hreaders : readersOf ((graph.ops.map (remapOp f)).map (CompiledOp.rename σ)) =
      readersOf (graph.ops.map (remapOp f)) :=
    funext fun value => any_rename σ _ fun d => d.reads.contains value
  simp only [remapGraph, CompiledGraph.rename, hops, hreaders]

/-- **Steps in another order** compile to the same tables, up to the original indices and the order
of the excluded values. -/
theorem Reordered.opCompileAdapter_eq
    (h : Reordered σ steps steps' semanticPredecessors semanticPredecessors')
    {state : OpAdapterState}
    (hok : opCompileAdapter backend steps policy semanticPredecessors retained = .ok (state, graph))
    :
    ∃ excludedValues canonical,
      opCompileAdapter backend steps' policy semanticPredecessors' retained =
        .ok ({ state with excludedValues }, graph.rename σ canonical) ∧
      excludedValues.Perm state.excludedValues ∧
      ∀ i < steps.length, canonical[σ i]? = graph.canonicalIndex[i]? := by
  obtain ⟨hadmissible, compiled, hcompile, hresult⟩ := opCompileAdapter_ok.mp hok
  cases hresult
  have hkeys : (steps.map backend.key).Nodup := by
    have := (compileOpGraph_ok.mp hcompile).1.keys
    have hmap : (backend.canonicalSteps semanticPredecessors steps).map OpDescriptor.key =
        steps.map backend.key := by
      refine List.ext_getElem? fun i => ?_
      rw [List.getElem?_map, getElem?_canonicalSteps, List.getElem?_map, Option.map_map]
      rfl
    rwa [hmap] at this
  obtain ⟨canonical, hcompile', hcanonical⟩ :=
    (h.renames hadmissible hkeys).compile_ok hcompile
  rw [length_canonicalSteps] at hcanonical
  have hperm := @Reordered.excludedWrites_perm _ _ backend steps _ compiled σ steps' _ h _ hcanonical
  refine ⟨_, canonical, ?_, hperm, hcanonical⟩
  refine opCompileAdapter_ok.mpr
    ⟨h.admissible hadmissible, compiled.rename σ canonical, ?_, ?_⟩
  · rw [h.canonicalLeaves_eq]
    exact hcompile'
  · rw [remapGraph_rename]
    refine Prod.ext ?_ rfl
    have hleaves : sortUnique (backend.canonicalLeaves steps' ++
        excludedWrites (backend.canonicalSteps semanticPredecessors' steps')
          (compiled.rename σ canonical)) =
        sortUnique (backend.canonicalLeaves steps ++
          excludedWrites (backend.canonicalSteps semanticPredecessors steps) compiled) := by
      refine Lib.sortUnique_congr fun value => ?_
      rw [List.mem_append, List.mem_append, h.canonicalLeaves_eq, hperm.mem_iff]
    simp only [AdapterBackend.canonicalState, h.canonicalSlots_eq, hleaves]

end

end

/-- **Adapter compilation renumbers consistently.**  When it succeeds a slot has one producing step
and a read a producer or a sample; every table is over the ids in slot order; and steps in another
order leave the same tables, up to the original indices and the order of the excluded values. -/
theorem opCompileAdapter_consistent {Step Range : Type} (backend : AdapterBackend Step Range)
    (steps : List Step) (policy : CyclePolicy) (semanticPredecessors : Option (Nat → List String))
    (retained : Option OpExclusionProof) (state : OpAdapterState) (graph : CompiledGraph)
    (hok : opCompileAdapter backend steps policy semanticPredecessors retained =
      .ok (state, graph)) :
    Renumbered backend steps state graph ∧
    ∀ (σ : Equiv.Perm Nat) (steps' : List Step)
      (semanticPredecessors' : Option (Nat → List String)),
      Reordered σ steps steps' semanticPredecessors semanticPredecessors' →
      ∃ excludedValues canonical,
        opCompileAdapter backend steps' policy semanticPredecessors' retained =
          .ok ({ state with excludedValues }, graph.rename σ canonical) ∧
        excludedValues.Perm state.excludedValues ∧
        ∀ i < steps.length, canonical[σ i]? = graph.canonicalIndex[i]? := by
  refine ⟨renumbered_of_ok hok, ?_⟩
  intro σ steps' semanticPredecessors' hreordered
  exact hreordered.opCompileAdapter_eq hok

/-! ## Two steps -/

/-- A step as its key, its reads and its writes, each range `(domain, begin, end)`. -/
abbrev ListedStep := String × List (Nat × Nat × Nat) × List (Nat × Nat × Nat)

/-- Listed steps; slots of domain 1 are sampled. -/
def listedBackend : AdapterBackend ListedStep (Nat × Nat × Nat) where
  kind _ := 0
  externalReads _ := false
  reads step := step.2.1
  writes step := step.2.2
  domain range := range.1
  begin_ range := range.2.1
  end_ range := range.2.2
  key step := step.1
  sampled domain _ := domain == 1

/-- The second step reads what the first one writes, and a sampled slot. -/
def producerFirst : List ListedStep :=
  [("produce", [], [(2, 0, 2)]), ("consume", [(2, 1, 2), (1, 3, 4)], [(0, 0, 1)])]

def consumerFirst : List ListedStep :=
  [("consume", [(2, 1, 2), (1, 3, 4)], [(0, 0, 1)]), ("produce", [], [(2, 0, 2)])]

/-- Each of the two steps reads what the other writes. -/
def crossed : List ListedStep :=
  [("A", [(0, 0, 1)], [(0, 1, 2)]), ("B", [(0, 1, 2)], [(0, 0, 1)])]

def crossedBack : List ListedStep :=
  [("B", [(0, 1, 2)], [(0, 0, 1)]), ("A", [(0, 0, 1)], [(0, 1, 2)])]

theorem compileOpGraph_setAside {descriptors : List OpDescriptor} {leaves : List ValueId}
    (hdeclared : Declared descriptors leaves) :
    ∃ graph, OpGraph.compileOpGraph descriptors leaves .setAside none = .ok graph ∧
      CyclesSetAside descriptors graph := by
  obtain ⟨edges, hedges, hcompile⟩ := @compileOpGraph_of_declared _ _ none hdeclared rfl
  have hgraph := hcompile .setAside
  rw [orderGraph_ok hdeclared hedges, if_neg (by simp)] at hgraph
  exact ⟨_, hgraph, cyclesSetAside hdeclared hedges⟩

theorem declared_producerFirst : Declared (listedBackend.canonicalSteps none producerFirst)
    (listedBackend.canonicalLeaves producerFirst) where
  key_ne := by decide
  keys := by decide
  leaf := by decide
  single := by decide
  few := by decide
  predecessors_lt := by decide
  sourced := by decide

theorem admissible_producerFirst : listedBackend.Admissible producerFirst none where
  single := by
    rw [AdapterBackend.Single]
    decide
  required := fun _ heq => nomatch heq
  sourced := by decide

theorem opCompileAdapter_consistent_produced :
    ∃ state graph, opCompileAdapter listedBackend producerFirst .setAside none none =
        .ok (state, graph) ∧
      Renumbered listedBackend producerFirst state graph ∧
      ∃ excludedValues canonical,
        opCompileAdapter listedBackend consumerFirst .setAside none none =
          .ok ({ state with excludedValues }, graph.rename (Equiv.swap 0 1) canonical) ∧
        excludedValues.Perm state.excludedValues ∧
        ∀ i < 2, canonical[(Equiv.swap 0 1 : Equiv.Perm Nat) i]? = graph.canonicalIndex[i]? := by
  obtain ⟨compiled, hcompile, -⟩ := compileOpGraph_setAside declared_producerFirst
  have hok := opCompileAdapter_ok.mpr ⟨admissible_producerFirst, compiled, hcompile, rfl⟩
  obtain ⟨hrenumbered, hreordered⟩ :=
    opCompileAdapter_consistent listedBackend producerFirst .setAside none none _ _ hok
  refine ⟨_, _, hok, hrenumbered, hreordered (Equiv.swap 0 1) consumerFirst none ?_⟩
  refine ⟨rfl, fun i => ?_, fun i => ?_, rfl⟩
  · match i with
    | 0 => decide
    | 1 => decide
    | i + 2 => rw [Equiv.swap_apply_of_ne_of_ne (by omega) (by omega)]
  · match i with
    | 0 => decide
    | 1 => decide
    | i + 2 =>
        rw [Equiv.swap_apply_of_ne_of_ne (by omega) (by omega)]
        rfl

theorem excludedWrites_crossed {first second : ListedStep} {a b : OpDescriptor}
    (hsteps : listedBackend.canonicalSteps none [first, second] = [a, b])
    (hdeclared : Declared [a, b] (listedBackend.canonicalLeaves [first, second]))
    (hadmissible : listedBackend.Admissible [first, second] none)
    (hab : ∃ v ∈ a.reads, v ∈ b.writes) (hba : ∃ v ∈ b.reads, v ∈ a.writes) :
    ∃ state graph, opCompileAdapter listedBackend [first, second] .setAside none none =
        .ok (state, graph) ∧ state.excludedValues = a.writes ++ b.writes := by
  obtain ⟨compiled, hcompile, hset⟩ := compileOpGraph_setAside hdeclared
  have hfirst : Depends [a, b] 0 1 := by
    obtain ⟨v, hread, hwrite⟩ := hab
    exact ⟨a, rfl, Or.inr ⟨v, hread, b, rfl, hwrite⟩⟩
  have hsecond : Depends [a, b] 1 0 := by
    obtain ⟨v, hread, hwrite⟩ := hba
    exact ⟨b, rfl, Or.inr ⟨v, hread, a, rfl, hwrite⟩⟩
  have hout : ∀ i < [a, b].length, OnCycle [a, b] i →
      (compiled.canonicalIndex[i]?.any (· < 0)) = true := by
    intro i hi hcycle
    refine ((compileOpGraph_places hcompile).2 i hi).mpr ?_
    intro op hop heq
    exact (hset.kept_iff i hi).mp ⟨op, hop, heq⟩ hcycle
  have hzero := hout 0 Nat.zero_lt_two ((Relation.TransGen.single hfirst).tail hsecond)
  have hone := hout 1 Nat.one_lt_two ((Relation.TransGen.single hsecond).tail hfirst)
  rw [← hsteps] at hcompile
  refine ⟨_, _, opCompileAdapter_ok.mpr ⟨hadmissible, compiled, hcompile, rfl⟩, ?_⟩
  rw [AdapterBackend.canonicalState, hsteps, excludedWrites]
  have hrange : List.range [a, b].length = [0, 1] := rfl
  rw [hrange, List.flatMap_cons, List.flatMap_cons, List.flatMap_nil, if_pos hzero, if_pos hone,
    List.append_nil]
  rfl

/-- **The excluded values follow the step order**: the same two steps, listed both ways. -/
theorem excludedValues_ordered :
    ∃ state graph state' graph',
      opCompileAdapter listedBackend crossed .setAside none none = .ok (state, graph) ∧
      opCompileAdapter listedBackend crossedBack .setAside none none = .ok (state', graph') ∧
      crossedBack.Perm crossed ∧
      state.excludedValues = [1, 0] ∧ state'.excludedValues = [0, 1] := by
  have hadmissible : ∀ steps : List ListedStep, steps = crossed ∨ steps = crossedBack →
      listedBackend.Admissible steps none := by
    rintro steps (rfl | rfl)
    · refine ⟨?_, (fun _ heq => nomatch heq), by decide⟩
      rw [AdapterBackend.Single]
      decide
    · refine ⟨?_, (fun _ heq => nomatch heq), by decide⟩
      rw [AdapterBackend.Single]
      decide
  obtain ⟨state, graph, hok, hexcluded⟩ := @excludedWrites_crossed
    ("A", [(0, 0, 1)], [(0, 1, 2)]) ("B", [(0, 1, 2)], [(0, 0, 1)])
    { key := "A", reads := [0], writes := [1] } { key := "B", reads := [1], writes := [0] }
    (by decide) ⟨⟨by decide, by decide, by decide, by decide⟩, by decide, by decide, by decide⟩
    (hadmissible _ (Or.inl rfl)) ⟨0, by decide, by decide⟩ ⟨1, by decide, by decide⟩
  obtain ⟨state', graph', hok', hexcluded'⟩ := @excludedWrites_crossed
    ("B", [(0, 1, 2)], [(0, 0, 1)]) ("A", [(0, 0, 1)], [(0, 1, 2)])
    { key := "B", reads := [1], writes := [0] } { key := "A", reads := [0], writes := [1] }
    (by decide) ⟨⟨by decide, by decide, by decide, by decide⟩, by decide, by decide, by decide⟩
    (hadmissible _ (Or.inr rfl)) ⟨1, by decide, by decide⟩ ⟨0, by decide, by decide⟩
  exact ⟨state, graph, state', graph', hok, hok', List.Perm.swap .., hexcluded, hexcluded'⟩

end RigExec.Closure
