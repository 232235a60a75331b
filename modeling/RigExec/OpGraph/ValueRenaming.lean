/-
# `RigExec.OpGraph.ValueRenaming` — value ids carry no order

The compiler compares value ids for equality and never for order.  A renaming `f` of
them that is injective leaves the declarations accepted, the same edges between the
same descriptors, and so the same components, reports and execution order; only the
reads and writes of the ops are renamed.

The leaves enter as a set, so the second list of them may be any list with the
renamed members.
-/
import RigExec.OpGraph.Cycles

namespace RigExec.OpGraph

/-- A descriptor with its values renamed. -/
def OpDescriptor.mapValues (f : ValueId → ValueId) (d : OpDescriptor) : OpDescriptor :=
  { d with reads := d.reads.map f, writes := d.writes.map f }

/-- An op with its values renamed. -/
def CompiledOp.mapValues (f : ValueId → ValueId) (op : CompiledOp) : CompiledOp :=
  { op with descriptor := op.descriptor.mapValues f }

/-- A graph with its values renamed, the readers taken from the ops again. -/
def CompiledGraph.mapValues (f : ValueId → ValueId) (graph : CompiledGraph) : CompiledGraph :=
  { graph with
    ops := graph.ops.map (CompiledOp.mapValues f)
    readers := readersOf (graph.ops.map (CompiledOp.mapValues f)) }

section

variable {f : ValueId → ValueId} {descriptors : List OpDescriptor} {leaves leaves' : List ValueId}
  {retained : Option OpExclusionProof} {edges : Nat → List Nat} {policy : CyclePolicy}

/-! ## Declarations -/

theorem map_key_mapValues (f : ValueId → ValueId) (descriptors : List OpDescriptor) :
    (descriptors.map (OpDescriptor.mapValues f)).map OpDescriptor.key =
      descriptors.map OpDescriptor.key := by
  rw [List.map_map]
  rfl

theorem mem_writes_mapValues (hf : f.Injective) {d : OpDescriptor} {v : ValueId} :
    f v ∈ (d.mapValues f).writes ↔ v ∈ d.writes :=
  List.mem_map_of_injective hf

/-- **Both lists are declared, or neither.** -/
theorem declared_mapValues (hf : f.Injective) (hleaves : ∀ v, f v ∈ leaves' ↔ v ∈ leaves) :
    Declared (descriptors.map (OpDescriptor.mapValues f)) leaves' ↔ Declared descriptors leaves := by
  have hlength : (descriptors.map (OpDescriptor.mapValues f)).length = descriptors.length :=
    List.length_map ..
  constructor
  · intro h
    refine {
      key_ne := ?_
      keys := ?_
      leaf := ?_
      single := ?_
      few := hlength ▸ h.few
      predecessors_lt := ?_
      sourced := ?_ }
    · intro d hd
      exact h.key_ne (d.mapValues f) (List.mem_map_of_mem hd)
    · have hkeys := h.keys
      rwa [map_key_mapValues] at hkeys
    · intro d hd v hv hin
      exact h.leaf _ (List.mem_map_of_mem hd) (f v) ((mem_writes_mapValues hf).mpr hv)
        ((hleaves v).mpr hin)
    · refine (List.pairwise_map.mp h.single).imp ?_
      intro a b hab v ha hb
      exact hab (f v) ((mem_writes_mapValues hf).mpr ha) ((mem_writes_mapValues hf).mpr hb)
    · intro d hd p hp
      exact hlength ▸ h.predecessors_lt _ (List.mem_map_of_mem hd) p hp
    · intro d hd v hv
      rcases h.sourced _ (List.mem_map_of_mem hd) (f v) (List.mem_map_of_mem hv) with hleaf | hwrite
      · exact Or.inl ((hleaves v).mp hleaf)
      · obtain ⟨w, hw, hin⟩ := hwrite
        obtain ⟨e, he, rfl⟩ := List.mem_map.mp hw
        exact Or.inr ⟨e, he, (mem_writes_mapValues hf).mp hin⟩
  · intro h
    refine {
      key_ne := ?_
      keys := ?_
      leaf := ?_
      single := ?_
      few := hlength.symm ▸ h.few
      predecessors_lt := ?_
      sourced := ?_ }
    · intro d hd
      obtain ⟨e, he, rfl⟩ := List.mem_map.mp hd
      exact h.key_ne e he
    · rw [map_key_mapValues]
      exact h.keys
    · intro d hd v hv hin
      obtain ⟨e, he, rfl⟩ := List.mem_map.mp hd
      obtain ⟨w, hw, rfl⟩ := List.mem_map.mp hv
      exact h.leaf e he w hw ((hleaves w).mp hin)
    · refine List.pairwise_map.mpr (h.single.imp ?_)
      intro a b hab v ha hb
      obtain ⟨w, hw, rfl⟩ := List.mem_map.mp ha
      exact hab w hw ((mem_writes_mapValues hf).mp hb)
    · intro d hd p hp
      obtain ⟨e, he, rfl⟩ := List.mem_map.mp hd
      rw [hlength]
      exact h.predecessors_lt e he p hp
    · intro d hd v hv
      obtain ⟨e, he, rfl⟩ := List.mem_map.mp hd
      obtain ⟨w, hw, rfl⟩ := List.mem_map.mp hv
      rcases h.sourced e he w hw with hleaf | ⟨producer, hproducer, hin⟩
      · exact Or.inl ((hleaves w).mpr hleaf)
      · exact Or.inr ⟨_, List.mem_map_of_mem hproducer, (mem_writes_mapValues hf).mpr hin⟩

theorem depends_mapValues (hf : f.Injective) {i j : Nat} :
    Depends (descriptors.map (OpDescriptor.mapValues f)) i j ↔ Depends descriptors i j := by
  simp only [Depends, List.getElem?_map, Option.map_eq_some_iff]
  constructor
  · rintro ⟨_, ⟨d, hd, rfl⟩, hj⟩
    refine ⟨d, hd, hj.imp_right ?_⟩
    rintro ⟨_, hread, _, ⟨w, hw, rfl⟩, hwrite⟩
    obtain ⟨v, hv, rfl⟩ := List.mem_map.mp hread
    exact ⟨v, hv, w, hw, (mem_writes_mapValues hf).mp hwrite⟩
  · rintro ⟨d, hd, hj⟩
    refine ⟨_, ⟨d, hd, rfl⟩, hj.imp_right ?_⟩
    rintro ⟨v, hread, w, hw, hwrite⟩
    exact ⟨f v, List.mem_map_of_mem hread, _, ⟨w, hw, rfl⟩, (mem_writes_mapValues hf).mpr hwrite⟩

theorem dependencies_mapValues (hf : f.Injective) (h : Dependencies descriptors edges) :
    Dependencies (descriptors.map (OpDescriptor.mapValues f)) edges where
  ascending := h.ascending
  mem_iff := fun i j => (h.mem_iff i j).trans (depends_mapValues hf).symm

/-! ## The order and the reports look at keys and edges only -/

theorem keyOf_mapValues (f : ValueId → ValueId) (descriptors : List OpDescriptor) :
    keyOf (descriptors.map (OpDescriptor.mapValues f)) = keyOf descriptors := by
  funext i
  rw [keyOf, List.getElem?_map, keyOf]
  cases descriptors[i]? <;> rfl

theorem retainedExcluded_mapValues (f : ValueId → ValueId) :
    retainedExcluded (descriptors.map (OpDescriptor.mapValues f)) retained =
      retainedExcluded descriptors retained := by
  funext i
  cases retained with
  | none => rfl
  | some proof => simp only [retainedExcluded, keyOf_mapValues, List.length_map]

theorem loop_mapValues (f : ValueId → ValueId) (succs : Nat → List Nat) (component : List Nat) :
    loop (descriptors.map (OpDescriptor.mapValues f)) succs component =
      loop descriptors succs component := by
  simp only [loop, keyOf_mapValues]

theorem foundComponents_mapValues (f : ValueId → ValueId) :
    foundComponents (descriptors.map (OpDescriptor.mapValues f)) retained edges =
      foundComponents descriptors retained edges := by
  simp only [foundComponents, activeSuccs, activePreds, retainedExcluded_mapValues, List.length_map]

theorem excludedOps_mapValues (f : ValueId → ValueId) :
    excludedOps (descriptors.map (OpDescriptor.mapValues f)) retained edges =
      excludedOps descriptors retained edges := by
  funext i
  simp only [excludedOps, retainedExcluded_mapValues, foundComponents_mapValues]

theorem cycleReports_mapValues (f : ValueId → ValueId) :
    cycleReports (descriptors.map (OpDescriptor.mapValues f)) retained edges =
      cycleReports descriptors retained edges := by
  have hreport : reportOf (descriptors.map (OpDescriptor.mapValues f)) =
      reportOf descriptors := by
    funext succs component
    simp only [reportOf, loop_mapValues, keyOf_mapValues]
  simp only [cycleReports, foundComponents_mapValues, hreport, activeSuccs,
    retainedExcluded_mapValues, List.length_map]

theorem orderOf_mapValues (f : ValueId → ValueId) :
    orderOf (descriptors.map (OpDescriptor.mapValues f)) retained edges =
      orderOf descriptors retained edges := by
  simp only [orderOf, canonicalOrder, keyOf_mapValues, excludedOps_mapValues, activeSuccs,
    activePreds, retainedExcluded_mapValues, List.length_map]

/-! ## The graph -/

theorem emitOp_mapValues (f : ValueId → ValueId) (excluded : Nat → Bool)
    (preds succs : Nat → List Nat)
    (order : List Nat) {old : Nat} (hold : old < descriptors.length) :
    emitOp (descriptors.map (OpDescriptor.mapValues f)) excluded preds succs order old =
      (emitOp descriptors excluded preds succs order old).mapValues f := by
  simp only [emitOp, CompiledOp.mapValues, List.getElem?_map, List.getElem?_eq_getElem hold]
  rfl

theorem distances_mapValues (f : ValueId → ValueId) (ops : List CompiledOp) :
    distances (ops.map (CompiledOp.mapValues f)) = distances ops := by
  rw [distances, distances, List.foldl_map]
  rfl

theorem emitted_mapValues (f : ValueId → ValueId) (hdeclared : Declared descriptors leaves)
    (hedges : Dependencies descriptors edges) (reports : List CycleReport) :
    emitted (descriptors.map (OpDescriptor.mapValues f)) retained edges reports
        (orderOf descriptors retained edges) =
      (emitted descriptors retained edges reports
        (orderOf descriptors retained edges)).mapValues f := by
  have horder := (orderOf_spec retained hdeclared hedges).1
  have hops : ∀ excluded : Nat → Bool, ∀ preds succs : Nat → List Nat,
      (orderOf descriptors retained edges).map (emitOp
        (descriptors.map (OpDescriptor.mapValues f)) excluded preds succs
        (orderOf descriptors retained edges)) =
      ((orderOf descriptors retained edges).map (emitOp descriptors excluded preds succs
        (orderOf descriptors retained edges))).map (CompiledOp.mapValues f) := by
    intro excluded preds succs
    rw [List.map_map]
    refine List.map_congr_left ?_
    intro old hold
    exact emitOp_mapValues f excluded preds succs _ ((horder.mem_iff old).mp hold).1
  have hvolatile : ∀ (ops : List CompiledOp) (i : Nat),
      ((ops.map (CompiledOp.mapValues f))[i]?.any fun op => op.descriptor.volatileInput) =
        ops[i]?.any fun op => op.descriptor.volatileInput := by
    intro ops i
    rw [List.getElem?_map, Option.any_map]
    rfl
  simp only [emitted, emitGraph, excludedOps_mapValues, activePreds, activeSuccs,
    retainedExcluded_mapValues, List.length_map, hops, distances_mapValues, hvolatile,
    CompiledGraph.mapValues]

theorem singly_mapValues (f : ValueId → ValueId) (graph : CompiledGraph) :
    singly (graph.mapValues f) = (singly graph).mapValues f := by
  have hpreds : ∀ i, (graph.mapValues f).preds i = graph.preds i := by
    intro i
    simp only [CompiledGraph.preds, CompiledGraph.mapValues, List.getElem?_map]
    cases graph.ops[i]? <;> rfl
  have hsuccs : ∀ i, (graph.mapValues f).succs i = graph.succs i := by
    intro i
    simp only [CompiledGraph.succs, CompiledGraph.mapValues, List.getElem?_map]
    cases graph.ops[i]? <;> rfl
  simp only [singly, hpreds, hsuccs]
  simp [CompiledGraph.mapValues]

theorem orderGraph_mapValues (hf : f.Injective) (hleaves : ∀ v, f v ∈ leaves' ↔ v ∈ leaves)
    (hdeclared : Declared descriptors leaves) (hedges : Dependencies descriptors edges) :
    orderGraph (descriptors.map (OpDescriptor.mapValues f)) retained edges policy =
      (orderGraph descriptors retained edges policy).map (CompiledGraph.mapValues f) := by
  rw [orderGraph_ok ((declared_mapValues hf hleaves).mpr hdeclared) (dependencies_mapValues hf hedges),
    orderGraph_ok hdeclared hedges, cycleReports_mapValues, orderOf_mapValues,
    emitted_mapValues f hdeclared hedges, singly_mapValues]
  split_ifs <;> rfl

/-- **Renamed values compile alike**: together, and to the same graph up to the renaming. -/
theorem compileOpGraph_mapValues (hf : f.Injective) (hleaves : ∀ v, f v ∈ leaves' ↔ v ∈ leaves)
    {graph' : CompiledGraph} :
    compileOpGraph (descriptors.map (OpDescriptor.mapValues f)) leaves' policy retained = .ok graph' ↔
      ∃ graph, compileOpGraph descriptors leaves policy retained = .ok graph ∧
        graph' = graph.mapValues f := by
  have horders := fun edges (hdeclared : Declared descriptors leaves)
    (hedges : Dependencies descriptors edges) =>
      @orderGraph_mapValues f descriptors leaves leaves' retained edges policy hf hleaves hdeclared
        hedges
  constructor
  · intro h
    obtain ⟨hdeclared', hretained, edges', hedges', horder⟩ := compileOpGraph_ok.mp h
    have hdeclared := (declared_mapValues hf hleaves).mp hdeclared'
    rw [map_key_mapValues] at hretained
    obtain ⟨edges, hedges, hcompile⟩ := compileOpGraph_of_declared hdeclared hretained
    rw [hedges'.unique (dependencies_mapValues hf hedges), horders edges hdeclared hedges,
      ← hcompile policy] at horder
    cases hgraph : compileOpGraph descriptors leaves policy retained with
    | error message =>
        rw [hgraph] at horder
        cases horder
    | ok graph =>
        rw [hgraph] at horder
        cases horder
        exact ⟨graph, rfl, rfl⟩
  · rintro ⟨graph, hgraph, rfl⟩
    obtain ⟨hdeclared, hretained, edges, hedges, horder⟩ := compileOpGraph_ok.mp hgraph
    refine compileOpGraph_ok.mpr ⟨(declared_mapValues hf hleaves).mpr hdeclared, ?_, edges,
      dependencies_mapValues hf hedges, ?_⟩
    · rw [map_key_mapValues]
      exact hretained
    · rw [horders edges hdeclared hedges, horder]
      rfl

end

end RigExec.OpGraph
