/-
# `RigExec.OpGraph.Compiled` — what a compiled graph is

The edges of the compiler's second half, from both ends, are those between
descriptors that no retained proof excludes; the vertices kept are the ones on no
cycle of these edges.  The ready queue puts exactly them in a topological order,
and of all such orders the one whose keys come first (`orderOf_spec`).

`Compiled` says what this means for the graph that is handed out: its edges join
earlier ops to later ones and are recorded at both ends, its readers and volatile
ops are those of its descriptors, and an op that reads what another one writes
comes after it.
-/
import RigExec.OpGraph.Components
import RigExec.OpGraph.Declared

namespace RigExec.OpGraph

open Lib (sortUnique Ascending Links OrderOf)

variable {descriptors : List OpDescriptor} {leaves : List ValueId}
  {retained : Option OpExclusionProof} {edges : Nat → List Nat} {u v : Nat}

/-! ## The active edges -/

theorem mem_activeEdges {excluded : Nat → Bool} {next : Nat → List Nat} :
    v ∈ activeEdges excluded next u ↔ excluded u = false ∧ excluded v = false ∧ v ∈ next u := by
  unfold activeEdges
  split
  · rename_i h
    simp [h]
  · rename_i h
    simp [Bool.eq_false_iff.mpr h, List.mem_filter, and_comm]

theorem ascending_activeEdges {excluded : Nat → Bool} {next : Nat → List Nat}
    (h : Ascending (next u)) : Ascending (activeEdges excluded next u) := by
  unfold activeEdges
  split
  · exact List.Pairwise.nil
  · exact h.filter _

theorem mem_activePreds (hedges : Dependencies descriptors edges) :
    u ∈ activePreds descriptors retained edges v ↔
      retainedExcluded descriptors retained v = false ∧
        retainedExcluded descriptors retained u = false ∧ Depends descriptors v u := by
  rw [activePreds, mem_activeEdges, hedges.mem_iff]

theorem mem_activeSuccs (hdeclared : Declared descriptors leaves)
    (hedges : Dependencies descriptors edges) :
    v ∈ activeSuccs descriptors retained edges u ↔
      retainedExcluded descriptors retained u = false ∧
        retainedExcluded descriptors retained v = false ∧ Depends descriptors v u := by
  rw [activeSuccs, mem_activeEdges, successorsOf, List.mem_filter, List.mem_range,
    List.contains_iff_mem, hedges.mem_iff]
  refine and_congr_right fun _ => and_congr_right fun _ => and_iff_right_of_imp fun hdep => ?_
  exact (hdep.lt hdeclared).1

theorem ascending_activePreds (hedges : Dependencies descriptors edges) (i : Nat) :
    Ascending (activePreds descriptors retained edges i) :=
  ascending_activeEdges (hedges.ascending i)

theorem ascending_activeSuccs (i : Nat) : Ascending (activeSuccs descriptors retained edges i) :=
  ascending_activeEdges (List.pairwise_lt_range.filter _)

theorem edges_active (retained : Option OpExclusionProof)
    (hdeclared : Declared descriptors leaves) (hedges : Dependencies descriptors edges) :
    Edges descriptors.length (activeSuccs descriptors retained edges)
      (activePreds descriptors retained edges) where
  mem_iff := fun u v => by
    rw [mem_activeSuccs hdeclared hedges, mem_activePreds hedges]
    tauto
  succs_lt := fun u v hv => (((mem_activeSuccs hdeclared hedges).mp hv).2.2.lt hdeclared).1
  preds_lt := fun v u hu => (((mem_activePreds hedges).mp hu).2.2.lt hdeclared).2

/-! ## The vertices kept -/

/-- A descriptor that becomes an op. -/
def Kept (descriptors : List OpDescriptor) (retained : Option OpExclusionProof)
    (edges : Nat → List Nat) (i : Nat) : Prop :=
  i < descriptors.length ∧ excludedOps descriptors retained edges i = false

/-- The kept ones of a vertex's edges. -/
def keptOf (descriptors : List OpDescriptor) (retained : Option OpExclusionProof)
    (edges next : Nat → List Nat) (i : Nat) : List Nat :=
  (next i).filter fun j => !excludedOps descriptors retained edges j

/-- **Excluded are the retained ones and the vertices on cycles.** -/
theorem excludedOps_iff (retained : Option OpExclusionProof)
    (hdeclared : Declared descriptors leaves) (hedges : Dependencies descriptors edges) {v : Nat} :
    excludedOps descriptors retained edges v = true ↔
      retainedExcluded descriptors retained v = true ∨
        Cyclic (activeSuccs descriptors retained edges) v := by
  rw [excludedOps, Bool.or_eq_true, List.any_eq_true,
    ← mem_components_iff (edges_active retained hdeclared hedges)]
  simp only [List.contains_iff_mem, foundComponents]

theorem Kept.not_retained (h : Kept descriptors retained edges v) :
    retainedExcluded descriptors retained v = false := by
  have := h.2
  rw [excludedOps, Bool.or_eq_false_iff] at this
  exact this.1

theorem mem_keptOf {next : Nat → List Nat} :
    u ∈ keptOf descriptors retained edges next v ↔
      u ∈ next v ∧ excludedOps descriptors retained edges u = false := by
  simp [keptOf, List.mem_filter]

theorem mem_keptPreds (hdeclared : Declared descriptors leaves)
    (hedges : Dependencies descriptors edges) (hv : Kept descriptors retained edges v) :
    u ∈ keptOf descriptors retained edges (activePreds descriptors retained edges) v ↔
      Kept descriptors retained edges u ∧ Depends descriptors v u := by
  rw [mem_keptOf, mem_activePreds hedges]
  constructor
  · rintro ⟨⟨-, -, hdep⟩, hu⟩
    exact ⟨⟨(hdep.lt hdeclared).2, hu⟩, hdep⟩
  · rintro ⟨hu, hdep⟩
    exact ⟨⟨hv.not_retained, hu.not_retained, hdep⟩, hu.2⟩

theorem links_kept (retained : Option OpExclusionProof)
    (hdeclared : Declared descriptors leaves) (hedges : Dependencies descriptors edges) :
    Links (Kept descriptors retained edges)
      (keptOf descriptors retained edges (activePreds descriptors retained edges))
      (keptOf descriptors retained edges (activeSuccs descriptors retained edges)) := by
  have hactive := edges_active retained hdeclared hedges
  refine ⟨fun v _ => ((ascending_activePreds hedges v).nodup).filter _,
    fun u _ => ((ascending_activeSuccs u).nodup).filter _, fun v hv p hp => ?_, fun u hu v hv => ?_⟩
  · obtain ⟨hp, hkept⟩ := mem_keptOf.mp hp
    exact ⟨⟨hactive.preds_lt v p hp, hkept⟩, mem_keptOf.mpr ⟨(hactive.mem_iff p v).mpr hp, hv.2⟩⟩
  · obtain ⟨hv, hkept⟩ := mem_keptOf.mp hv
    exact ⟨⟨hactive.succs_lt u v hv, hkept⟩, mem_keptOf.mpr ⟨(hactive.mem_iff u v).mp hv, hu.2⟩⟩

theorem kept_acyclic (hdeclared : Declared descriptors leaves)
    (hedges : Dependencies descriptors edges) (hv : Kept descriptors retained edges v) :
    ¬ Relation.TransGen (fun p w =>
      p ∈ keptOf descriptors retained edges (activePreds descriptors retained edges) w) v v := by
  intro hcycle
  have hactive := edges_active retained hdeclared hedges
  have hcyclic : Cyclic (activeSuccs descriptors retained edges) v := by
    refine Relation.TransGen.mono (fun p w hp => ?_) v v hcycle
    exact (hactive.mem_iff p w).mpr (mem_keptOf.mp hp).1
  have := (excludedOps_iff retained hdeclared hedges).mpr (.inr hcyclic)
  rw [hv.2] at this
  cases this

/-! ## The order -/

theorem leastDraining_initial :
    Lib.LeastDraining (keyOf descriptors) (Kept descriptors retained edges)
      (keptOf descriptors retained edges (activePreds descriptors retained edges))
      (initialCounts descriptors.length (excludedOps descriptors retained edges)
        (activePreds descriptors retained edges)) [] := by
  have hpending : ∀ v, Kept descriptors retained edges v →
      Lib.pending (keptOf descriptors retained edges (activePreds descriptors retained edges))
        (fun p _ => List.contains [] p) v =
      (activePreds descriptors retained edges v).countP
        fun p => !excludedOps descriptors retained edges p := by
    intro v _
    simp [Lib.pending, keptOf, List.countP_eq_length_filter]
  refine ⟨⟨fun v hv => ?_, fun v => ?_, ?_⟩, Lib.topological_nil, fun other _ =>
    .inl (List.nil_prefix)⟩
  · have hlt : v < (List.range descriptors.length).length := by simpa using hv.1
    rw [initialCounts, List.getElem?_map, List.getElem?_range hv.1, Option.map_some, hpending v hv]
    simp [hv.2]
  · have hzero := @Lib.pending_eq_zero
      (keptOf descriptors retained edges (activePreds descriptors retained edges))
      (fun p _ => List.contains [] p) v
    rw [List.nil_append, initialCounts]
    refine Iff.trans ?_ (and_congr_right fun _ => hzero)
    simp only [List.mem_filter, List.mem_range, Bool.and_eq_true, Bool.not_eq_true', beq_iff_eq]
    constructor
    · rintro ⟨hlt, hkept, hzero⟩
      refine ⟨⟨hlt, hkept⟩, ?_⟩
      rw [hpending v ⟨hlt, hkept⟩]
      simpa [hkept] using hzero
    · rintro ⟨hv, hzero⟩
      rw [hpending v hv] at hzero
      exact ⟨hv.1, hv.2, by simpa [hv.2] using hzero⟩
  · exact (List.nodup_range).filter _

/-- **The canonical order**: a topological order of the kept vertices, and the one with the least
keys. -/
theorem orderOf_spec (retained : Option OpExclusionProof)
    (hdeclared : Declared descriptors leaves) (hedges : Dependencies descriptors edges) :
    OrderOf (Kept descriptors retained edges)
      (keptOf descriptors retained edges (activePreds descriptors retained edges))
      (orderOf descriptors retained edges) ∧
    ∀ other, OrderOf (Kept descriptors retained edges)
        (keptOf descriptors retained edges (activePreds descriptors retained edges)) other →
      (orderOf descriptors retained edges).map (keyOf descriptors) ≤
        other.map (keyOf descriptors) := by
  have hlinks := links_kept retained hdeclared hedges
  obtain ⟨counts, hfinish⟩ := leastDraining_initial.finish hlinks
    fun v w hv hw => keyOf_injective hdeclared.toRegistered hv.1 hw.1
  have horder := hfinish.bag.orderOf hlinks (fun v hv => hv.1) fun v hv =>
    kept_acyclic hdeclared hedges hv
  exact ⟨horder, fun other hother => hfinish.le horder hother⟩

/-! ## The ops of the graph -/

/-- Edges between earlier ops and later ones, at both ends, ascending. -/
structure Topology (graph : CompiledGraph) : Prop where
  preds_ascending : ∀ i, Ascending (graph.preds i)
  succs_ascending : ∀ i, Ascending (graph.succs i)
  mem_succs_iff : ∀ u v, v ∈ graph.succs u ↔ u ∈ graph.preds v
  preds_lt : ∀ v, ∀ u ∈ graph.preds v, u < v

/-- What the compiler hands out. -/
structure Compiled (graph : CompiledGraph) : Prop extends Topology graph where
  readers_iff : ∀ value i, i ∈ graph.readers value ↔ value ∈ graph.reads i
  volatile_lt : ∀ i ∈ graph.volatileOps, i < graph.ops.length
  /-- An op that reads what another one writes comes after it. -/
  produced : ∀ i j, ∀ value ∈ graph.reads i, value ∈ graph.writes j → j ∈ graph.preds i
  /-- Every value has one writer. -/
  single : ∀ i j value, value ∈ graph.writes i → value ∈ graph.writes j → i = j

theorem lt_of_mem_preds {graph : CompiledGraph} (h : u ∈ graph.preds v) : v < graph.ops.length := by
  unfold CompiledGraph.preds at h
  split at h
  · rename_i hop
    exact (List.getElem?_eq_some_iff.mp hop).1
  · cases h

section

variable {order : List Nat} {i j : Nat} {reports : List CycleReport}

/-- The graph before its clusters are lowered. -/
def emitted (descriptors : List OpDescriptor) (retained : Option OpExclusionProof)
    (edges : Nat → List Nat) (reports : List CycleReport) (order : List Nat) : CompiledGraph :=
  emitGraph descriptors (excludedOps descriptors retained edges)
    (activePreds descriptors retained edges) (activeSuccs descriptors retained edges) reports order

theorem getElem?_idxOf_iff {A : Type} [BEq A] [LawfulBEq A] {order : List A} {u : A} {i : Nat}
    (hnodup : order.Nodup) (hu : u ∈ order) : order[i]? = some u ↔ order.idxOf u = i := by
  constructor
  · intro h
    obtain ⟨hlt, rfl⟩ := List.getElem?_eq_some_iff.mp h
    exact List.Nodup.idxOf_getElem hnodup i hlt
  · rintro rfl
    rw [List.getElem?_eq_getElem (List.idxOf_lt_length_of_mem hu), List.getElem_idxOf]

theorem emitted_ops (i : Nat) :
    (emitted descriptors retained edges reports order).ops[i]? =
      order[i]?.map (emitOp descriptors (excludedOps descriptors retained edges)
        (activePreds descriptors retained edges) (activeSuccs descriptors retained edges) order) := by
  simp [emitted, emitGraph]

theorem emitted_length :
    (emitted descriptors retained edges reports order).ops.length = order.length := by
  simp [emitted, emitGraph]

theorem mem_canonical {next : Nat → List Nat} (hnodup : order.Nodup)
    (hall : ∀ u ∈ keptOf descriptors retained edges next v, u ∈ order) :
    j ∈ sortUnique ((keptOf descriptors retained edges next v).map order.idxOf) ↔
      ∃ u, order[j]? = some u ∧ u ∈ keptOf descriptors retained edges next v := by
  rw [Lib.mem_sortUnique, List.mem_map]
  constructor
  · rintro ⟨u, hu, hj⟩
    exact ⟨u, (getElem?_idxOf_iff hnodup (hall u hu)).mpr hj, hu⟩
  · rintro ⟨u, hj, hu⟩
    exact ⟨u, hu, (getElem?_idxOf_iff hnodup (hall u hu)).mp hj⟩

theorem emitted_preds (i : Nat) :
    (emitted descriptors retained edges reports order).preds i =
      (order[i]?.map fun v => sortUnique ((keptOf descriptors retained edges
        (activePreds descriptors retained edges) v).map order.idxOf)).getD [] := by
  rw [CompiledGraph.preds, emitted_ops]
  cases order[i]? <;> rfl

theorem emitted_succs (i : Nat) :
    (emitted descriptors retained edges reports order).succs i =
      (order[i]?.map fun v => sortUnique ((keptOf descriptors retained edges
        (activeSuccs descriptors retained edges) v).map order.idxOf)).getD [] := by
  rw [CompiledGraph.succs, emitted_ops]
  cases order[i]? <;> rfl

theorem mem_emitted_reads {value : ValueId} :
    value ∈ (emitted descriptors retained edges reports order).reads i ↔
      ∃ v d, order[i]? = some v ∧ descriptors[v]? = some d ∧ value ∈ d.reads := by
  rw [CompiledGraph.reads, emitted_ops]
  cases order[i]? with
  | none => simp
  | some v =>
      simp only [Option.map_some, emitOp, Option.some.injEq, exists_and_left, exists_eq_left']
      cases descriptors[v]? <;> simp

theorem mem_emitted_writes {value : ValueId} :
    value ∈ (emitted descriptors retained edges reports order).writes i ↔
      ∃ v d, order[i]? = some v ∧ descriptors[v]? = some d ∧ value ∈ d.writes := by
  rw [CompiledGraph.writes, emitted_ops]
  cases order[i]? with
  | none => simp
  | some v =>
      simp only [Option.map_some, emitOp, Option.some.injEq, exists_and_left, exists_eq_left']
      cases descriptors[v]? <;> simp

section

variable (hdeclared : Declared descriptors leaves) (hedges : Dependencies descriptors edges)
  (horder : OrderOf (Kept descriptors retained edges)
    (keptOf descriptors retained edges (activePreds descriptors retained edges)) order)

include hdeclared hedges horder

theorem mem_emitted_preds : j ∈ (emitted descriptors retained edges reports order).preds i ↔
    ∃ u v, order[j]? = some u ∧ order[i]? = some v ∧ Depends descriptors v u := by
  rw [emitted_preds]
  cases hi : order[i]? with
  | none => simp
  | some v =>
      have hv := (horder.mem_iff v).mp (List.mem_of_getElem? hi)
      rw [Option.map_some, Option.getD_some, mem_canonical horder.nodup fun u hu =>
        (horder.mem_iff u).mpr ((mem_keptPreds hdeclared hedges hv).mp hu).1]
      simp only [mem_keptPreds hdeclared hedges hv, Option.some.injEq, exists_and_left,
        exists_eq_left']
      refine exists_congr fun u => and_congr_right fun hj => and_iff_right_of_imp fun _ => ?_
      exact (horder.mem_iff u).mp (List.mem_of_getElem? hj)

theorem mem_emitted_succs : j ∈ (emitted descriptors retained edges reports order).succs i ↔
    i ∈ (emitted descriptors retained edges reports order).preds j := by
  have hlinks := links_kept retained hdeclared hedges
  rw [mem_emitted_preds hdeclared hedges horder, emitted_succs]
  cases hi : order[i]? with
  | none => simp
  | some u =>
      have hu := (horder.mem_iff u).mp (List.mem_of_getElem? hi)
      rw [Option.map_some, Option.getD_some, mem_canonical horder.nodup fun v hv =>
        (horder.mem_iff v).mpr (hlinks.mem_succs u hu v hv).1]
      simp only [Option.some.injEq, exists_and_left, exists_eq_left']
      refine exists_congr fun v => and_congr_right fun hj => ?_
      have hv := (horder.mem_iff v).mp (List.mem_of_getElem? hj)
      constructor
      · exact fun hin => ((mem_keptPreds hdeclared hedges hv).mp (hlinks.mem_succs u hu v hin).2).2
      · exact fun hdep =>
          (hlinks.mem_preds v hv u ((mem_keptPreds hdeclared hedges hv).mpr ⟨hu, hdep⟩)).2

theorem emitted_preds_lt (hj : j ∈ (emitted descriptors retained edges reports order).preds i) :
    j < i := by
  obtain ⟨u, v, hu, hv, hdep⟩ := (mem_emitted_preds hdeclared hedges horder).mp hj
  have hkept := (horder.mem_iff v).mp (List.mem_of_getElem? hv)
  have hukept := (horder.mem_iff u).mp (List.mem_of_getElem? hu)
  have hlt := (horder.topological.idxOf_lt (List.mem_of_getElem? hv)
    ((mem_keptPreds hdeclared hedges hkept).mpr ⟨hukept, hdep⟩)).2
  rwa [(getElem?_idxOf_iff horder.nodup (List.mem_of_getElem? hu)).mp hu,
    (getElem?_idxOf_iff horder.nodup (List.mem_of_getElem? hv)).mp hv] at hlt

/-- **The graph that is handed out.** -/
theorem compiled_emitted : Compiled (emitted descriptors retained edges reports order) := by
  refine {
    preds_ascending := fun i => ?_
    succs_ascending := fun i => ?_
    mem_succs_iff := fun u v => mem_emitted_succs hdeclared hedges horder
    preds_lt := fun v u hu => emitted_preds_lt hdeclared hedges horder hu
    readers_iff := fun value i => ?_
    volatile_lt := fun i hi => List.mem_range.mp (List.mem_filter.mp hi).1
    produced := fun i j value hread hwrite => ?_
    single := fun i j value hi hj => ?_ }
  · rw [emitted_preds]
    cases order[i]? with
    | none => exact List.Pairwise.nil
    | some v => exact Lib.ascending_sortUnique _
  · rw [emitted_succs]
    cases order[i]? with
    | none => exact List.Pairwise.nil
    | some v => exact Lib.ascending_sortUnique _
  · change i ∈ readersOf (emitted descriptors retained edges reports order).ops value ↔ _
    rw [readersOf, List.mem_filter, List.mem_range, CompiledGraph.reads]
    cases hop : (emitted descriptors retained edges reports order).ops[i]? with
    | none => simp
    | some op => simp [(List.getElem?_eq_some_iff.mp hop).1]
  · obtain ⟨v, d, hi, hv, hread⟩ := mem_emitted_reads.mp hread
    obtain ⟨u, w, hj, hu, hwrite⟩ := mem_emitted_writes.mp hwrite
    exact (mem_emitted_preds hdeclared hedges horder).mpr
      ⟨u, v, hj, hi, d, hv, .inr ⟨value, hread, w, hu, hwrite⟩⟩
  · obtain ⟨v, d, hi, hv, hd⟩ := mem_emitted_writes.mp hi
    obtain ⟨u, w, hj, hu, hw⟩ := mem_emitted_writes.mp hj
    have he := hdeclared.writer_unique hv hu hd hw
    subst he
    have hplace := fun (k : Nat) => @getElem?_idxOf_iff _ _ _ order v k horder.nodup
      (List.mem_of_getElem? hi)
    exact ((hplace i).mp hi).symm.trans ((hplace j).mp hj)

end

end

/-! ## The same ops under other numbers -/

/-- An op with another original index. -/
def CompiledOp.renumber (place : Nat → Nat) (op : CompiledOp) : CompiledOp :=
  { op with originalIndex := place op.originalIndex }

section

variable {descriptors' : List OpDescriptor} {leaves' : List ValueId}
  {retained' : Option OpExclusionProof} {edges' : Nat → List Nat} {order : List Nat}
  {place : Nat → Nat}

/-- **An order carried over to another list gives the same ops** up to the original index, where the
vertices have the same descriptors and depend on each other alike. -/
theorem emitted_ops_placed (hdeclared : Declared descriptors leaves)
    (hedges : Dependencies descriptors edges)
    (horder : OrderOf (Kept descriptors retained edges)
      (keptOf descriptors retained edges (activePreds descriptors retained edges)) order)
    (hdeclared' : Declared descriptors' leaves') (hedges' : Dependencies descriptors' edges')
    (horder' : OrderOf (Kept descriptors' retained' edges')
      (keptOf descriptors' retained' edges' (activePreds descriptors' retained' edges'))
      (order.map place))
    (hdepends : ∀ u ∈ order, ∀ v ∈ order,
      Depends descriptors' (place v) (place u) ↔ Depends descriptors v u)
    (hdescriptor : ∀ v ∈ order,
      descriptors'[place v]?.map (fun d => { d with predecessors := [] }) =
        descriptors[v]?.map fun d => { d with predecessors := [] })
    (reports reports' : List CycleReport) :
    (emitted descriptors' retained' edges' reports' (order.map place)).ops =
      (emitted descriptors retained edges reports order).ops.map (CompiledOp.renumber place) := by
  have hcompiled := @compiled_emitted _ _ _ _ _ reports hdeclared hedges horder
  have hcompiled' := @compiled_emitted _ _ _ _ _ reports' hdeclared' hedges' horder'
  have hpreds : ∀ i, (emitted descriptors' retained' edges' reports' (order.map place)).preds i =
      (emitted descriptors retained edges reports order).preds i := by
    intro i
    refine (hcompiled'.preds_ascending i).eq_of_mem_iff (hcompiled.preds_ascending i) ?_
    intro j
    rw [mem_emitted_preds hdeclared' hedges' horder', mem_emitted_preds hdeclared hedges horder]
    simp only [List.getElem?_map, Option.map_eq_some_iff]
    constructor
    · rintro ⟨_, _, ⟨u, hu, rfl⟩, ⟨v, hv, rfl⟩, hdep⟩
      exact ⟨u, v, hu, hv,
        (hdepends u (List.mem_of_getElem? hu) v (List.mem_of_getElem? hv)).mp hdep⟩
    · rintro ⟨u, v, hu, hv, hdep⟩
      exact ⟨place u, place v, ⟨u, hu, rfl⟩, ⟨v, hv, rfl⟩,
        (hdepends u (List.mem_of_getElem? hu) v (List.mem_of_getElem? hv)).mpr hdep⟩
  have hsuccs : ∀ i, (emitted descriptors' retained' edges' reports' (order.map place)).succs i =
      (emitted descriptors retained edges reports order).succs i := by
    intro i
    refine (hcompiled'.succs_ascending i).eq_of_mem_iff (hcompiled.succs_ascending i) ?_
    intro j
    rw [hcompiled'.mem_succs_iff, hcompiled.mem_succs_iff, hpreds]
  refine List.ext_getElem? ?_
  intro k
  have hp := hpreds k
  have hs := hsuccs k
  simp only [CompiledGraph.preds, CompiledGraph.succs, emitted_ops, List.getElem?_map] at hp hs ⊢
  cases hv : order[k]? with
  | none => rfl
  | some v =>
      have hsame := hdescriptor v (List.mem_of_getElem? hv)
      rw [hv] at hp hs
      simp only [Option.map_some] at hp hs ⊢
      refine congrArg some (CompiledOp.ext ?_ rfl hp hs)
      simp only [emitOp, CompiledOp.renumber]
      cases hd : descriptors[v]? <;> cases hd' : descriptors'[place v]? <;>
        simp_all

end

end RigExec.OpGraph
