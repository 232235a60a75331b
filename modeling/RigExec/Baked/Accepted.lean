/-
# `RigExec.Baked.Accepted` — what an accepted program satisfies

The violations of each check, read as a statement about the program:

    StepEdges        preds point backward, succs forward, and they are inverse
    Produced         a slot's first writer is an earlier step, joined by an edge
    Clustered        the cluster lists are inverse, cover every step edge and have no cycle

The stored cluster order is only a witness that there is no cycle: every cluster stands in
it once, its predecessors before it.
-/
import RigExec.Baked.Validator

namespace RigExec.Baked

open Lib (Ascending)
open StepGraph (Cluster ClusterLists EdgesOk clusterPreds clusterSuccs)

/-- Every list of edges is ascending, points to its side and is named back. -/
structure StepEdges (B : Program) : Prop where
  ascending : ∀ index < B.steps.length,
    Ascending (B.stepAt index).preds ∧ Ascending (B.stepAt index).succs
  preds : ∀ index < B.steps.length, ∀ pred ∈ (B.stepAt index).preds,
    0 ≤ pred ∧ pred < index ∧ (index : Int) ∈ (B.stepAt pred.toNat).succs
  succs : ∀ index < B.steps.length, ∀ succ ∈ (B.stepAt index).succs,
    (index : Int) < succ ∧ succ < B.steps.length ∧ (index : Int) ∈ (B.stepAt succ.toNat).preds

/-- Every read slot that some step writes has its first writer before the reader, with an edge. -/
def Produced (B : Program) : Prop :=
  ∀ index < B.steps.length, ∀ (domain : SlotDomain) (slot : Nat), domain.isSource = false →
    covers (B.stepAt index).reads domain slot = true →
    ∀ writer, firstWriter B domain slot = some writer →
      writer < index ∧ (writer : Int) ∈ (B.stepAt index).preds

structure Clustered (B : Program) : Prop where
  lists : ClusterLists B.clusters
  placed : ∀ index < B.steps.length,
    0 ≤ (B.stepAt index).cluster ∧ (B.stepAt index).cluster < B.clusters.length
  covered : ∀ index < B.steps.length, ∀ pred ∈ (B.stepAt index).preds, 0 ≤ pred →
    pred < B.steps.length → (B.stepAt pred.toNat).cluster ≠ (B.stepAt index).cluster →
      (B.stepAt pred.toNat).cluster ∈ clusterPreds B.clusters (B.stepAt index).cluster.toNat
  acyclic : ∀ c < B.clusters.length,
    ¬ Relation.TransGen (StepGraph.ClusterEdge B.clusters) c c

variable {B : Program}

/-! ## Step edges -/

theorem predViolations_eq_nil {index : Nat} :
    predViolations B index = [] ↔ ∀ pred ∈ (B.stepAt index).preds,
      0 ≤ pred ∧ pred < index ∧ (index : Int) ∈ (B.stepAt pred.toNat).succs := by
  simp only [predViolations, List.flatMap_eq_nil_iff, ite_eq_iff, List.cons_ne_nil, and_false,
    false_or, lineIf_eq_nil, not_not, not_or, Int.not_lt, ge_iff_le, Int.not_le, and_assoc]

theorem succViolations_eq_nil {index : Nat} :
    succViolations B index = [] ↔ ∀ succ ∈ (B.stepAt index).succs, (index : Int) < succ ∧
      succ < B.steps.length ∧ (index : Int) ∈ (B.stepAt succ.toNat).preds := by
  simp only [succViolations, List.flatMap_eq_nil_iff, ite_eq_iff, List.cons_ne_nil, and_false,
    false_or, lineIf_eq_nil, not_not, not_or, ge_iff_le, Int.not_le, and_assoc]

/-- **`ValidateStepEdges`.** -/
theorem stepEdges_of_accepted (h : validateStepEdges B = []) : StepEdges B := by
  have hstep : ∀ index < B.steps.length,
      (Ascending (B.stepAt index).preds ∧ Ascending (B.stepAt index).succs) ∧
        predViolations B index = [] ∧ succViolations B index = [] := by
    intro index hindex
    have hline := List.flatMap_eq_nil_iff.mp h index (List.mem_range.mpr hindex)
    simp only [ite_eq_iff, List.cons_ne_nil, and_false, false_or, not_or, not_not,
      List.append_eq_nil_iff] at hline
    exact hline
  refine ⟨fun index hindex => (hstep index hindex).1, ?_, ?_⟩
  · intro index hindex
    exact predViolations_eq_nil.mp (hstep index hindex).2.1
  · intro index hindex
    exact succViolations_eq_nil.mp (hstep index hindex).2.2

/-! ## Slot producers -/

theorem unproducedLine_eq_nil {index : Nat} {read : SlotRange} {bad : List Nat} :
    unproducedLine B index read bad = [] ↔ bad = [] := by
  cases bad <;> simp [unproducedLine]

theorem slot_of_accepted (h : validateSlotProducers B = []) {index : Nat}
    (hindex : index < B.steps.length) {domain : SlotDomain} {slot : Nat}
    (hsource : domain.isSource = false)
    (hcovers : covers (B.stepAt index).reads domain slot = true) :
    isUnproduced B index domain slot = false ∧ edgeViolations B index domain slot = [] := by
  obtain ⟨hranges, hreads⟩ := List.append_eq_nil_iff.mp h
  obtain ⟨read, hread, rfl, hslot⟩ := covers_iff.mp hcovers
  have hretired : read.domain ≠ .snapshots := by
    have hboth := List.flatMap_eq_nil_iff.mp hranges index (List.mem_range.mpr hindex)
    have hline := List.flatMap_eq_nil_iff.mp (List.append_eq_nil_iff.mp hboth).1 read hread
    exact lineIf_eq_nil.mp (List.append_eq_nil_iff.mp hline).2
  have hline := List.flatMap_eq_nil_iff.mp
    (List.flatMap_eq_nil_iff.mp hreads index (List.mem_range.mpr hindex)) read hread
  rw [readViolations, if_neg (by simp [hsource, hretired]), List.append_eq_nil_iff,
    unproducedLine_eq_nil, List.filter_eq_nil_iff, List.flatMap_eq_nil_iff] at hline
  exact ⟨eq_false_of_ne_true (hline.2 slot hslot), hline.1 slot hslot⟩

/-- **`ValidateSlotProducers`.** -/
theorem produced_of_accepted (h : validateSlotProducers B = []) : Produced B := by
  intro index hindex domain slot hsource hcovers writer hwriter
  obtain ⟨hproduced, hedge⟩ := slot_of_accepted h hindex hsource hcovers
  have hbefore : writer < index := by
    simpa [isUnproduced, hwriter] using hproduced
  simp only [edgeViolations, hwriter, lineIf_eq_nil, not_and, not_not] at hedge
  exact ⟨hbefore, hedge hbefore⟩

/-! ## Clusters -/

theorem misplaced_eq_none : misplaced B = none ↔ ∀ index < B.steps.length,
    0 ≤ clusterOf B index ∧ clusterOf B index < B.clusters.length ∧
      (B.stepAt index).cluster = clusterOf B index := by
  simp only [misplaced, List.findSome?_eq_none_iff, List.mem_range, ite_eq_right_iff, reduceCtorEq,
    imp_false, not_or, Int.not_lt, ge_iff_le, Int.not_le, not_not, ne_eq]

theorem clusterEdgeViolations_eq_nil {c : Nat} :
    clusterEdgeViolations B c = [] ↔
      (Ascending (clusterPreds B.clusters c) ∧ Ascending (clusterSuccs B.clusters c)) ∧
      (∀ pred ∈ clusterPreds B.clusters c, 0 ≤ pred ∧ pred < B.clusters.length ∧ pred ≠ c ∧
        (c : Int) ∈ clusterSuccs B.clusters pred.toNat) ∧
      ∀ succ ∈ clusterSuccs B.clusters c, 0 ≤ succ ∧ succ < B.clusters.length ∧ succ ≠ c ∧
        (c : Int) ∈ clusterPreds B.clusters succ.toNat := by
  simp only [clusterEdgeViolations, ite_eq_iff, List.cons_ne_nil, and_false, false_or, not_or,
    not_not, List.append_eq_nil_iff, List.flatMap_eq_nil_iff, lineIf_eq_nil, Int.not_lt, ge_iff_le,
    Int.not_le, ne_eq]

theorem clusterLists_of_accepted
    (h : ∀ c < B.clusters.length, clusterEdgeViolations B c = []) : ClusterLists B.clusters where
  preds := by
    intro c hc
    obtain ⟨hascending, hpreds, -⟩ := clusterEdgeViolations_eq_nil.mp (h c hc)
    refine ⟨hascending.1, ?_⟩
    intro pred hpred
    obtain ⟨hge, hlt, hne, -⟩ := hpreds pred hpred
    exact ⟨hge, hlt, hne, trivial⟩
  succs := by
    intro c hc
    obtain ⟨hascending, -, hsuccs⟩ := clusterEdgeViolations_eq_nil.mp (h c hc)
    refine ⟨hascending.2, ?_⟩
    intro succ hsucc
    obtain ⟨hge, hlt, hne, -⟩ := hsuccs succ hsucc
    exact ⟨hge, hlt, hne, trivial⟩
  inverse := by
    intro a ha b hb
    obtain ⟨-, hpreds, -⟩ := clusterEdgeViolations_eq_nil.mp (h b hb)
    obtain ⟨-, -, hsuccs⟩ := clusterEdgeViolations_eq_nil.mp (h a ha)
    constructor
    · intro hmem
      simpa using (hpreds a hmem).2.2.2
    · intro hmem
      simpa using (hsuccs b hmem).2.2.2

theorem misnamed_eq_none (h : misnamed B = none) :
    B.clustering.topologicalOrder.Nodup ∧
      ∀ c ∈ B.clustering.topologicalOrder, 0 ≤ c ∧ c < B.clusters.length := by
  have hentry : ∀ (k : Nat) (c : Int), B.clustering.topologicalOrder[k]? = some c →
      0 ≤ c ∧ c < B.clusters.length ∧ c ∉ B.clustering.topologicalOrder.take k := by
    intro k c hk
    have hline := List.findSome?_eq_none_iff.mp h (c, k) (List.mem_zipIdx_iff_getElem?.mpr hk)
    simpa only [ite_eq_right_iff, reduceCtorEq, imp_false, not_or, Int.not_lt, ge_iff_le,
      Int.not_le] using hline
  refine ⟨?_, ?_⟩
  · rw [List.nodup_iff_getElem?_ne_getElem?]
    intro i j hij hj heq
    have hc := List.getElem?_eq_getElem hj
    refine (hentry j _ hc).2.2 (List.mem_of_getElem? (i := i) ?_)
    rw [List.getElem?_take_of_lt hij, heq, hc]
  · intro c hc
    obtain ⟨k, hk⟩ := List.getElem?_of_mem hc
    exact ⟨(hentry k c hk).1, (hentry k c hk).2.1⟩

theorem orderViolations_eq_nil (h : orderViolations B = []) : misnamed B = none ∧
    B.clustering.topologicalOrder.length = B.clusters.length ∧
      ∀ c < B.clusters.length, ∀ pred ∈ clusterPreds B.clusters c, 0 ≤ pred →
        pred < B.clusters.length → position B pred ≤ position B c := by
  unfold orderViolations at h
  split at h
  · cases h
  · rename_i hnamed
    split at h
    · cases h
    · rename_i hlength
      refine ⟨hnamed, not_not.mp hlength, ?_⟩
      intro c hc pred hpred hge hlt
      have hline := List.flatMap_eq_nil_iff.mp
        (List.flatMap_eq_nil_iff.mp h c (List.mem_range.mpr hc)) pred hpred
      exact Nat.le_of_not_lt fun hgt => lineIf_eq_nil.mp hline ⟨hge, hlt, hgt⟩

/-- **The stored order shows that there is no cycle.** -/
theorem acyclic_of_order (hlists : ClusterLists B.clusters) (h : orderViolations B = [])
    (c : Nat) : ¬ Relation.TransGen (StepGraph.ClusterEdge B.clusters) c c := by
  obtain ⟨hnamed, hlength, hbefore⟩ := orderViolations_eq_nil h
  obtain ⟨hnodup, hrange⟩ := misnamed_eq_none hnamed
  have hall : ∀ d < B.clusters.length, (d : Int) ∈ B.clustering.topologicalOrder := by
    have hsubset : B.clustering.topologicalOrder ⊆
        (List.range B.clusters.length).map Int.ofNat := by
      intro d hd
      obtain ⟨hge, hlt⟩ := hrange d hd
      exact List.mem_map.mpr ⟨d.toNat, List.mem_range.mpr (by omega), Int.toNat_of_nonneg hge⟩
    have hperm := (List.subperm_of_subset hnodup hsubset).perm_of_length_le (by simp [hlength])
    intro d hd
    exact hperm.mem_iff.mpr (List.mem_map_of_mem (List.mem_range.mpr hd))
  have hedge : ∀ d e, StepGraph.ClusterEdge B.clusters d e → position B d < position B e := by
    intro d e hde
    obtain ⟨hd, he⟩ := hlists.edge_lt hde
    obtain ⟨-, hlt, hne, -⟩ := (hlists.preds e he).2 d hde
    refine lt_of_le_of_ne (hbefore e he d hde (Int.natCast_nonneg d) hlt) ?_
    intro heq
    exact hne ((List.idxOf_inj (hall d hd)).mp heq)
  intro hcycle
  have hlt : ∀ e, Relation.TransGen (StepGraph.ClusterEdge B.clusters) c e →
      position B c < position B e := by
    intro e hpath
    induction hpath with
    | single hstep => exact hedge c _ hstep
    | tail _ hstep ih => exact ih.trans (hedge _ _ hstep)
  exact Nat.lt_irrefl _ (hlt c hcycle)

/-- **`ValidateClusters`.** -/
theorem clustered_of_accepted (h : validateClusters B = []) : Clustered B := by
  unfold validateClusters at h
  split at h
  · cases h
  · split at h
    · cases h
    · rename_i hnone
      have hplaced := misplaced_eq_none.mp hnone
      simp only [List.append_eq_nil_iff, List.flatMap_eq_nil_iff, List.mem_range] at h
      obtain ⟨⟨⟨hlines, -⟩, hcover⟩, horder⟩ := h
      have hlists := clusterLists_of_accepted fun c hc => (hlines c hc).2
      refine ⟨hlists, ?_, ?_, fun c _ => acyclic_of_order hlists horder c⟩
      · intro index hindex
        obtain ⟨hge, hlt, heq⟩ := hplaced index hindex
        exact heq ▸ ⟨hge, hlt⟩
      · intro index hindex pred hpred hge hlt hne
        have hpredlt : pred.toNat < B.steps.length := by omega
        rw [(hplaced index hindex).2.2, (hplaced pred.toNat hpredlt).2.2] at hne ⊢
        have hline := List.flatMap_eq_nil_iff.mp (hcover index hindex) pred hpred
        by_contra hmem
        exact lineIf_eq_nil.mp hline ⟨hge, hlt, hne, hmem⟩

/-! ## Acceptance -/

/-- The parts of acceptance the closures rest on. -/
structure Accepted (B : Program) : Prop where
  edges : StepEdges B
  produced : Produced B
  clustered : Clustered B

/-- **What `RigExecBakedValidateStepGraph` accepts**, whatever the other checks ask. -/
theorem accepted_of_validate {others : OtherChecks} (h : validateStepGraph others B = .ok ()) :
    Accepted B := by
  have hnil : violations others B = [] := by
    unfold validateStepGraph at h
    split at h
    · assumption
    · cases h
  simp only [violations, List.append_eq_nil_iff] at hnil
  obtain ⟨⟨⟨⟨⟨⟨⟨⟨hedges, -⟩, hproducers⟩, -⟩, -⟩, -⟩, -⟩, -⟩, hclusters⟩ := hnil
  exact ⟨stepEdges_of_accepted hedges, produced_of_accepted hproducers,
    clustered_of_accepted hclusters⟩

end RigExec.Baked
