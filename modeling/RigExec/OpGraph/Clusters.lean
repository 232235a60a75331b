/-
# `RigExec.OpGraph.Clusters` — the clusters of a graph

The compiler lowers with a grain of zero, so every op is a cluster of its own
(`lowerOpClusters_zero`).  `Clustering` is what any lowering has to give the executor:
the clusters split the ops into chains, no edge leads from a later cluster to an
earlier one, and the cluster edges are the op edges between different clusters.
-/
import Mathlib.Data.List.Chain
import RigExec.OpGraph.Compiled

namespace RigExec.OpGraph

open Lib (sortUnique Ascending)

/-! ## The compiler's own clusters -/

section

variable {C : Type} [OpCost C] {graph : CompiledGraph} {cost : Nat → C} {grain : C}

theorem growCluster_zero (hgrain : OpCost.isZero grain = true) (cluster room current : Nat)
    (total : C) (members membership : List Nat) :
    growCluster graph cost grain cluster room current total members membership =
      .ok (members ++ [current], membership.set current cluster) := by
  cases room with
  | zero => rfl
  | succ room => simp [growCluster, hgrain]

theorem growClusters_zero (hgrain : OpCost.isZero grain = true) (count done : Nat) :
    growClusters graph cost grain (List.range' done count) ((List.range done).map fun i => [i])
        (List.range done ++ List.replicate count unassigned) =
      .ok ((List.range (done + count)).map fun i => [i], List.range (done + count)) := by
  induction count generalizing done with
  | zero => simp [growClusters]
  | succ count ih =>
      have hget : (List.range done ++ List.replicate (count + 1) unassigned)[done]? =
          some unassigned := by
        rw [List.getElem?_append_right (by simp)]
        simp
      have hset : (List.range done ++ List.replicate (count + 1) unassigned).set done done =
          List.range (done + 1) ++ List.replicate count unassigned := by
        rw [List.set_append_right _ _ (by simp), List.range_succ]
        simp [List.replicate_succ]
      have hmap : ((List.range done).map fun i => [i]) ++ [[done]] =
          (List.range (done + 1)).map fun i => [i] := by
        rw [List.range_succ, List.map_append]
        rfl
      rw [List.range'_succ, growClusters, if_neg (not_not.mpr hget), growCluster_zero hgrain]
      simp only [List.length_map, List.length_range, List.nil_append, hset]
      rw [hmap, ih (done + 1), Nat.add_assoc, Nat.add_comm 1 count]

end

section

variable {graph : CompiledGraph} {membership : List Nat} {u v a b c : Nat}

theorem mem_clusterEdges : (a, b) ∈ clusterEdges graph membership ↔
    a ≠ b ∧ ∃ u v, u ∈ graph.preds v ∧ membership[u]? = some a ∧ membership[v]? = some b := by
  simp only [clusterEdges, List.mem_flatMap, List.mem_range, List.mem_filterMap]
  constructor
  · rintro ⟨v, -, u, hu, hedge⟩
    split at hedge
    · rename_i before after hbefore hafter
      split at hedge
      · rename_i hne
        cases hedge
        exact ⟨hne, u, v, hu, hbefore, hafter⟩
      · cases hedge
    · cases hedge
  · rintro ⟨hne, u, v, hu, hbefore, hafter⟩
    refine ⟨v, lt_of_mem_preds hu, u, hu, ?_⟩
    simp only [hbefore, hafter, if_pos hne]

theorem mem_clusterPreds : a ∈ clusterPreds (clusterEdges graph membership) c ↔
    a ≠ c ∧ ∃ u v, u ∈ graph.preds v ∧ membership[u]? = some a ∧ membership[v]? = some c := by
  rw [clusterPreds, Lib.mem_sortUnique, ← mem_clusterEdges]
  simp

theorem mem_clusterSuccs : b ∈ clusterSuccs (clusterEdges graph membership) c ↔
    c ≠ b ∧ ∃ u v, u ∈ graph.preds v ∧ membership[u]? = some c ∧ membership[v]? = some b := by
  rw [clusterSuccs, Lib.mem_sortUnique, ← mem_clusterEdges]
  simp

/-- A graph with one cluster for every op. -/
def singly (graph : CompiledGraph) : CompiledGraph :=
  { graph with
    clusters := (List.range graph.ops.length).map fun i =>
      { members := [i]
        predecessors := graph.preds i
        successors := graph.succs i }
    opClusters := List.range graph.ops.length }

theorem getElem?_range_eq_some {n i c : Nat} : (List.range n)[i]? = some c ↔ i < n ∧ i = c := by
  rw [List.getElem?_eq_some_iff]
  simp

theorem clusterPreds_range (h : Topology graph) (hc : c < graph.ops.length) :
    clusterPreds (clusterEdges graph (List.range graph.ops.length)) c = graph.preds c := by
  refine (Lib.ascending_sortUnique _).eq_of_mem_iff (h.preds_ascending c) fun a => ?_
  refine mem_clusterPreds.trans ?_
  simp only [getElem?_range_eq_some]
  constructor
  · rintro ⟨-, u, v, hu, ⟨-, rfl⟩, ⟨-, rfl⟩⟩
    exact hu
  · intro ha
    have hlt := h.preds_lt c a ha
    exact ⟨Nat.ne_of_lt hlt, a, c, ha, ⟨Nat.lt_trans hlt hc, rfl⟩, hc, rfl⟩

theorem clusterSuccs_range (h : Topology graph) (hc : c < graph.ops.length) :
    clusterSuccs (clusterEdges graph (List.range graph.ops.length)) c = graph.succs c := by
  refine (Lib.ascending_sortUnique _).eq_of_mem_iff (h.succs_ascending c) fun b => ?_
  refine mem_clusterSuccs.trans ?_
  simp only [getElem?_range_eq_some, h.mem_succs_iff]
  constructor
  · rintro ⟨-, u, v, hu, ⟨-, rfl⟩, ⟨-, rfl⟩⟩
    exact hu
  · intro hb
    exact ⟨Nat.ne_of_lt (h.preds_lt b c hb), c, b, hb, ⟨hc, rfl⟩, lt_of_mem_preds hb, rfl⟩

/-- **The lowering with a grain of zero** gives every op a cluster of its own. -/
theorem lowerOpClusters_zero (h : Topology graph) (hcount : graph.ops.length ≤ uint32Max) :
    @lowerOpClusters Nat _ graph [] 0 = .ok (singly graph) := by
  have hgrow := @growClusters_zero Nat _ graph (fun _ => 1) 0 rfl graph.ops.length 0
  simp only [List.range_zero, List.map_nil, List.nil_append, Nat.zero_add] at hgrow
  have hforward : ((List.range graph.ops.length).any fun op => (graph.preds op).any (op ≤ ·)) =
      false := by
    refine Bool.eq_false_iff.mpr fun hany => ?_
    simp only [List.any_eq_true, decide_eq_true_eq] at hany
    obtain ⟨op, -, p, hp, hle⟩ := hany
    exact Nat.not_lt.mpr hle (h.preds_lt op p hp)
  have hcosts : ¬ (graph.ops.length > uint32Max ∨
      (([] : List Nat) ≠ [] ∧ ([] : List Nat).length ≠ graph.ops.length)) := by
    rintro (hlt | ⟨hne, -⟩)
    · exact Nat.not_lt.mpr hcount hlt
    · exact hne rfl
  rw [lowerOpClusters, if_neg (by simp [OpCost.isFinite, OpCost.less]), if_neg hcosts,
    if_neg (by simp)]
  simp only [if_pos, List.range_eq_range', hgrow]
  rw [← List.range_eq_range', hforward]
  simp only [Bool.false_eq_true, if_false, Except.ok.injEq, singly]
  congr 1
  refine List.ext_getElem? fun c => ?_
  rw [List.getElem?_mapIdx, List.getElem?_map, List.getElem?_map]
  by_cases hc : c < graph.ops.length
  · simp only [List.getElem?_range hc, Option.map_some, clusterPreds_range h hc,
      clusterSuccs_range h hc]
  · have hlength : (List.range graph.ops.length).length ≤ c := by
      simpa using Nat.not_lt.mp hc
    rw [List.getElem?_eq_none hlength]
    rfl

end

/-! ## What the executor relies on -/

/-- Clusters split the ops into chains, and their edges are the op edges between them. -/
structure Clustering (graph : CompiledGraph) : Prop where
  length_eq : graph.opClusters.length = graph.ops.length
  lt : ∀ (op c : Nat), graph.opClusters[op]? = some c → c < graph.clusters.length
  mem_iff : ∀ (c : Nat) (cluster : OpCluster), graph.clusters[c]? = some cluster →
    ∀ op, op ∈ cluster.members ↔ graph.opClusters[op]? = some c
  nonempty : ∀ cluster ∈ graph.clusters, cluster.members ≠ []
  limit : ∀ cluster ∈ graph.clusters, cluster.members.length ≤ clusterLimit
  ascending : ∀ cluster ∈ graph.clusters, Ascending cluster.members
  chain : ∀ cluster ∈ graph.clusters,
    cluster.members.IsChain fun before op => graph.succs before = [op] ∧ graph.preds op = [before]
  preds_eq : ∀ (c : Nat) (cluster : OpCluster), graph.clusters[c]? = some cluster →
    cluster.predecessors = clusterPreds (clusterEdges graph graph.opClusters) c
  succs_eq : ∀ (c : Nat) (cluster : OpCluster), graph.clusters[c]? = some cluster →
    cluster.successors = clusterSuccs (clusterEdges graph graph.opClusters) c
  forward : ∀ (u v a b : Nat), u ∈ graph.preds v → graph.opClusters[u]? = some a →
    graph.opClusters[v]? = some b → a ≤ b

section

variable {graph : CompiledGraph}

theorem Topology.singly (h : Topology graph) : Topology (singly graph) where
  preds_ascending := h.preds_ascending
  succs_ascending := h.succs_ascending
  mem_succs_iff := h.mem_succs_iff
  preds_lt := h.preds_lt

theorem Compiled.singly (h : Compiled graph) : Compiled (singly graph) where
  toTopology := h.toTopology.singly
  readers_iff := h.readers_iff
  volatile_lt := h.volatile_lt
  produced := h.produced
  single := h.single

/-! ## What the validator accepts -/

/-- Two members of one chain, one behind the other. -/
def Linked (graph : CompiledGraph) (before op : Nat) : Prop :=
  before < op ∧ graph.succs before = [op] ∧ graph.preds op = [before]

theorem checkMembers_ok {group : Nat} {before : Option Nat} {members seen seen' : List Nat} :
    checkMembers graph group before members seen = .ok seen' ↔
      (∀ op ∈ members, op < graph.ops.length ∧ graph.opClusters[op]? = some group ∧ op ∉ seen) ∧
      members.Nodup ∧ (before.toList ++ members).IsChain (Linked graph) ∧
      seen' = members.reverse ++ seen := by
  induction members generalizing before seen with
  | nil => cases before <;> simp [checkMembers, eq_comm]
  | cons op members ih =>
      have hlinked : (before.any fun b =>
          decide (b ≥ op) || graph.succs b != [op] || graph.preds op != [b]) = false ↔
          ∀ b ∈ before, Linked graph b op := by
        cases before <;> simp [Linked, and_assoc]
      have hchain : (before.toList ++ op :: members).IsChain (Linked graph) ↔
          (∀ b ∈ before, Linked graph b op) ∧ (op :: members).IsChain (Linked graph) := by
        cases before <;> simp [List.isChain_cons_cons]
      rw [checkMembers, hchain, ← hlinked]
      split
      · rename_i hbad
        refine iff_of_false (fun h => (nomatch h)) fun h => ?_
        obtain ⟨hlt, hgroup, hnew⟩ := h.1 op List.mem_cons_self
        rcases hbad with hbad | hbad | hbad
        · exact Nat.not_lt.mpr hbad hlt
        · exact hnew (List.contains_iff_mem.mp hbad)
        · exact hbad hgroup
      · rename_i hgood
        simp only [not_or, Nat.not_le, List.contains_iff_mem, ne_eq, not_not] at hgood
        split
        · rename_i hbad
          exact iff_of_false (fun h => (nomatch h)) fun h => by simp [hbad] at h
        · rename_i hgood'
          rw [ih]
          simp only [Option.toList_some, List.singleton_append, List.forall_mem_cons,
            List.nodup_cons, List.reverse_cons, List.append_assoc]
          constructor
          · rintro ⟨hall, hnodup, hrest, rfl⟩
            exact ⟨⟨⟨hgood.1, hgood.2.2, hgood.2.1⟩, fun x hx =>
              ⟨(hall x hx).1, (hall x hx).2.1, fun hin =>
                (hall x hx).2.2 (List.mem_cons_of_mem op hin)⟩⟩,
              ⟨fun hin => (hall op hin).2.2 List.mem_cons_self, hnodup⟩,
              ⟨Bool.eq_false_iff.mpr hgood', hrest⟩, rfl⟩
          · rintro ⟨⟨-, hall⟩, ⟨hnew, hnodup⟩, ⟨-, hrest⟩, rfl⟩
            refine ⟨fun x hx => ⟨(hall x hx).1, (hall x hx).2.1, fun hin => ?_⟩, hnodup, hrest, rfl⟩
            rcases List.mem_cons.mp hin with rfl | hin
            · exact hnew hx
            · exact (hall x hx).2.2 hin

/-- One cluster of a list, as the validator accepts it. -/
structure ClusterChecked (graph : CompiledGraph) (group : Nat) (cluster : OpCluster) : Prop where
  nonempty : cluster.members ≠ []
  limit : cluster.members.length ≤ clusterLimit
  mem : ∀ op ∈ cluster.members, op < graph.ops.length ∧ graph.opClusters[op]? = some group
  chain : cluster.members.IsChain (Linked graph)

theorem checkClusters_ok {group previousStart : Nat} {clusters : List OpCluster}
    {seen seen' : List Nat}
    (h : checkClusters graph group previousStart clusters seen = .ok seen') :
    (∀ k cluster, clusters[k]? = some cluster → ClusterChecked graph (group + k) cluster) ∧
      ∀ op, op ∈ seen' ↔ op ∈ seen ∨ ∃ cluster ∈ clusters, op ∈ cluster.members := by
  induction clusters generalizing group previousStart seen with
  | nil =>
      cases h
      simp
  | cons cluster clusters ih =>
      rw [checkClusters] at h
      split at h
      · cases h
      · rename_i first rest hmembers
        split at h
        · cases h
        · rename_i hlimit
          split at h
          · cases h
          · split at h
            · cases h
            · rename_i seen₁ hcheck
              obtain ⟨hall, hseen⟩ := ih h
              obtain ⟨hmem, -, hchain, rfl⟩ := checkMembers_ok.mp hcheck
              refine ⟨fun k other hk => ?_, fun op => ?_⟩
              · cases k with
                | zero =>
                    cases hk
                    exact ⟨by rw [hmembers]; simp, Nat.not_lt.mp hlimit,
                      fun op hop => ⟨(hmem op hop).1, (hmem op hop).2.1⟩, hchain⟩
                | succ k =>
                    have := hall k other hk
                    rwa [Nat.add_right_comm, Nat.add_assoc] at this
              · rw [hseen op]
                simp only [List.mem_append, List.mem_reverse, List.exists_mem_cons_iff]
                tauto

theorem checkPredecessors_ok {pairs : List (Nat × Nat)}
    (h : checkPredecessors graph pairs = .ok ()) :
    ∀ pair ∈ pairs, pair.1 < pair.2 ∧ ∀ a b, graph.opClusters[pair.1]? = some a →
      graph.opClusters[pair.2]? = some b → a ≤ b := by
  induction pairs with
  | nil => exact fun pair hpair => (nomatch hpair)
  | cons pair pairs ih =>
      obtain ⟨before, op⟩ := pair
      rw [checkPredecessors] at h
      split at h
      · cases h
      · rename_i hlt
        split at h
        · rename_i a b ha hb
          split at h
          · cases h
          · rename_i hle
            refine List.forall_mem_cons.mpr ⟨⟨Nat.not_le.mp hlt, fun a' b' ha' hb' => ?_⟩, ih h⟩
            cases ha.symm.trans ha'
            cases hb.symm.trans hb'
            by_contra hnot
            exact hle ⟨fun he => hnot (Nat.le_of_eq he), Nat.le_of_lt (Nat.not_le.mp hnot)⟩
        · rename_i hnone
          exact List.forall_mem_cons.mpr
            ⟨⟨Nat.not_le.mp hlt, fun a b ha hb => absurd hb (hnone a b ha)⟩, ih h⟩

/-- **An accepted clustering.** -/
theorem clustering_of_valid (h : validateOpClusters graph = .ok ()) : Clustering graph := by
  unfold validateOpClusters at h
  dsimp only at h
  split at h
  · cases h
  · rename_i hlength
    split at h
    · cases h
    · rename_i seen hclusters
      split at h
      · cases h
      · rename_i hseen
        split at h
        · cases h
        · rename_i hpreds
          split at h
          · cases h
          · rename_i hedges
            obtain ⟨hchecked, hmem⟩ := checkClusters_ok hclusters
            simp only [Nat.zero_add, List.not_mem_nil, false_or] at hchecked hmem
            have hlength : graph.opClusters.length = graph.ops.length := by
              by_contra hne
              exact hlength (.inl hne)
            -- every op is seen, so it is in the cluster it names
            have hhome : ∀ (op c : Nat), graph.opClusters[op]? = some c →
                ∃ cluster : OpCluster, graph.clusters[c]? = some cluster ∧ op ∈ cluster.members := by
              intro op c hc
              have hlt : op < graph.ops.length :=
                hlength ▸ (List.getElem?_eq_some_iff.mp hc).1
              have hin : op ∈ seen := by
                by_contra hnot
                refine hseen (List.any_eq_true.mpr ⟨op, List.mem_range.mpr hlt, ?_⟩)
                simpa using hnot
              obtain ⟨cluster, hcluster, hop⟩ := (hmem op).mp hin
              obtain ⟨c', hc'⟩ := List.mem_iff_getElem?.mp hcluster
              have := ((hchecked c' cluster hc').mem op hop).2
              cases hc.symm.trans this
              exact ⟨cluster, hc', hop⟩
            have hat : ∀ cluster ∈ graph.clusters, ∃ c, ClusterChecked graph c cluster := by
              intro cluster hin
              obtain ⟨c, hc⟩ := List.mem_iff_getElem?.mp hin
              exact ⟨c, hchecked c cluster hc⟩
            have hsame : ∀ (c : Nat) (cluster : OpCluster), graph.clusters[c]? = some cluster →
                cluster.predecessors = clusterPreds (clusterEdges graph graph.opClusters) c ∧
                cluster.successors = clusterSuccs (clusterEdges graph graph.opClusters) c := by
              intro c cluster hc
              by_contra hnot
              refine hedges (List.any_eq_true.mpr ⟨c, List.mem_range.mpr
                (List.getElem?_eq_some_iff.mp hc).1, ?_⟩)
              rw [hc, Option.any_some, Bool.or_eq_true, bne_iff_ne, bne_iff_ne]
              exact Classical.not_and_iff_not_or_not.mp hnot
            refine {
              length_eq := hlength
              lt := fun op c hc => ?_
              mem_iff := fun c cluster hc op => ⟨fun hop => ((hchecked c cluster hc).mem op hop).2,
                fun hop => ?_⟩
              nonempty := fun cluster hin => ?_
              limit := fun cluster hin => ?_
              ascending := fun cluster hin => ?_
              chain := fun cluster hin => ?_
              preds_eq := fun c cluster hc => (hsame c cluster hc).1
              succs_eq := fun c cluster hc => (hsame c cluster hc).2
              forward := fun u v a b hu ha hb => ?_ }
            · obtain ⟨cluster, hc, -⟩ := hhome op c hc
              exact (List.getElem?_eq_some_iff.mp hc).1
            · obtain ⟨other, hc', hop⟩ := hhome op c hop
              cases hc.symm.trans hc'
              exact hop
            · exact (hat cluster hin).choose_spec.nonempty
            · exact (hat cluster hin).choose_spec.limit
            · exact List.isChain_iff_pairwise.mp
                ((hat cluster hin).choose_spec.chain.imp fun a b hab => hab.1)
            · exact (hat cluster hin).choose_spec.chain.imp fun a b hab => hab.2
            · refine (checkPredecessors_ok hpreds (u, v) ?_).2 a b ha hb
              exact List.mem_flatMap.mpr ⟨v, List.mem_range.mpr (lt_of_mem_preds hu),
                List.mem_map.mpr ⟨u, hu, rfl⟩⟩

end

end RigExec.OpGraph
