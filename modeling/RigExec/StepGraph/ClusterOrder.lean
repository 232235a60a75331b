/-
# `RigExec.StepGraph.ClusterOrder` — the cluster sort and the walk that names a cycle

The last check sorts the clusters by counting their predecessors down.

    sortClusters_draining   what the sort leaves
    cycleWalk_onCycle       a walk among waiting clusters stops on a cycle
    cycleError_eq_none      the sort reaches every cluster iff there is no cycle
    cycleError_onCycle      the cluster it names lies on one

The walk goes backwards: from the current cluster there is a path of cluster
edges to every cluster passed before, so coming to one of them closes a cycle.
That it ends is in its definition: each turn marks one more cluster.
-/
import RigExec.StepGraph.Lists

namespace RigExec.StepGraph

open Lib (Draining Links Topological)

variable {clusters : List Cluster}

/-- A cluster edge, from `d` to `c`. -/
def ClusterEdge (clusters : List Cluster) (d c : Nat) : Prop :=
  (d : Int) ∈ clusterPreds clusters c

/-- The cluster lists hold cluster indices, ascending, and are inverse to each other. -/
structure ClusterLists (clusters : List Cluster) : Prop where
  preds : ∀ c < clusters.length, EdgesOk clusters.length c .either (clusterPreds clusters c)
  succs : ∀ c < clusters.length, EdgesOk clusters.length c .either (clusterSuccs clusters c)
  inverse : ∀ a < clusters.length, ∀ b < clusters.length,
    (a : Int) ∈ clusterPreds clusters b ↔ (b : Int) ∈ clusterSuccs clusters a

/-- The lists of a cluster as indices. -/
def predIndices (clusters : List Cluster) (c : Nat) : List Nat :=
  (clusterPreds clusters c).map Int.toNat

def succIndices (clusters : List Cluster) (c : Nat) : List Nat :=
  (clusterSuccs clusters c).map Int.toNat

theorem mem_map_toNat {list : List Int} (h : ∀ entry ∈ list, 0 ≤ entry) {n : Nat} :
    n ∈ list.map Int.toNat ↔ (n : Int) ∈ list := by
  rw [List.mem_map]
  constructor
  · rintro ⟨entry, hentry, rfl⟩
    rwa [Int.toNat_of_nonneg (h entry hentry)]
  · exact fun hn => ⟨n, hn, Int.toNat_natCast n⟩

theorem nodup_map_toNat {count : Nat} {self : Int} {side : Side} {list : List Int}
    (h : EdgesOk count self side list) : (list.map Int.toNat).Nodup := by
  refine List.Nodup.map_on (fun a ha b hb hab => ?_) h.1.nodup
  have ha := (h.2 a ha).1
  have hb := (h.2 b hb).1
  omega

theorem clusterPreds_of_ge {c : Nat} (h : clusters.length ≤ c) : clusterPreds clusters c = [] := by
  simp only [clusterPreds, clusterAt, List.getElem?_eq_none h, Option.getD_none]

namespace ClusterLists

variable (h : ClusterLists clusters)
include h

theorem mem_predIndices {d c : Nat} : d ∈ predIndices clusters c ↔ ClusterEdge clusters d c := by
  by_cases hc : c < clusters.length
  · exact mem_map_toNat fun entry hentry => ((h.preds c hc).2 entry hentry).1
  · simp [predIndices, ClusterEdge, clusterPreds_of_ge (Nat.not_lt.mp hc)]

theorem mem_succIndices {c d : Nat} (hc : c < clusters.length) :
    d ∈ succIndices clusters c ↔ (d : Int) ∈ clusterSuccs clusters c :=
  mem_map_toNat fun entry hentry => ((h.succs c hc).2 entry hentry).1

theorem edge_lt {d c : Nat} (hedge : ClusterEdge clusters d c) :
    d < clusters.length ∧ c < clusters.length := by
  have hc : c < clusters.length := by
    by_contra hge
    rw [ClusterEdge, clusterPreds_of_ge (Nat.not_lt.mp hge)] at hedge
    cases hedge
  have := ((h.preds c hc).2 d hedge).2.1
  exact ⟨by omega, hc⟩

theorem links :
    Links (· < clusters.length) (predIndices clusters) (succIndices clusters) where
  nodup_preds := fun c hc => nodup_map_toNat (h.preds c hc)
  nodup_succs := fun c hc => nodup_map_toNat (h.succs c hc)
  mem_preds := fun c hc d hd => by
    have hedge := h.mem_predIndices.mp hd
    have hlt := (h.edge_lt hedge).1
    exact ⟨hlt, (h.mem_succIndices hlt).mpr ((h.inverse d hlt c hc).mp hedge)⟩
  mem_succs := fun c hc d hd => by
    have hmem := (h.mem_succIndices hc).mp hd
    have hlt : d < clusters.length := by
      have := ((h.succs c hc).2 d hmem).2.1
      omega
    exact ⟨hlt, h.mem_predIndices.mpr ((h.inverse c hc d hlt).mpr hmem)⟩

omit h in
theorem initial_draining :
    Draining (· < clusters.length) (predIndices clusters) (initialWaiting clusters) 0 where
  countdown := by
    refine ⟨fun c hc => ?_, fun c => ?_, ?_⟩
    · simp only [initialWaiting, List.getElem?_map, List.getElem?_eq_getElem hc, Option.map_some,
        Lib.pending, predIndices, clusterPreds, clusterAt, Option.getD_some, List.take_zero,
        List.contains_nil, Bool.not_false, List.countP_true, List.length_map]
    · simp only [initialWaiting, List.mem_filter, List.mem_range, List.isEmpty_iff, List.take_zero,
        List.contains_nil, Bool.false_eq_true, imp_false, predIndices,
        ← List.eq_nil_iff_forall_not_mem, List.map_eq_nil_iff]
    · exact List.nodup_range.filter _
  topological := by
    have hempty : ∀ c ∈ (initialWaiting clusters).2, predIndices clusters c = [] := by
      intro c hc
      have := (List.mem_filter.mp hc).2
      rw [predIndices, List.isEmpty_iff.mp this, List.map_nil]
    intro pre c post he p hp
    rw [hempty c (by rw [he]; simp)] at hp
    cases hp
  head_le := Nat.zero_le _

/-- **What the sort leaves.** -/
theorem sortClusters_draining :
    Draining (· < clusters.length) (predIndices clusters) (sortClusters clusters)
      (sortClusters clusters).2.length :=
  initial_draining.drain h.links

omit h in
theorem length_waiting : (sortClusters clusters).1.length = clusters.length := by
  rw [sortClusters, Lib.length_drain, initialWaiting, List.length_map]

theorem sorted_all : (sortClusters clusters).2.length = clusters.length ↔
    ∀ c < clusters.length, c ∈ (sortClusters clusters).2 := by
  have hd := h.sortClusters_draining
  have hsubset : (sortClusters clusters).2 ⊆ List.range clusters.length := fun c hc =>
    List.mem_range.mpr (hd.mem_iff.mp hc).1
  constructor
  · intro hlength c hc
    have hperm := (List.subperm_of_subset hd.countdown.nodup hsubset).perm_of_length_le
      (by rw [List.length_range, hlength])
    exact hperm.mem_iff.mpr (List.mem_range.mpr hc)
  · intro hall
    refine Nat.le_antisymm ?_ ?_
    · have := (List.subperm_of_subset hd.countdown.nodup hsubset).length_le
      rwa [List.length_range] at this
    · have := (List.subperm_of_subset List.nodup_range fun c hc =>
        hall c (List.mem_range.mp hc)).length_le
      rwa [List.length_range] at this

end ClusterLists

/-! ## The walk -/

theorem cycleWalk_visited {waiting : List Int} {at_ : Nat} (h : waiting[at_]? = some visited) :
    cycleWalk clusters waiting at_ = at_ := by
  rw [cycleWalk]
  split
  · rfl
  · rename_i count hcount
    exact dif_pos (Option.some.inj (hcount.symm.trans h))

theorem cycleWalk_next {waiting : List Int} {at_ : Nat} {count : Int}
    (h : waiting[at_]? = some count) (hnew : count ≠ visited) :
    cycleWalk clusters waiting at_ = cycleWalk clusters (waiting.set at_ visited)
      (((clusterPreds clusters at_).find? fun pred =>
        (waiting.set at_ visited)[pred.toNat]?.getD 0 ≠ 0).elim at_ Int.toNat) := by
  rw [cycleWalk]
  split
  · rename_i hnone
    cases hnone.symm.trans h
  · rename_i count' hcount
    cases hcount.symm.trans h
    exact dif_neg hnew

/-- **The walk stops on a cycle.**  Every waiting cluster has a waiting predecessor, and there is a
path from where the walk stands to every cluster it has passed. -/
theorem cycleWalk_onCycle (waiting : List Int) (at_ : Nat)
    (hat : at_ < waiting.length) (hwaits : waiting[at_]? ≠ some 0)
    (hstuck : ∀ c < waiting.length, waiting[c]? ≠ some 0 →
      ∃ p ∈ clusterPreds clusters c, p.toNat < waiting.length ∧ waiting[p.toNat]? ≠ some 0)
    (hpassed : ∀ v, waiting[v]? = some visited →
      Relation.TransGen (fun d c => d ∈ predIndices clusters c) at_ v) :
    Relation.TransGen (fun d c => d ∈ predIndices clusters c)
      (cycleWalk clusters waiting at_) (cycleWalk clusters waiting at_) := by
  induction waiting, at_ using cycleWalk.induct clusters with
  | case1 waiting at_ hnone =>
      exact absurd (List.getElem?_eq_none_iff.mp hnone) (Nat.not_le.mpr hat)
  | case2 waiting at_ hcount =>
      rw [cycleWalk_visited hcount]
      exact hpassed at_ hcount
  | case3 waiting at_ count hcount hnew marked ih =>
      rw [cycleWalk_next hcount hnew]
      have hmarked : ∀ c, c < waiting.length → waiting[c]? ≠ some 0 → marked[c]? ≠ some 0 := by
        intro c hc hne
        by_cases he : at_ = c
        · subst he
          rw [List.getElem?_set_self hc]
          exact fun h => by cases h
        · rwa [List.getElem?_set_ne he]
      have hback : ∀ c : Nat, marked[c]? ≠ some 0 → waiting[c]? ≠ some 0 := by
        intro c hne
        by_cases he : at_ = c
        · exact he ▸ hwaits
        · rwa [List.getElem?_set_ne he] at hne
      -- the first waiting predecessor exists, so the walk moves on to it
      obtain ⟨q, hq, hqlt, hqwaits⟩ := hstuck at_ hat hwaits
      have hfound : ((clusterPreds clusters at_).find? fun pred =>
          marked[pred.toNat]?.getD 0 ≠ 0).isSome = true := by
        rw [List.find?_isSome]
        refine ⟨q, hq, ?_⟩
        have := hmarked q.toNat hqlt hqwaits
        rw [List.getElem?_eq_getElem (by rwa [List.length_set])] at this ⊢
        simpa using this
      obtain ⟨pred, hpred⟩ := Option.isSome_iff_exists.mp hfound
      have hmem := List.mem_of_find?_eq_some hpred
      have htest := List.find?_some hpred
      have hedge : pred.toNat ∈ predIndices clusters at_ := List.mem_map_of_mem hmem
      simp only [ne_eq, decide_not, Bool.not_eq_true', decide_eq_false_iff_not] at htest
      have hlt : pred.toNat < marked.length := by
        by_contra hge
        rw [List.getElem?_eq_none (Nat.not_lt.mp hge)] at htest
        exact htest rfl
      rw [hpred] at ih ⊢
      refine ih hlt ?_ ?_ ?_
      · intro hzero
        rw [Option.elim_some] at hzero
        exact htest (by rw [hzero]; rfl)
      · intro c hc hne
        rw [List.length_set] at hc
        obtain ⟨p, hp, hplt, hpwaits⟩ := hstuck c hc (hback c hne)
        exact ⟨p, hp, by rwa [List.length_set], hmarked p.toNat hplt hpwaits⟩
      · intro v hv
        by_cases he : at_ = v
        · exact he ▸ Relation.TransGen.single hedge
        · rw [List.getElem?_set_ne he] at hv
          exact Relation.TransGen.head hedge (hpassed v hv)

/-! ## The check -/

namespace ClusterLists

variable (h : ClusterLists clusters)
include h

theorem transGen_iff {d c : Nat} :
    Relation.TransGen (fun d c => d ∈ predIndices clusters c) d c ↔
      Relation.TransGen (ClusterEdge clusters) d c := by
  have hrel : (fun d c => d ∈ predIndices clusters c) = ClusterEdge clusters := by
    funext d c
    exact propext h.mem_predIndices
  rw [hrel]

/-- **The cluster named by the check lies on a cycle of cluster edges.** -/
theorem cycleError_onCycle {fault : Fault} (hfault : cycleError clusters = some fault) :
    ∃ c, fault = .clusterCycle c ∧ Relation.TransGen (ClusterEdge clusters) c c := by
  unfold cycleError at hfault
  simp only at hfault
  split at hfault
  · cases hfault
  · rename_i hshort
    cases hfault
    refine ⟨_, rfl, h.transGen_iff.mp ?_⟩
    have hd := h.sortClusters_draining
    have hlength : (sortClusters clusters).1.length = clusters.length := length_waiting
    have hmissing : ∃ c < clusters.length, c ∉ (sortClusters clusters).2 := by
      by_contra hall
      exact hshort (h.sorted_all.mpr fun c hc => by_contra fun hc' => hall ⟨c, hc, hc'⟩)
    obtain ⟨c, hc, hc'⟩ := hmissing
    have hexists : ∃ x ∈ (sortClusters clusters).1, decide (x ≠ 0) = true := by
      have hlt : c < (sortClusters clusters).1.length := by rwa [hlength]
      refine ⟨_, List.getElem_mem hlt, decide_eq_true fun hzero => hc' ?_⟩
      exact (hd.count_eq_zero hc).mp (by rw [List.getElem?_eq_getElem hlt, hzero])
    have hfirst := List.findIdx_lt_length_of_exists hexists
    refine cycleWalk_onCycle _ _ hfirst ?_ ?_ ?_
    · rw [List.getElem?_eq_getElem hfirst]
      have := List.findIdx_getElem (w := hfirst)
      simpa using this
    · intro c hc hne
      rw [hlength] at hc
      obtain ⟨p, hp, hp'⟩ := hd.exists_missing hc (mt (hd.count_eq_zero hc).mpr hne)
      obtain ⟨q, hq, rfl⟩ := List.mem_map.mp hp
      have hlt := (h.links.mem_preds c hc _ hp).1
      exact ⟨q, hq, by rwa [hlength], mt (hd.count_eq_zero hlt).mp hp'⟩
    · intro v hv
      -- no counter of the sort is negative
      have hlt : v < clusters.length := hlength ▸ (List.getElem?_eq_some_iff.mp hv).1
      rw [hd.countdown.count v hlt] at hv
      have hneg := Option.some.inj hv
      simp only [visited] at hneg
      omega

/-- **The check accepts exactly the acyclic cluster graphs.** -/
theorem cycleError_eq_none : cycleError clusters = none ↔
    ∀ c < clusters.length, ¬ Relation.TransGen (ClusterEdge clusters) c c := by
  constructor
  · intro hnone c hc hcycle
    have hlength : (sortClusters clusters).2.length = clusters.length := by
      by_contra hshort
      simp [cycleError, hshort] at hnone
    exact h.sortClusters_draining.topological.acyclic (h.sorted_all.mp hlength c hc)
      (h.transGen_iff.mpr hcycle)
  · intro hacyclic
    cases hfault : cycleError clusters with
    | none => rfl
    | some fault =>
        obtain ⟨c, -, hcycle⟩ := h.cycleError_onCycle hfault
        obtain ⟨d, hedge, -⟩ := Relation.TransGen.head'_iff.mp hcycle
        exact absurd hcycle (hacyclic c (h.edge_lt hedge).1)

end ClusterLists

end RigExec.StepGraph
