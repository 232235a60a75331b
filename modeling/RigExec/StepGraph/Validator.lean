/-
# `RigExec.StepGraph.Validator` — what an accepted step graph is

The check, as one statement about the file.  What playback needs is
`Consistent`: edges, reads, clusters, cluster edges.  What the check asks on top
of it is `Canonical`: the retired kind and domain do not occur, every list is
ascending and the two records of a step's cluster agree.

    stepGraphFault_eq_none   the loops together, read one by one
    stepGraphError_eq_empty  accepted exactly when consistent and canonical
    clusterRun_topological   clusters in an order of their edges run every step
                             after its predecessors
    stepGraphError_spec      the three parts of the contract
-/
import RigExec.StepGraph.Written
import RigExec.StepGraph.ClusterOrder

namespace RigExec.StepGraph

open Lib (Ascending Topological)

variable {ρ : Type} {rangeOf : ρ → StepGraphRange} {steps : List (Step ρ)}
  {clustering : Clustering} {excluded : List StepGraphRange}

/-! ## Texts -/

theorem append_ne_empty {front back : String} (h : front ≠ "") : front ++ back ≠ "" :=
  fun he => h (String.append_eq_empty_iff.mp he).1

theorem Node.name_ne_empty (node : Node) : node.name ≠ "" := by
  cases node with
  | step s => exact append_ne_empty (by decide)
  | cluster c => exact append_ne_empty (by decide)

/-- No message is the empty string, so the empty string means that there is no violation: a message
begins with its node's name, or with words of its own. -/
theorem Fault.text_ne_empty (fault : Fault) : fault.text ≠ "" := by
  have hname := Node.name_ne_empty
  cases fault with
  | placesCount placed steps =>
      exact append_ne_empty (append_ne_empty (append_ne_empty (by decide)))
  | clusterCycle c => exact append_ne_empty (by decide)
  | retiredKind s => exact append_ne_empty (hname _)
  | retiredDomain s => exact append_ne_empty (hname _)
  | noSuch owner edge entry =>
      unfold Fault.text
      iterate 6 refine append_ne_empty ?_
      exact hname _
  | dependsOnItself owner => exact append_ne_empty (hname _)
  | dependsOnLater owner entry =>
      unfold Fault.text
      iterate 4 refine append_ne_empty ?_
      exact hname _
  | namesEarlier owner edge entry =>
      unfold Fault.text
      iterate 6 refine append_ne_empty ?_
      exact hname _
  | edgesOutOfOrder owner edge =>
      unfold Fault.text
      iterate 3 refine append_ne_empty ?_
      exact hname _
  | notNamedBack node forwardEdge other backwardEdge =>
      unfold Fault.text
      iterate 6 refine append_ne_empty ?_
      exact hname _
  | outsideCanonicalOrder s => exact append_ne_empty (hname _)
  | unwritten s range =>
      unfold Fault.text
      iterate 7 refine append_ne_empty ?_
      exact hname _
  | noCluster s c =>
      unfold Fault.text
      iterate 3 refine append_ne_empty ?_
      exact hname _
  | otherCluster s c placed =>
      unfold Fault.text
      iterate 4 refine append_ne_empty ?_
      exact hname _
  | noMember c s =>
      unfold Fault.text
      iterate 3 refine append_ne_empty ?_
      exact hname _
  | otherMember c s placed =>
      unfold Fault.text
      iterate 4 refine append_ne_empty ?_
      exact hname _
  | membersOutOfOrder c => exact append_ne_empty (hname _)
  | notMember s c => exact append_ne_empty (append_ne_empty (hname _))
  | uncoveredEdge s to_ p from_ =>
      unfold Fault.text
      iterate 9 refine append_ne_empty ?_
      exact hname _

theorem stepGraphError_eq_empty_iff :
    stepGraphError rangeOf steps clustering excluded = "" ↔
      stepGraphFault rangeOf steps clustering excluded = none := by
  unfold stepGraphError
  cases stepGraphFault rangeOf steps clustering excluded with
  | none => exact iff_of_true rfl rfl
  | some fault => exact iff_of_false fault.text_ne_empty (nomatch ·)

/-! ## The two conditions -/

def membersOf (clustering : Clustering) (c : Nat) : List Int :=
  (clusterAt clustering.clusters c).members

/-- What playback needs of the graph. -/
structure Consistent (rangeOf : ρ → StepGraphRange) (steps : List (Step ρ))
    (clustering : Clustering) (excluded : List StepGraphRange) : Prop where
  /-- Every edge goes forward, between steps. -/
  preds_earlier : ∀ s < steps.length, ∀ p ∈ stepPreds steps s, 0 ≤ p ∧ p < s
  succs_later : ∀ s < steps.length, ∀ q ∈ stepSuccs steps s, (s : Int) < q ∧ q < steps.length
  /-- The two lists of edges are inverse. -/
  inverse : ∀ s < steps.length, ∀ t < steps.length,
    (s : Int) ∈ stepPreds steps t ↔ (t : Int) ∈ stepSuccs steps s
  /-- Reads are covered by earlier writes, or excluded. -/
  reads : ReadsWritten rangeOf excluded steps
  /-- The clusters partition the steps. -/
  members_steps : ∀ c < clustering.clusters.length, ∀ m ∈ membersOf clustering c,
    0 ≤ m ∧ m < steps.length
  partition : ∀ s < steps.length, ∃! c, c < clustering.clusters.length ∧
    (s : Int) ∈ membersOf clustering c
  /-- Step edges across clusters are cluster edges. -/
  covers : ∀ s < steps.length, ∀ p ∈ stepPreds steps s,
    ∀ c < clustering.clusters.length, ∀ d < clustering.clusters.length,
      (s : Int) ∈ membersOf clustering c → p ∈ membersOf clustering d → d ≠ c →
        ClusterEdge clustering.clusters d c
  /-- No cluster depends on itself. -/
  acyclic : ∀ c < clustering.clusters.length,
    ¬ Relation.TransGen (ClusterEdge clustering.clusters) c c

/-- What the check asks beyond that. -/
structure Canonical (rangeOf : ρ → StepGraphRange) (steps : List (Step ρ))
    (clustering : Clustering) : Prop where
  unretired : ∀ step ∈ steps, step.kind ≠ snapshotFinalsKind ∧
    ∀ range ∈ step.reads ++ step.writes, (rangeOf range).domain ≠ snapshotsDomain
  step_lists : ∀ s < steps.length, Ascending (stepPreds steps s) ∧ Ascending (stepSuccs steps s)
  member_lists : ∀ c < clustering.clusters.length, Ascending (membersOf clustering c)
  /-- A step, the clustering and the cluster's list name one cluster. -/
  placed_count : clustering.clusterOf.length = steps.length
  placed : ∀ (s : Nat) (step : Step ρ), steps[s]? = some step →
    0 ≤ step.cluster ∧ placedIn clustering s = step.cluster ∧
      (s : Int) ∈ membersOf clustering step.cluster.toNat
  cluster_lists : ClusterLists clustering.clusters

/-! ## The loops together -/

theorem edgesOk_earlier {count s : Nat} (hs : s < count) {list : List Int} :
    EdgesOk count s .earlier list ↔ Ascending list ∧ ∀ p ∈ list, 0 ≤ p ∧ p < s := by
  refine and_congr_right fun _ => forall₂_congr fun p _ => ?_
  simp only [Side.Allows]
  omega

theorem edgesOk_later {count s : Nat} {list : List Int} :
    EdgesOk count s .later list ↔ Ascending list ∧ ∀ q ∈ list, (s : Int) < q ∧ q < count := by
  refine and_congr_right fun _ => forall₂_congr fun q _ => ?_
  simp only [Side.Allows]
  omega

theorem stepGraphFault_eq_none :
    stepGraphFault rangeOf steps clustering excluded = none ↔
      reservedError rangeOf steps = none ∧ stepEdgesError steps = none ∧
      stepInverseError steps = none ∧ canonicalOrderError steps = none ∧
      readsError rangeOf 0 (excluded.foldl WrittenRuns.add []) steps = none ∧
      placementError steps clustering = none ∧ membersError steps clustering = none ∧
      membershipError steps clustering = none ∧ clusterEdgesError clustering.clusters = none ∧
      clusterInverseError clustering.clusters = none ∧ crossEdgeError steps clustering = none ∧
      cycleError clustering.clusters = none := by
  simp only [stepGraphFault, Option.orElse_eq_none]

theorem clusterLists_iff {clusters : List Cluster} :
    clusterEdgesError clusters = none ∧ clusterInverseError clusters = none ↔
      ClusterLists clusters := by
  rw [clusterEdgesError_eq_none]
  constructor
  · rintro ⟨hedges, hinverse⟩
    refine ⟨fun c hc => (hedges c hc).1, fun c hc => (hedges c hc).2, ?_⟩
    refine (inverseError_both (fun c hc d hd => ?_) fun c hc d hd => ?_).mp hinverse
    · exact ⟨(((hedges c hc).1.2 d hd)).1, ((hedges c hc).1.2 d hd).2.1⟩
    · exact ⟨(((hedges c hc).2.2 d hd)).1, ((hedges c hc).2.2 d hd).2.1⟩
  · intro h
    refine ⟨fun c hc => ⟨h.preds c hc, h.succs c hc⟩, ?_⟩
    refine (inverseError_both (fun c hc d hd => ?_) fun c hc d hd => ?_).mpr h.inverse
    · exact ⟨((h.preds c hc).2 d hd).1, ((h.preds c hc).2 d hd).2.1⟩
    · exact ⟨((h.succs c hc).2 d hd).1, ((h.succs c hc).2 d hd).2.1⟩

theorem stepLists_iff :
    stepEdgesError steps = none ∧ stepInverseError steps = none ↔
      (∀ s < steps.length, (Ascending (stepPreds steps s) ∧ Ascending (stepSuccs steps s)) ∧
        (∀ p ∈ stepPreds steps s, 0 ≤ p ∧ p < s) ∧
        ∀ q ∈ stepSuccs steps s, (s : Int) < q ∧ q < steps.length) ∧
      ∀ s < steps.length, ∀ t < steps.length,
        (s : Int) ∈ stepPreds steps t ↔ (t : Int) ∈ stepSuccs steps s := by
  have hedges : stepEdgesError steps = none ↔
      ∀ s < steps.length, (Ascending (stepPreds steps s) ∧ Ascending (stepSuccs steps s)) ∧
        (∀ p ∈ stepPreds steps s, 0 ≤ p ∧ p < s) ∧
        ∀ q ∈ stepSuccs steps s, (s : Int) < q ∧ q < steps.length := by
    rw [stepEdgesError_eq_none]
    refine forall₂_congr fun s hs => ?_
    rw [edgesOk_earlier hs, edgesOk_later]
    tauto
  rw [hedges]
  refine and_congr_right fun h => inverseError_both (fun s hs p hp => ?_) fun s hs q hq => ?_
  · have := (h s hs).2.1 p hp
    omega
  · have := (h s hs).2.2 q hq
    omega

theorem membersOf_of_ge {c : Nat} (h : clustering.clusters.length ≤ c) :
    membersOf clustering c = [] := by
  simp only [membersOf, clusterAt, List.getElem?_eq_none h, Option.getD_none]

theorem getElem?_clusterAt {c : Nat} (hc : c < clustering.clusters.length) :
    clustering.clusters[c]? = some (clusterAt clustering.clusters c) := by
  simp only [clusterAt, List.getElem?_eq_getElem hc, Option.getD_some]

theorem placement_iff :
    placementError steps clustering = none ∧ membersError steps clustering = none ∧
        membershipError steps clustering = none ↔
      clustering.clusterOf.length = steps.length ∧
      (∀ (s : Nat) (step : Step ρ), steps[s]? = some step → 0 ≤ step.cluster ∧
        placedIn clustering s = step.cluster ∧
        (s : Int) ∈ membersOf clustering step.cluster.toNat) ∧
      (∀ c < clustering.clusters.length, Ascending (membersOf clustering c)) ∧
      (∀ c < clustering.clusters.length, ∀ m ∈ membersOf clustering c,
        0 ≤ m ∧ m < steps.length) ∧
      ∀ s < steps.length, ∃! c, c < clustering.clusters.length ∧
        (s : Int) ∈ membersOf clustering c := by
  rw [placementError_eq_none, membersError_eq_none, membershipError_eq_none]
  constructor
  · rintro ⟨⟨hcount, hplaced⟩, hmembers, hmember⟩
    have hlisted : ∀ s < steps.length,
        (s : Int) ∈ membersOf clustering (placedIn clustering s).toNat := hmember
    refine ⟨hcount, fun s step hs => ?_, fun c hc => ?_, fun c hc m hm => ?_, fun s hs => ?_⟩
    · obtain ⟨hge, -, hsame⟩ := hplaced s step hs
      exact ⟨hge, hsame, hsame ▸ hlisted s (List.getElem?_eq_some_iff.mp hs).1⟩
    · exact (hmembers c _ (getElem?_clusterAt hc)).1
    · obtain ⟨hge, hlt, -⟩ := (hmembers c _ (getElem?_clusterAt hc)).2 m hm
      exact ⟨hge, hlt⟩
    · obtain ⟨hge, hlt, hsame⟩ := hplaced s _ (List.getElem?_eq_getElem hs)
      refine ⟨(placedIn clustering s).toNat, ⟨by omega, hlisted s hs⟩, fun c hc => ?_⟩
      have := ((hmembers c _ (getElem?_clusterAt hc.1)).2 s hc.2).2.2
      simp only [Int.toNat_natCast] at this
      omega
  · rintro ⟨hcount, hplaced, hascending, hsteps, hpartition⟩
    have hin : ∀ (s : Nat) (step : Step ρ), steps[s]? = some step →
        step.cluster.toNat < clustering.clusters.length := by
      intro s step hs
      by_contra hge
      have hmem := (hplaced s step hs).2.2
      rw [membersOf_of_ge (Nat.not_lt.mp hge)] at hmem
      cases hmem
    refine ⟨⟨hcount, fun s step hs => ?_⟩, fun c cluster hc => ?_, fun s hs => ?_⟩
    · obtain ⟨hge, hsame, -⟩ := hplaced s step hs
      have := hin s step hs
      exact ⟨hge, by omega, hsame⟩
    · have hlt := (List.getElem?_eq_some_iff.mp hc).1
      have hcluster : cluster = clusterAt clustering.clusters c := by
        rw [clusterAt, hc, Option.getD_some]
      subst hcluster
      refine ⟨hascending c hlt, fun m hm => ?_⟩
      obtain ⟨hge, hmlt⟩ := hsteps c hlt m hm
      have hs : m.toNat < steps.length := by omega
      obtain ⟨hpos, hsame, hmem⟩ := hplaced m.toNat _ (List.getElem?_eq_getElem hs)
      have hunique := (hpartition m.toNat hs).unique
        ⟨hlt, by rw [Int.toNat_of_nonneg hge]; exact hm⟩
        ⟨hin m.toNat _ (List.getElem?_eq_getElem hs), hmem⟩
      exact ⟨hge, hmlt, by omega⟩
    · obtain ⟨-, hsame, hmem⟩ := hplaced s _ (List.getElem?_eq_getElem hs)
      exact hsame ▸ hmem

/-- **The check accepts exactly the consistent and canonical graphs.** -/
theorem stepGraphError_eq_empty :
    stepGraphError rangeOf steps clustering excluded = "" ↔
      Consistent rangeOf steps clustering excluded ∧ Canonical rangeOf steps clustering := by
  rw [stepGraphError_eq_empty_iff, stepGraphFault_eq_none]
  constructor
  · rintro ⟨hreserved, hedges, hinverse, -, hreads, hplacement, hmembers, hmember, hclusterEdges,
      hclusterInverse, hcross, hcycle⟩
    obtain ⟨hlists, hinv⟩ := stepLists_iff.mp ⟨hedges, hinverse⟩
    have hclusters := clusterLists_iff.mp ⟨hclusterEdges, hclusterInverse⟩
    obtain ⟨hcount, hplaced, hascending, hsteps, hpartition⟩ :=
      placement_iff.mp ⟨hplacement, hmembers, hmember⟩
    have hplace : ∀ s < steps.length, ∀ c < clustering.clusters.length,
        (s : Int) ∈ membersOf clustering c → placedIn clustering s = c := by
      intro s hs c hc hmem
      have := ((membersError_eq_none.mp hmembers c _ (getElem?_clusterAt hc)).2 s hmem).2.2
      simpa using this
    refine ⟨{
      preds_earlier := fun s hs => (hlists s hs).2.1
      succs_later := fun s hs => (hlists s hs).2.2
      inverse := hinv
      reads := (readsError_excluded_eq_none excluded steps).mp hreads
      members_steps := hsteps
      partition := hpartition
      covers := fun s hs p hp c hc d hd hsc hpd hne => ?_
      acyclic := hclusters.cycleError_eq_none.mp hcycle }, {
      unretired := reservedError_eq_none.mp hreserved
      step_lists := fun s hs => (hlists s hs).1
      member_lists := hascending
      placed_count := hcount
      placed := hplaced
      cluster_lists := hclusters }⟩
    obtain ⟨hge, hlt⟩ := (hlists s hs).2.1 p hp
    have hto := hplace s hs c hc hsc
    have hfrom := hplace p.toNat (by omega) d hd (by rwa [Int.toNat_of_nonneg hge])
    have hedge := crossEdgeError_eq_none.mp hcross s hs p hp (by rw [hto, hfrom]; omega)
    rw [hto, hfrom, Int.toNat_natCast] at hedge
    exact hedge
  · rintro ⟨hconsistent, hcanonical⟩
    obtain ⟨hedges, hinverse⟩ := stepLists_iff.mpr
      ⟨fun s hs => ⟨hcanonical.step_lists s hs, hconsistent.preds_earlier s hs,
        hconsistent.succs_later s hs⟩, hconsistent.inverse⟩
    obtain ⟨hclusterEdges, hclusterInverse⟩ := clusterLists_iff.mpr hcanonical.cluster_lists
    obtain ⟨hplacement, hmembers, hmember⟩ := placement_iff.mpr
      ⟨hcanonical.placed_count, hcanonical.placed, hcanonical.member_lists,
        hconsistent.members_steps, hconsistent.partition⟩
    refine ⟨reservedError_eq_none.mpr hcanonical.unretired, hedges, hinverse,
      canonicalOrderError_eq_none fun s hs => (stepEdgesError_eq_none.mp hedges s hs).1,
      (readsError_excluded_eq_none excluded steps).mpr hconsistent.reads, hplacement, hmembers,
      hmember, hclusterEdges, hclusterInverse, ?_,
      hcanonical.cluster_lists.cycleError_eq_none.mpr hconsistent.acyclic⟩
    have hlisted : ∀ s < steps.length, 0 ≤ placedIn clustering s ∧
        (placedIn clustering s).toNat < clustering.clusters.length ∧
        (s : Int) ∈ membersOf clustering (placedIn clustering s).toNat := by
      intro s hs
      obtain ⟨hge, hlt, hsame⟩ := (placementError_eq_none.mp hplacement).2 s _
        (List.getElem?_eq_getElem hs)
      exact ⟨by omega, by omega, membershipError_eq_none.mp hmember s hs⟩
    rw [crossEdgeError_eq_none]
    intro s hs p hp hne
    obtain ⟨hge, hlt⟩ := hconsistent.preds_earlier s hs p hp
    obtain ⟨hge₁, hlt₁, hmem₁⟩ := hlisted s hs
    obtain ⟨hge₂, hlt₂, hmem₂⟩ := hlisted p.toNat (by omega)
    rw [Int.toNat_of_nonneg hge] at hmem₂
    have hedge := hconsistent.covers s hs p hp _ hlt₁ _ hlt₂ hmem₁ hmem₂ (by omega)
    rwa [ClusterEdge, Int.toNat_of_nonneg hge₂] at hedge

/-! ## Running the clusters -/

/-- The steps in the order in which the clusters run them. -/
def clusterRun (clustering : Clustering) (order : List Nat) : List Int :=
  order.flatMap (membersOf clustering)

/-- The clusters so far have run every predecessor of their steps before it. -/
theorem clusterRun_topological (hconsistent : Consistent rangeOf steps clustering excluded)
    (hcanonical : Canonical rangeOf steps clustering) {order : List Nat}
    (hclusters : ∀ c ∈ order, c < clustering.clusters.length)
    (horder : ∀ pre c post, order = pre ++ c :: post →
      ∀ d, ClusterEdge clustering.clusters d c → d ∈ pre) :
    Topological (fun s : Int => stepPreds steps s.toNat) (clusterRun clustering order) := by
  induction order using List.reverseRecOn with
  | nil => exact Lib.topological_nil
  | append_singleton order c ih =>
      have hc := hclusters c (by simp)
      have hrun : clusterRun clustering (order ++ [c]) =
          clusterRun clustering order ++ membersOf clustering c := by
        simp [clusterRun]
      rw [hrun]
      refine (ih (fun d hd => hclusters d (by simp [hd])) fun pre d post he => ?_).append ?_
      · exact horder pre d (post ++ [c]) (by rw [he]; simp)
      intro pre s post hmembers p hp
      have hsmem : s ∈ membersOf clustering c := by
        rw [hmembers]
        simp
      obtain ⟨hsge, hslt⟩ := hconsistent.members_steps c hc s hsmem
      have hs : s.toNat < steps.length := by omega
      obtain ⟨hpge, hplt⟩ := hconsistent.preds_earlier s.toNat hs p hp
      obtain ⟨d, ⟨hd, hpmem⟩, -⟩ := hconsistent.partition p.toNat (by omega)
      rw [Int.toNat_of_nonneg hpge] at hpmem
      by_cases hdc : d = c
      · -- within the cluster the members are ascending
        subst hdc
        have hascending := hcanonical.member_lists d hd
        rw [hmembers] at hpmem hascending
        rcases List.mem_append.mp hpmem with hpre | hrest
        · exact List.mem_append_right _ hpre
        · have hpost := (List.pairwise_append.mp hascending).2.1
          rcases List.mem_cons.mp hrest with rfl | hpost'
          · omega
          · have := (List.pairwise_cons.mp hpost).1 p hpost'
            omega
      · -- from another cluster the edge is a cluster edge, so that cluster ran before
        have hedge := hconsistent.covers s.toNat hs p hp c hc d hd
          (by rwa [Int.toNat_of_nonneg hsge]) hpmem hdc
        exact List.mem_append_left _ (List.mem_flatMap.mpr ⟨d, horder order c [] rfl d hedge, hpmem⟩)

theorem clusterRun_perm (hconsistent : Consistent rangeOf steps clustering excluded)
    (hcanonical : Canonical rangeOf steps clustering) {order : List Nat}
    (horder : order.Perm (List.range clustering.clusters.length)) :
    (clusterRun clustering order).Perm ((List.range steps.length).map Int.ofNat) := by
  have hlt : ∀ c ∈ order, c < clustering.clusters.length := fun c hc =>
    List.mem_range.mp (horder.mem_iff.mp hc)
  have hnodup : (clusterRun clustering order).Nodup := by
    refine List.nodup_flatMap.mpr ⟨fun c hc => (hcanonical.member_lists c (hlt c hc)).nodup, ?_⟩
    refine List.Pairwise.imp_of_mem (fun {c d} hc hd hne s hsc hsd => ?_)
      (horder.nodup_iff.mpr List.nodup_range)
    obtain ⟨hge, hslt⟩ := hconsistent.members_steps c (hlt c hc) s hsc
    refine hne ((hconsistent.partition s.toNat (by omega)).unique ⟨hlt c hc, ?_⟩ ⟨hlt d hd, ?_⟩)
    · rwa [Int.toNat_of_nonneg hge]
    · rwa [Int.toNat_of_nonneg hge]
  rw [List.perm_ext_iff_of_nodup hnodup (List.nodup_range.map fun a b hab => Int.ofNat.inj hab)]
  intro s
  simp only [clusterRun, List.mem_flatMap, List.mem_map, List.mem_range]
  constructor
  · rintro ⟨c, hc, hs⟩
    obtain ⟨hge, hslt⟩ := hconsistent.members_steps c (hlt c hc) s hs
    exact ⟨s.toNat, by omega, Int.toNat_of_nonneg hge⟩
  · rintro ⟨n, hn, rfl⟩
    obtain ⟨c, ⟨hc, hmem⟩, -⟩ := hconsistent.partition n hn
    exact ⟨c, horder.mem_iff.mpr (List.mem_range.mpr hc), hmem⟩

/-! ## The named cycle -/

/-- A check that names no cluster cycle. -/
def NamesNoCycle (found : Option Fault) : Prop := ∀ c, found ≠ some (.clusterCycle c)

theorem namesNoCycle_none : NamesNoCycle none := fun _ => (nomatch ·)

theorem namesNoCycle_ite {p : Prop} [Decidable p] {found found' : Option Fault}
    (h : NamesNoCycle found) (h' : NamesNoCycle found') :
    NamesNoCycle (if p then found else found') := by
  split
  · exact h
  · exact h'

theorem namesNoCycle_findSome? {α : Type} {check : α → Option Fault} {list : List α}
    (h : ∀ a, NamesNoCycle (check a)) : NamesNoCycle (list.findSome? check) := by
  intro c hc
  obtain ⟨a, -, ha⟩ := List.exists_of_findSome?_eq_some hc
  exact h a c ha

theorem namesNoCycle_orElse {found found' : Option Fault} (h : NamesNoCycle found)
    (h' : NamesNoCycle found') : NamesNoCycle (found <|> found') := by
  cases found with
  | none => exact h'
  | some fault => exact h

theorem namesNoCycle_edgeListError {count : Nat} {self : Int} {side : Side} {owner : Node}
    {edge : Edge} (previous : Option Int) (list : List Int) :
    NamesNoCycle (edgeListError count self side owner edge previous list) := by
  induction list generalizing previous with
  | nil => exact namesNoCycle_none
  | cons entry list ih =>
      exact namesNoCycle_ite (fun _ => by simp) <| namesNoCycle_ite (fun _ => by simp) <|
        namesNoCycle_ite (fun _ => by simp) <| namesNoCycle_ite (fun _ => by simp) <|
        namesNoCycle_ite (fun _ => by simp) (ih (some entry))

theorem namesNoCycle_memberError {count c : Nat} (previous : Option Int) (members : List Int) :
    NamesNoCycle (memberError clustering count c previous members) := by
  induction members generalizing previous with
  | nil => exact namesNoCycle_none
  | cons m members ih =>
      exact namesNoCycle_ite (fun _ => by simp) <| namesNoCycle_ite (fun _ => by simp) <|
        namesNoCycle_ite (fun _ => by simp) (ih (some m))

theorem namesNoCycle_inverseError {count : Nat} {forward backward : Nat → List Int}
    {node : Nat → Node} {forwardEdge backwardEdge : Edge} :
    NamesNoCycle (inverseError count forward backward node forwardEdge backwardEdge) :=
  namesNoCycle_findSome? fun _ => namesNoCycle_findSome? fun _ =>
    namesNoCycle_ite namesNoCycle_none fun _ => by simp

theorem namesNoCycle_readsError (s : Nat) (written : WrittenRuns) (rest : List (Step ρ)) :
    NamesNoCycle (readsError rangeOf s written rest) := by
  induction rest generalizing s written with
  | nil => exact namesNoCycle_none
  | cons step rest ih =>
      exact namesNoCycle_orElse (namesNoCycle_findSome? fun _ =>
        namesNoCycle_ite (fun _ => by simp) namesNoCycle_none) (ih _ _)

theorem cycleError_of_fault {c : Nat}
    (h : stepGraphFault rangeOf steps clustering excluded = some (.clusterCycle c)) :
    ClusterLists clustering.clusters ∧
      cycleError clustering.clusters = some (.clusterCycle c) := by
  have hpass : ∀ {found found' : Option Fault}, NamesNoCycle found →
      (found <|> found') = some (.clusterCycle c) →
        found = none ∧ found' = some (.clusterCycle c) := by
    intro found found' hnone hfault
    cases found with
    | none => exact ⟨rfl, hfault⟩
    | some fault => exact absurd hfault (hnone c)
  obtain ⟨-, h⟩ := hpass (namesNoCycle_findSome? fun _ => namesNoCycle_ite (fun _ => by simp)
    (namesNoCycle_findSome? fun _ => namesNoCycle_ite (fun _ => by simp) namesNoCycle_none)) h
  obtain ⟨-, h⟩ := hpass (namesNoCycle_findSome? fun _ => namesNoCycle_orElse
    (namesNoCycle_edgeListError _ _) (namesNoCycle_edgeListError _ _)) h
  obtain ⟨-, h⟩ := hpass (namesNoCycle_orElse namesNoCycle_inverseError
    namesNoCycle_inverseError) h
  obtain ⟨-, h⟩ := hpass (namesNoCycle_findSome? fun _ => namesNoCycle_findSome? fun _ =>
    namesNoCycle_ite (fun _ => by simp) namesNoCycle_none) h
  obtain ⟨-, h⟩ := hpass (namesNoCycle_readsError _ _ _) h
  obtain ⟨-, h⟩ := hpass (namesNoCycle_ite (fun _ => by simp) (namesNoCycle_findSome? fun _ =>
    namesNoCycle_ite (fun _ => by simp) (namesNoCycle_ite (fun _ => by simp)
      namesNoCycle_none))) h
  obtain ⟨-, h⟩ := hpass (namesNoCycle_findSome? fun _ => namesNoCycle_memberError _ _) h
  obtain ⟨-, h⟩ := hpass (namesNoCycle_findSome? fun _ =>
    namesNoCycle_ite namesNoCycle_none fun _ => by simp) h
  obtain ⟨hedges, h⟩ := hpass (namesNoCycle_findSome? fun _ => namesNoCycle_orElse
    (namesNoCycle_edgeListError _ _) (namesNoCycle_edgeListError _ _)) h
  obtain ⟨hinverse, h⟩ := hpass (namesNoCycle_orElse namesNoCycle_inverseError
    namesNoCycle_inverseError) h
  obtain ⟨-, h⟩ := hpass (namesNoCycle_findSome? fun _ => namesNoCycle_findSome? fun _ =>
    namesNoCycle_ite (fun _ => by simp) namesNoCycle_none) h
  exact ⟨clusterLists_iff.mp ⟨hedges, hinverse⟩, h⟩

/-! ## The contract -/

/-- **The step-graph check.**  It returns the empty string exactly for consistent and canonical
graphs; the clusters of an accepted graph, in any order of their edges, run every step once and
after its predecessors; and a cluster it names lies on a cycle of cluster edges. -/
theorem stepGraphError_spec (rangeOf : ρ → StepGraphRange) (steps : List (Step ρ))
    (clustering : Clustering) (excluded : List StepGraphRange) :
    (stepGraphError rangeOf steps clustering excluded = "" ↔
      Consistent rangeOf steps clustering excluded ∧ Canonical rangeOf steps clustering) ∧
    (stepGraphError rangeOf steps clustering excluded = "" →
      ∀ order : List Nat, order.Perm (List.range clustering.clusters.length) →
        (∀ pre c post, order = pre ++ c :: post →
          ∀ d, ClusterEdge clustering.clusters d c → d ∈ pre) →
        (clusterRun clustering order).Perm ((List.range steps.length).map Int.ofNat) ∧
        ∀ pre s post, clusterRun clustering order = pre ++ s :: post →
          ∀ p ∈ stepPreds steps s.toNat, p ∈ pre) ∧
    ∀ c, stepGraphFault rangeOf steps clustering excluded = some (.clusterCycle c) →
      Relation.TransGen (ClusterEdge clustering.clusters) c c := by
  refine ⟨stepGraphError_eq_empty, fun haccepted order hperm horder => ?_, fun c hfault => ?_⟩
  · obtain ⟨hconsistent, hcanonical⟩ := stepGraphError_eq_empty.mp haccepted
    refine ⟨clusterRun_perm hconsistent hcanonical hperm, ?_⟩
    exact clusterRun_topological hconsistent hcanonical
      (fun c hc => List.mem_range.mp (hperm.mem_iff.mp hc)) horder
  · obtain ⟨hlists, hcycle⟩ := cycleError_of_fault hfault
    obtain ⟨c', he, hon⟩ := hlists.cycleError_onCycle hcycle
    cases he
    exact hon

/-- Three steps in one cluster, the last after the other two; its predecessors are written in
descending order. -/
def descendingPreds : List (Step StepGraphRange) :=
  [{ succs := [2] }, { succs := [2] }, { preds := [1, 0] }]

def oneCluster : Clustering where
  clusters := [{ members := [0, 1, 2] }]
  clusterOf := [0, 0, 0]

/-- A consistent graph that is refused: the order of a list is checked too. -/
theorem descendingPreds_refused :
    Consistent id descendingPreds oneCluster [] ∧
      stepGraphError id descendingPreds oneCluster [] =
        "step 2 lists its predecessors out of order or twice" := by
  refine ⟨?_, by decide⟩
  have hnoReads : ∀ step ∈ descendingPreds, step.reads = [] := by decide
  have hnoEdge : ∀ d c, ¬ ClusterEdge oneCluster.clusters d c := by
    intro d c hedge
    cases c with
    | zero => cases hedge
    | succ c => rw [ClusterEdge, clusterPreds_of_ge (by simp [oneCluster])] at hedge; cases hedge
  refine {
    preds_earlier := by decide
    succs_later := by decide
    inverse := by decide
    reads := fun s step hs read hread => ?_
    members_steps := by decide
    partition := fun s hs => ?_
    covers := fun s _ p _ c hc d hd _ _ hne => ?_
    acyclic := fun c _ hcycle => ?_ }
  · rw [hnoReads step (List.mem_of_getElem? hs)] at hread
    cases hread
  · refine ⟨0, ⟨by decide, ?_⟩, fun c hc => Nat.lt_one_iff.mp hc.1⟩
    have hall : ∀ s : Nat, s < 3 → (s : Int) ∈ membersOf oneCluster 0 := by decide
    exact hall s hs
  · exact absurd ((Nat.lt_one_iff.mp hd).trans (Nat.lt_one_iff.mp hc).symm) hne
  · obtain ⟨d, hedge, -⟩ := Relation.TransGen.head'_iff.mp hcycle
    exact hnoEdge c d hedge

end RigExec.StepGraph
