/-
# `RigExec.Baked.Cones` — cones and head seeds

`RigExecBakedBuildCones` sorts the clusters, keeps the readers of every head output, and
closes each cluster over its successors in one pass backwards; `RigExecBakedHeadOpSeeds`
makes the same pass over the head steps.  Both passes are a `sweep`: what they leave
satisfies one equation per cell, and along an order the equation has one solution.

    clusterTopologicalOrder_orderOf   every cluster once, after its predecessors
    cone_iff                          a cone is what cluster edges reach
    depends_cone                      a reader's cluster lies in its producer's cone
    seed_reader                       the seeds hold the readers of what heads reach
    headSeedsFrom_reader              and so do those of any list of head steps

The links from steps to clusters are those of an accepted program: a slot's first writer
is joined to its readers by an edge, and an edge between clusters is a cluster edge.
-/
import RigExec.Lib.ReadyStack
import RigExec.Lib.Sweep
import RigExec.Baked.Accepted
import RigExec.Baked.ClusterSet

namespace RigExec.Baked

open Lib (BagDraining Links OrderOf Topological)
open StepGraph (Cluster ClusterEdge ClusterLists initialWaiting predIndices succIndices)

/-! ## The tables -/

/-- `RigExecBakedClusterTopologicalOrder`. -/
def clusterTopologicalOrder (clusters : List Cluster) : List Nat :=
  Lib.drainStack (succIndices clusters) (initialWaiting clusters) []

/-- A set of the table. -/
def setAt (sets : List ClusterSet) (at_ : Nat) : ClusterSet := sets[at_]?.getD ⟨[]⟩

/-- A set widened by the sets of some entries. -/
def unionAll (sets : List ClusterSet) (entries : List Nat) (set : ClusterSet) : ClusterSet :=
  entries.foldl (fun set entry => set.union (setAt sets entry)) set

/-- A set with the clusters of some steps added. -/
def addClusters (B : Program) (steps : List Nat) (set : ClusterSet) : ClusterSet :=
  steps.foldl (fun set index => set.set (B.stepAt index).cluster) set

/-- One turn of the last loop of `RigExecBakedBuildCones`. -/
def closeCluster (clusters : List Cluster) (closures : List ClusterSet) (c : Nat)
    (cone : ClusterSet) : ClusterSet :=
  unionAll closures (succIndices clusters c) (cone.set c)

/-- The readers of each slot of a table: the steps that are no head, once per range. -/
def readersOf (B : Program) (domain : SlotDomain) (size : Nat) : List (List Nat) :=
  (List.range size).map fun id => (List.range B.steps.length).flatMap fun index =>
    if (B.stepAt index).isHead then []
    else ((B.stepAt index).reads.filter fun range =>
      range.domain = domain && range.begin_ ≤ id && id < range.end_).map fun _ => index

/-- `RigExecBakedCones`. -/
structure Cones where
  topologicalOrder : List Nat := []
  cone : List ClusterSet := []
  headReaders : List (List Nat) := []
  fieldReaders : List (List Nat) := []
  restReaders : List (List Nat) := []
  ladderReaders : List (List Nat) := []

/-- `RigExecBakedBuildCones`. -/
def buildCones (B : Program) : Cones :=
  if B.clusters.length = 0 then {}
  else
    let order := clusterTopologicalOrder B.clusters
    { topologicalOrder := order
      cone := Lib.sweep (closeCluster B.clusters) order.reverse
        (List.replicate B.clusters.length (ClusterSet.resized B.clusters.length))
      headReaders := readersOf B .propertyResult B.propertyVersionCount
      fieldReaders := readersOf B .weightField B.weightFieldCount
      restReaders := readersOf B .rest B.pathCount
      ladderReaders := readersOf B .ladder B.pathCount }

/-- The readers the seeds of a write look up. -/
def Cones.readers (cones : Cones) (domain : SlotDomain) (id : Nat) : List Nat :=
  match domain with
  | .propertyResult => cones.headReaders[id]?.getD []
  | .rest => cones.restReaders[id]?.getD []
  | .ladder => cones.ladderReaders[id]?.getD []
  | .weightField => cones.fieldReaders[id]?.getD []
  | _ => []

/-- The readers of everything a head step writes. -/
def writtenReaders (B : Program) (cones : Cones) (index : Nat) : List Nat :=
  (B.stepAt index).writes.flatMap fun range => range.slots.flatMap (cones.readers range.domain)

/-- The successors of a step as indices. -/
def stepSuccs (B : Program) (index : Nat) : List Nat := (B.stepAt index).succs.map Int.toNat

/-- One turn of `RigExecBakedHeadOpSeeds`. -/
def seedHead (B : Program) (cones : Cones) (seeds : List ClusterSet) (index : Nat)
    (_ : ClusterSet) : ClusterSet :=
  unionAll seeds (stepSuccs B index)
    (addClusters B (writtenReaders B cones index) (ClusterSet.resized B.clusters.length))

/-- `RigExecBakedHeadOpSeeds`. -/
def headOpSeeds (B : Program) (cones : Cones) : List ClusterSet :=
  Lib.sweep (seedHead B cones) B.headIndices.reverse (List.replicate B.steps.length ⟨[]⟩)

/-- `RigExecBakedHeadSeedsFrom`. -/
def headSeedsFrom (B : Program) (opSeeds : List ClusterSet) (ops : List Nat) : List Nat :=
  (List.range B.clusters.length).filter fun c =>
    (unionAll opSeeds ops (ClusterSet.resized B.clusters.length)).test c

/-! ## Sets -/

section

variable {B : Program} {sets sets' : List ClusterSet} {entries : List Nat} {set : ClusterSet}

theorem test_unionAll (c : Int) : (unionAll sets entries set).test c = true ↔
    set.test c = true ∨ ∃ entry ∈ entries, (setAt sets entry).test c = true := by
  induction entries generalizing set with
  | nil => simp [unionAll]
  | cons entry entries ih =>
      refine ih.trans ?_
      simp only [ClusterSet.test_union, Bool.or_eq_true, List.mem_cons, exists_eq_or_imp, or_assoc]

theorem unionAll_congr (h : ∀ entry ∈ entries, sets[entry]? = sets'[entry]?) :
    unionAll sets entries set = unionAll sets' entries set := by
  refine List.foldl_ext _ _ _ ?_
  intro set entry hentry
  rw [setAt, setAt, h entry hentry]

theorem test_addClusters {steps : List Nat} {clusters : Nat} (hset : set.Reaches clusters)
    (hplaced : ∀ index ∈ steps, 0 ≤ (B.stepAt index).cluster ∧ (B.stepAt index).cluster < clusters)
    (c : Int) : (addClusters B steps set).test c = true ↔
      set.test c = true ∨ ∃ index ∈ steps, c = (B.stepAt index).cluster := by
  induction steps generalizing set with
  | nil => simp [addClusters]
  | cons index steps ih =>
      obtain ⟨hge, hlt⟩ := hplaced index List.mem_cons_self
      refine (ih (hset.set _) fun i hi => hplaced i (List.mem_cons_of_mem index hi)).trans ?_
      simp only [ClusterSet.test_set hset hge hlt, Bool.or_eq_true, decide_eq_true_eq,
        List.mem_cons, exists_eq_or_imp, or_assoc]

end

/-! ## The cluster order -/

section

variable {B : Program} (h : Accepted B)
include h

theorem mem_succIndices {c d : Nat} :
    d ∈ succIndices B.clusters c ↔ ClusterEdge B.clusters c d := by
  have hlists := h.clustered.lists
  constructor
  · intro hd
    have hc : c < B.clusters.length := by
      by_contra hge
      rw [succIndices, StepGraph.clusterSuccs, StepGraph.clusterAt,
        List.getElem?_eq_none (Nat.le_of_not_lt hge)] at hd
      cases hd
    exact hlists.mem_predIndices.mp (hlists.links.mem_succs c hc d hd).2
  · intro hedge
    obtain ⟨hc, hd⟩ := hlists.edge_lt hedge
    exact (hlists.links.mem_preds d hd c (hlists.mem_predIndices.mpr hedge)).2

/-- **Every cluster is listed once, after its predecessors.** -/
theorem clusterTopologicalOrder_orderOf :
    OrderOf (· < B.clusters.length) (predIndices B.clusters)
      (clusterTopologicalOrder B.clusters) := by
  have hlists := h.clustered.lists
  have hstart : BagDraining (· < B.clusters.length) (predIndices B.clusters)
      (initialWaiting B.clusters) [] :=
    ⟨StepGraph.ClusterLists.initial_draining.countdown, Lib.topological_nil⟩
  obtain ⟨counts, hend⟩ := hstart.drainStack hlists.links
  refine hend.orderOf hlists.links (fun c hc => hc) ?_
  intro c hc hcycle
  exact h.clustered.acyclic c hc (hlists.transGen_iff.mp hcycle)

/-! ## Cones -/

theorem cone_equation {c : Nat} (hc : c < B.clusters.length) (d : Nat) :
    (setAt (buildCones B).cone c).test d = true ↔
      d = c ∨ ∃ s ∈ succIndices B.clusters c, (setAt (buildCones B).cone s).test d = true := by
  have horder := clusterTopologicalOrder_orderOf h
  have hpos : B.clusters.length ≠ 0 := by omega
  have hlocal : ∀ (table table' : List ClusterSet) (v : Nat) (cell : ClusterSet),
      (∀ s ∈ succIndices B.clusters v, table[s]? = table'[s]?) →
      closeCluster B.clusters table v cell = closeCluster B.clusters table' v cell :=
    fun _ _ _ _ hsame => unionAll_congr hsame
  have hcell := Lib.sweep_reverse_eq (succIndices B.clusters)
    (List.replicate B.clusters.length (ClusterSet.resized B.clusters.length))
    hlocal horder.nodup ?_ ((horder.mem_iff c).mpr hc)
  · have hcone : setAt (buildCones B).cone c =
        closeCluster B.clusters (buildCones B).cone c (ClusterSet.resized B.clusters.length) := by
      rw [setAt, buildCones, if_neg hpos]
      simp only
      rw [hcell, List.getElem?_replicate, if_pos hc]
      rfl
    rw [hcone, closeCluster, test_unionAll, ClusterSet.test_set ClusterSet.reaches_resized
      (Int.natCast_nonneg c) (Int.ofNat_lt.mpr hc), ClusterSet.test_resized, Bool.false_or,
      decide_eq_true_eq, Int.natCast_inj]
  · intro pre v post hsplit s hs
    -- a successor stands after its predecessor, and the list has no repeats
    have hv : v < B.clusters.length := (horder.mem_iff v).mp (by rw [hsplit]; simp)
    obtain ⟨hscope, hedge⟩ := h.clustered.lists.links.mem_succs v hv s hs
    have hne : s ≠ v := by
      rintro rfl
      exact h.clustered.acyclic s hv
        (Relation.TransGen.single (h.clustered.lists.mem_predIndices.mp hedge))
    refine ⟨fun hpre => ?_, hne⟩
    obtain ⟨before, after, hcut⟩ := List.append_of_mem hpre
    have hin := horder.topological before s (after ++ v :: post)
      (by rw [hsplit, hcut]; simp) v hedge
    have hnodup := horder.nodup
    rw [hsplit] at hnodup
    exact (List.nodup_append.mp hnodup).2.2 v (hcut ▸ List.mem_append_left _ hin) v
      List.mem_cons_self rfl

/-- **A cone is exactly what cluster edges reach.** -/
theorem cone_iff {c : Nat} (hc : c < B.clusters.length) (d : Nat) :
    (setAt (buildCones B).cone c).test d = true ↔
      Relation.ReflTransGen (ClusterEdge B.clusters) c d := by
  have horder := clusterTopologicalOrder_orderOf h
  have hlinks := h.clustered.lists.links
  have hreach : _ ↔ Relation.ReflTransGen (fun v s => s ∈ succIndices B.clusters v) c d :=
    Lib.reach_of_equation (fun c d => (setAt (buildCones B).cone c).test d = true)
      horder.topological (fun v hv => (horder.mem_iff v).mpr hv) hlinks.mem_succs
      (fun v hv => cone_equation h hv) hc
  have hedges : (fun v s => s ∈ succIndices B.clusters v) = ClusterEdge B.clusters := by
    funext v s
    exact propext (mem_succIndices h)
  rw [hreach, hedges]

/-! ## Steps and their clusters -/

omit h in
/-- A step depends on another through an edge, or on the first writer of a slot it reads. -/
def Depends (B : Program) (writer reader : Nat) : Prop :=
  reader < B.steps.length ∧ ((writer : Int) ∈ (B.stepAt reader).preds ∨
    ∃ domain slot, domain.isSource = false ∧ covers (B.stepAt reader).reads domain slot = true ∧
      firstWriter B domain slot = some writer)

theorem depends_edge {writer reader : Nat} (hdepends : Depends B writer reader) :
    (writer : Int) ∈ (B.stepAt reader).preds ∧ writer < reader ∧ reader < B.steps.length := by
  obtain ⟨hreader, hedge | ⟨domain, slot, hsource, hread, hwriter⟩⟩ := hdepends
  · have hlt := (h.edges.preds reader hreader writer hedge).2.1
    exact ⟨hedge, Int.ofNat_lt.mp hlt, hreader⟩
  · obtain ⟨hlt, hedge⟩ := h.produced reader hreader domain slot hsource hread writer hwriter
    exact ⟨hedge, hlt, hreader⟩

theorem cluster_lt {index : Nat} (hindex : index < B.steps.length) :
    ((B.stepAt index).cluster.toNat : Int) = (B.stepAt index).cluster ∧
      (B.stepAt index).cluster.toNat < B.clusters.length := by
  obtain ⟨hge, hlt⟩ := h.clustered.placed index hindex
  exact ⟨Int.toNat_of_nonneg hge, by omega⟩

theorem depends_reach {writer reader : Nat} (hdepends : Depends B writer reader) :
    Relation.ReflTransGen (ClusterEdge B.clusters) (B.stepAt writer).cluster.toNat
      (B.stepAt reader).cluster.toNat := by
  obtain ⟨hedge, hlt, hreader⟩ := depends_edge h hdepends
  have hwriter : writer < B.steps.length := hlt.trans hreader
  rcases eq_or_ne (B.stepAt writer).cluster (B.stepAt reader).cluster with heq | hne
  · rw [heq]
  · have hcover := h.clustered.covered reader hreader writer hedge (Int.natCast_nonneg writer)
      (Int.ofNat_lt.mpr hwriter) (by rwa [Int.toNat_natCast])
    rw [Int.toNat_natCast, ← (cluster_lt h hwriter).1] at hcover
    exact Relation.ReflTransGen.single hcover

/-- **What depends on a step, directly or through others, lies in its cluster's cone.** -/
theorem depends_cone {writer reader : Nat}
    (hdepends : Relation.TransGen (Depends B) writer reader) :
    (setAt (buildCones B).cone (B.stepAt writer).cluster.toNat).test
      (B.stepAt reader).cluster = true := by
  have hreach : Relation.ReflTransGen (ClusterEdge B.clusters) (B.stepAt writer).cluster.toNat
      (B.stepAt reader).cluster.toNat := by
    induction hdepends with
    | single hstep => exact depends_reach h hstep
    | tail _ hstep ih => exact ih.trans (depends_reach h hstep)
  have hwriter : writer < B.steps.length := by
    obtain ⟨middle, hstep, -⟩ := Relation.TransGen.head'_iff.mp hdepends
    obtain ⟨-, hlt, hmiddle⟩ := depends_edge h hstep
    exact hlt.trans hmiddle
  have hreader : reader < B.steps.length := by
    obtain ⟨middle, -, hstep⟩ := Relation.TransGen.tail'_iff.mp hdepends
    exact hstep.1
  rw [← (cluster_lt h hreader).1]
  exact (cone_iff h (cluster_lt h hwriter).2 _).mpr hreach

/-! ## Seeds -/

omit h in
/-- How many slots of a domain have a reader table. -/
def tableSize (B : Program) : SlotDomain → Nat
  | .propertyResult => B.propertyVersionCount
  | .weightField => B.weightFieldCount
  | .rest | .ladder => B.pathCount
  | _ => 0

omit h in
theorem mem_readersOf {domain : SlotDomain} {size id reader : Nat} :
    reader ∈ (readersOf B domain size)[id]?.getD [] ↔ id < size ∧ reader < B.steps.length ∧
      (B.stepAt reader).isHead = false ∧ covers (B.stepAt reader).reads domain id = true := by
  rcases Nat.lt_or_ge id size with hid | hid
  · rw [readersOf, List.getElem?_map, List.getElem?_range hid]
    simp only [Option.map_some, Option.getD_some, List.mem_flatMap, List.mem_range, hid, true_and]
    constructor
    · rintro ⟨index, hindex, hmem⟩
      split at hmem
      · cases hmem
      · rename_i hhead
        obtain ⟨range, hrange, rfl⟩ := List.mem_map.mp hmem
        obtain ⟨hread, hcovers⟩ := List.mem_filter.mp hrange
        exact ⟨hindex, Bool.not_eq_true _ ▸ hhead, List.any_eq_true.mpr ⟨range, hread, hcovers⟩⟩
    · rintro ⟨hreader, hhead, hcovers⟩
      refine ⟨reader, hreader, ?_⟩
      rw [if_neg (by rw [hhead]; exact Bool.false_ne_true)]
      obtain ⟨range, hread, hrange⟩ := List.any_eq_true.mp hcovers
      exact List.mem_map.mpr ⟨range, List.mem_filter.mpr ⟨hread, hrange⟩, rfl⟩
  · rw [List.getElem?_eq_none (by simpa [readersOf] using hid)]
    exact iff_of_false (fun hmem => nomatch hmem) fun hall => Nat.not_lt.mpr hid hall.1

omit h in
theorem mem_readers (hpos : B.clusters.length ≠ 0) {domain : SlotDomain} {id reader : Nat} :
    reader ∈ (buildCones B).readers domain id ↔ id < tableSize B domain ∧
      reader < B.steps.length ∧ (B.stepAt reader).isHead = false ∧
        covers (B.stepAt reader).reads domain id = true := by
  rw [buildCones, if_neg hpos]
  cases domain <;> first
    | exact mem_readersOf
    | exact iff_of_false (fun hmem => nomatch hmem) fun hall => Nat.not_lt_zero _ hall.1

theorem seed_equation {head : Nat} (hhead : head ∈ B.headIndices) (c : Int) :
    (setAt (headOpSeeds B (buildCones B)) head).test c = true ↔
      (∃ reader ∈ writtenReaders B (buildCones B) head, c = (B.stepAt reader).cluster) ∨
        ∃ s ∈ stepSuccs B head,
          (setAt (headOpSeeds B (buildCones B)) s).test c = true := by
  obtain ⟨hlt, -⟩ := mem_headIndices.mp hhead
  have hpos : B.clusters.length ≠ 0 := by
    have := (cluster_lt h hlt).2
    omega
  have hsorted : B.headIndices.Pairwise (· < ·) := List.pairwise_lt_range.filter _
  have hlocal : ∀ (table table' : List ClusterSet) (v : Nat) (cell : ClusterSet),
      (∀ s ∈ stepSuccs B v, table[s]? = table'[s]?) →
      seedHead B (buildCones B) table v cell = seedHead B (buildCones B) table' v cell :=
    fun _ _ _ _ hsame => unionAll_congr hsame
  have hcell := Lib.sweep_reverse_eq (stepSuccs B) (List.replicate B.steps.length ⟨[]⟩) hlocal
    hsorted.nodup ?_ hhead
  · have hseeds : setAt (headOpSeeds B (buildCones B)) head =
        seedHead B (buildCones B) (headOpSeeds B (buildCones B)) head ⟨[]⟩ := by
      rw [setAt, headOpSeeds, hcell, List.getElem?_replicate, if_pos hlt]
      rfl
    have hplaced : ∀ reader ∈ writtenReaders B (buildCones B) head,
        0 ≤ (B.stepAt reader).cluster ∧ (B.stepAt reader).cluster < B.clusters.length := by
      intro reader hreader
      obtain ⟨range, -, hslots⟩ := List.mem_flatMap.mp hreader
      obtain ⟨id, -, hmem⟩ := List.mem_flatMap.mp hslots
      exact h.clustered.placed reader ((mem_readers hpos).mp hmem).2.1
    rw [hseeds, seedHead, test_unionAll, test_addClusters ClusterSet.reaches_resized hplaced,
      ClusterSet.test_resized]
    simp only [Bool.false_eq_true, false_or]
  · intro pre v post hsplit s hs
    have hv := (mem_headIndices.mp (show v ∈ B.headIndices by rw [hsplit]; simp)).1
    obtain ⟨succ, hsucc, rfl⟩ := List.mem_map.mp hs
    have hafter := (h.edges.succs v hv succ hsucc).1
    refine ⟨fun hpre => ?_, by omega⟩
    rw [hsplit, List.pairwise_append] at hsorted
    have := hsorted.2.2 succ.toNat hpre v List.mem_cons_self
    omega

omit h in
/-- One hop among head steps. -/
def HeadHop (B : Program) (head next : Nat) : Prop :=
  Depends B head next ∧ (B.stepAt next).isHead = true

/-- **The seeds of a head step hold the readers of what its change reaches through head steps.** -/
theorem seed_reader {head op reader : Nat} (hhead : head ∈ B.headIndices)
    (hreach : Relation.ReflTransGen (HeadHop B) head op) {domain : SlotDomain} {slot : Nat}
    (hslot : slot < tableSize B domain) (hwrite : covers (B.stepAt op).writes domain slot = true)
    (hreader : reader < B.steps.length) (hplain : (B.stepAt reader).isHead = false)
    (hread : covers (B.stepAt reader).reads domain slot = true) :
    (setAt (headOpSeeds B (buildCones B)) head).test (B.stepAt reader).cluster = true := by
  induction hreach using Relation.ReflTransGen.head_induction_on with
  | refl =>
      have hpos : B.clusters.length ≠ 0 := by
        have := (cluster_lt h hreader).2
        omega
      obtain ⟨range, hrange, rfl, hin⟩ := covers_iff.mp hwrite
      refine (seed_equation h hhead _).mpr (Or.inl ⟨reader, ?_, rfl⟩)
      refine List.mem_flatMap.mpr ⟨range, hrange, List.mem_flatMap.mpr ⟨slot, hin, ?_⟩⟩
      exact (mem_readers hpos).mpr ⟨hslot, hreader, hplain, hread⟩
  | head hhop _ ih =>
      obtain ⟨hedge, hlt, hnext⟩ := depends_edge h hhop.1
      have hsucc := (h.edges.preds _ hnext _ hedge).2.2
      rw [Int.toNat_natCast] at hsucc
      refine (seed_equation h hhead _).mpr (Or.inr ⟨_, ?_, ih ?_⟩)
      · exact List.mem_map.mpr ⟨_, hsucc, Int.toNat_natCast _⟩
      · exact mem_headIndices.mpr ⟨hnext, hhop.2⟩

theorem headSeedsFrom_reader {ops : List Nat} {head op reader : Nat} (hin : head ∈ ops)
    (hhead : head ∈ B.headIndices) (hreach : Relation.ReflTransGen (HeadHop B) head op)
    {domain : SlotDomain} {slot : Nat} (hslot : slot < tableSize B domain)
    (hwrite : covers (B.stepAt op).writes domain slot = true) (hreader : reader < B.steps.length)
    (hplain : (B.stepAt reader).isHead = false)
    (hread : covers (B.stepAt reader).reads domain slot = true) :
    (B.stepAt reader).cluster.toNat ∈ headSeedsFrom B (headOpSeeds B (buildCones B)) ops := by
  obtain ⟨hcluster, hlt⟩ := cluster_lt h hreader
  refine List.mem_filter.mpr ⟨List.mem_range.mpr hlt, ?_⟩
  rw [test_unionAll, hcluster]
  refine .inr ⟨head, hin, ?_⟩
  exact seed_reader h hhead hreach hslot hwrite hreader hplain hread

end

/-! ## The closures of an accepted program -/

/-- **Cones and head seeds.**  For every accepted program: the cluster order, the cones as exact
reachability, the readers of a step in its cluster's cone, and the seeds of a head step. -/
theorem cones_exact {others : OtherChecks} {B : Program}
    (h : validateStepGraph others B = .ok ()) :
    ((clusterTopologicalOrder B.clusters).Perm (List.range B.clusters.length) ∧
      Topological (predIndices B.clusters) (clusterTopologicalOrder B.clusters)) ∧
    (∀ c < B.clusters.length, ∀ d : Nat, (setAt (buildCones B).cone c).test d = true ↔
      Relation.ReflTransGen (ClusterEdge B.clusters) c d) ∧
    (∀ writer reader, Relation.TransGen (Depends B) writer reader →
      (setAt (buildCones B).cone (B.stepAt writer).cluster.toNat).test
        (B.stepAt reader).cluster = true) ∧
    ∀ head ∈ B.headIndices, ∀ op, Relation.ReflTransGen (HeadHop B) head op →
      ∀ domain, ∀ slot < tableSize B domain, covers (B.stepAt op).writes domain slot = true →
        ∀ reader < B.steps.length, (B.stepAt reader).isHead = false →
          covers (B.stepAt reader).reads domain slot = true →
            (setAt (headOpSeeds B (buildCones B)) head).test (B.stepAt reader).cluster = true := by
  have haccepted := accepted_of_validate h
  have horder := clusterTopologicalOrder_orderOf haccepted
  refine ⟨⟨?_, horder.topological⟩, ?_, ?_, ?_⟩
  · refine (List.perm_ext_iff_of_nodup horder.nodup List.nodup_range).mpr ?_
    intro c
    rw [horder.mem_iff c, List.mem_range]
  · intro c hc d
    exact cone_iff haccepted hc d
  · intro writer reader hdepends
    exact depends_cone haccepted hdepends
  · intro head hhead op hreach domain slot hslot hwrite reader hreader hplain hread
    exact seed_reader haccepted hhead hreach hslot hwrite hreader hplain hread

/-! ## Two programs -/

/-- No other check finds anything. -/
def noOthers : OtherChecks where
  semanticRequirements := fun _ => []
  admissionRoles := fun _ => []
  headTier := fun _ => []
  headReads := fun _ => []
  poseVersions := fun _ => []
  pointVersions := fun _ => []

/-- What every step but a preparation declares. -/
def admission : SlotRange := ⟨.requiredStageFramesAdmission, 0, 1⟩

/-- Two rest compositions, one above the other, and a reader of the second. -/
def restChain : Program where
  steps :=
    [{ isHead := true, kind := .restCompose, writes := [⟨.rest, 0, 1⟩], succs := [1], cluster := 0 },
      { isHead := true, kind := .restCompose, reads := [⟨.rest, 0, 1⟩],
        writes := [⟨.rest, 1, 2⟩], preds := [0], succs := [2], cluster := 0 },
      { reads := [⟨.rest, 1, 2⟩, admission], preds := [1], cluster := 1 }]
  clustering := { clusters := [{ members := [0, 1], succs := [1] }, { members := [2], preds := [0] }]
                  clusterOf := [0, 0, 1], topologicalOrder := [0, 1] }
  pathCount := 2

theorem restChain_accepted : validateStepGraph noOthers restChain = .ok () := by
  have hnone : violations noOthers restChain = [] := by decide
  rw [validateStepGraph, hnone]

theorem restChain_hop : HeadHop restChain 0 1 :=
  ⟨⟨by decide, Or.inl (by decide)⟩, by decide⟩

/-- The reader is in the cone of the first composition's cluster and in its seeds. -/
theorem cones_exact_restChain :
    (setAt (buildCones restChain).cone 0).test 1 = true ∧
      (setAt (headOpSeeds restChain (buildCones restChain)) 0).test 1 = true := by
  have hexact := cones_exact restChain_accepted
  refine ⟨hexact.2.2.1 0 2 ?_, ?_⟩
  · exact (Relation.TransGen.single restChain_hop.1).tail ⟨by decide, Or.inl (by decide)⟩
  · exact hexact.2.2.2 0 (by decide) 1 (Relation.ReflTransGen.single restChain_hop) .rest 1
      (by decide) (by decide) 2 (by decide) (by decide) (by decide)

/-- Two steps that write one slot, and a reader of it that comes after both. -/
def twoWriters : Program where
  steps :=
    [{ reads := [admission], writes := [⟨.derivedOut, 0, 1⟩], succs := [1, 2], cluster := 0 },
      { reads := [⟨.derivedOut, 0, 1⟩, admission], writes := [⟨.derivedOut, 0, 1⟩], preds := [0],
        cluster := 1 },
      { reads := [⟨.derivedOut, 0, 1⟩, admission], preds := [0], cluster := 2 }]
  clustering := { clusters := [{ members := [0], succs := [1, 2] }, { members := [1], preds := [0] },
                    { members := [2], preds := [0] }]
                  clusterOf := [0, 1, 2], topologicalOrder := [0, 1, 2] }

theorem twoWriters_accepted : validateStepGraph noOthers twoWriters = .ok () := by
  have hnone : violations noOthers twoWriters = [] := by decide
  rw [validateStepGraph, hnone]

/-- **A reader of a slot outside the cone of a step that writes it**: nothing asks that a slot have
one writer, the reader is joined to the first only, and the second writer's cone does not hold
it. -/
theorem twoWriters_reader_outside :
    validateStepGraph noOthers twoWriters = .ok () ∧
      covers (twoWriters.stepAt 1).writes .derivedOut 0 = true ∧
      covers (twoWriters.stepAt 2).reads .derivedOut 0 = true ∧
      (setAt (buildCones twoWriters).cone (twoWriters.stepAt 1).cluster.toNat).test
        (twoWriters.stepAt 2).cluster = false := by
  refine ⟨twoWriters_accepted, by decide, by decide, ?_⟩
  have hno : ¬ Relation.ReflTransGen (ClusterEdge twoWriters.clusters) 1 2 := by
    intro hreach
    rcases Relation.ReflTransGen.cases_head hreach with heq | ⟨next, hedge, -⟩
    · cases heq
    · obtain ⟨-, hnext⟩ :=
        (accepted_of_validate twoWriters_accepted).clustered.lists.edge_lt hedge
      have hnone : ∀ next < 3, (1 : Int) ∉ StepGraph.clusterPreds twoWriters.clusters next := by
        decide
      exact hnone next hnext hedge
  have hcone := cone_iff (accepted_of_validate twoWriters_accepted) (c := 1) (by decide) 2
  exact Bool.eq_false_iff.mpr fun htest => hno (hcone.mp htest)

end RigExec.Baked
