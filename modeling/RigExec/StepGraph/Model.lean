/-
# `RigExec.StepGraph.Model` — the check of a file's step graph

`RigExecStepGraphError` goes through a file's steps and clusters in a fixed order
of loops and returns the first violation as a text, or the empty string.

    string          `stepGraphError`; the violation itself is a `Fault`, and
                    `Fault.text` writes it out
    loops           `findSome?` over the indexed list, in the source's order
    steps[i]        an index the checks before have not bounded reads as an
                    empty record; every such read comes after its range check
    int32, uint32   integers and naturals: entries and slots are only compared
-/
import RigExec.Lib.Runs
import RigExec.Lib.Countdown

namespace RigExec.StepGraph

/-! ## The graph -/

/-- `RigExecStepGraphRange`: the slots `[begin, stop)` of a domain. -/
abbrev StepGraphRange := Lib.Run Nat Nat

/-- A step of the file; `ρ` is the file's own slot range. -/
structure Step (ρ : Type) where
  kind : Nat := 0
  reads : List ρ := []
  writes : List ρ := []
  preds : List Int := []
  succs : List Int := []
  cluster : Int := 0

structure Cluster where
  members : List Int := []
  preds : List Int := []
  succs : List Int := []

structure Clustering where
  clusters : List Cluster := []
  clusterOf : List Int := []

/-- `fb::SlotDomain`, in order. -/
def slotDomainNames : List String :=
  ["Avars", "PoseBase", "PoseFin", "PosedM", "FinalMatrix", "BaseMatrix", "Aggregate",
    "SolverPoints", "Candidates", "CommitTable", "CommitDelta", "CommitStaging",
    "ConstraintDelta", "PropertyResult", "ChainBase", "RevisionPacket", "RevisionTransforms",
    "RevisionOut", "RevisionDone", "ChainDirty", "ChainPoints", "DerivedOut", "WeightPacket",
    "WeightFrames", "PoseWeight", "Snapshots", "FrameMatrix", "Rest", "Ladder", "SkinTopology",
    "WeightField", "WeightFramesBase", "SpaceValue", "SpaceLeaf", "DerivedBase", "ChainInput",
    "ConstraintInputs", "SwitchFrame", "RequiredStageFramesAdmission"]

/-- `fb::SlotDomain::Snapshots`. -/
def snapshotsDomain : Nat := 25

/-- `fb::StepKind::SnapshotFinals`. -/
def snapshotFinalsKind : Nat := 8

/-- `RigExecStepGraphDomainHoldsValue`: SolverPoints, SpaceLeaf, DerivedBase, ChainInput,
ConstraintInputs and RequiredStageFramesAdmission. -/
def domainHoldsValue (domain : Nat) : Bool :=
  [7, 33, 34, 35, 36, 38].contains domain

def domainName (domain : Nat) : String :=
  match slotDomainNames[domain]? with
  | some name => name
  | none => "domain " ++ toString domain

/-! ## What can be wrong -/

/-- What a message is about. -/
inductive Node where
  | step (s : Nat)
  | cluster (c : Nat)
deriving DecidableEq

def Node.thing : Node → String
  | .step _ => "step"
  | .cluster _ => "cluster"

def Node.name : Node → String
  | .step s => "step " ++ toString s
  | .cluster c => "cluster " ++ toString c

inductive Edge where
  | predecessor
  | successor
deriving DecidableEq

def Edge.word : Edge → String
  | .predecessor => "predecessor"
  | .successor => "successor"

/-- A violation, with the values its message names. -/
inductive Fault where
  | retiredKind (s : Nat)
  | retiredDomain (s : Nat)
  | noSuch (owner : Node) (edge : Edge) (entry : Int)
  | dependsOnItself (owner : Node)
  | dependsOnLater (owner : Node) (entry : Int)
  | namesEarlier (owner : Node) (edge : Edge) (entry : Int)
  | edgesOutOfOrder (owner : Node) (edge : Edge)
  | notNamedBack (node : Node) (forwardEdge : Edge) (other : Int) (backwardEdge : Edge)
  | outsideCanonicalOrder (s : Nat)
  | unwritten (s : Nat) (range : StepGraphRange)
  | placesCount (placed steps : Nat)
  | noCluster (s : Nat) (c : Int)
  | otherCluster (s : Nat) (c placed : Int)
  | noMember (c : Nat) (s : Int)
  | otherMember (c : Nat) (s placed : Int)
  | membersOutOfOrder (c : Nat)
  | notMember (s : Nat) (c : Int)
  | uncoveredEdge (s : Nat) (to_ : Int) (p : Int) (from_ : Int)
  | clusterCycle (c : Nat)
deriving DecidableEq

def Fault.text : Fault → String
  | .retiredKind s => (Node.step s).name ++ " is a retired SnapshotFinals step"
  | .retiredDomain s => (Node.step s).name ++ " declares the retired Snapshots domain"
  | .noSuch owner edge entry =>
      owner.name ++ " names " ++ edge.word ++ " " ++ toString entry ++ ", which is no " ++
        owner.thing
  | .dependsOnItself owner => owner.name ++ " depends on itself"
  | .dependsOnLater owner entry =>
      owner.name ++ " depends on later " ++ owner.thing ++ " " ++ toString entry
  | .namesEarlier owner edge entry =>
      owner.name ++ " names earlier " ++ owner.thing ++ " " ++ toString entry ++ " as a " ++
        edge.word
  | .edgesOutOfOrder owner edge =>
      owner.name ++ " lists its " ++ edge.word ++ "s out of order or twice"
  | .notNamedBack node forwardEdge other backwardEdge =>
      node.name ++ " names " ++ forwardEdge.word ++ " " ++ toString other ++
        ", which does not name it as a " ++ backwardEdge.word
  | .outsideCanonicalOrder s =>
      (Node.step s).name ++ " has a predecessor outside canonical order"
  | .unwritten s range =>
      (Node.step s).name ++ " reads " ++ domainName range.domain ++ " slots [" ++
        toString range.begin ++ ", " ++ toString range.stop ++ "), which no earlier step writes"
  | .placesCount placed steps =>
      "the clustering places " ++ toString placed ++ " steps; the file has " ++ toString steps
  | .noCluster s c =>
      (Node.step s).name ++ " names cluster " ++ toString c ++ ", which is no cluster"
  | .otherCluster s c placed =>
      (Node.step s).name ++ " names cluster " ++ toString c ++
        ", but the clustering places it in cluster " ++ toString placed
  | .noMember c s => (Node.cluster c).name ++ " names member " ++ toString s ++ ", which is no step"
  | .otherMember c s placed =>
      (Node.cluster c).name ++ " names member " ++ toString s ++
        ", which the clustering places in cluster " ++ toString placed
  | .membersOutOfOrder c => (Node.cluster c).name ++ " lists its members out of order or twice"
  | .notMember s c => (Node.step s).name ++ " is not a member of cluster " ++ toString c
  | .uncoveredEdge s to_ p from_ =>
      (Node.step s).name ++ " in cluster " ++ toString to_ ++ " depends on step " ++ toString p ++
        " in cluster " ++ toString from_ ++ ", which cluster " ++ toString to_ ++
        " does not depend on"
  | .clusterCycle c => "the cluster graph has a cycle through " ++ (Node.cluster c).name

/-! ## Written slots -/

/-- `WrittenRuns`: the runs, in the order of their keys. -/
abbrev WrittenRuns := List StepGraphRange

/-- `WrittenRuns::Covers`. -/
def WrittenRuns.covers (runs : WrittenRuns) (range : StepGraphRange) : Bool :=
  match (runs.takeWhile fun run => run.keyLe range).getLast? with
  | none => false
  | some run => run.domain = range.domain ∧ range.stop ≤ run.stop

/-- The second loop of `WrittenRuns::Add`: the runs a new run overlaps or touches are merged into
it. -/
def WrittenRuns.absorb (run : StepGraphRange) : WrittenRuns → WrittenRuns
  | [] => [run]
  | next :: rest =>
      if next.domain = run.domain ∧ next.begin ≤ run.stop then
        absorb { run with stop := max run.stop next.stop } rest
      else run :: next :: rest

/-- `WrittenRuns::Add`. -/
def WrittenRuns.add (runs : WrittenRuns) (range : StepGraphRange) : WrittenRuns :=
  if range.begin ≥ range.stop then runs
  else
    let before := runs.takeWhile fun run => run.keyLe range
    let after := runs.dropWhile fun run => run.keyLe range
    match before.getLast? with
    | none => absorb range after
    | some last =>
        if last.domain = range.domain ∧ range.begin ≤ last.stop then
          before.dropLast ++
            absorb ⟨range.domain, last.begin, max range.stop last.stop⟩ after
        else before ++ absorb range after

/-! ## The loops -/

/-- Which side of their owner an edge list's entries must lie on. -/
inductive Side where
  | earlier
  | later
  | either
deriving DecidableEq

/-- `EdgeListError`, from the entry after `previous` on. -/
def edgeListError (count : Nat) (self : Int) (side : Side) (owner : Node) (edge : Edge) :
    Option Int → List Int → Option Fault
  | _, [] => none
  | previous, entry :: list =>
      if entry < 0 ∨ entry ≥ count then some (.noSuch owner edge entry)
      else if entry = self then some (.dependsOnItself owner)
      else if side = .earlier ∧ entry > self then some (.dependsOnLater owner entry)
      else if side = .later ∧ entry < self then some (.namesEarlier owner edge entry)
      else if previous.any (entry ≤ ·) then some (.edgesOutOfOrder owner edge)
      else edgeListError count self side owner edge (some entry) list

/-- `InverseError`; the lists it searches are ascending by then, so the binary search is
membership. -/
def inverseError (count : Nat) (forward backward : Nat → List Int) (node : Nat → Node)
    (forwardEdge backwardEdge : Edge) : Option Fault :=
  (List.range count).findSome? fun at_ =>
    (forward at_).findSome? fun other =>
      if (at_ : Int) ∈ backward other.toNat then none
      else some (.notNamedBack (node at_) forwardEdge other backwardEdge)

section

variable {ρ : Type} (rangeOf : ρ → StepGraphRange) (steps : List (Step ρ))

/-- The predecessors of step `s`. -/
def stepPreds (s : Nat) : List Int := (steps[s]?.getD {}).preds

/-- The successors of step `s`. -/
def stepSuccs (s : Nat) : List Int := (steps[s]?.getD {}).succs

/-- `RigExecStepGraphReservedError`. -/
def reservedError : Option Fault :=
  steps.zipIdx.findSome? fun (step, s) =>
    if step.kind = snapshotFinalsKind then some (.retiredKind s)
    else (step.reads ++ step.writes).findSome? fun range =>
      if (rangeOf range).domain = snapshotsDomain then some (.retiredDomain s) else none

/-- Each step's own lists. -/
def stepEdgesError : Option Fault :=
  (List.range steps.length).findSome? fun (s : Nat) =>
    edgeListError steps.length s .earlier (.step s) .predecessor none (stepPreds steps s) <|>
    edgeListError steps.length s .later (.step s) .successor none (stepSuccs steps s)

def stepInverseError : Option Fault :=
  inverseError steps.length (stepPreds steps) (stepSuccs steps) .step .predecessor .successor <|>
  inverseError steps.length (stepSuccs steps) (stepPreds steps) .step .successor .predecessor

/-- The walk order is the file order. -/
def canonicalOrderError : Option Fault :=
  (List.range steps.length).findSome? fun (s : Nat) =>
    (stepPreds steps s).findSome? fun (predecessor : Int) =>
      if predecessor < 0 ∨ predecessor ≥ s then some (.outsideCanonicalOrder s) else none

/-- The reads of the steps from `s` on, under the slots written so far. -/
def readsError : Nat → WrittenRuns → List (Step ρ) → Option Fault
  | _, _, [] => none
  | s, written, step :: rest =>
      (step.reads.findSome? fun read =>
        let range := rangeOf read
        if range.begin < range.stop ∧ domainHoldsValue range.domain = false ∧
            written.covers range = false then some (.unwritten s range) else none) <|>
      readsError (s + 1) (step.writes.foldl (fun runs write => runs.add (rangeOf write)) written)
        rest

variable (clustering : Clustering)

def placedIn (s : Nat) : Int := clustering.clusterOf[s]?.getD 0

def clusterAt (clusters : List Cluster) (c : Nat) : Cluster := clusters[c]?.getD {}

/-- `clusterOf` against each step's own cluster. -/
def placementError : Option Fault :=
  if clustering.clusterOf.length ≠ steps.length then
    some (.placesCount clustering.clusterOf.length steps.length)
  else steps.zipIdx.findSome? fun (step, s) =>
    if step.cluster < 0 ∨ step.cluster ≥ clustering.clusters.length then
      some (.noCluster s step.cluster)
    else if placedIn clustering s ≠ step.cluster then
      some (.otherCluster s step.cluster (placedIn clustering s))
    else none

/-- One cluster's members, from the one after `previous` on. -/
def memberError (count : Nat) (c : Nat) : Option Int → List Int → Option Fault
  | _, [] => none
  | previous, s :: members =>
      if s < 0 ∨ s ≥ count then some (.noMember c s)
      else if placedIn clustering s.toNat ≠ c then
        some (.otherMember c s (placedIn clustering s.toNat))
      else if previous.any (s ≤ ·) then some (.membersOutOfOrder c)
      else memberError count c (some s) members

def membersError : Option Fault :=
  clustering.clusters.zipIdx.findSome? fun (cluster, c) =>
    memberError clustering steps.length c none cluster.members

/-- Every step is a member of its cluster. -/
def membershipError : Option Fault :=
  (List.range steps.length).findSome? fun (s : Nat) =>
    if (s : Int) ∈ (clusterAt clustering.clusters (placedIn clustering s).toNat).members then none
    else some (.notMember s (placedIn clustering s))

/-- Every step edge across clusters is a cluster edge. -/
def crossEdgeError : Option Fault :=
  (List.range steps.length).findSome? fun (s : Nat) =>
    let to_ := placedIn clustering s
    (stepPreds steps s).findSome? fun p =>
      let from_ := placedIn clustering p.toNat
      if from_ ≠ to_ ∧ from_ ∉ (clusterAt clustering.clusters to_.toNat).preds then
        some (.uncoveredEdge s to_ p from_)
      else none

end

section

variable (clusters : List Cluster)

def clusterPreds (c : Nat) : List Int := (clusterAt clusters c).preds

def clusterSuccs (c : Nat) : List Int := (clusterAt clusters c).succs

/-- Each cluster's own lists. -/
def clusterEdgesError : Option Fault :=
  (List.range clusters.length).findSome? fun (c : Nat) =>
    edgeListError clusters.length c .either (.cluster c) .predecessor none
      (clusterPreds clusters c) <|>
    edgeListError clusters.length c .either (.cluster c) .successor none (clusterSuccs clusters c)

def clusterInverseError : Option Fault :=
  inverseError clusters.length (clusterPreds clusters) (clusterSuccs clusters) .cluster
    .predecessor .successor <|>
  inverseError clusters.length (clusterSuccs clusters) (clusterPreds clusters) .cluster
    .successor .predecessor

/-- The waiting counts and the ready list before the sort. -/
def initialWaiting : List Int × List Nat :=
  (clusters.map fun cluster => (cluster.preds.length : Int),
    (List.range clusters.length).filter fun c => (clusterPreds clusters c).isEmpty)

/-- The Kahn sort over the cluster preds. -/
def sortClusters : List Int × List Nat :=
  Lib.drain (fun c => (clusterSuccs clusters c).map Int.toNat) (initialWaiting clusters) 0

/-- A cluster the walk has passed. -/
def visited : Int := -1

/-- The walk from a waiting cluster to its first waiting predecessor, and on, until it comes to a
cluster again. -/
def cycleWalk (waiting : List Int) (at_ : Nat) : Nat :=
  match _h : waiting[at_]? with
  | none => at_
  | some count =>
      if _hcount : count = visited then at_
      else
        let marked := waiting.set at_ visited
        cycleWalk marked
          (((clusterPreds clusters at_).find? fun pred =>
            marked[pred.toNat]?.getD 0 ≠ 0).elim at_ Int.toNat)
termination_by waiting.countP (· ≠ visited)
decreasing_by
  obtain ⟨hlt, hget⟩ := List.getElem?_eq_some_iff.mp _h
  have hpos : 0 < waiting.countP (· ≠ visited) :=
    List.countP_pos_iff.mpr ⟨count, List.mem_of_getElem? _h, by simpa using _hcount⟩
  rw [List.countP_set hlt, hget, if_pos (by simpa using _hcount), if_neg (by simp)]
  omega

/-- The cluster graph's cycle, by one of its clusters. -/
def cycleError : Option Fault :=
  let sorted := sortClusters clusters
  if sorted.2.length = clusters.length then none
  else some (.clusterCycle (cycleWalk clusters sorted.1 (sorted.1.findIdx (· ≠ 0))))

end

/-! ## The check -/

section

variable {ρ : Type} (rangeOf : ρ → StepGraphRange) (steps : List (Step ρ))
  (clustering : Clustering) (excluded : List StepGraphRange)

/-- The first violation. -/
def stepGraphFault : Option Fault :=
  reservedError rangeOf steps <|>
  stepEdgesError steps <|>
  stepInverseError steps <|>
  canonicalOrderError steps <|>
  readsError rangeOf 0 (excluded.foldl WrittenRuns.add []) steps <|>
  placementError steps clustering <|>
  membersError steps clustering <|>
  membershipError steps clustering <|>
  clusterEdgesError clustering.clusters <|>
  clusterInverseError clustering.clusters <|>
  crossEdgeError steps clustering <|>
  cycleError clustering.clusters

def stepGraphError : String :=
  match stepGraphFault rangeOf steps clustering excluded with
  | none => ""
  | some fault => fault.text

end

end RigExec.StepGraph
