/-
# `RigExec.Baked.Validator` — the check of a built program's step graph

`RigExecBakedValidateStepGraph` collects the violations of every check, in the order of its
loops; a program is accepted when there are none.  The checks of edges, slot producers and
clusters are embedded here; the others look into solver, head, pose and chain tables, and
enter as a parameter (`OtherChecks`).
-/
import RigExec.StepGraph.ClusterOrder
import RigExec.Baked.Model

namespace RigExec.Baked

open Lib (Ascending)
open StepGraph (Cluster ClusterLists EdgesOk clusterPreds clusterSuccs)

/-- One line, if the check fails. -/
def lineIf (fails : Prop) [Decidable fails] (line : String) : List String :=
  if fails then [line] else []

@[simp] theorem lineIf_eq_nil {fails : Prop} [Decidable fails] {line : String} :
    lineIf fails line = [] ↔ ¬ fails := by
  simp [lineIf]

section

variable (B : Program)

def nameStep (index : Int) : String :=
  "step " ++ toString index ++
    if 0 ≤ index ∧ (B.stepAt index.toNat).label ≠ "" then
      " (" ++ (B.stepAt index.toNat).label ++ ")"
    else ""

/-! ## Step edges -/

/-- The predecessors of one step; the lists searched are ascending in an accepted program, so
the binary search is membership. -/
def predViolations (index : Nat) : List String :=
  (B.stepAt index).preds.flatMap fun (pred : Int) =>
    if pred < 0 ∨ pred ≥ index then
      [nameStep B index ++ " depends on " ++ nameStep B pred ++
        ", which is not earlier in program order"]
    else lineIf ((index : Int) ∉ (B.stepAt pred.toNat).succs)
      (nameStep B index ++ " depends on " ++ nameStep B pred ++
        ", which does not list it as a successor")

/-- The successors of one step. -/
def succViolations (index : Nat) : List String :=
  (B.stepAt index).succs.flatMap fun (succ : Int) =>
    if succ ≤ index ∨ succ ≥ B.steps.length then
      [nameStep B index ++ " names successor " ++ nameStep B succ ++
        ", which is not later in program order"]
    else lineIf ((index : Int) ∉ (B.stepAt succ.toNat).preds)
      (nameStep B index ++ " names successor " ++ nameStep B succ ++
        ", which does not depend on it")

def validateStepEdges : List String :=
  (List.range B.steps.length).flatMap fun (index : Nat) =>
    if ¬ Ascending (B.stepAt index).preds ∨ ¬ Ascending (B.stepAt index).succs then
      [nameStep B index ++ " lists an edge out of order or twice"]
    else predViolations B index ++ succViolations B index

/-! ## Slot producers -/

def isDeclaredSeedOrExcluded (domain : SlotDomain) (entry : Nat) : Bool :=
  ((domain = .poseFin || domain = .poseBase) && entry < B.pathCount &&
    B.xformSlots.contains (entry : Int)) ||
  B.excludedValues.any fun id =>
    B.adapterValues[id]?.any fun value => value.domain = domain.index && value.slot = entry

/-- The lowest step whose declared writes cover a slot. -/
def firstWriter (domain : SlotDomain) (slot : Nat) : Option Nat :=
  (List.range B.steps.length).find? fun index => covers (B.stepAt index).writes domain slot

/-- The first loop, over one declared range. -/
def rangeViolations (index : Nat) (isWrite : Bool) (range : SlotRange) : List String :=
  lineIf (range.domain = .requiredStageFramesAdmission ∧
      (range.begin_ ≠ 0 ∨ range.end_ ≠ 1 ∨ isWrite = true))
    (nameStep B index ++ " has an invalid source-only stage-frame admission range") ++
  lineIf (range.domain = .snapshots)
    (nameStep B index ++ " declares the retired Snapshots domain")

/-- A slot read past the edge from its producer. -/
def edgeViolations (index : Nat) (domain : SlotDomain) (slot : Nat) : List String :=
  match firstWriter B domain slot with
  | none => []
  | some writer =>
      lineIf (writer < index ∧ (writer : Int) ∉ (B.stepAt index).preds)
        (nameStep B index ++ " reads " ++ domain.name ++ "[" ++ toString slot ++
          "] without an edge from its producer " ++ nameStep B writer)

/-- No step before the reader writes the slot. -/
def isUnproduced (index : Nat) (domain : SlotDomain) (slot : Nat) : Bool :=
  match firstWriter B domain slot with
  | none => !isDeclaredSeedOrExcluded B domain slot
  | some writer => !decide (writer < index)

/-- The line about the unproduced slots of a read. -/
def unproducedLine (index : Nat) (read : SlotRange) : List Nat → List String
  | [] => []
  | firstBad :: rest =>
      [nameStep B index ++ " reads " ++ read.domain.name ++ "[" ++ toString firstBad ++ "]" ++
        (match firstWriter B read.domain firstBad with
          | none => ", which no step writes"
          | some writer => ", which no step before it writes (the first writer is " ++
              nameStep B writer ++ ")") ++
        if rest = [] then "" else
          "; " ++ toString (rest.length + 1) ++ " slots of " ++ read.domain.name ++ "[" ++
            toString read.begin_ ++ "," ++ toString read.end_ ++ ") are unproduced"]

/-- The last loop, over one read. -/
def readViolations (index : Nat) (read : SlotRange) : List String :=
  if read.domain.isSource = true ∨ read.domain = .snapshots then []
  else read.slots.flatMap (edgeViolations B index read.domain) ++
    unproducedLine B index read (read.slots.filter (isUnproduced B index read.domain))

def validateSlotProducers : List String :=
  ((List.range B.steps.length).flatMap fun index =>
    (B.stepAt index).reads.flatMap (rangeViolations B index false) ++
      (B.stepAt index).writes.flatMap (rangeViolations B index true)) ++
  (List.range B.steps.length).flatMap fun index =>
    (B.stepAt index).reads.flatMap (readViolations B index)

/-! ## Clusters -/

def nameCluster (c : Int) : String := "cluster " ++ toString c

/-- `clusterOf[index]`. -/
def clusterOf (index : Nat) : Int := B.clustering.clusterOf[index]?.getD 0

/-- The first step whose cluster is not the one the clustering puts it in. -/
def misplaced : Option String :=
  (List.range B.steps.length).findSome? fun (index : Nat) =>
    if clusterOf B index < 0 ∨ clusterOf B index ≥ B.clusters.length ∨
        (B.stepAt index).cluster ≠ clusterOf B index then
      some (nameStep B index ++ " is in " ++ nameCluster (B.stepAt index).cluster ++
        " but the clustering puts it in " ++ nameCluster (clusterOf B index))
    else none

/-- A cluster's members. -/
def membersOf (c : Nat) : List Int := (StepGraph.clusterAt B.clusters c).members

/-- The members of one cluster. -/
def memberViolations (c : Nat) : List String :=
  lineIf (¬ Ascending (membersOf B c))
    (nameCluster c ++ " does not hold its members in program order") ++
  (membersOf B c).flatMap fun (member : Int) =>
    lineIf (member < 0 ∨ member ≥ B.steps.length ∨ clusterOf B member.toNat ≠ c)
      (nameCluster c ++ " holds " ++ nameStep B member ++ ", which the clustering puts elsewhere")

/-- The edge lists of one cluster. -/
def clusterEdgeViolations (c : Nat) : List String :=
  if ¬ Ascending (clusterPreds B.clusters c) ∨ ¬ Ascending (clusterSuccs B.clusters c) then
    [nameCluster c ++ " lists an edge out of order or twice"]
  else
    ((clusterPreds B.clusters c).flatMap fun (pred : Int) =>
      lineIf (pred < 0 ∨ pred ≥ B.clusters.length ∨ pred = c ∨
          (c : Int) ∉ clusterSuccs B.clusters pred.toNat)
        (nameCluster c ++ " depends on " ++ nameCluster pred ++
          ", which does not list it as a successor")) ++
    (clusterSuccs B.clusters c).flatMap fun (succ : Int) =>
      lineIf (succ < 0 ∨ succ ≥ B.clusters.length ∨ succ = c ∨
          (c : Int) ∉ clusterPreds B.clusters succ.toNat)
        (nameCluster c ++ " names successor " ++ nameCluster succ ++
          ", which does not depend on it")

/-- How many members the clusters hold. -/
def memberCount : Nat :=
  (B.clusters.map fun cluster => cluster.members.length).foldr (· + ·) 0

/-- A step edge between two clusters that no cluster edge covers. -/
def coverViolations (index : Nat) : List String :=
  (B.stepAt index).preds.flatMap fun (pred : Int) =>
    lineIf (0 ≤ pred ∧ pred < B.steps.length ∧ clusterOf B pred.toNat ≠ clusterOf B index ∧
        clusterOf B pred.toNat ∉ clusterPreds B.clusters (clusterOf B index).toNat)
      (nameStep B index ++ " depends on " ++ nameStep B pred ++ ", but " ++
        nameCluster (clusterOf B index) ++ " does not depend on " ++
        nameCluster (clusterOf B pred.toNat))

/-- The first entry of the stored order that is no cluster, or stands there before. -/
def misnamed : Option String :=
  B.clustering.topologicalOrder.zipIdx.findSome? fun (c, k) =>
    if c < 0 ∨ c ≥ B.clusters.length ∨ c ∈ B.clustering.topologicalOrder.take k then
      some ("the cluster order names " ++ nameCluster c ++ " out of range or twice")
    else none

/-- `position[c]`. -/
def position (c : Int) : Nat := B.clustering.topologicalOrder.idxOf c

/-- The stored cluster order. -/
def orderViolations : List String :=
  match misnamed B with
  | some line => [line]
  | none =>
      if B.clustering.topologicalOrder.length ≠ B.clusters.length then
        ["the cluster order holds " ++ toString B.clustering.topologicalOrder.length ++ " of " ++
          toString B.clusters.length ++ " clusters"]
      else (List.range B.clusters.length).flatMap fun (c : Nat) =>
        (clusterPreds B.clusters c).flatMap fun (pred : Int) =>
          lineIf (0 ≤ pred ∧ pred < B.clusters.length ∧ position B pred > position B c)
            ("the cluster order puts " ++ nameCluster c ++ " before its predecessor " ++
              nameCluster pred)

def validateClusters : List String :=
  if B.clustering.clusterOf.length ≠ B.steps.length then
    ["the clustering assigns " ++ toString B.clustering.clusterOf.length ++ " of " ++
      toString B.steps.length ++ " steps"]
  else match misplaced B with
    | some line => [line]
    | none =>
        ((List.range B.clusters.length).flatMap fun c =>
          memberViolations B c ++ clusterEdgeViolations B c) ++
        lineIf (memberCount B ≠ B.steps.length)
          ("the clusters hold " ++ toString (memberCount B) ++ " members for " ++
            toString B.steps.length ++ " steps") ++
        (List.range B.steps.length).flatMap (coverViolations B) ++
        orderViolations B

end

/-! ## The check -/

/-- The checks over tables that are not embedded: each lists its violations. -/
structure OtherChecks where
  semanticRequirements : Program → List String
  admissionRoles : Program → List String
  headTier : Program → List String
  headReads : Program → List String
  poseVersions : Program → List String
  pointVersions : Program → List String

/-- All violations, in the order of the checks. -/
def violations (others : OtherChecks) (B : Program) : List String :=
  validateStepEdges B ++ others.semanticRequirements B ++ validateSlotProducers B ++
    others.admissionRoles B ++ others.headTier B ++ others.headReads B ++
    others.poseVersions B ++ others.pointVersions B ++ validateClusters B

/-- `RigExecBakedValidateStepGraph`. -/
def validateStepGraph (others : OtherChecks) (B : Program) : Except String Unit :=
  match violations others B with
  | [] => .ok ()
  | first :: more =>
      .error (if more = [] then first
        else first ++ " (and " ++ toString more.length ++ " more)")

end RigExec.Baked
