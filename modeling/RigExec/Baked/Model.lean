/-
# `RigExec.Baked.Model` — the baked program

The steps of a baked program in canonical order, the slots they declare, the clustering
they were packed into, and the tables the schedule's checks and closures look into.

    std::vector     lists; an entry past the end reads as an empty record, and every
                    such read of an accepted program is in range
    int             `Int`: edges, clusters and objects are negative where unset
    uint32_t        `Nat`: slots are only compared and enumerated
-/
import RigExec.StepGraph.Model

namespace RigExec.Baked

open StepGraph (Cluster)

/-! ## Slots -/

/-- `RigExecBakedSlotDomain`, in order. -/
inductive SlotDomain where
  | avars
  | poseBase
  | poseFin
  | posedM
  | finalMatrix
  | baseMatrix
  | aggregate
  | solverPoints
  | candidates
  | commitTable
  | commitDelta
  | commitStaging
  | constraintDelta
  | propertyResult
  | chainBase
  | revisionPacket
  | revisionTransforms
  | revisionOut
  | revisionDone
  | chainDirty
  | chainPoints
  | derivedOut
  | weightPacket
  | weightFrames
  | poseWeight
  | snapshots
  | frameMatrix
  | rest
  | ladder
  | skinTopology
  | weightField
  | weightFramesBase
  | spaceValue
  | spaceLeaf
  | derivedBase
  | chainInput
  | constraintInputs
  | switchFrame
  | requiredStageFramesAdmission
deriving DecidableEq

/-- `uint32_t(domain)`. -/
def SlotDomain.index (domain : SlotDomain) : Nat := domain.ctorIdx

/-- `RigExecBakedSlotDomainName`; the file's names for them are the same. -/
def SlotDomain.name (domain : SlotDomain) : String := StepGraph.domainName domain.index

/-- `RigExecBakedIsSourceDomain`: the prologue fills it, and a read of it needs no producer. -/
def SlotDomain.isSource : SlotDomain → Bool
  | .solverPoints | .spaceLeaf | .derivedBase | .chainInput | .constraintInputs
  | .requiredStageFramesAdmission => true
  | _ => false

/-- `RigExecBakedSlotRange`: the slots `[begin_, end_)` of a domain. -/
structure SlotRange where
  domain : SlotDomain
  begin_ : Nat
  end_ : Nat
deriving DecidableEq

/-- The slots of a range, ascending. -/
def SlotRange.slots (range : SlotRange) : List Nat :=
  List.range' range.begin_ (range.end_ - range.begin_)

/-- Some range of the domain covers the slot. -/
def covers (ranges : List SlotRange) (domain : SlotDomain) (slot : Nat) : Bool :=
  ranges.any fun range => range.domain = domain && range.begin_ ≤ slot && slot < range.end_

/-! ## Steps -/

/-- `RigExecBakedStepKind`. -/
inductive StepKind where
  | composeSubtree
  | solve
  | solverCommit
  | constraint
  | commitDelta
  | propagateChunk
  | commitApply
  | providerMatrix
  | snapshotFinals
  | poseInterpolator
  | volumePlacements
  | weightPacket
  | influenceFold
  | revisionStatic
  | revisionChunk
  | revisionFuse
  | chainStatus
  | derived
  | frameMatrix
  | propertyRevision
  | restCompose
  | ladderCompose
  | skinTopology
  | weightField
  | spaceExpression
  | chainInputs
  | avarInputs
  | spaceCheckpoint
  | providerRefresh
deriving DecidableEq

/-- `RigExecBakedStep`. -/
structure Step where
  isHead : Bool := false
  kind : StepKind := .composeSubtree
  object : Int := -1
  part : Int := -1
  label : String := ""
  reads : List SlotRange := []
  writes : List SlotRange := []
  preds : List Int := []
  succs : List Int := []
  cluster : Int := -1

/-- `RigExecBakedClustering`. -/
structure Clustering where
  clusters : List Cluster := []
  clusterOf : List Int := []
  topologicalOrder : List Int := []

/-- A value of the op adapter: the slot it stands for. -/
structure AdapterValue where
  domain : Nat
  slot : Nat

/-! ## The program -/

/-- `RigExecBakedProgramImpl`, as far as the schedule looks into it. -/
structure Program where
  steps : List Step := []
  clustering : Clustering := {}
  /-- `paths.size()`. -/
  pathCount : Nat := 0
  xformSlots : List Int := []
  /-- `opAdapter.values` and `opAdapter.excludedValues`. -/
  adapterValues : List AdapterValue := []
  excludedValues : List Nat := []
  propertyVersionCount : Nat := 0
  /-- `weightFields.size()`. -/
  weightFieldCount : Nat := 0

def Program.stepAt (B : Program) (index : Nat) : Step := B.steps[index]?.getD {}

def Program.clusters (B : Program) : List Cluster := B.clustering.clusters

/-- `RigExecBakedHeadIndices`. -/
def Program.headIndices (B : Program) : List Nat :=
  (List.range B.steps.length).filter fun index => (B.stepAt index).isHead

/-! ## Coverage -/

theorem mem_slots {range : SlotRange} {slot : Nat} :
    slot ∈ range.slots ↔ range.begin_ ≤ slot ∧ slot < range.end_ := by
  rw [SlotRange.slots, List.mem_range'_1]
  omega

theorem covers_iff {ranges : List SlotRange} {domain : SlotDomain} {slot : Nat} :
    covers ranges domain slot = true ↔
      ∃ range ∈ ranges, range.domain = domain ∧ slot ∈ range.slots := by
  simp only [covers, List.any_eq_true, Bool.and_eq_true, decide_eq_true_eq, mem_slots, and_assoc]

theorem mem_headIndices {B : Program} {index : Nat} :
    index ∈ B.headIndices ↔ index < B.steps.length ∧ (B.stepAt index).isHead = true := by
  rw [Program.headIndices, List.mem_filter, List.mem_range]

theorem stepAt_of_ge {B : Program} {index : Nat} (h : B.steps.length ≤ index) :
    B.stepAt index = {} := by
  rw [Program.stepAt, List.getElem?_eq_none h]
  rfl

end RigExec.Baked
