/-
# `RigExec.Scene.Normalization` — the retries of the scene compiler

`RigExecLowerSceneProgram` lowers the captured scene, looks at what the compiler
set aside, and lowers it again without the solver bodies and pose writers among
that, until nothing new is set aside.

    lowering        a parameter: whatever the sets and the last proof make it emit
    operations      by the alternative of the variant, with what is read of it
    roles           the two sets; one more role a retry
    owners          maps from keys to the paths that may be withdrawn with them
    Fault           the message, as a value

A key names its owner after a fixed prefix; making a path of a text and asking
whether it is a prim path are parameters too.
-/
import Mathlib.Data.Finset.Card
import Mathlib.Data.Finset.Insert
import RigExec.Lib.ListMap
import RigExec.OpGraph.Model
import RigExec.Scene.Descriptors

namespace RigExec.Scene

open OpGraph (OpDescriptor CompiledGraph OpExclusionProof)
open Lib (sortUnique)

/-! ## What is lowered -/

/-- `RigExecSceneOperation`: the alternatives the retries look at. -/
inductive SceneOperation where
  | solver
  | poseCommit
  | extract (element : Nat)
  | constraint
  | switch
  | autoClavicle
  | field
  | geometry (mover target driverFrames : SdfPath)
  | other

structure SceneProgram where
  initialProviderOps : Nat := 0
  baseSelections : Nat := 0
  descriptors : List OpDescriptor := []
  operations : List SceneOperation := []
  graph : CompiledGraph := {}
  retainedExclusions : OpExclusionProof := {}

/-- The descriptor of an operation. -/
def SceneProgram.descriptorIndex (program : SceneProgram) (i : Nat) : Nat :=
  program.initialProviderOps + program.baseSelections + i

/-- The key of an operation. -/
def SceneProgram.keyAt (program : SceneProgram) (i : Nat) : String :=
  OpGraph.keyOf program.descriptors (program.descriptorIndex i)

/-- Why there is no program. -/
inductive LoweringFault where
  | nullOutput
  | tooManyRoles
  | lowering (message : String)
  | descriptorMismatch
  | solverKey
  | solverOwner
  | commitKey
  | commitOwner
  | commitBindings
  | removalOwner
  | ambiguousJoint
  | geometryKey
  | notConverged
deriving DecidableEq

/-- The message. -/
def LoweringFault.text : LoweringFault → String
  | .nullOutput => "null scene compiler output"
  | .tooManyRoles => "too many scene normalization roles"
  | .lowering message => message
  | .descriptorMismatch => "scene exclusion descriptor mismatch"
  | .solverKey => "excluded solver has no stable owner key"
  | .solverOwner => "excluded solver owner is missing or ambiguous"
  | .commitKey => "excluded commit has no stable owner key"
  | .commitOwner => "excluded commit owner is missing or ambiguous"
  | .commitBindings => "excluded commit has no authored writer bindings"
  | .removalOwner => "commit removal owner is malformed"
  | .ambiguousJoint => "solver joint removal owner is ambiguous"
  | .geometryKey => "geometry withdrawal owner key is inconsistent"
  | .notConverged => "scene pose writer normalization did not converge"

/-- What the attempts hand on. -/
structure NormalizationState where
  excludedPoseWriters : Finset SdfPath := ∅
  excludedSolverBodies : Finset SdfPath := ∅
  proof : OpExclusionProof := {}
  removableOwners : List (String × SdfPath) := []
  removableGeometryDrivers : List (String × SdfPath) := []

/-- `std::map::emplace`: a key that is there keeps its value. -/
def emplaceOwner (owners : List (String × SdfPath)) (key : String) (owner : SdfPath) :
    List (String × SdfPath) :=
  owners ++ [(key, owner)]

/-- `std::map::find`. -/
def findOwner (owners : List (String × SdfPath)) (key : String) : Option SdfPath :=
  (Lib.emplaced Prod.fst owners key).map Prod.snd

/-- `key.compare(0, n, prefix) == 0`. -/
def startsWith (key front : String) : Bool := front.toList.isPrefixOf key.toList

/-- `key.substr(n)`. -/
def substr (key : String) (n : Nat) : String := String.ofList (key.toList.drop n)

/-! ## One attempt -/

section

variable {V T Time : Type} (sdfPath : String → SdfPath) (isPrimPath : SdfPath → Bool)
  (scene : SceneDescriptors V T Time)

def excludeSolver (key : String) (state : NormalizationState) :
    Except LoweringFault (Bool × NormalizationState) :=
  if startsWith key "solver:" = false then .error .solverKey
  else
    let owner := sdfPath (substr key 7)
    match scene.node owner with
    | none => .error .solverOwner
    | some node =>
        if isPrimPath owner = false ∨ node.domain ≠ .solver then .error .solverOwner
        else
          .ok (owner ∉ state.excludedSolverBodies,
            { state with excludedSolverBodies := insert owner state.excludedSolverBodies })

/-- The prefix of a commit's key. -/
def commitPrefix (key : String) : String :=
  if startsWith key "solverCommit:" then "solverCommit:" else "commit:"

/-- The owner in a commit's key. -/
def commitOwner (key : String) : SdfPath := sdfPath (substr key (commitPrefix key).length)

def excludeCommit (key : String) (state : NormalizationState) :
    Except LoweringFault (Bool × NormalizationState) :=
  let solver := startsWith key "solverCommit:"
  if startsWith key (commitPrefix key) = false then .error .commitKey
  else
    let owner := commitOwner sdfPath key
    match scene.node owner with
    | none => .error .commitOwner
    | some node =>
        if isPrimPath owner = false ∨
            (if solver then node.domain ≠ .solver
            else node.domain ≠ .constraint ∧ node.domain ≠ .autoClavicle) then
          .error .commitOwner
        else
          let bound :=
            if solver then scene.jointBindings.any fun binding => binding.solver = owner
            else scene.applications.any fun application => application.owner = owner
          if bound = false ∧ (solver = true ∨ node.type ≠ "RigExecSingleChainIkConstraint") then
            .error .commitBindings
          else
            .ok (owner ∉ state.excludedPoseWriters,
              { state with excludedPoseWriters := insert owner state.excludedPoseWriters })

/-- An operation the compiler set aside; the flag tells whether its role is a new one. -/
def excludeOperation (key : String) (state : NormalizationState) :
    SceneOperation → Except LoweringFault (Bool × NormalizationState)
  | .solver => excludeSolver sdfPath isPrimPath scene key state
  | .poseCommit => excludeCommit sdfPath isPrimPath scene key state
  | _ => .ok (false, state)

/-- The operations from the `i`th on that the compiler set aside; the flag is `changed`. -/
def excludeOperations (candidate : SceneProgram) :
    Nat → List SceneOperation → Bool × NormalizationState →
      Except LoweringFault (Bool × NormalizationState)
  | _, [], found => .ok found
  | i, operation :: rest, (changed, state) =>
      match candidate.graph.canonicalIndex[candidate.descriptorIndex i]? with
      | none => .error .descriptorMismatch
      | some place =>
          if place ≥ 0 then excludeOperations candidate (i + 1) rest (changed, state)
          else
            match excludeOperation sdfPath isPrimPath scene (candidate.keyAt i) state operation with
            | .error fault => .error fault
            | .ok (inserted, state) =>
                excludeOperations candidate (i + 1) rest (changed || inserted, state)

/-- The owners of a joint's extraction. -/
def jointOwners (key : String) (element : Nat) :
    List JointBindingDescriptor → List (String × SdfPath) →
      Except LoweringFault (List (String × SdfPath))
  | [], owners => .ok owners
  | binding :: rest, owners =>
      if key = "solverJoint:" ++ binding.joint ∧ binding.element = element then
        match findOwner owners key with
        | some owner =>
            if owner ≠ binding.solver then .error .ambiguousJoint
            else jointOwners key element rest owners
        | none => jointOwners key element rest (emplaceOwner owners key binding.solver)
      else jointOwners key element rest owners

/-- The owners of a revision, from the moves applications and from the retained chains. -/
def revisionOwners (key : String) (field : Bool) (owners : List (String × SdfPath)) :
    List (String × SdfPath) :=
  let applied := scene.applications.foldl (fun owners application =>
    let revision := "revision:" ++ application.owner ++ ":" ++ application.canonicalTarget
    if (application.domain = .constraint ∨ application.domain = .autoClavicle) ∧
        (key = revision ∨ key = "field:" ++ revision) then
      emplaceOwner owners key application.owner
    else owners) owners
  scene.nodes.rows.foldl (fun owners row =>
    let front := (if field then "field:revision:" else "revision:") ++ row.1 ++ ":"
    if row.2.type = "RigExecSingleChainIkConstraint" ∧ startsWith key front = true ∧
        isPrimPath (sdfPath (substr key front.length)) = true then
      emplaceOwner owners key row.1
    else owners) applied

def operationOwners (key : String) (owners : List (String × SdfPath)) :
    SceneOperation → Except LoweringFault (List (String × SdfPath))
  | .poseCommit =>
      let owner := commitOwner sdfPath key
      if isPrimPath owner = false then .error .removalOwner
      else .ok (emplaceOwner owners key owner)
  | .extract element => jointOwners key element scene.jointBindings owners
  | .constraint | .switch | .autoClavicle =>
      .ok (revisionOwners sdfPath isPrimPath scene key false owners)
  | .field => .ok (revisionOwners sdfPath isPrimPath scene key true owners)
  | _ => .ok owners

/-- The owners of the operations from the `i`th on. -/
def gatherOwners (candidate : SceneProgram) :
    Nat → List SceneOperation → List (String × SdfPath) →
      Except LoweringFault (List (String × SdfPath))
  | _, [], owners => .ok owners
  | i, operation :: rest, owners =>
      match operationOwners sdfPath isPrimPath scene (candidate.keyAt i) owners operation with
      | .error fault => .error fault
      | .ok owners => gatherOwners candidate (i + 1) rest owners

/-- The drivers of the geometry bodies from the `i`th operation on, and of their fields. -/
def gatherDrivers (candidate : SceneProgram) :
    Nat → List SceneOperation → List (String × SdfPath) →
      Except LoweringFault (List (String × SdfPath))
  | _, [], drivers => .ok drivers
  | i, .geometry mover target driver :: rest, drivers =>
      if driver = "" then gatherDrivers candidate (i + 1) rest drivers
      else
        let key := candidate.keyAt i
        if key ≠ "revision:" ++ mover ++ ":" ++ target then .error .geometryKey
        else
          let fieldKey := "field:" ++ key
          let drivers := emplaceOwner drivers key driver
          let isField := candidate.operations.zipIdx.any fun row =>
            candidate.keyAt row.2 = fieldKey && row.1 matches .field
          gatherDrivers candidate (i + 1) rest
            (if isField then emplaceOwner drivers fieldKey driver else drivers)
  | i, _ :: rest, drivers => gatherDrivers candidate (i + 1) rest drivers

/-- Whether a cycle member is withdrawn with an excluded role. -/
def withdrawn (state : NormalizationState) (key : String) : Bool :=
  ((findOwner state.removableOwners key).any fun owner => owner ∈ state.excludedPoseWriters) ||
    (findOwner state.removableGeometryDrivers key).any fun driver =>
      driver ∈ state.excludedSolverBodies

/-- The proof after an attempt. -/
def exclusionProofOf (candidate : SceneProgram) (state : NormalizationState) : OpExclusionProof :=
  let members := sortUnique candidate.graph.cycleMembers.flatten
  { cycles := candidate.graph.cycles
    cycleMembers := candidate.graph.cycleMembers
    keys := members.filter fun key => !withdrawn state key
    removedKeys := members.filter fun key => withdrawn state key }

/-- What an attempt does with the candidate: whether a role was added, and the state it hands on. -/
def examineCandidate (candidate : SceneProgram) (state : NormalizationState) :
    Except LoweringFault (Bool × NormalizationState) :=
  match excludeOperations sdfPath isPrimPath scene candidate 0 candidate.operations
      (false, state) with
  | .error fault => .error fault
  | .ok (changed, state) =>
      match gatherOwners sdfPath isPrimPath scene candidate 0 candidate.operations
          state.removableOwners with
      | .error fault => .error fault
      | .ok owners =>
          match gatherDrivers candidate 0 candidate.operations state.removableGeometryDrivers with
          | .error fault => .error fault
          | .ok drivers =>
              let state := { state with
                removableOwners := owners
                removableGeometryDrivers := drivers }
              .ok (changed, { state with proof := exclusionProofOf candidate state })

/-! ## The retries -/

/-- `LowerSceneProgramOnce`. -/
abbrev LowerOnce := Finset SdfPath → Finset SdfPath → OpExclusionProof → Except String SceneProgram

variable (lowerOnce : LowerOnce)

/-- An attempt: the program, or the state of the next one. -/
def attempt (state : NormalizationState) :
    Except LoweringFault (SceneProgram ⊕ NormalizationState) :=
  match lowerOnce state.excludedPoseWriters state.excludedSolverBodies state.proof with
  | .error message => .error (.lowering message)
  | .ok candidate =>
      match examineCandidate sdfPath isPrimPath scene candidate state with
      | .error fault => .error fault
      | .ok (changed, state) =>
          if changed then .ok (.inr state)
          else .ok (.inl { candidate with retainedExclusions := state.proof })

/-- The attempts that are left. -/
def attempts : Nat → NormalizationState → Except LoweringFault SceneProgram
  | 0, _ => .error .notConverged
  | left + 1, state =>
      match attempt sdfPath isPrimPath scene lowerOnce state with
      | .error fault => .error fault
      | .ok (.inl program) => .ok program
      | .ok (.inr state) => attempts left state

/-- `std::numeric_limits<size_t>::max()`. -/
def sizeMax : Nat := 2 ^ 64 - 1

def roleBudget : Nat := 2 * scene.nodes.size

/-- `RigExecLowerSceneProgram`: what it returns, and what the destination holds afterwards. -/
def lowerSceneProgram (destination : Option SceneProgram) :
    Except LoweringFault Unit × Option SceneProgram :=
  match destination with
  | none => (.error .nullOutput, none)
  | some was =>
      if scene.nodes.size > (sizeMax - 1) / 2 then (.error .tooManyRoles, some was)
      else
        match attempts sdfPath isPrimPath scene lowerOnce (roleBudget scene + 1) {} with
        | .error fault => (.error fault, some was)
        | .ok program => (.ok (), some program)

end

end RigExec.Scene
