/-
# `RigExec.Scene.PoseCommit` — the commit of a pose writer

`RigExecRunPoseCommit` reads the frames of its candidates and carries the frames of
their descendants along, all into a workspace, and publishes afterwards: the new
frames when nothing failed, and what each output's input held otherwise.

The workspace is kept from one commit to the next, so it comes with whatever the
last one left.  The frame arithmetic is `PoseMath`.
-/
import RigExec.Scene.TypedValues

namespace RigExec.Scene

variable {P : Payloads}

structure PoseCommitCandidate where
  before : ValueId := noValue
  candidate : ValueId := noValue
  output : ValueId := noValue

structure PoseCommitDescendant where
  current : ValueId := noValue
  output : ValueId := noValue
  candidate : Nat := 0
  parentBlocked : Bool := false
  solverOutput : Bool := false

structure PoseCommitBinding where
  candidates : List PoseCommitCandidate := []
  descendants : List PoseCommitDescendant := []

/-- The arithmetic of frames, with the values that storage starts with. -/
structure PoseMath (P : Payloads) where
  /-- `RigExecConstraintFrameUsable`. -/
  usable : P.Frame → Bool
  /-- `RigExecPreparePoseDelta`: whether there is a delta, and what is written. -/
  prepareDelta : P.Frame → P.Frame → Bool × P.Matrix
  /-- `Math::Carry`. -/
  carry : P.Frame → P.Matrix → P.Frame
  /-- A frame with no flags. -/
  empty : P.Frame
  newMatrix : P.Matrix
  newFrame : P.Frame

structure PoseCommitWorkspace (P : Payloads) where
  deltas : List P.Matrix := []
  deltaOk : List Bool := []
  staged : List P.Frame := []

/-- `std::vector::resize`. -/
def resize {α : Type} (l : List α) (n : Nat) (fresh : α) : List α :=
  l.take n ++ List.replicate (n - l.length) fresh

inductive PosePropagateOutcome where
  | staged
  | skipped
  | noCandidate
  | unusableDescendant
  | singularDelta
  | invalidResult
deriving DecidableEq

variable (cmp : TypedSame P) (math : PoseMath P)

/-- `RigExecPropagatePoseArithmetic`, with the frame it writes when it stages one. -/
def propagatePose (current before after : P.Frame) (delta : P.Matrix) (deltaOk solverOutput
    parentBlocked candidatePresent : Bool) : PosePropagateOutcome × Option P.Frame :=
  if parentBlocked = true ∨ candidatePresent = false then (.skipped, none)
  else if solverOutput = true ∧ (math.usable current = false ∨ math.usable before = false ∨
      math.usable after = false) then (.skipped, none)
  else if math.usable current = false then (.unusableDescendant, none)
  else if deltaOk = false then (.singularDelta, none)
  else if math.usable (math.carry current delta) = false then (.invalidResult, none)
  else (.staged, some (math.carry current delta))

def candidateFailure : String := "pose commit candidate unavailable"

def descendantFailure : String := "pose commit descendant propagation failed"

/-- What the `i`th candidate leaves in the workspace. -/
def recordDelta (store : TypedValueStore P) (i : Nat) (candidate : PoseCommitCandidate)
    (workspace : PoseCommitWorkspace P) : PoseCommitWorkspace P :=
  match store.readFrame candidate.before, store.readFrame candidate.candidate with
  | some before, some after =>
      let delta := math.prepareDelta before after
      { workspace with
        deltas := workspace.deltas.set i delta.2
        deltaOk := workspace.deltaOk.set i delta.1 }
  | _, _ => { workspace with deltaOk := workspace.deltaOk.set i false }

/-- The loop over the candidates, from the `i`th on. -/
def prepareCandidates (store : TypedValueStore P) :
    Nat → List PoseCommitCandidate → PoseCommitWorkspace P × String →
      PoseCommitWorkspace P × String
  | _, [], found => found
  | i, candidate :: rest, (workspace, failure) =>
      prepareCandidates store (i + 1) rest
        (recordDelta math store i candidate workspace,
          if (store.readFrame candidate.candidate).any math.usable then failure
          else candidateFailure)

/-- The loop over the descendants, from the `i`th on; the flag is false where it returns at once. -/
def stageDescendants (store : TypedValueStore P) (binding : PoseCommitBinding) :
    Nat → List PoseCommitDescendant → PoseCommitWorkspace P × String →
      Bool × PoseCommitWorkspace P × String
  | _, [], found => (true, found)
  | i, descendant :: rest, (workspace, failure) =>
      if failure ≠ "" then (true, workspace, failure)
      else
        match binding.candidates[descendant.candidate]? with
        | none => (false, workspace, failure)
        | some candidate =>
            let current := (store.readFrame descendant.current).getD math.empty
            let before := (store.readFrame candidate.before).getD math.empty
            let after := store.readFrame candidate.candidate
            let status := propagatePose math current before (after.getD math.empty)
              (workspace.deltas.getD descendant.candidate math.newMatrix)
              (workspace.deltaOk.getD descendant.candidate false)
              descendant.solverOutput descendant.parentBlocked after.isSome
            match status with
            | (.skipped, _) =>
                stageDescendants store binding (i + 1) rest
                  ({ workspace with staged := workspace.staged.set i current }, failure)
            | (.staged, some frame) =>
                stageDescendants store binding (i + 1) rest
                  ({ workspace with staged := workspace.staged.set i frame }, failure)
            | _ => stageDescendants store binding (i + 1) rest (workspace, descendantFailure)

def passthrough (failure : String) (store : TypedValueStore P) (output input : ValueId) :
    Option (TypedValueStore P) := do
  let source ← store[input]?
  let published ← store.publish cmp output source.value source.blocked false source.count failure
  pure (published.setRaw output source.raw)

/-- What a commit returns, and what it leaves in the store, the workspace and the message. -/
structure PoseCommitResult (P : Payloads) where
  returned : Bool
  store : TypedValueStore P
  workspace : PoseCommitWorkspace P
  message : Option String

/-- The workspace, resized for a binding. -/
def PoseCommitWorkspace.sized (workspace : PoseCommitWorkspace P) (binding : PoseCommitBinding) :
    PoseCommitWorkspace P :=
  { deltas := resize workspace.deltas binding.candidates.length math.newMatrix
    deltaOk := resize workspace.deltaOk binding.candidates.length false
    staged := resize workspace.staged binding.descendants.length math.newFrame }

/-- `RigExecRunPoseCommit`; `none` when an id is outside the store. -/
def runPoseCommit (binding : PoseCommitBinding) (store : TypedValueStore P)
    (workspace : PoseCommitWorkspace P) : Option (PoseCommitResult P) :=
  let prepared :=
    prepareCandidates math store 0 binding.candidates (workspace.sized math binding, "")
  match stageDescendants math store binding 0 binding.descendants prepared with
  | (false, workspace, _) => some { returned := false, store, workspace, message := none }
  | (true, workspace, failure) =>
      if failure ≠ "" then do
        let store ← binding.candidates.foldlM (fun store candidate =>
          passthrough cmp failure store candidate.output candidate.before) store
        let store ← binding.descendants.foldlM (fun store descendant =>
          passthrough cmp failure store descendant.output descendant.current) store
        pure { returned := true, store, workspace, message := some failure }
      else do
        let store ← binding.candidates.foldlM (fun store candidate =>
          store.copy cmp candidate.output candidate.candidate false) store
        let store ← (binding.descendants.zip workspace.staged).foldlM (fun store row =>
          store.publish cmp row.1.output (.pointFrame row.2) false false 1 "") store
        pure { returned := true, store, workspace, message := none }

end RigExec.Scene
