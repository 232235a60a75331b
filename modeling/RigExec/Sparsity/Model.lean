/-
# `RigExec.Sparsity.Model` — retained frames, the affected index, the reuse plan

A frame is cached with a copy of the inputs it was evaluated from.  When a
request misses the cache, the retained pose may still be the right one, and the
plan decides that without running anything:

    changedControls      the identities of what moved between the two inputs
    affectedByControls   the clusters those identities reach
    canReuseRetainedPose the two states are comparable, and no cluster is reached

A path, a token and a control identity are their texts.  A `std::map` is looked
up by `emplaced` (its `emplace` keeps the first row of a key) or by `assigned`
(`map[key] = row` keeps the last), and walked in the order of `keysOf`.  A
shared table of constant head leaves is the number of a table of the heap, so
that two vectors can share one.
-/
import RigExec.Sparsity.Values
import RigExec.Lib.ListMap
import RigExec.Time
import Mathlib.Data.Finset.Lattice.Basic
import Mathlib.Data.Finset.Range
import Mathlib.Data.Prod.Lex
import Mathlib.Data.String.Basic

namespace RigExec.Sparsity

open Lib

/-! ## Control states -/

abbrev SdfPath := String

abbrev ControlId := String

structure SampledInput where
  path : SdfPath
  value : VtValue
  hasValue : Bool := true
  valueBlocked : Bool := false
deriving DecidableEq

structure ValueOverride where
  prim : SdfPath
  computation : String
  attributeName : String
  value : VtValue
deriving DecidableEq

/-- What an override is keyed by, compared in this order. -/
abbrev OverrideKey := String ×ₗ String ×ₗ String

def ValueOverride.key (o : ValueOverride) : OverrideKey :=
  toLex (o.prim, toLex (o.computation, o.attributeName))

def controlIdForOverride (key : OverrideKey) : ControlId :=
  (ofLex key).1 ++ "|" ++ (ofLex (ofLex key).2).1 ++ "|" ++ (ofLex (ofLex key).2).2

structure UpstreamValue where
  path : SdfPath
  value : VtValue
  foldHash : UInt64
deriving DecidableEq

/-- One leaf of `RigExecHeadLeafConstants`. -/
structure HeadLeaf where
  key : SdfPath
  varying : Bool
  value : VtValue

structure HeadLeafConstants where
  leaves : List HeadLeaf
  digest : UInt64

/-- Sixteen doubles. -/
abbrev Matrix4d := List (BitVec 64)

/-- `RigExecPointFrame`: the landmarks' doubles and the flags. -/
structure PointFrame where
  points : List (BitVec 64)
  flags : BitVec 32
deriving DecidableEq

structure StageFrameSeeds where
  xformBase : List Matrix4d := []
  xformFrames : List PointFrame := []
  nativeOk : List UInt8 := []
  nativeFrames : List PointFrame := []
  deltaOk : List UInt8 := []
  deltaBase : List Matrix4d := []
  intervening : List Matrix4d := []
  interveningReset : List UInt8 := []
deriving DecidableEq

variable {Time : Type}

/-- `RigExecFrameInputs`, with what the digest and the reuse plan read of it. -/
structure FrameInputs (Time : Type) where
  time : TimeCode Time
  values : List SampledInput := []
  layoutLeaves : List (List VtValue) := []
  layoutSourcePaths : List (List SdfPath) := []
  varyingLayoutRows : List Nat := []
  varyingRevisionLeaves : List (Nat × Nat) := []
  revisionLeaves : List (List VtValue) := []
  stageSeeds : StageFrameSeeds := {}
  headLeafConstants : Option Nat := none
  upstream : List UpstreamValue := []

/-- A leaf of a table of rows. -/
def leafAt {α : Type} (rows : List (List α)) (row key : Nat) : Option α :=
  (rows[row]?).bind fun leaves => leaves[key]?

/-- `RigExecRetainedFrameState`; the constant digest, which its caller compares, is left out. -/
structure RetainedFrameState (Time : Type) where
  inputs : FrameInputs Time
  overrides : List ValueOverride := []
  epochDigest : UInt64
  clusterCount : Nat

/-! ## The affected index -/

/-- `RigExecOutputAffectedIndex`: cluster sets as `Build` shares them, sized to the clustering. -/
structure OutputAffectedIndex where
  clusterCount : Nat
  epochDigest : UInt64
  cones : List (Finset Nat)
  always : Finset Nat
  varying : Finset Nat
  override : Finset Nat
  seeds : ControlId → List Nat
  controlUniverse : Finset ControlId
  cones_sized : ∀ cone ∈ cones, cone ⊆ Finset.range clusterCount

theorem twoCones_sized : ∀ cone ∈ ([{0}, {1}] : List (Finset Nat)), cone ⊆ Finset.range 2 := by
  decide

namespace OutputAffectedIndex

variable (index : OutputAffectedIndex)

def mapControl (control : ControlId) (seeds : List Nat) : OutputAffectedIndex :=
  if index.clusterCount = 0 then index
  else { index with
    seeds := fun c =>
      if c = control then seeds.filter (· < index.clusterCount) else index.seeds c
    controlUniverse := insert control index.controlUniverse }

def coneOf (cluster : Nat) : Finset Nat := index.cones.getD cluster ∅

/-- One control of `AffectedByControls`: a foreign one is every cluster, a known one the cones of
its seeds. -/
def affectedByControl (out : Finset Nat) (control : ControlId) : Finset Nat :=
  if control ∉ index.controlUniverse then Finset.range index.clusterCount
  else (index.seeds control).foldl (fun out seed => out ∪ index.coneOf seed) out

def affectedByControls (controls : List ControlId) : Finset Nat :=
  controls.foldl index.affectedByControl ∅

end OutputAffectedIndex

/-! ## What moved -/

def sameUpstream : List UpstreamValue → List UpstreamValue → Bool
  | [], [] => true
  | a :: as, b :: bs =>
      a.path == b.path && a.foldHash == b.foldHash && sameSourceValue a.value true b.value true &&
        sameUpstream as bs
  | _, _ => false

/-- Two samples of one path, as `RigExecChangedControls` compares them. -/
def SampledInput.same (a b : SampledInput) : Bool :=
  a.valueBlocked == b.valueBlocked && sameSourceValue a.value a.hasValue b.value b.hasValue

/-- Two constant head leaves of one key. -/
def HeadLeaf.same (a b : HeadLeaf) : Bool :=
  sameSourceValue a.value (!a.value.isEmpty) b.value (!b.value.isEmpty)

/-- Two overrides of one key: `VtValue::operator!=`, by value. -/
def ValueOverride.same [VtEquality] (a b : ValueOverride) : Bool :=
  VtEquality.equal b.value a.value

def movedSamples (was now : List SampledInput) : List SdfPath :=
  movedKeys SampledInput.same (emplaced SampledInput.path was) (emplaced SampledInput.path now)
    (keysOf SampledInput.path was) (keysOf SampledInput.path now)

def movedOverrides [VtEquality] (was now : List ValueOverride) : List OverrideKey :=
  movedKeys ValueOverride.same (assigned ValueOverride.key was) (assigned ValueOverride.key now)
    (keysOf ValueOverride.key was) (keysOf ValueOverride.key now)

/-- The constant leaves of a table, which `constantsOf` maps by key. -/
def constantsOf (tables : Nat → HeadLeafConstants) (table : Option Nat) : List HeadLeaf :=
  match table with
  | none => []
  | some table => (tables table).leaves.filter fun leaf => !leaf.varying

/-- The constant head leaves that moved; one shared table is no change. -/
def movedHeadLeaves (tables : Nat → HeadLeafConstants) (was now : Option Nat) : List SdfPath :=
  if was = now then []
  else
    let was := constantsOf tables was
    let now := constantsOf tables now
    movedKeys HeadLeaf.same (emplaced HeadLeaf.key was) (emplaced HeadLeaf.key now)
      (keysOf HeadLeaf.key was) (keysOf HeadLeaf.key now)

/-- Whether a layout leaf is there on both sides, from one source, with one value. -/
def sameLayoutLeaf (was now : FrameInputs Time) (row key : Nat) : Bool :=
  match leafAt was.layoutLeaves row key, leafAt was.layoutSourcePaths row key,
    leafAt now.layoutLeaves row key, leafAt now.layoutSourcePaths row key with
  | some oldValue, some oldPath, some newValue, some newPath =>
      oldPath == newPath && exactSourceValueEqual oldValue newValue
  | _, _, _, _ => false

/-- How many keys of a layout row the comparison visits. -/
def layoutCount (was now : FrameInputs Time) (row : Nat) : Nat :=
  max (max (was.layoutLeaves.getD row []).length (now.layoutLeaves.getD row []).length)
    (max (was.layoutSourcePaths.getD row []).length (now.layoutSourcePaths.getD row []).length)

/-- The sources of the layout leaves that are not the same. -/
def movedLayouts (was now : FrameInputs Time) : List SdfPath :=
  (List.range (max was.layoutLeaves.length now.layoutLeaves.length)).flatMap fun row =>
    (List.range (layoutCount was now row)).flatMap fun key =>
      if sameLayoutLeaf was now row key then []
      else (leafAt was.layoutSourcePaths row key).toList ++
        (leafAt now.layoutSourcePaths row key).toList

def changedControls [VtEquality] (tables : Nat → HeadLeafConstants)
    (cached : RetainedFrameState Time) (requested : FrameInputs Time)
    (requestedOverrides : List ValueOverride) : List ControlId :=
  keysOf id
    (movedSamples cached.inputs.values requested.values ++
      movedLayouts cached.inputs requested ++
      movedHeadLeaves tables cached.inputs.headLeafConstants requested.headLeafConstants ++
      (movedOverrides cached.overrides requestedOverrides).map controlIdForOverride)

/-! ## The reuse plan -/

/-- Two external inputs at one coordinate. -/
def sameRevisionLeaf (a b : FrameInputs Time) (leaf : Nat × Nat) : Bool :=
  match leafAt a.revisionLeaves leaf.1 leaf.2, leafAt b.revisionLeaves leaf.1 leaf.2 with
  | some was, some now => sameSourceValue was (!was.isEmpty) now (!now.isEmpty)
  | _, _ => false

def sameVaryingRevisionLeaves (a b : FrameInputs Time) : Bool :=
  a.varyingRevisionLeaves == b.varyingRevisionLeaves &&
    a.varyingRevisionLeaves.all (sameRevisionLeaf a b)

/-- `completeLayouts`: every layout leaf has its source path, and no path is empty. -/
def completeLayouts (inputs : FrameInputs Time) : Bool :=
  inputs.layoutLeaves.length == inputs.layoutSourcePaths.length &&
    (inputs.layoutLeaves.zip inputs.layoutSourcePaths).all fun row =>
      row.1.length == row.2.length && row.2.all (· != "")

/-- The tests of `RigExecCanReuseRetainedPose` that only read the two states. -/
def comparable (cached : RetainedFrameState Time) (requested : FrameInputs Time) : Bool :=
  sameUpstream cached.inputs.upstream requested.upstream &&
    sameVaryingRevisionLeaves cached.inputs requested &&
    completeLayouts cached.inputs && completeLayouts requested

/-- The clusters a request makes dirty over a retained frame. -/
def dirtyClusters [VtEquality] [DecidableEq Time] (tables : Nat → HeadLeafConstants)
    (index : OutputAffectedIndex) (cached : RetainedFrameState Time)
    (requested : FrameInputs Time) (overrides : List ValueOverride) : Finset Nat :=
  index.affectedByControls (changedControls tables cached requested overrides) ∪
    (if requested.time ≠ cached.inputs.time then index.always ∪ index.varying else ∅) ∪
    (if overrides ≠ [] then index.override else ∅)

def canReuseRetainedPose [VtEquality] [DecidableEq Time] (tables : Nat → HeadLeafConstants)
    (index : OutputAffectedIndex) (cached : RetainedFrameState Time) (requestEpoch : UInt64)
    (requested : FrameInputs Time) (overrides : List ValueOverride) : Bool :=
  if index.clusterCount = 0 ∨ index.epochDigest ≠ requestEpoch ∨
      cached.epochDigest ≠ requestEpoch ∨ cached.clusterCount ≠ index.clusterCount ∨
      comparable cached requested = false then false
  else decide (dirtyClusters tables index cached requested overrides = ∅)

end RigExec.Sparsity
