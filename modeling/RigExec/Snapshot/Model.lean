/-
# `RigExec.Snapshot.Model` — published generations and their diff

A bridge publishes complete generations of a rig's imaging results, and the store
answers each publication with the prims that changed and how
(`RigExecSnapshotStore::Publish`).  A prim's entry is a set of flags:

    structural             the prim came or went, or what it owns changed
    xform, points, …       a value of that kind changed
    controlGuideXform      a control's frame moved, its shape did not

The scene index dirties what the flags say and nothing else, so what they leave out
stays on screen.

Numbers compare as IEEE numbers do.  The vectors, matrices and arrays belong to
USD and so do their comparisons, of which nothing is assumed: with a NaN in it, a
matrix does not equal itself.
-/
import RigExec.Lib.OrderedMap
import RigExec.Sparsity.Values
import Mathlib.Data.String.Basic

namespace RigExec.Snapshot

open Lib

/-! ## Values -/

/-- `SdfPath`; the empty path is the empty text. -/
abbrev SdfPath := String

abbrev TfToken := String

/-- `double`. -/
structure Float64 where
  bits : BitVec 64

instance : BEq Float64 := ⟨fun a b => Sparsity.ieeeEq 64 0x7ff0000000000000 a.bits b.bits⟩

/-- `float`. -/
structure Float32 where
  bits : BitVec 32

instance : BEq Float32 := ⟨fun a b => Sparsity.ieeeEq 32 0x7f800000 a.bits b.bits⟩

/-- The value types of USD, with their `operator==`. -/
class UsdTypes where
  GfMatrix4d : Type
  GfVec3d : Type
  GfVec3f : Type
  VtVec3fArray : Type
  VtIntArray : Type
  VtFloatArray : Type
  matrixEqual : BEq GfMatrix4d
  vec3dEqual : BEq GfVec3d
  vec3fEqual : BEq GfVec3f
  pointsEqual : BEq VtVec3fArray
  intsEqual : BEq VtIntArray
  floatsEqual : BEq VtFloatArray

attribute [reducible, instance] UsdTypes.matrixEqual UsdTypes.vec3dEqual UsdTypes.vec3fEqual
  UsdTypes.pointsEqual UsdTypes.intsEqual UsdTypes.floatsEqual

open UsdTypes

variable [UsdTypes]

/-! ## Generations -/

structure VolumeGuideElement where
  xform : GfMatrix4d
  primType : TfToken
  points : VtVec3fArray
  counts : VtIntArray
  indices : VtIntArray
  normals : VtVec3fArray
  normalsInterpolation : TfToken
  doubleSided : Bool
  wireWidth : Float64
  opacity : Float32
deriving BEq

structure PublishedPrim where
  assetRoot : SdfPath
  hasXform : Bool
  xform : GfMatrix4d
  xformBase : GfMatrix4d
  shaderMatrices : OrderedMap TfToken GfMatrix4d
  targetLocalShaderMatrices : OrderedMap TfToken Unit
  hasPoints : Bool
  points : VtVec3fArray
  hasNormals : Bool
  normals : VtVec3fArray
  hasExtent : Bool
  extentMin : GfVec3d
  extentMax : GfVec3d
  sampleOffsets : List Float32
  pointsSamples : List VtVec3fArray
  normalsSamples : List VtVec3fArray
  xformSamples : List GfMatrix4d
  xformBaseSamples : List GfMatrix4d
  extentMinSamples : List GfVec3d
  extentMaxSamples : List GfVec3d
  hasGuides : Bool
  guideFrames : List GfMatrix4d
  guideLengths : List Float64
  guideRadii : List Float64
  guideDrawSpheres : List Bool
  guideColor : GfVec3f
  guideOpacity : Float32
  guidePurpose : TfToken
  hasControlGuide : Bool
  hasControlFrame : Bool
  controlFrame : GfMatrix4d
  controlGuideFrame : GfMatrix4d
  controlGuideShape : TfToken
  controlGuidePoints : VtVec3fArray
  controlGuideCounts : VtIntArray
  controlGuideDrawMode : TfToken
  controlGuidePlaneNormal : TfToken
  controlGuideScale : GfVec3d
  controlGuideWireWidth : Float64
  hasWeightOverlay : Bool
  weightOverlay : VtFloatArray
  hasVolumeGuides : Bool
  volumeGuides : List VolumeGuideElement
deriving BEq

/-- `RigExecImagingSnapshot`, without what only tools read. -/
structure ImagingSnapshot where
  prims : OrderedMap SdfPath PublishedPrim
  hasDrivenXforms : Bool
  xformResetPaths : OrderedMap SdfPath Unit
  assetRoot : SdfPath

/-! ## The diff of a prim -/

inductive PublishedChange where
  | xform
  | points
  | normals
  | extent
  | structural
  | guides
  | weightOverlay
  | shaderMatrix
  | controlGuideXform
deriving DecidableEq

def PublishedChange.bit : PublishedChange → UInt16
  | .xform => (1 : UInt16) <<< 0
  | .points => (1 : UInt16) <<< 1
  | .normals => (1 : UInt16) <<< 2
  | .extent => (1 : UInt16) <<< 3
  | .structural => (1 : UInt16) <<< 4
  | .guides => (1 : UInt16) <<< 5
  | .weightOverlay => (1 : UInt16) <<< 6
  | .shaderMatrix => (1 : UInt16) <<< 7
  | .controlGuideXform => (1 : UInt16) <<< 8

/-- `changes |= flag`, where it applies. -/
def mark (changes : UInt16) (flag : PublishedChange) (applies : Bool) : UInt16 :=
  if applies then changes ||| flag.bit else changes

/-- Ownership that began or ended, and counts that moved. -/
def ownershipChanged (before after : PublishedPrim) : Bool :=
  before.hasXform != after.hasXform || before.hasPoints != after.hasPoints ||
    before.hasNormals != after.hasNormals || before.hasExtent != after.hasExtent ||
    before.hasGuides != after.hasGuides ||
    before.guideFrames.length != after.guideFrames.length ||
    before.hasControlGuide != after.hasControlGuide ||
    before.hasControlFrame != after.hasControlFrame ||
    before.shaderMatrices.size != after.shaderMatrices.size ||
    before.targetLocalShaderMatrices != after.targetLocalShaderMatrices ||
    before.hasWeightOverlay != after.hasWeightOverlay ||
    before.hasVolumeGuides != after.hasVolumeGuides ||
    before.volumeGuides.length != after.volumeGuides.length

/-- A volume guide element that became another type of prim. -/
def volumeTypesChanged (before after : PublishedPrim) : Bool :=
  after.hasVolumeGuides &&
    (before.volumeGuides.zip after.volumeGuides).any fun pair => pair.1.primType != pair.2.primType

/-- Guides under another asset root. -/
def guidesMoved (before after : PublishedPrim) : Bool :=
  (after.hasGuides || after.hasControlGuide || after.hasVolumeGuides) &&
    before.assetRoot != after.assetRoot

/-- A control guide of another shape. -/
def controlShapeChanged (before after : PublishedPrim) : Bool :=
  after.hasControlGuide &&
    (before.controlGuideShape != after.controlGuideShape ||
      before.controlGuideDrawMode != after.controlGuideDrawMode ||
      before.controlGuideCounts != after.controlGuideCounts ||
      before.controlGuidePlaneNormal != after.controlGuidePlaneNormal)

/-- The leaves whose values moved. -/
def valueChanges (before after : PublishedPrim) : UInt16 :=
  let styleChanged := before.guideColor != after.guideColor ||
    before.guideOpacity != after.guideOpacity
  let changes : UInt16 := 0
  let changes := mark changes .shaderMatrix (before.shaderMatrices != after.shaderMatrices)
  let changes := mark changes .controlGuideXform
    (after.hasControlFrame && before.controlFrame != after.controlFrame)
  let changes := mark changes .xform
    (after.hasXform && (before.xform != after.xform || before.xformBase != after.xformBase ||
      before.sampleOffsets != after.sampleOffsets || before.xformSamples != after.xformSamples ||
      before.xformBaseSamples != after.xformBaseSamples))
  let changes := mark changes .points
    (after.hasPoints && (before.points != after.points ||
      before.sampleOffsets != after.sampleOffsets || before.pointsSamples != after.pointsSamples))
  let changes := mark changes .normals
    (after.hasNormals && (before.normals != after.normals ||
      before.sampleOffsets != after.sampleOffsets ||
      before.normalsSamples != after.normalsSamples))
  let changes := mark changes .extent
    (after.hasExtent && (before.extentMin != after.extentMin ||
      before.extentMax != after.extentMax || before.sampleOffsets != after.sampleOffsets ||
      before.extentMinSamples != after.extentMinSamples ||
      before.extentMaxSamples != after.extentMaxSamples))
  let changes := mark changes .guides
    (after.hasGuides && (before.guideFrames != after.guideFrames ||
      before.guideLengths != after.guideLengths || before.guideRadii != after.guideRadii ||
      before.guideDrawSpheres != after.guideDrawSpheres ||
      before.guidePurpose != after.guidePurpose || styleChanged))
  let changes := mark changes .controlGuideXform
    (after.hasControlGuide && (before.controlGuideFrame != after.controlGuideFrame ||
      before.controlGuideScale != after.controlGuideScale))
  let changes := mark changes .guides
    (after.hasControlGuide && (before.controlGuideWireWidth != after.controlGuideWireWidth ||
      before.controlGuidePoints != after.controlGuidePoints ||
      before.guidePurpose != after.guidePurpose || styleChanged))
  let changes := mark changes .guides
    (after.hasVolumeGuides && (before.volumeGuides != after.volumeGuides ||
      before.guidePurpose != after.guidePurpose || styleChanged))
  mark changes .weightOverlay
    (after.hasWeightOverlay && before.weightOverlay != after.weightOverlay)

def diff (before : Option PublishedPrim) (after : PublishedPrim) : UInt16 :=
  match before with
  | none => PublishedChange.structural.bit
  | some before =>
      if ownershipChanged before after then PublishedChange.structural.bit
      else if volumeTypesChanged before after then PublishedChange.structural.bit
      else if guidesMoved before after then PublishedChange.structural.bit
      else if controlShapeChanged before after then PublishedChange.structural.bit
      else valueChanges before after

/-! ## Publication -/

structure PublishedDirty where
  path : SdfPath
  changes : UInt16
deriving DecidableEq

/-- A prim of a generation; no generation has none. -/
def primAt (snapshot : Option ImagingSnapshot) (path : SdfPath) : Option PublishedPrim :=
  snapshot.bind fun snapshot => snapshot.prims.find? path

/-- Whether a generation has a reset boundary at a path. -/
def resetAt (snapshot : Option ImagingSnapshot) (path : SdfPath) : Bool :=
  snapshot.any fun snapshot => (snapshot.xformResetPaths.find? path).isSome

/-- The entry of a prim of the new generation. -/
def changedPrim (previous : Option ImagingSnapshot) (row : SdfPath × PublishedPrim) :
    Option PublishedDirty :=
  let changes := diff (primAt previous row.1) row.2
  if changes = 0 then none else some { path := row.1, changes := changes }

/-- The entry of a prim of the previous generation, when the new one is without it. -/
def removedPrim (next : Option ImagingSnapshot) (row : SdfPath × PublishedPrim) :
    Option PublishedDirty :=
  match primAt next row.1 with
  | none => some { path := row.1, changes := PublishedChange.structural.bit }
  | some _ => none

/-- The rows of a generation's prims. -/
def primRows (snapshot : Option ImagingSnapshot) : List (SdfPath × PublishedPrim) :=
  snapshot.elim [] fun snapshot => snapshot.prims.rows

/-- The reset boundaries of a generation. -/
def resetPaths (snapshot : Option ImagingSnapshot) : List SdfPath :=
  snapshot.elim [] fun snapshot => snapshot.xformResetPaths.keys

/-- The reset boundaries that came or went, in order. -/
def resetChanges (previous next : Option ImagingSnapshot) : List SdfPath :=
  sortUnique ((resetPaths previous).filter (fun path => !resetAt next path) ++
    (resetPaths next).filter fun path => !resetAt previous path)

/-- A reset boundary's flag, on the path's entry if it has one. -/
def markReset : List PublishedDirty → SdfPath → List PublishedDirty
  | [], path => [{ path := path, changes := PublishedChange.xform.bit }]
  | entry :: dirtied, path =>
      if entry.path = path then
        { entry with changes := entry.changes ||| PublishedChange.xform.bit } :: dirtied
      else entry :: markReset dirtied path

/-- What a publication answers. -/
def dirtiedBy (previous next : Option ImagingSnapshot) : List PublishedDirty :=
  (resetChanges previous next).foldl markReset
    ((primRows next).filterMap (changedPrim previous) ++
      (primRows previous).filterMap (removedPrim next))

/-- `hasDrivenXforms`, from the prims. -/
def ImagingSnapshot.derive (snapshot : ImagingSnapshot) : ImagingSnapshot :=
  { snapshot with hasDrivenXforms := snapshot.prims.rows.any fun row => row.2.hasXform }

structure SnapshotStore where
  current : Option ImagingSnapshot

/-- `RigExecSnapshotStore::Publish`. -/
def SnapshotStore.publish (store : SnapshotStore) (snapshot : Option ImagingSnapshot) :
    SnapshotStore × List PublishedDirty :=
  let next := snapshot.map ImagingSnapshot.derive
  ({ current := next }, dirtiedBy store.current next)

end RigExec.Snapshot
