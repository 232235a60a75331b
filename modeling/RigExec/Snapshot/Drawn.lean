/-
# `RigExec.Snapshot.Drawn` — what the scene index draws of a generation

`RigExecResultsSceneIndex` reads a published prim behind its flags: a matrix that
is not owned is not read, however it moved.  `draw` is the prim as it is read, leaf
by leaf, and two prims that draw the same look the same:

    xformLeaf, pointsLeaf, normalsLeaf, extentLeaf     the prim's own data
    shaderLeaf, overlayLeaf                            its primvars
    controlXformLeaf, guidesLeaf, controlShape         its guides
    placement                                          what places them

A guide is placed by its prim's asset root, and by the generation's when the prim
names none.  `owns` is the set of leaves a prim has, whatever their values are.

Ownership is the store's, by the flags of a prim.  The scene index is narrower in two
places that are not told apart here: it draws an overlay only if it has weights, and
of a guide element what its length leaves.
-/
import RigExec.Snapshot.Model

namespace RigExec.Snapshot

open Lib UsdTypes

variable [UsdTypes]

/-! ## Leaves -/

namespace PublishedPrim

variable (prim : PublishedPrim)

def xformLeaf :
    Option (GfMatrix4d × GfMatrix4d × List Float32 × List GfMatrix4d × List GfMatrix4d) :=
  if prim.hasXform then
    some (prim.xform, prim.xformBase, prim.sampleOffsets, prim.xformSamples, prim.xformBaseSamples)
  else none

def pointsLeaf : Option (VtVec3fArray × List Float32 × List VtVec3fArray) :=
  if prim.hasPoints then some (prim.points, prim.sampleOffsets, prim.pointsSamples) else none

def normalsLeaf : Option (VtVec3fArray × List Float32 × List VtVec3fArray) :=
  if prim.hasNormals then some (prim.normals, prim.sampleOffsets, prim.normalsSamples) else none

def extentLeaf : Option (GfVec3d × GfVec3d × List Float32 × List GfVec3d × List GfVec3d) :=
  if prim.hasExtent then
    some (prim.extentMin, prim.extentMax, prim.sampleOffsets, prim.extentMinSamples,
      prim.extentMaxSamples)
  else none

def shaderLeaf : OrderedMap TfToken GfMatrix4d := prim.shaderMatrices

def overlayLeaf : Option VtFloatArray :=
  if prim.hasWeightOverlay then some prim.weightOverlay else none

/-- A control's frame, and where and at what scale its guide is drawn. -/
def controlXformLeaf : Option GfMatrix4d × Option (GfMatrix4d × GfVec3d) :=
  (if prim.hasControlFrame then some prim.controlFrame else none,
    if prim.hasControlGuide then some (prim.controlGuideFrame, prim.controlGuideScale) else none)

/-- The style the guides share. -/
def style : TfToken × GfVec3f × Float32 :=
  (prim.guidePurpose, prim.guideColor, prim.guideOpacity)

/-- The joints' guides, a control's and a volume's. -/
def guidesLeaf :
    Option ((List GfMatrix4d × List Float64 × List Float64 × List Bool) ×
        TfToken × GfVec3f × Float32) ×
      Option ((Float64 × VtVec3fArray) × TfToken × GfVec3f × Float32) ×
      Option (List VolumeGuideElement × TfToken × GfVec3f × Float32) :=
  (if prim.hasGuides then
      some ((prim.guideFrames, prim.guideLengths, prim.guideRadii, prim.guideDrawSpheres),
        prim.style)
    else none,
    if prim.hasControlGuide then
      some ((prim.controlGuideWireWidth, prim.controlGuidePoints), prim.style)
    else none,
    if prim.hasVolumeGuides then some (prim.volumeGuides, prim.style) else none)

/-- What a control's guide is a drawing of. -/
def controlShape : Option (TfToken × TfToken × VtIntArray × TfToken) :=
  if prim.hasControlGuide then
    some (prim.controlGuideShape, prim.controlGuideDrawMode, prim.controlGuideCounts,
      prim.controlGuidePlaneNormal)
  else none

/-- Whether a prim has guides to place. -/
def drawsGuides : Bool :=
  prim.hasGuides || prim.hasControlGuide || prim.hasVolumeGuides

/-- The asset root that places a prim's guides, in a generation with a root of its own. -/
def placement (root : SdfPath) (prim : PublishedPrim) : Option SdfPath :=
  if prim.drawsGuides then some (if prim.assetRoot = "" then root else prim.assetRoot) else none

end PublishedPrim

structure DrawnPrim where
  xform : Option (GfMatrix4d × GfMatrix4d × List Float32 × List GfMatrix4d × List GfMatrix4d)
  points : Option (VtVec3fArray × List Float32 × List VtVec3fArray)
  normals : Option (VtVec3fArray × List Float32 × List VtVec3fArray)
  extent : Option (GfVec3d × GfVec3d × List Float32 × List GfVec3d × List GfVec3d)
  shaderMatrices : OrderedMap TfToken GfMatrix4d
  targetLocal : OrderedMap TfToken Unit
  overlay : Option VtFloatArray
  controlXform : Option GfMatrix4d × Option (GfMatrix4d × GfVec3d)
  guides : Option ((List GfMatrix4d × List Float64 × List Float64 × List Bool) ×
        TfToken × GfVec3f × Float32) ×
      Option ((Float64 × VtVec3fArray) × TfToken × GfVec3f × Float32) ×
      Option (List VolumeGuideElement × TfToken × GfVec3f × Float32)
  controlShape : Option (TfToken × TfToken × VtIntArray × TfToken)
  placement : Option SdfPath
deriving BEq

/-- A prim as it is read, in a generation with an asset root. -/
def draw (root : SdfPath) (prim : PublishedPrim) : DrawnPrim where
  xform := prim.xformLeaf
  points := prim.pointsLeaf
  normals := prim.normalsLeaf
  extent := prim.extentLeaf
  shaderMatrices := prim.shaderLeaf
  targetLocal := prim.targetLocalShaderMatrices
  overlay := prim.overlayLeaf
  controlXform := prim.controlXformLeaf
  guides := prim.guidesLeaf
  controlShape := prim.controlShape
  placement := prim.placement root

/-- The leaves of the value flags. -/
def sameLeaf (before after : PublishedPrim) : PublishedChange → Bool
  | .xform => before.xformLeaf == after.xformLeaf
  | .points => before.pointsLeaf == after.pointsLeaf
  | .normals => before.normalsLeaf == after.normalsLeaf
  | .extent => before.extentLeaf == after.extentLeaf
  | .structural => true
  | .guides => before.guidesLeaf == after.guidesLeaf
  | .weightOverlay => before.overlayLeaf == after.overlayLeaf
  | .shaderMatrix => before.shaderLeaf == after.shaderLeaf
  | .controlGuideXform => before.controlXformLeaf == after.controlXformLeaf

/-! ## Ownership -/

/-- The leaves a prim can own; a shader matrix is a primvar of its name, and a guide element a prim
of its number. -/
inductive OwnedLeaf where
  | xform
  | points
  | normals
  | extent
  | shaderMatrix (name : TfToken)
  | displayColor
  | guide (i : Nat)
  | controlFrame
  | controlGuide
  | volumeGuide (i : Nat)
deriving DecidableEq

def PublishedPrim.owns (prim : PublishedPrim) : OwnedLeaf → Bool
  | .xform => prim.hasXform
  | .points => prim.hasPoints
  | .normals => prim.hasNormals
  | .extent => prim.hasExtent
  | .shaderMatrix name => prim.shaderMatrices.keys.contains name
  | .displayColor => prim.hasWeightOverlay
  | .guide i => prim.hasGuides && decide (i < prim.guideFrames.length)
  | .controlFrame => prim.hasControlFrame
  | .controlGuide => prim.hasControlGuide
  | .volumeGuide i => prim.hasVolumeGuides && decide (i < prim.volumeGuides.length)

end RigExec.Snapshot
