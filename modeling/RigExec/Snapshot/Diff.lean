/-
# `RigExec.Snapshot.Diff` — what the flags of one prim say

`_Diff` compares two states of a prim.  Its answer is

    structural     when the representation changed, and then nothing else
    otherwise      one flag for each leaf whose value changed (`hasFlag_valueChanges`)

so it is silent exactly when the representation is the same and every leaf is
(`diff_eq_zero_iff`), and then the prim is drawn as before (`draw_beq_iff`).

Of the shader matrices the representation has the number, not the names.
-/
import RigExec.Snapshot.Drawn

namespace RigExec.Snapshot

open Lib UsdTypes

/-! ## Flags -/

/-- Whether a flag is set. -/
def hasFlag (changes : UInt16) (flag : PublishedChange) : Bool := changes &&& flag.bit != 0

/-- Several marks. -/
def marks (list : List (PublishedChange × Bool)) : UInt16 :=
  list.foldl (fun changes flag => mark changes flag.1 flag.2) 0

theorem hasFlag_bit (flag flag' : PublishedChange) :
    hasFlag flag.bit flag' = decide (flag = flag') := by
  cases flag <;> cases flag' <;> decide

theorem hasFlag_zero (flag : PublishedChange) : hasFlag 0 flag = false := by
  cases flag <;> decide

theorem hasFlag_or (changes changes' : UInt16) (flag : PublishedChange) :
    hasFlag (changes ||| changes') flag = (hasFlag changes flag || hasFlag changes' flag) := by
  have hdistrib : (changes ||| changes') &&& flag.bit =
      (changes &&& flag.bit) ||| (changes' &&& flag.bit) := by
    rw [← UInt16.toBitVec_inj, UInt16.toBitVec_and, UInt16.toBitVec_or, UInt16.toBitVec_or,
      UInt16.toBitVec_and, UInt16.toBitVec_and, BitVec.and_or_distrib_right]
  rw [hasFlag, hasFlag, hasFlag, Bool.eq_iff_iff, Bool.or_eq_true, bne_iff_ne, bne_iff_ne,
    bne_iff_ne, hdistrib, ne_eq, UInt16.or_eq_zero_iff, not_and_or]

theorem hasFlag_mark (changes : UInt16) (flag flag' : PublishedChange) (applies : Bool) :
    hasFlag (mark changes flag applies) flag' =
      (hasFlag changes flag' || applies && decide (flag = flag')) := by
  cases applies with
  | false => rw [mark, Bool.false_and, Bool.or_false, if_neg Bool.false_ne_true]
  | true => rw [mark, if_pos rfl, hasFlag_or, hasFlag_bit, Bool.true_and]

theorem hasFlag_marks (list : List (PublishedChange × Bool)) (flag : PublishedChange) :
    hasFlag (marks list) flag = list.any fun entry => entry.2 && decide (entry.1 = flag) := by
  have hrun : ∀ (rest : List (PublishedChange × Bool)) (changes : UInt16),
      hasFlag (rest.foldl (fun changes flag => mark changes flag.1 flag.2) changes) flag =
        (hasFlag changes flag || rest.any fun entry => entry.2 && decide (entry.1 = flag)) := by
    intro rest
    induction rest with
    | nil => simp
    | cons entry rest ih =>
        intro changes
        rw [List.foldl_cons, ih, hasFlag_mark, List.any_cons, Bool.or_assoc]
  rw [marks, hrun, hasFlag_zero, Bool.false_or]

theorem mark_eq_zero_iff {changes : UInt16} {flag : PublishedChange} {applies : Bool} :
    mark changes flag applies = 0 ↔ changes = 0 ∧ applies = false := by
  have hbit : flag.bit ≠ 0 := by cases flag <;> decide
  cases applies with
  | false => simp [mark]
  | true => simp [mark, hbit]

theorem marks_eq_zero_iff (list : List (PublishedChange × Bool)) :
    marks list = 0 ↔ ∀ flag, hasFlag (marks list) flag = false := by
  have hrun : ∀ (rest : List (PublishedChange × Bool)) (changes : UInt16),
      rest.foldl (fun changes flag => mark changes flag.1 flag.2) changes = 0 ↔
        changes = 0 ∧ ∀ entry ∈ rest, entry.2 = false := by
    intro rest
    induction rest with
    | nil => simp
    | cons entry rest ih =>
        intro changes
        rw [List.foldl_cons, ih, mark_eq_zero_iff, List.forall_mem_cons, and_assoc]
  rw [marks, hrun]
  constructor
  · rintro ⟨-, hnone⟩ flag
    rw [← marks, hasFlag_marks, List.any_eq_false]
    intro entry hentry
    simp [hnone entry hentry]
  · intro hnone
    refine ⟨rfl, ?_⟩
    intro entry hentry
    have hflag := hnone entry.1
    rw [← marks, hasFlag_marks, List.any_eq_false] at hflag
    simpa using hflag entry hentry

variable [UsdTypes]

/-! ## Representation -/

/-- What is structural about a prim, kept: which kinds of leaf it owns and how many, and what its
guides are. -/
structure SameRepresentation (before after : PublishedPrim) : Prop where
  xform : before.hasXform = after.hasXform
  points : before.hasPoints = after.hasPoints
  normals : before.hasNormals = after.hasNormals
  extent : before.hasExtent = after.hasExtent
  guides : before.hasGuides = after.hasGuides
  guideCount : before.guideFrames.length = after.guideFrames.length
  controlGuide : before.hasControlGuide = after.hasControlGuide
  controlFrame : before.hasControlFrame = after.hasControlFrame
  shaderCount : before.shaderMatrices.size = after.shaderMatrices.size
  targetLocal : (before.targetLocalShaderMatrices == after.targetLocalShaderMatrices) = true
  overlay : before.hasWeightOverlay = after.hasWeightOverlay
  volumeGuides : before.hasVolumeGuides = after.hasVolumeGuides
  volumeCount : before.volumeGuides.length = after.volumeGuides.length
  volumeTypes : volumeTypesChanged before after = false
  assetRoot : after.drawsGuides = true → before.assetRoot = after.assetRoot
  controlShape : (before.controlShape == after.controlShape) = true

variable (before after : PublishedPrim)

/-- Any of the four structural checks. -/
def structuralChange : Bool :=
  ownershipChanged before after || volumeTypesChanged before after || guidesMoved before after ||
    controlShapeChanged before after

theorem controlShapeChanged_eq {before after : PublishedPrim}
    (h : before.hasControlGuide = after.hasControlGuide) :
    controlShapeChanged before after = !(before.controlShape == after.controlShape) := by
  rw [controlShapeChanged, PublishedPrim.controlShape, PublishedPrim.controlShape, h]
  cases after.hasControlGuide with
  | false => rfl
  | true =>
      show _ = !((_ == _) && ((_ == _) && ((_ == _) && (_ == _))))
      simp only [Bool.true_and, Bool.not_and, bne, Bool.or_assoc]

theorem structuralChange_iff {before after : PublishedPrim} :
    structuralChange before after = false ↔ SameRepresentation before after := by
  constructor
  · intro h
    simp only [structuralChange, ownershipChanged, Bool.or_eq_false_iff, bne_eq_false_iff_eq] at h
    obtain ⟨⟨⟨hown, htypes⟩, hmoved⟩, hshape⟩ := h
    obtain ⟨⟨⟨⟨⟨⟨⟨⟨⟨⟨⟨⟨hxform, hpoints⟩, hnormals⟩, hextent⟩, hguides⟩, hcount⟩, hcontrol⟩,
      hframe⟩, hshader⟩, hlocal⟩, hoverlay⟩, hvolume⟩, hvolumes⟩ := hown
    refine ⟨hxform, hpoints, hnormals, hextent, hguides, hcount, hcontrol, hframe, hshader, ?_,
      hoverlay, hvolume, hvolumes, htypes, ?_, ?_⟩
    · simpa [bne] using hlocal
    · intro hdraws
      have hroots : (before.assetRoot != after.assetRoot) = false := by
        rw [guidesMoved, ← PublishedPrim.drawsGuides, hdraws, Bool.true_and] at hmoved
        exact hmoved
      simpa using hroots
    · rw [controlShapeChanged_eq hcontrol] at hshape
      simpa using hshape
  · intro h
    have hroots : guidesMoved before after = false := by
      rw [guidesMoved, ← PublishedPrim.drawsGuides]
      cases hdraws : after.drawsGuides with
      | false => rfl
      | true => simp [h.assetRoot hdraws]
    have hlocal : (before.targetLocalShaderMatrices != after.targetLocalShaderMatrices) = false := by
      rw [bne, h.targetLocal, Bool.not_true]
    simp [structuralChange, ownershipChanged, h.xform, h.points, h.normals, h.extent, h.guides,
      h.guideCount, h.controlGuide, h.controlFrame, h.shaderCount, hlocal, h.overlay,
      h.volumeGuides, h.volumeCount, h.volumeTypes, hroots, controlShapeChanged_eq h.controlGuide,
      h.controlShape]

/-! ## Values -/

/-- The marks of the value changes. -/
def valueMarks : List (PublishedChange × Bool) :=
  let styleChanged := before.guideColor != after.guideColor ||
    before.guideOpacity != after.guideOpacity
  [(.shaderMatrix, before.shaderMatrices != after.shaderMatrices),
    (.controlGuideXform, after.hasControlFrame && before.controlFrame != after.controlFrame),
    (.xform, after.hasXform && (before.xform != after.xform ||
      before.xformBase != after.xformBase || before.sampleOffsets != after.sampleOffsets ||
      before.xformSamples != after.xformSamples ||
      before.xformBaseSamples != after.xformBaseSamples)),
    (.points, after.hasPoints && (before.points != after.points ||
      before.sampleOffsets != after.sampleOffsets || before.pointsSamples != after.pointsSamples)),
    (.normals, after.hasNormals && (before.normals != after.normals ||
      before.sampleOffsets != after.sampleOffsets ||
      before.normalsSamples != after.normalsSamples)),
    (.extent, after.hasExtent && (before.extentMin != after.extentMin ||
      before.extentMax != after.extentMax || before.sampleOffsets != after.sampleOffsets ||
      before.extentMinSamples != after.extentMinSamples ||
      before.extentMaxSamples != after.extentMaxSamples)),
    (.guides, after.hasGuides && (before.guideFrames != after.guideFrames ||
      before.guideLengths != after.guideLengths || before.guideRadii != after.guideRadii ||
      before.guideDrawSpheres != after.guideDrawSpheres ||
      before.guidePurpose != after.guidePurpose || styleChanged)),
    (.controlGuideXform, after.hasControlGuide &&
      (before.controlGuideFrame != after.controlGuideFrame ||
        before.controlGuideScale != after.controlGuideScale)),
    (.guides, after.hasControlGuide && (before.controlGuideWireWidth != after.controlGuideWireWidth ||
      before.controlGuidePoints != after.controlGuidePoints ||
      before.guidePurpose != after.guidePurpose || styleChanged)),
    (.guides, after.hasVolumeGuides && (before.volumeGuides != after.volumeGuides ||
      before.guidePurpose != after.guidePurpose || styleChanged)),
    (.weightOverlay, after.hasWeightOverlay && before.weightOverlay != after.weightOverlay)]

theorem valueChanges_eq :
    valueChanges before after = marks (valueMarks before after) := rfl

omit [UsdTypes] in
theorem ite_some_beq {α : Type} [BEq α] {owned owned' : Bool} (h : owned = owned') (a b : α) :
    ((if owned then some a else none) == if owned' then some b else none) =
      (!owned' || a == b) := by
  subst h
  cases owned <;> rfl

/-- **One flag for each leaf that changed.** -/
theorem hasFlag_valueChanges {before after : PublishedPrim}
    (h : SameRepresentation before after) (flag : PublishedChange) :
    hasFlag (valueChanges before after) flag = !sameLeaf before after flag := by
  have hpair : ∀ {α β : Type} [BEq α] [BEq β] (a a' : α) (b b' : β),
      ((a, b) == (a', b')) = (a == a' && b == b') := fun _ _ _ _ => rfl
  rw [valueChanges_eq, hasFlag_marks]
  cases flag with
  | xform =>
      simp [valueMarks, sameLeaf, PublishedPrim.xformLeaf, ite_some_beq h.xform, hpair, bne,
        Bool.or_assoc]
  | points =>
      simp [valueMarks, sameLeaf, PublishedPrim.pointsLeaf, ite_some_beq h.points, hpair, bne,
        Bool.or_assoc]
  | normals =>
      simp [valueMarks, sameLeaf, PublishedPrim.normalsLeaf, ite_some_beq h.normals, hpair, bne,
        Bool.or_assoc]
  | extent =>
      simp [valueMarks, sameLeaf, PublishedPrim.extentLeaf, ite_some_beq h.extent, hpair, bne,
        Bool.or_assoc]
  | structural => simp [valueMarks, sameLeaf]
  | guides =>
      simp [valueMarks, sameLeaf, PublishedPrim.guidesLeaf, PublishedPrim.style,
        ite_some_beq h.guides, ite_some_beq h.controlGuide, ite_some_beq h.volumeGuides, hpair,
        bne, Bool.or_assoc]
  | weightOverlay =>
      simp [valueMarks, sameLeaf, PublishedPrim.overlayLeaf, ite_some_beq h.overlay, bne]
  | shaderMatrix => simp [valueMarks, sameLeaf, PublishedPrim.shaderLeaf, bne]
  | controlGuideXform =>
      simp [valueMarks, sameLeaf, PublishedPrim.controlXformLeaf, ite_some_beq h.controlFrame,
        ite_some_beq h.controlGuide, hpair, bne]

/-! ## The diff -/

theorem diff_some :
    diff (some before) after =
      if structuralChange before after then PublishedChange.structural.bit
      else valueChanges before after := by
  simp only [diff, structuralChange, Bool.or_eq_true]
  split_ifs <;> simp_all

theorem hasFlag_diff_structural :
    hasFlag (diff (some before) after) .structural = structuralChange before after := by
  rw [diff_some]
  cases hchange : structuralChange before after with
  | true =>
      rw [if_pos rfl, hasFlag_bit]
      rfl
  | false =>
      rw [if_neg Bool.false_ne_true, hasFlag_valueChanges (structuralChange_iff.mp hchange)]
      rfl

theorem hasFlag_diff {before after : PublishedPrim} (h : SameRepresentation before after)
    (flag : PublishedChange) :
    hasFlag (diff (some before) after) flag = !sameLeaf before after flag := by
  rw [diff_some, structuralChange_iff.mpr h, if_neg Bool.false_ne_true, hasFlag_valueChanges h]

/-- **The diff is silent exactly when nothing changed.** -/
theorem diff_eq_zero_iff {before after : PublishedPrim} :
    diff (some before) after = 0 ↔
      SameRepresentation before after ∧ ∀ flag, sameLeaf before after flag = true := by
  constructor
  · intro hzero
    have hnone : ∀ flag, hasFlag (diff (some before) after) flag = false := by
      intro flag
      rw [hzero, hasFlag_zero]
    have hsame : SameRepresentation before after := by
      rw [← structuralChange_iff, ← hasFlag_diff_structural, hnone]
    refine ⟨hsame, ?_⟩
    intro flag
    have hflag := hnone flag
    rwa [hasFlag_diff hsame, Bool.not_eq_false'] at hflag
  · rintro ⟨hsame, hleaves⟩
    rw [diff_some, structuralChange_iff.mpr hsame, if_neg Bool.false_ne_true, valueChanges_eq,
      marks_eq_zero_iff]
    intro flag
    rw [← valueChanges_eq, hasFlag_valueChanges hsame, hleaves, Bool.not_true]

/-! ## What is drawn -/

theorem placement_eq_iff {before after : PublishedPrim} (h : SameRepresentation before after)
    (root root' : SdfPath) :
    before.placement root = after.placement root' ↔
      (after.drawsGuides = true → after.assetRoot = "" → root = root') := by
  have hdraws : before.drawsGuides = after.drawsGuides := by
    rw [PublishedPrim.drawsGuides, PublishedPrim.drawsGuides, h.guides, h.controlGuide,
      h.volumeGuides]
  rw [PublishedPrim.placement, PublishedPrim.placement, hdraws]
  cases hguides : after.drawsGuides with
  | false => simp
  | true =>
      rw [h.assetRoot hguides]
      rcases eq_or_ne after.assetRoot "" with hempty | hroot
      · simp [hempty]
      · simp [hroot]

theorem draw_beq (root root' : SdfPath) :
    (draw root before == draw root' after) =
      (before.xformLeaf == after.xformLeaf && (before.pointsLeaf == after.pointsLeaf &&
        (before.normalsLeaf == after.normalsLeaf && (before.extentLeaf == after.extentLeaf &&
          (before.shaderLeaf == after.shaderLeaf &&
            (before.targetLocalShaderMatrices == after.targetLocalShaderMatrices &&
              (before.overlayLeaf == after.overlayLeaf &&
                (before.controlXformLeaf == after.controlXformLeaf &&
                  (before.guidesLeaf == after.guidesLeaf &&
                    (before.controlShape == after.controlShape &&
                      before.placement root == after.placement root')))))))))) := rfl

/-- A prim that kept its representation and its leaves is drawn as it was, but for a generation's
asset root. -/
theorem draw_beq_iff {before after : PublishedPrim} (h : SameRepresentation before after)
    (root root' : SdfPath) :
    (draw root before == draw root' after) = true ↔
      (∀ flag, sameLeaf before after flag = true) ∧
        (after.drawsGuides = true → after.assetRoot = "" → root = root') := by
  rw [draw_beq, h.targetLocal, h.controlShape, ← placement_eq_iff h]
  simp only [Bool.and_eq_true, beq_iff_eq, true_and]
  constructor
  · rintro ⟨hxform, hpoints, hnormals, hextent, hshader, hoverlay, hcontrol, hguides, hplace⟩
    refine ⟨?_, hplace⟩
    intro flag
    cases flag with
    | xform => exact hxform
    | points => exact hpoints
    | normals => exact hnormals
    | extent => exact hextent
    | structural => rfl
    | guides => exact hguides
    | weightOverlay => exact hoverlay
    | shaderMatrix => exact hshader
    | controlGuideXform => exact hcontrol
  · rintro ⟨hleaves, hplace⟩
    exact ⟨hleaves .xform, hleaves .points, hleaves .normals, hleaves .extent,
      hleaves .shaderMatrix, hleaves .weightOverlay, hleaves .controlGuideXform, hleaves .guides,
      hplace⟩

theorem sameRepresentation_self {prim : PublishedPrim}
    (hshape : (prim.controlShape == prim.controlShape) = true) : SameRepresentation prim prim := by
  refine ⟨rfl, rfl, rfl, rfl, rfl, rfl, rfl, rfl, rfl, ?_, rfl, rfl, rfl, ?_, fun _ => rfl, hshape⟩
  · show (prim.targetLocalShaderMatrices.rows == prim.targetLocalShaderMatrices.rows) = true
    exact beq_self_eq_true _
  · have htypes : ∀ elements : List VolumeGuideElement,
        ((elements.zip elements).any fun pair => pair.1.primType != pair.2.primType) = false := by
      intro elements
      induction elements with
      | nil => rfl
      | cons element elements ih => rw [List.zip_cons_cons, List.any_cons, ih, bne_self_eq_false]; rfl
    rw [volumeTypesChanged, htypes, Bool.and_false]

theorem diff_self_eq_zero_iff (prim : PublishedPrim) :
    diff (some prim) prim = 0 ↔ (draw "" prim == draw "" prim) = true := by
  rw [diff_eq_zero_iff]
  constructor
  · rintro ⟨hsame, hleaves⟩
    exact (draw_beq_iff hsame "" "").mpr ⟨hleaves, fun _ _ => rfl⟩
  · intro h
    have hshape : (prim.controlShape == prim.controlShape) = true := by
      rw [draw_beq] at h
      simp only [Bool.and_eq_true] at h
      exact h.2.2.2.2.2.2.2.2.2.1
    have hsame := sameRepresentation_self hshape
    exact ⟨hsame, ((draw_beq_iff hsame "" "").mp h).1⟩

theorem primType_of_beq {a b : VolumeGuideElement} (h : (a == b) = true) :
    a.primType = b.primType := by
  have hfields : (a == b) = (a.xform == b.xform && (a.primType == b.primType &&
      (a.points == b.points && (a.counts == b.counts && (a.indices == b.indices &&
        (a.normals == b.normals && (a.normalsInterpolation == b.normalsInterpolation &&
          (a.doubleSided == b.doubleSided && (a.wireWidth == b.wireWidth &&
            a.opacity == b.opacity))))))))) := by
    cases a
    cases b
    rfl
  rw [hfields] at h
  simp only [Bool.and_eq_true, beq_iff_eq] at h
  exact h.2.1

theorem volumeTypes_of_beq {elements elements' : List VolumeGuideElement}
    (h : (elements == elements') = true) :
    ((elements.zip elements').any fun pair => pair.1.primType != pair.2.primType) = false := by
  induction elements generalizing elements' with
  | nil => rfl
  | cons element elements ih =>
      cases elements' with
      | nil => rfl
      | cons element' elements' =>
          rw [List.cons_beq_cons, Bool.and_eq_true] at h
          rw [List.zip_cons_cons, List.any_cons, ih h.2, primType_of_beq h.1, bne_self_eq_false]
          rfl

theorem diff_eq_zero_of_beq {before after : PublishedPrim} (h : (before == after) = true) :
    diff (some before) after = 0 := by
  have hfields : (before == after) =
      (before.assetRoot == after.assetRoot && (before.hasXform == after.hasXform &&
        (before.xform == after.xform && (before.xformBase == after.xformBase &&
        (before.shaderMatrices == after.shaderMatrices &&
        (before.targetLocalShaderMatrices == after.targetLocalShaderMatrices &&
        (before.hasPoints == after.hasPoints && (before.points == after.points &&
        (before.hasNormals == after.hasNormals && (before.normals == after.normals &&
        (before.hasExtent == after.hasExtent && (before.extentMin == after.extentMin &&
        (before.extentMax == after.extentMax && (before.sampleOffsets == after.sampleOffsets &&
        (before.pointsSamples == after.pointsSamples &&
        (before.normalsSamples == after.normalsSamples &&
        (before.xformSamples == after.xformSamples &&
        (before.xformBaseSamples == after.xformBaseSamples &&
        (before.extentMinSamples == after.extentMinSamples &&
        (before.extentMaxSamples == after.extentMaxSamples &&
        (before.hasGuides == after.hasGuides && (before.guideFrames == after.guideFrames &&
        (before.guideLengths == after.guideLengths && (before.guideRadii == after.guideRadii &&
        (before.guideDrawSpheres == after.guideDrawSpheres &&
        (before.guideColor == after.guideColor && (before.guideOpacity == after.guideOpacity &&
        (before.guidePurpose == after.guidePurpose &&
        (before.hasControlGuide == after.hasControlGuide &&
        (before.hasControlFrame == after.hasControlFrame &&
        (before.controlFrame == after.controlFrame &&
        (before.controlGuideFrame == after.controlGuideFrame &&
        (before.controlGuideShape == after.controlGuideShape &&
        (before.controlGuidePoints == after.controlGuidePoints &&
        (before.controlGuideCounts == after.controlGuideCounts &&
        (before.controlGuideDrawMode == after.controlGuideDrawMode &&
        (before.controlGuidePlaneNormal == after.controlGuidePlaneNormal &&
        (before.controlGuideScale == after.controlGuideScale &&
        (before.controlGuideWireWidth == after.controlGuideWireWidth &&
        (before.hasWeightOverlay == after.hasWeightOverlay &&
        (before.weightOverlay == after.weightOverlay &&
        (before.hasVolumeGuides == after.hasVolumeGuides &&
        before.volumeGuides == after.volumeGuides)))))))))))))))))))))))))))))))))))))))))) := by
    cases before
    cases after
    rfl
  rw [hfields] at h
  simp only [Bool.and_eq_true, beq_iff_eq] at h
  obtain ⟨hassetRoot, hhasXform, hxform, hxformBase, hshaderMatrices, htargetLocalShaderMatrices,
    hhasPoints, hpoints, hhasNormals, hnormals, hhasExtent, hextentMin, hextentMax, hsampleOffsets,
    hpointsSamples, hnormalsSamples, hxformSamples, hxformBaseSamples, hextentMinSamples,
    hextentMaxSamples, hhasGuides, hguideFrames, hguideLengths, hguideRadii, hguideDrawSpheres,
    hguideColor, hguideOpacity, hguidePurpose, hhasControlGuide, hhasControlFrame, hcontrolFrame,
    hcontrolGuideFrame, hcontrolGuideShape, hcontrolGuidePoints, hcontrolGuideCounts,
    hcontrolGuideDrawMode, hcontrolGuidePlaneNormal, hcontrolGuideScale, hcontrolGuideWireWidth,
    hhasWeightOverlay, hweightOverlay, hhasVolumeGuides, hvolumeGuides⟩ := h
  have hshape : (before.controlShape == after.controlShape) = true := by
    rw [PublishedPrim.controlShape, PublishedPrim.controlShape, ite_some_beq hhasControlGuide,
      hcontrolGuideShape, hcontrolGuideDrawMode, hcontrolGuidePlaneNormal]
    show (_ || (_ == _ && (_ == _ && (_ == _ && _ == _)))) = true
    simp [hcontrolGuideCounts]
  have htypes : volumeTypesChanged before after = false := by
    rw [volumeTypesChanged, volumeTypes_of_beq hvolumeGuides, Bool.and_false]
  have hsame : SameRepresentation before after :=
    ⟨hhasXform, hhasPoints, hhasNormals, hhasExtent, hhasGuides, length_eq_of_beq hguideFrames,
      hhasControlGuide, hhasControlFrame, OrderedMap.size_eq_of_beq hshaderMatrices,
      htargetLocalShaderMatrices, hhasWeightOverlay, hhasVolumeGuides,
      length_eq_of_beq hvolumeGuides, htypes, fun _ => hassetRoot, hshape⟩
  refine diff_eq_zero_iff.mpr ⟨hsame, ?_⟩
  intro flag
  have hnone : valueChanges before after = 0 := by
    simp [valueChanges, mark, bne, *]
  have hflag := hasFlag_valueChanges hsame flag
  rwa [hnone, hasFlag_zero, eq_comm, Bool.not_eq_false'] at hflag

/-! ## Ownership -/

/-- What a prim that kept its representation owns is the same, but for the names of its shader
matrices. -/
theorem owns_eq_iff {before after : PublishedPrim} (h : SameRepresentation before after) :
    before.owns = after.owns ↔ before.shaderMatrices.keys = after.shaderMatrices.keys := by
  constructor
  · intro howns
    refine before.shaderMatrices.ascending.eq_of_mem_iff after.shaderMatrices.ascending ?_
    intro name
    have hname := congrFun howns (.shaderMatrix name)
    rw [PublishedPrim.owns, PublishedPrim.owns, Bool.eq_iff_iff, List.contains_iff_mem,
      List.contains_iff_mem] at hname
    exact hname
  · intro hkeys
    funext leaf
    cases leaf with
    | xform => exact h.xform
    | points => exact h.points
    | normals => exact h.normals
    | extent => exact h.extent
    | shaderMatrix name => rw [PublishedPrim.owns, PublishedPrim.owns, hkeys]
    | displayColor => exact h.overlay
    | guide i => rw [PublishedPrim.owns, PublishedPrim.owns, h.guides, h.guideCount]
    | controlFrame => exact h.controlFrame
    | controlGuide => exact h.controlGuide
    | volumeGuide i => rw [PublishedPrim.owns, PublishedPrim.owns, h.volumeGuides, h.volumeCount]

end RigExec.Snapshot
