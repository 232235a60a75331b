/-
# `RigExec.Accel.FanTris` — the triangles of a mesh's faces, as fans

Two builders list the triangles of the faces in face-major order.  `H7` skips a triangle with
a corner out of range and stops where the indices run out; `Strict` fails the whole build.

    int             `Int`
    int64_t         `Int`; the sum of the counts is checked against its range
    Range           a borrowed range, which may be null
    Step            where a triangle of the walk lies, or a sum out of range
    fanSteps        the walk itself, as the list of its steps
    walkTriangles   the triangles of the walk with corners in range

A read outside the indices is `none`.
-/
import Mathlib.Algebra.Ring.Int.Defs
import Mathlib.Data.List.Basic
import Mathlib.Data.List.Induction
import Mathlib.Data.List.TakeWhile
import RigExec.Lib.Checked

namespace RigExec.Accel

open Lib (Range)

structure FanTri where
  a : Int
  b : Int
  c : Int
deriving DecidableEq

structure FanTrisH7 where
  tris : List FanTri
  truncated : Bool
deriving DecidableEq

structure FanTrisStrict where
  tris : List FanTri
  valid : Bool
deriving DecidableEq

/-- `index < 0 || size_t(index) >= pointCount`. -/
def outOfRange (pointCount : Nat) (index : Int) : Bool := index < 0 || (pointCount : Int) ≤ index

/-- The `c` of `for (int c = 1; c + 1 < faceCount; ++c)`. -/
def fanCorners (faceCount : Int) : List Nat := (List.range (faceCount - 2).toNat).map (· + 1)

/-- `offset + faceCount` leaves the range of `int64_t`. -/
def overflows (offset faceCount : Int) : Bool :=
  (0 < faceCount && 2 ^ 63 - 1 - faceCount < offset) ||
    (faceCount < 0 && offset < -2 ^ 63 - faceCount)

/-! ## The builders -/

section

variable (indices : List Int) (pointCount : Nat)

/-- The triangles of a face in `RigExecBuildFanTrisH7`, and whether the walk is truncated. -/
def fanFaceH7 (offset : Int) : List Nat → List FanTri → Option (List FanTri × Bool)
  | [], tris => some (tris, false)
  | c :: cs, tris =>
      let i2 := offset + c + 1
      if offset < 0 ∨ i2 < 0 ∨ (indices.length : Int) ≤ i2 then some (tris, true)
      else do
        let ia ← indices[offset.toNat]?
        let ib ← indices[(offset + c).toNat]?
        let ic ← indices[i2.toNat]?
        if outOfRange pointCount ia || outOfRange pointCount ib || outOfRange pointCount ic then
          fanFaceH7 offset cs tris
        else fanFaceH7 offset cs (tris ++ [⟨ia, ib, ic⟩])

/-- The loop over the faces of `RigExecBuildFanTrisH7`. -/
def fanFacesH7 : Int → List Int → List FanTri → Option FanTrisH7
  | _, [], tris => some ⟨tris, false⟩
  | offset, faceCount :: counts, tris => do
      let (tris, truncated) ← fanFaceH7 indices pointCount offset (fanCorners faceCount) tris
      if truncated then return ⟨tris, true⟩
      else if overflows offset faceCount then return ⟨tris, true⟩
      else fanFacesH7 (offset + faceCount) counts tris

/-- `RigExecBuildFanTrisH7`; its vector form passes the vectors as spans. -/
def buildFanTrisH7 (counts indices : Range Int) (pointCount : Nat) : Option FanTrisH7 :=
  if counts.isMissing ∨ indices.isMissing then some ⟨[], true⟩
  else fanFacesH7 indices.values pointCount 0 counts.values []

/-- Whether the corners of a face are in range. -/
def cornersInRange (offset : Int) : List Nat → Option Bool
  | [] => some true
  | corner :: corners => do
      let index ← indices[(offset + corner).toNat]?
      if outOfRange pointCount index then return false else cornersInRange offset corners

/-- The triangles of a face in `RigExecBuildFanTrisStrict`. -/
def fanFaceStrict (offset : Int) : List Nat → List FanTri → Option (List FanTri)
  | [], tris => some tris
  | c :: cs, tris => do
      let origin0 ← indices[offset.toNat]?
      let ib ← indices[(offset + c).toNat]?
      let ic ← indices[(offset + c + 1).toNat]?
      fanFaceStrict offset cs (tris ++ [⟨origin0, ib, ic⟩])

/-- The loop over the faces of `RigExecBuildFanTrisStrict`. -/
def fanFacesStrict : Int → List Int → List FanTri → Option FanTrisStrict
  | offset, [], tris => some ⟨tris, decide (offset = indices.length)⟩
  | offset, faceCount :: counts, tris =>
      if faceCount < 3 ∨ offset < 0 ∨ (indices.length : Int) < offset ∨
          (indices.length : Int) - offset < faceCount then some ⟨tris, false⟩
      else do
        let inRange ← cornersInRange indices pointCount offset (List.range faceCount.toNat)
        if inRange then
          let tris ← fanFaceStrict indices offset (fanCorners faceCount) tris
          fanFacesStrict (offset + faceCount) counts tris
        else return ⟨tris, false⟩

def buildFanTrisStrict (counts : List Int) : Option FanTrisStrict :=
  fanFacesStrict indices pointCount 0 counts []

end

/-! ## The walk -/

/-- A step of the walk: corner `c` of the face at `offset`, or an offset out of range. -/
inductive Step
  | corner (offset : Int) (c : Nat)
  | overflow
deriving DecidableEq

/-- The walk over the faces, in face-major order. -/
def fanSteps : Int → List Int → List Step
  | _, [] => []
  | offset, faceCount :: counts =>
      (fanCorners faceCount).map (Step.corner offset) ++
        if overflows offset faceCount = true then [Step.overflow]
        else fanSteps (offset + faceCount) counts

section

variable (indices : List Int) (pointCount : Nat)

/-- The step stays inside the indices. -/
def Step.inside : Step → Bool
  | .corner offset c => 0 ≤ offset && offset + c + 1 < indices.length
  | .overflow => false

/-- The triangle of a step, if its corners are in range. -/
def Step.triangle : Step → Option FanTri
  | .corner offset c => do
      let ia ← indices[offset.toNat]?
      let ib ← indices[(offset + c).toNat]?
      let ic ← indices[(offset + c + 1).toNat]?
      if outOfRange pointCount ia || outOfRange pointCount ib || outOfRange pointCount ic then none
      else some ⟨ia, ib, ic⟩
  | .overflow => none

/-- The fan walk overruns the indices. -/
def Overruns (counts : List Int) : Prop := ∃ step ∈ fanSteps 0 counts, step.inside indices = false

instance (counts : List Int) : Decidable (Overruns indices counts) :=
  inferInstanceAs (Decidable (∃ step ∈ fanSteps 0 counts, _))

def walkTriangles (counts : List Int) : List FanTri :=
  (fanSteps 0 counts).filterMap (Step.triangle indices pointCount)

end

section

variable {indices : List Int} {pointCount : Nat}

theorem Step.reads {offset : Int} {c : Nat} (h : (Step.corner offset c).inside indices = true) :
    ∃ ia ib ic, indices[offset.toNat]? = some ia ∧ indices[(offset + c).toNat]? = some ib ∧
      indices[(offset + c + 1).toNat]? = some ic := by
  unfold Step.inside at h
  rw [Bool.and_eq_true, decide_eq_true_iff, decide_eq_true_iff] at h
  obtain ⟨hpos, hlt⟩ := h
  exact ⟨_, _, _, List.getElem?_eq_getElem (by omega), List.getElem?_eq_getElem (by omega),
    List.getElem?_eq_getElem (by omega)⟩

theorem Step.triangle_of_reads {offset : Int} {c : Nat} {ia ib ic : Int}
    (ha : indices[offset.toNat]? = some ia) (hb : indices[(offset + c).toNat]? = some ib)
    (hc : indices[(offset + c + 1).toNat]? = some ic) :
    (Step.corner offset c).triangle indices pointCount =
      if outOfRange pointCount ia || outOfRange pointCount ib || outOfRange pointCount ic then none
      else some ⟨ia, ib, ic⟩ := by
  unfold Step.triangle
  dsimp only
  rw [ha, hb, hc]
  rfl

/-- The triangles of some steps up to the first that overruns, and whether one does. -/
def listed (indices : List Int) (pointCount : Nat) (steps : List Step) : List FanTri × Bool :=
  ((steps.takeWhile (Step.inside indices)).filterMap (Step.triangle indices pointCount),
    steps.any fun step => !step.inside indices)

theorem listed_append_of_inside {steps steps' : List Step}
    (h : (listed indices pointCount steps).2 = false) :
    listed indices pointCount (steps ++ steps') =
      ((listed indices pointCount steps).1 ++ (listed indices pointCount steps').1,
        (listed indices pointCount steps').2) := by
  have hall : ∀ step ∈ steps, step.inside indices = true := by
    intro step hstep
    have := List.any_eq_false.mp h step hstep
    rwa [Bool.not_eq_true, Bool.not_eq_false'] at this
  unfold listed at h ⊢
  dsimp only at h ⊢
  rw [List.takeWhile_append_of_pos hall, List.filterMap_append, List.any_append, h,
    Bool.false_or, List.takeWhile_eq_self_iff.mpr hall]

theorem listed_append_of_overrun {steps : List Step} (steps' : List Step)
    (h : (listed indices pointCount steps).2 = true) :
    listed indices pointCount (steps ++ steps') = listed indices pointCount steps := by
  unfold listed at h ⊢
  dsimp only at h
  rw [List.any_append, h, Bool.true_or]
  refine Prod.ext ?_ rfl
  dsimp only
  obtain ⟨step, hstep, hout⟩ := List.any_eq_true.mp h
  rw [Bool.not_eq_true'] at hout
  have hshort : (steps.takeWhile (Step.inside indices)).length ≠ steps.length := by
    intro hlength
    have heq := (List.takeWhile_prefix (l := steps) (Step.inside indices)).eq_of_length hlength
    have := List.takeWhile_eq_self_iff.mp heq step hstep
    rw [hout] at this
    cases this
  rw [List.takeWhile_append, if_neg hshort]

/-- **One face of `H7`.** -/
theorem fanFaceH7_eq (offset : Int) (cs : List Nat) (tris : List FanTri) :
    fanFaceH7 indices pointCount offset cs tris =
      some (tris ++ (listed indices pointCount (cs.map (Step.corner offset))).1,
        (listed indices pointCount (cs.map (Step.corner offset))).2) := by
  induction cs generalizing tris with
  | nil => rw [fanFaceH7, List.map_nil]; exact congrArg some (by simp [listed])
  | cons c cs ih =>
      unfold fanFaceH7
      dsimp only
      cases hin : (Step.corner offset c).inside indices with
      | false =>
          have hout : offset < 0 ∨ offset + c + 1 < 0 ∨ (indices.length : Int) ≤ offset + c + 1 := by
            unfold Step.inside at hin
            rw [Bool.and_eq_false_iff, decide_eq_false_iff_not, decide_eq_false_iff_not] at hin
            omega
          rw [if_pos hout]
          simp [listed, hin]
      | true =>
          have hkeep : ¬ (offset < 0 ∨ offset + c + 1 < 0 ∨
              (indices.length : Int) ≤ offset + c + 1) := by
            unfold Step.inside at hin
            rw [Bool.and_eq_true, decide_eq_true_iff, decide_eq_true_iff] at hin
            omega
          obtain ⟨ia, ib, ic, ha, hb, hc⟩ := Step.reads hin
          have htriangle := @Step.triangle_of_reads _ pointCount _ _ _ _ _ ha hb hc
          rw [if_neg hkeep, ha, hb, hc]
          dsimp only [Option.bind_eq_bind, Option.bind_some]
          split
          · rename_i hskip
            rw [if_pos hskip] at htriangle
            rw [ih]
            simp [listed, hin, htriangle]
          · rename_i htake
            rw [if_neg htake] at htriangle
            rw [ih]
            simp [listed, hin, htriangle]

theorem fanFacesH7_eq (offset : Int) (counts : List Int) (tris : List FanTri) :
    fanFacesH7 indices pointCount offset counts tris =
      some ⟨tris ++ (listed indices pointCount (fanSteps offset counts)).1,
        (listed indices pointCount (fanSteps offset counts)).2⟩ := by
  induction counts generalizing offset tris with
  | nil => simp [fanFacesH7, fanSteps, listed]
  | cons faceCount counts ih =>
      unfold fanFacesH7 fanSteps
      rw [fanFaceH7_eq]
      dsimp only [Option.bind_eq_bind, Option.bind_some]
      cases htruncated : (listed indices pointCount
          ((fanCorners faceCount).map (Step.corner offset))).2 with
      | true =>
          rw [listed_append_of_overrun _ htruncated, htruncated]
          rfl
      | false =>
          rw [listed_append_of_inside htruncated]
          dsimp only
          rw [if_neg Bool.false_ne_true]
          cases hover : overflows offset faceCount with
          | true =>
              rw [if_pos rfl, if_pos rfl]
              simp [listed, Step.inside]
          | false =>
              rw [if_neg Bool.false_ne_true, if_neg Bool.false_ne_true, ih, List.append_assoc]

/-- **`H7` lists the triangles of the walk up to where it overruns.** -/
theorem buildFanTrisH7_eq {counts indices : Range Int} (hcounts : counts.isMissing = false)
    (hindices : indices.isMissing = false) (pointCount : Nat) :
    buildFanTrisH7 counts indices pointCount =
      some ⟨((fanSteps 0 counts.values).takeWhile (Step.inside indices.values)).filterMap
        (Step.triangle indices.values pointCount),
        decide (Overruns indices.values counts.values)⟩ := by
  rw [buildFanTrisH7, hcounts, hindices, if_neg (by simp), fanFacesH7_eq, List.nil_append]
  refine congrArg some (congrArg (FanTrisH7.mk _) (Bool.eq_iff_iff.mpr ?_))
  show ((fanSteps 0 counts.values).any fun step => !step.inside indices.values) = true ↔ _
  rw [List.any_eq_true, decide_eq_true_iff]
  exact exists_congr fun step => and_congr_right fun _ => Bool.not_eq_true' _ ▸ Iff.rfl

theorem buildFanTrisH7_missing {counts indices : Range Int}
    (h : counts.isMissing ∨ indices.isMissing) (pointCount : Nat) :
    buildFanTrisH7 counts indices pointCount = some ⟨[], true⟩ :=
  if_pos h

theorem takeWhile_inside {counts : List Int} (h : ¬ Overruns indices counts) :
    (fanSteps 0 counts).takeWhile (Step.inside indices) = fanSteps 0 counts := by
  refine List.takeWhile_eq_self_iff.mpr ?_
  intro step hstep
  by_contra hout
  exact h ⟨step, hstep, Bool.not_eq_true _ ▸ hout⟩

/-! ## The strict builder -/

/-- The corners of the face at `offset` are there, and in range. -/
def CornersIn (indices : List Int) (pointCount : Nat) (offset : Int) (faceCount : Int) : Prop :=
  ∀ corner : Nat, (corner : Int) < faceCount → ∃ index,
    indices[(offset + corner).toNat]? = some index ∧ outOfRange pointCount index = false

/-- Every face from `offset` on has three corners or more, all in range. -/
def FacesIn (indices : List Int) (pointCount : Nat) : Int → List Int → Prop
  | _, [] => True
  | offset, faceCount :: counts => (3 ≤ faceCount ∧ CornersIn indices pointCount offset faceCount) ∧
      FacesIn indices pointCount (offset + faceCount) counts

theorem cornersInRange_eq {offset : Int} {corners : List Nat}
    (hread : ∀ corner ∈ corners, (offset + corner).toNat < indices.length) :
    ∃ inRange, cornersInRange indices pointCount offset corners = some inRange ∧
      (inRange = true ↔ ∀ corner ∈ corners, ∃ index,
        indices[(offset + corner).toNat]? = some index ∧ outOfRange pointCount index = false) := by
  induction corners with
  | nil => exact ⟨true, rfl, ⟨fun _ _ hcorner => (nomatch hcorner), fun _ => rfl⟩⟩
  | cons corner corners ih =>
      obtain ⟨inRange, hrest, hiff⟩ := ih fun c hc => hread c (List.mem_cons_of_mem _ hc)
      obtain ⟨index, hget⟩ : ∃ index, indices[(offset + corner).toNat]? = some index :=
        ⟨_, List.getElem?_eq_getElem (hread corner List.mem_cons_self)⟩
      unfold cornersInRange
      rw [hget]
      dsimp only [Option.bind_eq_bind, Option.bind_some]
      cases hout : outOfRange pointCount index with
      | true =>
          refine ⟨false, rfl, ⟨(nomatch ·), fun h => ?_⟩⟩
          obtain ⟨index', hindex, hin⟩ := h corner List.mem_cons_self
          cases hget.symm.trans hindex
          cases hout.symm.trans hin
      | false =>
          refine ⟨inRange, hrest, hiff.trans ⟨fun h c hc => ?_, fun h c hc => ?_⟩⟩
          · rcases List.mem_cons.mp hc with rfl | hc
            · exact ⟨_, hget, hout⟩
            · exact h c hc
          · exact h c (List.mem_cons_of_mem _ hc)

theorem fanFaceStrict_eq {offset : Int} {cs : List Nat}
    (hin : ∀ c ∈ cs, ∃ ia ib ic, indices[offset.toNat]? = some ia ∧
      indices[(offset + c).toNat]? = some ib ∧ indices[(offset + c + 1).toNat]? = some ic ∧
      outOfRange pointCount ia = false ∧ outOfRange pointCount ib = false ∧
      outOfRange pointCount ic = false) (tris : List FanTri) :
    fanFaceStrict indices offset cs tris = some (tris ++
      (cs.map (Step.corner offset)).filterMap (Step.triangle indices pointCount)) := by
  induction cs generalizing tris with
  | nil => simp [fanFaceStrict]
  | cons c cs ih =>
      obtain ⟨ia, ib, ic, ha, hb, hc, ha', hb', hc'⟩ := hin c List.mem_cons_self
      have htriangle := @Step.triangle_of_reads _ pointCount _ _ _ _ _ ha hb hc
      rw [ha', hb', hc'] at htriangle
      unfold fanFaceStrict
      rw [ha, hb, hc]
      dsimp only [Option.bind_eq_bind, Option.bind_some]
      rw [ih fun c hc => hin c (List.mem_cons_of_mem _ hc)]
      simp [htriangle]

theorem not_overflows {offset faceCount : Int} (hcount : 0 < faceCount)
    (hsum : offset + faceCount < 2 ^ 63) : overflows offset faceCount = false := by
  unfold overflows
  rw [Bool.or_eq_false_iff, Bool.and_eq_false_iff, Bool.and_eq_false_iff]
  exact ⟨Or.inr (decide_eq_false (by omega)), Or.inl (decide_eq_false (by omega))⟩

/-- **The strict builder** lists a beginning of the walk's triangles; it is valid exactly when every
face has three or more corners in range and the counts add up, and then it lists them all. -/
theorem fanFacesStrict_eq (hsize : (indices.length : Int) < 2 ^ 63) {offset : Int}
    (hpos : 0 ≤ offset) (counts : List Int) (tris : List FanTri) :
    ∃ strict, fanFacesStrict indices pointCount offset counts tris = some strict ∧
      (∃ more, strict.tris = tris ++ more ∧
        more <+: (fanSteps offset counts).filterMap (Step.triangle indices pointCount) ∧
        (strict.valid = true → more =
          (fanSteps offset counts).filterMap (Step.triangle indices pointCount))) ∧
      (strict.valid = true ↔ FacesIn indices pointCount offset counts ∧
        offset + counts.sum = indices.length) := by
  induction counts generalizing offset tris with
  | nil =>
      refine ⟨_, rfl, ⟨[], (List.append_nil _).symm, List.nil_prefix, fun _ => rfl⟩, ?_⟩
      rw [decide_eq_true_iff, List.sum_nil, Int.add_zero]
      exact ⟨fun h => ⟨trivial, h⟩, fun h => h.2⟩
  | cons faceCount counts ih =>
      unfold fanFacesStrict
      split
      · rename_i hshort
        refine ⟨_, rfl, ⟨[], (List.append_nil _).symm, List.nil_prefix, (nomatch ·)⟩,
          ⟨(nomatch ·), fun h => ?_⟩⟩
        exfalso
        obtain ⟨⟨⟨hthree, hcorners⟩, -⟩, -⟩ := h
        -- the last corner would lie beyond the indices
        obtain ⟨index, hindex, -⟩ := hcorners (faceCount - 1).toNat (by omega)
        have hlt := (List.getElem?_eq_some_iff.mp hindex).1
        omega
      · rename_i hroom
        have hread : ∀ corner ∈ List.range faceCount.toNat,
            (offset + corner).toNat < indices.length := by
          intro corner hcorner
          have := List.mem_range.mp hcorner
          omega
        obtain ⟨inRange, hcompute, hiff⟩ := @cornersInRange_eq _ pointCount _ _ hread
        have hcornersIn : inRange = true ↔ CornersIn indices pointCount offset faceCount := by
          refine hiff.trans ⟨fun h corner hcorner => h corner ?_, fun h corner hcorner => ?_⟩
          · exact List.mem_range.mpr (by omega)
          · exact h corner (by have := List.mem_range.mp hcorner; omega)
        rw [hcompute]
        dsimp only [Option.bind_eq_bind, Option.bind_some]
        cases hin : inRange with
        | false =>
            refine ⟨_, rfl, ⟨[], (List.append_nil _).symm, List.nil_prefix, (nomatch ·)⟩,
              ⟨(nomatch ·), fun h => ?_⟩⟩
            have := hcornersIn.mpr h.1.1.2
            rw [hin] at this
            cases this
        | true =>
            have hcorners := hcornersIn.mp hin
            have hcorner : ∀ c ∈ fanCorners faceCount, ∃ ia ib ic, indices[offset.toNat]? = some ia ∧
                indices[(offset + c).toNat]? = some ib ∧
                indices[(offset + c + 1).toNat]? = some ic ∧
                outOfRange pointCount ia = false ∧ outOfRange pointCount ib = false ∧
                outOfRange pointCount ic = false := by
              intro c hc
              obtain ⟨k, hk, rfl⟩ := List.mem_map.mp hc
              rw [List.mem_range] at hk
              obtain ⟨ia, ha, ha'⟩ := hcorners 0 (by omega)
              obtain ⟨ib, hb, hb'⟩ := hcorners (k + 1) (by omega)
              obtain ⟨ic, hc, hc'⟩ := hcorners (k + 1 + 1) (by omega)
              refine ⟨ia, ib, ic, ?_, hb, ?_, ha', hb', hc'⟩
              · rwa [show (offset + ((0 : Nat) : Int)).toNat = offset.toNat by omega] at ha
              · rwa [show (offset + ((k + 1 + 1 : Nat) : Int)).toNat =
                  (offset + ((k + 1 : Nat) : Int) + 1).toNat by omega] at hc
            have hsteps : (fanSteps offset (faceCount :: counts)).filterMap
                (Step.triangle indices pointCount) =
                ((fanCorners faceCount).map (Step.corner offset)).filterMap
                  (Step.triangle indices pointCount) ++
                (fanSteps (offset + faceCount) counts).filterMap
                  (Step.triangle indices pointCount) := by
              rw [fanSteps, if_neg, List.filterMap_append]
              rw [not_overflows (by omega) (by omega)]
              exact Bool.false_ne_true
            rw [if_pos rfl, fanFaceStrict_eq hcorner, Option.bind_some, hsteps]
            obtain ⟨strict, hstrict, ⟨more, hmore, hbefore, hwhole⟩, hvalid⟩ :=
              ih (show 0 ≤ offset + faceCount by omega) (tris ++
                ((fanCorners faceCount).map (Step.corner offset)).filterMap
                  (Step.triangle indices pointCount))
            refine ⟨strict, hstrict, ⟨_, hmore.trans (List.append_assoc ..),
              (List.prefix_append_right_inj _).mpr hbefore, fun h => ?_⟩, hvalid.trans ?_⟩
            · rw [hwhole h]
            · rw [List.sum_cons, ← Int.add_assoc]
              exact ⟨fun h => ⟨⟨⟨by omega, hcorners⟩, h.1⟩, h.2⟩, fun h => ⟨h.1.2, h.2⟩⟩

end

end RigExec.Accel
