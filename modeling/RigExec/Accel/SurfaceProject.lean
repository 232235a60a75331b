/-
# `RigExec.Accel.SurfaceProject` — projecting points onto a surface

Every point moves towards the nearest point on the triangles of a surface.  The triangles come
from the fans of its faces: a retained accelerator holds them if it still matches, and the
projection goes over them with the index or, without one, over the faces again with offsets
that wrap at 2 ^ 64.

    float, double   `Option F` and `Option R` over linear orders, `none` a NaN
    size_t          `Nat`, reduced by 2 ^ 64 where the code adds to an offset
    Range           a borrowed range: a missing one leaves every point as it is
    Retained        the accelerator a caller may hold, built from arrays
    plainProject    the projection without any of it: the walk alone

A read outside an array is `none`.
-/
import RigExec.Accel.Bvh
import RigExec.Accel.FanTris

namespace RigExec.Accel

open Lib (Range)

/-- Float and double arithmetic, and what the projection calls of the vector library. -/
structure SurfaceOps (F R : Type) where
  fltMax : F
  zero : F
  one : F
  add : Option F → Option F → Option F
  sub : Option F → Option F → Option F
  mul : Option F → Option F → Option F
  div : Option F → Option F → Option F
  gfDot : Point F → Point F → Option F
  getLengthSq : Point F → Option F
  vecAdd : Point F → Point F → Point F
  vecSub : Point F → Point F → Point F
  vecMul : Point F → Option F → Point F
  dblZero : R
  dblOne : R
  /-- `float(x)`. -/
  toFloat : Option R → Option F

section

variable {F R : Type} [LinearOrder F] (ops : SurfaceOps F R)

def closestPointOnTriangle (p a b c : Point F) : Point F :=
  let zero := some ops.zero
  let ab := ops.vecSub b a
  let ac := ops.vecSub c a
  let ap := ops.vecSub p a
  let d1 := ops.gfDot ab ap
  let d2 := ops.gfDot ac ap
  if floatLe d1 zero && floatLe d2 zero then a
  else
    let bp := ops.vecSub p b
    let d3 := ops.gfDot ab bp
    let d4 := ops.gfDot ac bp
    if floatLe zero d3 && floatLe d4 d3 then b
    else
      let vc := ops.sub (ops.mul d1 d4) (ops.mul d3 d2)
      if floatLe vc zero && floatLe zero d1 && floatLe d3 zero then
        ops.vecAdd a (ops.vecMul ab (ops.div d1 (ops.sub d1 d3)))
      else
        let cp := ops.vecSub p c
        let d5 := ops.gfDot ab cp
        let d6 := ops.gfDot ac cp
        if floatLe zero d6 && floatLe d5 d6 then c
        else
          let vb := ops.sub (ops.mul d5 d2) (ops.mul d1 d6)
          if floatLe vb zero && floatLe zero d2 && floatLe d6 zero then
            ops.vecAdd a (ops.vecMul ac (ops.div d2 (ops.sub d2 d6)))
          else
            let va := ops.sub (ops.mul d3 d6) (ops.mul d5 d4)
            if floatLe va zero && floatLe zero (ops.sub d4 d3) &&
                floatLe zero (ops.sub d5 d6) then
              ops.vecAdd b (ops.vecMul (ops.vecSub c b)
                (ops.div (ops.sub d4 d3) (ops.add (ops.sub d4 d3) (ops.sub d5 d6))))
            else
              let denom := ops.div (some ops.one) (ops.add (ops.add va vb) vc)
              ops.vecAdd (ops.vecAdd a (ops.vecMul ab (ops.mul vb denom)))
                (ops.vecMul ac (ops.mul vc denom))

/-- The nearest point so far, with its squared distance. -/
structure Nearest (F : Type) where
  distSq : Option F
  best : Point F

/-- A triangle is nearer than the best so far, or not. -/
def Nearest.tryTriangle (p : Point F) (nearest : Nearest F) (corners : Point F × Point F × Point F)
    :
    Nearest F :=
  let q := closestPointOnTriangle ops p corners.1 corners.2.1 corners.2.2
  let distSq := ops.getLengthSq (ops.vecSub q p)
  if floatLt distSq nearest.distSq = true then ⟨distSq, q⟩ else nearest

def Nearest.start (p : Point F) : Nearest F := ⟨some ops.fltMax, p⟩

/-- `p + (best - p) * float(w)`. -/
def blend (w : Option R) (p best : Point F) : Point F :=
  ops.vecAdd p (ops.vecMul (ops.vecSub best p) (ops.toFloat w))

/-- `values[size_t(index)]`. -/
def readAt {A : Type} (values : List A) (index : Int) : Option A :=
  if index < 0 then none else values[index.toNat]?

variable (surfacePoints : List (Point F))

/-- The corners of a triangle. -/
def FanTri.corners (tri : FanTri) : Option (Point F × Point F × Point F) := do
  let a ← readAt surfacePoints tri.a
  let b ← readAt surfacePoints tri.b
  let c ← readAt surfacePoints tri.c
  return (a, b, c)

/-! ## The accelerator -/

/-- `RigExecSurfaceAccel`; its index is `RigExecTriangleBvh`, of which only `order` is used. -/
structure SurfaceAccel (F : Type) where
  fan : Option FanTrisH7
  bvh : Option (List Nat)
  counts : List Int
  indices : List Int
  points : List (Point F)

/-- Whether the corners of a triangle are points with finite coordinates. -/
def finiteCorners [BoundedOrder F] (points : List (Point F)) : List Int → Option Bool
  | [] => some true
  | index :: rest =>
      if outOfRange points.length index then some false
      else do
        let point ← readAt points index
        if isFinite (point 0) && isFinite (point 1) && isFinite (point 2) then
          finiteCorners points rest
        else return false

/-- `RigExecTriangleBvh::Build`: the order, if it accepts the triangles. -/
def triangleBvhBuild [BoundedOrder F] (points : List (Point F)) (tris : List FanTri) :
    Option (Option (List Nat)) :=
  if tris = [] ∨ points = [] ∨ 2 ^ 32 - 1 < tris.length then some none
  else do
    let finite ← finiteCorners points (tris.flatMap fun tri => [tri.a, tri.b, tri.c])
    if finite then return some ((List.range tris.length).map u32) else return none

/-- `kRigExecBvhMinTris`. -/
def bvhMinTris : Nat := 64

/-- `kRigExecBvhMinQueries`. -/
def bvhMinQueries : Nat := 4

def buildSurfaceAccel [BoundedOrder F] (counts indices : Range Int)
    (surfacePoints : Range (Point F)) : Option (SurfaceAccel F) := do
  let fan ← buildFanTrisH7 counts indices surfacePoints.size
  let bvh ←
    if !fan.truncated && decide (bvhMinTris ≤ fan.tris.length) && !surfacePoints.isMissing then
      triangleBvhBuild surfacePoints.values fan.tris
    else some none
  return ⟨some fan, bvh, counts.values, indices.values, surfacePoints.values⟩

/-- The accelerator a caller holds. -/
inductive Retained (F : Type)
  | none
  | empty
  | built (counts indices : List Int) (surfacePoints : List (Point F))

def Retained.accel [BoundedOrder F] : Retained F → Option (SurfaceAccel F)
  | .none => Option.none
  | .empty => some ⟨Option.none, Option.none, [], [], []⟩
  | .built counts indices surfacePoints =>
      buildSurfaceAccel (.of counts) (.of indices) (.of surfacePoints)

def rangeMatches {A : Type} (same : A → A → Bool) (key : List A) (data : Range A) : Bool :=
  key.length == data.size && (key.zip data.values).all fun pair => same pair.1 pair.2

/-- `==` of two `GfVec3f`. -/
def samePoint (p q : Point F) : Bool :=
  (List.finRange 3).all fun k => floatLe (p k) (q k) && floatLe (q k) (p k)

/-! ## The projection -/

/-- `RigExecTriangleBvh::QueryNearest`. -/
def queryTriangles (tris : List FanTri) (order : List Nat) (p : Point F) : Option (Nearest F) :=
  order.foldlM (fun nearest t => (tris[t]?).bind fun tri =>
    (tri.corners surfacePoints).map (nearest.tryTriangle ops p)) (Nearest.start ops p)

/-- `offset + x`, of a `size_t`. -/
def wrapAdd (offset : Nat) (x : Int) : Nat := ((offset + x) % 2 ^ 64).toNat

/-- The nested walk over a face; `some none` is its `return`. -/
def nestedFace (surfacePoints : List (Point F)) (indices : List Int) (p : Point F) (offset : Nat) :
    List Nat → Nearest F → Option (Option (Nearest F))
  | [], nearest => some (some nearest)
  | c :: cs, nearest =>
      let i2 := wrapAdd offset (c + 1)
      if indices.length ≤ i2 then some none
      else do
        let ia ← indices[offset]?
        let ib ← indices[wrapAdd offset c]?
        let ic ← indices[i2]?
        if outOfRange surfacePoints.length ia || outOfRange surfacePoints.length ib ||
            outOfRange surfacePoints.length ic then
          nestedFace surfacePoints indices p offset cs nearest
        else
          let corners ← FanTri.corners surfacePoints ⟨ia, ib, ic⟩
          nestedFace surfacePoints indices p offset cs (nearest.tryTriangle ops p corners)

/-- The nested walk over the faces. -/
def nestedFaces (surfacePoints : List (Point F)) (indices : List Int) (p : Point F) :
    Nat → List Int → Nearest F → Option (Option (Nearest F))
  | _, [], nearest => some (some nearest)
  | offset, faceCount :: counts, nearest => do
      match ← nestedFace ops surfacePoints indices p offset (fanCorners faceCount) nearest with
      | none => return none
      | some nearest =>
          nestedFaces surfacePoints indices p (wrapAdd offset faceCount) counts nearest

/-- The loop over the points without an index: its `return` leaves the rest as they are. -/
def projectNested (surfacePoints : List (Point F)) (counts indices : List Int) (w : Option R) :
    List (Point F) → Option (List (Point F))
  | [] => some []
  | p :: points => do
      match ← nestedFaces ops surfacePoints indices p 0 counts (Nearest.start ops p) with
      | none => return p :: points
      | some nearest =>
          return blend ops w p nearest.best :: (← projectNested surfacePoints counts indices w points)

variable [LinearOrder R]

/-- `w`, the weight from 0 to 1. -/
def clampWeight (weight : Option R) : Option R :=
  minOf (maxOf weight (some ops.dblZero)) (some ops.dblOne)

variable [BoundedOrder F]

/-- The accelerator that is used. -/
def currentAccel (surfacePoints : Range (Point F)) (counts indices : Range Int) :
    Option (SurfaceAccel F) → Option (SurfaceAccel F)
  | none => buildSurfaceAccel counts indices surfacePoints
  | some accel =>
      if accel.fan.isNone || !rangeMatches (· == ·) accel.counts counts ||
          !rangeMatches (· == ·) accel.indices indices ||
          accel.points.length != surfacePoints.size ||
          (accel.bvh.isSome && !rangeMatches samePoint accel.points surfacePoints) then
        buildSurfaceAccel counts indices surfacePoints
      else some accel

def applySurfaceProject (points : List (Point F)) (surfacePoints : Range (Point F))
    (counts indices : Range Int) (weight : Option R) (accel : Option (SurfaceAccel F)) :
    Option (List (Point F)) :=
  let w := clampWeight ops weight
  if points = [] ∨ surfacePoints.size = 0 ∨ floatLe w (some ops.dblZero) = true then some points
  else if surfacePoints.isMissing ∨ counts.isMissing ∨ indices.isMissing then some points
  else do
    let accel ← currentAccel surfacePoints counts indices accel
    let fan ← accel.fan
    if fan.truncated then return points
    else
      match accel.bvh with
      | some order =>
          if bvhMinTris ≤ fan.tris.length ∧ bvhMinQueries ≤ points.length then
            points.mapM fun p => (queryTriangles ops surfacePoints.values fan.tris order p).map
              fun nearest => blend ops w p nearest.best
          else projectNested ops surfacePoints.values counts.values indices.values w points
      | none => projectNested ops surfacePoints.values counts.values indices.values w points

/-! ## The plain walk -/

/-- The corners of the triangles of the walk. -/
def walkCorners (counts indices : List Int) : List (Point F × Point F × Point F) :=
  (walkTriangles indices surfacePoints.length counts).filterMap (FanTri.corners surfacePoints)

/-- The first of the nearest points on some triangles. -/
def nearestOn (p : Point F) (corners : List (Point F × Point F × Point F)) : Nearest F :=
  corners.foldl (Nearest.tryTriangle ops p) (Nearest.start ops p)

/-- The projection by the fan walk alone: nothing moves without a surface, a weight, or where a
range is missing or the walk overruns. -/
def plainProject (points : List (Point F)) (surfacePoints : Range (Point F))
    (counts indices : Range Int) (weight : Option R) : List (Point F) :=
  let w := clampWeight ops weight
  if surfacePoints.size = 0 ∨ floatLe w (some ops.dblZero) = true ∨
      surfacePoints.isMissing ∨ counts.isMissing ∨ indices.isMissing ∨
      Overruns indices.values counts.values then points
  else points.map fun p =>
    blend ops w p
      (nearestOn ops p (walkCorners surfacePoints.values counts.values indices.values)).best

end

end RigExec.Accel
