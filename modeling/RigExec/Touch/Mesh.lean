/-
# `RigExec.Touch.Mesh` — the posed mesh a touch lands on

`RigExecTouchPoseMesh` keeps the triangles of a topology, the posed points, a transform, and
a tree over the triangles with the versions that say whether it is current.

    float, double    `Option F` and `Option R` over linear orders, `none` a NaN
    uint32_t         `Nat`, reduced by `u32` where the code narrows or adds
    uint64_t         `Nat`, reduced by `u64` where the version is bumped
    _tris            the three point indices of each triangle, as one entry

Face starts, face regions and the centroid caches are left out.
-/
import RigExec.Accel.BvhBuild

namespace RigExec.Touch

open scoped RigExec.Accel
open RigExec.Accel (Point)
open Lib (RunNode)

/-! ## Arithmetic -/

/-- A `GfVec3d`. -/
abbrev Vec (R : Type) : Type := Fin 3 → Option R

/-- Float and double arithmetic, and what the mesh calls of the vector library. -/
structure Arithmetic (F R M : Type) where
  fltMax : F
  fltLowest : F
  fltZero : F
  fltHalf : F
  fltAdd : Option F → Option F → Option F
  fltSub : Option F → Option F → Option F
  fltMul : Option F → Option F → Option F
  fltDiv : Option F → Option F → Option F
  fltOfNat : Nat → Option F
  /-- `int(x)`. -/
  toInt : Option F → Int
  /-- `double(x)`. -/
  double : Option F → Option R
  dblMax : R
  dblLowest : R
  dblOfNat : Nat → Option R
  literal : ℚ → R
  add : Option R → Option R → Option R
  sub : Option R → Option R → Option R
  mul : Option R → Option R → Option R
  div : Option R → Option R → Option R
  fabs : Option R → Option R
  /-- `GfVec3d - GfVec3d` and the other vector operations. -/
  vecSub : Vec R → Vec R → Vec R
  gfCross : Vec R → Vec R → Vec R
  gfDot : Vec R → Vec R → Option R
  getLength : Vec R → Option R
  vecDiv : Vec R → Option R → Vec R
  /-- `GfMatrix4d(1.0)` and the matrix operations. -/
  identity : M
  sameMatrix : M → M → Bool
  getInverse : M → M
  transform : M → Vec R → Vec R
  transformDir : M → Vec R → Vec R

/-- `uint64_t(x)`. -/
def u64 (x : Nat) : Nat := x % 2 ^ 64

/-! ## The mesh -/

structure Node (F : Type) where
  lo : Fin 3 → F
  hi : Fin 3 → F
  first : Nat
  count : Nat

/-- A node without its box. -/
def Node.shape {F : Type} (node : Node F) : RunNode := ⟨node.first, node.count⟩

/-- The acceleration: the members a `const` function may change. -/
structure Bvh (F R : Type) where
  nodes : List (Node F)
  order : List Nat
  version : Nat
  built : Bool
  builtCost : Option R
  buildCount : Nat
  refitCount : Nat

/-- `RigExecTouchPoseMesh`. -/
structure Mesh (F R M : Type) where
  tris : List (Nat × Nat × Nat)
  triFace : List Nat
  pointCount : Nat
  points : List (Point F)
  xform : M
  inverse : M
  identity : Bool
  pointsVersion : Nat
  bvh : Bvh F R

section

variable {F R M : Type}

def Mesh.new (ops : Arithmetic F R M) : Mesh F R M where
  tris := []
  triFace := []
  pointCount := 0
  points := []
  xform := ops.identity
  inverse := ops.identity
  identity := true
  pointsVersion := 0
  bvh := {
    nodes := []
    order := []
    version := 2 ^ 64 - 1
    built := false
    builtCost := some (ops.literal 0)
    buildCount := 0
    refitCount := 0 }

def Mesh.hasPoints (mesh : Mesh F R M) : Bool :=
  mesh.points.length == mesh.pointCount && mesh.pointCount != 0

/-- `triangles`, as `SetTopology` counts them. -/
def triangleCount : List Int → Nat
  | [] => 0
  | c :: counts => if c < 3 then triangleCount counts else (c - 2).toNat + triangleCount counts

/-- `total`, as `SetTopology` counts it. -/
def totalOf : List Int → Nat
  | [] => 0
  | c :: counts => if c < 3 then (max c 0).toNat + totalOf counts else c.toNat + totalOf counts

/-- The triangles of the faces from face `f` on, each with its face. -/
def fanTriangles (indices : List Int) : Nat → Nat → List Int → List ((Nat × Nat × Nat) × Nat)
  | _, _, [] => []
  | f, start, count :: counts =>
      let c := (max count 0).toNat
      let index i := (indices[i]?.getD 0).toNat
      (List.range (c - 2)).map (fun k => ((index start, index (start + (k + 1)),
        index (start + (k + 1) + 1)), f)) ++ fanTriangles indices (f + 1) (start + c) counts

/-- `SetTopology`: whether it accepts the arrays, and the mesh. -/
def Mesh.setTopology (mesh : Mesh F R M) (counts indices : List Int) (pointCount : Nat) :
    Mesh F R M × Bool :=
  let cleared := { mesh with
    tris := []
    triFace := []
    pointCount := 0
    bvh := { mesh.bvh with nodes := [], order := [], built := false } }
  if totalOf counts ≠ indices.length then (cleared, false)
  else if indices.any fun index => index < 0 || pointCount ≤ index.toNat then (cleared, false)
  else
    let triangles := fanTriangles indices 0 0 counts
    ({ cleared with
      tris := triangles.map Prod.fst
      triFace := triangles.map Prod.snd
      pointCount := pointCount
      pointsVersion := u64 (mesh.pointsVersion + 1) }, true)

def Mesh.setPoints (mesh : Mesh F R M) (points : List (Point F)) : Mesh F R M × Bool :=
  if points.length ≠ mesh.pointCount then (mesh, false)
  else ({ mesh with points := points, pointsVersion := u64 (mesh.pointsVersion + 1) }, true)

def Mesh.setTransform (ops : Arithmetic F R M) (mesh : Mesh F R M) (localToWorld : M) :
    Mesh F R M :=
  let identity := ops.sameMatrix localToWorld ops.identity
  { mesh with
    xform := localToWorld
    identity := identity
    inverse := if identity = true then ops.identity else ops.getInverse localToWorld }

def Mesh.corners (mesh : Mesh F R M) (tri : Nat) : Option (Point F × Point F × Point F) := do
  let (i, j, k) ← mesh.tris[tri]?
  let a ← mesh.points[i]?
  let b ← mesh.points[j]?
  let c ← mesh.points[k]?
  return (a, b, c)

end

end RigExec.Touch
