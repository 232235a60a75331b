/-
# `RigExec.Touch.Build` — the tree over the triangles: build, refit, `Prepare`

A tree is built once for a topology and refitted for new points.  The build splits a run by
a binned cost, or at its middle; the refit sets the boxes again, the leaves' from their
triangles and the others bottom up, and builds anew when the boxes have grown too much.

    std::partition   any function that puts a run in another order
    bounds           six floats for each triangle, read by their flat index

A read of `_points` outside the array is `none`, and so is a build whose loop does not end.
-/
import RigExec.Touch.Mesh

namespace RigExec.Touch

open scoped RigExec.Accel
open RigExec.Accel (u32 stdMin stdMax minOf maxOf floatLt Point)
open Lib (runItems reorder splice)

/-- Reorders the run of triangles it is given around a predicate. -/
structure StdPartition where
  apply : (Nat → Bool) → List Nat → List Nat
  perm : ∀ pred run, (apply pred run).Perm run

/-- `_kLeafSize`. -/
def leafSize : Nat := 4

/-- `_kBins`. -/
def binCount : Nat := 16

section

variable {F R M : Type} [LinearOrder F]

/-! ## Bounds -/

/-- The six floats of a triangle's bounds. -/
structure TriBounds (F : Type) where
  lo : Fin 3 → Option F
  hi : Fin 3 → Option F

def boundsOf (corners : Point F × Point F × Point F) : TriBounds F where
  lo k := minOf (corners.1 k) (minOf (corners.2.1 k) (corners.2.2 k))
  hi k := maxOf (corners.1 k) (maxOf (corners.2.1 k) (corners.2.2 k))

def Mesh.computeTriangleBounds (mesh : Mesh F R M) : Option (List (TriBounds F)) :=
  (List.range mesh.triFace.length).mapM fun t => (mesh.corners t).map boundsOf

/-- `bounds[i]`. -/
def boundsAt (bounds : List (TriBounds F)) (i : Nat) : Option F :=
  (bounds[i / 6]?).elim none fun b =>
    if i % 6 < 3 then b.lo (Fin.ofNat 3 i) else b.hi (Fin.ofNat 3 i)

/-- The floats from `&bounds[i]` on. -/
def boundsFrom (bounds : List (TriBounds F)) (i : Nat) (k : Fin 3) : Option F :=
  boundsAt bounds (i + k)

variable (ops : Arithmetic F R M)

/-- `centroids[i]`. -/
def centroidAt (bounds : List (TriBounds F)) (i : Nat) : Option F :=
  let t := i / 3
  let k := i % 3
  ops.fltMul (some ops.fltHalf)
    (ops.fltAdd (boundsAt bounds (6 * t + k)) (boundsAt bounds (6 * t + 3 + k)))

/-- The floats from `&centroids[i]` on. -/
def centroidFrom (bounds : List (TriBounds F)) (i : Nat) (k : Fin 3) : Option F :=
  centroidAt ops bounds (i + k)

/-! ## Boxes -/

structure Box (F : Type) where
  lo : Fin 3 → F
  hi : Fin 3 → F

def Box.empty : Box F := ⟨fun _ => ops.fltMax, fun _ => ops.fltLowest⟩

def Box.grow (box : Box F) (lo hi : Fin 3 → Option F) : Box F where
  lo k := stdMin (box.lo k) (lo k)
  hi k := stdMax (box.hi k) (hi k)

def area (box : Box F) : Option R :=
  let side k := ops.double
    (some (stdMax ops.fltZero (ops.fltSub (some (box.hi k)) (some (box.lo k)))))
  ops.mul (some (ops.literal 2)) (ops.add (ops.add (ops.mul (side 0) (side 1))
    (ops.mul (side 1) (side 2))) (ops.mul (side 2) (side 0)))

def Node.box (node : Node F) : Box F := ⟨node.lo, node.hi⟩

/-- The box around a run of triangles, as the build reads their bounds. -/
def boxOf (bounds : List (TriBounds F)) (run : List Nat) : Box F :=
  run.foldl (fun box t => box.grow (boundsFrom bounds (u32 (6 * t)))
    (boundsFrom bounds (u32 (6 * t + 3)))) (Box.empty ops)

/-- The box around the centroids of a run of triangles. -/
def centroidBoxOf (bounds : List (TriBounds F)) (run : List Nat) : Box F :=
  run.foldl (fun box t => box.grow (centroidFrom ops bounds (u32 (3 * t)))
    (centroidFrom ops bounds (u32 (3 * t)))) (Box.empty ops)

/-! ## The cost of a split -/

structure Bin (F : Type) where
  box : Box F
  count : Nat

/-- The bins after a run of triangles. -/
def binsOf (bounds : List (TriBounds F)) (binOf : Nat → Nat) (run : List Nat) : Nat → Bin F :=
  run.foldl (fun bins t b => if b = binOf t then
      { box := (bins b).box.grow (boundsFrom bounds (u32 (6 * t)))
          (boundsFrom bounds (u32 (6 * t + 3)))
        count := u32 ((bins b).count + 1) }
    else bins b) fun _ => ⟨Box.empty ops, 0⟩

/-- What a sweep over bins has gathered: a box and a count. -/
def sweepBins (bins : Nat → Bin F) (run : List Nat) : Bin F :=
  run.foldl (fun acc b =>
    { box := if (bins b).count ≠ 0 then
          acc.box.grow (fun k => some ((bins b).box.lo k)) fun k => some ((bins b).box.hi k)
        else acc.box
      count := u32 (acc.count + (bins b).count) }) ⟨Box.empty ops, 0⟩

/-- `leftArea[b]` with `leftCount[b]`, or the right ones, from what was gathered. -/
def sideArea (acc : Bin F) : Option R :=
  if acc.count ≠ 0 then area ops acc.box else some (ops.literal 0)

variable [LinearOrder R]

/-- `best`, the bin after which the cost is least. -/
def bestBin (bins : Nat → Bin F) : Option Nat :=
  ((List.range (binCount - 1)).foldl (fun acc b =>
    let left := sweepBins ops bins (List.range (b + 1))
    let right := sweepBins ops bins ((List.range binCount).drop (b + 1)).reverse
    if left.count = 0 ∨ right.count = 0 then acc
    else
      let cost := ops.add (ops.mul (sideArea ops left) (ops.dblOfNat left.count))
        (ops.mul (sideArea ops right) (ops.dblOfNat right.count))
      if floatLt cost acc.2 = true then (some b, cost) else acc)
    (none, some ops.dblMax)).1

/-- The longest axis of the centroids. -/
def axisOf (centroids : Box F) : Fin 3 :=
  let side k := ops.fltSub (some (centroids.hi k)) (some (centroids.lo k))
  [1, 2].foldl (fun axis k => if floatLt (side axis) (side k) = true then k else axis) 0

variable (part : StdPartition)

/-- The run in its new order, and `mid - first`. -/
def splitRun (bounds : List (TriBounds F)) (count : Nat) (run : List Nat) : List Nat × Nat :=
  let centroids := centroidBoxOf ops bounds run
  let axis := axisOf ops centroids
  let extent := ops.fltSub (some (centroids.hi axis)) (some (centroids.lo axis))
  let scale := ops.fltDiv (ops.fltOfNat binCount) extent
  let binOf t := (min (max (ops.toInt (ops.fltMul
    (ops.fltSub (centroidAt ops bounds (u32 (3 * t + axis))) (some (centroids.lo axis))) scale))
    0) (binCount - 1 : Int)).toNat
  let halved := (run, count / 2)
  let cut :=
    if floatLt (some ops.fltZero) extent = true then
      match bestBin ops (binsOf ops bounds binOf run) with
      | some best =>
          (part.apply (fun t => binOf t ≤ best) run, run.countP fun t => binOf t ≤ best)
      | none => halved
    else halved
  if cut.2 = 0 ∨ cut.2 = count then (cut.1, count / 2) else cut

/-! ## Building -/

/-- What the loop of `_Build` holds. -/
structure BuildState (F : Type) where
  nodes : List (Node F)
  order : List Nat
  /-- The top is the head. -/
  stack : List Nat

/-- `_Node()`, before its fields are set. -/
def newNode (first count : Nat)
    : Node F := ⟨fun _ => ops.fltZero, fun _ => ops.fltZero, first, count⟩

/-- `_nodes[index]`. -/
def nodeAt (nodes : List (Node F)) (index : Nat) : Node F := nodes[index]?.getD (newNode ops 0 0)

/-- One turn of the loop of `_Build`. -/
def buildStep (bounds : List (TriBounds F)) (s : BuildState F) : Option (BuildState F) :=
  match s.stack with
  | [] => none
  | index :: stack =>
      let first := (nodeAt ops s.nodes index).first
      let count := (nodeAt ops s.nodes index).count
      let run := runItems s.order first count
      let box := boxOf ops bounds run
      let node : Node F := ⟨box.lo, box.hi, first, count⟩
      if count ≤ leafSize then some { s with nodes := s.nodes.set index node, stack := stack }
      else
        let cut := splitRun ops part bounds count run
        let mid := u32 (first + cut.2)
        let left := u32 s.nodes.length
        some {
          nodes := splice s.nodes index { node with first := left, count := 0 }
            (newNode ops first (mid - first)) (newNode ops mid (u32 (first + count) - mid))
          order := reorder s.order first count cut.1
          stack := left :: u32 (left + 1) :: stack }

/-- The sum of the nodes' areas relative to the root's. -/
def costOf (nodes : List (Node F)) (sum : Option R) : Option R :=
  ops.div sum (maxOf (area ops (nodeAt ops nodes 0).box) (some (ops.literal (1 / 10 ^ 30))))

def Mesh.build (mesh : Mesh F R M) : Option (Bvh F R) := do
  let n := mesh.triFace.length
  let order := (List.range n).map u32
  if n = 0 then
    return { mesh.bvh with
      nodes := []
      order := order
      built := true
      builtCost := some (ops.literal 0) }
  else
    let bounds ← mesh.computeTriangleBounds
    let s ← Lib.loop (buildStep ops part bounds) (2 * n) ⟨[newNode ops 0 (u32 n)], order, [0]⟩
    let sum := s.nodes.foldl (fun sum node => ops.add sum (area ops node.box))
      (some (ops.literal 0))
    return { mesh.bvh with
      nodes := s.nodes
      order := s.order
      built := true
      builtCost := costOf ops s.nodes sum
      buildCount := mesh.bvh.buildCount + 1 }

/-! ## Refitting -/

/-- The box of a leaf from its triangles, as the refit reads their bounds. -/
def refitLeaf (bounds : List (TriBounds F)) (order : List Nat) (node : Node F) : Node F :=
  if node.count = 0 then node
  else
    let box := (runItems order node.first node.count).foldl (fun box t =>
      box.grow (boundsFrom bounds (u32 (6 * t))) (boundsFrom bounds (u32 (6 * t) + 3)))
      (Box.empty ops)
    { node with lo := box.lo, hi := box.hi }

/-- The box of an interior node from its children's. -/
def refitNode (nodes : List (Node F)) (node : Node F) : Node F :=
  if node.count = 0 then
    let l := nodeAt ops nodes node.first
    let r := nodeAt ops nodes (node.first + 1)
    { node with
      lo := fun k => stdMin (l.lo k) (some (r.lo k))
      hi := fun k => stdMax (l.hi k) (some (r.hi k)) }
  else node

/-- The bottom-up loop of `_Refit` over the nodes below `i`, with the sum of the areas. -/
def refitBelow : Nat → List (Node F) → Option R → List (Node F) × Option R
  | 0, nodes, sum => (nodes, sum)
  | i + 1, nodes, sum =>
      let node := refitNode ops nodes (nodeAt ops nodes i)
      refitBelow i (nodes.set i node) (ops.add sum (area ops node.box))

/-- `_Refit`; `_kRebuildRatio` is 1.6. -/
def Mesh.refit (mesh : Mesh F R M) : Option (Bvh F R) := do
  let bounds ← mesh.computeTriangleBounds
  let leaves := mesh.bvh.nodes.map (refitLeaf ops bounds mesh.bvh.order)
  let (nodes, sum) := refitBelow ops leaves.length leaves (some (ops.literal 0))
  let refitted := { mesh.bvh with nodes := nodes, refitCount := mesh.bvh.refitCount + 1 }
  if floatLt (ops.mul (some (ops.literal (16 / 10))) mesh.bvh.builtCost)
      (costOf ops nodes sum) = true then
    Mesh.build ops part { mesh with bvh := refitted }
  else return refitted

def Mesh.prepare (mesh : Mesh F R M) : Option (Bvh F R) :=
  let bvh := mesh.bvh
  if bvh.version = mesh.pointsVersion then some bvh
  else if mesh.hasPoints = false then
    some { bvh with nodes := [], built := false, version := mesh.pointsVersion }
  else
    let current :=
      if bvh.built = false ∨ bvh.nodes = [] ∨ bvh.order.length ≠ mesh.triFace.length then
        mesh.build ops part
      else mesh.refit ops part
    current.map fun bvh => { bvh with version := mesh.pointsVersion }

end

end RigExec.Touch
