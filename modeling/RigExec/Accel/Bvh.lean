/-
# `RigExec.Accel.Bvh` — the segment tree and its nearest-segment query

`BuildBvh` splits the run of a node at its median until four items are left, in place: over a
shared order, with an explicit stack, while nodes are appended.

    float           `Option F`, `none` a NaN: `F` is a linear order from -∞ to +∞, the two
                    zeros one value
    double          `R`, with the operations of the prune formulas in `DoubleOps`
    uint32_t        `Nat`, reduced by `u32` where the code narrows or adds
    bounds          the six floats of an item, by their index in the flat array
    nth_element     any function that puts a run in another order

A new node's box is set when the node is taken off the stack.  The loops run with fuel.
-/
import RigExec.Lib.Loop
import RigExec.Lib.RunTree
import Mathlib.Order.BoundedOrder.Basic
import Mathlib.Data.Rat.Defs

namespace RigExec.Accel

open Lib (runItems reorder)

/-- The three axes. -/
scoped instance threeAxes : NeZero 3 := ⟨Nat.succ_ne_zero 2⟩

/-! ## Floats -/

/-- The float operations of a build, which can give a NaN. -/
structure FloatOps (F : Type) where
  add : F → F → Option F
  sub : F → F → Option F
  /-- `0.5f * x`. -/
  half : F → F

/-- `uint32_t(x)`. -/
def u32 (x : Nat) : Nat := x % 2 ^ 32

section

variable {F : Type} [LinearOrder F]

/-- `a < b`, false on a NaN. -/
def floatLt : Option F → Option F → Bool
  | some a, some b => a < b
  | _, _ => false

/-- `a <= b`, false on a NaN. -/
def floatLe : Option F → Option F → Bool
  | some a, some b => a ≤ b
  | _, _ => false

/-- `std::min`. -/
def minOf (a b : Option F) : Option F := if floatLt b a = true then b else a

/-- `std::max`. -/
def maxOf (a b : Option F) : Option F := if floatLt a b = true then b else a

/-- `std::min(a, b)` of an `a` that is not a NaN. -/
def stdMin (a : F) (b : Option F) : F :=
  match b with
  | some b => if b < a then b else a
  | none => a

/-- `std::max(a, b)` of an `a` that is not a NaN. -/
def stdMax (a : F) (b : Option F) : F :=
  match b with
  | some b => if a < b then b else a
  | none => a

end

/-! ## Nodes -/

/-- `kRigExecBvhLeafSize`. -/
def leafSize : Nat := 4

structure BvhNode (F : Type) where
  lo : Fin 3 → F
  hi : Fin 3 → F
  child : Nat
  count : Nat

/-- A node without its box. -/
def BvhNode.shape {F : Type} (node : BvhNode F) : Lib.RunNode := ⟨node.child, node.count⟩

/-- Reorders the run of items it is given, around a position. -/
structure NthElement where
  apply : (Nat → Nat → Bool) → Nat → List Nat → List Nat
  perm : ∀ less nth run, (apply less nth run).Perm run

section

variable {F : Type} [LinearOrder F] [BoundedOrder F]

/-- `(*nodes)[index]`. -/
def nodeAt (nodes : List (BvhNode F)) (index : Nat) : BvhNode F :=
  nodes[index]?.getD ⟨fun _ => ⊤, fun _ => ⊥, 0, 0⟩

variable (ops : FloatOps F) (nth : NthElement) (bounds : Nat → F)

/-- `bounds[6 * t + k]`. -/
def boundsLo (t : Nat) (k : Fin 3) : F := bounds (u32 (6 * t + k))

/-- `bounds[6 * t + 3 + k]`. -/
def boundsHi (t : Nat) (k : Fin 3) : F := bounds (u32 (6 * t + 3 + k))

def centroid (t : Nat) (k : Fin 3) : Option F :=
  (ops.add (boundsLo bounds t k) (boundsHi bounds t k)).map ops.half

/-- The bounds of a run, and of its centroids. -/
structure Extent (F : Type) where
  lo : Fin 3 → F
  hi : Fin 3 → F
  clo : Fin 3 → F
  chi : Fin 3 → F

def Extent.grow (extent : Extent F) (t : Nat) : Extent F where
  lo k := stdMin (extent.lo k) (some (boundsLo bounds t k))
  hi k := stdMax (extent.hi k) (some (boundsHi bounds t k))
  clo k := stdMin (extent.clo k) (centroid ops bounds t k)
  chi k := stdMax (extent.chi k) (centroid ops bounds t k)

def extentOf (run : List Nat) : Extent F :=
  run.foldl (Extent.grow ops bounds) ⟨fun _ => ⊤, fun _ => ⊥, fun _ => ⊤, fun _ => ⊥⟩

/-- The longest axis of the centroids. -/
def Extent.axis (extent : Extent F) : Fin 3 :=
  [1, 2].foldl (fun axis k =>
    if floatLt (ops.sub (extent.chi axis) (extent.clo axis))
        (ops.sub (extent.chi k) (extent.clo k)) = true then k
    else axis) 0

/-! ## Building -/

structure BuildState (F : Type) where
  nodes : List (BvhNode F)
  order : List Nat
  /-- The top is the head. -/
  stack : List Nat

/-- The node taken off the stack, with its box. -/
def boxed (s : BuildState F) (index : Nat) : BvhNode F :=
  let node := nodeAt s.nodes index
  let extent := extentOf ops bounds (runItems s.order node.child node.count)
  { node with lo := extent.lo, hi := extent.hi }

/-- One turn of the loop of `BuildBvh`. -/
def buildStep (s : BuildState F) : Option (BuildState F) :=
  match s.stack with
  | [] => none
  | index :: stack =>
      let node := boxed ops bounds s index
      let first := node.child
      let count := node.count
      let nodes := s.nodes.set index node
      if count ≤ leafSize then some { s with nodes := nodes, stack := stack }
      else
        let run := runItems s.order first count
        let axis := (extentOf ops bounds run).axis ops
        let mid := u32 (first + count / 2)
        let less x y := floatLt (centroid ops bounds x axis) (centroid ops bounds y axis)
        let left := u32 nodes.length
        let leftNode : BvhNode F := ⟨fun _ => ⊤, fun _ => ⊥, first, mid - first⟩
        let rightNode : BvhNode F := ⟨fun _ => ⊤, fun _ => ⊥, mid, u32 (first + count) - mid⟩
        some {
          nodes := Lib.splice nodes index { node with child := left, count := 0 } leftNode rightNode
          order := reorder s.order first count (nth.apply less (mid - first) run)
          stack := u32 (left + 1) :: left :: stack }

/-- `BuildBvh`, to the tables it leaves. -/
def buildBvh (n : Nat) : Option (BuildState F) :=
  let order := (List.range n).map u32
  if n = 0 then some ⟨[], order, []⟩
  else Lib.loop (buildStep ops nth bounds) (2 * n)
    ⟨[⟨fun _ => ⊤, fun _ => ⊥, 0, u32 n⟩], order, [0]⟩

/-! ## Segments -/

structure SegmentBvh (F : Type) where
  nodes : List (BvhNode F)
  order : List Nat

/-- A point: three floats. -/
abbrev Point (F : Type) : Type := Fin 3 → Option F

/-- `std::isfinite`. -/
def isFinite : Option F → Bool
  | some x => x ≠ ⊤ && x ≠ ⊥
  | none => false

/-- The bounds of the segments between finite points. -/
def segmentBounds (points : List (Fin 3 → F)) (i : Nat) : F :=
  let v s k := (points[s]?.map fun p => p k).getD ⊥
  let s := i / 6
  if i % 6 < 3 then stdMin (v s (Fin.ofNat 3 i)) (some (v (s + 1) (Fin.ofNat 3 i)))
  else stdMax (v s (Fin.ofNat 3 i)) (some (v (s + 1) (Fin.ofNat 3 i)))

/-- `RigExecSegmentBvh::Build`: whether it accepts the points, and the tables. -/
def SegmentBvh.build (points : List (Point F)) : Option (Bool × SegmentBvh F) :=
  if points.length < 2 then some (false, ⟨[], []⟩)
  else if points.all fun p => isFinite (p 0) && isFinite (p 1) && isFinite (p 2) then
    let values := points.map fun p k => (p k).getD ⊥
    (buildBvh ops nth (segmentBounds values) (points.length - 1)).map fun s =>
      (true, ⟨s.nodes, s.order⟩)
  else some (false, ⟨[], []⟩)

end

/-! ## The query -/

/-- Double arithmetic. -/
structure DoubleOps (F R : Type) where
  ofFloat : Option F → R
  literal : ℚ → R
  add : R → R → R
  sub : R → R → R
  mul : R → R → R
  fabs : R → R
  lt : R → R → Bool

section

variable {F R : Type} (D : DoubleOps F R)

/-- `std::max` of doubles. -/
def DoubleOps.max (a b : R) : R := if D.lt a b = true then b else a

/-- `kRigExecBvhUnitRoundoff`. -/
def unitRoundoff : R := D.literal (1 / 2 ^ 24)

def boxLowerSq (node : BvhNode F) (p : Point F) : R :=
  (List.finRange 3).foldl (fun lower k =>
    let v := D.ofFloat (p k)
    let lo := D.ofFloat (some (node.lo k))
    let hi := D.ofFloat (some (node.hi k))
    if D.lt v lo = true then D.add lower (D.mul (D.sub lo v) (D.sub lo v))
    else if D.lt hi v = true then D.add lower (D.mul (D.sub v hi) (D.sub v hi))
    else lower) (D.literal 0)

def bvhCoordMag (node : BvhNode F) (queryMag : R) : R :=
  (List.finRange 3).foldl (fun m k =>
    D.max (D.max m (D.fabs (D.ofFloat (some (node.lo k)))))
      (D.fabs (D.ofFloat (some (node.hi k))))) queryMag

/-- `BvhDistStar`; `kRigExecBvhKernelFlops` is 256. -/
def bvhDistStar (bestDist coordMag : R) : R :=
  let u := unitRoundoff D
  D.add (D.mul bestDist (D.add (D.literal 1) (D.mul (D.literal 16) u)))
    (D.mul (D.mul (D.mul (D.literal 4) (D.literal 256)) u) coordMag)

def bvhPrunePad (coordMag distStar lower : R) : R :=
  let u := unitRoundoff D
  let e1 := D.add (D.mul (D.mul (D.literal 256) u) coordMag)
    (D.mul (D.mul (D.literal 2) u) distStar)
  D.add (D.add (D.add (D.add (D.mul (D.mul (D.literal 2) distStar) e1) (D.mul e1 e1))
    (D.mul (D.mul (D.mul (D.literal 6) u) distStar) distStar))
    (D.mul (D.literal (1 / 10 ^ 15)) lower)) (D.literal (1 / 10 ^ 37))

def queryMag (p : Point F) : R :=
  D.max (D.max (D.fabs (D.ofFloat (p 0))) (D.fabs (D.ofFloat (p 1)))) (D.fabs (D.ofFloat (p 2)))

/-- Whether a node is discarded once a segment at `best` was found. -/
def discards (p : Point F) (node : BvhNode F) (best : F) : Bool :=
  let coordMag := bvhCoordMag D node (queryMag D p)
  let dist := D.ofFloat (some best)
  let lower := boxLowerSq D node p
  D.lt (D.mul dist dist) (D.sub lower (bvhPrunePad D coordMag (bvhDistStar D dist coordMag) lower))

/-- What the walk of `QueryNearest` holds. -/
structure QueryState (F : Type) where
  /-- The top is the head. -/
  stack : List Nat
  best : F
  bestOrd : Nat
  haveBest : Bool

variable [LinearOrder F] [BoundedOrder F] (bvh : SegmentBvh F) (p : Point F)
  (distance : Nat → Option F)

/-- One segment of a leaf. -/
def QueryState.tryOne (s : QueryState F) (ord : Nat) : QueryState F :=
  match distance ord with
  | some d =>
      if d < s.best ∨ (s.haveBest = true ∧ d = s.best ∧ ord < s.bestOrd) then
        { s with best := d, bestOrd := ord, haveBest := true }
      else s
  | none => s

/-- One turn of the loop of `QueryNearest`. -/
def queryStep (s : QueryState F) : Option (QueryState F) :=
  match s.stack with
  | [] => none
  | index :: stack =>
      let node := nodeAt bvh.nodes index
      if s.haveBest && discards D p node s.best then some { s with stack := stack }
      else if 0 < node.count then
        some ((runItems bvh.order node.child node.count).foldl (QueryState.tryOne distance)
          { s with stack := stack })
      else if D.lt (boxLowerSq D (nodeAt bvh.nodes node.child) p)
          (boxLowerSq D (nodeAt bvh.nodes (node.child + 1)) p) = true then
        some { s with stack := (node.child + 1) :: node.child :: stack }
      else some { s with stack := node.child :: (node.child + 1) :: stack }

/-- The walk before its first turn. -/
def queryStart : QueryState F := ⟨[0], ⊤, 0, false⟩

/-- `QueryNearest`, where `distance s` is `segDist(p, points[s], points[s + 1])`. -/
def queryNearest : Option F :=
  if bvh.nodes = [] then some ⊤
  else (Lib.loop (queryStep D bvh p distance) (2 * bvh.order.length) queryStart).map fun s =>
    if s.haveBest = true then s.best else ⊤

/-- The loop of `RigExecCurveDistance` over the segments. -/
def curveDistance (segments : Nat) : F :=
  (List.range segments).foldl (fun best s => stdMin best (distance s)) ⊤

end

end RigExec.Accel
