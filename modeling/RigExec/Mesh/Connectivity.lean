/-
# `RigExec.Mesh.Connectivity` — the topology builders of the deformation kernels

`RigExecBuildMeshAdjacency` and `RigExecBuildWrinkleMesh`, over point counts, face
counts and corner indices that nobody has checked.

    Range            borrowed values, or a null pointer with a size
    sizeAdd          the addition of a `size_t` and an `int`
    fetch, store     every access through an index of the input or of a point
    sortOn, runs     a sorted vector, and the runs a loop cuts it into

The loops over sorted vectors compare their own positions with the size and are
list functions here.  A point is an `int`, so a start past the last `int` is
converted (`toInt`) before it is used as one.
-/
import Mathlib.Algebra.Group.Nat.Defs
import Mathlib.Algebra.Ring.Int.Defs
import Mathlib.Data.Prod.Lex
import RigExec.Lib.Checked
import RigExec.Lib.SortedRuns

namespace RigExec.Mesh

open Lib (Range Stop fetch store sortOn runs sortUnique)

/-! ## Machine arithmetic -/

/-- `offset + n` on a `size_t`. -/
def sizeAdd (offset : Nat) (n : Int) : Nat := ((offset + n) % 2 ^ 64).toNat

/-- `int(start)` of a `size_t`. -/
def toInt (start : Nat) : Int := Int.bmod start (2 ^ 32)

variable (pointCount : Nat)

/-- A corner that addresses no point. -/
def addressesNoPoint (a : Int) : Prop := a < 0 ∨ pointCount ≤ a.toNat

instance (pointCount : Nat) (a : Int) : Decidable (addressesNoPoint pointCount a) :=
  inferInstanceAs (Decidable (_ ∨ _))

/-- `std::pair<int, int>`, ordered by its first component and then by its second. -/
abbrev IntPair := Int ×ₗ Int

/-- `std::minmax`. -/
def minmax (a b : Int) : IntPair := if b < a then toLex (b, a) else toLex (a, b)

/-- `rings[a].push_back(b)`. -/
def pushBack (rings : List (List Int)) (a b : Int) : Except Stop (List (List Int)) := do
  let ring ← fetch rings a
  store rings a (ring ++ [b])

/-! ## Adjacency -/

structure MeshAdjacency where
  pointCount : Nat := 0
  neighbors : List (List Int) := []
  valid : Bool := false

def adjacencyCorner (indices : List Int) (offset : Nat) (faceCount : Int)
    (rings : List (List Int)) (c : Nat) : Except Stop (List (List Int)) :=
  let ia := sizeAdd offset c
  let ib := sizeAdd offset ((c + 1) % faceCount)
  if indices.length ≤ ia ∨ indices.length ≤ ib then .error .refused
  else do
    let a ← fetch indices ia
    let b ← fetch indices ib
    if addressesNoPoint pointCount a ∨ addressesNoPoint pointCount b then .error .refused
    else do
      let rings ← pushBack rings a b
      if b ≠ a then pushBack rings b a else pure rings

/-- One face; the state is the offset and the rings. -/
def adjacencyFace (indices : List Int) (state : Nat × List (List Int))
    (faceCount : Int) : Except Stop (Nat × List (List Int)) := do
  let rings ← (List.range faceCount.toNat).foldlM
    (adjacencyCorner pointCount indices state.1 faceCount) state.2
  pure (sizeAdd state.1 faceCount, rings)

/-- What `RigExecBuildMeshAdjacency` builds. -/
def meshAdjacency (faceVertexCounts faceVertexIndices : Range Int) : Except Stop MeshAdjacency :=
  if faceVertexCounts.isMissing ∨ faceVertexIndices.isMissing then .error .refused
  else do
    let state ← faceVertexCounts.values.foldlM
      (adjacencyFace pointCount faceVertexIndices.values) (0, List.replicate pointCount [])
    pure { pointCount, neighbors := state.2.map sortUnique, valid := true }

/-- The result of a builder and what the output holds; `none` if it does not get there. -/
def deliver {α : Type} (built : Except Stop α) (out : Option α) : Option (Bool × Option α) :=
  match out, built with
  | none, _ => some (false, none)
  | some _, .ok entry => some (true, some entry)
  | some was, .error .refused => some (false, some was)
  | some _, .error _ => none

def buildMeshAdjacency (faceVertexCounts faceVertexIndices : Range Int)
    (out : Option MeshAdjacency) : Option (Bool × Option MeshAdjacency) :=
  deliver (meshAdjacency pointCount faceVertexCounts faceVertexIndices) out

/-! ## The wrinkle mesh -/

inductive WrinkleTopology where
  | cloth
  | surfaceStruts
deriving DecidableEq

structure WrinkleEdge where
  a : Int
  b : Int
  opposite : List Int
deriving DecidableEq

abbrev Triangle := Int × Int × Int

structure WrinkleMesh where
  pointCount : Nat := 0
  counts : List Int := []
  indices : List Int := []
  mode : WrinkleTopology := .cloth
  neighborDistance : Int := 0
  triangles : List Triangle := []
  edges : List WrinkleEdge := []
  neighbors : List (List Int) := []
  borderVertices : List Int := []
  bendingPairs : List IntPair := []
  valid : Bool := false

/-! ### Faces -/

/-- One corner of a face; the state is the corners and the polygon edges. -/
def wrinkleCorner (indices : List Int) (offset : Nat) (count : Int)
    (state : List Int × List IntPair) (corner : Nat) : Except Stop (List Int × List IntPair) := do
  let a ← fetch indices (sizeAdd offset corner)
  let b ← fetch indices (sizeAdd offset ((corner + 1) % count))
  if addressesNoPoint pointCount a ∨ addressesNoPoint pointCount b then .error .refused
  else pure (state.1 ++ [a], state.2 ++ [minmax a b])

/-- Whether two neighbours of a sorted list are equal. -/
def hasRepeated (sorted : List Int) : Bool := (sorted.zip sorted.tail).any fun p => p.1 = p.2

def fanTriangle (indices : List Int) (offset : Nat) (x y z : Nat) : Except Stop Triangle := do
  let a ← fetch indices (sizeAdd offset x)
  let b ← fetch indices (sizeAdd offset y)
  let c ← fetch indices (sizeAdd offset z)
  pure (a, b, c)

/-- The triangles of a face: a fan, or every other quad along its other diagonal. -/
def wrinkleFan (indices : List Int) (offset : Nat) (count : Int) (faceIndex : Nat)
    (triangles : List Triangle) : Except Stop (List Triangle) :=
  if count = 4 ∧ faceIndex % 2 ≠ 0 then do
    let first ← fanTriangle indices offset 0 1 3
    let second ← fanTriangle indices offset 1 2 3
    pure (triangles ++ [first, second])
  else
    (List.range (count.toNat - 2)).foldlM (fun triangles k => do
      let triangle ← fanTriangle indices offset 0 (k + 1) (k + 2)
      pure (triangles ++ [triangle])) triangles

/-- What the faces leave. -/
structure WrinkleFaces where
  offset : Nat := 0
  faceIndex : Nat := 0
  polygonEdges : List IntPair := []
  triangles : List Triangle := []

def wrinkleFace (indices : List Int) (state : WrinkleFaces) (count : Int) :
    Except Stop WrinkleFaces :=
  if count < 3 ∨ indices.length - state.offset < count.toNat then .error .refused
  else do
    let walked ← (List.range count.toNat).foldlM
      (wrinkleCorner pointCount indices state.offset count) ([], state.polygonEdges)
    if hasRepeated (sortOn id walked.1) then .error .refused
    else do
      let triangles ← wrinkleFan indices state.offset count state.faceIndex state.triangles
      pure
        { offset := sizeAdd state.offset count
          faceIndex := state.faceIndex + 1
          polygonEdges := walked.2
          triangles }

/-! ### Edges -/

def borderOf (polygonEdges : List IntPair) : List Int :=
  sortUnique ((runs id (sortOn id polygonEdges)).flatMap fun run =>
    if run.2.length = 1 then [(ofLex run.1).1, (ofLex run.1).2] else [])

/-- The edges of the triangles, each with the corner opposite to it. -/
def keyedEdges (triangles : List Triangle) : List (IntPair × Int) :=
  triangles.flatMap fun (x, y, z) => [(minmax x y, z), (minmax y z, x), (minmax z x, y)]

/-- The runs of the sorted edges. -/
def edgesOf (triangles : List Triangle) : List WrinkleEdge :=
  (runs Prod.fst (sortOn Prod.fst (keyedEdges triangles))).map fun run =>
    { a := (ofLex run.1).1, b := (ofLex run.1).2, opposite := run.2.map Prod.snd }

def ringsOf (edges : List WrinkleEdge) : Except Stop (List (List Int)) := do
  let rings ← edges.foldlM (fun rings edge => do
    let rings ← pushBack rings edge.a edge.b
    pushBack rings edge.b edge.a) (List.replicate pointCount [])
  pure (rings.map (sortOn id))

/-! ### Bending pairs -/

/-- `haveEdge`: a binary search in the sorted edges. -/
def haveEdge (edges : List WrinkleEdge) (pair : IntPair) : Bool :=
  edges.any fun edge => toLex (edge.a, edge.b) = pair

/-- The pairs across the edges two triangles share. -/
def clothPairs (edges : List WrinkleEdge) : List IntPair :=
  edges.filterMap fun edge =>
    match edge.opposite with
    | [x, y] => if x ≠ y ∧ haveEdge edges (minmax x y) = false then some (minmax x y) else none
    | _ => none

/-- The state of the search for the pairs at one distance. -/
structure HopSearch where
  distance : List Int
  visited : List Int := []
  bendingPairs : List IntPair := []

/-- A neighbour `b` of `a`. -/
def visitNeighbor (neighborDistance : Int) (start : Nat) (a : Int) (state : HopSearch) (b : Int) :
    Except Stop HopSearch := do
  let known ← fetch state.distance b
  if 0 ≤ known then pure state
  else do
    let reached ← fetch state.distance a
    let distance ← store state.distance b (reached + 1)
    let bendingPairs :=
      if reached + 1 = neighborDistance ∧ start < b.toNat then
        state.bendingPairs ++ [toLex (toInt start, b)]
      else state.bendingPairs
    pure { distance, visited := state.visited ++ [b], bendingPairs }

/-- The loop over what is visited, for so many turns. -/
def expandFrom (rings : List (List Int)) (neighborDistance : Int) (start : Nat) :
    Nat → Nat → HopSearch → Except Stop HopSearch
  | 0, _, _ => .error .endless
  | turns + 1, cursor, state =>
      if cursor < state.visited.length then do
        let a ← fetch state.visited cursor
        let reached ← fetch state.distance a
        if reached = neighborDistance then
          expandFrom rings neighborDistance start turns (cursor + 1) state
        else do
          let ring ← fetch rings a
          let state ← ring.foldlM (visitNeighbor neighborDistance start a) state
          expandFrom rings neighborDistance start turns (cursor + 1) state
      else pure state

/-- The search from one start; what it visited is unmarked again. -/
def hopsFrom (rings : List (List Int)) (neighborDistance : Int) (state : HopSearch) (start : Nat) :
    Except Stop HopSearch := do
  let distance ← store state.distance start 0
  let found ← expandFrom rings neighborDistance start (rings.length + 1) 0
    { state with distance, visited := [toInt start] }
  let distance ← found.visited.foldlM (fun distance index => store distance index (-1))
    found.distance
  pure { found with distance }

/-- The pairs of the surface struts. -/
def strutPairs (rings : List (List Int)) (neighborDistance : Int) : Except Stop (List IntPair) := do
  let state ← (List.range pointCount).foldlM (hopsFrom rings neighborDistance)
    { distance := List.replicate pointCount (-1) }
  pure state.bendingPairs

/-- The bending pairs of a topology. -/
def bendingPairsOf (edges : List WrinkleEdge) (rings : List (List Int))
    (mode : WrinkleTopology) (neighborDistance : Int) : Except Stop (List IntPair) :=
  if mode = .cloth then pure (clothPairs edges)
  else if 1 < neighborDistance then strutPairs pointCount rings neighborDistance
  else pure []

/-- What `RigExecBuildWrinkleMesh` builds. -/
def wrinkleMesh (counts indices : List Int) (mode : WrinkleTopology)
    (neighborDistance : Int) : Except Stop WrinkleMesh := do
  let faces ← counts.foldlM (wrinkleFace pointCount indices) {}
  if faces.offset ≠ indices.length then .error .refused
  else do
    let edges := edgesOf faces.triangles
    let neighbors ← ringsOf pointCount edges
    let bendingPairs ← bendingPairsOf pointCount edges neighbors mode neighborDistance
    pure
      { pointCount, counts, indices, mode, neighborDistance, triangles := faces.triangles, edges,
        neighbors, borderVertices := borderOf faces.polygonEdges,
        bendingPairs := sortUnique bendingPairs, valid := true }

def buildWrinkleMesh (counts indices : List Int) (mode : WrinkleTopology)
    (neighborDistance : Int) (out : Option WrinkleMesh) : Option (Bool × Option WrinkleMesh) :=
  deliver (wrinkleMesh pointCount counts indices mode neighborDistance) out

end RigExec.Mesh
