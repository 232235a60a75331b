/-
# `RigExec.Mesh.Faces` — polygon edges, and the adjacency of a mesh

The faces are read at offsets that the counts before them add up to.
`polygonEdges` lists their edges in the order of the walk, by plain list
functions; a builder that succeeds has met no corner outside the indices and no
index outside the points, so it has pushed just these
(`meshAdjacency_spec`, `buildMeshAdjacency_exact`).
-/
import RigExec.Mesh.Connectivity

namespace RigExec.Mesh

open Lib (Stop Safe fetch store sortOn sortUnique Ascending)

/-! ## The faces of a mesh -/

/-- A corner of the face at `offset`. -/
def corner (indices : List Int) (offset : Nat) (c : Int) : Int :=
  indices.getD (sizeAdd offset c) 0

/-- The edges of a face, from each corner to the next one round. -/
def faceEdges (indices : List Int) (offset : Nat) (count : Int) : List (Int × Int) :=
  (List.range count.toNat).map fun (c : Nat) =>
    (corner indices offset c, corner indices offset ((c + 1) % count))

/-- The offset after some faces. -/
def offsetAfter (counts : List Int) : Nat := counts.foldl sizeAdd 0

/-- The faces by their offsets and counts. -/
def facesFrom : Nat → List Int → List (Nat × Int)
  | _, [] => []
  | offset, count :: rest => (offset, count) :: facesFrom (sizeAdd offset count) rest

/-- The polygon edges of a mesh, each as often as a face uses it. -/
def polygonEdges (counts indices : List Int) : List (Int × Int) :=
  (facesFrom 0 counts).flatMap fun face => faceEdges indices face.1 face.2

/-- Two points an edge of the list joins, whichever way it runs. -/
def Joined (edges : List (Int × Int)) (v w : Int) : Prop := (v, w) ∈ edges ∨ (w, v) ∈ edges

theorem facesFrom_append (offset : Nat) (counts counts' : List Int) :
    facesFrom offset (counts ++ counts') =
      facesFrom offset counts ++ facesFrom (counts.foldl sizeAdd offset) counts' := by
  induction counts generalizing offset with
  | nil => rfl
  | cons count rest ih => simp only [List.cons_append, facesFrom, ih, List.foldl_cons]

theorem offsetAfter_append (counts : List Int) (count : Int) :
    offsetAfter (counts ++ [count]) = sizeAdd (offsetAfter counts) count := by
  simp [offsetAfter]

theorem polygonEdges_append (counts indices : List Int) (count : Int) :
    polygonEdges (counts ++ [count]) indices =
      polygonEdges counts indices ++ faceEdges indices (offsetAfter counts) count := by
  simp [polygonEdges, facesFrom_append, facesFrom, offsetAfter]

theorem sizeAdd_le (offset : Nat) {n : Int} (hn : 0 ≤ n) : sizeAdd offset n ≤ offset + n.toNat := by
  rw [sizeAdd]
  omega

theorem fetch_corner {indices : List Int} {offset : Nat} {c : Int}
    (h : sizeAdd offset c < indices.length) :
    Safe (fetch indices (sizeAdd offset c)) fun x => x = corner indices offset c := by
  refine (Safe.fetch (by omega) (by simpa using h)).mono ?_
  intro x hx
  rw [corner, List.getD_eq_getElem?_getD]
  rw [Int.toNat_natCast] at hx
  rw [hx, Option.getD_some]

/-! ## Rings -/

/-- `w` is in the ring of `v`. -/
def Has (rings : List (List Int)) (v w : Int) : Prop :=
  0 ≤ v ∧ ∃ ring, rings[v.toNat]? = some ring ∧ w ∈ ring

theorem pushBack_safe {pointCount : Nat} {rings : List (List Int)} {a b : Int}
    (hrings : rings.length = pointCount) (ha : ¬addressesNoPoint pointCount a) :
    Safe (pushBack rings a b) fun rings' => rings'.length = pointCount ∧
      ∀ v w, Has rings' v w ↔ Has rings v w ∨ (v = a ∧ w = b) := by
  simp only [addressesNoPoint, not_or, not_lt, not_le] at ha
  obtain ⟨hnonneg, hlt⟩ := ha
  rw [← hrings] at hlt
  refine (Safe.fetch hnonneg hlt).bind ?_
  intro ring hring
  refine (Safe.store hnonneg hlt).mono ?_
  rintro rings' rfl
  refine ⟨by rw [List.length_set, hrings], ?_⟩
  intro v w
  by_cases hv : v = a
  · subst hv
    simp only [Has, List.getElem?_set_self hlt, hring, Option.some.injEq, exists_eq_left',
      List.mem_append, List.mem_singleton, hnonneg, true_and]
  · have hrow : 0 ≤ v → (rings.set a.toNat (ring ++ [b]))[v.toNat]? = rings[v.toNat]? := by
      intro hnonneg'
      exact List.getElem?_set_ne (by omega)
    constructor
    · rintro ⟨hnonneg', hhas⟩
      rw [hrow hnonneg'] at hhas
      exact .inl ⟨hnonneg', hhas⟩
    · rintro (⟨hnonneg', hhas⟩ | ⟨he, -⟩)
      · refine ⟨hnonneg', ?_⟩
        rw [hrow hnonneg']
        exact hhas
      · exact absurd he hv

/-- The rings hold what the edges join, and the edges address points. -/
structure Records (pointCount : Nat) (rings : List (List Int)) (edges : List (Int × Int)) :
    Prop where
  length : rings.length = pointCount
  has : ∀ v w, Has rings v w ↔ Joined edges v w
  points : ∀ edge ∈ edges, ¬addressesNoPoint pointCount edge.1 ∧ ¬addressesNoPoint pointCount edge.2

theorem records_first (pointCount : Nat) :
    Records pointCount (List.replicate pointCount []) [] where
  length := List.length_replicate
  has := by
    intro v w
    simp only [Has, Joined, List.not_mem_nil, or_self, iff_false, not_and, not_exists]
    rintro - ring hring hin
    rw [List.getElem?_replicate] at hring
    split_ifs at hring
    cases hring
    cases hin
  points := by simp

theorem Records.push {pointCount : Nat} {rings : List (List Int)} {edges : List (Int × Int)}
    {a b : Int} (h : Records pointCount rings edges) (ha : ¬addressesNoPoint pointCount a)
    (hb : ¬addressesNoPoint pointCount b) :
    Safe (do
      let rings ← pushBack rings a b
      pushBack rings b a) fun rings' => Records pointCount rings' (edges ++ [(a, b)]) := by
  refine (pushBack_safe h.length ha).bind ?_
  rintro rings' ⟨hlength', hhas'⟩
  refine (pushBack_safe hlength' hb).mono ?_
  rintro rings'' ⟨hlength'', hhas''⟩
  refine ⟨hlength'', ?_, ?_⟩
  · intro v w
    rw [hhas'', hhas', h.has]
    simp only [Joined, List.mem_append, List.mem_singleton, Prod.mk.injEq]
    tauto
  · intro edge hedge
    rcases List.mem_append.mp hedge with hedge | hedge
    · exact h.points edge hedge
    · obtain rfl := List.mem_singleton.mp hedge
      exact ⟨ha, hb⟩

/-! ## The adjacency -/

theorem adjacencyCorner_safe {pointCount : Nat} {indices : List Int} {offset : Nat}
    {faceCount : Int} {rings : List (List Int)} {edges : List (Int × Int)} {c : Nat}
    (h : Records pointCount rings edges) :
    Safe (adjacencyCorner pointCount indices offset faceCount rings c) fun rings' =>
      Records pointCount rings'
        (edges ++ [(corner indices offset c, corner indices offset ((c + 1) % faceCount))]) := by
  refine Safe.unless ?_
  intro hinside
  simp only [not_or, not_le] at hinside
  refine (fetch_corner hinside.1).bind ?_
  rintro a rfl
  refine (fetch_corner hinside.2).bind ?_
  rintro b rfl
  refine Safe.unless ?_
  intro hpoints
  obtain ⟨ha, hb⟩ := not_or.mp hpoints
  by_cases hsame : corner indices offset ((c + 1) % faceCount) = corner indices offset c
  · -- a repeated corner is pushed once
    refine (pushBack_safe h.length ha).bind ?_
    rintro rings' ⟨hlength, hhas⟩
    rw [if_neg (not_not.mpr hsame)]
    refine Safe.pure ⟨hlength, ?_, ?_⟩
    · intro v w
      rw [hhas, h.has]
      simp only [Joined, List.mem_append, List.mem_singleton, Prod.mk.injEq, hsame]
      tauto
    · intro edge hedge
      rcases List.mem_append.mp hedge with hedge | hedge
      · exact h.points edge hedge
      · obtain rfl := List.mem_singleton.mp hedge
        exact ⟨ha, hb⟩
  · simp only [ne_eq, hsame, not_false_eq_true, if_true]
    exact h.push ha hb

theorem adjacencyFace_safe {pointCount : Nat} {indices passed : List Int}
    {state : Nat × List (List Int)} (faceCount : Int) (hoffset : state.1 = offsetAfter passed)
    (h : Records pointCount state.2 (polygonEdges passed indices)) :
    Safe (adjacencyFace pointCount indices state faceCount) fun state' =>
      state'.1 = offsetAfter (passed ++ [faceCount]) ∧
        Records pointCount state'.2 (polygonEdges (passed ++ [faceCount]) indices) := by
  have hcorners : Safe ((List.range faceCount.toNat).foldlM
      (adjacencyCorner pointCount indices state.1 faceCount) state.2) fun rings =>
        Records pointCount rings
          (polygonEdges passed indices ++ faceEdges indices state.1 faceCount) := by
    refine Safe.foldlM (fun corners rings => Records pointCount rings
      (polygonEdges passed indices ++ corners.map fun (c : Nat) =>
        (corner indices state.1 c, corner indices state.1 ((c + 1) % faceCount)))) ?_ ?_
    · simpa using h
    · intro corners c _ _ rings hrings
      rw [List.map_append, List.map_singleton, ← List.append_assoc]
      exact adjacencyCorner_safe hrings
  refine hcorners.bind ?_
  intro rings hrings
  rw [hoffset] at hrings
  refine Safe.pure ⟨?_, ?_⟩
  · rw [offsetAfter_append, hoffset]
  · rw [polygonEdges_append]
    exact hrings

/-- What an adjacency says about the edges it was built from. -/
structure AdjacencyOf (pointCount : Nat) (edges : List (Int × Int)) (mesh : MeshAdjacency) :
    Prop where
  count : mesh.pointCount = pointCount
  valid : mesh.valid = true
  length : mesh.neighbors.length = pointCount
  ascending : ∀ ring ∈ mesh.neighbors, Ascending ring
  joined : ∀ v w, Has mesh.neighbors v w ↔ Joined edges v w
  points : ∀ edge ∈ edges, ¬addressesNoPoint pointCount edge.1 ∧ ¬addressesNoPoint pointCount edge.2

theorem has_map {rings : List (List Int)} {sorted : List Int → List Int}
    (hsorted : ∀ ring w, w ∈ sorted ring ↔ w ∈ ring) (v w : Int) :
    Has (rings.map sorted) v w ↔ Has rings v w := by
  simp only [Has, List.getElem?_map, Option.map_eq_some_iff, exists_exists_and_eq_and, hsorted]

theorem meshAdjacency_spec (pointCount : Nat) (faceVertexCounts faceVertexIndices : Lib.Range Int) :
    Safe (meshAdjacency pointCount faceVertexCounts faceVertexIndices) fun mesh =>
      AdjacencyOf pointCount (polygonEdges faceVertexCounts.values faceVertexIndices.values)
        mesh := by
  refine Safe.unless ?_
  intro _
  have hfaces : Safe (faceVertexCounts.values.foldlM
      (adjacencyFace pointCount faceVertexIndices.values) (0, List.replicate pointCount []))
      fun state => Records pointCount state.2
        (polygonEdges faceVertexCounts.values faceVertexIndices.values) := by
    refine (Safe.foldlM (fun passed state => state.1 = offsetAfter passed ∧
      Records pointCount state.2 (polygonEdges passed faceVertexIndices.values)) ?_ ?_).mono ?_
    · exact ⟨rfl, records_first pointCount⟩
    · rintro passed faceCount _ _ state ⟨hoffset, hrings⟩
      exact adjacencyFace_safe faceCount hoffset hrings
    · exact fun state h => h.2
  refine hfaces.bind ?_
  intro state h
  refine Safe.pure ⟨rfl, rfl, by rw [List.length_map, h.length], ?_, ?_, h.points⟩
  · intro ring hring
    obtain ⟨row, -, rfl⟩ := List.mem_map.mp hring
    exact Lib.ascending_sortUnique row
  · intro v w
    rw [has_map (fun ring w => Lib.mem_sortUnique), h.has]

/-- How a safe builder delivers: it gets there, and what it refuses leaves the output alone. -/
theorem deliver_safe {α : Type} {built : Except Stop α} {post : α → Prop} (h : Safe built post)
    (out : Option α) :
    (deliver built out = some (false, out)) ∨
      ∃ entry, deliver built out = some (true, some entry) ∧ built = .ok entry ∧ post entry := by
  cases out with
  | none => exact .inl rfl
  | some was =>
      cases hbuilt : built with
      | ok entry => exact .inr ⟨entry, rfl, rfl, h.value hbuilt⟩
      | error stop =>
          obtain rfl := h.stop hbuilt
          exact .inl rfl

end RigExec.Mesh
