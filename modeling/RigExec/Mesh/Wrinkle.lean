/-
# `RigExec.Mesh.Wrinkle` — the triangles, edges and border of a wrinkle mesh

A face passes when it has three corners or more, fits into the indices and names
no corner twice; it then adds its polygon edges and its triangles.  The tables
that follow are built from these two lists by sorting: `edgesOf_spec` and
`mem_borderOf` say what the runs of the sorted vectors are, and `ringsOf_safe`
that the rings are the neighbours in the graph of the triangles.
-/
import Mathlib.Combinatorics.SimpleGraph.Basic
import RigExec.Mesh.Faces

namespace RigExec.Mesh

open Lib (Stop Safe fetch store sortOn runs sortUnique Ascending)

/-! ## Triangles -/

def faceTriangles (indices : List Int) (offset : Nat) (count : Int) (faceIndex : Nat) :
    List Triangle :=
  let at' := corner indices offset
  if count = 4 ∧ faceIndex % 2 ≠ 0 then [(at' 0, at' 1, at' 3), (at' 1, at' 2, at' 3)]
  else (List.range (count.toNat - 2)).map fun k => (at' 0, at' (k + 1 : Nat), at' (k + 2 : Nat))

/-- The triangles of a mesh, face by face. -/
def trianglesOf (counts indices : List Int) : List Triangle :=
  (facesFrom 0 counts).zipIdx.flatMap fun face =>
    faceTriangles indices face.1.1 face.1.2 face.2

def Triangle.corners (triangle : Triangle) : List Int := [triangle.1, triangle.2.1, triangle.2.2]

/-- The graph the triangles make: two points are joined when a triangle has both. -/
def triangleGraph (triangles : List Triangle) : SimpleGraph Int where
  Adj v w := v ≠ w ∧ ∃ triangle ∈ triangles, v ∈ triangle.corners ∧ w ∈ triangle.corners
  symm := by
    constructor
    rintro v w ⟨hne, triangle, hin, hv, hw⟩
    exact ⟨hne.symm, triangle, hin, hw, hv⟩
  loopless := ⟨fun v h => h.1 rfl⟩

/-- An edge without its direction. -/
def undirected (edge : Int × Int) : IntPair := minmax edge.1 edge.2

/-- A triangle of three different points. -/
structure Proper (pointCount : Nat) (triangle : Triangle) : Prop where
  nodup : triangle.corners.Nodup
  points : ∀ v ∈ triangle.corners, ¬addressesNoPoint pointCount v

theorem length_facesFrom (offset : Nat) (counts : List Int) :
    (facesFrom offset counts).length = counts.length := by
  induction counts generalizing offset with
  | nil => rfl
  | cons count rest ih => rw [facesFrom, List.length_cons, ih, List.length_cons]

theorem trianglesOf_append (counts indices : List Int) (count : Int) :
    trianglesOf (counts ++ [count]) indices = trianglesOf counts indices ++
      faceTriangles indices (offsetAfter counts) count counts.length := by
  rw [trianglesOf, facesFrom_append, List.zipIdx_append, List.flatMap_append, length_facesFrom,
    Nat.zero_add]
  simp [trianglesOf, facesFrom, offsetAfter]

/-! ## Faces -/

/-- A face whose corners are inside the indices, are points, and are all different. -/
structure Sound (pointCount : Nat) (indices : List Int) (offset : Nat) (count : Int) : Prop where
  three : 3 ≤ count
  inside : offset + count.toNat ≤ indices.length
  points : ∀ c : Nat, c < count.toNat → ¬addressesNoPoint pointCount (corner indices offset c)
  nodup : ((List.range count.toNat).map fun (c : Nat) => corner indices offset c).Nodup

theorem wrinkleCorner_safe {pointCount : Nat} {indices : List Int} {offset : Nat} {count : Int}
    {state : List Int × List IntPair} {c : Nat} (hc : c < count.toNat)
    (hinside : offset + count.toNat ≤ indices.length) :
    Safe (wrinkleCorner pointCount indices offset count state c) fun state' =>
      state' = (state.1 ++ [corner indices offset c], state.2 ++
        [minmax (corner indices offset c) (corner indices offset ((c + 1) % count))]) ∧
      ¬addressesNoPoint pointCount (corner indices offset c) := by
  have hfirst : sizeAdd offset c < indices.length := by
    have hle := sizeAdd_le offset (n := c) (by omega)
    omega
  have hmod : (0 : Int) ≤ (c + 1) % count ∧ ((c + 1) % count : Int) < count :=
    ⟨Int.emod_nonneg _ (by omega), Int.emod_lt_of_pos _ (by omega)⟩
  have hsecond : sizeAdd offset ((c + 1) % count) < indices.length := by
    have hle := sizeAdd_le offset hmod.1
    omega
  refine (fetch_corner hfirst).bind ?_
  rintro a rfl
  refine (fetch_corner hsecond).bind ?_
  rintro b rfl
  refine Safe.unless ?_
  intro hpoints
  exact Safe.pure ⟨rfl, (not_or.mp hpoints).1⟩

theorem lt_of_hasRepeated {sorted : List Int} (hle : sorted.Pairwise (· ≤ ·))
    (h : hasRepeated sorted = false) : sorted.Pairwise (· < ·) := by
  induction sorted with
  | nil => exact .nil
  | cons x rest ih =>
      obtain ⟨hx, hrest⟩ := List.pairwise_cons.mp hle
      cases rest with
      | nil => exact List.pairwise_singleton _ _
      | cons y tail =>
          have hparts : x ≠ y ∧ hasRepeated (y :: tail) = false := by
            simpa [hasRepeated] using h
          have hrec := ih hrest hparts.2
          refine List.pairwise_cons.mpr ⟨?_, hrec⟩
          have hxy : x < y := lt_of_le_of_ne (hx y List.mem_cons_self) hparts.1
          intro z hz
          rcases List.mem_cons.mp hz with rfl | hz
          · exact hxy
          · exact hxy.trans ((List.pairwise_cons.mp hrec).1 z hz)

theorem nodup_of_hasRepeated {corners : List Int}
    (h : hasRepeated (sortOn id corners) = false) : corners.Nodup := by
  have hle : (sortOn id corners).Pairwise (· ≤ ·) := Lib.pairwise_sortOn corners
  have hlt := lt_of_hasRepeated hle h
  exact (Lib.perm_sortOn corners).nodup_iff.mp (hlt.imp fun hab => hab.ne)

theorem fanTriangle_safe {indices : List Int} {offset x y z : Nat} {count : Int}
    (hinside : offset + count.toNat ≤ indices.length) (hx : x < count.toNat)
    (hy : y < count.toNat) (hz : z < count.toNat) :
    Safe (fanTriangle indices offset x y z) fun triangle =>
      triangle = (corner indices offset x, corner indices offset y, corner indices offset z) := by
  have hlt : ∀ c : Nat, c < count.toNat → sizeAdd offset c < indices.length := by
    intro c hc
    have hle := sizeAdd_le offset (n := c) (by omega)
    omega
  refine (fetch_corner (hlt x hx)).bind ?_
  rintro a rfl
  refine (fetch_corner (hlt y hy)).bind ?_
  rintro b rfl
  refine (fetch_corner (hlt z hz)).bind ?_
  rintro c rfl
  exact Safe.pure rfl

theorem wrinkleFan_safe {indices : List Int} {offset faceIndex : Nat} {count : Int}
    {triangles : List Triangle} (hinside : offset + count.toNat ≤ indices.length) :
    Safe (wrinkleFan indices offset count faceIndex triangles) fun triangles' =>
      triangles' = triangles ++ faceTriangles indices offset count faceIndex := by
  unfold wrinkleFan faceTriangles
  by_cases hquad : count = 4 ∧ faceIndex % 2 ≠ 0
  · rw [if_pos hquad, if_pos hquad]
    refine (fanTriangle_safe hinside (by omega) (by omega) (by omega)).bind ?_
    rintro first rfl
    refine (fanTriangle_safe hinside (by omega) (by omega) (by omega)).bind ?_
    rintro second rfl
    exact Safe.pure rfl
  · rw [if_neg hquad, if_neg hquad]
    refine Safe.foldlM (fun passed triangles' => triangles' = triangles ++ passed.map fun k =>
      (corner indices offset 0, corner indices offset (k + 1 : Nat),
        corner indices offset (k + 2 : Nat))) (by simp) ?_
    rintro passed k rest hlist triangles' rfl
    have hk : k < count.toNat - 2 := by
      have hmem : k ∈ List.range (count.toNat - 2) := by simp [hlist]
      exact List.mem_range.mp hmem
    refine (fanTriangle_safe hinside (by omega) (by omega) (by omega)).bind ?_
    rintro triangle rfl
    refine Safe.pure ?_
    rw [List.map_append, List.map_singleton, List.append_assoc]
    rfl

theorem Sound.proper {pointCount : Nat} {indices : List Int} {offset : Nat} {count : Int}
    (h : Sound pointCount indices offset count) {x y z : Nat} (hxy : x < y) (hyz : y < z)
    (hz : z < count.toNat) :
    Proper pointCount (corner indices offset x, corner indices offset y,
      corner indices offset z) := by
  have hne : ∀ a b : Nat, a < b → b < count.toNat →
      corner indices offset a ≠ corner indices offset b := by
    intro a b hab hb
    have hpair := List.pairwise_iff_getElem.mp h.nodup a b (by simpa using by omega)
      (by simpa using hb) hab
    simpa using hpair
  refine ⟨?_, ?_⟩
  · simp [Triangle.corners, hne x y hxy (by omega), hne x z (by omega) hz, hne y z hyz hz]
  · intro v hv
    simp only [Triangle.corners, List.mem_cons, List.not_mem_nil, or_false] at hv
    rcases hv with rfl | rfl | rfl
    · exact h.points x (by omega)
    · exact h.points y (by omega)
    · exact h.points z hz

theorem Sound.faceTriangles {pointCount : Nat} {indices : List Int} {offset faceIndex : Nat}
    {count : Int} (h : Sound pointCount indices offset count) :
    ∀ triangle ∈ faceTriangles indices offset count faceIndex, Proper pointCount triangle := by
  intro triangle hin
  have hthree := h.three
  unfold Mesh.faceTriangles at hin
  dsimp only at hin
  by_cases hquad : count = 4 ∧ faceIndex % 2 ≠ 0
  · rw [if_pos hquad] at hin
    rcases List.mem_pair.mp hin with rfl | rfl
    · exact h.proper (x := 0) (y := 1) (z := 3) (by omega) (by omega) (by omega)
    · exact h.proper (x := 1) (y := 2) (z := 3) (by omega) (by omega) (by omega)
  · rw [if_neg hquad] at hin
    obtain ⟨k, hk, rfl⟩ := List.mem_map.mp hin
    have hk := List.mem_range.mp hk
    exact h.proper (x := 0) (by omega) (by omega) (by omega)

/-- What the walk over the faces has built from those it has passed. -/
structure Walked (pointCount : Nat) (indices passed : List Int) (state : WrinkleFaces) :
    Prop where
  offset : state.offset = offsetAfter passed
  inside : state.offset ≤ indices.length
  faceIndex : state.faceIndex = passed.length
  polygonEdges : state.polygonEdges = (polygonEdges passed indices).map undirected
  triangles : state.triangles = trianglesOf passed indices
  proper : ∀ triangle ∈ state.triangles, Proper pointCount triangle

theorem wrinkleFace_safe {pointCount : Nat} {indices passed : List Int} {state : WrinkleFaces}
    (count : Int) (h : Walked pointCount indices passed state) :
    Safe (wrinkleFace pointCount indices state count)
      (Walked pointCount indices (passed ++ [count])) := by
  refine Safe.unless ?_
  intro hface
  have hinside := h.inside
  have hthree : 3 ≤ count := by omega
  have hfits : state.offset + count.toNat ≤ indices.length := by omega
  have hcorners : Safe ((List.range count.toNat).foldlM
      (wrinkleCorner pointCount indices state.offset count) ([], state.polygonEdges))
      fun walked =>
        walked.1 = ((List.range count.toNat).map fun (c : Nat) =>
          corner indices state.offset c) ∧
        walked.2 = state.polygonEdges ++
          (faceEdges indices state.offset count).map undirected ∧
        ∀ c : Nat, c < count.toNat →
          ¬addressesNoPoint pointCount (corner indices state.offset c) := by
    refine (Safe.foldlM (fun corners walked =>
      walked.1 = (corners.map fun (c : Nat) => corner indices state.offset c) ∧
      walked.2 = state.polygonEdges ++ (corners.map fun (c : Nat) =>
        (corner indices state.offset c, corner indices state.offset ((c + 1) % count))).map
          undirected ∧
      ∀ c ∈ corners, ¬addressesNoPoint pointCount (corner indices state.offset (c : Nat)))
      (by simp) ?_).mono ?_
    · rintro corners c rest hlist walked ⟨hfirst, hsecond, hpoints⟩
      have hc : c < count.toNat := by
        have hmem : c ∈ List.range count.toNat := by simp [hlist]
        exact List.mem_range.mp hmem
      refine (wrinkleCorner_safe hc hfits).mono ?_
      rintro walked' ⟨rfl, hpoint⟩
      refine ⟨by simp [hfirst], by simp [hsecond, undirected], ?_⟩
      intro c' hc'
      rcases List.mem_append.mp hc' with hc' | hc'
      · exact hpoints c' hc'
      · obtain rfl := List.mem_singleton.mp hc'
        exact hpoint
    · rintro walked ⟨hfirst, hsecond, hpoints⟩
      exact ⟨hfirst, hsecond, fun c hc => hpoints c (List.mem_range.mpr hc)⟩
  refine hcorners.bind ?_
  rintro walked ⟨hfirst, hsecond, hpoints⟩
  refine Safe.unless ?_
  intro hrepeated
  have hnodup : walked.1.Nodup := nodup_of_hasRepeated (by simpa using hrepeated)
  have hsound : Sound pointCount indices state.offset count :=
    ⟨hthree, hfits, hpoints, hfirst ▸ hnodup⟩
  refine (wrinkleFan_safe hfits).bind ?_
  rintro triangles rfl
  refine Safe.pure ⟨?_, ?_, ?_, ?_, ?_, ?_⟩
  · rw [offsetAfter_append, h.offset]
  · exact (sizeAdd_le _ (by omega)).trans hfits
  · rw [List.length_append, h.faceIndex, List.length_singleton]
  · rw [hsecond, polygonEdges_append, List.map_append, h.polygonEdges, h.offset]
  · rw [trianglesOf_append, h.triangles, h.offset, h.faceIndex]
  · intro triangle hin
    rcases List.mem_append.mp hin with hin | hin
    · exact h.proper triangle hin
    · exact hsound.faceTriangles triangle hin

theorem faces_safe (pointCount : Nat) (counts indices : List Int) :
    Safe (counts.foldlM (wrinkleFace pointCount indices) {}) (Walked pointCount indices counts) := by
  refine Safe.foldlM (Walked pointCount indices) ?_ ?_
  · exact ⟨rfl, Nat.zero_le _, rfl, rfl, rfl, by simp⟩
  · intro passed count _ _ state h
    exact wrinkleFace_safe count h

/-! ## Pairs -/

theorem minmax_comm (a b : Int) : minmax a b = minmax b a := by
  unfold minmax
  rcases lt_trichotomy a b with h | rfl | h
  · rw [if_neg (by omega), if_pos h]
  · rfl
  · rw [if_pos h, if_neg (by omega)]

theorem minmax_of_lt {a b : Int} (h : a < b) : minmax a b = toLex (a, b) := by
  rw [minmax, if_neg (by omega)]

theorem minmax_eq_minmax {a b c d : Int} :
    minmax a b = minmax c d ↔ (a = c ∧ b = d) ∨ (a = d ∧ b = c) := by
  unfold minmax
  split_ifs <;> simp only [EmbeddingLike.apply_eq_iff_eq, Prod.mk.injEq] <;> omega

theorem minmax_eq_toLex {a b c d : Int} (h : c < d) :
    minmax a b = toLex (c, d) ↔ (a = c ∧ b = d) ∨ (a = d ∧ b = c) := by
  rw [← minmax_of_lt h, minmax_eq_minmax]

theorem exists_lt_minmax {a b : Int} (h : a ≠ b) :
    ∃ c d, c < d ∧ minmax a b = toLex (c, d) ∧ ((a = c ∧ b = d) ∨ (a = d ∧ b = c)) := by
  rcases lt_or_gt_of_ne h with hlt | hlt
  · exact ⟨a, b, hlt, minmax_of_lt hlt, .inl ⟨rfl, rfl⟩⟩
  · exact ⟨b, a, hlt, (minmax_comm a b).trans (minmax_of_lt hlt), .inr ⟨rfl, rfl⟩⟩

/-! ## Edges -/

/-- The place of an edge in the order. -/
def WrinkleEdge.key (edge : WrinkleEdge) : IntPair := toLex (edge.a, edge.b)

/-- The corner of a triangle opposite to two of its corners. -/
def Triangle.opposite? (triangle : Triangle) (a b : Int) : Option Int :=
  if a ∈ triangle.corners ∧ b ∈ triangle.corners then
    triangle.corners.find? fun c => c ≠ a ∧ c ≠ b
  else none

/-- The edges are those of the triangles, in lexicographic order, each with its opposite corners
in triangle order. -/
structure EdgesOf (triangles : List Triangle) (edges : List WrinkleEdge) : Prop where
  ascending : Ascending (edges.map WrinkleEdge.key)
  joined : ∀ a b, (∃ edge ∈ edges, edge.a = a ∧ edge.b = b) ↔
    a < b ∧ (triangleGraph triangles).Adj a b
  opposite : ∀ edge ∈ edges,
    edge.opposite = triangles.filterMap fun triangle => triangle.opposite? edge.a edge.b

def triangleEdges (triangle : Triangle) : List (IntPair × Int) :=
  [(minmax triangle.1 triangle.2.1, triangle.2.2),
    (minmax triangle.2.1 triangle.2.2, triangle.1),
    (minmax triangle.2.2 triangle.1, triangle.2.1)]

theorem keyedEdges_eq (triangles : List Triangle) :
    keyedEdges triangles = triangles.flatMap triangleEdges := rfl

variable {pointCount : Nat} {triangles : List Triangle}

theorem mem_triangleEdges_key {triangle : Triangle} (h : Proper pointCount triangle) {a b : Int}
    (hab : a < b) : toLex (a, b) ∈ (triangleEdges triangle).map Prod.fst ↔
      a ∈ triangle.corners ∧ b ∈ triangle.corners := by
  obtain ⟨x, y, z⟩ := triangle
  have hnodup := h.nodup
  simp only [Triangle.corners, List.nodup_cons, List.mem_cons, List.not_mem_nil, or_false,
    not_or, not_false_eq_true, List.nodup_nil, and_true] at hnodup
  simp only [triangleEdges, List.map_cons, List.map_nil, List.mem_cons, List.not_mem_nil,
    or_false, eq_comm (a := toLex (a, b)), minmax_eq_toLex hab, Triangle.corners]
  omega

theorem key_triangleEdges {triangle : Triangle} (h : Proper pointCount triangle) {key : IntPair}
    (hkey : key ∈ (triangleEdges triangle).map Prod.fst) : ∃ a b, a < b ∧ key = toLex (a, b) := by
  obtain ⟨x, y, z⟩ := triangle
  have hnodup := h.nodup
  simp only [Triangle.corners, List.nodup_cons, List.mem_cons, List.not_mem_nil, or_false,
    not_or, not_false_eq_true, List.nodup_nil, and_true] at hnodup
  obtain ⟨⟨hxy, hxz⟩, hyz⟩ := hnodup
  have hpair : ∀ v w : Int, v ≠ w → ∃ a b, a < b ∧ minmax v w = toLex (a, b) := by
    intro v w hne
    obtain ⟨a, b, hab, he, -⟩ := exists_lt_minmax hne
    exact ⟨a, b, hab, he⟩
  simp only [triangleEdges, List.map_cons, List.map_nil, List.mem_cons, List.not_mem_nil,
    or_false] at hkey
  rcases hkey with rfl | rfl | rfl
  · exact hpair x y hxy
  · exact hpair y z hyz
  · exact hpair z x (Ne.symm hxz)

theorem opposite_triangleEdges {triangle : Triangle} (h : Proper pointCount triangle) {a b : Int}
    (hab : a < b) :
    ((triangleEdges triangle).filter fun row => row.1 = toLex (a, b)).map Prod.snd =
      (triangle.opposite? a b).toList := by
  obtain ⟨x, y, z⟩ := triangle
  have hnodup := h.nodup
  simp only [Triangle.corners, List.nodup_cons, List.mem_cons, List.not_mem_nil, or_false,
    not_or, not_false_eq_true, List.nodup_nil, and_true] at hnodup
  obtain ⟨⟨hxy, hxz⟩, hyz⟩ := hnodup
  simp only [triangleEdges, Triangle.opposite?, Triangle.corners, List.filter_cons,
    List.filter_nil, minmax_eq_toLex hab, List.mem_cons, List.not_mem_nil, or_false,
    List.find?_cons, List.find?_nil]
  grind

section

variable (h : ∀ triangle ∈ triangles, Proper pointCount triangle)
include h

theorem mem_keyedEdges_key {a b : Int}
    (hab : a < b) : toLex (a, b) ∈ (keyedEdges triangles).map Prod.fst ↔
      (triangleGraph triangles).Adj a b := by
  rw [keyedEdges_eq, List.map_flatMap, List.mem_flatMap]
  constructor
  · rintro ⟨triangle, hin, hkey⟩
    exact ⟨hab.ne, triangle, hin, (mem_triangleEdges_key (h triangle hin) hab).mp hkey⟩
  · rintro ⟨-, triangle, hin, hcorners⟩
    exact ⟨triangle, hin, (mem_triangleEdges_key (h triangle hin) hab).mpr hcorners⟩

theorem key_keyedEdges {key : IntPair}
    (hkey : key ∈ (keyedEdges triangles).map Prod.fst) : ∃ a b, a < b ∧ key = toLex (a, b) := by
  rw [keyedEdges_eq, List.map_flatMap, List.mem_flatMap] at hkey
  obtain ⟨triangle, hin, hkey⟩ := hkey
  exact key_triangleEdges (h triangle hin) hkey

theorem opposite_keyedEdges {a b : Int} (hab : a < b) :
    ((keyedEdges triangles).filter fun row => row.1 = toLex (a, b)).map Prod.snd =
      triangles.filterMap fun triangle => triangle.opposite? a b := by
  rw [keyedEdges_eq]
  induction triangles with
  | nil => rfl
  | cons triangle rest ih =>
      have hfirst := opposite_triangleEdges (h triangle List.mem_cons_self) hab
      have hrest := ih fun t ht => h t (List.mem_cons_of_mem _ ht)
      rw [List.flatMap_cons, List.filter_append, List.map_append, hfirst, hrest,
        List.filterMap_cons]
      cases triangle.opposite? a b <;> rfl

/-- **The runs of the sorted triangle edges.** -/
theorem edgesOf_spec :
    EdgesOf triangles (edgesOf triangles) := by
  have hedges : edgesOf triangles =
      (sortUnique ((keyedEdges triangles).map Prod.fst)).map fun k =>
        { a := (ofLex k).1, b := (ofLex k).2,
          opposite := ((keyedEdges triangles).filter fun row => row.1 = k).map Prod.snd } := by
    rw [edgesOf, Lib.runs_sortOn, List.map_map]
    rfl
  rw [hedges]
  refine ⟨?_, ?_, ?_⟩
  · rw [List.map_map]
    have hid : ∀ k ∈ sortUnique ((keyedEdges triangles).map Prod.fst),
        (WrinkleEdge.key ∘ fun k : IntPair => WrinkleEdge.mk (ofLex k).1 (ofLex k).2
          (((keyedEdges triangles).filter fun row => row.1 = k).map Prod.snd)) k = id k :=
      fun _ _ => rfl
    rw [List.map_congr_left hid, List.map_id]
    exact Lib.ascending_sortUnique _
  · intro a b
    constructor
    · rintro ⟨edge, hin, rfl, rfl⟩
      obtain ⟨key, hkey, rfl⟩ := List.mem_map.mp hin
      have hkey := Lib.mem_sortUnique.mp hkey
      obtain ⟨c, d, hcd, rfl⟩ := key_keyedEdges h hkey
      exact ⟨hcd, (mem_keyedEdges_key h hcd).mp hkey⟩
    · rintro ⟨hab, hadj⟩
      have hkey := Lib.mem_sortUnique.mpr ((mem_keyedEdges_key h hab).mpr hadj)
      exact ⟨_, List.mem_map_of_mem hkey, rfl, rfl⟩
  · intro edge hin
    obtain ⟨key, hkey, rfl⟩ := List.mem_map.mp hin
    obtain ⟨c, d, hcd, rfl⟩ := key_keyedEdges h (Lib.mem_sortUnique.mp hkey)
    exact opposite_keyedEdges h hcd

theorem points_of_adj {v w : Int}
    (hadj : (triangleGraph triangles).Adj v w) : ¬addressesNoPoint pointCount w := by
  obtain ⟨-, triangle, hin, -, hw⟩ := hadj
  exact (h triangle hin).points w hw

end

/-! ## The border -/

/-- How often the faces use an edge. -/
def timesUsed (edges : List (Int × Int)) (v w : Int) : Nat :=
  edges.countP fun edge => edge = (v, w) ∨ edge = (w, v)

theorem undirected_eq {edge : Int × Int} {v w : Int} :
    undirected edge = minmax v w ↔ edge = (v, w) ∨ edge = (w, v) := by
  obtain ⟨a, b⟩ := edge
  simp only [undirected, minmax_eq_minmax, Prod.mk.injEq]

/-- **The border is the ends of the edges used once.** -/
theorem mem_borderOf (edges : List (Int × Int)) (v : Int) :
    v ∈ borderOf (edges.map undirected) ↔ ∃ w, timesUsed edges v w = 1 := by
  have hused : ∀ a b : Int,
      ((edges.map undirected).filter fun edge => edge = minmax a b).length =
        timesUsed edges a b := by
    intro a b
    rw [← List.countP_eq_length_filter, List.countP_map, timesUsed]
    refine List.countP_congr ?_
    intro edge _
    simp only [Function.comp_apply, decide_eq_true_eq, undirected_eq]
  have hruns : v ∈ borderOf (edges.map undirected) ↔ ∃ key ∈ edges.map undirected,
      ((edges.map undirected).filter fun edge => edge = key).length = 1 ∧
        (v = (ofLex key).1 ∨ v = (ofLex key).2) := by
    rw [borderOf, Lib.runs_sortOn, List.map_id, Lib.mem_sortUnique, List.mem_flatMap]
    simp only [List.mem_map, Lib.mem_sortUnique, id_eq]
    constructor
    · rintro ⟨run, ⟨key, hkey, rfl⟩, hv⟩
      split_ifs at hv with hone
      · exact ⟨key, hkey, hone, by simpa using hv⟩
      · cases hv
    · rintro ⟨key, hkey, hone, hv⟩
      refine ⟨_, ⟨key, hkey, rfl⟩, ?_⟩
      rw [if_pos hone]
      simpa using hv
  rw [hruns]
  constructor
  · rintro ⟨key, hkey, hone, hv⟩
    obtain ⟨⟨a, b⟩, -, rfl⟩ := List.mem_map.mp hkey
    rw [undirected, hused] at hone
    have hends : v = a ∨ v = b := by
      unfold undirected minmax at hv
      split_ifs at hv
      · exact hv.symm
      · exact hv
    rcases hends with rfl | rfl
    · exact ⟨b, hone⟩
    · refine ⟨a, ?_⟩
      rw [← hused, minmax_comm, hused]
      exact hone
  · rintro ⟨w, hone⟩
    refine ⟨minmax v w, ?_, by rw [hused, hone], ?_⟩
    · have hpos : 0 < timesUsed edges v w := by omega
      obtain ⟨edge, hin, hedge⟩ := List.countP_pos_iff.mp hpos
      exact List.mem_map.mpr ⟨edge, hin, undirected_eq.mpr (of_decide_eq_true hedge)⟩
    · unfold minmax
      split_ifs
      · exact .inr rfl
      · exact .inl rfl

/-! ## Rings -/

/-- The rings of the wrinkle mesh: the neighbours in its graph, in order. -/
structure RingsOf (pointCount : Nat) (triangles : List Triangle) (rings : List (List Int)) :
    Prop where
  length : rings.length = pointCount
  joined : ∀ v w, Has rings v w ↔ (triangleGraph triangles).Adj v w

theorem ringsOf_safe (h : ∀ triangle ∈ triangles, Proper pointCount triangle) :
    Safe (ringsOf pointCount (edgesOf triangles)) (RingsOf pointCount triangles) := by
  have hspec := edgesOf_spec h
  have hpushed : Safe ((edgesOf triangles).foldlM (fun rings edge => do
      let rings ← pushBack rings edge.a edge.b
      pushBack rings edge.b edge.a) (List.replicate pointCount [])) fun rings =>
        Records pointCount rings ((edgesOf triangles).map fun edge => (edge.a, edge.b)) := by
    refine Safe.foldlM (fun (passed : List WrinkleEdge) rings =>
      Records pointCount rings (passed.map fun edge => (edge.a, edge.b)))
      (records_first pointCount) ?_
    intro passed edge rest hlist rings hrings
    rw [List.map_append, List.map_singleton]
    have hin : edge ∈ edgesOf triangles := by simp [hlist]
    have hadj := ((hspec.joined edge.a edge.b).mp ⟨edge, hin, rfl, rfl⟩).2
    exact hrings.push (points_of_adj h hadj.symm) (points_of_adj h hadj)
  refine hpushed.bind ?_
  intro rings hrings
  refine Safe.pure ⟨by rw [List.length_map, hrings.length], ?_⟩
  intro v w
  rw [has_map (fun ring w => Lib.mem_sortOn), hrings.has]
  have hmem : ∀ a b : Int, (a, b) ∈ (edgesOf triangles).map (fun (edge : WrinkleEdge) =>
      (edge.a, edge.b)) ↔
      a < b ∧ (triangleGraph triangles).Adj a b := by
    intro a b
    rw [← hspec.joined]
    simp only [List.mem_map, Prod.mk.injEq]
  rw [Joined, hmem, hmem]
  constructor
  · rintro (⟨-, hadj⟩ | ⟨-, hadj⟩)
    · exact hadj
    · exact hadj.symm
  · intro hadj
    rcases lt_or_gt_of_ne hadj.1 with hlt | hlt
    · exact .inl ⟨hlt, hadj⟩
    · exact .inr ⟨hlt, hadj.symm⟩

end RigExec.Mesh
