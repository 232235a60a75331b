/-
# `RigExec.Touch.Prepared` — `Prepare`, after any history of a mesh

A refit keeps the tree and gives every node a box that holds the triangles of its run, so
`Prepare` leaves a current tree whether it builds, refits or builds anew.  What it relies on
is kept by every operation (`Mesh.Kept`):

    tree       a mesh marked as built has a tree over its triangles, with boxes of any age
    versions   the acceleration is never ahead of the points
    current    where the versions agree and there are points, the boxes are current

The versions are 64 bits wide and start one apart, so the count of the bumps must stay below
2 ^ 64 - 1.
-/
import RigExec.Touch.Tree

namespace RigExec.Touch

open scoped RigExec.Accel
open RigExec.Accel (u32 stdMin stdMax stdMin_le le_stdMax floatLt Point)
open Lib (HasRun RunsOver runItems)

section

variable {F R M : Type} [LinearOrder F] {ops : Arithmetic F R M} {mesh : Mesh F R M}
  {bounds : List (TriBounds F)}

/-! ## Refitting -/

theorem refitLeaf_shape (order : List Nat) (node : Node F) :
    (refitLeaf ops bounds order node).shape = node.shape := by
  unfold refitLeaf
  split <;> rfl

theorem refitNode_shape (nodes : List (Node F)) (node : Node F) :
    (refitNode ops nodes node).shape = node.shape := by
  unfold refitNode
  split <;> rfl

theorem Mesh.boxes_refitNode {nodes : List (Node F)} {node l r : Node F}
    (hl : nodes[node.first]? = some l) (hr : nodes[node.first + 1]? = some r)
    (hzero : node.count = 0) {t : Nat} (h : mesh.Boxes l t ∨ mesh.Boxes r t) :
    mesh.Boxes (refitNode ops nodes node) t := by
  intro corners hcorners k
  have hnode : (refitNode ops nodes node).box =
      ⟨fun k => stdMin (l.lo k) (some (r.lo k)), fun k => stdMax (l.hi k) (some (r.hi k))⟩ := by
    rw [refitNode, if_pos hzero, nodeAt, nodeAt, hl, hr]
    rfl
  rw [hnode]
  have hmin := stdMin_le (l.lo k) (r.lo k)
  have hmax := le_stdMax (l.hi k) (r.hi k)
  rcases h with h | h
  · obtain ⟨hlo, hhi⟩ := h corners hcorners k
    exact ⟨fun x hx => hmin.1.trans (hlo x hx), fun x hx => (hhi x hx).trans hmax.1⟩
  · obtain ⟨hlo, hhi⟩ := h corners hcorners k
    exact ⟨fun x hx => hmin.2.trans (hlo x hx), fun x hx => (hhi x hx).trans hmax.2⟩

/-- The boxes of the leaves, and of the nodes from `i` on, hold the triangles of their runs. -/
structure Reboxed (mesh : Mesh F R M) (shapes : List Lib.RunNode) (order : List Nat) (i : Nat)
    (nodes : List (Node F)) : Prop where
  shape : nodes.map Node.shape = shapes
  box : ∀ j node first count, nodes[j]? = some node → i ≤ j ∨ node.count ≠ 0 →
    HasRun shapes j first count → ∀ t ∈ runItems order first count, mesh.Boxes node t

theorem Reboxed.step {shapes : List Lib.RunNode} {order : List Nat} {i : Nat}
    {nodes : List (Node F)} (h : Reboxed mesh shapes order (i + 1) nodes)
    {node : Node F} (hnode : nodes[i]? = some node) :
    Reboxed mesh shapes order i (nodes.set i (refitNode ops nodes node)) where
  shape := (Lib.map_set_shape hnode (refitNode_shape nodes node)).trans h.shape
  box j node' first count hj hwhich hrun t ht := by
    rcases eq_or_ne i j with rfl | hne
    · rw [List.getElem?_set_self (List.getElem?_eq_some_iff.mp hnode).1] at hj
      cases hj
      have hindex : shapes[i]? = some node.shape := h.shape ▸ Lib.getElem?_map_shape hnode
      rcases Nat.eq_zero_or_pos node.count with hzero | hpos
      · obtain ⟨hlater, left, right, hleft, hright, rfl⟩ := hrun.children hindex hzero
        obtain ⟨shapeL, hshapeL⟩ := hleft.get
        obtain ⟨shapeR, hshapeR⟩ := hright.get
        rw [← h.shape] at hshapeL hshapeR
        obtain ⟨l, hl, -⟩ := Lib.getElem?_of_map_shape hshapeL
        obtain ⟨r, hr, -⟩ := Lib.getElem?_of_map_shape hshapeR
        have hafter : i + 1 ≤ node.first := hlater
        rw [Lib.runItems_append, List.mem_append] at ht
        refine Mesh.boxes_refitNode hl hr hzero (ht.imp (fun ht => ?_) fun ht => ?_)
        · exact h.box _ l first left hl (Or.inl hafter) hleft t ht
        · exact h.box _ r _ right hr (Or.inl (by omega)) hright t ht
      · have hsame : refitNode ops nodes node = node := by
          rw [refitNode, if_neg (Nat.ne_of_gt hpos)]
        rw [hsame]
        exact h.box i node first count hnode (Or.inr (Nat.ne_of_gt hpos)) hrun t ht
    · rw [List.getElem?_set_ne hne] at hj
      refine h.box j node' first count hj (hwhich.imp_left fun hle => ?_) hrun t ht
      omega

theorem Reboxed.below (ops : Arithmetic F R M) {shapes : List Lib.RunNode} {order : List Nat}
    {i : Nat}
    {nodes : List (Node F)} (h : Reboxed mesh shapes order i nodes) (hi : i ≤ nodes.length)
    (sum : Option R) : Reboxed mesh shapes order 0 (refitBelow ops i nodes sum).1 := by
  induction i generalizing nodes sum with
  | zero => exact h
  | succ i ih =>
      obtain ⟨node, hnode⟩ : ∃ node, nodes[i]? = some node := ⟨_, List.getElem?_eq_getElem hi⟩
      have hat : nodeAt ops nodes i = node := by
        rw [nodeAt, hnode]
        rfl
      unfold refitBelow
      dsimp only
      rw [hat]
      refine ih (h.step hnode) ?_ _
      rw [List.length_set]
      omega

/-- **The sweep leaves a tree with boxes for the bounds**, from boxes of any age. -/
theorem runsOver_refit {nodes : List (Node F)} {order : List Nat}
    (hbounds : mesh.HasBounds bounds) {good : Node F → Nat → Prop}
    (h : RunsOver Node.shape good leafSize mesh.tris.length nodes order) (sum : Option R) :
    RunsOver Node.shape mesh.Boxes leafSize mesh.tris.length
      (refitBelow ops (nodes.map (refitLeaf ops bounds order)).length
        (nodes.map (refitLeaf ops bounds order)) sum).1 order := by
  have hshape : (nodes.map (refitLeaf ops bounds order)).map Node.shape =
      nodes.map Node.shape := by
    rw [List.map_map]
    exact List.map_congr_left fun node _ => refitLeaf_shape order node
  have hstart : Reboxed mesh (nodes.map Node.shape) order
      (nodes.map (refitLeaf ops bounds order)).length (nodes.map (refitLeaf ops bounds order)) := by
    refine ⟨hshape, fun j node first count hj hwhich hrun t ht => ?_⟩
    have hlt := (List.getElem?_eq_some_iff.mp hj).1
    rw [List.getElem?_map, Option.map_eq_some_iff] at hj
    obtain ⟨old, hold, rfl⟩ := hj
    have hcount : (refitLeaf ops bounds order old).count = old.count :=
      congrArg Lib.RunNode.count (refitLeaf_shape order old)
    have hne : old.count ≠ 0 := by
      rw [← hcount]
      exact hwhich.resolve_left (by omega)
    have hindex : (nodes.map Node.shape)[j]? = some old.shape := Lib.getElem?_map_shape hold
    obtain ⟨rfl, rfl⟩ := hrun.of_leaf hindex (Nat.pos_of_ne_zero hne)
    have hnode : (refitLeaf ops bounds order old).box =
        (runItems order old.first old.count).foldl (fun box t =>
          box.grow (boundsFrom bounds (u32 (6 * t))) (boundsFrom bounds (u32 (6 * t) + 3)))
          (Box.empty ops) := by
      rw [refitLeaf, if_neg hne]
      rfl
    exact hbounds.boxes (fun _ => Or.inr rfl) (fun t ht => h.lt_of_mem ht) hnode ht
  have hend := hstart.below ops le_rfl sum
  refine h.rebox hend.shape fun i node first count hi hrun => ?_
  exact hend.box i node first count hi (Or.inl (Nat.zero_le i)) hrun

variable [LinearOrder R]

/-- **A refit leaves a current tree**, whether it builds anew or not. -/
theorem Mesh.InRange.refit (h : mesh.InRange) (hpoints : mesh.hasPoints = true)
    {good : Node F → Nat → Prop}
    (htree : RunsOver Node.shape good leafSize mesh.tris.length mesh.bvh.nodes mesh.bvh.order)
    (hbuilt : mesh.bvh.built = true) (part : StdPartition) :
    ∃ bvh, mesh.refit ops part = some bvh ∧ bvh.built = true ∧ bvh.version = mesh.bvh.version ∧
      RunsOver Node.shape mesh.Boxes leafSize mesh.tris.length bvh.nodes bvh.order := by
  obtain ⟨bounds, hcompute, hbounds⟩ := h.hasBounds hpoints
  unfold Mesh.refit
  rw [hcompute]
  dsimp only [Option.bind_eq_bind, Option.bind_some]
  split
  · have hagain : ∀ old : Bvh F R, old.version = mesh.bvh.version →
        ∃ bvh, Mesh.build ops part { mesh with bvh := old } = some bvh ∧ bvh.built = true ∧
          bvh.version = mesh.bvh.version ∧
          RunsOver Node.shape mesh.Boxes leafSize mesh.tris.length bvh.nodes bvh.order := by
      intro old hversion
      have hrange : Mesh.InRange { mesh with bvh := old } := ⟨h.faces, h.corners, h.small⟩
      obtain ⟨bvh, hbuild, hbuilt, hsame, htree⟩ := hrange.build hpoints ops part
      exact ⟨bvh, hbuild, hbuilt, hsame.trans hversion, htree⟩
    exact hagain _ rfl
  · exact ⟨_, rfl, hbuilt, rfl, runsOver_refit hbounds htree _⟩

/-! ## Topologies -/

omit [LinearOrder F] [LinearOrder R] in
theorem length_fanTriangles (indices : List Int) (f start : Nat) (counts : List Int) :
    (fanTriangles indices f start counts).length = triangleCount counts := by
  induction counts generalizing f start with
  | nil => rfl
  | cons count counts ih =>
      unfold fanTriangles triangleCount
      dsimp only
      rw [List.length_append, List.length_map, List.length_range, ih]
      split <;> omega

omit [LinearOrder F] [LinearOrder R] in
theorem fanTriangles_corners {indices : List Int} {pointCount : Nat}
    (hindices : ∀ index ∈ indices, index.toNat < pointCount) {f start : Nat} {counts : List Int}
    (htotal : start + totalOf counts ≤ indices.length) :
    ∀ tri ∈ fanTriangles indices f start counts,
      tri.1.1 < pointCount ∧ tri.1.2.1 < pointCount ∧ tri.1.2.2 < pointCount := by
  induction counts generalizing f start with
  | nil => exact fun tri htri => nomatch htri
  | cons count counts ih =>
      have hsplit : totalOf (count :: counts) = (max count 0).toNat + totalOf counts := by
        show (if count < 3 then (max count 0).toNat + totalOf counts
          else count.toNat + totalOf counts) = _
        split <;> omega
      rw [hsplit] at htotal
      have hat : ∀ i < start + (max count 0).toNat, (indices[i]?.getD 0).toNat < pointCount := by
        intro i hi
        have hlt : i < indices.length := by omega
        rw [List.getElem?_eq_getElem hlt]
        exact hindices _ (List.getElem_mem hlt)
      intro tri htri
      unfold fanTriangles at htri
      dsimp only at htri
      rcases List.mem_append.mp htri with hfan | hrest
      · obtain ⟨k, hk, rfl⟩ := List.mem_map.mp hfan
        rw [List.mem_range] at hk
        exact ⟨hat _ (by omega), hat _ (by omega), hat _ (by omega)⟩
      · exact ih (by omega) tri hrest

/-! ## Histories -/

/-- What every operation keeps after `calls` changes of the topology or the points. -/
structure Mesh.Kept (mesh : Mesh F R M) (calls : Nat) : Prop where
  range : mesh.InRange
  points : mesh.pointsVersion ≤ calls
  version : mesh.bvh.version = 2 ^ 64 - 1 ∨ mesh.bvh.version ≤ mesh.pointsVersion
  tree : mesh.bvh.built = true → RunsOver Node.shape (fun _ _ => True) leafSize mesh.tris.length
    mesh.bvh.nodes mesh.bvh.order
  current : mesh.bvh.version = mesh.pointsVersion → mesh.hasPoints = true →
    mesh.bvh.built = true ∧ RunsOver Node.shape mesh.Boxes leafSize mesh.tris.length
      mesh.bvh.nodes mesh.bvh.order

omit [LinearOrder R] in
theorem Mesh.Kept.stale {calls : Nat} (h : mesh.Kept calls) (hcalls : calls + 1 < 2 ^ 64 - 1) :
    u64 (mesh.pointsVersion + 1) = mesh.pointsVersion + 1 ∧
      mesh.bvh.version ≠ mesh.pointsVersion + 1 := by
  have hpoints := h.points
  have hversion := h.version
  exact ⟨Nat.mod_eq_of_lt (by omega), by omega⟩

omit [LinearOrder R] in
theorem kept_new (ops : Arithmetic F R M) : (Mesh.new ops).Kept 0 where
  range := ⟨rfl, fun _ htri => (nomatch htri), Nat.zero_le _⟩
  points := le_rfl
  version := Or.inl rfl
  tree h := nomatch h
  current _ h := nomatch h

omit [LinearOrder R] in
theorem Mesh.Kept.setTopology {calls : Nat} (h : mesh.Kept calls)
    (hcalls : calls + 1 < 2 ^ 64 - 1) {counts indices : List Int} {pointCount : Nat}
    (hsmall : 6 * triangleCount counts ≤ 2 ^ 32) :
    (mesh.setTopology counts indices pointCount).1.Kept (calls + 1) := by
  unfold Mesh.setTopology
  dsimp only
  have hcleared : Mesh.Kept { mesh with
      tris := []
      triFace := []
      pointCount := 0
      bvh := { mesh.bvh with nodes := [], order := [], built := false } } (calls + 1) := by
    refine ⟨⟨rfl, fun _ htri => absurd htri List.not_mem_nil, Nat.zero_le _⟩, Nat.le_succ_of_le h.points,
      h.version, fun hbuilt => absurd hbuilt Bool.false_ne_true, fun _ hpoints => ?_⟩
    rw [Mesh.hasPoints, Bool.and_eq_true] at hpoints
    exact absurd hpoints.2 Bool.false_ne_true
  split
  · exact hcleared
  · rename_i htotal
    split
    · exact hcleared
    · rename_i hvalid
      obtain ⟨hbump, hstale⟩ := h.stale hcalls
      have hindices : ∀ index ∈ indices, index.toNat < pointCount := by
        intro index hindex
        by_contra hge
        refine hvalid (List.any_eq_true.mpr ⟨index, hindex, ?_⟩)
        rw [Bool.or_eq_true]
        exact Or.inr (decide_eq_true (not_lt.mp hge))
      have hlength := length_fanTriangles indices 0 0 counts
      have hversion := h.version
      rw [hbump]
      refine ⟨⟨?_, fun tri htri => ?_, ?_⟩, Nat.succ_le_succ h.points, ?_,
        fun hbuilt => absurd hbuilt Bool.false_ne_true, fun hcurrent => absurd hcurrent hstale⟩
      · rw [List.length_map, List.length_map]
      · obtain ⟨entry, hentry, rfl⟩ := List.mem_map.mp htri
        exact fanTriangles_corners hindices (by omega) entry hentry
      · rw [List.length_map, hlength]
        exact hsmall
      · exact hversion.imp_right Nat.le_succ_of_le

omit [LinearOrder R] in
theorem Mesh.Kept.setPoints {calls : Nat} (h : mesh.Kept calls) (hcalls : calls + 1 < 2 ^ 64 - 1)
    (points : List (Point F)) : (mesh.setPoints points).1.Kept (calls + 1) := by
  unfold Mesh.setPoints
  have hversion := h.version
  split
  · exact ⟨h.range, Nat.le_succ_of_le h.points, h.version, h.tree, h.current⟩
  · obtain ⟨hbump, hstale⟩ := h.stale hcalls
    rw [hbump]
    exact ⟨⟨h.range.faces, h.range.corners, h.range.small⟩, Nat.succ_le_succ h.points,
      hversion.imp_right Nat.le_succ_of_le, h.tree, fun hcurrent => absurd hcurrent hstale⟩

omit [LinearOrder R] in
theorem Mesh.Kept.setTransform {calls : Nat} (h : mesh.Kept calls) (localToWorld : M) :
    (mesh.setTransform ops localToWorld).Kept calls :=
  ⟨⟨h.range.faces, h.range.corners, h.range.small⟩, h.points, h.version, h.tree, h.current⟩

/-- **`Prepare` ends, and leaves the acceleration current.** -/
theorem Mesh.Kept.prepare {calls : Nat} (h : mesh.Kept calls) (ops : Arithmetic F R M)
    (part : StdPartition) :
    ∃ bvh, mesh.prepare ops part = some bvh ∧ bvh.version = mesh.pointsVersion ∧
      Mesh.Kept { mesh with bvh := bvh } calls := by
  have hrange : ∀ bvh : Bvh F R, Mesh.InRange { mesh with bvh := bvh } :=
    fun _ => ⟨h.range.faces, h.range.corners, h.range.small⟩
  unfold Mesh.prepare
  dsimp only
  split
  · rename_i hsame
    exact ⟨mesh.bvh, rfl, hsame, h⟩
  · split
    · rename_i hnone
      refine ⟨_, rfl, rfl, hrange _, h.points, Or.inr le_rfl, fun hbuilt => absurd hbuilt Bool.false_ne_true,
        fun _ hpoints => ?_⟩
      exact Bool.noConfusion (hpoints.symm.trans hnone)
    · rename_i hsome
      have hpoints : mesh.hasPoints = true := by
        cases heq : mesh.hasPoints with
        | true => rfl
        | false => exact absurd heq hsome
      have hcurrent : ∀ current : Option (Bvh F R), (∃ bvh, current = some bvh ∧
          bvh.built = true ∧ bvh.version = mesh.bvh.version ∧
          RunsOver Node.shape mesh.Boxes leafSize mesh.tris.length bvh.nodes bvh.order) →
          ∃ bvh, current.map (fun bvh => { bvh with version := mesh.pointsVersion }) = some bvh ∧
            bvh.version = mesh.pointsVersion ∧ Mesh.Kept { mesh with bvh := bvh } calls := by
        rintro current ⟨bvh, rfl, hbuilt, -, htree⟩
        refine ⟨_, rfl, rfl, hrange _, h.points, Or.inr le_rfl, fun _ => ?_,
          fun _ _ => ⟨hbuilt, htree⟩⟩
        exact htree.rebox rfl fun _ _ _ _ _ _ _ _ => trivial
      refine hcurrent _ ?_
      split
      · exact h.range.build hpoints ops part
      · rename_i hkeep
        have hbuilt : mesh.bvh.built = true := by
          cases heq : mesh.bvh.built with
          | true => rfl
          | false => exact absurd (Or.inl heq) hkeep
        exact h.range.refit hpoints (h.tree hbuilt) hbuilt part

end

end RigExec.Touch
