/-
# `RigExec.Accel.BvhBuild` — what `BuildBvh` leaves

Every turn of the loop keeps the tables a tree over the runs of the order (`Building`):

    tables    the tables of a build that splits the leaf it takes off the stack (`Lib.RunBuild`)
    halves    an interior node's first child has the lower half of its run
-/
import RigExec.Accel.Bvh
import RigExec.Lib.RunBuild

namespace RigExec.Accel

open Lib (HasRun Tiles Halves runItems reorder splice splitLeaf)

theorem u32_of_lt {x : Nat} (h : x < 2 ^ 32) : u32 x = x := Nat.mod_eq_of_lt h

/-! ## Boxes -/

section

variable {F : Type} [LinearOrder F] [BoundedOrder F] (ops : FloatOps F) (bounds : Nat → F)

/-- The box holds the bounds of an item. -/
def BvhNode.Contains (node : BvhNode F) (t : Nat) : Prop :=
  ∀ k, node.lo k ≤ boundsLo bounds t k ∧ boundsHi bounds t k ≤ node.hi k

omit [BoundedOrder F] in
theorem stdMin_le (a b : F) : stdMin a (some b) ≤ a ∧ stdMin a (some b) ≤ b := by
  unfold stdMin
  dsimp only
  split
  · rename_i h
    exact ⟨h.le, le_rfl⟩
  · rename_i h
    exact ⟨le_rfl, not_lt.mp h⟩

omit [BoundedOrder F] in
theorem le_stdMax (a b : F) : a ≤ stdMax a (some b) ∧ b ≤ stdMax a (some b) := by
  unfold stdMax
  dsimp only
  split
  · rename_i h
    exact ⟨h.le, le_rfl⟩
  · rename_i h
    exact ⟨le_rfl, not_lt.mp h⟩

omit [BoundedOrder F] in
theorem foldl_grow (run : List Nat) (extent : Extent F) (k : Fin 3) :
    ((run.foldl (Extent.grow ops bounds) extent).lo k ≤ extent.lo k ∧
      extent.hi k ≤ (run.foldl (Extent.grow ops bounds) extent).hi k) ∧
    ∀ t ∈ run, (run.foldl (Extent.grow ops bounds) extent).lo k ≤ boundsLo bounds t k ∧
      boundsHi bounds t k ≤ (run.foldl (Extent.grow ops bounds) extent).hi k := by
  induction run generalizing extent with
  | nil => exact ⟨⟨le_rfl, le_rfl⟩, fun t ht => nomatch ht⟩
  | cons t run ih =>
      obtain ⟨⟨hlo, hhi⟩, hrun⟩ := ih (extent.grow ops bounds t)
      have hmin := stdMin_le (extent.lo k) (boundsLo bounds t k)
      have hmax := le_stdMax (extent.hi k) (boundsHi bounds t k)
      refine ⟨⟨hlo.trans hmin.1, hmax.1.trans hhi⟩, fun u hu => ?_⟩
      rcases List.mem_cons.mp hu with rfl | hu
      · exact ⟨hlo.trans hmin.2, hmax.2.trans hhi⟩
      · exact hrun u hu

theorem extentOf_contains (run : List Nat) {t : Nat} (ht : t ∈ run) (k : Fin 3) :
    (extentOf ops bounds run).lo k ≤ boundsLo bounds t k ∧
      boundsHi bounds t k ≤ (extentOf ops bounds run).hi k :=
  (foldl_grow ops bounds run _ k).2 t ht

end

/-! ## Shapes -/

section

variable {F : Type}

/-- The tree of a node table. -/
def shapeOf (nodes : List (BvhNode F)) : List Lib.RunNode := nodes.map BvhNode.shape

theorem getElem?_shapeOf {nodes : List (BvhNode F)} {i : Nat} {node : BvhNode F}
    (h : nodes[i]? = some node) : (shapeOf nodes)[i]? = some ⟨node.child, node.count⟩ := by
  rw [shapeOf, List.getElem?_map, h]
  rfl

theorem getElem?_of_shapeOf {nodes : List (BvhNode F)} {i : Nat} {shape : Lib.RunNode}
    (h : (shapeOf nodes)[i]? = some shape) :
    ∃ node, nodes[i]? = some node ∧ node.child = shape.child ∧ node.count = shape.count := by
  rw [shapeOf, List.getElem?_map, Option.map_eq_some_iff] at h
  obtain ⟨node, hnode, rfl⟩ := h
  exact ⟨node, hnode, rfl, rfl⟩

@[simp] theorem length_shapeOf (nodes : List (BvhNode F)) :
    (shapeOf nodes).length = nodes.length :=
  List.length_map ..

end

/-! ## One turn -/

section

variable {F : Type} [LinearOrder F] [BoundedOrder F] {ops : FloatOps F} {nth : NthElement}
  {bounds : Nat → F}

/-- **What one turn does**: it sets the box of the node it takes off the stack, and if the node has
more than four items, reorders them and splits it in the middle. -/
theorem buildStep_cases {s s' : BuildState F} {n index : Nat} {stack : List Nat}
    {node : BvhNode F} (h : buildStep ops nth bounds s = some s')
    (hstack : s.stack = index :: stack)
    (hnode : s.nodes[index]? = some node) (hrun : node.child + node.count ≤ n) (hn : n < 2 ^ 29)
    (hsmall : s.nodes.length < 2 ^ 31) :
    ∃ box : BvhNode F, box.shape = node.shape ∧
      (∀ t ∈ runItems s.order node.child node.count, box.Contains bounds t) ∧
      (node.count ≤ leafSize ∧ s' = ⟨s.nodes.set index box, s.order, stack⟩ ∨
        leafSize < node.count ∧ ∃ run left right,
          run.Perm (runItems s.order node.child node.count) ∧
          left.shape = ⟨node.child, node.count / 2⟩ ∧
          right.shape = ⟨node.child + node.count / 2, node.count - node.count / 2⟩ ∧
          s' = ⟨splice s.nodes index { box with child := s.nodes.length, count := 0 } left right,
            reorder s.order node.child node.count run,
            (s.nodes.length + 1) :: s.nodes.length :: stack⟩) := by
  have hat : nodeAt s.nodes index = node := by
    rw [nodeAt, hnode]
    rfl
  refine ⟨boxed ops bounds s index, by rw [boxed, hat]; rfl, ?_, ?_⟩
  · intro t ht k
    rw [boxed, hat]
    exact extentOf_contains ops bounds _ ht k
  · have hbox : (boxed ops bounds s index).child = node.child ∧
        (boxed ops bounds s index).count = node.count := by
      rw [boxed, hat]
      exact ⟨rfl, rfl⟩
    unfold buildStep at h
    rw [hstack] at h
    dsimp only at h
    rw [hbox.1, hbox.2] at h
    split at h
    · rename_i hleaf
      exact Or.inl ⟨hleaf, (Option.some.inj h).symm⟩
    · rename_i hlarge
      refine Or.inr ⟨Nat.lt_of_not_le hlarge, ?_⟩
      have hmid : u32 (node.child + node.count / 2) = node.child + node.count / 2 :=
        u32_of_lt (by omega)
      have hstop : u32 (node.child + node.count) = node.child + node.count :=
        u32_of_lt (by omega)
      have hleft : u32 s.nodes.length = s.nodes.length := u32_of_lt (by omega)
      have hright : u32 (s.nodes.length + 1) = s.nodes.length + 1 := u32_of_lt (by omega)
      rw [List.length_set, hmid, hstop, hleft, hright, splice, List.set_set] at h
      refine ⟨_, _, _, nth.perm _ _ _, ?_, ?_, (Option.some.inj h).symm⟩
      · exact congrArg (Lib.RunNode.mk _) (Nat.add_sub_cancel_left ..)
      · exact congrArg (Lib.RunNode.mk _) (by dsimp only; omega)

end

/-! ## The loop -/

/-- What every turn keeps. -/
structure Building {F : Type} [LinearOrder F] [BoundedOrder F] (bounds : Nat → F) (n weight : Nat)
    (s : BuildState F) : Prop where
  tables : Lib.Building BvhNode.shape (BvhNode.Contains bounds) leafSize n weight s.nodes s.order
    s.stack
  halves : Halves (shapeOf s.nodes) leafSize

section

variable {F : Type} [LinearOrder F] [BoundedOrder F] {ops : FloatOps F} {nth : NthElement}
  {bounds : Nat → F} {n weight : Nat} {s : BuildState F}

/-- **One turn keeps everything.** -/
theorem Building.step (hn : n < 2 ^ 29) (h : Building bounds n weight s) {s' : BuildState F}
    (hstep : buildStep ops nth bounds s = some s') :
    ∃ lighter < weight, Building bounds n lighter s' := by
  cases hstack : s.stack with
  | nil =>
      rw [buildStep, hstack] at hstep
      cases hstep
  | cons index stack =>
      have htables := h.tables
      rw [hstack] at htables
      obtain ⟨node, hnode, hpos⟩ := htables.pending index List.mem_cons_self
      have hindex := getElem?_shapeOf hnode
      have hrun := htables.tiles.run_le (HasRun.leaf hindex hpos)
      have hsmall := htables.small
      obtain ⟨box, hshape, hbox, ⟨hleaf, rfl⟩ | ⟨hlarge, run, left, right, hperm, hleft, hright, rfl⟩⟩
        := buildStep_cases hstep hstack hnode hrun hn (by omega)
      · obtain ⟨lighter, hlt, hkept⟩ := htables.keepLeaf hnode hpos hshape hbox hleaf
        have hshapes : shapeOf (s.nodes.set index box) = shapeOf s.nodes :=
          Lib.map_set_shape hnode hshape
        exact ⟨lighter, hlt, hkept, hshapes ▸ h.halves⟩
      · have hfour : leafSize = 4 := rfl
        have hhalf : 0 < node.count / 2 := by omega
        have hless : node.count / 2 < node.count := by omega
        have hinner : BvhNode.shape { box with child := s.nodes.length, count := 0 } =
            ⟨s.nodes.length, 0⟩ := rfl
        obtain ⟨lighter, hlt, hsplit⟩ := htables.split hnode hinner hbox hperm hhalf hless hleft
          hright (Or.inr rfl)
        have hshapes : shapeOf (splice s.nodes index
            { box with child := s.nodes.length, count := 0 } left right) =
            splitLeaf (shapeOf s.nodes) index node.child node.count (node.count / 2) :=
          Lib.map_splice_shape hinner hleft hright
        exact ⟨lighter, hlt, hsplit, hshapes ▸ h.halves.splitLeaf htables.tiles hindex hlarge hhalf⟩

end

/-! ## The finished tables -/

/-- Tables over `n` items with their bounds. -/
structure SegmentBvh.Valid {F : Type} [LinearOrder F] [BoundedOrder F] (bvh : SegmentBvh F)
    (bounds : Nat → F) (n : Nat) : Prop where
  order : bvh.order.Perm (List.range n)
  tiles : Tiles (shapeOf bvh.nodes) n
  box : ∀ i node first count, bvh.nodes[i]? = some node →
    HasRun (shapeOf bvh.nodes) i first count →
    ∀ t ∈ runItems bvh.order first count, node.Contains bounds t
  leaf : ∀ node ∈ bvh.nodes, node.count ≤ leafSize
  halves : Halves (shapeOf bvh.nodes) leafSize

section

variable {F : Type} [LinearOrder F] [BoundedOrder F] {ops : FloatOps F} {nth : NthElement}
  {bounds : Nat → F} {n : Nat}

theorem valid_empty : SegmentBvh.Valid (⟨[], []⟩ : SegmentBvh F) bounds 0 where
  order := List.Perm.refl _
  tiles := ⟨fun h => absurd h (lt_irrefl 0), fun i hi => absurd hi (Nat.not_lt_zero i),
    fun p hp => absurd hp (Nat.not_lt_zero p)⟩
  box _ _ _ _ h := nomatch h
  leaf _ h := nomatch h
  halves _ _ _ _ h := nomatch h

theorem building_start (hn : 0 < n) :
    Building bounds n (2 * n - 1) ⟨[⟨fun _ => ⊤, fun _ => ⊥, 0, n⟩], List.range n, [0]⟩ where
  tables := Lib.building_start rfl hn
  halves i node first count hnode hzero _ := by
    have hlt := (List.getElem?_eq_some_iff.mp hnode).1
    cases Nat.lt_one_iff.mp hlt
    cases hnode
    exact absurd hzero (Nat.pos_iff_ne_zero.mp hn)

/-- **`BuildBvh` ends, in valid tables.** -/
theorem buildBvh_valid (ops : FloatOps F) (nth : NthElement) (bounds : Nat → F)
    (hn : n < 2 ^ 29) :
    ∃ s, buildBvh ops nth bounds n = some s ∧
      SegmentBvh.Valid ⟨s.nodes, s.order⟩ bounds n := by
  have horder : (List.range n).map u32 = List.range n := by
    refine (List.map_congr_left fun t ht => ?_).trans (List.map_id _)
    exact u32_of_lt (by have := List.mem_range.mp ht; omega)
  unfold buildBvh
  dsimp only
  rw [horder, u32_of_lt (show n < 2 ^ 32 by omega)]
  split
  · rename_i hzero
    subst hzero
    exact ⟨_, rfl, valid_empty⟩
  · rename_i hpos
    have hstep : ∀ weight s s', Building bounds n weight s →
        buildStep ops nth bounds s = some s' → ∃ lighter < weight, Building bounds n lighter s' :=
      fun _ _ _ h hstep => h.step hn hstep
    obtain ⟨s, weight, hloop, hend, hbuilt⟩ := Lib.loop_total hstep
      (building_start (Nat.pos_of_ne_zero hpos)) (show 2 * n - 1 ≤ 2 * n by omega)
    have hstack : s.stack = [] := by
      cases hstack : s.stack with
      | nil => rfl
      | cons index stack =>
          unfold buildStep at hend
          rw [hstack] at hend
          dsimp only at hend
          split at hend <;> cases hend
    have htables := hbuilt.tables
    rw [hstack] at htables
    have hdone := htables.finish
    exact ⟨s, hloop, hdone.perm, hdone.tiles, hdone.box, hdone.leaf, hbuilt.halves⟩

end

end RigExec.Accel
