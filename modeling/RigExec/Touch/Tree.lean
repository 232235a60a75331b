/-
# `RigExec.Touch.Tree` — what a build and a refit leave

Both leave a tree over the runs of a permutation of the triangles whose boxes hold the bounds
of the triangles of their runs (`Lib.RunsOver`).

    build    a turn splits the leaf it takes off the stack: its cut lies strictly inside the
             run, wherever the bins put it
    refit    children are stored after their parent, so when the sweep comes to a node, from
             the last one down, the boxes after it are already right
-/
import RigExec.Touch.Build

namespace RigExec.Touch

open scoped RigExec.Accel
open RigExec.Accel (u32 u32_of_lt stdMin stdMax stdMin_le le_stdMax floatLt Point)
open Lib (HasRun RunsOver Building runItems reorder splice)

theorem exists_mapM {A B : Type} {f : A → Option B} {l : List A}
    (h : ∀ a ∈ l, ∃ b, f a = some b) :
    ∃ bs : List B, l.mapM f = some bs ∧ ∀ (i : Nat) a, l[i]? = some a → bs[i]? = f a := by
  induction l with
  | nil => exact ⟨[], rfl, fun i a ha => nomatch ha⟩
  | cons a l ih =>
      obtain ⟨b, hb⟩ := h a List.mem_cons_self
      obtain ⟨bs, hbs, hget⟩ := ih fun a ha => h a (List.mem_cons_of_mem _ ha)
      refine ⟨b :: bs, ?_, fun i a' ha => ?_⟩
      · rw [List.mapM_cons, hb, hbs]
        rfl
      · cases i with
        | zero =>
            cases ha
            exact hb.symm
        | succ i => exact hget i a' ha

section

variable {F R M : Type}

/-! ## Corners -/

/-- The arrays of a topology fit together, and the triangles' bounds are below 2 ^ 32. -/
structure Mesh.InRange (mesh : Mesh F R M) : Prop where
  faces : mesh.triFace.length = mesh.tris.length
  corners : ∀ tri ∈ mesh.tris,
    tri.1 < mesh.pointCount ∧ tri.2.1 < mesh.pointCount ∧ tri.2.2 < mesh.pointCount
  small : 6 * mesh.tris.length ≤ 2 ^ 32

variable {mesh : Mesh F R M}

theorem length_points (h : mesh.hasPoints = true) : mesh.points.length = mesh.pointCount := by
  rw [Mesh.hasPoints, Bool.and_eq_true] at h
  exact beq_iff_eq.mp h.1

theorem Mesh.InRange.exists_corners (h : mesh.InRange) (hpoints : mesh.hasPoints = true) {t : Nat}
    (ht : t < mesh.tris.length) : ∃ corners, mesh.corners t = some corners := by
  obtain ⟨⟨i, j, k⟩, htri⟩ : ∃ tri, mesh.tris[t]? = some tri := ⟨_, List.getElem?_eq_getElem ht⟩
  obtain ⟨hi, hj, hk⟩ := h.corners _ (List.mem_of_getElem? htri)
  rw [← length_points hpoints] at hi hj hk
  refine ⟨(mesh.points[i], mesh.points[j], mesh.points[k]), ?_⟩
  rw [Mesh.corners, htri]
  show (do
    let a ← mesh.points[i]?
    let b ← mesh.points[j]?
    let c ← mesh.points[k]?
    return (a, b, c)) = _
  rw [List.getElem?_eq_getElem hi, List.getElem?_eq_getElem hj, List.getElem?_eq_getElem hk]
  rfl

/-! ## Bounds -/

variable [LinearOrder F]

/-- The bounds are those of the mesh's triangles. -/
structure Mesh.HasBounds (mesh : Mesh F R M) (bounds : List (TriBounds F)) : Prop where
  small : 6 * mesh.tris.length ≤ 2 ^ 32
  get : ∀ t < mesh.tris.length, ∃ corners, mesh.corners t = some corners ∧
    bounds[t]? = some (boundsOf corners)

theorem Mesh.InRange.hasBounds (h : mesh.InRange) (hpoints : mesh.hasPoints = true) :
    ∃ bounds, mesh.computeTriangleBounds = some bounds ∧ mesh.HasBounds bounds := by
  have hread : ∀ t ∈ List.range mesh.triFace.length,
      ∃ b, (mesh.corners t).map boundsOf = some b := by
    intro t ht
    rw [List.mem_range, h.faces] at ht
    obtain ⟨corners, hcorners⟩ := h.exists_corners hpoints ht
    exact ⟨boundsOf corners, by rw [hcorners]; rfl⟩
  obtain ⟨bounds, hbounds, hget⟩ := exists_mapM hread
  refine ⟨bounds, hbounds, h.small, fun t ht => ?_⟩
  obtain ⟨corners, hcorners⟩ := h.exists_corners hpoints ht
  refine ⟨corners, hcorners, ?_⟩
  rw [hget t t (List.getElem?_range (by rw [h.faces]; exact ht)), hcorners]
  rfl

/-- The box holds the numbers among some bounds. -/
def Box.Holds (box : Box F) (b : TriBounds F) : Prop :=
  ∀ k, (∀ x, b.lo k = some x → box.lo k ≤ x) ∧ ∀ x, b.hi k = some x → x ≤ box.hi k

/-- The box of a node holds the bounds of a triangle. -/
def Mesh.Boxes (mesh : Mesh F R M) (node : Node F) (t : Nat) : Prop :=
  ∀ corners, mesh.corners t = some corners → node.box.Holds (boundsOf corners)

omit [LinearOrder F] in
theorem boundsFrom_eq {bounds : List (TriBounds F)} {t : Nat} {b : TriBounds F}
    (hb : bounds[t]? = some b) (ht : 6 * t + 6 ≤ 2 ^ 32) :
    boundsFrom bounds (u32 (6 * t)) = b.lo ∧ boundsFrom bounds (u32 (6 * t + 3)) = b.hi ∧
      boundsFrom bounds (u32 (6 * t) + 3) = b.hi := by
  have haxis : ∀ (k : Fin 3) i, i % 3 = k.val → Fin.ofNat 3 i = k := by
    intro k i hi
    exact Fin.ext hi
  have hlo : ∀ k : Fin 3, boundsAt bounds (6 * t + k) = b.lo k := by
    intro k
    have hk := k.isLt
    rw [boundsAt, show (6 * t + k.val) / 6 = t by omega, hb, Option.elim_some,
      if_pos (by omega), haxis k _ (by omega)]
  have hhi : ∀ k : Fin 3, boundsAt bounds (6 * t + 3 + k) = b.hi k := by
    intro k
    have hk := k.isLt
    rw [boundsAt, show (6 * t + 3 + k.val) / 6 = t by omega, hb, Option.elim_some,
      if_neg (by omega), haxis k _ (by omega)]
  rw [u32_of_lt (show 6 * t < 2 ^ 32 by omega), u32_of_lt (show 6 * t + 3 < 2 ^ 32 by omega)]
  exact ⟨funext hlo, funext hhi, funext hhi⟩

theorem stdMin_le_left (a : F) (b : Option F) : stdMin a b ≤ a := by
  cases b with
  | none => exact le_rfl
  | some b => exact (stdMin_le a b).1

theorem le_stdMax_left (a : F) (b : Option F) : a ≤ stdMax a b := by
  cases b with
  | none => exact le_rfl
  | some b => exact (le_stdMax a b).1

theorem foldl_grow (lo hi : Nat → Fin 3 → Option F) (run : List Nat) (box : Box F) (k : Fin 3) :
    ((run.foldl (fun box t => box.grow (lo t) (hi t)) box).lo k ≤ box.lo k ∧
      box.hi k ≤ (run.foldl (fun box t => box.grow (lo t) (hi t)) box).hi k) ∧
    ∀ t ∈ run,
      (∀ x, lo t k = some x →
        (run.foldl (fun box t => box.grow (lo t) (hi t)) box).lo k ≤ x) ∧
      ∀ x, hi t k = some x →
        x ≤ (run.foldl (fun box t => box.grow (lo t) (hi t)) box).hi k := by
  induction run generalizing box with
  | nil => exact ⟨⟨le_rfl, le_rfl⟩, fun t ht => nomatch ht⟩
  | cons t run ih =>
      obtain ⟨⟨hlo, hhi⟩, hrun⟩ := ih (box.grow (lo t) (hi t))
      refine ⟨⟨hlo.trans (stdMin_le_left ..), (le_stdMax_left ..).trans hhi⟩, fun u hu => ?_⟩
      rcases List.mem_cons.mp hu with rfl | hu
      · refine ⟨fun x hx => hlo.trans ?_, fun x hx => le_trans ?_ hhi⟩
        · show stdMin (box.lo k) (lo u k) ≤ x
          rw [hx]
          exact (stdMin_le _ _).2
        · show x ≤ stdMax (box.hi k) (hi u k)
          rw [hx]
          exact (le_stdMax _ _).2
      · exact hrun u hu

theorem Mesh.HasBounds.boxes {bounds : List (TriBounds F)} (h : mesh.HasBounds bounds)
    {hiFrom : Nat → Nat} (hfrom : ∀ t, hiFrom t = u32 (6 * t + 3) ∨ hiFrom t = u32 (6 * t) + 3)
    {run : List Nat} (hrun : ∀ t ∈ run, t < mesh.tris.length) {node : Node F} {box : Box F}
    (hnode : node.box = run.foldl (fun box t => box.grow (boundsFrom bounds (u32 (6 * t)))
      (boundsFrom bounds (hiFrom t))) box) {t : Nat} (ht : t ∈ run) : mesh.Boxes node t := by
  intro corners hcorners k
  have hlt := hrun t ht
  have hsmall := h.small
  obtain ⟨corners', hcorners', hget⟩ := h.get t hlt
  cases hcorners.symm.trans hcorners'
  obtain ⟨hlo, hhi₁, hhi₂⟩ := boundsFrom_eq hget (by omega)
  have hhi : boundsFrom bounds (hiFrom t) = (boundsOf corners).hi := by
    rcases hfrom t with heq | heq
    · rw [heq, hhi₁]
    · rw [heq, hhi₂]
  obtain ⟨hboxLo, hboxHi⟩ := (foldl_grow (fun t => boundsFrom bounds (u32 (6 * t)))
    (fun t => boundsFrom bounds (hiFrom t)) run box k).2 t ht
  rw [hnode]
  exact ⟨fun x hx => hboxLo x (by rw [hlo]; exact hx), fun x hx => hboxHi x (by rw [hhi]; exact hx)⟩

/-! ## One turn of the build -/

variable [LinearOrder R] {ops : Arithmetic F R M} {part : StdPartition}
  {bounds : List (TriBounds F)}

/-- **A split keeps the triangles of the run, and both sides get some.** -/
theorem splitRun_cut {count : Nat} {run : List Nat} (hlength : run.length = count)
    (hlarge : leafSize < count) :
    (splitRun ops part bounds count run).1.Perm run ∧
      0 < (splitRun ops part bounds count run).2 ∧
      (splitRun ops part bounds count run).2 < count := by
  have hfour : leafSize = 4 := rfl
  have hcut : ∀ cut : List Nat × Nat, cut.1.Perm run → cut.2 ≤ count →
      (if cut.2 = 0 ∨ cut.2 = count then (cut.1, count / 2) else cut).1.Perm run ∧
      0 < (if cut.2 = 0 ∨ cut.2 = count then (cut.1, count / 2) else cut).2 ∧
      (if cut.2 = 0 ∨ cut.2 = count then (cut.1, count / 2) else cut).2 < count := by
    intro cut hperm hle
    split
    · exact ⟨hperm, by dsimp only; omega, by dsimp only; omega⟩
    · exact ⟨hperm, by omega, by omega⟩
  unfold splitRun
  refine hcut _ ?_ ?_
  · split
    · split
      · exact part.perm _ _
      · exact List.Perm.refl _
    · exact List.Perm.refl _
  · split
    · split
      · exact hlength ▸ List.countP_le_length
      · exact Nat.div_le_self ..
    · exact Nat.div_le_self ..

/-- **What one turn does**: it sets the box of the node it takes off the stack, and if the node has
more than four triangles, reorders them and splits it. -/
theorem buildStep_cases {s s' : BuildState F} {index : Nat} {stack : List Nat} {node : Node F}
    (h : buildStep ops part bounds s = some s') (hstack : s.stack = index :: stack)
    (hnode : s.nodes[index]? = some node) (hrun : node.first + node.count ≤ s.order.length)
    (horder : s.order.length < 2 ^ 32) (hnodes : s.nodes.length + 1 < 2 ^ 32) :
    ∃ box : Node F, box.shape = node.shape ∧
      box.box = boxOf ops bounds (runItems s.order node.first node.count) ∧
      (node.count ≤ leafSize ∧ s' = ⟨s.nodes.set index box, s.order, stack⟩ ∨
        leafSize < node.count ∧ ∃ run cut left right,
          run.Perm (runItems s.order node.first node.count) ∧ 0 < cut ∧ cut < node.count ∧
          left.shape = ⟨node.first, cut⟩ ∧
          right.shape = ⟨node.first + cut, node.count - cut⟩ ∧
          s' = ⟨splice s.nodes index { box with first := s.nodes.length, count := 0 } left right,
            reorder s.order node.first node.count run,
            s.nodes.length :: (s.nodes.length + 1) :: stack⟩) := by
  have hat : nodeAt ops s.nodes index = node := by
    rw [nodeAt, hnode]
    rfl
  have hlength : (runItems s.order node.first node.count).length = node.count := by
    rw [runItems, List.length_take, List.length_drop]
    omega
  unfold buildStep at h
  rw [hstack] at h
  dsimp only at h
  rw [hat] at h
  let box := boxOf ops bounds (runItems s.order node.first node.count)
  refine ⟨⟨box.lo, box.hi, node.first, node.count⟩, rfl, rfl, ?_⟩
  split at h
  · rename_i hleaf
    exact Or.inl ⟨hleaf, (Option.some.inj h).symm⟩
  · rename_i hlarge
    have hlarge := Nat.lt_of_not_le hlarge
    obtain ⟨hperm, hpos, hless⟩ := @splitRun_cut _ _ _ _ _ ops part bounds _ _ hlength hlarge
    have hmid : u32 (node.first + (splitRun ops part bounds node.count
        (runItems s.order node.first node.count)).2) = node.first + (splitRun ops part bounds
        node.count (runItems s.order node.first node.count)).2 := u32_of_lt (by omega)
    have hstop : u32 (node.first + node.count) = node.first + node.count := u32_of_lt (by omega)
    have hleft : u32 s.nodes.length = s.nodes.length := u32_of_lt (by omega)
    have hright : u32 (s.nodes.length + 1) = s.nodes.length + 1 := u32_of_lt hnodes
    rw [hmid, hstop, hleft, hright] at h
    refine Or.inr ⟨hlarge, _, _, _, _, hperm, hpos, hless, ?_, ?_, (Option.some.inj h).symm⟩
    · exact congrArg (Lib.RunNode.mk _) (Nat.add_sub_cancel_left ..)
    · exact congrArg (Lib.RunNode.mk _) (Nat.add_sub_add_left ..)

/-! ## The build -/

/-- What every turn of the build keeps. -/
def BuildState.Kept (mesh : Mesh F R M) (weight : Nat) (s : BuildState F) : Prop :=
  Building Node.shape mesh.Boxes leafSize mesh.tris.length weight s.nodes s.order s.stack

theorem BuildState.Kept.step (hbounds : mesh.HasBounds bounds) {weight : Nat} {s s' : BuildState F}
    (h : s.Kept mesh weight) (hstep : buildStep ops part bounds s = some s') :
    ∃ lighter < weight, s'.Kept mesh lighter := by
  cases hstack : s.stack with
  | nil =>
      rw [buildStep, hstack] at hstep
      cases hstep
  | cons index stack =>
      unfold BuildState.Kept at h
      rw [hstack] at h
      obtain ⟨node, hnode, hpos⟩ := h.pending index List.mem_cons_self
      have hindex : (s.nodes.map Node.shape)[index]? = some node.shape :=
        Lib.getElem?_map_shape hnode
      have hrun := h.tiles.run_le (HasRun.leaf hindex hpos)
      have hsmall := hbounds.small
      have hnodes := h.small
      have horder := h.length_order
      obtain ⟨lighter, hlighter, -⟩ := h.weighs.tail
      have hitems : ∀ t ∈ runItems s.order node.first node.count, t < mesh.tris.length := by
        intro t ht
        have hin : t ∈ s.order := List.mem_of_mem_drop (List.mem_of_mem_take ht)
        exact List.mem_range.mp (h.perm.mem_iff.mp hin)
      obtain ⟨box, hshape, hbox, hturn⟩ := buildStep_cases hstep hstack hnode
        (by rw [horder]; exact hrun) (by omega) (by omega)
      have hgood : ∀ t ∈ runItems s.order node.first node.count, mesh.Boxes box t :=
        fun t ht => hbounds.boxes (fun _ => Or.inl rfl) hitems hbox ht
      rcases hturn with ⟨hleaf, rfl⟩ | ⟨-, run, cut, left, right, hperm, hcut, hless, hleft, hright,
        rfl⟩
      · exact h.keepLeaf hnode hpos hshape hgood hleaf
      · have hinner : Node.shape { box with first := s.nodes.length, count := 0 } =
            ⟨s.nodes.length, 0⟩ := rfl
        exact h.split hnode hinner hgood hperm hcut hless hleft hright (Or.inl rfl)

/-- **A build ends, in a tree over the triangles.** -/
theorem Mesh.InRange.build (h : mesh.InRange) (hpoints : mesh.hasPoints = true)
    (ops : Arithmetic F R M) (part : StdPartition) :
    ∃ bvh, mesh.build ops part = some bvh ∧ bvh.built = true ∧ bvh.version = mesh.bvh.version ∧
      RunsOver Node.shape mesh.Boxes leafSize mesh.tris.length bvh.nodes bvh.order := by
  have hsmall := h.small
  have horder : (List.range mesh.triFace.length).map u32 = List.range mesh.tris.length := by
    rw [h.faces]
    refine (List.map_congr_left fun t ht => ?_).trans (List.map_id _)
    have := List.mem_range.mp ht
    exact u32_of_lt (by omega)
  unfold Mesh.build
  dsimp only
  rw [horder, h.faces]
  split
  · rename_i hzero
    refine ⟨_, rfl, rfl, rfl, ?_⟩
    rw [hzero]
    exact Lib.runsOver_empty
  · rename_i hpos
    obtain ⟨bounds, hcompute, hbounds⟩ := h.hasBounds hpoints
    have hcount : u32 mesh.tris.length = mesh.tris.length := u32_of_lt (by omega)
    have hstart : BuildState.Kept mesh (2 * mesh.tris.length - 1)
        ⟨[newNode ops 0 mesh.tris.length], List.range mesh.tris.length, [0]⟩ :=
      Lib.building_start rfl (Nat.pos_of_ne_zero hpos)
    have hstep : ∀ weight s s', BuildState.Kept mesh weight s →
        buildStep ops part bounds s = some s' → ∃ lighter < weight, s'.Kept mesh lighter :=
      fun _ _ _ hkept hstep => hkept.step hbounds hstep
    obtain ⟨s, weight, hloop, hend, hkept⟩ := Lib.loop_total hstep hstart
      (show 2 * mesh.tris.length - 1 ≤ 2 * mesh.tris.length by omega)
    have hstack : s.stack = [] := by
      cases hstack : s.stack with
      | nil => rfl
      | cons index stack =>
          unfold buildStep at hend
          rw [hstack] at hend
          dsimp only at hend
          split at hend <;> cases hend
    rw [hcompute, hcount]
    show ∃ bvh, (Lib.loop (buildStep ops part bounds) (2 * mesh.tris.length)
      ⟨[newNode ops 0 mesh.tris.length], List.range mesh.tris.length, [0]⟩ >>= _) = some bvh ∧ _
    rw [hloop]
    refine ⟨_, rfl, rfl, rfl, ?_⟩
    unfold BuildState.Kept at hkept
    rw [hstack] at hkept
    exact hkept.finish

end

end RigExec.Touch
