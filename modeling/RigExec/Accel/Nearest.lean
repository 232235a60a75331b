/-
# `RigExec.Accel.Nearest` — the nearest-segment query

The walk of `QueryNearest` goes through the tree with a stack.  That it ends and that its
stack stays small depends on the tree alone (`Weighs`, `Fits`): it holds for any prune
decision and any order of the children.  The answer needs the decisions to be right: a
segment nearer than the best one so far then lies in the run of a node on the stack
(`Walking`), so none is left when the stack is empty.
-/
import RigExec.Accel.BvhBuild

namespace RigExec.Accel

open Lib (HasRun Tiles Halves Weighs Fits runItems Reaches)

section

variable {F R : Type} [LinearOrder F] [BoundedOrder F] {D : DoubleOps F R} {bvh : SegmentBvh F}
  {p : Point F} {distance : Nat → Option F} {s s' : QueryState F}

/-! ## One turn -/

/-- **What one turn does**: it takes a node off the stack, and discards it, tries the segments of its
run, or puts its children in its place. -/
theorem queryStep_cases {index : Nat} {stack : List Nat}
    (h : queryStep D bvh p distance s = some s')
    (hstack : s.stack = index :: stack) {node : BvhNode F} (hnode : bvh.nodes[index]? = some node) :
    (s.haveBest = true ∧ discards D p node s.best = true ∧ s' = { s with stack := stack }) ∨
    (0 < node.count ∧ s' = (runItems bvh.order node.child node.count).foldl
      (QueryState.tryOne distance) { s with stack := stack }) ∨
    (node.count = 0 ∧ (s' = { s with stack := (node.child + 1) :: node.child :: stack } ∨
      s' = { s with stack := node.child :: (node.child + 1) :: stack })) := by
  have hat : nodeAt bvh.nodes index = node := by
    rw [nodeAt, hnode]
    rfl
  unfold queryStep at h
  rw [hstack] at h
  dsimp only at h
  rw [hat] at h
  split at h
  · rename_i hdiscard
    rw [Bool.and_eq_true] at hdiscard
    exact Or.inl ⟨hdiscard.1, hdiscard.2, (Option.some.inj h).symm⟩
  · split at h
    · rename_i hpos
      exact Or.inr (Or.inl ⟨hpos, (Option.some.inj h).symm⟩)
    · rename_i hzero
      refine Or.inr (Or.inr ⟨Nat.eq_zero_of_not_pos hzero, ?_⟩)
      split at h
      · exact Or.inl (Option.some.inj h).symm
      · exact Or.inr (Option.some.inj h).symm

theorem queryStep_nil (h : queryStep D bvh p distance s = none) : s.stack = [] := by
  cases hstack : s.stack with
  | nil => rfl
  | cons index stack =>
      unfold queryStep at h
      rw [hstack] at h
      dsimp only at h
      split at h
      · cases h
      · split at h
        · cases h
        · split at h <;> cases h

/-! ## The segments of a leaf -/

omit [BoundedOrder F] in
theorem tryOne_le (s : QueryState F) (t : Nat) : (s.tryOne distance t).best ≤ s.best := by
  unfold QueryState.tryOne
  split
  · split
    · rename_i d _ htake
      rcases htake with hlt | ⟨-, heq, -⟩
      · exact hlt.le
      · exact heq.le
    · exact le_rfl
  · exact le_rfl

omit [BoundedOrder F] in
theorem tryOne_le_distance (s : QueryState F) {t : Nat} {d : F} (ht : distance t = some d) :
    (s.tryOne distance t).best ≤ d := by
  unfold QueryState.tryOne
  rw [ht]
  dsimp only
  split
  · exact le_rfl
  · rename_i hkeep
    exact not_lt.mp fun hlt => hkeep (Or.inl hlt)

omit [BoundedOrder F] in
theorem tryOne_stack (s : QueryState F) (t : Nat) : (s.tryOne distance t).stack = s.stack := by
  unfold QueryState.tryOne
  split
  · split <;> rfl
  · rfl

/-- The best distance is one of a segment, or nothing was found. -/
def QueryState.Found (distance : Nat → Option F) (n : Nat) (s : QueryState F) : Prop :=
  s.haveBest = false ∧ s.best = ⊤ ∨ s.haveBest = true ∧ ∃ t < n, distance t = some s.best

theorem QueryState.Found.tryOne {n : Nat} (h : s.Found distance n) {t : Nat} (ht : t < n) :
    (s.tryOne distance t).Found distance n := by
  unfold QueryState.tryOne
  split
  · rename_i d hd
    split
    · exact Or.inr ⟨rfl, t, ht, hd⟩
    · exact h
  · exact h

omit [BoundedOrder F] in
theorem foldl_tryOne_stack (run : List Nat) (s : QueryState F) :
    (run.foldl (QueryState.tryOne distance) s).stack = s.stack := by
  induction run generalizing s with
  | nil => rfl
  | cons t run ih => exact (ih _).trans (tryOne_stack s t)

theorem foldl_tryOne (distance : Nat → Option F) {n : Nat} (run : List Nat)
    (hrun : ∀ t ∈ run, t < n) (s : QueryState F) :
    (run.foldl (QueryState.tryOne distance) s).best ≤ s.best ∧
      (∀ t ∈ run, ∀ d, distance t = some d →
        (run.foldl (QueryState.tryOne distance) s).best ≤ d) ∧
      (s.Found distance n → (run.foldl (QueryState.tryOne distance) s).Found distance n) := by
  induction run generalizing s with
  | nil => exact ⟨le_rfl, fun t ht => (nomatch ht), id⟩
  | cons t run ih =>
      obtain ⟨hle, hall, hfound⟩ :=
        ih (fun u hu => hrun u (List.mem_cons_of_mem _ hu)) (s.tryOne distance t)
      refine ⟨hle.trans (tryOne_le s t), fun u hu d hd => ?_,
        fun h => hfound (h.tryOne (hrun t List.mem_cons_self))⟩
      rcases List.mem_cons.mp hu with rfl | hu
      · exact hle.trans (tryOne_le_distance s hd)
      · exact hall u hu d hd

/-! ## The stack -/

variable {bounds : Nat → F} {n : Nat}

/-- What holds of the stack whatever is discarded. -/
def StackFits (bvh : SegmentBvh F) (weight : Nat) (s : QueryState F) : Prop :=
  Weighs (shapeOf bvh.nodes) s.stack weight ∧ Fits (shapeOf bvh.nodes) leafSize 27 s.stack

omit [LinearOrder F] [BoundedOrder F] in
theorem StackFits.get {weight index : Nat} {stack : List Nat} (h : StackFits bvh weight s)
    (hstack : s.stack = index :: stack) : ∃ node, bvh.nodes[index]? = some node := by
  have hweighs := h.1
  rw [hstack] at hweighs
  cases hweighs with
  | cons hrun _ =>
      obtain ⟨shape, hshape⟩ := hrun.get
      obtain ⟨node, hnode, -⟩ := getElem?_of_shapeOf hshape
      exact ⟨node, hnode⟩

theorem StackFits.step (hvalid : bvh.Valid bounds n) {weight : Nat} (h : StackFits bvh weight s)
    (hstep : queryStep D bvh p distance s = some s') :
    ∃ lighter < weight, StackFits bvh lighter s' := by
  cases hstack : s.stack with
  | nil =>
      rw [queryStep, hstack] at hstep
      cases hstep
  | cons index stack =>
      obtain ⟨node, hnode⟩ := h.get hstack
      obtain ⟨hweighs, hfits⟩ := h
      rw [hstack] at hweighs hfits
      rcases queryStep_cases hstep hstack hnode with ⟨-, -, rfl⟩ | ⟨hpos, rfl⟩ |
        ⟨hzero, hchildren⟩
      · obtain ⟨lighter, hlt, htail⟩ := hweighs.tail
        exact ⟨lighter, hlt, htail, hfits.tail⟩
      · obtain ⟨lighter, hlt, htail⟩ := hweighs.tail
        refine ⟨lighter, hlt, ?_⟩
        rw [StackFits, foldl_tryOne_stack]
        exact ⟨htail, hfits.tail⟩
      · have hshape := getElem?_shapeOf hnode
        obtain ⟨lighter, hlt, hleft, hright⟩ := hweighs.children hshape hzero
        obtain ⟨hfitLeft, hfitRight⟩ := hfits.children hvalid.halves hshape hzero
        rcases hchildren with rfl | rfl
        · exact ⟨lighter, hlt, hright, hfitRight⟩
        · exact ⟨lighter, hlt, hleft, hfitLeft⟩

theorem StackFits.start (hvalid : bvh.Valid bounds n) (hn : 0 < n) (hbound : n < 2 ^ 29) :
    StackFits bvh (2 * n - 1) queryStart := by
  have hroot := hvalid.tiles.root hn
  have hfour : leafSize = 4 := rfl
  refine ⟨Weighs.root hroot, Fits.cons hroot (Nat.zero_le _) ?_ Fits.nil⟩
  rw [List.length_nil, hfour]
  omega

/-- **The walk never holds more than 64 stack entries.** -/
theorem length_stack_le (hvalid : bvh.Valid bounds n) (hn : 0 < n) (hbound : n < 2 ^ 29)
    (hreaches : Reaches (queryStep D bvh p distance) queryStart s) : s.stack.length ≤ 64 := by
  have hstep : ∀ s s', (∃ weight, StackFits bvh weight s) →
      queryStep D bvh p distance s = some s' → ∃ weight, StackFits bvh weight s' := by
    rintro s s' ⟨weight, h⟩ hstep
    obtain ⟨lighter, -, h'⟩ := h.step hvalid hstep
    exact ⟨lighter, h'⟩
  obtain ⟨weight, -, hfits⟩ :=
    Reaches.invariant hstep ⟨_, StackFits.start hvalid hn hbound⟩ hreaches
  exact hfits.length_le.trans (by omega)

/-! ## The nearest segment -/

/-- A node discarded in the walk holds no segment nearer than the best found by then. -/
def DiscardsSoundly (D : DoubleOps F R) (bvh : SegmentBvh F) (p : Point F)
    (distance : Nat → Option F) : Prop :=
  ∀ s index stack node first count, Reaches (queryStep D bvh p distance) queryStart s →
    s.stack = index :: stack → bvh.nodes[index]? = some node → s.haveBest = true →
    discards D p node s.best = true → HasRun (shapeOf bvh.nodes) index first count →
    ∀ t ∈ runItems bvh.order first count, ∀ d, distance t = some d → s.best ≤ d

/-- A segment nearer than the best lies in the run of a node on the stack. -/
structure Walking (bvh : SegmentBvh F) (distance : Nat → Option F) (n : Nat) (s : QueryState F) :
    Prop where
  found : s.Found distance n
  open_ : ∀ t < n, ∀ d, distance t = some d → d < s.best →
    ∃ i ∈ s.stack, ∃ first count, HasRun (shapeOf bvh.nodes) i first count ∧
      t ∈ runItems bvh.order first count

theorem Walking.start (hvalid : bvh.Valid bounds n) (hn : 0 < n) :
    Walking bvh distance n queryStart where
  found := Or.inl ⟨rfl, rfl⟩
  open_ t ht d _ _ := by
    refine ⟨0, List.mem_singleton_self 0, 0, n, hvalid.tiles.root hn, ?_⟩
    have hlength : bvh.order.length = n := by
      rw [hvalid.order.length_eq, List.length_range]
    rw [← hlength, Lib.runItems_self]
    exact hvalid.order.mem_iff.mpr (List.mem_range.mpr ht)

theorem Walking.step (hvalid : bvh.Valid bounds n) (hsound : DiscardsSoundly D bvh p distance)
    (hreaches : Reaches (queryStep D bvh p distance) queryStart s) {weight : Nat}
    (hstack : StackFits bvh weight s) (h : Walking bvh distance n s)
    (hstep : queryStep D bvh p distance s = some s') : Walking bvh distance n s' := by
  cases htop : s.stack with
  | nil =>
      rw [queryStep, htop] at hstep
      cases hstep
  | cons index stack =>
      obtain ⟨node, hnode⟩ := hstack.get htop
      have hshape := getElem?_shapeOf hnode
      have hopen := h.open_
      rw [htop] at hopen
      rcases queryStep_cases hstep htop hnode with ⟨hhave, hdiscard, rfl⟩ | ⟨hpos, rfl⟩ |
        ⟨hzero, hchildren⟩
      · refine ⟨h.found, fun t ht d hd hlt => ?_⟩
        obtain ⟨i, hi, first, count, hrun, hmem⟩ := hopen t ht d hd hlt
        rcases List.mem_cons.mp hi with rfl | hi
        · exact absurd hlt (not_lt.mpr (hsound s i stack node first count hreaches htop hnode hhave
            hdiscard hrun t hmem d hd))
        · exact ⟨i, hi, first, count, hrun, hmem⟩
      · have hitems : ∀ t ∈ runItems bvh.order node.child node.count, t < n := by
          intro t ht
          have hin : t ∈ bvh.order := List.mem_of_mem_drop (List.mem_of_mem_take ht)
          exact List.mem_range.mp (hvalid.order.mem_iff.mp hin)
        obtain ⟨hle, hall, hfound⟩ := foldl_tryOne distance _ hitems { s with stack := stack }
        refine ⟨hfound h.found, fun t ht d hd hlt => ?_⟩
        rw [foldl_tryOne_stack]
        obtain ⟨i, hi, first, count, hrun, hmem⟩ := hopen t ht d hd (lt_of_lt_of_le hlt hle)
        rcases List.mem_cons.mp hi with rfl | hi
        · obtain ⟨rfl, rfl⟩ := hrun.of_leaf hshape hpos
          exact absurd hlt (not_lt.mpr (hall t hmem d hd))
        · exact ⟨i, hi, first, count, hrun, hmem⟩
      · have hsplit : ∀ t < n, ∀ d, distance t = some d → d < s.best →
            ∃ i, (i = node.child ∨ i = node.child + 1 ∨ i ∈ stack) ∧ ∃ first count,
              HasRun (shapeOf bvh.nodes) i first count ∧ t ∈ runItems bvh.order first count := by
          intro t ht d hd hlt
          obtain ⟨i, hi, first, count, hrun, hmem⟩ := hopen t ht d hd hlt
          rcases List.mem_cons.mp hi with rfl | hi
          · obtain ⟨-, left, right, hleft, hright, rfl⟩ := hrun.children hshape hzero
            rw [Lib.runItems_append, List.mem_append] at hmem
            rcases hmem with hmem | hmem
            · exact ⟨_, Or.inl rfl, _, _, hleft, hmem⟩
            · exact ⟨_, Or.inr (Or.inl rfl), _, _, hright, hmem⟩
          · exact ⟨i, Or.inr (Or.inr hi), first, count, hrun, hmem⟩
        rcases hchildren with rfl | rfl
        · refine ⟨h.found, fun t ht d hd hlt => ?_⟩
          obtain ⟨i, hi, hrun⟩ := hsplit t ht d hd hlt
          refine ⟨i, ?_, hrun⟩
          rcases hi with rfl | rfl | hi <;> simp [*]
        · refine ⟨h.found, fun t ht d hd hlt => ?_⟩
          obtain ⟨i, hi, hrun⟩ := hsplit t ht d hd hlt
          refine ⟨i, ?_, hrun⟩
          rcases hi with rfl | rfl | hi <;> simp [*]

theorem curveDistance_least (distance : Nat → Option F) (n : Nat) :
    (∀ t < n, ∀ d, distance t = some d → curveDistance distance n ≤ d) ∧
      (curveDistance distance n = ⊤ ∨ ∃ t < n, distance t = some (curveDistance distance n)) := by
  induction n with
  | zero => exact ⟨fun t ht => absurd ht (Nat.not_lt_zero t), Or.inl rfl⟩
  | succ n ih =>
      obtain ⟨hle, hfound⟩ := ih
      have hnext : curveDistance distance (n + 1) =
          stdMin (curveDistance distance n) (distance n) := by
        rw [curveDistance, List.range_succ, List.foldl_append]
        rfl
      rw [hnext]
      cases hd : distance n with
      | none =>
          refine ⟨fun t ht d htd => ?_, ?_⟩
          · rcases Nat.lt_succ_iff_lt_or_eq.mp ht with ht | rfl
            · exact hle t ht d htd
            · cases hd.symm.trans htd
          · exact hfound.imp_right fun ⟨t, ht, htd⟩ => ⟨t, Nat.lt_succ_of_lt ht, htd⟩
      | some d =>
          have hmin := stdMin_le (curveDistance distance n) d
          refine ⟨fun t ht d' htd => ?_, ?_⟩
          · rcases Nat.lt_succ_iff_lt_or_eq.mp ht with ht | rfl
            · exact hmin.1.trans (hle t ht d' htd)
            · cases hd.symm.trans htd
              exact hmin.2
          · rw [stdMin]
            split
            · exact Or.inr ⟨n, Nat.lt_succ_self n, hd⟩
            · exact hfound.imp_right fun ⟨t, ht, htd⟩ => ⟨t, Nat.lt_succ_of_lt ht, htd⟩

/-- **The query ends**, and with sound discards answers as the brute-force loop does. -/
theorem queryNearest_eq (hvalid : bvh.Valid bounds n) (hbound : n < 2 ^ 29) :
    ∃ answer, queryNearest D bvh p distance = some answer ∧
      (DiscardsSoundly D bvh p distance → answer = curveDistance distance n) := by
  unfold queryNearest
  split
  · rename_i hempty
    have hzero : n = 0 := by
      by_contra hn
      have hlt := (hvalid.tiles.root (Nat.pos_of_ne_zero hn)).lt_length
      rw [hempty] at hlt
      exact absurd hlt (Nat.not_lt_zero 0)
    subst hzero
    exact ⟨⊤, rfl, fun _ => rfl⟩
  · rename_i hne
    have hpos : 0 < n := by
      obtain ⟨first, count, hrun, hle⟩ := hvalid.tiles.within 0
        (by rw [length_shapeOf]; exact List.length_pos_iff.mpr hne)
      have := hrun.pos
      omega
    have hlength : bvh.order.length = n := by
      rw [hvalid.order.length_eq, List.length_range]
    have hstep : ∀ weight s s', (StackFits bvh weight s ∧
        Reaches (queryStep D bvh p distance) queryStart s ∧
        (DiscardsSoundly D bvh p distance → Walking bvh distance n s)) →
        queryStep D bvh p distance s = some s' → ∃ lighter < weight, StackFits bvh lighter s' ∧
          Reaches (queryStep D bvh p distance) queryStart s' ∧
          (DiscardsSoundly D bvh p distance → Walking bvh distance n s') := by
      rintro weight s s' ⟨hstack, hreaches, hwalking⟩ hstep
      obtain ⟨lighter, hlt, hstack'⟩ := hstack.step hvalid hstep
      exact ⟨lighter, hlt, hstack', hreaches.tail hstep,
        fun hsound => (hwalking hsound).step hvalid hsound hreaches hstack hstep⟩
    obtain ⟨s, weight, hloop, hend, -, -, hwalking⟩ := Lib.loop_total hstep
      ⟨StackFits.start hvalid hpos hbound, Relation.ReflTransGen.refl,
        fun _ => Walking.start hvalid hpos⟩
      (show 2 * n - 1 ≤ 2 * bvh.order.length by omega)
    rw [hloop]
    refine ⟨_, rfl, fun hsound => ?_⟩
    obtain ⟨hfound, hopen⟩ := hwalking hsound
    rw [queryStep_nil hend] at hopen
    have hleast : ∀ t < n, ∀ d, distance t = some d → s.best ≤ d := by
      intro t ht d hd
      by_contra hlt
      obtain ⟨i, hi, -⟩ := hopen t ht d hd (not_le.mp hlt)
      exact absurd hi List.not_mem_nil
    obtain ⟨hle, hbrute⟩ := curveDistance_least distance n
    have hanswer : (if s.haveBest = true then s.best else ⊤) = s.best := by
      rcases hfound with ⟨hnone, htop⟩ | ⟨hsome, -⟩
      · rw [hnone, htop]
        rfl
      · rw [if_pos hsome]
    refine hanswer.trans (le_antisymm ?_ ?_)
    · rcases hbrute with htop | ⟨t, ht, hd⟩
      · rw [htop]
        exact le_top
      · exact hleast t ht _ hd
    · rcases hfound with ⟨-, htop⟩ | ⟨-, t, ht, hd⟩
      · rw [htop]
        exact le_top
      · exact hle t ht _ hd

end

/-! ## Segments -/

section

variable {F : Type} [LinearOrder F] [BoundedOrder F]

/-- A tree over the segments of some points. -/
structure SegmentBvh.IsTree (bvh : SegmentBvh F) (points : List (Point F)) : Prop where
  order : bvh.order.Perm (List.range (points.length - 1))
  /-- Every node has a run, which is not empty, and a leaf at most four items. -/
  run : ∀ i node, bvh.nodes[i]? = some node → node.count ≤ leafSize ∧
    ∃ first count, HasRun (shapeOf bvh.nodes) i first count ∧ 0 < count ∧
      first + count ≤ points.length - 1
  /-- The leaves' runs tile the order. -/
  leaves : ∀ position < points.length - 1, ∃! i, Lib.LeafAt (shapeOf bvh.nodes) i position
  /-- The children of an interior node are adjacent later nodes that split its run. -/
  interior : ∀ i node, bvh.nodes[i]? = some node → node.count = 0 →
    i < node.child ∧ node.child + 1 < bvh.nodes.length ∧ ∃ first left right,
      HasRun (shapeOf bvh.nodes) i first (left + right) ∧
      HasRun (shapeOf bvh.nodes) node.child first left ∧
      HasRun (shapeOf bvh.nodes) (node.child + 1) (first + left) right
  /-- The box of a node holds both ends of every segment of its run. -/
  box : ∀ i node first count, bvh.nodes[i]? = some node →
    HasRun (shapeOf bvh.nodes) i first count → ∀ t ∈ runItems bvh.order first count,
    ∀ point, (points[t]? = some point ∨ points[t + 1]? = some point) →
    ∀ k x, point k = some x → node.lo k ≤ x ∧ x ≤ node.hi k

omit [BoundedOrder F] [LinearOrder F] in
theorem coordinate_of_values {points : List (Point F)} {bottom : F} {s : Nat} {point : Point F}
    (hpoint : points[s]? = some point) {k : Fin 3} {x : F} (hx : point k = some x) :
    ((points.map fun p k => (p k).getD bottom)[s]?.map fun p => p k).getD bottom = x := by
  rw [List.getElem?_map, hpoint, Option.map_some, Option.map_some, Option.getD_some]
  show (point k).getD bottom = x
  rw [hx, Option.getD_some]

theorem segmentBounds_coordinate {points : List (Point F)} {t : Nat} (ht : t < 2 ^ 29)
    {point : Point F} (hpoint : points[t]? = some point ∨ points[t + 1]? = some point) {k : Fin 3}
    {x : F} (hx : point k = some x) :
    boundsLo (segmentBounds (points.map fun p k => (p k).getD ⊥)) t k ≤ x ∧
      x ≤ boundsHi (segmentBounds (points.map fun p k => (p k).getD ⊥)) t k := by
  have hk := k.isLt
  have haxis : ∀ i, i % 3 = k.val → Fin.ofNat 3 i = k := by
    intro i hi
    exact Fin.ext hi
  rw [boundsLo, boundsHi, u32_of_lt (by omega), u32_of_lt (by omega), segmentBounds,
    segmentBounds]
  dsimp only
  rw [if_pos (by omega), if_neg (by omega), show (6 * t + k.val) / 6 = t by omega,
    show (6 * t + 3 + k.val) / 6 = t by omega, haxis (6 * t + k.val) (by omega),
    haxis (6 * t + 3 + k.val) (by omega)]
  rcases hpoint with hpoint | hpoint
  · rw [coordinate_of_values hpoint hx]
    exact ⟨(stdMin_le _ _).1, (le_stdMax _ _).1⟩
  · rw [coordinate_of_values hpoint hx]
    exact ⟨(stdMin_le _ _).2, (le_stdMax _ _).2⟩

theorem SegmentBvh.Valid.isTree {bvh : SegmentBvh F} {points : List (Point F)}
    (h : bvh.Valid (segmentBounds (points.map fun p k => (p k).getD ⊥)) (points.length - 1))
    (hbound : points.length - 1 < 2 ^ 29) : bvh.IsTree points where
  order := h.order
  run i node hnode := by
    have hlt := (List.getElem?_eq_some_iff.mp hnode).1
    obtain ⟨first, count, hrun, hle⟩ := h.tiles.within i (by rw [length_shapeOf]; exact hlt)
    exact ⟨h.leaf node (List.mem_of_getElem? hnode), first, count, hrun, hrun.pos, hle⟩
  leaves := h.tiles.leaves
  interior i node hnode hzero := by
    have hlt := (List.getElem?_eq_some_iff.mp hnode).1
    obtain ⟨first, count, hrun, -⟩ := h.tiles.within i (by rw [length_shapeOf]; exact hlt)
    obtain ⟨hlater, left, right, hleft, hright, rfl⟩ :=
      hrun.children (getElem?_shapeOf hnode) hzero
    have hlast := hright.lt_length
    rw [length_shapeOf] at hlast
    exact ⟨hlater, hlast, first, left, right, hrun, hleft, hright⟩
  box i node first count hnode hrun t ht point hpoint k x hx := by
    have hin : t ∈ bvh.order := List.mem_of_mem_drop (List.mem_of_mem_take ht)
    have hlt := List.mem_range.mp (h.order.mem_iff.mp hin)
    obtain ⟨hlo, hhi⟩ := segmentBounds_coordinate (by omega) hpoint hx
    obtain ⟨hbox₁, hbox₂⟩ := h.box i node first count hnode hrun t ht k
    exact ⟨hbox₁.trans hlo, hhi.trans hbox₂⟩

/-- **The segment tree and its query.**  Below `2 ^ 29` segments between finite points, `Build`
ends, in a tree over the segments.  Over that tree every query ends with at most 64 stack
entries, whatever it discards; and if no discarded node holds a segment nearer than the best
found by then, it answers with the least distance of the brute-force loop. -/
theorem segmentBvh (ops : FloatOps F) (nth : NthElement) (points : List (Point F))
    (hfinite : ∀ point ∈ points, ∀ k, isFinite (point k) = true)
    (hbound : points.length - 1 < 2 ^ 29) :
    ∃ bvh, SegmentBvh.build ops nth points = some (decide (2 ≤ points.length), bvh) ∧
      bvh.IsTree points ∧
      ∀ (R : Type) (D : DoubleOps F R) (p : Point F) (distance : Nat → Option F),
        (∀ s, Reaches (queryStep D bvh p distance) queryStart s →
          bvh.nodes ≠ [] → s.stack.length ≤ 64) ∧
        ∃ answer, queryNearest D bvh p distance = some answer ∧
          (DiscardsSoundly D bvh p distance →
            answer = curveDistance distance (points.length - 1)) := by
  have hqueries : ∀ bvh : SegmentBvh F, bvh.Valid
      (segmentBounds (points.map fun p k => (p k).getD ⊥)) (points.length - 1) →
      bvh.IsTree points ∧
      ∀ (R : Type) (D : DoubleOps F R) (p : Point F) (distance : Nat → Option F),
        (∀ s, Reaches (queryStep D bvh p distance) queryStart s →
          bvh.nodes ≠ [] → s.stack.length ≤ 64) ∧
        ∃ answer, queryNearest D bvh p distance = some answer ∧
          (DiscardsSoundly D bvh p distance →
            answer = curveDistance distance (points.length - 1)) := by
    intro bvh hvalid
    refine ⟨hvalid.isTree hbound, fun R D p distance => ⟨fun s hreaches hne => ?_,
      queryNearest_eq hvalid hbound⟩⟩
    obtain ⟨first, count, hrun, hle⟩ := hvalid.tiles.within 0
      (by rw [length_shapeOf]; exact List.length_pos_iff.mpr hne)
    have hpos := hrun.pos
    exact length_stack_le hvalid (by omega) hbound hreaches
  unfold SegmentBvh.build
  split
  · rename_i hshort
    have hzero : points.length - 1 = 0 := by omega
    refine ⟨⟨[], []⟩, ?_, hqueries _ (hzero ▸ valid_empty)⟩
    rw [decide_eq_false (by omega)]
  · rename_i hlong
    have hall : (points.all fun p => isFinite (p 0) && isFinite (p 1) && isFinite (p 2)) = true := by
      refine List.all_eq_true.mpr fun point hpoint => ?_
      rw [hfinite point hpoint 0, hfinite point hpoint 1, hfinite point hpoint 2]
      rfl
    rw [if_pos hall]
    obtain ⟨s, hbuild, hvalid⟩ := buildBvh_valid ops nth
      (segmentBounds (points.map fun p k => (p k).getD ⊥)) hbound
    dsimp only
    rw [hbuild]
    refine ⟨⟨s.nodes, s.order⟩, ?_, hqueries _ hvalid⟩
    rw [decide_eq_true (by omega)]
    rfl

end

/-! ## A line that turns -/

/-- Floats that are integers. -/
abbrev Coarse : Type := WithTop (WithBot Int)

def coarseOps : FloatOps Coarse where
  add a b := some (max a b)
  sub a b := some (max a b)
  half a := a

/-- Leaves the run as it is. -/
def keepOrder : NthElement where
  apply _ _ run := run
  perm _ _ _ := List.Perm.refl _

/-- Eleven points of an axis: the line comes in from afar, and goes out again. -/
def turning : List (Point Coarse) :=
  [100, 90, 80, 1, 2, 3, 4, 5, 6, 7, 8].map fun x k =>
    some (((if k = 0 then (x : Int) else 0 : Int) : WithBot Int) : WithTop (WithBot Int))

/-- Doubles that are rationals. -/
def exactOps : DoubleOps Coarse ℚ where
  ofFloat x := ((x.bind id).bind id : Option Int).getD 0
  literal x := x
  add x y := x + y
  sub x y := x - y
  mul x y := x * y
  fabs x := |x|
  lt x y := x < y

/-- The distances of the segments from the origin; one of them is not a number. -/
def turningDistance (s : Nat) : Option Coarse :=
  ([some 90, some 80, some 1, some 1, some 2, none, some 4, some 5, some 6, some 7][s]?.bind
    id).map fun (x : Int) => ((x : WithBot Int) : WithTop (WithBot Int))

/-- The tree over the segments. -/
def turningBvh : SegmentBvh Coarse :=
  ((SegmentBvh.build coarseOps keepOrder turning).map Prod.snd).getD ⟨[], []⟩

/-- The states of the walk from the origin. -/
def turningWalk : List (QueryState Coarse) :=
  Lib.trace (queryStep exactOps turningBvh (fun _ => some 0) turningDistance) 20 queryStart

/-- What is on top of the stack is discarded. -/
def discarding (s : QueryState Coarse) : Bool :=
  s.haveBest && s.stack.head?.any fun index =>
    discards exactOps (fun _ => some 0) (nodeAt turningBvh.nodes index) s.best

def noNearer {F : Type} [LinearOrder F] (best : F) (distance : Option F) : Bool :=
  distance.all fun d => best ≤ d

/-- A leaf is on top of the stack, and none of its segments is nearer than the best. -/
def keepsBest (s : QueryState Coarse) : Bool :=
  s.stack.head?.all fun index =>
    let node := nodeAt turningBvh.nodes index
    decide (0 < node.count) && (runItems turningBvh.order node.child node.count).all fun t =>
      noNearer s.best (turningDistance t)

theorem discardsSoundly_turning :
    DiscardsSoundly exactOps turningBvh (fun _ => some 0) turningDistance := by
  intro s index stack node first count hreaches htop hnode hhave hdiscard hrun t ht d hd
  have hall : turningWalk.all (fun s => !discarding s || keepsBest s) = true := by decide +kernel
  have hs := List.all_eq_true.mp hall s (hreaches.mem_trace (by decide +kernel))
  have hat : nodeAt turningBvh.nodes index = node := by
    rw [nodeAt, hnode]
    rfl
  have hdiscarding : discarding s = true := by
    rw [discarding, htop, hhave, List.head?_cons, Option.any_some, hat, hdiscard]
    rfl
  rw [hdiscarding, Bool.not_true, Bool.false_or, keepsBest, htop, List.head?_cons,
    Option.all_some] at hs
  dsimp only at hs
  rw [hat, Bool.and_eq_true, decide_eq_true_iff] at hs
  obtain ⟨hleaf, hkeeps⟩ := hs
  obtain ⟨rfl, rfl⟩ := hrun.of_leaf (getElem?_shapeOf hnode) hleaf
  have hleast := List.all_eq_true.mp hkeeps t ht
  rw [noNearer, hd, Option.all_some] at hleast
  exact of_decide_eq_true hleast

/-- The walk discards the segments that come in from afar. -/
theorem segmentBvh_turning :
    ∃ bvh, SegmentBvh.build coarseOps keepOrder turning = some (true, bvh) ∧
      bvh.IsTree turning ∧
      (∃ s, Reaches (queryStep exactOps bvh (fun _ => some 0) turningDistance) queryStart s ∧
        discarding s = true) ∧
      queryNearest exactOps bvh (fun _ => some 0) turningDistance =
        some (curveDistance turningDistance 10) := by
  obtain ⟨bvh, hbuild, htree, hqueries⟩ := segmentBvh coarseOps keepOrder turning
    (by decide) (by decide)
  have hbvh : bvh = turningBvh := by
    rw [turningBvh, hbuild]
    rfl
  subst hbvh
  obtain ⟨-, answer, hquery, hanswer⟩ := hqueries ℚ exactOps (fun _ => some 0) turningDistance
  refine ⟨turningBvh, hbuild, htree, ?_, ?_⟩
  · have hany : turningWalk.any discarding = true := by decide +kernel
    obtain ⟨s, hs, hdiscarding⟩ := List.any_eq_true.mp hany
    exact ⟨s, Reaches.of_mem_trace hs, hdiscarding⟩
  · rw [hquery, hanswer discardsSoundly_turning]
    rfl

end RigExec.Accel
