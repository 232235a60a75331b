/-
# `RigExec.Touch.Casting` — `Cast` against `CastBruteForce`

Whatever the numbers are, neither cast reads outside an array, and both end.  Where no
triangle passes the test with a parameter that is not a number, and the slab test loses
nothing, they agree:

    Best.At      the best so far is the parameter of its triangle
    Walking      a triangle nearer than the best is in the run of a node on the stack
    SlabSound    no box is rejected that holds a triangle nearer than the best

The stack needs no bound of its own: the walk falls back before it would overflow.
-/
import RigExec.Touch.Cast
import RigExec.Touch.Prepared

namespace RigExec.Touch

open scoped RigExec.Accel
open RigExec.Accel (floatLt floatLe minOf maxOf Point)
open Lib (HasRun RunsOver Weighs Reaches runItems)

section

variable {F R M : Type} [LinearOrder R] {ops : Arithmetic F R M}
  {mesh : Mesh F R M} {o d : Vec R}

/-! ## Triangles -/

/-- The parameter at which the ray hits a triangle, before the test against `tMax`. -/
def Mesh.parameter (ops : Arithmetic F R M) (mesh : Mesh F R M) (o d : Vec R) (tri : Nat) :
    Option (Option R) :=
  (mesh.corners tri).bind fun corners => rayParameter ops corners o d

/-- No triangle passes the test with a parameter that is not a number. -/
def Mesh.HitsAreNumbers (ops : Arithmetic F R M) (mesh : Mesh F R M) (o d : Vec R) : Prop :=
  ∀ tri < mesh.tris.length, mesh.parameter ops o d tri ≠ some none

/-- The best so far is `b`. -/
def Best.At (ops : Arithmetic F R M) (mesh : Mesh F R M) (o d : Vec R) (best : Best R) (b : R) :
    Prop :=
  best.t = some b ∧ (best.tri = none ∧ b = ops.dblMax ∨ ∃ tri < mesh.tris.length,
    best.tri = some tri ∧ mesh.parameter ops o d tri = some (some b) ∧ b < ops.dblMax)

/-- The best triangle so far is one of the mesh. -/
def Best.InMesh (mesh : Mesh F R M) (best : Best R) : Prop :=
  ∀ tri, best.tri = some tri → tri < mesh.tris.length

/-- **One triangle**: it can be read, and where hits are numbers, the best is then at most its
parameter. -/
theorem tryTriangle_some (ops : Arithmetic F R M) (o d : Vec R) (h : mesh.InRange)
    (hpoints : mesh.hasPoints = true) {tri : Nat} (htri : tri < mesh.tris.length) {best : Best R}
    (hin : best.InMesh mesh) :
    ∃ best', mesh.tryTriangle ops o d best tri = some best' ∧ best'.InMesh mesh ∧
      (mesh.HitsAreNumbers ops o d → ∀ b, best.At ops mesh o d b → ∃ b' ≤ b,
        best'.At ops mesh o d b' ∧
        ∀ x, mesh.parameter ops o d tri = some (some x) → b' ≤ x) := by
  obtain ⟨corners, hcorners⟩ := h.exists_corners hpoints htri
  have hparameter : mesh.parameter ops o d tri = rayParameter ops corners o d := by
    rw [Mesh.parameter, hcorners, Option.bind_some]
  have htry : mesh.tryTriangle ops o d best tri =
      some (((mesh.parameter ops o d tri).filter fun t => !floatLe best.t t).elim best
        fun t => ⟨t, some tri⟩) := by
    rw [Mesh.tryTriangle, Mesh.hitTriangle, hcorners, hparameter]
    dsimp only [Option.map_some]
    cases (rayParameter ops corners o d).filter fun t => !floatLe best.t t with
    | some t => rfl
    | none => rfl
  refine ⟨_, htry, ?_, fun hnumbers b hat => ?_⟩
  · cases (mesh.parameter ops o d tri).filter fun t => !floatLe best.t t with
    | some t =>
        intro tri' heq
        cases heq
        exact htri
    | none => exact hin
  · obtain ⟨hb, hwhich⟩ := hat
    rw [hb]
    cases hp : mesh.parameter ops o d tri with
    | none => exact ⟨b, le_rfl, ⟨hb, hwhich⟩, fun x hx => absurd hx (Option.some_ne_none _).symm⟩
    | some t =>
        cases t with
        | none => exact absurd hp (hnumbers tri htri)
        | some x =>
            rcases lt_or_ge x b with hlt | hge
            · have hhit : (some (some x) : Option (Option R)).filter
                  (fun t => !floatLe (some b) t) = some (some x) := by
                refine Option.filter_eq_some_iff.mpr ⟨rfl, ?_⟩
                show (!decide (b ≤ x)) = true
                rw [decide_eq_false (not_le.mpr hlt)]
                rfl
              rw [hhit]
              have hmax : b ≤ ops.dblMax := by
                rcases hwhich with ⟨-, rfl⟩ | ⟨-, -, -, -, hless⟩
                · exact le_rfl
                · exact hless.le
              refine ⟨x, hlt.le, ⟨rfl, Or.inr ⟨tri, htri, rfl, hp, lt_of_lt_of_le hlt hmax⟩⟩, ?_⟩
              intro y hy
              cases hy
              exact le_rfl
            · have hmiss : (some (some x) : Option (Option R)).filter
                  (fun t => !floatLe (some b) t) = none := by
                refine Option.filter_eq_none_iff.mpr fun t ht => ?_
                cases ht
                show ¬ (!decide (b ≤ x)) = true
                rw [decide_eq_true hge]
                exact Bool.false_ne_true
              rw [hmiss]
              refine ⟨b, le_rfl, ⟨hb, hwhich⟩, fun y hy => ?_⟩
              cases hy
              exact hge

/-- **A run of triangles.** -/
theorem foldlM_tryTriangle (ops : Arithmetic F R M) (o d : Vec R) (h : mesh.InRange)
    (hpoints : mesh.hasPoints = true) {run : List Nat}
    (hrun : ∀ tri ∈ run, tri < mesh.tris.length) {best : Best R} (hin : best.InMesh mesh) :
    ∃ best', run.foldlM (mesh.tryTriangle ops o d) best = some best' ∧ best'.InMesh mesh ∧
      (mesh.HitsAreNumbers ops o d → ∀ b, best.At ops mesh o d b → ∃ b' ≤ b,
        best'.At ops mesh o d b' ∧
        ∀ tri ∈ run, ∀ x, mesh.parameter ops o d tri = some (some x) → b' ≤ x) := by
  induction run generalizing best with
  | nil => exact ⟨best, rfl, hin, fun _ b hat => ⟨b, le_rfl, hat, fun tri htri => nomatch htri⟩⟩
  | cons tri run ih =>
      obtain ⟨next, hnext, hin', hstep⟩ :=
        tryTriangle_some ops o d h hpoints (hrun tri List.mem_cons_self) hin
      obtain ⟨best', hbest', hin'', hrest⟩ :=
        ih (fun tri htri => hrun tri (List.mem_cons_of_mem _ htri)) hin'
      refine ⟨best', by rw [List.foldlM_cons, hnext]; exact hbest', hin'', fun hnumbers b hat => ?_⟩
      obtain ⟨b', hle, hat', hless⟩ := hstep hnumbers b hat
      obtain ⟨b'', hle', hat'', hless'⟩ := hrest hnumbers b' hat'
      refine ⟨b'', hle'.trans hle, hat'', fun tri' htri' x hx => ?_⟩
      rcases List.mem_cons.mp htri' with rfl | htri'
      · exact hle'.trans (hless x hx)
      · exact hless' tri' htri' x hx

/-- No triangle is hit before `b`. -/
def Mesh.Least (ops : Arithmetic F R M) (mesh : Mesh F R M) (o d : Vec R) (b : R) : Prop :=
  ∀ tri < mesh.tris.length, ∀ x, mesh.parameter ops o d tri = some (some x) → b ≤ x

theorem at_start : (Best.start ops).At ops mesh o d ops.dblMax := ⟨rfl, Or.inl ⟨rfl, rfl⟩⟩

omit [LinearOrder R] in
theorem inMesh_start : (Best.start ops).InMesh mesh := fun _ h => nomatch h

theorem Best.At.unique {best best' : Best R} {b b' : R} (h : best.At ops mesh o d b)
    (hleast : mesh.Least ops o d b) (h' : best'.At ops mesh o d b')
    (hleast' : mesh.Least ops o d b') : b = b' ∧ best.tri.isSome = best'.tri.isSome := by
  rcases h.2 with ⟨hnone, rfl⟩ | ⟨tri, htri, hsome, hp, hless⟩
  · rcases h'.2 with ⟨hnone', rfl⟩ | ⟨tri', htri', hsome', hp', hless'⟩
    · exact ⟨rfl, by rw [hnone, hnone']⟩
    · exact absurd (hleast tri' htri' _ hp') (not_le.mpr hless')
  · rcases h'.2 with ⟨hnone', rfl⟩ | ⟨tri', htri', hsome', hp', hless'⟩
    · exact absurd (hleast' tri htri _ hp) (not_le.mpr hless)
    · exact ⟨le_antisymm (hleast tri' htri' _ hp') (hleast' tri htri _ hp),
        by rw [hsome, hsome']; rfl⟩

/-! ## The slab test -/

theorem slabAxis_le {node : Node F} {span span' : Option R × Option R} {k : Fin 3} {t0 t1 : R}
    (h : slabAxis ops node o d span k = some span') (h₀ : span.1 = some t0)
    (h₁ : span.2 = some t1) :
    ∃ t0' t1', span' = (some t0', some t1') ∧ t1' ≤ t1 ∧ t0' ≤ t1' := by
  have hmax : ∀ x, ∃ y, maxOf (some t0) x = some y := by
    intro x
    unfold maxOf
    cases x with
    | none => exact ⟨t0, rfl⟩
    | some x => split <;> exact ⟨_, rfl⟩
  have hmin : ∀ x, ∃ y ≤ t1, minOf (some t1) x = some y := by
    intro x
    unfold minOf
    cases x with
    | none => exact ⟨t1, le_rfl, rfl⟩
    | some x =>
        split
        · rename_i hlt
          exact ⟨x, (decide_eq_true_iff.mp hlt).le, rfl⟩
        · exact ⟨t1, le_rfl, rfl⟩
  have hnarrow : ∀ a b, (if floatLt (minOf (some t1) b) (maxOf (some t0) a) = true then none
      else some (maxOf (some t0) a, minOf (some t1) b)) = some span' →
      ∃ t0' t1', span' = (some t0', some t1') ∧ t1' ≤ t1 ∧ t0' ≤ t1' := by
    intro a b heq
    obtain ⟨y, hy⟩ := hmax a
    obtain ⟨z, hz, hz'⟩ := hmin b
    rw [hy, hz'] at heq
    split at heq
    · cases heq
    · rename_i hover
      cases heq
      exact ⟨y, z, rfl, hz, not_lt.mp fun hlt => hover (decide_eq_true hlt)⟩
  unfold slabAxis at h
  dsimp only at h
  rw [h₀, h₁] at h
  exact hnarrow _ _ h

theorem foldlM_slabAxis_le {node : Node F} {axes : List (Fin 3)} {span span' : Option R × Option R}
    {t0 t1 : R} (h : axes.foldlM (slabAxis ops node o d) span = some span')
    (h₀ : span.1 = some t0) (h₁ : span.2 = some t1) (hne : axes = [] → t0 ≤ t1) :
    ∃ t0' t1', span' = (some t0', some t1') ∧ t1' ≤ t1 ∧ t0' ≤ t1' := by
  induction axes generalizing span t0 t1 with
  | nil =>
      cases h
      exact ⟨t0, t1, Prod.ext h₀ h₁, le_rfl, hne rfl⟩
  | cons k axes ih =>
      rw [List.foldlM_cons] at h
      cases hstep : slabAxis ops node o d span k with
      | none =>
          rw [hstep] at h
          cases h
      | some next =>
          rw [hstep] at h
          obtain ⟨u0, u1, rfl, hle, hover⟩ := slabAxis_le hstep h₀ h₁
          obtain ⟨t0', t1', hspan, hle', hover'⟩ := ih h rfl rfl fun _ => hover
          exact ⟨t0', t1', hspan, hle'.trans hle, hover'⟩

/-- The slab test accepts a box only if the ray enters it before `b`. -/
theorem slab_near {node : Node F} {b : R} {near : Option R}
    (h : slab ops o d node (some b) = some near) : floatLt (some b) near = false := by
  unfold slab at h
  obtain ⟨span, hspan, hnear⟩ := Option.bind_eq_some_iff.mp h
  obtain ⟨t0, t1, rfl, hle, hover⟩ := foldlM_slabAxis_le hspan rfl rfl fun hnil => nomatch hnil
  split at hnear
  · cases hnear
    exact decide_eq_false (not_lt.mpr (hover.trans hle))
  · cases hnear

/-! ## The walk -/

variable [LinearOrder F] {bvh : Bvh F R}

/-- The tree of the acceleration. -/
def Mesh.TreeOver (mesh : Mesh F R M) (bvh : Bvh F R) : Prop :=
  RunsOver Node.shape mesh.Boxes leafSize mesh.tris.length bvh.nodes bvh.order

/-- What a turn does with the children of an interior node: `top` goes on the stack. -/
structure Pushed (ops : Arithmetic F R M) (bvh : Bvh F R) (o d : Vec R) (best : Best R) (l : Nat)
    (top : List Nat) : Prop where
  shape : top = [] ∨ top = [l] ∨ top = [l + 1] ∨ top = [l, l + 1] ∨ top = [l + 1, l]
  left : ∀ node, bvh.nodes[l]? = some node → l ∈ top ∨ slab ops o d node best.t = none
  right : ∀ node, bvh.nodes[l + 1]? = some node → l + 1 ∈ top ∨ slab ops o d node best.t = none

theorem push_of_lt {stack : List Nat} (h : stack.length < 128) (index : Nat) :
    push stack index = some (index :: stack) := if_pos h

omit [LinearOrder F] in
theorem pushChildren_some {node l r : Node F} (hl : bvh.nodes[node.first]? = some l)
    (hr : bvh.nodes[node.first + 1]? = some r) (stack : List Nat) (best : Best R) :
    pushChildren ops bvh o d node stack best = some .fallback ∨
      ∃ top, pushChildren ops bvh o d node stack best = some (.walking (top ++ stack) best) ∧
        Pushed ops bvh o d best node.first top := by
  unfold pushChildren
  dsimp only
  rw [hl, hr]
  dsimp only [Option.bind_eq_bind, Option.bind_some]
  split
  · exact Or.inl rfl
  · rename_i hroom
    refine Or.inr ?_
    have hpush : ∀ index, push stack index = some (index :: stack) := push_of_lt (by omega)
    have hpush₂ : ∀ index first : Nat, push (first :: stack) index =
        some (index :: first :: stack) := by
      intro index first
      refine push_of_lt ?_ index
      rw [List.length_cons]
      omega
    rw [hpush, hpush, Option.bind_some, Option.bind_some, hpush₂, hpush₂]
    cases htl : slab ops o d l best.t with
    | some tl =>
        cases htr : slab ops o d r best.t with
        | some tr =>
            dsimp only
            split
            · exact ⟨[_, _], rfl, Or.inr (Or.inr (Or.inr (Or.inl rfl))),
                fun _ _ => Or.inl List.mem_cons_self,
                fun _ _ => Or.inl (List.mem_cons_of_mem _ List.mem_cons_self)⟩
            · exact ⟨[_, _], rfl, Or.inr (Or.inr (Or.inr (Or.inr rfl))),
                fun _ _ => Or.inl (List.mem_cons_of_mem _ List.mem_cons_self),
                fun _ _ => Or.inl List.mem_cons_self⟩
        | none =>
            refine ⟨[_], rfl, Or.inr (Or.inl rfl), fun _ _ => Or.inl List.mem_cons_self,
              fun node' hnode' => Or.inr ?_⟩
            cases hr.symm.trans hnode'
            exact htr
    | none =>
        cases htr : slab ops o d r best.t with
        | some tr =>
            refine ⟨[_], rfl, Or.inr (Or.inr (Or.inl rfl)), fun node' hnode' => Or.inr ?_,
              fun _ _ => Or.inl List.mem_cons_self⟩
            cases hl.symm.trans hnode'
            exact htl
        | none =>
            refine ⟨[], rfl, Or.inl rfl, fun node' hnode' => Or.inr ?_,
              fun node' hnode' => Or.inr ?_⟩
            · cases hl.symm.trans hnode'
              exact htl
            · cases hr.symm.trans hnode'
              exact htr

/-- **What one turn does**: it takes a node off the stack, and drops it, tries the triangles of its
run, or looks at its children. -/
theorem castStep_cases {stack : List Nat} {index first count : Nat} {best : Best R}
    {walk : Walk R} (htree : mesh.TreeOver bvh)
    (h : mesh.castStep ops bvh o d (.walking (index :: stack) best) = some walk)
    {node : Node F} (hnode : bvh.nodes[index]? = some node)
    (hrun : HasRun (bvh.nodes.map Node.shape) index first count) :
    ((∀ near, slab ops o d node best.t = some near → floatLt best.t near = true) ∧
      walk = .walking stack best) ∨
    (0 < node.count ∧ walk = (((runItems bvh.order first count).foldlM
      (mesh.tryTriangle ops o d) best).map (Walk.walking stack)).getD .fault) ∨
    (node.count = 0 ∧ (walk = .fallback ∨ ∃ top, walk = .walking (top ++ stack) best ∧
      Pushed ops bvh o d best node.first top)) := by
  have hindex : (bvh.nodes.map Node.shape)[index]? = some node.shape :=
    Lib.getElem?_map_shape hnode
  unfold Mesh.castStep at h
  dsimp only at h
  rw [hnode] at h
  dsimp only at h
  split at h
  · rename_i hnone
    cases h
    exact Or.inl ⟨fun near hnear => (nomatch hnone.symm.trans hnear), rfl⟩
  · rename_i tNear hsome
    split at h
    · rename_i hfar
      cases h
      refine Or.inl ⟨fun near hnear => ?_, rfl⟩
      cases hsome.symm.trans hnear
      exact hfar
    · split at h
      · rename_i hcount
        cases h
        have hpos : 0 < node.count := Nat.pos_of_ne_zero hcount
        obtain ⟨rfl, rfl⟩ := hrun.of_leaf hindex hpos
        have hle : node.first + node.count ≤ bvh.order.length := by
          rw [htree.length_order]
          exact htree.tiles.run_le hrun
        refine Or.inr (Or.inl ⟨hpos, ?_⟩)
        rw [Mesh.tryLeaf, Lib.foldlM_runItems hle]
        rfl
      · rename_i hzero
        cases h
        have hcount : node.count = 0 := not_not.mp hzero
        obtain ⟨-, left, right, hleft, hright, -⟩ := hrun.children hindex hcount
        obtain ⟨shapeL, hshapeL⟩ := hleft.get
        obtain ⟨shapeR, hshapeR⟩ := hright.get
        obtain ⟨l, hl, -⟩ := Lib.getElem?_of_map_shape hshapeL
        obtain ⟨r, hr, -⟩ := Lib.getElem?_of_map_shape hshapeR
        refine Or.inr (Or.inr ⟨hcount, ?_⟩)
        rcases pushChildren_some hl hr stack best with hpush | ⟨top, hpush, hpushed⟩
        · exact Or.inl (by rw [hpush]; rfl)
        · exact Or.inr ⟨top, by rw [hpush]; rfl, hpushed⟩

/-! ## Ending -/

/-- What holds of a walk whatever the numbers are. -/
def Walk.Fits (mesh : Mesh F R M) (bvh : Bvh F R) (weight : Nat) : Walk R → Prop
  | .walking stack best => Weighs (bvh.nodes.map Node.shape) stack weight ∧ best.InMesh mesh
  | .fallback => True
  | .fault => False

theorem Walk.Fits.step (h : mesh.InRange) (hpoints : mesh.hasPoints = true)
    (htree : mesh.TreeOver bvh) {weight : Nat} {walk walk' : Walk R}
    (hfits : walk.Fits mesh bvh weight) (hstep : mesh.castStep ops bvh o d walk = some walk') :
    ∃ lighter < weight, walk'.Fits mesh bvh lighter := by
  cases walk with
  | fallback => exact nomatch hstep
  | fault => exact nomatch hstep
  | walking stack best =>
      cases stack with
      | nil => exact nomatch hstep
      | cons index stack =>
          obtain ⟨hweighs, hin⟩ := hfits
          obtain ⟨first, count, hrun⟩ : ∃ first count,
              HasRun (bvh.nodes.map Node.shape) index first count := by
            cases hweighs with
            | cons hrun _ => exact ⟨_, _, hrun⟩
          obtain ⟨shape, hshape⟩ := hrun.get
          obtain ⟨node, hnode, rfl⟩ := Lib.getElem?_of_map_shape hshape
          obtain ⟨lighter, hlt, htail⟩ := hweighs.tail
          rcases castStep_cases htree hstep hnode hrun with ⟨-, rfl⟩ | ⟨-, rfl⟩ |
            ⟨hzero, rfl | ⟨top, rfl, hpushed⟩⟩
          · exact ⟨lighter, hlt, htail, hin⟩
          · obtain ⟨best', hbest', hin', -⟩ := foldlM_tryTriangle ops o d h hpoints
              (fun tri htri => htree.lt_of_mem htri) hin
            rw [hbest']
            exact ⟨lighter, hlt, htail, hin'⟩
          · exact ⟨lighter, hlt, trivial⟩
          · obtain ⟨both, hboth, hleft, hright⟩ := hweighs.children hshape hzero
            rcases hpushed.shape with rfl | rfl | rfl | rfl | rfl
            · exact ⟨lighter, hlt, htail, hin⟩
            · obtain ⟨one, hone, hstack⟩ := hright.tail
              exact ⟨one, hone.trans hboth, hstack, hin⟩
            · obtain ⟨one, hone, hstack⟩ := hleft.tail
              exact ⟨one, hone.trans hboth, hstack, hin⟩
            · exact ⟨both, hboth, hleft, hin⟩
            · exact ⟨both, hboth, hright, hin⟩

/-! ## Losing no triangle -/

/-- No box is rejected that holds a triangle hit nearer than the best so far. -/
def SlabSound (ops : Arithmetic F R M) (mesh : Mesh F R M) (bvh : Bvh F R) (o d : Vec R) : Prop :=
  ∀ stack best, Reaches (mesh.castStep ops bvh o d) (.walking [0] (Best.start ops))
      (.walking stack best) →
    ∀ i node first count, bvh.nodes[i]? = some node →
    HasRun (bvh.nodes.map Node.shape) i first count → ∀ tri ∈ runItems bvh.order first count,
    ∀ x b, mesh.parameter ops o d tri = some (some x) → best.t = some b → x < b →
    slab ops o d node best.t ≠ none

/-- A triangle hit nearer than the best lies in the run of a node on the stack. -/
def Walk.Walking (ops : Arithmetic F R M) (mesh : Mesh F R M) (bvh : Bvh F R) (o d : Vec R) :
    Walk R → Prop
  | .walking stack best => ∃ b, best.At ops mesh o d b ∧
      ∀ tri < mesh.tris.length, ∀ x, mesh.parameter ops o d tri = some (some x) → x < b →
        ∃ i ∈ stack, ∃ first count, HasRun (bvh.nodes.map Node.shape) i first count ∧
          tri ∈ runItems bvh.order first count
  | _ => True

theorem Walk.Walking.step (h : mesh.InRange) (hpoints : mesh.hasPoints = true)
    (htree : mesh.TreeOver bvh) (hnumbers : mesh.HitsAreNumbers ops o d)
    (hsound : SlabSound ops mesh bvh o d) {weight : Nat} {walk walk' : Walk R}
    (hreaches : Reaches (mesh.castStep ops bvh o d) (.walking [0] (Best.start ops)) walk)
    (hfits : walk.Fits mesh bvh weight) (hwalking : walk.Walking ops mesh bvh o d)
    (hstep : mesh.castStep ops bvh o d walk = some walk') : walk'.Walking ops mesh bvh o d := by
  cases walk with
  | fallback => exact nomatch hstep
  | fault => exact nomatch hstep
  | walking stack best =>
      cases stack with
      | nil => exact nomatch hstep
      | cons index stack =>
          obtain ⟨hweighs, hin⟩ := hfits
          obtain ⟨first, count, hrun⟩ : ∃ first count,
              HasRun (bvh.nodes.map Node.shape) index first count := by
            cases hweighs with
            | cons hrun _ => exact ⟨_, _, hrun⟩
          obtain ⟨shape, hshape⟩ := hrun.get
          obtain ⟨node, hnode, rfl⟩ := Lib.getElem?_of_map_shape hshape
          obtain ⟨b, hat, hopen⟩ := hwalking
          have hkept := hsound _ best hreaches
          rcases castStep_cases htree hstep hnode hrun with ⟨hfar, rfl⟩ | ⟨-, rfl⟩ |
            ⟨hzero, rfl | ⟨top, rfl, hpushed⟩⟩
          · refine ⟨b, hat, fun tri htri x hx hlt => ?_⟩
            obtain ⟨i, hi, first', count', hrun', hmem⟩ := hopen tri htri x hx hlt
            rcases List.mem_cons.mp hi with rfl | hi
            · -- the node was dropped: its box did not hold the triangle
              have haccepts := hkept i node first' count' hnode hrun' tri hmem x b hx hat.1 hlt
              obtain ⟨near, hnear⟩ := Option.ne_none_iff_exists'.mp haccepts
              have hfar' := hfar near hnear
              rw [hat.1] at hnear hfar'
              rw [slab_near hnear] at hfar'
              cases hfar'
            · exact ⟨i, hi, first', count', hrun', hmem⟩
          · obtain ⟨best', hbest', -, hless⟩ := foldlM_tryTriangle ops o d h hpoints
              (fun tri htri => htree.lt_of_mem htri) hin
            rw [hbest']
            obtain ⟨b', hle, hat', hleaf⟩ := hless hnumbers b hat
            refine ⟨b', hat', fun tri htri x hx hlt => ?_⟩
            obtain ⟨i, hi, first', count', hrun', hmem⟩ :=
              hopen tri htri x hx (lt_of_lt_of_le hlt hle)
            rcases List.mem_cons.mp hi with rfl | hi
            · obtain ⟨rfl, rfl⟩ := hrun.unique hrun'
              exact absurd (hleaf tri hmem x hx) (not_le.mpr hlt)
            · exact ⟨i, hi, first', count', hrun', hmem⟩
          · exact trivial
          · refine ⟨b, hat, fun tri htri x hx hlt => ?_⟩
            obtain ⟨i, hi, first', count', hrun', hmem⟩ := hopen tri htri x hx hlt
            rcases List.mem_cons.mp hi with rfl | hi
            · obtain ⟨-, left, right, hleft, hright, rfl⟩ := hrun'.children hshape hzero
              obtain ⟨shapeL, hshapeL⟩ := hleft.get
              obtain ⟨shapeR, hshapeR⟩ := hright.get
              obtain ⟨l, hl, -⟩ := Lib.getElem?_of_map_shape hshapeL
              obtain ⟨r, hr, -⟩ := Lib.getElem?_of_map_shape hshapeR
              rw [Lib.runItems_append, List.mem_append] at hmem
              rcases hmem with hmem | hmem
              · refine ⟨_, List.mem_append_left _ ?_, _, _, hleft, hmem⟩
                exact (hpushed.left l hl).resolve_right
                  (hkept _ l _ _ hl hleft tri hmem x b hx hat.1 hlt)
              · refine ⟨_, List.mem_append_left _ ?_, _, _, hright, hmem⟩
                exact (hpushed.right r hr).resolve_right
                  (hkept _ r _ _ hr hright tri hmem x b hx hat.1 hlt)
            · exact ⟨i, List.mem_append_right _ hi, first', count', hrun', hmem⟩

end

end RigExec.Touch
