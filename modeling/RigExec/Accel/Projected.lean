/-
# `RigExec.Accel.Projected` — the projection is the plain walk

Whatever accelerator is retained, the one that is used holds the fan of the current topology,
and its index, if it has one, all triangles in order.  The nested walk meets the same steps:
its offset wraps, but a fan that is not truncated has only steps inside the indices, and for
those the wrapped offset is the offset itself (`nestedFaces_eq`).
-/
import RigExec.Accel.SurfaceProject
import RigExec.Accel.BvhBuild

namespace RigExec.Accel

open Lib (Range)

section

variable {F R : Type} {surfacePoints : List (Point F)} {indices : List Int}

/-! ## Corners -/

theorem readAt_some {A : Type} {values : List A} {index : Int}
    (h : outOfRange values.length index = false) : ∃ a, readAt values index = some a := by
  unfold outOfRange at h
  rw [Bool.or_eq_false_iff, decide_eq_false_iff_not, decide_eq_false_iff_not] at h
  refine ⟨_, (if_neg h.1).trans (List.getElem?_eq_getElem ?_)⟩
  omega

theorem corners_some {tri : FanTri} (ha : outOfRange surfacePoints.length tri.a = false)
    (hb : outOfRange surfacePoints.length tri.b = false)
    (hc : outOfRange surfacePoints.length tri.c = false) :
    ∃ corners, tri.corners surfacePoints = some corners := by
  obtain ⟨a, ha⟩ := readAt_some ha
  obtain ⟨b, hb⟩ := readAt_some hb
  obtain ⟨c, hc⟩ := readAt_some hc
  exact ⟨(a, b, c), by rw [FanTri.corners, ha, hb, hc]; rfl⟩

theorem Step.corners_some {step : Step} {tri : FanTri}
    (h : step.triangle indices surfacePoints.length = some tri) :
    ∃ corners, tri.corners surfacePoints = some corners := by
  cases step with
  | overflow => exact nomatch h
  | corner offset c =>
      unfold Step.triangle at h
      obtain ⟨ia, -, h⟩ := Option.bind_eq_some_iff.mp h
      obtain ⟨ib, -, h⟩ := Option.bind_eq_some_iff.mp h
      obtain ⟨ic, -, h⟩ := Option.bind_eq_some_iff.mp h
      split at h
      · cases h
      · rename_i hin
        cases h
        rw [Bool.not_eq_true, Bool.or_eq_false_iff, Bool.or_eq_false_iff] at hin
        exact RigExec.Accel.corners_some hin.1.1 hin.1.2 hin.2

variable [LinearOrder F] {ops : SurfaceOps F R} {p : Point F}

/-- The nearest point after the triangles of some steps. -/
def afterSteps (ops : SurfaceOps F R) (surfacePoints : List (Point F)) (indices : List Int)
    (p : Point F) (nearest : Nearest F) (steps : List Step) : Nearest F :=
  ((steps.filterMap (Step.triangle indices surfacePoints.length)).filterMap
    (FanTri.corners surfacePoints)).foldl (Nearest.tryTriangle ops p) nearest

/-! ## The nested walk -/

/-- **One face**: its steps are inside the indices, so nothing wraps. -/
theorem nestedFace_eq (hsize : indices.length < 2 ^ 63) {offset : Int} {cs : List Nat}
    (hinside : ∀ c ∈ cs, (Step.corner offset c).inside indices = true) (nearest : Nearest F) :
    nestedFace ops surfacePoints indices p (offset % 2 ^ 64).toNat cs nearest =
      some (some (afterSteps ops surfacePoints indices p nearest
        (cs.map (Step.corner offset)))) := by
  induction cs generalizing nearest with
  | nil => rfl
  | cons c cs ih =>
      have hin := hinside c List.mem_cons_self
      obtain ⟨ia, ib, ic, ha, hb, hc⟩ := Step.reads hin
      have htriangle := @Step.triangle_of_reads _ surfacePoints.length _ _ _ _ _ ha hb hc
      unfold Step.inside at hin
      rw [Bool.and_eq_true, decide_eq_true_iff, decide_eq_true_iff] at hin
      have hoffset : (offset % 2 ^ 64).toNat = offset.toNat := by omega
      have hwrap : ∀ k : Nat, k ≤ c + 1 → wrapAdd (offset % 2 ^ 64).toNat k =
          (offset + k).toNat := by
        intro k hk
        rw [hoffset, wrapAdd]
        omega
      have hi2 : wrapAdd (offset % 2 ^ 64).toNat (c + 1) = (offset + c + 1).toNat := by
        have := hwrap (c + 1) le_rfl
        rwa [Int.natCast_add, Int.natCast_one, ← Int.add_assoc] at this
      have hrest := ih fun c hc => hinside c (List.mem_cons_of_mem _ hc)
      unfold nestedFace
      dsimp only
      rw [hi2, hwrap c (Nat.le_succ c), if_neg (by omega), hc, hb, hoffset, ha]
      dsimp only [Option.bind_eq_bind, Option.bind_some]
      rw [hoffset] at hrest
      split
      · rename_i hskip
        rw [if_pos hskip] at htriangle
        rw [hrest, afterSteps, afterSteps, List.map_cons,
          List.filterMap_cons_none htriangle]
      · rename_i htake
        rw [if_neg htake] at htriangle
        obtain ⟨corners, hcorners⟩ := Step.corners_some htriangle
        rw [hcorners]
        dsimp only [Option.bind_some]
        rw [hrest, afterSteps, afterSteps, List.map_cons, List.filterMap_cons_some htriangle,
          List.filterMap_cons_some hcorners, List.foldl_cons]

/-- **The nested walk** goes over the triangles of the walk. -/
theorem nestedFaces_eq (hsize : indices.length < 2 ^ 63) {offset : Int} {counts : List Int}
    (hinside : ∀ step ∈ fanSteps offset counts, step.inside indices = true)
    (nearest : Nearest F) :
    nestedFaces ops surfacePoints indices p (offset % 2 ^ 64).toNat counts nearest =
      some (some (afterSteps ops surfacePoints indices p nearest (fanSteps offset counts))) := by
  induction counts generalizing offset nearest with
  | nil => rfl
  | cons faceCount counts ih =>
      unfold fanSteps at hinside ⊢
      have hover : overflows offset faceCount ≠ true := by
        intro hover
        rw [if_pos hover] at hinside
        exact Bool.false_ne_true
          (hinside Step.overflow (List.mem_append_right _ List.mem_cons_self))
      rw [if_neg hover] at hinside ⊢
      have hface : ∀ c ∈ fanCorners faceCount, (Step.corner offset c).inside indices = true :=
        fun c hc => hinside _ (List.mem_append_left _ (List.mem_map.mpr ⟨c, hc, rfl⟩))
      have hnext : wrapAdd (offset % 2 ^ 64).toNat faceCount =
          ((offset + faceCount) % 2 ^ 64).toNat := by
        rw [wrapAdd]
        omega
      unfold nestedFaces
      rw [nestedFace_eq hsize hface]
      dsimp only [Option.bind_eq_bind, Option.bind_some]
      rw [hnext, ih fun step hstep => hinside step (List.mem_append_right _ hstep)]
      refine congrArg (fun nearest => some (some nearest)) ?_
      rw [afterSteps, afterSteps, afterSteps, List.filterMap_append, List.filterMap_append,
        List.foldl_append]

theorem projectNested_eq (hsize : indices.length < 2 ^ 63) {counts : List Int}
    (hinside : ∀ step ∈ fanSteps 0 counts, step.inside indices = true) (w : Option R)
    (points : List (Point F)) :
    projectNested ops surfacePoints counts indices w points =
      some (points.map fun p =>
        blend ops w p (nearestOn ops p (walkCorners surfacePoints counts indices)).best) := by
  induction points with
  | nil => rfl
  | cons p points ih =>
      have hwalk : nestedFaces ops surfacePoints indices p 0 counts (Nearest.start ops p) = _ :=
        nestedFaces_eq hsize hinside (Nearest.start ops p)
      rw [projectNested, hwalk]
      dsimp only [Option.bind_eq_bind, Option.bind_some]
      rw [ih]
      rfl

/-! ## The index -/

theorem foldlM_corners {tris : List FanTri}
    (hcorners : ∀ tri ∈ tris, ∃ corners, tri.corners surfacePoints = some corners)
    (nearest : Nearest F) :
    tris.foldlM (fun nearest tri =>
      (tri.corners surfacePoints).map (nearest.tryTriangle ops p)) nearest =
      some ((tris.filterMap (FanTri.corners surfacePoints)).foldl
        (Nearest.tryTriangle ops p) nearest) := by
  induction tris generalizing nearest with
  | nil => rfl
  | cons tri tris ih =>
      obtain ⟨corners, hcorner⟩ := hcorners tri List.mem_cons_self
      rw [List.foldlM_cons, hcorner, List.filterMap_cons_some hcorner, List.foldl_cons]
      exact ih (fun tri htri => hcorners tri (List.mem_cons_of_mem _ htri)) _

theorem queryTriangles_eq {tris : List FanTri}
    (hcorners : ∀ tri ∈ tris, ∃ corners, tri.corners surfacePoints = some corners)
    (hcount : tris.length ≤ 2 ^ 32 - 1) :
    queryTriangles ops surfacePoints tris ((List.range tris.length).map u32) p =
      some (nearestOn ops p (tris.filterMap (FanTri.corners surfacePoints))) := by
  have horder : (List.range tris.length).map u32 = List.range tris.length := by
    refine (List.map_congr_left fun t ht => ?_).trans (List.map_id _)
    have := List.mem_range.mp ht
    exact u32_of_lt (by omega)
  have hread := @Lib.foldlM_runItems FanTri (Nearest F) (fun nearest tri =>
    (tri.corners surfacePoints).map (nearest.tryTriangle ops p)) tris 0 tris.length
    (Nat.zero_add _).le (Nearest.start ops p)
  simp only [Nat.zero_add] at hread
  rw [queryTriangles, horder, hread, Lib.runItems_self, foldlM_corners hcorners]
  rfl

/-- **The loop over the points with an index.** -/
theorem mapM_queryTriangles {counts : List Int} {w : Option R} {points : List (Point F)}
    (hcount : (walkTriangles indices surfacePoints.length counts).length ≤ 2 ^ 32 - 1) :
    (points.mapM fun p => (queryTriangles ops surfacePoints
      (walkTriangles indices surfacePoints.length counts)
      ((List.range (walkTriangles indices surfacePoints.length counts).length).map u32) p).map
        fun nearest => blend ops w p nearest.best) =
      some (points.map fun p =>
        blend ops w p (nearestOn ops p (walkCorners surfacePoints counts indices)).best) := by
  have hcorners : ∀ tri ∈ walkTriangles indices surfacePoints.length counts,
      ∃ corners, tri.corners surfacePoints = some corners := by
    intro tri htri
    obtain ⟨step, -, hstep⟩ := List.mem_filterMap.mp htri
    exact Step.corners_some hstep
  induction points with
  | nil => rfl
  | cons p points ih =>
      rw [List.mapM_cons, queryTriangles_eq hcorners hcount, ih]
      rfl

/-! ## The accelerator -/

variable [BoundedOrder F]

theorem finiteCorners_some (points : List (Point F)) (corners : List Int) :
    ∃ finite, finiteCorners points corners = some finite := by
  induction corners with
  | nil => exact ⟨true, rfl⟩
  | cons index corners ih =>
      unfold finiteCorners
      split
      · exact ⟨false, rfl⟩
      · rename_i hin
        obtain ⟨point, hpoint⟩ := readAt_some (Bool.not_eq_true _ ▸ hin)
        rw [hpoint]
        dsimp only [Option.bind_eq_bind, Option.bind_some]
        split
        · exact ih
        · exact ⟨false, rfl⟩

theorem triangleBvhBuild_some (points : List (Point F)) (tris : List FanTri) :
    ∃ bvh, triangleBvhBuild points tris = some bvh ∧ ∀ order, bvh = some order →
      order = (List.range tris.length).map u32 ∧ tris.length ≤ 2 ^ 32 - 1 := by
  unfold triangleBvhBuild
  split
  · exact ⟨none, rfl, fun order h => nomatch h⟩
  · rename_i hfits
    obtain ⟨finite, hfinite⟩ := finiteCorners_some points (tris.flatMap fun tri => [tri.a, tri.b, tri.c])
    rw [hfinite]
    dsimp only [Option.bind_eq_bind, Option.bind_some]
    split
    · refine ⟨_, rfl, fun order h => ?_⟩
      cases h
      exact ⟨rfl, Nat.le_of_not_lt fun hlarge => hfits (Or.inr (Or.inr hlarge))⟩
    · exact ⟨none, rfl, fun order h => nomatch h⟩

/-- The accelerator holds the fan of a topology over some count of points. -/
structure SurfaceAccel.Holds (accel : SurfaceAccel F) (counts indices : Range Int)
    (pointCount : Nat) : Prop where
  fan : accel.fan = buildFanTrisH7 counts indices pointCount
  bvh : ∀ order fan, accel.bvh = some order → accel.fan = some fan →
    order = (List.range fan.tris.length).map u32 ∧ fan.tris.length ≤ 2 ^ 32 - 1

theorem buildSurfaceAccel_some {counts indices : Range Int} (hcounts : counts.isMissing = false)
    (hindices : indices.isMissing = false) (surfacePoints : Range (Point F)) :
    ∃ accel, buildSurfaceAccel counts indices surfacePoints = some accel ∧
      accel.Holds counts indices surfacePoints.size ∧ accel.counts = counts.values ∧
      accel.indices = indices.values ∧ accel.points = surfacePoints.values := by
  have hfan := buildFanTrisH7_eq hcounts hindices surfacePoints.size
  unfold buildSurfaceAccel
  rw [hfan]
  dsimp only [Option.bind_eq_bind, Option.bind_some]
  split
  · obtain ⟨bvh, hbvh, horder⟩ := triangleBvhBuild_some surfacePoints.values
      (((fanSteps 0 counts.values).takeWhile (Step.inside indices.values)).filterMap
        (Step.triangle indices.values surfacePoints.size))
    rw [hbvh]
    refine ⟨_, rfl, ⟨hfan.symm, ?_⟩, rfl, rfl, rfl⟩
    intro order fan h hsome
    cases hsome
    exact horder order h
  · refine ⟨_, rfl, ⟨hfan.symm, ?_⟩, rfl, rfl, rfl⟩
    intro order fan h
    cases h

theorem rangeMatches_int {key : List Int} {data : Range Int} (hdata : data.isMissing = false)
    (h : rangeMatches (· == ·) key data = true) : key = data.values := by
  unfold rangeMatches at h
  rw [Bool.and_eq_true, ← Range.length_values hdata] at h
  obtain ⟨hlength, hall⟩ := h
  have hlength := beq_iff_eq.mp hlength
  refine List.ext_getElem hlength fun i hi hj => ?_
  have hpair : (key[i], data.values[i]) ∈ key.zip data.values := by
    have hzip : i < (key.zip data.values).length := by
      rw [List.length_zip]
      omega
    rw [← List.getElem_zip (h := hzip)]
    exact List.getElem_mem hzip
  exact beq_iff_eq.mp (List.all_eq_true.mp hall _ hpair)

/-- **Whatever is retained, the accelerator that is used holds the current fan.** -/
theorem currentAccel_some {counts indices : Range Int} (hcounts : counts.isMissing = false)
    (hindices : indices.isMissing = false) (surfacePoints : Range (Point F))
    (retained : Retained F) :
    ∃ accel, currentAccel surfacePoints counts indices retained.accel = some accel ∧
      accel.Holds counts indices surfacePoints.size := by
  have hbuild : ∃ accel, buildSurfaceAccel counts indices surfacePoints = some accel ∧
      accel.Holds counts indices surfacePoints.size := by
    obtain ⟨accel, hbuild, hholds, -⟩ := buildSurfaceAccel_some hcounts hindices surfacePoints
    exact ⟨accel, hbuild, hholds⟩
  cases retained with
  | none => exact hbuild
  | empty => exact hbuild
  | built counts' indices' surfacePoints' =>
      obtain ⟨accel, haccel, hholds, hkeptCounts, hkeptIndices, hkeptPoints⟩ :=
        @buildSurfaceAccel_some F _ _ (.of counts') (.of indices') rfl rfl (.of surfacePoints')
      rw [Retained.accel, haccel]
      unfold currentAccel
      dsimp only
      split
      · exact hbuild
      · rename_i hkeep
        simp only [Bool.or_eq_true, not_or, Bool.not_eq_true', Bool.not_eq_true,
          Bool.not_eq_false] at hkeep
        obtain ⟨⟨⟨⟨-, hsameCounts⟩, hsameIndices⟩, hsameCount⟩, -⟩ := hkeep
        have hsameCount : (Range.of surfacePoints').size = surfacePoints.size := by
          rw [bne_eq_false_iff_eq, hkeptPoints] at hsameCount
          exact hsameCount
        have hcounts' : (Range.of counts').values = counts.values :=
          hkeptCounts.symm.trans (rangeMatches_int hcounts hsameCounts)
        have hindices' : (Range.of indices').values = indices.values :=
          hkeptIndices.symm.trans (rangeMatches_int hindices hsameIndices)
        refine ⟨accel, rfl, ⟨?_, hholds.bvh⟩⟩
        rw [hholds.fan, buildFanTrisH7_eq hcounts hindices, buildFanTrisH7_eq rfl rfl, hcounts',
          hindices', hsameCount]

/-! ## The projection -/

variable [LinearOrder R]

/-- **The projection is the plain walk**, whatever is retained. -/
theorem applySurfaceProject_eq {indices : Range Int} (hsize : indices.values.length < 2 ^ 63)
    (points : List (Point F)) (surfacePoints : Range (Point F)) (counts : Range Int)
    (weight : Option R) (retained : Retained F) :
    applySurfaceProject ops points surfacePoints counts indices weight retained.accel =
      some (plainProject ops points surfacePoints counts indices weight) := by
  unfold applySurfaceProject plainProject
  dsimp only
  split
  · rename_i hidle
    rcases hidle with rfl | hrest
    · split <;> rfl
    · rw [if_pos (hrest.imp_right Or.inl)]
  rename_i hmoves
  split
  · rename_i hmissing
    rw [if_pos (Or.inr (Or.inr (hmissing.imp_right fun h => h.imp_right Or.inl)))]
  rename_i hthere
  simp only [not_or, Bool.not_eq_true] at hthere
  obtain ⟨hsurface, hcounts, hindices⟩ := hthere
  obtain ⟨accel, hcurrent, hholds⟩ :=
    currentAccel_some hcounts hindices surfacePoints retained
  rw [hcurrent]
  dsimp only [Option.bind_eq_bind, Option.bind_some]
  have hfan := hholds.fan
  rw [buildFanTrisH7_eq hcounts hindices] at hfan
  rw [hfan]
  dsimp only [Option.bind_some]
  by_cases hover : Overruns indices.values counts.values
  · rw [if_pos (decide_eq_true hover), if_pos]
    · rfl
    · exact Or.inr (Or.inr (Or.inr (Or.inr (Or.inr hover))))
  have hinside : ∀ step ∈ fanSteps 0 counts.values, step.inside indices.values = true :=
    List.takeWhile_eq_self_iff.mp (takeWhile_inside hover)
  rw [← Range.length_values hsurface, takeWhile_inside hover] at hfan ⊢
  have hnested : projectNested ops surfacePoints.values counts.values indices.values
      (clampWeight ops weight) points = some (points.map fun p => blend ops (clampWeight ops weight)
        p (nearestOn ops p (walkCorners surfacePoints.values counts.values indices.values)).best) :=
    projectNested_eq hsize hinside _ _
  have hguard : ¬ (surfacePoints.values.length = 0 ∨
      floatLe (clampWeight ops weight) (some ops.dblZero) = true ∨
      surfacePoints.isMissing ∨ counts.isMissing ∨ indices.isMissing ∨
      Overruns indices.values counts.values) := by
    rw [Range.length_values hsurface, hsurface, hcounts, hindices]
    rintro (hempty | hweight | hmissing | hmissing | hmissing | hover')
    · exact hmoves (Or.inr (Or.inl hempty))
    · exact hmoves (Or.inr (Or.inr hweight))
    · cases hmissing
    · cases hmissing
    · cases hmissing
    · exact hover hover'
  rw [decide_eq_false hover, if_neg Bool.false_ne_true, if_neg hguard]
  split
  · rename_i order hbvh
    split
    · obtain ⟨rfl, hcount⟩ := hholds.bvh order _ hbvh hfan
      exact mapM_queryTriangles hcount
    · exact hnested
  · exact hnested

omit [BoundedOrder F] [LinearOrder R] [LinearOrder F] in
theorem buildFanTrisH7_spec (counts indices : Range Int) (pointCount : Nat) :
    ∃ fan, buildFanTrisH7 counts indices pointCount = some fan ∧
      (fan.truncated = true ↔
        counts.isMissing ∨ indices.isMissing ∨ Overruns indices.values counts.values) ∧
      (counts.isMissing = false → indices.isMissing = false →
        fan.tris = ((fanSteps 0 counts.values).takeWhile (Step.inside indices.values)).filterMap
          (Step.triangle indices.values pointCount)) ∧
      (fan.truncated = false →
        fan.tris = walkTriangles indices.values pointCount counts.values) := by
  by_cases hmissing : counts.isMissing ∨ indices.isMissing
  · refine ⟨_, buildFanTrisH7_missing hmissing pointCount, ?_, ?_, ?_⟩
    · exact iff_of_true rfl (or_assoc.mp (Or.inl hmissing))
    · intro hcounts hindices
      rw [hcounts, hindices] at hmissing
      rcases hmissing with hmissing | hmissing <;> cases hmissing
    · intro htruncated
      cases htruncated
  · have hthere := not_or.mp hmissing
    rw [Bool.not_eq_true, Bool.not_eq_true] at hthere
    refine ⟨_, buildFanTrisH7_eq hthere.1 hthere.2 pointCount, ?_, fun _ _ => rfl, ?_⟩
    · rw [decide_eq_true_iff, hthere.1, hthere.2]
      simp
    · intro hinside
      dsimp only
      rw [takeWhile_inside (of_decide_eq_false hinside), walkTriangles]

omit [BoundedOrder F] [LinearOrder R] [LinearOrder F] in
/-- `Strict` lists a beginning of the walk, all of it where it is valid. -/
theorem buildFanTrisStrict_eq (hsize : indices.length < 2 ^ 63) (pointCount : Nat)
    (counts : List Int) :
    ∃ strict, buildFanTrisStrict indices pointCount counts = some strict ∧
      strict.tris <+: walkTriangles indices pointCount counts ∧
      (strict.valid = true → strict.tris = walkTriangles indices pointCount counts) ∧
      (strict.valid = true ↔
        FacesIn indices pointCount 0 counts ∧ counts.sum = indices.length) := by
  obtain ⟨strict, hstrict, ⟨more, hmore, hbefore, hwhole⟩, hvalid⟩ :=
    @fanFacesStrict_eq indices pointCount (by omega) 0 le_rfl counts []
  rw [List.nil_append] at hmore
  rw [Int.zero_add] at hvalid
  rw [← hmore] at hbefore hwhole
  exact ⟨strict, hstrict, hbefore, hwhole, hvalid⟩

/-- **Surface projection** reads inside its arrays and is the plain walk, whatever accelerator is
retained.  `H7` is truncated where a range is missing or the walk overruns and lists its triangles
up to there, `Strict` is valid exactly when every face has three or more corners in range and the
counts add up. -/
theorem surfaceProject (ops : SurfaceOps F R) (points : List (Point F))
    (surfacePoints : Range (Point F)) (counts indices : Range Int) (weight : Option R)
    (retained : Retained F) (pointCount : Nat) (hsize : indices.values.length < 2 ^ 63) :
    applySurfaceProject ops points surfacePoints counts indices weight retained.accel =
      some (plainProject ops points surfacePoints counts indices weight) ∧
    (∃ fan, buildFanTrisH7 counts indices pointCount = some fan ∧
      (fan.truncated = true ↔
        counts.isMissing ∨ indices.isMissing ∨ Overruns indices.values counts.values) ∧
      (counts.isMissing = false → indices.isMissing = false →
        fan.tris = ((fanSteps 0 counts.values).takeWhile (Step.inside indices.values)).filterMap
          (Step.triangle indices.values pointCount)) ∧
      (fan.truncated = false →
        fan.tris = walkTriangles indices.values pointCount counts.values)) ∧
    ∃ strict, buildFanTrisStrict indices.values pointCount counts.values = some strict ∧
      strict.tris <+: walkTriangles indices.values pointCount counts.values ∧
      (strict.valid = true →
        strict.tris = walkTriangles indices.values pointCount counts.values) ∧
      (strict.valid = true ↔
        FacesIn indices.values pointCount 0 counts.values ∧
          counts.values.sum = indices.values.length) :=
  ⟨applySurfaceProject_eq hsize points surfacePoints counts weight retained,
    buildFanTrisH7_spec counts indices pointCount,
    buildFanTrisStrict_eq hsize pointCount counts.values⟩

end

/-! ## One triangle -/

/-- Integers for floats, with the operations that the projection onto a lattice triangle needs. -/
def latticeOps : SurfaceOps (WithTop (WithBot Int)) (WithTop (WithBot Int)) :=
  let value (x : Option (WithTop (WithBot Int))) : Option Int := x.bind fun x => x.bind id
  let float (x : Int) : WithTop (WithBot Int) := some (some x)
  let both (f : Int → Int → Int) (a b : Option (WithTop (WithBot Int))) :
      Option (WithTop (WithBot Int)) :=
    (value a).bind fun a => (value b).map fun b => float (f a b)
  let dot (v w : Point (WithTop (WithBot Int))) := both (· + ·) (both (· + ·)
    (both (· * ·) (v 0) (w 0)) (both (· * ·) (v 1) (w 1))) (both (· * ·) (v 2) (w 2))
  { fltMax := float (2 ^ 128)
    zero := float 0
    one := float 1
    add := both (· + ·)
    sub := both (· - ·)
    mul := both (· * ·)
    div := both (· / ·)
    gfDot := dot
    getLengthSq := fun v => dot v v
    vecAdd := fun v w k => both (· + ·) (v k) (w k)
    vecSub := fun v w k => both (· - ·) (v k) (w k)
    vecMul := fun v s k => both (· * ·) (v k) s
    dblZero := float 0
    dblOne := float 1
    toFloat := id }

/-- A point with whole coordinates. -/
def latticePoint (x y z : Int) : Point (WithTop (WithBot Int)) := fun k =>
  some (some (some (if k = 0 then x else if k = 1 then y else z)))

def coordinates {F : Type} (p : Point F) : List (Option F) := [p 0, p 1, p 2]

/-- A triangle of the lattice. -/
def latticeSurface : List (Point (WithTop (WithBot Int))) :=
  [latticePoint 0 0 0, latticePoint 2 0 0, latticePoint 0 2 0]

/-- A face with two corners, whose offset counts, and a triangle, with the fan of another held; and
enough triangles and points for the index, which is held. -/
theorem surfaceProject_lattice :
    (applySurfaceProject latticeOps [latticePoint (-1) (-1) 5] (.of latticeSurface) (.of [2, 3])
        (.of [0, 1, 0, 1, 2]) (some (some (some 1))) (Retained.built [3] [2, 1, 0] []).accel).map
        (List.map coordinates) = some [coordinates (latticePoint 0 0 0)] ∧
    (∃ strict, buildFanTrisStrict [0, 1, 0, 1, 2] 3 [2, 3] = some strict ∧
      strict.valid = false) ∧
    (Retained.built (List.replicate 64 3) (List.replicate 64 [0, 1, 2]).flatten
        latticeSurface).accel.bind SurfaceAccel.bvh = some (List.range 64) ∧
    (applySurfaceProject latticeOps (List.replicate 4 (latticePoint (-1) (-1) 5))
        (.of latticeSurface) (.of (List.replicate 64 3))
        (.of (List.replicate 64 [0, 1, 2]).flatten) (some (some (some 1)))
        (Retained.built (List.replicate 64 3) (List.replicate 64 [0, 1, 2]).flatten
          latticeSurface).accel).map (List.map coordinates) =
      some (List.replicate 4 (coordinates (latticePoint 0 0 0))) := by
  obtain ⟨hproject, -, strict, hstrict, -, -, hvalid⟩ := surfaceProject latticeOps
    [latticePoint (-1) (-1) 5] (.of latticeSurface) (.of [2, 3]) (.of [0, 1, 0, 1, 2])
    (some (some (some 1))) (Retained.built [3] [2, 1, 0] []) 3 (by decide)
  obtain ⟨hindexed, -⟩ := surfaceProject latticeOps
    (List.replicate 4 (latticePoint (-1) (-1) 5)) (.of latticeSurface) (.of (List.replicate 64 3))
    (.of (List.replicate 64 [0, 1, 2]).flatten) (some (some (some 1)))
    (Retained.built (List.replicate 64 3) (List.replicate 64 [0, 1, 2]).flatten latticeSurface) 3
    (by decide +kernel)
  refine ⟨?_, ⟨strict, hstrict, ?_⟩, ?_, ?_⟩
  · rw [hproject]
    rfl
  · rw [← Bool.not_eq_true, hvalid]
    rintro ⟨⟨⟨hthree, -⟩, -⟩, -⟩
    exact absurd hthree (by decide)
  · decide +kernel
  · rw [hindexed]
    decide +kernel

end RigExec.Accel
