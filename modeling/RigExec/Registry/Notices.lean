/-
# `RigExec.Registry.Notices` — what the control ids of a notice stand for

`RigExecNoticeControlIdsFromPaths` drops a prim path that changed in info only
when another path of the notice lies at or under it: ancestor noise.  The other
path can be such a prim path itself, and be dropped for a third one.

    Represented    the path's own id is among the ids, or that of a path of the
                   notice strictly under it

A chain of such paths ends, for `HasPrefix` orders them, so the ids hold its
last member (`represented`).  A dropped path's own clusters are not reported: the
ids stand for the paths that replaced it (`ancestor_unreported`).
-/
import RigExec.Registry.Retire
import RigExec.Sparsity.Reuse
import Mathlib.Data.Set.Finite.Basic

namespace RigExec.Registry

open RigExec.Sparsity PathQueries

/-- What `SdfPath::HasPrefix` is documented to be: an order on the paths that are not empty. -/
class LawfulPaths [PathQueries] : Prop where
  hasPrefix_trans {a b c : SdfPath} : hasPrefix a b = true → hasPrefix b c = true →
    hasPrefix a c = true
  hasPrefix_antisymm {a b : SdfPath} : hasPrefix a b = true → hasPrefix b a = true → a = b
  ne_empty_of_hasPrefix {a b : SdfPath} : hasPrefix a b = true → a ≠ ""

section

variable [PathQueries]

/-- Every path a notice carries. -/
def Notice.paths (notice : Notice) : List SdfPath :=
  notice.resynced ++ notice.resolvedAssets ++ notice.changedInfoOnly

/-- A path strictly under another. -/
def StrictlyUnder (other path : SdfPath) : Prop := other ≠ path ∧ hasPrefix other path = true

/-- The ids hold the path, or one of the notice's paths strictly under it. -/
def Notice.Represented (notice : Notice) (path : SdfPath) : Prop :=
  ∃ named ∈ notice.paths, (named = path ∨ StrictlyUnder named path) ∧ named ∈ notice.controlIds

variable {notice : Notice} {path : SdfPath}

theorem self_mem_pathIds (h : path ≠ "") : path ∈ pathIds path := by
  rw [pathIds, if_neg h]
  split
  · exact List.mem_cons_self
  · exact List.mem_cons_self

/-- The ids are those of the paths that changed in structure, and of those that changed in info only
and are not shadowed. -/
theorem mem_controlIds {id : ControlId} : id ∈ notice.controlIds ↔
    (∃ path ∈ notice.resynced, id ∈ pathIds path) ∨
      (∃ path ∈ notice.resolvedAssets, id ∈ pathIds path) ∨
      ∃ path ∈ notice.changedInfoOnly,
        ¬ (isPrimPath path = true ∧ notice.shadows path = true) ∧ id ∈ pathIds path := by
  simp only [Notice.controlIds, Lib.mem_keysOf, List.map_id_fun, id_eq, List.mem_append,
    List.mem_flatMap, List.mem_filter, Bool.not_eq_true', Bool.and_eq_false_iff, not_and_or,
    Bool.not_eq_true, and_assoc, or_assoc]

theorem exists_of_shadows (h : notice.shadows path = true) :
    (∃ other ∈ notice.resynced ++ notice.resolvedAssets, hasPrefix other path = true) ∨
      ∃ other ∈ notice.paths, StrictlyUnder other path := by
  simp only [Notice.shadows, Bool.or_eq_true, List.any_eq_true, Bool.and_eq_true,
    decide_eq_true_eq] at h
  rcases h with (⟨other, hother, hunder⟩ | ⟨other, hother, hunder⟩) | ⟨other, hother, hunder⟩
  · exact .inl ⟨other, List.mem_append_left _ hother, hunder⟩
  · exact .inl ⟨other, List.mem_append_right _ hother, hunder⟩
  · exact .inr ⟨other, List.mem_append_right _ hother, hunder⟩

theorem pathIds_subset_of_structural (h : path ∈ notice.resynced ++ notice.resolvedAssets) :
    pathIds path ⊆ notice.controlIds := by
  intro id hid
  rw [mem_controlIds]
  rcases List.mem_append.mp h with h | h
  · exact .inl ⟨path, h, hid⟩
  · exact .inr (.inl ⟨path, h, hid⟩)

theorem pathIds_subset_of_unshadowed (h : path ∈ notice.paths)
    (hkept : ¬ (isPrimPath path = true ∧ notice.shadows path = true)) :
    pathIds path ⊆ notice.controlIds := by
  intro id hid
  rcases List.mem_append.mp h with hstructural | hinfo
  · exact pathIds_subset_of_structural hstructural hid
  · rw [mem_controlIds]
    exact .inr (.inr ⟨path, hinfo, hkept, hid⟩)

/-- One link of a chain: the ids hold the path, or the notice has a path strictly under it. -/
theorem held_or_under (h : path ∈ notice.paths) (hne : path ≠ "") :
    path ∈ notice.controlIds ∨ ∃ other ∈ notice.paths, StrictlyUnder other path := by
  by_cases hkept : isPrimPath path = true ∧ notice.shadows path = true
  · rcases exists_of_shadows hkept.2 with ⟨other, hother, hunder⟩ | hunder
    · rcases eq_or_ne other path with rfl | hdiffers
      · exact .inl (pathIds_subset_of_structural hother (self_mem_pathIds hne))
      · exact .inr ⟨other, List.mem_append_left _ hother, hdiffers, hunder⟩
    · exact .inr hunder
  · exact .inl (pathIds_subset_of_unshadowed h hkept (self_mem_pathIds hne))

variable [LawfulPaths]

theorem StrictlyUnder.trans {a b c : SdfPath} (hab : StrictlyUnder a b) (hbc : StrictlyUnder b c) :
    StrictlyUnder a c := by
  refine ⟨?_, LawfulPaths.hasPrefix_trans hab.2 hbc.2⟩
  rintro rfl
  exact hab.1 (LawfulPaths.hasPrefix_antisymm hab.2 hbc.2)

/-- The paths of a notice are finitely many: no chain of them goes on for ever. -/
theorem wellFounded_strictlyUnder (paths : List SdfPath) :
    WellFounded fun a b : { path // path ∈ paths } => StrictlyUnder a.1 b.1 := by
  have hfinite : Finite { path // path ∈ paths } := List.finite_toSet paths
  have htrans : IsTrans { path // path ∈ paths } fun a b => StrictlyUnder a.1 b.1 :=
    ⟨fun _ _ _ hab hbc => hab.trans hbc⟩
  have hirrefl : Std.Irrefl fun a b : { path // path ∈ paths } => StrictlyUnder a.1 b.1 :=
    ⟨fun _ h => h.1 rfl⟩
  exact Finite.wellFounded_of_trans_of_irrefl _

/-- **Normalization loses no path.** -/
theorem represented (h : path ∈ notice.paths) (hne : path ≠ "") : notice.Represented path := by
  have hall : ∀ place : { path // path ∈ notice.paths }, place.1 ≠ "" →
      notice.Represented place.1 := by
    intro place
    induction place using (wellFounded_strictlyUnder notice.paths).induction with
    | _ place ih =>
        intro hplace
        rcases held_or_under place.2 hplace with hheld | ⟨other, hother, hunder⟩
        · exact ⟨place.1, place.2, .inl rfl, hheld⟩
        · obtain ⟨named, hnamed, hat, hids⟩ := ih ⟨other, hother⟩ hunder
            (LawfulPaths.ne_empty_of_hasPrefix hunder.2)
          refine ⟨named, hnamed, .inr ?_, hids⟩
          rcases hat with rfl | hat
          · exact hunder
          · exact hat.trans hunder
  exact hall ⟨path, h⟩ hne

omit [PathQueries] [LawfulPaths] in
theorem affectedByControls_covers (index : OutputAffectedIndex) {controls : List ControlId}
    {control : ControlId} (h : control ∈ controls) :
    index.affectedByControls [control] ⊆ index.affectedByControls controls := by
  intro cluster hcluster
  exact index.mem_affectedByControls.mpr ⟨control, h, hcluster⟩

/-- **Notice normalization.**  Of every path of a notice the ids hold its own id or that of a path
strictly under it, with its clusters; and all ids of a path that is no shadowed prim path. -/
theorem noticeControlIds (notice : Notice) (index : OutputAffectedIndex) :
    (∀ path ∈ notice.paths, path ≠ "" →
      ∃ named ∈ notice.paths, (named = path ∨ StrictlyUnder named path) ∧
        named ∈ notice.controlIds ∧
        index.affectedByControls [named] ⊆ index.affectedByControls notice.controlIds) ∧
    ∀ path ∈ notice.paths,
      path ∈ notice.resynced ++ notice.resolvedAssets ∨
          ¬ (isPrimPath path = true ∧ ∃ other ∈ notice.paths, StrictlyUnder other path) →
        ∀ id ∈ pathIds path, id ∈ notice.controlIds ∧
          index.affectedByControls [id] ⊆ index.affectedByControls notice.controlIds := by
  refine ⟨?_, ?_⟩
  · intro path hpath hne
    obtain ⟨named, hnamed, hat, hids⟩ := represented hpath hne
    exact ⟨named, hnamed, hat, hids, affectedByControls_covers index hids⟩
  · intro path hpath hkept id hid
    have hids : id ∈ notice.controlIds := by
      rcases hkept with hstructural | hkept
      · exact pathIds_subset_of_structural hstructural hid
      · by_cases hshadowed : isPrimPath path = true ∧ notice.shadows path = true
        · rcases exists_of_shadows hshadowed.2 with ⟨other, hother, hunder⟩ | hunder
          · rcases eq_or_ne other path with rfl | hdiffers
            · exact pathIds_subset_of_structural hother hid
            · exact absurd ⟨hshadowed.1, other, List.mem_append_left _ hother, hdiffers, hunder⟩
                hkept
          · exact absurd ⟨hshadowed.1, hunder⟩ hkept
        · exact pathIds_subset_of_unshadowed hpath hshadowed hid
    exact ⟨hids, affectedByControls_covers index hids⟩

end

/-! ## Paths as texts -/

/-- Absolute paths below the root: a slash before each prim's name, a dot before a property's. -/
@[reducible] def textPaths : PathQueries where
  isPropertyPath path := path.toList.contains '.'
  isPrimPath path := path ≠ "" && !path.toList.contains '.'
  getPrimPath path := String.ofList (path.toList.takeWhile (· ≠ '.'))
  hasPrefix path other := decide (path ≠ "" ∧ (path = other ∨
    (other.toList ++ ['/']) <+: path.toList ∨ (other.toList ++ ['.']) <+: path.toList))
  parse text := text

theorem textPaths_lawful : @LawfulPaths textPaths := by
  refine @LawfulPaths.mk textPaths ?_ ?_ ?_
  · intro a b c hab hbc
    obtain ⟨hne, hab⟩ := of_decide_eq_true hab
    obtain ⟨-, hbc⟩ := of_decide_eq_true hbc
    refine decide_eq_true ⟨hne, ?_⟩
    rcases hab with rfl | hab
    · exact hbc
    · have hunder : b.toList <+: a.toList := by
        rcases hab with hab | hab
        · exact (List.prefix_append _ _).trans hab
        · exact (List.prefix_append _ _).trans hab
      rcases hbc with rfl | hbc | hbc
      · exact .inr hab
      · exact .inr (.inl (hbc.trans hunder))
      · exact .inr (.inr (hbc.trans hunder))
  · intro a b hab hba
    obtain ⟨-, hab⟩ := of_decide_eq_true hab
    obtain ⟨-, hba⟩ := of_decide_eq_true hba
    rcases hab with rfl | hab
    · rfl
    · rcases hba with rfl | hba
      · rfl
      · have hlt : b.toList.length < a.toList.length := by
          rcases hab with hab | hab
          · exact Nat.lt_of_succ_le (by simpa using hab.length_le)
          · exact Nat.lt_of_succ_le (by simpa using hab.length_le)
        have hgt : a.toList.length < b.toList.length := by
          rcases hba with hba | hba
          · exact Nat.lt_of_succ_le (by simpa using hba.length_le)
          · exact Nat.lt_of_succ_le (by simpa using hba.length_le)
        omega
  · intro a b hab
    exact (of_decide_eq_true hab).1

/-- A rig, a control under it and an attribute of the control, all changed in info only. -/
def chainNotice : Notice where
  changedInfoOnly := ["/Rig", "/Rig/Ctl", "/Rig/Ctl.tx"]

/-- A program that routes the rig's prim to its second cluster, and the control to its first. -/
def rigIndex : OutputAffectedIndex where
  clusterCount := 2
  epochDigest := 7
  cones := [{0}, {1}]
  always := ∅
  varying := ∅
  override := ∅
  seeds control := if control = "/Rig" then [1] else [0]
  controlUniverse := {"/Rig", "/Rig/Ctl", "/Rig/Ctl.tx"}
  cones_sized := twoCones_sized

/-- The rig's path is dropped for the control's, and that one for the attribute's, whose prim stands
for both. -/
theorem noticeControlIds_chain :
    "/Rig" ∈ chainNotice.paths ∧
    ∃ named ∈ chainNotice.paths, (named = "/Rig" ∨ @StrictlyUnder textPaths named "/Rig") ∧
      named ∈ @Notice.controlIds textPaths chainNotice ∧
      rigIndex.affectedByControls [named] ⊆
        rigIndex.affectedByControls (@Notice.controlIds textPaths chainNotice) :=
  ⟨by decide,
    (@noticeControlIds textPaths textPaths_lawful chainNotice rigIndex).1 "/Rig" (by decide)
      (by decide)⟩

/-- The rig's prim changed and is routed to the second cluster, which the ids do not report. -/
theorem ancestor_unreported :
    "/Rig" ∈ chainNotice.paths ∧
    @Notice.controlIds textPaths chainNotice = ["/Rig/Ctl", "/Rig/Ctl.tx"] ∧
    1 ∈ rigIndex.affectedByControls ["/Rig"] ∧
    1 ∉ rigIndex.affectedByControls (@Notice.controlIds textPaths chainNotice) := by
  have hids : @Notice.controlIds textPaths chainNotice = ["/Rig/Ctl", "/Rig/Ctl.tx"] := by
    decide +kernel
  refine ⟨by decide, hids, by decide, ?_⟩
  rw [hids]
  decide

end RigExec.Registry
