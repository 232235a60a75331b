/-
# `RigExec.Snapshot.Publish` — a publication names what changed

A publication answers one entry for each path at which something changed
(`reported_dirtiedBy`): the prim's own diff, `structural` where the prim left, and
the transform's flag where a reset boundary came or went.  `DiffExact` is what such
an answer is for:

    complete      what is not named is drawn as before
    minimal       what is named differs
    once          nothing is named twice
    identical     the same prims and boundaries again are not news
    structural    whoever owns other leaves is named as structural
    leaves        the flags are the leaves that changed

Three things stand between the diff and that (`publish_exact_iff`).  Shader matrices
that are as many as before and have other names are reported as moved values.  A
value that does not equal itself is news every time.  And a generation's own asset
root places the guides of prims that name none, and is not compared.
-/
import RigExec.Snapshot.Diff

namespace RigExec.Snapshot

open Lib

section

variable [UsdTypes]

/-! ## One entry a path -/

omit [UsdTypes] in
/-- The flags a list has for a path. -/
def reported (dirtied : List PublishedDirty) (path : SdfPath) : Option UInt16 :=
  (dirtied.find? fun entry => entry.path = path).map PublishedDirty.changes

variable (previous next : Option ImagingSnapshot)

/-- What a publication has to say of a prim. -/
def primChange (path : SdfPath) : Option UInt16 :=
  match primAt next path with
  | some after =>
      let changes := diff (primAt previous path) after
      if changes = 0 then none else some changes
  | none => (primAt previous path).map fun _ => PublishedChange.structural.bit

omit [UsdTypes] in
theorem reported_eq_some_iff {dirtied : List PublishedDirty}
    (hnodup : (dirtied.map PublishedDirty.path).Nodup) {path : SdfPath} {changes : UInt16} :
    reported dirtied path = some changes ↔ { path := path, changes := changes } ∈ dirtied := by
  constructor
  · intro h
    obtain ⟨entry, hentry, rfl⟩ := Option.map_eq_some_iff.mp h
    have hpath : entry.path = path := by simpa using List.find?_some hentry
    rw [← hpath]
    exact List.mem_of_find?_eq_some hentry
  · intro hin
    obtain ⟨entry, hentry⟩ : ∃ entry, dirtied.find? (fun entry => entry.path = path) = some entry := by
      rw [← Option.isSome_iff_exists, List.find?_isSome]
      exact ⟨_, hin, decide_eq_true rfl⟩
    have hpath : entry.path = path := by simpa using List.find?_some hentry
    have hsame := List.inj_on_of_nodup_map hnodup (List.mem_of_find?_eq_some hentry) hin hpath
    rw [reported, hentry, hsame]
    rfl

omit [UsdTypes] in
theorem reported_eq_none_iff {dirtied : List PublishedDirty} {path : SdfPath} :
    reported dirtied path = none ↔ path ∉ dirtied.map PublishedDirty.path := by
  rw [reported, Option.map_eq_none_iff, List.find?_eq_none, List.mem_map, not_exists]
  simp only [decide_eq_true_eq, not_and]

theorem mem_primRows_iff {snapshot : Option ImagingSnapshot} {path : SdfPath}
    {prim : PublishedPrim} : (path, prim) ∈ primRows snapshot ↔ primAt snapshot path = some prim := by
  cases snapshot with
  | none => simp [primRows, primAt]
  | some snapshot => exact OrderedMap.mem_rows_iff

theorem primRows_nodup (snapshot : Option ImagingSnapshot) :
    ((primRows snapshot).map Prod.fst).Nodup := by
  cases snapshot with
  | none => exact List.nodup_nil
  | some snapshot => exact snapshot.prims.keys_nodup

def primEntries : List PublishedDirty :=
  (primRows next).filterMap (changedPrim previous) ++
    (primRows previous).filterMap (removedPrim next)

theorem changedPrim_eq_some_iff {previous : Option ImagingSnapshot}
    {row : SdfPath × PublishedPrim} {entry : PublishedDirty} :
    changedPrim previous row = some entry ↔
      diff (primAt previous row.1) row.2 ≠ 0 ∧
        entry = { path := row.1, changes := diff (primAt previous row.1) row.2 } := by
  unfold changedPrim
  rcases eq_or_ne (diff (primAt previous row.1) row.2) 0 with hzero | hne
  · simp [hzero]
  · simp [hne, eq_comm]

theorem removedPrim_eq_some_iff {next : Option ImagingSnapshot} {row : SdfPath × PublishedPrim}
    {entry : PublishedDirty} :
    removedPrim next row = some entry ↔
      primAt next row.1 = none ∧
        entry = { path := row.1, changes := PublishedChange.structural.bit } := by
  unfold removedPrim
  cases primAt next row.1 with
  | none => simp [eq_comm]
  | some prim => simp

theorem primEntries_nodup :
    ((primEntries previous next).map PublishedDirty.path).Nodup := by
  have hkept : (((primRows next).filterMap (changedPrim previous)).map PublishedDirty.path).Sublist
      ((primRows next).map Prod.fst) := by
    refine filterMap_keys_sublist ?_ _
    intro row entry hentry
    rw [(changedPrim_eq_some_iff.mp hentry).2]
  have hgone : (((primRows previous).filterMap (removedPrim next)).map
      PublishedDirty.path).Sublist ((primRows previous).map Prod.fst) := by
    refine filterMap_keys_sublist ?_ _
    intro row entry hentry
    rw [(removedPrim_eq_some_iff.mp hentry).2]
  rw [primEntries, List.map_append, List.nodup_append']
  refine ⟨hkept.nodup (primRows_nodup next), hgone.nodup (primRows_nodup previous), ?_⟩
  intro path hin hout
  obtain ⟨row, hrow, rfl⟩ := List.mem_map.mp (hkept.subset hin)
  obtain ⟨entry, hentry, hpath⟩ := List.mem_map.mp hout
  obtain ⟨row', -, hpick⟩ := List.mem_filterMap.mp hentry
  obtain ⟨hnone, rfl⟩ := removedPrim_eq_some_iff.mp hpick
  have hsome := mem_primRows_iff.mp hrow
  rw [← hpath, hnone] at hsome
  cases hsome

theorem reported_primEntries (path : SdfPath) :
    reported (primEntries previous next) path = primChange previous next path := by
  refine Option.ext ?_
  intro changes
  rw [reported_eq_some_iff (primEntries_nodup previous next), primEntries, List.mem_append,
    List.mem_filterMap, List.mem_filterMap]
  unfold primChange
  constructor
  · rintro (⟨⟨key, after⟩, hrow, hpick⟩ | ⟨⟨key, before⟩, hrow, hpick⟩)
    · obtain ⟨hne, heq⟩ := changedPrim_eq_some_iff.mp hpick
      cases heq
      simp only [mem_primRows_iff.mp hrow, if_neg hne]
    · obtain ⟨hnone, heq⟩ := removedPrim_eq_some_iff.mp hpick
      cases heq
      simp only [hnone, mem_primRows_iff.mp hrow, Option.map_some]
  · intro h
    cases hafter : primAt next path with
    | some after =>
        simp only [hafter] at h
        split at h
        · cases h
        · next hne =>
            cases h
            exact Or.inl ⟨(path, after), mem_primRows_iff.mpr hafter,
              changedPrim_eq_some_iff.mpr ⟨hne, rfl⟩⟩
    | none =>
        simp only [hafter] at h
        obtain ⟨before, hbefore, rfl⟩ := Option.map_eq_some_iff.mp h
        exact Or.inr ⟨(path, before), mem_primRows_iff.mpr hbefore,
          removedPrim_eq_some_iff.mpr ⟨hafter, rfl⟩⟩

/-! ## Reset boundaries -/

omit [UsdTypes] in
theorem reported_markReset (dirtied : List PublishedDirty) (path path' : SdfPath) :
    reported (markReset dirtied path) path' =
      if path' = path then
        some ((reported dirtied path).getD 0 ||| PublishedChange.xform.bit)
      else reported dirtied path' := by
  induction dirtied with
  | nil =>
      rcases eq_or_ne path' path with rfl | hne
      · simp [markReset, reported]
      · simp [markReset, reported, hne, hne.symm]
  | cons entry dirtied ih =>
      have hcons : ∀ (first : PublishedDirty) (rest : List PublishedDirty) (key : SdfPath),
          reported (first :: rest) key =
            if first.path = key then some first.changes else reported rest key := by
        intro first rest key
        rw [reported, List.find?_cons]
        rcases eq_or_ne first.path key with heq | hne
        · simp [heq]
        · simp [hne, reported]
      rw [markReset]
      split
      · next heq =>
          rw [hcons, hcons, hcons, heq]
          rcases eq_or_ne path' path with rfl | hne
          · simp
          · simp [hne, hne.symm]
      · next hne =>
          rw [hcons, ih, hcons, hcons, if_neg hne]
          rcases eq_or_ne path' path with rfl | hother
          · simp [hne]
          · simp [hother]

omit [UsdTypes] in
theorem markReset_paths (dirtied : List PublishedDirty) (path : SdfPath) :
    (markReset dirtied path).map PublishedDirty.path =
      if path ∈ dirtied.map PublishedDirty.path then dirtied.map PublishedDirty.path
      else dirtied.map PublishedDirty.path ++ [path] := by
  induction dirtied with
  | nil => rfl
  | cons entry dirtied ih =>
      rw [markReset]
      split
      · next heq => simp [heq]
      · next hne =>
          rw [List.map_cons, ih]
          simp only [List.map_cons, List.mem_cons, Ne.symm hne, false_or]
          split_ifs <;> rfl

omit [UsdTypes] in
theorem nodup_markReset {dirtied : List PublishedDirty} {path : SdfPath}
    (h : (dirtied.map PublishedDirty.path).Nodup) :
    ((markReset dirtied path).map PublishedDirty.path).Nodup := by
  rw [markReset_paths]
  split
  · exact h
  · next hout =>
      rw [List.nodup_append']
      refine ⟨h, List.nodup_singleton path, ?_⟩
      intro other hin hpath
      rw [List.mem_singleton.mp hpath] at hin
      exact hout hin

omit [UsdTypes] in
theorem reported_foldl_markReset {paths : List SdfPath} (hnodup : paths.Nodup)
    {dirtied : List PublishedDirty} (h : (dirtied.map PublishedDirty.path).Nodup) :
    ((paths.foldl markReset dirtied).map PublishedDirty.path).Nodup ∧
      ∀ path, reported (paths.foldl markReset dirtied) path =
        if path ∈ paths then some ((reported dirtied path).getD 0 ||| PublishedChange.xform.bit)
        else reported dirtied path := by
  induction paths generalizing dirtied with
  | nil => exact ⟨h, fun _ => rfl⟩
  | cons first paths ih =>
      obtain ⟨hout, hpaths⟩ := List.nodup_cons.mp hnodup
      obtain ⟨hkept, hreported⟩ := ih hpaths (nodup_markReset h)
      refine ⟨hkept, ?_⟩
      intro path
      rw [List.foldl_cons, hreported, reported_markReset]
      rcases eq_or_ne path first with rfl | hne
      · simp [hout]
      · simp [hne]

omit [UsdTypes] in
theorem mem_resetPaths_iff [UsdTypes] {snapshot : Option ImagingSnapshot} {path : SdfPath} :
    path ∈ resetPaths snapshot ↔ resetAt snapshot path = true := by
  cases snapshot with
  | none => simp [resetPaths, resetAt]
  | some snapshot =>
      show path ∈ snapshot.xformResetPaths.keys ↔
        (snapshot.xformResetPaths.find? path).isSome = true
      rw [OrderedMap.mem_keys_iff, Option.isSome_iff_exists]

theorem mem_resetChanges_iff {previous next : Option ImagingSnapshot} {path : SdfPath} :
    path ∈ resetChanges previous next ↔ resetAt previous path ≠ resetAt next path := by
  rw [resetChanges, mem_sortUnique, List.mem_append, List.mem_filter, List.mem_filter,
    mem_resetPaths_iff, mem_resetPaths_iff]
  cases resetAt previous path <;> cases resetAt next path <;> decide

theorem nodup_resetChanges :
    (resetChanges previous next).Nodup := (ascending_sortUnique _).nodup

theorem dirtiedBy_nodup :
    ((dirtiedBy previous next).map PublishedDirty.path).Nodup :=
  (reported_foldl_markReset (nodup_resetChanges previous next)
    (primEntries_nodup previous next)).1

/-- **What a publication says of a path.** -/
theorem reported_dirtiedBy (path : SdfPath) :
    reported (dirtiedBy previous next) path =
      if resetAt previous path ≠ resetAt next path then
        some ((primChange previous next path).getD 0 ||| PublishedChange.xform.bit)
      else primChange previous next path := by
  have hdirtied : dirtiedBy previous next =
      (resetChanges previous next).foldl markReset (primEntries previous next) := rfl
  rw [hdirtied, (reported_foldl_markReset (nodup_resetChanges previous next)
    (primEntries_nodup previous next)).2, reported_primEntries]
  simp only [mem_resetChanges_iff]

/-! ## What a publication is for -/

/-- A prim of a generation as it is read. -/
def drawnAt (snapshot : Option ImagingSnapshot) (path : SdfPath) : Option DrawnPrim :=
  (primAt snapshot path).map (draw (snapshot.elim "" ImagingSnapshot.assetRoot))

/-- The same prims and reset boundaries. -/
structure Identical (previous next : Option ImagingSnapshot) : Prop where
  prims : ∀ path, primAt previous path = primAt next path
  resets : ∀ path, resetAt previous path = resetAt next path

/-- An answer that names what changed between two generations, and how. -/
structure DiffExact (previous next : Option ImagingSnapshot) (dirtied : List PublishedDirty) :
    Prop where
  complete : ∀ path, path ∉ dirtied.map PublishedDirty.path →
    (drawnAt previous path == drawnAt next path) = true ∧ resetAt previous path = resetAt next path
  minimal : ∀ entry ∈ dirtied,
    (primAt previous entry.path == primAt next entry.path) = false ∨
      resetAt previous entry.path ≠ resetAt next entry.path
  once : (dirtied.map PublishedDirty.path).Nodup
  identical : Identical previous next → dirtied = []
  structural : ∀ path,
    (primAt previous path).map PublishedPrim.owns ≠ (primAt next path).map PublishedPrim.owns →
      ∃ entry ∈ dirtied, entry.path = path ∧ hasFlag entry.changes .structural = true
  leaves : ∀ entry ∈ dirtied, hasFlag entry.changes .structural = false →
    ∀ before after, primAt previous entry.path = some before →
      primAt next entry.path = some after → ∀ flag,
        hasFlag entry.changes flag =
          (!sameLeaf before after flag || decide (flag = .xform) &&
            (resetAt previous entry.path != resetAt next entry.path))

/-- No prim keeps its representation and renames its shader matrices. -/
def NamesKept : Prop :=
  ∀ path before after, primAt previous path = some before → primAt next path = some after →
    SameRepresentation before after → before.shaderMatrices.keys = after.shaderMatrices.keys

/-- Where nothing is news, all that is drawn equals itself. -/
def EqualsItself : Prop :=
  Identical previous next → ∀ path prim, primAt next path = some prim →
    (draw "" prim == draw "" prim) = true

/-- No prim that names no asset root, and is otherwise unchanged, has guides placed by another
one. -/
def RootKept : Prop :=
  ∀ path before after, primAt previous path = some before → primAt next path = some after →
    SameRepresentation before after → (∀ flag, sameLeaf before after flag = true) →
      resetAt previous path = resetAt next path → after.drawsGuides = true →
        after.assetRoot = "" →
          previous.elim "" ImagingSnapshot.assetRoot = next.elim "" ImagingSnapshot.assetRoot

theorem reported_dirtiedBy_eq_none_iff {previous next : Option ImagingSnapshot} {path : SdfPath} :
    reported (dirtiedBy previous next) path = none ↔
      resetAt previous path = resetAt next path ∧ primChange previous next path = none := by
  rw [reported_dirtiedBy]
  rcases eq_or_ne (resetAt previous path) (resetAt next path) with heq | hne
  · simp [heq]
  · simp [hne]

theorem hasFlag_reported {previous next : Option ImagingSnapshot} {path : SdfPath}
    {changes : UInt16} (h : reported (dirtiedBy previous next) path = some changes)
    (flag : PublishedChange) :
    hasFlag changes flag =
      (hasFlag ((primChange previous next path).getD 0) flag || decide (flag = .xform) &&
        (resetAt previous path != resetAt next path)) := by
  rw [reported_dirtiedBy] at h
  rcases eq_or_ne (resetAt previous path) (resetAt next path) with heq | hne
  · rw [if_neg (not_not.mpr heq)] at h
    rw [h, heq, bne_self_eq_false, Bool.and_false, Bool.or_false]
    rfl
  · rw [if_pos hne, Option.some.injEq] at h
    rw [← h, hasFlag_or, hasFlag_bit, bne_iff_ne.mpr hne, Bool.and_true]
    simp only [eq_comm]

theorem primChange_of_both {previous next : Option ImagingSnapshot} {path : SdfPath}
    {before after : PublishedPrim} (hbefore : primAt previous path = some before)
    (hafter : primAt next path = some after) :
    (primChange previous next path).getD 0 = diff (some before) after ∧
      (primChange previous next path = none ↔ diff (some before) after = 0) := by
  simp only [primChange, hbefore, hafter]
  rcases eq_or_ne (diff (some before) after) 0 with hzero | hne
  · simp [hzero]
  · simp [hne]

theorem primChange_of_one {previous next : Option ImagingSnapshot} {path : SdfPath}
    (h : (primAt previous path).isSome ≠ (primAt next path).isSome) :
    primChange previous next path = some PublishedChange.structural.bit := by
  cases hbefore : primAt previous path with
  | none =>
      cases hafter : primAt next path with
      | none => rw [hbefore, hafter] at h; exact absurd rfl h
      | some after =>
          have hbit : PublishedChange.structural.bit ≠ 0 := by decide
          simp [primChange, hbefore, hafter, diff, hbit]
  | some before =>
      cases hafter : primAt next path with
      | none => simp [primChange, hbefore, hafter]
      | some after => rw [hbefore, hafter] at h; exact absurd rfl h

theorem primChange_of_neither {previous next : Option ImagingSnapshot} {path : SdfPath}
    (hbefore : primAt previous path = none) (hafter : primAt next path = none) :
    primChange previous next path = none := by
  simp [primChange, hbefore, hafter]

/-! ## The clauses -/

theorem mem_dirtiedBy_iff {previous next : Option ImagingSnapshot} {entry : PublishedDirty} :
    entry ∈ dirtiedBy previous next ↔
      reported (dirtiedBy previous next) entry.path = some entry.changes :=
  (reported_eq_some_iff (dirtiedBy_nodup previous next)).symm

theorem complete_iff :
    (∀ path, path ∉ (dirtiedBy previous next).map PublishedDirty.path →
      (drawnAt previous path == drawnAt next path) = true ∧
        resetAt previous path = resetAt next path) ↔ RootKept previous next := by
  constructor
  · intro hcomplete path before after hbefore hafter hsame hleaves hreset hdraws hempty
    have hnone : reported (dirtiedBy previous next) path = none :=
      reported_dirtiedBy_eq_none_iff.mpr ⟨hreset, (primChange_of_both hbefore hafter).2.mpr
        (diff_eq_zero_iff.mpr ⟨hsame, hleaves⟩)⟩
    have hdrawn := (hcomplete path (reported_eq_none_iff.mp hnone)).1
    rw [drawnAt, drawnAt, hbefore, hafter] at hdrawn
    exact ((draw_beq_iff hsame _ _).mp hdrawn).2 hdraws hempty
  · intro hroot path hout
    obtain ⟨hreset, hchange⟩ := reported_dirtiedBy_eq_none_iff.mp (reported_eq_none_iff.mpr hout)
    refine ⟨?_, hreset⟩
    rw [drawnAt, drawnAt]
    cases hbefore : primAt previous path with
    | none =>
        cases hafter : primAt next path with
        | none => rfl
        | some after =>
            rw [primChange_of_one (by simp [hbefore, hafter])] at hchange
            cases hchange
    | some before =>
        cases hafter : primAt next path with
        | none =>
            rw [primChange_of_one (by simp [hbefore, hafter])] at hchange
            cases hchange
        | some after =>
            obtain ⟨hsame, hleaves⟩ :=
              diff_eq_zero_iff.mp ((primChange_of_both hbefore hafter).2.mp hchange)
            exact (draw_beq_iff hsame _ _).mpr
              ⟨hleaves, hroot path before after hbefore hafter hsame hleaves hreset⟩

theorem minimal_dirtiedBy {previous next : Option ImagingSnapshot} {entry : PublishedDirty}
    (hin : entry ∈ dirtiedBy previous next) :
    (primAt previous entry.path == primAt next entry.path) = false ∨
      resetAt previous entry.path ≠ resetAt next entry.path := by
  rcases eq_or_ne (resetAt previous entry.path) (resetAt next entry.path) with hreset | hreset
  · refine Or.inl (Bool.eq_false_iff.mpr ?_)
    intro hsame
    have hnone : primChange previous next entry.path = none := by
      cases hbefore : primAt previous entry.path with
      | none =>
          cases hafter : primAt next entry.path with
          | none => exact primChange_of_neither hbefore hafter
          | some after => rw [hbefore, hafter] at hsame; cases hsame
      | some before =>
          cases hafter : primAt next entry.path with
          | none => rw [hbefore, hafter] at hsame; cases hsame
          | some after =>
              rw [hbefore, hafter] at hsame
              exact (primChange_of_both hbefore hafter).2.mpr (diff_eq_zero_of_beq hsame)
    have hreported := mem_dirtiedBy_iff.mp hin
    rw [reported_dirtiedBy_eq_none_iff.mpr ⟨hreset, hnone⟩] at hreported
    cases hreported
  · exact Or.inr hreset

theorem identical_iff :
    (Identical previous next → dirtiedBy previous next = []) ↔ EqualsItself previous next := by
  refine imp_congr_right ?_
  intro hidentical
  have hpath : ∀ path, reported (dirtiedBy previous next) path = none ↔
      ∀ prim, primAt next path = some prim → (draw "" prim == draw "" prim) = true := by
    intro path
    rw [reported_dirtiedBy_eq_none_iff]
    have hprims := hidentical.prims path
    cases hafter : primAt next path with
    | none =>
        simp [hidentical.resets path, primChange_of_neither (hprims.trans hafter) hafter]
    | some prim =>
        rw [(primChange_of_both (hprims.trans hafter) hafter).2, diff_self_eq_zero_iff]
        simp [hidentical.resets path]
  constructor
  · intro hnil path prim hprim
    refine (hpath path).mp ?_ prim hprim
    rw [hnil]
    rfl
  · intro hself
    refine List.eq_nil_iff_forall_not_mem.mpr ?_
    intro entry hin
    have hreported := mem_dirtiedBy_iff.mp hin
    rw [(hpath entry.path).mpr (hself entry.path)] at hreported
    cases hreported

theorem structural_iff :
    (∀ path, (primAt previous path).map PublishedPrim.owns ≠
        (primAt next path).map PublishedPrim.owns →
      ∃ entry ∈ dirtiedBy previous next, entry.path = path ∧
        hasFlag entry.changes .structural = true) ↔ NamesKept previous next := by
  constructor
  · intro hstructural path before after hbefore hafter hsame
    by_contra hkeys
    have howns : (primAt previous path).map PublishedPrim.owns ≠
        (primAt next path).map PublishedPrim.owns := by
      rw [hbefore, hafter, Option.map_some, Option.map_some, ne_eq, Option.some.injEq,
        owns_eq_iff hsame]
      exact hkeys
    obtain ⟨entry, hin, rfl, hflag⟩ := hstructural path howns
    rw [hasFlag_reported (mem_dirtiedBy_iff.mp hin), (primChange_of_both hbefore hafter).1,
      hasFlag_diff_structural, structuralChange_iff.mpr hsame] at hflag
    cases hflag
  · intro hnames path howns
    have hchange : ∃ changes, primChange previous next path = some changes ∧
        hasFlag changes .structural = true := by
      cases hbefore : primAt previous path with
      | none =>
          cases hafter : primAt next path with
          | none => rw [hbefore, hafter] at howns; exact absurd rfl howns
          | some after =>
              exact ⟨_, primChange_of_one (by simp [hbefore, hafter]), by decide⟩
      | some before =>
          cases hafter : primAt next path with
          | none => exact ⟨_, primChange_of_one (by simp [hbefore, hafter]), by decide⟩
          | some after =>
              have hstructural : structuralChange before after = true := by
                by_contra hkept
                have hsame := structuralChange_iff.mp (Bool.eq_false_iff.mpr hkept)
                rw [hbefore, hafter] at howns
                exact howns (congrArg some ((owns_eq_iff hsame).mpr
                  (hnames path before after hbefore hafter hsame)))
              have hdiff : diff (some before) after = PublishedChange.structural.bit := by
                rw [diff_some, hstructural, if_pos rfl]
              refine ⟨diff (some before) after, ?_, ?_⟩
              · have hne : diff (some before) after ≠ 0 := by
                  rw [hdiff]
                  decide
                simp only [primChange, hbefore, hafter, if_neg hne]
              · rw [hasFlag_diff_structural, hstructural]
    obtain ⟨changes, hsome, hflag⟩ := hchange
    cases hreported : reported (dirtiedBy previous next) path with
    | none =>
        rw [(reported_dirtiedBy_eq_none_iff.mp hreported).2] at hsome
        cases hsome
    | some reportedChanges =>
        refine ⟨{ path := path, changes := reportedChanges }, mem_dirtiedBy_iff.mpr hreported,
          rfl, ?_⟩
        rw [hasFlag_reported hreported, hsome, Option.getD_some, hflag, Bool.true_or]

theorem leaves_dirtiedBy {previous next : Option ImagingSnapshot} {entry : PublishedDirty}
    (hin : entry ∈ dirtiedBy previous next) (hkept : hasFlag entry.changes .structural = false)
    {before after : PublishedPrim} (hbefore : primAt previous entry.path = some before)
    (hafter : primAt next entry.path = some after) (flag : PublishedChange) :
    hasFlag entry.changes flag =
      (!sameLeaf before after flag || decide (flag = .xform) &&
        (resetAt previous entry.path != resetAt next entry.path)) := by
  have hreported := mem_dirtiedBy_iff.mp hin
  have hdiff := (primChange_of_both hbefore hafter).1
  have hsame : SameRepresentation before after := by
    rw [hasFlag_reported hreported, hdiff, hasFlag_diff_structural, Bool.or_eq_false_iff] at hkept
    exact structuralChange_iff.mp hkept.1
  rw [hasFlag_reported hreported, hdiff, hasFlag_diff hsame]

/-- **A publication names what changed exactly where** no prim keeps its representation and renames
its shader matrices, nothing that is published again differs from itself, and no guides hang on a
generation's own asset root that moved. -/
theorem publish_exact_iff (store : SnapshotStore) (snapshot : Option ImagingSnapshot) :
    DiffExact store.current (store.publish snapshot).1.current (store.publish snapshot).2 ↔
      NamesKept store.current (store.publish snapshot).1.current ∧
        EqualsItself store.current (store.publish snapshot).1.current ∧
          RootKept store.current (store.publish snapshot).1.current := by
  have hdirtied : (store.publish snapshot).2 =
      dirtiedBy store.current (store.publish snapshot).1.current := rfl
  rw [hdirtied, ← structural_iff, ← identical_iff, ← complete_iff]
  constructor
  · intro h
    exact ⟨h.structural, h.identical, h.complete⟩
  · rintro ⟨hstructural, hidentical, hcomplete⟩
    exact ⟨hcomplete, fun _ hin => minimal_dirtiedBy hin, dirtiedBy_nodup _ _, hidentical,
      hstructural, fun _ hin hkept _ _ hbefore hafter flag =>
        leaves_dirtiedBy hin hkept hbefore hafter flag⟩

end

/-! ## Three generations that are not told apart -/

/-- USD's types as the lists of their numbers. -/
@[reducible] def plainTypes : UsdTypes where
  GfMatrix4d := List Float64
  GfVec3d := List Float64
  GfVec3f := List Float32
  VtVec3fArray := List (List Float32)
  VtIntArray := List Int
  VtFloatArray := List Float32
  matrixEqual := inferInstance
  vec3dEqual := inferInstance
  vec3fEqual := inferInstance
  pointsEqual := inferInstance
  intsEqual := inferInstance
  floatsEqual := inferInstance

/-- `0.0`, `1.0` and a NaN. -/
def zero64 : Float64 := ⟨0⟩
def one64 : Float64 := ⟨0x3ff0000000000000⟩
def nan64 : Float64 := ⟨0x7ff8000000000000⟩

/-- A matrix of one number along its diagonal. -/
def diagonal (x : Float64) : List Float64 :=
  [x, zero64, zero64, zero64, zero64, x, zero64, zero64, zero64, zero64, x, zero64, zero64, zero64,
    zero64, x]

/-- A prim that owns nothing. -/
def blankPrim : @PublishedPrim plainTypes :=
  @PublishedPrim.mk plainTypes "" false (diagonal one64) (diagonal one64) ∅ ∅ false [] false []
    false [zero64, zero64, zero64] [zero64, zero64, zero64] [] [] [] [] [] [] [] false [] [] [] []
    [⟨0x3f800000⟩, ⟨0x3e99999a⟩, ⟨0x3e99999a⟩] ⟨0x3f000000⟩ "" false false (diagonal one64)
    (diagonal one64) "" [] [] "" "" [one64, one64, one64] ⟨0x3fa999999999999a⟩ false [] false []

/-- A generation of one prim. -/
def generationOf (prim : @PublishedPrim plainTypes) (root : SdfPath)
    : @ImagingSnapshot plainTypes :=
  @ImagingSnapshot.mk plainTypes ⟨[("/Asset/Eye", prim)], List.pairwise_singleton _ _⟩ false ∅ root

/-- A prim with a shader matrix of a name. -/
def shaded (name : TfToken) : @PublishedPrim plainTypes :=
  letI := plainTypes
  { blankPrim with
    shaderMatrices := ⟨[(name, diagonal one64)], List.pairwise_singleton _ _⟩ }

/-- A prim driven by a matrix. -/
def driven (x : Float64) : @PublishedPrim plainTypes :=
  letI := plainTypes
  { blankPrim with hasXform := true, xform := diagonal x }

/-- A prim with a guide and no asset root. -/
def guided : @PublishedPrim plainTypes :=
  letI := plainTypes
  { blankPrim with
    hasGuides := true, guideFrames := [diagonal one64], guideLengths := [one64],
    guideRadii := [one64], guideDrawSpheres := [true] }

/-- A store that published a prim, and publishes another one. -/
def published (before after : @PublishedPrim plainTypes) (root root' : SdfPath) :
    @SnapshotStore plainTypes × List PublishedDirty :=
  @SnapshotStore.publish plainTypes (@SnapshotStore.mk plainTypes (some (generationOf before root)))
    (some (generationOf after root'))

/-- Whether its answer names what changed. -/
def Exact (before after : @PublishedPrim plainTypes) (root root' : SdfPath) : Prop :=
  @DiffExact plainTypes (some (generationOf before root))
    (@SnapshotStore.current plainTypes (published before after root root').1)
    (published before after root root').2

theorem renamed_moved : (published (shaded "a") (shaded "b") "" "").2 =
    [{ path := "/Asset/Eye", changes := PublishedChange.shaderMatrix.bit }] := by decide

theorem nan_moved : (published (driven nan64) (driven nan64) "" "").2 =
    [{ path := "/Asset/Eye", changes := PublishedChange.xform.bit }] := by decide

theorem rerooted_silent : (published guided guided "/A" "/B").2 = [] := by decide

/-- A shader matrix that is renamed, a matrix with a NaN that is published again, and a guide that
hangs on another root. -/
theorem publish_untold :
    ¬ Exact (shaded "a") (shaded "b") "" "" ∧ ¬ Exact (driven nan64) (driven nan64) "" "" ∧
      ¬ Exact guided guided "/A" "/B" := by
  refine ⟨?_, ?_, ?_⟩
  · intro h
    have howns : @PublishedPrim.owns plainTypes (shaded "a") ≠
        @PublishedPrim.owns plainTypes (shaded "b") := by
      intro heq
      exact absurd (congrFun heq (.shaderMatrix "a")) (by decide)
    obtain ⟨entry, hin, -, hflag⟩ := @DiffExact.structural plainTypes _ _ _ h "/Asset/Eye"
      (fun heq => howns (Option.some.inj heq))
    rw [renamed_moved] at hin
    cases List.mem_singleton.mp hin
    exact absurd hflag (by decide)
  · intro h
    have hnil := @DiffExact.identical plainTypes _ _ _ h
      (@Identical.mk plainTypes _ _ (fun _ => rfl) (fun _ => rfl))
    rw [nan_moved] at hnil
    cases hnil
  · intro h
    have hdrawn := (@DiffExact.complete plainTypes _ _ _ h "/Asset/Eye"
      (by rw [rerooted_silent]; exact List.not_mem_nil)).1
    exact absurd hdrawn (by decide)

end RigExec.Snapshot
