/-
# `RigExec.Sparsity.Reuse` — when a retained pose may be reused

Reuse skips the evaluation, so whatever the control digest folds and the two
states hold differently has to be named by `changedControls` and to reach no
cluster.  Constituent by constituent:

| constituent | read by the plan through | compared |
| :-- | :-- | :-- |
| sample, head leaf, layout leaf | `changedControls` | by bits |
| external input, upstream value | `comparable` | by bits |
| override | `changedControls` | by value |
| stage seeds | nothing | — |

The two last rows are where the plan and the digest part.  An override that
moves between two values that compare equal, such as `+0.0` and `-0.0`, moves
the digest and is named by nobody; and stage seeds are not compared at all.
`retainedReuse_iff` is exactly that: nothing else can go wrong.
-/
import RigExec.Sparsity.Digest

namespace RigExec.Sparsity

open Lib

variable {Time : Type}

/-! ## The clusters a control reaches -/

namespace OutputAffectedIndex

variable (index : OutputAffectedIndex)

theorem coneOf_subset (cluster : Nat) : index.coneOf cluster ⊆ Finset.range index.clusterCount := by
  rw [coneOf, List.getD_eq_getElem?_getD]
  cases found : index.cones[cluster]? with
  | none => simp
  | some cone => exact index.cones_sized cone (List.mem_of_getElem? found)

theorem mem_foldl_cones {seeds : List Nat} {out : Finset Nat} {cluster : Nat} :
    cluster ∈ seeds.foldl (fun out seed => out ∪ index.coneOf seed) out ↔
      cluster ∈ out ∨ ∃ seed ∈ seeds, cluster ∈ index.coneOf seed := by
  induction seeds generalizing out with
  | nil => simp
  | cons seed seeds ih =>
      rw [List.foldl_cons, ih, Finset.mem_union, List.exists_mem_cons_iff, or_assoc]

theorem mem_affectedByControl {out : Finset Nat} (h : out ⊆ Finset.range index.clusterCount)
    {control : ControlId} {cluster : Nat} :
    cluster ∈ index.affectedByControl out control ↔
      cluster ∈ out ∨ cluster ∈ index.affectedByControl ∅ control := by
  by_cases known : control ∈ index.controlUniverse
  · simp [affectedByControl, known, mem_foldl_cones]
  · simp only [affectedByControl, known, not_false_eq_true, if_true]
    exact ⟨Or.inr, fun hc => hc.elim (fun hout => h hout) id⟩

theorem affectedByControl_subset {out : Finset Nat}
    (h : out ⊆ Finset.range index.clusterCount) (control : ControlId) :
    index.affectedByControl out control ⊆ Finset.range index.clusterCount := by
  intro cluster hcluster
  simp only [affectedByControl] at hcluster
  split at hcluster
  · exact hcluster
  · rcases index.mem_foldl_cones.mp hcluster with hout | ⟨seed, _, hcone⟩
    · exact h hout
    · exact index.coneOf_subset seed hcone

theorem mem_affectedByControls {controls : List ControlId} {cluster : Nat} :
    cluster ∈ index.affectedByControls controls ↔
      ∃ control ∈ controls, cluster ∈ index.affectedByControls [control] := by
  have general (out : Finset Nat) (h : out ⊆ Finset.range index.clusterCount) :
      cluster ∈ controls.foldl index.affectedByControl out ↔
        cluster ∈ out ∨ ∃ control ∈ controls, cluster ∈ index.affectedByControl ∅ control := by
    induction controls generalizing out with
    | nil => simp
    | cons control controls ih =>
        rw [List.foldl_cons, ih _ (index.affectedByControl_subset h control),
          index.mem_affectedByControl h, List.exists_mem_cons_iff, or_assoc]
  simpa [affectedByControls] using general ∅ (Finset.empty_subset _)

theorem affectedByControls_singleton_eq_empty {controls : List ControlId} {control : ControlId}
    (h : index.affectedByControls controls = ∅) (hmem : control ∈ controls) :
    index.affectedByControls [control] = ∅ := by
  refine Finset.eq_empty_of_forall_notMem fun cluster hcluster => ?_
  have reached := index.mem_affectedByControls.mpr ⟨control, hmem, hcluster⟩
  rw [h] at reached
  exact Finset.notMem_empty cluster reached

end OutputAffectedIndex

/-! ## Constituents -/

/-- What the control digest folds, one piece at a time. -/
inductive Constituent where
  | sample (path : SdfPath)
  | headLeaf (key : SdfPath)
  | layoutLeaf (row key : Nat)
  | revisionLeaf (row key : Nat)
  | upstream (path : SdfPath)
  | standing (key : OverrideKey)
  | stageSeeds
deriving DecidableEq

/-- The bits of a constituent. -/
inductive Bits where
  | sample (content : Bool × Bool × Option VtValue)
  | value (value : VtValue)
  | upstream (row : UpstreamValue)
  | seeds (seeds : StageFrameSeeds)
deriving DecidableEq

/-- What a control state holds for a constituent. -/
def bitsOf (tables : Nat → HeadLeafConstants) (inputs : FrameInputs Time)
    (overrides : List ValueOverride) : Constituent → Option Bits
  | .sample path =>
      (emplaced SampledInput.path inputs.values path).map fun sample => .sample sample.content
  | .headLeaf key =>
      (emplaced HeadLeaf.key (constantsOf tables inputs.headLeafConstants) key).map fun leaf =>
        .value leaf.value
  | .layoutLeaf row key => (leafAt inputs.layoutLeaves row key).map .value
  | .revisionLeaf row key => (leafAt inputs.revisionLeaves row key).map .value
  | .upstream path => (assigned UpstreamValue.path inputs.upstream path).map .upstream
  | .standing key =>
      (assigned ValueOverride.key overrides key).map fun override => .value override.value
  | .stageSeeds => some (.seeds inputs.stageSeeds)

/-- Whether a state's digest folds a constituent: a layout row or an external input only when it is
listed as varying. -/
def Folds (inputs : FrameInputs Time) : Constituent → Prop
  | .layoutLeaf row _ => row ∈ inputs.varyingLayoutRows
  | .revisionLeaf row key => (row, key) ∈ inputs.varyingRevisionLeaves
  | _ => True

/-- The two states hold different bits for a constituent that is folded. -/
def Differs (tables : Nat → HeadLeafConstants) (cached : RetainedFrameState Time)
    (requested : FrameInputs Time) (overrides : List ValueOverride) (c : Constituent) : Prop :=
  (Folds cached.inputs c ∨ Folds requested c) ∧
    bitsOf tables cached.inputs cached.overrides c ≠ bitsOf tables requested overrides c

/-- The identities that name a constituent. -/
def Names (cached : RetainedFrameState Time) (requested : FrameInputs Time) (c : Constituent)
    (control : ControlId) : Prop :=
  match c with
  | .sample path => control = path
  | .headLeaf key => control = key
  | .layoutLeaf row key =>
      leafAt cached.inputs.layoutSourcePaths row key = some control ∨
        leafAt requested.layoutSourcePaths row key = some control
  | .standing key => control = controlIdForOverride key
  | _ => False

/-- The constituents `changedControls` finds moved. -/
def Noticed [VtEquality] (tables : Nat → HeadLeafConstants) (cached : RetainedFrameState Time)
    (requested : FrameInputs Time) (overrides : List ValueOverride) : Constituent → Prop
  | .sample path =>
      sameRow SampledInput.same (emplaced SampledInput.path cached.inputs.values path)
        (emplaced SampledInput.path requested.values path) = false
  | .headLeaf key =>
      cached.inputs.headLeafConstants ≠ requested.headLeafConstants ∧
        sameRow HeadLeaf.same
          (emplaced HeadLeaf.key (constantsOf tables cached.inputs.headLeafConstants) key)
          (emplaced HeadLeaf.key (constantsOf tables requested.headLeafConstants) key) = false
  | .layoutLeaf row key =>
      row < max cached.inputs.layoutLeaves.length requested.layoutLeaves.length ∧
        key < layoutCount cached.inputs requested row ∧
        sameLayoutLeaf cached.inputs requested row key = false
  | .standing key =>
      sameRow ValueOverride.same (assigned ValueOverride.key cached.overrides key)
        (assigned ValueOverride.key overrides key) = false
  | _ => False

/-- An override that moved, between two values that compare equal. -/
def Unnoticed [VtEquality] (cached : RetainedFrameState Time) (overrides : List ValueOverride)
    (key : OverrideKey) : Prop :=
  ∃ was now, assigned ValueOverride.key cached.overrides key = some was ∧
    assigned ValueOverride.key overrides key = some now ∧
    was.value ≠ now.value ∧ VtEquality.equal now.value was.value = true

/-! ## What `changedControls` answers -/

variable {tables : Nat → HeadLeafConstants} {cached : RetainedFrameState Time}
  {requested : FrameInputs Time} {overrides : List ValueOverride}

theorem mem_movedSamples {was now : List SampledInput} {path : SdfPath} :
    path ∈ movedSamples was now ↔
      sameRow SampledInput.same (emplaced SampledInput.path was path)
        (emplaced SampledInput.path now path) = false :=
  mem_movedKeys (fun k => by rw [mem_keysOf, emplaced_isSome])
    (fun k => by rw [mem_keysOf, emplaced_isSome])

theorem mem_movedOverrides [VtEquality] {was now : List ValueOverride} {key : OverrideKey} :
    key ∈ movedOverrides was now ↔
      sameRow ValueOverride.same (assigned ValueOverride.key was key)
        (assigned ValueOverride.key now key) = false :=
  mem_movedKeys (fun k => by rw [mem_keysOf, assigned_isSome])
    (fun k => by rw [mem_keysOf, assigned_isSome])

theorem mem_movedHeadLeaves {was now : Option Nat} {key : SdfPath} :
    key ∈ movedHeadLeaves tables was now ↔
      was ≠ now ∧ sameRow HeadLeaf.same (emplaced HeadLeaf.key (constantsOf tables was) key)
        (emplaced HeadLeaf.key (constantsOf tables now) key) = false := by
  rw [movedHeadLeaves]
  split
  · next heq => simp [heq]
  · next hne =>
      refine (mem_movedKeys (fun k => ?_) (fun k => ?_)).trans (by simp [hne])
      · rw [mem_keysOf, emplaced_isSome]
      · rw [mem_keysOf, emplaced_isSome]

theorem mem_movedLayouts {was now : FrameInputs Time} {path : SdfPath} :
    path ∈ movedLayouts was now ↔
      ∃ row key, (row < max was.layoutLeaves.length now.layoutLeaves.length ∧
        key < layoutCount was now row ∧ sameLayoutLeaf was now row key = false) ∧
        (leafAt was.layoutSourcePaths row key = some path ∨
          leafAt now.layoutSourcePaths row key = some path) := by
  simp only [movedLayouts, List.mem_flatMap, List.mem_range]
  constructor
  · rintro ⟨row, hrow, key, hkey, hpath⟩
    refine ⟨row, key, ?_⟩
    cases same : sameLayoutLeaf was now row key with
    | true => simp [same] at hpath
    | false => exact ⟨⟨hrow, hkey, rfl⟩, by simpa [same] using hpath⟩
  · rintro ⟨row, key, ⟨hrow, hkey, same⟩, hpath⟩
    exact ⟨row, hrow, key, hkey, by simpa [same] using hpath⟩

/-- `changedControls` lists the identities of what it finds moved, and no others. -/
theorem mem_changedControls [VtEquality] {control : ControlId} :
    control ∈ changedControls tables cached requested overrides ↔
      ∃ c, Noticed tables cached requested overrides c ∧ Names cached requested c control := by
  rw [changedControls, mem_keysOf, List.map_id, List.mem_append, List.mem_append, List.mem_append,
    mem_movedSamples, mem_movedLayouts, mem_movedHeadLeaves, List.mem_map]
  constructor
  · rintro (((h | ⟨row, key, moved, named⟩) | h) | ⟨key, h, rfl⟩)
    · exact ⟨.sample control, h, rfl⟩
    · exact ⟨.layoutLeaf row key, moved, named⟩
    · exact ⟨.headLeaf control, h, rfl⟩
    · exact ⟨.standing key, mem_movedOverrides.mp h, rfl⟩
  · rintro ⟨c, noticed, named⟩
    cases c with
    | sample path =>
        obtain rfl : control = path := named
        exact .inl (.inl (.inl noticed))
    | headLeaf key =>
        obtain rfl : control = key := named
        exact .inl (.inr noticed)
    | layoutLeaf row key => exact .inl (.inl (.inr ⟨row, key, noticed, named⟩))
    | standing key => exact .inr ⟨key, mem_movedOverrides.mpr noticed, named.symm⟩
    | revisionLeaf row key => exact named.elim
    | upstream path => exact named.elim
    | stageSeeds => exact named.elim

/-! ## A constituent that differs is noticed -/

theorem SampledInput.content_eq_of_same {a b : SampledInput} (h : a.same b = true) :
    a.content = b.content := by
  simp only [SampledInput.same, Bool.and_eq_true, beq_iff_eq, sameSourceValue_iff] at h
  obtain ⟨blocked, has, value⟩ := h
  cases hasValue : a.hasValue with
  | false => simp [content, blocked, ← has, hasValue]
  | true =>
      have bits : a.value = b.value := eq_of_exactSourceValueEqual (value hasValue)
      simp [content, blocked, ← has, hasValue, bits]

theorem map_eq_of_sameRow {ρ β : Type} {same : ρ → ρ → Bool} {read : ρ → β} {a b : Option ρ}
    (h : sameRow same a b = true) (hread : ∀ x y, same x y = true → read x = read y) :
    a.map read = b.map read := by
  cases a with
  | none =>
      cases b with
      | none => rfl
      | some y => cases h
  | some x =>
      cases b with
      | none => cases h
      | some y => exact congrArg some (hread x y h)

theorem noticed_sample [VtEquality] {path : SdfPath}
    (h : Differs tables cached requested overrides (.sample path)) :
    Noticed tables cached requested overrides (.sample path) := by
  rw [Noticed]
  by_contra same
  rw [Bool.not_eq_false] at same
  refine h.2 (map_eq_of_sameRow same ?_)
  intro a b hab
  rw [SampledInput.content_eq_of_same hab]

theorem noticed_headLeaf [VtEquality] {key : SdfPath}
    (h : Differs tables cached requested overrides (.headLeaf key)) :
    Noticed tables cached requested overrides (.headLeaf key) := by
  refine ⟨?_, ?_⟩
  · intro shared
    exact h.2 (by rw [bitsOf, bitsOf, shared])
  · by_contra same
    rw [Bool.not_eq_false] at same
    refine h.2 (map_eq_of_sameRow same ?_)
    intro a b hab
    rw [eq_of_sameSourceValue hab]

theorem leafAt_sourcePaths {inputs : FrameInputs Time} (h : completeLayouts inputs = true)
    {row key : Nat} {value : VtValue} (hvalue : leafAt inputs.layoutLeaves row key = some value) :
    ∃ path, leafAt inputs.layoutSourcePaths row key = some path := by
  simp only [completeLayouts, Bool.and_eq_true, beq_iff_eq, List.all_eq_true] at h
  obtain ⟨rows, complete⟩ := h
  obtain ⟨leaves, hleaves, hkey⟩ := Option.bind_eq_some_iff.mp hvalue
  obtain ⟨hrow, hget⟩ := List.getElem?_eq_some_iff.mp hleaves
  have row' : row < inputs.layoutSourcePaths.length := rows ▸ hrow
  have pair : (inputs.layoutLeaves[row], inputs.layoutSourcePaths[row]) ∈
      inputs.layoutLeaves.zip inputs.layoutSourcePaths := by
    refine List.mem_iff_getElem.mpr ⟨row, by simp [hrow, row'], ?_⟩
    simp
  have lengths := (complete _ pair).1
  rw [hget] at lengths
  have key' : key < (inputs.layoutSourcePaths[row]).length := by
    rw [← lengths]
    exact (List.getElem?_eq_some_iff.mp hkey).1
  exact ⟨inputs.layoutSourcePaths[row][key], by
    rw [leafAt, List.getElem?_eq_getElem row', Option.bind_some, List.getElem?_eq_getElem key']⟩

theorem lt_of_leafAt {α : Type} {rows : List (List α)} {row key : Nat} {leaf : α}
    (h : leafAt rows row key = some leaf)
    : row < rows.length ∧ key < (rows.getD row []).length := by
  obtain ⟨leaves, hleaves, hkey⟩ := Option.bind_eq_some_iff.mp h
  refine ⟨(List.getElem?_eq_some_iff.mp hleaves).1, ?_⟩
  rw [List.getD_eq_getElem?_getD, hleaves]
  exact (List.getElem?_eq_some_iff.mp hkey).1

theorem noticed_layoutLeaf [VtEquality] {row key : Nat}
    (hcached : completeLayouts cached.inputs = true) (hrequested : completeLayouts requested = true)
    (h : Differs tables cached requested overrides (.layoutLeaf row key)) :
    Noticed tables cached requested overrides (.layoutLeaf row key) ∧
      ∃ control, Names cached requested (.layoutLeaf row key) control := by
  have differ : leafAt cached.inputs.layoutLeaves row key ≠ leafAt requested.layoutLeaves row key :=
    fun heq => h.2 (by rw [bitsOf, bitsOf, heq])
  have moved : sameLayoutLeaf cached.inputs requested row key = false := by
    by_contra same
    rw [Bool.not_eq_false, sameLayoutLeaf] at same
    split at same
    · next was _ now _ hwas _ hnow _ =>
        rw [Bool.and_eq_true] at same
        exact differ (by rw [hwas, hnow, eq_of_exactSourceValueEqual same.2])
    · cases same
  cases was : leafAt cached.inputs.layoutLeaves row key with
  | some value =>
      obtain ⟨hrow, hkey⟩ := lt_of_leafAt was
      obtain ⟨path, hpath⟩ := leafAt_sourcePaths hcached was
      refine ⟨⟨lt_max_of_lt_left hrow, ?_, moved⟩, path, .inl hpath⟩
      exact lt_max_of_lt_left (lt_max_of_lt_left hkey)
  | none =>
      cases now : leafAt requested.layoutLeaves row key with
      | none => exact absurd (was.trans now.symm) differ
      | some value =>
          obtain ⟨hrow, hkey⟩ := lt_of_leafAt now
          obtain ⟨path, hpath⟩ := leafAt_sourcePaths hrequested now
          refine ⟨⟨lt_max_of_lt_right hrow, ?_, moved⟩, path, .inr hpath⟩
          exact lt_max_of_lt_left (lt_max_of_lt_right hkey)

theorem eq_of_sameUpstream {a b : List UpstreamValue} (h : sameUpstream a b = true) : a = b := by
  induction a generalizing b with
  | nil =>
      cases b with
      | nil => rfl
      | cons y b => cases h
  | cons x a ih =>
      cases b with
      | nil => cases h
      | cons y b =>
          simp only [sameUpstream, Bool.and_eq_true, beq_iff_eq, sameSourceValue_iff] at h
          obtain ⟨⟨⟨path, fold⟩, _, value⟩, rest⟩ := h
          have bits : x.value = y.value := eq_of_exactSourceValueEqual (value trivial)
          obtain rfl : x = y := by
            cases x; cases y; simp_all
          rw [ih rest]

theorem not_differs_upstream {path : SdfPath}
    (h : sameUpstream cached.inputs.upstream requested.upstream = true) :
    ¬ Differs tables cached requested overrides (.upstream path) := by
  intro differ
  exact differ.2 (by rw [bitsOf, bitsOf, eq_of_sameUpstream h])

theorem not_differs_revisionLeaf {row key : Nat}
    (h : sameVaryingRevisionLeaves cached.inputs requested = true) :
    ¬ Differs tables cached requested overrides (.revisionLeaf row key) := by
  rintro ⟨folds, differ⟩
  simp only [sameVaryingRevisionLeaves, Bool.and_eq_true, beq_iff_eq, List.all_eq_true] at h
  obtain ⟨lists, leaves⟩ := h
  have listed : (row, key) ∈ cached.inputs.varyingRevisionLeaves := by
    rcases folds with hcached | hrequested
    · exact hcached
    · rw [lists]; exact hrequested
  have same := leaves _ listed
  rw [sameRevisionLeaf] at same
  split at same
  · next was now hwas hnow =>
      refine differ ?_
      rw [bitsOf, bitsOf, hwas, hnow, eq_of_sameSourceValue same]
  · cases same

theorem noticed_or_unnoticed [VtEquality] {key : OverrideKey}
    (h : Differs tables cached requested overrides (.standing key)) :
    Noticed tables cached requested overrides (.standing key) ∨
      Unnoticed cached overrides key := by
  rw [Noticed]
  cases same : sameRow ValueOverride.same (assigned ValueOverride.key cached.overrides key)
      (assigned ValueOverride.key overrides key) with
  | false => exact .inl rfl
  | true =>
      right
      cases was : assigned ValueOverride.key cached.overrides key with
      | none =>
          cases now : assigned ValueOverride.key overrides key with
          | none => exact absurd (by rw [bitsOf, bitsOf, was, now]) h.2
          | some b => rw [was, now] at same; cases same
      | some a =>
          cases now : assigned ValueOverride.key overrides key with
          | none => rw [was, now] at same; cases same
          | some b =>
              rw [was, now] at same
              refine ⟨a, b, was, now, fun bits => ?_, same⟩
              exact h.2 (by rw [bitsOf, bitsOf, was, now, Option.map_some, Option.map_some, bits])

theorem differs_of_unnoticed [VtEquality] {key : OverrideKey} (h : Unnoticed cached overrides key) :
    Differs tables cached requested overrides (.standing key) := by
  obtain ⟨was, now, hwas, hnow, differ, _⟩ := h
  refine ⟨.inl trivial, fun bits => differ ?_⟩
  rw [bitsOf, bitsOf, hwas, hnow] at bits
  simpa using bits

/-! ## Reuse -/

/-- What a pose that is reused owes the digest: of the constituents in question, each one that
differs is named, by an identity that reaches no cluster; and states that agree in all but samples
and overrides are not both taken as unchanged when their digests differ. -/
structure SoundlyReused [VtEquality] [VtHashing] (which : Constituent → Prop)
    (tables : Nat → HeadLeafConstants) (index : OutputAffectedIndex)
    (cached : RetainedFrameState Time) (requested : FrameInputs Time)
    (overrides : List ValueOverride) : Prop where
  named : ∀ c, which c → Differs tables cached requested overrides c →
    ∃ control, Names cached requested c control ∧
      control ∈ changedControls tables cached requested overrides ∧
      index.affectedByControls [control] = ∅
  changed : SameBesides tables cached.inputs requested →
    controlStateDigest tables cached.inputs cached.overrides ≠
      controlStateDigest tables requested overrides →
    changedControls tables cached requested overrides ≠ []

/-- The plan refuses the two states whatever the index says. -/
def RefusedOutright (cached : RetainedFrameState Time) (requested : FrameInputs Time) : Prop :=
  cached.clusterCount = 0 ∨ comparable cached requested = false

/-- Each override that moved between equal values carries the identity of something that was
noticed. -/
def OverridesNoticed [VtEquality] (tables : Nat → HeadLeafConstants)
    (cached : RetainedFrameState Time) (requested : FrameInputs Time)
    (overrides : List ValueOverride) : Prop :=
  ∀ key, Unnoticed cached overrides key →
    ∃ c, Noticed tables cached requested overrides c ∧
      Names cached requested c (controlIdForOverride key)

variable [DecidableEq Time]

theorem canReuseRetainedPose_iff [VtEquality] {index : OutputAffectedIndex}
    {requestEpoch : UInt64} :
    canReuseRetainedPose tables index cached requestEpoch requested overrides = true ↔
      index.clusterCount ≠ 0 ∧ index.epochDigest = requestEpoch ∧
        cached.epochDigest = requestEpoch ∧ cached.clusterCount = index.clusterCount ∧
        comparable cached requested = true ∧
        dirtyClusters tables index cached requested overrides = ∅ := by
  rw [canReuseRetainedPose]
  split
  · next h =>
      refine ⟨fun hfalse => (nomatch hfalse), ?_⟩
      rintro ⟨h₁, h₂, h₃, h₄, h₅, -⟩
      rcases h with h | h | h | h | h
      · exact absurd h h₁
      · exact absurd h₂ h
      · exact absurd h₃ h
      · exact absurd h₄ h
      · rw [h] at h₅; cases h₅
  · next h =>
      simp only [not_or, ne_eq, not_not, Bool.not_eq_false] at h
      simp [h]

/-- The index that knows exactly what moved, and routes none of it. -/
def seedlessIndex (clusterCount : Nat) (epochDigest : UInt64) (controls : List ControlId) :
    OutputAffectedIndex where
  clusterCount := clusterCount
  epochDigest := epochDigest
  cones := []
  always := ∅
  varying := ∅
  override := ∅
  seeds := fun _ => []
  controlUniverse := controls.toFinset
  cones_sized := by simp

theorem seedlessIndex_affects_nothing (clusterCount : Nat) (epochDigest : UInt64)
    (controls : List ControlId) :
    (seedlessIndex clusterCount epochDigest controls).affectedByControls controls = ∅ := by
  refine Finset.eq_empty_of_forall_notMem fun cluster hcluster => ?_
  obtain ⟨control, hmem, hreached⟩ := OutputAffectedIndex.mem_affectedByControls _ |>.mp hcluster
  simp [OutputAffectedIndex.affectedByControls, OutputAffectedIndex.affectedByControl,
    seedlessIndex, hmem] at hreached

theorem canReuse_seedlessIndex [VtEquality] (h : ¬ RefusedOutright cached requested) :
    canReuseRetainedPose tables
      (seedlessIndex cached.clusterCount cached.epochDigest
        (changedControls tables cached requested overrides))
      cached cached.epochDigest requested overrides = true := by
  simp only [RefusedOutright, not_or, Bool.not_eq_false] at h
  refine canReuseRetainedPose_iff.mpr ⟨h.1, rfl, rfl, rfl, h.2, ?_⟩
  rw [dirtyClusters, seedlessIndex_affects_nothing]
  simp [seedlessIndex]

variable [VtHashing]

theorem soundlyReused [VtEquality] {which : Constituent → Prop} {index : OutputAffectedIndex}
    {requestEpoch : UInt64}
    (reuse : canReuseRetainedPose tables index cached requestEpoch requested overrides = true)
    (noticed : OverridesNoticed tables cached requested overrides)
    (seeds : which .stageSeeds → cached.inputs.stageSeeds = requested.stageSeeds)
    (samples : ∀ path, which (.sample path)) (standing : ∀ key, which (.standing key)) :
    SoundlyReused which tables index cached requested overrides := by
  obtain ⟨_, _, _, _, comparable, clean⟩ := canReuseRetainedPose_iff.mp reuse
  simp only [Sparsity.comparable, Bool.and_eq_true] at comparable
  obtain ⟨⟨⟨upstream, revisions⟩, completeCached⟩, completeRequested⟩ := comparable
  have unrouted : index.affectedByControls (changedControls tables cached requested overrides) = ∅ := by
    refine Finset.subset_empty.mp (Finset.Subset.trans ?_ clean.subset)
    exact Finset.Subset.trans Finset.subset_union_left Finset.subset_union_left
  have named (c : Constituent) (hc : which c)
      (differ : Differs tables cached requested overrides c) :
      ∃ control, Names cached requested c control ∧
        control ∈ changedControls tables cached requested overrides := by
    cases c with
    | sample path => exact ⟨path, rfl, mem_changedControls.mpr ⟨_, noticed_sample differ, rfl⟩⟩
    | headLeaf key => exact ⟨key, rfl, mem_changedControls.mpr ⟨_, noticed_headLeaf differ, rfl⟩⟩
    | layoutLeaf row key =>
        obtain ⟨found, control, names⟩ :=
          noticed_layoutLeaf completeCached completeRequested differ
        exact ⟨control, names, mem_changedControls.mpr ⟨_, found, names⟩⟩
    | revisionLeaf row key => exact absurd differ (not_differs_revisionLeaf revisions)
    | upstream path => exact absurd differ (not_differs_upstream upstream)
    | standing key =>
        refine ⟨controlIdForOverride key, rfl, mem_changedControls.mpr ?_⟩
        rcases noticed_or_unnoticed differ with found | missed
        · exact ⟨_, found, rfl⟩
        · exact noticed key missed
    | stageSeeds => exact absurd (by rw [bitsOf, bitsOf, seeds hc]) differ.2
  refine ⟨?_, ?_⟩
  · intro c hc differ
    obtain ⟨control, names, hmem⟩ := named c hc differ
    exact ⟨control, names, hmem, index.affectedByControls_singleton_eq_empty unrouted hmem⟩
  · intro besides digests unchanged
    have nothing (c : Constituent) (hc : which c) :
        ¬ Differs tables cached requested overrides c := by
      intro differ
      obtain ⟨control, _, hmem⟩ := named c hc differ
      rw [unchanged] at hmem
      cases hmem
    refine digests (controlStateDigest_congr besides ?_ ?_)
    · intro path
      by_contra content
      refine nothing (.sample path) (samples path) ⟨.inl trivial, fun bits => content ?_⟩
      refine Option.map_injective (fun _ _ => Bits.sample.inj) ?_
      rw [Option.map_map, Option.map_map]
      exact bits
    · intro key
      by_contra value
      refine nothing (.standing key) (standing key) ⟨.inl trivial, fun bits => value ?_⟩
      refine Option.map_injective (fun _ _ => Bits.value.inj) ?_
      rw [Option.map_map, Option.map_map]
      exact bits

/-- Retained-pose reuse is sound for two states, under every index and epoch, exactly when the plan
refuses them outright or every override that moved between equal values is noticed all the same;
and for the stage seeds too exactly when these also agree. -/
theorem retainedReuse_iff [VtEquality] (tables : Nat → HeadLeafConstants)
    (cached : RetainedFrameState Time) (requested : FrameInputs Time)
    (overrides : List ValueOverride) :
    ((∀ index requestEpoch,
        canReuseRetainedPose tables index cached requestEpoch requested overrides = true →
          SoundlyReused (· ≠ .stageSeeds) tables index cached requested overrides) ↔
      RefusedOutright cached requested ∨ OverridesNoticed tables cached requested overrides) ∧
    ((∀ index requestEpoch,
        canReuseRetainedPose tables index cached requestEpoch requested overrides = true →
          SoundlyReused (fun _ => True) tables index cached requested overrides) ↔
      RefusedOutright cached requested ∨
        OverridesNoticed tables cached requested overrides ∧
          cached.inputs.stageSeeds = requested.stageSeeds) := by
  -- an index that routes nothing shows what a pair of states owes by itself
  have overridesNoticed {which : Constituent → Prop} (standing : ∀ key, which (.standing key))
      (sound : ∀ index requestEpoch,
        canReuseRetainedPose tables index cached requestEpoch requested overrides = true →
          SoundlyReused which tables index cached requested overrides)
      (open' : ¬ RefusedOutright cached requested) :
      OverridesNoticed tables cached requested overrides := by
    intro key missed
    obtain ⟨control, names, hmem, _⟩ := (sound _ _ (canReuse_seedlessIndex open')).named
      (.standing key) (standing key) (differs_of_unnoticed missed)
    obtain rfl : control = controlIdForOverride key := names
    exact mem_changedControls.mp hmem
  have refused {which : Constituent → Prop} (closed : RefusedOutright cached requested) :
      ∀ index requestEpoch,
        canReuseRetainedPose tables index cached requestEpoch requested overrides = true →
          SoundlyReused which tables index cached requested overrides := by
    intro index requestEpoch reuse
    obtain ⟨nonempty, _, _, counts, comparable, _⟩ := canReuseRetainedPose_iff.mp reuse
    rcases closed with empty | apart
    · exact absurd (counts.symm.trans empty) nonempty
    · rw [apart] at comparable
      cases comparable
  refine ⟨⟨?_, ?_⟩, ⟨?_, ?_⟩⟩
  · intro sound
    by_cases closed : RefusedOutright cached requested
    · exact .inl closed
    · exact .inr (overridesNoticed (fun _ => nofun) sound closed)
  · rintro (closed | noticed) index requestEpoch reuse
    · exact refused closed index requestEpoch reuse
    · exact soundlyReused reuse noticed (fun hseeds => absurd rfl hseeds) (fun _ => nofun)
        (fun _ => nofun)
  · intro sound
    by_cases closed : RefusedOutright cached requested
    · exact .inl closed
    · refine .inr ⟨overridesNoticed (fun _ => trivial) sound closed, ?_⟩
      by_contra differ
      obtain ⟨control, names, _⟩ := (sound _ _ (canReuse_seedlessIndex closed)).named
        .stageSeeds trivial ⟨.inl trivial, fun bits => differ (by simpa [bitsOf] using bits)⟩
      exact names
  · rintro (closed | ⟨noticed, seeds⟩) index requestEpoch reuse
    · exact refused closed index requestEpoch reuse
    · exact soundlyReused reuse noticed (fun _ => seeds) (fun _ => trivial) (fun _ => trivial)

/-! ## An override from `+0.0` to `-0.0` -/

/-- An override of one control's computation by a double. -/
def doubleOverride (bits : BitVec 64) : ValueOverride where
  prim := "/Ctl/A"
  computation := "computePointFrame"
  attributeName := ""
  value := .holding ⟨.double, false, [[.double bits]]⟩

/-- A frame retained under a standing override of `+0.0`. -/
def zeroCached : RetainedFrameState Int where
  inputs := { time := .numeric 1 }
  overrides := [doubleOverride 0]
  epochDigest := 7
  clusterCount := 6

/-- A diamond of clusters with two more, and the override's control routed to its left branch. -/
def diamondIndex : OutputAffectedIndex :=
  OutputAffectedIndex.mapControl
    { clusterCount := 6
      epochDigest := 7
      cones := [{0, 1, 2, 3, 4}, {1, 3, 4}, {2, 3, 4}, {3, 4}, {4}, {5}]
      always := ∅
      varying := ∅
      override := ∅
      seeds := fun _ => []
      controlUniverse := ∅
      cones_sized := by decide }
    "/Ctl/A|computePointFrame|" [1]

/-- No shared table of head leaves. -/
def noTables : Nat → HeadLeafConstants := fun _ => ⟨[], 0⟩

omit [VtHashing] in
/-- The retained pose is reused although the override holds other bits and is routed: nothing names
it. -/
theorem signedZero_reused :
    @canReuseRetainedPose _ contentsEquality _ noTables diamondIndex zeroCached 7
        { time := .numeric 1 } [doubleOverride 0x8000000000000000] = true ∧
      Differs noTables zeroCached { time := .numeric 1 } [doubleOverride 0x8000000000000000]
        (.standing (doubleOverride 0).key) ∧
      @changedControls _ contentsEquality noTables zeroCached { time := .numeric 1 }
        [doubleOverride 0x8000000000000000] = [] ∧
      diamondIndex.affectedByControls [controlIdForOverride (doubleOverride 0).key] = {1, 3, 4} := by
  exact ⟨by decide, ⟨.inl trivial, by decide⟩, by decide, by decide⟩

end RigExec.Sparsity
