/-
# `RigExec.Skin.RoundTrip` — a stored layout stands for the arrays it was written from

    SparseOf             what the sparse form of arrays holds
    expand_sparse        its expansion is the arrays
    ruleBreak_sparse     its rule is the rule on the arrays
    skin_topology_stored both forms, and the calls that fail
-/
import RigExec.Skin.Rows

namespace RigExec.Skin

/-! ## What the sparse form holds -/

section Sparse

variable {t : SkinTopology} {indices : List Int} {weights : List (BitVec 32)} {elementSize : Int}
  {pointCount influenceCount : Nat} {validated : Bool}

/-- The rows of arrays, up to their padding. -/
def rowsOf (indices : List Int) (weights : List (BitVec 32)) (elementSize : Int)
    (pointCount : Nat) : List (List Entry) :=
  keptRows elementSize.toNat pointCount (indices.zip weights)

/-- The sparse form of arrays. -/
structure SparseOf (t : SkinTopology) (indices : List Int) (weights : List (BitVec 32))
    (elementSize : Int) (pointCount influenceCount : Nat) (validated : Bool) : Prop where
  size : t.elementSize = elementSize
  points : t.pointCount = pointCount
  influences : t.influenceCount = influenceCount
  flag : t.validated = validated
  raw : t.raw = false
  rawIndices : t.rawIndices = []
  rawWeights : t.rawWeights = []
  wide : 255 < elementSize → t.counts8 = []
  narrow : elementSize ≤ 255 → t.counts16 = []
  counts : t.counts = (rowsOf indices weights elementSize pointCount).map List.length
  keptWeights : t.weights = (rowsOf indices weights elementSize pointCount).flatten.map (·.2)
  keptIndices : t.Narrowest ((rowsOf indices weights elementSize pointCount).flatten.map (·.1))

theorem withIndices_counts (t : SkinTopology) (kept : List Int) :
    (t.withIndices kept).counts = t.counts := by
  unfold SkinTopology.withIndices
  split
  · rfl
  · split <;> rfl

theorem withIndices_others (t : SkinTopology) (kept : List Int) :
    (t.withIndices kept) =
      { t with
        indexWidth := (t.withIndices kept).indexWidth
        indices8 := (t.withIndices kept).indices8
        indices16 := (t.withIndices kept).indices16
        indices32 := (t.withIndices kept).indices32 } := by
  unfold SkinTopology.withIndices
  split
  · rfl
  · split <;> rfl

variable (indices weights pointCount influenceCount validated) in
theorem sparseOf_sparseForm (hsize : 0 ≤ elementSize) (hbound : elementSize ≤ 65535) :
    SparseOf (sparseForm indices weights elementSize pointCount influenceCount validated) indices
      weights elementSize pointCount influenceCount validated := by
  have hlength : ∀ row ∈ rowsOf indices weights elementSize pointCount,
      (row.length : Int) ≤ elementSize := fun row hrow => by
    have := length_le_of_mem_keptRows row hrow
    omega
  unfold sparseForm
  dsimp only
  rw [show keptRows elementSize.toNat pointCount (indices.zip weights) =
    rowsOf indices weights elementSize pointCount by rfl]
  refine ⟨?_, ?_, ?_, ?_, ?_, ?_, ?_, fun hwide => ?_, fun hnarrow => ?_, ?_, ?_,
    narrowest_withIndices _ rfl rfl rfl _⟩
  all_goals try rw [withIndices_others]
  · exact if_neg (not_le.mpr hwide)
  · exact if_pos hnarrow
  · rw [← withIndices_others, withIndices_counts]
    unfold SkinTopology.counts
    dsimp only
    by_cases hnarrow : elementSize ≤ 255
    · rw [if_pos hnarrow, if_pos hnarrow, List.map_map]
      refine List.map_congr_left fun row hrow => UInt8.toNat_ofNat_of_lt' ?_
      have := hlength row hrow
      show row.length < 256
      omega
    · rw [if_neg hnarrow, if_neg hnarrow, List.map_map]
      refine List.map_congr_left fun row hrow => UInt16.toNat_ofNat_of_lt' ?_
      have := hlength row hrow
      show row.length < 65536
      omega

-- a row drops `(0, +0)` at its end and keeps `(0, -0)`
example : (sparseForm [3, 0, 0, 0] [1, 0, 0, 0x80000000] 2 2 4 true).counts8 = [1, 2] := by decide

/-! ## Its expansion -/

theorem length_of_rectangular
    (h : rectangular indices.length weights.length elementSize.toNat pointCount = true) :
    indices.length = weights.length ∧ indices.length = pointCount * elementSize.toNat := by
  unfold rectangular at h
  rw [Bool.and_eq_true, beq_iff_eq] at h
  refine ⟨h.1, ?_⟩
  by_cases hzero : elementSize.toNat = 0
  · rw [hzero, if_pos rfl, beq_iff_eq] at h
    rw [h.2, hzero, Nat.mul_zero]
  · rw [if_neg hzero, Bool.and_eq_true, beq_iff_eq, beq_iff_eq] at h
    rw [← h.2.2]
    exact (Nat.div_mul_cancel (Nat.dvd_of_mod_eq_zero h.2.1)).symm

theorem SparseOf.entries
    (h : SparseOf t indices weights elementSize pointCount influenceCount validated) :
    t.keptIndices.zip t.weights = (rowsOf indices weights elementSize pointCount).flatten := by
  rw [h.keptIndices.stored, h.keptWeights, List.zip_map', List.map_id']

theorem expand_sparse
    (h : SparseOf t indices weights elementSize pointCount influenceCount validated)
    (hsizes : indices.length = weights.length)
    (hlength : indices.length = pointCount * elementSize.toNat) :
    expandTopology t = (indices, weights) := by
  have hzip : (indices.zip weights).length = pointCount * elementSize.toNat := by
    rw [List.length_zip, ← hsizes, Nat.min_self, hlength]
  unfold expandTopology
  rw [if_neg (by rw [h.raw]; exact Bool.false_ne_true), h.entries, h.counts, h.size, rowsOf,
    expandRows_keptRows hzip]
  exact Prod.ext (List.map_fst_zip hsizes.le) (List.map_snd_zip hsizes.ge)

/-! ## Its rule -/

theorem append_ne_empty {s : String} (hs : s ≠ "") (rest : String) : s ++ rest ≠ "" := by
  intro h
  rw [String.append_eq_empty_iff] at h
  exact hs h.1

theorem entryBreak_eq_empty {entries : List Entry} (k : Nat) :
    entryBreak t k entries = "" ↔
      ∀ entry ∈ entries, entryValidates entry.1 entry.2 t.influenceCount = true := by
  induction entries generalizing k with
  | nil => exact ⟨fun _ _ h => absurd h List.not_mem_nil, fun _ => rfl⟩
  | cons entry entries ih =>
      obtain ⟨index, weight⟩ := entry
      rw [entryBreak, List.forall_mem_cons]
      by_cases hentry : entryValidates index weight t.influenceCount = true
      · rw [if_pos hentry, ih]
        exact (and_iff_right hentry).symm
      · rw [if_neg hentry]
        have hword : (if t.raw = true then ", but raw entry " else ", but kept entry ") ≠ "" := by
          split <;> decide
        refine ⟨fun h => absurd h ?_, fun h => absurd h.1 hentry⟩
        dsimp only
        split <;> exact append_ne_empty hword _

theorem layoutValidates_iff :
    layoutValidates indices weights elementSize influenceCount = true ↔
      shapeValidates indices.length weights.length elementSize influenceCount = true ∧
        ∀ entry ∈ indices.zip weights, entryValidates entry.1 entry.2 influenceCount = true := by
  unfold layoutValidates
  by_cases hshape : shapeValidates indices.length weights.length elementSize influenceCount = true
  · rw [if_neg (by rw [hshape]; exact Bool.noConfusion), List.all_eq_true]
    exact (and_iff_right hshape).symm
  · rw [if_pos (eq_false_of_ne_true hshape)]
    exact ⟨fun h => absurd h Bool.false_ne_true, fun h => absurd h.1 hshape⟩

theorem shapeValidates_iff {indexCount weightCount : Nat} :
    shapeValidates indexCount weightCount elementSize influenceCount = true ↔
      1 ≤ elementSize ∧ indexCount = weightCount ∧ indexCount % elementSize.toNat = 0 ∧
        1 ≤ influenceCount := by
  unfold shapeValidates
  simp only [Bool.and_eq_true, decide_eq_true_eq, beq_iff_eq, and_assoc]

theorem entryValidates_padding (h : 1 ≤ influenceCount) :
    entryValidates 0 0 influenceCount = true := by
  have hpositive : decide ((0 : Int) < influenceCount) = true := decide_eq_true (by omega)
  unfold entryValidates
  rw [hpositive]
  rfl

theorem ruleBreak_of_shape {dense : Nat}
    (hdense : dense = if t.raw = true then t.rawIndices.length
      else t.pointCount * (max t.elementSize 0).toNat % 2 ^ 64)
    (hrows : t.raw = true → rows t.rawIndices.length t.rawWeights.length t.elementSize = true) :
    ruleBreak t = "" ↔ shapeValidates dense dense t.elementSize t.influenceCount = true ∧
      ∀ entry ∈ t.entries, entryValidates entry.1 entry.2 t.influenceCount = true := by
  unfold ruleBreak
  rw [if_neg fun h => Bool.noConfusion ((hrows h.1).symm.trans h.2)]
  dsimp only
  rw [← hdense]
  by_cases hshape : shapeValidates dense dense t.elementSize t.influenceCount = true
  · rw [if_neg (by rw [hshape]; exact Bool.noConfusion), entryBreak_eq_empty]
    exact (and_iff_right hshape).symm
  · rw [if_pos (eq_false_of_ne_true hshape)]
    exact ⟨fun h => absurd h (append_ne_empty (by decide) _), fun h => absurd h.1 hshape⟩

theorem ruleBreak_sparse
    (h : SparseOf t indices weights elementSize pointCount influenceCount validated)
    (hbound : elementSize ≤ 65535) (hpoints : pointCount ≤ maxBufferSize)
    (hsizes : indices.length = weights.length)
    (hlength : indices.length = pointCount * elementSize.toNat) :
    ruleBreak t = "" ↔ layoutValidates indices weights elementSize influenceCount = true := by
  have hfalse : ¬ t.raw = true := by rw [h.raw]; exact Bool.false_ne_true
  have hdense : indices.length = if t.raw = true then t.rawIndices.length
      else t.pointCount * (max t.elementSize 0).toNat % 2 ^ 64 := by
    have hmax : (max elementSize 0).toNat = elementSize.toNat := by omega
    have hproduct : pointCount * elementSize.toNat ≤ (2 ^ 31 - 1) * 65535 :=
      Nat.mul_le_mul hpoints (by omega)
    rw [if_neg hfalse, h.points, h.size, hmax, Nat.mod_eq_of_lt (by omega), hlength]
  have hentries : t.entries = (rowsOf indices weights elementSize pointCount).flatten := by
    unfold SkinTopology.entries
    rw [if_neg hfalse, h.entries]
  rw [ruleBreak_of_shape hdense fun hraw => absurd hraw hfalse, layoutValidates_iff, ← hsizes,
    h.size, h.influences, hentries]
  refine and_congr_right fun hshape => ?_
  have hinfluence : 1 ≤ influenceCount := (shapeValidates_iff.mp hshape).2.2.2
  refine forall_mem_keptRows (P := fun entry => entryValidates entry.1 entry.2 influenceCount = true)
    (entryValidates_padding hinfluence) ?_
  rw [List.length_zip, ← hsizes, Nat.min_self, hlength]

/-! ## The checks of the stored form -/

theorem checkCounts_ok {row : String} {counts : List Nat} (h : ∀ count ∈ counts, (count : Int) ≤
    elementSize) (k : Nat) : checkCounts elementSize row k counts = .ok () := by
  induction counts generalizing k with
  | nil => rfl
  | cons count counts ih =>
      obtain ⟨hcount, hcounts⟩ := List.forall_mem_cons.mp h
      rw [checkCounts, if_neg (not_lt.mpr hcount), ih hcounts]

theorem checkTrailing_ok {row : String} {rows : List (List Entry)}
    (h : ∀ row ∈ rows, row.getLast?.any isPadding = false) (p : Nat) :
    checkTrailing row p (rows.map List.length) rows.flatten = .ok () := by
  induction rows generalizing p with
  | nil => rfl
  | cons first rows ih =>
      obtain ⟨hfirst, hrows⟩ := List.forall_mem_cons.mp h
      rw [List.map_cons, List.flatten_cons, checkTrailing, List.drop_left' rfl, ih hrows, if_neg]
      rintro ⟨hpositive, hpadding⟩
      rw [List.getElem?_append_left (by omega), ← List.getLast?_eq_getElem?, hfirst] at hpadding
      exact Bool.false_ne_true hpadding

theorem checkValidated_ok {row : String} :
    checkValidated t row = .ok () ↔ (t.validated = true ↔ ruleBreak t = "") := by
  unfold checkValidated
  dsimp only
  by_cases hbroken : ruleBreak t = ""
  · rw [if_neg fun h => h.2 hbroken]
    cases hflag : t.validated with
    | true => simp [hbroken]
    | false => simp [hbroken]
  · cases hflag : t.validated with
    | true => simp [hbroken]
    | false => simp [hbroken]

theorem checkTopology_sparse {row : String}
    (h : SparseOf t indices weights elementSize pointCount influenceCount validated)
    (hsize : 0 ≤ elementSize) (hbound : elementSize ≤ 65535) :
    checkTopology t row = checkValidated t row := by
  have hrows : (rowsOf indices weights elementSize pointCount).flatten.length =
      t.counts.sum := by
    rw [h.counts, List.length_flatten]
  have hcounts : ∀ count ∈ t.counts, (count : Int) ≤ t.elementSize := by
    rw [h.counts, h.size]
    intro count hcount
    obtain ⟨row, hrow, rfl⟩ := List.mem_map.mp hcount
    have := length_le_of_mem_keptRows row hrow
    omega
  have hvector : ¬ ((if t.elementSize ≤ 255 then t.counts16 ≠ [] else t.counts8 ≠ []) ∨
      t.counts.length ≠ t.pointCount) := by
    rw [h.size]
    rintro (hother | hcount)
    · by_cases hnarrow : elementSize ≤ 255
      · rw [if_pos hnarrow] at hother
        exact hother (h.narrow hnarrow)
      · rw [if_neg hnarrow] at hother
        exact hother (h.wide (lt_of_not_ge hnarrow))
    · refine hcount ?_
      rw [h.counts, List.length_map, rowsOf, length_keptRows, h.points]
  unfold checkTopology
  rw [if_neg (by rw [h.raw]; exact Bool.false_ne_true),
    if_neg (not_or.mpr ⟨not_not_intro h.rawIndices, not_not_intro h.rawWeights⟩),
    if_neg (by rw [h.size]; omega), if_neg hvector]
  unfold checkKept
  rw [checkCounts_ok hcounts, h.keptIndices.only]
  show (if _ then _ else _) = _
  have htrailing : checkTrailing row 0
      ((rowsOf indices weights elementSize pointCount).map List.length)
      (rowsOf indices weights elementSize pointCount).flatten = .ok () :=
    checkTrailing_ok getLast?_of_mem_keptRows 0
  rw [if_neg (not_or.mpr ⟨not_not_intro ?_, not_not_intro ?_⟩), h.entries, h.counts, htrailing]
  · rfl
  · rw [List.length_map, hrows]
  · rw [h.keptWeights, List.length_map, hrows]

end Sparse

/-! ## The raw form -/

section Raw

variable {indices : List Int} {weights : List (BitVec 32)} {elementSize : Int}
  {pointCount influenceCount : Nat} {validated : Bool}

/-- The raw form of arrays. -/
def rawForm (indices : List Int) (weights : List (BitVec 32)) (elementSize : Int)
    (pointCount influenceCount : Nat) (validated : Bool) : SkinTopology where
  elementSize := elementSize
  pointCount := pointCount
  influenceCount := influenceCount
  validated := validated
  raw := true
  rawIndices := indices
  rawWeights := weights

theorem rows_iff {indexCount weightCount : Nat} :
    rows indexCount weightCount elementSize = true ↔
      1 ≤ elementSize ∧ indexCount = weightCount ∧ indexCount % elementSize.toNat = 0 := by
  unfold rows
  simp only [Bool.and_eq_true, decide_eq_true_eq, beq_iff_eq, and_assoc]

theorem ruleBreak_raw :
    ruleBreak (rawForm indices weights elementSize pointCount influenceCount validated) = "" ↔
      layoutValidates indices weights elementSize influenceCount = true := by
  by_cases hrows : rows indices.length weights.length elementSize = true
  · have hsizes : indices.length = weights.length := (rows_iff.mp hrows).2.1
    rw [ruleBreak_of_shape rfl fun _ => hrows, layoutValidates_iff]
    show shapeValidates indices.length indices.length elementSize influenceCount = true ∧ _ ↔ _
    rw [← hsizes]
    rfl
  · constructor
    · intro h
      unfold ruleBreak at h
      rw [if_pos ⟨rfl, eq_false_of_ne_true hrows⟩] at h
      exact absurd h (by decide)
    · intro h
      obtain ⟨hsize, hsizes, hwhole, -⟩ := shapeValidates_iff.mp (layoutValidates_iff.mp h).1
      exact absurd (rows_iff.mpr ⟨hsize, hsizes, hwhole⟩) hrows

theorem checkTopology_raw {row : String}
    (hheld : ¬ sparseCanHold indices.length weights.length elementSize = true)
    (hpoints : pointCount = rowCount indices.length weights.length elementSize) :
    checkTopology (rawForm indices weights elementSize pointCount influenceCount validated) row =
      checkValidated (rawForm indices weights elementSize pointCount influenceCount validated)
        row := by
  have hsparse : ¬ (([] : List UInt8) ≠ [] ∨ ([] : List UInt16) ≠ [] ∨ ([] : List UInt8) ≠ [] ∨
      ([] : List UInt16) ≠ [] ∨ ([] : List Int) ≠ [] ∨ ([] : List (BitVec 32)) ≠ [] ∨ 0 ≠ 0) := by
    simp
  unfold checkTopology checkRawTopology rawForm
  dsimp only
  rw [if_pos rfl, if_neg hsparse, if_neg hheld, if_neg (not_not_intro hpoints)]

end Raw

/-! ## Both forms -/

/-- What a layout that was stored is worth: its expansion is the arrays, its rule is theirs, the
validator accepts it with the flag of the rule and with no other, and its vectors are the
narrowest. -/
structure Stored (t : SkinTopology) (indices : List Int) (weights : List (BitVec 32))
    (elementSize : Int) (influenceCount : Nat) (validated : Bool) : Prop where
  expand : expandTopology t = (indices, weights)
  rule : ruleBreak t = "" ↔ layoutValidates indices weights elementSize influenceCount = true
  accepted : ∀ row, checkTopology t row = .ok () ↔
    validated = layoutValidates indices weights elementSize influenceCount
  narrowest : t.raw = false → t.Narrowest t.keptIndices
  counts : t.raw = false → if elementSize ≤ 255 then t.counts16 = [] else t.counts8 = []

section Stored

variable {indices : List Int} {weights : List (BitVec 32)} {elementSize : Int}
  {pointCount influenceCount : Nat} {validated : Bool} {out : Option SkinTopology}
  {error : Option String}

/-- A call that fails leaves `out`; one that does not stores the arrays. -/
def Kept (call : Call) (out : Option SkinTopology) (indices : List Int)
    (weights : List (BitVec 32)) (elementSize : Int) (influenceCount : Nat) (validated : Bool) :
    Prop :=
  (call.ok = false → call.out = out) ∧
    (call.ok = true → ∃ t, call.out = some t ∧
      Stored t indices weights elementSize influenceCount validated)

theorem kept_fail (what : String) :
    Kept (fail out error what) out indices weights elementSize influenceCount validated :=
  ⟨fun _ => rfl, fun h => absurd h Bool.false_ne_true⟩

theorem accepted_iff {t : SkinTopology} {row : String}
    (hcheck : checkTopology t row = checkValidated t row) (hflag : t.validated = validated)
    (hrule : ruleBreak t = "" ↔ layoutValidates indices weights elementSize influenceCount = true) :
    checkTopology t row = .ok () ↔
      validated = layoutValidates indices weights elementSize influenceCount := by
  rw [hcheck, checkValidated_ok, hflag, hrule]
  exact Bool.eq_iff_iff.symm

theorem kept_sparseTopology :
    Kept (sparseTopology indices weights elementSize pointCount influenceCount validated out error)
      out indices weights elementSize influenceCount validated := by
  unfold sparseTopology
  split
  · exact kept_fail _
  split
  · exact kept_fail _
  rename_i hsize
  split
  · exact kept_fail _
  rename_i hpoints
  split
  · exact kept_fail _
  rename_i hshape
  refine ⟨fun h => absurd h.symm Bool.false_ne_true, fun _ => ⟨_, rfl, ?_⟩⟩
  obtain ⟨hlow, hbound⟩ : 0 ≤ elementSize ∧ elementSize ≤ 65535 := by omega
  obtain ⟨hsizes, hlength⟩ := length_of_rectangular (eq_true_of_ne_false hshape)
  have hform := sparseOf_sparseForm indices weights pointCount influenceCount validated hlow hbound
  have hrule := ruleBreak_sparse hform hbound (Nat.le_of_not_lt hpoints) hsizes hlength
  refine ⟨expand_sparse hform hsizes hlength, hrule, fun row => ?_, fun _ => ?_, fun _ => ?_⟩
  · exact accepted_iff (checkTopology_sparse hform hlow hbound) hform.flag hrule
  · have hnarrowest := hform.keptIndices
    rwa [← hnarrowest.stored] at hnarrowest
  · split
    · exact hform.narrow ‹_›
    · exact hform.wide (lt_of_not_ge ‹_›)

theorem kept_formatTopology :
    Kept (formatTopology indices weights elementSize pointCount influenceCount validated out error)
      out indices weights elementSize influenceCount validated := by
  unfold formatTopology
  split
  · exact kept_sparseTopology
  rename_i hheld
  split
  · exact kept_fail _
  split
  · exact kept_fail _
  rename_i hpoints
  refine ⟨fun h => absurd h.symm Bool.false_ne_true, fun _ => ⟨_, rfl, ?_⟩⟩
  refine ⟨rfl, ruleBreak_raw, fun row => ?_, fun h => absurd h.symm Bool.false_ne_true,
    fun h => absurd h.symm Bool.false_ne_true⟩
  exact accepted_iff (checkTopology_raw hheld (not_not.mp hpoints)) rfl ruleBreak_raw

/-- Both calls store any arrays whole, under the rule of the arrays, or fail and leave `out`. -/
theorem skin_topology_stored (indices : List Int) (weights : List (BitVec 32)) (elementSize : Int)
    (pointCount influenceCount : Nat) (validated : Bool) (out : Option SkinTopology)
    (error : Option String) :
    Kept (formatTopology indices weights elementSize pointCount influenceCount validated out error)
        out indices weights elementSize influenceCount validated ∧
      Kept (sparseTopology indices weights elementSize pointCount influenceCount validated out
        error) out indices weights elementSize influenceCount validated :=
  ⟨kept_formatTopology, kept_sparseTopology⟩

end Stored

end RigExec.Skin
