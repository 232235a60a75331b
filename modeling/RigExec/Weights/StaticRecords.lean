/-
# `RigExec.Weights.StaticRecords` — the field of a static record

The field is the one the record's arrays show as they are copied into its packet, with the
range policy applied to each weight.
-/
import RigExec.Weights.Builders

namespace RigExec.Weights

open Lib (Reads writeEntries)

section

variable {F : Type} {fl : Floats F} {count : Nat} {object : WeightRecord F}
  {input : WeightFieldInputs F} {field : List F}

/-! ## Scattered entries -/

theorem scatter_iff {who : String} {entries : List (Int × F)} : ∀ {seen : List Int} {out : List F},
    scatter who count seen out entries = .ok field ↔
      (∀ entry ∈ entries, 0 ≤ entry.1 ∧ entry.1 < count) ∧ (entries.map (·.1)).Nodup ∧
        (∀ entry ∈ entries, entry.1 ∉ seen) ∧ writeEntries out entries = field := by
  induction entries with
  | nil =>
      intro seen out
      constructor
      · intro h
        exact ⟨fun _ he => absurd he List.not_mem_nil, List.nodup_nil,
          fun _ he => absurd he List.not_mem_nil, Except.ok.inj h⟩
      · rintro ⟨-, -, -, h⟩
        exact congrArg Except.ok h
  | cons entry entries ih =>
      intro seen out
      obtain ⟨index, value⟩ := entry
      rw [scatter]
      by_cases hrange : index < 0 ∨ (count : Int) ≤ index
      · rw [if_pos hrange]
        constructor
        · intro h
          cases h
        · rintro ⟨h, -⟩
          have hinside := h (index, value) List.mem_cons_self
          dsimp only at hinside
          omega
      · rw [if_neg hrange]
        by_cases hseen : index ∈ seen
        · rw [if_pos hseen]
          constructor
          · intro h
            cases h
          · rintro ⟨-, -, h, -⟩
            exact absurd hseen (h (index, value) List.mem_cons_self)
        · rw [if_neg hseen, ih, List.map_cons, List.nodup_cons]
          constructor
          · rintro ⟨hinside, hnodup, hfresh, hout⟩
            refine ⟨fun entry he => ?_, ⟨fun hmem => ?_, hnodup⟩, fun entry he => ?_, hout⟩
            · rcases List.mem_cons.mp he with rfl | he
              · show 0 ≤ index ∧ index < count
                omega
              · exact hinside entry he
            · obtain ⟨other, hother, heq⟩ := List.mem_map.mp hmem
              exact hfresh other hother (List.mem_cons.mpr (Or.inl heq))
            · rcases List.mem_cons.mp he with rfl | he
              · exact hseen
              · exact fun hmem => hfresh entry he (List.mem_cons_of_mem _ hmem)
          · rintro ⟨hinside, ⟨hnot, hnodup⟩, hfresh, hout⟩
            refine ⟨fun entry he => hinside entry (List.mem_cons_of_mem _ he), hnodup,
              fun entry he hmem => ?_, hout⟩
            rcases List.mem_cons.mp hmem with heq | hmem
            · exact hnot (List.mem_map.mpr ⟨entry, he, heq⟩)
            · exact hfresh entry (List.mem_cons_of_mem _ he) hmem

/-! ## Representations -/

/-- The arrays of a static record, as its packet copies them. -/
def recordArrays (fl : Floats F) (object : WeightRecord F) (input : WeightFieldInputs F) :
    WeightPacket F :=
  rawPacket fl object.representationToken object.rangePolicy (paintedValues object input)
    (paintedIndices object input) (input.scalars 0)

/-- The shape checks of a static record. -/
def RecordShape (fl : Floats F) (object : WeightRecord F) (input : WeightFieldInputs F) : Prop :=
  StaticShape fl object.representationToken (paintedValues object input)
    (paintedIndices object input) (input.scalars 0)

section

variable (hrep : object.representationToken = "constant")

include hrep

theorem paintedField_constant : paintedField fl object input count = .ok field ↔
    RecordShape fl object input ∧ (recordArrays fl object input).Shows count field := by
  have hvalues : (recordArrays fl object input).values = paintedValues object input :=
    if_neg (hrep ▸ constant_ne_sparse)
  have hshape : RecordShape fl object input :=
    ⟨knownRepresentation_iff.mpr (Or.inl hrep),
      fun h => absurd (hrep.symm.trans h) constant_ne_sparse,
      fun h => absurd (hrep.symm.trans h) constant_ne_sparse,
      fun h => absurd (hrep.symm.trans h) constant_ne_dense⟩
  have hrule : paintedField fl object input count =
      if (paintedValues object input).length ≠ 0 then
        throw ("constant weight must not author values on " ++ object.name)
      else return List.replicate count (input.scalars 0) := by
    rw [paintedField, WeightRecord.representation, hrep]
    rfl
  rw [hrule]
  by_cases hnil : (paintedValues object input).length = 0
  · rw [if_neg (not_not.mpr hnil), pure_iff]
    have hfits : (recordArrays fl object input).Fits count :=
      ⟨fun _ => hvalues.trans (List.eq_nil_of_length_eq_zero hnil),
        fun h => absurd (hrep.symm.trans h) constant_ne_dense,
        fun h => absurd (hrep.symm.trans h) constant_ne_sparse⟩
    have hshows := shows_constant hrep hfits
    constructor
    · intro h
      rw [← Option.some.inj h]
      exact ⟨hshape, hshows⟩
    · rintro ⟨-, h⟩
      exact congrArg some (hshows.unique hshape.shaped h)
  · rw [if_pos hnil, throw_iff]
    constructor
    · intro h
      cases h
    · rintro ⟨-, h⟩
      refine absurd ?_ hnil
      rw [← hvalues, h.fits.constant hrep]
      rfl

end

section

variable (hrep : object.representationToken = "dense")

include hrep

theorem paintedField_dense : paintedField fl object input count = .ok field ↔
    RecordShape fl object input ∧ (recordArrays fl object input).Shows count field := by
  have hvalues : (recordArrays fl object input).values = paintedValues object input :=
    if_neg (hrep ▸ dense_ne_sparse)
  have hrule : paintedField fl object input count =
      if (paintedValues object input).length ≠ count then
        throw ("dense weight cardinality mismatch on " ++ object.name)
      else if fl.eq (input.scalars 0) fl.zero = false then
        throw ("dense weight requires canonical defaultWeight 0 on " ++ object.name)
      else return paintedValues object input := by
    rw [paintedField, WeightRecord.representation, hrep]
    rfl
  rw [hrule]
  by_cases hlength : (paintedValues object input).length = count
  · rw [if_neg (not_not.mpr hlength)]
    by_cases hzero : fl.eq (input.scalars 0) fl.zero = false
    · rw [if_pos hzero, throw_iff]
      constructor
      · intro h
        cases h
      · rintro ⟨h, -⟩
        cases hzero.symm.trans (h.dense hrep)
    · rw [if_neg hzero, pure_iff]
      have hshape : RecordShape fl object input :=
        ⟨knownRepresentation_iff.mpr (Or.inr (Or.inl hrep)),
          fun h => absurd (hrep.symm.trans h) dense_ne_sparse,
          fun h => absurd (hrep.symm.trans h) dense_ne_sparse,
          fun _ => Bool.eq_true_of_not_eq_false hzero⟩
      have hfits : (recordArrays fl object input).Fits count :=
        ⟨fun h => absurd (h.symm.trans hrep) constant_ne_dense,
          fun _ => (congrArg List.length hvalues).trans hlength,
          fun h => absurd (hrep.symm.trans h) dense_ne_sparse⟩
      have hshows := shows_dense hrep hfits
      rw [hvalues] at hshows
      constructor
      · intro h
        rw [← Option.some.inj h]
        exact ⟨hshape, hshows⟩
      · rintro ⟨-, h⟩
        exact congrArg some (hshows.unique hshape.shaped h)
  · rw [if_pos hlength, throw_iff]
    constructor
    · intro h
      cases h
    · rintro ⟨-, h⟩
      refine absurd ?_ hlength
      rw [← hvalues]
      exact h.fits.dense hrep

end

section

variable (hrep : object.representationToken = "sparse")

include hrep

theorem shows_scattered (hshape : RecordShape fl object input)
    (hinside : ∀ entry ∈ (paintedIndices object input).zip (paintedValues object input),
      0 ≤ entry.1 ∧ entry.1 < count) :
    (recordArrays fl object input).Shows count
      (writeEntries (List.replicate count (input.scalars 0))
        ((paintedIndices object input).zip (paintedValues object input))) := by
  have hperm : (recordArrays fl object input).entries.Perm _ := hshape.entries hrep
  have hshaped : (recordArrays fl object input).Shaped := hshape.shaped
  have hnodup : (((paintedIndices object input).zip (paintedValues object input)).map
      (·.1)).Nodup := by
    rw [List.map_fst_zip (hshape.sizes hrep).le]
    exact hshape.unique hrep
  have hfits : (recordArrays fl object input).Fits count := by
    refine ⟨fun h => absurd (h.symm.trans hrep) constant_ne_sparse,
      fun h => absurd (h.symm.trans hrep) dense_ne_sparse, fun _ index hindex => ?_⟩
    rw [← hshaped.keys hrep] at hindex
    obtain ⟨entry, hentry, rfl⟩ := List.mem_map.mp hindex
    exact hinside entry (hperm.mem_iff.mp hentry)
  refine shows_sparse hrep hfits ?_ fun i w hw => ?_
  · rw [Lib.length_writeEntries, List.length_replicate]
  · exact (Lib.reads_writeEntries (fun entry he => (hinside entry he).1) hnodup hw).perm hperm.symm

theorem paintedField_sparse : paintedField fl object input count = .ok field ↔
    RecordShape fl object input ∧ (recordArrays fl object input).Shows count field := by
  have hrule : paintedField fl object input count =
      if (paintedIndices object input).length ≠ (paintedValues object input).length then
        throw ("sparse index/value size mismatch on " ++ object.name)
      else scatter object.name count [] (List.replicate count (input.scalars 0))
        ((paintedIndices object input).zip (paintedValues object input)) := by
    rw [paintedField, WeightRecord.representation, hrep]
    rfl
  rw [hrule]
  by_cases hsizes : (paintedIndices object input).length = (paintedValues object input).length
  · rw [if_neg (not_not.mpr hsizes), scatter_iff, List.map_fst_zip hsizes.le]
    constructor
    · rintro ⟨hinside, hnodup, -, hout⟩
      have hshape : RecordShape fl object input := ⟨knownRepresentation_iff.mpr
        (Or.inr (Or.inr hrep)), fun _ => hsizes, fun _ => hnodup,
        fun h => absurd (h.symm.trans hrep) dense_ne_sparse⟩
      exact ⟨hshape, hout ▸ shows_scattered hrep hshape hinside⟩
    · rintro ⟨hshape, hshows⟩
      have hperm : (recordArrays fl object input).entries.Perm _ := hshape.entries hrep
      have hinside : ∀ entry ∈ (paintedIndices object input).zip (paintedValues object input),
          0 ≤ entry.1 ∧ entry.1 < count := fun entry he =>
        Fits.entries hshows.fits hrep entry (hperm.mem_iff.mpr he)
      exact ⟨hinside, hshape.unique hrep, fun _ _ => List.not_mem_nil,
        WeightPacket.Shows.unique hshape.shaped (shows_scattered hrep hshape hinside) hshows⟩
  · rw [if_pos hsizes, throw_iff]
    constructor
    · intro h
      cases h
    · rintro ⟨h, -⟩
      exact absurd (h.sizes hrep) hsizes

end

theorem paintedField_iff : paintedField fl object input count = .ok field ↔
    RecordShape fl object input ∧ (recordArrays fl object input).Shows count field := by
  by_cases hknown : knownRepresentation object.representationToken = true
  · rcases knownRepresentation_iff.mp hknown with hrep | hrep | hrep
    · exact paintedField_constant hrep
    · exact paintedField_dense hrep
    · exact paintedField_sparse hrep
  · constructor
    · intro h
      have hnot : ¬ (object.representationToken = "constant" ∨
          object.representationToken = "dense" ∨ object.representationToken = "sparse") :=
        fun hor => hknown (knownRepresentation_iff.mpr hor)
      obtain ⟨hconstant, hdense, hsparse⟩ : object.representationToken ≠ "constant" ∧
          object.representationToken ≠ "dense" ∧ object.representationToken ≠ "sparse" :=
        ⟨fun h => hnot (Or.inl h), fun h => hnot (Or.inr (Or.inl h)),
          fun h => hnot (Or.inr (Or.inr h))⟩
      rw [paintedField, WeightRecord.representation, if_neg hconstant, if_neg hdense,
        if_neg hsparse] at h
      cases h
    · rintro ⟨h, -⟩
      exact absurd h.representation hknown

/-! ## The range -/

theorem resolveStatic_iff : resolveStatic fl object input count = .ok field ↔
    ∃ painted, paintedField fl object input count = .ok painted ∧
      List.Forall₂ (Passes fl object.rangePolicy id) painted field := by
  unfold resolveStatic
  cases hpainted : paintedField fl object input count with
  | error error =>
      constructor
      · intro h
        cases h
      · rintro ⟨painted, h, -⟩
        cases h
  | ok painted =>
      have hcheck : painted.mapM (checkPainted fl object.clamp object.name) = .ok field ↔
          List.Forall₂ (Passes fl object.rangePolicy id) painted field := by
        rw [Lib.mapM_eq_ok_iff]
        exact ⟨fun h => h.imp fun _ _ h => checkPainted_iff.mp h,
          fun h => h.imp fun _ _ h => checkPainted_iff.mpr h⟩
      refine hcheck.trans ⟨fun h => ⟨painted, rfl, h⟩, ?_⟩
      rintro ⟨other, hother, h⟩
      cases hother
      exact h

end

end RigExec.Weights
