/-
# `RigExec.Skin.Rows` — rows, the entries they keep, and the vectors that hold them

    expandRows_keptRows     the padding restores what the rows dropped
    forall_mem_keptRows     the dropped entries are padding
    withIndices_keptIndices the narrow casts lose nothing
-/
import RigExec.Skin.Validate
import Mathlib.Data.List.Basic
import Mathlib.Order.MinMax

namespace RigExec.Skin

/-! ## One row -/

section Row

theorem isPadding_iff {entry : Entry} : isPadding entry = true ↔ entry = (0, 0) := by
  obtain ⟨index, weight⟩ := entry
  unfold isPadding isPositiveZero
  rw [Bool.and_eq_true, beq_iff_eq, beq_iff_eq, Prod.mk.injEq]
  refine and_congr_right fun _ => ⟨fun h => BitVec.eq_of_toNat_eq h, fun h => ?_⟩
  rw [h]
  rfl

theorem length_keptRow_le (row : List Entry) :
    (row.rdropWhile isPadding).length ≤ row.length :=
  (List.rdropWhile_prefix isPadding row).length_le

theorem keptRow_padded (row : List Entry) :
    row.rdropWhile isPadding ++
      List.replicate (row.length - (row.rdropWhile isPadding).length) (0, 0) = row := by
  have hsplit : row.rdropWhile isPadding ++ row.rtakeWhile isPadding = row :=
    List.rdropWhile_append_rtakeWhile
  have hdropped : row.rtakeWhile isPadding =
      List.replicate (row.rtakeWhile isPadding).length (0, 0) := by
    refine List.eq_replicate_of_mem fun entry hentry => ?_
    exact isPadding_iff.mp (List.mem_rtakeWhile_imp hentry)
  have hlength := congrArg List.length hsplit
  rw [List.length_append] at hlength
  rw [show row.length - (row.rdropWhile isPadding).length = (row.rtakeWhile isPadding).length by
    omega, ← hdropped, hsplit]

end Row

/-! ## All rows -/

section Rows

variable {width : Nat}

theorem length_keptRows (points : Nat) (entries : List Entry) :
    (keptRows width points entries).length = points := by
  induction points generalizing entries with
  | zero => rfl
  | succ points ih => exact congrArg (· + 1) (ih _)

theorem length_le_of_mem_keptRows {points : Nat} {entries : List Entry} :
    ∀ row ∈ keptRows width points entries, row.length ≤ width := by
  induction points generalizing entries with
  | zero =>
      intro row hrow
      exact absurd hrow List.not_mem_nil
  | succ points ih =>
      intro row hrow
      rcases List.mem_cons.mp hrow with rfl | hlater
      · exact (length_keptRow_le _).trans (List.length_take_le _ _)
      · exact ih row hlater

theorem getLast?_of_mem_keptRows {points : Nat} {entries : List Entry} :
    ∀ row ∈ keptRows width points entries, row.getLast?.any isPadding = false := by
  induction points generalizing entries with
  | zero =>
      intro row hrow
      exact absurd hrow List.not_mem_nil
  | succ points ih =>
      intro row hrow
      rcases List.mem_cons.mp hrow with rfl | hlater
      · by_cases hempty : (entries.take width).rdropWhile isPadding = []
        · rw [hempty]
          rfl
        · rw [List.getLast?_eq_some_getLast hempty]
          exact eq_false_of_ne_true (List.rdropWhile_last_not isPadding _ hempty)
      · exact ih row hlater

theorem expandRows_keptRows {points : Nat} {entries : List Entry}
    (h : entries.length = points * width) :
    expandRows width ((keptRows width points entries).map List.length)
      (keptRows width points entries).flatten = entries := by
  induction points generalizing entries with
  | zero =>
      rw [Nat.zero_mul] at h
      exact (List.length_eq_zero_iff.mp h).symm
  | succ points ih =>
      rw [Nat.add_mul, Nat.one_mul] at h
      have hrow : (entries.take width).length = width := by
        rw [List.length_take]
        omega
      have hrest : (entries.drop width).length = points * width := by
        rw [List.length_drop]
        omega
      have hle := length_keptRow_le (entries.take width)
      have hpadded := keptRow_padded (entries.take width)
      rw [hrow] at hle hpadded
      rw [keptRows, List.map_cons, List.flatten_cons, expandRows]
      rw [Nat.min_eq_left hle, List.take_left', List.drop_left', ih hrest, hpadded,
        List.take_append_drop]
      · rfl
      · rfl

theorem forall_mem_keptRows {P : Entry → Prop} (hpadding : P (0, 0)) {points : Nat}
    {entries : List Entry} (h : entries.length = points * width) :
    (∀ entry ∈ (keptRows width points entries).flatten, P entry) ↔ ∀ entry ∈ entries, P entry := by
  induction points generalizing entries with
  | zero =>
      rw [Nat.zero_mul] at h
      rw [List.length_eq_zero_iff.mp h]
      rfl
  | succ points ih =>
      rw [Nat.add_mul, Nat.one_mul] at h
      have hrest : (entries.drop width).length = points * width := by
        rw [List.length_drop]
        omega
      have hrow : (∀ entry ∈ (entries.take width).rdropWhile isPadding, P entry) ↔
          ∀ entry ∈ entries.take width, P entry := by
        constructor
        · intro hkept entry hentry
          rw [← keptRow_padded (entries.take width)] at hentry
          rcases List.mem_append.mp hentry with hmem | hmem
          · exact hkept entry hmem
          · rw [List.eq_of_mem_replicate hmem]
            exact hpadding
        · intro hall entry hentry
          exact hall entry ((List.rdropWhile_prefix isPadding _).subset hentry)
      rw [keptRows, List.flatten_cons, List.forall_mem_append, hrow, ih hrest,
        ← List.forall_mem_append, List.take_append_drop]

end Rows

/-! ## The vectors of kept indices -/

section Indices

variable {kept : List Int}

theorem foldl_max_spec (kept : List Int) : ∀ least : Int,
    least ≤ kept.foldl max least ∧ (∀ index ∈ kept, index ≤ kept.foldl max least) ∧
      (kept.foldl max least = least ∨ kept.foldl max least ∈ kept) := by
  induction kept with
  | nil => exact fun least => ⟨le_refl _, fun _ h => absurd h List.not_mem_nil, Or.inl rfl⟩
  | cons index kept ih =>
      intro least
      obtain ⟨hleast, hall, hattained⟩ := ih (max least index)
      rw [List.foldl_cons]
      refine ⟨(le_max_left _ _).trans hleast, fun other hother => ?_, ?_⟩
      · rcases List.mem_cons.mp hother with rfl | hlater
        · exact (le_max_right _ _).trans hleast
        · exact hall other hlater
      · rcases hattained with heq | hmem
        · rcases max_choice least index with h | h
          · exact Or.inl (heq.trans h)
          · exact Or.inr (List.mem_cons.mpr (Or.inl (heq.trans h)))
        · exact Or.inr (List.mem_cons_of_mem _ hmem)

theorem le_largestIndex : ∀ index ∈ kept, index ≤ largestIndex kept :=
  (foldl_max_spec kept 0).2.1

theorem largestIndex_mem (kept : List Int) (h : 0 < largestIndex kept) : largestIndex kept ∈ kept :=
  (foldl_max_spec kept 0).2.2.resolve_left fun heq => absurd h (not_lt.mpr heq.le)

theorem toNat_ofInt8 {index : Int} (h : 0 ≤ index) (hle : index ≤ 255) :
    ((UInt8.ofInt index).toNat : Int) = index := by
  have hlt : (index % 2 ^ 8).toNat < UInt8.size := by
    show (index % 2 ^ 8).toNat < 256
    omega
  rw [UInt8.ofInt, UInt8.toNat_ofNat_of_lt' hlt]
  omega

theorem toNat_ofInt16 {index : Int} (h : 0 ≤ index) (hle : index ≤ 65535) :
    ((UInt16.ofInt index).toNat : Int) = index := by
  have hlt : (index % 2 ^ 16).toNat < UInt16.size := by
    show (index % 2 ^ 16).toNat < 65536
    omega
  rw [UInt16.ofInt, UInt16.toNat_ofNat_of_lt' hlt]
  omega

theorem map_widened {α : Type} {narrow : Int → α} {widen : α → Nat}
    (h : ∀ index ∈ kept, (widen (narrow index) : Int) = index) :
    (kept.map narrow).map (fun index => (widen index : Int)) = kept := by
  rw [List.map_map]
  exact (List.map_congr_left h).trans (List.map_id' kept)

/-- A width holds an index: unsigned below the width of an `int32_t`. -/
def Holds (width : Nat) (index : Int) : Prop :=
  width < 4 → 0 ≤ index ∧ index < 256 ^ width

/-- The indices are stored in the narrowest of the widths. -/
structure SkinTopology.Narrowest (t : SkinTopology) (kept : List Int) : Prop where
  stored : t.keptIndices = kept
  width : t.indexWidth = 1 ∨ t.indexWidth = 2 ∨ t.indexWidth = 4
  holds : ∀ index ∈ kept, Holds t.indexWidth index
  least : ∀ width, (width = 1 ∨ width = 2 ∨ width = 4) → (∀ index ∈ kept, Holds width index) →
    t.indexWidth ≤ width
  only : indexCount t = some kept.length

theorem narrowest_withIndices (t : SkinTopology) (h8 : t.indices8 = []) (h16 : t.indices16 = [])
    (h32 : t.indices32 = []) (kept : List Int) : (t.withIndices kept).Narrowest kept := by
  have hlargest := @le_largestIndex kept
  unfold SkinTopology.withIndices
  by_cases hwide : kept.any (· < 0) = true ∨ 65535 < largestIndex kept
  · rw [if_pos hwide]
    refine ⟨rfl, Or.inr (Or.inr rfl), fun index _ h => absurd h (lt_irrefl 4),
      fun width hwidth hholds => ?_, ?_⟩
    · -- a narrower width would hold neither a negative index nor a large one
      by_contra hlt
      have hnarrow : width < 4 := Nat.lt_of_not_le hlt
      have hpow : (256 : Int) ^ width ≤ 65536 := by
        rcases hwidth with rfl | rfl | rfl
        · decide
        · decide
        · exact absurd hnarrow (lt_irrefl 4)
      rcases hwide with hany | hlarge
      · obtain ⟨index, hmem, hneg⟩ := List.any_eq_true.mp hany
        exact absurd (hholds index hmem hnarrow).1 (not_le.mpr (of_decide_eq_true hneg))
      · have hmem := largestIndex_mem kept (by omega)
        have := (hholds _ hmem hnarrow).2
        omega
    · unfold indexCount
      dsimp only
      rw [h8, h16]
      exact congrArg some (if_neg (by simp))
  · rw [if_neg hwide]
    obtain ⟨hnone, hsmall⟩ := not_or.mp hwide
    have hnonneg : ∀ index ∈ kept, 0 ≤ index := fun index hmem =>
      not_lt.mp fun hneg => hnone (List.any_eq_true.mpr ⟨index, hmem, decide_eq_true hneg⟩)
    by_cases hmiddle : 255 < largestIndex kept
    · rw [if_pos hmiddle]
      refine ⟨?_, Or.inr (Or.inl rfl), fun index hmem _ => ⟨hnonneg index hmem, ?_⟩,
        fun width hwidth hholds => ?_, ?_⟩
      · show (kept.map UInt16.ofInt).map (fun index => (index.toNat : Int)) = kept
        refine map_widened fun index hmem => toNat_ofInt16 (hnonneg index hmem) ?_
        exact (hlargest index hmem).trans (not_lt.mp hsmall)
      · have := hlargest index hmem
        show index < 65536
        omega
      · rcases hwidth with rfl | rfl | rfl
        · have hmem := largestIndex_mem kept (by omega)
          have hlt : largestIndex kept < 256 := (hholds _ hmem (by decide)).2
          omega
        · exact le_refl 2
        · show 2 ≤ 4
          decide
      · unfold indexCount
        dsimp only
        rw [h8, h32]
        exact congrArg some ((if_neg (by simp)).trans (List.length_map _))
    · rw [if_neg hmiddle]
      refine ⟨?_, Or.inl rfl, fun index hmem _ => ⟨hnonneg index hmem, ?_⟩,
        fun width hwidth hholds => ?_, ?_⟩
      · show (kept.map UInt8.ofInt).map (fun index => (index.toNat : Int)) = kept
        refine map_widened fun index hmem => toNat_ofInt8 (hnonneg index hmem) ?_
        exact (hlargest index hmem).trans (not_lt.mp hmiddle)
      · have := hlargest index hmem
        show index < 256
        omega
      · show 1 ≤ width
        rcases hwidth with rfl | rfl | rfl <;> decide
      · unfold indexCount
        dsimp only
        rw [h16, h32]
        exact congrArg some ((if_neg (by simp)).trans (List.length_map _))

end Indices

end RigExec.Skin
