/-
# `RigExec.Weights.Exact` — the builders are exact whatever the workspace remembers

    Floats.Ordered     `<` is asymmetric and transitive, as it is of floats with NaN among them
    Comparable         values under one index are identical or one is below the other
    sparsePacket_valid when a sparse packet is valid
    resolveInputIn_spec what a fold sees of an input

A support that repeats an index is sorted as pairs, and `<` does not sort NaN.  An element's
number is cast to `int`, so from element `2 ^ 31` on the merge looks for a negative index it has
already passed.
-/
import RigExec.Weights.Merge
import RigExec.Weights.Reuse
import RigExec.Lib.Sorting
import Mathlib.Algebra.Order.Ring.Unbundled.Rat
import Mathlib.Data.Option.NAry

namespace RigExec.Weights

variable {F : Type} {fl : Floats F}

/-! ## Arrangements of the pairs -/

section Arrangements

/-- `<` of floats. -/
structure Floats.Ordered (fl : Floats F) : Prop where
  asymm : ∀ a b, fl.lt a b = true → fl.lt b a ≠ true
  trans : ∀ a b c, fl.lt a b = true → fl.lt b c = true → fl.lt a c = true

/-- Values under one index are identical or one is below the other. -/
def Comparable (fl : Floats F) (pairs : List (Int × F)) : Prop :=
  ∀ a ∈ pairs, ∀ b ∈ pairs, a.1 = b.1 → a.2 = b.2 ∨ fl.lt a.2 b.2 = true ∨ fl.lt b.2 a.2 = true

theorem Comparable.orders {pairs : List (Int × F)} (h : Comparable fl pairs)
    (hordered : fl.Ordered) : Lib.OrdersMembers (fun a b => ¬ pairLt fl b a) pairs where
  total a _ b _ := by
    rw [← not_and_or]
    rintro ⟨hba, hab⟩
    rcases hba with hlt | ⟨hsame, hlt⟩
    · rcases hab with hlt' | ⟨hsame', -⟩ <;> omega
    · rcases hab with hlt' | ⟨-, hlt'⟩
      · omega
      · exact hordered.asymm _ _ hlt hlt'
  trans a ha b hb c _ hab hbc := by
    intro hca
    have hle : a.1 ≤ b.1 := not_lt.mp fun hlt => hab (Or.inl hlt)
    have hle' : b.1 ≤ c.1 := not_lt.mp fun hlt => hbc (Or.inl hlt)
    rcases hca with hlt | ⟨hsame, hlt⟩
    · omega
    · -- all three share the index, and `c < a` lies across `b`
      have hsame' : a.1 = b.1 := by omega
      rcases h a ha b hb hsame' with heq | hab' | hba'
      · exact hbc (Or.inr ⟨by omega, heq ▸ hlt⟩)
      · exact hbc (Or.inr ⟨by omega, hordered.trans _ _ _ hlt hab'⟩)
      · exact hab (Or.inr ⟨hsame'.symm, hba'⟩)
  antisymm a ha b hb hab hba := by
    have hle : a.1 ≤ b.1 := not_lt.mp fun hlt => hab (Or.inl hlt)
    have hle' : b.1 ≤ a.1 := not_lt.mp fun hlt => hba (Or.inl hlt)
    have hsame : a.1 = b.1 := le_antisymm hle hle'
    rcases h a ha b hb hsame with heq | hab' | hba'
    · exact Prod.ext hsame heq
    · exact absurd (Or.inr ⟨hsame, hab'⟩) hba
    · exact absurd (Or.inr ⟨hsame.symm, hba'⟩) hab

theorem canonicalPairs_perm (hordered : fl.Ordered) {pairs pairs' : List (Int × F)}
    (hperm : pairs.Perm pairs') (hcomp : Comparable fl pairs) :
    canonicalPairs fl (pairs.map (·.1)) (pairs.map (·.2)) =
      canonicalPairs fl (pairs'.map (·.1)) (pairs'.map (·.2)) := by
  have hkeys : (pairs.map (·.1)).Perm (pairs'.map (·.1)) := hperm.map _
  unfold canonicalPairs
  dsimp only
  rw [List.zip_map', List.zip_map', List.map_id', List.map_id']
  by_cases hnodup : (pairs.map (·.1)).Nodup
  · rw [if_pos hnodup, if_pos (hkeys.nodup_iff.mp hnodup)]
    refine congrArg uniquePairs (eq_of_sorted_keys ?_ ?_ ?_ ?_)
    · exact (List.perm_insertionSort _ _).trans (hperm.trans (List.perm_insertionSort _ _).symm)
    · exact ((List.perm_insertionSort _ _).map _).nodup_iff.mpr hnodup
    · exact sorted_insertionSort (fun a b h => h) (fun a b h => (lt_of_not_ge h).le) _
    · exact sorted_insertionSort (fun a b h => h) (fun a b h => (lt_of_not_ge h).le) _
  · rw [if_neg hnodup, if_neg fun h => hnodup (hkeys.nodup_iff.mpr h)]
    exact congrArg uniquePairs (Lib.insertionSort_eq_of_perm (hcomp.orders hordered) hperm)

theorem buildStatic_congr {rangePolicy : String} {values values' : List F}
    {indices indices' : List Int} {d : F}
    (hcanonical : canonicalPairs fl indices values = canonicalPairs fl indices' values')
    (hsizes : values.length = indices.length) (hsizes' : values'.length = indices'.length) :
    buildStaticWeightPacket fl "sparse" rangePolicy values indices d =
      buildStaticWeightPacket fl "sparse" rangePolicy values' indices' d := by
  have hknown : ¬ knownRepresentation "sparse" = false := by decide
  by_cases hpolicy : knownPolicy rangePolicy = false
  · unfold buildStaticWeightPacket
    dsimp only
    rw [if_neg hknown, if_neg hknown, if_pos hpolicy, if_pos hpolicy]
  · have hraw : rawPacket fl "sparse" rangePolicy values indices d =
        rawPacket fl "sparse" rangePolicy values' indices' d := by
      unfold rawPacket
      rw [hcanonical, if_pos rfl, if_pos rfl, if_pos rfl]
    rw [buildStatic_finish hknown hpolicy fun h => h.2 hsizes,
      buildStatic_finish hknown hpolicy fun h => h.2 hsizes', hraw, hcanonical]

theorem sparsePacket_valid {rangePolicy : String} {values : List F} {indices : List Int} {d : F} :
    (buildStaticWeightPacket fl "sparse" rangePolicy values indices d).valid = true ↔
      knownPolicy rangePolicy = true ∧ indices.length = values.length ∧ indices.Nodup ∧
        (∀ w ∈ values, applyWeightRangePolicy fl rangePolicy w ≠ none) ∧
          applyWeightRangePolicy fl rangePolicy d ≠ none := by
  have hraw : ∀ h : StaticShape fl "sparse" values indices d,
      (rawPacket fl "sparse" rangePolicy values indices d).values.Perm values := by
    intro h
    have hmap := ((canonicalPairs_spec (h.sizes rfl) (h.canonical rfl)).1).map (·.2)
    rwa [List.map_snd_zip (h.sizes rfl).ge] at hmap
  constructor
  · intro hvalid
    obtain ⟨ranged, w, hparts⟩ := buildStatic_valid hvalid
    refine ⟨hparts.policy, hparts.shape.sizes rfl, hparts.shape.unique rfl, fun v hv hnone => ?_,
      fun hnone => ?_⟩
    · obtain ⟨r, -, hr⟩ := Lib.forall₂_mem hparts.values ((hraw hparts.shape).mem_iff.mpr hv)
      exact absurd (hnone.symm.trans hr) (Option.some_ne_none r).symm
    · exact absurd (hnone.symm.trans hparts.defaultWeight) (Option.some_ne_none w).symm
  · rintro ⟨hpolicy, hsizes, hnodup, hvalues, hdefault⟩
    have hshape : StaticShape fl "sparse" values indices d :=
      ⟨rfl, fun _ => hsizes, fun _ => hnodup, fun h => absurd h (by decide)⟩
    obtain ⟨w, hw⟩ := Option.ne_none_iff_exists'.mp hdefault
    have hpass : ∀ v ∈ (rawPacket fl "sparse" rangePolicy values indices d).values,
        ∃ r, Passes fl rangePolicy id v r := fun v hv =>
      Option.ne_none_iff_exists'.mp (hvalues v ((hraw hshape).mem_iff.mp hv))
    obtain ⟨ranged, hranged⟩ := Lib.exists_forall₂ hpass
    rw [buildStatic_eq ⟨hshape, hpolicy, hranged, hw⟩]

end Arrangements

/-! ## What a fold sees -/

section Resolved

variable {packet : WeightPacket F} {minusOne : F} {count : Nat}

/-- The sizes that are not those of the representation. -/
def WeightPacket.SizesDisagree (packet : WeightPacket F) (count : Nat) : Prop :=
  (packet.representation = "dense" ∧ packet.values.length ≠ count) ∨
    (packet.representation = "sparse" ∧ packet.indices.length ≠ packet.values.length)

/-- The elements of a packet, one by one. -/
def WeightPacket.resolved (packet : WeightPacket F) (minusOne : F) (count : Nat) : List F :=
  (List.range count).map fun i => packet.resolve minusOne i count

theorem any_resolved :
    (packet.resolved minusOne count).any (fl.lt · fl.zero) = true ↔
      ∃ i, i < count ∧ fl.lt (packet.resolve minusOne i count) fl.zero = true := by
  rw [WeightPacket.resolved, List.any_map, List.any_eq_true]
  exact exists_congr fun i => and_congr List.mem_range Iff.rfl

theorem resolved_dense (hrep : packet.representation = "dense")
    (hsize : packet.values.length = count) : packet.resolved minusOne count = packet.values := by
  refine List.ext_getElem ?_ fun i hi hi' => ?_
  · rw [WeightPacket.resolved, List.length_map, List.length_range, hsize]
  · have hresolve : packet.resolve minusOne i count = packet.values.getD i minusOne := by
      unfold WeightPacket.resolve
      rw [if_pos hrep, if_neg (by omega)]
    simp only [WeightPacket.resolved, List.getElem_map, List.getElem_range]
    rw [hresolve, List.getD_eq_getElem _ _ hi']

theorem resolved_constant (hdense : packet.representation ≠ "dense")
    (hsparse : packet.representation ≠ "sparse") :
    packet.resolved minusOne count = List.replicate count packet.defaultWeight := by
  have hresolve : ∀ i, packet.resolve minusOne i count = packet.defaultWeight := by
    intro i
    unfold WeightPacket.resolve
    rw [if_neg hdense, if_neg hsparse]
  rw [WeightPacket.resolved, funext hresolve, List.map_const', List.length_range]

theorem resolved_sorted (hrep : packet.representation = "sparse")
    (hsizes : packet.indices.length = packet.values.length)
    (hsorted : packet.indices.Pairwise (· ≤ ·)) (hcount : count ≤ 2 ^ 31) :
    packet.resolved minusOne count =
      mergeField packet.defaultWeight 0 count (packet.indices.zip packet.values) := by
  have hkeys : (packet.indices.zip packet.values).map (·.1) = packet.indices :=
    List.map_fst_zip hsizes.le
  rw [mergeField_eq count 0 _ (by rwa [hkeys]) (by omega), WeightPacket.resolved]
  refine List.map_congr_left fun i hi => ?_
  have hlt : i < 2 ^ 31 := (List.mem_range.mp hi).trans_le hcount
  rw [Nat.zero_add, ← search_eq hsorted hsizes]
  unfold WeightPacket.resolve
  rw [if_neg (by rw [hrep]; decide), if_pos hrep, if_neg (not_not_intro hsizes), int32_of_lt hlt]

variable (fl) in
theorem resolveLoop_spec (d : F) (resolve : Nat → F) (left : Nat) : ∀ i : Nat,
    let field := (List.range left).map fun j => resolve (i + j)
    (resolveLoop fl d resolve i left).2 = !field.any (fl.lt · fl.zero) ∧
      (field.any (fl.lt · fl.zero) = false → (resolveLoop fl d resolve i left).1 = field) := by
  induction left with
  | zero =>
      intro i
      exact ⟨rfl, fun _ => rfl⟩
  | succ left ih =>
      intro i
      have hshift : (List.range left).map ((fun j => resolve (i + j)) ∘ Nat.succ) =
          (List.range left).map fun j => resolve (i + 1 + j) := by
        refine List.map_congr_left fun j _ => ?_
        rw [Function.comp_apply, Nat.add_right_comm]
        rfl
      dsimp only
      rw [List.range_succ_eq_map, List.map_cons, List.map_map, hshift, List.any_cons, resolveLoop]
      dsimp only
      rw [Nat.add_zero i]
      obtain ⟨hflag, hfield⟩ := ih (i + 1)
      by_cases hnegative : fl.lt (resolve i) fl.zero = true
      · rw [if_pos hnegative, hnegative]
        exact ⟨rfl, fun h => Bool.noConfusion h⟩
      · rw [if_neg hnegative, Bool.eq_false_of_not_eq_true hnegative]
        exact ⟨hflag, fun h => congrArg (resolve i :: ·) (hfield h)⟩

/-- A fold reads the resolved elements, or nothing where a size disagrees or one of them is
negative. -/
structure WeightPacket.ReadExactly (packet : WeightPacket F) (fl : Floats F) (minusOne : F)
    (count : Nat) (read : Option (List F)) : Prop where
  refused : read = none ↔ packet.SizesDisagree count ∨
    ∃ i, i < count ∧ fl.lt (packet.resolve minusOne i count) fl.zero = true
  field : ∀ field, read = some field → field = packet.resolved minusOne count

theorem readExactly_of_sizes {read : Option (List F)} (h : packet.SizesDisagree count)
    (hread : read = none) : packet.ReadExactly fl minusOne count read :=
  ⟨⟨fun _ => Or.inl h, fun _ => hread⟩, fun _ hsome => absurd (hread.symm.trans hsome) (by simp)⟩

theorem readExactly_of_field {field : List F} {read : Option (List F)}
    (hfield : packet.resolved minusOne count = field) (hagree : ¬ packet.SizesDisagree count)
    (hread : read = if field.any (fl.lt · fl.zero) = true then none else some field) :
    packet.ReadExactly fl minusOne count read := by
  subst hfield
  by_cases hnegative : (packet.resolved minusOne count).any (fl.lt · fl.zero) = true
  · rw [if_pos hnegative] at hread
    subst hread
    exact ⟨⟨fun _ => Or.inr (any_resolved.mp hnegative), fun _ => rfl⟩,
      fun _ hsome => absurd hsome.symm (Option.some_ne_none _)⟩
  · rw [if_neg hnegative] at hread
    subst hread
    refine ⟨⟨fun hnone => absurd hnone (Option.some_ne_none _), fun h => ?_⟩,
      fun field hsome => (Option.some.inj hsome).symm⟩
    exact absurd (any_resolved.mpr (h.resolve_left hagree)) hnegative

/-- `_ResolveCombineInput` reads what `Resolve` gives. -/
theorem resolveInputIn_spec (scratch : List F) (packet : WeightPacket F) (hpositive : 0 < count)
    (hcount : count ≤ 2 ^ 31) :
    packet.ReadExactly fl minusOne count
      (resolveInputIn fl minusOne scratch packet count).2 := by
  by_cases hdense : packet.representation = "dense"
  · by_cases hsize : packet.values.length = count
    · have hagree : ¬ packet.SizesDisagree count := by
        rintro (h | h)
        · exact h.2 hsize
        · exact absurd (hdense.symm.trans h.1) (by decide)
      refine readExactly_of_field (resolved_dense hdense hsize) hagree ?_
      unfold resolveInputIn
      rw [if_pos hdense, if_neg (not_not_intro hsize)]
      split <;> rfl
    · refine readExactly_of_sizes (Or.inl ⟨hdense, hsize⟩) ?_
      unfold resolveInputIn
      rw [if_pos hdense, if_pos hsize]
  by_cases hsparse : packet.representation = "sparse"
  · by_cases hsizes : packet.indices.length = packet.values.length
    · have hagree : ¬ packet.SizesDisagree count := by
        rintro (h | h)
        · exact hdense h.1
        · exact h.2 hsizes
      by_cases hsorted : packet.indices.Pairwise (· ≤ ·)
      · refine readExactly_of_field (resolved_sorted hsparse hsizes hsorted hcount) hagree ?_
        unfold resolveInputIn
        rw [if_neg hdense, if_neg (not_not_intro hsparse), if_neg (not_not_intro hsizes),
          if_neg (not_not_intro hsorted)]
      · refine readExactly_of_field rfl hagree ?_
        have hloop := resolveLoop_spec fl packet.defaultWeight
          (fun i => packet.resolve minusOne i count) count 0
        have hfield : (List.range count).map (fun j => packet.resolve minusOne (0 + j) count) =
            packet.resolved minusOne count :=
          List.map_congr_left fun j _ => by rw [Nat.zero_add]
        dsimp only at hloop
        rw [hfield] at hloop
        unfold resolveInputIn
        rw [if_neg hdense, if_neg (not_not_intro hsparse), if_neg (not_not_intro hsizes),
          if_pos hsorted]
        dsimp only
        rw [hloop.1]
        cases hnegative : (packet.resolved minusOne count).any (fl.lt · fl.zero) with
        | true => rfl
        | false =>
            rw [hloop.2 hnegative]
            rfl
    · refine readExactly_of_sizes (Or.inr ⟨hsparse, hsizes⟩) ?_
      unfold resolveInputIn
      rw [if_neg hdense, if_neg (not_not_intro hsparse), if_pos hsizes]
  · have hagree : ¬ packet.SizesDisagree count := by
      rintro (h | h)
      · exact hdense h.1
      · exact hsparse h.1
    have hany : (List.replicate count packet.defaultWeight).any (fl.lt · fl.zero) =
        fl.lt packet.defaultWeight fl.zero := by
      obtain ⟨n, rfl⟩ := Nat.exists_eq_succ_of_ne_zero hpositive.ne'
      rw [List.any_replicate, if_neg (Nat.succ_ne_zero n)]
    refine readExactly_of_field (resolved_constant hdense hsparse) hagree ?_
    unfold resolveInputIn
    rw [if_neg hdense, if_pos hsparse, hany]
    split <;> rfl

end Resolved

/-! ## The builders -/

section Builders

/-- The packet of a static sparse build in a fresh workspace. -/
def sparsePacket (fl : Floats F) (minusOne : F) (rangePolicy : String) (values : List F)
    (indices : List Int) (d : F) : WeightPacket F :=
  (WeightBuild.run fl minusOne {} (.static "sparse" rangePolicy values indices d)).1

theorem sparsePacket_eq (minusOne : F) (rangePolicy : String) (values : List F)
    (indices : List Int) (d : F) :
    sparsePacket fl minusOne rangePolicy values indices d =
      buildStaticWeightPacket fl "sparse" rangePolicy values indices d :=
  (buildStaticIn_eq fl sound_fresh "sparse" rangePolicy values indices d).1

/-- Builds that reuse a workspace give what they give in a fresh one; a sparse packet forgets the
order of its pairs, and its `valid` tells sizes, indices and range; and a fold reads of an
input what `Resolve` gives. -/
theorem packet_builders_exact (fl : Floats F) (hordered : fl.Ordered) (minusOne : F) :
    (∀ builds : List (WeightBuild F),
      runBuilds fl minusOne {} builds = builds.map fun build => (build.run fl minusOne {}).1) ∧
    (∀ (rangePolicy : String) (d : F) (pairs pairs' : List (Int × F)), pairs.Perm pairs' →
      (Comparable fl pairs →
        sparsePacket fl minusOne rangePolicy (pairs.map (·.2)) (pairs.map (·.1)) d =
          sparsePacket fl minusOne rangePolicy (pairs'.map (·.2)) (pairs'.map (·.1)) d) ∧
      (sparsePacket fl minusOne rangePolicy (pairs.map (·.2)) (pairs.map (·.1)) d).valid =
        (sparsePacket fl minusOne rangePolicy (pairs'.map (·.2)) (pairs'.map (·.1)) d).valid) ∧
    (∀ (rangePolicy : String) (values : List F) (indices : List Int) (d : F),
      (sparsePacket fl minusOne rangePolicy values indices d).valid = true ↔
        knownPolicy rangePolicy = true ∧ indices.length = values.length ∧ indices.Nodup ∧
          (∀ w ∈ values, applyWeightRangePolicy fl rangePolicy w ≠ none) ∧
            applyWeightRangePolicy fl rangePolicy d ≠ none) ∧
    (∀ (scratch : List F) (packet : WeightPacket F) (count : Nat), 0 < count → count ≤ 2 ^ 31 →
      packet.ReadExactly fl minusOne count
        (resolveInputIn fl minusOne scratch packet count).2) := by
  refine ⟨runBuilds_eq minusOne sound_fresh, fun rangePolicy d pairs pairs' hperm => ⟨?_, ?_⟩,
    fun rangePolicy values indices d => ?_,
    fun scratch packet count hpositive hcount => resolveInputIn_spec scratch packet hpositive hcount⟩
  · intro hcomp
    rw [sparsePacket_eq, sparsePacket_eq]
    exact buildStatic_congr (canonicalPairs_perm hordered hperm hcomp)
      (by rw [List.length_map, List.length_map]) (by rw [List.length_map, List.length_map])
  · rw [sparsePacket_eq, sparsePacket_eq, Bool.eq_iff_iff, sparsePacket_valid, sparsePacket_valid,
      List.length_map, List.length_map, List.length_map, List.length_map,
      (hperm.map (·.1)).nodup_iff]
    have hmem : ∀ w, w ∈ pairs.map (·.2) ↔ w ∈ pairs'.map (·.2) :=
      fun w => (hperm.map (·.2)).mem_iff
    simp only [hmem]
  · rw [sparsePacket_eq]
    exact sparsePacket_valid

/-- Rationals with NaN. -/
def nanFloats : Floats (Option ℚ) where
  zero := some 0
  half := some (1 / 2)
  one := some 1
  two := some 2
  isFinite a := a.isSome
  lt a b := (Option.map₂ (fun x y => decide (x < y)) a b).getD false
  le a b := (Option.map₂ (fun x y => decide (x ≤ y)) a b).getD false
  eq a b := (Option.map₂ (fun x y => decide (x = y)) a b).getD false
  add := Option.map₂ (· + ·)
  sub := Option.map₂ (· - ·)
  mul := Option.map₂ (· * ·)
  reciprocal count := some (1 / count)
  finite_zero := rfl
  finite_one := rfl
  le_of_finite a b ha hb := by
    obtain ⟨x, rfl⟩ := Option.isSome_iff_exists.mp ha
    obtain ⟨y, rfl⟩ := Option.isSome_iff_exists.mp hb
    show decide (x ≤ y) = !decide (y < x)
    rw [← decide_not, decide_eq_decide, not_lt]
  zero_not_lt := rfl
  one_not_lt := rfl
  one_not_lt_zero := rfl

theorem ordered_nanFloats : nanFloats.Ordered where
  asymm a b hab hba := by
    cases a with
    | none => cases hab
    | some x =>
        cases b with
        | none => cases hab
        | some y => exact lt_asymm (of_decide_eq_true hab) (of_decide_eq_true hba)
  trans a b c hab hbc := by
    cases a with
    | none => cases hab
    | some x =>
        cases b with
        | none => cases hab
        | some y =>
            cases c with
            | none => cases hbc
            | some z =>
                exact decide_eq_true
                  (lt_trans (of_decide_eq_true hab) (of_decide_eq_true hbc))

theorem packet_builders_exact_nan :
    (resolveInputIn nanFloats (some (-1)) [] { WeightPacket.empty nanFloats with
      representation := "sparse"
      indices := [-3, 1, 1, 7]
      values := [some 1, none, some 2, some (-1)] } 3).2 = some [some 0, none, some 0] := by
  have hexact := packet_builders_exact nanFloats ordered_nanFloats (some (-1))
  obtain ⟨field, hfield⟩ : ∃ field, (resolveInputIn nanFloats (some (-1)) []
      { WeightPacket.empty nanFloats with
        representation := "sparse"
        indices := [-3, 1, 1, 7]
        values := [some 1, none, some 2, some (-1)] } 3).2 = some field := ⟨_, rfl⟩
  rw [hfield, (hexact.2.2.2 _ _ 3 (by decide) (by decide)).field field hfield]
  rfl

/-- A sparse packet of one value, at the least index. -/
def leastIndex : WeightPacket (Option ℚ) :=
  { WeightPacket.empty nanFloats with
    representation := "sparse"
    indices := [-2 ^ 31]
    values := [some 1] }

/-- A constant packet of a negative weight. -/
def negativeConstant : WeightPacket (Option ℚ) :=
  { WeightPacket.empty nanFloats with
    representation := "constant"
    defaultWeight := some (-1) }

theorem resolveInputIn_leastIndex (left : Nat) :
    (resolveInputIn nanFloats (some (-1)) [] leastIndex (left + 1)).2 =
      some (List.replicate (left + 1) (some 0)) := by
  have hfield : mergeField (some 0) 0 (left + 1)
      (leastIndex.indices.zip leastIndex.values) = List.replicate (left + 1) (some 0) := by
    have hdrop : (leastIndex.indices.zip leastIndex.values).dropWhile
        (fun pair => pair.1 < int32 0) = [] := rfl
    rw [mergeField, hdrop]
    exact congrArg (some 0 :: ·) (mergeField_nil (some 0) 1 left)
  have hany : (List.replicate (left + 1) (some (0 : ℚ))).any (nanFloats.lt · nanFloats.zero) =
      false := by
    rw [List.any_replicate, if_neg (Nat.succ_ne_zero left)]
    rfl
  have hsorted : leastIndex.indices.Pairwise (· ≤ ·) := List.pairwise_singleton _ _
  unfold resolveInputIn
  rw [if_neg (by decide), if_neg (by decide), if_neg (by decide),
    if_neg (not_not_intro hsorted)]
  dsimp only
  rw [show leastIndex.defaultWeight = some 0 by rfl, hfield, hany, if_neg Bool.false_ne_true]

/-- A NaN beside a value of its index leaves the packet as it was arranged; the element
`2 ^ 31` is merged to the default and resolved to the value of a negative index; and at no
elements a negative constant is refused. -/
theorem packet_builders_differ :
    (sparsePacket nanFloats (some (-1)) "strict" [none, some 1] [0, 0] (some 0) ≠
      sparsePacket nanFloats (some (-1)) "strict" [some 1, none] [0, 0] (some 0)) ∧
    ((resolveInputIn nanFloats (some (-1)) [] leastIndex (2 ^ 31 + 1)).2 =
          some (List.replicate (2 ^ 31 + 1) (some 0)) ∧
        leastIndex.resolve (some (-1)) (2 ^ 31) (2 ^ 31 + 1) = some 1) ∧
    ((resolveInputIn nanFloats (some (-1)) [] negativeConstant 0).2 = none ∧
      ¬ negativeConstant.SizesDisagree 0) := by
  refine ⟨fun heq => ?_, ⟨resolveInputIn_leastIndex (2 ^ 31), rfl⟩, rfl, ?_⟩
  · exact absurd (congrArg WeightPacket.values heq) (by decide +kernel)
  · rintro (h | h) <;> exact absurd h.1 (by decide)

end Builders

end RigExec.Weights
