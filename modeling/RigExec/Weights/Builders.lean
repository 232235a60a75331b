/-
# `RigExec.Weights.Builders` — when a builder's packet is valid

Each builder is read once: the checks a valid packet passed, and what the packet holds.

    Passes          the policy on a weight that was computed from another
    StaticParts     the checks of a static packet
    DynamicParts    the checks of a dynamic packet with a base
    CombineParts    the checks of a combine packet
-/
import RigExec.Weights.Folds
import RigExec.Weights.Shows

namespace RigExec.Weights

section

variable {F : Type} {fl : Floats F}

/-! ## Range policies -/

/-- The policy leaves `r` of the weight `drive` makes of `b`. -/
def Passes (fl : Floats F) (policy : String) (drive : F → F) (b r : F) : Prop :=
  applyWeightRangePolicy fl policy (drive b) = some r

theorem Passes.functional {policy : String} {drive : F → F} :
    ∀ b r r', Passes fl policy drive b r → Passes fl policy drive b r' → r = r' :=
  fun _ _ _ h h' => Option.some.inj (h.symm.trans h')

theorem Passes.unique {policy : String} {drive : F → F} {bs rs rs' : List F}
    (h : List.Forall₂ (Passes fl policy drive) bs rs)
    (h' : List.Forall₂ (Passes fl policy drive) bs rs') : rs = rs' :=
  List.right_unique_forall₂' (fun b r r' => Passes.functional b r r') h h'

theorem applyPolicies_iff {policy : String} {ws rs : List F} :
    applyPolicies fl policy ws = (rs, true) ↔ List.Forall₂ (Passes fl policy id) ws rs := by
  induction ws generalizing rs with
  | nil =>
      rw [List.forall₂_nil_left_iff]
      exact ⟨fun h => (congrArg Prod.fst h).symm, fun h => by rw [h]; rfl⟩
  | cons w ws ih =>
      rw [List.forall₂_cons_left_iff, applyPolicies]
      cases hw : applyWeightRangePolicy fl policy w with
      | none =>
          constructor
          · intro h
            cases congrArg Prod.snd h
          · rintro ⟨r, rs, hr, -, -⟩
            cases hw.symm.trans hr
      | some r =>
          constructor
          · intro h
            obtain ⟨hfst, hsnd⟩ := Prod.ext_iff.mp h
            exact ⟨r, _, hw, ih.mp (Prod.ext rfl hsnd), hfst.symm⟩
          · rintro ⟨r', rs, hr, hrest, rfl⟩
            cases hw.symm.trans hr
            dsimp only
            rw [ih.mpr hrest]

theorem drivenValues_iff {policy : String} {drive : F → F} {bs rs : List F} :
    drivenValues fl policy drive bs = (rs, true) ↔
      List.Forall₂ (Passes fl policy drive) bs rs := by
  induction bs generalizing rs with
  | nil =>
      rw [List.forall₂_nil_left_iff]
      exact ⟨fun h => (congrArg Prod.fst h).symm, fun h => by rw [h]; rfl⟩
  | cons b bs ih =>
      rw [List.forall₂_cons_left_iff, drivenValues]
      cases hb : applyWeightRangePolicy fl policy (drive b) with
      | none =>
          constructor
          · intro h
            cases congrArg Prod.snd h
          · rintro ⟨r, rs, hr, -, -⟩
            cases hb.symm.trans hr
      | some r =>
          constructor
          · intro h
            obtain ⟨hfst, hsnd⟩ := Prod.ext_iff.mp h
            exact ⟨r, _, hb, ih.mp (Prod.ext rfl hsnd), hfst.symm⟩
          · rintro ⟨r', rs, hr, hrest, rfl⟩
            cases hb.symm.trans hr
            dsimp only
            rw [ih.mpr hrest]

theorem throw_iff {α : Type} {error : String} {r : α} :
    (throw error : Except String α) = .ok r ↔ (none : Option α) = some r :=
  ⟨fun h => (by cases h), fun h => (by cases h)⟩

theorem pure_iff {α : Type} {w r : α} : (pure w : Except String α) = .ok r ↔ some w = some r :=
  ⟨fun h => congrArg some (Except.ok.inj h), fun h => congrArg Except.ok (Option.some.inj h)⟩

theorem checkWeight_iff {policy who nonFinite : String} {w r : F} :
    checkWeight fl (decide (policy = "clamp")) who nonFinite w = .ok r ↔
      applyWeightRangePolicy fl policy w = some r := by
  unfold checkWeight applyWeightRangePolicy
  split
  · exact throw_iff
  · split
    · by_cases hclamp : policy = "clamp"
      · rw [if_neg (by rw [decide_eq_true hclamp]; exact Bool.noConfusion), if_pos hclamp]
        exact pure_iff
      · rw [if_pos (decide_eq_false hclamp), if_neg hclamp]
        exact throw_iff
    · exact pure_iff

theorem clamp_of_inside {w : F} (h : fl.outside w = false) : fl.clamp w = w := by
  obtain ⟨hlow, hhigh⟩ := Bool.or_eq_false_iff.mp h
  have hmax : fl.max w fl.zero = w := if_neg (by rw [hlow]; exact Bool.false_ne_true)
  rw [Floats.clamp, hmax]
  exact if_neg (by rw [hhigh]; exact Bool.false_ne_true)

theorem checkPainted_iff {policy who : String} {w r : F} :
    checkPainted fl (decide (policy = "clamp")) who w = .ok r ↔
      applyWeightRangePolicy fl policy w = some r := by
  unfold checkPainted applyWeightRangePolicy
  by_cases hfinite : fl.isFinite w = false
  · rw [if_pos (Or.inl hfinite), if_pos hfinite]
    exact throw_iff
  · rw [if_neg hfinite]
    by_cases hclamp : policy = "clamp"
    · rw [if_neg (fun h => h.elim hfinite fun h => absurd h.1 (by
        rw [decide_eq_true hclamp]
        exact Bool.noConfusion)), if_pos (decide_eq_true hclamp)]
      by_cases hout : fl.outside w = true
      · rw [if_pos hout, if_pos hclamp]
        exact pure_iff
      · rw [if_neg hout, clamp_of_inside (Bool.eq_false_of_not_eq_true hout)]
        exact pure_iff
    · by_cases hout : fl.outside w = true
      · rw [if_pos (Or.inr ⟨decide_eq_false hclamp, hout⟩), if_pos hout, if_neg hclamp]
        exact throw_iff
      · rw [if_neg (fun h => h.elim hfinite fun h => hout h.2), if_neg hout,
          if_neg (by rw [decide_eq_false hclamp]; exact Bool.false_ne_true)]
        exact pure_iff

/-! ## Canonical support -/

theorem uniquePairs_iff {pairs : List (Int × F)} (hsorted : (pairs.map (·.1)).Pairwise (· ≤ ·)) :
    (uniquePairs pairs).2 = true ↔ (pairs.map (·.1)).Pairwise (· < ·) := by
  induction pairs with
  | nil => exact ⟨fun _ => .nil, fun _ => rfl⟩
  | cons pair rest ih =>
      rw [List.map_cons, List.pairwise_cons] at hsorted
      cases rest with
      | nil => exact ⟨fun _ => List.pairwise_singleton _ _, fun _ => rfl⟩
      | cons next rest =>
          rw [uniquePairs, List.map_cons, List.pairwise_cons]
          by_cases hsame : next.1 = pair.1
          · rw [if_pos hsame]
            constructor
            · intro h
              cases h
            · rintro ⟨hless, -⟩
              have hlt : pair.1 < next.1 := hless next.1 List.mem_cons_self
              omega
          · rw [if_neg hsame]
            refine (ih hsorted.2).trans ⟨fun h => ⟨fun index hindex => ?_, h⟩, fun h => h.2⟩
            have hnext : pair.1 ≤ next.1 := hsorted.1 _ List.mem_cons_self
            rcases List.mem_cons.mp hindex with rfl | hlater
            · exact lt_of_le_of_ne hnext (Ne.symm hsame)
            · rw [List.map_cons, List.pairwise_cons] at h
              exact lt_of_le_of_lt hnext (h.1 index hlater)

theorem uniquePairs_fst {pairs : List (Int × F)} (h : (uniquePairs pairs).2 = true) :
    (uniquePairs pairs).1 = pairs := by
  induction pairs with
  | nil => rfl
  | cons pair rest ih =>
      cases rest with
      | nil => rfl
      | cons next rest =>
          rw [uniquePairs] at h ⊢
          by_cases hsame : next.1 = pair.1
          · rw [if_pos hsame] at h
            cases h
          · rw [if_neg hsame] at h ⊢
            exact congrArg (pair :: ·) (ih h)

theorem sorted_orderedInsert {r : Int × F → Int × F → Prop} [DecidableRel r]
    (hle : ∀ a b, r a b → a.1 ≤ b.1) (hge : ∀ a b, ¬ r a b → b.1 ≤ a.1) (pair : Int × F)
    {pairs : List (Int × F)} (hsorted : (pairs.map (·.1)).Pairwise (· ≤ ·)) :
    ((pairs.orderedInsert r pair).map (·.1)).Pairwise (· ≤ ·) := by
  induction pairs with
  | nil => exact List.pairwise_singleton _ _
  | cons head pairs ih =>
      rw [List.orderedInsert_cons]
      have htail := hsorted
      rw [List.map_cons, List.pairwise_cons] at htail
      split
      · rename_i hrel
        refine List.pairwise_cons.mpr ⟨fun index hindex => ?_, hsorted⟩
        rcases List.mem_cons.mp hindex with rfl | hlater
        · exact hle _ _ hrel
        · exact le_trans (hle _ _ hrel) (htail.1 index hlater)
      · rename_i hrel
        refine List.pairwise_cons.mpr ⟨fun index hindex => ?_, ih htail.2⟩
        have hmem := ((List.perm_orderedInsert r pair pairs).map (·.1)).mem_iff.mp hindex
        rcases List.mem_cons.mp hmem with rfl | hlater
        · exact hge _ _ hrel
        · exact htail.1 index hlater

theorem sorted_insertionSort {r : Int × F → Int × F → Prop} [DecidableRel r]
    (hle : ∀ a b, r a b → a.1 ≤ b.1) (hge : ∀ a b, ¬ r a b → b.1 ≤ a.1)
    (pairs : List (Int × F)) : ((pairs.insertionSort r).map (·.1)).Pairwise (· ≤ ·) := by
  induction pairs with
  | nil => exact .nil
  | cons pair pairs ih => exact sorted_orderedInsert hle hge pair ih

theorem canonicalPairs_iff {indices : List Int} {values : List F}
    (hsizes : indices.length = values.length) :
    (canonicalPairs fl indices values).2 = true ↔ indices.Nodup := by
  have hkeys : (indices.zip values).map (·.1) = indices := List.map_fst_zip hsizes.le
  have hsorted : ∀ sorted : List (Int × F), sorted.Perm (indices.zip values) →
      (sorted.map (·.1)).Pairwise (· ≤ ·) → ((uniquePairs sorted).2 = true ↔ indices.Nodup) := by
    intro sorted hperm hle
    rw [uniquePairs_iff hle]
    have hpermKeys : (sorted.map (·.1)).Perm indices := by
      have hmap := hperm.map (·.1)
      rw [hkeys] at hmap
      exact hmap
    constructor
    · intro hlt
      exact hpermKeys.nodup_iff.mp (hlt.imp fun h => ne_of_lt h)
    · intro hnodup
      have hne := hpermKeys.nodup_iff.mpr hnodup
      exact (hle.and hne).imp fun h => lt_of_le_of_ne h.1 h.2
  unfold canonicalPairs
  dsimp only
  split
  · refine hsorted _ (List.perm_insertionSort _ _) (sorted_insertionSort ?_ ?_ _)
    · exact fun a b h => h
    · exact fun a b h => (lt_of_not_ge h).le
  · refine hsorted _ (List.perm_insertionSort _ _) (sorted_insertionSort ?_ ?_ _)
    · exact fun a b h => le_of_not_gt fun hlt => h (Or.inl hlt)
    · intro a b h
      rcases not_not.mp h with hlt | ⟨heq, -⟩
      · exact hlt.le
      · exact heq.le

theorem canonicalPairs_spec {indices : List Int} {values : List F}
    (hsizes : indices.length = values.length)
    (h : (canonicalPairs fl indices values).2 = true) :
    (canonicalPairs fl indices values).1.Perm (indices.zip values) ∧
      ((canonicalPairs fl indices values).1.map (·.1)).Pairwise (· < ·) := by
  have hnodup := (canonicalPairs_iff hsizes).mp h
  unfold canonicalPairs at h ⊢
  dsimp only at h ⊢
  rw [if_pos hnodup] at h ⊢
  rw [uniquePairs_fst h]
  refine ⟨List.perm_insertionSort _ _, (uniquePairs_iff (sorted_insertionSort ?_ ?_ _)).mp h⟩
  · exact fun a b h => h
  · exact fun a b h => (lt_of_not_ge h).le

/-! ## Static packets -/

/-- The shape checks of a static record. -/
structure StaticShape (fl : Floats F) (token : String) (values : List F) (indices : List Int)
    (d : F) : Prop where
  representation : knownRepresentation token = true
  sizes : token = "sparse" → indices.length = values.length
  unique : token = "sparse" → indices.Nodup
  dense : token = "dense" → fl.eq d fl.zero = true

/-- The checks of a static packet, with the values and the default they leave. -/
structure StaticParts (fl : Floats F) (token rangePolicy : String) (values : List F)
    (indices : List Int) (d : F) (ranged : List F) (w : F) : Prop where
  shape : StaticShape fl token values indices d
  policy : knownPolicy rangePolicy = true
  values : List.Forall₂ (Passes fl rangePolicy id)
    (rawPacket fl token rangePolicy values indices d).values ranged
  defaultWeight : Passes fl rangePolicy id d w

section

variable {token rangePolicy : String} {values ranged : List F} {indices : List Int} {d w : F}

theorem StaticShape.canonical (h : StaticShape fl token values indices d)
    (hrep : token = "sparse") : (canonicalPairs fl indices values).2 = true :=
  (canonicalPairs_iff (h.sizes hrep)).mpr (h.unique hrep)

theorem StaticShape.shaped (h : StaticShape fl token values indices d) :
    (rawPacket fl token rangePolicy values indices d).Shaped := by
  refine ⟨h.representation, fun hrep => if_neg hrep, fun hrep => ?_⟩
  change token = "sparse" at hrep
  obtain ⟨-, hsorted⟩ := canonicalPairs_spec (h.sizes hrep) (h.canonical hrep)
  unfold rawPacket
  dsimp only
  rw [if_pos hrep, if_pos hrep, List.length_map, List.length_map]
  exact ⟨rfl, hsorted⟩

theorem StaticShape.entries (h : StaticShape fl token values indices d) (hrep : token = "sparse") :
    (rawPacket fl token rangePolicy values indices d).entries.Perm (indices.zip values) := by
  unfold WeightPacket.entries rawPacket
  dsimp only
  rw [if_pos hrep, if_pos hrep, List.zip_map', List.map_id']
  exact (canonicalPairs_spec (h.sizes hrep) (h.canonical hrep)).1

theorem buildStatic_eq (h : StaticParts fl token rangePolicy values indices d ranged w) :
    buildStaticWeightPacket fl token rangePolicy values indices d =
      { rawPacket fl token rangePolicy values indices d with
        values := ranged
        defaultWeight := w
        valid := true } := by
  have hdefault : applyWeightRangePolicy fl rangePolicy d = some w := h.defaultWeight
  unfold buildStaticWeightPacket
  dsimp only
  rw [if_neg (by rw [h.shape.representation]; exact Bool.noConfusion),
    if_neg (by rw [h.policy]; exact Bool.noConfusion),
    if_neg (fun hne => hne.2 (h.shape.sizes hne.1).symm),
    if_neg (fun hne => Bool.noConfusion ((h.shape.canonical hne.1).symm.trans hne.2)),
    if_neg (fun hne => Bool.noConfusion ((h.shape.dense hne.1).symm.trans hne.2)),
    applyPolicies_iff.mpr h.values, if_neg Bool.noConfusion, hdefault]

theorem buildStatic_valid
    (h : (buildStaticWeightPacket fl token rangePolicy values indices d).valid = true) :
    ∃ ranged w, StaticParts fl token rangePolicy values indices d ranged w := by
  unfold buildStaticWeightPacket at h
  dsimp only at h
  split at h
  · cases h
  rename_i hknown
  split at h
  · cases h
  rename_i hpolicy
  split at h
  · cases h
  rename_i hsizes
  split at h
  · cases h
  rename_i hcanonical
  split at h
  · cases h
  rename_i hdense
  split at h
  · cases h
  rename_i hranged
  have hlengths : token = "sparse" → indices.length = values.length :=
    fun hrep => by_contra fun hne => hsizes ⟨hrep, fun heq => hne heq.symm⟩
  cases hdefault : applyWeightRangePolicy fl rangePolicy d with
  | none =>
      rw [hdefault] at h
      cases h
  | some w =>
      refine ⟨_, w, ⟨Bool.eq_true_of_not_eq_false hknown, hlengths, fun hrep => ?_, fun hrep => ?_⟩,
        Bool.eq_true_of_not_eq_false hpolicy,
        applyPolicies_iff.mp (Prod.ext rfl (Bool.eq_true_of_not_eq_false hranged)), hdefault⟩
      · refine (@canonicalPairs_iff _ fl _ _ (hlengths hrep)).mp ?_
        exact Bool.eq_true_of_not_eq_false fun hfalse => hcanonical ⟨hrep, hfalse⟩
      · exact Bool.eq_true_of_not_eq_false fun hfalse => hdense ⟨hrep, hfalse⟩

theorem StaticParts.built (h : StaticParts fl token rangePolicy values indices d ranged w) :
    (buildStaticWeightPacket fl token rangePolicy values indices d).Built fl := by
  rw [buildStatic_eq h]
  have hshaped : (rawPacket fl token rangePolicy values indices d).Shaped := h.shape.shaped
  refine ⟨⟨h.shape.representation, hshaped.indices, fun hrep => ?_⟩, rfl, h.policy, fun v hv => ?_,
    usable_of_policy h.defaultWeight⟩
  · obtain ⟨hsizes, hsorted⟩ := hshaped.support hrep
    exact ⟨hsizes.trans h.values.length_eq, hsorted⟩
  · obtain ⟨b, -, hb⟩ := Lib.forall₂_mem h.values.flip hv
    exact usable_of_policy hb

end

/-! ## Dynamic packets -/

/-- The packet of a full weight, which a dynamic without a base drives. -/
def onePacket (fl : Floats F) : WeightPacket F where
  representation := "constant"
  rangePolicy := "strict"
  defaultWeight := fl.one
  valid := true

theorem built_onePacket : (onePacket fl).Built fl :=
  ⟨⟨rfl, fun _ => rfl, fun hrep => absurd hrep constant_ne_sparse⟩, rfl, rfl,
    fun _ hv => absurd hv List.not_mem_nil, usable_one fl.one_not_lt_zero⟩

theorem shows_onePacket (count : Nat) :
    (onePacket fl).Shows count (List.replicate count fl.one) :=
  shows_constant rfl ⟨fun _ => rfl, fun h => absurd h constant_ne_dense,
    fun h => absurd h constant_ne_sparse⟩

section

variable {token rangePolicy : String} {driver scale bias w : F} {base : WeightPacket F}
  {ranged : List F}

theorem buildDynamic_none :
    buildDynamicWeightPacket fl token rangePolicy driver scale bias none =
      buildDynamicWeightPacket fl token rangePolicy driver scale bias (some (onePacket fl)) := by
  unfold buildDynamicWeightPacket
  dsimp only
  split
  · rfl
  split
  · rfl
  by_cases hrep : token = "constant"
  · rw [if_neg (not_not.mpr hrep), if_neg (fun h => h.elim Bool.noConfusion fun h => h hrep.symm),
      if_neg fun h => constant_ne_dense (hrep.symm.trans h)]
    rfl
  · rw [if_pos hrep, if_pos (Or.inr fun h => hrep h.symm)]

/-- The checks of a dynamic packet, with the values and the default they leave. -/
structure DynamicParts (fl : Floats F) (token rangePolicy : String) (driver scale bias : F)
    (base : WeightPacket F) (ranged : List F) (w : F) : Prop where
  representation : knownRepresentation token = true
  policy : knownPolicy rangePolicy = true
  valid : base.valid = true
  same : base.representation = token
  values : List.Forall₂ (Passes fl rangePolicy (driven fl driver scale bias)) base.values ranged
  dense : token = "dense" → w = fl.zero
  defaultWeight : token ≠ "dense" →
    Passes fl rangePolicy (driven fl driver scale bias) base.defaultWeight w

theorem buildDynamic_eq
    (h : DynamicParts fl token rangePolicy driver scale bias base ranged w) :
    buildDynamicWeightPacket fl token rangePolicy driver scale bias (some base) =
      { base with
        representation := token
        rangePolicy := rangePolicy
        values := ranged
        defaultWeight := w } := by
  unfold buildDynamicWeightPacket
  dsimp only
  rw [if_neg (by rw [h.representation]; exact Bool.noConfusion),
    if_neg (by rw [h.policy]; exact Bool.noConfusion),
    if_neg (fun hne => hne.elim (by rw [h.valid]; exact Bool.noConfusion) fun hne => hne h.same),
    drivenValues_iff.mpr h.values, if_neg Bool.noConfusion]
  by_cases hrep : token = "dense"
  · rw [if_pos hrep, h.dense hrep, h.valid]
  · have hdefault : applyWeightRangePolicy fl rangePolicy
        (driven fl driver scale bias base.defaultWeight) = some w := h.defaultWeight hrep
    rw [if_neg hrep, hdefault, h.valid]

theorem buildDynamic_valid
    (h : (buildDynamicWeightPacket fl token rangePolicy driver scale bias (some base)).valid
      = true) :
    ∃ ranged w, DynamicParts fl token rangePolicy driver scale bias base ranged w := by
  unfold buildDynamicWeightPacket at h
  dsimp only at h
  split at h
  · cases h
  rename_i hknown
  split at h
  · cases h
  rename_i hpolicy
  split at h
  · cases h
  rename_i hbase
  split at h
  · cases h
  rename_i hranged
  obtain ⟨hvalid, hsame⟩ := not_or.mp hbase
  have hvalues := drivenValues_iff.mp (Prod.ext rfl (Bool.eq_true_of_not_eq_false hranged))
  by_cases hrep : token = "dense"
  · exact ⟨_, fl.zero, Bool.eq_true_of_not_eq_false hknown, Bool.eq_true_of_not_eq_false hpolicy,
      Bool.eq_true_of_not_eq_false hvalid, not_not.mp hsame, hvalues, fun _ => rfl,
      fun hne => absurd hrep hne⟩
  · rw [if_neg hrep] at h
    cases hdefault : applyWeightRangePolicy fl rangePolicy
        (driven fl driver scale bias base.defaultWeight) with
    | none =>
        rw [hdefault] at h
        cases h
    | some w =>
        exact ⟨_, w, Bool.eq_true_of_not_eq_false hknown, Bool.eq_true_of_not_eq_false hpolicy,
          Bool.eq_true_of_not_eq_false hvalid, not_not.mp hsame, hvalues,
          fun hdense => absurd hdense hrep, fun _ => hdefault⟩

theorem DynamicParts.built (h : DynamicParts fl token rangePolicy driver scale bias base ranged w)
    (hbase : base.Built fl) :
    (buildDynamicWeightPacket fl token rangePolicy driver scale bias (some base)).Built fl := by
  rw [buildDynamic_eq h]
  have hshaped := hbase.toShaped
  refine ⟨⟨h.representation, fun hrep => ?_, fun hrep => ?_⟩, h.valid, h.policy, fun v hv => ?_, ?_⟩
  · exact hshaped.indices fun heq => hrep (h.same.symm.trans heq)
  · obtain ⟨hsizes, hsorted⟩ := hshaped.support (h.same.trans hrep)
    exact ⟨hsizes.trans h.values.length_eq, hsorted⟩
  · obtain ⟨b, -, hb⟩ := Lib.forall₂_mem h.values.flip hv
    exact usable_of_policy hb
  · by_cases hrep : token = "dense"
    · show usable fl w = true
      rw [h.dense hrep]
      exact usable_zero
    · exact usable_of_policy (h.defaultWeight hrep)

end

/-! ## Combine packets -/

section

variable {token rangePolicy combineToken : String} {inputs : List (WeightPacket F)}
  {target count : Nat} {strength invert : F} {ranged : List F}

theorem combineResolver_eq_ok {input : WeightPacket F} {field : List F} :
    combineResolver fl count input = .ok field ↔ resolveCombineInput fl input count = some field := by
  unfold combineResolver
  cases resolveCombineInput fl input count with
  | none => exact throw_iff
  | some other => exact pure_iff

/-- The checks of a combine packet, with the element count and the values they leave. -/
structure CombineParts (fl : Floats F) (token rangePolicy combineToken : String)
    (inputs : List (WeightPacket F)) (target : Nat) (strength invert : F) (count : Nat)
    (ranged : List F) : Prop where
  representation : token = "dense"
  policy : knownPolicy rangePolicy = true
  mode : combineModeOf combineToken ≠ none
  carried : ∃ carried, inputElementCount 0 inputs = some carried ∧
    count = elementCountOf carried target
  positive : count ≠ 0
  values : ∃ folded, combineWeightFieldsStreamed fl (combineModeOf combineToken) inputs count
      (combineResolver fl count) = .ok folded ∧
    List.Forall₂ (Passes fl rangePolicy id) (folded.map (combineRemap fl strength invert)) ranged

theorem buildCombine_eq
    (h : CombineParts fl token rangePolicy combineToken inputs target strength invert count ranged)
    :
    buildCombineWeightPacket fl token rangePolicy combineToken inputs target strength invert =
      { WeightPacket.empty fl with
        representation := token
        rangePolicy := rangePolicy
        values := ranged
        valid := true } := by
  obtain ⟨carried, hcarried, hcount⟩ := h.carried
  obtain ⟨folded, hfolded, hranged⟩ := h.values
  unfold buildCombineWeightPacket
  dsimp only
  rw [if_neg (not_not.mpr h.representation), if_neg (by rw [h.policy]; exact Bool.noConfusion)]
  cases hmode : combineModeOf combineToken with
  | none => exact absurd hmode h.mode
  | some mode =>
      rw [hmode] at hfolded
      rw [hcarried]
      dsimp only
      rw [← hcount, if_neg h.positive]
      rw [hfolded]
      dsimp only
      rw [applyPolicies_iff.mpr hranged, if_neg Bool.noConfusion]

theorem buildCombine_valid
    (h : (buildCombineWeightPacket fl token rangePolicy combineToken inputs target strength
      invert).valid = true) :
    ∃ count ranged, CombineParts fl token rangePolicy combineToken inputs target strength invert
      count ranged := by
  unfold buildCombineWeightPacket at h
  dsimp only at h
  split at h
  · cases h
  rename_i hrep
  split at h
  · cases h
  rename_i hpolicy
  cases hmode : combineModeOf combineToken with
  | none =>
      rw [hmode] at h
      cases h
  | some mode =>
      rw [hmode] at h
      cases hcarried : inputElementCount 0 inputs with
      | none =>
          rw [hcarried] at h
          cases h
      | some carried =>
          rw [hcarried] at h
          dsimp only at h
          split at h
          · cases h
          rename_i hpositive
          cases hfolded : combineWeightFieldsStreamed fl (some mode) inputs
              (elementCountOf carried target)
              (combineResolver fl (elementCountOf carried target)) with
          | error error =>
              rw [hfolded] at h
              cases h
          | ok folded =>
              rw [hfolded] at h
              dsimp only at h
              split at h
              · cases h
              rename_i hranged
              exact ⟨_, _, not_not.mp hrep, Bool.eq_true_of_not_eq_false hpolicy,
                fun hnone => Option.some_ne_none _ (hmode.symm.trans hnone),
                ⟨carried, hcarried, rfl⟩, hpositive,
                ⟨folded, hmode ▸ hfolded, applyPolicies_iff.mp
                  (Prod.ext rfl (Bool.eq_true_of_not_eq_false hranged))⟩⟩

theorem CombineParts.built
    (h : CombineParts fl token rangePolicy combineToken inputs target strength invert count ranged)
    :
    (buildCombineWeightPacket fl token rangePolicy combineToken inputs target strength
      invert).Built fl := by
  rw [buildCombine_eq h]
  obtain ⟨folded, -, hranged⟩ := h.values
  refine ⟨⟨?_, fun _ => rfl, fun hrep => ?_⟩, rfl, h.policy, fun v hv => ?_, usable_zero⟩
  · show knownRepresentation token = true
    rw [h.representation]
    rfl
  · exact absurd (h.representation.symm.trans hrep) dense_ne_sparse
  · obtain ⟨b, -, hb⟩ := Lib.forall₂_mem hranged.flip hv
    exact usable_of_policy hb

theorem CombineParts.length
    (h : CombineParts fl token rangePolicy combineToken inputs target strength invert count ranged)
    :
    ranged.length = count := by
  obtain ⟨folded, hfolded, hranged⟩ := h.values
  rw [← hranged.length_eq, List.length_map]
  exact (combine_ok hfolded).1

theorem valid_of_inputElementCount {elementCount carried : Nat}
    (h : inputElementCount elementCount inputs = some carried) :
    ∀ input ∈ inputs, input.valid = true := by
  induction inputs generalizing elementCount with
  | nil => exact fun input hinput => absurd hinput List.not_mem_nil
  | cons head inputs ih =>
      rw [inputElementCount] at h
      split at h
      · cases h
      rename_i hvalid
      intro input hinput
      rcases List.mem_cons.mp hinput with rfl | hlater
      · exact Bool.eq_true_of_not_eq_false hvalid
      · split at h
        · split at h
          · cases h
          · exact ih h input hlater
        · exact ih h input hlater

theorem inputElementCount_of_valid {elementCount : Nat}
    (hvalid : ∀ input ∈ inputs, input.valid = true)
    (hdense : ∀ input ∈ inputs, input.representation = "dense" → input.values.length = count)
    (hcount : elementCount = 0 ∨ elementCount = count) :
    ∃ carried, inputElementCount elementCount inputs = some carried ∧
      (carried = 0 ∨ carried = count) := by
  induction inputs generalizing elementCount with
  | nil => exact ⟨elementCount, rfl, hcount⟩
  | cons head inputs ih =>
      have hrest := fun {n : Nat} => @ih n (fun i hi => hvalid i (List.mem_cons_of_mem _ hi))
        fun i hi => hdense i (List.mem_cons_of_mem _ hi)
      rw [inputElementCount, if_neg (by rw [hvalid head List.mem_cons_self]; exact Bool.noConfusion)]
      by_cases hrep : head.representation = "dense"
      · have hlength := hdense head List.mem_cons_self hrep
        rw [if_pos hrep, if_neg (fun h => h.2 (hlength.trans (hcount.resolve_left h.1).symm)),
          hlength]
        exact hrest (Or.inr rfl)
      · rw [if_neg hrep]
        exact hrest hcount

end

end

end RigExec.Weights
