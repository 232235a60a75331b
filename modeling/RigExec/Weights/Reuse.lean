/-
# `RigExec.Weights.Reuse` — a workspace remembers nothing that a packet shows

A workspace is sound when its order is that of its support and its verdict that of its indices.
A build keeps it sound, and in a sound workspace a static build gives what it gives in any other.
A combine writes its scratch before it reads it.

    Sound              the invariant of a workspace
    buildStaticIn_eq   a static build in a sound workspace
    combine_eq         a combine does not depend on the scratch it is given
-/
import RigExec.Weights.Workspace
import RigExec.Weights.Builders
import Mathlib.Data.List.GetD

namespace RigExec.Weights

variable {F : Type} {fl : Floats F}

/-! ## The order of a support -/

section Order

/-- What a position of a support pairs. -/
def pairAt (fl : Floats F) (indices : List Int) (values : List F) (source : Nat) : Int × F :=
  (indices.getD source 0, values.getD source fl.zero)

theorem map_pairAt_range {indices : List Int} {values : List F}
    (hsizes : values.length = indices.length) :
    (List.range indices.length).map (pairAt fl indices values) = indices.zip values := by
  refine List.ext_getElem ?_ ?_
  · rw [List.length_map, List.length_range, List.length_zip, hsizes, Nat.min_self]
  · intro i hi hi'
    rw [List.length_map, List.length_range] at hi
    rw [List.getElem_map, List.getElem_range, List.getElem_zip, pairAt,
      List.getD_eq_getElem _ _ hi, List.getD_eq_getElem _ _ (by omega)]

theorem map_getD_range (indices : List Int) :
    (List.range indices.length).map (fun source => indices.getD source 0) = indices := by
  refine List.ext_getElem ?_ ?_
  · rw [List.length_map, List.length_range]
  · intro i hi hi'
    rw [List.getElem_map, List.getElem_range, List.getD_eq_getElem _ _ hi']

theorem perm_sortedOrder (indices : List Int) :
    (sortedOrder indices).Perm (List.range indices.length) :=
  List.perm_insertionSort _ _

theorem sorted_sortedOrder (indices : List Int) :
    ((sortedOrder indices).map fun source => indices.getD source 0).Pairwise (· ≤ ·) := by
  rw [List.pairwise_map]
  have total : Std.Total fun a b : Nat => indices.getD a 0 ≤ indices.getD b 0 :=
    ⟨fun a b => le_total _ _⟩
  have trans : IsTrans Nat fun a b => indices.getD a 0 ≤ indices.getD b 0 :=
    ⟨fun a b c => le_trans⟩
  exact List.pairwise_insertionSort _ _

theorem perm_keys (indices : List Int) :
    ((sortedOrder indices).map fun source => indices.getD source 0).Perm indices := by
  have hperm := (perm_sortedOrder indices).map fun source => indices.getD source 0
  rwa [map_getD_range] at hperm

theorem neighboursDiffer_iff {indices : List Int} {order : List Nat}
    (hsorted : (order.map fun source => indices.getD source 0).Pairwise (· ≤ ·)) :
    neighboursDiffer indices order = true ↔
      (order.map fun source => indices.getD source 0).Nodup := by
  induction order with
  | nil => simp [neighboursDiffer]
  | cons a order ih =>
      cases order with
      | nil => simp [neighboursDiffer]
      | cons b order =>
          rw [List.map_cons, List.pairwise_cons] at hsorted
          have hrest := ih hsorted.2
          rw [neighboursDiffer]
          by_cases hsame : indices.getD a 0 = indices.getD b 0
          · rw [if_pos hsame]
            constructor
            · intro h
              cases h
            · intro h
              rw [List.map_cons, List.nodup_cons] at h
              exact absurd (List.mem_map.mpr ⟨b, List.mem_cons_self, hsame.symm⟩) h.1
          · rw [if_neg hsame, hrest]
            refine Iff.trans (and_iff_right fun hmem => ?_).symm
              (List.nodup_cons (a := indices.getD a 0)).symm
            -- an index that comes back stands above the one between
            obtain ⟨c, hc, hback⟩ := List.mem_map.mp hmem
            rcases List.mem_cons.mp hc with rfl | hlater
            · exact hsame hback.symm
            · have hup : indices.getD a 0 ≤ indices.getD b 0 :=
                hsorted.1 _ (List.mem_map.mpr ⟨b, List.mem_cons_self, rfl⟩)
              have hdown : indices.getD b 0 ≤ indices.getD c 0 :=
                (List.pairwise_cons.mp hsorted.2).1 _ (List.mem_map.mpr ⟨c, hlater, rfl⟩)
              exact hsame (le_antisymm hup (hdown.trans hback.le))

theorem neighboursDiffer_sortedOrder (indices : List Int) :
    neighboursDiffer indices (sortedOrder indices) = true ↔ indices.Nodup :=
  (neighboursDiffer_iff (sorted_sortedOrder indices)).trans (perm_keys indices).nodup_iff

theorem eq_of_sorted_keys {pairs pairs' : List (Int × F)} (hperm : pairs.Perm pairs')
    (hnodup : (pairs.map (·.1)).Nodup) (hsorted : (pairs.map (·.1)).Pairwise (· ≤ ·))
    (hsorted' : (pairs'.map (·.1)).Pairwise (· ≤ ·)) : pairs = pairs' := by
  rw [List.pairwise_map] at hsorted hsorted'
  refine List.Perm.eq_of_pairwise ?_ hsorted hsorted' hperm
  intro a b ha hb hab hba
  exact List.inj_on_of_nodup_map hnodup ha (hperm.mem_iff.mpr hb) (le_antisymm hab hba)

theorem map_sortedOrder {indices : List Int} {values : List F}
    (hsizes : values.length = indices.length) (hnodup : indices.Nodup) :
    (sortedOrder indices).map (pairAt fl indices values) =
      (indices.zip values).insertionSort fun a b => a.1 ≤ b.1 := by
  have hperm : ((sortedOrder indices).map (pairAt fl indices values)).Perm
      (indices.zip values) := by
    have h := (perm_sortedOrder indices).map (pairAt fl indices values)
    rwa [map_pairAt_range hsizes] at h
  have hkeys : ((sortedOrder indices).map (pairAt fl indices values)).map (·.1) =
      (sortedOrder indices).map fun source => indices.getD source 0 := by
    rw [List.map_map]
    rfl
  refine eq_of_sorted_keys (hperm.trans (List.perm_insertionSort _ _).symm) ?_ ?_ ?_
  · rw [hkeys]
    exact (perm_keys indices).nodup_iff.mpr hnodup
  · rw [hkeys]
    exact sorted_sortedOrder indices
  · exact sorted_insertionSort (fun a b h => h) (fun a b h => (lt_of_not_ge h).le) _

end Order

/-! ## Sound workspaces -/

section Sound

/-- The order is that of the support, and the verdict on a support of any size that of its
indices. -/
structure Workspace.Sound (ws : Workspace F) : Prop where
  order : ws.supportOrder = sortedOrder ws.support
  unique : ws.support ≠ [] → (ws.uniqueSupport = true ↔ ws.support.Nodup)

theorem sound_fresh : ({} : Workspace F).Sound :=
  ⟨rfl, fun h => absurd rfl h⟩

theorem Workspace.Sound.prepare {ws : Workspace F} (h : ws.Sound) (indices : List Int) :
    (ws.prepare indices).Sound ∧ (ws.prepare indices).support = indices ∧
      (ws.prepare indices).pairs = ws.pairs := by
  unfold Workspace.prepare
  split
  · rename_i hsame
    refine ⟨h, ?_, rfl⟩
    rcases hsame.2 with hempty | hsupport
    · rw [List.length_eq_zero_iff.mp (hsame.1.trans hempty), List.length_eq_zero_iff.mp hempty]
    · exact hsupport
  · exact ⟨⟨rfl, fun _ => neighboursDiffer_sortedOrder indices⟩, rfl, rfl⟩

theorem Workspace.Sound.uniquePairs {ws : Workspace F} (h : ws.Sound) {indices : List Int}
    {values : List F} (hsupport : ws.support = indices) (hpairs : ws.pairs = indices.zip values)
    (hsizes : values.length = indices.length) :
    Weights.uniquePairs (ws.sortedPairs fl indices values) = canonicalPairs fl indices values := by
  unfold Workspace.sortedPairs canonicalPairs
  dsimp only
  rw [h.order, hsupport, hpairs]
  by_cases hempty : indices = []
  · subst hempty
    rw [List.zip_nil_left]
    split <;> rfl
  · have hverdict := h.unique (by rw [hsupport]; exact hempty)
    rw [hsupport] at hverdict
    by_cases hnodup : indices.Nodup
    · rw [if_pos (hverdict.mpr hnodup), if_pos hnodup]
      exact congrArg Weights.uniquePairs (map_sortedOrder hsizes hnodup)
    · rw [if_neg (fun hunique => hnodup (hverdict.mp hunique)), if_neg hnodup]

theorem buildStatic_finish {representation rangePolicy : String} {values : List F}
    {indices : List Int} {d : F} (hknown : ¬ knownRepresentation representation = false)
    (hpolicy : ¬ knownPolicy rangePolicy = false)
    (hsizes : ¬ (representation = "sparse" ∧ values.length ≠ indices.length)) :
    buildStaticWeightPacket fl representation rangePolicy values indices d =
      if representation = "sparse" ∧ (canonicalPairs fl indices values).2 = false then
        rawPacket fl representation rangePolicy values indices d
      else finishStatic fl (rawPacket fl representation rangePolicy values indices d) := by
  unfold buildStaticWeightPacket
  dsimp only
  rw [if_neg hknown, if_neg hpolicy, if_neg hsizes]
  rfl

variable (fl) in
theorem buildStaticIn_eq {ws : Workspace F} (h : ws.Sound) (representation rangePolicy : String)
    (values : List F) (indices : List Int) (d : F) :
    (buildStaticIn fl ws representation rangePolicy values indices d).1 =
        buildStaticWeightPacket fl representation rangePolicy values indices d ∧
      (buildStaticIn fl ws representation rangePolicy values indices d).2.Sound := by
  by_cases hknown : knownRepresentation representation = false
  · unfold buildStaticIn buildStaticWeightPacket
    dsimp only
    rw [if_pos hknown, if_pos hknown]
    exact ⟨rfl, h⟩
  by_cases hpolicy : knownPolicy rangePolicy = false
  · unfold buildStaticIn buildStaticWeightPacket
    dsimp only
    rw [if_neg hknown, if_neg hknown, if_pos hpolicy, if_pos hpolicy]
    exact ⟨rfl, h⟩
  by_cases hsparse : representation = "sparse"
  · by_cases hsizes : values.length = indices.length
    · rw [buildStatic_finish hknown hpolicy fun hne => hne.2 hsizes]
      unfold buildStaticIn
      dsimp only
      rw [if_neg hknown, if_neg hpolicy, if_pos hsparse, if_neg (not_not_intro hsizes)]
      obtain ⟨hsound, hsupport, hpairs⟩ :=
        Workspace.Sound.prepare (show Workspace.Sound { ws with pairs := indices.zip values } from
          ⟨h.order, h.unique⟩) indices
      rw [hsound.uniquePairs hsupport hpairs hsizes, rawPacket, if_pos hsparse, if_pos hsparse]
      by_cases hunique : (canonicalPairs fl indices values).2 = false
      · rw [if_pos hunique, if_pos ⟨hsparse, hunique⟩]
        exact ⟨rfl, hsound.order, hsound.unique⟩
      · rw [if_neg hunique, if_neg fun hne => hunique hne.2]
        exact ⟨rfl, hsound.order, hsound.unique⟩
    · unfold buildStaticIn buildStaticWeightPacket
      dsimp only
      rw [if_neg hknown, if_neg hpolicy, if_pos hsparse, if_pos hsizes, if_neg hknown,
        if_neg hpolicy, if_pos ⟨hsparse, hsizes⟩]
      exact ⟨rfl, h.order, h.unique⟩
  · rw [buildStatic_finish hknown hpolicy fun hne => hsparse hne.1,
      if_neg fun hne => hsparse hne.1]
    unfold buildStaticIn
    dsimp only
    rw [if_neg hknown, if_neg hpolicy, if_neg hsparse, rawPacket, if_neg hsparse, if_neg hsparse]
    exact ⟨rfl, h.order, h.unique⟩

end Sound

/-! ## Combines -/

section Combine

variable {σ ι : Type} {mode : Option WeightCombine} {count : Nat}
  {resolve : σ → ι → σ × Option (List F)} {pure_ : ι → Except String (List F)}

/-- What a combine reads of an input, without a scratch. -/
def answered (answer : Option (List F)) : Except String (List F) :=
  match answer with
  | none => .error ""
  | some data => .ok data

theorem readInputIn_eq (h : ∀ scratch input, answered (resolve scratch input).2 = pure_ input)
    (scratch : σ) (input : ι) :
    (readInputIn resolve count scratch input).2 = readInput pure_ count input := by
  have hanswer := h scratch input
  unfold readInputIn readInput
  dsimp only
  rw [← hanswer]
  cases (resolve scratch input).2 with
  | none => rfl
  | some data =>
      show _ = if data.length ≠ count then throw "" else pure data
      dsimp only
      split <;> rfl

theorem foldInputsIn_eq (h : ∀ scratch input, answered (resolve scratch input).2 = pure_ input)
    (scratch : σ) (out : List F) (inputs : List ι) :
    (foldInputsIn fl mode count resolve scratch out inputs).2 =
      foldInputs fl mode count pure_ out inputs := by
  induction inputs generalizing scratch out with
  | nil => rfl
  | cons input rest ih =>
      rw [foldInputs_cons, ← readInputIn_eq h scratch input, foldInputsIn]
      cases (readInputIn resolve count scratch input).2 with
      | error e => rfl
      | ok data => exact ih _ _

theorem combineStreamedIn_eq
    (h : ∀ scratch input, answered (resolve scratch input).2 = pure_ input) (inputs : List ι)
    (scratch : σ) :
    (combineStreamedIn fl mode inputs count resolve scratch).2 =
      combineWeightFieldsStreamed fl mode inputs count pure_ := by
  cases inputs with
  | nil => rfl
  | cons first rest =>
      unfold combineStreamedIn combineWeightFieldsStreamed
      dsimp only
      by_cases hseed : seedFromFirst mode = true
      · rw [if_pos hseed, if_pos hseed, ← readInputIn_eq h scratch first]
        cases (readInputIn resolve count scratch first).2 with
        | error e => rfl
        | ok seed =>
            show Except.map _ (foldInputsIn fl mode count resolve _ seed rest).2 = _
            rw [foldInputsIn_eq h]
            rfl
      · rw [if_neg hseed, if_neg hseed, foldInputsIn_eq h]

theorem resolveInputIn_eq (minusOne : F) (scratch scratch' : List F) (packet : WeightPacket F)
    (count : Nat) :
    (resolveInputIn fl minusOne scratch packet count).2 =
      (resolveInputIn fl minusOne scratch' packet count).2 := by
  unfold resolveInputIn
  repeat' split
  all_goals rfl

theorem buildCombineIn_eq (minusOne : F) (ws ws' : Workspace F)
    (representation rangePolicy combineMode : String) (inputs : List (WeightPacket F))
    (weightTargetCount : Nat) (strength invert : F) :
    (buildCombineIn fl minusOne ws representation rangePolicy combineMode inputs
        weightTargetCount strength invert).1 =
      (buildCombineIn fl minusOne ws' representation rangePolicy combineMode inputs
        weightTargetCount strength invert).1 := by
  have hfolded : ∀ mode count,
      (combineStreamedIn fl mode inputs count
        (fun scratch input => resolveInputIn fl minusOne scratch input count)
        ws.combineField).2 =
      (combineStreamedIn fl mode inputs count
        (fun scratch input => resolveInputIn fl minusOne scratch input count)
        ws'.combineField).2 := by
    intro mode count
    have hanswer : ∀ scratch input,
        answered (resolveInputIn fl minusOne scratch input count).2 =
          answered (resolveInputIn fl minusOne [] input count).2 := fun scratch input =>
      congrArg answered (resolveInputIn_eq minusOne scratch [] input count)
    rw [combineStreamedIn_eq hanswer, combineStreamedIn_eq hanswer]
  unfold buildCombineIn
  dsimp only
  split
  · rfl
  split
  · rfl
  cases combineModeOf combineMode with
  | none => rfl
  | some mode =>
      dsimp only
      cases inputElementCount 0 inputs with
      | none => rfl
      | some carried =>
          dsimp only
          split
          · rfl
          rw [hfolded]
          split
          · rfl
          · split <;> rfl

theorem buildCombineIn_sound (minusOne : F) {ws : Workspace F} (h : ws.Sound)
    (representation rangePolicy combineMode : String) (inputs : List (WeightPacket F))
    (weightTargetCount : Nat) (strength invert : F) :
    (buildCombineIn fl minusOne ws representation rangePolicy combineMode inputs
        weightTargetCount strength invert).2.Sound := by
  unfold buildCombineIn
  dsimp only
  repeat' split
  all_goals exact ⟨h.order, h.unique⟩

end Combine

/-! ## Runs -/

theorem WeightBuild.run_eq (minusOne : F) {ws : Workspace F} (h : ws.Sound)
    (build : WeightBuild F) :
    (build.run fl minusOne ws).1 = (build.run fl minusOne {}).1 ∧
      (build.run fl minusOne ws).2.Sound := by
  cases build with
  | static representation rangePolicy values indices d =>
      have hhere := buildStaticIn_eq fl h representation rangePolicy values indices d
      have hfresh := buildStaticIn_eq fl sound_fresh representation rangePolicy values
        indices d
      exact ⟨hhere.1.trans hfresh.1.symm, hhere.2⟩
  | combine representation rangePolicy combineMode inputs weightTargetCount strength invert =>
      exact ⟨buildCombineIn_eq minusOne ws {} _ _ _ _ _ _ _,
        buildCombineIn_sound minusOne h _ _ _ _ _ _ _⟩

theorem runBuilds_eq (minusOne : F) {ws : Workspace F} (h : ws.Sound)
    (builds : List (WeightBuild F)) :
    runBuilds fl minusOne ws builds = builds.map fun build => (build.run fl minusOne {}).1 := by
  induction builds generalizing ws with
  | nil => rfl
  | cons build builds ih =>
      obtain ⟨hpacket, hsound⟩ := build.run_eq minusOne h
      rw [runBuilds, List.map_cons, hpacket, ih hsound]

end RigExec.Weights
