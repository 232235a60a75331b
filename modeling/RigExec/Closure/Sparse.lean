/-
# `RigExec.Closure.Sparse` — what a sparse publication leaves out

A sparse publication leaves out the leaves whose slots were not written, and a sparse sweep the
memos whose slots were not.  Where what is left out is as it was, a full one would have found
nothing there: the same leaves are marked as changed, and every memo is what a rebuild would give.

    publications     rewrite one value at a time (`rewrites_publishLeaf`)
    sweeps           rewrite one memo at a time (`rewrites_source`)
    tables           name the leaves of a slot (`TabledBy`), by domains and slots that never change
-/
import RigExec.Closure.Changes
import RigExec.Lib.Pointwise

namespace RigExec.Closure

open RigExec.OpGraph

variable {σ : Type} {program : ClosureProgram σ} {memory : σ} {adapter : OpAdapterState}
  {id : ValueId} {value : OpValueState}

/-! ## Publishing one leaf -/

/-- The domain and the slot of a value, which no publication changes. -/
def OpValueState.place (value : OpValueState) : Nat × Nat := (value.domain, value.slot)

theorem place_publishAt : (publishAt program memory value).place = value.place := by
  rw [publishAt_eq]
  rfl

theorem changed_publishAt_twice :
    (publishAt program memory (publishAt program memory value)).changed = false := by
  rw [← Bool.not_eq_true, publishAt_changed, not_not]
  exact publishAt_settled memory value

theorem rewrites_publishLeaf (program : ClosureProgram σ) (memory : σ) :
    Lib.Rewrites (fun (adapter : OpAdapterState) (id : ValueId) => adapter.values[id]?)
      (publishLeaf program memory) (fun _ found => found.map (publishAt program memory)) where
  here adapter id := by
    unfold publishLeaf
    cases hvalue : adapter.values[id]? with
    | none => exact hvalue
    | some value =>
        have hlt := (List.getElem?_eq_some_iff.mp hvalue).1
        show (adapter.values.set id _)[id]? = _
        rw [List.getElem?_set_self hlt]
        rfl
  others adapter id other hne := by
    unfold publishLeaf
    cases adapter.values[id]? with
    | none => rfl
    | some value =>
        show (adapter.values.set id _)[other]? = _
        rw [List.getElem?_set_ne (Ne.symm hne)]

/-- Whether a publication moves the value that is found. -/
def moves (program : ClosureProgram σ) (memory : σ) : Option OpValueState → Bool
  | some value => (publishAt program memory value).changed
  | none => false

theorem mem_changedLeaves_publishLeaf {other : ValueId} :
    other ∈ (publishLeaf program memory adapter id).changedLeaves ↔
      other ∈ adapter.changedLeaves ∨
        other = id ∧ moves program memory adapter.values[id]? = true := by
  unfold publishLeaf
  cases adapter.values[id]? with
  | none => exact ⟨.inl, fun h => h.resolve_right fun hmoves => Bool.noConfusion hmoves.2⟩
  | some value =>
      dsimp only [moves]
      split
      · rename_i hchanged
        rw [List.mem_append, List.mem_singleton]
        exact or_congr_right (and_iff_left hchanged).symm
      · rename_i hchanged
        exact ⟨.inl, fun h => h.resolve_right fun hmoves => hchanged hmoves.2⟩

theorem mem_changedLeaves_foldl (ids : List ValueId) (adapter : OpAdapterState) :
    id ∈ (ids.foldl (publishLeaf program memory) adapter).changedLeaves ↔
      id ∈ adapter.changedLeaves ∨ id ∈ ids ∧ moves program memory adapter.values[id]? = true := by
  have hrewrites := rewrites_publishLeaf program memory
  induction ids generalizing adapter with
  | nil => exact ⟨.inl, fun h => h.resolve_right fun hmem => absurd hmem.1 List.not_mem_nil⟩
  | cons first ids ih =>
      rw [List.foldl_cons]
      refine (ih (publishLeaf program memory adapter first)).trans ?_
      rw [mem_changedLeaves_publishLeaf, List.mem_cons]
      by_cases heq : id = first
      · subst heq
        have hagain : moves program memory (publishLeaf program memory adapter id).values[id]? =
            false := by
          rw [show (publishLeaf program memory adapter id).values[id]? = _ from
            hrewrites.here adapter id]
          cases adapter.values[id]? with
          | none => rfl
          | some value => exact changed_publishAt_twice
        rw [hagain]
        simp
      · have hother : (publishLeaf program memory adapter first).values[id]? = adapter.values[id]? :=
          hrewrites.others adapter first id heq
        rw [hother]
        simp [heq]

/-- A value that a publication does not move, and that is not marked as changed, is left as it is. -/
theorem publishAt_of_not_moves (hmoves : moves program memory (some value) = false)
    (hchanged : value.changed = false) : publishAt program memory value = value := by
  dsimp only [moves] at hmoves
  rw [publishAt_eq] at hmoves ⊢
  generalize publishedKey program memory value = key at hmoves ⊢
  dsimp only [publishValue] at hmoves ⊢
  rw [hmoves]
  obtain ⟨hinit, hkey⟩ := Bool.or_eq_false_iff.mp hmoves
  rw [Bool.not_eq_false'] at hinit
  rw [bne_eq_false_iff_eq.mp hkey]
  cases value
  simp_all

theorem moves_publishAt (found : Option OpValueState) :
    moves program memory (found.map (publishAt program memory)) = false := by
  cases found with
  | none => rfl
  | some value => exact changed_publishAt_twice

/-! ## What publications leave -/

/-- What no run changes of the values and the tables of its operations. -/
def OpAdapterState.fixed (adapter : OpAdapterState) :
    List ValueId × List (Nat × Nat) × List Bool × List Nat :=
  (adapter.leaves, adapter.values.map OpValueState.place, adapter.constantSource,
    adapter.sourceVisits)

theorem place_set {values : List OpValueState} {published : OpValueState}
    (hvalue : values[id]? = some value) (hplace : published.place = value.place) :
    (values.set id published).map OpValueState.place = values.map OpValueState.place := by
  obtain ⟨hlt, hget⟩ := List.getElem?_eq_some_iff.mp hvalue
  have hplaced : (values.map OpValueState.place).get ⟨id, by rw [List.length_map]; exact hlt⟩ =
      value.place := by rw [List.get_eq_getElem, List.getElem_map, hget]
  rw [List.map_set, hplace, ← hplaced, List.get_eq_getElem, List.set_getElem_self]

theorem fixed_publishLeaf (adapter : OpAdapterState) (id : ValueId) :
    (publishLeaf program memory adapter id).fixed = adapter.fixed := by
  unfold publishLeaf
  cases hvalue : adapter.values[id]? with
  | none => rfl
  | some value =>
      have hplace := place_set hvalue (@place_publishAt _ program memory value)
      exact congrArg (fun places => (adapter.leaves, places, adapter.constantSource,
        adapter.sourceVisits)) hplace

theorem fixed_publishLeaves {full : Bool} {slotLeaves : SlotLeaves} :
    (publishLeaves program full memory slotLeaves adapter).1.fixed = adapter.fixed := by
  have hfold : ∀ (ids : List ValueId) (adapter : OpAdapterState),
      (ids.foldl (publishLeaf program memory) adapter).fixed = adapter.fixed :=
    Lib.foldl_frame fixed_publishLeaf
  unfold publishLeaves
  split
  · exact hfold _ _
  · exact (hfold _ _).trans (hfold _ _)

theorem fixed_publishWrite {state : Working σ × Option OpValueState} :
    (publishWrite program state id).1.adapter.fixed = state.1.adapter.fixed := by
  unfold publishWrite
  cases hvalue : state.1.adapter.values[id]? with
  | none => rfl
  | some value =>
      dsimp only
      have hplace : ∀ published : OpValueState, published.place = value.place →
          ({ state.1.adapter with values := state.1.adapter.values.set id published } :
            OpAdapterState).fixed = state.1.adapter.fixed :=
        fun published hsame => congrArg (fun places => (state.1.adapter.leaves, places,
          state.1.adapter.constantSource, state.1.adapter.sourceVisits)) (place_set hvalue hsame)
      refine hplace _ ?_
      split
      · split
        · rfl
        · exact place_publishAt
      · exact place_publishAt

/-! ## The tables of the leaves -/

theorem leafSlots_congr {values values' : List OpValueState}
    (h : values'.map OpValueState.place = values.map OpValueState.place) (id : ValueId) :
    leafSlots program values' id = leafSlots program values id := by
  have hplace : (values'[id]?).map OpValueState.place = (values[id]?).map OpValueState.place := by
    rw [← List.getElem?_map, ← List.getElem?_map, h]
  unfold leafSlots
  cases hvalue : values[id]? with
  | none =>
      rw [hvalue, Option.map_none, Option.map_eq_none_iff] at hplace
      rw [hplace]
  | some value =>
      rw [hvalue] at hplace
      obtain ⟨value', hvalue', hsame⟩ := Option.map_eq_some_iff.mp hplace
      rw [hvalue']
      have hfields := Prod.mk.inj hsame
      show program.keyedSlots value'.domain value'.slot = _
      rw [hfields.1, hfields.2]

/-- The tables have each keyed leaf at its slots, and every other leaf. -/
structure TabledBy (program : ClosureProgram σ) (slots : Nat) (adapter : OpAdapterState)
    (slotLeaves : SlotLeaves) : Prop where
  others : slotLeaves.rows.isSome = true → slotLeaves.otherLeaves =
    adapter.leaves.filter fun id => (leafSlots program adapter.values id).isNone
  rows : ∀ rows, slotLeaves.rows = some rows → ∀ (s : Nat) (id : ValueId),
    id ∈ rows[s]?.getD [] ↔
      s < slots ∧ id ∈ adapter.leaves ∧ s ∈ (leafSlots program adapter.values id).getD []

theorem tabledBy_indexSlotLeaves (fromFile : Bool) (slots : Nat) (adapter : OpAdapterState) :
    TabledBy program slots adapter (indexSlotLeaves program fromFile slots adapter) := by
  unfold indexSlotLeaves
  split
  · refine ⟨fun _ => rfl, fun rows hrows s id => ?_⟩
    cases hrows
    rw [List.getElem?_map]
    by_cases hs : s < slots
    · rw [List.getElem?_range hs]
      show id ∈ Lib.sortUnique _ ↔ _
      rw [Lib.mem_sortUnique, List.mem_filter, decide_eq_true_iff]
      exact (and_iff_right hs).symm
    · rw [List.getElem?_eq_none (by rw [List.length_range]; exact Nat.le_of_not_lt hs)]
      exact iff_of_false List.not_mem_nil fun h => hs h.1
  · exact ⟨fun hrows => Bool.noConfusion hrows, fun rows hrows => by cases hrows⟩

theorem TabledBy.congr {slots : Nat} {slotLeaves : SlotLeaves} {adapter' : OpAdapterState}
    (h : TabledBy program slots adapter slotLeaves) (hfixed : adapter'.fixed = adapter.fixed) :
    TabledBy program slots adapter' slotLeaves := by
  have hleaves : adapter'.leaves = adapter.leaves := congrArg Prod.fst hfixed
  have hplace : adapter'.values.map OpValueState.place = adapter.values.map OpValueState.place :=
    congrArg (fun fixed => fixed.2.1) hfixed
  refine ⟨fun hrows => ?_, fun rows hrows s id => ?_⟩
  · rw [h.others hrows, hleaves]
    exact List.filter_congr fun id _ => by rw [leafSlots_congr hplace]
  · rw [h.rows rows hrows, hleaves, leafSlots_congr hplace]

section Tables

variable {slots : Nat} {slotLeaves : SlotLeaves} {rows : List (List ValueId)}
  (htabled : TabledBy program slots adapter slotLeaves) (hrows : slotLeaves.rows = some rows)

include htabled hrows

theorem mem_otherLeaves : id ∈ slotLeaves.otherLeaves ↔
    id ∈ adapter.leaves ∧ leafSlots program adapter.values id = none := by
  rw [htabled.others (by rw [hrows]; rfl), List.mem_filter, Option.isNone_iff_eq_none]

theorem mem_leafQueue : id ∈ leafQueue program rows memory ↔
    ∃ s ∈ program.written memory, s < slots ∧ id ∈ adapter.leaves ∧
      s ∈ (leafSlots program adapter.values id).getD [] := by
  unfold leafQueue writtenRows
  rw [Lib.mem_sortUnique, List.mem_flatMap]
  refine exists_congr fun s => and_congr_right fun _ => ?_
  exact htabled.rows rows hrows s id

theorem keyed_of_mem_leafQueue (h : id ∈ leafQueue program rows memory) :
    id ∈ adapter.leaves ∧ leafSlots program adapter.values id ≠ none := by
  obtain ⟨s, -, -, hleaf, hslots⟩ := (mem_leafQueue htabled hrows).mp h
  refine ⟨hleaf, fun hnone => ?_⟩
  rw [hnone] at hslots
  exact absurd hslots List.not_mem_nil

end Tables

/-! ## The publications -/

theorem publishLeaves_full {slotLeaves : SlotLeaves} :
    (publishLeaves program true memory slotLeaves adapter).1 =
      adapter.leaves.foldl (publishLeaf program memory) adapter :=
  rfl

/-- The leaves that a sparse publication goes through. -/
def sparseLeaves (program : ClosureProgram σ) (memory : σ) (slotLeaves : SlotLeaves) :
    List ValueId :=
  slotLeaves.otherLeaves ++ leafQueue program (slotLeaves.rows.getD []) memory

theorem values_sparse {slotLeaves : SlotLeaves} :
    (publishLeaves program false memory slotLeaves adapter).1.values =
      ((sparseLeaves program memory slotLeaves).foldl (publishLeaf program memory) adapter).values := by
  have hvalues : ∀ (ids : List ValueId) (adapter adapter' : OpAdapterState),
      adapter'.values = adapter.values →
        (ids.foldl (publishLeaf program memory) adapter').values =
          (ids.foldl (publishLeaf program memory) adapter).values := by
    intro ids
    induction ids with
    | nil => exact fun _ _ h => h
    | cons id ids ih =>
        intro adapter adapter' h
        refine ih _ _ ?_
        unfold publishLeaf
        rw [h]
        cases adapter.values[id]? with
        | none => exact h
        | some value => rfl
  unfold sparseLeaves
  rw [List.foldl_append]
  exact hvalues _ _ _ rfl

section Publications

variable {slots : Nat} {slotLeaves : SlotLeaves} {rows : List (List ValueId)}
  (htabled : TabledBy program slots adapter slotLeaves) (hrows : slotLeaves.rows = some rows)
  (hkept : ∀ id ∈ adapter.leaves, leafSlots program adapter.values id ≠ none →
    id ∉ leafQueue program rows memory → moves program memory adapter.values[id]? = false)

include htabled hrows

theorem mem_sparseLeaves : id ∈ sparseLeaves program memory slotLeaves ↔
    id ∈ adapter.leaves ∧ (leafSlots program adapter.values id = none ∨
      id ∈ leafQueue program rows memory) := by
  have hqueue := @keyed_of_mem_leafQueue σ program memory adapter id slots slotLeaves rows htabled
    hrows
  unfold sparseLeaves
  rw [List.mem_append, mem_otherLeaves htabled hrows, hrows]
  constructor
  · rintro (hother | hmem)
    · exact ⟨hother.1, .inl hother.2⟩
    · exact ⟨(hqueue hmem).1, .inr hmem⟩
  · rintro ⟨hleaf, hnone | hmem⟩
    · exact .inl ⟨hleaf, hnone⟩
    · exact .inr hmem

theorem mem_changedLeaves_sparse (hfresh : adapter.changedLeaves = []) :
    id ∈ (publishLeaves program false memory slotLeaves adapter).1.changedLeaves ↔
      id ∈ sparseLeaves program memory slotLeaves ∧
        moves program memory adapter.values[id]? = true := by
  have hqueue := @keyed_of_mem_leafQueue σ program memory adapter id slots slotLeaves rows htabled
    hrows
  have hother := @mem_otherLeaves σ program adapter id slots slotLeaves rows htabled hrows
  show id ∈ List.merge _ _ _ ↔ _
  rw [List.mem_merge, mem_changedLeaves_foldl, mem_changedLeaves_foldl, hfresh]
  unfold sparseLeaves
  rw [List.mem_append, hrows]
  show (id ∈ [] ∨ _) ∨ (id ∈ [] ∨ id ∈ leafQueue program rows memory ∧
    moves program memory (slotLeaves.otherLeaves.foldl (publishLeaf program memory)
      adapter).values[id]? = true) ↔ (_ ∨ id ∈ leafQueue program rows memory) ∧ _
  by_cases hmem : id ∈ leafQueue program rows memory
  · -- a queued leaf is keyed, so the other publications have left it
    have hnot : id ∉ slotLeaves.otherLeaves := fun h => (hqueue hmem).2 (hother.mp h).2
    have hleft := (rewrites_publishLeaf program memory).foldl_of_notMem hnot adapter
    rw [hleft]
    simp [hmem]
  · simp [hmem]

include hkept

/-- **A sparse publication marks as changed exactly the leaves that the full one would.** -/
theorem changedLeaves_exact (hfresh : adapter.changedLeaves = []) (id : ValueId) :
    id ∈ (publishLeaves program false memory slotLeaves adapter).1.changedLeaves ↔
      id ∈ (publishLeaves program true memory slotLeaves adapter).1.changedLeaves := by
  rw [mem_changedLeaves_sparse htabled hrows hfresh, publishLeaves_full, mem_changedLeaves_foldl,
    hfresh, mem_sparseLeaves htabled hrows]
  constructor
  · exact fun h => .inr ⟨h.1.1, h.2⟩
  · intro h
    obtain ⟨hleaf, hmoves⟩ := h.resolve_left List.not_mem_nil
    refine ⟨⟨hleaf, ?_⟩, hmoves⟩
    by_contra hout
    push Not at hout
    rw [hkept id hleaf hout.1 hout.2] at hmoves
    exact Bool.noConfusion hmoves

theorem values_exact (hnodup : adapter.leaves.Nodup)
    (hcleared : ∀ id, adapter.changedAt id = false) :
    (publishLeaves program false memory slotLeaves adapter).1.values =
      (publishLeaves program true memory slotLeaves adapter).1.values := by
  have hrewrites := rewrites_publishLeaf program memory
  have hsparse : (sparseLeaves program memory slotLeaves).Nodup := by
    unfold sparseLeaves
    refine List.nodup_append.mpr ⟨?_, (Lib.ascending_sortUnique _).nodup, ?_⟩
    · rw [htabled.others (by rw [hrows]; rfl)]
      exact hnodup.filter _
    · intro first hfirst second hsecond heq
      rw [hrows] at hsecond
      rw [heq] at hfirst
      exact (keyed_of_mem_leafQueue htabled hrows hsecond).2
        ((mem_otherLeaves htabled hrows).mp hfirst).2
  refine List.ext_getElem? fun id => ?_
  rw [values_sparse, publishLeaves_full]
  by_cases hleaf : id ∈ adapter.leaves
  · have hfull := hrewrites.foldl_of_mem hnodup hleaf adapter
    rw [hfull]
    by_cases hmem : id ∈ sparseLeaves program memory slotLeaves
    · exact hrewrites.foldl_of_mem hsparse hmem adapter
    · have hleft := hrewrites.foldl_of_notMem hmem adapter
      rw [hleft]
      -- the leaf is keyed and was not written: publishing it would find nothing
      rw [mem_sparseLeaves htabled hrows, not_and, not_or] at hmem
      have hmoves := hkept id hleaf (hmem hleaf).1 (hmem hleaf).2
      have hclear := hcleared id
      rw [changedAt_eq] at hclear
      cases hvalue : adapter.values[id]? with
      | none => rfl
      | some value =>
          rw [hvalue] at hmoves hclear
          rw [Option.map_some, publishAt_of_not_moves hmoves hclear]
  · have hfull := hrewrites.foldl_of_notMem hleaf adapter
    have hout : id ∉ sparseLeaves program memory slotLeaves :=
      fun hmem => hleaf ((mem_sparseLeaves htabled hrows).mp hmem).1
    have hleft := hrewrites.foldl_of_notMem hout adapter
    rw [hfull]
    exact hleft

end Publications

theorem moves_publishLeaves {full : Bool} {slots : Nat} {slotLeaves : SlotLeaves}
    (htabled : TabledBy program slots adapter slotLeaves)
    (hsparse : full = false → ∃ rows, slotLeaves.rows = some rows ∧
      ∀ id ∈ adapter.leaves, leafSlots program adapter.values id ≠ none →
        id ∉ leafQueue program rows memory → moves program memory adapter.values[id]? = false)
    (hleaf : id ∈ adapter.leaves) (hkeyed : leafSlots program adapter.values id ≠ none) :
    moves program memory
      (publishLeaves program full memory slotLeaves adapter).1.values[id]? = false := by
  have hrewrites := rewrites_publishLeaf program memory
  have hfold : ∀ (ids : List ValueId) (adapter : OpAdapterState),
      id ∈ ids ∨ moves program memory adapter.values[id]? = false →
        moves program memory (ids.foldl (publishLeaf program memory) adapter).values[id]? =
          false := by
    intro ids
    induction ids with
    | nil => exact fun adapter h => h.resolve_left List.not_mem_nil
    | cons first ids ih =>
        intro adapter h
        refine ih (publishLeaf program memory adapter first) ?_
        by_cases heq : id = first
        · refine .inr ?_
          rw [← heq, show (publishLeaf program memory adapter id).values[id]? = _ from
            hrewrites.here adapter id]
          exact moves_publishAt _
        · refine (h.imp (fun hmem => (List.mem_cons.mp hmem).resolve_left heq) fun hmoves => ?_)
          rw [show (publishLeaf program memory adapter first).values[id]? = adapter.values[id]? from
            hrewrites.others adapter first id heq]
          exact hmoves
  cases full with
  | true => exact hfold adapter.leaves adapter (.inl hleaf)
  | false =>
      obtain ⟨rows, hrows, hkept⟩ := hsparse rfl
      rw [values_sparse]
      refine hfold (sparseLeaves program memory slotLeaves) adapter ?_
      by_cases hmem : id ∈ leafQueue program rows memory
      · exact .inl ((mem_sparseLeaves htabled hrows).mpr ⟨hleaf, .inr hmem⟩)
      · exact .inr (hkept id hleaf hkeyed hmem)

/-! ## The sweep -/

section Sweep

variable {first sparseSources : Bool} {sourceDirty : List Nat} {constantSource : List Bool}

/-- The memo of a step is kept. -/
def keepsMemo (program : ClosureProgram σ) (sparseSources : Bool) (sourceDirty : List Nat)
    (constantSource : List Bool) (c : Nat) : Bool :=
  sparseSources && decide (c < program.graph.ops.length) && decide (c ∉ sourceDirty) &&
    !flagAt constantSource c

theorem memoKeys_source (sweep : SourceSweep) (c : Nat) :
    (source program first sparseSources sourceDirty constantSource memory sweep c).memoKeys =
      if keepsMemo program sparseSources sourceDirty constantSource c then sweep.memoKeys
      else if first || !flagAt constantSource c then
        Function.update sweep.memoKeys c (program.inputMemo c false memory)
      else sweep.memoKeys := by
  unfold source keepsMemo rebuildMemo
  dsimp only
  split_ifs <;> rfl

theorem rewrites_source (program : ClosureProgram σ) (first sparseSources : Bool)
    (sourceDirty : List Nat) (constantSource : List Bool) (memory : σ) :
    Lib.Rewrites SourceSweep.memoKeys
      (source program first sparseSources sourceDirty constantSource memory)
      (fun c key =>
        if keepsMemo program sparseSources sourceDirty constantSource c then key
        else if first || !flagAt constantSource c then program.inputMemo c false memory
        else key) where
  here sweep c := by
    rw [memoKeys_source]
    split
    · rfl
    · split
      · exact Function.update_self c _ _
      · rfl
  others sweep c other hne := by
    rw [memoKeys_source]
    split
    · rfl
    · split
      · exact Function.update_of_ne hne _ _
      · rfl

end Sweep

/-- Constant memos are listed, and every other step is visited. -/
structure Sourced (program : ClosureProgram σ) (adapter : OpAdapterState) : Prop where
  constant : ∀ c < program.graph.ops.length,
    flagAt adapter.constantSource c = program.memoIsConstant c
  visits : ∀ c < program.graph.ops.length, program.memoIsConstant c = false →
    c ∈ adapter.sourceVisits

theorem Sourced.congr {adapter' : OpAdapterState} (h : Sourced program adapter)
    (hfixed : adapter'.fixed = adapter.fixed) : Sourced program adapter' := by
  have hconstant : adapter'.constantSource = adapter.constantSource :=
    congrArg (fun fixed => fixed.2.2.1) hfixed
  have hvisits : adapter'.sourceVisits = adapter.sourceVisits :=
    congrArg (fun fixed => fixed.2.2.2) hfixed
  refine ⟨fun c hc => ?_, fun c hc hvaries => ?_⟩
  · rw [hconstant]
    exact h.constant c hc
  · rw [hvisits]
    exact h.visits c hc hvaries

/-- **After a sweep every memo is what a rebuild would give**, if the memos that it keeps are. -/
theorem headMemoKeys_sweepSources {runFirst force : Bool} {store : Store σ}
    (hsourced : Sourced program store.adapter) {c : Nat} (hc : c < program.graph.ops.length)
    (hvaries : program.memoIsConstant c = false)
    (hkept : runFirst = false → force = false →
      c ∉ writtenRows store.slotSources (program.written store.memory) →
        store.headMemoKeys c = program.inputMemo c false (program.clearWritten store.memory)) :
    (sweepSources program runFirst force store).1.headMemoKeys c =
      program.inputMemo c false (program.clearWritten store.memory) := by
  unfold sweepSources
  dsimp only
  generalize hvisits : (if (runFirst || program.verifyConstantSources ||
      decide (store.adapter.constantSource.length ≠ program.graph.ops.length)) = true then
    List.range program.graph.ops.length else store.adapter.sourceVisits) = visits
  have hmem : c ∈ visits := by
    rw [← hvisits]
    split
    · exact List.mem_range.mpr hc
    · exact hsourced.visits c hc hvaries
  rw [(rewrites_source program runFirst _ _ _ _).foldl_of_idempotent ?_ hmem]
  · rw [keepsMemo, hsourced.constant c hc, hvaries, Bool.not_false, Bool.and_true, Bool.or_true]
    split
    · rename_i hsparse
      rw [hsparse]
      rw [Bool.and_eq_true, Bool.and_eq_true, Bool.not_eq_true', Bool.not_eq_true'] at hsparse
      split
      · rename_i hkeeps
        rw [Bool.and_eq_true, decide_eq_true_iff] at hkeeps
        exact hkept hsparse.1.1 hsparse.1.2 hkeeps.2
      · rfl
    · rename_i hfull
      rw [eq_false_of_ne_true hfull]
      rfl
  · intro c key
    split_ifs <;> rfl

end RigExec.Closure
