/-
# `RigExec.Inputs.Publication` — sparse publication is exact, over every run

Between two runs every source memo and every key of a slot-keyed leaf is that of one record of the
slots, and the input state knows which slots have left the record since (`Keyed`).  A call marks
what it changes; a run takes what the slots hold as the new record.  So what a run keeps because
none of its slots was written is what a rebuild would give.

    `Keyed`            memos and keys, of a record
    `Between`          what holds between two runs
    `Reached`          the calls and the runs, those that fail among them
-/
import RigExec.Inputs.Sources

namespace RigExec.Inputs

open OpGraph
open Closure (OpValueState OpAdapterState Store Runs TabledBy Sourced keyText leafSlots moves
  publishAt publishLeaves beginRun prepareRun leafQueue writtenRows)
open Lib (Bytes)

variable {ρ : Type} {program : SourceProgram ρ} {record : Nat → SlotView}
  {store : Store (Memory ρ)} {memory : Memory ρ} {forced : Bool} {id : ValueId}
  {value : OpValueState}

/-! ## Keyed leaves -/

/-- A value has the key that it would be published with. -/
structure HasKey (value : OpValueState) (key : String) : Prop where
  initialized : value.initialized = true
  key : value.key = key

/-- The slot-keyed leaves have the keys of a record. -/
def LeavesKeyed (program : SourceProgram ρ) (text : Nat → Bytes) (record : Nat → SlotView)
    (adapter : OpAdapterState) : Prop :=
  ∀ id ∈ adapter.leaves, ∀ value, adapter.values[id]? = some value → ∀ key,
    program.leafKey text record value.domain value.slot = some key → HasKey value key

theorem publishAt_keyed {key : String}
    (hkey : program.leafKey (program.texts memory.inputs) (views program.file memory.inputs)
      value.domain value.slot = some key) :
    publishAt program.closure memory value = Closure.publishValue value key := by
  have hsome : (program.keyedSlots value.domain value.slot).isSome = true := by
    rw [← isSome_leafKey (program.texts memory.inputs) (views program.file memory.inputs), hkey]
    rfl
  rw [Closure.publishAt_eq, Closure.publishedKey]
  show Closure.publishValue value ((if (program.keyedSlots value.domain value.slot).isSome then none
    else _).getD (program.opValue value.domain value.slot memory)) = _
  rw [if_pos hsome, Option.getD_none, SourceProgram.opValue, hkey, Option.getD_some]

theorem moves_keyed {key : String}
    (hkey : program.leafKey (program.texts memory.inputs) (views program.file memory.inputs)
      value.domain value.slot = some key) :
    moves program.closure memory (some value) = false ↔ HasKey value key := by
  show (publishAt program.closure memory value).changed = false ↔ _
  rw [publishAt_keyed hkey]
  show (!value.initialized || key != value.key) = false ↔ _
  rw [Bool.or_eq_false_iff, Bool.not_eq_false', bne_eq_false_iff_eq]
  exact ⟨fun h => ⟨h.1, h.2.symm⟩, fun h => ⟨h.initialized, h.key.symm⟩⟩

/-! ## The record between two runs -/

/-- The memos and the keys are those of a record. -/
structure Keyed (program : SourceProgram ρ) (record : Nat → SlotView)
    (store : Store (Memory ρ)) : Prop where
  memos : ∀ c < program.graph.ops.length, (program.step c).isConstant = false →
    store.headMemoKeys c = program.memo (program.texts store.memory.inputs) record c false
  leaves : store.slotLeaves.rows.isSome = true →
    LeavesKeyed program (program.texts store.memory.inputs) record store.adapter

/-- The tables of the store are those of the program. -/
structure Indexed (program : SourceProgram ρ) (store : Store (Memory ρ)) : Prop where
  leaves : TabledBy program.closure program.file.inputs.length store.adapter store.slotLeaves
  sourced : Sourced program.closure store.adapter
  sources : ∀ s c, c ∈ store.slotSources[s]?.getD [] ↔
    s < program.file.inputs.length ∧ c < program.graph.ops.length ∧
      (program.step c).isConstant = false ∧ s ∈ (program.step c).slots program.file

/-- What holds between two runs. -/
structure Between (program : SourceProgram ρ) (record : Nat → SlotView)
    (store : Store (Memory ρ)) : Prop where
  indexed : Indexed program store
  recorded : Recorded program.file record store.memory.inputs
  keyed : store.adapter.everRan = true → Keyed program record store

/-! ## Compiling -/

theorem getElem?_constants (graph : CompiledGraph) (f : Nat → Bool) {c : Nat}
    (hc : c < graph.ops.length) : flagAt ((List.range graph.ops.length).map f) c = f c := by
  rw [flagAt, List.getElem?_map, List.getElem?_range hc]
  rfl

theorem indexed_compileOpGraph (fromFile : Bool) (values : List (Nat × Nat))
    (leaves excludedValues : List ValueId) (skipEffects : List Nat) (memory : Memory ρ) :
    Indexed program (Closure.compileOpGraph program.closure fromFile program.file.inputs.length
      values leaves excludedValues skipEffects memory) where
  leaves := Closure.tabledBy_indexSlotLeaves fromFile program.file.inputs.length _
  sourced :=
    { constant := fun c hc => getElem?_constants program.graph _ hc
      visits := fun c hc hvaries => by
        refine List.mem_filter.mpr ⟨List.mem_range.mpr hc, ?_⟩
        rw [hvaries]
        rfl }
  sources s c := by
    show c ∈ ((List.range program.file.inputs.length).map _)[s]?.getD [] ↔ _
    rw [List.getElem?_map]
    by_cases hs : s < program.file.inputs.length
    · rw [List.getElem?_range hs]
      show c ∈ List.filter _ _ ↔ _
      rw [List.mem_filter, List.mem_range, Bool.and_eq_true, Bool.not_eq_true',
        decide_eq_true_iff]
      exact (and_iff_right hs).symm
    · rw [List.getElem?_eq_none (by rw [List.length_range]; exact Nat.le_of_not_lt hs)]
      exact iff_of_false List.not_mem_nil fun h => hs h.1

/-! ## What the start of a run keeps -/

section Begin

theorem inputs_beginRun (program : SourceProgram ρ) (store : Store (Memory ρ)) :
    (beginRun program.closure store).memory.inputs = store.memory.inputs := by
  refine Lib.foldl_frame (g := Memory.inputs) (fun memory id => ?_) store.adapter.excludedValues
    (program.closure.begin store.memory)
  dsimp only
  cases store.adapter.values[id]? <;> rfl

/-- What the flags of a run leave of a value. -/
def unflagged (value : OpValueState) : OpValueState := { value with changed := false }

theorem unflagged_clearChanges (adapter : OpAdapterState) (id : ValueId) :
    (adapter.clearChanges.values[id]?).map unflagged = (adapter.values[id]?).map unflagged := by
  have hstep : ∀ (values : List OpValueState) (other : ValueId),
      ((values.modify other fun value => { value with changed := false })[id]?).map unflagged =
        (values[id]?).map unflagged := by
    intro values other
    rw [List.getElem?_modify]
    cases values[id]? with
    | none => rfl
    | some value =>
        show some (unflagged (if other = id then unflagged value else value)) =
          some (unflagged value)
        split <;> rfl
  exact Lib.foldl_frame (g := fun values : List OpValueState => (values[id]?).map unflagged) hstep
    adapter.changedValues adapter.values

theorem fixed_clearChanges (adapter : OpAdapterState) :
    adapter.clearChanges.fixed = adapter.fixed := by
  have hplace : adapter.clearChanges.values.map OpValueState.place =
      adapter.values.map OpValueState.place := by
    refine List.ext_getElem? fun id => ?_
    rw [List.getElem?_map, List.getElem?_map]
    have h := congrArg (Option.map OpValueState.place) (unflagged_clearChanges adapter id)
    rw [Option.map_map, Option.map_map] at h
    exact h
  exact congrArg (fun places => (adapter.leaves, places, adapter.constantSource,
    adapter.sourceVisits)) hplace

/-- What a run reads of the memory: the written slots that are left, and the rest as it begins. -/
def readMemory (program : SourceProgram ρ) (forced : Bool) (store : Store (Memory ρ)) :
    Memory ρ :=
  program.closure.filterWritten
    (!store.adapter.everRan || (forced || store.requiredStageFramesFullOwed) ||
      store.slotLeaves.rows.isNone)
    (program.closure.publishChainInputs (beginRun program.closure store).memory)

theorem inputs_readMemory : (readMemory program forced store).inputs =
    filterWritten program.file program.filters
      (!store.adapter.everRan || (forced || store.requiredStageFramesFullOwed) ||
        store.slotLeaves.rows.isNone) store.memory.inputs := by
  show filterWritten _ _ _ (beginRun program.closure store).memory.inputs = _
  rw [inputs_beginRun]

end Begin

theorem Indexed.congr {store' : Store (Memory ρ)} (h : Indexed program store)
    (hfixed : store'.adapter.fixed = store.adapter.fixed)
    (hleaves : store'.slotLeaves = store.slotLeaves)
    (hsources : store'.slotSources = store.slotSources) : Indexed program store' where
  leaves := hleaves ▸ h.leaves.congr hfixed
  sourced := h.sourced.congr hfixed
  sources := hsources ▸ h.sources

/-! ## What a run keeps -/

theorem texts_readMemory (program : SourceProgram ρ) (forced : Bool) (store : Store (Memory ρ)) :
    program.texts (readMemory program forced store).inputs = program.texts store.memory.inputs := by
  unfold SourceProgram.texts
  rw [inputs_readMemory, (fields_of_unread (unread_filterWritten store.memory.inputs)).2.2]

theorem texts_swept (program : SourceProgram ρ) (forced : Bool) (store : Store (Memory ρ)) :
    program.texts (clearWritten (readMemory program forced store).inputs) =
      program.texts store.memory.inputs := by
  rw [← texts_readMemory program forced store]
  unfold SourceProgram.texts
  rw [(fields_of_unread (unread_clearWritten _)).2.2]

section Run

variable (h : Between program record store)

include h

theorem Between.views_readMemory :
    views program.file (readMemory program forced store).inputs =
      views program.file store.memory.inputs := by
  funext s
  rw [inputs_readMemory]
  exact (filterWritten_kept h.recorded.writtenListed s).1

theorem Between.unlisted (forced : Bool) {s : Nat} (hs : s < program.file.inputs.length)
    (hunlisted : s ∉ (readMemory program forced store).inputs.written) :
    record s = views program.file store.memory.inputs s := by
  rw [inputs_readMemory] at hunlisted
  exact (h.recorded.unlisted hs hunlisted).symm

/-- **A source memo that is kept is what a rebuild would give.** -/
theorem Between.keptMemo (hran : store.adapter.everRan = true) {c : Nat}
    (hc : c < program.graph.ops.length) (hvaries : (program.step c).isConstant = false)
    (hclean : c ∉ writtenRows store.slotSources (readMemory program forced store).inputs.written) :
    store.headMemoKeys c = program.memo (program.texts store.memory.inputs)
      (views program.file store.memory.inputs) c false := by
  rw [(h.keyed hran).memos c hc hvaries]
  refine memo_congr h.recorded.recordKnown (List.prefix_refl _) (fun s hslot hs => ?_) false
  refine h.unlisted forced hs fun hwritten => hclean ?_
  exact List.mem_flatMap.mpr ⟨s, hwritten, (h.indexed.sources s c).mpr ⟨hs, hc, hvaries, hslot⟩⟩

/-- **A leaf that is kept has the key that a publication would give it.** -/
theorem Between.keptLeaf (hran : store.adapter.everRan = true) {rows : List (List ValueId)}
    (hrows : store.slotLeaves.rows = some rows) (hleaf : id ∈ store.adapter.leaves)
    (hvalue : store.adapter.values[id]? = some value) {key : String}
    (hkey : program.leafKey (program.texts store.memory.inputs)
      (views program.file store.memory.inputs) value.domain value.slot = some key)
    (hout : id ∉ leafQueue program.closure rows (readMemory program forced store)) :
    HasKey value key := by
  obtain ⟨slots, hslots⟩ := Option.isSome_iff_exists.mp
    ((@isSome_leafKey ρ program value.domain value.slot (program.texts store.memory.inputs)
      (views program.file store.memory.inputs)).symm.trans (hkey ▸ rfl))
  refine (h.keyed hran).leaves (hrows ▸ rfl) id hleaf value hvalue key ?_
  rw [← hkey]
  refine leafKey_congr hslots
    (sameSources_grows h.recorded.recordKnown (List.prefix_refl _) fun s hslot hs => ?_)
  refine h.unlisted forced hs fun hwritten => hout ?_
  refine (Closure.mem_leafQueue h.indexed.leaves hrows).mpr ⟨s, hwritten, hs, hleaf, ?_⟩
  show s ∈ (leafSlots program.closure store.adapter.values id).getD []
  rw [leafSlots, hvalue]
  show s ∈ (program.keyedSlots value.domain value.slot).getD []
  rw [hslots]
  exact hslot

theorem Between.kept_moves (hran : store.adapter.everRan = true) {rows : List (List ValueId)}
    (hrows : store.slotLeaves.rows = some rows)
    (hleaf : id ∈ (beginRun program.closure store).adapter.leaves)
    (hkeyed : leafSlots program.closure (beginRun program.closure store).adapter.values id ≠ none)
    (hout : id ∉ leafQueue program.closure rows (readMemory program forced store)) :
    moves program.closure (readMemory program forced store)
      (beginRun program.closure store).adapter.values[id]? = false := by
  have hunflagged : ((beginRun program.closure store).adapter.values[id]?).map unflagged =
      (store.adapter.values[id]?).map unflagged := unflagged_clearChanges _ id
  cases hbegun : (beginRun program.closure store).adapter.values[id]? with
  | none => rfl
  | some begun =>
      rw [hbegun] at hunflagged
      obtain ⟨value, hvalue, hsame⟩ := Option.map_eq_some_iff.mp hunflagged.symm
      have hdomain : value.domain = begun.domain :=
        show (unflagged value).domain = (unflagged begun).domain by rw [hsame]
      have hslot : value.slot = begun.slot :=
        show (unflagged value).slot = (unflagged begun).slot by rw [hsame]
      rw [leafSlots, hbegun] at hkeyed
      have hsome : (program.leafKey (program.texts (readMemory program forced store).inputs)
          (views program.file (readMemory program forced store).inputs) begun.domain
          begun.slot).isSome = true := by
        rw [isSome_leafKey]
        exact Option.isSome_iff_ne_none.mpr hkeyed
      obtain ⟨key, hkey⟩ := Option.isSome_iff_exists.mp hsome
      have hbefore := hkey
      rw [texts_readMemory, h.views_readMemory, ← hdomain, ← hslot] at hbefore
      have hhas := h.keptLeaf hran hrows hleaf hvalue hbefore hout
      refine (moves_keyed hkey).mpr ⟨?_, ?_⟩
      · exact (congrArg OpValueState.initialized hsame).symm.trans hhas.initialized
      · exact (congrArg OpValueState.key hsame).symm.trans hhas.key

end Run

/-! ## Up to the graph -/

/-- The store once the leaves are published. -/
def publishedStore (program : SourceProgram ρ) (forced : Bool) (store : Store (Memory ρ)) :
    Store (Memory ρ) :=
  { beginRun program.closure store with
    memory := readMemory program forced store
    adapter := (publishLeaves program.closure
      (!store.adapter.everRan || (forced || store.requiredStageFramesFullOwed) ||
        store.slotLeaves.rows.isNone)
      (readMemory program forced store) store.slotLeaves
      (beginRun program.closure store).adapter).1 }

theorem prepareRun_cases (program : SourceProgram ρ) (forced : Bool)
    (store : Store (Memory ρ)) :
    ((prepareRun program.closure forced store).stop ≠ none ∧
        (prepareRun program.closure forced store).store = publishedStore program forced store) ∨
      (prepareRun program.closure forced store).store =
        (Closure.sweepSources program.closure (!store.adapter.everRan)
          (forced || store.requiredStageFramesFullOwed)
          (publishedStore program forced store)).1 := by
  unfold prepareRun
  dsimp only
  split
  · exact .inl ⟨fun hnone => Option.some_ne_none _ hnone, rfl⟩
  · exact .inr rfl

section Prepare

variable (h : Between program record store)

include h

theorem Between.published : Indexed program (publishedStore program forced store) := by
  refine h.indexed.congr ?_ rfl rfl
  exact Closure.fixed_publishLeaves.trans (fixed_clearChanges _)

theorem Between.leavesKeyed_published (hrows : store.slotLeaves.rows.isSome = true) :
    LeavesKeyed program (program.texts store.memory.inputs)
      (views program.file store.memory.inputs) (publishedStore program forced store).adapter := by
  intro id hleaf value hvalue key hkey
  have hfixed : (publishedStore program forced store).adapter.fixed =
      (beginRun program.closure store).adapter.fixed := Closure.fixed_publishLeaves
  have hslots := @Closure.leafSlots_congr _ program.closure
    (beginRun program.closure store).adapter.values
    (publishedStore program forced store).adapter.values
    (congrArg (fun fixed => fixed.2.1) hfixed) id
  rw [← texts_readMemory program forced store,
    ← @Between.views_readMemory _ _ _ _ forced h] at hkey
  refine (moves_keyed hkey).mp ?_
  rw [← hvalue]
  refine Closure.moves_publishLeaves (h.indexed.leaves.congr (fixed_clearChanges _)) ?_ ?_ ?_
  · intro hsparse
    rw [Bool.or_eq_false_iff, Bool.or_eq_false_iff, Bool.not_eq_false'] at hsparse
    obtain ⟨rows, hrows⟩ := Option.isSome_iff_exists.mp hrows
    exact ⟨rows, hrows, fun id hleaf hkeyed hout =>
      h.kept_moves hsparse.1.1 hrows hleaf hkeyed hout⟩
  · have hleaves : (publishedStore program forced store).adapter.leaves =
        (beginRun program.closure store).adapter.leaves := congrArg Prod.fst hfixed
    rw [← hleaves]
    exact hleaf
  · rw [← hslots, leafSlots, hvalue]
    refine Option.isSome_iff_ne_none.mp ?_
    show (program.keyedSlots value.domain value.slot).isSome = true
    rw [← isSome_leafKey, hkey]
    rfl

theorem Between.recorded_readMemory
    (huntouched : ∀ s, (store.memory.inputs.slot s).touchedFlag = false) :
    Recorded program.file (views program.file store.memory.inputs)
      (readMemory program forced store).inputs := by
  rw [inputs_readMemory]
  exact h.recorded.filterWritten program.declared huntouched

end Prepare

/-- What a run has before the graph is executed; `record` is what the slots hold. -/
structure Prepared (program : SourceProgram ρ) (record : Nat → SlotView)
    (prelude : Closure.Prelude (Memory ρ)) : Prop where
  indexed : Indexed program prelude.store
  recorded : Recorded program.file record prelude.store.memory.inputs
  held : views program.file prelude.store.memory.inputs = record
  keyed : prelude.stop = none → Keyed program record prelude.store

section Prepare

variable (h : Between program record store)

include h

theorem Between.memos_swept {c : Nat} (hc : c < program.graph.ops.length)
    (hvaries : (program.step c).isConstant = false) :
    (Closure.sweepSources program.closure (!store.adapter.everRan)
        (forced || store.requiredStageFramesFullOwed)
        (publishedStore program forced store)).1.headMemoKeys c =
      program.memo (program.texts store.memory.inputs) (views program.file store.memory.inputs)
        c false := by
  have hlisted : WrittenListed (readMemory program forced store).inputs := by
    rw [inputs_readMemory]
    exact writtenListed_filterWritten h.recorded.writtenListed
  have hrebuilt : program.closure.inputMemo c false
      (program.closure.clearWritten (publishedStore program forced store).memory) =
        program.memo (program.texts store.memory.inputs) (views program.file store.memory.inputs)
          c false := by
    show program.memo (program.texts (clearWritten (readMemory program forced store).inputs))
      (views program.file (clearWritten (readMemory program forced store).inputs)) c false = _
    rw [views_clearWritten hlisted, h.views_readMemory, texts_swept]
  rw [← hrebuilt]
  refine Closure.headMemoKeys_sweepSources h.published.sourced hc hvaries ?_
  intro hfirst hforce hclean
  rw [hrebuilt]
  rw [Bool.not_eq_false'] at hfirst
  exact h.keptMemo hfirst hc hvaries hclean

/-- **Before the graph is executed** the memos and the keys are those of what the slots hold. -/
theorem Between.prepared (forced : Bool)
    (huntouched : ∀ s, (store.memory.inputs.slot s).touchedFlag = false) :
    Prepared program (views program.file store.memory.inputs)
      (prepareRun program.closure forced store) := by
  have hread := @Between.recorded_readMemory _ _ _ _ forced h huntouched
  rcases prepareRun_cases program forced store with ⟨hstop, hstore⟩ | hstore
  · refine ⟨?_, ?_, ?_, fun hnone => absurd hnone hstop⟩
    · rw [hstore]
      exact h.published
    · rw [hstore]
      exact hread
    · rw [hstore]
      exact h.views_readMemory
  · have hviews := @Between.views_readMemory _ _ _ _ forced h
    have htouched : ∀ s, ((readMemory program forced store).inputs.slot s).touchedFlag = false := by
      intro s
      rw [inputs_readMemory, (filterWritten_kept h.recorded.writtenListed s).2.1]
      exact huntouched s
    rw [← hviews] at hread
    refine ⟨?_, ?_, ?_, fun _ => ⟨?_, ?_⟩⟩
    · rw [hstore]
      exact h.published.congr rfl rfl rfl
    · rw [hstore, ← hviews]
      exact hread.clearWritten htouched
    · rw [hstore, ← hviews]
      exact views_clearWritten hread.writtenListed
    · intro c hc hvaries
      rw [hstore, h.memos_swept hc hvaries]
      show _ = program.memo (program.texts (clearWritten (readMemory program forced store).inputs))
        _ c false
      rw [texts_swept]
    · rw [hstore]
      intro hrows
      show LeavesKeyed program (program.texts (clearWritten (readMemory program forced store).inputs))
        _ (publishedStore program forced store).adapter
      rw [texts_swept]
      exact h.leavesKeyed_published hrows

end Prepare

/-! ## The graph -/

/-- What the callbacks of a run leave: the inputs, and the keys of the leaves. -/
structure Executing (program : SourceProgram ρ) (record : Nat → SlotView)
    (prelude : Store (Memory ρ)) (working : Closure.Working (Memory ρ)) : Prop where
  inputs : working.memory.inputs = prelude.memory.inputs
  fixed : working.adapter.fixed = prelude.adapter.fixed
  leaves : prelude.slotLeaves.rows.isSome = true →
    LeavesKeyed program (program.texts prelude.memory.inputs) record working.adapter

section Execute

variable {prelude : Store (Memory ρ)}

theorem leafKey_chainDirty (text : Nat → Bytes) (view : Nat → SlotView) (slot : Nat) :
    program.leafKey text view Closure.chainDirty slot = none := by
  unfold SourceProgram.leafKey
  rw [if_neg (by decide), if_neg (by decide)]

theorem publishWrite_keyed {state : Closure.Working (Memory ρ) × Option OpValueState}
    (hvalue : state.1.adapter.values[id]? = some value) {key : String}
    (hkey : program.leafKey (program.texts state.1.memory.inputs)
      (views program.file state.1.memory.inputs) value.domain value.slot = some key) :
    (Closure.publishWrite program.closure state id).1.adapter.values =
      state.1.adapter.values.set id (Closure.publishValue value key) := by
  have hdomain : value.domain ≠ Closure.chainDirty := by
    intro hchain
    rw [hchain, leafKey_chainDirty] at hkey
    cases hkey
  unfold Closure.publishWrite
  rw [hvalue]
  dsimp only
  split
  · rw [if_neg (fun hfuse => hdomain hfuse.2), publishAt_keyed hkey]
  · rw [publishAt_keyed hkey]

/-- **Step lemma.**  What a body writes keeps the keys. -/
theorem Executing.publishWrite {state : Closure.Working (Memory ρ) × Option OpValueState}
    (h : Executing program (views program.file prelude.memory.inputs) prelude state.1)
    (id : ValueId) :
    Executing program (views program.file prelude.memory.inputs) prelude
      (Closure.publishWrite program.closure state id).1 := by
  have hfixed := @Closure.fixed_publishWrite _ program.closure id state
  refine ⟨?_, hfixed.trans h.fixed, fun hrows other hleaf value hvalue key hkey => ?_⟩
  · unfold Closure.publishWrite
    split
    · exact h.inputs
    · exact h.inputs
  · have hleaves : (Closure.publishWrite program.closure state id).1.adapter.leaves =
        state.1.adapter.leaves := congrArg Prod.fst hfixed
    rw [hleaves] at hleaf
    cases hbefore : state.1.adapter.values[id]? with
    | none =>
        rw [Closure.publishWrite, hbefore] at hvalue
        exact h.leaves hrows other hleaf value hvalue key hkey
    | some written =>
        by_cases hother : other = id
        · subst hother
          have hplace : some value.place = some written.place := by
            have hplaces := congrArg (fun fixed => fixed.2.1[other]?) hfixed
            dsimp only [OpAdapterState.fixed] at hplaces
            rw [List.getElem?_map, List.getElem?_map, hvalue, hbefore] at hplaces
            exact hplaces
          obtain ⟨hdomain, hslot⟩ := Prod.mk.inj (Option.some.inj hplace)
          rw [hdomain, hslot, ← h.inputs] at hkey
          rw [publishWrite_keyed hbefore hkey,
            List.getElem?_set_self (List.getElem?_eq_some_iff.mp hbefore).1] at hvalue
          cases hvalue
          exact ⟨rfl, rfl⟩
        · refine h.leaves hrows other hleaf value ?_ key hkey
          rw [← hvalue, Closure.publishWrite, hbefore]
          exact (List.getElem?_set_ne (Ne.symm hother)).symm

theorem callbacksKeep_executing (skipEffects : List Nat) :
    CallbacksKeep (Closure.closureCallbacks program.closure skipEffects)
      (Executing program (views program.file prelude.memory.inputs) prelude) where
  run c working h := by
    show Executing program _ prelude (Closure.runOp program.closure c working).1
    unfold Closure.runOp
    split
    · rename_i memory hfailed
      have hinputs := congrArg (fun ran => ran.1.inputs) hfailed
      exact ⟨hinputs.symm.trans h.inputs, h.fixed, h.leaves⟩
    · rename_i memory hran
      have hinputs := congrArg (fun ran => ran.1.inputs) hran
      have hstart : Executing program (views program.file prelude.memory.inputs) prelude
          { working with memory } := ⟨hinputs.symm.trans h.inputs, h.fixed, h.leaves⟩
      exact List.foldlRecOn (motive := fun state : Closure.Working (Memory ρ) × Option OpValueState =>
          Executing program (views program.file prelude.memory.inputs) prelude state.1)
        (program.closure.graph.writes c) (Closure.publishWrite program.closure) hstart
        fun state h id _ => h.publishWrite id
  skip c working h := ⟨h.inputs, h.fixed, h.leaves⟩
  inputsChanged test htest c working h := by
    cases htest
    exact ⟨h.inputs, h.fixed, h.leaves⟩

end Execute

/-! ## Runs -/

/-- What the end of a run keeps of its execution. -/
structure Kept (prelude : Store (Memory ρ)) (working : Closure.Working (Memory ρ))
    (ended : Store (Memory ρ)) : Prop where
  inputs : ended.memory.inputs = working.memory.inputs
  fixed : ended.adapter.fixed = working.adapter.fixed
  values : ended.adapter.values = working.adapter.values
  slotLeaves : ended.slotLeaves = prelude.slotLeaves
  slotSources : ended.slotSources = prelude.slotSources
  headMemoKeys : ended.headMemoKeys = prelude.headMemoKeys

theorem Kept.leaves {prelude ended : Store (Memory ρ)} {working : Closure.Working (Memory ρ)}
    (h : Kept prelude working ended) : ended.adapter.leaves = working.adapter.leaves :=
  congrArg Prod.fst h.fixed

theorem finishRun_kept (program : SourceProgram ρ) (prelude : Store (Memory ρ))
    (executed : Executed (Closure.Working (Memory ρ))) :
    Kept prelude executed.memory (Closure.finishRun program.closure prelude executed).2 := by
  unfold Closure.finishRun
  dsimp only
  split
  · exact ⟨rfl, rfl, rfl, rfl, rfl, rfl⟩
  · split_ifs
    · exact ⟨rfl, rfl, rfl, rfl, rfl, rfl⟩
    · exact ⟨rfl, rfl, rfl, rfl, rfl, rfl⟩
    · exact ⟨rfl, rfl, rfl, rfl, rfl, rfl⟩

/-- **Step lemma.**  A run takes what the slots hold as the record, however it ends. -/
theorem Between.run {store' : Store (Memory ρ)} {runEnd : Closure.RunEnd}
    (h : Between program record store)
    (huntouched : ∀ s, (store.memory.inputs.slot s).touchedFlag = false)
    (hrun : Runs program.closure forced store runEnd store') :
    Between program (views program.file store.memory.inputs) store' := by
  have hprepared := h.prepared forced huntouched
  cases hrun with
  | stopped hstop =>
      exact ⟨hprepared.indexed.congr rfl rfl rfl, hprepared.recorded,
        fun hran => Bool.noConfusion hran⟩
  | joined hstop hexecutes =>
      rename_i executed
      have hkeyed := hprepared.keyed hstop
      have hheld := hprepared.held
      have hexecuted := (callbacksKeep_executing store.adapter.skipEffects).executes hexecutes
        ⟨rfl, rfl, fun hrows => hheld.symm ▸ hkeyed.leaves hrows⟩
      rw [hheld] at hexecuted
      have hkept := finishRun_kept program (prepareRun program.closure forced store).store executed
      refine ⟨?_, ?_, fun _ => ⟨?_, ?_⟩⟩
      · exact hprepared.indexed.congr (hkept.fixed.trans hexecuted.fixed) hkept.slotLeaves
          hkept.slotSources
      · rw [hkept.inputs, hexecuted.inputs]
        exact hprepared.recorded
      · intro c hc hvaries
        rw [hkept.headMemoKeys, hkept.inputs, hexecuted.inputs]
        exact hkeyed.memos c hc hvaries
      · intro hrows id hleaf value hvalue key hkey
        rw [hkept.slotLeaves] at hrows
        rw [hkept.leaves] at hleaf
        rw [hkept.values] at hvalue
        rw [hkept.inputs, hexecuted.inputs] at hkey
        exact hexecuted.leaves hrows id hleaf value hvalue key hkey

/-! ## Reached stores -/

def withInputs (store : Store (Memory ρ)) (inputs : InputState) : Store (Memory ρ) :=
  { store with memory := { store.memory with inputs } }

/-- The start of a run: the inputs set since the last one, and what the prologue writes. -/
def startRun (program : SourceProgram ρ) (store : Store (Memory ρ)) (rest : ρ) :
    Store (Memory ρ) :=
  { store with memory := { inputs := applyTouched program.file store.memory.inputs, rest } }

/-- A store after some calls and some runs, those that fail among them. -/
inductive Reached (program : SourceProgram ρ) : Store (Memory ρ) → Prop
  | compiled {fromFile : Bool} {values : List (Nat × Nat)} {leaves excludedValues : List ValueId}
      {skipEffects : List Nat} {rest : ρ} :
      Reached program (Closure.compileOpGraph program.closure fromFile program.file.inputs.length
        values leaves excludedValues skipEffects { inputs := openState program.file, rest })
  | call {store : Store (Memory ρ)} (h : Reached program store) (call : Call)
      (hcall : call.Spells program.file store.memory.inputs.tokens) :
      Reached program (withInputs store (call.run program.file store.memory.inputs).2)
  /-- What callers write besides the inputs. -/
  | write {store : Store (Memory ρ)} (h : Reached program store) (rest : ρ)
      (requiredStageFramesFullOwed : Bool) :
      Reached program
        { store with memory := { store.memory with rest }, requiredStageFramesFullOwed }
  /-- A run that has started; it may fail before the graph. -/
  | start {store : Store (Memory ρ)} (h : Reached program store) (rest : ρ) :
      Reached program (startRun program store rest)
  | run {store store' : Store (Memory ρ)} {rest : ρ} {forced : Bool} {runEnd : Closure.RunEnd}
      (h : Reached program store)
      (hrun : Runs program.closure forced (startRun program store rest) runEnd store') :
      Reached program store'
  /-- A run that ends well clears the marks of the overrides. -/
  | ended {store : Store (Memory ρ)} (h : Reached program store) :
      Reached program (withInputs store (endRun store.memory.inputs))

theorem Recorded.endRun {st : InputState} (h : Recorded program.file record st) :
    Recorded program.file record (endRun st) where
  opened := h.opened
  known := h.known.of_slots rfl fun _ => ⟨rfl, rfl⟩
  recordKnown := h.recordKnown
  listed := h.listed
  flags := h.flags
  writtenListed := h.writtenListed
  touchedWritten := h.touchedWritten
  keyed := h.keyed
  scalar := h.scalar
  unwritten := h.unwritten

theorem Keyed.withInputs {inputs : InputState} (h : Keyed program record store)
    (hknown : ∀ s, ∀ id ∈ tokenIds program.file s (record s),
      Spelled program.file store.memory.inputs.tokens id)
    (hgrows : store.memory.inputs.tokens.extraTokens <+: inputs.tokens.extraTokens) :
    Keyed program record (withInputs store inputs) where
  memos c hc hvaries := (h.memos c hc hvaries).trans
    (memo_congr hknown hgrows (fun _ _ _ => rfl) false)
  leaves hrows id hleaf value hvalue key hkey := by
    obtain ⟨slots, hslots⟩ := Option.isSome_iff_exists.mp
      ((@isSome_leafKey ρ program value.domain value.slot
        (program.texts inputs) record).symm.trans (hkey ▸ rfl))
    refine h.leaves hrows id hleaf value hvalue key ?_
    rw [← hkey]
    exact leafKey_congr hslots (sameSources_grows hknown hgrows fun _ _ _ => rfl)

theorem Between.withInputs {inputs : InputState} (h : Between program record store)
    (hrecorded : Recorded program.file record inputs)
    (hgrows : store.memory.inputs.tokens.extraTokens <+: inputs.tokens.extraTokens) :
    Between program record (withInputs store inputs) where
  indexed := h.indexed.congr rfl rfl rfl
  recorded := hrecorded
  keyed hran := (h.keyed hran).withInputs h.recorded.recordKnown hgrows

theorem Between.startRun (h : Between program record store) (rest : ρ) :
    Between program record (startRun program store rest) := by
  have htokens : (applyTouched program.file store.memory.inputs).tokens =
      store.memory.inputs.tokens := congrArg Prod.snd (kept_applyTouched store.memory.inputs)
  have hbetween := h.withInputs h.recorded.applyTouched (by rw [htokens])
  exact ⟨hbetween.indexed.congr rfl rfl rfl, hbetween.recorded,
    fun hran => ⟨(hbetween.keyed hran).memos, (hbetween.keyed hran).leaves⟩⟩

/-- **Run lemma.**  Between two runs memos and keys are those of one record. -/
theorem Reached.between (h : Reached program store) : ∃ record, Between program record store := by
  induction h with
  | compiled =>
      exact ⟨_, indexed_compileOpGraph _ _ _ _ _ _, recorded_openState program.declared,
        fun hran => Bool.noConfusion hran⟩
  | call _ call hcall ih =>
      obtain ⟨record, hbetween⟩ := ih
      exact ⟨record, hbetween.withInputs (hbetween.recorded.call program.declared call hcall)
        (keeps_run call).tokens⟩
  | write _ rest owed ih =>
      obtain ⟨record, hbetween⟩ := ih
      exact ⟨record, hbetween.indexed.congr rfl rfl rfl, hbetween.recorded,
        fun hran => ⟨(hbetween.keyed hran).memos, (hbetween.keyed hran).leaves⟩⟩
  | start _ rest ih =>
      obtain ⟨record, hbetween⟩ := ih
      exact ⟨record, hbetween.startRun rest⟩
  | run _ hrun ih =>
      obtain ⟨record, hbetween⟩ := ih
      refine ⟨_, (hbetween.startRun _).run (fun s => ?_) hrun⟩
      exact (sameMarks_applyTouched hbetween.recorded.listed hbetween.recorded.flags s).2
  | ended _ ih =>
      obtain ⟨record, hbetween⟩ := ih
      exact ⟨record, hbetween.withInputs hbetween.recorded.endRun (List.prefix_refl _)⟩

/-- The runs are those of a history, so their flags do not outlive them. -/
theorem Reached.history (h : Reached program store) :
    ∃ last, Closure.History program.closure store last := by
  induction h with
  | compiled => exact ⟨none, .compiled⟩
  | call _ call _ ih | write _ rest owed ih | start _ rest ih =>
      obtain ⟨last, hhistory⟩ := ih
      exact ⟨last, hhistory.write _ _⟩
  | run _ hrun ih =>
      obtain ⟨last, hhistory⟩ := ih
      exact ⟨_, .run (hhistory.write _ _) hrun⟩
  | ended _ ih =>
      obtain ⟨last, hhistory⟩ := ih
      exact ⟨last, hhistory.write _ _⟩

/-! ## What a sparse run leaves out -/

/-- The leaves of a run, published in full or sparsely. -/
def publication (program : SourceProgram ρ) (full forced : Bool) (store : Store (Memory ρ)) :
    OpAdapterState :=
  (publishLeaves program.closure full (readMemory program forced store) store.slotLeaves
    (beginRun program.closure store).adapter).1

/-- What a sparse run leaves out is what it would find. -/
structure SparseExact (program : SourceProgram ρ) (forced : Bool) (store : Store (Memory ρ)) :
    Prop where
  /-- A written slot is filtered out where every keyed field is the recorded one. -/
  filtered : ∀ s ∈ store.memory.inputs.written,
    s ∉ (readMemory program forced store).inputs.written →
      s < program.file.inputs.length ∧ program.file.isArraySlot s = false ∧
        (store.memory.inputs.slot s).current = (store.memory.inputs.slot s).keyedValue ∧
        keyedBits (store.memory.inputs.slot s) = (store.memory.inputs.slot s).keyedBits
  /-- The index has every slot that a source memo consults. -/
  indexed : ∀ c < program.graph.ops.length, (program.step c).isConstant = false →
    ∀ (view : Nat → SlotView) (contentArrays : Bool),
      (∀ s, c ∈ store.slotSources[s]?.getD [] →
        views program.file store.memory.inputs s = view s) →
      program.memo (program.texts store.memory.inputs) (views program.file store.memory.inputs) c
          contentArrays =
        program.memo (program.texts store.memory.inputs) view c contentArrays
  /-- The table has every slot that a keyed leaf consults. -/
  tabled : ∀ rows, store.slotLeaves.rows = some rows → ∀ id ∈ store.adapter.leaves,
    ∀ value, store.adapter.values[id]? = some value → ∀ view : Nat → SlotView,
      (∀ s, id ∈ rows[s]?.getD [] → views program.file store.memory.inputs s = view s) →
      program.leafKey (program.texts store.memory.inputs)
          (views program.file store.memory.inputs) value.domain value.slot =
        program.leafKey (program.texts store.memory.inputs) view value.domain value.slot
  /-- A source memo that is kept is what a rebuild would give. -/
  memos : store.adapter.everRan = true → ∀ c < program.graph.ops.length,
    (program.step c).isConstant = false →
    c ∉ writtenRows store.slotSources (readMemory program forced store).inputs.written →
      store.headMemoKeys c = program.memo (program.texts store.memory.inputs)
        (views program.file store.memory.inputs) c false
  /-- A leaf that is kept has the key that a publication would give it. -/
  leaves : store.adapter.everRan = true → ∀ rows, store.slotLeaves.rows = some rows →
    ∀ id ∈ store.adapter.leaves, ∀ value, store.adapter.values[id]? = some value → ∀ key,
      program.leafKey (program.texts store.memory.inputs)
          (views program.file store.memory.inputs) value.domain value.slot = some key →
        id ∉ leafQueue program.closure rows (readMemory program forced store) → HasKey value key
  /-- The changed leaves are those of the full publication. -/
  changed : store.adapter.everRan = true → store.slotLeaves.rows.isSome = true → ∀ id,
    id ∈ (publication program false forced store).changedLeaves ↔
      id ∈ (publication program true forced store).changedLeaves
  /-- Its values as well, where no leaf is listed twice. -/
  values : store.adapter.everRan = true → store.slotLeaves.rows.isSome = true →
    store.adapter.leaves.Nodup →
      (publication program false forced store).values =
        (publication program true forced store).values

theorem Between.indexed_slots (h : Between program record store) {c : Nat}
    (hc : c < program.graph.ops.length) (hvaries : (program.step c).isConstant = false)
    {view : Nat → SlotView} (contentArrays : Bool)
    (hview : ∀ s, c ∈ store.slotSources[s]?.getD [] →
      views program.file store.memory.inputs s = view s) :
    program.memo (program.texts store.memory.inputs) (views program.file store.memory.inputs) c
        contentArrays =
      program.memo (program.texts store.memory.inputs) view c contentArrays :=
  memo_congr (h.recorded.known.tokenIds program.declared h.recorded.opened) (List.prefix_refl _)
    (fun s hslot hs => hview s ((h.indexed.sources s c).mpr ⟨hs, hc, hvaries, hslot⟩))
    contentArrays

theorem Between.tabled_slots (h : Between program record store) {rows : List (List ValueId)}
    (hrows : store.slotLeaves.rows = some rows) (hleaf : id ∈ store.adapter.leaves)
    (hvalue : store.adapter.values[id]? = some value) {view : Nat → SlotView}
    (hview : ∀ s, id ∈ rows[s]?.getD [] → views program.file store.memory.inputs s = view s) :
    program.leafKey (program.texts store.memory.inputs)
        (views program.file store.memory.inputs) value.domain value.slot =
      program.leafKey (program.texts store.memory.inputs) view value.domain value.slot := by
  cases hslots : program.keyedSlots value.domain value.slot with
  | none =>
      have hnone : ∀ view : Nat → SlotView, program.leafKey (program.texts store.memory.inputs) view
          value.domain value.slot = none := by
        intro view
        rw [← Option.isNone_iff_eq_none, ← Option.not_isSome, isSome_leafKey, hslots]
        rfl
      rw [hnone, hnone]
  | some slots =>
      refine leafKey_congr hslots
        (sameSources_grows (h.recorded.known.tokenIds program.declared h.recorded.opened)
          (List.prefix_refl _) fun s hslot hs => ?_)
      refine hview s ((h.indexed.leaves.rows rows hrows s id).mpr ⟨hs, hleaf, ?_⟩)
      rw [leafSlots, hvalue]
      show s ∈ (program.keyedSlots value.domain value.slot).getD []
      rw [hslots]
      exact hslot

theorem cleared_beginRun {last : Option Closure.RunEnd}
    (h : Closure.History program.closure store last) (hran : store.adapter.everRan = true)
    (id : ValueId) : (beginRun program.closure store).adapter.changedAt id = false := by
  rw [Closure.changedAt_beginRun]
  refine eq_false_of_ne_true fun hflag => ?_
  rw [Bool.and_eq_true, decide_eq_true_iff] at hflag
  obtain ⟨hever, -⟩ := (h.between.flags id hflag.1).resolve_left hflag.2
  rw [hran] at hever
  cases hever

/-- **Sparse publication is exact.**  Whatever calls and runs came before, failed ones among them:
the index and the table have every slot that is consulted, a slot is filtered out where its keyed
fields are recorded, memos and leaves that are kept are what a rebuild would give, and the sparse
publication marks the leaves that the full one would. -/
theorem sparse_exact (h : Reached program store) (forced : Bool) :
    SparseExact program forced store := by
  obtain ⟨record, hbetween⟩ := h.between
  obtain ⟨last, hhistory⟩ := h.history
  have htabled : TabledBy program.closure program.file.inputs.length
      (beginRun program.closure store).adapter store.slotLeaves :=
    hbetween.indexed.leaves.congr (fixed_clearChanges _)
  exact
    { filtered := fun s hwritten hfiltered => by
        rw [inputs_readMemory] at hfiltered
        generalize (!store.adapter.everRan || (forced || store.requiredStageFramesFullOwed) ||
          store.slotLeaves.rows.isNone) = all at hfiltered
        cases all with
        | true => exact absurd hwritten hfiltered
        | false => exact filtered_exact hbetween.recorded.writtenListed hwritten hfiltered
      indexed := fun c hc hvaries view contentArrays hview =>
        hbetween.indexed_slots hc hvaries contentArrays hview
      tabled := fun rows hrows id hleaf value hvalue view hview =>
        hbetween.tabled_slots hrows hleaf hvalue hview
      memos := fun hran c hc hvaries hclean => hbetween.keptMemo hran hc hvaries hclean
      leaves := fun hran rows hrows id hleaf value hvalue key hkey hout =>
        hbetween.keptLeaf hran hrows hleaf hvalue hkey hout
      changed := fun hran hrows id => by
        obtain ⟨rows, hrows⟩ := Option.isSome_iff_exists.mp hrows
        exact Closure.changedLeaves_exact htabled hrows
          (fun id hleaf hkeyed hout => hbetween.kept_moves hran hrows hleaf hkeyed hout) rfl id
      values := fun hran hrows hnodup => by
        obtain ⟨rows, hrows⟩ := Option.isSome_iff_exists.mp hrows
        exact Closure.values_exact htabled hrows
          (fun id hleaf hkeyed hout => hbetween.kept_moves hran hrows hleaf hkeyed hout) hnodup
          (cleared_beginRun hhistory hran) }

/-! ## One sampled leaf -/

/-- One scalar input. -/
def leafFile : InputsFile where
  inputs := [{}]
  listedInputs := 1
  paths := 1
  scalarWalk _ h := absurd h List.not_mem_nil

theorem declared_leafFile : leafFile.Declared := by
  have hinput : ∀ s, leafFile.input s = {} := by
    intro s
    cases s <;> rfl
  refine ⟨Nat.one_pos, fun s => ?_, fun s _ => ?_, fun s htype => ?_⟩
  · rw [hinput, valueIds_of_not InputTag.noConfusion InputTag.noConfusion]
    exact fun id hid => absurd hid List.not_mem_nil
  · rw [hinput]
    exact InputTag.noConfusion
  · rw [hinput] at htype
    cases htype

/-- A leaf that the input keys. -/
def leafProgram : SourceProgram Unit where
  file := leafFile
  declared := declared_leafFile
  graph := {}
  step _ := {}
  readSlots _ _ h := absurd h List.not_mem_nil
  constants _ _ h := absurd h List.not_mem_nil
  sampled := [0]

/-- The program, compiled. -/
def leafStore : Store (Memory Unit) :=
  Closure.compileOpGraph leafProgram.closure true 1 [(spaceLeaf, 0)] [0] [] []
    { inputs := openState leafProgram.file, rest := () }

/-- After one run that ends well, the next one may be sparse. -/
theorem sparse_exact_leaf : ∃ store, Reached leafProgram store ∧ store.adapter.everRan = true ∧
    store.slotLeaves.rows = some [[0]] ∧ SparseExact leafProgram false store := by
  have hexecutes : ExecutesDispatched leafProgram.closure.graph
      (Closure.closureCallbacks leafProgram.closure [])
      (prepareRun leafProgram.closure false (startRun leafProgram leafStore ())).request
      { memory := (prepareRun leafProgram.closure false
          (startRun leafProgram leafStore ())).store.memory
        adapter := (prepareRun leafProgram.closure false
          (startRun leafProgram leafStore ())).store.adapter } {} {} _ :=
    .joined rfl (show Lib.run _ _ [PoolEvent.join] = some _ from rfl) rfl
  have hrun : Runs leafProgram.closure false (startRun leafProgram leafStore ()) _ _ :=
    .joined rfl (.dispatched hexecutes)
  have hreached := Reached.compiled.run hrun
  exact ⟨_, hreached, rfl, rfl, sparse_exact hreached false⟩

end RigExec.Inputs
