/-
# `RigExec.Closure.Changes` — change flags do not outlive their run

A flag is set by publishing a leaf or a write of an op that ran.  So after the join
of a run the changed leaves and the changed writes of those ops name every flag
(`Named`), whatever the bodies did and whichever of them failed, and clearing what
was gathered clears all.

A run that is stopped before the join has cleared the list and gathered nothing:
the flags of its changed leaves stay (`changes_outlive`).  They are leaves, and a
stopped run makes the next one publish every leaf, so that one names its flags
again (`Held`).  They are those whose key had moved (`changedAt_prepareRun`).
-/
import RigExec.Closure.Model

namespace RigExec.Closure

open RigExec.OpGraph

variable {σ : Type} {program : ClosureProgram σ}

/-! ## Publishing leaves -/

theorem changedAt_set {adapter : OpAdapterState} {id : ValueId} {value : OpValueState}
    (hvalue : adapter.values[id]? = some value) (published : OpValueState) (other : ValueId) :
    ({ adapter with values := adapter.values.set id published } : OpAdapterState).changedAt other =
      if other = id then published.changed else adapter.changedAt other := by
  have hlt : id < adapter.values.length := (List.getElem?_eq_some_iff.mp hvalue).1
  unfold OpAdapterState.changedAt
  split_ifs with heq
  · rw [heq]
    simp only [List.getElem?_set_self hlt]
  · simp only [List.getElem?_set_ne (Ne.symm heq)]

/-- What publishing leaves keeps, and where a flag can come from. -/
structure Published (published : List ValueId) (before after : OpAdapterState) : Prop where
  leaves : after.leaves = before.leaves
  changedValues : after.changedValues = before.changedValues
  kept : before.changedLeaves ⊆ after.changedLeaves
  added : ∀ id ∈ after.changedLeaves, id ∈ before.changedLeaves ∨ id ∈ published
  flags : ∀ id, after.changedAt id = true →
    id ∈ after.changedLeaves ∨ id ∉ published ∧ before.changedAt id = true

theorem Published.refl (adapter : OpAdapterState) : Published [] adapter adapter where
  leaves := rfl
  changedValues := rfl
  kept := fun _ h => h
  added := fun _ h => .inl h
  flags := fun _ h => .inr ⟨List.not_mem_nil, h⟩

theorem Published.trans {first rest : List ValueId} {a b c : OpAdapterState}
    (hab : Published first a b) (hbc : Published rest b c) : Published (first ++ rest) a c where
  leaves := hbc.leaves.trans hab.leaves
  changedValues := hbc.changedValues.trans hab.changedValues
  kept := fun _ h => hbc.kept (hab.kept h)
  added := by
    intro id hid
    rcases hbc.added id hid with hid | hid
    · exact (hab.added id hid).imp_right (List.mem_append_left _)
    · exact .inr (List.mem_append_right _ hid)
  flags := by
    intro id hid
    rcases hbc.flags id hid with hin | ⟨hrest, hid⟩
    · exact .inl hin
    · rcases hab.flags id hid with hin | ⟨hfirst, hid⟩
      · exact .inl (hbc.kept hin)
      · refine .inr ⟨?_, hid⟩
        rw [List.mem_append, not_or]
        exact ⟨hfirst, hrest⟩

theorem published_publishLeaf (memory : σ) (adapter : OpAdapterState) (id : ValueId) :
    Published [id] adapter (publishLeaf program memory adapter id) := by
  unfold publishLeaf
  cases hvalue : adapter.values[id]? with
  | none =>
      refine ⟨rfl, rfl, fun _ h => h, fun _ h => .inl h, ?_⟩
      intro other hother
      refine .inr ⟨?_, hother⟩
      intro hin
      rw [List.mem_singleton.mp hin, OpAdapterState.changedAt, hvalue] at hother
      cases hother
  | some value =>
      simp only
      refine ⟨rfl, rfl, ?_, ?_, ?_⟩
      · intro other hother
        show other ∈ if (publishAt program memory value).changed = true then _ else _
        split_ifs
        · exact List.mem_append_left _ hother
        · exact hother
      · intro other hother
        simp only at hother
        split_ifs at hother
        · exact List.mem_append.mp hother
        · exact .inl hother
      · intro other hother
        have hset := changedAt_set hvalue (publishAt program memory value) other
        have hsame : (if other = id then (publishAt program memory value).changed
            else adapter.changedAt other) = true := hset.symm.trans hother
        split_ifs at hsame with heq
        · refine .inl ?_
          show other ∈ if (publishAt program memory value).changed = true then _ else _
          rw [if_pos hsame, heq]
          exact List.mem_append_right _ List.mem_cons_self
        · exact .inr ⟨fun hin => heq (List.mem_singleton.mp hin), hsame⟩

theorem published_foldl (program : ClosureProgram σ) (memory : σ) (ids : List ValueId)
    (adapter : OpAdapterState) :
    Published ids adapter (ids.foldl (publishLeaf program memory) adapter) := by
  induction ids generalizing adapter with
  | nil => exact Published.refl adapter
  | cons id ids ih => exact (published_publishLeaf memory adapter id).trans (ih _)

/-! ## The leaves of a run -/

/-- The tables of the leaves name leaves. -/
structure Tabled (slotLeaves : SlotLeaves) (leaves : List ValueId) : Prop where
  others : slotLeaves.otherLeaves ⊆ leaves
  rows : ∀ rows, slotLeaves.rows = some rows → ∀ row ∈ rows, row ⊆ leaves

theorem tabled_indexSlotLeaves (fromFile : Bool) (slots : Nat) (adapter : OpAdapterState) :
    Tabled (indexSlotLeaves program fromFile slots adapter) adapter.leaves := by
  unfold indexSlotLeaves
  split_ifs
  · refine ⟨List.filter_subset_self _, ?_⟩
    rintro rows hrows row hrow id hid
    cases hrows
    obtain ⟨s, -, rfl⟩ := List.mem_map.mp hrow
    exact (List.mem_filter.mp (Lib.mem_sortUnique.mp hid)).1
  · refine ⟨List.nil_subset _, ?_⟩
    intro rows hrows
    cases hrows

theorem leafQueue_subset {rows : List (List ValueId)} {leaves : List ValueId}
    (h : ∀ row ∈ rows, row ⊆ leaves) (memory : σ) : leafQueue program rows memory ⊆ leaves := by
  intro id hid
  obtain ⟨slot, -, hrow⟩ := List.mem_flatMap.mp (Lib.mem_sortUnique.mp hid)
  cases hget : rows[slot]? with
  | none =>
      rw [hget] at hrow
      cases hrow
  | some row =>
      rw [hget] at hrow
      exact h row (List.mem_of_getElem? hget) hrow

/-- After the leaves of a run are published its changed leaves name every flag, if those that were
set before are of leaves that it publishes in full. -/
theorem named_publishLeaves (full : Bool) (memory : σ) (slotLeaves : SlotLeaves)
    (adapter : OpAdapterState) (htabled : Tabled slotLeaves adapter.leaves)
    (hfresh : adapter.changedLeaves = [])
    (hflags : ∀ id, adapter.changedAt id = true → full = true ∧ id ∈ adapter.leaves) :
    let published := (publishLeaves program full memory slotLeaves adapter).1
    published.leaves = adapter.leaves ∧ published.changedValues = adapter.changedValues ∧
      published.changedLeaves ⊆ adapter.leaves ∧ published.Named published.changedLeaves := by
  unfold publishLeaves
  by_cases hfull : full = true
  · have h := published_foldl program memory adapter.leaves adapter
    simp only [if_pos hfull]
    refine ⟨h.leaves, h.changedValues, ?_, ?_⟩
    · intro id hid
      refine (h.added id hid).resolve_left ?_
      rw [hfresh]
      exact List.not_mem_nil
    · intro id hid
      refine (h.flags id hid).resolve_right ?_
      rintro ⟨hnot, hid⟩
      exact hnot (hflags id hid).2
  · have hothers := published_foldl program memory slotLeaves.otherLeaves adapter
    have hqueue := published_foldl program memory
      (leafQueue program (slotLeaves.rows.getD []) memory)
      { slotLeaves.otherLeaves.foldl (publishLeaf program memory) adapter with changedLeaves := [] }
    simp only [if_neg hfull]
    refine ⟨hqueue.leaves.trans hothers.leaves, hqueue.changedValues.trans hothers.changedValues,
      ?_, ?_⟩
    · intro id hid
      rcases List.mem_merge.mp hid with hid | hid
      · refine htabled.others ((hothers.added id hid).resolve_left ?_)
        rw [hfresh]
        exact List.not_mem_nil
      · have hin := (hqueue.added id hid).resolve_left List.not_mem_nil
        refine leafQueue_subset ?_ memory hin
        intro row hrow
        cases hrows : slotLeaves.rows with
        | none =>
            rw [hrows] at hrow
            cases hrow
        | some rows =>
            rw [hrows] at hrow
            exact htabled.rows rows hrows row hrow
    · intro id hid
      refine List.mem_merge.mpr ?_
      rcases hqueue.flags id hid with hin | ⟨-, hid⟩
      · exact .inr hin
      · rcases hothers.flags id hid with hin | ⟨-, hid⟩
        · exact .inl hin
        · exact absurd (hflags id hid).1 hfull

/-! ## Between the runs -/

/-- A flag is named for the next run, or of a leaf that the next run publishes in full. -/
structure Held (store : Store σ) : Prop where
  tabled : Tabled store.slotLeaves store.adapter.leaves
  flags : ∀ id, store.adapter.changedAt id = true →
    id ∈ store.adapter.changedValues ∨
      store.adapter.everRan = false ∧ id ∈ store.adapter.leaves

theorem changedAt_beginRun (store : Store σ) (id : ValueId) :
    (beginRun program store).adapter.changedAt id =
      (store.adapter.changedAt id && decide (id ∉ store.adapter.changedValues)) :=
  changedAt_clearChanges
    { store.adapter with changedLeaves := [], seeds := [], candidateOps := [] } id

/-- What a run has before the graph is executed. -/
structure Prepared (store : Store σ) (prelude : Prelude σ) : Prop where
  slotLeaves : prelude.store.slotLeaves = store.slotLeaves
  leaves : prelude.store.adapter.leaves = store.adapter.leaves
  cleared : prelude.store.adapter.changedValues = []
  subset : prelude.store.adapter.changedLeaves ⊆ store.adapter.leaves
  named : prelude.store.adapter.Named prelude.store.adapter.changedLeaves

theorem Held.prepared {store : Store σ} (h : Held store) (program : ClosureProgram σ)
    (forced : Bool) :
    Prepared store (prepareRun program forced store) := by
  have hbegun : ∀ id, (beginRun program store).adapter.changedAt id = true →
      (!store.adapter.everRan || (forced || store.requiredStageFramesFullOwed) ||
        store.slotLeaves.rows.isNone) = true ∧ id ∈ (beginRun program store).adapter.leaves := by
    intro id hid
    rw [changedAt_beginRun, Bool.and_eq_true, decide_eq_true_iff] at hid
    obtain ⟨hever, hleaf⟩ := (h.flags id hid.1).resolve_left hid.2
    rw [hever]
    exact ⟨rfl, hleaf⟩
  have htabled : Tabled store.slotLeaves (beginRun program store).adapter.leaves := h.tabled
  obtain ⟨hleaves, hvalues, hsubset, hnamed⟩ := named_publishLeaves _
    (program.filterWritten (!store.adapter.everRan ||
      (forced || store.requiredStageFramesFullOwed) || store.slotLeaves.rows.isNone)
      (program.publishChainInputs (beginRun program store).memory))
    store.slotLeaves (beginRun program store).adapter htabled rfl hbegun
  unfold prepareRun
  simp only
  split
  · exact ⟨rfl, hleaves, hvalues, hsubset, hnamed⟩
  · exact ⟨rfl, hleaves, hvalues, hsubset, hnamed⟩

/-! ## The leaves whose key moved -/

/-- The key that a value is published under. -/
def publishedKey (program : ClosureProgram σ) (memory : σ) (value : OpValueState) : String :=
  (program.smallValue value.domain value.slot memory).getD
    (program.opValue value.domain value.slot memory)

/-- A value's key is not the one it is published under. -/
def KeyMoved (program : ClosureProgram σ) (memory : σ) (adapter : OpAdapterState) (id : ValueId) :
    Prop :=
  ∃ value, adapter.values[id]? = some value ∧
    ¬(value.initialized = true ∧ value.key = publishedKey program memory value)

theorem publishAt_eq (memory : σ) (value : OpValueState) :
    publishAt program memory value = publishValue value (publishedKey program memory value) := by
  unfold publishAt publishedKey
  cases program.smallValue value.domain value.slot memory with
  | none => rfl
  | some bytes => exact publishKeyBytes_eq value bytes

theorem publishAt_changed (memory : σ) (value : OpValueState) :
    (publishAt program memory value).changed = true ↔
      ¬(value.initialized = true ∧ value.key = publishedKey program memory value) := by
  rw [publishAt_eq, publishValue, Bool.or_eq_true, Bool.not_eq_true', bne_iff_ne, not_and_or,
    Bool.not_eq_true, ne_comm, ne_eq]

theorem publishAt_settled (memory : σ) (value : OpValueState) :
    (publishAt program memory value).initialized = true ∧
      (publishAt program memory value).key =
        publishedKey program memory (publishAt program memory value) := by
  rw [publishAt_eq]
  exact ⟨rfl, rfl⟩

theorem values_publishLeaf (memory : σ) (adapter : OpAdapterState) (id other : ValueId) :
    (publishLeaf program memory adapter id).values[other]? =
      if other = id then adapter.values[other]?.map (publishAt program memory)
      else adapter.values[other]? := by
  unfold publishLeaf
  cases hvalue : adapter.values[id]? with
  | none =>
      split_ifs with heq
      · rw [heq, hvalue]
        rfl
      · rfl
  | some value =>
      have hlt : id < adapter.values.length := (List.getElem?_eq_some_iff.mp hvalue).1
      dsimp only
      split_ifs with heq
      · rw [heq, List.getElem?_set_self hlt, hvalue]
        rfl
      · rw [List.getElem?_set_ne (Ne.symm heq)]

theorem changedAt_publishLeaf (memory : σ) (adapter : OpAdapterState) (id other : ValueId) :
    (publishLeaf program memory adapter id).changedAt other = true ↔
      if other = id then KeyMoved program memory adapter other
      else adapter.changedAt other = true := by
  rw [changedAt_eq, values_publishLeaf]
  split_ifs with heq
  · unfold KeyMoved
    cases adapter.values[other]? with
    | none => simp
    | some value => simp [publishAt_changed]
  · rw [changedAt_eq]

theorem keyMoved_publishLeaf (memory : σ) (adapter : OpAdapterState) (id other : ValueId) :
    KeyMoved program memory (publishLeaf program memory adapter id) other ↔
      other ≠ id ∧ KeyMoved program memory adapter other := by
  unfold KeyMoved
  rw [values_publishLeaf]
  split_ifs with heq
  · refine iff_of_false ?_ fun h => h.1 heq
    rintro ⟨value, hvalue, hmoved⟩
    obtain ⟨before, -, rfl⟩ := Option.map_eq_some_iff.mp hvalue
    exact hmoved (publishAt_settled memory before)
  · exact (and_iff_right heq).symm

/-- **The flags of published leaves**: a leaf that is published once is flagged exactly when its key
moved, and one that is published again is not. -/
theorem changedAt_publishLeaves (memory : σ) (ids : List ValueId) (adapter : OpAdapterState)
    (other : ValueId) :
    (ids.foldl (publishLeaf program memory) adapter).changedAt other = true ↔
      other ∉ ids ∧ adapter.changedAt other = true ∨
        ids.count other = 1 ∧ KeyMoved program memory adapter other := by
  induction ids generalizing adapter with
  | nil => simp
  | cons id ids ih =>
      rw [List.foldl_cons, ih, changedAt_publishLeaf, keyMoved_publishLeaf]
      by_cases heq : other = id
      · subst heq
        simp [List.count_eq_zero]
      · simp [heq, List.count_cons_of_ne (Ne.symm heq)]

theorem keyMoved_publishLeaves (memory : σ) (ids : List ValueId) (adapter : OpAdapterState)
    (other : ValueId) :
    KeyMoved program memory (ids.foldl (publishLeaf program memory) adapter) other ↔
      other ∉ ids ∧ KeyMoved program memory adapter other := by
  induction ids generalizing adapter with
  | nil => simp
  | cons id ids ih =>
      rw [List.foldl_cons, ih, keyMoved_publishLeaf, List.mem_cons, not_or, and_left_comm,
        and_assoc]

/-- A run publishes every leaf. -/
def publishesAll (forced : Bool) (store : Store σ) : Bool :=
  !store.adapter.everRan || (forced || store.requiredStageFramesFullOwed) ||
    store.slotLeaves.rows.isNone

/-- The memory that a run publishes its leaves from. -/
def leafMemory (program : ClosureProgram σ) (forced : Bool) (store : Store σ) : σ :=
  program.filterWritten (publishesAll forced store)
    (program.publishChainInputs (beginRun program store).memory)

/-- The leaves that a run publishes, in order. -/
def publishedIds (program : ClosureProgram σ) (forced : Bool) (store : Store σ) : List ValueId :=
  if publishesAll forced store then store.adapter.leaves
  else store.slotLeaves.otherLeaves ++
    leafQueue program (store.slotLeaves.rows.getD []) (leafMemory program forced store)

/-- A run publishes the leaf, once, and finds that its key moved. -/
def LeafMoved (program : ClosureProgram σ) (forced : Bool) (store : Store σ) (id : ValueId) :
    Prop :=
  (publishedIds program forced store).count id = 1 ∧
    KeyMoved program (leafMemory program forced store) (beginRun program store).adapter id

theorem changedAt_prepareRun {store : Store σ} (h : Held store) (program : ClosureProgram σ)
    (forced : Bool) (id : ValueId) :
    (prepareRun program forced store).store.adapter.changedAt id = true ↔
      LeafMoved program forced store id := by
  have hpublished : (prepareRun program forced store).store.adapter.changedAt id =
      (publishLeaves program (publishesAll forced store) (leafMemory program forced store)
        store.slotLeaves (beginRun program store).adapter).1.changedAt id := by
    unfold prepareRun
    simp only
    split
    · rfl
    · rfl
  have hbegun : id ∉ publishedIds program forced store →
      (beginRun program store).adapter.changedAt id ≠ true := by
    intro hnot hid
    rw [changedAt_beginRun, Bool.and_eq_true, decide_eq_true_iff] at hid
    obtain ⟨hever, hleaf⟩ := (h.flags id hid.1).resolve_left hid.2
    refine hnot ?_
    rw [publishedIds, publishesAll, hever]
    exact hleaf
  rw [hpublished, LeafMoved]
  unfold publishLeaves publishedIds at *
  by_cases hfull : publishesAll forced store = true
  · rw [if_pos hfull] at hbegun ⊢
    rw [if_pos hfull, changedAt_publishLeaves]
    exact or_iff_right fun hflag => hbegun hflag.1 hflag.2
  · rw [if_neg hfull] at hbegun ⊢
    rw [if_neg hfull]
    have hqueue := @changedAt_publishLeaves σ program (leafMemory program forced store)
      (leafQueue program (store.slotLeaves.rows.getD []) (leafMemory program forced store))
      { store.slotLeaves.otherLeaves.foldl (publishLeaf program (leafMemory program forced store))
          (beginRun program store).adapter with changedLeaves := [] } id
    have hothers := @changedAt_publishLeaves σ program (leafMemory program forced store)
      store.slotLeaves.otherLeaves (beginRun program store).adapter id
    have hmoved := @keyMoved_publishLeaves σ program (leafMemory program forced store)
      store.slotLeaves.otherLeaves (beginRun program store).adapter id
    rw [List.mem_append, not_or] at hbegun
    refine hqueue.trans ((or_congr (and_congr_right fun _ => hothers)
      (and_congr_right fun _ => hmoved)).trans ?_)
    rw [List.count_append]
    constructor
    · rintro (⟨hnot, ⟨hother, hflag⟩ | ⟨hcount, hkey⟩⟩ | ⟨hcount, hnot, hkey⟩)
      · exact absurd hflag (hbegun ⟨hother, hnot⟩)
      · exact ⟨by rw [hcount, List.count_eq_zero.mpr hnot], hkey⟩
      · exact ⟨by rw [hcount, List.count_eq_zero.mpr hnot], hkey⟩
    · rintro ⟨hcount, hkey⟩
      rcases Nat.add_eq_one_iff.mp hcount with ⟨hzero, hone⟩ | ⟨hone, hzero⟩
      · exact .inr ⟨hone, List.count_eq_zero.mp hzero, hkey⟩
      · exact .inl ⟨List.count_eq_zero.mp hzero, .inr ⟨hone, hkey⟩⟩

/-! ## Executing the graph -/

/-- Every flag is of a changed leaf, or of a write of an op that ran. -/
structure Marked (graph : CompiledGraph) (adapter : OpAdapterState)
    (running : Running (Working σ)) : Prop where
  leaves : running.memory.adapter.leaves = adapter.leaves
  changedLeaves : running.memory.adapter.changedLeaves = adapter.changedLeaves
  length : running.ran.length = graph.ops.length
  flags : ∀ id, running.memory.adapter.changedAt id = true →
    id ∈ adapter.changedLeaves ∨ ∃ c, flagAt running.ran c = true ∧ id ∈ graph.writes c

theorem publishWrite_flags (state : Working σ × Option OpValueState) (id other : ValueId)
    (h : (publishWrite program state id).1.adapter.changedAt other = true) :
    other = id ∨ state.1.adapter.changedAt other = true := by
  unfold publishWrite at h
  cases hvalue : state.1.adapter.values[id]? with
  | none =>
      rw [hvalue] at h
      exact .inr h
  | some value =>
      rw [hvalue] at h
      simp only [changedAt_set hvalue] at h
      split_ifs at h with heq
      · exact .inl heq
      · exact .inr h

theorem publishWrite_frame (program : ClosureProgram σ) (state : Working σ × Option OpValueState)
    (id : ValueId) :
    (publishWrite program state id).1.adapter.leaves = state.1.adapter.leaves ∧
      (publishWrite program state id).1.adapter.changedLeaves = state.1.adapter.changedLeaves := by
  unfold publishWrite
  split
  · exact ⟨rfl, rfl⟩
  · exact ⟨rfl, rfl⟩

theorem publishWrites_spec (ids : List ValueId) (state : Working σ × Option OpValueState) :
    (ids.foldl (publishWrite program) state).1.adapter.leaves = state.1.adapter.leaves ∧
      (ids.foldl (publishWrite program) state).1.adapter.changedLeaves =
        state.1.adapter.changedLeaves ∧
      ∀ other, (ids.foldl (publishWrite program) state).1.adapter.changedAt other = true →
        other ∈ ids ∨ state.1.adapter.changedAt other = true := by
  induction ids generalizing state with
  | nil => exact ⟨rfl, rfl, fun _ h => .inr h⟩
  | cons id ids ih =>
      obtain ⟨hleaves, hchanged, hflags⟩ := ih (publishWrite program state id)
      obtain ⟨hframe, hframe'⟩ := publishWrite_frame program state id
      refine ⟨hleaves.trans hframe, hchanged.trans hframe', ?_⟩
      intro other hother
      rcases hflags other hother with hin | hin
      · exact .inl (List.mem_cons_of_mem id hin)
      · rcases publishWrite_flags state id other hin with rfl | hin
        · exact .inl List.mem_cons_self
        · exact .inr hin

theorem runOp_spec (program : ClosureProgram σ) (c : Nat) (working : Working σ) :
    (runOp program c working).1.adapter.leaves = working.adapter.leaves ∧
      (runOp program c working).1.adapter.changedLeaves = working.adapter.changedLeaves ∧
      ∀ id, (runOp program c working).1.adapter.changedAt id = true →
        id ∈ program.graph.writes c ∨ working.adapter.changedAt id = true := by
  unfold runOp
  split
  · exact ⟨rfl, rfl, fun _ h => .inr h⟩
  · exact publishWrites_spec _ _

theorem marked_invariant (skipEffects : List Nat) (plan : Plan) (adapter : OpAdapterState) :
    BodyInvariant program.graph (closureCallbacks program skipEffects) plan
      (Marked program.graph adapter) where
  start := by
    intro running i h hi
    unfold startBody
    split
    · exact ⟨h.leaves, h.changedLeaves, h.length, h.flags⟩
    · exact h
  finish := by
    intro running i needed h hi
    unfold finishBody
    split_ifs
    · obtain ⟨hleaves, hchanged, hflags⟩ := runOp_spec program i running.memory
      refine ⟨hleaves.trans h.leaves, hchanged.trans h.changedLeaves, ?_, ?_⟩
      · rw [List.length_set, h.length]
      · intro id hid
        rcases hflags id hid with hwrites | hid
        · refine .inr ⟨i, flagAt_set.mpr (.inr ⟨rfl, ?_⟩), hwrites⟩
          rw [h.length]
          by_contra hge
          rw [CompiledGraph.writes, List.getElem?_eq_none (Nat.le_of_not_lt hge)] at hwrites
          cases hwrites
        · refine (h.flags id hid).imp_right ?_
          rintro ⟨c, hran, hwrites⟩
          exact ⟨c, flagAt_set.mpr (.inl hran), hwrites⟩
    · exact ⟨h.leaves, h.changedLeaves, h.length, h.flags⟩
  number := by
    intro running i n h hi
    exact ⟨h.leaves, h.changedLeaves, h.length, h.flags⟩

theorem length_clearListed {α : Type} (zero : α) (listed : List Nat) (values : List α) :
    (clearListed zero listed values).length = values.length := by
  unfold clearListed
  induction listed generalizing values with
  | nil => rfl
  | cons i listed ih => exact (ih (values.set i zero)).trans List.length_set

theorem length_resetExecution (out : OpExecution) (workspace : OpWorkspace) (ops clusters : Nat) :
    (resetExecution out workspace ops clusters).1.ran.length = ops := by
  have hran : (if (out.touchedValid && out.candidates.length == ops && out.ran.length == ops &&
      out.completion.length == ops) = true then clearListed false out.touched out.ran
      else List.replicate ops false).length = ops := by
    split_ifs with hlisted
    · simp only [Bool.and_eq_true, beq_iff_eq] at hlisted
      rw [length_clearListed, hlisted.1.2]
    · exact List.length_replicate
  unfold resetExecution
  simp only
  split
  · exact hran
  · rw [List.length_map]
    exact hran

theorem skipOthers_adapter (skipEffects : List Nat) (candidates : List Bool)
    (working : Working σ) :
    (skipOthers program.graph (closureCallbacks program skipEffects) candidates working).adapter =
      working.adapter := by
  have hfold : ∀ (ids : List Nat) (working : Working σ),
      (ids.foldl (fun working i => if flagAt candidates i = true then working
        else (closureCallbacks program skipEffects).skip i working) working).adapter =
        working.adapter := by
    intro ids
    induction ids with
    | nil => intro working; rfl
    | cons i ids ih =>
        intro working
        rw [List.foldl_cons, ih]
        split_ifs
        · rfl
        · rfl
  exact hfold _ working

theorem prepare_marked (skipEffects : List Nat) (request : OpRequest) (working : Working σ)
    (out : OpExecution) (workspace : OpWorkspace)
    (hnamed : working.adapter.Named working.adapter.changedLeaves) :
    (∀ refused, prepare program.graph (closureCallbacks program skipEffects) request working out
        workspace = .error refused → refused.memory = working) ∧
      ∀ prepared, prepare program.graph (closureCallbacks program skipEffects) request working out
        workspace = .ok prepared →
        Marked program.graph working.adapter prepared.running := by
  have hlength := length_resetExecution out workspace program.graph.ops.length
    program.graph.clusters.length
  unfold prepare
  split
  · refine ⟨?_, ?_⟩
    · rintro refused ⟨⟩
      rfl
    · intro prepared h
      cases h
  · split
    · refine ⟨?_, ?_⟩
      · rintro refused ⟨⟩
        rfl
      · intro prepared h
        cases h
    · rename_i out' workspace' hreset
      rw [hreset] at hlength
      refine ⟨?_, ?_⟩
      · intro refused h
        cases h
      · rintro prepared ⟨⟩
        refine ⟨?_, ?_, hlength, ?_⟩
        · simp only [skipOthers_adapter]
        · simp only [skipOthers_adapter]
        · intro id hid
          simp only [skipOthers_adapter] at hid
          exact .inl (hnamed id hid)

theorem named_gatherChanges {skipEffects : List Nat} {request : OpRequest} {working : Working σ}
    {out : OpExecution} {workspace : OpWorkspace} {executed : Executed (Working σ)}
    (hnamed : working.adapter.Named working.adapter.changedLeaves)
    (h : Executes program.graph (closureCallbacks program skipEffects) request working out workspace
      executed) :
    executed.memory.adapter.leaves = working.adapter.leaves ∧
      (executed.memory.adapter.gatherChanges program.graph executed.out.ran none).Named
        (executed.memory.adapter.gatherChanges program.graph executed.out.ran none).changedValues := by
  obtain ⟨hrefused, hprepared⟩ := prepare_marked skipEffects request working out workspace hnamed
  rcases h.cases with hprepare | ⟨prepared, hprepare, hinv⟩
  · rw [hrefused executed hprepare]
    refine ⟨rfl, ?_⟩
    intro id hid
    exact List.mem_append_left _ (hnamed id hid)
  · obtain ⟨running, counted, hmarked, rfl⟩ := hinv (Marked program.graph working.adapter)
      (marked_invariant skipEffects prepared.plan working.adapter) (hprepared prepared hprepare)
    refine ⟨hmarked.leaves, ?_⟩
    intro id hid
    rcases hmarked.flags id hid with hin | ⟨c, hran, hwrites⟩
    · refine List.mem_append_left _ ?_
      show id ∈ running.memory.adapter.changedLeaves
      rw [hmarked.changedLeaves]
      exact hin
    · exact mem_gatherChanges hran hwrites hid

/-! ## Runs -/

/-- Whether a run was stopped before the join. -/
def RunEnd.isStopped : RunEnd → Bool
  | .stopped _ => true
  | _ => false

/-- What a run leaves of the flags. -/
structure Ended (runEnd : RunEnd) (store : Store σ) : Prop extends Held store where
  stopped : runEnd.isStopped = true → store.adapter.changedValues = []
  joined : runEnd.isStopped = false → store.adapter.Named store.adapter.changedValues

theorem finishRun_spec (program : ClosureProgram σ) (store : Store σ)
    (executed : Executed (Working σ)) :
    (finishRun program store executed).1.isStopped = false ∧
      (finishRun program store executed).2.slotLeaves = store.slotLeaves ∧
      (finishRun program store executed).2.adapter.leaves = executed.memory.adapter.leaves ∧
      (finishRun program store executed).2.adapter.values = executed.memory.adapter.values ∧
      (finishRun program store executed).2.adapter.changedValues =
        (executed.memory.adapter.gatherChanges program.graph executed.out.ran none).changedValues := by
  unfold finishRun
  simp only
  split
  · exact ⟨rfl, rfl, rfl, rfl, rfl⟩
  · split_ifs
    · exact ⟨rfl, rfl, rfl, rfl, rfl⟩
    · exact ⟨rfl, rfl, rfl, rfl, rfl⟩
    · exact ⟨rfl, rfl, rfl, rfl, rfl⟩

/-- **One run**: stopped, it leaves flags of leaves for the first run that follows; joined, it
names every flag. -/
theorem Held.run {store store' : Store σ} {forced : Bool} {runEnd : RunEnd} (h : Held store)
    (hrun : Runs program forced store runEnd store') : Ended runEnd store' := by
  have hprepared := h.prepared program forced
  cases hrun with
  | stopped hstop =>
      refine ⟨⟨?_, ?_⟩, fun _ => hprepared.cleared, fun hjoined => Bool.noConfusion hjoined⟩
      · show Tabled (prepareRun program forced store).store.slotLeaves
          (prepareRun program forced store).store.adapter.leaves
        rw [hprepared.slotLeaves, hprepared.leaves]
        exact h.tabled
      · intro id hid
        refine .inr ⟨rfl, ?_⟩
        show id ∈ (prepareRun program forced store).store.adapter.leaves
        rw [hprepared.leaves]
        exact hprepared.subset (hprepared.named id hid)
  | joined hstop hexecutes =>
      rename_i executed
      obtain ⟨hleaves, hnamed⟩ := named_gatherChanges hprepared.named hexecutes
      obtain ⟨hend, htable, hfinished, hvalues, hgathered⟩ :=
        finishRun_spec program (prepareRun program forced store).store executed
      have hall : (finishRun program (prepareRun program forced store).store executed).2.adapter.Named
          (finishRun program (prepareRun program forced store).store
            executed).2.adapter.changedValues := by
        intro id hid
        rw [hgathered]
        refine hnamed id ?_
        unfold OpAdapterState.changedAt at hid ⊢
        rw [hvalues] at hid
        exact hid
      refine ⟨⟨?_, fun id hid => .inl (hall id hid)⟩, ?_, fun _ => hall⟩
      · rw [htable, hfinished, hleaves, hprepared.slotLeaves, hprepared.leaves]
        exact h.tabled
      · intro hstopped
        rw [hend] at hstopped
        cases hstopped

/-! ## Every history -/

theorem held_compileOpGraph (program : ClosureProgram σ) (fromFile : Bool) (slots : Nat)
    (values : List (Nat × Nat))
    (leaves excludedValues : List ValueId) (skipEffects : List Nat) (memory : σ) :
    (compileOpGraph program fromFile slots values leaves excludedValues skipEffects
        memory).adapter.Named [] ∧
      Held (compileOpGraph program fromFile slots values leaves excludedValues skipEffects
        memory) := by
  have hfresh : ∀ id, (compileOpGraph program fromFile slots values leaves excludedValues
      skipEffects memory).adapter.changedAt id = false := by
    intro id
    rw [changedAt_eq]
    simp only [compileOpGraph, List.getElem?_map]
    cases values[id]? <;> rfl
  refine ⟨?_, tabled_indexSlotLeaves _ _ _, ?_⟩
  · intro id hid
    rw [hfresh id] at hid
    cases hid
  · intro id hid
    rw [hfresh id] at hid
    cases hid

/-- What holds between the runs, whatever the last one was. -/
structure Between (last : Option RunEnd) (store : Store σ) : Prop extends Held store where
  stopped : (∃ runEnd, last = some runEnd ∧ runEnd.isStopped = true) →
    store.adapter.changedValues = []
  joined : (∀ runEnd, last = some runEnd → runEnd.isStopped = false) →
    store.adapter.Named store.adapter.changedValues

theorem History.between {store : Store σ} {last : Option RunEnd} (h : History program store last) :
    Between last store := by
  induction h with
  | compiled =>
      obtain ⟨hnamed, hheld⟩ := held_compileOpGraph program _ _ _ _ _ _ _
      exact ⟨hheld, fun _ => rfl, fun _ => hnamed⟩
  | write _ memory owed ih =>
      exact ⟨⟨ih.tabled, ih.flags⟩, ih.stopped, ih.joined⟩
  | run _ hrun ih =>
      have hended := ih.toHeld.run hrun
      refine ⟨hended.toHeld, ?_, fun hlast => hended.joined (hlast _ rfl)⟩
      rintro ⟨runEnd, heq, hstopped⟩
      cases heq
      exact hended.stopped hstopped

theorem cleared_of_stopped {store store' : Store σ} {forced : Bool} {message : String}
    (h : Held store) (hrun : Runs program forced store (.stopped message) store') :
    (∀ id, (beginRun program store').adapter.changedAt id = false) ↔
      ∀ id, ¬LeafMoved program forced store id := by
  generalize hend : RunEnd.stopped message = runEnd at hrun
  cases hrun with
  | @joined executed _ hexecutes =>
      have hjoined := (finishRun_spec program (prepareRun program forced store).store executed).1
      rw [← hend] at hjoined
      cases hjoined
  | stopped hstop =>
      refine forall_congr' fun id => ?_
      have hgathered :
          (stopRun (prepareRun program forced store).store).adapter.changedValues = [] :=
        (h.prepared program forced).cleared
      rw [changedAt_beginRun, hgathered, ← changedAt_prepareRun h, Bool.not_eq_true]
      simp only [List.not_mem_nil, not_false_eq_true, decide_true, Bool.and_true]
      exact Iff.rfl

/-- **Change flags do not outlive a run that reaches its join.**  After one, or before the first
run, the gathered list names every flag and the next run starts with none.  After a run that was
stopped it does if that run set no flag: if none of the leaves it published had a key that moved. -/
theorem changes_cleared {store : Store σ} {last : Option RunEnd} (h : History program store last) :
    (store.adapter.Named store.adapter.changedValues ↔
      ∀ id, (beginRun program store).adapter.changedAt id = false) ∧
    ((∀ id, (beginRun program store).adapter.changedAt id = false) ↔
      (∀ message, last ≠ some (.stopped message)) ∨
        ∀ id, store.adapter.changedAt id = false) ∧
    ∀ forced before prev message, History program before prev →
      Runs program forced before (.stopped message) store →
        ((∀ id, (beginRun program store).adapter.changedAt id = false) ↔
          ∀ id, ¬LeafMoved program forced before id) := by
  have hbetween := h.between
  have hiff : store.adapter.Named store.adapter.changedValues ↔
      ∀ id, (beginRun program store).adapter.changedAt id = false := by
    rw [← clearChanges_iff]
    refine forall_congr' fun id => ?_
    rw [changedAt_clearChanges, changedAt_beginRun]
  refine ⟨hiff, ?_, fun _ _ _ _ hbefore hrun => cleared_of_stopped hbefore.between.toHeld hrun⟩
  have hstopped : ∀ runEnd, last = some runEnd → runEnd.isStopped = true →
      ∃ message, last = some (.stopped message) := by
    intro runEnd heq hend
    cases runEnd with
    | stopped message => exact ⟨message, heq⟩
    | _ => cases hend
  rw [← hiff]
  constructor
  · intro hnamed
    by_cases hlast : ∃ message, last = some (.stopped message)
    · obtain ⟨message, heq⟩ := hlast
      refine .inr fun id => ?_
      rw [Bool.eq_false_iff]
      intro hid
      have hin := hnamed id hid
      rw [hbetween.stopped ⟨_, heq, rfl⟩] at hin
      cases hin
    · exact .inl fun message heq => hlast ⟨message, heq⟩
  · rintro (hlast | hnone)
    · refine hbetween.joined fun runEnd heq => ?_
      rw [Bool.eq_false_iff]
      intro hend
      obtain ⟨message, hmessage⟩ := hstopped runEnd heq hend
      exact hlast message hmessage
    · intro id hid
      rw [hnone id] at hid
      cases hid

/-! ## Two leaves -/

/-- Two leaves, each keyed by an input slot of its own; the memory has the values of the slots and
the slots that were written. -/
def pairProgram : ClosureProgram (List String × List Nat) where
  graph := {}
  keyedSlots _ slot := some [slot]
  sourceSlots _ := []
  headAlwaysRuns _ := false
  memoIsConstant _ := true
  verifySparseLeaves := true
  opValue _ slot memory := memory.1[slot]?.getD ""
  inputMemo _ _ _ := ""
  effectiveInput _ _ _ := ("", true)
  written memory := memory.2
  clearWritten memory := (memory.1, [])
  runOpBody _ memory := (memory, true)

/-- The program, compiled. -/
def pairStore : Store (List String × List Nat) :=
  compileOpGraph pairProgram true 2 [(33, 0), (33, 1)] [0, 1] [] [] (["a", "b"], [])

/-- The second run publishes the leaf whose slot was written and finds that the other one moved. -/
theorem changes_outlive :
    ¬∀ (store : Store (List String × List Nat)) (last : Option RunEnd),
      History pairProgram store last →
        ∀ id, (beginRun pairProgram store).adapter.changedAt id = false := by
  intro h
  have hexecutes : ExecutesDispatched pairProgram.graph (closureCallbacks pairProgram [])
      (prepareRun pairProgram false pairStore).request
      { memory := (prepareRun pairProgram false pairStore).store.memory
        adapter := (prepareRun pairProgram false pairStore).store.adapter } {} {} _ :=
    .joined rfl (show Lib.run _ _ [PoolEvent.join] = some _ from rfl) rfl
  have hfirst : Runs pairProgram false pairStore _ _ := .joined rfl (.dispatched hexecutes)
  have hwritten := History.write (.run .compiled hfirst) (["c", "d"], [0]) false
  refine absurd (h _ _ (.run hwritten (show Runs pairProgram false _
    (.stopped "sparse publication skipped leaf 1, whose key moved") _ from .stopped ?stop)) 0) ?flag
  case stop => rfl
  case flag =>
    intro hzero
    cases hzero

/-- After the first run both leaves are named. -/
theorem changes_cleared_first :
    ∃ store, Runs pairProgram false pairStore .done store ∧
      store.adapter.changedValues = [0, 1] ∧
      ∀ id, (beginRun pairProgram store).adapter.changedAt id = false := by
  have hexecutes : ExecutesDispatched pairProgram.graph (closureCallbacks pairProgram [])
      (prepareRun pairProgram false pairStore).request
      { memory := (prepareRun pairProgram false pairStore).store.memory
        adapter := (prepareRun pairProgram false pairStore).store.adapter } {} {} _ :=
    .joined rfl (show Lib.run _ _ [PoolEvent.join] = some _ from rfl) rfl
  have hrun : Runs pairProgram false pairStore _ _ := .joined rfl (.dispatched hexecutes)
  have hhistory := History.run .compiled hrun
  refine ⟨_, hrun, rfl, (changes_cleared hhistory).2.1.mpr (.inl ?_)⟩
  intro message hlast
  cases hlast

end RigExec.Closure
