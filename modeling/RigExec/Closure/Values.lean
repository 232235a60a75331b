/-
# `RigExec.Closure.Values` — the values of an operation graph

A value has the key it was last published with, and a flag that says whether that
publication changed it.  The flags of a run are set by its publications and read by
its operations; `changedValues` names the ones a run has set, and the next run
clears those.

    publishValue       compares through the key
    publishKeyBytes    compares in place, for a key of fixed size
    clearChanges       at the start of a run
    gatherChanges      after its join
-/
import RigExec.OpGraph.Execution

namespace RigExec.Closure

open RigExec.OpGraph

structure OpValueState where
  domain : Nat
  slot : Nat
  key : String := ""
  initialized : Bool := false
  changed : Bool := false
  revision : Nat := 0

structure OpAdapterState where
  values : List OpValueState := []
  leaves : List ValueId := []
  changedLeaves : List ValueId := []
  changedValues : List ValueId := []
  excludedValues : List ValueId := []
  skipEffects : List Nat := []
  seeds : List Nat := []
  candidateOps : List Nat := []
  inputKeys : Nat → String := fun _ => ""
  constantSource : List Bool := []
  sourceVisits : List Nat := []
  everRan : Bool := false

/-- `RigExecOpPublishValue`. -/
def publishValue (value : OpValueState) (key : String) : OpValueState :=
  let changed := !value.initialized || key != value.key
  { value with
    changed
    revision := if changed then value.revision + 1 else value.revision
    key
    initialized := true }

/-- `RigExecOpPublishKeyBytes`. -/
def publishKeyBytes (value : OpValueState) (bytes : String) : OpValueState :=
  let changed := !value.initialized || value.key != bytes
  { value with
    changed
    revision := if changed then value.revision + 1 else value.revision
    key := if changed then bytes else value.key
    initialized := true }

theorem publishKeyBytes_eq (value : OpValueState) (bytes : String) :
    publishKeyBytes value bytes = publishValue value bytes := by
  have hcomm : (value.key != bytes) = (bytes != value.key) := by
    rw [Bool.eq_iff_iff, bne_iff_ne, bne_iff_ne]
    exact ne_comm
  unfold publishKeyBytes publishValue
  rw [hcomm]
  cases hchanged : (!value.initialized || bytes != value.key) with
  | true => rfl
  | false =>
      have hkey : bytes = value.key := by simpa using (Bool.or_eq_false_iff.mp hchanged).2
      rw [hkey]
      simp

namespace OpAdapterState

variable (adapter : OpAdapterState)

/-- The changed flag of a value. -/
def changedAt (id : ValueId) : Bool :=
  match adapter.values[id]? with
  | some value => value.changed
  | none => false

/-- `RigExecOpClearChanges`. -/
def clearChanges : OpAdapterState :=
  { adapter with
    values := adapter.changedValues.foldl
      (fun values id => values.modify id fun value => { value with changed := false })
      adapter.values
    changedValues := [] }

/-- The changed writes of an op that ran. -/
def gather (graph : CompiledGraph) (ran : List Bool) (c : Nat) : List ValueId :=
  if c < graph.ops.length ∧ c < ran.length ∧ flagAt ran c = true then
    (graph.writes c).filter adapter.changedAt
  else []

/-- `RigExecOpGatherChanges`. -/
def gatherChanges (graph : CompiledGraph) (ran : List Bool) (candidates : Option (List Nat)) :
    OpAdapterState :=
  { adapter with
    changedValues := adapter.changedLeaves ++
      (match candidates with
        | some candidates => candidates
        | none => (List.range graph.ops.length).filter fun c => decide (c < ran.length)).flatMap
          (adapter.gather graph ran) }

/-- A list that names every value whose flag is set. -/
def Named (ids : List ValueId) : Prop := ∀ id, adapter.changedAt id = true → id ∈ ids

end OpAdapterState

/-! ## Clearing -/

theorem changedAt_modify (values : List OpValueState) (id other : ValueId) :
    ((values.modify id fun value => { value with changed := false })[other]?.map
        OpValueState.changed) =
      if id = other then values[other]?.map (fun _ => false)
      else values[other]?.map OpValueState.changed := by
  rw [List.getElem?_modify]
  split_ifs
  · cases values[other]? <;> rfl
  · cases values[other]? <;> rfl

theorem changedAt_eq (adapter : OpAdapterState) (id : ValueId) :
    adapter.changedAt id = (adapter.values[id]?.map OpValueState.changed).getD false := by
  unfold OpAdapterState.changedAt
  cases adapter.values[id]? <;> rfl

theorem changedAt_clearChanges (adapter : OpAdapterState) (id : ValueId) :
    adapter.clearChanges.changedAt id =
      (adapter.changedAt id && decide (id ∉ adapter.changedValues)) := by
  rw [changedAt_eq, changedAt_eq]
  unfold OpAdapterState.clearChanges
  have hfold : ∀ (ids : List ValueId) (values : List OpValueState),
      ((ids.foldl (fun values id => values.modify id fun value => { value with changed := false })
        values)[id]?.map OpValueState.changed).getD false =
        ((values[id]?.map OpValueState.changed).getD false && decide (id ∉ ids)) := by
    intro ids
    induction ids with
    | nil => simp
    | cons first ids ih =>
        intro values
        rw [List.foldl_cons, ih, changedAt_modify]
        by_cases heq : first = id
        · rw [if_pos heq]
          cases values[id]? <;> simp [heq]
        · rw [if_neg heq]
          simp [Ne.symm heq]
  exact hfold _ _

theorem clearChanges_iff (adapter : OpAdapterState) :
    (∀ id, adapter.clearChanges.changedAt id = false) ↔ adapter.Named adapter.changedValues := by
  constructor
  · intro h id hid
    have hcleared := h id
    rw [changedAt_clearChanges, hid, Bool.true_and, decide_eq_false_iff_not, not_not] at hcleared
    exact hcleared
  · intro h id
    rw [changedAt_clearChanges]
    cases hid : adapter.changedAt id with
    | false => rfl
    | true => simp [h id hid]

/-! ## Gathering -/

theorem mem_gather {adapter : OpAdapterState} {graph : CompiledGraph} {ran : List Bool} {c : Nat}
    {id : ValueId} (hran : flagAt ran c = true) (hwrites : id ∈ graph.writes c)
    (hchanged : adapter.changedAt id = true) : id ∈ adapter.gather graph ran c := by
  have hlt : c < graph.ops.length := by
    by_contra hge
    rw [CompiledGraph.writes, List.getElem?_eq_none (Nat.le_of_not_lt hge)] at hwrites
    cases hwrites
  have hlt' : c < ran.length := by
    by_contra hge
    rw [flagAt, List.getElem?_eq_none (Nat.le_of_not_lt hge)] at hran
    cases hran
  rw [OpAdapterState.gather, if_pos ⟨hlt, hlt', hran⟩]
  exact List.mem_filter.mpr ⟨hwrites, hchanged⟩

theorem mem_gatherChanges {adapter : OpAdapterState} {graph : CompiledGraph} {ran : List Bool}
    {c : Nat} {id : ValueId} (hran : flagAt ran c = true) (hwrites : id ∈ graph.writes c)
    (hchanged : adapter.changedAt id = true) :
    id ∈ (adapter.gatherChanges graph ran none).changedValues := by
  have hin := mem_gather hran hwrites hchanged
  refine List.mem_append_right _ (List.mem_flatMap.mpr ⟨c, ?_, hin⟩)
  unfold OpAdapterState.gather at hin
  split_ifs at hin with hc
  · exact List.mem_filter.mpr ⟨List.mem_range.mpr hc.1, decide_eq_true hc.2.1⟩
  · cases hin

end RigExec.Closure
