/-
# `RigExec.Inputs.Bookkeeping` — the flags of a run, over every sequence of calls and runs

A run leaves the slots settled: nothing is touched, and what it read is what they hold.  Calls keep
what was read and every slot they do not touch (`keeps_runCalls`), so the next run's flags compare
what the slots hold with what the last run read, slot for slot.

    scalar slots        value bits, has-value state, authored kind
    array slots         elements, has-value state; only the elements move the version
    override numbers    the whole walk, whichever slot of it was touched
-/
import RigExec.Inputs.Touched

namespace RigExec.Inputs

open Lib (Bytes)

variable {file : InputsFile} {s number : Nat} {st prev : InputState}

/-! ## Between two runs -/

/-- A slot holds other than the last run read. -/
def Moved (file : InputsFile) (s : Nat) (before after : SlotState) : Prop :=
  if file.isArraySlot s = true then
    arrayView file s after ≠ arrayView file s before ∨ after.hasValue ≠ before.hasValue
  else
    after.current.valueBits ≠ before.current.valueBits ∨ after.hasValue ≠ before.hasValue ∨
      after.authored ≠ before.authored

/-- The state that a run leaves. -/
structure Settled (file : InputsFile) (st : InputState) : Prop where
  untouched : st.touched = []
  touchedFlag : ∀ s, (st.slot s).touchedFlag = false
  ran : ∀ s, file.isArraySlot s = false →
    (st.slot s).ran.valueBits = (st.slot s).current.valueBits
  ranHasValue : ∀ s, (st.slot s).ranHasValue = (st.slot s).hasValue
  ranAuthored : ∀ s, file.isArraySlot s = false → (st.slot s).ranAuthored = (st.slot s).authored
  authored : ∀ s, (st.slot s).authored = true → s < file.listed
  flags : FlagsListed st
  overridden : ∀ number < file.overrideCount,
    st.valueOverridden number = walkDiffers file st number

theorem Settled.listed (h : Settled file st) : Listed st where
  nodup := h.untouched ▸ List.nodup_nil
  mem_iff s := by
    rw [h.untouched, h.touchedFlag s]
    exact ⟨fun hmem => absurd hmem List.not_mem_nil, fun hflag => Bool.noConfusion hflag⟩

theorem settled_openState (file : InputsFile) : Settled file (openState file) where
  untouched := rfl
  touchedFlag _ := rfl
  ran _ _ := rfl
  ranHasValue _ := rfl
  ranAuthored _ _ := rfl
  authored _ h := Bool.noConfusion h
  flags _ h := Bool.noConfusion h
  overridden number _ := by
    symm
    refine eq_false_of_ne_true fun hwalk => ?_
    obtain ⟨s, -, hs⟩ := walkDiffers_iff.mp hwalk
    rcases hs with ⟨hauthored, -⟩ | hvalue | hbits
    · exact Bool.noConfusion hauthored
    · exact hvalue rfl
    · exact hbits rfl

section Step

variable (hprev : Settled file prev) (hkeeps : Keeps file prev st)

include hprev hkeeps

theorem slotChanged_iff (htouched : (st.slot s).touchedFlag = true) :
    slotChanged file s (st.slot s) = true ↔ Moved file s (prev.slot s) (st.slot s) := by
  have hslot := hkeeps.slot s
  have hvalue : (st.slot s).ranHasValue = (prev.slot s).hasValue :=
    hslot.ranHasValue.trans (hprev.ranHasValue s)
  unfold slotChanged Moved
  by_cases harray : file.isArraySlot s = true
  · have hran := hslot.elements harray
    rw [ranElements, ranElements, htouched, hprev.touchedFlag s, if_pos rfl,
      if_neg Bool.false_ne_true] at hran
    rw [if_pos harray, if_pos harray, arrayChanged, arrayMoved, hran, hvalue, Bool.or_eq_true,
      bne_iff_ne, decide_eq_true_iff]
    exact or_comm
  · have hscalar := eq_false_of_ne_true harray
    rw [if_neg harray, if_neg harray, scalarChanged, hvalue, hslot.ranAuthored,
      hprev.ranAuthored s hscalar, not_sameValueBits, hslot.ran, hprev.ran s hscalar,
      Bool.or_eq_true, Bool.or_eq_true, bne_iff_ne, bne_iff_ne, decide_eq_true_iff]
    tauto

theorem authored_of_untouched (huntouched : (st.slot s).touchedFlag = false)
    (hscalar : file.isArraySlot s = false) : (st.slot s).authored = (prev.slot s).authored := by
  by_cases hs : s < file.listed
  · exact (hkeeps.slot s).authored huntouched hscalar hs
  · rw [eq_false_of_ne_true fun h => hs (hprev.authored s h)]
    refine eq_false_of_ne_true fun h => hs ?_
    exact ((hkeeps.slot s).listed h).elim (hprev.authored s) id

theorem not_moved (huntouched : (st.slot s).touchedFlag = false) :
    ¬ Moved file s (prev.slot s) (st.slot s) := by
  have hslot := hkeeps.slot s
  have hvalue := hslot.hasValue huntouched
  unfold Moved
  by_cases harray : file.isArraySlot s = true
  · have hran := hslot.elements harray
    rw [ranElements, ranElements, huntouched, hprev.touchedFlag s, if_neg Bool.false_ne_true,
      if_neg Bool.false_ne_true] at hran
    rw [if_pos harray]
    rintro (helements | hhas)
    · exact helements hran
    · exact hhas hvalue
  · rw [if_neg harray]
    rintro (hbits | hhas | hauthored)
    · exact hbits (by rw [hslot.current huntouched])
    · exact hhas hvalue
    · exact hauthored (authored_of_untouched hprev hkeeps huntouched (eq_false_of_ne_true harray))

end Step

/-! ## A run -/

theorem slot_clearChanged (hflags : FlagsListed st) (s : Nat) :
    (clearChanged st).slot s = { st.slot s with changedSinceRun := false } := by
  have hrewrites : Lib.Rewrites InputState.slot
      (fun (st : InputState) s => st.update s fun slot => { slot with changedSinceRun := false })
      (fun _ slot => { slot with changedSinceRun := false }) :=
    { here := fun st s => slot_update_self
      others := fun st s t h => slot_update_of_ne h }
  show (st.changedSlots.foldl _ st).slot s = _
  by_cases hs : s ∈ st.changedSlots
  · exact hrewrites.foldl_of_idempotent (fun _ _ => rfl) hs st
  · rw [hrewrites.foldl_of_notMem hs]
    have hclear : (st.slot s).changedSinceRun = false :=
      eq_false_of_ne_true fun h => hs (hflags s h)
    rw [← hclear]

theorem touched_clearChanged (st : InputState) : (clearChanged st).touched = st.touched := by
  have hclear : ∀ (st : InputState) (s : Nat),
      (st.update s fun slot => { slot with changedSinceRun := false }).touched = st.touched :=
    fun _ _ => rfl
  exact Lib.foldl_frame hclear st.changedSlots st

theorem valueOverridden_clearChanged (st : InputState) :
    (clearChanged st).valueOverridden = st.valueOverridden := by
  have hclear : ∀ (st : InputState) (s : Nat),
      (st.update s fun slot => { slot with changedSinceRun := false }).valueOverridden =
        st.valueOverridden :=
    fun _ _ => rfl
  exact Lib.foldl_frame hclear st.changedSlots st

theorem slot_applyTouched (hlisted : Listed st) (hflags : FlagsListed st) (s : Nat) :
    (applyTouched file st).slot s =
      if (st.slot s).touchedFlag then
        appliedSlot file s { st.slot s with changedSinceRun := false }
      else { st.slot s with changedSinceRun := false } := by
  show ((clearChanged st).touched.foldl (applySlot file) (clearChanged st)).slot s = _
  rw [touched_clearChanged]
  by_cases hs : (st.slot s).touchedFlag = true
  · rw [if_pos hs, (rewrites_applySlot file).foldl_of_mem hlisted.nodup
      ((hlisted.mem_iff s).mpr hs), slot_clearChanged hflags]
  · rw [if_neg hs, (rewrites_applySlot file).foldl_of_notMem
      (fun hmem => hs ((hlisted.mem_iff s).mp hmem)), slot_clearChanged hflags]

theorem sameView_applyTouched (hlisted : Listed st) (hflags : FlagsListed st) (s : Nat) :
    SameView (st.slot s) ((applyTouched file st).slot s) := by
  rw [slot_applyTouched hlisted hflags]
  split
  · have hview := sameView_appliedSlot file s { st.slot s with changedSinceRun := false }
    exact ⟨hview.current, hview.hasValue, hview.authored, hview.held, hview.holdsSet⟩
  · exact ⟨rfl, rfl, rfl, rfl, rfl⟩

theorem walkDiffers_applyTouched (hlisted : Listed st) (hflags : FlagsListed st) :
    walkDiffers file (applyTouched file st) number = walkDiffers file st number := by
  refine walkDiffers_congr fun s _ => ?_
  have hview := @sameView_applyTouched file st hlisted hflags s
  exact ⟨hview.current, hview.hasValue, hview.authored⟩

theorem flagsListed_applyTouched (hflags : FlagsListed st) :
    FlagsListed (applyTouched file st) := by
  refine flagsListed_foldl_applySlot (clearChanged st).touched fun s hs => ?_
  rw [slot_clearChanged hflags] at hs
  exact Bool.noConfusion hs

section Step

variable (hprev : Settled file prev) (hkeeps : Keeps file prev st)

include hprev hkeeps

theorem flagsListed_of_keeps : FlagsListed st := by
  intro s hs
  rw [(hkeeps.slot s).changedSinceRun] at hs
  rw [hkeeps.changedSlots]
  exact hprev.flags s hs

theorem slot_of_run (s : Nat) : (applyTouched file st).slot s =
    if (st.slot s).touchedFlag then appliedSlot file s { st.slot s with changedSinceRun := false }
    else { st.slot s with changedSinceRun := false } :=
  slot_applyTouched (hkeeps.listed hprev.listed) (flagsListed_of_keeps hprev hkeeps) s

/-- **The flags of a run.** -/
theorem changedSinceRun_iff :
    ((applyTouched file st).slot s).changedSinceRun = true ↔
      Moved file s (prev.slot s) (st.slot s) := by
  rw [slot_of_run hprev hkeeps]
  split
  · rename_i htouched
    rw [changedSinceRun_appliedSlot, Bool.or_false]
    exact slotChanged_iff hprev hkeeps htouched
  · rename_i huntouched
    exact iff_of_false Bool.false_ne_true
      (not_moved hprev hkeeps (eq_false_of_ne_true huntouched))

/-- **The version of a run.**  It moves exactly when the elements did. -/
theorem version_applyTouched (harray : file.isArraySlot s = true) :
    ((applyTouched file st).slot s).array.version =
      if arrayView file s (st.slot s) = arrayView file s (prev.slot s) then
        (prev.slot s).array.version
      else (prev.slot s).array.version + 1 := by
  have hslot := hkeeps.slot s
  have hran := hslot.elements harray
  rw [ranElements, ranElements, hprev.touchedFlag s, if_neg Bool.false_ne_true] at hran
  rw [slot_of_run hprev hkeeps,
    ← hslot.version]
  split
  · rename_i htouched
    rw [if_pos htouched] at hran
    rw [appliedSlot, if_pos harray]
    show (if arrayMoved file s (st.slot s) then _ else _) = _
    rw [arrayMoved, hran]
    by_cases helements : arrayView file s (st.slot s) = arrayView file s (prev.slot s)
    · rw [if_pos helements, if_neg (by simp [helements])]
    · rw [if_neg helements, if_pos (decide_eq_true helements)]
  · rename_i huntouched
    rw [if_neg huntouched] at hran
    rw [if_pos hran]

theorem valueOverridden_applyTouched (hnumber : number < file.overrideCount) :
    (applyTouched file st).valueOverridden number =
      walkDiffers file (applyTouched file st) number := by
  have hlisted := hkeeps.listed hprev.listed
  have hflags := flagsListed_of_keeps hprev hkeeps
  have hcleared : walkDiffers file (clearChanged st) number = walkDiffers file st number := by
    refine walkDiffers_congr fun s _ => ?_
    rw [slot_clearChanged hflags]
    exact ⟨rfl, rfl, rfl⟩
  rw [walkDiffers_applyTouched hlisted hflags, ← hcleared]
  show ((clearChanged st).touched.foldl (applySlot file) (clearChanged st)).valueOverridden
    number = _
  rcases valueOverridden_foldl_applySlot hnumber (clearChanged st).touched (clearChanged st) with
    hwalk | ⟨hsame, hnone⟩
  · exact hwalk
  · -- no slot of the walk was touched: what the last run left is still right
    rw [hsame, hcleared, valueOverridden_clearChanged, hkeeps.valueOverridden,
      hprev.overridden number hnumber]
    refine (walkDiffers_congr fun s hs => ?_).symm
    have huntouched : (st.slot s).touchedFlag = false := by
      refine eq_false_of_ne_true fun h => hnone s ?_ hs
      rw [touched_clearChanged]
      exact (hlisted.mem_iff s).mpr h
    have hslot := hkeeps.slot s
    exact ⟨hslot.current huntouched, hslot.hasValue huntouched,
      authored_of_untouched hprev hkeeps huntouched hs.scalar⟩

/-- **Step lemma.**  A run leaves the slots settled. -/
theorem settled_applyTouched : Settled file (applyTouched file st) where
  untouched := rfl
  touchedFlag s := by
    rw [slot_of_run hprev hkeeps]
    split
    · unfold appliedSlot
      split
      · rfl
      · unfold appliedScalar
        split <;> rfl
    · rename_i huntouched
      exact eq_false_of_ne_true huntouched
  ran s hscalar := by
    rw [slot_of_run hprev hkeeps]
    split
    · rw [appliedSlot, if_neg (by rw [hscalar]; exact Bool.false_ne_true), appliedScalar]
      split
      · rfl
      · rename_i hchanged
        rw [scalarChanged, Bool.or_eq_true, not_sameValueBits, decide_eq_true_iff] at hchanged
        push Not at hchanged
        exact hchanged.2.symm
    · rename_i huntouched
      have hslot := hkeeps.slot s
      show (st.slot s).ran.valueBits = (st.slot s).current.valueBits
      rw [hslot.ran, hslot.current (eq_false_of_ne_true huntouched), hprev.ran s hscalar]
  ranHasValue s := by
    rw [slot_of_run hprev hkeeps]
    split
    · unfold appliedSlot
      split
      · rfl
      · unfold appliedScalar
        split
        · rfl
        · rename_i hchanged
          rw [scalarChanged, Bool.or_eq_true, Bool.or_eq_true, bne_iff_ne, bne_iff_ne] at hchanged
          push Not at hchanged
          exact hchanged.1.2.symm
    · rename_i huntouched
      have hslot := hkeeps.slot s
      show (st.slot s).ranHasValue = (st.slot s).hasValue
      rw [hslot.ranHasValue, hslot.hasValue (eq_false_of_ne_true huntouched), hprev.ranHasValue s]
  ranAuthored s hscalar := by
    rw [slot_of_run hprev hkeeps]
    split
    · rw [appliedSlot, if_neg (by rw [hscalar]; exact Bool.false_ne_true), appliedScalar]
      split <;> rfl
    · rename_i huntouched
      show (st.slot s).ranAuthored = (st.slot s).authored
      rw [(hkeeps.slot s).ranAuthored, hprev.ranAuthored s hscalar,
        authored_of_untouched hprev hkeeps (eq_false_of_ne_true huntouched) hscalar]
  authored s hs := by
    have hview := @sameView_applyTouched file st (hkeeps.listed hprev.listed)
      (flagsListed_of_keeps hprev hkeeps) s
    rw [hview.authored] at hs
    exact ((hkeeps.slot s).listed hs).elim (hprev.authored s) id
  flags := flagsListed_applyTouched (flagsListed_of_keeps hprev hkeeps)
  overridden number hnumber := valueOverridden_applyTouched hprev hkeeps hnumber

end Step

/-! ## Sequences of runs -/

/-- The calls before a run, and whether the run ends well. -/
structure Round where
  calls : List Call
  ended : Bool

variable (file) in
/-- A run over the calls before it. -/
def runRound (st : InputState) (round : Round) : InputState :=
  let applied := applyTouched file (runCalls file round.calls st)
  if round.ended then endRun applied else applied

variable (file) in
/-- The state that the last of these runs leaves. -/
def runRounds (rounds : List Round) : InputState :=
  rounds.foldl (runRound file) (openState file)

theorem settled_runRound (h : Settled file st) (round : Round) :
    Settled file (runRound file st round) := by
  have hsettled := settled_applyTouched h (keeps_runCalls round.calls st)
  unfold runRound
  dsimp only
  split
  · exact
      { untouched := hsettled.untouched
        touchedFlag := hsettled.touchedFlag
        ran := hsettled.ran
        ranHasValue := hsettled.ranHasValue
        ranAuthored := hsettled.ranAuthored
        authored := hsettled.authored
        flags := hsettled.flags
        overridden := hsettled.overridden }
  · exact hsettled

/-- **Run lemma.** -/
theorem settled_runRounds (rounds : List Round) : Settled file (runRounds file rounds) := by
  have hrun : ∀ (rounds : List Round) (st : InputState), Settled file st →
      Settled file (rounds.foldl (runRound file) st) := by
    intro rounds
    induction rounds with
    | nil => exact fun st h => h
    | cons round rounds ih => exact fun st h => ih _ (settled_runRound h round)
  exact hrun rounds (openState file) (settled_openState file)

variable (file) in
/-- The run after these calls. -/
def nextRun (rounds : List Round) (calls : List Call) : InputState :=
  applyTouched file (runCalls file calls (runRounds file rounds))

/-- **The bookkeeping of the touched slots is exact.**  After every sequence of calls and runs, and
then any calls, a run flags the slots that hold other than the last run read, moves the version of
an array exactly when its elements did, and flags the override numbers whose walk differs; a call
that fails leaves the state. -/
theorem bookkeeping_exact (file : InputsFile) (rounds : List Round) (calls : List Call) :
    (∀ s, ((nextRun file rounds calls).slot s).changedSinceRun = true ↔
        Moved file s ((runRounds file rounds).slot s) ((nextRun file rounds calls).slot s)) ∧
      (∀ s, file.isArraySlot s = true →
        (((nextRun file rounds calls).slot s).array.version ≠
            ((runRounds file rounds).slot s).array.version ↔
          arrayView file s ((nextRun file rounds calls).slot s) ≠
            arrayView file s ((runRounds file rounds).slot s))) ∧
      (∀ number < file.overrideCount,
        ((nextRun file rounds calls).store.overridden number = true ↔
          WalkDiffers file (nextRun file rounds calls) number)) ∧
      ∀ call : Call, FailsClean (runCalls file calls (runRounds file rounds))
        (call.run file (runCalls file calls (runRounds file rounds))) := by
  have hprev : Settled file (runRounds file rounds) := settled_runRounds rounds
  have hkeeps : Keeps file (runRounds file rounds) (runCalls file calls (runRounds file rounds)) :=
    keeps_runCalls calls _
  have hview : ∀ s, SameView ((runCalls file calls (runRounds file rounds)).slot s)
      ((nextRun file rounds calls).slot s) :=
    sameView_applyTouched (hkeeps.listed hprev.listed) (flagsListed_of_keeps hprev hkeeps)
  refine ⟨fun s => ?_, fun s harray => ?_, fun number hnumber => ?_, fun call => ?_⟩
  · rw [nextRun, changedSinceRun_iff hprev hkeeps, ← nextRun, Moved, Moved, (hview s).arrayView,
      (hview s).current, (hview s).hasValue, (hview s).authored]
  · rw [(hview s).arrayView, nextRun, version_applyTouched hprev hkeeps harray]
    split
    · rename_i hsame
      exact iff_of_false (fun h => h rfl) (fun h => h hsame)
    · rename_i hmoved
      exact iff_of_true (Nat.succ_ne_self _) hmoved
  · rw [← walkDiffers_iff, nextRun, ← valueOverridden_applyTouched hprev hkeeps hnumber]
    rfl
  · exact failsClean_run call

/-- A sampled array that is at its default. -/
def sampledFile : InputsFile where
  inputs := [{ type := .floatArray, defaultHasValue := true, animated := true, arrayAtTime := true }]
  listedInputs := 1
  scalarWalk := fun _ h => absurd h List.not_mem_nil

/-- An array slot is flagged for its has-value state as well: a sampled array that is cleared at its
default keeps its elements, and so its version. -/
theorem version_not_exact :
    ¬ ∀ (file : InputsFile) (rounds : List Round) (calls : List Call) (s : Nat),
      file.isArraySlot s = true →
        (((nextRun file rounds calls).slot s).changedSinceRun = true ↔
          ((nextRun file rounds calls).slot s).array.version ≠
            ((runRounds file rounds).slot s).array.version) := by
  intro h
  exact absurd ((h sampledFile [] [.stageArrayClear 0] 0 (by decide)).mp (by decide)) (by decide)

end RigExec.Inputs
