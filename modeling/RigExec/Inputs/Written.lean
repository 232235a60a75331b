/-
# `RigExec.Inputs.Written` — the slots that no reader has seen since they were written

A record has, of every slot, what its readers were last keyed from.  A slot that is not marked as
written is as the record has it, and the keyed fields of a scalar slot are those of the record; so a
written slot whose fields are where they were leaves the list without a reader that could tell.

    calls, the start of a run     mark what they change
    `filterWritten`               the record becomes what the slots hold
    `clearWritten`                nothing is left to read
-/
import RigExec.Inputs.Bookkeeping
import RigExec.Inputs.Spelled

namespace RigExec.Inputs

open Lib (Bytes)

variable {file : InputsFile} {s t : Nat} {st : InputState} {record : Nat → SlotView}
  {enabled all : Bool}

/-! ## The record -/

variable (file) in
/-- What the memos read of every slot. -/
def views (st : InputState) (s : Nat) : SlotView := slotView file s (st.slot s)

/-- The flags that the record has of a slot. -/
def SlotView.bits (seen : SlotView) : KeyedBits where
  hasValue := seen.hasValue
  authored := seen.authored
  blocked := seen.blocked

/-- What the readers were last keyed from, and what has been written since. -/
structure Recorded (file : InputsFile) (record : Nat → SlotView) (st : InputState) : Prop where
  opened : (openTokens file).extraTokens <+: st.tokens.extraTokens
  known : Known file st
  recordKnown : ∀ s, ∀ id ∈ tokenIds file s (record s), Spelled file st.tokens id
  listed : Listed st
  flags : FlagsListed st
  writtenListed : WrittenListed st
  touchedWritten : ∀ s < file.inputs.length, (st.slot s).touchedFlag = true →
    (st.slot s).writtenFlag = true
  keyed : ∀ s < file.inputs.length, file.isArraySlot s = false →
    (st.slot s).keyedValue = (record s).current ∧ (st.slot s).keyedBits = (record s).bits
  /-- Readers see no elements of a scalar slot. -/
  scalar : ∀ s < file.inputs.length, file.isArraySlot s = false →
    (record s).elements = [] ∧ (record s).version = 0
  unwritten : ∀ s < file.inputs.length, (st.slot s).writtenFlag = false →
    views file st s = record s

theorem bits_views (hs : s < file.inputs.length) (hscalar : file.isArraySlot s = false) :
    (views file st s).bits = keyedBits (st.slot s) := by
  rw [isArraySlot_of_type hs] at hscalar
  unfold views slotView SlotView.bits keyedBits
  rw [hscalar]
  rfl

theorem scalar_views (hs : s < file.inputs.length) (hscalar : file.isArraySlot s = false) :
    (views file st s).elements = [] ∧ (views file st s).version = 0 := by
  rw [isArraySlot_of_type hs] at hscalar
  unfold views slotView
  rw [hscalar]
  exact ⟨rfl, rfl⟩

theorem SlotView.eq_of_bits {a b : SlotView} (hcurrent : a.current = b.current)
    (hbits : a.bits = b.bits) (helements : a.elements = b.elements)
    (hversion : a.version = b.version) : a = b := by
  cases a
  cases b
  simp_all [SlotView.bits]

theorem recorded_openState (hdeclared : file.Declared) :
    Recorded file (views file (openState file)) (openState file) where
  opened := List.prefix_refl _
  known := known_openState hdeclared
  recordKnown := (known_openState hdeclared).tokenIds hdeclared (List.prefix_refl _)
  listed := (settled_openState file).listed
  flags := (settled_openState file).flags
  writtenListed := ⟨List.nodup_nil, fun _ =>
    ⟨fun hmem => absurd hmem List.not_mem_nil, fun hflag => Bool.noConfusion hflag⟩⟩
  touchedWritten _ _ hflag := Bool.noConfusion hflag
  keyed s hs hscalar := by
    refine ⟨rfl, ?_⟩
    rw [bits_views hs hscalar]
    rfl
  scalar s hs hscalar := scalar_views hs hscalar
  unwritten _ _ _ := rfl

/-! ## Calls -/

/-- **Step lemma.**  A call marks what it changes. -/
theorem Recorded.call (hdeclared : file.Declared) (h : Recorded file record st) (call : Call)
    (hcall : call.Spells file st.tokens) : Recorded file record (call.run file st).2 := by
  have hkeeps : Keeps file st (call.run file st).2 := keeps_run call
  exact
    { opened := h.opened.trans hkeeps.tokens
      known := known_run hdeclared h.known call hcall
      recordKnown := fun s id hid => (h.recordKnown s id hid).grows hkeeps.tokens
      listed := hkeeps.listed h.listed
      flags := fun s hs => by
        rw [(hkeeps.slot s).changedSinceRun] at hs
        rw [hkeeps.changedSlots]
        exact h.flags s hs
      writtenListed := hkeeps.writtenListed h.writtenListed
      touchedWritten := fun s hs htouched =>
        ((hkeeps.slot s).touchedWritten hs htouched).elim
          (fun hbefore => (hkeeps.slot s).written (h.touchedWritten s hs hbefore)) id
      keyed := fun s hs hscalar => by
        rw [(hkeeps.slot s).keyedValue, (hkeeps.slot s).keyedBits]
        exact h.keyed s hs hscalar
      scalar := h.scalar
      unwritten := fun s hs hlater => by
        have hbefore : (st.slot s).writtenFlag = false := by
          refine eq_false_of_ne_true fun hwritten => ?_
          rw [(hkeeps.slot s).written hwritten] at hlater
          exact Bool.noConfusion hlater
        exact ((hkeeps.slot s).view hs hlater).trans (h.unwritten s hs hbefore) }

/-! ## The start of a run -/

/-- What the start of a run leaves of the marks of a slot. -/
structure SameMarks (slot slot' : SlotState) : Prop where
  writtenFlag : slot'.writtenFlag = slot.writtenFlag
  keyedValue : slot'.keyedValue = slot.keyedValue
  keyedBits : slot'.keyedBits = slot.keyedBits
  current : slot'.current = slot.current
  held : slot'.array.held = slot.array.held

theorem sameMarks_appliedSlot (file : InputsFile) (s : Nat) (slot : SlotState) :
    SameMarks slot (appliedSlot file s slot) ∧ (appliedSlot file s slot).touchedFlag = false := by
  unfold appliedSlot
  split
  · exact ⟨⟨rfl, rfl, rfl, rfl, rfl⟩, rfl⟩
  · unfold appliedScalar
    split <;> exact ⟨⟨rfl, rfl, rfl, rfl, rfl⟩, rfl⟩

/-- The lists that the start of a run leaves. -/
def kept (st : InputState) : List Nat × TokenTable := (st.written, st.tokens)

theorem kept_raiseOverride (changed : Bool) (st : InputState) (number : Nat) :
    kept (raiseOverride file changed st number) = kept st := by
  unfold raiseOverride
  dsimp only
  split <;> split <;> rfl

theorem kept_applySlot (st : InputState) (s : Nat) : kept (applySlot file st s) = kept st := by
  have hrecord : ∀ (changed : Bool) (st : InputState), kept (Inputs.record changed s st) = kept st := by
    intro changed st
    unfold Inputs.record
    split <;> rfl
  have hnote : ∀ st : InputState, kept (noteAnimated file s st) = kept st := by
    intro st
    unfold noteAnimated
    split <;> rfl
  unfold applySlot
  dsimp only
  split
  · exact hrecord _ _
  · exact (Lib.foldl_frame (kept_raiseOverride _) _ _).trans ((hrecord _ _).trans (hnote _))

theorem kept_clearChanged (st : InputState) : kept (clearChanged st) = kept st := by
  have hclear : ∀ (st : InputState) (s : Nat),
      kept (st.update s fun slot => { slot with changedSinceRun := false }) = kept st :=
    fun _ _ => rfl
  exact Lib.foldl_frame hclear st.changedSlots st

theorem kept_applyTouched (st : InputState) : kept (applyTouched file st) = kept st := by
  show kept ((clearChanged st).touched.foldl (applySlot file) (clearChanged st)) = kept st
  rw [Lib.foldl_frame kept_applySlot]
  exact kept_clearChanged st

theorem sameMarks_applyTouched (hlisted : Listed st) (hflags : FlagsListed st) (s : Nat) :
    SameMarks (st.slot s) ((applyTouched file st).slot s) ∧
      ((applyTouched file st).slot s).touchedFlag = false := by
  rw [slot_applyTouched hlisted hflags]
  split
  · obtain ⟨hmarks, huntouched⟩ :=
      sameMarks_appliedSlot file s { st.slot s with changedSinceRun := false }
    exact ⟨⟨hmarks.writtenFlag, hmarks.keyedValue, hmarks.keyedBits, hmarks.current, hmarks.held⟩,
      huntouched⟩
  · rename_i huntouched
    exact ⟨⟨rfl, rfl, rfl, rfl, rfl⟩, eq_false_of_ne_true huntouched⟩

/-- **Step lemma.**  A run starts from slots that it has compared; what it moves was written. -/
theorem Recorded.applyTouched (h : Recorded file record st) :
    Recorded file record (applyTouched file st) := by
  have hmarks := @sameMarks_applyTouched file st h.listed h.flags
  have hkept := @kept_applyTouched file st
  have hwritten : (Inputs.applyTouched file st).written = st.written := congrArg Prod.fst hkept
  have htokens : (Inputs.applyTouched file st).tokens = st.tokens := congrArg Prod.snd hkept
  exact
    { opened := htokens ▸ h.opened
      known := h.known.of_slots htokens fun s => ⟨(hmarks s).1.current, (hmarks s).1.held⟩
      recordKnown := htokens ▸ h.recordKnown
      listed := ⟨List.nodup_nil, fun s => by
        rw [(hmarks s).2]
        exact ⟨fun hmem => absurd hmem List.not_mem_nil, fun hflag => Bool.noConfusion hflag⟩⟩
      flags := flagsListed_applyTouched h.flags
      writtenListed := ⟨hwritten ▸ h.writtenListed.nodup, fun s => by
        rw [hwritten, (hmarks s).1.writtenFlag]
        exact h.writtenListed.mem_iff s⟩
      touchedWritten := fun s _ htouched => by
        rw [(hmarks s).2] at htouched
        exact Bool.noConfusion htouched
      keyed := fun s hs hscalar => by
        rw [(hmarks s).1.keyedValue, (hmarks s).1.keyedBits]
        exact h.keyed s hs hscalar
      scalar := h.scalar
      unwritten := fun s hs hlater => by
        rw [(hmarks s).1.writtenFlag] at hlater
        rw [← h.unwritten s hs hlater, views, views, slot_applyTouched h.listed h.flags, if_neg]
        · rfl
        · intro htouched
          rw [h.touchedWritten s hs htouched] at hlater
          exact Bool.noConfusion hlater }

/-! ## The filter -/

theorem sameKeyedValue_iff (a b : WireValue) : sameKeyedValue a b = true ↔ a = b := by
  cases a
  cases b
  simp only [sameKeyedValue, Bool.and_eq_true, beq_iff_eq, WireValue.mk.injEq, and_assoc]

/-- The keyed fields of a slot are those of its record. -/
def atRecord (enabled : Bool) (slot : SlotState) : Bool :=
  enabled && keyedBits slot == slot.keyedBits && sameKeyedValue slot.current slot.keyedValue

theorem atRecord_iff (slot : SlotState) : atRecord enabled slot = true ↔
    enabled = true ∧ keyedBits slot = slot.keyedBits ∧ slot.current = slot.keyedValue := by
  rw [atRecord, Bool.and_eq_true, Bool.and_eq_true, beq_iff_eq, sameKeyedValue_iff, and_assoc]

def recordSlot (slot : SlotState) : SlotState :=
  { slot with keyedValue := slot.current, keyedBits := keyedBits slot }

variable (file enabled) in
/-- A written slot, as the filter leaves it. -/
def filteredSlot (s : Nat) (slot : SlotState) : SlotState :=
  if file.isArraySlot s = false ∧ s < file.inputs.length then
    if atRecord enabled slot then { slot with writtenFlag := false } else recordSlot slot
  else slot

variable (file enabled) in
/-- A written slot stays listed. -/
def staysWritten (s : Nat) (slot : SlotState) : Bool :=
  !(decide (file.isArraySlot s = false ∧ s < file.inputs.length) && atRecord enabled slot)

variable (file enabled) in
/-- One written slot. -/
def filterStep (kept : InputState) (s : Nat) : InputState :=
  if file.isArraySlot s = false ∧ s < file.inputs.length then
    if atRecord enabled (kept.slot s) then
      kept.update s fun slot => { slot with writtenFlag := false }
    else { kept.update s recordSlot with written := kept.written ++ [s] }
  else { kept with written := kept.written ++ [s] }

theorem filterWritten_sparse (st : InputState) :
    filterWritten file enabled false st =
      st.written.foldl (filterStep file enabled) { st with written := [] } :=
  rfl

theorem rewrites_filterStep :
    Lib.Rewrites InputState.slot (filterStep file enabled) (filteredSlot file enabled) where
  here st s := by
    unfold filterStep filteredSlot
    split
    · split
      · exact slot_update_self
      · exact slot_update_self
    · rfl
  others st s t h := by
    unfold filterStep
    split
    · split
      · exact slot_update_of_ne h
      · exact slot_update_of_ne h
    · rfl

theorem written_filterStep (st : InputState) (s : Nat) :
    (filterStep file enabled st s).written =
      if staysWritten file enabled s (st.slot s) then st.written ++ [s] else st.written := by
  unfold filterStep staysWritten
  split
  · rename_i hscalar
    rw [decide_eq_true hscalar, Bool.true_and]
    split
    · rename_i hsame
      rw [hsame]
      rfl
    · rename_i hmoved
      rw [eq_false_of_ne_true hmoved]
      rfl
  · rename_i hscalar
    rw [decide_eq_false hscalar]
    rfl
/-- The lists that the readers leave. -/
def unread (st : InputState) : List Nat × List Nat × TokenTable :=
  (st.touched, st.changedSlots, st.tokens)

theorem unread_filterWritten (st : InputState) :
    unread (filterWritten file enabled all st) = unread st := by
  cases all with
  | true => rfl
  | false =>
      have hstep : ∀ (kept : InputState) (s : Nat),
          unread (filterStep file enabled kept s) = unread kept := by
        intro kept s
        unfold filterStep
        split
        · split <;> rfl
        · rfl
      exact Lib.foldl_frame hstep st.written { st with written := [] }

theorem fields_of_unread {st st' : InputState} (h : unread st' = unread st) :
    st'.touched = st.touched ∧ st'.changedSlots = st.changedSlots ∧ st'.tokens = st.tokens := by
  have hrest := congrArg Prod.snd h
  exact ⟨congrArg Prod.fst h, congrArg Prod.fst hrest, congrArg Prod.snd hrest⟩

section Filter

variable (hlisted : WrittenListed st)

include hlisted

theorem slot_filterWritten (s : Nat) : (filterWritten file enabled false st).slot s =
    if (st.slot s).writtenFlag then filteredSlot file enabled s (st.slot s) else st.slot s := by
  rw [filterWritten_sparse]
  split
  · rename_i hwritten
    exact rewrites_filterStep.foldl_of_mem hlisted.nodup ((hlisted.mem_iff s).mpr hwritten) _
  · rename_i hunwritten
    exact rewrites_filterStep.foldl_of_notMem
      (fun hmem => hunwritten ((hlisted.mem_iff s).mp hmem)) _

theorem written_filterWritten : (filterWritten file enabled false st).written =
    st.written.filter fun s => staysWritten file enabled s (st.slot s) := by
  rw [filterWritten_sparse, rewrites_filterStep.listed_foldl written_filterStep hlisted.nodup]
  rfl

theorem mem_written_filterWritten : s ∈ (filterWritten file enabled false st).written ↔
    (st.slot s).writtenFlag = true ∧ staysWritten file enabled s (st.slot s) = true := by
  rw [written_filterWritten hlisted, List.mem_filter, hlisted.mem_iff]

/-- **A written slot is filtered out only where every keyed field is the recorded one.** -/
theorem filtered_exact (hwritten : s ∈ st.written)
    (hfiltered : s ∉ (filterWritten file enabled false st).written) :
    s < file.inputs.length ∧ file.isArraySlot s = false ∧
      (st.slot s).current = (st.slot s).keyedValue ∧
      keyedBits (st.slot s) = (st.slot s).keyedBits := by
  have hleft : staysWritten file enabled s (st.slot s) = false :=
    eq_false_of_ne_true fun hstays => hfiltered
      ((mem_written_filterWritten hlisted).mpr ⟨(hlisted.mem_iff s).mp hwritten, hstays⟩)
  rw [staysWritten, Bool.not_eq_false', Bool.and_eq_true, decide_eq_true_iff, atRecord_iff] at hleft
  exact ⟨hleft.1.2, hleft.1.1, hleft.2.2.2, hleft.2.2.1⟩

end Filter

theorem filteredSlot_kept (s : Nat) (slot : SlotState) :
    slotView file s (filteredSlot file enabled s slot) = slotView file s slot ∧
      (filteredSlot file enabled s slot).touchedFlag = slot.touchedFlag ∧
      (filteredSlot file enabled s slot).changedSinceRun = slot.changedSinceRun ∧
      (filteredSlot file enabled s slot).array.held = slot.array.held := by
  unfold filteredSlot
  split
  · split <;> exact ⟨rfl, rfl, rfl, rfl⟩
  · exact ⟨rfl, rfl, rfl, rfl⟩

theorem filterWritten_kept (hlisted : WrittenListed st) (s : Nat) :
    views file (filterWritten file enabled all st) s = views file st s ∧
      ((filterWritten file enabled all st).slot s).touchedFlag = (st.slot s).touchedFlag ∧
      ((filterWritten file enabled all st).slot s).changedSinceRun =
        (st.slot s).changedSinceRun ∧
      ((filterWritten file enabled all st).slot s).array.held = (st.slot s).array.held := by
  cases all with
  | true => exact ⟨rfl, rfl, rfl, rfl⟩
  | false =>
      unfold views
      rw [slot_filterWritten hlisted]
      split
      · exact filteredSlot_kept s (st.slot s)
      · exact ⟨rfl, rfl, rfl, rfl⟩

/-- **A slot that is not listed after the filter is as the record has it.** -/
theorem Recorded.unlisted (h : Recorded file record st) (hs : s < file.inputs.length)
    (hunlisted : s ∉ (filterWritten file enabled all st).written) :
    views file st s = record s := by
  by_cases hwritten : s ∈ st.written
  · cases all with
    | true => exact absurd hwritten hunlisted
    | false =>
        obtain ⟨-, hscalar, hcurrent, hbits⟩ := filtered_exact h.writtenListed hwritten hunlisted
        obtain ⟨hvalue, hkeyed⟩ := h.keyed s hs hscalar
        obtain ⟨helements, hversion⟩ := h.scalar s hs hscalar
        have hview := @scalar_views file s st hs hscalar
        refine SlotView.eq_of_bits (hcurrent.trans hvalue) ?_ (hview.1.trans helements.symm)
          (hview.2.trans hversion.symm)
        rw [bits_views hs hscalar, hbits, hkeyed]
  · refine h.unwritten s hs (eq_false_of_ne_true fun hflag => hwritten ?_)
    exact (h.writtenListed.mem_iff s).mpr hflag

theorem writtenFlag_filteredSlot {slot : SlotState} (hflag : slot.writtenFlag = true) :
    (filteredSlot file enabled s slot).writtenFlag = staysWritten file enabled s slot := by
  unfold filteredSlot staysWritten
  split
  · rename_i hscalar
    rw [decide_eq_true hscalar, Bool.true_and]
    split
    · rename_i hsame
      rw [hsame]
      rfl
    · rename_i hmoved
      rw [eq_false_of_ne_true hmoved]
      exact hflag
  · rename_i hscalar
    rw [decide_eq_false hscalar]
    exact hflag

theorem writtenListed_filterWritten (hlisted : WrittenListed st) :
    WrittenListed (filterWritten file enabled all st) := by
  cases all with
  | true => exact ⟨hlisted.nodup, hlisted.mem_iff⟩
  | false =>
      refine ⟨?_, fun s => ?_⟩
      · rw [written_filterWritten hlisted]
        exact hlisted.nodup.filter _
      · rw [mem_written_filterWritten hlisted, slot_filterWritten hlisted]
        split
        · rename_i hflag
          rw [writtenFlag_filteredSlot hflag]
          exact and_iff_right hflag
        · rename_i hflag
          exact iff_of_false (fun h => hflag h.1) hflag

theorem Recorded.keyed_filterWritten (h : Recorded file record st) (hs : s < file.inputs.length)
    (hscalar : file.isArraySlot s = false) :
    ((Inputs.filterWritten file enabled all st).slot s).keyedValue = (st.slot s).current ∧
      ((Inputs.filterWritten file enabled all st).slot s).keyedBits = keyedBits (st.slot s) := by
  cases all with
  | true => exact ⟨rfl, rfl⟩
  | false =>
      rw [slot_filterWritten h.writtenListed]
      split
      · rw [filteredSlot, if_pos ⟨hscalar, hs⟩]
        split
        · rename_i hsame
          obtain ⟨-, hbits, hcurrent⟩ := (atRecord_iff _).mp hsame
          exact ⟨hcurrent.symm, hbits.symm⟩
        · exact ⟨rfl, rfl⟩
      · rename_i hflag
        -- nothing was written: the record has the slot as it is
        have hview := h.unwritten s hs (eq_false_of_ne_true hflag)
        obtain ⟨hvalue, hkeyed⟩ := h.keyed s hs hscalar
        rw [hvalue, hkeyed, ← hview, bits_views hs hscalar]
        exact ⟨rfl, rfl⟩

/-- **Step lemma.**  The filter records what the slots hold. -/
theorem Recorded.filterWritten (hdeclared : file.Declared) (h : Recorded file record st)
    (huntouched : ∀ s, (st.slot s).touchedFlag = false) :
    Recorded file (views file st) (filterWritten file enabled all st) := by
  obtain ⟨htouched, hchanged, htokens⟩ :=
    fields_of_unread (@unread_filterWritten file enabled all st)
  have hkept := @filterWritten_kept file st enabled all h.writtenListed
  exact
    { opened := htokens ▸ h.opened
      known := h.known.of_slots htokens fun s =>
        ⟨congrArg SlotView.current (hkept s).1, (hkept s).2.2.2⟩
      recordKnown := htokens ▸ h.known.tokenIds hdeclared h.opened
      listed := ⟨htouched ▸ h.listed.nodup, fun s => by
        rw [htouched, (hkept s).2.1]
        exact h.listed.mem_iff s⟩
      flags := fun s hs => by
        rw [(hkept s).2.2.1] at hs
        rw [hchanged]
        exact h.flags s hs
      writtenListed := writtenListed_filterWritten h.writtenListed
      touchedWritten := fun s _ htouched => by
        rw [(hkept s).2.1, huntouched s] at htouched
        exact Bool.noConfusion htouched
      keyed := fun s hs hscalar => by
        rw [bits_views hs hscalar]
        exact h.keyed_filterWritten hs hscalar
      scalar := fun s hs hscalar => scalar_views hs hscalar
      unwritten := fun s _ _ => (hkept s).1 }

/-! ## The end of the reading -/

/-- The written slots have been read. -/
def clearWritten (st : InputState) : InputState :=
  { st.written.foldl (fun st s => st.update s fun slot => { slot with writtenFlag := false }) st
    with written := [] }

theorem slot_clearWritten (hlisted : WrittenListed st) (s : Nat) :
    (clearWritten st).slot s = { st.slot s with writtenFlag := false } := by
  have hrewrites : Lib.Rewrites InputState.slot
      (fun (st : InputState) s => st.update s fun slot => { slot with writtenFlag := false })
      (fun _ slot => { slot with writtenFlag := false }) :=
    { here := fun st s => slot_update_self
      others := fun st s t h => slot_update_of_ne h }
  show (st.written.foldl _ st).slot s = _
  by_cases hs : s ∈ st.written
  · exact hrewrites.foldl_of_mem hlisted.nodup hs st
  · rw [hrewrites.foldl_of_notMem hs]
    have hclear : (st.slot s).writtenFlag = false :=
      eq_false_of_ne_true fun h => hs ((hlisted.mem_iff s).mpr h)
    rw [← hclear]

theorem unread_clearWritten (st : InputState) : unread (clearWritten st) = unread st := by
  have hstep : ∀ (st : InputState) (s : Nat),
      unread (st.update s fun slot => { slot with writtenFlag := false }) = unread st :=
    fun _ _ => rfl
  exact Lib.foldl_frame hstep st.written st

theorem views_clearWritten (hlisted : WrittenListed st) :
    views file (clearWritten st) = views file st := by
  funext s
  unfold views
  rw [slot_clearWritten hlisted]
  rfl

/-- **Step lemma.**  Once every reader has been keyed, nothing is written. -/
theorem Recorded.clearWritten (h : Recorded file (views file st) st)
    (huntouched : ∀ s, (st.slot s).touchedFlag = false) :
    Recorded file (views file st) (clearWritten st) := by
  obtain ⟨htouched, hchanged, htokens⟩ := fields_of_unread (unread_clearWritten st)
  have hslot := slot_clearWritten h.writtenListed
  exact
    { opened := htokens ▸ h.opened
      known := h.known.of_slots htokens fun s => by
        rw [hslot]
        exact ⟨rfl, rfl⟩
      recordKnown := htokens ▸ h.recordKnown
      listed := ⟨htouched ▸ h.listed.nodup, fun s => by
        rw [htouched, hslot]
        exact h.listed.mem_iff s⟩
      flags := fun s hs => by
        rw [hslot] at hs
        rw [hchanged]
        exact h.flags s hs
      writtenListed := ⟨List.nodup_nil, fun s => by
        rw [hslot]
        exact ⟨fun hmem => absurd hmem List.not_mem_nil, fun hflag => Bool.noConfusion hflag⟩⟩
      touchedWritten := fun s _ htouched => by
        rw [hslot, show ({ st.slot s with writtenFlag := false } : SlotState).touchedFlag = false
          from huntouched s] at htouched
        exact Bool.noConfusion htouched
      keyed := fun s hs hscalar => by
        rw [hslot]
        exact h.keyed s hs hscalar
      scalar := h.scalar
      unwritten := fun s _ _ => congrFun (views_clearWritten h.writtenListed) s }

end RigExec.Inputs
