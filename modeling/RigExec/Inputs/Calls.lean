/-
# `RigExec.Inputs.Calls` — what a call leaves for the next run

Whatever a call writes, it leaves what the last run read of every slot where the next run finds it,
and a slot that it does not touch as it was.  What the memos read of a slot it changes only where it
has marked the slot as written.

    scalar slots     `ran` keeps what was read; a value is written and then touched
    array slots      the first touch moves the held set to `ran` (`ranElements`)
    failed calls     leave the slots, and may have interned token text
-/
import RigExec.Inputs.Model
import RigExec.Lib.Pointwise

namespace RigExec.Inputs

open Lib (Bytes Lists)

variable {file : InputsFile} {s t : Nat} {st st' st'' : InputState} {f : SlotState → SlotState}

/-! ## The helpers -/

@[simp] theorem slot_update_self : (st.update s f).slot s = f (st.slot s) :=
  Function.update_self s _ st.slot

@[simp] theorem slot_update_of_ne (h : t ≠ s) : (st.update s f).slot t = st.slot t :=
  Function.update_of_ne h _ st.slot

theorem slot_markWritten_self : (markWritten file s st).slot s =
    { st.slot s with
      writtenFlag := decide (s < file.inputs.length) || (st.slot s).writtenFlag } := by
  unfold markWritten
  split
  · rename_i h
    rw [decide_eq_true h.1, Bool.true_or]
    exact Function.update_self s _ st.slot
  · rename_i h
    cases hwritten : (st.slot s).writtenFlag with
    | true => rw [Bool.or_true, ← hwritten]
    | false =>
        have hpast : ¬ s < file.inputs.length := fun hlt => h ⟨hlt, hwritten⟩
        rw [decide_eq_false hpast, Bool.false_or, ← hwritten]

theorem slot_markWritten_of_ne (h : t ≠ s) : (markWritten file s st).slot t = st.slot t := by
  unfold markWritten
  split
  · exact Function.update_of_ne h _ st.slot
  · rfl

theorem slot_touch_self : (touch s st).slot s = { st.slot s with touchedFlag := true } := by
  unfold touch
  split
  · rename_i h
    rw [← h]
  · exact Function.update_self s _ st.slot

theorem slot_touch_of_ne (h : t ≠ s) : (touch s st).slot t = st.slot t := by
  unfold touch
  split
  · rfl
  · exact Function.update_of_ne h _ st.slot

theorem writtenFlag_markWritten (hs : s < file.inputs.length) :
    ((markWritten file s st).slot s).writtenFlag = true := by
  rw [slot_markWritten_self]
  exact Bool.or_eq_true_iff.mpr (.inl (decide_eq_true hs))

/-! ## Token text grows -/

theorem intern_grows (base : Nat) (tokens : TokenTable) (text : String) :
    tokens.extraTokens <+: (tokens.intern base text).2.extraTokens := by
  unfold TokenTable.intern
  split
  · exact List.prefix_refl _
  · exact List.prefix_append _ _

theorem internAll_grows (base : Nat) (texts : List String) (tokens : TokenTable) :
    tokens.extraTokens <+: (tokens.internAll base texts).2.extraTokens := by
  induction texts generalizing tokens with
  | nil => exact List.prefix_refl _
  | cons text texts ih => exact (intern_grows base tokens text).trans (ih _)

/-! ## What is kept -/

/-- The elements that the last run read of an array slot. -/
def ranElements (file : InputsFile) (s : Nat) (slot : SlotState) : List Bytes :=
  if slot.touchedFlag then
    if slot.array.ranHeld then slot.array.ran else (file.input s).defaultVector
  else arrayView file s slot

/-- The touched slots are listed, each once. -/
def Listed (st : InputState) : Prop := Lists st.touched fun s => (st.slot s).touchedFlag

/-- The written slots are listed, each once. -/
def WrittenListed (st : InputState) : Prop := Lists st.written fun s => (st.slot s).writtenFlag

/-- What the calls between two runs keep of a slot. -/
structure KeepsSlot (file : InputsFile) (s : Nat) (slot slot' : SlotState) : Prop where
  ran : slot'.ran = slot.ran
  ranHasValue : slot'.ranHasValue = slot.ranHasValue
  ranAuthored : slot'.ranAuthored = slot.ranAuthored
  changedSinceRun : slot'.changedSinceRun = slot.changedSinceRun
  version : slot'.array.version = slot.array.version
  elements : file.isArraySlot s = true → ranElements file s slot' = ranElements file s slot
  touched : slot.touchedFlag = true → slot'.touchedFlag = true
  current : slot'.touchedFlag = false → slot'.current = slot.current
  hasValue : slot'.touchedFlag = false → slot'.hasValue = slot.hasValue
  authored : slot'.touchedFlag = false → file.isArraySlot s = false → s < file.listed →
    slot'.authored = slot.authored
  listed : slot'.authored = true → slot.authored = true ∨ s < file.listed
  keyedValue : slot'.keyedValue = slot.keyedValue
  keyedBits : slot'.keyedBits = slot.keyedBits
  written : slot.writtenFlag = true → slot'.writtenFlag = true
  view : s < file.inputs.length → slot'.writtenFlag = false →
    slotView file s slot' = slotView file s slot
  touchedWritten : s < file.inputs.length → slot'.touchedFlag = true →
    slot.touchedFlag = true ∨ slot'.writtenFlag = true

/-- What the calls between two runs keep. -/
structure Keeps (file : InputsFile) (st st' : InputState) : Prop where
  slot : ∀ s, KeepsSlot file s (st.slot s) (st'.slot s)
  listed : Listed st → Listed st'
  writtenListed : WrittenListed st → WrittenListed st'
  changedSlots : st'.changedSlots = st.changedSlots
  valueOverridden : st'.valueOverridden = st.valueOverridden
  store : st'.store = st.store
  tokens : st.tokens.extraTokens <+: st'.tokens.extraTokens

theorem KeepsSlot.refl (slot : SlotState) : KeepsSlot file s slot slot := by
  constructor <;> intros <;> first | rfl | assumption | exact .inl ‹_›

theorem KeepsSlot.trans {slot slot' slot'' : SlotState} (h : KeepsSlot file s slot slot')
    (h' : KeepsSlot file s slot' slot'') : KeepsSlot file s slot slot'' := by
  have hback : ∀ {b b' : Bool}, (b = true → b' = true) → b' = false → b = false := by
    intro b b' hkept hlater
    refine eq_false_of_ne_true fun hb => ?_
    rw [hkept hb] at hlater
    exact Bool.noConfusion hlater
  exact
    { ran := h'.ran.trans h.ran
      ranHasValue := h'.ranHasValue.trans h.ranHasValue
      ranAuthored := h'.ranAuthored.trans h.ranAuthored
      changedSinceRun := h'.changedSinceRun.trans h.changedSinceRun
      version := h'.version.trans h.version
      elements := fun harray => (h'.elements harray).trans (h.elements harray)
      touched := fun htouched => h'.touched (h.touched htouched)
      current := fun hlater => (h'.current hlater).trans (h.current (hback h'.touched hlater))
      hasValue := fun hlater => (h'.hasValue hlater).trans (h.hasValue (hback h'.touched hlater))
      authored := fun hlater hscalar hs =>
        (h'.authored hlater hscalar hs).trans (h.authored (hback h'.touched hlater) hscalar hs)
      listed := fun hauthored => (h'.listed hauthored).elim h.listed .inr
      keyedValue := h'.keyedValue.trans h.keyedValue
      keyedBits := h'.keyedBits.trans h.keyedBits
      written := fun hwritten => h'.written (h.written hwritten)
      view := fun hs hlater => (h'.view hs hlater).trans (h.view hs (hback h'.written hlater))
      touchedWritten := fun hs hlater =>
        (h'.touchedWritten hs hlater).elim
          (fun hmid => (h.touchedWritten hs hmid).imp_right h'.written) .inr }

theorem Keeps.refl (st : InputState) : Keeps file st st where
  slot s := KeepsSlot.refl (st.slot s)
  listed h := h
  writtenListed h := h
  changedSlots := rfl
  valueOverridden := rfl
  store := rfl
  tokens := List.prefix_refl _

theorem Keeps.trans (h : Keeps file st st') (h' : Keeps file st' st'') : Keeps file st st'' where
  slot s := (h.slot s).trans (h'.slot s)
  listed hlisted := h'.listed (h.listed hlisted)
  writtenListed hlisted := h'.writtenListed (h.writtenListed hlisted)
  changedSlots := h'.changedSlots.trans h.changedSlots
  valueOverridden := h'.valueOverridden.trans h.valueOverridden
  store := h'.store.trans h.store
  tokens := h.tokens.trans h'.tokens

/-! ## Edits of one slot -/

/-- The helpers edit one slot, and list it where they mark it. -/
structure Edits (s : Nat) (st st' : InputState) : Prop where
  others : ∀ t, t ≠ s → st'.slot t = st.slot t
  touchedKept : (st.slot s).touchedFlag = true → (st'.slot s).touchedFlag = true
  touched : st'.touched =
    if (st'.slot s).touchedFlag = (st.slot s).touchedFlag then st.touched else st.touched ++ [s]
  writtenKept : (st.slot s).writtenFlag = true → (st'.slot s).writtenFlag = true
  written : st'.written =
    if (st'.slot s).writtenFlag = (st.slot s).writtenFlag then st.written else st.written ++ [s]
  changedSlots : st'.changedSlots = st.changedSlots
  valueOverridden : st'.valueOverridden = st.valueOverridden
  store : st'.store = st.store
  tokens : st'.tokens = st.tokens

theorem listed_twice {b b' b'' : Bool} {l l' l'' : List Nat} (hb : b = true → b' = true)
    (hb' : b' = true → b'' = true) (hl : l' = if b' = b then l else l ++ [s])
    (hl' : l'' = if b'' = b' then l' else l' ++ [s]) :
    l'' = if b'' = b then l else l ++ [s] := by
  cases b <;> cases b' <;> cases b'' <;> simp_all

theorem Edits.trans (h : Edits s st st') (h' : Edits s st' st'') : Edits s st st'' where
  others t ht := (h'.others t ht).trans (h.others t ht)
  touchedKept hflag := h'.touchedKept (h.touchedKept hflag)
  touched := listed_twice h.touchedKept h'.touchedKept h.touched h'.touched
  writtenKept hflag := h'.writtenKept (h.writtenKept hflag)
  written := listed_twice h.writtenKept h'.writtenKept h.written h'.written
  changedSlots := h'.changedSlots.trans h.changedSlots
  valueOverridden := h'.valueOverridden.trans h.valueOverridden
  store := h'.store.trans h.store
  tokens := h'.tokens.trans h.tokens

theorem edits_update (htouched : (f (st.slot s)).touchedFlag = (st.slot s).touchedFlag)
    (hwritten : (f (st.slot s)).writtenFlag = (st.slot s).writtenFlag) :
    Edits s st (st.update s f) where
  others _ ht := slot_update_of_ne ht
  touchedKept hflag := by rw [slot_update_self, htouched, hflag]
  touched := by
    rw [slot_update_self, if_pos htouched]
    rfl
  writtenKept hflag := by rw [slot_update_self, hwritten, hflag]
  written := by
    rw [slot_update_self, if_pos hwritten]
    rfl
  changedSlots := rfl
  valueOverridden := rfl
  store := rfl
  tokens := rfl

theorem edits_markWritten (file : InputsFile) (s : Nat) (st : InputState) :
    Edits s st (markWritten file s st) := by
  refine
    { others := fun t ht => slot_markWritten_of_ne ht
      touchedKept := ?_, touched := ?_, writtenKept := ?_, written := ?_
      changedSlots := ?_, valueOverridden := ?_, store := ?_, tokens := ?_ }
  · rw [slot_markWritten_self]
    exact fun h => h
  · rw [slot_markWritten_self, if_pos rfl, markWritten]
    split <;> rfl
  · rw [slot_markWritten_self]
    exact fun h => Bool.or_eq_true_iff.mpr (.inr h)
  · rw [slot_markWritten_self, markWritten]
    split
    · rename_i h
      rw [h.2, decide_eq_true h.1, if_neg (fun heq => Bool.noConfusion heq)]
    · rename_i h
      rw [if_pos]
      cases hflag : (st.slot s).writtenFlag with
      | true => exact Bool.or_true _
      | false =>
          rw [Bool.or_false]
          exact decide_eq_false fun hs => h ⟨hs, hflag⟩
  all_goals
    unfold markWritten
    split <;> rfl

theorem edits_touch (s : Nat) (st : InputState) : Edits s st (touch s st) := by
  refine
    { others := fun t ht => slot_touch_of_ne ht
      touchedKept := ?_, touched := ?_, writtenKept := ?_, written := ?_
      changedSlots := ?_, valueOverridden := ?_, store := ?_, tokens := ?_ }
  · rw [slot_touch_self]
    exact fun _ => rfl
  · rw [slot_touch_self, touch]
    split
    · rename_i h
      rw [if_pos h.symm]
    · rename_i h
      rw [if_neg (Ne.symm h)]
  · rw [slot_touch_self]
    exact fun h => h
  · rw [slot_touch_self, if_pos rfl, touch]
    split <;> rfl
  all_goals
    unfold touch
    split <;> rfl

theorem keeps_of_edits (hslot : KeepsSlot file s (st.slot s) (st'.slot s)) (h : Edits s st st') :
    Keeps file st st' where
  slot t := by
    by_cases ht : t = s
    · rw [ht]
      exact hslot
    · rw [h.others t ht]
      exact KeepsSlot.refl (st.slot t)
  listed hlisted := hlisted.mark (fun t ht => by rw [h.others t ht]) h.touchedKept h.touched
  writtenListed hlisted := hlisted.mark (fun t ht => by rw [h.others t ht]) h.writtenKept h.written
  changedSlots := h.changedSlots
  valueOverridden := h.valueOverridden
  store := h.store
  tokens := h.tokens ▸ List.prefix_refl _

/-! ## The helpers keep it -/

theorem keeps_tokens (tokens : TokenTable)
    (hgrows : st.tokens.extraTokens <+: tokens.extraTokens) :
    Keeps file st { st with tokens } where
  slot s := KeepsSlot.refl (st.slot s)
  listed h := h
  writtenListed h := h
  changedSlots := rfl
  valueOverridden := rfl
  store := rfl
  tokens := hgrows

theorem keeps_markWritten (file : InputsFile) (s : Nat) (st : InputState) :
    Keeps file st (markWritten file s st) := by
  refine keeps_of_edits ?_ (edits_markWritten file s st)
  rw [slot_markWritten_self]
  constructor <;> intros <;>
    first | rfl | assumption | exact .inl ‹_› | exact Bool.or_eq_true_iff.mpr (.inr ‹_›)

/-- An edit that leaves what was read, what was keyed, and the marks. -/
structure LeavesMarks (slot slot' : SlotState) : Prop where
  ran : slot'.ran = slot.ran
  ranHasValue : slot'.ranHasValue = slot.ranHasValue
  ranAuthored : slot'.ranAuthored = slot.ranAuthored
  changedSinceRun : slot'.changedSinceRun = slot.changedSinceRun
  touchedFlag : slot'.touchedFlag = slot.touchedFlag
  writtenFlag : slot'.writtenFlag = slot.writtenFlag
  keyedValue : slot'.keyedValue = slot.keyedValue
  keyedBits : slot'.keyedBits = slot.keyedBits
  version : slot'.array.version = slot.array.version

/-- What is not yet touched by a call keeps its value; what is touched may change it. -/
theorem keeps_left (hwritten : s < file.inputs.length → (st.slot s).writtenFlag = true)
    (hf : LeavesMarks (st.slot s) (f (st.slot s)))
    (hcurrent : (st.slot s).touchedFlag = false → (f (st.slot s)).current = (st.slot s).current)
    (hvalue : (st.slot s).touchedFlag = false → (f (st.slot s)).hasValue = (st.slot s).hasValue)
    (hauthored : (st.slot s).touchedFlag = false → file.isArraySlot s = false → s < file.listed →
      (f (st.slot s)).authored = (st.slot s).authored)
    (hlisted : (f (st.slot s)).authored = true → (st.slot s).authored = true)
    (helements : ranElements file s (f (st.slot s)) = ranElements file s (st.slot s)) :
    Keeps file st (st.update s f) := by
  refine keeps_of_edits ?_ (edits_update hf.touchedFlag hf.writtenFlag)
  rw [slot_update_self]
  exact
    { ran := hf.ran
      ranHasValue := hf.ranHasValue
      ranAuthored := hf.ranAuthored
      changedSinceRun := hf.changedSinceRun
      version := hf.version
      elements := fun _ => helements
      touched := fun h => hf.touchedFlag.trans h
      current := fun h => hcurrent (hf.touchedFlag.symm.trans h)
      hasValue := fun h => hvalue (hf.touchedFlag.symm.trans h)
      authored := fun h => hauthored (hf.touchedFlag.symm.trans h)
      listed := fun h => .inl (hlisted h)
      keyedValue := hf.keyedValue
      keyedBits := hf.keyedBits
      written := fun h => hf.writtenFlag.trans h
      view := fun hs h => by
        rw [hf.writtenFlag, hwritten hs] at h
        exact Bool.noConfusion h
      touchedWritten := fun _ h => .inl (hf.touchedFlag.symm.trans h) }

theorem keeps_touched (hwritten : s < file.inputs.length → (st.slot s).writtenFlag = true)
    (hflag : (st.slot s).touchedFlag = true) (hf : LeavesMarks (st.slot s) (f (st.slot s)))
    (hran : (f (st.slot s)).array.ran = (st.slot s).array.ran)
    (hheld : (f (st.slot s)).array.ranHeld = (st.slot s).array.ranHeld)
    (hlisted : (f (st.slot s)).authored = true → (st.slot s).authored = true) :
    Keeps file st (st.update s f) := by
  have hnever : (st.slot s).touchedFlag ≠ false := by
    rw [hflag]
    exact Bool.noConfusion
  refine keeps_left hwritten hf (absurd · hnever) (absurd · hnever) (absurd · hnever) hlisted ?_
  rw [ranElements, ranElements, hf.touchedFlag, hflag, hran, hheld, if_pos rfl, if_pos rfl]

theorem keeps_marked (hwritten : s < file.inputs.length → (st.slot s).writtenFlag = true)
    (hf : LeavesMarks (st.slot s) (f (st.slot s)))
    (hcurrent : (f (st.slot s)).current = (st.slot s).current)
    (hvalue : (f (st.slot s)).hasValue = (st.slot s).hasValue)
    (hauthored : file.isArraySlot s = false → s < file.listed →
      (f (st.slot s)).authored = (st.slot s).authored)
    (hlisted : (f (st.slot s)).authored = true → (st.slot s).authored = true)
    (helements : ranElements file s (f (st.slot s)) = ranElements file s (st.slot s)) :
    Keeps file st (st.update s f) :=
  keeps_left hwritten hf (fun _ => hcurrent) (fun _ => hvalue) (fun _ => hauthored) hlisted
    helements

theorem slot_storeSlot_self (value : WireValue) (has : Bool) :
    (storeSlot file s st value has).slot s =
      { st.slot s with
        current := value, hasValue := has, blocked := false, touchedFlag := true
        writtenFlag := decide (s < file.inputs.length) || (st.slot s).writtenFlag } := by
  rw [storeSlot, slot_touch_self, slot_update_self, slot_markWritten_self]

theorem edits_storeSlot (value : WireValue) (has : Bool) :
    Edits s st (storeSlot file s st value has) :=
  ((edits_markWritten file s st).trans (edits_update rfl rfl)).trans (edits_touch s _)

theorem keeps_storeSlot (hscalar : file.isArraySlot s = false) {g : SlotState → SlotState}
    (hg : LeavesMarks (st.slot s) (g (st.slot s)))
    (hlisted : (g (st.slot s)).authored = true → (st.slot s).authored = true ∨ s < file.listed)
    (value : WireValue) (has : Bool) :
    Keeps file st (storeSlot file s (st.update s g) value has) := by
  refine keeps_of_edits ?_
    ((edits_update hg.touchedFlag hg.writtenFlag).trans (edits_storeSlot value has))
  rw [slot_storeSlot_self, slot_update_self]
  exact
    { ran := hg.ran
      ranHasValue := hg.ranHasValue
      ranAuthored := hg.ranAuthored
      changedSinceRun := hg.changedSinceRun
      version := hg.version
      elements := fun harray => by rw [hscalar] at harray; exact Bool.noConfusion harray
      touched := fun _ => rfl
      current := fun h => Bool.noConfusion h
      hasValue := fun h => Bool.noConfusion h
      authored := fun h => Bool.noConfusion h
      listed := hlisted
      keyedValue := hg.keyedValue
      keyedBits := hg.keyedBits
      written := fun h => Bool.or_eq_true_iff.mpr (.inr (hg.writtenFlag.trans h))
      view := fun hs h => by
        rw [decide_eq_true hs] at h
        exact Bool.noConfusion h
      touchedWritten := fun hs _ => .inr (Bool.or_eq_true_iff.mpr (.inl (decide_eq_true hs))) }

theorem keeps_touchArray (file : InputsFile) (s : Nat) (st : InputState) :
    Keeps file st (touchArray file s st) := by
  refine (keeps_markWritten file s st).trans ?_
  unfold touchArray
  dsimp only
  split
  · exact Keeps.refl _
  · rename_i huntouched
    have hflag := eq_false_of_ne_true huntouched
    refine keeps_of_edits ?_ ((edits_update rfl rfl).trans (edits_touch s _))
    rw [slot_touch_self, slot_update_self]
    exact
      { ran := rfl
        ranHasValue := rfl
        ranAuthored := rfl
        changedSinceRun := rfl
        version := rfl
        elements := fun _ => by
          simp only [ranElements, hflag, arrayView, ArraySlot.keepRan, if_true, Bool.false_eq_true,
            if_false]
          split <;> rfl
        touched := fun _ => rfl
        current := fun h => Bool.noConfusion h
        hasValue := fun h => Bool.noConfusion h
        authored := fun h => Bool.noConfusion h
        listed := fun h => .inl h
        keyedValue := rfl
        keyedBits := rfl
        written := fun h => h
        view := fun hs h => by
          rw [writtenFlag_markWritten hs] at h
          exact Bool.noConfusion h
        touchedWritten := fun hs _ => .inr (writtenFlag_markWritten hs) }

theorem touchedFlag_touchArray :
    ((touchArray file s st).slot s).touchedFlag = true := by
  unfold touchArray
  dsimp only
  split
  · assumption
  · rw [slot_touch_self]

theorem writtenFlag_touchArray (hs : s < file.inputs.length) :
    ((touchArray file s st).slot s).writtenFlag = true := by
  unfold touchArray
  dsimp only
  split
  · exact writtenFlag_markWritten hs
  · rw [slot_touch_self, slot_update_self]
    exact writtenFlag_markWritten hs

/-! ## The calls keep it -/

theorem isArraySlot_of_type (hs : s < file.inputs.length) :
    file.isArraySlot s = (file.input s).type.isArray := by
  rw [InputsFile.isArraySlot, decide_eq_true hs, Bool.true_and]

theorem lt_of_listed (h : s < file.listed) : s < file.inputs.length :=
  Nat.lt_of_lt_of_le h (Nat.min_le_right _ _)

theorem keeps_storeSlot_setAuthored (hscalar : file.isArraySlot s = false) (authored : Bool)
    (hlisted : authored = true → s < file.listed) (value : WireValue) (has : Bool) :
    Keeps file st (storeSlot file s (setAuthored s st authored) value has) := by
  refine keeps_storeSlot (g := fun slot => { slot with authored }) hscalar ?_ ?_ value has
  · exact ⟨rfl, rfl, rfl, rfl, rfl, rfl, rfl, rfl, rfl⟩
  · exact fun h => .inr (hlisted h)

theorem keeps_inputsSet (index : Nat) (value : InputValue) (acceptNonFinite : Bool) :
    Keeps file st (inputsSet file index value acceptNonFinite st).2 := by
  unfold inputsSet
  dsimp only
  split
  · exact Keeps.refl st
  · rename_i hindex
    have hlisted := Nat.lt_of_not_le hindex
    split
    · exact Keeps.refl st
    · rename_i hscalar
      split
      · exact Keeps.refl st
      · refine keeps_storeSlot_setAuthored ?_ _ (fun _ => hlisted) _ true
        rw [isArraySlot_of_type (lt_of_listed hlisted)]
        exact eq_false_of_ne_true hscalar

theorem keeps_inputsSetToken (index : Nat) (text : String) :
    Keeps file st (inputsSetToken file index text st).2 := by
  unfold inputsSetToken
  dsimp only
  split
  · exact Keeps.refl st
  · rename_i hindex
    have hlisted := Nat.lt_of_not_le hindex
    split
    · exact Keeps.refl st
    · rename_i htoken
      refine (keeps_tokens _ (intern_grows file.paths st.tokens text)).trans
        (keeps_storeSlot_setAuthored ?_ _ (fun _ => hlisted) _ true)
      rw [isArraySlot_of_type (lt_of_listed hlisted), not_not.mp htoken]
      rfl

/-- The mark of an authored array is set: no run compares it. -/
theorem keeps_arrayAuthored (authored : Bool)
    (hwritten : s < file.inputs.length → (st.slot s).writtenFlag = true) :
    Keeps file st
      (st.update s fun slot => { slot with array := { slot.array with authored } }) := by
  refine keeps_marked hwritten ?_ rfl rfl (fun _ _ => rfl) (fun h => h) rfl
  exact ⟨rfl, rfl, rfl, rfl, rfl, rfl, rfl, rfl, rfl⟩

theorem keeps_storeArray (elements : List Bytes) (authored : Bool) :
    Keeps file st (storeArray file s elements authored st) := by
  unfold storeArray
  dsimp only
  refine (keeps_markWritten file s st).trans ?_
  split
  · exact keeps_arrayAuthored authored fun hs => writtenFlag_markWritten hs
  · refine (keeps_touchArray file s _).trans (keeps_touched (fun hs => writtenFlag_touchArray hs)
      touchedFlag_touchArray ?_ rfl rfl fun h => h)
    exact ⟨rfl, rfl, rfl, rfl, rfl, rfl, rfl, rfl, rfl⟩

theorem keeps_setArraySlot (index : Nat) (value : RuntimeArray) (authored : Bool) :
    Keeps file st (setArraySlot file index value authored st).2 := by
  unfold setArraySlot
  split
  · exact Keeps.refl st
  · exact keeps_storeArray _ _

theorem keeps_clearArray (has : Bool) : Keeps file st (clearArray file s has st) := by
  refine (keeps_touchArray file s st).trans (keeps_touched (fun hs => writtenFlag_touchArray hs)
    touchedFlag_touchArray ?_ rfl rfl fun h => h)
  exact ⟨rfl, rfl, rfl, rfl, rfl, rfl, rfl, rfl, rfl⟩

theorem writtenFlag_clearArray {has : Bool} (hs : s < file.inputs.length) :
    ((clearArray file s has st).slot s).writtenFlag = true := by
  rw [clearArray, slot_update_self]
  exact writtenFlag_touchArray hs

theorem keeps_inputsReset (index : Nat) : Keeps file st (inputsReset file index st) := by
  unfold inputsReset
  dsimp only
  refine (keeps_markWritten file index st).trans ?_
  have hwritten : index < file.inputs.length →
      ((markWritten file index st).slot index).writtenFlag = true :=
    fun hs => writtenFlag_markWritten hs
  generalize markWritten file index st = marked at hwritten ⊢
  by_cases hlisted : file.listed ≤ index
  · rw [if_pos hlisted]
    split
    · refine keeps_marked hwritten ?_ rfl rfl (fun _ hlt => absurd hlt (Nat.not_lt.mpr hlisted))
        (fun h => Bool.noConfusion h) rfl
      exact ⟨rfl, rfl, rfl, rfl, rfl, rfl, rfl, rfl, rfl⟩
    · exact Keeps.refl marked
  · have hindex := Nat.lt_of_not_le hlisted
    rw [if_neg hlisted, if_pos (lt_of_listed hindex)]
    split
    · rename_i harray
      have hmark : Keeps file marked (setAuthored index marked false) := by
        refine keeps_marked hwritten ?_ rfl rfl (fun hscalar => ?_) (fun h => Bool.noConfusion h)
          rfl
        · exact ⟨rfl, rfl, rfl, rfl, rfl, rfl, rfl, rfl, rfl⟩
        · rw [harray] at hscalar
          exact Bool.noConfusion hscalar
      split
      · exact (hmark.trans (keeps_clearArray _)).trans
          (keeps_arrayAuthored false fun hs => writtenFlag_clearArray hs)
      · refine hmark.trans (keeps_arrayAuthored false fun hs => ?_)
        rw [setAuthored, slot_update_self]
        exact hwritten hs
    · rename_i hscalar
      have hscalar := eq_false_of_ne_true hscalar
      split
      · rw [show (setAuthored index marked false).update index (fun held =>
            { held with blocked := (file.input index).sourceBlocked }) = marked.update index
              (fun slot =>
                { slot with
                  authored := false, blocked := (file.input index).sourceBlocked }) from ?_]
        · refine keeps_storeSlot hscalar ?_ ?_ _ _
          · exact ⟨rfl, rfl, rfl, rfl, rfl, rfl, rfl, rfl, rfl⟩
          · exact fun h => Bool.noConfusion h
        · simp [setAuthored, InputState.update]
      · exact keeps_storeSlot_setAuthored hscalar false (fun h => Bool.noConfusion h) _ _

theorem keeps_inputsClear (index : Nat) : Keeps file st (inputsClear file index st).2 := by
  unfold inputsClear
  dsimp only
  split
  · exact Keeps.refl st
  · split
    · exact Keeps.refl st
    · rename_i hscalar
      have hstore : Keeps file st
          (storeSlot file index (st.update index fun slot => slot) (file.input index).value
            false) := by
        refine keeps_storeSlot (eq_false_of_ne_true hscalar) ?_ (fun h => .inl h) _ _
        exact ⟨rfl, rfl, rfl, rfl, rfl, rfl, rfl, rfl, rfl⟩
      rw [show (st.update index fun slot => slot) = st by simp [InputState.update]] at hstore
      refine hstore.trans ?_
      show Keeps file _ (setAuthored index _ false)
      refine keeps_touched (fun hs => ?_) ?_ ⟨rfl, rfl, rfl, rfl, rfl, rfl, rfl, rfl, rfl⟩ rfl rfl
        (fun h => Bool.noConfusion h)
      · rw [slot_storeSlot_self, decide_eq_true hs]
        rfl
      · rw [slot_storeSlot_self]

theorem keeps_stageScalarSet (s : Nat) (value : InputValue) :
    Keeps file st (stageScalarSet file s value st).2 := by
  unfold stageScalarSet
  dsimp only
  split
  · exact Keeps.refl st
  · rename_i hsource
    split
    · exact Keeps.refl st
    · rename_i htype
      push Not at hsource htype
      refine keeps_storeSlot_setAuthored ?_ false (fun h => Bool.noConfusion h) _ true
      rw [isArraySlot_of_type hsource.1]
      exact eq_false_of_ne_true htype.1

theorem keeps_stageScalarClear (s : Nat) :
    Keeps file st (stageScalarClear file s st).2 := by
  unfold stageScalarClear
  dsimp only
  split
  · exact Keeps.refl st
  · rename_i hsource
    push Not at hsource
    refine keeps_storeSlot_setAuthored ?_ false (fun h => Bool.noConfusion h) _ false
    rw [isArraySlot_of_type hsource.1]
    exact eq_false_of_ne_true hsource.2.2

theorem keeps_stageArraySet (s : Nat) (value : RuntimeArray) :
    Keeps file st (stageArraySet file s value st).2 := by
  unfold stageArraySet
  split
  · exact Keeps.refl st
  · exact keeps_setArraySlot s value false

theorem keeps_stageTokenArraySet (s : Nat) (texts : List String) :
    Keeps file st (stageTokenArraySet file s texts st).2 := by
  unfold stageTokenArraySet
  split
  · exact Keeps.refl st
  · exact (keeps_tokens _ (internAll_grows file.paths texts st.tokens)).trans
      (keeps_stageArraySet s _)

theorem keeps_stageArrayClear (s : Nat) : Keeps file st (stageArrayClear file s st).2 := by
  unfold stageArrayClear
  dsimp only
  split
  · exact Keeps.refl st
  · refine (keeps_markWritten file s st).trans ?_
    split
    · exact (keeps_clearArray false).trans
        (keeps_arrayAuthored false fun hs => writtenFlag_clearArray hs)
    · exact Keeps.refl _

theorem keeps_stageTokenSet (s : Nat) (text : String) (hasValue : Bool) :
    Keeps file st (stageTokenSet file s text hasValue st).2 := by
  unfold stageTokenSet
  dsimp only
  split
  · exact Keeps.refl st
  · rename_i hstage
    push Not at hstage
    have htoken := eq_true_of_ne_false hstage.2
    rw [InputSlot.stageToken, Bool.and_eq_true, Bool.and_eq_true, beq_iff_eq] at htoken
    refine (keeps_tokens _ ?_).trans
      (keeps_storeSlot_setAuthored ?_ false (fun h => Bool.noConfusion h) _ _)
    · split
      · exact intern_grows file.paths st.tokens text
      · exact List.prefix_refl _
    rw [isArraySlot_of_type hstage.1, htoken.1.2]
    rfl

theorem keeps_stageInputBlockedSet (s : Nat) (blocked : Bool) :
    Keeps file st (stageInputBlockedSet file s blocked st).2 := by
  unfold stageInputBlockedSet
  split
  · exact Keeps.refl st
  · refine (keeps_markWritten file s st).trans ?_
    show Keeps file _ ((markWritten file s st).update s fun slot => { slot with blocked })
    refine keeps_marked (fun hs => writtenFlag_markWritten hs) ?_ rfl rfl (fun _ _ => rfl)
      (fun h => h) rfl
    exact ⟨rfl, rfl, rfl, rfl, rfl, rfl, rfl, rfl, rfl⟩

/-- **Step lemma.**  A call keeps what the last run read, and every slot it does not touch. -/
theorem keeps_run (call : Call) : Keeps file st (call.run file st).2 := by
  cases call with
  | set index value acceptNonFinite => exact keeps_inputsSet index value acceptNonFinite
  | setArray index value authored =>
      show Keeps file st (inputsSetArray file index value authored st).2
      unfold inputsSetArray
      split
      · exact Keeps.refl st
      · exact keeps_setArraySlot index value authored
  | setToken index text => exact keeps_inputsSetToken index text
  | reset index => exact keeps_inputsReset index
  | clear index => exact keeps_inputsClear index
  | stageScalarSet s value => exact keeps_stageScalarSet s value
  | stageScalarClear s => exact keeps_stageScalarClear s
  | stageArraySet s value => exact keeps_stageArraySet s value
  | stageTokenArraySet s texts => exact keeps_stageTokenArraySet s texts
  | stageArrayClear s => exact keeps_stageArrayClear s
  | stageTokenSet s text hasValue => exact keeps_stageTokenSet s text hasValue
  | stageInputBlockedSet s blocked => exact keeps_stageInputBlockedSet s blocked

/-- **Run lemma.** -/
theorem keeps_runCalls (calls : List Call) (st : InputState) :
    Keeps file st (runCalls file calls st) := by
  induction calls generalizing st with
  | nil => exact Keeps.refl st
  | cons call calls ih => exact (keeps_run call).trans (ih (call.run file st).2)

/-! ## Calls that fail -/

/-- A call that fails leaves the state; it may have interned token text. -/
def FailsClean (st : InputState) (out : Outcome) : Prop :=
  out.1 ≠ none → { out.2 with tokens := st.tokens } = st

theorem failsClean_error (message : String) (tokens : TokenTable) :
    FailsClean st (some message, { st with tokens }) :=
  fun _ => rfl

theorem failsClean_ok (st' : InputState) : FailsClean st (none, st') :=
  fun h => absurd rfl h

/-- A check made first. -/
theorem failsClean_check {c : Prop} [Decidable c] {message : String} {tokens : TokenTable}
    {rest : Outcome} (hrest : FailsClean st rest) :
    FailsClean st (if c then (some message, { st with tokens }) else rest) := by
  split
  · exact failsClean_error message tokens
  · exact hrest

theorem failsClean_setArraySlot (index : Nat) (value : RuntimeArray) (authored : Bool)
    (tokens : TokenTable) :
    FailsClean st (setArraySlot file index value authored { st with tokens }) := by
  unfold setArraySlot
  split
  · exact failsClean_error _ tokens
  · exact failsClean_ok _

theorem failsClean_stageArraySet (s : Nat) (value : RuntimeArray) (tokens : TokenTable) :
    FailsClean st (stageArraySet file s value { st with tokens }) := by
  unfold stageArraySet
  exact failsClean_check (failsClean_setArraySlot s value false tokens)

theorem failsClean_inputsSet (index : Nat) (value : InputValue) (acceptNonFinite : Bool) :
    FailsClean st (inputsSet file index value acceptNonFinite st) := by
  unfold inputsSet
  refine failsClean_check (failsClean_check ?_)
  split
  · exact failsClean_error _ st.tokens
  · exact failsClean_ok _

theorem failsClean_run (call : Call) : FailsClean st (call.run file st) := by
  cases call with
  | set index value acceptNonFinite => exact failsClean_inputsSet index value acceptNonFinite
  | setArray index value authored =>
      show FailsClean st (inputsSetArray file index value authored st)
      unfold inputsSetArray
      exact failsClean_check (failsClean_setArraySlot index value authored st.tokens)
  | setToken index text =>
      show FailsClean st (inputsSetToken file index text st)
      unfold inputsSetToken
      exact failsClean_check (failsClean_check (failsClean_ok _))
  | reset index => exact failsClean_ok _
  | clear index =>
      show FailsClean st (inputsClear file index st)
      unfold inputsClear
      exact failsClean_check (failsClean_check (failsClean_ok _))
  | stageScalarSet s value =>
      show FailsClean st (stageScalarSet file s value st)
      unfold stageScalarSet
      exact failsClean_check (failsClean_check (failsClean_ok _))
  | stageScalarClear s =>
      show FailsClean st (stageScalarClear file s st)
      unfold stageScalarClear
      exact failsClean_check (failsClean_ok _)
  | stageArraySet s value => exact failsClean_stageArraySet s value st.tokens
  | stageTokenArraySet s texts =>
      show FailsClean st (stageTokenArraySet file s texts st)
      unfold stageTokenArraySet
      exact failsClean_check (failsClean_stageArraySet s _ _)
  | stageArrayClear s =>
      show FailsClean st (stageArrayClear file s st)
      unfold stageArrayClear
      refine failsClean_check ?_
      dsimp only
      split <;> exact failsClean_ok _
  | stageTokenSet s text hasValue =>
      show FailsClean st (stageTokenSet file s text hasValue st)
      unfold stageTokenSet
      exact failsClean_check (failsClean_ok _)
  | stageInputBlockedSet s blocked =>
      show FailsClean st (stageInputBlockedSet file s blocked st)
      unfold stageInputBlockedSet
      exact failsClean_check (failsClean_ok _)

end RigExec.Inputs
