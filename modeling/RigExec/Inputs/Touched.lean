/-
# `RigExec.Inputs.Touched` — what a run makes of the touched slots

A run compares the slots that were touched with what the last one read.  The comparison rewrites
each touched slot by what that slot holds (`appliedSlot`), so the flags of a run are read off the
slots one by one; an override number is set from the whole of its walk, by whatever slot of it was
touched.

    Settled        no slot is touched: what was read is what the slots hold
    Moved          a slot holds other than the last run read
    WalkDiffers    an override number has a slot that is authored or not at its default
-/
import RigExec.Inputs.Calls
import RigExec.Lib.Pointwise

namespace RigExec.Inputs

open Lib (Bytes)

variable {file : InputsFile} {s t number : Nat} {st st' prev : InputState} {changed : Bool}

/-! ## Value bits -/

/-- The member of a value that its tag names. -/
inductive ValueBits where
  | matrix (v : Vector (BitVec 64) 16)
  | vec3d (v : Vector (BitVec 64) 3)
  | vec3i (v : Vector (BitVec 32) 3)
  | vec3f (v : Vector (BitVec 32) 3)
  | bits (v : BitVec 64)
deriving DecidableEq

/-- The bits of a value: its tag, and the member that the tag names. -/
def WireValue.valueBits (v : WireValue) : InputTag × ValueBits :=
  (v.tag,
    match v.tag with
    | .matrix4d => .matrix v.matrix
    | .vec3d => .vec3d v.vec3d
    | .vec3i => .vec3i v.vec3i
    | .vec3f => .vec3f v.vec3f
    | _ => .bits v.bits)

theorem sameValueBits_iff (a b : WireValue) :
    sameValueBits a b = true ↔ a.valueBits = b.valueBits := by
  unfold sameValueBits WireValue.valueBits
  split
  · rename_i htag
    exact ⟨fun h => Bool.noConfusion h, fun h => absurd (congrArg Prod.fst h) htag⟩
  · rename_i htag
    rw [← not_not.mp htag]
    cases a.tag <;> simp

theorem not_sameValueBits (a b : WireValue) :
    (!sameValueBits a b) = decide (a.valueBits ≠ b.valueBits) := by
  rw [Bool.eq_iff_iff, Bool.not_eq_true', decide_eq_true_iff, ← Bool.not_eq_true,
    sameValueBits_iff]

/-! ## Walks -/

/-- A slot of the walk of an override number. -/
def InWalk (file : InputsFile) (number s : Nat) : Prop :=
  ∃ read ∈ file.registeredReads, read.overrideIndex = (number : Int) ∧ s ∈ read.walk

theorem mem_reach : (s, number) ∈ file.reach ↔ InWalk file number s := by
  rw [InputsFile.reach, List.mem_flatMap]
  constructor
  · rintro ⟨read, hread, hmem⟩
    split at hmem
    · rename_i hindex
      obtain ⟨t, ht, heq⟩ := List.mem_map.mp hmem
      obtain ⟨rfl, hnumber⟩ := Prod.mk.inj heq
      exact ⟨read, hread, by omega, ht⟩
    · exact absurd hmem List.not_mem_nil
  · rintro ⟨read, hread, hindex, hs⟩
    refine ⟨read, hread, ?_⟩
    rw [if_pos (by omega)]
    exact List.mem_map.mpr ⟨s, hs, Prod.ext rfl (by simp only [hindex, Int.toNat_natCast])⟩

theorem mem_slotOverrides : number ∈ file.slotOverrides s ↔ InWalk file number s := by
  rw [InputsFile.slotOverrides, Lib.mem_sortUnique, List.mem_map, ← mem_reach]
  constructor
  · rintro ⟨entry, hentry, rfl⟩
    obtain ⟨hmem, hslot⟩ := List.mem_filter.mp hentry
    rw [← of_decide_eq_true hslot]
    exact hmem
  · intro hmem
    exact ⟨(s, number), List.mem_filter.mpr ⟨hmem, decide_eq_true rfl⟩, rfl⟩

theorem mem_overrideSlots : s ∈ file.overrideSlots number ↔ InWalk file number s := by
  rw [InputsFile.overrideSlots, Lib.mem_sortUnique, List.mem_map, ← mem_reach]
  constructor
  · rintro ⟨entry, hentry, rfl⟩
    obtain ⟨hmem, hnumber⟩ := List.mem_filter.mp hentry
    rw [← of_decide_eq_true hnumber]
    exact hmem
  · intro hmem
    exact ⟨(s, number), List.mem_filter.mpr ⟨hmem, decide_eq_true rfl⟩, rfl⟩

theorem le_foldl_max {l : List Nat} {m n : Nat} (h : m ∈ l ∨ m ≤ n) : m ≤ l.foldl max n := by
  induction l generalizing n with
  | nil =>
      rcases h with hmem | hle
      · exact absurd hmem List.not_mem_nil
      · exact hle
  | cons a l ih =>
      rw [List.foldl_cons]
      apply ih
      rcases h with hmem | hle
      · rcases List.mem_cons.mp hmem with rfl | hmem
        · exact .inr (Nat.le_max_right n m)
        · exact .inl hmem
      · exact .inr (Nat.le_trans hle (Nat.le_max_left n a))

theorem InWalk.lt_overrideNumbers (h : InWalk file number s) : number < file.overrideNumbers :=
  le_foldl_max (.inl (List.mem_map.mpr ⟨(s, number), mem_reach.mpr h, rfl⟩))

theorem InWalk.scalar (h : InWalk file number s) : file.isArraySlot s = false := by
  obtain ⟨read, hread, hindex, hs⟩ := h
  obtain ⟨slot, hslot, hscalar⟩ := file.scalarWalk read hread (by omega) s hs
  rw [InputsFile.isArraySlot, InputsFile.input, hslot, Option.getD_some, hscalar, Bool.and_false]

/-- Some slot of the walk is authored with a value, or differs from its default. -/
def WalkDiffers (file : InputsFile) (st : InputState) (number : Nat) : Prop :=
  ∃ s, InWalk file number s ∧
    (((st.slot s).authored = true ∧ (st.slot s).hasValue = true) ∨
      (st.slot s).hasValue ≠ (file.input s).defaultHasValue ∨
      (st.slot s).current.valueBits ≠ (file.input s).value.valueBits)

theorem walkDiffers_iff : walkDiffers file st number = true ↔ WalkDiffers file st number := by
  unfold walkDiffers WalkDiffers slotDiffersFromDefault
  rw [List.any_eq_true]
  refine exists_congr fun s => and_congr mem_overrideSlots ?_
  rw [Bool.or_eq_true, Bool.and_eq_true, Bool.or_eq_true, bne_iff_ne, not_sameValueBits,
    decide_eq_true_iff]

theorem walkDiffers_congr
    (h : ∀ s, InWalk file number s → (st'.slot s).current = (st.slot s).current ∧
      (st'.slot s).hasValue = (st.slot s).hasValue ∧
      (st'.slot s).authored = (st.slot s).authored) :
    walkDiffers file st' number = walkDiffers file st number := by
  rw [Bool.eq_iff_iff, walkDiffers_iff, walkDiffers_iff]
  refine exists_congr fun s => and_congr_right fun hs => ?_
  obtain ⟨hcurrent, hvalue, hauthored⟩ := h s hs
  rw [hcurrent, hvalue, hauthored]

/-! ## One touched slot -/

/-- What the comparison leaves of a touched slot. -/
def appliedSlot (file : InputsFile) (s : Nat) (slot : SlotState) : SlotState :=
  if file.isArraySlot s then appliedArray file s { slot with touchedFlag := false }
  else appliedScalar { slot with touchedFlag := false }

@[simp] theorem slot_record : (record changed s st).slot = st.slot := by
  unfold record
  split <;> rfl

@[simp] theorem slot_noteAnimated : (noteAnimated file s st).slot = st.slot := by
  unfold noteAnimated
  split <;> rfl

@[simp] theorem valueOverridden_record :
    (record changed s st).valueOverridden = st.valueOverridden := by
  unfold record
  split <;> rfl

@[simp] theorem valueOverridden_noteAnimated :
    (noteAnimated file s st).valueOverridden = st.valueOverridden := by
  unfold noteAnimated
  split <;> rfl

@[simp] theorem changedSlots_noteAnimated :
    (noteAnimated file s st).changedSlots = st.changedSlots := by
  unfold noteAnimated
  split <;> rfl

theorem changedSlots_record : (record changed s st).changedSlots =
    if changed then st.changedSlots ++ [s] else st.changedSlots := by
  unfold record
  split <;> rfl

theorem slot_raiseOverride : (raiseOverride file changed st number).slot = st.slot := by
  unfold raiseOverride
  dsimp only
  split <;> split <;> rfl

theorem changedSlots_raiseOverride :
    (raiseOverride file changed st number).changedSlots = st.changedSlots := by
  unfold raiseOverride
  dsimp only
  split <;> split <;> rfl

theorem slot_foldl_raise (numbers : List Nat) :
    (numbers.foldl (raiseOverride file changed) st).slot = st.slot :=
  Lib.foldl_frame (fun _ _ => slot_raiseOverride) numbers st

theorem changedSlots_foldl_raise (numbers : List Nat) :
    (numbers.foldl (raiseOverride file changed) st).changedSlots = st.changedSlots :=
  Lib.foldl_frame (fun _ _ => changedSlots_raiseOverride) numbers st

theorem walkDiffers_of_slot (h : st'.slot = st.slot) :
    walkDiffers file st' number = walkDiffers file st number := by
  refine walkDiffers_congr fun s _ => ?_
  rw [h]
  exact ⟨rfl, rfl, rfl⟩

theorem valueOverridden_raiseOverride {first : Nat} (hnumber : number < file.overrideCount) :
    (raiseOverride file changed st first).valueOverridden number =
      if number = first ∧ number < file.overrideNumbers then walkDiffers file st number
      else st.valueOverridden number := by
  unfold raiseOverride
  dsimp only
  generalize hmarked : (if changed = true ∧ first < file.overrideCount then _ else st :
    InputState) = marked
  have hslot : marked.slot = st.slot := by
    rw [← hmarked]
    split <;> rfl
  have hvalues : marked.valueOverridden = st.valueOverridden := by
    rw [← hmarked]
    split <;> rfl
  by_cases hraised : number = first ∧ number < file.overrideNumbers
  · rw [if_pos hraised, if_neg (by omega), ← hraised.1]
    show Function.update _ _ _ number = _
    rw [Function.update_self, walkDiffers_of_slot hslot]
  · rw [if_neg hraised]
    split
    · rw [hvalues]
    · rename_i hreached
      have hne : number ≠ first := fun heq => hraised ⟨heq, by omega⟩
      show Function.update _ _ _ number = _
      rw [Function.update_of_ne hne, hvalues]

theorem valueOverridden_foldl_raise (numbers : List Nat) (hnumber : number < file.overrideCount) :
    (numbers.foldl (raiseOverride file changed) st).valueOverridden number =
      if number ∈ numbers ∧ number < file.overrideNumbers then walkDiffers file st number
      else st.valueOverridden number := by
  induction numbers generalizing st with
  | nil => rw [if_neg fun h => absurd h.1 List.not_mem_nil]; rfl
  | cons first numbers ih =>
      rw [List.foldl_cons, ih, walkDiffers_of_slot slot_raiseOverride,
        valueOverridden_raiseOverride hnumber]
      by_cases hmem : number ∈ numbers
      · simp only [List.mem_cons, hmem, or_true, true_and]
        split
        · rfl
        · rename_i hpast
          rw [if_neg fun h => hpast h.2]
      · simp only [List.mem_cons, hmem, or_false, false_and, if_false]

theorem slot_applyArray : (applyArray file s st).slot = (st.update s (appliedArray file s)).slot :=
  slot_record

theorem slot_applyScalar : (applyScalar file s st).slot = (st.update s appliedScalar).slot := by
  rw [applyScalar, slot_foldl_raise, slot_record, slot_noteAnimated]

theorem rewrites_applySlot (file : InputsFile) :
    Lib.Rewrites InputState.slot (applySlot file) (appliedSlot file) where
  here st s := by
    unfold applySlot appliedSlot
    dsimp only
    split
    · rw [slot_applyArray, slot_update_self, slot_update_self]
    · rw [slot_applyScalar, slot_update_self, slot_update_self]
  others st s t h := by
    unfold applySlot
    dsimp only
    split
    · rw [slot_applyArray, slot_update_of_ne h, slot_update_of_ne h]
    · rw [slot_applyScalar, slot_update_of_ne h, slot_update_of_ne h]

/-- The comparison leaves what reads see. -/
structure SameView (slot slot' : SlotState) : Prop where
  current : slot'.current = slot.current
  hasValue : slot'.hasValue = slot.hasValue
  authored : slot'.authored = slot.authored
  held : slot'.array.held = slot.array.held
  holdsSet : slot'.array.holdsSet = slot.array.holdsSet

theorem sameView_appliedSlot (file : InputsFile) (s : Nat) (slot : SlotState) :
    SameView slot (appliedSlot file s slot) := by
  unfold appliedSlot
  split
  · exact ⟨rfl, rfl, rfl, rfl, rfl⟩
  · unfold appliedScalar
    split <;> exact ⟨rfl, rfl, rfl, rfl, rfl⟩

theorem SameView.arrayView {slot slot' : SlotState} (h : SameView slot slot') :
    arrayView file s slot' = arrayView file s slot := by
  rw [Inputs.arrayView, Inputs.arrayView, h.holdsSet, h.held]

theorem valueOverridden_applySlot (hnumber : number < file.overrideCount) :
    (applySlot file st s).valueOverridden number = walkDiffers file st number ∨
      ((applySlot file st s).valueOverridden number = st.valueOverridden number ∧
        ¬ InWalk file number s) := by
  unfold applySlot
  dsimp only
  split
  · rename_i harray
    refine .inr ⟨by rw [applyArray, valueOverridden_record]; rfl, fun hwalk => ?_⟩
    rw [hwalk.scalar] at harray
    exact Bool.noConfusion harray
  · unfold applyScalar
    by_cases hwalk : InWalk file number s
    · refine .inl ?_
      rw [valueOverridden_foldl_raise _ hnumber,
        if_pos ⟨mem_slotOverrides.mpr hwalk, hwalk.lt_overrideNumbers⟩]
      refine walkDiffers_congr fun t _ => ?_
      rw [slot_record, slot_noteAnimated]
      by_cases h : t = s
      · rw [h, slot_update_self, slot_update_self]
        unfold appliedScalar
        split <;> exact ⟨rfl, rfl, rfl⟩
      · rw [slot_update_of_ne h, slot_update_of_ne h]
        exact ⟨rfl, rfl, rfl⟩
    · refine .inr ⟨?_, hwalk⟩
      rw [valueOverridden_foldl_raise _ hnumber, if_neg fun h => hwalk (mem_slotOverrides.mp h.1),
        valueOverridden_record, valueOverridden_noteAnimated]
      rfl

/-! ## The touched slots -/

theorem walkDiffers_applySlot :
    walkDiffers file (applySlot file st s) number = walkDiffers file st number := by
  refine walkDiffers_congr fun t _ => ?_
  by_cases h : t = s
  · rw [h, (rewrites_applySlot file).here]
    have hview := sameView_appliedSlot file s (st.slot s)
    exact ⟨hview.current, hview.hasValue, hview.authored⟩
  · rw [(rewrites_applySlot file).others st s t h]
    exact ⟨rfl, rfl, rfl⟩

theorem valueOverridden_foldl_applySlot (hnumber : number < file.overrideCount) (l : List Nat)
    (st : InputState) :
    (l.foldl (applySlot file) st).valueOverridden number = walkDiffers file st number ∨
      ((l.foldl (applySlot file) st).valueOverridden number = st.valueOverridden number ∧
        ∀ s ∈ l, ¬ InWalk file number s) := by
  induction l generalizing st with
  | nil => exact .inr ⟨rfl, fun s hs => absurd hs List.not_mem_nil⟩
  | cons s l ih =>
      rw [List.foldl_cons]
      rcases ih (applySlot file st s) with hwalk | ⟨hsame, hlater⟩
      · exact .inl (hwalk.trans walkDiffers_applySlot)
      · rcases @valueOverridden_applySlot file s number st hnumber with hwalk | ⟨hkept, hs⟩
        · exact .inl (hsame.trans hwalk)
        · refine .inr ⟨hsame.trans hkept, fun t ht => ?_⟩
          rcases List.mem_cons.mp ht with rfl | ht
          · exact hs
          · exact hlater t ht

/-- The flagged slots are listed. -/
def FlagsListed (st : InputState) : Prop :=
  ∀ s, (st.slot s).changedSinceRun = true → s ∈ st.changedSlots

/-- Whether a slot moved against what the last run read. -/
def slotChanged (file : InputsFile) (s : Nat) (slot : SlotState) : Bool :=
  if file.isArraySlot s then arrayChanged file s slot else scalarChanged slot

theorem changedSinceRun_appliedSlot (file : InputsFile) (s : Nat) (slot : SlotState) :
    (appliedSlot file s slot).changedSinceRun =
      (slotChanged file s slot || slot.changedSinceRun) := by
  unfold appliedSlot slotChanged
  split
  · rfl
  · unfold appliedScalar
    split
    · rename_i hchanged
      rw [show scalarChanged slot = true from hchanged, Bool.true_or]
    · rename_i hchanged
      rw [show scalarChanged slot = false from eq_false_of_ne_true hchanged, Bool.false_or]

theorem changedSlots_applySlot : (applySlot file st s).changedSlots =
    if slotChanged file s (st.slot s) then st.changedSlots ++ [s] else st.changedSlots := by
  unfold applySlot slotChanged
  dsimp only
  split
  · rw [applyArray, changedSlots_record, slot_update_self]
    rfl
  · rw [applyScalar, changedSlots_foldl_raise, changedSlots_record, changedSlots_noteAnimated,
      slot_update_self]
    rfl

theorem flagsListed_applySlot (h : FlagsListed st) : FlagsListed (applySlot file st s) := by
  intro t ht
  rw [changedSlots_applySlot]
  by_cases heq : t = s
  · rw [heq, (rewrites_applySlot file).here, changedSinceRun_appliedSlot, Bool.or_eq_true] at ht
    rcases ht with hchanged | hbefore
    · rw [if_pos hchanged, heq]
      exact List.mem_append_right _ List.mem_cons_self
    · split
      · exact List.mem_append_left [s] (heq ▸ h s hbefore)
      · exact heq ▸ h s hbefore
  · rw [(rewrites_applySlot file).others st s t heq] at ht
    split
    · exact List.mem_append_left [s] (h t ht)
    · exact h t ht

theorem flagsListed_foldl_applySlot (l : List Nat) (h : FlagsListed st) :
    FlagsListed (l.foldl (applySlot file) st) := by
  induction l generalizing st with
  | nil => exact h
  | cons s l ih => exact ih (flagsListed_applySlot h)

end RigExec.Inputs
