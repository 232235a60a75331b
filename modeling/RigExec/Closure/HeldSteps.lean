/-
# `RigExec.Closure.HeldSteps` — the steps that hold output

An epilogue visits the steps whose output is not empty.  The list of them may repeat a step and may
name one that was released; a flag says that it does not, and is kept across appends by a look at
the last entry.  While the flag stands no step was released since the list was tidy (`Exact.tidy`),
so every order of notes and reads ends with the holding steps, each once and in step order.

    `flags`   the mark of a step is what its last note said
    `listed`  a holding step is in the list
    `tidy`    under the flag the list ascends and names holding steps only
-/
import RigExec.OpGraph.Plans
import RigExec.Lib.SortedList

namespace RigExec.Closure

open OpGraph (flagAt flagAt_eq_true flagAt_set)
open Lib (Ascending sortUnique)

/-! ## The list -/

structure HeldSteps where
  holding : List Bool := []
  held : List Nat := []
  ascending : Bool := true

namespace HeldSteps

def reset (count : Nat) : HeldSteps := { holding := List.replicate count false }

/-- `held.empty() || held.back() < step`. -/
def backBelow (held : List Nat) (step : Nat) : Bool :=
  match held.getLast? with
  | none => true
  | some back => decide (back < step)

/-- `Note`; a step past the ones that were reset is no step of the program. -/
def note (step : Nat) (holds : Bool) (st : HeldSteps) : Option HeldSteps :=
  match st.holding[step]? with
  | none => none
  | some was =>
      if was = holds then some st
      else if holds then
        some
          { holding := st.holding.set step true
            held := st.held ++ [step]
            ascending := st.ascending && backBelow st.held step }
      else some { st with holding := st.holding.set step false, ascending := false }

/-- `Ascending`: what was released is erased, and the rest is sorted and made unique. -/
def tidied (st : HeldSteps) : HeldSteps :=
  if st.ascending then st
  else
    { st with
      held := sortUnique (st.held.filter fun step => flagAt st.holding step)
      ascending := true }

end HeldSteps

/-! ## Calls -/

/-- A call of the list. -/
inductive HeldCall where
  | reset (count : Nat)
  | note (step : Nat) (holds : Bool)
  | ascending

/-- A call, on the list as it stands. -/
def HeldCall.run (st : HeldSteps) : HeldCall → Option HeldSteps
  | .reset count => some (HeldSteps.reset count)
  | .note step holds => st.note step holds
  | .ascending => some st.tidied

/-- Calls, one after another. -/
def runHeld (calls : List HeldCall) (st : HeldSteps) : Option HeldSteps :=
  calls.foldlM HeldCall.run st

/-- What the last note of a step has said, after one more call. -/
def heard (step : Nat) (last : Option Bool) : HeldCall → Option Bool
  | .reset _ => none
  | .note noted holds => if noted = step then some holds else last
  | .ascending => last

/-- What the last note of a step has said, since the last reset. -/
def lastNote (calls : List HeldCall) (step : Nat) : Option Bool := calls.foldl (heard step) none

/-! ## The invariant -/

/-- The list, against what the notes have said. -/
structure HeldExact (said : Nat → Option Bool) (st : HeldSteps) : Prop where
  flags : ∀ step, flagAt st.holding step = true ↔ said step = some true
  listed : ∀ step, flagAt st.holding step = true → step ∈ st.held
  tidy : st.ascending = true →
    Ascending st.held ∧ ∀ step ∈ st.held, flagAt st.holding step = true

theorem flagAt_clear {flags : List Bool} {i j : Nat} :
    flagAt (flags.set i false) j = true ↔ i ≠ j ∧ flagAt flags j = true := by
  rw [flagAt_eq_true, flagAt_eq_true, List.getElem?_set]
  by_cases heq : i = j
  · rw [if_pos heq]
    refine iff_of_false ?_ fun h => h.1 heq
    split <;> simp
  · rw [if_neg heq]
    exact (and_iff_right heq).symm

theorem ascending_append {held : List Nat} {step : Nat} (h : Ascending held)
    (hback : HeldSteps.backBelow held step = true) : Ascending (held ++ [step]) := by
  refine List.pairwise_append.mpr ⟨h, List.pairwise_singleton _ _, fun other hother b hb => ?_⟩
  rw [List.mem_singleton.mp hb]
  cases hlast : held.getLast? with
  | none =>
      rw [List.getLast?_eq_none_iff.mp hlast] at hother
      exact absurd hother List.not_mem_nil
  | some back =>
      have hbelow : back < step := by
        rw [HeldSteps.backBelow, hlast] at hback
        exact of_decide_eq_true hback
      obtain ⟨front, rfl⟩ := List.getLast?_eq_some_iff.mp hlast
      rcases List.mem_append.mp hother with hfront | heq
      · have hbefore := (List.pairwise_append.mp h).2.2 other hfront back List.mem_cons_self
        exact hbefore.trans hbelow
      · rw [List.mem_singleton.mp heq]
        exact hbelow

/-! ## What a call keeps -/

variable {said : Nat → Option Bool} {st st' : HeldSteps} {step : Nat}

theorem heldExact_reset (count : Nat) : HeldExact (fun _ => none) (HeldSteps.reset count) := by
  have hclear : ∀ step, flagAt (HeldSteps.reset count).holding step ≠ true := by
    intro step hflag
    rw [flagAt_eq_true] at hflag
    exact Bool.noConfusion (List.eq_of_mem_replicate (List.mem_of_getElem? hflag))
  exact
    { flags := fun step => iff_of_false (hclear step) fun hsaid => by cases hsaid
      listed := fun step hflag => absurd hflag (hclear step)
      tidy := fun _ => ⟨List.Pairwise.nil, fun step hmem => absurd hmem List.not_mem_nil⟩ }

theorem HeldExact.hold (h : HeldExact said st) (hwas : st.holding[step]? = some false) :
    HeldExact (fun other => if step = other then some true else said other)
      { holding := st.holding.set step true
        held := st.held ++ [step]
        ascending := st.ascending && HeldSteps.backBelow st.held step } where
  flags other := by
    show flagAt (st.holding.set step true) other = true ↔ _
    rw [flagAt_set]
    by_cases heq : step = other
    · rw [if_pos heq]
      exact iff_of_true (.inr ⟨heq, (List.getElem?_eq_some_iff.mp hwas).1⟩) rfl
    · rw [if_neg heq]
      exact (or_iff_left fun hset => heq hset.1).trans (h.flags other)
  listed other hflag := by
    rcases flagAt_set.mp hflag with hbefore | hset
    · exact List.mem_append_left _ (h.listed other hbefore)
    · exact List.mem_append_right _ (List.mem_singleton.mpr hset.1.symm)
  tidy hascending := by
    obtain ⟨hbefore, hback⟩ := (Bool.and_eq_true _ _).mp hascending
    obtain ⟨hsorted, hholding⟩ := h.tidy hbefore
    refine ⟨ascending_append hsorted hback, fun other hother => flagAt_set.mpr ?_⟩
    rcases List.mem_append.mp hother with hheld | heq
    · exact .inl (hholding other hheld)
    · exact .inr ⟨(List.mem_singleton.mp heq).symm, (List.getElem?_eq_some_iff.mp hwas).1⟩

theorem HeldExact.release (h : HeldExact said st) :
    HeldExact (fun other => if step = other then some false else said other)
      { st with holding := st.holding.set step false, ascending := false } where
  flags other := by
    show flagAt (st.holding.set step false) other = true ↔ _
    rw [flagAt_clear]
    by_cases heq : step = other
    · rw [if_pos heq]
      exact iff_of_false (fun hflag => hflag.1 heq) fun hsaid => by cases hsaid
    · rw [if_neg heq]
      exact (and_iff_right heq).trans (h.flags other)
  listed other hflag := h.listed other (flagAt_clear.mp hflag).2
  tidy hascending := Bool.noConfusion hascending

theorem HeldExact.note {holds : Bool} (h : HeldExact said st)
    (hnote : st.note step holds = some st') :
    HeldExact (fun other => if step = other then some holds else said other) st' := by
  unfold HeldSteps.note at hnote
  cases hwas : st.holding[step]? with
  | none =>
      rw [hwas] at hnote
      cases hnote
  | some was =>
      rw [hwas] at hnote
      dsimp only at hnote
      split at hnote
      · rename_i hsame
        cases hnote
        refine ⟨fun other => ?_, h.listed, h.tidy⟩
        by_cases heq : step = other
        · rw [if_pos heq, ← heq, flagAt_eq_true, hwas, hsame]
        · rw [if_neg heq]
          exact h.flags other
      · rename_i hmoved
        cases holds with
        | true =>
            cases hnote
            exact h.hold (hwas.trans (congrArg some (eq_false_of_ne_true hmoved)))
        | false =>
            cases hnote
            exact h.release

theorem HeldExact.tidied (h : HeldExact said st) :
    HeldExact said st.tidied ∧ st.tidied.ascending = true := by
  unfold HeldSteps.tidied
  split
  · rename_i hascending
    exact ⟨h, hascending⟩
  · have hmem : ∀ step, step ∈ sortUnique (st.held.filter fun step => flagAt st.holding step) ↔
        flagAt st.holding step = true := by
      intro step
      rw [Lib.mem_sortUnique, List.mem_filter]
      exact and_iff_right_of_imp (h.listed step)
    refine ⟨⟨h.flags, fun step hflag => (hmem step).mpr hflag, fun _ => ⟨?_, ?_⟩⟩, rfl⟩
    · exact Lib.ascending_sortUnique _
    · exact fun step hstep => (hmem step).mp hstep

/-- **Step lemma.** -/
theorem HeldExact.call {call : HeldCall} (h : HeldExact said st) (hcall : call.run st = some st') :
    HeldExact (fun step => heard step (said step) call) st' := by
  cases call with
  | reset count =>
      cases hcall
      exact heldExact_reset count
  | note step holds => exact h.note hcall
  | ascending =>
      cases hcall
      exact h.tidied.1

/-- **Run lemma.** -/
theorem HeldExact.run {calls : List HeldCall} (h : HeldExact said st)
    (hrun : runHeld calls st = some st') :
    HeldExact (fun step => calls.foldl (heard step) (said step)) st' := by
  induction calls generalizing said st with
  | nil =>
      cases hrun
      exact h
  | cons call calls ih =>
      obtain ⟨after, hcall, hrest⟩ := Option.bind_eq_some_iff.mp hrun
      exact ih (h.call hcall) hrest

/-- **The list of the held steps is exact.**  After every sequence of resets, notes and reads, a
read gives the steps whose last note since the last reset said that they hold output, each once and
in step order. -/
theorem heldSteps_exact {calls : List HeldCall} (hrun : runHeld calls {} = some st) :
    Ascending st.tidied.held ∧
      ∀ step, step ∈ st.tidied.held ↔ lastNote calls step = some true := by
  have hempty : HeldExact (fun _ => none) {} := heldExact_reset 0
  obtain ⟨hexact, htidy⟩ := (hempty.run hrun).tidied
  obtain ⟨hsorted, hholding⟩ := hexact.tidy htidy
  refine ⟨hsorted, fun step => ?_⟩
  rw [lastNote, ← hexact.flags step]
  exact ⟨hholding step, hexact.listed step⟩

/-- A step that is released and noted again while its old entry is still in the list. -/
def releasedCalls : List HeldCall :=
  [.reset 4, .note 2 true, .note 0 true, .note 2 false, .note 3 true, .note 2 true]

theorem heldSteps_exact_released : ∃ st, runHeld releasedCalls {} = some st ∧
    st.held = [2, 0, 3, 2] ∧ Ascending st.tidied.held ∧
      ∀ step, step ∈ st.tidied.held ↔ lastNote releasedCalls step = some true :=
  ⟨_, rfl, rfl, heldSteps_exact rfl⟩

end RigExec.Closure
