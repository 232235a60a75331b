/-
# `RigExec.WarmIndex.Cells` — request cells and rows under one call

What one method of the index does to the request map, as the histories of
`WarmIndex.Publication` need it: which cells a call makes, and which rows it
leaves alone, empties or fills.

    apply_cells                  calls only append cells
    apply_row                    a row is kept, emptied, or holds a fresh seed
    requestPublicationFor_cases  a capture changes nothing, or makes one cell
-/
import RigExec.WarmIndex.Model

namespace RigExec.WarmIndex

open RigExec.Scheduler

variable {Rig Time : Type}

namespace WarmFrameIndex

variable {x : WarmFrameIndex Rig Time}

theorem rowCell_congr {y : WarmFrameIndex Rig Time} {rig : Rig}
    (h : y.requests rig = x.requests rig)
    (time : Time) : y.rowCell rig time = x.rowCell rig time := by
  simp only [rowCell, h]

theorem inScope_eq_true {cell : Option Nat} {generation : Nat} {epochDigest : UInt64} :
    x.inScope cell generation epochDigest = true ↔ ∃ number progress, cell = some number ∧
      x.cells[number]? = some progress ∧ progress.generation = generation ∧
        progress.epochDigest = epochDigest := by
  unfold inScope
  constructor
  · intro h
    split at h
    · rename_i progress hcell
      obtain ⟨number, rfl, hnumber⟩ := Option.bind_eq_some_iff.mp hcell
      simp only [Bool.and_eq_true, beq_iff_eq] at h
      exact ⟨number, progress, rfl, hnumber, h⟩
    · cases h
  · rintro ⟨number, progress, rfl, hnumber, rfl, rfl⟩
    simp [hnumber]

theorem hasRequestPublished_eq_true {rig : Rig} {time : Time} {generation : Nat}
    {epochDigest : UInt64} :
    x.hasRequestPublished rig time generation epochDigest = true ↔ ∃ number,
      x.rowCell rig time = some number ∧
        x.cells[number]? = some ⟨generation, epochDigest, .ready⟩ := by
  unfold hasRequestPublished
  constructor
  · intro h
    split at h
    · rename_i progress hcell
      obtain ⟨number, hrow, hnumber⟩ := Option.bind_eq_some_iff.mp hcell
      simp only [Bool.and_eq_true, beq_iff_eq, decide_eq_true_eq] at h
      obtain ⟨⟨hstate, hgeneration⟩, hepoch⟩ := h
      exact ⟨number, hrow, by rw [hnumber, ← hstate, ← hgeneration, ← hepoch]⟩
    · cases h
  · rintro ⟨number, hrow, hnumber⟩
    simp [hrow, hnumber]

theorem setState_hasRequestPublished {rig : Rig} {time : Time} {number : Nat}
    (h : x.rowCell rig time ≠ some number) (state : ProgressState) (generation : Nat)
    (epochDigest : UInt64) :
    (x.setState number state).hasRequestPublished rig time generation epochDigest =
      x.hasRequestPublished rig time generation epochDigest := by
  have hrow : (x.setState number state).rowCell rig time = x.rowCell rig time := rfl
  rw [Bool.eq_iff_iff, hasRequestPublished_eq_true, hasRequestPublished_eq_true, hrow]
  refine exists_congr fun other => and_congr_right fun hother => ?_
  have hne : number ≠ other := fun he => h (he ▸ hother)
  simp only [setState, List.getElem?_modify_ne _ _ hne]

theorem claims_eq_some {captured : Option Nat} {key : FrameCacheKey} {generation number : Nat}
    (h : x.claims captured key generation = some number) :
    captured = some number ∧
      x.cells[number]? = some ⟨generation, key.epochDigest, .unclaimed⟩ := by
  unfold claims at h
  split at h
  · cases h
  split at h
  · cases h
  rename_i n progress hcell
  split at h
  · cases h
  rename_i hscope
  split at h
  · rename_i hstate
    cases h
    have hscope' := not_or.mp hscope
    refine ⟨rfl, ?_⟩
    rw [hcell, ← hstate, not_not.mp hscope'.1, not_not.mp hscope'.2]
  · cases h

variable [DecidableEq Rig]

theorem invalidateRequest_cells (rig : Rig) : (x.invalidateRequest rig).cells = x.cells := by
  unfold invalidateRequest
  split <;> rfl

theorem invalidateRequest_rowCell (rig : Rig) (time : Time) :
    (x.invalidateRequest rig).rowCell rig time = none := by
  unfold invalidateRequest
  split
  · rename_i h
    simp [rowCell, h]
  · rename_i request h
    cases hrow : request.frames time <;> simp [rowCell, hrow]

theorem invalidateRequest_rowCell_ne {rig other : Rig} (hne : other ≠ rig) (time : Time) :
    (x.invalidateRequest rig).rowCell other time = x.rowCell other time := by
  unfold invalidateRequest
  split
  · rfl
  · exact rowCell_congr (Function.update_of_ne hne ..) time

variable [DecidableEq Time]

/-- `RequestPublicationFor` either changes nothing, or makes one unclaimed cell of the asked scope
and puts it in the asked row; what it hands out is the cell in the row. -/
theorem requestPublicationFor_cases (x : WarmFrameIndex Rig Time) (rig : Rig) (time : Time)
    (generation : Nat) (epochDigest : UInt64) :
    ((x.requestPublicationFor rig time generation epochDigest).2 = x ∧
      ∀ number, (x.requestPublicationFor rig time generation epochDigest).1 = some number →
        x.rowCell rig time = some number ∧ number < x.cells.length) ∨
    ((x.requestPublicationFor rig time generation epochDigest).1 = some x.cells.length ∧
      (x.requestPublicationFor rig time generation epochDigest).2.cells =
        x.cells ++ [⟨generation, epochDigest, .unclaimed⟩] ∧
      (x.requestPublicationFor rig time generation epochDigest).2.rowCell rig time =
        some x.cells.length ∧
      ∀ rig' time', (rig', time') ≠ (rig, time) →
        (x.requestPublicationFor rig time generation epochDigest).2.rowCell rig' time' =
          x.rowCell rig' time') := by
  unfold requestPublicationFor
  split
  · exact .inl ⟨rfl, fun number h => (nomatch h)⟩
  rename_i request hrequest
  split
  · exact .inl ⟨rfl, fun number h => (nomatch h)⟩
  split
  · exact .inl ⟨rfl, fun number h => (nomatch h)⟩
  rename_i row hrow
  split
  · rename_i hscope
    refine .inl ⟨rfl, fun number h => ?_⟩
    obtain ⟨n, progress, hn, hcell, -⟩ := inScope_eq_true.mp hscope
    cases hn.symm.trans h
    exact ⟨by simp [rowCell, hrequest, hrow, hn], (List.getElem?_eq_some_iff.mp hcell).1⟩
  · refine .inr ⟨rfl, rfl, by simp [rowCell, newCell], fun rig' time' hne => ?_⟩
    by_cases hr : rig' = rig
    · subst hr
      have ht : time' ≠ time := fun he => hne (by rw [he])
      simp [rowCell, newCell, hrequest, Function.update_of_ne ht]
    · exact rowCell_congr (Function.update_of_ne hr ..) time'

/-- What the rows built so far hold: seed cells made after `x`, one for each standing completion. -/
structure Seeded (x : WarmFrameIndex Rig Time) (generation : Nat) (epochDigest : UInt64)
    (rows : List (Time × Bool))
    (built : (Time → Option (Option Nat)) × WarmFrameIndex Rig Time) : Prop where
  cells : ∃ k, built.2.cells = x.cells ++ List.replicate k ⟨generation, epochDigest, .ready⟩
  requests : built.2.requests = x.requests
  row : ∀ time number, built.1 time = some (some number) →
    (time, true) ∈ rows ∧ x.cells.length ≤ number ∧ number < built.2.cells.length

omit [DecidableEq Rig] in
theorem seeded_foldl {y : WarmFrameIndex Rig Time} (generation : Nat) (epochDigest : UInt64)
    (rows : List (Time × Bool)) (hcells : y.cells = x.cells) (hrequests : y.requests = x.requests) :
    x.Seeded generation epochDigest rows
      (rows.foldl (requestRow generation epochDigest) (fun _ => none, y)) := by
  induction rows using List.reverseRecOn with
  | nil => exact ⟨⟨0, by simp [hcells]⟩, hrequests, fun time number h => (nomatch h)⟩
  | append_singleton rows row ih =>
      rw [List.foldl_append]
      obtain ⟨time, cached⟩ := row
      obtain ⟨k, hk⟩ := ih.cells
      cases cached with
      | false =>
          refine ⟨⟨k, hk⟩, ih.requests, fun time' number h => ?_⟩
          simp only [List.foldl_cons, List.foldl_nil, requestRow, Bool.false_eq_true, if_false] at h
          by_cases ht : time' = time
          · subst ht
            rw [Function.update_self] at h
            cases h
          · rw [Function.update_of_ne ht] at h
            obtain ⟨hmem, hge, hlt⟩ := ih.row time' number h
            exact ⟨List.mem_append_left _ hmem, hge, hlt⟩
      | true =>
          refine ⟨⟨k + 1, ?_⟩, ih.requests, fun time' number h => ?_⟩
          · simp only [List.foldl_cons, List.foldl_nil, requestRow, if_true, newCell, hk,
              List.append_assoc, List.replicate_succ']
          · simp only [List.foldl_cons, List.foldl_nil, requestRow, if_true, newCell] at h
            simp only [List.foldl_cons, List.foldl_nil, requestRow, if_true, newCell,
              List.length_append, List.length_singleton]
            by_cases ht : time' = time
            · subst ht
              rw [Function.update_self] at h
              cases h
              refine ⟨by simp, ?_, Nat.lt_succ_self _⟩
              rw [hk, List.length_append]
              exact Nat.le_add_right _ _
            · rw [Function.update_of_ne ht] at h
              obtain ⟨hmem, hge, hlt⟩ := ih.row time' number h
              exact ⟨List.mem_append_left _ hmem, hge, Nat.lt_succ_of_lt hlt⟩

/-- `SetRequest` adds ready cells only, and a row it fills had a standing completion. -/
theorem setRequest_spec (x : WarmFrameIndex Rig Time) (rig : Rig) (times : List Time)
    (generation : Nat) (epochDigest : UInt64) :
    (∃ made, (x.setRequest rig times generation epochDigest).cells = x.cells ++ made) ∧
    (∀ other, other ≠ rig → ∀ time,
      (x.setRequest rig times generation epochDigest).rowCell other time = x.rowCell other time) ∧
    ∀ time number, (x.setRequest rig times generation epochDigest).rowCell rig time = some number →
      x.cells.length ≤ number ∧
      (x.setRequest rig times generation epochDigest).cells[number]? =
        some ⟨generation, epochDigest, .ready⟩ ∧
      time ∈ times ∧ (x.frames (rig, time)).currentCompletion generation epochDigest = true := by
  have hseeded := seeded_foldl (x := x) (y := { x with nextRequest := bump64 x.nextRequest })
    generation epochDigest (times.map fun time =>
      (time, (x.frames (rig, time)).currentCompletion generation epochDigest)) rfl rfl
  obtain ⟨k, hk⟩ := hseeded.cells
  refine ⟨⟨_, hk⟩, fun other hne time => ?_, fun time number h => ?_⟩
  · refine rowCell_congr ((Function.update_of_ne hne ..).trans ?_) time
    rw [hseeded.requests]
  · have hrow : (WarmFrameIndex.rowCell _ rig time) = some number := h
    simp only [rowCell, setRequest, Function.update_self, Option.bind_some] at hrow
    obtain ⟨hmem, hge, hlt⟩ := hseeded.row time number (Option.join_eq_some_iff.mp hrow)
    obtain ⟨t, ht, he⟩ := List.mem_map.mp hmem
    obtain ⟨rfl, hcurrent⟩ := Prod.mk.inj he
    refine ⟨hge, ?_, ht, hcurrent⟩
    · have hcells : (x.setRequest rig times generation epochDigest).cells = _ := hk
      rw [hk, List.length_append, List.length_replicate] at hlt
      rw [hcells, List.getElem?_append_right hge, List.getElem?_replicate]
      exact if_pos (by omega)

end WarmFrameIndex

/-! ## The owner calls -/

section

variable [DecidableEq Rig] [DecidableEq Time]

open WarmFrameIndex

/-- The owner calls whose rows are all cleared or replaced, by the rig they are for. -/
def IndexOp.clears : IndexOp Rig Time → Option Rig
  | .noteGeneration rig _ => some rig
  | .noteDirtied rig _ => some rig
  | .resetRig rig => some rig
  | .setRequest rig _ _ _ => some rig
  | .invalidateRequest rig => some rig
  | _ => none

theorem apply_cells (x : WarmFrameIndex Rig Time) (op : IndexOp Rig Time) :
    ∃ made, (op.apply x).cells = x.cells ++ made := by
  have hframe : ∀ (y : WarmFrameIndex Rig Time), y.cells = x.cells →
      ∃ made, y.cells = x.cells ++ made := fun y hy => ⟨[], by rw [hy, List.append_nil]⟩
  cases op with
  | setRequest rig times generation epochDigest => exact (x.setRequest_spec rig times _ _).1
  | noteGeneration rig generation | noteDirtied rig time | invalidateRequest rig =>
      exact hframe _ (invalidateRequest_cells rig)
  | _ => exact hframe _ rfl

/-- A call leaves the rows of the rigs it does not clear; a row it clears is left empty or holds a
seed of the request it makes. -/
theorem apply_row (x : WarmFrameIndex Rig Time) (op : IndexOp Rig Time) (rig : Rig) (time : Time) :
    (op.clears ≠ some rig ∧ (op.apply x).rowCell rig time = x.rowCell rig time) ∨
    (op.apply x).rowCell rig time = none ∨
    ∃ times generation epochDigest number, op = .setRequest rig times generation epochDigest ∧
      (op.apply x).rowCell rig time = some number ∧ x.cells.length ≤ number ∧
      (op.apply x).cells[number]? = some ⟨generation, epochDigest, .ready⟩ ∧ time ∈ times ∧
      (x.frames (rig, time)).currentCompletion generation epochDigest = true := by
  have hinvalidated : ∀ (y : WarmFrameIndex Rig Time) (other : Rig),
      y.requests = (x.invalidateRequest other).requests →
      (some other ≠ some rig ∧ y.rowCell rig time = x.rowCell rig time) ∨
        y.rowCell rig time = none := by
    intro y other hy
    have hrow : y.rowCell rig time = (x.invalidateRequest other).rowCell rig time :=
      rowCell_congr (by rw [hy]) time
    by_cases hr : rig = other
    · subst hr
      exact .inr (hrow.trans (invalidateRequest_rowCell rig time))
    · exact .inl ⟨fun he => hr (Option.some.inj he).symm,
        hrow.trans (invalidateRequest_rowCell_ne hr time)⟩
  cases op with
  | noteGeneration other generation =>
      have hrequests : (x.noteGeneration other generation).requests =
          (x.invalidateRequest other).requests := by
        simp only [noteGeneration, invalidateRequest]
        cases x.requests other <;> rfl
      rcases hinvalidated _ other hrequests with h | h
      · exact .inl h
      · exact .inr (.inl h)
  | noteDirtied other at_ | invalidateRequest other =>
      rcases hinvalidated _ other rfl with h | h
      · exact .inl h
      · exact .inr (.inl h)
  | resetRig other =>
      by_cases hr : rig = other
      · subst hr
        exact .inr (.inl (by simp [IndexOp.apply, resetRig, rowCell]))
      · exact .inl ⟨fun he => hr (Option.some.inj he).symm,
          rowCell_congr (Function.update_of_ne hr ..) time⟩
  | setRequest other times generation epochDigest =>
      obtain ⟨-, hother, hrow⟩ := x.setRequest_spec other times generation epochDigest
      by_cases hr : rig = other
      · subst hr
        cases hcell : (x.setRequest rig times generation epochDigest).rowCell rig time with
        | none => exact .inr (.inl hcell)
        | some number =>
            obtain ⟨hge, hseed, hmem, hcurrent⟩ := hrow time number hcell
            exact .inr (.inr ⟨times, generation, epochDigest, number, rfl, hcell, hge, hseed, hmem,
              hcurrent⟩)
      · exact .inl ⟨fun he => hr (Option.some.inj he).symm, hother rig hr time⟩
  | noteSkipped other at_ => exact .inl ⟨(nomatch ·), rfl⟩
  | noteCompleted other at_ key generation => exact .inl ⟨(nomatch ·), rfl⟩
  | noteEvicted other key at_ => exact .inl ⟨(nomatch ·), rfl⟩

end

end RigExec.WarmIndex
