/-
# `RigExec.WarmIndex.Completions` — who records a completion, and who only takes one away

Of the index's calls `NoteCompleted` is the one that records a completion, and
`NoteGeneration` the one that moves a generation.  Every other call leaves a
record's completion, drops it, or marks it dirty (`Keeps`).
-/
import RigExec.WarmIndex.Desk
import RigExec.WarmIndex.Mirror

namespace RigExec.WarmIndex

open RigExec.Scheduler

variable {Rig Time : Type}

/-! ## What keeps a completion -/

/-- A record that shows a completion showed it before, and no dirty mark has been taken back. -/
structure Keeps (frame frame' : Frame) : Prop where
  key : frame'.hasCompletion = true → frame'.key = frame.key
  held : frame'.hasCompletion = true → frame.hasCompletion = true
  generation : frame'.hasCompletion = true → frame'.completedGeneration = frame.completedGeneration
  clean : frame'.hasCompletion = true → frame'.dirty = false → frame.dirty = false

theorem Keeps.refl (frame : Frame)
    : Keeps frame frame := ⟨fun _ => rfl, id, fun _ => rfl, fun _ => id⟩

theorem Keeps.of_none {frame frame' : Frame} (h : frame'.hasCompletion = false) :
    Keeps frame frame' := by
  have hnone : frame'.hasCompletion ≠ true := Bool.eq_false_iff.mp h
  exact ⟨fun hc => absurd hc hnone, fun hc => absurd hc hnone, fun hc => absurd hc hnone,
    fun hc => absurd hc hnone⟩

theorem Keeps.trans {frame frame' frame'' : Frame} (h : Keeps frame frame')
    (h' : Keeps frame' frame'') : Keeps frame frame'' where
  key hc := (h'.key hc).trans (h.key (h'.held hc))
  held hc := h.held (h'.held hc)
  generation hc := (h'.generation hc).trans (h.generation (h'.held hc))
  clean hc hd := h.clean (h'.held hc) (h'.clean hc hd)

/-- No record of the index gains a completion. -/
def KeepsAll (x x' : WarmFrameIndex Rig Time) : Prop :=
  ∀ place, Keeps (x.frames place) (x'.frames place)

theorem KeepsAll.refl (x : WarmFrameIndex Rig Time) : KeepsAll x x := fun _ => .refl _

theorem KeepsAll.trans {x x' x'' : WarmFrameIndex Rig Time} (h : KeepsAll x x')
    (h' : KeepsAll x' x'') : KeepsAll x x'' := fun place => (h place).trans (h' place)

theorem KeepsAll.of_frames {x x' : WarmFrameIndex Rig Time} (h : x'.frames = x.frames) :
    KeepsAll x x' := by
  intro place
  rw [h]
  exact .refl _

section Index

variable [DecidableEq Rig] [DecidableEq Time] {x : WarmFrameIndex Rig Time}

theorem keepsAll_setFrame (rig : Rig) (time : Time) {edit : Frame → Frame}
    (h : Keeps (x.frames (rig, time)) (edit (x.frames (rig, time)))) :
    KeepsAll x (x.setFrame rig time edit) := by
  intro place
  by_cases hp : place = (rig, time)
  · subst hp
    simpa [WarmFrameIndex.setFrame] using h
  · rw [show (x.setFrame rig time edit).frames place = x.frames place by
      simp [WarmFrameIndex.setFrame, hp]]
    exact .refl _

theorem keepsAll_noteTransition (transition : WarmTransition Rig Time) :
    KeepsAll x (x.noteTransition transition) := by
  refine keepsAll_setFrame _ _ ?_
  cases transition.kind <;> try exact ⟨fun _ => rfl, id, fun _ => rfl, fun _ => id⟩
  cases transition.outcome <;> exact ⟨fun _ => rfl, id, fun _ => rfl, fun _ => id⟩

theorem noteTransitions_index (reported : List (WarmTransition Rig Time)) :
    KeepsAll x (reported.foldl WarmFrameIndex.noteTransition x) ∧
      (reported.foldl WarmFrameIndex.noteTransition x).generations = x.generations := by
  induction reported generalizing x with
  | nil => exact ⟨.refl _, rfl⟩
  | cons transition reported ih =>
      obtain ⟨hkeeps, hgen⟩ := @ih (x.noteTransition transition)
      exact ⟨(keepsAll_noteTransition transition).trans hkeeps, hgen⟩

omit [DecidableEq Time] in
theorem invalidateRequest_generations (rig : Rig) :
    (x.invalidateRequest rig).generations = x.generations := by
  unfold WarmFrameIndex.invalidateRequest
  split <;> rfl

omit [DecidableEq Rig] in
theorem foldl_requestRow_generations (generation : Nat) (epochDigest : UInt64)
    (rows : List (Time × Bool)) (built : (Time → Option (Option Nat)) × WarmFrameIndex Rig Time) :
    (rows.foldl (WarmFrameIndex.requestRow generation epochDigest) built).2.generations =
      built.2.generations := by
  induction rows generalizing built with
  | nil => rfl
  | cons row rows ih =>
      rw [List.foldl_cons, ih]
      unfold WarmFrameIndex.requestRow
      split <;> rfl

theorem noteGeneration_keepsAll (rig : Rig) (generation : Nat) :
    KeepsAll x (x.noteGeneration rig generation) := by
  intro place
  simp only [WarmFrameIndex.noteGeneration, invalidateRequest_frames]
  split
  · exact ⟨fun _ => rfl, id, fun _ => rfl, fun _ => id⟩
  · exact .refl _

omit [DecidableEq Time] in
theorem noteGeneration_generations (rig : Rig) (generation : Nat) :
    (x.noteGeneration rig generation).generations =
      Function.update x.generations rig generation := by
  simp only [WarmFrameIndex.noteGeneration, invalidateRequest_generations]

omit [DecidableEq Time] in
theorem resetRig_keepsAll (rig : Rig) : KeepsAll x (x.resetRig rig) := by
  intro place
  simp only [WarmFrameIndex.resetRig]
  split
  · exact .of_none rfl
  · exact .refl _

/-- A record changes one place: the completion there is the one recorded. -/
theorem noteCompleted_frames (rig : Rig) (time : Time) (key : FrameCacheKey) (generation : Nat)
    (place : Rig × Time) :
    Keeps (x.frames place) ((x.noteCompleted rig time key generation).frames place) ∨
      place = (rig, time) ∧
        ((x.noteCompleted rig time key generation).frames place).key = key ∧
        ((x.noteCompleted rig time key generation).frames place).completedGeneration =
          generation := by
  by_cases hp : place = (rig, time)
  · subst hp
    exact .inr ⟨rfl, by simp [WarmFrameIndex.noteCompleted, WarmFrameIndex.setFrame]⟩
  · rw [show (x.noteCompleted rig time key generation).frames place = x.frames place by
      simp [WarmFrameIndex.noteCompleted, WarmFrameIndex.setFrame, hp]]
    exact .inl (.refl _)

/-- The calls that neither record a completion nor move a generation. -/
def passive : DeskEvent Rig Time → Bool
  | .op (.noteGeneration _ _) => false
  | .op (.noteCompleted _ _ _ _) => false
  | _ => true

theorem passive_op {op : IndexOp Rig Time} (h : passive (.op op) = true) :
    KeepsAll x (op.apply x) ∧ (op.apply x).generations = x.generations := by
  cases op with
  | noteGeneration rig generation => cases h
  | noteCompleted rig time key generation => cases h
  | noteSkipped rig time =>
      refine ⟨?_, rfl⟩
      rw [IndexOp.apply, WarmFrameIndex.noteSkipped]
      exact keepsAll_setFrame _ _ ⟨fun _ => rfl, id, fun _ => rfl, fun _ => id⟩
  | noteEvicted rig key time =>
      refine ⟨?_, rfl⟩
      rw [IndexOp.apply, WarmFrameIndex.noteEvicted]
      refine keepsAll_setFrame _ _ ?_
      split
      · exact .refl _
      · exact .of_none rfl
  | noteDirtied rig time =>
      refine ⟨(KeepsAll.of_frames (invalidateRequest_frames x rig)).trans
        (keepsAll_setFrame _ _ ?_), invalidateRequest_generations rig⟩
      split
      · exact ⟨fun _ => rfl, id, fun _ => rfl, fun _ h => Bool.noConfusion h⟩
      · exact .refl _
  | resetRig rig => exact ⟨resetRig_keepsAll rig, rfl⟩
  | setRequest rig times generation epochDigest =>
      exact ⟨.of_frames (by
          simp only [IndexOp.apply, WarmFrameIndex.setRequest, foldl_requestRow_frames]),
        by simp only [IndexOp.apply, WarmFrameIndex.setRequest, foldl_requestRow_generations]⟩
  | invalidateRequest rig =>
      exact ⟨.of_frames (invalidateRequest_frames x rig), invalidateRequest_generations rig⟩

theorem requestPublicationFor_index (rig : Rig) (time : Time) (generation : Nat)
    (epochDigest : UInt64) :
    (x.requestPublicationFor rig time generation epochDigest).2.frames = x.frames ∧
      (x.requestPublicationFor rig time generation epochDigest).2.generations = x.generations := by
  unfold WarmFrameIndex.requestPublicationFor
  split
  · exact ⟨rfl, rfl⟩
  · split_ifs
    · exact ⟨rfl, rfl⟩
    · split
      · exact ⟨rfl, rfl⟩
      · split_ifs <;> exact ⟨rfl, rfl⟩

theorem passive_step {d d' : Desk Rig Time} {event : DeskEvent Rig Time}
    (hpassive : passive event = true) (h : d.step event = some d') :
    KeepsAll d.index d'.index ∧ d'.index.generations = d.index.generations := by
  rcases Desk.step_index h with ⟨op, rfl, hop⟩ | ⟨transition, -, ht⟩ |
    ⟨rig, time, generation, epochDigest, -, hr⟩ | ⟨-, ⟨number, state, -, hs⟩ | hsame⟩
  · rw [hop]
    exact passive_op hpassive
  · rw [ht]
    exact ⟨keepsAll_noteTransition transition, rfl⟩
  · obtain ⟨hframes, hgen⟩ := @requestPublicationFor_index _ _ _ _ d.index rig time generation
      epochDigest
    rw [hr]
    exact ⟨.of_frames hframes, hgen⟩
  · rw [hs]
    exact ⟨.of_frames rfl, rfl⟩
  · rw [hsame]
    exact ⟨.refl _, rfl⟩

end Index

end RigExec.WarmIndex
