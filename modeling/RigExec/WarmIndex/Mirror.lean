/-
# `RigExec.WarmIndex.Mirror` — the index as the scheduler's transition hook

The hook is called in the critical section of the counter it explains, so one
step of the scheduler hands the index exactly the transitions it reported
(`Mirrored.step`).  The index's two queue flags then follow the scheduler's moves:

    queued          the flag of the place is set        `Queued`
    popped          cleared, one more running           `Running`
    purged          the flags of the purged are cleared `Canceled`, `Shed`
    stale           one less running                    `DroppedStale`
    finished        cleared, one less running           `Finished`

`Finished` clears a flag it has no business with: a job of the same time may
have been queued again while its twin ran.  `mirrors_iff` says that this, and an
index reset under the scheduler's jobs, are the only ways the index goes wrong.
-/
import RigExec.Scheduler.Accounting
import RigExec.WarmIndex.Model

namespace RigExec.WarmIndex

open RigExec.Scheduler RigExec.Scheduler.BackgroundScheduler

variable {Rig Time Work : Type}

/-! ## The scheduler with the index installed -/

/-- The scheduler, and the index its transition hook feeds. -/
structure Mirrored (Rig Time Work : Type) where
  system : System Rig Time Work := {}
  index : WarmFrameIndex Rig Time := {}

/-- A step of the scheduler, or a call on the index. -/
inductive MirrorEvent (Rig Time Work : Type) where
  | scheduler (event : Event Rig Time Work)
  | index (op : IndexOp Rig Time)

section

variable [DecidableEq Rig] [FrameTime Time]

/-- What a step of the scheduler reported, in order, goes to `NoteTransition`. -/
def Mirrored.step (m : Mirrored Rig Time Work) :
    MirrorEvent Rig Time Work → Option (Mirrored Rig Time Work)
  | .scheduler event =>
      match m.system.step event with
      | some system =>
          some { m with
            system
            index := (system.sched.reported.drop m.system.sched.reported.length).foldl
              WarmFrameIndex.noteTransition m.index }
      | none => none
  | .index op => some { m with index := op.apply m.index }

/-- A job queued for a rig and time. -/
def QueuedAt (s : BackgroundScheduler Rig Time Work) (place : Rig × Time) : Prop :=
  ∃ entry ∈ s.queue, placeOf entry = place

/-- A request's (rig, time). -/
def placeOfRequest (request : WarmRequest Rig Time) : Rig × Time := (request.rig, request.time)

/-- A job running for a rig and time. -/
def RunningAt (hands : List (PoppedJob Rig Time Work)) (place : Rig × Time) : Prop :=
  ∃ hand ∈ hands, placeOfRequest hand.request = place

/-- The index shows what the scheduler holds. -/
structure Mirrors (m : Mirrored Rig Time Work) : Prop where
  queued : ∀ rig time, (m.index.frames (rig, time)).queued = true ↔
    QueuedAt m.system.sched (rig, time)
  running : ∀ rig time, (m.index.frames (rig, time)).running > 0 ↔
    RunningAt m.system.hands (rig, time)
  warming : ∀ rig time generation epochDigest,
    m.index.state rig time generation epochDigest = .warming ↔
      QueuedAt m.system.sched (rig, time) ∨ RunningAt m.system.hands (rig, time)

/-- No job finishes while a job of its rig and time is queued, and no rig is reset in the index
while the scheduler holds a job of it. -/
def MirrorSafe (m : Mirrored Rig Time Work) : MirrorEvent Rig Time Work → Prop
  | .scheduler (.finish hand _) => ∀ job, m.system.hands[hand]? = some ⟨job, .working⟩ →
      ¬ QueuedAt m.system.sched (placeOfRequest job.request)
  | .index (.resetRig rig) => ∀ time,
      ¬ QueuedAt m.system.sched (rig, time) ∧ ¬ RunningAt m.system.hands (rig, time)
  | _ => True

/-! ## The books behind the flags -/

/-- Jobs running for a rig and time. -/
def runningCount (hands : List (PoppedJob Rig Time Work)) (place : Rig × Time) : Nat :=
  (hands.map PoppedJob.request).countP fun request => placeOfRequest request = place

/-- The flags, the running one as a count. -/
def Reflects (s : BackgroundScheduler Rig Time Work) (hands : List (PoppedJob Rig Time Work))
    (x : WarmFrameIndex Rig Time) : Prop :=
  ∀ place, ((x.frames place).queued = true ↔ QueuedAt s place) ∧
    (x.frames place).running = runningCount hands place

theorem runningCount_pos {hands : List (PoppedJob Rig Time Work)} {place : Rig × Time} :
    0 < runningCount hands place ↔ RunningAt hands place := by
  simp only [runningCount, List.countP_pos_iff, List.mem_map, decide_eq_true_eq, RunningAt]
  constructor
  · rintro ⟨_, ⟨hand, hm, rfl⟩, hp⟩
    exact ⟨hand, hm, hp⟩
  · rintro ⟨hand, hm, hp⟩
    exact ⟨_, ⟨hand, hm, rfl⟩, hp⟩

theorem stateFor_warming {frame : Frame} {generation : Nat} {epochDigest : UInt64} :
    stateFor frame generation epochDigest = .warming ↔ frame.queued = true ∨ frame.running > 0 := by
  unfold stateFor
  split_ifs <;> simp_all

theorem Reflects.mirrors {m : Mirrored Rig Time Work}
    (h : Reflects m.system.sched m.system.hands m.index) : Mirrors m := by
  have hrunning : ∀ rig time, (m.index.frames (rig, time)).running > 0 ↔
      RunningAt m.system.hands (rig, time) := fun rig time => by
    rw [(h (rig, time)).2]
    exact runningCount_pos
  refine ⟨fun rig time => (h (rig, time)).1, hrunning, fun rig time generation epochDigest => ?_⟩
  rw [WarmFrameIndex.state, stateFor_warming, (h (rig, time)).1, hrunning]

/-! ## One transition, and the transitions of a purge -/

variable {x : WarmFrameIndex Rig Time} {s s' : BackgroundScheduler Rig Time Work}
  {hands hands' : List (PoppedJob Rig Time Work)}

theorem noteTransition_other (transition : WarmTransition Rig Time) {place : Rig × Time}
    (h : place ≠ (transition.rig, transition.timeValue)) :
    (x.noteTransition transition).frames place = x.frames place := by
  simp only [WarmFrameIndex.noteTransition, WarmFrameIndex.setFrame, Function.update_of_ne h]

theorem noteTransition_self (kind : WarmTransitionKind) (outcome : WarmOutcome)
    (request : WarmRequest Rig Time) :
    ((x.noteTransition (transitionOf kind outcome request)).frames (placeOfRequest request)).queued =
      (match kind with
        | .queued => true
        | .droppedStale => (x.frames (placeOfRequest request)).queued
        | _ => false) ∧
    ((x.noteTransition (transitionOf kind outcome request)).frames (placeOfRequest request)).running =
      match kind with
        | .running => (x.frames (placeOfRequest request)).running + 1
        | .finished | .droppedStale => (x.frames (placeOfRequest request)).running - 1
        | _ => (x.frames (placeOfRequest request)).running := by
  cases kind <;> cases outcome <;>
    simp [WarmFrameIndex.noteTransition, WarmFrameIndex.setFrame, transitionOf, placeOfRequest]

/-- The kinds a purge reports. -/
def purgeKind : WarmTransitionKind → Bool
  | .canceled | .shed | .droppedAtShutdown => true
  | _ => false

theorem foldl_purged {kind : WarmTransitionKind} (hkind : purgeKind kind = true)
    (gone : List (QueueKey × QueuedJob Rig Time Work)) (place : Rig × Time) :
    (((gone.map fun entry => transitionOf kind .published entry.2.request).foldl
        WarmFrameIndex.noteTransition x).frames place).queued =
      (if place ∈ gone.map placeOf then false else (x.frames place).queued) ∧
    (((gone.map fun entry => transitionOf kind .published entry.2.request).foldl
        WarmFrameIndex.noteTransition x).frames place).running = (x.frames place).running := by
  induction gone generalizing x with
  | nil => exact ⟨rfl, rfl⟩
  | cons entry gone ih =>
      obtain ⟨hq, hr⟩ := @ih (x.noteTransition (transitionOf kind .published entry.2.request))
      rw [List.map_cons, List.foldl_cons, hq, hr]
      by_cases hp : place = placeOf entry
      · subst hp
        obtain ⟨hq', hr'⟩ := noteTransition_self (x := x) kind .published entry.2.request
        have hplace : placeOfRequest entry.2.request = placeOf entry := rfl
        rw [hplace] at hq' hr'
        rw [hq', hr']
        cases kind <;> simp_all [purgeKind]
      · rw [noteTransition_other (transitionOf kind .published entry.2.request) hp]
        simp only [List.map_cons, List.mem_cons, hp, false_or, and_self]

/-! ## One move -/

theorem foldl_drop (reported added : List (WarmTransition Rig Time)) :
    ((reported ++ added).drop reported.length).foldl WarmFrameIndex.noteTransition x =
      added.foldl WarmFrameIndex.noteTransition x := by
  rw [List.drop_left]

theorem Reflects.unreported (h : Reflects s hands x) (hreported : s'.reported = s.reported)
    (hqueue : ∀ place, QueuedAt s' place ↔ QueuedAt s place)
    (hhands : ∀ place, runningCount hands' place = runningCount hands place) :
    Reflects s' hands' ((s'.reported.drop s.reported.length).foldl
      WarmFrameIndex.noteTransition x) := by
  rw [hreported, List.drop_length, List.foldl_nil]
  intro place
  rw [hqueue, hhands]
  exact h place

theorem Reflects.reportedOne (h : Reflects s hands x) {kind : WarmTransitionKind}
    {outcome : WarmOutcome} {request : WarmRequest Rig Time}
    (hreported : s'.reported = s.reported ++ [transitionOf kind outcome request])
    (hother : ∀ place, place ≠ placeOfRequest request →
      (QueuedAt s' place ↔ QueuedAt s place) ∧
      runningCount hands' place = runningCount hands place)
    (hqueued : ((x.noteTransition (transitionOf kind outcome request)).frames
      (placeOfRequest request)).queued = true ↔ QueuedAt s' (placeOfRequest request))
    (hrunning : ((x.noteTransition (transitionOf kind outcome request)).frames
      (placeOfRequest request)).running = runningCount hands' (placeOfRequest request)) :
    Reflects s' hands' ((s'.reported.drop s.reported.length).foldl
      WarmFrameIndex.noteTransition x) := by
  rw [hreported, foldl_drop, List.foldl_cons, List.foldl_nil]
  intro place
  by_cases hp : place = placeOfRequest request
  · subst hp
    exact ⟨hqueued, hrunning⟩
  · rw [noteTransition_other _ hp, (hother place hp).1, (hother place hp).2]
    exact h place

omit [DecidableEq Rig] [FrameTime Time] in
theorem queuedAt_congr (hqueue : s'.queue = s.queue) (place : Rig × Time) :
    QueuedAt s' place ↔ QueuedAt s place := by
  rw [QueuedAt, hqueue, QueuedAt]

theorem runningCount_append (job : QueuedJob Rig Time Work) (phase : HandPhase)
    (place : Rig × Time) :
    runningCount (hands ++ [⟨job, phase⟩]) place =
      runningCount hands place + if placeOfRequest job.request = place then 1 else 0 := by
  simp only [runningCount, List.map_append, List.countP_append, List.map_cons, List.map_nil,
    List.countP_cons, List.countP_nil, decide_eq_true_eq, Nat.zero_add]
  rfl

theorem runningCount_eraseIdx {hand : Nat} {popped : PoppedJob Rig Time Work}
    (hh : hands[hand]? = some popped) (place : Rig × Time) :
    runningCount hands place = runningCount (hands.eraseIdx hand) place +
      if placeOfRequest popped.request = place then 1 else 0 := by
  simp only [runningCount, countP_eraseIdx _ hh, decide_eq_true_eq]

theorem Reflects.purge (h : Reflects s hands x) (hwf : QueueWf s) {kind : WarmTransitionKind}
    (hkind : purgeKind kind = true) (picked : WarmRequest Rig Time → Bool) :
    Reflects (BackgroundScheduler.purge kind picked s) hands
      (((BackgroundScheduler.purge kind picked s).reported.drop s.reported.length).foldl
        WarmFrameIndex.noteTransition x) := by
  rw [purge_eq]
  simp only [foldl_drop]
  intro place
  obtain ⟨hq, hr⟩ := foldl_purged (x := x) hkind (purgedJobs picked s) place
  rw [hr, hq]
  refine ⟨?_, (h place).2⟩
  by_cases hp : place ∈ (purgedJobs picked s).map placeOf
  · rw [if_pos hp]
    refine iff_of_false (by simp) ?_
    rintro ⟨kept, hkept, hplace⟩
    obtain ⟨gone, hgone, hgp⟩ := List.mem_map.mp hp
    obtain ⟨hgone, hpicked⟩ := List.mem_filter.mp hgone
    obtain ⟨hkept, hnot⟩ := List.mem_filter.mp hkept
    rw [hwf.eq_of_place hkept hgone (hplace.trans hgp.symm), hpicked] at hnot
    cases hnot
  · rw [if_neg hp, (h place).1]
    constructor
    · rintro ⟨entry, he, hplace⟩
      refine ⟨entry, List.mem_filter.mpr ⟨he, ?_⟩, hplace⟩
      cases hpicked : picked entry.2.request with
      | false => rfl
      | true =>
          exact absurd (List.mem_map.mpr ⟨entry, List.mem_filter.mpr ⟨he, hpicked⟩, hplace⟩) hp
    · rintro ⟨entry, he, hplace⟩
      exact ⟨entry, (List.mem_filter.mp he).1, hplace⟩

/-- **Every move of the scheduler keeps the flags**, a finish under the condition that no job of
its place is queued. -/
theorem Reflects.move {event : Event Rig Time Work} (h : Reflects s hands x) (hwf : QueueWf s)
    (hsafe : ∀ hand outcome popped, event = .finish hand outcome → hands[hand]? = some popped →
      popped.phase = .working → ¬ QueuedAt s (placeOfRequest popped.request))
    (hm : Move event s hands s' hands') :
    Reflects s' hands' ((s'.reported.drop s.reported.length).foldl
      WarmFrameIndex.noteTransition x) := by
  have hquiet : ∀ {s₀ : BackgroundScheduler Rig Time Work}, Quiet s s₀ → Reflects s₀ hands x :=
    fun hq place => ⟨by rw [(h place).1, queuedAt_congr hq.queue], (h place).2⟩
  cases hm with
  | quiet hq hh =>
      exact h.unreported hq.reported (queuedAt_congr hq.queue) fun place => by
        rw [runningCount, hh, runningCount]
  | @purged s₀ kind picked hkind hq =>
      rw [← hq.reported]
      refine (hquiet hq).purge (hwf.quiet hq) ?_ picked
      rcases hkind with rfl | rfl <;> rfl
  | @reset s₀ rig _ hq =>
      rw [← hq.reported]
      exact (hquiet hq).purge (hwf.quiet hq) rfl fun request => request.rig = rig
  | @promoted rig time oldKey job _ hmem _ =>
      obtain ⟨hold, hnew⟩ := hwf.promote_perm rig time hmem
      refine h.unreported rfl (fun place => ?_) fun _ => rfl
      simp only [QueuedAt, hnew.mem_iff, hold.mem_iff, List.mem_cons, exists_eq_or_imp]
      exact Iff.rfl
  | inserted rig time priority generation work hfree _ =>
      have hmem := fun entry =>
        (hwf.insertJob_perm rig time priority generation work).mem_iff (a := entry)
      obtain ⟨hq, hr⟩ := noteTransition_self (x := x) .queued .published
        ⟨rig, time, priority, generation, s.currentFenceToken rig time⟩
      refine h.reportedOne rfl (fun place hp => ⟨?_, rfl⟩) ?_ ?_
      · constructor
        · rintro ⟨entry, he, hplace⟩
          rcases List.mem_cons.mp ((hmem entry).mp he) with rfl | he
          · exact absurd hplace.symm hp
          · exact ⟨entry, he, hplace⟩
        · rintro ⟨entry, he, hplace⟩
          exact ⟨entry, (hmem entry).mpr (List.mem_cons_of_mem _ he), hplace⟩
      · rw [hq]
        exact iff_of_true rfl ⟨_, (hmem _).mpr List.mem_cons_self, rfl⟩
      · rw [hr]
        exact (h _).2
  | @popped job _ hpop =>
      obtain ⟨key, rest, hqueue, rfl⟩ := QueueWf.popJob_eq hpop
      obtain ⟨hq, hr⟩ := noteTransition_self (x := x) .running .published job.request
      have hgone : ¬ ∃ entry ∈ rest, placeOf entry = placeOfRequest job.request := by
        rintro ⟨entry, he, hplace⟩
        have heq := hwf.eq_of_place (by rw [hqueue]; exact List.mem_cons_of_mem _ he)
          (by rw [hqueue]; exact List.mem_cons_self) (b := (key, job)) hplace
        have hnodup := hwf.nodup
        rw [hqueue] at hnodup
        exact (List.nodup_cons.mp hnodup).1 (heq ▸ he)
      refine h.reportedOne rfl (fun place hp => ⟨?_, ?_⟩) ?_ ?_
      · simp only [QueuedAt, hqueue, List.mem_cons, exists_eq_or_imp, reportTransition]
        refine (or_iff_right ?_).symm
        exact fun hplace => hp hplace.symm
      · rw [runningCount_append, if_neg (Ne.symm hp), Nat.add_zero]
      · rw [hq]
        exact iff_of_false (by simp) hgone
      · rw [hr, runningCount_append, if_pos rfl, (h _).2]
  | @stale hand popped hh =>
      obtain ⟨hq, hr⟩ := noteTransition_self (x := x) .droppedStale .published popped.request
      have hcount := runningCount_eraseIdx hh
      refine h.reportedOne rfl (fun place hp => ⟨Iff.rfl, ?_⟩) ?_ ?_
      · rw [hcount, if_neg (Ne.symm hp), Nat.add_zero]
      · rw [hq]
        exact (h _).1
      · rw [hr, (h _).2, hcount, if_pos rfl, Nat.add_sub_cancel]
  | @finished hand popped outcome hevent hh hphase =>
      obtain ⟨hq, hr⟩ := noteTransition_self (x := x) .finished outcome popped.request
      have hcount := runningCount_eraseIdx hh
      have hqueue : (s.finishJob popped.request (some outcome)).queue = s.queue :=
        finishJob_queue ..
      have hreported : (s.finishJob popped.request (some outcome)).reported =
          s.reported ++ [transitionOf .finished outcome popped.request] := by
        cases outcome <;> rfl
      refine h.reportedOne hreported
        (fun place hp => ⟨queuedAt_congr hqueue place, ?_⟩) ?_ ?_
      · rw [hcount, if_neg (Ne.symm hp), Nat.add_zero]
      · rw [hq, queuedAt_congr hqueue]
        exact iff_of_false (by simp) (hsafe hand outcome popped hevent hh hphase)
      · rw [hr, (h _).2, hcount, if_pos rfl, Nat.add_sub_cancel]
  | dropped _ =>
      exact h.purge hwf rfl fun _ => true

/-! ## Calls on the index -/

omit [FrameTime Time] in
theorem invalidateRequest_frames [DecidableEq Time] (x : WarmFrameIndex Rig Time) (rig : Rig) :
    (x.invalidateRequest rig).frames = x.frames := by
  unfold WarmFrameIndex.invalidateRequest
  split <;> rfl

omit [DecidableEq Rig] [FrameTime Time] in
theorem foldl_requestRow_frames [DecidableEq Time] (generation : Nat) (epochDigest : UInt64)
    (rows : List (Time × Bool))
    (built : (Time → Option (Option Nat)) × WarmFrameIndex Rig Time) :
    (rows.foldl (WarmFrameIndex.requestRow generation epochDigest) built).2.frames =
      built.2.frames := by
  induction rows generalizing built with
  | nil => rfl
  | cons row rows ih =>
      rw [List.foldl_cons, ih]
      unfold WarmFrameIndex.requestRow
      split <;> rfl

theorem apply_flags (op : IndexOp Rig Time) (hop : ∀ rig, op ≠ .resetRig rig) (place : Rig × Time) :
    ((op.apply x).frames place).queued = (x.frames place).queued ∧
      ((op.apply x).frames place).running = (x.frames place).running := by
  have hset : ∀ (y : WarmFrameIndex Rig Time) (rig : Rig) (time : Time) (edit : Frame → Frame),
      (∀ frame, (edit frame).queued = frame.queued ∧ (edit frame).running = frame.running) →
      ((y.setFrame rig time edit).frames place).queued = (y.frames place).queued ∧
        ((y.setFrame rig time edit).frames place).running = (y.frames place).running := by
    intro y rig time edit hedit
    by_cases hp : place = (rig, time)
    · subst hp
      simpa [WarmFrameIndex.setFrame] using hedit (y.frames (rig, time))
    · simp [WarmFrameIndex.setFrame, hp]
  cases op with
  | noteGeneration rig generation =>
      simp only [IndexOp.apply, WarmFrameIndex.noteGeneration, invalidateRequest_frames]
      split <;> exact ⟨rfl, rfl⟩
  | noteSkipped rig time =>
      simp only [IndexOp.apply, WarmFrameIndex.noteSkipped]
      exact hset _ _ _ _ fun _ => ⟨rfl, rfl⟩
  | noteCompleted rig time key generation =>
      simp only [IndexOp.apply, WarmFrameIndex.noteCompleted]
      exact hset _ _ _ _ fun _ => ⟨rfl, rfl⟩
  | noteEvicted rig key time =>
      simp only [IndexOp.apply, WarmFrameIndex.noteEvicted]
      refine hset _ _ _ _ fun frame => ?_
      split <;> exact ⟨rfl, rfl⟩
  | noteDirtied rig time =>
      obtain ⟨hq, hr⟩ := hset (x.invalidateRequest rig) rig time
        (fun frame => if frame.hasCompletion then { frame with dirty := true } else frame)
        fun frame => by split <;> exact ⟨rfl, rfl⟩
      rw [invalidateRequest_frames] at hq hr
      exact ⟨hq, hr⟩
  | resetRig rig => exact absurd rfl (hop rig)
  | setRequest rig times generation epochDigest =>
      simp only [IndexOp.apply, WarmFrameIndex.setRequest, foldl_requestRow_frames, and_self]
  | invalidateRequest rig => rw [IndexOp.apply, invalidateRequest_frames]; exact ⟨rfl, rfl⟩

/-! ## Every history -/

theorem Mirrored.step_reflects {m m' : Mirrored Rig Time Work} {event : MirrorEvent Rig Time Work}
    (h : QueueWf m.system.sched ∧ Reflects m.system.sched m.system.hands m.index)
    (hsafe : MirrorSafe m event) (hstep : m.step event = some m') :
    QueueWf m'.system.sched ∧ Reflects m'.system.sched m'.system.hands m'.index := by
  obtain ⟨hwf, hreflects⟩ := h
  cases event with
  | scheduler event =>
      simp only [Mirrored.step] at hstep
      split at hstep
      · rename_i system hsystem
        cases hstep
        have hmove := step_move hsystem
        refine ⟨hwf.move hmove, hreflects.move hwf (fun hand outcome popped he hh hp => ?_) hmove⟩
        subst he
        exact hsafe popped.job (by rw [hh, ← hp])
      · cases hstep
  | index op =>
      cases hstep
      refine ⟨hwf, fun place => ?_⟩
      by_cases hop : ∃ rig, op = .resetRig rig
      · obtain ⟨rig, rfl⟩ := hop
        by_cases hr : place.1 = rig
        · obtain ⟨hq, hrun⟩ := hsafe place.2
          rw [← hr] at hq hrun
          simp only [IndexOp.apply, WarmFrameIndex.resetRig, hr, if_true]
          refine ⟨iff_of_false (by simp) hq, ?_⟩
          exact (Nat.eq_zero_of_not_pos (mt runningCount_pos.mp hrun)).symm
        · simp only [IndexOp.apply, WarmFrameIndex.resetRig, hr, if_false]
          exact hreflects place
      · obtain ⟨hq, hr⟩ := apply_flags (x := m.index) op (fun rig he => hop ⟨rig, he⟩) place
        rw [hq, hr]
        exact hreflects place

/-- **The index mirrors the scheduler** in every state a history passes through exactly when no
job of the history finishes while a job of its rig and time is queued, and no rig is reset in the
index while the scheduler holds a job of it. -/
theorem mirrors_iff {events : List (MirrorEvent Rig Time Work)} {m : Mirrored Rig Time Work}
    (hrun : Lib.run Mirrored.step {} events = some m) :
    (∀ pre post n, events = pre ++ post → Lib.run Mirrored.step {} pre = some n → Mirrors n) ↔
      Lib.Meets Mirrored.step MirrorSafe {} events := by
  constructor
  · intro h
    rw [Lib.meets_iff_prefix]
    rintro pre event post n rfl hn
    have hmirrors := h pre (event :: post) n rfl hn
    obtain ⟨n', hlast, -⟩ := Lib.run_append_eq_some.mp
      (show Lib.run Mirrored.step {} ((pre ++ [event]) ++ post) = some m by simpa using hrun)
    have hmirrors' := h (pre ++ [event]) post n' (by simp) hlast
    obtain ⟨k, hk, hone⟩ := Lib.run_append_eq_some.mp hlast
    rw [show k = n from Option.some.inj (hk.symm.trans hn)] at hone
    obtain ⟨l, hstep, hnil⟩ := Lib.run_cons_eq_some.mp hone
    cases hnil
    cases event with
    | scheduler event =>
        cases event with
        | finish hand outcome =>
            -- the finished job's flag is cleared, whatever is queued beside it
            intro job hjob hqueued
            simp only [Mirrored.step] at hstep
            split at hstep
            · rename_i system hsystem
              cases hstep
              unfold System.step at hsystem
              split at hsystem
              · cases hsystem
              simp only [System.finish, hjob, Option.some.injEq] at hsystem
              subst hsystem
              have hreported : (n.system.sched.finishJob job.request (some outcome)).reported =
                  n.system.sched.reported ++ [transitionOf .finished outcome job.request] := by
                cases outcome <;> rfl
              have hflag := (hmirrors'.queued job.request.rig job.request.time).mpr
                ((queuedAt_congr (finishJob_queue ..) _).mpr hqueued)
              simp only [hreported, foldl_drop, List.foldl_cons, List.foldl_nil] at hflag
              have hself := (noteTransition_self (x := n.index) .finished outcome job.request).1
              rw [placeOfRequest] at hself
              rw [hself] at hflag
              cases hflag
            · cases hstep
        | _ => trivial
    | index op =>
        cases op with
        | resetRig rig =>
            intro time
            cases hstep
            have hq := hmirrors'.queued rig time
            have hr := hmirrors'.running rig time
            simp only [IndexOp.apply, WarmFrameIndex.resetRig, if_true] at hq hr
            exact ⟨fun hqueued => by simpa using hq.mpr hqueued,
              fun hrunning => by simpa using hr.mpr hrunning⟩
        | _ => trivial
  · intro h pre post n hevents hn
    subst hevents
    have hinitial : QueueWf ({} : Mirrored Rig Time Work).system.sched ∧
        Reflects ({} : Mirrored Rig Time Work).system.sched
          ({} : Mirrored Rig Time Work).system.hands ({} : Mirrored Rig Time Work).index :=
      ⟨.initial, fun place => ⟨iff_of_false (by simp) (by simp [QueuedAt]), rfl⟩⟩
    exact (Lib.run_invariant
      (P := fun m : Mirrored Rig Time Work =>
        QueueWf m.system.sched ∧ Reflects m.system.sched m.system.hands m.index)
      (fun _ _ _ hm hc hstep => Mirrored.step_reflects hm hc hstep) hinitial h.append.1 hn).2.mirrors

end

/-- A frame queued, popped, queued again and finished: the second job stays queued while the index
shows the frame as uncached. -/
theorem finish_hides_requeued :
    ∃ m : Mirrored Nat Int Unit,
      Lib.run Mirrored.step {} [.scheduler (.enqueue true 0 (.numeric 1) .sweep 0 (some ())),
        .scheduler .popJob, .scheduler (.enqueue true 0 (.numeric 1) .sweep 0 (some ())),
        .scheduler (.fence 0), .scheduler (.finish 0 .declinedInvalid)] = some m ∧
      QueuedAt m.system.sched (0, 1) ∧ (m.index.frames (0, 1)).queued = false ∧
      m.index.state 0 1 0 0 = .uncached ∧ ¬ Mirrors m := by
  refine ⟨_, rfl, ⟨_, List.mem_cons_self, rfl⟩, rfl, rfl, fun h => ?_⟩
  have hflag := (h.queued 0 1).mpr ⟨_, List.mem_cons_self, rfl⟩
  cases hflag

/-- A frame queued, popped and finished with nothing queued beside it. -/
theorem mirrors_iff_finished :
    ∃ m : Mirrored Nat Int Unit,
      Lib.run Mirrored.step {} [.scheduler (.enqueue true 0 (.numeric 1) .sweep 0 (some ())),
        .scheduler .popJob, .scheduler (.fence 0), .scheduler (.finish 0 .published)] = some m ∧
      Mirrors m := by
  refine ⟨_, rfl, (@mirrors_iff Nat Int Unit _ _
    [.scheduler (.enqueue true 0 (.numeric 1) .sweep 0 (some ())), .scheduler .popJob,
      .scheduler (.fence 0), .scheduler (.finish 0 .published)] _ rfl).mpr ?_ _ [] _
    (List.append_nil _).symm rfl⟩
  refine ⟨trivial, fun m₁ h₁ => ⟨trivial, fun m₂ h₂ => ⟨trivial, fun m₃ h₃ => ⟨?_, fun _ _ =>
    trivial⟩⟩⟩⟩
  cases h₁
  cases h₂
  cases h₃
  rintro job - ⟨entry, he, -⟩
  cases he

end RigExec.WarmIndex
