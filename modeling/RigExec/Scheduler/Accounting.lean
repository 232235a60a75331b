/-
# `RigExec.Scheduler.Accounting` — the job books

Two books are kept over the moves of `Scheduler.Queue`.

The lifetime book is one equation, and it holds in every reachable state:

    queuedEver = published + declinedInvalid + declinedGeneration + droppedStale
                   + canceled + shed + droppedAtShutdown + queuedDepth + running

The per-rig book says that `InFlightCount` is the rig's queued plus running
jobs, which is what the per-rig cap is checked against.  `ResetRig` erases the
rig's entry outright, so a job of the rig that a worker holds at that moment is
no longer counted: the per-rig book is kept by exactly the histories whose
resets find no job of their rig running (`jobAccounting_iff`).
-/
import RigExec.Scheduler.Queue

namespace RigExec.Scheduler

open BackgroundScheduler

variable {Rig Time Work : Type}

/-! ## The two books -/

namespace BackgroundScheduler

/-- Jobs ever queued: accepts minus merges, as the transition hook saw them. -/
def queuedEver (s : BackgroundScheduler Rig Time Work) : Nat :=
  s.reported.countP fun transition => transition.kind = .queued

/-- `queuedDepth` of the statistics. -/
def queuedDepth (s : BackgroundScheduler Rig Time Work) : Nat := s.queue.length

end BackgroundScheduler

section Books

variable [DecidableEq Rig]

/-- Queued jobs of a rig. -/
def queuedOf (s : BackgroundScheduler Rig Time Work) (rig : Rig) : Nat :=
  s.queue.countP fun entry => entry.2.request.rig = rig

/-- Jobs of a rig that a worker or a manual drain holds. -/
def runningOf (hands : List (PoppedJob Rig Time Work)) (rig : Rig) : Nat :=
  (hands.map PoppedJob.request).countP fun request => request.rig = rig

/-- A rig's queued plus running jobs. -/
def System.load (y : System Rig Time Work) (rig : Rig) : Nat :=
  queuedOf y.sched rig + runningOf y.hands rig

/-- The lifetime book. -/
structure Balanced (s : BackgroundScheduler Rig Time Work) (hands : List (PoppedJob Rig Time Work)) :
    Prop where
  ever : s.queuedEver = s.published + s.declinedInvalid + s.declinedGeneration + s.droppedStale +
    s.canceled + s.shed + s.droppedAtShutdown + s.queuedDepth + s.running
  completed : s.completed = s.published + s.declinedInvalid + s.declinedGeneration
  running : s.running = hands.length

/-- The per-rig book. -/
def InFlightExact (s : BackgroundScheduler Rig Time Work)
    (hands : List (PoppedJob Rig Time Work)) : Prop :=
  ∀ rig, s.inFlight rig = queuedOf s rig + runningOf hands rig

end Books

/-! ## What a purge and a retired job take out of the counts -/

theorem countP_purged (picked : WarmRequest Rig Time → Bool)
    (p : QueueKey × QueuedJob Rig Time Work → Bool) (s : BackgroundScheduler Rig Time Work) :
    s.queue.countP p =
      (purgedJobs picked s).countP p +
        (s.queue.filter fun entry => !picked entry.2.request).countP p :=
  List.countP_eq_countP_filter_add s.queue p fun entry => picked entry.2.request

theorem length_purged (picked : WarmRequest Rig Time → Bool)
    (s : BackgroundScheduler Rig Time Work) :
    s.queue.length =
      (purgedJobs picked s).length +
        (s.queue.filter fun entry => !picked entry.2.request).length := by
  simpa only [List.countP_true] using countP_purged picked (fun _ => true) s

theorem length_eraseIdx_add_one {hands : List (PoppedJob Rig Time Work)} {hand : Nat}
    {popped : PoppedJob Rig Time Work} (h : hands[hand]? = some popped) :
    hands.length = (hands.eraseIdx hand).length + 1 := by
  obtain ⟨hlt, rfl⟩ := List.getElem?_eq_some_iff.mp h
  simpa using (List.getElem_cons_eraseIdx_perm hlt).length_eq.symm

theorem countP_eraseIdx (p : WarmRequest Rig Time → Bool)
    {hands : List (PoppedJob Rig Time Work)} {hand : Nat}
    {popped : PoppedJob Rig Time Work} (h : hands[hand]? = some popped) :
    (hands.map PoppedJob.request).countP p =
      ((hands.eraseIdx hand).map PoppedJob.request).countP p +
        if p popped.request then 1 else 0 := by
  obtain ⟨hlt, rfl⟩ := List.getElem?_eq_some_iff.mp h
  rw [← ((List.getElem_cons_eraseIdx_perm hlt).map PoppedJob.request).countP_eq p, List.map_cons,
    List.countP_cons]

section Moves

variable [DecidableEq Rig] [FrameTime Time]
variable {event : Event Rig Time Work} {s s' : BackgroundScheduler Rig Time Work}
  {hands hands' : List (PoppedJob Rig Time Work)}

/-! ## The lifetime book -/

omit [DecidableEq Rig] [FrameTime Time] in
theorem Balanced.quiet (h : Balanced s hands) (hq : Quiet s s')
    (hh : hands'.map PoppedJob.request = hands.map PoppedJob.request) : Balanced s' hands' where
  ever := by
    simp only [queuedEver, queuedDepth, hq.reported, hq.published, hq.declinedInvalid,
      hq.declinedGeneration, hq.droppedStale, hq.canceled, hq.shed, hq.droppedAtShutdown, hq.queue,
      hq.running]
    exact h.ever
  completed := by
    rw [hq.completed, hq.published, hq.declinedInvalid, hq.declinedGeneration]
    exact h.completed
  running := by
    rw [hq.running, h.running, ← @List.length_map _ _ hands PoppedJob.request, ← hh,
      List.length_map]

theorem Balanced.purge (h : Balanced s hands) {kind : WarmTransitionKind}
    (hkind : kind = .canceled ∨ kind = .shed ∨ kind = .droppedAtShutdown)
    (picked : WarmRequest Rig Time → Bool) : Balanced (purge kind picked s) hands := by
  have hlen := length_purged picked s
  have hever := h.ever
  rw [purge_eq]
  refine ⟨?_, h.completed, h.running⟩
  have hreported : ((purgedJobs picked s).map fun entry =>
      transitionOf kind .published entry.2.request).countP
        (fun transition => transition.kind = .queued) = 0 := by
    rw [List.countP_eq_zero]
    rintro transition ht
    obtain ⟨entry, -, rfl⟩ := List.mem_map.mp ht
    rcases hkind with rfl | rfl | rfl <;> simp [transitionOf]
  simp only [queuedEver, queuedDepth, List.countP_append, hreported] at hever ⊢
  rcases hkind with rfl | rfl | rfl <;> simp only [if_true, if_false, reduceCtorEq] <;> omega

/-- **Every move keeps the lifetime book.** -/
theorem Balanced.move (h : Balanced s hands) (hwf : QueueWf s)
    (hm : Move event s hands s' hands') : Balanced s' hands' := by
  cases hm with
  | quiet hq hh => exact h.quiet hq hh
  | purged kind picked hkind hq =>
      refine (h.quiet hq rfl).purge ?_ picked
      rcases hkind with rfl | rfl <;> simp
  | reset rig _ hq =>
      have hp := (h.quiet hq rfl).purge (.inl rfl) fun request => request.rig = rig
      exact ⟨hp.ever, hp.completed, hp.running⟩
  | @promoted rig time oldKey job _ hmem _ =>
      obtain ⟨hold, hnew⟩ := hwf.promote_perm rig time hmem
      have hlen : (s.promote rig time oldKey job).queuedDepth = s.queuedDepth :=
        hnew.length_eq.trans hold.length_eq.symm
      refine ⟨?_, h.completed, h.running⟩
      rw [hlen]
      exact h.ever
  | inserted rig time priority generation work _ _ =>
      have hlen := (hwf.insertJob_perm rig time priority generation work).length_eq
      refine ⟨?_, h.completed, h.running⟩
      have hever := h.ever
      simp only [queuedEver, queuedDepth] at hever ⊢
      rw [hlen]
      simp only [insertJob, reportTransition, List.countP_append, List.countP_cons,
        List.countP_nil, List.length_cons, decide_true, if_true]
      omega
  | popped hpop =>
      obtain ⟨key, rest, hqueue, rfl⟩ := QueueWf.popJob_eq hpop
      have hever := h.ever
      refine ⟨?_, h.completed, ?_⟩
      · simp only [queuedEver, queuedDepth, reportTransition, List.countP_append] at hever ⊢
        simp [hqueue] at hever ⊢
        omega
      · simp [reportTransition, h.running]
  | stale hh =>
      have hlen := length_eraseIdx_add_one hh
      have hrun := h.running
      refine ⟨?_, h.completed, ?_⟩
      · have hever := h.ever
        simp only [queuedEver, queuedDepth] at hever ⊢
        simp [finishJob, retireRunning, reportTransition, List.countP_append]
        omega
      · simp only [finishJob, retireRunning, reportTransition]
        omega
  | finished outcome _ hh _ =>
      have hlen := length_eraseIdx_add_one hh
      have hrun := h.running
      have hever := h.ever
      have hcompleted := h.completed
      simp only [queuedEver, queuedDepth] at hever
      constructor
      · cases outcome <;>
          simp [queuedEver, queuedDepth, finishJob, retireRunning, reportTransition,
            List.countP_append] <;> omega
      · cases outcome <;> simp only [finishJob, retireRunning, reportTransition] <;> omega
      · cases outcome <;> simp only [finishJob, retireRunning, reportTransition] <;> omega
  | dropped _ =>
      have hp := h.purge (.inr (.inr rfl)) fun _ => true
      exact ⟨hp.ever, hp.completed, hp.running⟩

/-! ## A rig's queued and running jobs -/

omit [FrameTime Time] in
theorem queuedOf_congr (hqueue : s'.queue = s.queue) (rig : Rig) :
    queuedOf s' rig = queuedOf s rig := by
  rw [queuedOf, queuedOf, hqueue]

omit [FrameTime Time] in
theorem queuedOf_uncount (s : BackgroundScheduler Rig Time Work) (at_ rig : Rig) :
    queuedOf (s.uncount at_) rig = queuedOf s rig := rfl

theorem queuedOf_dropAllQueued (s : BackgroundScheduler Rig Time Work) (rig : Rig) :
    queuedOf s.dropAllQueued rig = 0 := by
  simp only [queuedOf, QueueWf.dropAllQueued_queue, List.countP_nil]

theorem queuedOf_purge (kind : WarmTransitionKind) (picked : WarmRequest Rig Time → Bool)
    (s : BackgroundScheduler Rig Time Work) (rig : Rig) :
    queuedOf s rig = queuedOf (purge kind picked s) rig +
      (purgedJobs picked s).countP fun entry => entry.2.request.rig = rig := by
  rw [purge_eq, queuedOf, countP_purged picked, Nat.add_comm]
  rfl

theorem queuedOf_promote (hwf : QueueWf s) {at_ : Rig} {time : Time} {oldKey : QueueKey}
    {job : QueuedJob Rig Time Work} (hmem : (oldKey, job) ∈ s.queue) (rig : Rig) :
    queuedOf (s.promote at_ time oldKey job) rig = queuedOf s rig := by
  obtain ⟨hold, hnew⟩ := hwf.promote_perm at_ time hmem
  rw [queuedOf, queuedOf, hnew.countP_eq, hold.countP_eq, List.countP_cons, List.countP_cons]

theorem queuedOf_insertJob (hwf : QueueWf s) (at_ : Rig) (time : Time) (priority : WarmPriority)
    (generation : Nat) (work : Work) (rig : Rig) :
    queuedOf (s.insertJob at_ time priority generation work) rig =
      queuedOf s rig + if at_ = rig then 1 else 0 := by
  rw [queuedOf, (hwf.insertJob_perm at_ time priority generation work).countP_eq, List.countP_cons]
  simp only [queuedOf, decide_eq_true_eq]

theorem queuedOf_popJob {job : QueuedJob Rig Time Work} (hpop : s.popJob = some (job, s'))
    (rig : Rig) :
    queuedOf s rig = queuedOf s' rig + if job.request.rig = rig then 1 else 0 := by
  obtain ⟨key, rest, hqueue, rfl⟩ := QueueWf.popJob_eq hpop
  simp only [queuedOf, hqueue, List.countP_cons, reportTransition, decide_eq_true_eq]

omit [FrameTime Time] in
theorem runningOf_append (hands : List (PoppedJob Rig Time Work)) (job : QueuedJob Rig Time Work)
    (phase : HandPhase) (rig : Rig) :
    runningOf (hands ++ [⟨job, phase⟩]) rig =
      runningOf hands rig + if job.request.rig = rig then 1 else 0 := by
  simp only [runningOf, List.map_append, List.countP_append, List.map_cons, List.map_nil,
    List.countP_cons, List.countP_nil, decide_eq_true_eq, Nat.zero_add]
  rfl

omit [FrameTime Time] in
theorem runningOf_eraseIdx {hand : Nat} {popped : PoppedJob Rig Time Work}
    (hh : hands[hand]? = some popped) (rig : Rig) :
    runningOf hands rig =
      runningOf (hands.eraseIdx hand) rig + if popped.request.rig = rig then 1 else 0 := by
  simp only [runningOf, countP_eraseIdx _ hh, decide_eq_true_eq]

theorem finishJob_queue (s : BackgroundScheduler Rig Time Work) (request : WarmRequest Rig Time)
    (outcome : Option WarmOutcome) : (s.finishJob request outcome).queue = s.queue := by
  rcases outcome with _ | _ | _ | _ <;> rfl

theorem finishJob_inFlight (s : BackgroundScheduler Rig Time Work) (request : WarmRequest Rig Time)
    (outcome : Option WarmOutcome) :
    (s.finishJob request outcome).inFlight =
      Function.update s.inFlight request.rig (s.inFlight request.rig - 1) := by
  rcases outcome with _ | _ | _ | _ <;> rfl

theorem load_move (hwf : QueueWf s) (hm : Move event s hands s' hands') (rig : Rig) :
    queuedOf s' rig + runningOf hands' rig ≤ queuedOf s rig + runningOf hands rig ∨
      s.inFlight rig < s.perRigCap ∧
      queuedOf s' rig + runningOf hands' rig = queuedOf s rig + runningOf hands rig + 1 := by
  cases hm with
  | quiet hq hh =>
      rw [queuedOf_congr hq.queue, runningOf, hh]
      exact .inl le_rfl
  | @purged s₀ kind picked _ hq =>
      have h := queuedOf_purge kind picked s₀ rig
      rw [queuedOf_congr hq.queue] at h
      exact .inl (by omega)
  | @reset s₀ at_ _ hq =>
      have h := queuedOf_purge .canceled (fun request => request.rig = at_) s₀ rig
      rw [queuedOf_congr hq.queue] at h
      rw [queuedOf_uncount]
      exact .inl (by omega)
  | promoted _ hmem _ =>
      rw [queuedOf_promote hwf hmem]
      exact .inl le_rfl
  | inserted at_ time priority generation work _ hcap =>
      rw [queuedOf_insertJob hwf]
      by_cases hr : at_ = rig
      · subst hr
        exact .inr ⟨hcap, by rw [if_pos rfl]; omega⟩
      · exact .inl (by rw [if_neg hr]; omega)
  | @popped job _ hpop =>
      rw [queuedOf_popJob hpop, runningOf_append]
      exact .inl (by omega)
  | stale hh | finished outcome _ hh _ =>
      rw [queuedOf_congr (finishJob_queue ..), runningOf_eraseIdx hh]
      exact .inl (by omega)
  | dropped _ =>
      rw [queuedOf_dropAllQueued]
      exact .inl (by omega)

/-! ## The per-rig book -/

omit [FrameTime Time] in
theorem InFlightExact.quiet (h : InFlightExact s hands) (hq : Quiet s s')
    (hh : hands'.map PoppedJob.request = hands.map PoppedJob.request) :
    InFlightExact s' hands' := by
  intro rig
  rw [hq.inFlight, queuedOf_congr hq.queue, runningOf, hh]
  exact h rig

theorem InFlightExact.purge (h : InFlightExact s hands) (kind : WarmTransitionKind)
    (picked : WarmRequest Rig Time → Bool) : InFlightExact (purge kind picked s) hands := by
  intro rig
  have hrig := h rig
  have hqueued := queuedOf_purge kind picked s rig
  have hflight : (BackgroundScheduler.purge kind picked s).inFlight rig =
      s.inFlight rig - (purgedJobs picked s).countP fun entry => entry.2.request.rig = rig := by
    rw [purge_eq]
  omega

theorem InFlightExact.retire (h : InFlightExact s hands)
    (outcome : Option WarmOutcome) {hand : Nat} {popped : PoppedJob Rig Time Work}
    (hh : hands[hand]? = some popped) :
    InFlightExact (s.finishJob popped.request outcome) (hands.eraseIdx hand) := by
  intro rig
  have hrig := h rig
  have hrunning := runningOf_eraseIdx hh rig
  rw [finishJob_inFlight, queuedOf_congr (finishJob_queue ..)]
  by_cases hr : popped.request.rig = rig
  · rw [if_pos hr] at hrunning
    rw [hr, Function.update_self]
    omega
  · rw [if_neg hr] at hrunning
    rw [Function.update_of_ne (Ne.symm hr)]
    omega

/-- A reset that finds no job of its rig in hand. -/
def ResetQuiescent (hands : List (PoppedJob Rig Time Work)) (event : Event Rig Time Work) : Prop :=
  ∀ rig, event = .resetRig rig → ∀ hand ∈ hands, hand.request.rig ≠ rig

omit [FrameTime Time] in
theorem runningOf_eq_zero {rig : Rig} :
    runningOf hands rig = 0 ↔ ∀ hand ∈ hands, hand.request.rig ≠ rig := by
  simp [runningOf, List.countP_eq_zero]

theorem queuedOf_resetRig (s : BackgroundScheduler Rig Time Work) (rig : Rig) :
    queuedOf (s.resetRig rig) rig = 0 := by
  rw [resetRig, purge_eq]
  simp [queuedOf, List.countP_eq_zero, List.mem_filter]

theorem inFlight_resetRig (s : BackgroundScheduler Rig Time Work) (rig : Rig) :
    (s.resetRig rig).inFlight rig = 0 := by
  simp [resetRig]

/-- **Every move keeps the per-rig book**, a reset under the condition that none of its rig's jobs
is in hand. -/
theorem InFlightExact.move (h : InFlightExact s hands) (hwf : QueueWf s)
    (hreset : ResetQuiescent hands event) (hm : Move event s hands s' hands') :
    InFlightExact s' hands' := by
  cases hm with
  | quiet hq hh => exact h.quiet hq hh
  | purged kind picked _ hq => exact (h.quiet hq rfl).purge kind picked
  | @reset s₀ rig hevent hq =>
      intro other
      have hp := (h.quiet hq rfl).purge .canceled (fun request => request.rig = rig) other
      rw [queuedOf_uncount]
      by_cases hr : other = rig
      · subst hr
        have hrunning := runningOf_eq_zero.mpr (hreset other hevent)
        have hqueued : queuedOf (BackgroundScheduler.purge .canceled
            (fun request => request.rig = other) s₀) other = 0 := by
          rw [purge_eq]
          simp [queuedOf, List.countP_eq_zero, List.mem_filter]
        show Function.update _ other 0 other = _
        rw [Function.update_self]
        omega
      · show Function.update _ rig 0 other = _
        rw [Function.update_of_ne hr]
        exact hp
  | promoted _ hmem _ =>
      intro rig
      rw [queuedOf_promote hwf hmem]
      exact h rig
  | inserted at_ time priority generation work _ _ =>
      intro rig
      have hrig := h rig
      rw [queuedOf_insertJob hwf]
      show Function.update s.inFlight at_ (s.inFlight at_ + 1) rig = _
      by_cases hr : at_ = rig
      · subst hr
        rw [Function.update_self, if_pos rfl]
        omega
      · rw [Function.update_of_ne (Ne.symm hr), if_neg hr]
        exact hrig
  | @popped job _ hpop =>
      intro rig
      have hrig := h rig
      have hqueued := queuedOf_popJob hpop rig
      have hflight : s'.inFlight = s.inFlight := by
        obtain ⟨key, rest, -, rfl⟩ := QueueWf.popJob_eq hpop
        rfl
      rw [runningOf_append, hflight]
      omega
  | stale hh => exact h.retire none hh
  | finished outcome _ hh _ => exact h.retire (some outcome) hh
  | dropped _ => exact h.purge .droppedAtShutdown fun _ => true

/-! ## The books over a whole history -/

theorem history_balanced {events : List (Event Rig Time Work)} {y : System Rig Time Work}
    (hrun : System.history events = some y) : QueueWf y.sched ∧ Balanced y.sched y.hands := by
  refine Lib.run_preserves (P := fun y => QueueWf y.sched ∧ Balanced y.sched y.hands)
    (fun y event y' h hstep => ?_) ⟨.initial, ⟨rfl, rfl, rfl⟩⟩ hrun
  exact ⟨h.1.move (step_move hstep), h.2.move h.1 (step_move hstep)⟩

/-- What a state reached has to satisfy: both books, and no operation takes a rig above the cap
in force. -/
structure JobAccounting (y : System Rig Time Work) : Prop where
  ever : y.sched.queuedEver = y.sched.published + y.sched.declinedInvalid +
    y.sched.declinedGeneration + y.sched.droppedStale + y.sched.canceled + y.sched.shed +
    y.sched.droppedAtShutdown + y.sched.queuedDepth + y.sched.running
  completed : y.sched.completed =
    y.sched.published + y.sched.declinedInvalid + y.sched.declinedGeneration
  running : y.sched.running = y.hands.length
  inFlight : ∀ rig, y.sched.inFlightCount rig = y.load rig
  capped : ∀ event y', y.step event = some y' → ∀ rig, y.load rig < y'.load rig →
    y'.load rig ≤ y.sched.perRigCap

theorem jobAccounting_of_inFlightExact {events : List (Event Rig Time Work)}
    {y : System Rig Time Work} (hrun : System.history events = some y)
    (hexact : InFlightExact y.sched y.hands) : JobAccounting y := by
  obtain ⟨hwf, hbalanced⟩ := history_balanced hrun
  refine ⟨hbalanced.ever, hbalanced.completed, hbalanced.running, hexact, ?_⟩
  intro event y' hstep rig hmore
  have hrig := hexact rig
  simp only [System.load] at hmore ⊢
  rcases load_move hwf (step_move hstep) rig with hle | ⟨hcap, heq⟩ <;> omega

/-- **Job accounting.**  The books are right in every state a history passes through exactly when
each `ResetRig` of the history finds none of its rig's jobs running. -/
theorem jobAccounting_iff {events : List (Event Rig Time Work)} {y : System Rig Time Work}
    (hrun : System.history events = some y) :
    (∀ pre post z, events = pre ++ post → System.history pre = some z → JobAccounting z) ↔
      Lib.Meets System.step (fun z event => ResetQuiescent z.hands event) {} events := by
  constructor
  · intro h
    rw [Lib.meets_iff_prefix]
    rintro pre event post z rfl hz rig rfl
    -- The state just after the reset: its entry is gone, so its load has to be zero.
    obtain ⟨z', hz', -⟩ := Lib.run_append_eq_some.mp
      (show Lib.run System.step {} ((pre ++ [.resetRig rig]) ++ post) = some y by simpa using hrun)
    obtain ⟨u, hu, hlast⟩ := Lib.run_append_eq_some.mp hz'
    rw [show u = z from Option.some.inj (hu.symm.trans hz)] at hlast
    obtain ⟨v, hv, hnil⟩ := Lib.run_cons_eq_some.mp hlast
    cases hnil
    have hbook := (h (pre ++ [.resetRig rig]) post z' (by simp) hz').inFlight rig
    have hstep : z' = { z with sched := z.sched.resetRig rig } := by
      unfold System.step at hv
      split at hv
      · cases hv
      · exact (Option.some.inj hv).symm
    subst hstep
    simp only [inFlightCount, inFlight_resetRig, System.load, queuedOf_resetRig] at hbook
    exact runningOf_eq_zero.mp (by omega)
  · intro h pre post z hevents hz
    subst hevents
    refine jobAccounting_of_inFlightExact hz ?_
    have hinv := Lib.run_invariant (P := fun y => QueueWf y.sched ∧ InFlightExact y.sched y.hands)
      (fun y event y' hy hc hstep =>
        ⟨hy.1.move (step_move hstep), hy.2.move hy.1 hc (step_move hstep)⟩)
      ⟨.initial, fun _ => rfl⟩ h.append.1 hz
    exact hinv.2

end Moves

/-- A history that meets the condition: rig 0 runs a job while rig 1 is reset. -/
theorem jobAccounting_iff_reset_other :
    ∃ y : System Nat Int Unit,
      System.history [.enqueue true 0 (.numeric 1) .sweep 0 (some ()), .popJob, .resetRig 1] =
        some y ∧
      ∀ (pre post : List (Event Nat Int Unit)) (z : System Nat Int Unit),
        [.enqueue true 0 (.numeric 1) .sweep 0 (some ()), .popJob, .resetRig 1] = pre ++ post →
        System.history pre = some z → JobAccounting z := by
  refine ⟨_, rfl, (jobAccounting_iff rfl).mpr ?_⟩
  refine ⟨fun _ h => (nomatch h), fun z hz => ⟨fun _ h => (nomatch h), fun z' hz' => ?_⟩⟩
  refine ⟨?_, fun _ _ => trivial⟩
  cases hz
  cases hz'
  rintro rig h hand hhand
  cases h
  rw [List.mem_singleton.mp hhand]
  decide

/-- Resetting a rig whose job is running: the job stays in the worker's hands but leaves the
in-flight count, and the next enqueue is let past a cap of 1. -/
theorem reset_lifts_cap :
    ∃ y y' : System Nat Int Unit,
      System.history [.setPerRigJobCap 1, .enqueue true 0 (.numeric 1) .sweep 0 (some ()), .popJob,
        .resetRig 0] = some y ∧
      y.step (.enqueue true 0 (.numeric 2) .sweep 0 (some ())) = some y' ∧
      y.sched.inFlightCount 0 = 0 ∧ y.load 0 = 1 ∧
      y.sched.perRigCap = 1 ∧ y'.load 0 = 2 ∧ ¬ JobAccounting y := by
  refine ⟨_, _, rfl, rfl, rfl, rfl, rfl, rfl, fun h => ?_⟩
  exact absurd (h.inFlight 0) (by decide)

end RigExec.Scheduler
