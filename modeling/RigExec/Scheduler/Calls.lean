/-
# `RigExec.Scheduler.Calls` — the calls a step makes

A step of the system is one critical section, or a thread's move between two.
Either way the object behind the mutex changes by one of a few calls, and only
two sections ask for more than their arguments:

    merged      the time is queued: the job is promoted, or coalesced
    inserted    it is not, the generation is the rig's, and the cap has room

`step_calls` is the one place where `System.step` is taken apart; what a step
keeps is then one lemma for each call.
-/
import RigExec.Scheduler.Model

namespace RigExec.Scheduler

open BackgroundScheduler

variable {Rig Time Work : Type}

/-- The request of a job in hand. -/
def PoppedJob.request (hand : PoppedJob Rig Time Work) : WarmRequest Rig Time := hand.job.request

section

variable [DecidableEq Rig] [FrameTime Time]

/-- What an event calls on the scheduler, and the jobs in hand afterwards. -/
inductive Calls (event : Event Rig Time Work) (s : BackgroundScheduler Rig Time Work)
    (hands : List (PoppedJob Rig Time Work)) :
    BackgroundScheduler Rig Time Work → List (PoppedJob Rig Time Work) → Prop
  | nothing {hands' : List (PoppedJob Rig Time Work)} :
      hands'.map PoppedJob.request = hands.map PoppedJob.request → Calls event s hands s hands'
  | cancelGeneration (rig : Rig) :
      event = .cancelGeneration rig → Calls event s hands (s.cancelGeneration rig) hands
  | resetRig (rig : Rig) : event = .resetRig rig → Calls event s hands (s.resetRig rig) hands
  | cancelGenerationTimes (rig : Rig) (times : List (TimeCode Time)) :
      event = .cancelGenerationTimes rig times →
      Calls event s hands (s.cancelGenerationTimes rig times) hands
  | declined : Calls event s hands { s with declined := s.declined + 1 } hands
  | merged {rig : Rig} {time : Time} {priority : WarmPriority}
      {m : BackgroundScheduler Rig Time Work} :
      s.mergeIfQueued rig time priority = some m → Calls event s hands m hands
  | inserted (rig : Rig) (time : Time) (priority : WarmPriority) (generation : Nat) (work : Work) :
      s.generations rig = generation → s.queuedByRigAndTime (rig, time) = none →
      s.inFlight rig < s.perRigCap →
      Calls event s hands (s.insertJob rig time priority generation work) hands
  | skipped (skip : WarmSkipReason) : Calls event s hands (s.declineSkip skip) hands
  | invoked : Calls event s hands
      { s with factoryInvocations := s.factoryInvocations + 1 } hands
  | advanced (rig : Rig) (playhead : TimeCode Time) :
      Calls event s hands (s.notePlaybackAdvanced rig playhead) hands
  | capped (cap : Nat) : Calls event s hands { s with perRigCap := cap } hands
  | popped {job : QueuedJob Rig Time Work} {s' : BackgroundScheduler Rig Time Work} :
      event = .popJob → s.popJob = some (job, s') →
      Calls event s hands s' (hands ++ [⟨job, .popped⟩])
  | stale {hand : Nat} {popped : PoppedJob Rig Time Work} :
      hands[hand]? = some popped →
      Calls event s hands (s.finishJob popped.request none) (hands.eraseIdx hand)
  | finished {hand : Nat} {popped : PoppedJob Rig Time Work} (outcome : WarmOutcome) :
      event = .finish hand outcome → hands[hand]? = some popped → popped.phase = .working →
      Calls event s hands (s.finishJob popped.request (some outcome)) (hands.eraseIdx hand)
  | stopped : Calls event s hands { s with stopping := true } hands
  | dropped : event = .destroy → hands = [] → Calls event s hands s.dropAllQueued hands

theorem mergeIfQueued_eq_none {s : BackgroundScheduler Rig Time Work} {rig : Rig} {time : Time}
    {priority : WarmPriority} (h : s.mergeIfQueued rig time priority = none) :
    s.queuedByRigAndTime (rig, time) = none := by
  unfold mergeIfQueued at h
  cases hq : s.queuedByRigAndTime (rig, time) with
  | none => rfl
  | some oldKey =>
      simp only [hq] at h
      split at h
      · split at h <;> cases h
      · cases h

theorem mergeIfQueued_cases {s m : BackgroundScheduler Rig Time Work} {rig : Rig} {time : Time}
    {priority : WarmPriority} (h : s.mergeIfQueued rig time priority = some m) :
    m = { s with coalesced := s.coalesced + 1 } ∨
    ∃ oldKey job, s.queuedByRigAndTime (rig, time) = some oldKey ∧ (oldKey, job) ∈ s.queue ∧
      job.request.priority = .sweep ∧ m = s.promote rig time oldKey job := by
  unfold mergeIfQueued at h
  cases hq : s.queuedByRigAndTime (rig, time) with
  | none => simp [hq] at h
  | some oldKey =>
      simp only [hq] at h
      cases hf : s.queue.find? fun entry => entry.1 = oldKey with
      | none =>
          simp only [hf, Option.some.injEq] at h
          exact .inl h.symm
      | some found =>
          obtain ⟨key, job⟩ := found
          have hkey : key = oldKey := by simpa using List.find?_some hf
          have hmem := List.mem_of_find?_eq_some hf
          subst hkey
          simp only [hf] at h
          split at h
          · rename_i hp
            cases h
            exact .inr ⟨key, job, rfl, hmem, hp.2, rfl⟩
          · cases h
            exact .inl rfl

/-- `Enqueue` declines, merges, or inserts. -/
theorem enqueue_calls {event : Event Rig Time Work} (s : BackgroundScheduler Rig Time Work)
    (hands : List (PoppedJob Rig Time Work)) (warming : Bool) (rig : Rig) (time : TimeCode Time)
    (priority : WarmPriority) (generation : Nat) (work : Option Work) :
    Calls event s hands (s.enqueue warming rig time priority generation work).2 hands := by
  unfold enqueue
  split
  · exact .declined
  · split
    · split
      · exact .declined
      · split
        · exact .declined
        · rename_i hgen
          split
          · rename_i hm
            exact .merged hm
          · rename_i hm
            split
            · exact .declined
            · exact .inserted _ _ _ _ _ (of_not_not hgen) (mergeIfQueued_eq_none hm) (by omega)
    · exact .declined

theorem decideTrigger_cases (s : BackgroundScheduler Rig Time Work) (rig : Rig) (time : Time)
    (priority : WarmPriority) (generation : Nat) :
    s.decideTrigger rig time priority generation = .stop ∨
    (∃ m, s.mergeIfQueued rig time priority = some m ∧
      s.decideTrigger rig time priority generation = .skipped m) ∨
    (s.decideTrigger rig time priority generation = .proceed s ∧ s.stopping = false ∧
      s.generations rig = generation ∧ s.queuedByRigAndTime (rig, time) = none ∧
      s.inFlight rig < s.perRigCap) := by
  unfold decideTrigger
  by_cases hstop : s.stopping = true ∨ s.currentGeneration rig ≠ generation
  · exact .inl (if_pos hstop)
  · rw [if_neg hstop]
    simp only [currentGeneration, ne_eq, not_or, Decidable.not_not, Bool.not_eq_true] at hstop
    cases hm : s.mergeIfQueued rig time priority with
    | some m => exact .inr (.inl ⟨m, rfl, rfl⟩)
    | none =>
        by_cases hcap : s.inFlight rig ≥ s.perRigCap
        · exact .inl (if_pos hcap)
        · exact .inr (.inr
            ⟨if_neg hcap, hstop.1, hstop.2, mergeIfQueued_eq_none hm, by omega⟩)

/-- **A step makes one of the calls.** -/
theorem step_calls {y y' : System Rig Time Work} {event : Event Rig Time Work}
    (h : y.step event = some y') : Calls event y.sched y.hands y'.sched y'.hands := by
  unfold System.step at h
  by_cases hdestroyed : y.destroyed = true
  · simp [hdestroyed] at h
  rw [if_neg hdestroyed] at h
  have hstay : ∀ thread trigger, Calls event y.sched y.hands
      (y.setTrigger thread trigger).sched (y.setTrigger thread trigger).hands :=
    fun _ _ => .nothing rfl
  cases event with
  | cancelGeneration rig => cases h; exact .cancelGeneration rig rfl
  | resetRig rig => cases h; exact .resetRig rig rfl
  | cancelGenerationTimes rig times => cases h; exact .cancelGenerationTimes rig times rfl
  | enqueue warming rig time priority generation work => cases h; exact enqueue_calls ..
  | onEditCommitted thread warming rig playhead generation sweep factory radius budget
  | onIdle thread warming rig playhead generation sweep factory budget =>
      simp only [System.startTrigger] at h
      split at h
      · cases h
      · cases h; exact .nothing rfl
      · split_ifs at h <;> cases h <;> exact .nothing rfl
  | admitTrigger thread =>
      simp only [System.admitTrigger] at h
      split at h
      · rename_i trigger ht
        split at h
        · cases h; exact hstay _ _
        · split at h
          · cases h; exact hstay _ _
          · rename_i value hv
            rcases decideTrigger_cases y.sched trigger.rig value _ trigger.generation with
              hd | ⟨m, hm, hd⟩ | ⟨hd, -⟩
            · rw [hd] at h; cases h; exact hstay _ _
            · rw [hd] at h; cases h; exact .merged hm
            · rw [hd] at h; cases h; exact hstay _ _
        · cases h
      · cases h
  | sample thread elapsed built =>
      simp only [System.sample] at h
      split at h
      · split at h
        · split_ifs at h <;> cases h <;> exact hstay _ _
        · cases h
      · cases h
  | noteInvocation thread =>
      simp only [System.noteInvocation] at h
      split at h
      · split at h
        · cases h; exact .invoked
        · cases h
      · cases h
  | settle thread =>
      simp only [System.settle] at h
      split at h
      · rename_i trigger ht
        split at h
        · rename_i time priority built hp
          split at h
          · cases h; exact .skipped _
          · simp only [insertTriggerTime] at h
            rcases decideTrigger_cases y.sched trigger.rig time priority trigger.generation with
              hd | ⟨m, hm, hd⟩ | ⟨hd, -, hgen, hfree, hcap⟩
            · rw [hd] at h; cases h; exact hstay _ _
            · rw [hd] at h; cases h; exact .merged hm
            · rw [hd] at h; cases h; exact .inserted _ _ _ _ _ hgen hfree hcap
        · cases h
      · cases h
  | notePlaybackAdvanced rig playhead => cases h; exact .advanced rig playhead
  | setPerRigJobCap cap => cases h; exact .capped cap
  | popJob =>
      simp only [System.popJob] at h
      split at h
      · rename_i job sched hp
        cases h
        exact .popped rfl hp
      · cases h
  | fence hand =>
      simp only [System.fence] at h
      split at h
      · rename_i job hh
        cases h
        refine .nothing ?_
        apply List.ext_getElem?
        intro i
        simp only [List.getElem?_map, List.getElem?_set]
        by_cases hi : hand = i
        · subst hi
          obtain ⟨hlt, heq⟩ := List.getElem?_eq_some_iff.mp hh
          simp [hlt, heq, PoppedJob.request]
        · simp [hi]
      · cases h
  | finish hand outcome =>
      simp only [System.finish] at h
      split at h
      · rename_i job hh
        cases h
        exact .stale hh
      · rename_i job hh
        cases h
        exact .finished outcome rfl hh rfl
      · cases h
  | stop => cases h; exact .stopped
  | destroy =>
      split_ifs at h with hd
      cases h
      exact .dropped rfl hd.2

end

end RigExec.Scheduler
