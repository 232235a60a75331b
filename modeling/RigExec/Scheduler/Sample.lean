/-
# `RigExec.Scheduler.Sample` — a trigger's sample against the fences

`_EnqueueTriggerTime` decides under the lock, samples the frame's inputs outside
it, and decides again under the lock before it queues the job:

    admitTrigger     generation, queued set, cap
    sample           the factory reads the inputs
    noteInvocation   a statistic
    settle           generation, queued set, cap again; the fence token is read here

The recheck catches a `CancelGeneration` between sample and settle: the trigger
carries its generation along.  It carries no token, so a `CancelGenerationTimes`
of the time in between goes unnoticed and the stale sample is queued under the
fresh token.  `freshSample_iff` says that this is the only way.
-/
import RigExec.Scheduler.Fence

namespace RigExec.Scheduler

open BackgroundScheduler

variable {Rig Time Work : Type}

/-! ## What a step does to one thread's trigger -/

section Steps

variable [DecidableEq Rig] [FrameTime Time]

/-- One thread's trigger before and after a step. -/
inductive TriggerChange (event : Event Rig Time Work) (thread : Nat)
    (s : BackgroundScheduler Rig Time Work) :
    Option (Trigger Rig Time Work) → Option (Trigger Rig Time Work) → Prop
  | same (trigger : Option (Trigger Rig Time Work)) : TriggerChange event thread s trigger trigger
  | ended (trigger : Option (Trigger Rig Time Work)) : TriggerChange event thread s trigger none
  | between (before : Option (Trigger Rig Time Work)) (trigger : Trigger Rig Time Work) :
      trigger.phase = .between → TriggerChange event thread s before (some trigger)
  | admitted (before after : Trigger Rig Time Work) (time : Time) (priority : WarmPriority) :
      after.phase = .admitted time priority → s.generations after.rig = after.generation →
      TriggerChange event thread s (some before) (some after)
  | sampled (before after : Trigger Rig Time Work) (time : Time) (priority : WarmPriority)
      (elapsed : Bool) (built : WarmFactoryResult Work) : event = .sample thread elapsed built →
      before.phase = .admitted time priority → after.phase = .sampled time priority built →
      after.rig = before.rig → after.generation = before.generation →
      TriggerChange event thread s (some before) (some after)
  | noted (before after : Trigger Rig Time Work) (time : Time) (priority : WarmPriority)
      (built : WarmFactoryResult Work) : before.phase = .sampled time priority built →
      after.phase = .noted time priority built → after.rig = before.rig →
      after.generation = before.generation → TriggerChange event thread s (some before) (some after)

omit [DecidableEq Rig] [FrameTime Time] in
theorem triggerChange_setTrigger {event : Event Rig Time Work} {y z : System Rig Time Work}
    {thread : Nat} {trigger : Option (Trigger Rig Time Work)} (hz : z.triggers = y.triggers)
    (h : TriggerChange event thread y.sched (y.triggers thread) trigger) (other : Nat) :
    TriggerChange event other y.sched (y.triggers other)
      ((z.setTrigger thread trigger).triggers other) := by
  by_cases ho : other = thread
  · subst ho
    simpa [System.setTrigger] using h
  · simp only [System.setTrigger, hz, Function.update_of_ne ho]
    exact .same _

theorem step_triggerChange {y y' : System Rig Time Work} {event : Event Rig Time Work}
    (h : y.step event = some y') (thread : Nat) :
    TriggerChange event thread y.sched (y.triggers thread) (y'.triggers thread) := by
  unfold System.step at h
  by_cases hdestroyed : y.destroyed = true
  · simp [hdestroyed] at h
  rw [if_neg hdestroyed] at h
  have hstart : ∀ caller warming rig playhead generation sweep factory radius budget,
      y.startTrigger caller warming rig playhead generation sweep factory radius budget = some y' →
      TriggerChange event thread y.sched (y.triggers thread) (y'.triggers thread) := by
    intro caller warming rig playhead generation sweep factory radius budget h
    simp only [System.startTrigger] at h
    split at h
    · cases h
    · cases h; exact .same _
    · split_ifs at h
      · cases h; exact .same _
      · cases h
        exact triggerChange_setTrigger (z := y) rfl (.between _ _ rfl) thread
  cases event with
  | onEditCommitted caller warming rig playhead generation sweep factory radius budget =>
      exact hstart _ _ _ _ _ _ _ _ _ h
  | onIdle caller warming rig playhead generation sweep factory budget =>
      exact hstart _ _ _ _ _ _ _ _ _ h
  | admitTrigger caller =>
      simp only [System.admitTrigger] at h
      split at h
      · rename_i trigger ht
        split at h
        · cases h; exact triggerChange_setTrigger rfl (.ended _) thread
        · rename_i time priority rest hphase hpending
          split at h
          · cases h
            exact triggerChange_setTrigger rfl (.between _ { trigger with pending := rest } hphase)
              thread
          · rename_i value hv
            rcases decideTrigger_cases y.sched trigger.rig value priority trigger.generation with
              hd | ⟨m, hm, hd⟩ | ⟨hd, -, hgen, -⟩
            · rw [hd] at h; cases h; exact triggerChange_setTrigger rfl (.ended _) thread
            · rw [hd] at h; cases h
              exact triggerChange_setTrigger rfl
                (.between _ { trigger with pending := rest } hphase) thread
            · rw [hd] at h; cases h
              refine triggerChange_setTrigger rfl ?_ thread
              rw [ht]
              exact .admitted _ _ value priority rfl hgen
        · cases h
      · cases h
  | sample caller elapsed built =>
      simp only [System.sample] at h
      split at h
      · rename_i trigger ht
        split at h
        · rename_i time priority hphase
          split_ifs at h
          · cases h; exact triggerChange_setTrigger rfl (.ended _) thread
          · cases h
            refine triggerChange_setTrigger rfl ?_ thread
            rw [ht]
            exact .sampled _ _ time priority elapsed built rfl hphase rfl rfl rfl
        · cases h
      · cases h
  | noteInvocation caller =>
      simp only [System.noteInvocation] at h
      split at h
      · rename_i trigger ht
        split at h
        · rename_i time priority built hphase
          cases h
          refine triggerChange_setTrigger rfl ?_ thread
          rw [ht]
          exact .noted _ _ time priority built hphase rfl rfl rfl
        · cases h
      · cases h
  | settle caller =>
      simp only [System.settle] at h
      split at h
      · split at h
        · split at h
          · cases h; exact triggerChange_setTrigger rfl (.between _ _ rfl) thread
          · split at h <;> cases h
            · exact triggerChange_setTrigger rfl (.ended _) thread
            · exact triggerChange_setTrigger rfl (.between _ _ rfl) thread
            · exact triggerChange_setTrigger rfl (.between _ _ rfl) thread
        · cases h
      · cases h
  | popJob =>
      simp only [System.popJob] at h
      split at h <;> cases h
      exact .same _
  | fence hand =>
      simp only [System.fence] at h
      split at h <;> cases h
      exact .same _
  | finish hand outcome =>
      simp only [System.finish] at h
      split at h <;> cases h <;> exact .same _
  | destroy =>
      split_ifs at h
      cases h
      exact .same _
  | _ => cases h; exact .same _

/-! ## A sample in flight -/

/-- The data of the sample a trigger carries: rig, generation, time. -/
def Trigger.carried (trigger : Trigger Rig Time Work) : Option (Rig × Nat × Time) :=
  match trigger.phase with
  | .sampled time _ _ => some (trigger.rig, trigger.generation, time)
  | .noted time _ _ => some (trigger.rig, trigger.generation, time)
  | _ => none

/-- Whatever a thread's trigger carries, it is this. -/
def CarriesOnly (y : System Rig Time Work) (thread : Nat) (sample : Rig × Nat × Time) : Prop :=
  ∀ trigger, y.triggers thread = some trigger → ∀ other, trigger.carried = some other →
    other = sample

/-- A trigger past its first critical section carries a generation that is not ahead. -/
def AdmittedNotAhead (y : System Rig Time Work) : Prop :=
  ∀ thread trigger, y.triggers thread = some trigger → trigger.phase ≠ .between →
    trigger.generation ≤ y.sched.generations trigger.rig

theorem AdmittedNotAhead.step {y y' : System Rig Time Work} {event : Event Rig Time Work}
    (hy : AdmittedNotAhead y) (h : y.step event = some y') (hroom : NoWrap y event) :
    AdmittedNotAhead y' := by
  intro thread trigger htrigger hphase
  have hmono := generations_le h hroom trigger.rig
  have hchange := step_triggerChange h thread
  rw [htrigger] at hchange
  generalize hbefore : y.triggers thread = before at hchange
  cases hchange with
  | same => exact (hy thread trigger hbefore hphase).trans hmono
  | between _ _ hp => exact absurd hp hphase
  | admitted _ _ time priority _ hgen => omega
  | sampled before _ time priority elapsed built _ hp _ hrig hgen
  | noted before _ time priority built hp _ hrig hgen =>
      have := hy thread before hbefore (by rw [hp]; simp)
      rw [hrig] at hmono ⊢
      omega

theorem CarriesOnly.step {y y' : System Rig Time Work} {event : Event Rig Time Work} {thread : Nat}
    {sample : Rig × Nat × Time} (hy : CarriesOnly y thread sample) (h : y.step event = some y')
    (hevent : ∀ elapsed built, event ≠ .sample thread elapsed built) :
    CarriesOnly y' thread sample := by
  intro trigger htrigger other hcarried
  have hchange := step_triggerChange h thread
  rw [htrigger] at hchange
  generalize hbefore : y.triggers thread = before at hchange
  cases hchange with
  | same => exact hy trigger hbefore other hcarried
  | between _ _ hp => simp [Trigger.carried, hp] at hcarried
  | admitted _ _ time priority hp _ => simp [Trigger.carried, hp] at hcarried
  | sampled _ _ _ _ elapsed built he _ _ _ _ => exact absurd he (hevent elapsed built)
  | noted before _ time priority built hp hp' hrig hgen =>
      refine hy before hbefore other ?_
      simpa [Trigger.carried, hp, hp', hrig, hgen] using hcarried

/-! ## From the sample to the queue -/

/-- The request a trigger's last critical section queues, if it queues one. -/
def System.settledRequest (y : System Rig Time Work) (thread : Nat) :
    Option (WarmRequest Rig Time) :=
  match y.triggers thread with
  | some trigger =>
      match trigger.phase with
      | .noted time priority ⟨some work, _⟩ =>
          match y.sched.insertTriggerTime trigger.rig time priority trigger.generation work with
          | .proceed _ =>
              some { rig := trigger.rig, time, priority, generation := trigger.generation
                     fenceToken := y.sched.currentFenceToken trigger.rig time }
          | _ => none
      | _ => none
  | none => none

theorem settledRequest_spec {y : System Rig Time Work} {thread : Nat}
    {request : WarmRequest Rig Time} (h : y.settledRequest thread = some request) :
    (∃ trigger, y.triggers thread = some trigger ∧
      trigger.carried = some (request.rig, request.generation, request.time)) ∧
    y.sched.generations request.rig = request.generation ∧
    y.sched.fenceTokens (request.rig, request.time) = request.fenceToken := by
  unfold System.settledRequest at h
  split at h
  · rename_i trigger htrigger
    split at h
    · rename_i time priority work skip hphase
      rcases decideTrigger_cases y.sched trigger.rig time priority trigger.generation with
        hd | ⟨m, -, hd⟩ | ⟨hd, -, hgen, -⟩
      · simp [insertTriggerTime, hd] at h
      · simp [insertTriggerTime, hd] at h
      · simp only [insertTriggerTime, hd, Option.some.injEq] at h
        subst h
        exact ⟨⟨trigger, htrigger, by simp [Trigger.carried, hphase]⟩, hgen, rfl⟩
    · cases h
  · cases h

/-- `settle` puts the request into the queue. -/
theorem settledRequest_queued {y y' : System Rig Time Work} {thread : Nat}
    {request : WarmRequest Rig Time} (hwf : QueueWf y.sched)
    (h : y.settledRequest thread = some request) (hstep : y.step (.settle thread) = some y') :
    ∃ entry ∈ y'.sched.queue, entry.2.request = request := by
  unfold System.step at hstep
  split at hstep
  · cases hstep
  unfold System.settledRequest at h
  split at h
  · rename_i trigger htrigger
    split at h
    · rename_i time priority work skip hphase
      rcases decideTrigger_cases y.sched trigger.rig time priority trigger.generation with
        hd | ⟨m, -, hd⟩ | ⟨hd, -, hgen, -⟩
      · simp [insertTriggerTime, hd] at h
      · simp [insertTriggerTime, hd] at h
      · simp only [insertTriggerTime, hd, Option.some.injEq] at h
        simp only [System.settle, htrigger, hphase, insertTriggerTime, hd, Option.some.injEq] at hstep
        subst h
        subst hstep
        exact ⟨_, (hwf.insertJob_perm trigger.rig time priority trigger.generation work).mem_iff.mpr
          List.mem_cons_self, rfl⟩
    · cases h
  · cases h

theorem run_admittedNotAhead {y y' : System Rig Time Work} {events : List (Event Rig Time Work)}
    (h : AdmittedNotAhead y) (hroom : Lib.Meets System.step NoWrap y events)
    (hrun : Lib.run System.step y events = some y') : AdmittedNotAhead y' :=
  Lib.run_invariant (fun _ _ _ hy hc hstep => hy.step hstep hc) h hroom hrun

theorem run_carriesOnly {y y' : System Rig Time Work} {events : List (Event Rig Time Work)}
    {thread : Nat} {sample : Rig × Nat × Time} (h : CarriesOnly y thread sample)
    (honce : ∀ elapsed built, .sample thread elapsed built ∉ events)
    (hrun : Lib.run System.step y events = some y') : CarriesOnly y' thread sample := by
  induction events generalizing y with
  | nil => cases hrun; exact h
  | cons event events ih =>
      obtain ⟨z, hstep, hrest⟩ := Lib.run_cons_eq_some.mp hrun
      refine ih (h.step hstep fun elapsed built he => ?_) (fun elapsed built hm => ?_) hrest
      · exact honce elapsed built (he ▸ List.mem_cons_self)
      · exact honce elapsed built (List.mem_cons_of_mem _ hm)

theorem settled_notAhead {y₁ y₂ : System Rig Time Work} {mid : List (Event Rig Time Work)}
    {thread : Nat} {request : WarmRequest Rig Time} (hadmitted : AdmittedNotAhead y₁)
    (hmid : Lib.run System.step y₁ mid = some y₂)
    (honce : ∀ elapsed built, .sample thread elapsed built ∉ mid)
    (hsettled : y₂.settledRequest thread = some request) :
    request.generation ≤ y₁.sched.generations request.rig := by
  obtain ⟨⟨trigger₂, htrigger₂, hcarried₂⟩, -, -⟩ := settledRequest_spec hsettled
  by_cases hsome : ∃ trigger, y₁.triggers thread = some trigger ∧ trigger.carried ≠ none
  · obtain ⟨trigger, htrigger, hcarried⟩ := hsome
    obtain ⟨sample, hsample⟩ := Option.ne_none_iff_exists'.mp hcarried
    have honly : CarriesOnly y₁ thread sample := by
      intro other hother data hdata
      rw [htrigger] at hother
      cases hother
      exact Option.some.inj (hdata.symm.trans hsample)
    have hdata := run_carriesOnly honly honce hmid trigger₂ htrigger₂ _ hcarried₂
    subst hdata
    have hphase : trigger.phase ≠ .between := by
      rintro hp
      simp [Trigger.carried, hp] at hsample
    have hle := hadmitted thread trigger htrigger hphase
    unfold Trigger.carried at hsample
    split at hsample <;> simp only [Option.some.injEq, Prod.mk.injEq, reduceCtorEq] at hsample <;>
      rw [← hsample.1, ← hsample.2.1] <;> exact hle
  · -- a thread carrying nothing at `y₁` has nothing to insert at `y₂`
    have honly : CarriesOnly y₁ thread (request.rig, request.generation + 1, request.time) := by
      intro trigger htrigger other hother
      exact absurd ⟨trigger, htrigger, by rw [hother]; simp⟩ hsome
    have hdata := run_carriesOnly honly honce hmid trigger₂ htrigger₂ _ hcarried₂
    simp at hdata

/-- **Fresh samples.**  A trigger samples on the way to `y₁` and queues its request on the way from
`y₂` to `y₃`.  Exactly when no `CancelGenerationTimes` covering the request's time falls between
the sample and the insert, the request is only ever current with inputs sampled after the last
cancellation of its rig and of its time.  (The fence itself keeps its own conditions: no reset of
the rig inside the generation, no counter at its last value.) -/
theorem freshSample_iff {pre mid : List (Event Rig Time Work)} {thread : Nat} {elapsed : Bool}
    {built : WarmFactoryResult Work} {y₁ y₂ y₃ : System Rig Time Work}
    {request : WarmRequest Rig Time}
    (hsample : System.history (pre ++ [.sample thread elapsed built]) = some y₁)
    (hmid : Lib.run System.step y₁ mid = some y₂)
    (honce : ∀ elapsed built, .sample thread elapsed built ∉ mid)
    (hsettled : y₂.settledRequest thread = some request)
    (hsettle : y₂.step (.settle thread) = some y₃)
    (hroom : Lib.Meets System.step NoWrap {} (pre ++ [.sample thread elapsed built] ++ mid)) :
    (∃ entry ∈ y₃.sched.queue, entry.2.request = request) ∧
    ((∀ post y₄, Lib.run System.step y₃ post = some y₄ →
        Lib.Meets System.step NoWrap y₃ post →
        Lib.Meets System.step (ResetAfterBump request.rig request.generation) y₃ post →
        y₄.sched.isWarmRequestCurrent request.rig request.generation (.numeric request.time)
          request.fenceToken = true →
        ∀ event ∈ mid ++ .settle thread :: post,
          ¬ event.supersedes request.rig (.numeric request.time)) ↔
      ∀ times, .cancelGenerationTimes request.rig times ∈ mid →
        request.time ∉ affectedTimes times) := by
  obtain ⟨hroomPre, hroomMid⟩ := hroom.append
  have hreach : System.history (pre ++ [.sample thread elapsed built] ++ mid) = some y₂ :=
    Lib.run_append_eq_some.mpr ⟨y₁, hsample, hmid⟩
  refine ⟨settledRequest_queued (.history hreach) hsettled hsettle, ?_⟩
  have hadmitted : AdmittedNotAhead y₁ :=
    run_admittedNotAhead (fun _ _ h => by cases h) hroomPre hsample
  obtain ⟨-, hgen, htoken⟩ := settledRequest_spec hsettled
  -- the insert itself moves no fence: the request is current right after it
  have hsame := step_sameFences hsettle rfl
  have hissued : TokensIssued y₃.sched request.rig := by
    intro value
    rw [hsame.fenceTokens, hsame.fenceCounters]
    exact run_tokensIssued (fun _ _ => Nat.le_refl 0) hroom hreach request.rig value
  have hcurrent : y₃.sched.isWarmRequestCurrent request.rig request.generation
      (.numeric request.time) request.fenceToken = true := by
    rw [isWarmRequestCurrent_iff, hsame.generations, hsame.fenceTokens]
    refine ⟨hgen, fun value hv => ?_, by simp [TimeCode.usable]⟩
    cases hv
    exact htoken
  constructor
  · intro h times hmem hcovered
    exact h [] y₃ rfl trivial trivial hcurrent _ (List.mem_append_left _ hmem)
      ⟨rfl, request.time, rfl, hcovered⟩
  · intro h post y₄ hrun hroomPost hresetPost hcurrent₄ event hevent hsup
    rcases List.mem_append.mp hevent with hm | hp
    · -- before the insert: a bump would have failed the recheck
      cases event <;> simp only [Event.supersedes] at hsup
      · subst hsup
        have hlt := run_generations_lt hm (hroomMid y₁ hsample) hmid
        have hle := settled_notAhead hadmitted hmid honce hsettled
        omega
      · obtain ⟨rfl, value, hv, hcovered⟩ := hsup
        cases hv
        exact h _ hm hcovered
    · rcases List.mem_cons.mp hp with rfl | hp
      · exact hsup
      -- after the insert: the fence holds
      obtain ⟨before, after, rfl⟩ := List.append_of_mem hp
      have houtdated := run_superseded hissued (notAhead_of_current hcurrent) hsup hroomPost
        hresetPost hrun
      rw [houtdated.not_current] at hcurrent₄
      cases hcurrent₄

end Steps

/-- An idle trigger samples frame 1; a scoped cancellation of frame 2 lands before the insert. -/
theorem freshSample_iff_other_time :
    ∃ y₁ y₂ y₃ : System Nat Int Unit, ∃ request : WarmRequest Nat Int,
      System.history [.onIdle 0 true 0 (.numeric 0) 0 [.numeric 1] true ⟨none, false⟩, .admitTrigger 0,
        .sample 0 false ⟨some (), .none⟩] = some y₁ ∧
      Lib.run System.step y₁ [.noteInvocation 0, .cancelGenerationTimes 0 [.numeric 2]] = some y₂ ∧
      y₂.settledRequest 0 = some request ∧ y₂.step (.settle 0) = some y₃ ∧
      request = ⟨0, 1, .sweep, 0, 0⟩ ∧
      ∀ post y₄, Lib.run System.step y₃ post = some y₄ →
        Lib.Meets System.step NoWrap y₃ post →
        Lib.Meets System.step (ResetAfterBump 0 0) y₃ post →
        y₄.sched.isWarmRequestCurrent 0 0 (.numeric 1) 0 = true →
        ∀ event ∈ ([.noteInvocation 0, .cancelGenerationTimes 0 [.numeric 2]] :
            List (Event Nat Int Unit)) ++ .settle 0 :: post,
          ¬ event.supersedes 0 (.numeric 1) := by
  refine ⟨_, _, _, _, rfl, rfl, rfl, rfl, rfl, ?_⟩
  refine (@freshSample_iff Nat Int Unit _ _
    [.onIdle 0 true 0 (.numeric 0) 0 [.numeric 1] true ⟨none, false⟩, .admitTrigger 0]
    [.noteInvocation 0, .cancelGenerationTimes 0 [.numeric 2]] 0 false ⟨some (), .none⟩ _ _ _ _
    rfl rfl (by simp) rfl rfl ?_).2.mpr ?_
  · exact meets_noWrap (fun _ => Nat.le_refl 0) (fun _ => Nat.le_refl 0) (by decide)
  · intro times hmem
    obtain rfl : times = [.numeric 2] := by simpa using hmem
    decide

/-- The scoped cancellation of the sampled frame lands between the sample and the insert: the
request is queued with the sample from before it, under the token from after it, and is current. -/
theorem stale_sample_current :
    ∃ y₁ y₂ y₃ : System Nat Int Unit, ∃ request : WarmRequest Nat Int,
      System.history [.onIdle 0 true 0 (.numeric 0) 0 [.numeric 1] true ⟨none, false⟩, .admitTrigger 0,
        .sample 0 false ⟨some (), .none⟩] = some y₁ ∧
      Lib.run System.step y₁ [.noteInvocation 0, .cancelGenerationTimes 0 [.numeric 1]] = some y₂ ∧
      y₂.settledRequest 0 = some request ∧ y₂.step (.settle 0) = some y₃ ∧
      request = ⟨0, 1, .sweep, 0, 1⟩ ∧
      (.cancelGenerationTimes 0 [.numeric 1] : Event Nat Int Unit).supersedes 0 (.numeric 1) ∧
      y₃.sched.isWarmRequestCurrent request.rig request.generation (.numeric request.time)
        request.fenceToken = true :=
  ⟨_, _, _, _, rfl, rfl, rfl, rfl, rfl, ⟨rfl, 1, rfl, by decide⟩, rfl⟩

end RigExec.Scheduler
