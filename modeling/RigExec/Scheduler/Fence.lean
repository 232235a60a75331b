/-
# `RigExec.Scheduler.Fence` — generations and fence tokens over a history

A warm request carries the rig's generation and the fence token of its time.
Three operations move what `IsWarmRequestCurrent` compares them with:

    CancelGeneration        the rig's generation takes its next value
    CancelGenerationTimes   each affected time takes the rig's next token
    ResetRig                the rig's tokens and their counter restart at 0

`step_fences` says that nothing else does.  Between two resets the tokens of a
rig only grow, and they never overtake the counter (`TokensIssued`), so a
request left behind by either cancellation stays behind (`Outdated`).  A reset
inside the request's own generation hands the old tokens out a second time:
`generationFence` is about the histories in which each reset comes after the
generation has moved on, and no counter reaches 2^64; a generation that was
cancelled does not come back whatever is reset.
-/
import RigExec.Scheduler.Queue

namespace RigExec.Scheduler

open BackgroundScheduler

variable {Rig Time Work : Type}

/-! ## What moves a fence -/

/-- The three fields the publish fence reads. -/
structure SameFences (s s' : BackgroundScheduler Rig Time Work) : Prop where
  generations : s'.generations = s.generations
  fenceTokens : s'.fenceTokens = s.fenceTokens
  fenceCounters : s'.fenceCounters = s.fenceCounters

theorem SameFences.refl (s : BackgroundScheduler Rig Time Work) : SameFences s s := ⟨rfl, rfl, rfl⟩

/-- The events that move a generation or a token. -/
def Event.movesFence : Event Rig Time Work → Bool
  | .cancelGeneration _ => true
  | .cancelGenerationTimes _ _ => true
  | .resetRig _ => true
  | _ => false

section

variable [DecidableEq Rig] [DecidableEq Time]

theorem sameFences_purge (kind : WarmTransitionKind) (picked : WarmRequest Rig Time → Bool)
    (s : BackgroundScheduler Rig Time Work) : SameFences s (purge kind picked s) := by
  rw [purge_eq]
  exact ⟨rfl, rfl, rfl⟩

theorem sameFences_mergeIfQueued {s m : BackgroundScheduler Rig Time Work} {rig : Rig} {time : Time}
    {priority : WarmPriority} (h : s.mergeIfQueued rig time priority = some m) :
    SameFences s m := by
  unfold mergeIfQueued at h
  split at h
  · cases h
  · split at h
    · split at h <;> cases h <;> exact ⟨rfl, rfl, rfl⟩
    · cases h
      exact ⟨rfl, rfl, rfl⟩

theorem sameFences_popJob {s s' : BackgroundScheduler Rig Time Work} {job : QueuedJob Rig Time Work}
    (h : s.popJob = some (job, s')) : SameFences s s' := by
  obtain ⟨_, _, -, rfl⟩ := QueueWf.popJob_eq h
  exact ⟨rfl, rfl, rfl⟩

theorem sameFences_finishJob (s : BackgroundScheduler Rig Time Work)
    (request : WarmRequest Rig Time) (outcome : Option WarmOutcome) :
    SameFences s (s.finishJob request outcome) := by
  rcases outcome with _ | _ | _ | _ <;> exact ⟨rfl, rfl, rfl⟩

omit [DecidableEq Rig] [DecidableEq Time] in
theorem sameFences_declineSkip (s : BackgroundScheduler Rig Time Work) (skip : WarmSkipReason) :
    SameFences s (s.declineSkip skip) := by
  cases skip <;> exact ⟨rfl, rfl, rfl⟩

end

section Steps

variable [DecidableEq Rig] [FrameTime Time]

theorem step_sameFences {y y' : System Rig Time Work} {event : Event Rig Time Work}
    (h : y.step event = some y') (hevent : event.movesFence = false) :
    SameFences y.sched y'.sched := by
  have hcalls := step_calls h
  generalize y'.sched = s', y'.hands = hands' at hcalls
  cases hcalls with
  | nothing _ => exact .refl _
  | cancelGeneration rig heq => rw [heq] at hevent; cases hevent
  | resetRig rig heq => rw [heq] at hevent; cases hevent
  | cancelGenerationTimes rig times heq => rw [heq] at hevent; cases hevent
  | declined => exact ⟨rfl, rfl, rfl⟩
  | merged hm => exact sameFences_mergeIfQueued hm
  | inserted rig time priority generation work _ _ _ => exact ⟨rfl, rfl, rfl⟩
  | skipped skip => exact sameFences_declineSkip ..
  | invoked => exact ⟨rfl, rfl, rfl⟩
  | advanced rig playhead =>
      simp only [notePlaybackAdvanced]
      split
      · exact .refl _
      · exact sameFences_purge ..
  | capped cap => exact ⟨rfl, rfl, rfl⟩
  | popped _ hp => exact sameFences_popJob hp
  | stale _ => exact sameFences_finishJob ..
  | finished outcome _ _ _ => exact sameFences_finishJob ..
  | stopped => exact ⟨rfl, rfl, rfl⟩
  | dropped _ _ =>
      have hp := sameFences_purge .droppedAtShutdown (fun _ => true) y.sched
      exact ⟨hp.generations, hp.fenceTokens, hp.fenceCounters⟩

theorem step_fenceOperation {y y' : System Rig Time Work} {event : Event Rig Time Work}
    (h : y.step event = some y') :
    (∀ rig, event = .cancelGeneration rig → y'.sched = y.sched.cancelGeneration rig) ∧
    (∀ rig times, event = .cancelGenerationTimes rig times →
      y'.sched = y.sched.cancelGenerationTimes rig times) ∧
    (∀ rig, event = .resetRig rig → y'.sched = y.sched.resetRig rig) := by
  unfold System.step at h
  by_cases hdestroyed : y.destroyed = true
  · simp [hdestroyed] at h
  rw [if_neg hdestroyed] at h
  refine ⟨?_, ?_, ?_⟩ <;> intros <;> subst event <;> cases h <;> rfl

/-! ## The tokens of one rig -/

section Tokens

variable (s : BackgroundScheduler Rig Time Work) (rig : Rig)

omit [FrameTime Time] in
theorem foldl_refence_generations [DecidableEq Time] (times : List Time)
    (s : BackgroundScheduler Rig Time Work) :
    (times.foldl (refence rig) s).generations = s.generations := by
  induction times generalizing s with
  | nil => rfl
  | cons time times ih => exact ih (refence rig s time)

theorem foldl_refence (times : List Time) (s : BackgroundScheduler Rig Time Work)
    (hroom : s.fenceCounters rig + times.length < UInt64.size) :
    (times.foldl (refence rig) s).generations = s.generations ∧
    (times.foldl (refence rig) s).fenceCounters rig = s.fenceCounters rig + times.length ∧
    (∀ time ∈ times, s.fenceCounters rig < (times.foldl (refence rig) s).fenceTokens (rig, time) ∧
      (times.foldl (refence rig) s).fenceTokens (rig, time) ≤ s.fenceCounters rig + times.length) ∧
    ∀ time ∉ times, (times.foldl (refence rig) s).fenceTokens (rig, time) =
      s.fenceTokens (rig, time) := by
  induction times generalizing s with
  | nil => simp
  | cons head rest ih =>
      have hcounter : (refence rig s head).fenceCounters rig = s.fenceCounters rig + 1 := by
        simp only [List.length_cons] at hroom
        simp only [refence, Function.update_self, bump64]
        exact Nat.mod_eq_of_lt (by omega)
      obtain ⟨hgen, hcount, hin, hout⟩ := ih (refence rig s head) (by
        simp only [List.length_cons] at hroom
        omega)
      simp only [List.foldl_cons, List.length_cons]
      refine ⟨hgen, by omega, fun time ht => ?_, fun time ht => ?_⟩
      · by_cases hrest : time ∈ rest
        · have := hin time hrest
          omega
        · have hhead : time = head := by simpa [hrest] using ht
          subst hhead
          rw [hout time hrest]
          have htoken : (refence rig s time).fenceTokens (rig, time) =
              (refence rig s time).fenceCounters rig := by simp [refence]
          omega
      · obtain ⟨hhead, hrest⟩ := not_or.mp (List.mem_cons.not.mp ht)
        rw [hout time hrest]
        simp [refence, hhead]

theorem foldl_refence_other (times : List Time) (s : BackgroundScheduler Rig Time Work)
    {other : Rig} (hother : other ≠ rig) :
    (times.foldl (refence rig) s).generations = s.generations ∧
    (times.foldl (refence rig) s).fenceCounters other = s.fenceCounters other ∧
    ∀ time, (times.foldl (refence rig) s).fenceTokens (other, time) =
      s.fenceTokens (other, time) := by
  induction times generalizing s with
  | nil => simp
  | cons head rest ih =>
      obtain ⟨hgen, hcount, htoken⟩ := ih (refence rig s head)
      refine ⟨hgen, ?_, fun time => ?_⟩
      · rw [List.foldl_cons, hcount]
        simp [refence, hother]
      · rw [List.foldl_cons, htoken]
        simp [refence, hother]

end Tokens

/-- No counter of a cancelled rig is at its last value. -/
def NoWrap (y : System Rig Time Work) (event : Event Rig Time Work) : Prop :=
  (∀ rig, event = .cancelGeneration rig → y.sched.generations rig + 1 < UInt64.size) ∧
  ∀ rig times, event = .cancelGenerationTimes rig times →
    y.sched.fenceCounters rig + (affectedTimes times).length < UInt64.size

/-- What one step does to one rig's generation, tokens and counter. -/
inductive FenceChange (event : Event Rig Time Work) (rig : Rig)
    (s s' : BackgroundScheduler Rig Time Work) : Prop
  | stands : s'.generations rig = s.generations rig →
      s'.fenceCounters rig = s.fenceCounters rig →
      (∀ time, s'.fenceTokens (rig, time) = s.fenceTokens (rig, time)) →
      event ≠ .cancelGeneration rig → (∀ times, event ≠ .cancelGenerationTimes rig times) →
      FenceChange event rig s s'
  | bumped : event = .cancelGeneration rig → s'.generations rig = s.generations rig + 1 →
      s'.fenceCounters rig = s.fenceCounters rig →
      (∀ time, s'.fenceTokens (rig, time) = s.fenceTokens (rig, time)) → FenceChange event rig s s'
  | restarted : event = .resetRig rig → s'.generations rig = s.generations rig →
      s'.fenceCounters rig = 0 → (∀ time, s'.fenceTokens (rig, time) = 0) →
      FenceChange event rig s s'
  | refenced (times : List (TimeCode Time)) : event = .cancelGenerationTimes rig times →
      s'.generations rig = s.generations rig →
      s'.fenceCounters rig = s.fenceCounters rig + (affectedTimes times).length →
      (∀ time ∈ affectedTimes times, s.fenceCounters rig < s'.fenceTokens (rig, time) ∧
        s'.fenceTokens (rig, time) ≤ s'.fenceCounters rig) →
      (∀ time ∉ affectedTimes times, s'.fenceTokens (rig, time) = s.fenceTokens (rig, time)) →
      FenceChange event rig s s'

theorem step_fenceChange {y y' : System Rig Time Work} {event : Event Rig Time Work}
    (h : y.step event = some y') (hroom : NoWrap y event) (rig : Rig) :
    FenceChange event rig y.sched y'.sched := by
  obtain ⟨hcancel, htimes, hreset⟩ := step_fenceOperation h
  by_cases hmoves : event.movesFence = false
  · have hs := step_sameFences h hmoves
    refine .stands (by rw [hs.generations]) (by rw [hs.fenceCounters])
      (fun time => by rw [hs.fenceTokens]) ?_ ?_
    · rintro rfl; cases hmoves
    · rintro times rfl; cases hmoves
  · cases event with
    | cancelGeneration at_ =>
        rw [hcancel at_ rfl]
        have hs := sameFences_purge .canceled (fun request => request.rig = at_)
          { y.sched with
            generations := Function.update y.sched.generations at_
              (bump64 (y.sched.generations at_)) }
        by_cases hr : at_ = rig
        · subst hr
          refine .bumped rfl ?_ (congrFun hs.fenceCounters _)
            fun time => congrFun hs.fenceTokens _
          have hbump : bump64 (y.sched.generations at_) = y.sched.generations at_ + 1 :=
            Nat.mod_eq_of_lt (hroom.1 at_ rfl)
          exact (congrFun hs.generations at_).trans ((Function.update_self ..).trans hbump)
        · refine .stands ?_ (congrFun hs.fenceCounters _) (fun time => congrFun hs.fenceTokens _)
            (by simpa using hr) (by simp)
          exact (congrFun hs.generations rig).trans (Function.update_of_ne (Ne.symm hr) ..)
    | resetRig at_ =>
        rw [hreset at_ rfl]
        have hs := sameFences_purge .canceled (fun request => request.rig = at_)
          { y.sched with
            fenceCounters := Function.update y.sched.fenceCounters at_ 0
            fenceTokens := fun place => if place.1 = at_ then 0 else y.sched.fenceTokens place }
        by_cases hr : at_ = rig
        · subst hr
          refine .restarted rfl (congrFun hs.generations _)
            ((congrFun hs.fenceCounters at_).trans (Function.update_self ..)) fun time => ?_
          exact (congrFun hs.fenceTokens (at_, time)).trans (if_pos rfl)
        · refine .stands (congrFun hs.generations _) ?_ (fun time => ?_) (by simp) (by simp)
          · exact (congrFun hs.fenceCounters rig).trans (Function.update_of_ne (Ne.symm hr) ..)
          · exact (congrFun hs.fenceTokens (rig, time)).trans (if_neg (Ne.symm hr))
    | cancelGenerationTimes at_ times =>
        rw [htimes at_ times rfl]
        have hs := sameFences_purge .canceled
          (fun request => request.rig = at_ ∧ request.time ∈ affectedTimes times)
          ((affectedTimes times).foldl (refence at_) y.sched)
        by_cases hr : at_ = rig
        · subst hr
          obtain ⟨hgen, hcount, hin, hout⟩ :=
            foldl_refence at_ (affectedTimes times) y.sched (hroom.2 at_ times rfl)
          have hcount' := (congrFun hs.fenceCounters at_).trans hcount
          refine .refenced times rfl ((congrFun hs.generations at_).trans (congrFun hgen at_)) hcount'
            (fun time ht => ?_) fun time ht => (congrFun hs.fenceTokens (at_, time)).trans (hout time ht)
          have htoken := congrFun hs.fenceTokens (at_, time)
          obtain ⟨hlt, hle⟩ := hin time ht
          exact ⟨hlt.trans_eq htoken.symm, (htoken.trans_le hle).trans_eq hcount'.symm⟩
        · obtain ⟨hgen, hcount, htoken⟩ :=
            foldl_refence_other at_ (affectedTimes times) y.sched (Ne.symm hr)
          refine .stands ((congrFun hs.generations rig).trans (congrFun hgen rig))
            ((congrFun hs.fenceCounters rig).trans hcount)
            (fun time => (congrFun hs.fenceTokens (rig, time)).trans (htoken time)) (by simp) ?_
          simp [hr]
    | _ => exact absurd rfl hmoves

/-! ## A request that has been left behind -/

section Requests

variable (s : BackgroundScheduler Rig Time Work) (rig : Rig) (generation : Nat)
  (time : TimeCode Time) (token : Nat)

/-- Every token in force was issued by the rig's counter. -/
def TokensIssued : Prop := ∀ value, s.fenceTokens (rig, value) ≤ s.fenceCounters rig

/-- The request's generation has passed, or it is the current one and the request's token is not
ahead of its time's. -/
def NotAhead : Prop :=
  generation < s.generations rig ∨
    s.generations rig = generation ∧
      ∀ value, time.usable = some value → token ≤ s.fenceTokens (rig, value)

/-- The request's generation has passed, or its time has a later token. -/
def Outdated : Prop :=
  generation < s.generations rig ∨
    s.generations rig = generation ∧
      ∃ value, time.usable = some value ∧ token < s.fenceTokens (rig, value)

end Requests

/-- A reset of the rig comes after the request's generation has passed. -/
def ResetAfterBump (rig : Rig) (generation : Nat) (y : System Rig Time Work)
    (event : Event Rig Time Work) : Prop :=
  event = .resetRig rig → y.sched.generations rig ≠ generation

/-- `CancelGeneration` of the rig, or `CancelGenerationTimes` covering the time. -/
def Event.supersedes (rig : Rig) (time : TimeCode Time) : Event Rig Time Work → Prop
  | .cancelGeneration at_ => at_ = rig
  | .cancelGenerationTimes at_ times =>
      at_ = rig ∧ ∃ value, time.usable = some value ∧ value ∈ affectedTimes times
  | _ => False

section Requests

variable {event : Event Rig Time Work} {s s' : BackgroundScheduler Rig Time Work} {rig : Rig}
  {generation : Nat} {time : TimeCode Time} {token : Nat}

omit [DecidableEq Rig] [FrameTime Time] in
theorem isWarmRequestCurrent_iff :
    s.isWarmRequestCurrent rig generation time token = true ↔
      s.generations rig = generation ∧
        (∀ value, time.usable = some value → s.fenceTokens (rig, value) = token) ∧
        (time.usable = none → token = 0) := by
  unfold isWarmRequestCurrent currentGeneration currentFenceToken
  by_cases hg : s.generations rig = generation
  · cases time.usable <;> simp [hg]
  · simp [hg]

omit [DecidableEq Rig] [FrameTime Time] in
theorem notAhead_of_current (h : s.isWarmRequestCurrent rig generation time token = true) :
    NotAhead s rig generation time token := by
  obtain ⟨hg, htoken, -⟩ := isWarmRequestCurrent_iff.mp h
  exact .inr ⟨hg, fun value hv => (htoken value hv).ge⟩

omit [DecidableEq Rig] [FrameTime Time] in
theorem Outdated.not_current (h : Outdated s rig generation time token) :
    s.isWarmRequestCurrent rig generation time token = false := by
  rw [← Bool.not_eq_true, isWarmRequestCurrent_iff]
  rintro ⟨hg, htoken, -⟩
  rcases h with hlt | ⟨-, value, hv, hlt⟩
  · omega
  · have := htoken value hv
    omega

omit [DecidableEq Rig] in
theorem TokensIssued.step (h : TokensIssued s rig) (hc : FenceChange event rig s s') :
    TokensIssued s' rig := by
  intro value
  have hv := h value
  cases hc with
  | stands _ hcount htoken _ _ => rw [hcount, htoken]; exact hv
  | bumped _ _ hcount htoken => rw [hcount, htoken]; exact hv
  | restarted _ _ _ htoken => rw [htoken]; exact Nat.zero_le _
  | refenced times _ _ hcount hin hout =>
      by_cases ht : value ∈ affectedTimes times
      · exact (hin value ht).2
      · rw [hcount, hout value ht]
        omega

omit [DecidableEq Rig] in
theorem NotAhead.step (h : NotAhead s rig generation time token) (hissued : TokensIssued s rig)
    (hreset : event = .resetRig rig → s.generations rig ≠ generation)
    (hc : FenceChange event rig s s') : NotAhead s' rig generation time token := by
  cases hc with
  | stands hgen _ htoken _ _ => simpa only [NotAhead, hgen, htoken] using h
  | bumped _ hgen _ _ =>
      refine .inl ?_
      rcases h with hlt | ⟨heq, -⟩ <;> omega
  | restarted hevent hgen _ _ =>
      rcases h with hlt | ⟨heq, -⟩
      · exact .inl (by omega)
      · exact absurd heq (hreset hevent)
  | refenced times _ hgen _ hin hout =>
      rw [NotAhead, hgen]
      refine h.imp_right fun ⟨heq, hle⟩ => ⟨heq, fun value hv => ?_⟩
      have hissue := hissued value
      have hbound := hle value hv
      by_cases ht : value ∈ affectedTimes times
      · have := hin value ht
        omega
      · rw [hout value ht]
        exact hbound

omit [DecidableEq Rig] in
theorem Outdated.step (h : Outdated s rig generation time token) (hissued : TokensIssued s rig)
    (hreset : event = .resetRig rig → s.generations rig ≠ generation)
    (hc : FenceChange event rig s s') : Outdated s' rig generation time token := by
  cases hc with
  | stands hgen _ htoken _ _ => simpa only [Outdated, hgen, htoken] using h
  | bumped _ hgen _ _ =>
      refine .inl ?_
      rcases h with hlt | ⟨heq, -⟩ <;> omega
  | restarted hevent hgen _ _ =>
      rcases h with hlt | ⟨heq, -⟩
      · exact .inl (by omega)
      · exact absurd heq (hreset hevent)
  | refenced times _ hgen _ hin hout =>
      rw [Outdated, hgen]
      refine h.imp_right fun ⟨heq, value, hv, hlt⟩ => ⟨heq, value, hv, ?_⟩
      have hissue := hissued value
      by_cases ht : value ∈ affectedTimes times
      · have := hin value ht
        omega
      · rw [hout value ht]
        exact hlt

omit [DecidableEq Rig] in
theorem NotAhead.supersede (h : NotAhead s rig generation time token)
    (hissued : TokensIssued s rig) (hsup : event.supersedes rig time)
    (hc : FenceChange event rig s s') : Outdated s' rig generation time token := by
  cases hc with
  | stands _ _ _ hcancel htimes =>
      cases event <;> simp only [Event.supersedes] at hsup
      · exact absurd (by rw [hsup]) hcancel
      · exact absurd (by rw [hsup.1]) (htimes _)
  | bumped _ hgen _ _ =>
      refine .inl ?_
      rcases h with hlt | ⟨heq, -⟩ <;> omega
  | restarted hevent _ _ _ => subst hevent; exact hsup.elim
  | refenced times hevent hgen _ hin _ =>
      subst hevent
      obtain ⟨-, value, hv, ht⟩ := hsup
      rw [Outdated, hgen]
      refine h.imp_right fun ⟨heq, hle⟩ => ⟨heq, value, hv, ?_⟩
      have hissue := hissued value
      have hbound := hle value hv
      have := hin value ht
      omega

end Requests

/-! ## Over a history -/

/-- How many generations and tokens an event issues. -/
def Event.issues : Event Rig Time Work → Nat
  | .cancelGeneration _ => 1
  | .cancelGenerationTimes _ times => (affectedTimes times).length
  | _ => 0

/-- How many generations and tokens a history issues. -/
def issuesOf : List (Event Rig Time Work) → Nat
  | [] => 0
  | event :: events => event.issues + issuesOf events

theorem meets_noWrap {y : System Rig Time Work} {events : List (Event Rig Time Work)} {issued : Nat}
    (hgen : ∀ rig, y.sched.generations rig ≤ issued)
    (hcount : ∀ rig, y.sched.fenceCounters rig ≤ issued)
    (hfew : issued + issuesOf events < UInt64.size) :
    Lib.Meets System.step NoWrap y events := by
  induction events generalizing y issued with
  | nil => trivial
  | cons event events ih =>
      simp only [issuesOf] at hfew
      have hroom : NoWrap y event := by
        refine ⟨fun rig he => ?_, fun rig times he => ?_⟩
        · have := hgen rig
          simp only [he, Event.issues] at hfew
          omega
        · have := hcount rig
          simp only [he, Event.issues] at hfew
          omega
      refine ⟨hroom, fun y' hstep => @ih y' (issued + event.issues) (fun rig => ?_)
        (fun rig => ?_) (by omega)⟩
      · have hg := hgen rig
        rcases step_fenceChange hstep hroom rig with
          ⟨h, -⟩ | ⟨he, h, -⟩ | ⟨-, h, -⟩ | ⟨-, -, h, -⟩
        · omega
        · simp only [he, Event.issues]
          omega
        · omega
        · omega
      · have hc := hcount rig
        rcases step_fenceChange hstep hroom rig with
          ⟨-, h, -⟩ | ⟨-, -, h, -⟩ | ⟨-, -, h, -⟩ | ⟨times, he, -, h, -⟩
        · omega
        · omega
        · omega
        · simp only [he, Event.issues]
          omega

theorem run_tokensIssued {y y' : System Rig Time Work} {events : List (Event Rig Time Work)}
    (h : ∀ rig, TokensIssued y.sched rig) (hroom : Lib.Meets System.step NoWrap y events)
    (hrun : Lib.run System.step y events = some y') (rig : Rig) : TokensIssued y'.sched rig :=
  Lib.run_invariant (P := fun y => ∀ rig, TokensIssued y.sched rig)
    (fun _ _ _ hy hc hstep rig => (hy rig).step (step_fenceChange hstep hc rig)) h hroom hrun rig

theorem generations_le {y y' : System Rig Time Work} {event : Event Rig Time Work}
    (h : y.step event = some y') (hroom : NoWrap y event) (rig : Rig) :
    y.sched.generations rig ≤ y'.sched.generations rig := by
  rcases step_fenceChange h hroom rig with ⟨hg, -⟩ | ⟨-, hg, -⟩ | ⟨-, hg, -⟩ | ⟨-, -, hg, -⟩ <;>
    omega

theorem run_generations_le {y y' : System Rig Time Work} {events : List (Event Rig Time Work)}
    (hroom : Lib.Meets System.step NoWrap y events)
    (hrun : Lib.run System.step y events = some y') (rig : Rig) :
    y.sched.generations rig ≤ y'.sched.generations rig :=
  Lib.run_relates (R := fun y y' => y.sched.generations rig ≤ y'.sched.generations rig)
    (fun _ => le_rfl) (fun h h' => h.trans h')
    (fun _ _ _ hc hstep => generations_le hstep hc rig) hroom hrun

/-- A `CancelGeneration` on the way moves the generation for good. -/
theorem run_generations_lt {y y' : System Rig Time Work} {events : List (Event Rig Time Work)}
    {rig : Rig} (hmem : .cancelGeneration rig ∈ events)
    (hroom : Lib.Meets System.step NoWrap y events)
    (hrun : Lib.run System.step y events = some y') :
    y.sched.generations rig < y'.sched.generations rig := by
  obtain ⟨pre, post, rfl⟩ := List.append_of_mem hmem
  obtain ⟨z, hpre, hlast⟩ := Lib.run_append_eq_some.mp hrun
  obtain ⟨z', hstep, hpost⟩ := Lib.run_cons_eq_some.mp hlast
  obtain ⟨hroomPre, hroomLast⟩ := hroom.append
  have hbefore := run_generations_le hroomPre hpre rig
  have hafter := run_generations_le ((hroomLast z hpre).2 z' hstep) hpost rig
  rcases step_fenceChange hstep (hroomLast z hpre).1 rig with
    ⟨-, -, -, hne, -⟩ | ⟨-, hbump, -⟩ | ⟨he, -⟩ | ⟨_, he, -⟩
  · exact absurd rfl hne
  · omega
  · cases he
  · cases he

section Requests

variable {y y' : System Rig Time Work} {events : List (Event Rig Time Work)} {rig : Rig}
  {generation : Nat} {time : TimeCode Time} {token : Nat}

theorem run_notAhead (hissued : TokensIssued y.sched rig)
    (h : NotAhead y.sched rig generation time token)
    (hroom : Lib.Meets System.step NoWrap y events)
    (hreset : Lib.Meets System.step (ResetAfterBump rig generation) y events)
    (hrun : Lib.run System.step y events = some y') :
    TokensIssued y'.sched rig ∧ NotAhead y'.sched rig generation time token :=
  Lib.run_invariant
    (P := fun y => TokensIssued y.sched rig ∧ NotAhead y.sched rig generation time token)
    (fun _ _ _ hy hc hstep =>
      have hchange := step_fenceChange hstep hc.1 rig
      ⟨hy.1.step hchange, hy.2.step hy.1 hc.2 hchange⟩)
    ⟨hissued, h⟩ (hroom.and hreset) hrun

theorem run_outdated (hissued : TokensIssued y.sched rig)
    (h : Outdated y.sched rig generation time token)
    (hroom : Lib.Meets System.step NoWrap y events)
    (hreset : Lib.Meets System.step (ResetAfterBump rig generation) y events)
    (hrun : Lib.run System.step y events = some y') :
    Outdated y'.sched rig generation time token :=
  (Lib.run_invariant
    (P := fun y => TokensIssued y.sched rig ∧ Outdated y.sched rig generation time token)
    (fun _ _ _ hy hc hstep =>
      have hchange := step_fenceChange hstep hc.1 rig
      ⟨hy.1.step hchange, hy.2.step hy.1 hc.2 hchange⟩)
    ⟨hissued, h⟩ (hroom.and hreset) hrun).2

theorem run_superseded {mid post : List (Event Rig Time Work)} {event : Event Rig Time Work}
    (hissued : TokensIssued y.sched rig) (h : NotAhead y.sched rig generation time token)
    (hsup : event.supersedes rig time)
    (hroom : Lib.Meets System.step NoWrap y (mid ++ event :: post))
    (hreset : Lib.Meets System.step (ResetAfterBump rig generation) y (mid ++ event :: post))
    (hrun : Lib.run System.step y (mid ++ event :: post) = some y') :
    Outdated y'.sched rig generation time token := by
  obtain ⟨yₘ, hmid, hlast⟩ := Lib.run_append_eq_some.mp hrun
  obtain ⟨yₑ, hstep, hpost⟩ := Lib.run_cons_eq_some.mp hlast
  obtain ⟨hroomMid, hroomLast⟩ := hroom.append
  obtain ⟨hresetMid, hresetLast⟩ := hreset.append
  -- up to the cancellation the request is at most current
  obtain ⟨hissuedMid, hnotAhead⟩ := run_notAhead hissued h hroomMid hresetMid hmid
  -- the cancellation leaves it behind, and behind it stays
  have hchange := step_fenceChange hstep (hroomLast yₘ hmid).1 rig
  exact run_outdated (hissuedMid.step hchange) (hnotAhead.supersede hissuedMid hsup hchange)
    ((hroomLast yₘ hmid).2 yₑ hstep) ((hresetLast yₘ hmid).2 yₑ hstep) hpost

/-- **The generation fence.**  A request that was current, and that a cancellation then superseded,
is never current again, however the history continues: as long as no counter wraps, and, where the
cancellation is of times, no reset of the rig happens inside the request's generation. -/
theorem generationFence {y₀ y₁ : System Rig Time Work} {pre mid post : List (Event Rig Time Work)}
    {event : Event Rig Time Work}
    (hpre : System.history pre = some y₀)
    (hcurrent : y₀.sched.isWarmRequestCurrent rig generation time token = true)
    (hrun : Lib.run System.step y₀ (mid ++ event :: post) = some y₁)
    (hsup : event.supersedes rig time)
    (hroom : Lib.Meets System.step NoWrap {} (pre ++ (mid ++ event :: post)))
    (hreset : event ≠ .cancelGeneration rig →
      Lib.Meets System.step (ResetAfterBump rig generation) y₀ (mid ++ event :: post)) :
    y₁.sched.isWarmRequestCurrent rig generation time token = false := by
  obtain ⟨hroomPre, hroomRest⟩ := hroom.append
  have hissued := run_tokensIssued (fun _ _ => Nat.le_refl 0) hroomPre hpre rig
  by_cases hcancel : event = .cancelGeneration rig
  · -- the generation has moved for good
    have hmem : Event.cancelGeneration rig ∈ mid ++ event :: post := by
      rw [hcancel]
      exact List.mem_append_right mid List.mem_cons_self
    have hlt := run_generations_lt hmem (hroomRest y₀ hpre) hrun
    refine Outdated.not_current (.inl ?_)
    rw [← (isWarmRequestCurrent_iff.mp hcurrent).1]
    exact hlt
  · exact (run_superseded hissued (notAhead_of_current hcurrent) hsup (hroomRest y₀ hpre)
      (hreset hcancel) hrun).not_current

end Requests

end Steps

/-- A queued job's request, superseded by a scoped cancellation; another rig is reset after it. -/
theorem generationFence_scoped :
    ∃ y₀ y₁ : System Nat Int Unit,
      System.history [.enqueue true 0 (.numeric 1) .sweep 0 (some ())] = some y₀ ∧
      y₀.sched.isWarmRequestCurrent 0 0 (.numeric 1) 0 = true ∧
      Lib.run System.step y₀ [.cancelGenerationTimes 0 [.numeric 1], .resetRig 1] = some y₁ ∧
      y₁.sched.isWarmRequestCurrent 0 0 (.numeric 1) 0 = false := by
  refine ⟨_, _, rfl, rfl, rfl, ?_⟩
  refine @generationFence Nat Int Unit _ _ 0 0 (.numeric 1) 0 _ _
    [.enqueue true 0 (.numeric 1) .sweep 0 (some ())] [] [.resetRig 1]
    (.cancelGenerationTimes 0 [.numeric 1]) rfl rfl rfl ⟨rfl, 1, rfl, by decide⟩ ?_ ?_
  · exact meets_noWrap (fun _ => Nat.le_refl 0) (fun _ => Nat.le_refl 0) (by decide)
  · intro _
    exact ⟨fun h => (nomatch h), fun _ _ => ⟨fun h => absurd h (by simp), fun _ _ => trivial⟩⟩

/-- A scoped cancellation and then a reset inside one generation: the reset hands token 0 out
again, so the request of the running job, superseded by the cancellation, is current again. -/
theorem reset_revives_request :
    ∃ y₀ y₁ y₂ : System Nat Int Unit,
      System.history [.enqueue true 0 (.numeric 1) .sweep 0 (some ()), .popJob] = some y₀ ∧
      (y₀.hands.map PoppedJob.request) = [⟨0, 1, .sweep, 0, 0⟩] ∧
      y₀.sched.isWarmRequestCurrent 0 0 (.numeric 1) 0 = true ∧
      y₀.step (.cancelGenerationTimes 0 [.numeric 1]) = some y₁ ∧
      y₁.sched.isWarmRequestCurrent 0 0 (.numeric 1) 0 = false ∧
      y₁.step (.resetRig 0) = some y₂ ∧
      y₂.sched.isWarmRequestCurrent 0 0 (.numeric 1) 0 = true :=
  ⟨_, _, _, rfl, rfl, rfl, rfl, rfl, rfl, rfl⟩

end RigExec.Scheduler
