/-
# `RigExec.Scheduler.Model` — the background scheduler, one critical section at a time

`RigExecBackgroundScheduler` is an object behind one mutex.  Each of its
critical sections is a function on `BackgroundScheduler` here, under the name of
the method it belongs to; a method that takes the lock more than once (a
trigger's `_EnqueueTriggerTime`, a worker's `_ExecutePoppedJob`) is more than
one function, and what the calling thread remembers between two of them is part
of `System`.  `System.step` then lets every thread take its next critical
section at any time, which is every interleaving the mutex allows.

    source                                  here
    std::map<SdfPath, T>                    Rig → T, an absent entry reading as 0
    std::map<pair<SdfPath, double>, T>      Rig × Time → T
    std::map<_QueueKey, _QueuedJob>         a list of pairs in key order
    uint64_t that only counts edits         Nat reduced modulo 2^64
    size_t statistics                       Nat
    uint64_t `sequence` of the queue        Nat

Rigs, frame times and the closures a worker runs are type parameters.
The condition variable and the profiler are left out: neither is read by a
decision.
-/
import RigExec.Lib.Machine
import RigExec.Lib.SortedList
import RigExec.Time
import Mathlib.Logic.Function.Basic

namespace RigExec

/-- `++counter` on a `uint64_t`. -/
def bump64 (n : Nat) : Nat := (n + 1) % UInt64.size

namespace Scheduler

/-! ## Requests, outcomes, transitions -/

inductive WarmPriority where
  | neighbor
  | sweep
deriving DecidableEq

/-- The enumerator's value: lower runs first. -/
def WarmPriority.value : WarmPriority → Nat
  | .neighbor => 0
  | .sweep => 1

inductive WarmOutcome where
  | published
  | declinedInvalid
  | declinedGeneration
deriving DecidableEq

inductive WarmSkipReason where
  | none
  | freezeRefused
  | unsampleable
  | d7Exempt
deriving DecidableEq

inductive WarmTransitionKind where
  | queued
  | running
  | finished
  | canceled
  | shed
  | droppedStale
  | droppedAtShutdown
deriving DecidableEq

structure WarmTransition (Rig Time : Type) where
  rig : Rig
  timeValue : Time
  kind : WarmTransitionKind
  outcome : WarmOutcome
deriving DecidableEq

/-- `RigExecWarmRequest`.  Only finite numeric times are ever queued, so the time is its value. -/
structure WarmRequest (Rig Time : Type) where
  rig : Rig
  time : Time
  priority : WarmPriority
  generation : Nat
  fenceToken : Nat
deriving DecidableEq

structure QueuedJob (Rig Time Work : Type) where
  request : WarmRequest Rig Time
  work : Work

structure WarmFactoryResult (Work : Type) where
  work : Option Work
  skip : WarmSkipReason

structure QueueKey where
  priority : WarmPriority
  sequence : Nat
deriving DecidableEq

/-- `_QueueKey::operator<`: priority first, then enqueue sequence. -/
def QueueKey.before (a b : QueueKey) : Bool :=
  if a.priority ≠ b.priority then a.priority.value < b.priority.value
  else a.sequence < b.sequence

/-- `std::map::emplace` on the queue: in key order, and nothing when the key is held. -/
def emplace {Job : Type} (key : QueueKey) (job : Job) :
    List (QueueKey × Job) → List (QueueKey × Job)
  | [] => [(key, job)]
  | entry :: rest =>
      if key.before entry.1 then (key, job) :: entry :: rest
      else if key = entry.1 then entry :: rest
      else entry :: emplace key job rest

/-! ## The object behind the mutex -/

/-- `RigExecBackgroundScheduler`.  `reported` is every transition the hook was given, in order. -/
structure BackgroundScheduler (Rig Time Work : Type) where
  generations : Rig → Nat := fun _ => 0
  queue : List (QueueKey × QueuedJob Rig Time Work) := []
  queuedByRigAndTime : Rig × Time → Option QueueKey := fun _ => none
  runningByRigAndTime : Rig × Time → Nat := fun _ => 0
  fenceTokens : Rig × Time → Nat := fun _ => 0
  fenceCounters : Rig → Nat := fun _ => 0
  inFlight : Rig → Nat := fun _ => 0
  sequence : Nat := 0
  running : Nat := 0
  completed : Nat := 0
  published : Nat := 0
  declinedInvalid : Nat := 0
  declinedGeneration : Nat := 0
  droppedStale : Nat := 0
  canceled : Nat := 0
  shed : Nat := 0
  coalesced : Nat := 0
  upgraded : Nat := 0
  declined : Nat := 0
  declinedFreezeRefused : Nat := 0
  declinedUnsampleable : Nat := 0
  declinedD7Exempt : Nat := 0
  factoryInvocations : Nat := 0
  droppedAtShutdown : Nat := 0
  perRigCap : Nat := 96
  stopping : Bool := false
  reported : List (WarmTransition Rig Time) := []

variable {Rig Time Work : Type}

namespace BackgroundScheduler

variable (s : BackgroundScheduler Rig Time Work)

/-- `_ReportTransitionLocked`. -/
def reportTransition (request : WarmRequest Rig Time)
    (kind : WarmTransitionKind) (outcome : WarmOutcome := .published) :
    BackgroundScheduler Rig Time Work :=
  { s with reported := s.reported ++ [⟨request.rig, request.time, kind, outcome⟩] }

def currentGeneration (rig : Rig) : Nat :=
  s.generations rig

def inFlightCount (rig : Rig) : Nat := s.inFlight rig

def isGenerationCurrent (rig : Rig) (generation : Nat) : Bool :=
  s.currentGeneration rig == generation

/-- `_CurrentFenceTokenLocked`: 0 is the never-purged token. -/
def currentFenceToken (rig : Rig) (time : Time) : Nat :=
  s.fenceTokens (rig, time)

def isWarmRequestCurrent (rig : Rig) (generation : Nat)
    (time : TimeCode Time) (fenceToken : Nat) : Bool :=
  if s.currentGeneration rig ≠ generation then false
  else match time.usable with
    | none => fenceToken == 0
    | some value => s.currentFenceToken rig value == fenceToken

section
variable [DecidableEq Rig] [DecidableEq Time]

/-- The counter a purged job lands in. -/
def countPurged : WarmTransitionKind → BackgroundScheduler Rig Time Work
  | .canceled => { s with canceled := s.canceled + 1 }
  | .shed => { s with shed := s.shed + 1 }
  | .droppedAtShutdown => { s with droppedAtShutdown := s.droppedAtShutdown + 1 }
  | _ => s

/-- The body of the purge loops for one job: the coalescing index, the report, the in-flight
count (erased at zero, so an absent entry stays absent) and the loop's own counter. -/
def dropQueued (kind : WarmTransitionKind) (s : BackgroundScheduler Rig Time Work)
    (job : QueuedJob Rig Time Work) : BackgroundScheduler Rig Time Work :=
  countPurged
    (reportTransition
      { s with
        queuedByRigAndTime :=
          Function.update s.queuedByRigAndTime (job.request.rig, job.request.time) none
        inFlight := Function.update s.inFlight job.request.rig (s.inFlight job.request.rig - 1) }
      job.request kind)
    kind

/-- The purge loop `CancelGeneration`, `ResetRig`, `CancelGenerationTimes`,
`NotePlaybackAdvanced` and the destructor share: every queued job `picked` leaves the queue. -/
def purge (kind : WarmTransitionKind) (picked : WarmRequest Rig Time → Bool)
    (s : BackgroundScheduler Rig Time Work) : BackgroundScheduler Rig Time Work :=
  (s.queue.filter fun entry => picked entry.2.request).foldl (fun s entry => dropQueued kind s entry.2)
    { s with queue := s.queue.filter fun entry => !picked entry.2.request }

def cancelGeneration (rig : Rig) : BackgroundScheduler Rig Time Work :=
  purge .canceled (fun request => request.rig = rig)
    { s with generations := Function.update s.generations rig (bump64 (s.generations rig)) }

/-- `ResetRig`.  Generations stand; the fence tokens, the queued jobs and the in-flight entry of
the rig go. -/
def resetRig (rig : Rig) : BackgroundScheduler Rig Time Work :=
  let purged := purge .canceled (fun request => request.rig = rig)
    { s with
      fenceCounters := Function.update s.fenceCounters rig 0
      fenceTokens := fun at_ => if at_.1 = rig then 0 else s.fenceTokens at_ }
  { purged with inFlight := Function.update purged.inFlight rig 0 }

/-- One affected time of `CancelGenerationTimes`: the rig's next fence token. -/
def refence (rig : Rig) (s : BackgroundScheduler Rig Time Work) (time : Time) :
    BackgroundScheduler Rig Time Work :=
  let token := bump64 (s.fenceCounters rig)
  { s with
    fenceCounters := Function.update s.fenceCounters rig token
    fenceTokens := Function.update s.fenceTokens (rig, time) token }

/-- The promotion inside `_MergeIfQueuedLocked`: a queued sweep job becomes a neighbour job and
keeps its enqueue sequence. -/
def promote (rig : Rig) (time : Time) (oldKey : QueueKey)
    (job : QueuedJob Rig Time Work) : BackgroundScheduler Rig Time Work :=
  let promoted := { job with request := { job.request with priority := .neighbor } }
  let newKey : QueueKey := ⟨.neighbor, oldKey.sequence⟩
  { s with
    queue := emplace newKey promoted (s.queue.filter fun entry => entry.1 ≠ oldKey)
    queuedByRigAndTime := Function.update s.queuedByRigAndTime (rig, time) (some newKey)
    upgraded := s.upgraded + 1 }

/-- `_MergeIfQueuedLocked`: `none` when the time is not queued, else the merged state. -/
def mergeIfQueued (rig : Rig) (time : Time)
    (priority : WarmPriority) : Option (BackgroundScheduler Rig Time Work) :=
  match s.queuedByRigAndTime (rig, time) with
  | none => none
  | some oldKey =>
      match s.queue.find? fun entry => entry.1 = oldKey with
      | some (_, job) =>
          if priority = .neighbor ∧ job.request.priority = .sweep then
            some (s.promote rig time oldKey job)
          else some { s with coalesced := s.coalesced + 1 }
      | none => some { s with coalesced := s.coalesced + 1 }

/-- The tail `Enqueue` and `_EnqueueTriggerTime` share: a new job enters the queue under the
time's current fence token. -/
def insertJob (rig : Rig) (time : Time) (priority : WarmPriority) (generation : Nat) (work : Work) :
    BackgroundScheduler Rig Time Work :=
  let request : WarmRequest Rig Time :=
    { rig, time, priority, generation, fenceToken := s.currentFenceToken rig time }
  let key : QueueKey := ⟨priority, s.sequence⟩
  reportTransition
    { s with
      sequence := s.sequence + 1
      queue := emplace key ⟨request, work⟩ s.queue
      queuedByRigAndTime :=
        match s.queuedByRigAndTime (rig, time) with
        | none => Function.update s.queuedByRigAndTime (rig, time) (some key)
        | some _ => s.queuedByRigAndTime
      inFlight := Function.update s.inFlight rig (s.inFlight rig + 1) }
    request .queued

/-- `Enqueue`.  `warming` is the live fill gate, `work = none` an empty closure. -/
def enqueue (warming : Bool) (rig : Rig)
    (time : TimeCode Time) (priority : WarmPriority) (generation : Nat) (work : Option Work) :
    Bool × BackgroundScheduler Rig Time Work :=
  if warming = false then (false, { s with declined := s.declined + 1 })
  else match time.usable, work with
    | some value, some work =>
        if s.stopping then (false, { s with declined := s.declined + 1 })
        else if s.currentGeneration rig ≠ generation then
          (false, { s with declined := s.declined + 1 })
        else match s.mergeIfQueued rig value priority with
          | some merged => (true, merged)
          | none =>
              if s.inFlight rig ≥ s.perRigCap then (false, { s with declined := s.declined + 1 })
              else (true, s.insertJob rig value priority generation work)
    | _, _ => (false, { s with declined := s.declined + 1 })

/-- How one critical section of `_EnqueueTriggerTime` ends. -/
inductive TriggerOutcome (σ : Type) where
  | stop
  | skipped (s : σ)
  | proceed (s : σ)

/-- The decision both critical sections of `_EnqueueTriggerTime` make: stopping and generation,
then the queued set, then the cap. -/
def decideTrigger (rig : Rig) (time : Time) (priority : WarmPriority) (generation : Nat) :
    TriggerOutcome (BackgroundScheduler Rig Time Work) :=
  if s.stopping ∨ s.currentGeneration rig ≠ generation then .stop
  else match s.mergeIfQueued rig time priority with
    | some merged => .skipped merged
    | none => if s.inFlight rig ≥ s.perRigCap then .stop else .proceed s

/-- The second critical section of `_EnqueueTriggerTime`: everything is decided again, then the
sampled work is queued. -/
def insertTriggerTime (rig : Rig) (time : Time)
    (priority : WarmPriority) (generation : Nat) (work : Work) :
    TriggerOutcome (BackgroundScheduler Rig Time Work) :=
  match s.decideTrigger rig time priority generation with
  | .proceed s => .proceed (s.insertJob rig time priority generation work)
  | decided => decided

/-- A factory that built no work: a reasoned skip counts declined and its own breakout. -/
def declineSkip : WarmSkipReason → BackgroundScheduler Rig Time Work
  | .none => s
  | .freezeRefused =>
      { s with declined := s.declined + 1, declinedFreezeRefused := s.declinedFreezeRefused + 1 }
  | .unsampleable =>
      { s with declined := s.declined + 1, declinedUnsampleable := s.declinedUnsampleable + 1 }
  | .d7Exempt => { s with declined := s.declined + 1, declinedD7Exempt := s.declinedD7Exempt + 1 }

/-- `_PopJob` without the wait: the first queued job, unless the pool is stopping. -/
def popJob : Option (QueuedJob Rig Time Work × BackgroundScheduler Rig Time Work) :=
  if s.stopping then none
  else match s.queue with
    | [] => none
    | (_, job) :: rest =>
        let at_ := (job.request.rig, job.request.time)
        some (job, reportTransition
          { s with
            queuedByRigAndTime := Function.update s.queuedByRigAndTime at_ none
            queue := rest
            running := s.running + 1
            runningByRigAndTime :=
              Function.update s.runningByRigAndTime at_ (s.runningByRigAndTime at_ + 1) }
          job.request .running)

/-- `_FinishJob`'s common part: the job leaves the running books and the in-flight count. -/
def retireRunning (request : WarmRequest Rig Time) : BackgroundScheduler Rig Time Work :=
  let at_ := (request.rig, request.time)
  { s with
    running := s.running - 1
    runningByRigAndTime := Function.update s.runningByRigAndTime at_ (s.runningByRigAndTime at_ - 1)
    inFlight := Function.update s.inFlight request.rig (s.inFlight request.rig - 1) }

/-- `_FinishJob`: `ran = none` is a stale drop, `ran = some outcome` a completion. -/
def finishJob (request : WarmRequest Rig Time) :
    Option WarmOutcome → BackgroundScheduler Rig Time Work
  | none =>
      let s := s.retireRunning request
      reportTransition { s with droppedStale := s.droppedStale + 1 } request .droppedStale
  | some outcome =>
      let s := s.retireRunning request
      let s := { s with completed := s.completed + 1 }
      let s := match outcome with
        | .published => { s with published := s.published + 1 }
        | .declinedGeneration => { s with declinedGeneration := s.declinedGeneration + 1 }
        | .declinedInvalid => { s with declinedInvalid := s.declinedInvalid + 1 }
      reportTransition s request .finished outcome

/-- The destructor after the join: what is still queued is dropped and counted. -/
def dropAllQueued : BackgroundScheduler Rig Time Work :=
  { purge .droppedAtShutdown (fun _ => true) s with queuedByRigAndTime := fun _ => none }

end

section
variable [DecidableEq Rig] [FrameTime Time]

/-- The times `CancelGenerationTimes` affects, in the order of its `std::map`. -/
def affectedTimes (times : List (TimeCode Time)) : List Time :=
  Lib.sortUnique (times.filterMap TimeCode.usable)

def cancelGenerationTimes (rig : Rig)
    (times : List (TimeCode Time)) : BackgroundScheduler Rig Time Work :=
  let affected := affectedTimes times
  purge .canceled (fun request => request.rig = rig ∧ request.time ∈ affected)
    (affected.foldl (refence rig) s)

/-- `NotePlaybackAdvanced`: queued sweep work at or behind the playhead is shed. -/
def notePlaybackAdvanced (rig : Rig)
    (playhead : TimeCode Time) : BackgroundScheduler Rig Time Work :=
  match playhead.usable with
  | none => s
  | some value =>
      purge .shed
        (fun request => request.rig = rig ∧ request.priority = .sweep ∧ ¬ request.time > value) s

end

end BackgroundScheduler

/-! ## The threads around it -/

/-- Where a worker stands with the job it popped. -/
inductive HandPhase where
  | popped
  | stale
  | working
deriving DecidableEq

/-- A job outside the queue, in the hands of a worker or of a manual drain. -/
structure PoppedJob (Rig Time Work : Type) where
  job : QueuedJob Rig Time Work
  phase : HandPhase

/-- `RigExecWarmSamplingBudget`: the invocation bound, and whether there is a millisecond stop. -/
structure SamplingBudget where
  maxFactoryInvocations : Option Nat
  timed : Bool

/-- Where a trigger stands inside `_EnqueueTriggerTime`. -/
inductive TriggerPhase (Time Work : Type) where
  | between
  | admitted (time : Time) (priority : WarmPriority)
  | sampled (time : Time) (priority : WarmPriority) (built : WarmFactoryResult Work)
  | noted (time : Time) (priority : WarmPriority) (built : WarmFactoryResult Work)

/-- A trigger call in progress: the times it has left, its budget ledger and its return value. -/
structure Trigger (Rig Time Work : Type) where
  rig : Rig
  generation : Nat
  pending : List (TimeCode Time × WarmPriority)
  budget : SamplingBudget
  invocations : Nat := 0
  enqueued : Nat := 0
  phase : TriggerPhase Time Work := .between

/-- The scheduler, the jobs in hand, and the trigger calls in progress by calling thread. -/
structure System (Rig Time Work : Type) where
  sched : BackgroundScheduler Rig Time Work := {}
  hands : List (PoppedJob Rig Time Work) := []
  triggers : Nat → Option (Trigger Rig Time Work) := fun _ => none
  destroyed : Bool := false

/-- The critical sections, and the steps threads take between them. -/
inductive Event (Rig Time Work : Type) where
  | cancelGeneration (rig : Rig)
  | resetRig (rig : Rig)
  | cancelGenerationTimes (rig : Rig) (times : List (TimeCode Time))
  | enqueue (warming : Bool) (rig : Rig) (time : TimeCode Time) (priority : WarmPriority)
      (generation : Nat) (work : Option Work)
  | onEditCommitted (thread : Nat) (warming : Bool) (rig : Rig) (playhead : TimeCode Time)
      (generation : Nat) (sweepTimes : List (TimeCode Time)) (factory : Bool)
      (neighborRadius : Int) (budget : SamplingBudget)
  | onIdle (thread : Nat) (warming : Bool) (rig : Rig) (playhead : TimeCode Time)
      (generation : Nat) (sweepTimes : List (TimeCode Time)) (factory : Bool)
      (budget : SamplingBudget)
  | admitTrigger (thread : Nat)
  | sample (thread : Nat) (elapsed : Bool) (built : WarmFactoryResult Work)
  | noteInvocation (thread : Nat)
  | settle (thread : Nat)
  | notePlaybackAdvanced (rig : Rig) (playhead : TimeCode Time)
  | setPerRigJobCap (cap : Nat)
  | popJob
  | fence (hand : Nat)
  | finish (hand : Nat) (outcome : WarmOutcome)
  | stop
  | destroy

section
variable [DecidableEq Rig] [FrameTime Time]

/-- The scrub neighbours `±1 .. ±radius` of the playhead, closest first, the playhead left out. -/
def neighborTimes (playhead : Time) (radius : Int) : List (TimeCode Time × WarmPriority) :=
  ((List.range radius.toNat).flatMap fun n =>
      [FrameTime.offset playhead (-(n + 1 : Int)), FrameTime.offset playhead (n + 1 : Int)]).filter
    (fun time => time ≠ .numeric playhead) |>.map fun time => (time, .neighbor)

/-- `_EnqueueSweepTimes`: the sweep in order, the playhead left out. -/
def sweepTimesOf (playhead : Time) (times : List (TimeCode Time)) :
    List (TimeCode Time × WarmPriority) :=
  (times.filter fun time => time ≠ .numeric playhead).map fun time => (time, .sweep)

/-- The times `OnEditCommitted` and `OnIdle` enqueue, in order; without a factory there are none. -/
def triggerTimes (playhead : Time) (factory : Bool) (neighborRadius : Int)
    (sweep : List (TimeCode Time)) : List (TimeCode Time × WarmPriority) :=
  if factory then neighborTimes playhead neighborRadius ++ sweepTimesOf playhead sweep else []

namespace System

variable (y : System Rig Time Work)

/-- The calling thread starts a trigger; a closed gate or an unusable playhead enqueues nothing. -/
def startTrigger (thread : Nat) (warming : Bool) (rig : Rig) (playhead : TimeCode Time)
    (generation : Nat) (sweep : List (TimeCode Time)) (factory : Bool) (neighborRadius : Int)
    (budget : SamplingBudget) : Option (System Rig Time Work) :=
  match y.triggers thread, playhead.usable with
  | some _, _ => none
  | none, none => some y
  | none, some value =>
      if warming = false then some y
      else some { y with
        triggers := Function.update y.triggers thread
          (some { rig, generation, budget
                  pending := triggerTimes value factory neighborRadius sweep }) }

/-- Replace the calling thread's trigger. -/
def setTrigger (thread : Nat) (trigger : Option (Trigger Rig Time Work)) : System Rig Time Work :=
  { y with triggers := Function.update y.triggers thread trigger }

/-- First critical section of `_EnqueueTriggerTime` for the next pending time. -/
def admitTrigger (thread : Nat) : Option (System Rig Time Work) :=
  match y.triggers thread with
  | some trigger =>
      match trigger.phase, trigger.pending with
      | .between, [] => some (y.setTrigger thread none)
      | .between, (time, priority) :: rest =>
          match time.usable with
          | none => some (y.setTrigger thread (some { trigger with pending := rest }))
          | some value =>
              match y.sched.decideTrigger trigger.rig value priority trigger.generation with
              | .stop => some (y.setTrigger thread none)
              | .skipped merged =>
                  some ({ y with sched := merged }.setTrigger thread
                    (some { trigger with pending := rest }))
              | .proceed _ =>
                  some (y.setTrigger thread
                    (some { trigger with pending := rest, phase := .admitted value priority }))
      | _, _ => none
  | none => none

/-- The budget check and the factory call, outside the lock: the frame's inputs are sampled here.
`elapsed` is whether the millisecond stop has been reached. -/
def sample (thread : Nat) (elapsed : Bool) (built : WarmFactoryResult Work) :
    Option (System Rig Time Work) :=
  match y.triggers thread with
  | some trigger =>
      match trigger.phase with
      | .admitted time priority =>
          if (match trigger.budget.maxFactoryInvocations with
              | some most => decide (trigger.invocations ≥ most)
              | none => false) || (trigger.budget.timed && elapsed) then
            some (y.setTrigger thread none)
          else
            some (y.setTrigger thread (some { trigger with
              invocations := trigger.invocations + 1, phase := .sampled time priority built }))
      | _ => none
  | none => none

/-- `++_factoryInvocations`, in a critical section of its own. -/
def noteInvocation (thread : Nat) : Option (System Rig Time Work) :=
  match y.triggers thread with
  | some trigger =>
      match trigger.phase with
      | .sampled time priority built =>
          some ({ y with
              sched := { y.sched with factoryInvocations := y.sched.factoryInvocations + 1 } }.setTrigger
            thread (some { trigger with phase := .noted time priority built }))
      | _ => none
  | none => none

/-- The last critical section of `_EnqueueTriggerTime`: the skip's books, or the recheck and the
insert. -/
def settle (thread : Nat) : Option (System Rig Time Work) :=
  match y.triggers thread with
  | some trigger =>
      match trigger.phase with
      | .noted time priority built =>
          match built.work with
          | none =>
              some ({ y with sched := y.sched.declineSkip built.skip }.setTrigger thread
                (some { trigger with phase := .between }))
          | some work =>
              match y.sched.insertTriggerTime trigger.rig time priority trigger.generation work with
              | .stop => some (y.setTrigger thread none)
              | .skipped merged =>
                  some ({ y with sched := merged }.setTrigger thread
                    (some { trigger with phase := .between }))
              | .proceed inserted =>
                  some ({ y with sched := inserted }.setTrigger thread
                    (some { trigger with phase := .between, enqueued := trigger.enqueued + 1 }))
      | _ => none
  | none => none

/-- `_ExecutePoppedJob`'s pre-run fence. -/
def fence (hand : Nat) : Option (System Rig Time Work) :=
  match y.hands[hand]? with
  | some ⟨job, .popped⟩ =>
      let phase := if y.sched.isGenerationCurrent job.request.rig job.request.generation
        then .working else .stale
      some { y with hands := y.hands.set hand ⟨job, phase⟩ }
  | _ => none

/-- `_FinishJob` for a job in hand; the outcome is what the work returned and is ignored for a
stale drop. -/
def finish (hand : Nat) (outcome : WarmOutcome) : Option (System Rig Time Work) :=
  match y.hands[hand]? with
  | some ⟨job, .stale⟩ =>
      some { y with sched := y.sched.finishJob job.request none, hands := y.hands.eraseIdx hand }
  | some ⟨job, .working⟩ =>
      some { y with
        sched := y.sched.finishJob job.request (some outcome), hands := y.hands.eraseIdx hand }
  | _ => none

/-- `_PopJob` by a worker. -/
def popJob : Option (System Rig Time Work) :=
  match y.sched.popJob with
  | some (job, sched) => some { y with sched, hands := y.hands ++ [⟨job, .popped⟩] }
  | none => none

/-- One step of one thread. -/
def step (y : System Rig Time Work) (event : Event Rig Time Work) :
    Option (System Rig Time Work) :=
  if y.destroyed then none
  else match event with
    | .cancelGeneration rig => some { y with sched := y.sched.cancelGeneration rig }
    | .resetRig rig => some { y with sched := y.sched.resetRig rig }
    | .cancelGenerationTimes rig times =>
        some { y with sched := y.sched.cancelGenerationTimes rig times }
    | .enqueue warming rig time priority generation work =>
        some { y with sched := (y.sched.enqueue warming rig time priority generation work).2 }
    | .onEditCommitted thread warming rig playhead generation sweep factory radius budget =>
        y.startTrigger thread warming rig playhead generation sweep factory radius budget
    | .onIdle thread warming rig playhead generation sweep factory budget =>
        y.startTrigger thread warming rig playhead generation sweep factory 0 budget
    | .admitTrigger thread => y.admitTrigger thread
    | .sample thread elapsed built => y.sample thread elapsed built
    | .noteInvocation thread => y.noteInvocation thread
    | .settle thread => y.settle thread
    | .notePlaybackAdvanced rig playhead =>
        some { y with sched := y.sched.notePlaybackAdvanced rig playhead }
    | .setPerRigJobCap cap => some { y with sched := { y.sched with perRigCap := cap } }
    | .popJob => y.popJob
    | .fence hand => y.fence hand
    | .finish hand outcome => y.finish hand outcome
    | .stop => some { y with sched := { y.sched with stopping := true } }
    | .destroy =>
        -- The destructor joins every worker first: no job is in hand when it drops the queue.
        if y.sched.stopping ∧ y.hands = [] then
          some { y with sched := y.sched.dropAllQueued, destroyed := true }
        else none

/-- A history of the scheduler from its construction. -/
abbrev history (events : List (Event Rig Time Work)) : Option (System Rig Time Work) :=
  Lib.run step {} events

end System

end

end Scheduler

end RigExec
