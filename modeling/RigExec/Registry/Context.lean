/-
# `RigExec.Registry.Context` — an imaging context: one index, schedulers that come and go

A registry context owns the warm-frame index for as long as it lives.  The
background scheduler it owns only while a rig is active: `_Deactivate` hands it
to its own destructor and the next `_Activate` makes a new one.  Both keep a
generation for each rig,

    scheduler    counts `CancelGeneration`, from 0 at every construction
    index        is told by `NoteGeneration`, and is never reset

and a completion is stamped with one of them: a background job's with the
generation it was queued under, a live memo's with the index's.

A step is what one thread does under one lock: a registry call under the
registry mutex, a scheduler critical section, one call on the index.  The
fenced publication of a worker is two steps, the check and the record, because
the registry cancels and deactivates without the fence too.  A scheduler that
was dropped goes on in `retired` until its workers are joined.  The registry's
calls are not held back between the atomics of `NoteRequestPublished`, which
allows more histories than its mutex does.
-/
import RigExec.Scheduler.Fence
import RigExec.WarmIndex.Completions
import Mathlib.Data.List.Dedup

namespace RigExec.Registry

open RigExec.Scheduler RigExec.WarmIndex

variable {Rig Time Work : Type}

/-! ## A scheduler and the index behind its hook -/

/-- `_scheduler` and `_warmIndex`, as the registry's helpers find them. -/
structure Warming (Rig Time Work : Type) where
  sched : BackgroundScheduler Rig Time Work
  index : WarmFrameIndex Rig Time

namespace Warming

section

variable [DecidableEq Rig] [DecidableEq Time]

/-- The scheduler moves on, and its transition hook tells the index what it reported. -/
def moveTo (w : Warming Rig Time Work) (sched : BackgroundScheduler Rig Time Work) :
    Warming Rig Time Work where
  sched := sched
  index := (sched.reported.drop w.sched.reported.length).foldl WarmFrameIndex.noteTransition w.index

/-- `_CancelGenerationLocked`, of a context that has a scheduler. -/
def cancelGenerationLocked (w : Warming Rig Time Work) (rig : Rig) : Warming Rig Time Work :=
  let moved := w.moveTo (w.sched.cancelGeneration rig)
  { moved with index := moved.index.noteGeneration rig (moved.sched.currentGeneration rig) }

/-- `RigExecBackgroundScheduler::ResetRig`, after the index's. -/
def resetRig (w : Warming Rig Time Work) (rig : Rig) : Warming Rig Time Work :=
  { w with index := w.index.resetRig rig }.moveTo (w.sched.resetRig rig)

/-- The commit of `_Activate`, one session: its in-flight jobs are retired when it has any. -/
def retireInFlight (w : Warming Rig Time Work) (rig : Rig) : Warming Rig Time Work :=
  if w.sched.inFlightCount rig > 0 then w.cancelGenerationLocked rig else w

end

end Warming

/-! ## The context -/

/-- A worker's completion between the fence check and the record. -/
structure Completion (Rig Time : Type) where
  rig : Rig
  time : Time
  key : FrameCacheKey
  generation : Nat

/-- What the claims about generations read of `RigExecImagingRegistry`. -/
structure Context (Rig Time Work : Type) where
  scheduler : Option (System Rig Time Work) := none
  retired : List (System Rig Time Work) := []
  desk : Desk Rig Time := {}
  sessions : List Rig := []
  recording : Nat → Option (Completion Rig Time) := fun _ => none

inductive ContextEvent (Rig Time Work : Type) where
  /-- An index call that neither records a completion nor moves a generation: a request
  publication, an eviction, a dirty mark, a reset. -/
  | index (event : DeskEvent Rig Time)
  /-- `NoteCompleted` under the index's own generation: a live memo, a sparse serve, a carry. -/
  | liveMemo (rig : Rig) (time : Time) (key : FrameCacheKey)
  /-- The commit of `_Activate`. -/
  | activate (rigs : List Rig)
  /-- `_Deactivate`. -/
  | deactivate
  /-- The last holder of a retired scheduler has joined its workers. -/
  | join (which : Nat)
  /-- `_CancelGenerationLocked`. -/
  | cancelGeneration (rig : Rig)
  /-- The scheduler half of a scoped retirement. -/
  | cancelGenerationTimes (rig : Rig) (times : List (TimeCode Time))
  /-- A critical section of the context's scheduler that is no fence operation. -/
  | scheduler (event : Event Rig Time Work)
  /-- The same for a retired one. -/
  | retired (which : Nat) (event : Event Rig Time Work)
  /-- `RigExecPublishBackgroundCompletion` up to the cache insert, against the scheduler the job
  runs in: the context's, or a retired one. -/
  | insert (worker : Nat) (source : Option Nat) (request : WarmRequest Rig Time)
      (key : FrameCacheKey)
  /-- Its `NoteCompleted`. -/
  | record (worker : Nat)

namespace Context

variable (c : Context Rig Time Work)

def index : WarmFrameIndex Rig Time := c.desk.index

def setIndex (index : WarmFrameIndex Rig Time) : Context Rig Time Work :=
  { c with desk := { c.desk with index } }

/-- The scheduler a job runs in. -/
def source : Option Nat → Option (System Rig Time Work)
  | none => c.scheduler
  | some which => c.retired[which]?

section

variable [DecidableEq Rig] [FrameTime Time]

/-- A registry call on the scheduler and the index behind it. -/
def withWarming (edit : Warming Rig Time Work → Warming Rig Time Work) : Context Rig Time Work :=
  match c.scheduler with
  | none => c
  | some system =>
      let edited := edit ⟨system.sched, c.index⟩
      { c with scheduler := some { system with sched := edited.sched } }.setIndex edited.index

/-- The commit of `_Activate`: the scheduler is made when there is none, and the sessions of the
sorted, unique paths replace the old ones. -/
def activate (rigs : List Rig) : Context Rig Time Work :=
  { c with
    sessions := rigs.dedup
    scheduler := some (c.scheduler.getD {}) }.withWarming fun w =>
      rigs.dedup.foldl Warming.retireInFlight w

/-- `_Deactivate`: every session's records and fence tokens go, and the scheduler is dropped. -/
def deactivate : Context Rig Time Work :=
  match c.scheduler with
  | none => { c with sessions := [] }.setIndex (c.sessions.foldl WarmFrameIndex.resetRig c.index)
  | some system =>
      let reset := c.sessions.foldl Warming.resetRig ⟨system.sched, c.index⟩
      { c with
        scheduler := none
        retired := c.retired ++ [{ system with sched := reset.sched }]
        sessions := [] }.setIndex reset.index

/-- A critical section of one scheduler, with its hook. -/
def stepSystem (system : System Rig Time Work) (event : Event Rig Time Work) :
    Option (System Rig Time Work × WarmFrameIndex Rig Time) :=
  if event.movesFence then none
  else (system.step event).map fun next =>
    (next, (Warming.moveTo ⟨system.sched, c.index⟩ next.sched).index)

/-- One step of one thread. -/
def step (c : Context Rig Time Work) :
    ContextEvent Rig Time Work → Option (Context Rig Time Work)
  | .index event =>
      if passive event then (c.desk.step event).map fun desk => { c with desk } else none
  | .liveMemo rig time key =>
      some (c.setIndex (c.index.noteCompleted rig time key (c.index.generations rig)))
  | .activate rigs => some (c.activate rigs)
  | .deactivate => some c.deactivate
  | .join which => some { c with retired := c.retired.eraseIdx which }
  | .cancelGeneration rig => some (c.withWarming fun w => w.cancelGenerationLocked rig)
  | .cancelGenerationTimes rig times =>
      some (c.withWarming fun w => w.moveTo (w.sched.cancelGenerationTimes rig times))
  | .scheduler event =>
      c.scheduler.bind fun system => (c.stepSystem system event).map fun next =>
        { c with scheduler := some next.1 }.setIndex next.2
  | .retired which event =>
      c.retired[which]?.bind fun system => (c.stepSystem system event).map fun next =>
        { c with retired := c.retired.set which next.1 }.setIndex next.2
  | .insert worker source request key =>
      match c.source source, c.recording worker with
      | some system, none =>
          if system.sched.isWarmRequestCurrent request.rig request.generation
              (.numeric request.time) request.fenceToken then
            some { c with
              recording := Function.update c.recording worker
                (some ⟨request.rig, request.time, key, request.generation⟩) }
          else some c
      | _, _ => none
  | .record worker =>
      match c.recording worker with
      | some done =>
          some ({ c with recording := Function.update c.recording worker none }.setIndex
            (c.index.noteCompleted done.rig done.time done.key done.generation))
      | none => none

/-- A history of a context from its construction. -/
abbrev history (events : List (ContextEvent Rig Time Work)) : Option (Context Rig Time Work) :=
  Lib.run step {} events

end

/-! ## Lookups, and what the steps do to a rig -/

section

variable [DecidableEq Rig]

/-- Whether a step calls `CancelGeneration` of the rig. -/
def cancels (c : Context Rig Time Work) (event : ContextEvent Rig Time Work) (rig : Rig) : Prop :=
  match event with
  | .cancelGeneration at_ => at_ = rig ∧ c.scheduler.isSome
  | .activate rigs => rig ∈ rigs ∧ ∃ system, c.scheduler = some system ∧
      system.sched.inFlightCount rig > 0
  | _ => False

/-- The completion a step records: its place, its key and the generation it is stamped with. -/
def stamps (c : Context Rig Time Work) (event : ContextEvent Rig Time Work) :
    Option (Completion Rig Time) :=
  match event with
  | .liveMemo rig time key => some ⟨rig, time, key, c.index.generations rig⟩
  | .record worker => c.recording worker
  | _ => none

/-- A lookup of the rig under the index's current generation. -/
def lookup (c : Context Rig Time Work) (rig : Rig) (time : Time) (epochDigest : UInt64) :
    Option FrameCacheKey :=
  c.index.findCachedKey rig time (c.index.generations rig) epochDigest

end

end Context

end RigExec.Registry
