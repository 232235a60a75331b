/-
# `RigExec.WarmIndex.Model` — the warm-frame index

`RigExecWarmFrameIndex` keeps two things per (rig, time): what is known of the
frame (its completion, its dirtiness, the queue flags the scheduler's hook
feeds) and, for the one explicit range request of a rig, a progress cell that
background jobs publish through.

    _frames        total function; an absent record reads as a default one,
                   which no query below tells from an absent one
    _requests      per rig, a token and the requested rows; a row holds a cell
                   or the null pointer
    shared_ptr     the number of a cell in `cells`: cells are shared, replaced
                   in the rows, and never taken back from who captured them

The index mutex makes each method one step.  A publication is two: the claim
(a compare-exchange) and the release store, with nothing held in between.
-/
import RigExec.Scheduler.Model
import RigExec.FrameCache.Model

namespace RigExec.WarmIndex

open RigExec.Scheduler

variable {Rig Time : Type}

/-! ## Records -/

inductive WarmFrameState where
  | uncached
  | warming
  | cached
  | dirty
deriving DecidableEq

structure Frame where
  hasCompletion : Bool := false
  key : FrameCacheKey := ⟨0, 0⟩
  completedGeneration : Nat := 0
  dirty : Bool := false
  queued : Bool := false
  running : Nat := 0
  streak : Nat := 0

/-- `_Progress::state`: unclaimed, claimed, ready. -/
inductive ProgressState where
  | unclaimed
  | claimed
  | ready
deriving DecidableEq

structure Progress where
  generation : Nat
  epochDigest : UInt64
  state : ProgressState

/-- `_Request`: `frames time = none` is a time that was not requested, `some none` a row with no
cell. -/
structure Request (Time : Type) where
  token : Nat
  frames : Time → Option (Option Nat)

/-- `RigExecWarmFrameIndex`, with every cell ever made. -/
structure WarmFrameIndex (Rig Time : Type) where
  frames : Rig × Time → Frame := fun _ => {}
  generations : Rig → Nat := fun _ => 0
  requests : Rig → Option (Request Time) := fun _ => none
  nextRequest : Nat := 0
  cells : List Progress := []

def stateFor (frame : Frame) (generation : Nat) (epochDigest : UInt64) : WarmFrameState :=
  if frame.queued ∨ frame.running > 0 then .warming
  else if frame.hasCompletion = false then .uncached
  else if frame.dirty then .dirty
  else if frame.completedGeneration ≠ generation then .dirty
  else if frame.key.epochDigest ≠ epochDigest then .dirty
  else .cached

/-- The completion rule of `FindCachedKey` and `States`, which no queue flag enters. -/
def Frame.currentCompletion (frame : Frame) (generation : Nat) (epochDigest : UInt64) : Bool :=
  frame.hasCompletion && !frame.dirty && frame.completedGeneration == generation &&
    frame.key.epochDigest == epochDigest

namespace WarmFrameIndex

variable [DecidableEq Rig] [DecidableEq Time]

/-! ## Frames -/

variable (x : WarmFrameIndex Rig Time)

/-- Edit one frame's record. -/
def setFrame (rig : Rig) (time : Time) (edit : Frame → Frame) : WarmFrameIndex Rig Time :=
  { x with frames := Function.update x.frames (rig, time) (edit (x.frames (rig, time))) }

def noteSkipped (rig : Rig) (time : Time) : WarmFrameIndex Rig Time :=
  x.setFrame rig time fun frame => { frame with streak := frame.streak + 1 }

def noteCompleted (rig : Rig) (time : Time) (key : FrameCacheKey)
    (generation : Nat) : WarmFrameIndex Rig Time :=
  x.setFrame rig time fun frame =>
    { frame with
      hasCompletion := true, key, completedGeneration := generation, dirty := false, streak := 0 }

/-- `NoteEvicted`: a drained old key for a republished time retires nothing. -/
def noteEvicted (rig : Rig) (key : FrameCacheKey) (time : Time) : WarmFrameIndex Rig Time :=
  x.setFrame rig time fun frame =>
    if frame.hasCompletion = false ∨ frame.key ≠ key then frame
    else { frame with hasCompletion := false, streak := 0, dirty := false }

def noteTransition (transition : WarmTransition Rig Time) : WarmFrameIndex Rig Time :=
  x.setFrame transition.rig transition.timeValue fun frame =>
    match transition.kind with
    | .queued => { frame with queued := true }
    | .running => { frame with queued := false, running := frame.running + 1 }
    | .finished =>
        -- The flag is cleared whatever the queue holds; see `WarmIndex.Mirror`.
        let frame := { frame with queued := false, running := frame.running - 1 }
        match transition.outcome with
        | .published => { frame with streak := 0 }
        | .declinedInvalid => { frame with streak := frame.streak + 1 }
        | .declinedGeneration => frame
    | .canceled | .shed | .droppedAtShutdown => { frame with queued := false }
    | .droppedStale => { frame with running := frame.running - 1 }

def state (rig : Rig) (time : Time) (generation : Nat) (epochDigest : UInt64) : WarmFrameState :=
  stateFor (x.frames (rig, time)) generation epochDigest

def findCachedKey (rig : Rig) (time : Time) (generation : Nat)
    (epochDigest : UInt64) : Option FrameCacheKey :=
  let frame := x.frames (rig, time)
  if frame.currentCompletion generation epochDigest then some frame.key else none

/-! ## Requests -/

/-- Every row of the rig's request loses its cell, under the next token. -/
def invalidateRequest (rig : Rig) : WarmFrameIndex Rig Time :=
  match x.requests rig with
  | none => x
  | some request =>
      let token := bump64 x.nextRequest
      { x with
        nextRequest := token
        requests := Function.update x.requests rig
          (some { token, frames := fun time => (request.frames time).map fun _ => none }) }

def noteGeneration (rig : Rig) (generation : Nat) : WarmFrameIndex Rig Time :=
  let x := { x with generations := Function.update x.generations rig generation }
  let x := x.invalidateRequest rig
  { x with
    frames := fun place =>
      if place.1 = rig then { x.frames place with streak := 0 } else x.frames place }

def noteDirtied (rig : Rig) (time : Time) : WarmFrameIndex Rig Time :=
  (x.invalidateRequest rig).setFrame rig time fun frame =>
    if frame.hasCompletion then { frame with dirty := true } else frame

def resetRig (rig : Rig) : WarmFrameIndex Rig Time :=
  { x with
    requests := Function.update x.requests rig none
    frames := fun place => if place.1 = rig then {} else x.frames place }

/-- A new cell, and its number. -/
def newCell (progress : Progress) : Nat × WarmFrameIndex Rig Time :=
  (x.cells.length, { x with cells := x.cells ++ [progress] })

/-- One row of `SetRequest`: a standing completion seeds a ready cell. -/
def requestRow (generation : Nat) (epochDigest : UInt64)
    (built : (Time → Option (Option Nat)) × WarmFrameIndex Rig Time) (row : Time × Bool) :
    (Time → Option (Option Nat)) × WarmFrameIndex Rig Time :=
  if row.2 then
    let made := built.2.newCell ⟨generation, epochDigest, .ready⟩
    (Function.update built.1 row.1 (some (some made.1)), made.2)
  else (Function.update built.1 row.1 (some none), built.2)

def setRequest (rig : Rig) (times : List Time) (generation : Nat)
    (epochDigest : UInt64) : WarmFrameIndex Rig Time :=
  let rows := times.map fun time =>
    (time, (x.frames (rig, time)).currentCompletion generation epochDigest)
  let token := bump64 x.nextRequest
  let built := rows.foldl (requestRow generation epochDigest)
    (fun _ => none, { x with nextRequest := token })
  { built.2 with
    requests := Function.update built.2.requests rig (some { token, frames := built.1 }) }

def requestToken (rig : Rig) : Nat :=
  match x.requests rig with
  | none => 0
  | some request => request.token

/-- Whether a row's cell has this immutable scope. -/
def inScope (cell : Option Nat) (generation : Nat) (epochDigest : UInt64) : Bool :=
  match cell.bind fun number => x.cells[number]? with
  | some progress => progress.generation == generation && progress.epochDigest == epochDigest
  | none => false

/-- `RequestPublicationFor`: the captured cell, and the index it leaves. -/
def requestPublicationFor (rig : Rig) (time : Time)
    (generation : Nat) (epochDigest : UInt64) : Option Nat × WarmFrameIndex Rig Time :=
  match x.requests rig with
  | none => (none, x)
  | some request =>
      if generation ≠ x.generations rig then (none, x)
      else match request.frames time with
        | none => (none, x)
        | some row =>
            if x.inScope row generation epochDigest then (row, x)
            else
              let made := x.newCell ⟨generation, epochDigest, .unclaimed⟩
              (some made.1,
                { made.2 with
                  requests := Function.update made.2.requests rig
                    (some { request with
                      frames := Function.update request.frames time (some (some made.1)) }) })

/-- The cell `RequestPublication::Publish` claims, if its compare-exchange succeeds. -/
def claims (captured : Option Nat) (key : FrameCacheKey) (generation : Nat) : Option Nat :=
  match captured with
  | none => none
  | some number =>
      match x.cells[number]? with
      | none => none
      | some progress =>
          if generation ≠ progress.generation ∨ key.epochDigest ≠ progress.epochDigest then none
          else if progress.state = .unclaimed then some number
          else none

/-- A cell's state is overwritten. -/
def setState (number : Nat) (state : ProgressState) : WarmFrameIndex Rig Time :=
  { x with cells := x.cells.modify number fun progress => { progress with state } }

def rowCell (rig : Rig) (time : Time) : Option Nat :=
  ((x.requests rig).bind fun request => request.frames time).join

def hasRequestPublished (rig : Rig) (time : Time) (generation : Nat)
    (epochDigest : UInt64) : Bool :=
  match (x.rowCell rig time).bind fun number => x.cells[number]? with
  | some progress =>
      progress.state = .ready && progress.generation == generation &&
        progress.epochDigest == epochDigest
  | none => false

end WarmFrameIndex

/-! ## The methods that are one step -/

/-- A method call that is one step of its caller. -/
inductive IndexOp (Rig Time : Type) where
  | noteGeneration (rig : Rig) (generation : Nat)
  | noteSkipped (rig : Rig) (time : Time)
  | noteCompleted (rig : Rig) (time : Time) (key : FrameCacheKey) (generation : Nat)
  | noteEvicted (rig : Rig) (key : FrameCacheKey) (time : Time)
  | noteDirtied (rig : Rig) (time : Time)
  | resetRig (rig : Rig)
  | setRequest (rig : Rig) (times : List Time) (generation : Nat) (epochDigest : UInt64)
  | invalidateRequest (rig : Rig)

variable [DecidableEq Rig] [DecidableEq Time]

def IndexOp.apply (x : WarmFrameIndex Rig Time) : IndexOp Rig Time → WarmFrameIndex Rig Time
  | .noteGeneration rig generation => x.noteGeneration rig generation
  | .noteSkipped rig time => x.noteSkipped rig time
  | .noteCompleted rig time key generation => x.noteCompleted rig time key generation
  | .noteEvicted rig key time => x.noteEvicted rig key time
  | .noteDirtied rig time => x.noteDirtied rig time
  | .resetRig rig => x.resetRig rig
  | .setRequest rig times generation epochDigest =>
      x.setRequest rig times generation epochDigest
  | .invalidateRequest rig => x.invalidateRequest rig

end RigExec.WarmIndex
