/-
# `RigExec.Registry.Retire` — the retire step of an edit

`_RetireAffectedTimesLocked` goes over the completions of one rig after an edit
that left the compiled program standing, and decides each of them:

    stands     its clusters and its weight objects miss the edit, and the
               constants it was folded with are the new ones
    carried    they miss the edit, and the entry moves to the new constants
    retired    anything else: its row is marked dirty, its time is purged and
               noted for warming again

Every purged time then gets the rig's next fence token.  Without a program or
an affected index every completion is retired.

What the code reads of the scheduler and the index before it moves anything is
a `Snapshot`: two lists, with the facts that make them what `InFlightTimes` and
`CompletedKeys` return.  `SdfPath` is not part of the repository; the questions
asked of a path are the parameters of `PathQueries`.
-/
import RigExec.Registry.Context
import RigExec.FrameCache.Store
import RigExec.Sparsity.Digest

namespace RigExec.Registry

open RigExec.Scheduler RigExec.WarmIndex RigExec.FrameCache RigExec.Sparsity

/-- What retirement asks of `SdfPath`; a path is its text. -/
class PathQueries where
  isPropertyPath : SdfPath → Bool
  isPrimPath : SdfPath → Bool
  getPrimPath : SdfPath → SdfPath
  hasPrefix : SdfPath → SdfPath → Bool
  parse : String → SdfPath

/-! ## The edit -/

/-- `RigExecNoticeDisposition`, where the retire step is reached. -/
inductive NoticeDisposition where
  | patched
  | edited
  | stampBumped
deriving DecidableEq

/-- The paths of an `ObjectsChanged` notice. -/
structure Notice where
  resynced : List SdfPath := []
  changedInfoOnly : List SdfPath := []
  resolvedAssets : List SdfPath := []

/-- An edit as the retire step sees it: the notice, what the evaluator made of it, the affected
index of the program, if there is one, and the digest of the new constants. -/
structure Edit where
  notice : Notice
  disposition : NoticeDisposition
  patchedPaths : List SdfPath := []
  index : Option OutputAffectedIndex
  newConstants : UInt64

section Paths

variable [PathQueries]

open PathQueries

/-- A path's own identity and, for a property, its prim's. -/
def pathIds (path : SdfPath) : List ControlId :=
  if path = "" then []
  else if isPropertyPath path then [path, getPrimPath path] else [path]

/-- Whether a changed prim is ancestor noise: another path of the notice names it more exactly. -/
def Notice.shadows (notice : Notice) (path : SdfPath) : Bool :=
  notice.resynced.any (hasPrefix · path) || notice.resolvedAssets.any (hasPrefix · path) ||
    notice.changedInfoOnly.any fun other => other ≠ path && hasPrefix other path

/-- `RigExecNoticeControlIds`. -/
def Notice.controlIds (notice : Notice) : List ControlId :=
  Lib.keysOf id
    (notice.resynced.flatMap pathIds ++ notice.resolvedAssets.flatMap pathIds ++
      (notice.changedInfoOnly.filter fun path => !(isPrimPath path && notice.shadows path)).flatMap
        pathIds)

/-- The identities of a routed edit: a property the index knows stands for itself. -/
def routedIds (index : OutputAffectedIndex) (path : SdfPath) : List ControlId :=
  if path = "" then []
  else if isPropertyPath path ∧ path ∉ index.controlUniverse then [path, getPrimPath path]
  else [path]

def Edit.controls (edit : Edit) (index : OutputAffectedIndex) : List ControlId :=
  match edit.disposition with
  | .edited => Lib.keysOf id (edit.patchedPaths.flatMap (routedIds index))
  | .patched => Lib.keysOf id (edit.patchedPaths.flatMap pathIds)
  | .stampBumped => edit.notice.controlIds

/-- The paths a weight object is compared with. -/
def Notice.weightPaths (notice : Notice) : List SdfPath :=
  notice.resynced ++
    (notice.changedInfoOnly.flatMap fun path =>
      if isPropertyPath path then [path, getPrimPath path] else [path]) ++
    notice.resolvedAssets

/-- Whether an entry read a weight object at or above an edited path. -/
def Notice.movesWeights (notice : Notice) (weightReads : List String) : Bool :=
  weightReads.any fun text =>
    let weight := parse text
    weight ≠ "" && notice.weightPaths.any fun path => path = weight || hasPrefix path weight

/-- Whether an entry's pose moves with the edit: a dirty cluster computed it, or an edited weight
object fed it. -/
def Edit.affects (edit : Edit) (dirty : Finset Nat) (provenance : EntryProvenance) : Bool :=
  (provenance.clusters.any fun cluster => 0 ≤ cluster && decide (cluster.toNat ∈ dirty)) ||
    edit.notice.movesWeights provenance.weightReads

end Paths

/-! ## One rig -/

variable {Rig Time Work Pose Retained : Type}

/-- What a retirement of one rig reads and writes; `delivered` is what the cache's eviction
callback has been given. -/
structure RigState (Rig Time Work Pose Retained : Type) [FramePose Pose] where
  warming : Warming Rig Time Work
  cache : Option (Store Time Pose Retained)
  pendingRewarm : List Time := []
  delivered : List (Eviction Time) := []

/-- `InFlightTimes` and `CompletedKeys` of a rig, read before anything moves. -/
structure Snapshot (w : Warming Rig Time Work) (rig : Rig) where
  inFlight : List Time
  done : List (Time × FrameCacheKey)
  mem_inFlight : ∀ time, time ∈ inFlight ↔
    w.sched.queuedByRigAndTime (rig, time) ≠ none ∨ w.sched.runningByRigAndTime (rig, time) > 0
  mem_done : ∀ time key, (time, key) ∈ done ↔
    (w.index.frames (rig, time)).hasCompletion = true ∧ (w.index.frames (rig, time)).key = key
  nodup : (done.map Prod.fst).Nodup

/-- `kPendingRewarmCap`. -/
abbrev pendingRewarmCap : Nat := 4096

/-- `_NotePendingRewarm`: each time once, until the list is full. -/
def notePendingRewarm [DecidableEq Time] (pending times : List Time) : List Time :=
  times.foldl
    (fun pending time =>
      if pending.length ≥ pendingRewarmCap ∨ time ∈ pending then pending else pending ++ [time])
    pending

section Retire

variable [DecidableEq Rig] [FrameTime Time] [FramePose Pose]

def noteEvictions (rig : Rig) (x : WarmFrameIndex Rig Time) (evicted : List (Eviction Time)) :
    WarmFrameIndex Rig Time :=
  evicted.foldl
    (fun x gone =>
      match gone.time.usable with
      | some time => x.noteEvicted rig gone.key time
      | none => x)
    x

namespace RigState

variable (r : RigState Rig Time Work Pose Retained)

def setIndex (index : WarmFrameIndex Rig Time) : RigState Rig Time Work Pose Retained :=
  { r with warming := { r.warming with index } }

/-- The cache after a call, and its evictions told to the index. -/
def setCache (rig : Rig) (after : Store Time Pose Retained × List (Eviction Time)) :
    RigState Rig Time Work Pose Retained :=
  { r with
    cache := some after.1
    delivered := r.delivered ++ after.2 }.setIndex (noteEvictions rig r.warming.index after.2)

/-- The provenance of the entry under a key. -/
def provenanceAt (key : FrameCacheKey) : Option EntryProvenance :=
  r.cache.bind fun store => store.lookupProvenance key

/-- The same, when it records a digest to fold again. -/
def provenanceOf (key : FrameCacheKey) : Option EntryProvenance :=
  (r.provenanceAt key).filter fun provenance => provenance.unfoldedControlDigest ≠ 0

def carriedKey (oldKey : FrameCacheKey) (provenance : EntryProvenance) (newConstants : UInt64) :
    FrameCacheKey :=
  ⟨oldKey.epochDigest, foldConstantDigest provenance.unfoldedControlDigest newConstants⟩

@[simp] theorem carriedKey_epochDigest (oldKey : FrameCacheKey) (provenance : EntryProvenance)
    (newConstants : UInt64) :
    (carriedKey oldKey provenance newConstants).epochDigest = oldKey.epochDigest := by
  have hmk : ∀ digest, (⟨oldKey.epochDigest, digest⟩ : FrameCacheKey).epochDigest =
      oldKey.epochDigest := fun _ => rfl
  exact hmk _

/-- `CarryEntry`: whether the entry moved, and the state it leaves. -/
def carryEntry (rig : Rig) (time : Time) (oldKey : FrameCacheKey) (newConstants : UInt64) :
    Bool × RigState Rig Time Work Pose Retained :=
  match r.cache, r.provenanceOf oldKey with
  | some store, some provenance =>
      let newKey := carriedKey oldKey provenance newConstants
      if newKey.controlDigest = oldKey.controlDigest then (false, r)
      else
        let found := store.lookup oldKey
        let r := { r with cache := some found.2 }
        match found.1 with
        | none => (false, r)
        | some entry =>
            if entry.retained.isNone then (false, r)
            else
              match found.2.publish newKey (.numeric time) entry.pose entry.bytes entry.retained
                provenance with
              | none => (false, r)
              | some published =>
                  let r := r.setCache rig published
                  let r := r.setCache rig (published.1.evict oldKey)
                  (true, r.setIndex (r.warming.index.noteCompleted rig time newKey
                    (r.warming.index.generations rig)))
  | _, _ => (false, r)

end RigState

/-- The retire loop's state: the rig, the times to purge and the times to warm again. -/
structure Pass (Rig Time Work Pose Retained : Type) [FramePose Pose] where
  rig : RigState Rig Time Work Pose Retained
  purge : List Time
  rewarm : List Time

/-- A row is retired: its time is purged and noted for warming, and it is marked dirty. -/
def Pass.retire (p : Pass Rig Time Work Pose Retained) (rig : Rig) (time : Time) :
    Pass Rig Time Work Pose Retained where
  rig := p.rig.setIndex (p.rig.warming.index.noteDirtied rig time)
  purge := p.purge ++ [time]
  rewarm := p.rewarm ++ [time]

variable [PathQueries]

/-- The retire loop's body for one completion. -/
def retireRow (edit : Edit) (dirty : Finset Nat) (rig : Rig) (p : Pass Rig Time Work Pose Retained)
    (row : Time × FrameCacheKey) : Pass Rig Time Work Pose Retained :=
  match p.rig.provenanceOf row.2 with
  | none => p.retire rig row.1
  | some provenance =>
      if edit.affects dirty provenance then p.retire rig row.1
      else
        let carried := p.rig.carryEntry rig row.1 row.2 edit.newConstants
        if carried.1 then { p with rig := carried.2, purge := p.purge ++ [row.1] }
        else
          match carried.2.provenanceOf row.2 with
          | none => { p with rig := carried.2 }
          | some provenance =>
              -- a move of the constants that the carry declined
              if foldConstantDigest provenance.unfoldedControlDigest edit.newConstants ≠
                  row.2.controlDigest then { p with rig := carried.2 }.retire rig row.1
              else { p with rig := carried.2 }

/-- `_CancelGenerationTimesLocked`, over the in-flight and the completed times. -/
def cancelGenerationTimesLocked (w : Warming Rig Time Work) (rig : Rig) (times : List Time) :
    Warming Rig Time Work :=
  let fenced := { w with index := w.index.invalidateRequest rig }.moveTo
    (w.sched.cancelGenerationTimes rig (times.map .numeric))
  { fenced with index := times.foldl (fun x time => x.noteDirtied rig time) fenced.index }

/-- The retire loop, from the in-flight times. -/
def retireRows (edit : Edit) (dirty : Finset Nat) (rig : Rig)
    (r : RigState Rig Time Work Pose Retained) (inFlight : List Time)
    (rows : List (Time × FrameCacheKey)) : Pass Rig Time Work Pose Retained :=
  rows.foldl (retireRow edit dirty rig) ⟨r, inFlight, inFlight⟩

/-- The affected index, unless it is empty. -/
def Edit.oracle (edit : Edit) : Option OutputAffectedIndex :=
  edit.index.filter fun index => index.clusterCount ≠ 0

/-- `_RetireAffectedTimesLocked`, of a session with a bridge and a scheduler. -/
def retireAffectedTimes (edit : Edit) (rig : Rig) (r : RigState Rig Time Work Pose Retained)
    (snap : Snapshot r.warming rig) : RigState Rig Time Work Pose Retained :=
  let r := { r with delivered := [] }.setIndex (r.warming.index.invalidateRequest rig)
  match edit.oracle with
  | none =>
      let times := snap.inFlight ++ snap.done.map Prod.fst
      { r with
        warming := cancelGenerationTimesLocked r.warming rig times
        pendingRewarm := notePendingRewarm r.pendingRewarm times }
  | some index =>
      let dirty := index.affectedByControls (edit.controls index)
      let p := retireRows edit dirty rig r snap.inFlight snap.done
      { p.rig with
        warming := p.rig.warming.moveTo
          (p.rig.warming.sched.cancelGenerationTimes rig (p.purge.map .numeric))
        pendingRewarm := notePendingRewarm r.pendingRewarm p.rewarm }

end Retire

end RigExec.Registry
