/-
# `RigExec.FrameCache.Model` — the sharded frame cache, one atomic at a time

`RigExecFrameCache` is sixteen maps behind sixteen mutexes, with counters that
every thread moves without a lock.  A thread inside a shard's critical section
therefore runs beside threads inside other shards, and what they share are the
counters; so a critical section is not one step here but a list of them:

    Act     one edit of the locked shard, or one atomic of a counter
    Task    where a thread stands between and inside its critical sections
    step    one thread takes its next atomic, lock or unlock

Entering a section fixes its list of acts (`evictActs`, `linkActs`, ...): the
shard cannot change under its own lock, so what the section will do is known
from the map it finds.  `sections i` holds what the holder of shard `i` still
has to do, and is `none` exactly while the shard is unlocked.

The byte total and the entry count are integers: `size_t` counters of memory
that is really held, where going below zero would be the wrap.  Poses are a
parameter with their validity and their accounted size; provenance records,
which no operation below reads, are left out.
-/
import RigExec.Lib.Machine
import RigExec.Time
import Mathlib.Data.List.AList
import Mathlib.Data.Fintype.Basic

namespace RigExec

/-! ## Keys -/

structure FrameCacheKey where
  epochDigest : UInt64
  controlDigest : UInt64
deriving DecidableEq

/-- `RigExecFrameCacheKeyHash`: 64-bit FNV-1a over the two digests. -/
def FrameCacheKey.hash (key : FrameCacheKey) : UInt64 :=
  let hash : UInt64 := 1469598103934665603
  let hash := (hash ^^^ key.epochDigest) * 1099511628211
  (hash ^^^ key.controlDigest) * 1099511628211

/-- Poses: whether one is valid, and `RigExecFrameCachePoseBytes`. -/
class FramePose (Pose : Type) where
  valid : Pose → Bool
  poseBytes : Pose → Nat

namespace FrameCache

/-- `_kShardCount`. -/
abbrev shardCount : Nat := 16

/-- `_GetShard`. -/
def shardOf (key : FrameCacheKey) : Fin shardCount := Fin.ofNat shardCount key.hash.toNat

variable {Time Pose Retained : Type}

/-! ## Entries and counters -/

structure Entry (Time Pose Retained : Type) where
  time : TimeCode Time
  pose : Option Pose
  bytes : Nat
  retained : Option Retained
  lastUse : Nat

/-- One shard's map. -/
abbrev Shard (Time Pose Retained : Type) := AList fun _ : FrameCacheKey => Entry Time Pose Retained

/-- `RigExecFrameCacheEviction`. -/
structure Eviction (Time : Type) where
  key : FrameCacheKey
  time : TimeCode Time

/-- `RigExecFrameCache` without its locks. -/
structure Cache (Time Pose Retained : Type) where
  shards : Fin shardCount → Shard Time Pose Retained := fun _ => ∅
  clock : Nat := 1
  byteCap : Nat := 1280 * 1024 * 1024
  hits : Nat := 0
  misses : Nat := 0
  published : Nat := 0
  evictions : Nat := 0
  entryCount : ℤ := 0
  bytes : ℤ := 0

/-- The atomics no total depends on. -/
inductive Tally where
  | hit
  | miss
  | publication
  | eviction
  | clearHits
  | clearMisses
  | clearPublished
  | clearEvictions

/-- One act of a critical section. -/
inductive Act (Time Pose Retained : Type) where
  | subBytes (n : Nat)
  | addBytes (n : Nat)
  | subCount
  | addCount
  | tally (t : Tally)
  | link (key : FrameCacheKey) (entry : Entry Time Pose Retained)
  | touch (key : FrameCacheKey)
  | erase (key : FrameCacheKey)
  | clear

def Tally.apply (c : Cache Time Pose Retained) : Tally → Cache Time Pose Retained
  | .hit => { c with hits := c.hits + 1 }
  | .miss => { c with misses := c.misses + 1 }
  | .publication => { c with published := c.published + 1 }
  | .eviction => { c with evictions := c.evictions + 1 }
  | .clearHits => { c with hits := 0 }
  | .clearMisses => { c with misses := 0 }
  | .clearPublished => { c with published := 0 }
  | .clearEvictions => { c with evictions := 0 }

/-- What an act does to the shard it is made under, at the clock it reads. -/
def Act.onShard (clock : Nat) (shard : Shard Time Pose Retained) :
    Act Time Pose Retained → Shard Time Pose Retained
  | .link key entry => shard.insert key entry
  | .touch key =>
      match shard.lookup key with
      | some entry => shard.insert key { entry with lastUse := clock }
      | none => shard
  | .erase key => shard.erase key
  | .clear => ∅
  | _ => shard

/-- One act, made under the lock of shard `i`. -/
def Act.apply (i : Fin shardCount) (c : Cache Time Pose Retained) (act : Act Time Pose Retained) :
    Cache Time Pose Retained :=
  match act with
  | .subBytes n => { c with bytes := c.bytes - n }
  | .addBytes n => { c with bytes := c.bytes + n }
  | .subCount => { c with entryCount := c.entryCount - 1 }
  | .addCount => { c with entryCount := c.entryCount + 1 }
  | .tally t => t.apply c
  | .touch key =>
      { c with
        shards := Function.update c.shards i ((Act.touch key).onShard c.clock (c.shards i))
        clock := c.clock + 1 }
  | act => { c with shards := Function.update c.shards i (act.onShard c.clock (c.shards i)) }

/-! ## What the critical sections do -/

/-- Dropping one held entry: `Evict`, `EvictEpoch`, the cap's victim, and `Lookup`'s corrupt drop. -/
def evictActs (key : FrameCacheKey) (entry : Entry Time Pose Retained) :
    List (Act Time Pose Retained) :=
  [.subBytes entry.bytes, .subCount, .tally .eviction, .erase key]

/-- `Publish`: the displaced entry's bytes leave first, the new entry's come last. -/
def linkActs (shard : Shard Time Pose Retained) (key : FrameCacheKey)
    (entry : Entry Time Pose Retained) : List (Act Time Pose Retained) :=
  match shard.lookup key with
  | some old => [.subBytes old.bytes, .link key entry, .addBytes entry.bytes, .tally .publication]
  | none => [.link key entry, .addCount, .addBytes entry.bytes, .tally .publication]

/-- The entries of an epoch, in the order of the map. -/
def epochEntries (shard : Shard Time Pose Retained) (epochDigest : UInt64) :
    List (Sigma fun _ : FrameCacheKey => Entry Time Pose Retained) :=
  shard.entries.filter fun kv => kv.1.epochDigest = epochDigest

/-- `Clear` for one shard: every entry leaves the totals, then the map is cleared. -/
def clearActs (shard : Shard Time Pose Retained) : List (Act Time Pose Retained) :=
  (shard.entries.flatMap fun kv => [.subBytes kv.2.bytes, .subCount]) ++ [.clear]

/-- The evictions of a list of dropped entries. -/
def evictionsOf (gone : List (Sigma fun _ : FrameCacheKey => Entry Time Pose Retained)) :
    List (Eviction Time) :=
  gone.map fun kv => ⟨kv.1, kv.2.time⟩

/-- The scan of one shard for the least recently used entry seen so far. -/
def scanShard (shard : Shard Time Pose Retained) (found : Option (FrameCacheKey × Nat)) :
    Option (FrameCacheKey × Nat) :=
  shard.entries.foldl
    (fun found kv =>
      match found with
      | none => some (kv.1, kv.2.lastUse)
      | some (victim, victimUse) =>
          if kv.2.lastUse < victimUse then some (kv.1, kv.2.lastUse) else some (victim, victimUse))
    found

/-- Whether `Lookup` serves an entry; otherwise it is dropped as corrupt. -/
def servable [FramePose Pose] (entry : Entry Time Pose Retained) : Option Pose :=
  match entry.pose with
  | some pose => if entry.bytes = 0 ∨ FramePose.valid pose = false then none else some pose
  | none => none

/-! ## Threads -/

/-- What a call returned. -/
inductive Result (Pose Retained : Type) where
  | lookup (found : Option (Pose × Option Retained × Nat))
  | publish (stored : Bool)
  | evict (held : Bool)
  | evictEpoch (dropped : Nat)
  | done

/-- The calls. -/
inductive Op (Time Pose Retained : Type) where
  | lookup (key : FrameCacheKey) (wanted : Bool)
  | publish (key : FrameCacheKey) (time : TimeCode Time) (pose : Pose) (retainedBytes : Nat)
      (retained : Option Retained)
  | evict (key : FrameCacheKey)
  | evictEpoch (epochDigest : UInt64)
  | clear
  | setByteCap (bytes : Nat)

/-- Where a thread stands.  `inside i next` holds the lock of shard `i` and goes on with `next`;
the `cap` phases are `_EvictUntilUnderCap`. -/
inductive Task (Time Pose Retained : Type) where
  | returned (result : Result Pose Retained)
  | inside (shard : Fin shardCount) (next : Task Time Pose Retained)
  | tallies (tallies : List Tally) (next : Task Time Pose Retained)
  | report (evicted : List (Eviction Time)) (next : Task Time Pose Retained)
  | lookup (key : FrameCacheKey)
  | stamp (key : FrameCacheKey) (entry : Entry Time Pose Retained)
  | link (key : FrameCacheKey) (entry : Entry Time Pose Retained)
  | evict (key : FrameCacheKey)
  | evictEpoch (epochDigest : UInt64) (next : Nat) (dropped : Nat) (evicted : List (Eviction Time))
  | clear (next : Nat) (evicted : List (Eviction Time))
  | storeCap (bytes : Nat)
  | capRead (result : Result Pose Retained)
  | capGuard (result : Result Pose Retained) (cap : Nat)
  | capLoop (result : Result Pose Retained) (cap guard : Nat) (evicted : List (Eviction Time))
  | capScan (result : Result Pose Retained) (cap guard next : Nat)
      (found : Option (FrameCacheKey × Nat)) (evicted : List (Eviction Time))

/-- The cache, the shard locks with what their holders still have to do, the threads, and what the
eviction callback was given. -/
structure System (Time Pose Retained : Type) where
  cache : Cache Time Pose Retained := {}
  sections : Fin shardCount → Option (List (Act Time Pose Retained)) := fun _ => none
  tasks : Nat → Task Time Pose Retained := fun _ => .returned .done
  delivered : List (Eviction Time) := []

/-- A thread starts a call, or goes on with the one it is in. -/
inductive Event (Time Pose Retained : Type) where
  | call (thread : Nat) (op : Op Time Pose Retained)
  | step (thread : Nat)

namespace System

variable (y : System Time Pose Retained)

/-- The thread goes on with `task`. -/
def goto (thread : Nat) (task : Task Time Pose Retained) : System Time Pose Retained :=
  { y with tasks := Function.update y.tasks thread task }

/-- The thread takes the lock of shard `i`, if it is free, for a section of `acts`. -/
def enter (thread : Nat) (i : Fin shardCount) (acts : List (Act Time Pose Retained))
    (next : Task Time Pose Retained) : Option (System Time Pose Retained) :=
  match y.sections i with
  | some _ => none
  | none =>
      some ({ y with sections := Function.update y.sections i (some acts) }.goto thread
        (.inside i next))

/-- The next act of the section the thread is in, or its unlock. -/
def inside (thread : Nat) (i : Fin shardCount) (next : Task Time Pose Retained) :
    Option (System Time Pose Retained) :=
  match y.sections i with
  | none => none
  | some [] =>
      some ({ y with sections := Function.update y.sections i none }.goto thread next)
  | some (act :: acts) =>
      some { y with
        cache := act.apply i y.cache
        sections := Function.update y.sections i (some acts) }

/-- The call's checks before its first atomic, and its first task. -/
def start [FramePose Pose] : Op Time Pose Retained → Task Time Pose Retained
  | .lookup key wanted =>
      if wanted then .lookup key else .tallies [.miss] (.returned (.lookup none))
  | .publish key time pose retainedBytes retained =>
      let bytes := (FramePose.poseBytes pose + retainedBytes) % UInt64.size
      if FramePose.valid pose = false then .returned (.publish false)
      else if retainedBytes > 0 ∧ retained.isNone then .returned (.publish false)
      else if bytes = 0 ∨ bytes > y.cache.byteCap then .returned (.publish false)
      else .stamp key { time, pose := some pose, bytes, retained, lastUse := 0 }
  | .evict key => .evict key
  | .evictEpoch epochDigest => .evictEpoch epochDigest 0 0 []
  | .clear => .clear 0 []
  | .setByteCap bytes => .storeCap bytes

/-- The lookup's critical section on the shard of its key. -/
def lookupSection [FramePose Pose] (thread : Nat) (key : FrameCacheKey) :
    Option (System Time Pose Retained) :=
  match (y.cache.shards (shardOf key)).lookup key with
  | none => y.enter thread (shardOf key) [.tally .miss] (.returned (.lookup none))
  | some entry =>
      match servable entry with
      | some pose =>
          y.enter thread (shardOf key) [.touch key]
            (.tallies [.hit] (.returned (.lookup (some (pose, entry.retained, entry.bytes)))))
      | none =>
          y.enter thread (shardOf key) (evictActs key entry)
            (.report [⟨key, entry.time⟩] (.tallies [.miss] (.returned (.lookup none))))

/-- The victim's critical section: it is dropped if it is still as old as the scan saw it. -/
def dropVictim (thread : Nat) (result : Result Pose Retained) (cap guard : Nat)
    (victim : FrameCacheKey) (victimUse : Nat) (evicted : List (Eviction Time)) :
    Option (System Time Pose Retained) :=
  match (y.cache.shards (shardOf victim)).lookup victim with
  | none => y.enter thread (shardOf victim) [] (.capLoop result cap guard evicted)
  | some entry =>
      if entry.lastUse ≠ victimUse then
        y.enter thread (shardOf victim) [] (.capLoop result cap guard evicted)
      else
        y.enter thread (shardOf victim) (evictActs victim entry)
          (.capLoop result cap guard (evicted ++ [⟨victim, entry.time⟩]))

/-- The next step of the thread's call. -/
def proceed [FramePose Pose] (thread : Nat) :
    Task Time Pose Retained → Option (System Time Pose Retained)
  | .returned _ => none
  | .inside i next => y.inside thread i next
  | .tallies [] next => some (y.goto thread next)
  | .tallies (t :: rest) next =>
      some ({ y with cache := t.apply y.cache }.goto thread (.tallies rest next))
  | .report evicted next =>
      some ({ y with delivered := y.delivered ++ evicted }.goto thread next)
  | .lookup key => y.lookupSection thread key
  | .stamp key entry =>
      some ({ y with cache := { y.cache with clock := y.cache.clock + 1 } }.goto thread
        (.link key { entry with lastUse := y.cache.clock }))
  | .link key entry =>
      y.enter thread (shardOf key) (linkActs (y.cache.shards (shardOf key)) key entry)
        (.capRead (.publish true))
  | .evict key =>
      match (y.cache.shards (shardOf key)).lookup key with
      | none => y.enter thread (shardOf key) [] (.returned (.evict false))
      | some entry =>
          y.enter thread (shardOf key) (evictActs key entry)
            (.report [⟨key, entry.time⟩] (.returned (.evict true)))
  | .evictEpoch epochDigest next dropped evicted =>
      if h : next < shardCount then
        let gone := epochEntries (y.cache.shards ⟨next, h⟩) epochDigest
        y.enter thread ⟨next, h⟩ (gone.flatMap fun kv => evictActs kv.1 kv.2)
          (.evictEpoch epochDigest (next + 1) (dropped + gone.length) (evicted ++ evictionsOf gone))
      else some (y.goto thread (.report evicted (.returned (.evictEpoch dropped))))
  | .clear next evicted =>
      if h : next < shardCount then
        y.enter thread ⟨next, h⟩ (clearActs (y.cache.shards ⟨next, h⟩))
          (.clear (next + 1) (evicted ++ evictionsOf (y.cache.shards ⟨next, h⟩).entries))
      else
        some (y.goto thread (.tallies [.clearHits, .clearMisses, .clearPublished, .clearEvictions]
          (.report evicted (.returned .done))))
  | .storeCap bytes =>
      some ({ y with cache := { y.cache with byteCap := bytes } }.goto thread (.capRead .done))
  | .capRead result => some (y.goto thread (.capGuard result y.cache.byteCap))
  | .capGuard result cap =>
      some (y.goto thread (.capLoop result cap (y.cache.entryCount + shardCount).toNat []))
  | .capLoop result _ 0 evicted => some (y.goto thread (.report evicted (.returned result)))
  | .capLoop result cap (guard + 1) evicted =>
      if y.cache.bytes ≤ cap then some (y.goto thread (.report evicted (.returned result)))
      else some (y.goto thread (.capScan result cap guard 0 none evicted))
  | .capScan result cap guard next found evicted =>
      if h : next < shardCount then
        y.enter thread ⟨next, h⟩ []
          (.capScan result cap guard (next + 1) (scanShard (y.cache.shards ⟨next, h⟩) found) evicted)
      else
        match found with
        | none => some (y.goto thread (.report evicted (.returned result)))
        | some (victim, victimUse) => y.dropVictim thread result cap guard victim victimUse evicted

end System

/-- One step of one thread. -/
def System.step [FramePose Pose] (y : System Time Pose Retained) :
    Event Time Pose Retained → Option (System Time Pose Retained)
  | .call thread op =>
      match y.tasks thread with
      | .returned _ => some (y.goto thread (y.start op))
      | _ => none
  | .step thread => y.proceed thread (y.tasks thread)

/-- A history of the cache from its construction. -/
abbrev System.history [FramePose Pose] (events : List (Event Time Pose Retained)) :
    Option (System Time Pose Retained) :=
  Lib.run step {} events

end FrameCache

end RigExec
