/-
# `RigExec.FrameCache.Store` — the frame cache in one thread's hands, with provenance

The registry's retirements and the workers' publications reach a rig's cache
one at a time, under the publication fence.  What a method does when nobody
else is inside the cache is a function, and that is what stands here, with the
one payload `FrameCache.Model` leaves out: the provenance of an entry.

    lookup, lookupProvenance    read, the first one touching the clock
    publish                     links an entry, then drops the least recently
                                used ones until the byte cap holds
    evict, evictEpoch, clear    drop, and report what was dropped

An entry is linked by `publish` alone, which refuses invalid poses and empty
payloads, so an entry carries both facts (`Entry.valid`, `Entry.weighty`) and
the corrupt branch of `lookup` has no entry to find.  No two entries share a
clock value: the order of the shards decides no victim.  The clock and the sum
of the entries' bytes (`_bytes`, a `size_t`) are unbounded here.
-/
import RigExec.FrameCache.Model

namespace RigExec.FrameCache

variable {Time Pose Retained : Type}

/-- `RigExecEntryProvenance`, with what retirement reads of it. -/
structure EntryProvenance where
  clusters : List Int := []
  weightReads : List String := []
  unfoldedControlDigest : UInt64 := 0
deriving DecidableEq

structure StoredEntry (Time Pose Retained : Type) [FramePose Pose] where
  time : TimeCode Time
  pose : Pose
  bytes : Nat
  retained : Option Retained
  lastUse : Nat
  provenance : EntryProvenance
  valid : FramePose.valid pose = true
  weighty : bytes ≠ 0

/-- The cache, its entries in no particular order. -/
structure Store (Time Pose Retained : Type) [FramePose Pose] where
  entries : List (FrameCacheKey × StoredEntry Time Pose Retained) := []
  clock : Nat := 1
  byteCap : Nat := 1280 * 1024 * 1024

namespace Store

variable [FramePose Pose] (store : Store Time Pose Retained)

/-- The entry a key holds. -/
def find (key : FrameCacheKey) : Option (StoredEntry Time Pose Retained) :=
  (store.entries.find? fun kv => kv.1 = key).map Prod.snd

/-- Take a key's entry out. -/
def erase (key : FrameCacheKey) : Store Time Pose Retained :=
  { store with entries := store.entries.filter fun kv => kv.1 ≠ key }

/-- Put an entry under a key. -/
def link (key : FrameCacheKey) (entry : StoredEntry Time Pose Retained) :
    Store Time Pose Retained :=
  { store.erase key with entries := (key, entry) :: (store.erase key).entries }

def bytes : Nat := store.entries.foldr (fun kv total => kv.2.bytes + total) 0

def lookupProvenance (key : FrameCacheKey) : Option EntryProvenance :=
  (store.find key).map StoredEntry.provenance

/-- `Lookup`: the entry, its use stamped. -/
def lookup (key : FrameCacheKey) :
    Option (StoredEntry Time Pose Retained) × Store Time Pose Retained :=
  match store.find key with
  | none => (none, store)
  | some entry =>
      (some entry,
        { store.link key { entry with lastUse := store.clock } with clock := store.clock + 1 })

def evict (key : FrameCacheKey) : Store Time Pose Retained × List (Eviction Time) :=
  match store.find key with
  | none => (store, [])
  | some entry => (store.erase key, [⟨key, entry.time⟩])

/-- The entries a sweep drops, reported. -/
def dropped (picked : FrameCacheKey → Bool) : List (Eviction Time) :=
  (store.entries.filter fun kv => picked kv.1).map fun kv => ⟨kv.1, kv.2.time⟩

def evictEpoch (epochDigest : UInt64) : Store Time Pose Retained × List (Eviction Time) :=
  ({ store with entries := store.entries.filter fun kv => kv.1.epochDigest ≠ epochDigest },
    store.dropped fun key => key.epochDigest = epochDigest)

def clear : Store Time Pose Retained × List (Eviction Time) :=
  ({ store with entries := [] }, store.dropped fun _ => true)

/-- The least recently used entry of a list. -/
def oldest : List (FrameCacheKey × StoredEntry Time Pose Retained) →
    Option (FrameCacheKey × StoredEntry Time Pose Retained)
  | [] => none
  | kv :: rest =>
      match oldest rest with
      | none => some kv
      | some victim => if victim.2.lastUse < kv.2.lastUse then some victim else some kv

/-- `_EvictUntilUnderCap`, with its guard. -/
def evictUntilUnderCap :
    Nat → Store Time Pose Retained → Store Time Pose Retained × List (Eviction Time)
  | 0, store => (store, [])
  | guard + 1, store =>
      if store.bytes ≤ store.byteCap then (store, [])
      else match oldest store.entries with
        | none => (store, [])
        | some victim =>
            let rest := evictUntilUnderCap guard (store.erase victim.1)
            (rest.1, ⟨victim.1, victim.2.time⟩ :: rest.2)

/-- The checks of `Publish`, and the entry it builds before the lock. -/
def checked (time : TimeCode Time) (pose : Pose) (retainedBytes : Nat) (retained : Option Retained)
    (provenance : EntryProvenance) : Option (StoredEntry Time Pose Retained) :=
  let bytes := (FramePose.poseBytes pose + retainedBytes) % UInt64.size
  if h : FramePose.valid pose = true ∧ ¬ (retainedBytes > 0 ∧ retained.isNone) ∧ bytes ≠ 0 ∧
      bytes ≤ store.byteCap then
    some
      { time, pose, bytes, retained, provenance
        lastUse := store.clock
        valid := h.1
        weighty := h.2.2.1 }
  else none

/-- `Publish`: `none` when it stores nothing. -/
def publish (key : FrameCacheKey) (time : TimeCode Time) (pose : Pose) (retainedBytes : Nat)
    (retained : Option Retained) (provenance : EntryProvenance) :
    Option (Store Time Pose Retained × List (Eviction Time)) :=
  (store.checked time pose retainedBytes retained provenance).map fun entry =>
    let linked := { store.link key entry with clock := store.clock + 1 }
    evictUntilUnderCap (linked.entries.length + shardCount) linked

/-! ## What a key holds afterwards -/

variable {store} {key at_ : FrameCacheKey} {entry : StoredEntry Time Pose Retained}

theorem find_erase : (store.erase key).find at_ = if at_ = key then none else store.find at_ := by
  unfold find erase
  by_cases h : at_ = key
  · subst h
    simp
  · rw [if_neg h, List.find?_filter]
    congr 2
    funext kv
    by_cases hk : kv.1 = at_
    · simp [hk, h]
    · simp [hk]

theorem find_link : (store.link key entry).find at_ = if at_ = key then some entry
    else store.find at_ := by
  by_cases h : at_ = key
  · subst h
    simp [find, link]
  · have herase : (store.link key entry).find at_ = (store.erase key).find at_ := by
      simp [find, link, Ne.symm h]
    rw [herase, find_erase, if_neg h, if_neg h]

theorem find_lookup : ((store.lookup key).2.find at_).map StoredEntry.provenance =
    (store.find at_).map StoredEntry.provenance := by
  unfold lookup
  split
  · rfl
  · rename_i entry hentry
    show ((store.link key _).find at_).map _ = _
    rw [find_link]
    by_cases h : at_ = key
    · subst h
      rw [if_pos rfl, hentry]
      rfl
    · rw [if_neg h]

theorem find_evictUntilUnderCap {guard : Nat}
    (h : (evictUntilUnderCap guard store).1.find at_ = some entry)
    : store.find at_ = some entry := by
  induction guard generalizing store with
  | zero => exact h
  | succ guard ih =>
      unfold evictUntilUnderCap at h
      split at h
      · exact h
      · split at h
        · exact h
        · have hrest := ih h
          rw [find_erase] at hrest
          split at hrest
          · cases hrest
          · exact hrest

theorem checked_provenance {time : TimeCode Time} {pose : Pose} {retainedBytes : Nat}
    {retained : Option Retained} {provenance : EntryProvenance}
    (h : store.checked time pose retainedBytes retained provenance = some entry) :
    entry.provenance = provenance := by
  simp only [checked, Option.dite_none_right_eq_some, Option.some.injEq] at h
  obtain ⟨-, rfl⟩ := h
  rfl

theorem find_publish {time : TimeCode Time} {pose : Pose} {retainedBytes : Nat}
    {retained : Option Retained} {provenance : EntryProvenance}
    {published : Store Time Pose Retained × List (Eviction Time)}
    (h : store.publish key time pose retainedBytes retained provenance = some published)
    (hfind : published.1.find at_ = some entry) :
    (at_ = key ∧ entry.provenance = provenance) ∨ (at_ ≠ key ∧ store.find at_ = some entry) := by
  obtain ⟨made, hmade, rfl⟩ := Option.map_eq_some_iff.mp h
  have hlinked := find_evictUntilUnderCap hfind
  replace hlinked : (store.link key made).find at_ = some entry := hlinked
  rw [find_link] at hlinked
  by_cases hk : at_ = key
  · rw [if_pos hk] at hlinked
    cases hlinked
    exact .inl ⟨hk, checked_provenance hmade⟩
  · rw [if_neg hk] at hlinked
    exact .inr ⟨hk, hlinked⟩

theorem find_evict (h : (store.evict key).1.find at_ = some entry) :
    at_ ≠ key ∧ store.find at_ = some entry := by
  unfold evict at h
  split at h
  · rename_i hnone
    refine ⟨?_, h⟩
    rintro rfl
    cases hnone.symm.trans h
  · rw [find_erase] at h
    split at h
    · cases h
    · rename_i hne
      exact ⟨hne, h⟩

end Store

end RigExec.FrameCache
