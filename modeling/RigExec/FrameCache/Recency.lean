/-
# `RigExec.FrameCache.Recency` — eviction is exactly least recently used

The store stamps its entries with a clock and looks for the smallest stamp; the
reference (`Lru`) keeps a list in the order of last use and stamps nothing.
`Recency` relates the two: the entries sorted by stamp are the reference's list.

    publish         the entry comes in last, then the list is trimmed
    lookup          a hit comes last
    evict…, clear   entries leave, and the order of the others stays
    setByteCap      the list is trimmed

Every call keeps the relation and gives the same answer on both sides
(`call_simulates`), so what is plain of the list holds of the store.
-/
import RigExec.FrameCache.Store
import RigExec.Lib.Lru
import Mathlib.Data.List.FinRange

namespace RigExec.FrameCache

variable {Time Pose Retained : Type} [FramePose Pose]

/-! ## The calls -/

/-- What an entry holds, without its stamp. -/
def StoredEntry.unstamped (entry : StoredEntry Time Pose Retained) :
    StoredEntry Time Pose Retained :=
  { entry with lastUse := 0 }

/-- A call of the cache. -/
inductive Call (Time Pose Retained : Type) where
  | publish (key : FrameCacheKey) (time : TimeCode Time) (pose : Pose) (retainedBytes : Nat)
      (retained : Option Retained) (provenance : EntryProvenance)
  | lookup (key : FrameCacheKey)
  | evict (key : FrameCacheKey)
  | evictEpoch (epochDigest : UInt64)
  | clear
  | setByteCap (bytes : Nat)

/-- What a call returns; a lookup that hits returns pose, handle and bytes. -/
inductive Answer (Pose Retained : Type) where
  | published (stored : Bool)
  | looked (found : Option (Pose × Option Retained × Nat))
  | evicted (held : Bool)
  | swept (dropped : Nat)
  | done

/-- What `Lookup` hands out of an entry. -/
def StoredEntry.handed (entry : StoredEntry Time Pose Retained) : Pose × Option Retained × Nat :=
  (entry.pose, entry.retained, entry.bytes)

/-- The report of a dropped entry. -/
def reportOf (kv : FrameCacheKey × StoredEntry Time Pose Retained) : Eviction Time :=
  ⟨kv.1, kv.2.time⟩

def Store.setByteCap (store : Store Time Pose Retained) (bytes : Nat) :
    Store Time Pose Retained × List (Eviction Time) :=
  evictUntilUnderCap (store.entries.length + shardCount) { store with byteCap := bytes }

/-- One call: the store after it, its answer, and what it reports dropped. -/
def Store.call (store : Store Time Pose Retained) :
    Call Time Pose Retained →
      Store Time Pose Retained × Answer Pose Retained × List (Eviction Time)
  | .publish key time pose retainedBytes retained provenance =>
      match store.publish key time pose retainedBytes retained provenance with
      | none => (store, .published false, [])
      | some out => (out.1, .published true, out.2)
  | .lookup key =>
      ((store.lookup key).2, .looked ((store.lookup key).1.map StoredEntry.handed), [])
  | .evict key => ((store.evict key).1, .evicted (store.find key).isSome, (store.evict key).2)
  | .evictEpoch epochDigest =>
      ((store.evictEpoch epochDigest).1, .swept (store.evictEpoch epochDigest).2.length,
        (store.evictEpoch epochDigest).2)
  | .clear => (store.clear.1, .done, store.clear.2)
  | .setByteCap bytes => ((store.setByteCap bytes).1, .done, (store.setByteCap bytes).2)

/-- The store after a list of calls. -/
def Store.after (store : Store Time Pose Retained) (calls : List (Call Time Pose Retained)) :
    Store Time Pose Retained :=
  calls.foldl (fun store call => (store.call call).1) store

/-! ## The reference -/

/-- A cache that is its least recently used order, under a cap; no entry is stamped. -/
structure Lru (Time Pose Retained : Type) [FramePose Pose] where
  order : List (FrameCacheKey × StoredEntry Time Pose Retained) := []
  byteCap : Nat := 1280 * 1024 * 1024

namespace Lru

variable (lru : Lru Time Pose Retained)

/-- Trim the order to the cap. -/
def trimmed : Lru Time Pose Retained × List (Eviction Time) :=
  ({ lru with order := (Lib.Lru.trim StoredEntry.bytes lru.byteCap lru.order).2 },
    (Lib.Lru.trim StoredEntry.bytes lru.byteCap lru.order).1.map reportOf)

/-- The entries that are picked leave. -/
def drop (picked : FrameCacheKey → Bool) : Lru Time Pose Retained × List (Eviction Time) :=
  ({ lru with order := lru.order.filter fun kv => !picked kv.1 },
    (lru.order.filter fun kv => picked kv.1).map reportOf)

/-- The entry a publication builds, when it passes the checks. -/
def checked (time : TimeCode Time) (pose : Pose) (retainedBytes : Nat) (retained : Option Retained)
    (provenance : EntryProvenance) : Option (StoredEntry Time Pose Retained) :=
  Store.checked
    { byteCap := lru.byteCap
      clock := 0 }
    time pose retainedBytes retained provenance

def call : Call Time Pose Retained →
    Lru Time Pose Retained × Answer Pose Retained × List (Eviction Time)
  | .publish key time pose retainedBytes retained provenance =>
      match lru.checked time pose retainedBytes retained provenance with
      | none => (lru, .published false, [])
      | some entry =>
          let put : Lru Time Pose Retained := { lru with order := Lib.Lru.put key entry lru.order }
          (put.trimmed.1, .published true, put.trimmed.2)
  | .lookup key =>
      ({ lru with order := Lib.Lru.touch key lru.order },
        .looked ((Lib.Lru.get key lru.order).map StoredEntry.handed), [])
  | .evict key =>
      ((lru.drop fun k => k = key).1, .evicted (Lib.Lru.get key lru.order).isSome,
        (lru.drop fun k => k = key).2)
  | .evictEpoch epochDigest =>
      ((lru.drop fun k => k.epochDigest = epochDigest).1,
        .swept (lru.drop fun k => k.epochDigest = epochDigest).2.length,
        (lru.drop fun k => k.epochDigest = epochDigest).2)
  | .clear => ((lru.drop fun _ => true).1, .done, (lru.drop fun _ => true).2)
  | .setByteCap bytes =>
      ({ lru with byteCap := bytes }.trimmed.1, .done, { lru with byteCap := bytes }.trimmed.2)

/-- The reference after a list of calls. -/
def after (calls : List (Call Time Pose Retained)) : Lru Time Pose Retained :=
  calls.foldl (fun lru call => (lru.call call).1) lru

end Lru

/-! ## Stamps and order -/

/-- The entries in the order of their stamps. -/
structure Recency (store : Store Time Pose Retained)
    (order : List (FrameCacheKey × StoredEntry Time Pose Retained)) : Prop where
  perm : order.Perm store.entries
  stamps : order.Pairwise fun a b => a.2.lastUse < b.2.lastUse
  clock : ∀ kv ∈ order, kv.2.lastUse < store.clock
  keys : (order.map Prod.fst).Nodup

section

variable {store : Store Time Pose Retained}
  {order rest : List (FrameCacheKey × StoredEntry Time Pose Retained)}
  {key : FrameCacheKey} {entry : StoredEntry Time Pose Retained}
  {kv : FrameCacheKey × StoredEntry Time Pose Retained}

section

variable (h : Recency store order)
include h

theorem Recency.find : store.find key = Lib.Lru.get key order :=
  (Lib.Lru.get_perm h.perm h.keys).symm

theorem Recency.bytes :
    store.bytes = Lib.Lru.weight StoredEntry.bytes order :=
  (Lib.Lru.weight_perm h.perm).symm

theorem Recency.length : store.entries.length = order.length :=
  h.perm.length_eq.symm

theorem Recency.filter (picked : FrameCacheKey × StoredEntry Time Pose Retained → Bool) :
    Recency { store with entries := store.entries.filter picked } (order.filter picked) where
  perm := h.perm.filter picked
  stamps := h.stamps.filter picked
  clock kv hkv := h.clock kv (List.mem_filter.mp hkv).1
  keys := h.keys.sublist (List.filter_sublist.map Prod.fst)

theorem Recency.link (hstamp : entry.lastUse = store.clock) :
    Recency { store.link key entry with clock := store.clock + 1 } (Lib.Lru.put key entry order) where
  perm := by
    show (Lib.Lru.without key order ++ [(key, entry)]).Perm
      ((key, entry) :: Lib.Lru.without key store.entries)
    exact (List.perm_append_singleton _ _).trans ((h.perm.filter _).cons _)
  stamps := by
    refine List.pairwise_append.mpr ⟨h.stamps.filter _, List.pairwise_singleton _ _, ?_⟩
    intro a ha b hb
    obtain rfl := List.mem_singleton.mp hb
    exact (h.clock a (List.mem_filter.mp ha).1).trans_eq hstamp.symm
  clock := by
    intro kv hkv
    rcases List.mem_append.mp hkv with hkv | hkv
    · exact (h.clock kv (List.mem_filter.mp hkv).1).trans (Nat.lt_succ_self _)
    · rw [List.mem_singleton.mp hkv]
      exact hstamp.trans_lt (Nat.lt_succ_self _)
  keys := Lib.Lru.nodup_put h.keys

/-- The guard of `_EvictUntilUnderCap` is long enough. -/
theorem Recency.guard :
    order.length < store.entries.length + shardCount := by
  rw [h.length]
  exact Nat.lt_add_of_pos_right (by decide)

end

theorem Recency.byteCap (h : Recency store order) (bytes : Nat) :
    Recency { store with byteCap := bytes } order :=
  ⟨h.perm, h.stamps, h.clock, h.keys⟩

/-! ## The victim -/

theorem oldest_le (entries : List (FrameCacheKey × StoredEntry Time Pose Retained)) :
    (Store.oldest entries = none → entries = []) ∧
      ∀ victim, Store.oldest entries = some victim →
        victim ∈ entries ∧ ∀ kv ∈ entries, victim.2.lastUse ≤ kv.2.lastUse := by
  induction entries with
  | nil => exact ⟨fun _ => rfl, fun victim h => by cases h⟩
  | cons kv entries ih =>
      unfold Store.oldest
      cases hrest : Store.oldest entries with
      | none =>
          obtain rfl := ih.1 hrest
          refine ⟨fun h => (by cases h), ?_⟩
          rintro victim ⟨⟩
          exact ⟨List.mem_cons_self, fun x hx => by rw [List.mem_singleton.mp hx]⟩
      | some older =>
          obtain ⟨hmem, hle⟩ := ih.2 older hrest
          by_cases hlt : older.2.lastUse < kv.2.lastUse
          · simp only [if_pos hlt]
            refine ⟨fun h => (by cases h), ?_⟩
            rintro victim ⟨⟩
            refine ⟨List.mem_cons_of_mem _ hmem, ?_⟩
            intro x hx
            rcases List.mem_cons.mp hx with rfl | hx
            · exact hlt.le
            · exact hle x hx
          · simp only [if_neg hlt]
            refine ⟨fun h => (by cases h), ?_⟩
            rintro victim ⟨⟩
            refine ⟨List.mem_cons_self, ?_⟩
            intro x hx
            rcases List.mem_cons.mp hx with rfl | hx
            · exact Nat.le_refl _
            · exact (Nat.le_of_not_lt hlt).trans (hle x hx)

theorem Recency.oldest (h : Recency store (kv :: rest)) : Store.oldest store.entries = some kv := by
  have hkv : kv ∈ store.entries := h.perm.subset List.mem_cons_self
  cases hfound : Store.oldest store.entries with
  | none =>
      rw [(oldest_le _).1 hfound] at hkv
      exact absurd hkv List.not_mem_nil
  | some victim =>
      obtain ⟨hmem, hle⟩ := (oldest_le _).2 victim hfound
      rcases List.mem_cons.mp (h.perm.symm.subset hmem) with rfl | hrest
      · rfl
      · have := List.rel_of_pairwise_cons h.stamps hrest
        have := hle kv hkv
        omega

theorem Recency.evictUntilUnderCap {guard : Nat} (h : Recency store order)
    (hguard : order.length < guard) :
    Recency (Store.evictUntilUnderCap guard store).1
        (Lib.Lru.trim StoredEntry.bytes store.byteCap order).2 ∧
      (Store.evictUntilUnderCap guard store).2 =
        (Lib.Lru.trim StoredEntry.bytes store.byteCap order).1.map reportOf ∧
      (Store.evictUntilUnderCap guard store).1.byteCap = store.byteCap := by
  induction order generalizing guard store with
  | nil =>
      obtain ⟨guard, rfl⟩ := Nat.exists_eq_succ_of_ne_zero (Nat.ne_of_gt hguard)
      have hunder : store.bytes ≤ store.byteCap := by
        rw [h.bytes]
        exact Nat.zero_le _
      unfold Store.evictUntilUnderCap
      rw [if_pos hunder]
      exact ⟨h, rfl, rfl⟩
  | cons kv rest ih =>
      obtain ⟨guard, rfl⟩ := Nat.exists_eq_succ_of_ne_zero (Nat.ne_of_gt (Nat.zero_lt_of_lt hguard))
      unfold Store.evictUntilUnderCap Lib.Lru.trim
      rw [h.bytes]
      by_cases hunder : Lib.Lru.weight StoredEntry.bytes (kv :: rest) ≤ store.byteCap
      · rw [if_pos hunder, if_pos hunder]
        exact ⟨h, rfl, rfl⟩
      · rw [if_neg hunder, if_neg hunder, h.oldest]
        -- the victim's key is in no other entry, so what is left is the rest
        obtain ⟨hfresh, -⟩ := List.nodup_cons.mp h.keys
        have hfilter : (kv :: rest).filter (fun x => decide (x.1 ≠ kv.1)) = rest := by
          rw [List.filter_cons_of_neg (by simp), List.filter_eq_self]
          intro x hx
          refine decide_eq_true ?_
          intro heq
          exact hfresh (heq ▸ List.mem_map_of_mem hx)
        have herase : Recency (store.erase kv.1) rest := by
          have hfiltered := h.filter fun x => decide (x.1 ≠ kv.1)
          rwa [hfilter] at hfiltered
        obtain ⟨hrest, hreports, hcap⟩ := ih herase (Nat.lt_of_succ_lt_succ hguard)
        exact ⟨hrest, congrArg (reportOf kv :: ·) hreports, hcap⟩

end

/-! ## One call on both sides -/

/-- The reference's list is the entries in the order of their stamps. -/
def Simulates (store : Store Time Pose Retained) (lru : Lru Time Pose Retained)
    (order : List (FrameCacheKey × StoredEntry Time Pose Retained)) : Prop :=
  Recency store order ∧ lru.order = Lib.Lru.mapValues StoredEntry.unstamped order ∧
    lru.byteCap = store.byteCap

section

variable {store : Store Time Pose Retained} {lru : Lru Time Pose Retained}
  {order : List (FrameCacheKey × StoredEntry Time Pose Retained)} {key : FrameCacheKey}

theorem reports_mapValues (l : List (FrameCacheKey × StoredEntry Time Pose Retained)) :
    (Lib.Lru.mapValues StoredEntry.unstamped l).map reportOf = l.map reportOf := by
  unfold Lib.Lru.mapValues
  rw [List.map_map]
  rfl

theorem filter_mapValues (picked : FrameCacheKey → Bool)
    (l : List (FrameCacheKey × StoredEntry Time Pose Retained)) :
    (Lib.Lru.mapValues StoredEntry.unstamped l).filter (fun kv => picked kv.1) =
      Lib.Lru.mapValues StoredEntry.unstamped (l.filter fun kv => picked kv.1) :=
  List.filter_map

theorem checked_unstamped {time : TimeCode Time} {pose : Pose} {retainedBytes : Nat}
    {retained : Option Retained} {provenance : EntryProvenance}
    (hcap : lru.byteCap = store.byteCap) :
    lru.checked time pose retainedBytes retained provenance =
      (store.checked time pose retainedBytes retained provenance).map StoredEntry.unstamped := by
  unfold Lru.checked Store.checked
  simp only [hcap]
  split <;> rfl

theorem checked_stamp {time : TimeCode Time} {pose : Pose} {retainedBytes : Nat}
    {retained : Option Retained} {provenance : EntryProvenance}
    {entry : StoredEntry Time Pose Retained}
    (h : store.checked time pose retainedBytes retained provenance = some entry) :
    entry.lastUse = store.clock ∧ entry.pose = pose ∧ entry.bytes ≤ store.byteCap := by
  simp only [Store.checked, Option.dite_none_right_eq_some, Option.some.injEq] at h
  obtain ⟨⟨-, -, -, hle⟩, rfl⟩ := h
  exact ⟨rfl, rfl, hle⟩

theorem Simulates.evictUntilUnderCap (h : Simulates store lru order) {guard : Nat}
    (hguard : order.length < guard) :
    Simulates (Store.evictUntilUnderCap guard store).1 lru.trimmed.1
        (Lib.Lru.trim StoredEntry.bytes store.byteCap order).2 ∧
      (Store.evictUntilUnderCap guard store).2 = lru.trimmed.2 := by
  obtain ⟨hrecency, horder, hcap⟩ := h
  obtain ⟨hrest, hreports, hsame⟩ := hrecency.evictUntilUnderCap hguard
  have htrim : Lib.Lru.trim StoredEntry.bytes store.byteCap
      (Lib.Lru.mapValues StoredEntry.unstamped order) =
      (Lib.Lru.mapValues StoredEntry.unstamped
          (Lib.Lru.trim StoredEntry.bytes store.byteCap order).1,
        Lib.Lru.mapValues StoredEntry.unstamped
          (Lib.Lru.trim StoredEntry.bytes store.byteCap order).2) :=
    Lib.Lru.trim_mapValues StoredEntry.unstamped fun _ => rfl
  have hlru : lru.trimmed =
      (⟨Lib.Lru.mapValues StoredEntry.unstamped
          (Lib.Lru.trim StoredEntry.bytes store.byteCap order).2, lru.byteCap⟩,
        (Lib.Lru.mapValues StoredEntry.unstamped
          (Lib.Lru.trim StoredEntry.bytes store.byteCap order).1).map reportOf) := by
    unfold Lru.trimmed
    rw [horder, hcap, htrim]
  rw [hlru]
  refine ⟨⟨hrest, rfl, hcap.trans hsame.symm⟩, ?_⟩
  rw [hreports, reports_mapValues]

theorem Simulates.drop (h : Simulates store lru order) (picked : FrameCacheKey → Bool) :
    Simulates { store with entries := store.entries.filter fun kv => !picked kv.1 }
        (lru.drop picked).1 (order.filter fun kv => !picked kv.1) ∧
      (store.dropped picked).Perm (lru.drop picked).2 := by
  obtain ⟨hrecency, horder, hcap⟩ := h
  refine ⟨⟨hrecency.filter _, ?_, hcap⟩, ?_⟩
  · show lru.order.filter _ = _
    rw [horder]
    exact filter_mapValues (fun k => !picked k) order
  · show ((store.entries.filter fun kv => picked kv.1).map _).Perm
      ((lru.order.filter fun kv => picked kv.1).map reportOf)
    rw [horder, filter_mapValues, reports_mapValues]
    exact ((hrecency.perm.filter _).map reportOf).symm

/-- `Evict` is the sweep of one key. -/
theorem Recency.evict (h : Recency store order) :
    store.evict key = (store.erase key, store.dropped fun k => k = key) := by
  have hkeys : (store.entries.map Prod.fst).Nodup := (h.perm.map _).nodup_iff.mp h.keys
  have hdropped : (store.dropped fun k => k = key) =
      ((store.find key).toList.map fun entry => (key, entry)).map reportOf :=
    congrArg (List.map reportOf) (Lib.Lru.filter_key hkeys)
  unfold Store.evict
  cases hentry : store.find key with
  | none =>
      have herase : store.erase key = store := by
        have hfilter : store.entries.filter (fun kv => decide (kv.1 ≠ key)) = store.entries := by
          rw [List.filter_eq_self]
          intro kv hkv
          refine decide_eq_true ?_
          rintro rfl
          exact Lib.Lru.get_eq_none_iff.mp hentry (List.mem_map_of_mem hkv)
        unfold Store.erase
        rw [hfilter]
      rw [herase, hdropped, hentry]
      rfl
  | some entry =>
      rw [hdropped, hentry]
      rfl

theorem Recency.get (h : Recency store order) (key : FrameCacheKey)
    (hlru : lru.order = Lib.Lru.mapValues StoredEntry.unstamped order) :
    Lib.Lru.get key lru.order = (store.find key).map StoredEntry.unstamped := by
  rw [hlru, Lib.Lru.get_mapValues, h.find]

/-- The store with an entry linked, before the cap is looked at. -/
def Store.linked (store : Store Time Pose Retained) (key : FrameCacheKey)
    (entry : StoredEntry Time Pose Retained) : Store Time Pose Retained :=
  { store.link key entry with clock := store.clock + 1 }

section

variable {time : TimeCode Time} {pose : Pose} {retainedBytes : Nat} {retained : Option Retained}
  {provenance : EntryProvenance} {entry : StoredEntry Time Pose Retained}

theorem Store.call_publish_none
    (h : store.checked time pose retainedBytes retained provenance = none) :
    store.call (.publish key time pose retainedBytes retained provenance) =
      (store, .published false, []) := by
  simp only [Store.call, Store.publish, h, Option.map_none]

theorem Store.call_publish_some
    (h : store.checked time pose retainedBytes retained provenance = some entry) :
    store.call (.publish key time pose retainedBytes retained provenance) =
      ((evictUntilUnderCap ((store.linked key entry).entries.length + shardCount)
          (store.linked key entry)).1, .published true,
        (evictUntilUnderCap ((store.linked key entry).entries.length + shardCount)
          (store.linked key entry)).2) := by
  simp only [Store.call, Store.publish, h, Option.map_some]
  rfl

theorem Lru.call_publish_none
    (h : lru.checked time pose retainedBytes retained provenance = none) :
    lru.call (.publish key time pose retainedBytes retained provenance) =
      (lru, .published false, []) := by
  simp only [Lru.call, h]

theorem Lru.call_publish_some
    (h : lru.checked time pose retainedBytes retained provenance = some entry) :
    lru.call (.publish key time pose retainedBytes retained provenance) =
      (({ lru with order := Lib.Lru.put key entry lru.order } : Lru Time Pose Retained).trimmed.1,
        .published true,
        ({ lru with order := Lib.Lru.put key entry lru.order } : Lru Time Pose Retained).trimmed.2) := by
  simp only [Lru.call, h]

theorem Store.lookup_none (h : store.find key = none) : store.lookup key = (none, store) := by
  unfold Store.lookup
  rw [h]

theorem Store.lookup_some (h : store.find key = some entry) :
    store.lookup key =
      (some entry, store.linked key { entry with lastUse := store.clock }) := by
  unfold Store.lookup
  rw [h]
  rfl

end

/-- **A call simulates.**  The relation is kept, the answer is the same, and so are the entries
reported. -/
theorem call_simulates (h : Simulates store lru order) (call : Call Time Pose Retained) :
    (∃ order', Simulates (store.call call).1 (lru.call call).1 order') ∧
      (store.call call).2.1 = (lru.call call).2.1 ∧
      (store.call call).2.2.Perm (lru.call call).2.2 := by
  obtain ⟨hrecency, horder, hcap⟩ := id h
  cases call with
  | publish key time pose retainedBytes retained provenance =>
      have hchecked : lru.checked time pose retainedBytes retained provenance =
          (store.checked time pose retainedBytes retained provenance).map StoredEntry.unstamped :=
        checked_unstamped hcap
      cases hentry : store.checked time pose retainedBytes retained provenance with
      | none =>
          rw [Store.call_publish_none hentry,
            Lru.call_publish_none (hchecked.trans (congrArg _ hentry))]
          exact ⟨⟨order, h⟩, rfl, List.Perm.refl _⟩
      | some entry =>
          rw [Store.call_publish_some hentry,
            Lru.call_publish_some (hchecked.trans (congrArg _ hentry))]
          have hlinked : Simulates (store.linked key entry)
              { lru with order := Lib.Lru.put key entry.unstamped lru.order }
              (Lib.Lru.put key entry order) := by
            refine ⟨hrecency.link (checked_stamp hentry).1, ?_, hcap⟩
            show Lib.Lru.put key entry.unstamped lru.order = _
            rw [horder, Lib.Lru.put_mapValues]
          have hcapped := hlinked.evictUntilUnderCap hlinked.1.guard
          exact ⟨⟨_, hcapped.1⟩, rfl, List.Perm.of_eq hcapped.2⟩
  | lookup key =>
      have hget := hrecency.get key horder
      simp only [Store.call, Lru.call]
      cases hentry : store.find key with
      | none =>
          rw [hentry] at hget
          have htouch : Lib.Lru.touch key lru.order = lru.order := by
            unfold Lib.Lru.touch
            rw [hget]
            rfl
          rw [Store.lookup_none hentry, htouch, hget]
          exact ⟨⟨order, h⟩, rfl, List.Perm.refl _⟩
      | some entry =>
          rw [hentry] at hget
          have htouch : Lib.Lru.touch key lru.order =
              Lib.Lru.put key entry.unstamped lru.order := by
            unfold Lib.Lru.touch
            rw [hget]
            rfl
          rw [Store.lookup_some hentry, htouch, hget]
          have hlinked : Recency (store.linked key { entry with lastUse := store.clock })
              (Lib.Lru.put key { entry with lastUse := store.clock } order) := hrecency.link rfl
          refine ⟨⟨_, hlinked, ?_, hcap⟩, rfl, List.Perm.refl _⟩
          show Lib.Lru.put key entry.unstamped lru.order = _
          rw [horder, ← Lib.Lru.put_mapValues]
          rfl
  | evict key =>
      have hget := hrecency.get key horder
      have hdrop := h.drop fun k => k = key
      have herase : store.entries.filter (fun kv => decide (kv.1 ≠ key)) =
          store.entries.filter fun kv => !decide (kv.1 = key) :=
        List.filter_congr fun kv _ => decide_not
      have hstore : store.erase key =
          { store with entries := store.entries.filter fun kv => !decide (kv.1 = key) } := by
        unfold Store.erase
        rw [herase]
      simp only [Store.call, Lru.call, hrecency.evict, hget, Option.isSome_map, hstore]
      exact ⟨⟨_, hdrop.1⟩, trivial, hdrop.2⟩
  | evictEpoch epochDigest =>
      have hdrop := h.drop fun k => k.epochDigest = epochDigest
      have hrest : store.entries.filter (fun kv => decide (kv.1.epochDigest ≠ epochDigest)) =
          store.entries.filter fun kv => !decide (kv.1.epochDigest = epochDigest) :=
        List.filter_congr fun kv _ => decide_not
      simp only [Store.call, Lru.call, Store.evictEpoch, hrest]
      exact ⟨⟨_, hdrop.1⟩, congrArg Answer.swept hdrop.2.length_eq, hdrop.2⟩
  | clear =>
      have hdrop := h.drop fun _ => true
      have hnone : store.entries.filter (fun kv => !(fun _ => true) kv.1) = [] :=
        List.filter_eq_nil_iff.mpr fun kv _ => by simp
      rw [hnone] at hdrop
      exact ⟨⟨_, hdrop.1⟩, rfl, hdrop.2⟩
  | setByteCap bytes =>
      have hsame : Simulates { store with byteCap := bytes } { lru with byteCap := bytes } order :=
        ⟨hrecency.byteCap bytes, horder, rfl⟩
      have hcapped := hsame.evictUntilUnderCap hrecency.guard
      exact ⟨⟨_, hcapped.1⟩, rfl, List.Perm.of_eq hcapped.2⟩

/-! ## Reports -/

/-- A call reports each entry whose key it leaves without one, and each once. -/
structure ReportsDropped (before after : Store Time Pose Retained)
    (reports : List (Eviction Time)) : Prop where
  once : (reports.map Eviction.key).Nodup
  dropped : ∀ key time, ⟨key, time⟩ ∈ reports ↔
    ∃ entry, before.find key = some entry ∧ entry.time = time ∧ after.find key = none

theorem keys_reportOf (gone : List (FrameCacheKey × StoredEntry Time Pose Retained)) :
    (gone.map reportOf).map Eviction.key = gone.map Prod.fst := by
  rw [List.map_map]
  rfl

theorem reportsDropped_of_gone {after : Store Time Pose Retained}
    {gone kept : List (FrameCacheKey × StoredEntry Time Pose Retained)}
    {reports : List (Eviction Time)} (h : Recency store order) (hafter : Recency after kept)
    (hreports : reports.Perm (gone.map reportOf)) (hnodup : (gone.map Prod.fst).Nodup)
    (hgone : ∀ kv, kv ∈ gone ↔ kv ∈ order ∧ kv.1 ∉ kept.map Prod.fst) :
    ReportsDropped store after reports where
  once := by
    rw [(hreports.map Eviction.key).nodup_iff, keys_reportOf]
    exact hnodup
  dropped := by
    intro key time
    rw [hreports.mem_iff, List.mem_map]
    constructor
    · rintro ⟨kv, hkv, hreport⟩
      obtain ⟨rfl, rfl⟩ := Eviction.mk.inj hreport
      obtain ⟨hmem, hnot⟩ := (hgone kv).mp hkv
      refine ⟨kv.2, ?_, rfl, ?_⟩
      · rw [h.find]
        exact (Lib.Lru.get_eq_some_iff h.keys).mpr hmem
      · rw [hafter.find]
        exact Lib.Lru.get_eq_none_iff.mpr hnot
    · rintro ⟨entry, hentry, rfl, hnone⟩
      rw [h.find] at hentry
      rw [hafter.find] at hnone
      exact ⟨(key, entry), (hgone _).mpr ⟨(Lib.Lru.get_eq_some_iff h.keys).mp hentry,
        Lib.Lru.get_eq_none_iff.mp hnone⟩, rfl⟩

theorem Recency.reportsDropped_sweep (h : Recency store order) (picked : FrameCacheKey → Bool) :
    ReportsDropped store { store with entries := store.entries.filter fun kv => !picked kv.1 }
      (store.dropped picked) := by
  have hreports : (store.dropped picked).Perm
      ((order.filter fun kv => picked kv.1).map reportOf) := (h.perm.symm.filter _).map reportOf
  refine reportsDropped_of_gone h (h.filter fun kv => !picked kv.1) hreports
    (h.keys.sublist (List.filter_sublist.map Prod.fst)) ?_
  intro kv
  rw [List.mem_filter]
  refine and_congr_right fun hkv => ?_
  constructor
  · intro hpicked hkept
    obtain ⟨kv', hkv', heq⟩ := List.mem_map.mp hkept
    have hnot := (List.mem_filter.mp hkv').2
    rw [heq, hpicked] at hnot
    cases hnot
  · intro hnot
    cases hpicked : picked kv.1 with
    | true => rfl
    | false =>
        refine absurd (List.mem_map_of_mem (List.mem_filter.mpr ⟨hkv, ?_⟩)) hnot
        rw [hpicked]
        rfl

/-- What the cap drops is the shortest prefix of the order that brings the bytes under it; the rest
is the order of what stays. -/
structure CapDrops (order : List (FrameCacheKey × StoredEntry Time Pose Retained))
    (after : Store Time Pose Retained) (reports : List (Eviction Time))
    (gone kept : List (FrameCacheKey × StoredEntry Time Pose Retained)) : Prop where
  split : gone ++ kept = order
  kept : Recency after kept
  reports : reports = gone.map reportOf
  under : after.bytes ≤ after.byteCap
  shortest : ∀ n < gone.length,
    after.byteCap < Lib.Lru.weight StoredEntry.bytes (order.drop n)

theorem Recency.capDrops (h : Recency store order) {guard : Nat} (hguard : order.length < guard) :
    CapDrops order (Store.evictUntilUnderCap guard store).1
      (Store.evictUntilUnderCap guard store).2
      (Lib.Lru.trim StoredEntry.bytes store.byteCap order).1
      (Lib.Lru.trim StoredEntry.bytes store.byteCap order).2 := by
  obtain ⟨hrest, hreports, hcap⟩ := h.evictUntilUnderCap hguard
  refine ⟨Lib.Lru.trim_append, hrest, hreports, ?_, ?_⟩
  · rw [hrest.bytes, hcap]
    exact Lib.Lru.weight_trim
  · intro n hn
    rw [hcap]
    exact Lib.Lru.trim_shortest hn

theorem CapDrops.mem_gone {after : Store Time Pose Retained} {reports : List (Eviction Time)}
    {gone kept : List (FrameCacheKey × StoredEntry Time Pose Retained)}
    (h : CapDrops order after reports gone kept) (hkeys : (order.map Prod.fst).Nodup)
    (kv : FrameCacheKey × StoredEntry Time Pose Retained) :
    kv ∈ gone ↔ kv ∈ order ∧ kv.1 ∉ kept.map Prod.fst := by
  rw [← h.split, List.map_append, List.nodup_append'] at hkeys
  rw [← h.split, List.mem_append]
  constructor
  · intro hgone
    exact ⟨Or.inl hgone, hkeys.2.2 (List.mem_map_of_mem hgone)⟩
  · rintro ⟨hgone | hkept, hnot⟩
    · exact hgone
    · exact absurd (List.mem_map_of_mem hkept) hnot

theorem CapDrops.nodup_gone {after : Store Time Pose Retained} {reports : List (Eviction Time)}
    {gone kept : List (FrameCacheKey × StoredEntry Time Pose Retained)}
    (h : CapDrops order after reports gone kept) (hkeys : (order.map Prod.fst).Nodup) :
    (gone.map Prod.fst).Nodup := by
  rw [← h.split, List.map_append, List.nodup_append'] at hkeys
  exact hkeys.1

theorem Recency.publish_reports {after : Store Time Pose Retained}
    {reports : List (Eviction Time)} {entry : StoredEntry Time Pose Retained}
    {gone kept : List (FrameCacheKey × StoredEntry Time Pose Retained)}
    (h : Recency store order) (hcap : CapDrops (Lib.Lru.put key entry order) after reports gone kept)
    (hheld : (key, entry) ∈ kept) : ReportsDropped store after reports := by
  have hput : ((Lib.Lru.put key entry order).map Prod.fst).Nodup := Lib.Lru.nodup_put h.keys
  refine reportsDropped_of_gone h hcap.kept (List.Perm.of_eq hcap.reports) (hcap.nodup_gone hput) ?_
  intro kv
  rw [hcap.mem_gone hput]
  have hkey : key ∈ kept.map Prod.fst := List.mem_map_of_mem (f := Prod.fst) hheld
  constructor
  · rintro ⟨hmem, hnot⟩
    rcases List.mem_append.mp hmem with hmem | hmem
    · exact ⟨(Lib.Lru.mem_without.mp hmem).1, hnot⟩
    · rw [List.mem_singleton.mp hmem] at hnot
      exact absurd hkey hnot
  · rintro ⟨hmem, hnot⟩
    refine ⟨List.mem_append_left _ (Lib.Lru.mem_without.mpr ⟨hmem, ?_⟩), hnot⟩
    rintro rfl
    exact hnot hkey

theorem put_kept (order : List (FrameCacheKey × StoredEntry Time Pose Retained))
    {entry : StoredEntry Time Pose Retained} (hle : entry.bytes ≤ store.byteCap) :
    (key, entry) ∈
      (Lib.Lru.trim StoredEntry.bytes store.byteCap (Lib.Lru.put key entry order)).2 := by
  obtain ⟨kept, hkept⟩ := Lib.Lru.trim_last hle (Lib.Lru.without key order) key
  show (key, entry) ∈ (Lib.Lru.trim _ _ (Lib.Lru.without key order ++ [(key, entry)])).2
  rw [hkept]
  exact List.mem_append_right _ (List.mem_singleton_self _)

/-- **Every call reports what it drops, once.** -/
theorem Recency.call_reports (h : Recency store order) (call : Call Time Pose Retained) :
    ReportsDropped store (store.call call).1 (store.call call).2.2 := by
  have hnothing : ∀ {after kept}, Recency after kept →
      order.map Prod.fst ⊆ kept.map Prod.fst → ReportsDropped store after [] := by
    intro after kept hafter hsub
    have hnil : ([] : List (Eviction Time)).Perm
        (([] : List (FrameCacheKey × StoredEntry Time Pose Retained)).map reportOf) :=
      List.Perm.refl _
    refine reportsDropped_of_gone h hafter hnil List.nodup_nil ?_
    intro kv
    constructor
    · intro hnil
      exact absurd hnil List.not_mem_nil
    · rintro ⟨hkv, hnot⟩
      exact absurd (hsub (List.mem_map_of_mem hkv)) hnot
  cases call with
  | publish key time pose retainedBytes retained provenance =>
      cases hentry : store.checked time pose retainedBytes retained provenance with
      | none =>
          rw [Store.call_publish_none hentry]
          exact hnothing h (List.Subset.refl _)
      | some entry =>
          rw [Store.call_publish_some hentry]
          obtain ⟨hstamp, -, hle⟩ := checked_stamp hentry
          have hlinked : Recency (store.linked key entry) (Lib.Lru.put key entry order) :=
            h.link hstamp
          exact h.publish_reports (hlinked.capDrops hlinked.guard) (put_kept order hle)
  | lookup key =>
      show ReportsDropped store (store.lookup key).2 []
      cases hentry : store.find key with
      | none =>
          rw [Store.lookup_none hentry]
          exact hnothing h (List.Subset.refl _)
      | some entry =>
          rw [Store.lookup_some hentry]
          have hlinked : Recency (store.linked key { entry with lastUse := store.clock })
              (Lib.Lru.put key { entry with lastUse := store.clock } order) := h.link rfl
          refine hnothing hlinked ?_
          intro k hk
          obtain ⟨kv, hkv, rfl⟩ := List.mem_map.mp hk
          rcases eq_or_ne kv.1 key with heq | hne
          · rw [heq]
            exact List.mem_map_of_mem (f := Prod.fst)
              (List.mem_append_right _ (List.mem_singleton_self (key, _)))
          · exact List.mem_map_of_mem (f := Prod.fst)
              (List.mem_append_left _ (Lib.Lru.mem_without.mpr ⟨hkv, hne⟩))
  | evict key =>
      show ReportsDropped store (store.evict key).1 (store.evict key).2
      rw [h.evict]
      have hsweep := h.reportsDropped_sweep fun k => k = key
      have herase : store.erase key =
          { store with entries := store.entries.filter fun kv => !decide (kv.1 = key) } := by
        unfold Store.erase
        rw [List.filter_congr fun kv _ => decide_not]
      rwa [herase]
  | evictEpoch epochDigest =>
      have hsweep := h.reportsDropped_sweep fun k => k.epochDigest = epochDigest
      have hrest : store.entries.filter (fun kv => decide (kv.1.epochDigest ≠ epochDigest)) =
          store.entries.filter fun kv => !decide (kv.1.epochDigest = epochDigest) :=
        List.filter_congr fun kv _ => decide_not
      simp only [Store.call, Store.evictEpoch, hrest]
      exact hsweep
  | clear =>
      have hsweep := h.reportsDropped_sweep fun _ => true
      have hnone : store.entries.filter (fun kv => !(fun _ => true) kv.1) = [] :=
        List.filter_eq_nil_iff.mpr fun kv _ => by simp
      rw [hnone] at hsweep
      exact hsweep
  | setByteCap bytes =>
      have hdrops := (h.byteCap bytes).capDrops h.guard
      exact reportsDropped_of_gone h hdrops.kept (List.Perm.of_eq hdrops.reports)
        (hdrops.nodup_gone h.keys) (hdrops.mem_gone h.keys)

/-! ## Histories -/

theorem simulates_after (calls : List (Call Time Pose Retained)) (h : Simulates store lru order) :
    ∃ order', Simulates (store.after calls) (lru.after calls) order' := by
  induction calls generalizing store lru order with
  | nil => exact ⟨order, h⟩
  | cons call calls ih =>
      obtain ⟨⟨order', hstep⟩, -, -⟩ := call_simulates h call
      exact ih hstep

theorem simulates_empty : Simulates ({} : Store Time Pose Retained) {} [] :=
  ⟨⟨List.Perm.refl _, List.Pairwise.nil, fun _ hkv => absurd hkv List.not_mem_nil,
    List.nodup_nil⟩, rfl, rfl⟩

/-- **Eviction is exactly least recently used.**  After any calls, the next one answers and reports
what the reference does, and each entry it drops once.  A publication that stores leaves its entry
where the next lookup finds it, and what it drops, like what a new cap drops, is the shortest prefix
of the reference's order that brings the bytes under the cap. -/
theorem frameCache_exactLru (calls : List (Call Time Pose Retained))
    (call : Call Time Pose Retained) :
    let store : Store Time Pose Retained := Store.after {} calls
    let lru : Lru Time Pose Retained := Lru.after {} calls
    let out := store.call call
    out.2.1 = (lru.call call).2.1 ∧ out.2.2.Perm (lru.call call).2.2 ∧
      ReportsDropped store out.1 out.2.2 ∧
      ∃ order, Recency store order ∧
        lru.order = Lib.Lru.mapValues StoredEntry.unstamped order ∧
        (∀ key time pose retainedBytes retained provenance,
          call = .publish key time pose retainedBytes retained provenance →
          out.2.1 = .published true →
          ∃ entry gone kept, entry.pose = pose ∧
            CapDrops (Lib.Lru.put key entry order) out.1 out.2.2 gone kept ∧
            (key, entry) ∈ kept ∧
            (out.1.call (.lookup key)).2.1 = .looked (some entry.handed)) ∧
        ∀ bytes, call = .setByteCap bytes →
          ∃ gone kept, CapDrops order out.1 out.2.2 gone kept := by
  intro store lru out
  have hempty : Simulates ({} : Store Time Pose Retained) {} [] := simulates_empty
  obtain ⟨order, hsim⟩ := simulates_after calls hempty
  obtain ⟨-, hanswer, hreports⟩ := call_simulates hsim call
  refine ⟨hanswer, hreports, hsim.1.call_reports call, order, hsim.1, hsim.2.1, ?_, ?_⟩
  · rintro key time pose retainedBytes retained provenance rfl hstored
    cases hentry : store.checked time pose retainedBytes retained provenance with
    | none =>
        have hout : out = (store, .published false, []) := Store.call_publish_none hentry
        rw [hout] at hstored
        cases hstored
    | some entry =>
        obtain ⟨hstamp, hpose, hle⟩ := checked_stamp hentry
        have hlinked : Recency (store.linked key entry) (Lib.Lru.put key entry order) :=
          hsim.1.link hstamp
        have hdrops := hlinked.capDrops hlinked.guard
        have hheld : (key, entry) ∈
            (Lib.Lru.trim StoredEntry.bytes (store.linked key entry).byteCap
              (Lib.Lru.put key entry order)).2 := put_kept order hle
        have hout : out = _ := Store.call_publish_some hentry
        rw [hout]
        refine ⟨entry, _, _, hpose, hdrops, hheld, ?_⟩
        have hfound := hdrops.kept.find.trans
          ((Lib.Lru.get_eq_some_iff hdrops.kept.keys).mpr hheld)
        simp only [Store.call, Store.lookup_some hfound, Option.map_some]
  · rintro bytes rfl
    exact ⟨_, _, (hsim.1.byteCap bytes).capDrops hsim.1.guard⟩

end

end RigExec.FrameCache
