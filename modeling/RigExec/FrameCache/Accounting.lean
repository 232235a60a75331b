/-
# `RigExec.FrameCache.Accounting` — the shared totals, in every interleaving

The byte total and the entry count are moved by hand inside sixteen critical
sections at once.  The invariant splits them: each shard has its own share of
both totals, and the totals are the sums of the shares (`Accounted`).  An unlocked
shard's share is what it holds.  A locked shard's share is whatever its holder's
remaining acts still turn into what the shard will hold, without going below
zero on the way (`Settles`).  A thread only ever changes the share of the shard
it has locked, so the other threads do not matter.
-/
import RigExec.FrameCache.Model
import Mathlib.Algebra.BigOperators.Group.Finset.Basic
import Mathlib.Algebra.Order.BigOperators.Group.Finset
import Mathlib.Algebra.BigOperators.Group.Finset.Piecewise
import Mathlib.Algebra.BigOperators.Fin

namespace RigExec.FrameCache

variable {Time Pose Retained : Type}

/-! ## What a shard holds -/

variable (shard : Shard Time Pose Retained)

/-- The sizes of the entries a shard holds. -/
def heldBytes : ℤ :=
  (shard.entries.map fun kv => (kv.2.bytes : ℤ)).sum

/-- How many entries a shard holds. -/
def heldCount : ℤ := shard.entries.length

theorem heldBytes_nonneg : 0 ≤ heldBytes shard := by
  refine List.sum_nonneg fun n hn => ?_
  obtain ⟨kv, -, rfl⟩ := List.mem_map.mp hn
  exact Int.natCast_nonneg _

theorem heldCount_nonneg : 0 ≤ heldCount shard :=
  Int.natCast_nonneg _

theorem entries_perm_erase {shard : Shard Time Pose Retained} {key : FrameCacheKey}
    {entry : Entry Time Pose Retained} (h : shard.lookup key = some entry) :
    shard.entries.Perm (⟨key, entry⟩ :: (shard.erase key).entries) := by
  have hmem : ⟨key, entry⟩ ∈ shard.entries := AList.mem_lookup_iff.mp h
  obtain ⟨value, before, after, hbefore, hl, herase⟩ :=
    List.exists_of_kerase (List.mem_map.mpr ⟨_, hmem, rfl⟩ : key ∈ shard.entries.keys)
  have hvalue : value = entry := by
    have hmem' : (⟨key, value⟩ : Sigma fun _ : FrameCacheKey => Entry Time Pose Retained) ∈
        shard.entries := by simp [hl]
    exact eq_of_heq ((shard.nodupKeys.eq_of_mk_mem hmem' hmem) ▸ HEq.rfl)
  subst hvalue
  show shard.entries.Perm (⟨key, value⟩ :: shard.entries.kerase key)
  rw [herase, hl]
  exact List.perm_middle

theorem heldBytes_erase {shard : Shard Time Pose Retained} {key : FrameCacheKey}
    {entry : Entry Time Pose Retained} (h : shard.lookup key = some entry) :
    heldBytes shard = entry.bytes + heldBytes (shard.erase key) := by
  simpa [heldBytes] using ((entries_perm_erase h).map fun kv => (kv.2.bytes : ℤ)).sum_eq

theorem heldCount_erase {shard : Shard Time Pose Retained} {key : FrameCacheKey}
    {entry : Entry Time Pose Retained} (h : shard.lookup key = some entry) :
    heldCount shard = 1 + heldCount (shard.erase key) := by
  have := (entries_perm_erase h).length_eq
  simp only [heldCount, List.length_cons] at this ⊢
  omega

theorem entries_erase (key : FrameCacheKey) :
    (shard.erase key).entries = shard.entries.kerase key := rfl

theorem heldBytes_insert (key : FrameCacheKey) (entry : Entry Time Pose Retained) :
    heldBytes (shard.insert key entry) = entry.bytes + heldBytes (shard.erase key) := by
  simp [heldBytes, AList.entries_insert, entries_erase]

theorem heldCount_insert (key : FrameCacheKey) (entry : Entry Time Pose Retained) :
    heldCount (shard.insert key entry) = 1 + heldCount (shard.erase key) := by
  simp only [heldCount, AList.entries_insert, entries_erase, List.length_cons]
  omega

theorem erase_of_lookup_none {shard : Shard Time Pose Retained} {key : FrameCacheKey}
    (h : shard.lookup key = none) : shard.erase key = shard :=
  AList.ext (List.kerase_of_notMem_keys (AList.lookup_eq_none.mp h))

/-! ## Sections that settle -/

/-- What an act adds to the byte total. -/
def Act.deltaBytes : Act Time Pose Retained → ℤ
  | .subBytes n => -n
  | .addBytes n => n
  | _ => 0

/-- What an act adds to the entry count. -/
def Act.deltaCount : Act Time Pose Retained → ℤ
  | .subCount => -1
  | .addCount => 1
  | _ => 0

/-- A shard's share of the totals, with these acts still to come: nothing goes below zero on the
way, and in the end the share is what the shard then holds. -/
def Settles (bytes count : ℤ) : List (Act Time Pose Retained) → Shard Time Pose Retained → Prop
  | [], shard => bytes = heldBytes shard ∧ count = heldCount shard
  | act :: acts, shard =>
      0 ≤ bytes ∧ 0 ≤ count ∧
        ∀ clock, Settles (bytes + act.deltaBytes) (count + act.deltaCount) acts
          (act.onShard clock shard)

theorem Settles.nonneg {bytes count : ℤ} {acts : List (Act Time Pose Retained)}
    {shard : Shard Time Pose Retained} (h : Settles bytes count acts shard) :
    0 ≤ bytes ∧ 0 ≤ count := by
  cases acts with
  | nil => exact ⟨h.1 ▸ heldBytes_nonneg shard, h.2 ▸ heldCount_nonneg shard⟩
  | cons act acts => exact ⟨h.1, h.2.1⟩

/-- A section that starts from what its shard holds. -/
abbrev Balanced (acts : List (Act Time Pose Retained)) (shard : Shard Time Pose Retained) : Prop :=
  Settles (heldBytes shard) (heldCount shard) acts shard

theorem balanced_nil : Balanced [] shard := ⟨rfl, rfl⟩

theorem balanced_miss : Balanced [.tally .miss] shard :=
  ⟨heldBytes_nonneg shard, heldCount_nonneg shard, fun _ => by
    simp only [Act.deltaBytes, Act.deltaCount, Int.add_zero]
    exact balanced_nil shard⟩

theorem balanced_touch (key : FrameCacheKey) :
    Balanced [.touch key] shard := by
  refine ⟨heldBytes_nonneg shard, heldCount_nonneg shard, fun clock => ?_⟩
  simp only [Act.deltaBytes, Act.deltaCount, Int.add_zero, Settles, Act.onShard]
  cases hl : shard.lookup key with
  | none => exact ⟨rfl, rfl⟩
  | some entry =>
      exact ⟨(heldBytes_erase hl).trans (heldBytes_insert ..).symm,
        (heldCount_erase hl).trans (heldCount_insert ..).symm⟩

theorem balanced_evictAll :
    ∀ (gone : List (Sigma fun _ : FrameCacheKey => Entry Time Pose Retained))
      (shard : Shard Time Pose Retained), gone.NodupKeys →
      (∀ kv ∈ gone, shard.lookup kv.1 = some kv.2) →
      Balanced (gone.flatMap fun kv => evictActs kv.1 kv.2) shard
  | [], shard, _, _ => balanced_nil shard
  | ⟨key, entry⟩ :: gone, shard, hnodup, hheld => by
      have hl : shard.lookup key = some entry := hheld _ List.mem_cons_self
      have hbytes := heldBytes_erase hl
      have hcount := heldCount_erase hl
      have hb := heldBytes_nonneg (shard.erase key)
      have hc := heldCount_nonneg (shard.erase key)
      obtain ⟨hkey, hrest⟩ := List.nodupKeys_cons.mp hnodup
      have ih := balanced_evictAll gone (shard.erase key) hrest fun kv hkv => by
        have hne : kv.1 ≠ key := fun he => hkey (he ▸ List.mem_map.mpr ⟨kv, hkv, rfl⟩)
        rw [AList.lookup_erase_ne hne]
        exact hheld kv (List.mem_cons_of_mem _ hkv)
      simp only [List.flatMap_cons, evictActs, List.cons_append, List.nil_append, Balanced, Settles,
        Act.deltaBytes, Act.deltaCount, Act.onShard, Int.add_zero]
      refine ⟨by omega, by omega, fun _ => ⟨by omega, by omega, fun _ => ⟨by omega, by omega,
        fun _ => ⟨by omega, by omega, fun _ => ?_⟩⟩⟩⟩
      rw [show heldBytes shard + -(entry.bytes : ℤ) = heldBytes (shard.erase key) by omega,
        show heldCount shard + -1 = heldCount (shard.erase key) by omega]
      exact ih

theorem balanced_link (key : FrameCacheKey)
    (entry : Entry Time Pose Retained) : Balanced (linkActs shard key entry) shard := by
  have hb := heldBytes_nonneg (shard.erase key)
  have hc := heldCount_nonneg (shard.erase key)
  have hbytes := heldBytes_insert shard key entry
  have hcount := heldCount_insert shard key entry
  unfold linkActs
  cases hl : shard.lookup key with
  | some old =>
      have hold := heldBytes_erase hl
      have hone := heldCount_erase hl
      simp only [Balanced, Settles, Act.deltaBytes, Act.deltaCount, Act.onShard, Int.add_zero]
      refine ⟨by omega, by omega, fun _ => ⟨by omega, by omega, fun _ => ⟨by omega, by omega,
        fun _ => ⟨by omega, by omega, fun _ => ⟨by omega, by omega⟩⟩⟩⟩⟩
  | none =>
      rw [erase_of_lookup_none hl] at hbytes hcount hb hc
      simp only [Balanced, Settles, Act.deltaBytes, Act.deltaCount, Act.onShard, Int.add_zero]
      refine ⟨by omega, by omega, fun _ => ⟨by omega, by omega, fun _ => ⟨by omega, by omega,
        fun _ => ⟨by omega, by omega, fun _ => ⟨by omega, by omega⟩⟩⟩⟩⟩

/-- `Clear` takes every entry out of the totals before it clears the map. -/
theorem settles_clear :
    ∀ (entries : List (Sigma fun _ : FrameCacheKey => Entry Time Pose Retained))
      (shard : Shard Time Pose Retained),
      Settles (entries.map fun kv => (kv.2.bytes : ℤ)).sum entries.length
        ((entries.flatMap fun kv => [.subBytes kv.2.bytes, .subCount]) ++ [.clear]) shard
  | [], shard => by
      simp only [List.map_nil, List.sum_nil, List.flatMap_nil, List.nil_append, Settles,
        Act.deltaBytes, Act.deltaCount, Act.onShard]
      exact ⟨le_rfl, le_rfl, fun _ => ⟨rfl, rfl⟩⟩
  | ⟨key, entry⟩ :: entries, shard => by
      have ih := settles_clear entries shard
      have hnonneg := ih.nonneg
      simp only [List.map_cons, List.sum_cons, List.flatMap_cons, List.cons_append, List.nil_append,
        List.length_cons, Settles, Act.deltaBytes, Act.deltaCount, Act.onShard, Int.add_zero,
        Nat.cast_add, Nat.cast_one]
      refine ⟨by omega, by omega, fun _ => ⟨by omega, by omega, fun _ => ?_⟩⟩
      rw [show (entry.bytes : ℤ) + (entries.map fun kv => (kv.2.bytes : ℤ)).sum + -entry.bytes =
        (entries.map fun kv => (kv.2.bytes : ℤ)).sum by omega,
        show (entries.length : ℤ) + 1 + -1 = entries.length by omega]
      exact ih

theorem balanced_clear : Balanced (clearActs shard) shard :=
  settles_clear shard.entries shard

/-! ## What one step of a thread does -/

/-- The sections the calls plan, over the shard they find. -/
inductive Planned (i : Fin shardCount) (shard : Shard Time Pose Retained) :
    List (Act Time Pose Retained) → Prop
  | nothing : Planned i shard []
  | miss : Planned i shard [.tally .miss]
  | touch (key : FrameCacheKey) : Planned i shard [.touch key]
  | evictAll (gone : List (Sigma fun _ : FrameCacheKey => Entry Time Pose Retained)) :
      gone.NodupKeys → (∀ kv ∈ gone, shard.lookup kv.1 = some kv.2) →
      Planned i shard (gone.flatMap fun kv => evictActs kv.1 kv.2)
  | link (key : FrameCacheKey) (entry : Entry Time Pose Retained) : shardOf key = i →
      Planned i shard (linkActs shard key entry)
  | clear : Planned i shard (clearActs shard)

theorem planned_evict {i : Fin shardCount} {shard : Shard Time Pose Retained} {key : FrameCacheKey}
    {entry : Entry Time Pose Retained} (h : shard.lookup key = some entry) :
    Planned i shard (evictActs key entry) := by
  have hall := @Planned.evictAll _ _ _ i shard [⟨key, entry⟩] (List.nodupKeys_singleton _)
    (by simpa using h)
  simpa using hall

theorem planned_evictEpoch {i : Fin shardCount} (epochDigest : UInt64) :
    Planned i shard ((epochEntries shard epochDigest).flatMap fun kv => evictActs kv.1 kv.2) :=
  .evictAll _ (shard.nodupKeys.sublist List.filter_sublist) fun _ hkv =>
    AList.mem_lookup_iff.mpr (List.mem_filter.mp hkv).1

theorem Planned.balanced {i : Fin shardCount} {shard : Shard Time Pose Retained}
    {acts : List (Act Time Pose Retained)} (h : Planned i shard acts) : Balanced acts shard := by
  cases h with
  | nothing => exact balanced_nil shard
  | miss => exact balanced_miss shard
  | touch key => exact balanced_touch shard key
  | evictAll gone hnodup hheld => exact balanced_evictAll gone shard hnodup hheld
  | link key entry _ => exact balanced_link shard key entry
  | clear => exact balanced_clear shard

/-- What one step of a thread does: something beside the shards and the totals, the lock of a shard
for a planned section, or the next act (or the unlock) of its section. -/
inductive Turn (y : System Time Pose Retained) (thread : Nat) (y' : System Time Pose Retained) :
    Prop
  | aside : y'.cache.bytes = y.cache.bytes → y'.cache.entryCount = y.cache.entryCount →
      y'.cache.shards = y.cache.shards → y'.sections = y.sections →
      (∀ other, other ≠ thread → y'.tasks other = y.tasks other) → Turn y thread y'
  | enter (i : Fin shardCount) (acts : List (Act Time Pose Retained))
      (next : Task Time Pose Retained) : Planned i (y.cache.shards i) acts →
      y.enter thread i acts next = some y' → Turn y thread y'
  | inside (i : Fin shardCount) (next : Task Time Pose Retained) :
      y.inside thread i next = some y' → Turn y thread y'

/-! ## The invariant -/

/-- The totals are the sums of the shards' shares. -/
def Accounted (y : System Time Pose Retained) : Prop :=
  ∃ bytes count : Fin shardCount → ℤ,
    y.cache.bytes = ∑ i, bytes i ∧ y.cache.entryCount = ∑ i, count i ∧
      ∀ i, Settles (bytes i) (count i) ((y.sections i).getD []) (y.cache.shards i)

theorem sum_update {n : Nat} (f : Fin n → ℤ) (i : Fin n) (v : ℤ) :
    ∑ j, Function.update f i v j = (∑ j, f j) + (v - f i) := by
  rw [Finset.sum_update_of_mem (Finset.mem_univ i),
    ← Finset.add_sum_erase Finset.univ f (Finset.mem_univ i), Finset.sdiff_singleton_eq_erase]
  omega

variable {y y' : System Time Pose Retained} {thread : Nat} {i : Fin shardCount}
  {next : Task Time Pose Retained}

theorem Accounted.initial : Accounted ({} : System Time Pose Retained) :=
  ⟨fun _ => 0, fun _ => 0, by simp, by simp, fun _ => ⟨rfl, rfl⟩⟩

theorem Accounted.nonneg (h : Accounted y) : 0 ≤ y.cache.bytes ∧ 0 ≤ y.cache.entryCount := by
  obtain ⟨bytes, count, hbytes, hcount, hsettles⟩ := h
  rw [hbytes, hcount]
  exact ⟨Finset.sum_nonneg fun i _ => (hsettles i).nonneg.1,
    Finset.sum_nonneg fun i _ => (hsettles i).nonneg.2⟩

theorem Accounted.unlocked (h : Accounted y) (hfree : ∀ i, y.sections i = none) :
    y.cache.bytes = ∑ i, heldBytes (y.cache.shards i) ∧
      y.cache.entryCount = ∑ i, heldCount (y.cache.shards i) := by
  obtain ⟨bytes, count, hbytes, hcount, hsettles⟩ := h
  have hshare : ∀ i, bytes i = heldBytes (y.cache.shards i) ∧
      count i = heldCount (y.cache.shards i) := by
    intro i
    have hi := hsettles i
    rw [hfree i] at hi
    exact hi
  exact ⟨hbytes.trans (Finset.sum_congr rfl fun i _ => (hshare i).1),
    hcount.trans (Finset.sum_congr rfl fun i _ => (hshare i).2)⟩

theorem Accounted.congr (h : Accounted y) (hbytes : y'.cache.bytes = y.cache.bytes)
    (hcount : y'.cache.entryCount = y.cache.entryCount)
    (hshards : y'.cache.shards = y.cache.shards) (hsections : y'.sections = y.sections) :
    Accounted y' := by
  unfold Accounted
  rw [hbytes, hcount, hshards, hsections]
  exact h

theorem tally_apply (t : Tally) (c : Cache Time Pose Retained) :
    (t.apply c).bytes = c.bytes ∧ (t.apply c).entryCount = c.entryCount ∧
      (t.apply c).shards = c.shards ∧ (t.apply c).byteCap = c.byteCap := by
  cases t <;> exact ⟨rfl, rfl, rfl, rfl⟩

theorem act_apply (act : Act Time Pose Retained) (i : Fin shardCount)
    (c : Cache Time Pose Retained) :
    (act.apply i c).bytes = c.bytes + act.deltaBytes ∧
      (act.apply i c).entryCount = c.entryCount + act.deltaCount ∧
      (act.apply i c).shards =
        Function.update c.shards i (act.onShard c.clock (c.shards i)) ∧
      (act.apply i c).byteCap = c.byteCap := by
  cases act with
  | tally t =>
      obtain ⟨hb, hc, hs, hcap⟩ := tally_apply t c
      simp only [Act.apply, Act.deltaBytes, Act.deltaCount, Act.onShard, Function.update_eq_self]
      exact ⟨by omega, by omega, hs, hcap⟩
  | _ => simp [Act.apply, Act.deltaBytes, Act.deltaCount, Act.onShard, Int.sub_eq_add_neg]

theorem Accounted.enter {acts : List (Act Time Pose Retained)} (h : Accounted y)
    (hacts : Balanced acts (y.cache.shards i)) (hstep : y.enter thread i acts next = some y') :
    Accounted y' := by
  unfold System.enter at hstep
  cases hfree : y.sections i with
  | some held => simp [hfree] at hstep
  | none =>
      simp only [hfree, Option.some.injEq] at hstep
      subst hstep
      obtain ⟨bytes, count, hbytes, hcount, hsettles⟩ := h
      refine ⟨bytes, count, hbytes, hcount, fun j => ?_⟩
      have hj := hsettles j
      simp only [System.goto]
      by_cases hji : j = i
      · subst hji
        rw [hfree] at hj
        obtain ⟨hb, hc⟩ : bytes j = _ ∧ count j = _ := hj
        rw [Function.update_self, hb, hc]
        exact hacts
      · rw [Function.update_of_ne hji]
        exact hj

theorem Accounted.inside (h : Accounted y) (hstep : y.inside thread i next = some y') :
    Accounted y' := by
  unfold System.inside at hstep
  obtain ⟨bytes, count, hbytes, hcount, hsettles⟩ := h
  have hi := hsettles i
  split at hstep
  · cases hstep
  · rename_i hsection
    cases hstep
    refine ⟨bytes, count, hbytes, hcount, fun j => ?_⟩
    simp only [System.goto]
    by_cases hji : j = i
    · subst hji
      rw [Function.update_self]
      rw [hsection] at hi
      exact hi
    · rw [Function.update_of_ne hji]
      exact hsettles j
  · rename_i act acts hsection
    cases hstep
    obtain ⟨hb, hc, hshards, -⟩ := act_apply act i y.cache
    rw [hsection] at hi
    obtain ⟨-, -, hrest⟩ := hi
    refine ⟨Function.update bytes i (bytes i + act.deltaBytes),
      Function.update count i (count i + act.deltaCount), ?_, ?_, fun j => ?_⟩
    · rw [sum_update, hb, hbytes]
      omega
    · rw [sum_update, hc, hcount]
      omega
    · simp only [hshards]
      by_cases hji : j = i
      · subst hji
        simp only [Function.update_self]
        exact hrest y.cache.clock
      · simp only [Function.update_of_ne hji]
        exact hsettles j

section Steps

variable [FramePose Pose]

omit [FramePose Pose] in
theorem turn_goto {c : Cache Time Pose Retained} {delivered : List (Eviction Time)}
    {task : Task Time Pose Retained} (hbytes : c.bytes = y.cache.bytes)
    (hcount : c.entryCount = y.cache.entryCount) (hshards : c.shards = y.cache.shards) :
    Turn y thread ({ y with cache := c, delivered := delivered }.goto thread task) :=
  .aside hbytes hcount hshards rfl fun _ hother => Function.update_of_ne hother _ _

/-- **A thread's step is one of three.** -/
theorem proceed_turn {task : Task Time Pose Retained} (hstep : y.proceed thread task = some y') :
    Turn y thread y' := by
  have hgoto : ∀ task, Turn y thread (y.goto thread task) := fun _ => turn_goto rfl rfl rfl
  cases task with
  | returned result => cases hstep
  | inside shard next => exact .inside shard next hstep
  | tallies tallies next =>
      cases tallies with
      | nil => cases hstep; exact hgoto _
      | cons t rest =>
          cases hstep
          obtain ⟨hb, hc, hs, -⟩ := tally_apply t y.cache
          exact turn_goto hb hc hs
  | report evicted next => cases hstep; exact turn_goto rfl rfl rfl
  | lookup key =>
      simp only [System.proceed, System.lookupSection] at hstep
      split at hstep
      · exact .enter _ _ _ .miss hstep
      · rename_i entry hl
        split at hstep
        · exact .enter _ _ _ (.touch key) hstep
        · exact .enter _ _ _ (planned_evict hl) hstep
  | stamp key entry => cases hstep; exact turn_goto rfl rfl rfl
  | link key entry => exact .enter _ _ _ (.link key entry rfl) hstep
  | evict key =>
      simp only [System.proceed] at hstep
      split at hstep
      · exact .enter _ _ _ .nothing hstep
      · rename_i entry hl
        exact .enter _ _ _ (planned_evict hl) hstep
  | evictEpoch epochDigest next dropped evicted =>
      simp only [System.proceed] at hstep
      split at hstep
      · exact .enter _ _ _ (planned_evictEpoch _ _) hstep
      · cases hstep; exact hgoto _
  | clear next evicted =>
      simp only [System.proceed] at hstep
      split at hstep
      · exact .enter _ _ _ .clear hstep
      · cases hstep; exact hgoto _
  | storeCap bytes => cases hstep; exact turn_goto rfl rfl rfl
  | capRead result => cases hstep; exact hgoto _
  | capGuard result cap => cases hstep; exact hgoto _
  | capLoop result cap guard evicted =>
      cases guard with
      | zero => cases hstep; exact hgoto _
      | succ guard =>
          simp only [System.proceed] at hstep
          split at hstep <;> cases hstep <;> exact hgoto _
  | capScan result cap guard next found evicted =>
      simp only [System.proceed] at hstep
      split at hstep
      · exact .enter _ _ _ .nothing hstep
      · split at hstep
        · cases hstep; exact hgoto _
        · simp only [System.dropVictim] at hstep
          split at hstep
          · exact .enter _ _ _ .nothing hstep
          · rename_i entry hl
            split at hstep
            · exact .enter _ _ _ .nothing hstep
            · exact .enter _ _ _ (planned_evict hl) hstep

theorem step_turn {event : Event Time Pose Retained} (hstep : y.step event = some y') :
    ∃ thread, Turn y thread y' := by
  cases event with
  | call thread op =>
      simp only [System.step] at hstep
      split at hstep
      · cases hstep; exact ⟨thread, turn_goto rfl rfl rfl⟩
      · cases hstep
  | step thread => exact ⟨thread, proceed_turn hstep⟩

omit [FramePose Pose] in
theorem Turn.tasks_other (h : Turn y thread y') {other : Nat} (hother : other ≠ thread) :
    y'.tasks other = y.tasks other := by
  cases h with
  | aside _ _ _ _ htasks => exact htasks other hother
  | enter i acts next _ henter =>
      unfold System.enter at henter
      split at henter <;> cases henter
      exact Function.update_of_ne hother _ _
  | inside i next hinside =>
      unfold System.inside at hinside
      split at hinside <;> cases hinside
      · exact Function.update_of_ne hother _ _
      · rfl

theorem Accounted.step {event : Event Time Pose Retained} (h : Accounted y)
    (hstep : y.step event = some y') : Accounted y' := by
  obtain ⟨thread, hturn⟩ := step_turn hstep
  cases hturn with
  | aside hbytes hcount hshards hsections _ => exact h.congr hbytes hcount hshards hsections
  | enter i acts next hplan henter => exact h.enter hplan.balanced henter
  | inside i next hinside => exact h.inside hinside

theorem Accounted.history {events : List (Event Time Pose Retained)}
    (hrun : System.history events = some y) : Accounted y :=
  Lib.run_preserves (fun _ _ _ h hstep => h.step hstep) .initial hrun

end Steps

end RigExec.FrameCache
