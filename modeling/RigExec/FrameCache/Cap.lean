/-
# `RigExec.FrameCache.Cap` — the cap in a sequential history

`_EvictUntilUnderCap` reads the cap and the entry count once and then makes at
most `entryCount + 16` passes, each of which scans the shards for the oldest
entry and drops it if it is still that old.  With nobody else at work no pass is
lost: the scanned victim is found where its hash puts it (`Placed`), so each pass
drops one entry and the guard never runs out before the store is empty.

`Phase` is that argument as an invariant of the one active thread.  It looks
through a critical section to the state the section leaves behind, so every case
is about the state between two sections.
-/
import RigExec.FrameCache.Accounting
import Mathlib.Data.Prod.Lex

namespace RigExec.FrameCache

variable {Time Pose Retained : Type}

/-! ## Keys are where their hash puts them -/

/-- Every held key is in the shard of its hash, and every key about to be linked goes there. -/
structure Placed (y : System Time Pose Retained) : Prop where
  held : ∀ i key, key ∈ y.cache.shards i → shardOf key = i
  linked : ∀ i acts, y.sections i = some acts → ∀ key entry, .link key entry ∈ acts →
    shardOf key = i

variable {y y' : System Time Pose Retained} {thread : Nat} {i : Fin shardCount}
  {next : Task Time Pose Retained} {acts : List (Act Time Pose Retained)}

theorem mem_onShard {clock : Nat} {shard : Shard Time Pose Retained} {key : FrameCacheKey}
    {act : Act Time Pose Retained} (h : key ∈ act.onShard clock shard) :
    key ∈ shard ∨ ∃ entry, act = .link key entry := by
  cases act with
  | link at_ entry =>
      rcases (AList.mem_insert shard).mp h with rfl | hm
      · exact .inr ⟨entry, rfl⟩
      · exact .inl hm
  | touch at_ =>
      simp only [Act.onShard] at h
      split at h
      · rename_i entry hl
        rcases (AList.mem_insert shard).mp h with rfl | hm
        · exact .inl (AList.lookup_isSome.mp (by rw [hl]; rfl))
        · exact .inl hm
      · exact .inl h
  | erase at_ => exact .inl (AList.mem_erase.mp h).2
  | clear => exact absurd h (AList.notMem_empty key)
  | _ => exact .inl h

theorem Placed.congr (h : Placed y) (hshards : y'.cache.shards = y.cache.shards)
    (hsections : y'.sections = y.sections) : Placed y' :=
  ⟨by rw [hshards]; exact h.held, by rw [hsections]; exact h.linked⟩

theorem Placed.enter (h : Placed y) (hacts : ∀ key entry, .link key entry ∈ acts → shardOf key = i)
    (hstep : y.enter thread i acts next = some y') : Placed y' := by
  unfold System.enter at hstep
  split at hstep
  · cases hstep
  · cases hstep
    refine ⟨h.held, fun j held hheld => ?_⟩
    simp only [System.goto] at hheld
    by_cases hji : j = i
    · subst hji
      rw [Function.update_self] at hheld
      cases hheld
      exact hacts
    · rw [Function.update_of_ne hji] at hheld
      exact h.linked j held hheld

theorem Placed.inside (h : Placed y) (hstep : y.inside thread i next = some y') : Placed y' := by
  unfold System.inside at hstep
  split at hstep
  · cases hstep
  · rename_i hsection
    cases hstep
    refine ⟨h.held, fun j held hheld => ?_⟩
    simp only [System.goto] at hheld
    by_cases hji : j = i
    · subst hji
      rw [Function.update_self] at hheld
      cases hheld
    · rw [Function.update_of_ne hji] at hheld
      exact h.linked j held hheld
  · rename_i act rest hsection
    cases hstep
    obtain ⟨-, -, hshards, -⟩ := act_apply act i y.cache
    constructor
    · intro j key hkey
      simp only [hshards] at hkey
      by_cases hji : j = i
      · subst hji
        rw [Function.update_self] at hkey
        rcases mem_onShard hkey with hm | ⟨entry, rfl⟩
        · exact h.held j key hm
        · exact h.linked j _ hsection key entry List.mem_cons_self
      · rw [Function.update_of_ne hji] at hkey
        exact h.held j key hkey
    · intro j held hheld key entry hm
      by_cases hji : j = i
      · subst hji
        simp only [Function.update_self, Option.some.injEq] at hheld
        subst hheld
        exact h.linked j _ hsection key entry (List.mem_cons_of_mem _ hm)
      · simp only [Function.update_of_ne hji] at hheld
        exact h.linked j held hheld key entry hm

theorem Planned.linked {shard : Shard Time Pose Retained} (h : Planned i shard acts)
    {key : FrameCacheKey} {entry : Entry Time Pose Retained} (hm : .link key entry ∈ acts) :
    shardOf key = i := by
  cases h with
  | link at_ linked hat =>
      unfold linkActs at hm
      split at hm <;> simp at hm <;> rw [hm.1, hat]
  | evictAll gone _ _ => simp [evictActs] at hm
  | clear => simp [clearActs] at hm
  | _ => simp at hm

theorem Placed.step [FramePose Pose] {event : Event Time Pose Retained} (h : Placed y)
    (hstep : y.step event = some y') : Placed y' := by
  obtain ⟨thread, hturn⟩ := step_turn hstep
  cases hturn with
  | aside _ _ hshards hsections _ => exact h.congr hshards hsections
  | enter i acts next hplan henter => exact h.enter (fun _ _ hm => hplan.linked hm) henter
  | inside i next hinside => exact h.inside hinside

theorem Placed.initial : Placed ({} : System Time Pose Retained) :=
  ⟨fun _ key hkey => absurd hkey (AList.notMem_empty key), fun _ _ h => nomatch h⟩

/-! ## A whole section at once -/

/-- The cache a section leaves behind. -/
def Cache.after (c : Cache Time Pose Retained) (i : Fin shardCount)
    (acts : List (Act Time Pose Retained)) : Cache Time Pose Retained :=
  acts.foldl (Act.apply i) c

theorem after_byteCap (c : Cache Time Pose Retained) (i : Fin shardCount)
    (acts : List (Act Time Pose Retained)) : (c.after i acts).byteCap = c.byteCap := by
  induction acts generalizing c with
  | nil => rfl
  | cons act acts ih => exact (ih _).trans (act_apply act i c).2.2.2

theorem after_entryCount (c : Cache Time Pose Retained) (i : Fin shardCount)
    (acts : List (Act Time Pose Retained)) :
    (c.after i acts).entryCount = c.entryCount + (acts.map Act.deltaCount).sum := by
  induction acts generalizing c with
  | nil => simp [Cache.after]
  | cons act acts ih =>
      have hrest := ih (act.apply i c)
      have hact := (act_apply act i c).2.1
      simp only [Cache.after, List.foldl_cons, List.map_cons, List.sum_cons] at hrest ⊢
      omega

theorem after_bytes_le (c : Cache Time Pose Retained) (i : Fin shardCount)
    (acts : List (Act Time Pose Retained)) (hacts : ∀ act ∈ acts, act.deltaBytes ≤ 0) :
    (c.after i acts).bytes ≤ c.bytes := by
  induction acts generalizing c with
  | nil => exact le_rfl
  | cons act acts ih =>
      have hrest := ih (act.apply i c) fun act' hm => hacts act' (List.mem_cons_of_mem _ hm)
      have hact := (act_apply act i c).1
      have hdelta := hacts act List.mem_cons_self
      simp only [Cache.after, List.foldl_cons] at hrest ⊢
      omega

theorem deltaBytes_evictAll {gone : List (Sigma fun _ : FrameCacheKey => Entry Time Pose Retained)}
    :
    ∀ act ∈ gone.flatMap fun kv => evictActs kv.1 kv.2, act.deltaBytes ≤ 0 := by
  simp only [List.mem_flatMap, evictActs, List.mem_cons, List.not_mem_nil, or_false]
  rintro act ⟨kv, -, rfl | rfl | rfl | rfl⟩ <;> simp [Act.deltaBytes]

theorem deltaBytes_clear {shard : Shard Time Pose Retained} :
    ∀ act ∈ clearActs shard, act.deltaBytes ≤ 0 := by
  simp only [clearActs, List.mem_append, List.mem_flatMap, List.mem_cons, List.not_mem_nil, or_false]
  rintro act (⟨kv, -, rfl | rfl⟩ | rfl) <;> simp [Act.deltaBytes]

/-! ## One active thread -/

/-- What the scan has seen of the shards below `next`. -/
def Scanned (c : Cache Time Pose Retained) (next : Nat) : Option (FrameCacheKey × Nat) → Prop
  | none => ∀ i : Fin shardCount, i.val < next → (c.shards i).entries = []
  | some (victim, victimUse) =>
      ∃ entry, (c.shards (shardOf victim)).lookup victim = some entry ∧ entry.lastUse = victimUse

/-- What holds between two sections of the one active thread. -/
def Ready (c : Cache Time Pose Retained) : Task Time Pose Retained → Prop
  | .inside _ _ => False
  | .tallies _ next => Ready c next
  | .report _ next => Ready c next
  | .storeCap _ => True
  | .capRead _ => True
  | .capGuard _ cap => cap = c.byteCap
  | .capLoop _ cap guard _ => cap = c.byteCap ∧ (c.byteCap < c.bytes → c.entryCount < guard)
  | .capScan _ cap guard next found _ =>
      cap = c.byteCap ∧ c.entryCount ≤ guard ∧ Scanned c next found
  | _ => c.bytes ≤ c.byteCap

/-- What holds of the one active thread, looking through the section it is in. -/
def Phase (y : System Time Pose Retained) : Task Time Pose Retained → Prop
  | .inside i next => ∃ acts,
      y.sections = Function.update (fun _ => none) i (some acts) ∧ Ready (y.cache.after i acts) next
  | task => y.sections = (fun _ => none) ∧ Ready y.cache task

theorem Ready.congr {c c' : Cache Time Pose Retained} (hbytes : c'.bytes = c.bytes)
    (hcount : c'.entryCount = c.entryCount) (hshards : c'.shards = c.shards)
    (hcap : c'.byteCap = c.byteCap) {task : Task Time Pose Retained} (h : Ready c task) :
    Ready c' task := by
  induction task with
  | tallies _ next ih => exact ih h
  | report _ next ih => exact ih h
  | inside _ _ _ => exact h
  | capScan _ _ _ _ found _ =>
      cases found <;> simpa only [Ready, Scanned, hbytes, hcount, hshards, hcap] using h
  | storeCap _ => trivial
  | capRead _ => trivial
  | _ => simpa only [Ready, hbytes, hcount, hcap] using h

theorem phase_of_ready {task : Task Time Pose Retained} (hfree : y.sections = fun _ => none)
    (h : Ready y.cache task) : Phase y task := by
  cases task with
  | inside _ _ => exact h.elim
  | _ => exact ⟨hfree, h⟩

theorem phase_goto {c : Cache Time Pose Retained} {delivered : List (Eviction Time)}
    {task : Task Time Pose Retained} (hfree : y.sections = fun _ => none) (h : Ready c task) :
    Phase ({ y with cache := c, delivered := delivered }.goto thread task)
      (({ y with cache := c, delivered := delivered }.goto thread task).tasks thread) := by
  simp only [System.goto, Function.update_self]
  exact phase_of_ready hfree h

theorem phase_enter (hfree : y.sections = fun _ => none)
    (hstep : y.enter thread i acts next = some y') (h : Ready (y.cache.after i acts) next) :
    Phase y' (y'.tasks thread) := by
  simp only [System.enter, hfree, Option.some.injEq] at hstep
  subst hstep
  simp only [System.goto, Function.update_self]
  exact ⟨acts, rfl, h⟩

theorem phase_inside (h : Phase y (.inside i next)) (htask : y.tasks thread = .inside i next)
    (hstep : y.inside thread i next = some y') : Phase y' (y'.tasks thread) := by
  obtain ⟨acts, hsections, hready⟩ := h
  have hi : y.sections i = some acts := by rw [hsections, Function.update_self]
  cases acts with
  | nil =>
      simp only [System.inside, hi, Option.some.injEq] at hstep
      subst hstep
      simp only [System.goto, Function.update_self]
      refine phase_of_ready ?_ hready
      simp only [hsections, Function.update_idem]
      exact Function.update_eq_self i _
  | cons act acts =>
      simp only [System.inside, hi, Option.some.injEq] at hstep
      subst hstep
      rw [htask]
      exact ⟨acts, by simp only [hsections, Function.update_idem], hready⟩

/-- A scan keeps what it had found or takes an entry of the shard, and finds nothing only in an
empty shard. -/
theorem scanShard_spec (shard : Shard Time Pose Retained) (found : Option (FrameCacheKey × Nat)) :
    (scanShard shard found = none → found = none ∧ shard.entries = []) ∧
    ∀ victim use, scanShard shard found = some (victim, use) →
      found = some (victim, use) ∨ ∃ kv ∈ shard.entries, kv.1 = victim ∧ kv.2.lastUse = use := by
  unfold scanShard
  generalize shard.entries = entries
  induction entries generalizing found with
  | nil => exact ⟨fun h => ⟨h, rfl⟩, fun _ _ h => .inl h⟩
  | cons kv entries ih =>
      rw [List.foldl_cons]
      rcases found with _ | ⟨held, heldUse⟩
      · obtain ⟨hnone, hsome⟩ := ih (some (kv.1, kv.2.lastUse))
        refine ⟨fun h => (nomatch (hnone h).1), fun victim use h => .inr ?_⟩
        rcases hsome victim use h with heq | ⟨kv', hm, hkv'⟩
        · cases heq
          exact ⟨kv, List.mem_cons_self, rfl, rfl⟩
        · exact ⟨kv', List.mem_cons_of_mem _ hm, hkv'⟩
      · by_cases holder : kv.2.lastUse < heldUse
        · simp only [holder, if_true]
          obtain ⟨hnone, hsome⟩ := ih (some (kv.1, kv.2.lastUse))
          refine ⟨fun h => (nomatch (hnone h).1), fun victim use h => .inr ?_⟩
          rcases hsome victim use h with heq | ⟨kv', hm, hkv'⟩
          · cases heq
            exact ⟨kv, List.mem_cons_self, rfl, rfl⟩
          · exact ⟨kv', List.mem_cons_of_mem _ hm, hkv'⟩
        · simp only [holder, if_false]
          obtain ⟨hnone, hsome⟩ := ih (some (held, heldUse))
          refine ⟨fun h => (nomatch (hnone h).1), fun victim use h => ?_⟩
          rcases hsome victim use h with heq | ⟨kv', hm, hkv'⟩
          · exact .inl heq
          · exact .inr ⟨kv', List.mem_cons_of_mem _ hm, hkv'⟩

theorem Scanned.advance {c : Cache Time Pose Retained} {scanned : Nat}
    (hscanned : scanned < shardCount) {found : Option (FrameCacheKey × Nat)}
    (h : Scanned c scanned found) (hplaced : ∀ i key, key ∈ c.shards i → shardOf key = i) :
    Scanned c (scanned + 1) (scanShard (c.shards ⟨scanned, hscanned⟩) found) := by
  obtain ⟨hnone, hsome⟩ := scanShard_spec (c.shards ⟨scanned, hscanned⟩) found
  cases hresult : scanShard (c.shards ⟨scanned, hscanned⟩) found with
  | none =>
      obtain ⟨rfl, hempty⟩ := hnone hresult
      intro i hi
      rcases Nat.lt_succ_iff_lt_or_eq.mp hi with hlt | heq
      · exact h i hlt
      · rw [show i = ⟨scanned, hscanned⟩ from Fin.ext heq]
        exact hempty
  | some victim =>
      obtain ⟨victim, use⟩ := victim
      rcases hsome victim use hresult with rfl | ⟨⟨key, entry⟩, hm, rfl, rfl⟩
      · exact h
      · have hl : (c.shards ⟨scanned, hscanned⟩).lookup key = some entry :=
          AList.mem_lookup_iff.mpr hm
        have hat := hplaced ⟨scanned, hscanned⟩ key
          (AList.lookup_isSome.mp (by rw [hl]; rfl))
        exact ⟨entry, by rw [hat]; exact hl, rfl⟩

section Steps

variable [FramePose Pose]

omit [FramePose Pose] in
theorem bytes_eq_zero (haccounted : Accounted y) (hfree : y.sections = fun _ => none)
    {scanned : Nat} (hall : shardCount ≤ scanned) (h : Scanned y.cache scanned none) :
    y.cache.bytes = 0 := by
  rw [(haccounted.unlocked fun i => by rw [hfree]).1]
  refine Finset.sum_eq_zero fun i _ => ?_
  rw [heldBytes, h i (lt_of_lt_of_le i.isLt hall)]
  rfl

/-- **The active thread keeps its phase.** -/
theorem Phase.proceed (haccounted : Accounted y) (hplaced : Placed y)
    (h : Phase y (y.tasks thread)) (hstep : y.proceed thread (y.tasks thread) = some y') :
    Phase y' (y'.tasks thread) := by
  have hdrop : ∀ (key : FrameCacheKey) (entry : Entry Time Pose Retained),
      ∀ act ∈ evictActs key entry, act.deltaBytes ≤ 0 := by
    intro key entry act hm
    exact @deltaBytes_evictAll _ _ _ [⟨key, entry⟩] act (by simpa using hm)
  -- sections that only take bytes away keep the store under the cap
  have hshrink : ∀ {i : Fin shardCount} {acts : List (Act Time Pose Retained)}
      {next : Task Time Pose Retained}, y.enter thread i acts next = some y' →
      y.sections = (fun _ => none) → y.cache.bytes ≤ y.cache.byteCap →
      (∀ act ∈ acts, act.deltaBytes ≤ 0) →
      (∀ c : Cache Time Pose Retained, c.bytes ≤ c.byteCap → Ready c next) →
      Phase y' (y'.tasks thread) := by
    intro i acts next hstep hfree hle hacts hnext
    refine phase_enter hfree hstep (hnext _ ?_)
    rw [after_byteCap]
    exact (after_bytes_le y.cache i acts hacts).trans hle
  cases htask : y.tasks thread with
  | inside i next =>
      rw [htask] at h hstep
      exact phase_inside h htask hstep
  | returned result => rw [htask] at hstep; cases hstep
  | tallies tallies next =>
      rw [htask] at h hstep
      cases tallies with
      | nil => cases hstep; exact phase_goto h.1 h.2
      | cons t rest =>
          cases hstep
          obtain ⟨hb, hc, hs, hbc⟩ := tally_apply t y.cache
          exact phase_goto h.1 (h.2.congr hb hc hs hbc)
  | report evicted next => rw [htask] at h hstep; cases hstep; exact phase_goto h.1 h.2
  | lookup key =>
      rw [htask] at h hstep
      simp only [System.proceed, System.lookupSection] at hstep
      split at hstep
      · exact hshrink hstep h.1 h.2 (by simp [Act.deltaBytes]) fun _ hc => hc
      · split at hstep
        · exact hshrink hstep h.1 h.2 (by simp [Act.deltaBytes]) fun _ hc => hc
        · exact hshrink hstep h.1 h.2 (hdrop _ _) fun _ hc => hc
  | stamp key entry => rw [htask] at h hstep; cases hstep; exact phase_goto h.1 h.2
  | link key entry => rw [htask] at h hstep; exact phase_enter h.1 hstep trivial
  | evict key =>
      rw [htask] at h hstep
      simp only [System.proceed] at hstep
      split at hstep
      · exact hshrink hstep h.1 h.2 (by simp) fun _ hc => hc
      · exact hshrink hstep h.1 h.2 (hdrop _ _) fun _ hc => hc
  | evictEpoch epochDigest next dropped evicted =>
      rw [htask] at h hstep
      simp only [System.proceed] at hstep
      split at hstep
      · exact hshrink hstep h.1 h.2 deltaBytes_evictAll fun _ hc => hc
      · cases hstep; exact phase_goto h.1 h.2
  | clear next evicted =>
      rw [htask] at h hstep
      simp only [System.proceed] at hstep
      split at hstep
      · exact hshrink hstep h.1 h.2 deltaBytes_clear fun _ hc => hc
      · cases hstep; exact phase_goto h.1 h.2
  | storeCap bytes => rw [htask] at h hstep; cases hstep; exact phase_goto h.1 trivial
  | capRead result => rw [htask] at h hstep; cases hstep; exact phase_goto h.1 rfl
  | capGuard result cap =>
      rw [htask] at h hstep
      cases hstep
      have hnonneg := haccounted.nonneg.2
      refine phase_goto h.1 ⟨h.2, fun _ => ?_⟩
      show y.cache.entryCount < ((y.cache.entryCount + (16 : ℕ)).toNat : ℤ)
      omega
  | capLoop result cap guard evicted =>
      rw [htask] at h hstep
      obtain ⟨hfree, hcapEq, hguard⟩ := h
      cases guard with
      | zero =>
          -- an exhausted guard leaves no entry
          cases hstep
          have hnonneg := haccounted.nonneg.2
          refine phase_goto hfree ?_
          show y.cache.bytes ≤ y.cache.byteCap
          by_contra hlt
          have hneg := hguard (not_le.mp hlt)
          push_cast at hneg
          omega
      | succ guard =>
          simp only [System.proceed] at hstep
          split at hstep
          · rename_i hle
            cases hstep
            refine phase_goto hfree ?_
            show y.cache.bytes ≤ y.cache.byteCap
            rwa [← hcapEq]
          · rename_i hlt
            cases hstep
            have hcount := hguard (hcapEq ▸ not_le.mp hlt)
            exact phase_goto hfree ⟨hcapEq, by push_cast at hcount; omega, fun i hi => by omega⟩
  | capScan result cap guard next found evicted =>
      rw [htask] at h hstep
      obtain ⟨hfree, hcapEq, hguard, hscanned⟩ := h
      simp only [System.proceed] at hstep
      split at hstep
      · rename_i hnext
        exact phase_enter hfree hstep ⟨hcapEq, hguard, hscanned.advance hnext hplaced.held⟩
      · rename_i hall
        split at hstep
        · cases hstep
          have hzero := bytes_eq_zero haccounted hfree (not_lt.mp hall) hscanned
          refine phase_goto hfree ?_
          show y.cache.bytes ≤ y.cache.byteCap
          omega
        · rename_i victim victimUse
          obtain ⟨entry, hl, huse⟩ := hscanned
          simp only [System.dropVictim, hl, huse, ne_eq, not_true_eq_false, if_false] at hstep
          refine phase_enter hfree hstep ⟨?_, fun _ => ?_⟩
          · rw [after_byteCap]
            exact hcapEq
          · rw [after_entryCount]
            simp only [evictActs, List.map_cons, List.map_nil, List.sum_cons, List.sum_nil,
              Act.deltaCount]
            omega

/-! ## A sequential history -/

omit [FramePose Pose] in
/-- No call is in progress. -/
def Idle (y : System Time Pose Retained)
    : Prop := ∀ thread, ∃ result, y.tasks thread = .returned result

/-- Calls only start when no other is in progress. -/
def Sequential (y : System Time Pose Retained) (event : Event Time Pose Retained) : Prop :=
  ∀ thread op, event = .call thread op → Idle y

omit [FramePose Pose] in
/-- At most the one thread is in a call. -/
def Alone (y : System Time Pose Retained) (thread : Nat) : Prop :=
  ∀ other, other ≠ thread → ∃ result, y.tasks other = .returned result

/-- The invariant of a sequential history. -/
structure Serial (y : System Time Pose Retained) : Prop where
  accounted : Accounted y
  placed : Placed y
  active : ∃ thread, Alone y thread ∧ Phase y (y.tasks thread)

theorem Serial.step {event : Event Time Pose Retained} (h : Serial y)
    (hseq : Sequential y event) (hstep : y.step event = some y') : Serial y' := by
  refine ⟨h.accounted.step hstep, h.placed.step hstep, ?_⟩
  obtain ⟨active, halone, hphase⟩ := h.active
  cases event with
  | call thread op =>
      have hidle := hseq thread op rfl
      obtain ⟨result, hreturned⟩ := hidle active
      rw [hreturned] at hphase
      obtain ⟨hfree, hcap⟩ : _ ∧ y.cache.bytes ≤ y.cache.byteCap := hphase
      simp only [System.step] at hstep
      split at hstep
      · cases hstep
        refine ⟨thread, fun other hother => ?_, phase_goto hfree ?_⟩
        · simp only [System.goto, Function.update_of_ne hother]
          exact hidle other
        · cases op with
          | lookup key wanted => cases wanted <;> exact hcap
          | publish key time pose retainedBytes retained =>
              simp only [System.start]
              split_ifs <;> exact hcap
          | setByteCap bytes => trivial
          | _ => exact hcap
      · cases hstep
  | step thread =>
      by_cases hactive : thread = active
      · subst hactive
        refine ⟨thread, fun other hother => ?_, hphase.proceed h.accounted h.placed hstep⟩
        rw [(proceed_turn hstep).tasks_other hother]
        exact halone other hother
      · obtain ⟨result, hreturned⟩ := halone thread hactive
        simp [System.step, System.proceed, hreturned] at hstep

theorem Serial.history {events : List (Event Time Pose Retained)}
    (hseq : Lib.Meets System.step Sequential {} events)
    (hrun : System.history events = some y) : Serial y := by
  have hinitial : Serial ({} : System Time Pose Retained) := by
    refine ⟨.initial, .initial, 0, fun _ _ => ⟨.done, rfl⟩, rfl, ?_⟩
    show (0 : ℤ) ≤ (1280 * 1024 * 1024 : ℕ)
    omega
  exact Lib.run_invariant (fun _ _ _ h hc hstep => h.step hc hstep) hinitial hseq hrun

/-! ## Every call of a sequential history returns -/

omit [FramePose Pose] in
/-- What is left of a call, coarsely: the reads before the cap loop, then passes and shards. -/
def Task.rank : Task Time Pose Retained → Nat × Nat
  | .returned _ => (0, 0)
  | .inside _ next => (next.rank.1, next.rank.2 + 1)
  | .tallies ts next => (next.rank.1, next.rank.2 + ts.length + 1)
  | .report _ next => (next.rank.1, next.rank.2 + 1)
  | .lookup _ => (0, 6)
  | .stamp _ _ => (1, 5)
  | .link _ _ => (1, 4)
  | .evict _ => (0, 4)
  | .evictEpoch _ next _ _ => (0, 2 * (shardCount - next) + 2)
  | .clear next _ => (0, 2 * (shardCount - next) + 7)
  | .storeCap _ => (1, 3)
  | .capRead _ => (1, 2)
  | .capGuard _ _ => (1, 1)
  | .capLoop _ _ guard _ => (0, 40 * guard + 2)
  | .capScan _ _ guard next _ _ => (0, 40 * guard + 2 * (shardCount - next) + 5)

omit [FramePose Pose] in
/-- The acts left in the section a thread is in. -/
def pendingActs (y : System Time Pose Retained) : Task Time Pose Retained → Nat
  | .inside i _ => ((y.sections i).getD []).length
  | _ => 0

omit [FramePose Pose] in
/-- What is left of a thread's call. -/
def remaining (y : System Time Pose Retained) (thread : Nat) : Nat ×ₗ Nat ×ₗ Nat :=
  toLex ((y.tasks thread).rank.1,
    toLex ((y.tasks thread).rank.2, pendingActs y (y.tasks thread)))

omit [FramePose Pose] in
theorem remaining_lt {task : Task Time Pose Retained} (htask : y'.tasks thread = task)
    (h : task.rank.1 < (y.tasks thread).rank.1 ∨
      task.rank.1 = (y.tasks thread).rank.1 ∧ task.rank.2 < (y.tasks thread).rank.2) :
    remaining y' thread < remaining y thread := by
  simp only [remaining, htask, Prod.Lex.toLex_lt_toLex]
  rcases h with hlt | ⟨heq, hlt⟩
  · exact .inl hlt
  · exact .inr ⟨heq, .inl hlt⟩

theorem Phase.progress (h : Phase y (y.tasks thread))
    (hbusy : ∀ result, y.tasks thread ≠ .returned result) :
    ∃ y', y.step (.step thread) = some y' ∧ remaining y' thread < remaining y thread := by
  have hgoto : ∀ {c : Cache Time Pose Retained} {delivered : List (Eviction Time)}
      {task : Task Time Pose Retained},
      (task.rank.1 < (y.tasks thread).rank.1 ∨
        task.rank.1 = (y.tasks thread).rank.1 ∧ task.rank.2 < (y.tasks thread).rank.2) →
      ∃ y', some ({ y with cache := c, delivered := delivered }.goto thread task) = some y' ∧
        remaining y' thread < remaining y thread := fun hlt =>
    ⟨_, rfl, remaining_lt (Function.update_self ..) hlt⟩
  have henter : y.sections = (fun _ => none) → ∀ (i : Fin shardCount)
      (acts : List (Act Time Pose Retained)) (next : Task Time Pose Retained),
      ((Task.inside i next).rank.1 < (y.tasks thread).rank.1 ∨
        (Task.inside i next).rank.1 = (y.tasks thread).rank.1 ∧
          (Task.inside i next).rank.2 < (y.tasks thread).rank.2) →
      ∃ y', y.enter thread i acts next = some y' ∧ remaining y' thread < remaining y thread := by
    intro hfree i acts next hlt
    refine ⟨_, by simp only [System.enter, hfree]; rfl, ?_⟩
    exact remaining_lt (Function.update_self ..) hlt
  simp only [System.step]
  cases htask : y.tasks thread with
  | returned result => exact absurd htask (hbusy result)
  | inside i next =>
      rw [htask] at h
      obtain ⟨acts, hsections, hready⟩ := h
      have hi : y.sections i = some acts := by rw [hsections, Function.update_self]
      cases acts with
      | nil =>
          simp only [System.proceed, System.inside, hi]
          refine ⟨_, rfl, remaining_lt (Function.update_self ..) (.inr ?_)⟩
          rw [htask]
          exact ⟨rfl, Nat.lt_succ_self _⟩
      | cons act acts =>
          simp only [System.proceed, System.inside, hi]
          refine ⟨_, rfl, ?_⟩
          simp only [remaining, htask, Prod.Lex.toLex_lt_toLex, lt_irrefl, true_and, false_or,
            pendingActs, hi, Function.update_self, Option.getD_some, List.length_cons]
          exact Nat.lt_succ_self _
  | tallies ts next =>
      rw [htask] at hgoto
      cases ts with
      | nil => exact hgoto (.inr ⟨rfl, by simp [Task.rank]⟩)
      | cons t rest => exact hgoto (.inr ⟨rfl, by simp [Task.rank]⟩)
  | report evicted next => rw [htask] at hgoto; exact hgoto (.inr ⟨rfl, by simp [Task.rank]⟩)
  | lookup key =>
      rw [htask] at h henter
      simp only [System.proceed, System.lookupSection]
      split
      · exact henter h.1 _ _ _ (.inr ⟨rfl, by simp [Task.rank]⟩)
      · split
        · exact henter h.1 _ _ _ (.inr ⟨rfl, by simp [Task.rank]⟩)
        · exact henter h.1 _ _ _ (.inr ⟨rfl, by simp [Task.rank]⟩)
  | stamp key entry => rw [htask] at hgoto; exact hgoto (.inr ⟨rfl, by simp [Task.rank]⟩)
  | link key entry =>
      rw [htask] at h henter
      exact henter h.1 _ _ _ (.inr ⟨rfl, by simp [Task.rank]⟩)
  | evict key =>
      rw [htask] at h henter
      simp only [System.proceed]
      split
      · exact henter h.1 _ _ _ (.inr ⟨rfl, by simp [Task.rank]⟩)
      · exact henter h.1 _ _ _ (.inr ⟨rfl, by simp [Task.rank]⟩)
  | evictEpoch epochDigest next dropped evicted | clear next evicted =>
      rw [htask] at h henter hgoto
      simp only [System.proceed]
      split
      · exact henter h.1 _ _ _ (.inr ⟨rfl, by simp only [Task.rank]; omega⟩)
      · exact hgoto (.inr ⟨rfl, by simp [Task.rank]⟩)
  | storeCap bytes | capRead result =>
      rw [htask] at hgoto
      exact hgoto (.inr ⟨rfl, by simp [Task.rank]⟩)
  | capGuard result cap => rw [htask] at hgoto; exact hgoto (.inl (by simp [Task.rank]))
  | capLoop result cap guard evicted =>
      rw [htask] at hgoto
      cases guard with
      | zero => exact hgoto (.inr ⟨rfl, by simp [Task.rank]⟩)
      | succ guard =>
          simp only [System.proceed]
          split
          · exact hgoto (.inr ⟨rfl, by simp [Task.rank]⟩)
          · exact hgoto (.inr ⟨rfl, by simp only [Task.rank, shardCount]; omega⟩)
  | capScan result cap guard next found evicted =>
      rw [htask] at h henter hgoto
      simp only [System.proceed]
      split
      · exact henter h.1 _ _ _ (.inr ⟨rfl, by simp only [Task.rank]; omega⟩)
      · split
        · exact hgoto (.inr ⟨rfl, by simp [Task.rank]⟩)
        · simp only [System.dropVictim]
          split
          · exact henter h.1 _ _ _ (.inr ⟨rfl, by simp only [Task.rank]; omega⟩)
          · split
            · exact henter h.1 _ _ _ (.inr ⟨rfl, by simp only [Task.rank]; omega⟩)
            · exact henter h.1 _ _ _ (.inr ⟨rfl, by simp only [Task.rank]; omega⟩)

theorem Serial.returns (h : Serial y) :
    ∃ thread n y', Lib.run System.step y (List.replicate n (.step thread)) = some y' ∧
      Idle y' ∧ Serial y' := by
  obtain ⟨thread, halone, hphase⟩ := h.active
  refine ⟨thread, ?_⟩
  induction hmeasure : remaining y thread using WellFoundedLT.induction generalizing y with
  | ind measure ih =>
      by_cases hbusy : ∃ result, y.tasks thread = .returned result
      · refine ⟨0, y, rfl, fun other => ?_, h⟩
        by_cases hother : other = thread
        · exact hother ▸ hbusy
        · exact halone other hother
      · obtain ⟨z, hstep, hlt⟩ := hphase.progress fun result hr => hbusy ⟨result, hr⟩
        have hz : Serial z := h.step (fun _ _ he => by cases he) hstep
        have halone' : Alone z thread := fun other hother => by
          rw [(proceed_turn hstep).tasks_other hother]
          exact halone other hother
        obtain ⟨n, y', hrun, hdone⟩ := ih _ (hmeasure ▸ hlt) hz halone'
          (hphase.proceed h.accounted h.placed hstep) rfl
        exact ⟨n + 1, y', Lib.run_cons_eq_some.mpr ⟨z, hstep, hrun⟩, hdone⟩

omit [FramePose Pose] in
theorem Serial.under_cap (h : Serial y) (hidle : Idle y) :
    y.cache.bytes ≤ y.cache.byteCap := by
  obtain ⟨thread, -, hphase⟩ := h.active
  obtain ⟨result, hreturned⟩ := hidle thread
  rw [hreturned] at hphase
  exact hphase.2

/-- **Frame cache accounting.**  In every state any interleaving reaches neither total is below
zero, and with every shard unlocked the totals are what the shards hold.  In a sequential history
every call returns, and the byte total is at most the cap after each of them. -/
theorem frameCacheAccounting {events : List (Event Time Pose Retained)}
    (hrun : System.history events = some y) :
    (0 ≤ y.cache.bytes ∧ 0 ≤ y.cache.entryCount) ∧
    ((∀ i, y.sections i = none) →
      y.cache.bytes = ∑ i, heldBytes (y.cache.shards i) ∧
      y.cache.entryCount = ∑ i, heldCount (y.cache.shards i)) ∧
    (Lib.Meets System.step Sequential {} events →
      (Idle y → y.cache.bytes ≤ y.cache.byteCap) ∧
      ∃ thread n y', Lib.run System.step y (List.replicate n (.step thread)) = some y' ∧
        Idle y') := by
  have haccounted := Accounted.history hrun
  refine ⟨haccounted.nonneg, haccounted.unlocked, fun hseq => ?_⟩
  have hserial := Serial.history hseq hrun
  refine ⟨hserial.under_cap, ?_⟩
  obtain ⟨thread, n, y', hsteps, hidle, -⟩ := hserial.returns
  exact ⟨thread, n, y', hsteps, hidle⟩

end Steps

/-- Poses that are their own size. -/
instance : FramePose Nat where
  valid _ := true
  poseBytes n := n

/-! ## One call after another -/

section

variable {y : System Int Nat Unit} {thread : Nat} {events : List (Event Int Nat Unit)}

/-- A history is sequential, and nothing is in progress after it. -/
def Quiet (y : System Int Nat Unit) (events : List (Event Int Nat Unit)) : Prop :=
  Lib.Meets System.step Sequential y events ∧
    ∀ y', Lib.run System.step y events = some y' → Idle y'

theorem Alone.quiet {n : Nat} (h : Alone y thread)
    (hrest : ∀ y', Lib.run System.step y (List.replicate n (.step thread)) = some y' →
      Alone y' thread → Quiet y' events) :
    Quiet y (List.replicate n (.step thread) ++ events) := by
  induction n generalizing y with
  | zero => exact hrest y rfl h
  | succ n ih =>
      have hnext : ∀ z, y.step (.step thread) = some z →
          Quiet z (List.replicate n (.step thread) ++ events) := by
        intro z hstep
        refine ih ?_ fun y' hrun => hrest y' (Lib.run_cons_eq_some.mpr ⟨z, hstep, hrun⟩)
        intro other hother
        rw [(proceed_turn hstep).tasks_other hother]
        exact h other hother
      refine ⟨⟨fun _ _ he => (by cases he), fun z hstep => (hnext z hstep).1⟩, ?_⟩
      intro y' hrun
      obtain ⟨z, hstep, hrun⟩ := Lib.run_cons_eq_some.mp hrun
      exact (hnext z hstep).2 y' hrun

/-- **A call with its steps**, made when no other is in progress. -/
theorem Idle.quiet {n : Nat} {op : Op Int Nat Unit} (h : Idle y)
    (hrest : ∀ y', Lib.run System.step y (.call thread op :: List.replicate n (.step thread)) =
      some y' → Alone y' thread → Quiet y' events) :
    Quiet y (.call thread op :: (List.replicate n (.step thread) ++ events)) := by
  have hnext : ∀ z, y.step (.call thread op) = some z →
      Quiet z (List.replicate n (.step thread) ++ events) := by
    intro z hstart
    refine Alone.quiet ?_ fun y' hrun => hrest y' (Lib.run_cons_eq_some.mpr ⟨z, hstart, hrun⟩)
    intro other hother
    simp only [System.step] at hstart
    split at hstart
    · cases hstart
      simp only [System.goto, Function.update_of_ne hother]
      exact h other
    · cases hstart
  refine ⟨⟨fun _ _ _ => h, fun z hstart => (hnext z hstart).1⟩, ?_⟩
  intro y' hrun
  obtain ⟨z, hstart, hrun⟩ := Lib.run_cons_eq_some.mp hrun
  exact (hnext z hstart).2 y' hrun

/-- The call that a thread was in is over. -/
def Task.isReturned : Task Int Nat Unit → Bool
  | .returned _ => true
  | _ => false

theorem Alone.idle (h : Alone y thread) (hreturned : (y.tasks thread).isReturned = true) :
    Idle y := by
  intro other
  by_cases hother : other = thread
  · subst hother
    cases htask : y.tasks other with
    | returned result => exact ⟨result, rfl⟩
    | _ =>
        rw [htask] at hreturned
        cases hreturned
  · exact h other hother

/-- The first call of three, with its steps. -/
def cappedStart : List (Event Int Nat Unit) :=
  .call 0 (.setByteCap 1000) :: List.replicate 5 (.step 0)

/-- The second. -/
def publishedOnce : List (Event Int Nat Unit) :=
  .call 0 (.publish ⟨1, 2⟩ .default 700 0 none) :: List.replicate 11 (.step 0)

/-- The third, which is over the cap with the second. -/
def publishedTwice : List (Event Int Nat Unit) :=
  .call 0 (.publish ⟨3, 2⟩ .default 700 0 none) :: List.replicate 50 (.step 0)

theorem returned_of_check {checked : List (Event Int Nat Unit)} {y' : System Int Nat Unit}
    (hrun : Lib.run System.step y checked = some y')
    (hcheck : (Lib.run System.step y checked).all (fun y => (y.tasks 0).isReturned) = true) :
    (y'.tasks 0).isReturned = true := by
  rw [hrun] at hcheck
  exact hcheck

theorem quiet_publishedTwice : Quiet {} (cappedStart ++ (publishedOnce ++ publishedTwice)) := by
  refine Idle.quiet (fun _ => ⟨.done, rfl⟩) fun y₁ h₁ halone₁ => ?_
  have hreturned₁ := returned_of_check h₁ (by decide +kernel)
  refine Idle.quiet (halone₁.idle hreturned₁) fun y₂ h₂ halone₂ => ?_
  have htwo : Lib.run System.step {} (cappedStart ++ publishedOnce) = some y₂ :=
    Lib.run_append_eq_some.mpr ⟨y₁, h₁, h₂⟩
  have hreturned₂ := returned_of_check htwo (by decide +kernel)
  rw [← List.append_nil publishedTwice]
  refine Idle.quiet (halone₂.idle hreturned₂) fun y₃ h₃ halone₃ => ?_
  have hthree : Lib.run System.step {} (cappedStart ++ publishedOnce ++ publishedTwice) = some y₃ :=
    Lib.run_append_eq_some.mpr ⟨y₂, htwo, h₃⟩
  have hidle := halone₃.idle (returned_of_check hthree (by decide +kernel))
  exact ⟨trivial, fun y' hrun => Option.some.inj hrun ▸ hidle⟩

end

/-- A publish of 700 bytes and a second thread inside `Evict` of the same entry; and two publishes
of 700 bytes under a cap of 1000, of which the second drops the first. -/
theorem frameCacheAccounting_evicting :
    (∃ y : System Int Nat Unit,
      System.history [.call 0 (.publish ⟨1, 2⟩ .default 700 0 none), .step 0, .step 0, .step 0,
        .step 0, .step 0, .step 0, .step 0, .call 1 (.evict ⟨1, 2⟩), .step 1, .step 1] = some y ∧
      y.sections (shardOf ⟨1, 2⟩) ≠ none ∧ 0 ≤ y.cache.bytes ∧ 0 ≤ y.cache.entryCount) ∧
    ∃ y : System Int Nat Unit,
      System.history (cappedStart ++ (publishedOnce ++ publishedTwice)) = some y ∧ Idle y ∧
      y.cache.evictions = 1 ∧ y.cache.byteCap = 1000 ∧ y.cache.bytes ≤ y.cache.byteCap := by
  refine ⟨⟨_, rfl, by decide, ?_⟩, ?_⟩
  · exact (@frameCacheAccounting Int Nat Unit _ _
      [.call 0 (.publish ⟨1, 2⟩ .default 700 0 none), .step 0, .step 0, .step 0, .step 0, .step 0,
        .step 0, .step 0, .call 1 (.evict ⟨1, 2⟩), .step 1, .step 1] rfl).1
  · have hends : (System.history (cappedStart ++ (publishedOnce ++ publishedTwice))).any
        (fun y => y.cache.evictions == 1 && y.cache.byteCap == 1000) = true := by decide +kernel
    obtain ⟨y, hrun, hcounts⟩ := (Option.any_eq_true _ _).mp hends
    rw [Bool.and_eq_true, beq_iff_eq, beq_iff_eq] at hcounts
    have hidle := quiet_publishedTwice.2 y hrun
    exact ⟨y, hrun, hidle, hcounts.1, hcounts.2,
      ((frameCacheAccounting hrun).2.2 quiet_publishedTwice.1).1 hidle⟩

end RigExec.FrameCache
