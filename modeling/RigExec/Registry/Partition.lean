/-
# `RigExec.Registry.Partition` — the retire step partitions the completions

One completion of the rig at a time: what the loop's body does to its row, and
that the rest of the loop leaves the row to itself.

    RowStep       one completion: the scheduler and the other rows are left
                  alone, and what enters the cache misses the edit
    Verdict       what became of the completion's own row
    Follows       a row over the rest of the loop: it stays, unless the cache's
                  eviction callback names it

`editRetirement` puts them together.  A row whose entry is evicted in the pass,
by the byte cap or with the key it shared with a carried row, holds no
completion afterwards; that is neither standing nor dirty.
-/
import RigExec.Registry.Retire
import RigExec.FrameCache.Cap

namespace RigExec.Registry

open RigExec.Scheduler RigExec.WarmIndex RigExec.FrameCache RigExec.Sparsity

variable {Rig Time Work Pose Retained : Type}

/-! ## A row over the calls that are not about it -/

/-- Two records with one completion. -/
structure SameCompletion (frame frame' : Frame) : Prop where
  held : frame'.hasCompletion = frame.hasCompletion
  key : frame'.key = frame.key
  generation : frame'.completedGeneration = frame.completedGeneration
  dirty : frame'.dirty = frame.dirty

theorem SameCompletion.refl (frame : Frame) : SameCompletion frame frame := ⟨rfl, rfl, rfl, rfl⟩

theorem SameCompletion.trans {frame frame' frame'' : Frame} (h : SameCompletion frame frame')
    (h' : SameCompletion frame' frame'') : SameCompletion frame frame'' :=
  ⟨h'.held.trans h.held, h'.key.trans h.key, h'.generation.trans h.generation,
    h'.dirty.trans h.dirty⟩

/-- The completion is still the same, or evictions named it and it is gone. -/
def Survives (time : Time) (evicted : List (Eviction Time)) (frame frame' : Frame) : Prop :=
  SameCompletion frame frame' ∨
    frame'.hasCompletion = false ∧ (frame.hasCompletion = true →
      ∃ gone ∈ evicted, gone.time.usable = some time ∧ gone.key = frame.key)

theorem Survives.trans {time : Time} {evicted evicted' : List (Eviction Time)}
    {frame frame' frame'' : Frame} (h : Survives time evicted frame frame')
    (hsub : evicted ⊆ evicted') (h' : Survives time evicted' frame' frame'') :
    Survives time evicted' frame frame'' := by
  rcases h with hsame | ⟨hnone, hgone⟩
  · rcases h' with hsame' | ⟨hnone', hgone'⟩
    · exact .inl (hsame.trans hsame')
    · refine .inr ⟨hnone', ?_⟩
      intro hheld
      obtain ⟨gone, hmem, htime, hkey⟩ := hgone' (hsame.held.trans hheld)
      exact ⟨gone, hmem, htime, hkey.trans hsame.key⟩
  · refine .inr ⟨?_, ?_⟩
    · rcases h' with hsame' | ⟨hnone', -⟩
      · exact hsame'.held.trans hnone
      · exact hnone'
    · intro hheld
      obtain ⟨gone, hmem, hrest⟩ := hgone hheld
      exact ⟨gone, hsub hmem, hrest⟩

theorem Survives.mono {time : Time} {evicted evicted' : List (Eviction Time)}
    {frame frame' : Frame} (h : Survives time evicted frame frame') (hsub : evicted ⊆ evicted') :
    Survives time evicted' frame frame' := h.trans hsub (.inl (.refl _))

theorem Survives.outcome {time : Time} {evicted : List (Eviction Time)} {frame frame' : Frame}
    (h : Survives time evicted frame frame') (hheld : frame.hasCompletion = true)
    {key : FrameCacheKey} (hkey : frame.key = key) :
    (frame'.hasCompletion = true ∧ frame'.key = key ∧ frame'.dirty = frame.dirty) ∨
      frame'.hasCompletion = false ∧
        ∃ gone ∈ evicted, gone.time.usable = some time ∧ gone.key = key := by
  rcases h with hsame | ⟨hnone, hgone⟩
  · exact .inl ⟨hsame.held.trans hheld, hsame.key.trans hkey, hsame.dirty⟩
  · exact .inr ⟨hnone, hkey ▸ hgone hheld⟩

section Rows

variable [DecidableEq Rig] [DecidableEq Time] {x : WarmFrameIndex Rig Time}

theorem setFrame_self (rig : Rig) (time : Time) (edit : Frame → Frame) :
    (x.setFrame rig time edit).frames (rig, time) = edit (x.frames (rig, time)) := by
  simp [WarmFrameIndex.setFrame]

theorem setFrame_other {rig : Rig} {time at_ : Time} (edit : Frame → Frame)
    (h : at_ ≠ time) : (x.setFrame rig time edit).frames (rig, at_) = x.frames (rig, at_) := by
  simp [WarmFrameIndex.setFrame, h]

theorem noteEvicted_survives (rig : Rig) {gone : Eviction Time} {at_ : Time}
    (hgone : gone.time.usable = some at_) (time : Time) :
    Survives time [gone] (x.frames (rig, time))
      ((x.noteEvicted rig gone.key at_).frames (rig, time)) := by
  rw [WarmFrameIndex.noteEvicted]
  by_cases ht : time = at_
  · subst ht
    rw [setFrame_self]
    split
    · exact .inl (.refl _)
    · rename_i hheld
      refine .inr ⟨rfl, fun _ => ⟨gone, List.mem_singleton.mpr rfl, hgone, ?_⟩⟩
      exact (of_not_not fun hne => hheld (.inr hne)).symm
  · rw [setFrame_other _ ht]
    exact .inl (.refl _)

theorem noteDirtied_self (rig : Rig) (time : Time) :
    ((x.noteDirtied rig time).frames (rig, time)).hasCompletion =
        (x.frames (rig, time)).hasCompletion ∧
      ((x.noteDirtied rig time).frames (rig, time)).key = (x.frames (rig, time)).key ∧
      (((x.noteDirtied rig time).frames (rig, time)).hasCompletion = true →
        ((x.noteDirtied rig time).frames (rig, time)).dirty = true) := by
  rw [WarmFrameIndex.noteDirtied, setFrame_self, invalidateRequest_frames]
  split
  · exact ⟨rfl, rfl, fun _ => rfl⟩
  · rename_i hheld
    exact ⟨rfl, rfl, fun h => absurd h hheld⟩

theorem noteDirtied_other {rig : Rig} {time at_ : Time} (h : at_ ≠ time) :
    (x.noteDirtied rig time).frames (rig, at_) = x.frames (rig, at_) := by
  rw [WarmFrameIndex.noteDirtied, setFrame_other _ h, invalidateRequest_frames]

theorem noteTransitions_same (reported : List (WarmTransition Rig Time))
    (place : Rig × Time) :
    SameCompletion (x.frames place)
      ((reported.foldl WarmFrameIndex.noteTransition x).frames place) := by
  induction reported generalizing x with
  | nil => exact .refl _
  | cons transition reported ih =>
      refine SameCompletion.trans ?_ (ih (x := x.noteTransition transition))
      by_cases hp : place = (transition.rig, transition.timeValue)
      · subst hp
        rw [WarmFrameIndex.noteTransition, setFrame_self]
        cases transition.kind <;> try exact ⟨rfl, rfl, rfl, rfl⟩
        cases transition.outcome <;> exact ⟨rfl, rfl, rfl, rfl⟩
      · rw [show (x.noteTransition transition).frames place = x.frames place by
          simp [WarmFrameIndex.noteTransition, WarmFrameIndex.setFrame, hp]]
        exact .refl _

end Rows

theorem noteEvictions_survives [DecidableEq Rig] [FrameTime Time]
    {x : WarmFrameIndex Rig Time} (rig : Rig) (evicted : List (Eviction Time)) (time : Time) :
    Survives time evicted (x.frames (rig, time))
      ((noteEvictions rig x evicted).frames (rig, time)) := by
  induction evicted generalizing x with
  | nil => exact .inl (.refl _)
  | cons gone evicted ih =>
      rw [noteEvictions, List.foldl_cons]
      have hsub : evicted ⊆ gone :: evicted := List.subset_cons_self _ _
      cases htime : gone.time.usable with
      | none => exact (ih (x := x)).mono hsub
      | some at_ =>
          refine ((noteEvicted_survives rig htime time).mono ?_).trans (List.Subset.refl _)
            ((ih (x := x.noteEvicted rig gone.key at_)).mono hsub)
          exact List.cons_subset_cons _ (List.nil_subset _)


/-! ## What one completion does -/

section States

variable [FramePose Pose] {r r' : RigState Rig Time Work Pose Retained}

/-- A row while the loop is at other rows. -/
structure Follows (rig : Rig) (time : Time) (r r' : RigState Rig Time Work Pose Retained) :
    Prop where
  delivered : r.delivered ⊆ r'.delivered
  row : Survives time r'.delivered (r.warming.index.frames (rig, time))
    (r'.warming.index.frames (rig, time))

theorem Follows.refl (rig : Rig) (time : Time) (r : RigState Rig Time Work Pose Retained) :
    Follows rig time r r := ⟨List.Subset.refl _, .inl (.refl _)⟩

theorem Follows.trans {rig : Rig} {time : Time} {r'' : RigState Rig Time Work Pose Retained}
    (h : Follows rig time r r') (h' : Follows rig time r' r'') : Follows rig time r r'' :=
  ⟨List.Subset.trans h.delivered h'.delivered, h.row.trans h'.delivered h'.row⟩

theorem provenanceOf_eq_some {key : FrameCacheKey} {provenance : EntryProvenance} :
    r.provenanceOf key = some provenance ↔
      r.provenanceAt key = some provenance ∧ provenance.unfoldedControlDigest ≠ 0 := by
  simp [RigState.provenanceOf, Option.filter_eq_some_iff]

/-- What a carry that moved the entry leaves. -/
structure Carried (rig : Rig) (time : Time) (provenance : EntryProvenance)
    (newKey : FrameCacheKey) (r r' : RigState Rig Time Work Pose Retained) : Prop where
  sched : r'.warming.sched = r.warming.sched
  pending : r'.pendingRewarm = r.pendingRewarm
  recorded : (r'.warming.index.frames (rig, time)).hasCompletion = true ∧
    (r'.warming.index.frames (rig, time)).key = newKey ∧
    (r'.warming.index.frames (rig, time)).dirty = false
  delivered : r.delivered ⊆ r'.delivered
  others : ∀ at_ ≠ time, Follows rig at_ r r'
  cache : ∀ key found, r'.provenanceAt key = some found →
    (key = newKey ∧ found = provenance) ∨ (key ≠ newKey ∧ r.provenanceAt key = some found)

/-- What a carry that moved nothing leaves: at most the entry's use is stamped. -/
structure Declined (r r' : RigState Rig Time Work Pose Retained) : Prop where
  warming : r'.warming = r.warming
  pending : r'.pendingRewarm = r.pendingRewarm
  delivered : r'.delivered = r.delivered
  cache : ∀ key, r'.provenanceAt key = r.provenanceAt key

theorem Declined.refl (r : RigState Rig Time Work Pose Retained) : Declined r r :=
  ⟨rfl, rfl, rfl, fun _ => rfl⟩

theorem declined_lookup {store : Store Time Pose Retained} (hstore : r.cache = some store)
    (key : FrameCacheKey) : Declined r { r with cache := some (store.lookup key).2 } := by
  refine ⟨rfl, rfl, rfl, ?_⟩
  intro at_
  show (store.lookup key).2.lookupProvenance at_ = r.provenanceAt at_
  rw [RigState.provenanceAt, hstore]
  exact Store.find_lookup

theorem Declined.delivered_subset (h : Declined r r') : r.delivered ⊆ r'.delivered := by
  rw [h.delivered]
  exact List.Subset.refl _

/-- An entry the edit misses, whose key folds the new constants. -/
structure Sound [PathQueries] (edit : Edit) (dirty : Finset Nat) (key : FrameCacheKey)
    (provenance : EntryProvenance) : Prop where
  recorded : provenance.unfoldedControlDigest ≠ 0
  clusters : ∀ cluster ∈ provenance.clusters, 0 ≤ cluster → cluster.toNat ∉ dirty
  weights : edit.notice.movesWeights provenance.weightReads = false
  folds : key.controlDigest =
    foldConstantDigest provenance.unfoldedControlDigest edit.newConstants

end States

section Retire

variable [DecidableEq Rig] [FrameTime Time] [FramePose Pose]
  {r r' : RigState Rig Time Work Pose Retained}

theorem follows_setCache (rig : Rig) (time : Time)
    (after : Store Time Pose Retained × List (Eviction Time)) :
    Follows rig time r (r.setCache rig after) where
  delivered := List.subset_append_left _ _
  row := (noteEvictions_survives rig after.2 time).mono (List.subset_append_right _ _)

/-- The publication under the new key, the eviction of the old one and the record, in this order. -/
theorem carried_of_publish {rig : Rig} {time : Time} {oldKey newKey : FrameCacheKey}
    {provenance : EntryProvenance} {looked : Store Time Pose Retained}
    (hlook : Declined r { r with cache := some looked }) {pose : Pose} {bytes : Nat}
    {retained : Option Retained} {published : Store Time Pose Retained × List (Eviction Time)}
    (hpublished : looked.publish newKey (.numeric time) pose bytes retained provenance =
      some published) :
    let moved := (({ r with cache := some looked }.setCache rig published).setCache rig
      (published.1.evict oldKey))
    Carried rig time provenance newKey r (moved.setIndex
      (moved.warming.index.noteCompleted rig time newKey (moved.warming.index.generations rig))) := by
  intro moved
  have hfollows : ∀ at_, Follows rig at_ r moved := by
    intro at_
    have hstart : Follows rig at_ r { r with cache := some looked } :=
      ⟨List.Subset.refl _, .inl (.refl _)⟩
    exact (hstart.trans (follows_setCache rig at_ published)).trans (follows_setCache rig at_ _)
  refine ⟨rfl, rfl, ?_, (hfollows time).delivered, ?_, ?_⟩
  · show (((moved.warming.index.noteCompleted rig time newKey _).frames (rig, time)).hasCompletion =
      true ∧ _)
    rw [RigState.setIndex, WarmFrameIndex.noteCompleted]
    simp only [setFrame_self, and_self]
  · intro at_ hat
    refine (hfollows at_).trans ⟨List.Subset.refl _, .inl ?_⟩
    rw [RigState.setIndex, WarmFrameIndex.noteCompleted]
    simp only [setFrame_other _ hat]
    exact .refl _
  · intro key found hfound
    obtain ⟨entry, hentry, rfl⟩ := Option.map_eq_some_iff.mp
      (show ((published.1.evict oldKey).1.find key).map StoredEntry.provenance = some found from
        hfound)
    obtain ⟨-, hheld⟩ := Store.find_evict hentry
    refine (Store.find_publish hpublished hheld).imp_right ?_
    rintro ⟨hne, hlooked⟩
    refine ⟨hne, ?_⟩
    rw [← hlook.cache key]
    show (looked.find key).map StoredEntry.provenance = _
    rw [hlooked]
    rfl

/-- **`CarryEntry`**: it declines, or the entry moves under the new constants' key. -/
theorem carryEntry_spec (rig : Rig) (time : Time) (oldKey : FrameCacheKey) (newConstants : UInt64)
    {provenance : EntryProvenance} (hprov : r.provenanceOf oldKey = some provenance) :
    ((r.carryEntry rig time oldKey newConstants).1 = false ∧
      Declined r (r.carryEntry rig time oldKey newConstants).2) ∨
    ((r.carryEntry rig time oldKey newConstants).1 = true ∧
      (RigState.carriedKey oldKey provenance newConstants).controlDigest ≠ oldKey.controlDigest ∧
      Carried rig time provenance (RigState.carriedKey oldKey provenance newConstants) r
        (r.carryEntry rig time oldKey newConstants).2) := by
  cases hcache : r.cache with
  | none =>
      have hnone := (provenanceOf_eq_some.mp hprov).1
      rw [RigState.provenanceAt, hcache] at hnone
      cases hnone
  | some store =>
      rw [RigState.carryEntry, hcache, hprov]
      simp only
      split_ifs with hsame
      · exact .inl ⟨rfl, .refl r⟩
      · have hlook := declined_lookup hcache oldKey
        split
        · exact .inl ⟨rfl, hlook⟩
        · rename_i entry hentry
          split_ifs with hretained
          · exact .inl ⟨rfl, hlook⟩
          · split
            · exact .inl ⟨rfl, hlook⟩
            · rename_i published hpublished
              exact .inr ⟨rfl, hsame, carried_of_publish hlook hpublished⟩

section Verdicts

variable [PathQueries] {edit : Edit} {dirty : Finset Nat} {rig : Rig}
  {p p' : Pass Rig Time Work Pose Retained} {row : Time × FrameCacheKey}

/-- What the loop leaves as it is, and what it only adds to. -/
structure LoopStep (edit : Edit) (dirty : Finset Nat) (rig : Rig) (touched : List Time)
    (p p' : Pass Rig Time Work Pose Retained) : Prop where
  sched : p'.rig.warming.sched = p.rig.warming.sched
  pending : p'.rig.pendingRewarm = p.rig.pendingRewarm
  delivered : p.rig.delivered ⊆ p'.rig.delivered
  others : ∀ at_ ∉ touched, Follows rig at_ p.rig p'.rig
  cache : ∀ key found, p'.rig.provenanceAt key = some found →
    p.rig.provenanceAt key = some found ∨ Sound edit dirty key found
  purge : p.purge ⊆ p'.purge
  purge_length : p'.purge.length ≤ p.purge.length + touched.length
  rewarm : p.rewarm ⊆ p'.rewarm

/-- What became of a completion's own row in its turn. -/
inductive Verdict (edit : Edit) (dirty : Finset Nat) (rig : Rig)
    (p p' : Pass Rig Time Work Pose Retained) (row : Time × FrameCacheKey) : Prop
  | stands (provenance : EntryProvenance) (sound : Sound edit dirty row.2 provenance)
      (same : p'.rig.warming = p.rig.warming) (cache : ∀ found, p'.rig.provenanceAt row.2 = some found →
        Sound edit dirty row.2 found)
  | carried (provenance : EntryProvenance) (newKey : FrameCacheKey)
      (sound : Sound edit dirty newKey provenance)
      (epoch : newKey.epochDigest = row.2.epochDigest) (purged : row.1 ∈ p'.purge)
      (recorded : (p'.rig.warming.index.frames (rig, row.1)).hasCompletion = true ∧
        (p'.rig.warming.index.frames (rig, row.1)).key = newKey ∧
        (p'.rig.warming.index.frames (rig, row.1)).dirty = false)
      (cache : ∀ found, p'.rig.provenanceAt newKey = some found → Sound edit dirty newKey found)
  | retired (purged : row.1 ∈ p'.purge) (noted : row.1 ∈ p'.rewarm)
      (row : (p'.rig.warming.index.frames (rig, row.1)).hasCompletion =
          (p.rig.warming.index.frames (rig, row.1)).hasCompletion ∧
        (p'.rig.warming.index.frames (rig, row.1)).key =
          (p.rig.warming.index.frames (rig, row.1)).key ∧
        ((p'.rig.warming.index.frames (rig, row.1)).hasCompletion = true →
          (p'.rig.warming.index.frames (rig, row.1)).dirty = true))

theorem affects_eq_false {provenance : EntryProvenance} :
    edit.affects dirty provenance = false ↔
      (∀ cluster ∈ provenance.clusters, 0 ≤ cluster → cluster.toNat ∉ dirty) ∧
        edit.notice.movesWeights provenance.weightReads = false := by
  simp [Edit.affects, List.any_eq_false]

omit [DecidableEq Rig] [FrameTime Time] in
theorem LoopStep.refl (touched : List Time) (p : Pass Rig Time Work Pose Retained) :
    LoopStep edit dirty rig touched p p :=
  ⟨rfl, rfl, List.Subset.refl _, fun at_ _ => .refl rig at_ _, fun _ _ => .inl,
    List.Subset.refl _, Nat.le_add_right _ _, List.Subset.refl _⟩

omit [DecidableEq Rig] [FrameTime Time] in
theorem LoopStep.trans {touched touched' : List Time} {p'' : Pass Rig Time Work Pose Retained}
    (h : LoopStep edit dirty rig touched p p') (h' : LoopStep edit dirty rig touched' p' p'') :
    LoopStep edit dirty rig (touched ++ touched') p p'' where
  sched := h'.sched.trans h.sched
  pending := h'.pending.trans h.pending
  delivered := List.Subset.trans h.delivered h'.delivered
  others := by
    intro at_ hat
    obtain ⟨hat, hat'⟩ := not_or.mp (List.mem_append.not.mp hat)
    exact (h.others at_ hat).trans (h'.others at_ hat')
  cache := by
    intro key found hfound
    rcases h'.cache key found hfound with hmid | hsound
    · exact h.cache key found hmid
    · exact .inr hsound
  purge := List.Subset.trans h.purge h'.purge
  purge_length := by
    have := h.purge_length
    have := h'.purge_length
    rw [List.length_append]
    omega
  rewarm := List.Subset.trans h.rewarm h'.rewarm

theorem retire_spec {r' : RigState Rig Time Work Pose Retained} (hr : Declined p.rig r') :
    LoopStep edit dirty rig [row.1] p ({ p with rig := r' }.retire rig row.1) ∧
      Verdict edit dirty rig p ({ p with rig := r' }.retire rig row.1) row := by
  obtain ⟨hheld, hkey, hdirty⟩ :=
    noteDirtied_self (x := r'.warming.index) rig row.1
  refine ⟨⟨?_, hr.pending, hr.delivered_subset, ?_, ?_, List.subset_append_left _ _, ?_,
    List.subset_append_left _ _⟩, .retired ?_ ?_ ?_⟩
  · show r'.warming.sched = _
    rw [hr.warming]
  · intro at_ hat
    have hne : at_ ≠ row.1 := fun h => hat (List.mem_singleton.mpr h)
    refine ⟨hr.delivered_subset, .inl ?_⟩
    show SameCompletion _ ((r'.warming.index.noteDirtied rig row.1).frames (rig, at_))
    rw [noteDirtied_other hne, hr.warming]
    exact .refl _
  · intro key found hfound
    exact .inl ((hr.cache key).symm.trans hfound)
  · simp [Pass.retire]
  · simp [Pass.retire]
  · simp [Pass.retire]
  · rw [← hr.warming]
    exact ⟨hheld, hkey, hdirty⟩

/-- **One completion**: the verdict on its row, and what is left alone. -/
theorem retireRow_spec (edit : Edit) (dirty : Finset Nat) (rig : Rig)
    (p : Pass Rig Time Work Pose Retained) (row : Time × FrameCacheKey) :
    LoopStep edit dirty rig [row.1] p (retireRow edit dirty rig p row) ∧
      Verdict edit dirty rig p (retireRow edit dirty rig p row) row := by
  cases hprov : p.rig.provenanceOf row.2 with
  | none =>
      rw [retireRow, hprov]
      exact retire_spec (.refl p.rig)
  | some provenance =>
      rw [retireRow, hprov]
      simp only
      split_ifs with haffects hcarried
      · exact retire_spec (.refl p.rig)
      · obtain ⟨hclusters, hweights⟩ := affects_eq_false.mp (eq_false_of_ne_true haffects)
        obtain ⟨hat, hrecorded⟩ := provenanceOf_eq_some.mp hprov
        rcases carryEntry_spec rig row.1 row.2 edit.newConstants hprov with
          ⟨hno, -⟩ | ⟨-, hne, hc⟩
        · cases hno.symm.trans hcarried
        · have hsound : Sound edit dirty
              (RigState.carriedKey row.2 provenance edit.newConstants) provenance :=
            ⟨hrecorded, hclusters, hweights, rfl⟩
          refine ⟨⟨hc.sched, hc.pending, hc.delivered, ?_, ?_, List.subset_append_left _ _, ?_,
            List.Subset.refl _⟩, .carried provenance _ hsound (RigState.carriedKey_epochDigest ..) ?_ hc.recorded ?_⟩
          · intro at_ hat
            exact hc.others at_ fun h => hat (List.mem_singleton.mpr h)
          · intro key found hfound
            rcases hc.cache key found hfound with ⟨rfl, rfl⟩ | ⟨-, hold⟩
            · exact .inr hsound
            · exact .inl hold
          · simp
          · simp
          · intro found hfound
            rcases hc.cache _ found hfound with ⟨-, rfl⟩ | ⟨hne, -⟩
            · exact hsound
            · exact absurd rfl hne
      · obtain ⟨hclusters, hweights⟩ := affects_eq_false.mp (eq_false_of_ne_true haffects)
        obtain ⟨hat, hrecorded⟩ := provenanceOf_eq_some.mp hprov
        rcases carryEntry_spec rig row.1 row.2 edit.newConstants hprov with
          ⟨-, hd⟩ | ⟨hyes, -⟩
        · have hagain : (p.rig.carryEntry rig row.1 row.2 edit.newConstants).2.provenanceOf row.2 =
              some provenance :=
            provenanceOf_eq_some.mpr ⟨(hd.cache row.2).trans hat, hrecorded⟩
          rw [hagain]
          simp only
          split_ifs with hmoved
          · exact retire_spec hd
          · have hsound : Sound edit dirty row.2 provenance :=
              ⟨hrecorded, hclusters, hweights, (of_not_not hmoved).symm⟩
            refine ⟨⟨?_, hd.pending, hd.delivered_subset, ?_, ?_, List.Subset.refl _,
              Nat.le_add_right _ _, List.Subset.refl _⟩, .stands provenance hsound hd.warming ?_⟩
            · show (p.rig.carryEntry rig row.1 row.2 edit.newConstants).2.warming.sched = _
              rw [hd.warming]
            · intro at_ _
              refine ⟨hd.delivered_subset, .inl ?_⟩
              show SameCompletion _
                ((p.rig.carryEntry rig row.1 row.2 edit.newConstants).2.warming.index.frames _)
              rw [hd.warming]
              exact .refl _
            · intro key found hfound
              exact .inl ((hd.cache key).symm.trans hfound)
            · intro found hfound
              cases hat.symm.trans ((hd.cache row.2).symm.trans hfound)
              exact hsound
        · exact absurd hyes hcarried

theorem retireRows_loopStep (rows : List (Time × FrameCacheKey))
    (p : Pass Rig Time Work Pose Retained) :
    LoopStep edit dirty rig (rows.map Prod.fst) p (rows.foldl (retireRow edit dirty rig) p) := by
  induction rows generalizing p with
  | nil => exact .refl _ p
  | cons row rows ih =>
      exact (retireRow_spec edit dirty rig p row).1.trans (ih (retireRow edit dirty rig p row))

omit [DecidableEq Rig] [FrameTime Time] in
/-- Nothing but sound entries enters under a key: once all of them are, they all are. -/
theorem LoopStep.sound {touched : List Time} (h : LoopStep edit dirty rig touched p p')
    {key : FrameCacheKey}
    (hkey : ∀ found, p.rig.provenanceAt key = some found → Sound edit dirty key found) :
    ∀ found, p'.rig.provenanceAt key = some found → Sound edit dirty key found := by
  intro found hfound
  exact (h.cache key found hfound).elim (hkey found) id

end Verdicts

/-! ## The fence and the queue -/

/-- Every request for the time is behind: its next token is above all tokens issued so far, and no
job for it is queued. -/
def Fenced (rig : Rig) (time : Time) (s s' : BackgroundScheduler Rig Time Work) : Prop :=
  s.fenceCounters rig < s'.fenceTokens (rig, time) ∧ ∀ entry ∈ s'.queue, placeOf entry ≠ (rig, time)

theorem cancelGenerationTimes_fenced (s : BackgroundScheduler Rig Time Work) (rig : Rig)
    {times : List Time} (hroom : s.fenceCounters rig + times.length < UInt64.size) {time : Time}
    (htime : time ∈ times) : Fenced rig time s (s.cancelGenerationTimes rig (times.map .numeric))
    := by
  have husable : (times.map TimeCode.numeric).filterMap TimeCode.usable = times := by
    rw [List.filterMap_map]
    exact List.filterMap_some
  have haffected : BackgroundScheduler.affectedTimes (times.map TimeCode.numeric) =
      Lib.sortUnique times := by
    rw [BackgroundScheduler.affectedTimes, husable]
  have hlength : (Lib.sortUnique times).length ≤ times.length := Lib.length_sortUnique_le times
  obtain ⟨-, -, hin, -⟩ := foldl_refence rig (Lib.sortUnique times) s (by omega)
  have hs := sameFences_purge .canceled
    (fun request : WarmRequest Rig Time => request.rig = rig ∧ request.time ∈ Lib.sortUnique times)
    ((Lib.sortUnique times).foldl (BackgroundScheduler.refence rig) s)
  rw [BackgroundScheduler.cancelGenerationTimes, haffected]
  refine ⟨?_, ?_⟩
  · rw [hs.fenceTokens]
    exact (hin time (Lib.mem_sortUnique.mpr htime)).1
  · intro entry hentry
    rw [purge_eq] at hentry
    obtain ⟨-, hkept⟩ := List.mem_filter.mp hentry
    intro hplace
    obtain ⟨hrig, hat⟩ := Prod.mk.inj hplace
    simp [hrig, hat, htime] at hkept

omit [DecidableEq Rig] [FrameTime Time] in
theorem notePendingRewarm_spec [DecidableEq Time] (times pending : List Time) :
    pending <+: notePendingRewarm pending times ∧
    ∀ time ∈ times, time ∈ notePendingRewarm pending times ∨
      pendingRewarmCap ≤ (notePendingRewarm pending times).length := by
  induction times generalizing pending with
  | nil => exact ⟨List.prefix_rfl, fun _ h => (nomatch h)⟩
  | cons head times ih =>
      rw [notePendingRewarm, List.foldl_cons]
      split_ifs with hstays
      · obtain ⟨hstarts, hnoted⟩ := ih pending
        refine ⟨hstarts, ?_⟩
        intro time htime
        rcases List.mem_cons.mp htime with rfl | htime
        · exact hstays.symm.imp (fun h => hstarts.subset h) fun h => h.trans hstarts.length_le
        · exact hnoted time htime
      · obtain ⟨hstarts, hnoted⟩ := ih (pending ++ [head])
        refine ⟨(List.prefix_append _ _).trans hstarts, ?_⟩
        intro time htime
        rcases List.mem_cons.mp htime with rfl | htime
        · exact .inl (hstarts.subset (by simp))
        · exact hnoted time htime

/-! ## The partition -/

/-- The time waits in the rewarm list, unless that is full. -/
def Queued (time : Time) (after : RigState Rig Time Work Pose Retained) : Prop :=
  time ∈ after.pendingRewarm ∨ pendingRewarmCap ≤ after.pendingRewarm.length

/-- The row holds no completion: an eviction of the pass named it. -/
def Dropped (rig : Rig) (time : Time) (keys : List FrameCacheKey)
    (after : RigState Rig Time Work Pose Retained) : Prop :=
  (after.warming.index.frames (rig, time)).hasCompletion = false ∧
    ∃ gone ∈ after.delivered, gone.time.usable = some time ∧ gone.key ∈ keys

section

variable [PathQueries]

/-- A completion left standing (`newKey = key`) or carried to the new constants. -/
structure Kept (edit : Edit) (dirty : Finset Nat) (rig : Rig) (time : Time)
    (key newKey : FrameCacheKey) (provenance : EntryProvenance)
    (r after : RigState Rig Time Work Pose Retained) : Prop where
  sound : Sound edit dirty newKey provenance
  epoch : newKey.epochDigest = key.epochDigest
  row : ((after.warming.index.frames (rig, time)).hasCompletion = true ∧
      (after.warming.index.frames (rig, time)).key = newKey) ∨
    Dropped rig time [key, newKey] after
  cache : ∀ found, after.provenanceAt newKey = some found → Sound edit dirty newKey found
  fenced : newKey ≠ key → Fenced rig time r.warming.sched after.warming.sched

/-- A completion that is retired. -/
structure Retired (rig : Rig) (time : Time) (key : FrameCacheKey)
    (r after : RigState Rig Time Work Pose Retained) : Prop where
  row : ((after.warming.index.frames (rig, time)).hasCompletion = true ∧
      (after.warming.index.frames (rig, time)).dirty = true) ∨ Dropped rig time [key] after
  fenced : Fenced rig time r.warming.sched after.warming.sched
  queued : Queued time after

end

theorem foldl_noteDirtied (rig : Rig) (times : List Time) (x : WarmFrameIndex Rig Time)
    (time : Time) :
    ((times.foldl (fun x t => x.noteDirtied rig t) x).frames (rig, time)).hasCompletion =
        (x.frames (rig, time)).hasCompletion ∧
      (((x.frames (rig, time)).hasCompletion = true → (x.frames (rig, time)).dirty = true) ∨
          time ∈ times →
        (x.frames (rig, time)).hasCompletion = true →
        ((times.foldl (fun x t => x.noteDirtied rig t) x).frames (rig, time)).dirty = true) := by
  induction times generalizing x with
  | nil => exact ⟨rfl, fun h hheld => h.elim (fun h => h hheld) fun h => (nomatch h)⟩
  | cons head times ih =>
      rw [List.foldl_cons]
      obtain ⟨hheld, hdirty⟩ := ih (x.noteDirtied rig head)
      by_cases ht : time = head
      · subst ht
        obtain ⟨hsame, -, hmarks⟩ := noteDirtied_self (x := x) rig time
        refine ⟨hheld.trans hsame, ?_⟩
        intro _ hx
        exact hdirty (.inl hmarks) (hsame.trans hx)
      · have hother := @noteDirtied_other Rig Time _ _ x rig head time ht
        rw [hother] at hheld hdirty
        refine ⟨hheld, ?_⟩
        intro h hx
        exact hdirty (h.imp_right fun hm => (List.mem_cons.mp hm).resolve_left ht) hx

theorem cancelGenerationTimesLocked_row (w : Warming Rig Time Work) {rig : Rig} {times : List Time}
    {time : Time} (htime : time ∈ times)
    (hheld : (w.index.frames (rig, time)).hasCompletion = true) :
    ((cancelGenerationTimesLocked w rig times).index.frames (rig, time)).hasCompletion = true ∧
      ((cancelGenerationTimesLocked w rig times).index.frames (rig, time)).dirty = true := by
  have hsame : SameCompletion (w.index.frames (rig, time))
      (({ w with index := w.index.invalidateRequest rig }.moveTo
        (w.sched.cancelGenerationTimes rig (times.map .numeric))).index.frames (rig, time)) := by
    have h := noteTransitions_same (x := w.index.invalidateRequest rig)
      ((w.sched.cancelGenerationTimes rig (times.map .numeric)).reported.drop
        w.sched.reported.length) (rig, time)
    rw [invalidateRequest_frames] at h
    exact h
  obtain ⟨hkept, hdirty⟩ := foldl_noteDirtied rig times
    ({ w with index := w.index.invalidateRequest rig }.moveTo
      (w.sched.cancelGenerationTimes rig (times.map .numeric))).index time
  have hmoved := hsame.held.trans hheld
  exact ⟨hkept.trans hmoved, hdirty (.inr htime) hmoved⟩

section Result

variable [PathQueries] {edit : Edit} {rig : Rig} {r : RigState Rig Time Work Pose Retained}

theorem retire_everything (snap : Snapshot r.warming rig) (hnone : edit.oracle = none)
    (hroom : r.warming.sched.fenceCounters rig + snap.inFlight.length + snap.done.length <
      UInt64.size) :
    (∀ time ∈ snap.inFlight,
      Fenced rig time r.warming.sched (retireAffectedTimes edit rig r snap).warming.sched ∧
        Queued time (retireAffectedTimes edit rig r snap)) ∧
    ∀ time key, (time, key) ∈ snap.done →
      Retired rig time key r (retireAffectedTimes edit rig r snap) := by
  have hlength : (snap.inFlight ++ snap.done.map Prod.fst).length =
      snap.inFlight.length + snap.done.length := by simp
  have hfenced : ∀ time ∈ snap.inFlight ++ snap.done.map Prod.fst,
      Fenced rig time r.warming.sched (retireAffectedTimes edit rig r snap).warming.sched := by
    intro time htime
    rw [retireAffectedTimes, hnone]
    exact cancelGenerationTimes_fenced r.warming.sched rig (by omega) htime
  have hqueued : ∀ time ∈ snap.inFlight ++ snap.done.map Prod.fst,
      Queued time (retireAffectedTimes edit rig r snap) := by
    intro time htime
    rw [retireAffectedTimes, hnone]
    exact (notePendingRewarm_spec _ r.pendingRewarm).2 time htime
  refine ⟨fun time htime => ?_, fun time key hrow => ?_⟩
  · exact ⟨hfenced time (List.mem_append_left _ htime), hqueued time (List.mem_append_left _ htime)⟩
  · have hmem : time ∈ snap.inFlight ++ snap.done.map Prod.fst :=
      List.mem_append_right _ (List.mem_map.mpr ⟨_, hrow, rfl⟩)
    refine ⟨.inl ?_, hfenced time hmem, hqueued time hmem⟩
    obtain ⟨hheld, -⟩ := (snap.mem_done time key).mp hrow
    rw [retireAffectedTimes, hnone]
    exact cancelGenerationTimesLocked_row _ hmem
      (by simpa [RigState.setIndex, invalidateRequest_frames] using hheld)

/-- The pass as one completion sees it: the states before and after its turn, the end of the loop,
and the state after the fence. -/
structure Turn (edit : Edit) (dirty : Finset Nat) (rig : Rig) (time : Time) (key : FrameCacheKey)
    (r after : RigState Rig Time Work Pose Retained)
    (before turned p : Pass Rig Time Work Pose Retained) : Prop where
  held : (r.warming.index.frames (rig, time)).hasCompletion = true
  recorded : (r.warming.index.frames (rig, time)).key = key
  arrives : Survives time before.rig.delivered (r.warming.index.frames (rig, time))
    (before.rig.warming.index.frames (rig, time))
  turn : before.rig.delivered ⊆ turned.rig.delivered
  rest : ∃ touched, LoopStep edit dirty rig touched turned p
  leaves : Follows rig time turned.rig p.rig
  frame : SameCompletion (p.rig.warming.index.frames (rig, time))
    (after.warming.index.frames (rig, time))
  delivered : after.delivered = p.rig.delivered
  cache : ∀ at_, after.provenanceAt at_ = p.rig.provenanceAt at_
  fenced : ∀ at_ ∈ p.purge, Fenced rig at_ r.warming.sched after.warming.sched
  queued : ∀ at_ ∈ p.rewarm, Queued at_ after

section

omit [DecidableEq Rig] [FrameTime Time]
variable {dirty : Finset Nat} {time : Time} {key : FrameCacheKey}
  {after : RigState Rig Time Work Pose Retained}
  {before turned p : Pass Rig Time Work Pose Retained}

section

variable (h : Turn edit dirty rig time key r after before turned p)
include h

theorem Turn.dropped {keys : List FrameCacheKey} {at_ : FrameCacheKey} (hat : at_ ∈ keys)
    (hnone : (p.rig.warming.index.frames (rig, time)).hasCompletion = false)
    (hnamed : ∃ gone ∈ p.rig.delivered, gone.time.usable = some time ∧ gone.key = at_) :
    Dropped rig time keys after := by
  obtain ⟨gone, hmem, htime, rfl⟩ := hnamed
  exact ⟨h.frame.held.trans hnone, gone, h.delivered ▸ hmem, htime, hat⟩

/-- What the row holds after its turn it holds at the end, unless an eviction named it. -/
theorem Turn.settles
    {keys : List FrameCacheKey} {at_ : FrameCacheKey} (hat : at_ ∈ keys) {frame : Frame}
    (hrow : Survives time p.rig.delivered frame (p.rig.warming.index.frames (rig, time)))
    (hheld : frame.hasCompletion = true) (hkey : frame.key = at_) :
    ((after.warming.index.frames (rig, time)).hasCompletion = true ∧
        (after.warming.index.frames (rig, time)).key = at_ ∧
        (after.warming.index.frames (rig, time)).dirty = frame.dirty) ∨
      Dropped rig time keys after := by
  rcases hrow.outcome hheld hkey with ⟨hstays, hsame, hmarked⟩ | ⟨hnone, hnamed⟩
  · exact .inl ⟨h.frame.held.trans hstays, h.frame.key.trans hsame, h.frame.dirty.trans hmarked⟩
  · exact .inr (h.dropped hat hnone hnamed)

theorem Turn.sound {at_ : FrameCacheKey}
    (hsound : ∀ found, turned.rig.provenanceAt at_ = some found → Sound edit dirty at_ found) :
    ∀ found, after.provenanceAt at_ = some found → Sound edit dirty at_ found := by
  intro found hfound
  obtain ⟨touched, hrest⟩ := h.rest
  exact hrest.sound hsound found ((h.cache at_).symm.trans hfound)

theorem Turn.stands {provenance : EntryProvenance} (sound : Sound edit dirty key provenance)
    (same : turned.rig.warming = before.rig.warming)
    (cache : ∀ found, turned.rig.provenanceAt key = some found → Sound edit dirty key found) :
    Kept edit dirty rig time key key provenance r after := by
  refine ⟨sound, rfl, ?_, h.sound cache, fun hne => absurd rfl hne⟩
  have hleaves := h.leaves.row
  rw [same] at hleaves
  have hsurvives : Survives time p.rig.delivered (r.warming.index.frames (rig, time))
      (p.rig.warming.index.frames (rig, time)) :=
    h.arrives.trans (List.Subset.trans h.turn h.leaves.delivered) hleaves
  exact (h.settles (by simp) hsurvives h.held h.recorded).imp_left fun hstays =>
    ⟨hstays.1, hstays.2.1⟩

theorem Turn.carried {provenance : EntryProvenance} {newKey : FrameCacheKey}
    (sound : Sound edit dirty newKey provenance) (epoch : newKey.epochDigest = key.epochDigest)
    (purged : time ∈ turned.purge)
    (held : (turned.rig.warming.index.frames (rig, time)).hasCompletion = true)
    (recorded : (turned.rig.warming.index.frames (rig, time)).key = newKey)
    (cache : ∀ found, turned.rig.provenanceAt newKey = some found → Sound edit dirty newKey found) :
    Kept edit dirty rig time key newKey provenance r after := by
  obtain ⟨touched, hrest⟩ := h.rest
  refine ⟨sound, epoch, ?_, h.sound cache, fun _ => h.fenced time (hrest.purge purged)⟩
  exact (h.settles (by simp) h.leaves.row held recorded).imp_left fun hstays =>
    ⟨hstays.1, hstays.2.1⟩

theorem Turn.retired (purged : time ∈ turned.purge) (noted : time ∈ turned.rewarm)
    (held : (turned.rig.warming.index.frames (rig, time)).hasCompletion =
      (before.rig.warming.index.frames (rig, time)).hasCompletion)
    (recorded : (turned.rig.warming.index.frames (rig, time)).key =
      (before.rig.warming.index.frames (rig, time)).key)
    (marked : (turned.rig.warming.index.frames (rig, time)).hasCompletion = true →
      (turned.rig.warming.index.frames (rig, time)).dirty = true) :
    Retired rig time key r after := by
  obtain ⟨touched, hrest⟩ := h.rest
  refine ⟨?_, h.fenced time (hrest.purge purged), h.queued time (hrest.rewarm noted)⟩
  rcases h.arrives.outcome h.held h.recorded with ⟨hstood, hkey, -⟩ | ⟨hnone, gone, hmem, hnamed⟩
  · have hturned := held.trans hstood
    refine (h.settles (List.mem_singleton.mpr rfl) h.leaves.row hturned
      (recorded.trans hkey)).imp_left ?_
    rintro ⟨hstays, -, hmarked⟩
    exact ⟨hstays, hmarked.trans (marked hturned)⟩
  · refine .inr (h.dropped (List.mem_singleton.mpr rfl) ?_
      ⟨gone, h.leaves.delivered (h.turn hmem), hnamed⟩)
    rcases h.leaves.row with hsame | ⟨hnone', -⟩
    · exact hsame.held.trans (held.trans hnone)
    · exact hnone'

end

end

/-- The state after the fence, from the end of the loop. -/
structure Leaves (edit : Edit) (dirty : Finset Nat) (rig : Rig)
    (r after : RigState Rig Time Work Pose Retained) (snap : Snapshot r.warming rig)
    (start p : Pass Rig Time Work Pose Retained) : Prop where
  begins : start.rig.warming.index.frames = r.warming.index.frames
  loop : p = snap.done.foldl (retireRow edit dirty rig) start
  inFlight : snap.inFlight ⊆ p.purge ∧ snap.inFlight ⊆ p.rewarm
  frame : ∀ time, SameCompletion (p.rig.warming.index.frames (rig, time))
    (after.warming.index.frames (rig, time))
  delivered : after.delivered = p.rig.delivered
  cache : ∀ at_, after.provenanceAt at_ = p.rig.provenanceAt at_
  fenced : ∀ time ∈ p.purge, Fenced rig time r.warming.sched after.warming.sched
  queued : ∀ time ∈ p.rewarm, Queued time after

theorem retireAffectedTimes_leaves (snap : Snapshot r.warming rig) {index : OutputAffectedIndex}
    (hindex : edit.oracle = some index)
    (hroom : r.warming.sched.fenceCounters rig + snap.inFlight.length + snap.done.length <
      UInt64.size) :
    ∃ start p, Leaves edit (index.affectedByControls (edit.controls index)) rig r
      (retireAffectedTimes edit rig r snap) snap start p := by
  let dirty := index.affectedByControls (edit.controls index)
  let start : RigState Rig Time Work Pose Retained :=
    { r with delivered := [] }.setIndex (r.warming.index.invalidateRequest rig)
  let p := retireRows edit dirty rig start snap.inFlight snap.done
  have hafter : retireAffectedTimes edit rig r snap =
      { p.rig with
        warming := p.rig.warming.moveTo
          (p.rig.warming.sched.cancelGenerationTimes rig (p.purge.map .numeric))
        pendingRewarm := notePendingRewarm start.pendingRewarm p.rewarm } := by
    rw [retireAffectedTimes, hindex]
  have hloop : LoopStep edit dirty rig (snap.done.map Prod.fst)
      ⟨start, snap.inFlight, snap.inFlight⟩ p := retireRows_loopStep snap.done _
  have hsched : p.rig.warming.sched = r.warming.sched := hloop.sched
  refine ⟨⟨start, snap.inFlight, snap.inFlight⟩, p, ?_, rfl, ⟨hloop.purge, hloop.rewarm⟩, ?_, ?_,
    ?_, ?_, ?_⟩
  · show (r.warming.index.invalidateRequest rig).frames = _
    rw [invalidateRequest_frames]
  · intro time
    rw [hafter]
    exact noteTransitions_same _ _
  · rw [hafter]
  · intro at_
    rw [hafter]
    rfl
  · intro time htime
    have hlength := hloop.purge_length
    rw [List.length_map] at hlength
    rw [hafter, ← hsched]
    exact cancelGenerationTimes_fenced p.rig.warming.sched rig
      (by rw [hsched]; simp only at hlength; omega) htime
  · intro time htime
    rw [hafter]
    exact (notePendingRewarm_spec p.rewarm start.pendingRewarm).2 time htime

theorem Leaves.turn {dirty : Finset Nat} {after : RigState Rig Time Work Pose Retained}
    {snap : Snapshot r.warming rig} {start p : Pass Rig Time Work Pose Retained}
    (h : Leaves edit dirty rig r after snap start p) {time : Time} {key : FrameCacheKey}
    (hrow : (time, key) ∈ snap.done) :
    ∃ before, Turn edit dirty rig time key r after before
      (retireRow edit dirty rig before (time, key)) p := by
  -- what comes before and after the turn leaves the row alone
  obtain ⟨pre, post, hsplit⟩ := List.mem_iff_append.mp hrow
  have hnodup := snap.nodup
  rw [hsplit, List.map_append, List.map_cons, List.nodup_middle, List.nodup_cons,
    List.mem_append, not_or] at hnodup
  obtain ⟨⟨hpre, hpost⟩, -⟩ := hnodup
  let before := pre.foldl (retireRow edit dirty rig) start
  have hend : p = post.foldl (retireRow edit dirty rig)
      (retireRow edit dirty rig before (time, key)) := by
    rw [h.loop, hsplit, List.foldl_append]
    rfl
  have hbefore : LoopStep edit dirty rig (pre.map Prod.fst) start before :=
    retireRows_loopStep pre _
  have hrest : LoopStep edit dirty rig (post.map Prod.fst)
      (retireRow edit dirty rig before (time, key)) p := by
    rw [hend]
    exact retireRows_loopStep post _
  obtain ⟨hheld, hkey⟩ := (snap.mem_done time key).mp hrow
  have harrives := (hbefore.others time hpre).row
  rw [congrFun h.begins (rig, time)] at harrives
  have hturn := (retireRow_spec edit dirty rig before (time, key)).1.delivered
  exact ⟨before, hheld, hkey, harrives, hturn, ⟨_, hrest⟩, hrest.others time hpost, h.frame time,
    h.delivered, h.cache, h.fenced, h.queued⟩

/-- With an index: the loop, then the fence for every purged time. -/
theorem retire_with_index (snap : Snapshot r.warming rig) {index : OutputAffectedIndex}
    (hindex : edit.oracle = some index)
    (hroom : r.warming.sched.fenceCounters rig + snap.inFlight.length + snap.done.length <
      UInt64.size) :
    (∀ time ∈ snap.inFlight,
      Fenced rig time r.warming.sched (retireAffectedTimes edit rig r snap).warming.sched ∧
        Queued time (retireAffectedTimes edit rig r snap)) ∧
    ∀ time key, (time, key) ∈ snap.done →
      Retired rig time key r (retireAffectedTimes edit rig r snap) ∨
        ∃ newKey provenance,
          Kept edit (index.affectedByControls (edit.controls index)) rig time key newKey provenance
            r (retireAffectedTimes edit rig r snap) := by
  obtain ⟨start, p, hleaves⟩ := retireAffectedTimes_leaves snap hindex hroom
  refine ⟨?_, ?_⟩
  · intro time htime
    exact ⟨hleaves.fenced time (hleaves.inFlight.1 htime),
      hleaves.queued time (hleaves.inFlight.2 htime)⟩
  · intro time key hrow
    obtain ⟨before, hturn⟩ := hleaves.turn hrow
    obtain ⟨-, hverdict⟩ := retireRow_spec edit (index.affectedByControls (edit.controls index)) rig
      before (time, key)
    cases hverdict with
    | stands provenance sound same cache =>
        exact .inr ⟨key, provenance, hturn.stands sound same cache⟩
    | carried provenance newKey sound epoch purged recorded cache =>
        exact .inr ⟨newKey, provenance,
          hturn.carried sound epoch purged recorded.1 recorded.2.1 cache⟩
    | retired purged noted row =>
        exact .inl (hturn.retired purged noted row.1 row.2.1 row.2.2)

/-- **Edit retirement is a sound partition.**  If the affected index reports every cluster an
edited control reaches, then every in-flight time is fenced and queued again, and a completion of
the rig is retired, or kept with an entry that no edited control reaches, that read no edited
weight object, and whose key folds the new constants. -/
theorem editRetirement (edit : Edit) (rig : Rig) (r : RigState Rig Time Work Pose Retained)
    (snap : Snapshot r.warming rig) (reaches : ControlId → Nat → Prop)
    (hreports : ∀ index, edit.oracle = some index → ∀ control ∈ edit.controls index, ∀ cluster,
      reaches control cluster → cluster ∈ index.affectedByControls (edit.controls index))
    (hroom : r.warming.sched.fenceCounters rig + snap.inFlight.length + snap.done.length <
      UInt64.size) :
    (∀ time ∈ snap.inFlight,
      Fenced rig time r.warming.sched (retireAffectedTimes edit rig r snap).warming.sched ∧
        Queued time (retireAffectedTimes edit rig r snap)) ∧
    ∀ time key, (time, key) ∈ snap.done →
      Retired rig time key r (retireAffectedTimes edit rig r snap) ∨
        ∃ index newKey provenance, edit.oracle = some index ∧
          Kept edit (index.affectedByControls (edit.controls index)) rig time key newKey provenance
            r (retireAffectedTimes edit rig r snap) ∧
          ∀ control ∈ edit.controls index, ∀ cluster ∈ provenance.clusters, 0 ≤ cluster →
            ¬ reaches control cluster.toNat := by
  cases hindex : edit.oracle with
  | none =>
      obtain ⟨hflying, hdone⟩ := retire_everything snap hindex hroom
      exact ⟨hflying, fun time key hrow => .inl (hdone time key hrow)⟩
  | some index =>
      obtain ⟨hflying, hdone⟩ := retire_with_index snap hindex hroom
      refine ⟨hflying, ?_⟩
      intro time key hrow
      refine (hdone time key hrow).imp_right ?_
      rintro ⟨newKey, provenance, hkept⟩
      refine ⟨index, newKey, provenance, rfl, hkept, ?_⟩
      intro control hcontrol cluster hcluster hnonneg hreached
      exact hkept.sound.clusters cluster hcluster hnonneg
        (hreports index hindex control hcontrol _ hreached)

end Result

end Retire

/-! ## Two rows and a full cache -/

/-- Paths of prims that stand beside each other, none of them a property. -/
instance primPaths : PathQueries where
  isPropertyPath _ := false
  isPrimPath _ := true
  getPrimPath path := path
  hasPrefix path other := path == other
  parse text := text

/-- A program of two clusters, and one control that moves the second. -/
def routedIndex : OutputAffectedIndex where
  clusterCount := 2
  epochDigest := 7
  cones := [{0}, {1}]
  always := ∅
  varying := ∅
  override := ∅
  seeds _ := [1]
  controlUniverse := {"/Ctl/A"}
  cones_sized := twoCones_sized

/-- The control is edited, and the constants move from 8 to 9. -/
def constantsEdit : Edit where
  notice := { changedInfoOnly := ["/Ctl/A"] }
  disposition := .patched
  patchedPaths := ["/Ctl/A"]
  index := some routedIndex
  newConstants := 9

/-- What an entry computed by the first cluster recorded. -/
def recordedWith (unfoldedControlDigest : UInt64) : EntryProvenance where
  clusters := [0]
  unfoldedControlDigest

/-- The key of an entry under the constants 8. -/
def standingKey (unfoldedControlDigest : UInt64) : FrameCacheKey :=
  ⟨7, foldConstantDigest unfoldedControlDigest 8⟩

/-- An entry of a frame, with what it needs to be carried. -/
def retainedEntry (time : Int) (pose bytes : Nat) (hbytes : bytes ≠ 0) (lastUse : Nat)
    (unfoldedControlDigest : UInt64) : StoredEntry Int Nat Unit where
  time := .numeric time
  pose
  bytes
  retained := some ()
  lastUse
  provenance := recordedWith unfoldedControlDigest
  valid := rfl
  weighty := hbytes

/-- Frames 1 and 2 are completed, and 900 of the cache's 1000 bytes are used. -/
def fullRig : RigState Nat Int Unit Nat Unit where
  warming :=
    { sched := {}
      index := (({} : WarmFrameIndex Nat Int).noteCompleted 0 1 (standingKey 5) 0).noteCompleted 0 2
        (standingKey 6) 0 }
  cache := some
    { entries := [(standingKey 5, retainedEntry 1 100 300 (by decide) 1 5),
        (standingKey 6, retainedEntry 2 100 600 (by decide) 2 6)]
      clock := 3
      byteCap := 1000 }

/-- Nothing is in flight, and both frames are completed. -/
def fullSnapshot : Snapshot fullRig.warming 0 where
  inFlight := []
  done := [(1, standingKey 5), (2, standingKey 6)]
  mem_inFlight := by
    intro time
    exact iff_of_false (List.not_mem_nil) (by rintro (h | h) <;> simp [fullRig] at h)
  mem_done := by
    intro time key
    rcases eq_or_ne time 1 with rfl | hone
    · simp [fullRig, WarmFrameIndex.noteCompleted, WarmFrameIndex.setFrame, eq_comm]
    · rcases eq_or_ne time 2 with rfl | htwo
      · simp [fullRig, WarmFrameIndex.noteCompleted, WarmFrameIndex.setFrame, eq_comm]
      · simp [fullRig, WarmFrameIndex.noteCompleted, WarmFrameIndex.setFrame, hone, htwo]
  nodup := by decide

/-- The retirement of `constantsEdit`, which moves the second cluster, partitions both frames. -/
theorem editRetirement_fullRig :
    ((1, standingKey 5) ∈ fullSnapshot.done ∧
      (Retired 0 1 (standingKey 5) fullRig (retireAffectedTimes constantsEdit 0 fullRig fullSnapshot) ∨
        ∃ index newKey provenance, constantsEdit.oracle = some index ∧
          Kept constantsEdit (index.affectedByControls (constantsEdit.controls index)) 0 1
            (standingKey 5) newKey provenance fullRig
            (retireAffectedTimes constantsEdit 0 fullRig fullSnapshot) ∧
          ∀ control ∈ constantsEdit.controls index, ∀ cluster ∈ provenance.clusters,
            0 ≤ cluster → ¬ (control = "/Ctl/A" ∧ cluster.toNat = 1))) := by
  refine ⟨List.mem_cons_self, ?_⟩
  refine (editRetirement constantsEdit 0 fullRig fullSnapshot
    (fun control cluster => control = "/Ctl/A" ∧ cluster = 1) ?_ (by decide)).2 1 (standingKey 5)
    List.mem_cons_self
  intro index hindex control _ cluster hreached
  obtain ⟨-, rfl⟩ := hreached
  obtain rfl : routedIndex = index := by
    simpa [Edit.oracle, constantsEdit, Option.filter, routedIndex] using hindex
  decide

/-- Carrying frame 1 takes its entry's pose a second time into account, and the byte cap then drops
the entry of frame 2: its completion is neither kept nor marked dirty. -/
theorem carry_drops_completion :
    (2, standingKey 6) ∈ fullSnapshot.done ∧
      ((retireAffectedTimes constantsEdit 0 fullRig fullSnapshot).warming.index.frames
        (0, 2)).hasCompletion = false ∧
      ((retireAffectedTimes constantsEdit 0 fullRig fullSnapshot).warming.index.frames
        (0, 2)).dirty = false ∧
      ((retireAffectedTimes constantsEdit 0 fullRig fullSnapshot).warming.index.frames
        (0, 1)).hasCompletion = true := by
  refine ⟨by simp [fullSnapshot], ?_, ?_, ?_⟩
  · decide +kernel
  · decide +kernel
  · decide +kernel

end RigExec.Registry
