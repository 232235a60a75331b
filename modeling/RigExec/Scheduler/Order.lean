/-
# `RigExec.Scheduler.Order` — the warm queue is in order, and holds current jobs only

The queue is a map from keys to jobs, and the coalescing index a map from
places to keys.  `QueueWf` says that the two are inverse to each other; what is
left is about the keys and the generations:

    priority    a key's priority is its request's, also after a promotion
    sorted      the queue is in key order, so the first job is the least
    current     a job's generation is its rig's: a cancelled one is purged

and about what becomes of a job (`Fate`): a step lets it stand, promotes it in
its place in the sequence, hands it to a worker, or purges and reports it.
-/
import RigExec.Scheduler.Fence

namespace RigExec.Scheduler

open BackgroundScheduler

variable {Rig Time Work : Type}

/-! ## The order of the keys -/

theorem QueueKey.before_iff {a b : QueueKey} : a.before b = true ↔
    a.priority.value < b.priority.value ∨ a.priority = b.priority ∧ a.sequence < b.sequence := by
  obtain ⟨p, m⟩ := a
  obtain ⟨q, n⟩ := b
  cases p <;> cases q <;> simp [QueueKey.before, WarmPriority.value]

theorem WarmPriority.value_injective {p q : WarmPriority} (h : p.value = q.value) : p = q := by
  cases p <;> cases q <;> first | rfl | cases h

theorem QueueKey.before_trans {a b c : QueueKey} (hab : a.before b = true)
    (hbc : b.before c = true) : a.before c = true := by
  rw [QueueKey.before_iff] at hab hbc ⊢
  rcases hab with hab | ⟨hab, hlt⟩
  · rcases hbc with hbc | ⟨hbc, -⟩
    · exact .inl (hab.trans hbc)
    · exact .inl (hbc ▸ hab)
  · rcases hbc with hbc | ⟨hbc, hlt'⟩
    · exact .inl (hab ▸ hbc)
    · exact .inr ⟨hab.trans hbc, hlt.trans hlt'⟩

theorem QueueKey.before_of_ne {a b : QueueKey} (hne : a ≠ b) (h : ¬ a.before b = true) :
    b.before a = true := by
  rw [QueueKey.before_iff] at h ⊢
  obtain ⟨hpriority, hsequence⟩ := not_or.mp h
  rcases (not_lt.mp hpriority).lt_or_eq with hlt | heq
  · exact .inl hlt
  · have hsame := WarmPriority.value_injective heq
    refine .inr ⟨hsame, lt_of_le_of_ne (not_lt.mp fun hlt => hsequence ⟨hsame.symm, hlt⟩) ?_⟩
    intro hsequences
    exact hne (by
      obtain ⟨p, m⟩ := a
      obtain ⟨q, n⟩ := b
      simp only at hsame hsequences
      rw [hsame, hsequences])

/-- A queue in key order. -/
def Sorted {Job : Type} (queue : List (QueueKey × Job)) : Prop :=
  queue.Pairwise fun a b => a.1.before b.1 = true

theorem Sorted.emplace {Job : Type} {key : QueueKey} (job : Job) :
    ∀ {queue : List (QueueKey × Job)}, Sorted queue → (∀ entry ∈ queue, entry.1 ≠ key) →
      Sorted (emplace key job queue)
  | [], _, _ => List.pairwise_singleton _ _
  | entry :: rest, h, hfresh => by
      obtain ⟨hentry, hrest⟩ := List.pairwise_cons.mp h
      have hne : key ≠ entry.1 := (hfresh entry List.mem_cons_self).symm
      have hfreshRest : ∀ e ∈ rest, e.1 ≠ key := fun e he => hfresh e (List.mem_cons_of_mem _ he)
      rw [Scheduler.emplace]
      split_ifs with hbefore
      · refine List.pairwise_cons.mpr ⟨?_, h⟩
        intro e he
        rcases List.mem_cons.mp he with rfl | he
        · exact hbefore
        · exact QueueKey.before_trans hbefore (hentry e he)
      · refine List.pairwise_cons.mpr ⟨?_, Sorted.emplace job hrest hfreshRest⟩
        intro e he
        rcases List.mem_cons.mp ((emplace_perm job hfreshRest).mem_iff.mp he) with rfl | he
        · exact QueueKey.before_of_ne hne hbefore
        · exact hentry e he

/-! ## The invariant -/

/-- The queue, its index and the generations of a scheduler. -/
structure QueueOrder (s : BackgroundScheduler Rig Time Work) : Prop where
  wf : QueueWf s
  priority : ∀ entry ∈ s.queue, entry.1.priority = entry.2.request.priority
  sorted : Sorted s.queue
  current : ∀ entry ∈ s.queue,
    s.generations entry.2.request.rig = entry.2.request.generation

namespace QueueOrder

variable {s s' : BackgroundScheduler Rig Time Work}

theorem initial : QueueOrder ({} : BackgroundScheduler Rig Time Work) where
  wf := .initial
  priority := by simp
  sorted := List.Pairwise.nil
  current := by simp

theorem of_sublist (h : QueueOrder s) (hwf : QueueWf s') (hqueue : s'.queue.Sublist s.queue)
    (hgen : ∀ entry ∈ s'.queue,
      s'.generations entry.2.request.rig = s.generations entry.2.request.rig) : QueueOrder s' where
  wf := hwf
  priority := by
    intro entry he
    exact h.priority entry (hqueue.subset he)
  sorted := h.sorted.sublist hqueue
  current := by
    intro entry he
    rw [hgen entry he]
    exact h.current entry (hqueue.subset he)

theorem congr (h : QueueOrder s) (hwf : QueueWf s') (hqueue : s'.queue = s.queue)
    (hgen : s'.generations = s.generations) : QueueOrder s' := by
  refine h.of_sublist hwf (by rw [hqueue]) ?_
  intro entry _
  rw [hgen]

section

variable [DecidableEq Rig] [DecidableEq Time]

theorem purge (h : QueueOrder s) (kind : WarmTransitionKind)
    (picked : WarmRequest Rig Time → Bool) : QueueOrder (purge kind picked s) := by
  refine h.of_sublist (h.wf.purge kind picked) ?_ ?_
  · rw [purge_eq]
    exact List.filter_sublist
  · intro entry _
    rw [(sameFences_purge kind picked s).generations]

/-- A cancelled rig keeps no queued job, so nothing queued is behind its generation. -/
theorem cancelGeneration (h : QueueOrder s) (rig : Rig) : QueueOrder (s.cancelGeneration rig) := by
  have hbumped : QueueWf { s with
      generations := Function.update s.generations rig (bump64 (s.generations rig)) } :=
    h.wf.congr rfl rfl rfl
  refine h.of_sublist (hbumped.purge .canceled fun request => request.rig = rig) ?_ ?_
  · rw [BackgroundScheduler.cancelGeneration, purge_eq]
    exact List.filter_sublist
  · intro entry he
    rw [BackgroundScheduler.cancelGeneration, purge_eq] at he
    have hother : entry.2.request.rig ≠ rig := by simpa using (List.mem_filter.mp he).2
    rw [BackgroundScheduler.cancelGeneration, (sameFences_purge ..).generations]
    exact Function.update_of_ne hother _ _

theorem resetRig (h : QueueOrder s) (rig : Rig) : QueueOrder (s.resetRig rig) := by
  have hcleared : QueueOrder { s with
      fenceCounters := Function.update s.fenceCounters rig 0
      fenceTokens := fun at_ => if at_.1 = rig then 0 else s.fenceTokens at_ } :=
    h.congr (h.wf.congr rfl rfl rfl) rfl rfl
  have hpurged := hcleared.purge .canceled fun request => request.rig = rig
  exact hpurged.congr (hpurged.wf.congr rfl rfl rfl) rfl rfl

theorem promote (h : QueueOrder s) {rig : Rig} {time : Time} {oldKey : QueueKey}
    {job : QueuedJob Rig Time Work} (hindex : s.queuedByRigAndTime (rig, time) = some oldKey)
    (hmem : (oldKey, job) ∈ s.queue) : QueueOrder (s.promote rig time oldKey job) := by
  obtain ⟨-, hnew⟩ := h.wf.promote_perm rig time hmem
  have hcases : ∀ entry ∈ (s.promote rig time oldKey job).queue,
      entry = (⟨.neighbor, oldKey.sequence⟩,
        { job with request := { job.request with priority := .neighbor } }) ∨ entry ∈ s.queue := by
    intro entry he
    rcases List.mem_cons.mp (hnew.mem_iff.mp he) with rfl | he
    · exact .inl rfl
    · exact .inr (List.mem_filter.mp he).1
  refine ⟨h.wf.promote hindex hmem, ?_, ?_, ?_⟩
  · intro entry he
    rcases hcases entry he with rfl | he
    · rfl
    · exact h.priority entry he
  · refine Sorted.emplace _ (h.sorted.sublist List.filter_sublist) ?_
    intro entry he hkey
    obtain ⟨he, hne⟩ := List.mem_filter.mp he
    have hsame := h.wf.eq_of_sequence he hmem (by rw [hkey])
    simp [hsame] at hne
  · intro entry he
    rcases hcases entry he with rfl | he
    · exact h.current (oldKey, job) hmem
    · exact h.current entry he

theorem insertJob (h : QueueOrder s) {rig : Rig} {time : Time} {priority : WarmPriority}
    {generation : Nat} {work : Work} (hfree : s.queuedByRigAndTime (rig, time) = none)
    (hgen : s.generations rig = generation) :
    QueueOrder (s.insertJob rig time priority generation work) := by
  have hcases := fun entry => (h.wf.insertJob_perm rig time priority generation work).mem_iff
    (a := entry)
  refine ⟨h.wf.insertJob hfree, ?_, ?_, ?_⟩
  · intro entry he
    rcases List.mem_cons.mp ((hcases entry).mp he) with rfl | he
    · rfl
    · exact h.priority entry he
  · refine h.sorted.emplace _ ?_
    intro entry he hkey
    have hbelow := h.wf.below entry he
    rw [hkey] at hbelow
    exact Nat.lt_irrefl _ hbelow
  · intro entry he
    rcases List.mem_cons.mp ((hcases entry).mp he) with rfl | he
    · exact hgen
    · exact h.current entry he

theorem popJob (h : QueueOrder s) {job : QueuedJob Rig Time Work} (hpop : s.popJob = some (job, s'))
    :
    QueueOrder s' := by
  obtain ⟨key, rest, hqueue, heq⟩ := QueueWf.popJob_eq hpop
  have hrest : s'.queue = rest := by rw [heq]; rfl
  refine h.of_sublist (h.wf.popJob hpop) ?_ ?_
  · rw [hrest, hqueue]
    exact List.sublist_cons_self _ _
  · intro entry _
    rw [(sameFences_popJob hpop).generations]

end

/-- **A step keeps the queue in order.** -/
theorem step [DecidableEq Rig] [FrameTime Time] {y y' : System Rig Time Work}
    {event : Event Rig Time Work} (h : QueueOrder y.sched) (hstep : y.step event = some y') :
    QueueOrder y'.sched := by
  have hwf : QueueWf y'.sched := h.wf.move (step_move hstep)
  have hcalls := step_calls hstep
  generalize y'.sched = s', y'.hands = hands' at hcalls hwf
  cases hcalls with
  | nothing _ => exact h
  | cancelGeneration rig _ => exact h.cancelGeneration rig
  | resetRig rig _ => exact h.resetRig rig
  | cancelGenerationTimes rig times _ =>
      have hq := quiet_refence rig (affectedTimes times) y.sched
      have hfences : ((affectedTimes times).foldl (refence rig) y.sched).generations =
          y.sched.generations := foldl_refence_generations rig _ _
      exact (h.congr (h.wf.quiet hq) hq.queue hfences).purge .canceled
        fun request => request.rig = rig ∧ request.time ∈ affectedTimes times
  | declined => exact h.congr hwf rfl rfl
  | merged hm =>
      rcases mergeIfQueued_cases hm with rfl | ⟨oldKey, job, hindex, hmem, -, rfl⟩
      · exact h.congr hwf rfl rfl
      · exact h.promote hindex hmem
  | inserted rig time priority generation work hgen hfree _ => exact h.insertJob hfree hgen
  | skipped skip =>
      exact h.congr hwf (quiet_declineSkip y.sched skip).queue
        (sameFences_declineSkip y.sched skip).generations
  | invoked => exact h.congr hwf rfl rfl
  | advanced rig playhead =>
      simp only [notePlaybackAdvanced]
      split
      · exact h
      · exact h.purge _ _
  | capped cap => exact h.congr hwf rfl rfl
  | popped _ hp => exact h.popJob hp
  | stale _ => exact h.congr hwf rfl (sameFences_finishJob ..).generations
  | finished outcome _ _ _ =>
      refine h.congr hwf ?_ (sameFences_finishJob ..).generations
      cases outcome <;> rfl
  | stopped => exact h.congr hwf rfl rfl
  | dropped _ _ =>
      refine h.of_sublist hwf ?_ ?_
      · rw [QueueWf.dropAllQueued_queue]
        exact List.nil_sublist _
      · rw [QueueWf.dropAllQueued_queue]
        intro entry he
        cases he

theorem history [DecidableEq Rig] [FrameTime Time] {events : List (Event Rig Time Work)}
    {y : System Rig Time Work} (hrun : System.history events = some y) : QueueOrder y.sched :=
  Lib.run_preserves (P := fun y => QueueOrder y.sched) (fun _ _ _ h hstep => h.step hstep) .initial
    hrun

end QueueOrder

/-! ## What becomes of a queued job -/

/-- Across a step a queued job stands, is promoted, goes to a worker as the first of the queue, or is
purged: its place is free, and its transition has been reported. -/
inductive Fate (event : Event Rig Time Work) (s : BackgroundScheduler Rig Time Work)
    (s' : BackgroundScheduler Rig Time Work) (entry : QueueKey × QueuedJob Rig Time Work) : Prop
  | stands : entry ∈ s'.queue → Fate event s s' entry
  | promoted : entry.2.request.priority = .sweep →
      ((⟨.neighbor, entry.1.sequence⟩,
        { entry.2 with request := { entry.2.request with priority := .neighbor } }) :
          QueueKey × QueuedJob Rig Time Work) ∈ s'.queue →
      Fate event s s' entry
  | popped : event = .popJob → s.queue.head? = some entry → Fate event s s' entry
  | purged (kind : WarmTransitionKind) :
      kind = .canceled ∨ kind = .shed ∨ kind = .droppedAtShutdown →
      (∀ other ∈ s'.queue, placeOf other ≠ placeOf entry) →
      transitionOf kind .published entry.2.request ∈ s'.reported.drop s.reported.length →
      Fate event s s' entry

section

variable [DecidableEq Rig] {s : BackgroundScheduler Rig Time Work}

omit [DecidableEq Rig] in
theorem Fate.congr {event : Event Rig Time Work} {s' s'' : BackgroundScheduler Rig Time Work}
    {entry : QueueKey × QueuedJob Rig Time Work} (h : Fate event s s' entry)
    (hqueue : s''.queue = s'.queue) (hreported : s''.reported = s'.reported) :
    Fate event s s'' entry := by
  cases h with
  | stands hstands => exact .stands (hqueue ▸ hstands)
  | promoted hsweep hmem => exact .promoted hsweep (hqueue ▸ hmem)
  | popped hevent hhead => exact .popped hevent hhead
  | purged kind hkind hfree hreport => exact .purged kind hkind (hqueue ▸ hfree) (hreported ▸ hreport)

omit [DecidableEq Rig] in
theorem Fate.of_purge [DecidableEq Rig] [DecidableEq Time] {event : Event Rig Time Work}
    {s₀ : BackgroundScheduler Rig Time Work} (h : QueueWf s) (hq : Quiet s s₀)
    {kind : WarmTransitionKind}
    (hkind : kind = .canceled ∨ kind = .shed ∨ kind = .droppedAtShutdown)
    (picked : WarmRequest Rig Time → Bool) {entry : QueueKey × QueuedJob Rig Time Work}
    (he : entry ∈ s.queue) : Fate event s (purge kind picked s₀) entry := by
  rw [purge_eq]
  cases hpicked : picked entry.2.request with
  | false => exact .stands (List.mem_filter.mpr ⟨hq.queue ▸ he, by rw [hpicked]; rfl⟩)
  | true =>
      refine .purged kind hkind ?_ ?_
      · intro other hother hplace
        obtain ⟨hmem, hkept⟩ := List.mem_filter.mp hother
        rw [h.eq_of_place (hq.queue ▸ hmem) he hplace, hpicked] at hkept
        cases hkept
      · rw [hq.reported, List.drop_left]
        exact List.mem_map_of_mem (List.mem_filter.mpr ⟨hq.queue ▸ he, hpicked⟩)

variable [FrameTime Time]

theorem step_fate {y y' : System Rig Time Work} {event : Event Rig Time Work}
    (h : QueueWf y.sched) (hstep : y.step event = some y')
    {entry : QueueKey × QueuedJob Rig Time Work} (he : entry ∈ y.sched.queue) :
    Fate event y.sched y'.sched entry := by
  have hcalls := step_calls hstep
  generalize y'.sched = s', y'.hands = hands' at hcalls
  cases hcalls with
  | nothing _ => exact .stands he
  | cancelGeneration rig _ =>
      refine .of_purge h ?_ (.inl rfl) _ he
      exact { Quiet.refl y.sched with }
  | resetRig rig _ =>
      have hcleared : Quiet y.sched
          { y.sched with
            fenceCounters := Function.update y.sched.fenceCounters rig 0
            fenceTokens := fun at_ => if at_.1 = rig then 0 else y.sched.fenceTokens at_ } :=
        { Quiet.refl y.sched with }
      exact (Fate.of_purge h hcleared (.inl rfl) (fun request => request.rig = rig) he).congr rfl rfl
  | cancelGenerationTimes rig times _ =>
      exact .of_purge h (quiet_refence rig (affectedTimes times) _) (.inl rfl)
        (fun request => request.rig = rig ∧ request.time ∈ affectedTimes times) he
  | declined => exact .stands he
  | merged hm =>
      rcases mergeIfQueued_cases hm with rfl | ⟨oldKey, job, hindex, hmem, hsweep, rfl⟩
      · exact .stands he
      · obtain ⟨hold, hnew⟩ := h.promote_perm _ _ hmem
        rcases List.mem_cons.mp (hold.mem_iff.mp he) with rfl | he
        · exact .promoted hsweep (hnew.mem_iff.mpr List.mem_cons_self)
        · exact .stands (hnew.mem_iff.mpr (List.mem_cons_of_mem _ he))
  | inserted rig time priority generation work _ _ _ =>
      exact .stands ((h.insertJob_perm rig time priority generation work).mem_iff.mpr
        (List.mem_cons_of_mem _ he))
  | skipped skip => exact .stands ((quiet_declineSkip y.sched skip).queue ▸ he)
  | invoked => exact .stands he
  | advanced rig playhead =>
      simp only [notePlaybackAdvanced]
      split
      · exact .stands he
      · exact .of_purge h (.refl _) (.inr (.inl rfl)) _ he
  | capped cap => exact .stands he
  | popped hevent hp =>
      obtain ⟨key, rest, hqueue, hs'⟩ := QueueWf.popJob_eq hp
      rw [hqueue] at he
      rcases List.mem_cons.mp he with rfl | he
      · exact .popped hevent (by rw [hqueue]; rfl)
      · refine .stands ?_
        rw [hs']
        exact he
  | stale _ => exact .stands he
  | finished outcome _ _ _ => exact .stands (by cases outcome <;> exact he)
  | stopped => exact .stands he
  | dropped _ _ =>
      exact (Fate.of_purge h (.refl _) (.inr (.inr rfl)) (fun _ => true) he).congr rfl rfl

/-- **The warm queue.**  In every state of a history: queue and index are inverse to each other, a
place and a key name one job, a key has its job's priority, every queued job is current at the
generation it was queued with, a pop takes the least key, and the next step lets a queued job
stand, promotes it in its sequence, pops it, or purges it. -/
theorem warmQueue {events : List (Event Rig Time Work)} {y : System Rig Time Work}
    (hrun : System.history events = some y) :
    (∀ (place : Rig × Time) (key : QueueKey), y.sched.queuedByRigAndTime place = some key ↔
      ∃ entry ∈ y.sched.queue, entry.1 = key ∧ placeOf entry = place) ∧
    (∀ a ∈ y.sched.queue, ∀ b ∈ y.sched.queue, placeOf a = placeOf b ∨ a.1 = b.1 → a = b) ∧
    (∀ entry ∈ y.sched.queue, entry.1.priority = entry.2.request.priority) ∧
    (∀ entry ∈ y.sched.queue,
      y.sched.isGenerationCurrent entry.2.request.rig entry.2.request.generation = true) ∧
    (∀ job s', y.sched.popJob = some (job, s') → ∃ key, (key, job) ∈ y.sched.queue ∧
      ∀ entry ∈ y.sched.queue, entry = (key, job) ∨ key.before entry.1 = true) ∧
    ∀ event y', y.step event = some y' → ∀ entry ∈ y.sched.queue,
      Fate event y.sched y'.sched entry := by
  have h := QueueOrder.history hrun
  refine ⟨h.wf.index, ?_, h.priority, ?_, ?_, ?_⟩
  · intro a ha b hb hsame
    rcases hsame with hplace | hkey
    · exact h.wf.eq_of_place ha hb hplace
    · exact h.wf.eq_of_sequence ha hb (by rw [hkey])
  · intro entry he
    exact beq_iff_eq.mpr (h.current entry he)
  · intro job s' hpop
    obtain ⟨key, rest, hqueue, -⟩ := QueueWf.popJob_eq hpop
    have hsorted := h.sorted
    rw [hqueue] at hsorted ⊢
    refine ⟨key, List.mem_cons_self, ?_⟩
    intro entry he
    rcases List.mem_cons.mp he with rfl | he
    · exact .inl rfl
    · exact .inr ((List.pairwise_cons.mp hsorted).1 entry he)
  · intro event y' hstep entry he
    exact step_fate h.wf hstep he

end

/-- A sweep job is queued behind another and promoted: it is popped first, under its old sequence. -/
theorem warmQueue_promoted :
    ∃ y : System Nat Int Unit,
      System.history [.enqueue true 0 (.numeric 1) .sweep 0 (some ()),
        .enqueue true 0 (.numeric 2) .sweep 0 (some ()),
        .enqueue true 0 (.numeric 2) .neighbor 0 (some ())] = some y ∧
      y.sched.queue.map Prod.fst = [⟨.neighbor, 1⟩, ⟨.sweep, 0⟩] ∧
      ∀ entry ∈ y.sched.queue,
        y.sched.isGenerationCurrent entry.2.request.rig entry.2.request.generation = true := by
  refine ⟨_, rfl, rfl, ?_⟩
  exact (@warmQueue Nat Int Unit _ _
    [.enqueue true 0 (.numeric 1) .sweep 0 (some ()), .enqueue true 0 (.numeric 2) .sweep 0 (some ()),
      .enqueue true 0 (.numeric 2) .neighbor 0 (some ())] _ rfl).2.2.2.1

end RigExec.Scheduler
