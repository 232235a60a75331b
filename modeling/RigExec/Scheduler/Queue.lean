/-
# `RigExec.Scheduler.Queue` — what a step does to the queue, said once

Every claim about the scheduler's books (job accounting, in-flight counts, the
warm index that mirrors the queue) is an invariant over the same few moves:

    quiet      counters outside the books, generations, fences, phases in hand
    purged     the jobs a predicate picks leave the queue
    reset      a purge of one rig, and its in-flight entry is erased
    promoted   a queued sweep job becomes a neighbour job
    inserted   a new job enters under a free (rig, time) and below the cap
    popped     the first job moves to a worker's hands
    finished   a job in hand is retired
    dropped    the destructor empties the queue

`Move` is that list and `step_move` the inversion lemma: a step of the system is
one of them.  A purge is given in closed form (`purge_eq`), so no proof walks
the purge loop again.
-/
import RigExec.Scheduler.Calls
import Mathlib.Data.List.Perm.Basic
import Mathlib.Data.List.Nodup

namespace RigExec.Scheduler

open BackgroundScheduler

variable {Rig Time Work : Type}

/-! ## Ordered insertion -/

theorem emplace_perm {Job : Type} {key : QueueKey} (job : Job) :
    ∀ {queue : List (QueueKey × Job)}, (∀ entry ∈ queue, entry.1 ≠ key) →
      (emplace key job queue).Perm ((key, job) :: queue)
  | [], _ => .refl _
  | entry :: rest, h => by
      have hne : key ≠ entry.1 := (h entry List.mem_cons_self).symm
      have ih : (emplace key job rest).Perm ((key, job) :: rest) :=
        emplace_perm job fun e he => h e (List.mem_cons_of_mem _ he)
      simp only [emplace, hne, if_false]
      split_ifs
      · exact .refl _
      · exact (ih.cons entry).trans (.swap _ _ _)

/-! ## The purge loop in closed form -/

section Purge

variable [DecidableEq Rig] [DecidableEq Time]

/-- The transition a job is reported under. -/
def transitionOf (kind : WarmTransitionKind) (outcome : WarmOutcome)
    (request : WarmRequest Rig Time) : WarmTransition Rig Time :=
  ⟨request.rig, request.time, kind, outcome⟩

/-- The (rig, time) of a queued job. -/
def placeOf (entry : QueueKey × QueuedJob Rig Time Work) : Rig × Time :=
  (entry.2.request.rig, entry.2.request.time)

/-- The jobs a purge takes out. -/
def purgedJobs (picked : WarmRequest Rig Time → Bool) (s : BackgroundScheduler Rig Time Work) :
    List (QueueKey × QueuedJob Rig Time Work) :=
  s.queue.filter fun entry => picked entry.2.request

/-- The body of the purge loop over a list of jobs, in closed form: the fields it touches. -/
theorem foldl_dropQueued (kind : WarmTransitionKind) :
    ∀ (gone : List (QueueKey × QueuedJob Rig Time Work)) (s : BackgroundScheduler Rig Time Work),
      gone.foldl (fun s entry => dropQueued kind s entry.2) s =
        { s with
          queuedByRigAndTime := fun place =>
            if place ∈ gone.map placeOf then none else s.queuedByRigAndTime place
          inFlight := fun rig => s.inFlight rig - gone.countP fun entry => entry.2.request.rig = rig
          canceled := s.canceled + if kind = .canceled then gone.length else 0
          shed := s.shed + if kind = .shed then gone.length else 0
          droppedAtShutdown :=
            s.droppedAtShutdown + if kind = .droppedAtShutdown then gone.length else 0
          reported := s.reported ++ gone.map fun entry => transitionOf kind .published entry.2.request }
  | [], s => by simp
  | entry :: gone, s => by
      rw [List.foldl_cons, foldl_dropQueued kind gone]
      have hindex : ∀ place : Rig × Time,
          (if place ∈ gone.map placeOf then none
            else Function.update s.queuedByRigAndTime (placeOf entry) none place) =
          if place ∈ (entry :: gone).map placeOf then none else s.queuedByRigAndTime place := by
        intro place
        by_cases hp : place = placeOf entry
        · subst hp; simp
        · by_cases hg : place ∈ gone.map placeOf <;> simp [hp, hg]
      have hflight : ∀ rig : Rig,
          Function.update s.inFlight entry.2.request.rig (s.inFlight entry.2.request.rig - 1) rig -
              (gone.countP fun e => e.2.request.rig = rig) =
            s.inFlight rig - ((entry :: gone).countP fun e => e.2.request.rig = rig) := by
        intro rig
        by_cases hr : entry.2.request.rig = rig
        · subst hr; simp; omega
        · simp [hr, Function.update_of_ne (Ne.symm hr)]
      cases kind <;>
        simp only [dropQueued, countPurged, reportTransition, List.length_cons, List.map_cons,
          List.append_assoc, List.singleton_append, if_true, if_false, reduceCtorEq, Nat.add_zero] <;>
        congr 1 <;>
        first
          | exact funext hindex
          | exact funext hflight
          | omega

variable (kind : WarmTransitionKind) (picked : WarmRequest Rig Time → Bool)
  (s : BackgroundScheduler Rig Time Work)

theorem purge_eq :
    purge kind picked s =
      { s with
        queue := s.queue.filter fun entry => !picked entry.2.request
        queuedByRigAndTime := fun place =>
          if place ∈ (purgedJobs picked s).map placeOf then none else s.queuedByRigAndTime place
        inFlight := fun rig =>
          s.inFlight rig - (purgedJobs picked s).countP fun entry => entry.2.request.rig = rig
        canceled := s.canceled + if kind = .canceled then (purgedJobs picked s).length else 0
        shed := s.shed + if kind = .shed then (purgedJobs picked s).length else 0
        droppedAtShutdown :=
          s.droppedAtShutdown + if kind = .droppedAtShutdown then (purgedJobs picked s).length else 0
        reported := s.reported ++
          (purgedJobs picked s).map fun entry => transitionOf kind .published entry.2.request } := by
  rw [purge, foldl_dropQueued]
  rfl

end Purge

/-! ## The moves -/

/-- Nothing the books are kept over has changed. -/
structure Quiet (s s' : BackgroundScheduler Rig Time Work) : Prop where
  queue : s'.queue = s.queue
  queuedByRigAndTime : s'.queuedByRigAndTime = s.queuedByRigAndTime
  runningByRigAndTime : s'.runningByRigAndTime = s.runningByRigAndTime
  inFlight : s'.inFlight = s.inFlight
  sequence : s'.sequence = s.sequence
  running : s'.running = s.running
  completed : s'.completed = s.completed
  published : s'.published = s.published
  declinedInvalid : s'.declinedInvalid = s.declinedInvalid
  declinedGeneration : s'.declinedGeneration = s.declinedGeneration
  droppedStale : s'.droppedStale = s.droppedStale
  canceled : s'.canceled = s.canceled
  shed : s'.shed = s.shed
  droppedAtShutdown : s'.droppedAtShutdown = s.droppedAtShutdown
  reported : s'.reported = s.reported

theorem Quiet.refl (s : BackgroundScheduler Rig Time Work) : Quiet s s :=
  ⟨rfl, rfl, rfl, rfl, rfl, rfl, rfl, rfl, rfl, rfl, rfl, rfl, rfl, rfl, rfl⟩

/-- `_inFlight.erase(rig)`: whatever the rig's count was, it reads 0 from here. -/
def BackgroundScheduler.uncount [DecidableEq Rig] (s : BackgroundScheduler Rig Time Work)
    (rig : Rig) : BackgroundScheduler Rig Time Work :=
  { s with inFlight := Function.update s.inFlight rig 0 }

section Moves

variable [DecidableEq Rig] [FrameTime Time]

/-- What one step does to the scheduler's books and to the jobs in hand. -/
inductive Move (event : Event Rig Time Work) (s : BackgroundScheduler Rig Time Work)
    (hands : List (PoppedJob Rig Time Work)) :
    BackgroundScheduler Rig Time Work → List (PoppedJob Rig Time Work) → Prop
  | quiet {s' : BackgroundScheduler Rig Time Work} {hands' : List (PoppedJob Rig Time Work)} :
      Quiet s s' → hands'.map PoppedJob.request = hands.map PoppedJob.request →
      Move event s hands s' hands'
  | purged {s₀ : BackgroundScheduler Rig Time Work} (kind : WarmTransitionKind)
      (picked : WarmRequest Rig Time → Bool) :
      kind = .canceled ∨ kind = .shed → Quiet s s₀ → Move event s hands (purge kind picked s₀) hands
  | reset {s₀ : BackgroundScheduler Rig Time Work} (rig : Rig) :
      event = .resetRig rig → Quiet s s₀ →
      Move event s hands ((purge .canceled (fun request => request.rig = rig) s₀).uncount rig) hands
  | promoted {rig : Rig} {time : Time} {oldKey : QueueKey} {job : QueuedJob Rig Time Work} :
      s.queuedByRigAndTime (rig, time) = some oldKey → (oldKey, job) ∈ s.queue →
      job.request.priority = .sweep → Move event s hands (s.promote rig time oldKey job) hands
  | inserted (rig : Rig) (time : Time) (priority : WarmPriority) (generation : Nat) (work : Work) :
      s.queuedByRigAndTime (rig, time) = none → s.inFlight rig < s.perRigCap →
      Move event s hands (s.insertJob rig time priority generation work) hands
  | popped {job : QueuedJob Rig Time Work} {s' : BackgroundScheduler Rig Time Work} :
      s.popJob = some (job, s') → Move event s hands s' (hands ++ [⟨job, .popped⟩])
  | stale {hand : Nat} {popped : PoppedJob Rig Time Work} :
      hands[hand]? = some popped →
      Move event s hands (s.finishJob popped.request none) (hands.eraseIdx hand)
  | finished {hand : Nat} {popped : PoppedJob Rig Time Work} (outcome : WarmOutcome) :
      event = .finish hand outcome → hands[hand]? = some popped → popped.phase = .working →
      Move event s hands (s.finishJob popped.request (some outcome)) (hands.eraseIdx hand)
  | dropped : hands = [] → Move event s hands s.dropAllQueued hands

theorem move_mergeIfQueued {event : Event Rig Time Work} {s m : BackgroundScheduler Rig Time Work}
    {hands : List (PoppedJob Rig Time Work)} {rig : Rig} {time : Time} {priority : WarmPriority}
    (h : s.mergeIfQueued rig time priority = some m) : Move event s hands m hands := by
  rcases mergeIfQueued_cases h with rfl | ⟨oldKey, job, hindex, hmem, hsweep, rfl⟩
  · exact .quiet { Quiet.refl s with } rfl
  · exact .promoted hindex hmem hsweep

theorem quiet_refence (rig : Rig) (times : List Time) (s : BackgroundScheduler Rig Time Work) :
    Quiet s (times.foldl (refence rig) s) := by
  induction times generalizing s with
  | nil => exact .refl s
  | cons time times ih => exact { ih (refence rig s time) with }

omit [DecidableEq Rig] [FrameTime Time] in
theorem quiet_declineSkip (s : BackgroundScheduler Rig Time Work) (skip : WarmSkipReason) :
    Quiet s (s.declineSkip skip) := by
  cases skip <;> exact { Quiet.refl s with }

theorem step_move {y y' : System Rig Time Work} {event : Event Rig Time Work}
    (h : y.step event = some y') : Move event y.sched y.hands y'.sched y'.hands := by
  have hcalls := step_calls h
  generalize y'.sched = s', y'.hands = hands' at hcalls
  cases hcalls with
  | nothing hhands => exact .quiet (.refl _) hhands
  | cancelGeneration rig _ =>
      have hq : Quiet y.sched
          { y.sched with
            generations := Function.update y.sched.generations rig
              (bump64 (y.sched.generations rig)) } :=
        { Quiet.refl y.sched with }
      exact .purged .canceled (fun request => request.rig = rig) (.inl rfl) hq
  | resetRig rig hevent =>
      have hq : Quiet y.sched
          { y.sched with
            fenceCounters := Function.update y.sched.fenceCounters rig 0
            fenceTokens := fun at_ => if at_.1 = rig then 0 else y.sched.fenceTokens at_ } :=
        { Quiet.refl y.sched with }
      exact .reset rig hevent hq
  | cancelGenerationTimes rig times _ =>
      have hq := quiet_refence rig (affectedTimes times) y.sched
      exact .purged .canceled
        (fun request => request.rig = rig ∧ request.time ∈ affectedTimes times) (.inl rfl) hq
  | declined => exact .quiet { Quiet.refl y.sched with } rfl
  | merged hm => exact move_mergeIfQueued hm
  | inserted rig time priority generation work _ hfree hcap =>
      exact .inserted _ _ _ _ _ hfree hcap
  | skipped skip => exact .quiet (quiet_declineSkip ..) rfl
  | invoked => exact .quiet { Quiet.refl y.sched with } rfl
  | advanced rig playhead =>
      simp only [notePlaybackAdvanced]
      split
      · exact .quiet (.refl _) rfl
      · exact .purged .shed _ (.inr rfl) (.refl _)
  | capped cap => exact .quiet { Quiet.refl y.sched with } rfl
  | popped _ hp => exact .popped hp
  | stale hh => exact .stale hh
  | finished outcome hevent hh hphase => exact .finished outcome hevent hh hphase
  | stopped => exact .quiet { Quiet.refl y.sched with } rfl
  | dropped _ hhands => exact .dropped hhands

end Moves

/-! ## The queue and its coalescing index

Sequence numbers are never reused, so a key names one job; the index holds
exactly the queued (rig, time) pairs, so no pair is queued twice. -/

/-- The queue is well formed: what the coalescing index says is what the queue holds. -/
structure QueueWf (s : BackgroundScheduler Rig Time Work) : Prop where
  sequences : (s.queue.map fun entry => entry.1.sequence).Nodup
  below : ∀ entry ∈ s.queue, entry.1.sequence < s.sequence
  index : ∀ (place : Rig × Time) (key : QueueKey), s.queuedByRigAndTime place = some key ↔
    ∃ entry ∈ s.queue, entry.1 = key ∧ placeOf entry = place

namespace QueueWf

variable {s : BackgroundScheduler Rig Time Work}

theorem eq_of_sequence (h : QueueWf s) {a b : QueueKey × QueuedJob Rig Time Work}
    (ha : a ∈ s.queue) (hb : b ∈ s.queue) (hab : a.1.sequence = b.1.sequence) : a = b :=
  List.inj_on_of_nodup_map h.sequences ha hb hab

theorem eq_of_place (h : QueueWf s) {a b : QueueKey × QueuedJob Rig Time Work}
    (ha : a ∈ s.queue) (hb : b ∈ s.queue) (hab : placeOf a = placeOf b) : a = b := by
  have hka := (h.index (placeOf a) a.1).mpr ⟨a, ha, rfl, rfl⟩
  have hkb := (h.index (placeOf a) b.1).mpr ⟨b, hb, rfl, hab.symm⟩
  have hkey : a.1 = b.1 := Option.some.inj (hka.symm.trans hkb)
  exact h.eq_of_sequence ha hb (congrArg QueueKey.sequence hkey)

theorem nodup (h : QueueWf s) : s.queue.Nodup := h.sequences.of_map _

theorem index_eq_none (h : QueueWf s) {place : Rig × Time} :
    s.queuedByRigAndTime place = none ↔ ∀ entry ∈ s.queue, placeOf entry ≠ place := by
  rw [Option.eq_none_iff_forall_ne_some]
  constructor
  · intro hn entry he hp
    exact hn entry.1 ((h.index place entry.1).mpr ⟨entry, he, rfl, hp⟩)
  · intro hn key hk
    obtain ⟨entry, he, -, hp⟩ := (h.index place key).mp hk
    exact hn entry he hp

theorem of_perm {s' : BackgroundScheduler Rig Time Work}
    {queue : List (QueueKey × QueuedJob Rig Time Work)} (hp : s'.queue.Perm queue)
    (sequences : (queue.map fun entry => entry.1.sequence).Nodup)
    (below : ∀ entry ∈ queue, entry.1.sequence < s'.sequence)
    (index : ∀ (place : Rig × Time) (key : QueueKey), s'.queuedByRigAndTime place = some key ↔
      ∃ entry ∈ queue, entry.1 = key ∧ placeOf entry = place) : QueueWf s' where
  sequences := (hp.map _).nodup_iff.mpr sequences
  below entry he := below entry (hp.mem_iff.mp he)
  index place key := by
    rw [index]
    exact exists_congr fun entry => and_congr_left fun _ => hp.mem_iff.symm

theorem congr (h : QueueWf s) {s' : BackgroundScheduler Rig Time Work} (hqueue : s'.queue = s.queue)
    (hindex : s'.queuedByRigAndTime = s.queuedByRigAndTime) (hseq : s'.sequence = s.sequence) :
    QueueWf s' where
  sequences := by rw [hqueue]; exact h.sequences
  below := by rw [hqueue, hseq]; exact h.below
  index := by rw [hqueue, hindex]; exact h.index

theorem quiet (h : QueueWf s) {s' : BackgroundScheduler Rig Time Work} (hq : Quiet s s') :
    QueueWf s' :=
  h.congr hq.queue hq.queuedByRigAndTime hq.sequence

theorem initial : QueueWf ({} : BackgroundScheduler Rig Time Work) where
  sequences := List.nodup_nil
  below := by simp
  index := by simp

section
variable [DecidableEq Rig] [DecidableEq Time]

theorem purge (h : QueueWf s) (kind : WarmTransitionKind)
    (picked : WarmRequest Rig Time → Bool) : QueueWf (purge kind picked s) where
  sequences := by
    rw [purge_eq]
    exact h.sequences.sublist (List.filter_sublist.map _)
  below entry he := by
    rw [purge_eq] at he ⊢
    exact h.below entry (List.mem_filter.mp he).1
  index place key := by
    have hgone : place ∈ (purgedJobs picked s).map placeOf ↔
        ∃ entry ∈ s.queue, picked entry.2.request = true ∧ placeOf entry = place := by
      simp only [purgedJobs, List.mem_map, List.mem_filter, and_assoc]
    rw [purge_eq]
    show (if place ∈ (purgedJobs picked s).map placeOf then none
        else s.queuedByRigAndTime place) = some key ↔ _
    by_cases hp : place ∈ (purgedJobs picked s).map placeOf
    · rw [if_pos hp]
      obtain ⟨entry, he, hpicked, hplace⟩ := hgone.mp hp
      refine iff_of_false (by simp) ?_
      rintro ⟨kept, hkept, -, hkp⟩
      obtain ⟨hkept, hnot⟩ := List.mem_filter.mp hkept
      rw [h.eq_of_place hkept he (hkp.trans hplace.symm), hpicked] at hnot
      cases hnot
    · rw [if_neg hp, h.index]
      constructor
      · rintro ⟨entry, he, hk, hplace⟩
        refine ⟨entry, List.mem_filter.mpr ⟨he, ?_⟩, hk, hplace⟩
        cases hpicked : picked entry.2.request with
        | false => rfl
        | true => exact absurd (hgone.mpr ⟨entry, he, hpicked, hplace⟩) hp
      · rintro ⟨entry, he, hk, hplace⟩
        exact ⟨entry, (List.mem_filter.mp he).1, hk, hplace⟩

theorem promote_perm (h : QueueWf s) (rig : Rig) (time : Time) {oldKey : QueueKey}
    {job : QueuedJob Rig Time Work} (hmem : (oldKey, job) ∈ s.queue) :
    s.queue.Perm ((oldKey, job) :: s.queue.filter fun entry => entry.1 ≠ oldKey) ∧
    (s.promote rig time oldKey job).queue.Perm
      ((⟨.neighbor, oldKey.sequence⟩,
        { job with request := { job.request with priority := .neighbor } }) ::
        s.queue.filter fun entry => entry.1 ≠ oldKey) := by
  constructor
  · rw [List.perm_ext_iff_of_nodup h.nodup
      (List.nodup_cons.mpr ⟨by simp, h.nodup.filter _⟩)]
    intro entry
    simp only [ne_eq, decide_not, List.mem_cons, List.mem_filter, Bool.not_eq_eq_eq_not,
      Bool.not_true, decide_eq_false_iff_not]
    constructor
    · intro he
      by_cases hk : entry.1 = oldKey
      · exact .inl (h.eq_of_sequence he hmem (by rw [hk]))
      · exact .inr ⟨he, hk⟩
    · rintro (rfl | ⟨he, -⟩)
      · exact hmem
      · exact he
  · refine emplace_perm _ fun entry he hk => ?_
    obtain ⟨he, hne⟩ := List.mem_filter.mp he
    have := h.eq_of_sequence he hmem (by rw [hk])
    simp [this] at hne

theorem promote (h : QueueWf s) {rig : Rig} {time : Time} {oldKey : QueueKey}
    {job : QueuedJob Rig Time Work} (hindex : s.queuedByRigAndTime (rig, time) = some oldKey)
    (hmem : (oldKey, job) ∈ s.queue) : QueueWf (s.promote rig time oldKey job) := by
  obtain ⟨hold, hnew⟩ := h.promote_perm rig time hmem
  have hplace : placeOf (oldKey, job) = (rig, time) := by
    obtain ⟨entry, he, hk, hp⟩ := (h.index _ _).mp hindex
    rw [← h.eq_of_sequence he hmem (by rw [hk])]
    exact hp
  have hseq := (hold.map fun entry => entry.1.sequence).nodup_iff.mp h.sequences
  refine of_perm hnew hseq (fun entry he => ?_) (fun place key => ?_)
  · show entry.1.sequence < s.sequence
    rcases List.mem_cons.mp he with rfl | he
    · exact h.below (oldKey, job) hmem
    · exact h.below entry (List.mem_filter.mp he).1
  · by_cases hp : place = (rig, time)
    · subst hp
      simp only [BackgroundScheduler.promote, Function.update_self, Option.some.injEq,
        List.mem_cons]
      constructor
      · rintro rfl
        exact ⟨_, .inl rfl, rfl, hplace⟩
      · rintro ⟨entry, rfl | he, rfl, hpe⟩
        · rfl
        · obtain ⟨he, hne⟩ := List.mem_filter.mp he
          have := h.eq_of_place he hmem (hpe.trans hplace.symm)
          simp [this] at hne
    · simp only [BackgroundScheduler.promote, Function.update_of_ne hp, h.index, List.mem_cons]
      constructor
      · rintro ⟨entry, he, rfl, rfl⟩
        refine ⟨entry, .inr (List.mem_filter.mpr ⟨he, ?_⟩), rfl, rfl⟩
        simp only [ne_eq, decide_not, Bool.not_eq_eq_eq_not, Bool.not_true, decide_eq_false_iff_not]
        intro hk
        rw [h.eq_of_sequence he hmem (by rw [hk])] at hp
        exact hp hplace
      · rintro ⟨entry, rfl | he, rfl, hpe⟩
        · exact absurd (hpe.symm.trans hplace) hp
        · exact ⟨entry, (List.mem_filter.mp he).1, rfl, hpe⟩

/-- The new job takes the next sequence number, so its key is fresh. -/
theorem insertJob_perm (h : QueueWf s) (rig : Rig) (time : Time) (priority : WarmPriority)
    (generation : Nat) (work : Work) :
    (s.insertJob rig time priority generation work).queue.Perm
      ((⟨priority, s.sequence⟩,
        ⟨⟨rig, time, priority, generation, s.currentFenceToken rig time⟩, work⟩) :: s.queue) := by
  refine emplace_perm _ fun entry he hk => ?_
  have := h.below entry he
  rw [hk] at this
  exact Nat.lt_irrefl _ this

theorem insertJob (h : QueueWf s) {rig : Rig} {time : Time} {priority : WarmPriority}
    {generation : Nat} {work : Work} (hfree : s.queuedByRigAndTime (rig, time) = none) :
    QueueWf (s.insertJob rig time priority generation work) := by
  refine of_perm (h.insertJob_perm rig time priority generation work) ?_ ?_ ?_
  · refine List.nodup_cons.mpr ⟨fun hm => ?_, h.sequences⟩
    obtain ⟨entry, he, hseq⟩ := List.mem_map.mp hm
    have := h.below entry he
    simp only at hseq
    omega
  · intro entry he
    show entry.1.sequence < s.sequence + 1
    rcases List.mem_cons.mp he with rfl | he
    · exact Nat.lt_succ_self _
    · exact Nat.lt_succ_of_lt (h.below entry he)
  · intro place key
    simp only [BackgroundScheduler.insertJob, reportTransition, hfree, List.mem_cons]
    by_cases hp : place = (rig, time)
    · subst hp
      simp only [Function.update_self, Option.some.injEq]
      constructor
      · rintro rfl
        exact ⟨_, .inl rfl, rfl, rfl⟩
      · rintro ⟨entry, rfl | he, rfl, hpe⟩
        · rfl
        · exact absurd hpe (h.index_eq_none.mp hfree entry he)
    · simp only [Function.update_of_ne hp, h.index]
      constructor
      · rintro ⟨entry, he, hk, hpe⟩
        exact ⟨entry, .inr he, hk, hpe⟩
      · rintro ⟨entry, rfl | he, hk, hpe⟩
        · exact absurd hpe.symm hp
        · exact ⟨entry, he, hk, hpe⟩

/-- What a pop does: the first job leaves the queue, its index entry is erased, and it is counted
and reported as running. -/
theorem popJob_eq {s' : BackgroundScheduler Rig Time Work} {job : QueuedJob Rig Time Work}
    (hpop : s.popJob = some (job, s')) :
    ∃ key rest, s.queue = (key, job) :: rest ∧
      s' = reportTransition
        { s with
          queuedByRigAndTime := Function.update s.queuedByRigAndTime (placeOf (key, job)) none
          queue := rest
          running := s.running + 1
          runningByRigAndTime :=
            Function.update s.runningByRigAndTime (placeOf (key, job))
              (s.runningByRigAndTime (placeOf (key, job)) + 1) }
        job.request .running := by
  unfold BackgroundScheduler.popJob at hpop
  split at hpop
  · cases hpop
  · split at hpop
    · cases hpop
    · rename_i key _ rest hqueue
      cases hpop
      exact ⟨key, rest, hqueue, rfl⟩

theorem popJob (h : QueueWf s) {s' : BackgroundScheduler Rig Time Work}
    {job : QueuedJob Rig Time Work} (hpop : s.popJob = some (job, s')) : QueueWf s' := by
  obtain ⟨key, rest, hqueue, rfl⟩ := popJob_eq hpop
  have hseq := h.sequences
  have hmem : ∀ entry, entry ∈ s.queue ↔ entry = (key, job) ∨ entry ∈ rest := by
    simp [hqueue]
  rw [hqueue] at hseq
  refine ⟨(List.nodup_cons.mp hseq).2, fun entry he => h.below entry ((hmem entry).mpr (.inr he)),
    fun place key' => ?_⟩
  show Function.update s.queuedByRigAndTime (placeOf (key, job)) none place = some key' ↔
    ∃ entry ∈ rest, entry.1 = key' ∧ placeOf entry = place
  by_cases hp : place = placeOf (key, job)
  · subst hp
    refine ⟨fun hk => by simp at hk, ?_⟩
    rintro ⟨entry, he, -, hpe⟩
    have heq := h.eq_of_place ((hmem _).mpr (.inr he)) ((hmem _).mpr (.inl rfl)) hpe
    subst heq
    exact absurd (List.mem_map.mpr ⟨_, he, rfl⟩) (List.nodup_cons.mp hseq).1
  · rw [Function.update_of_ne hp, h.index]
    constructor
    · rintro ⟨entry, he, hk, hpe⟩
      rcases (hmem entry).mp he with rfl | he
      · exact absurd hpe.symm hp
      · exact ⟨entry, he, hk, hpe⟩
    · rintro ⟨entry, he, hk, hpe⟩
      exact ⟨entry, (hmem entry).mpr (.inr he), hk, hpe⟩

theorem finishJob (h : QueueWf s) (request : WarmRequest Rig Time) (outcome : Option WarmOutcome) :
    QueueWf (s.finishJob request outcome) := by
  rcases outcome with _ | _ | _ | _ <;> exact h.congr rfl rfl rfl

theorem dropAllQueued_queue (s : BackgroundScheduler Rig Time Work) :
    s.dropAllQueued.queue = [] := by
  simp [dropAllQueued, purge_eq]

theorem dropAllQueued : QueueWf s.dropAllQueued := by
  have hqueue := dropAllQueued_queue s
  refine ⟨by simp [hqueue], by simp [hqueue], fun place key => ?_⟩
  rw [hqueue]
  simp [BackgroundScheduler.dropAllQueued]

end

/-- **Every move keeps the queue well formed.** -/
theorem move [DecidableEq Rig] [FrameTime Time] {event : Event Rig Time Work}
    {s' : BackgroundScheduler Rig Time Work} {hands hands' : List (PoppedJob Rig Time Work)}
    (h : QueueWf s) (hm : Move event s hands s' hands') : QueueWf s' := by
  cases hm with
  | quiet hq _ => exact h.quiet hq
  | purged kind picked _ hq => exact (h.quiet hq).purge kind picked
  | reset rig _ hq => exact ((h.quiet hq).purge .canceled _).congr rfl rfl rfl
  | promoted hindex hmem _ => exact h.promote hindex hmem
  | inserted rig time priority generation work hfree _ => exact h.insertJob hfree
  | popped hpop => exact h.popJob hpop
  | stale _ => exact h.finishJob _ _
  | finished outcome _ _ _ => exact h.finishJob _ _
  | dropped _ => exact .dropAllQueued

theorem history [DecidableEq Rig] [FrameTime Time] {events : List (Event Rig Time Work)}
    {y : System Rig Time Work} (hrun : System.history events = some y) : QueueWf y.sched :=
  Lib.run_preserves (P := fun y => QueueWf y.sched)
    (fun _ _ _ h hstep => h.move (step_move hstep)) .initial hrun

end QueueWf

end RigExec.Scheduler
