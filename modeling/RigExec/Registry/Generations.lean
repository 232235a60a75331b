/-
# `RigExec.Registry.Generations` — retired completions, over every history of a context

The index answers with a completion only while the generation it was stamped
with is the index's own.  So a completion is retired for good once the index's
generation has grown past every stamp taken so far, and that takes three ties
(`Tied`), which each step preserves:

    the context's scheduler    has the index's generations
    a retired scheduler        has none above the index's
    a record, a pending one    is stamped with none above the index's

A scheduler made while the index remembers an older one breaks the first tie:
it starts again at 0, and a later `NoteGeneration` takes the index back.  The
condition `Rebuilt` says that no step does that.
-/
import RigExec.Registry.Context

namespace RigExec.Registry

open RigExec.Scheduler RigExec.WarmIndex

variable {Rig Time Work : Type}

/-! ## The scheduler's generations -/

section Warming

variable [DecidableEq Rig] [FrameTime Time] (w : Warming Rig Time Work)

theorem moveTo_index (sched : BackgroundScheduler Rig Time Work) :
    KeepsAll w.index (w.moveTo sched).index ∧
      (w.moveTo sched).index.generations = w.index.generations :=
  noteTransitions_index _

omit [DecidableEq Rig] in
theorem cancelGenerationTimes_generations [DecidableEq Rig] (rig : Rig)
    (times : List (TimeCode Time)) :
    (w.sched.cancelGenerationTimes rig times).generations = w.sched.generations := by
  exact (sameFences_purge ..).generations.trans (foldl_refence_generations rig _ _)

/-- What `_CancelGenerationLocked` does to the two generations, and to the in-flight counts of the
other rigs. -/
theorem cancelGenerationLocked_spec (rig : Rig) :
    KeepsAll w.index (w.cancelGenerationLocked rig).index ∧
    (w.cancelGenerationLocked rig).sched.generations =
      Function.update w.sched.generations rig (bump64 (w.sched.generations rig)) ∧
    (w.cancelGenerationLocked rig).index.generations =
      Function.update w.index.generations rig (bump64 (w.sched.generations rig)) ∧
    ∀ other ≠ rig, (w.cancelGenerationLocked rig).sched.inFlight other = w.sched.inFlight other := by
  have hgen : (w.sched.cancelGeneration rig).generations =
      Function.update w.sched.generations rig (bump64 (w.sched.generations rig)) :=
    (sameFences_purge ..).generations
  obtain ⟨hkeeps, hindex⟩ := moveTo_index w (w.sched.cancelGeneration rig)
  refine ⟨hkeeps.trans (noteGeneration_keepsAll rig _), hgen, ?_, ?_⟩
  · rw [Warming.cancelGenerationLocked, noteGeneration_generations, hindex]
    have hnow : (w.moveTo (w.sched.cancelGeneration rig)).sched.currentGeneration rig =
        bump64 (w.sched.generations rig) := by
      show (w.sched.cancelGeneration rig).generations rig = _
      rw [hgen, Function.update_self]
    rw [hnow]
  · intro other hother
    show (w.sched.cancelGeneration rig).inFlight other = _
    rw [BackgroundScheduler.cancelGeneration, purge_eq]
    have hnone : (purgedJobs (fun request => decide (request.rig = rig))
        { w.sched with
          generations := Function.update w.sched.generations rig
            (bump64 (w.sched.generations rig)) }).countP
          (fun entry => entry.2.request.rig = other) = 0 := by
      rw [List.countP_eq_zero]
      intro entry hentry
      have hrig : entry.2.request.rig = rig := by
        simpa using (List.mem_filter.mp hentry).2
      simpa [hrig] using Ne.symm hother
    exact (congrArg (w.sched.inFlight other - ·) hnone).trans (Nat.sub_zero _)

theorem resetRig_spec (rig : Rig) :
    KeepsAll w.index (w.resetRig rig).index ∧
    (w.resetRig rig).sched.generations = w.sched.generations ∧
    (w.resetRig rig).index.generations = w.index.generations := by
  obtain ⟨hkeeps, hindex⟩ :=
    moveTo_index { w with index := w.index.resetRig rig } (w.sched.resetRig rig)
  exact ⟨(resetRig_keepsAll rig).trans hkeeps, (sameFences_purge ..).generations, hindex⟩

/-- The commit of an activation, session after session: a rig with jobs in flight moves on by one
generation on both sides, and no other rig moves. -/
theorem foldl_retireInFlight (rigs : List Rig) (hnodup : rigs.Nodup)
    (htied : w.index.generations = w.sched.generations)
    (hroom : ∀ rig ∈ rigs, w.sched.inFlightCount rig > 0 →
      w.index.generations rig + 1 < UInt64.size) :
    KeepsAll w.index (rigs.foldl Warming.retireInFlight w).index ∧
    (rigs.foldl Warming.retireInFlight w).sched.generations =
      (rigs.foldl Warming.retireInFlight w).index.generations ∧
    ∀ rig, (rigs.foldl Warming.retireInFlight w).index.generations rig =
      if rig ∈ rigs ∧ w.sched.inFlightCount rig > 0 then w.index.generations rig + 1
      else w.index.generations rig := by
  induction rigs generalizing w with
  | nil => exact ⟨.refl _, htied.symm, fun rig => by simp⟩
  | cons head rest ih =>
      obtain ⟨hhead, hrest⟩ := List.nodup_cons.mp hnodup
      rw [List.foldl_cons]
      by_cases hflight : w.sched.inFlightCount head > 0
      · rw [Warming.retireInFlight, if_pos hflight]
        obtain ⟨hkeeps, hsched, hindex, hothers⟩ := cancelGenerationLocked_spec w head
        have hbump : bump64 (w.sched.generations head) = w.index.generations head + 1 := by
          rw [← htied]
          exact Nat.mod_eq_of_lt (hroom head List.mem_cons_self hflight)
        have hflights : ∀ rig ∈ rest, (w.cancelGenerationLocked head).sched.inFlightCount rig =
            w.sched.inFlightCount rig := by
          intro rig hrig
          exact hothers rig (ne_of_mem_of_not_mem hrig hhead)
        obtain ⟨hkeeps', htied', hgen⟩ := ih (w.cancelGenerationLocked head) hrest
          (by rw [hsched, hindex, htied]) (by
            intro rig hrig hpos
            rw [hindex, Function.update_of_ne (ne_of_mem_of_not_mem hrig hhead)]
            exact hroom rig (List.mem_cons_of_mem _ hrig) (hflights rig hrig ▸ hpos))
        refine ⟨hkeeps.trans hkeeps', htied', ?_⟩
        intro rig
        rw [hgen rig, hindex]
        by_cases hr : rig = head
        · subst hr
          simp [hhead, hflight, hbump]
        · rw [Function.update_of_ne hr]
          by_cases hm : rig ∈ rest
          · simp [hm, hflights rig hm]
          · simp [hm, hr]
      · rw [Warming.retireInFlight, if_neg hflight]
        obtain ⟨hkeeps, htied', hgen⟩ := ih w hrest htied
          fun rig hrig => hroom rig (List.mem_cons_of_mem _ hrig)
        refine ⟨hkeeps, htied', ?_⟩
        intro rig
        rw [hgen rig]
        by_cases hr : rig = head
        · subst hr
          simp [hhead, hflight]
        · simp [hr]

theorem foldl_resetRig (rigs : List Rig) :
    KeepsAll w.index (rigs.foldl Warming.resetRig w).index ∧
    (rigs.foldl Warming.resetRig w).sched.generations = w.sched.generations ∧
    (rigs.foldl Warming.resetRig w).index.generations = w.index.generations := by
  induction rigs generalizing w with
  | nil => exact ⟨.refl _, rfl, rfl⟩
  | cons rig rigs ih =>
      obtain ⟨hkeeps, hsched, hindex⟩ := resetRig_spec w rig
      obtain ⟨hkeeps', hsched', hindex'⟩ := ih (w.resetRig rig)
      exact ⟨hkeeps.trans hkeeps', hsched'.trans hsched, hindex'.trans hindex⟩

end Warming

/-! ## The ties -/

section Steps

variable [DecidableEq Rig] [FrameTime Time] {c c' : Context Rig Time Work}
  {event : ContextEvent Rig Time Work}

/-- Whenever the context has a scheduler, the index has the scheduler's generations. -/
def Mirrored (c : Context Rig Time Work) : Prop :=
  ∀ system, c.scheduler = some system →
    ∀ rig, c.index.generations rig = system.sched.currentGeneration rig

/-- Nothing is ahead of the index. -/
structure Tied (c : Context Rig Time Work) : Prop where
  mirrored : Mirrored c
  retired : ∀ system ∈ c.retired, ∀ rig, system.sched.generations rig ≤ c.index.generations rig
  recording : ∀ worker done, c.recording worker = some done →
    done.generation ≤ c.index.generations done.rig
  completed : ∀ place, (c.index.frames place).hasCompletion = true →
    (c.index.frames place).completedGeneration ≤ c.index.generations place.1

/-- A scheduler is only made while the index has not counted a generation yet. -/
def Rebuilt (c : Context Rig Time Work) (event : ContextEvent Rig Time Work) : Prop :=
  ∀ rigs, event = .activate rigs → c.scheduler = none → ∀ rig, c.index.generations rig = 0

/-- No generation of a cancelled rig is at its last value. -/
def Roomy (c : Context Rig Time Work) (event : ContextEvent Rig Time Work) : Prop :=
  ∀ rig, c.cancels event rig → c.index.generations rig + 1 < UInt64.size

/-- What one step does to the index's generations and completions, and to the schedulers'
generations. -/
structure Moves (c : Context Rig Time Work) (event : ContextEvent Rig Time Work)
    (c' : Context Rig Time Work) : Prop where
  cancelled : ∀ rig, c.cancels event rig →
    c'.index.generations rig = c.index.generations rig + 1
  stands : ∀ rig, ¬ c.cancels event rig → c'.index.generations rig = c.index.generations rig
  mirrored : Mirrored c'
  retired : ∀ system ∈ c'.retired,
    (∃ old ∈ c.retired, system.sched.generations = old.sched.generations) ∨
      ∃ old, c.scheduler = some old ∧ system.sched.generations = old.sched.generations
  recording : ∀ worker done, c'.recording worker = some done →
    c.recording worker = some done ∨ ∃ source system, c.source source = some system ∧
      done.generation = system.sched.generations done.rig
  frames : ∀ place, Keeps (c.index.frames place) (c'.index.frames place) ∨
    ∃ done, c.stamps event = some done ∧ place = (done.rig, done.time) ∧
      (c'.index.frames place).key = done.key ∧
      (c'.index.frames place).completedGeneration = done.generation

omit [DecidableEq Rig] [FrameTime Time] in
theorem stamps_of_cancels {rig : Rig} (h : c.cancels event rig) : c.stamps event = none := by
  cases event <;> first | rfl | cases h

theorem stepSystem_spec {system : System Rig Time Work} {event : Event Rig Time Work}
    {next : System Rig Time Work × WarmFrameIndex Rig Time}
    (h : c.stepSystem system event = some next) :
    next.1.sched.generations = system.sched.generations ∧ KeepsAll c.index next.2 ∧
      next.2.generations = c.index.generations := by
  unfold Context.stepSystem at h
  split_ifs at h with hmoves
  obtain ⟨after, hafter, rfl⟩ := Option.map_eq_some_iff.mp h
  exact ⟨(step_sameFences hafter (by simpa using hmoves)).generations,
    moveTo_index ⟨system.sched, c.index⟩ after.sched⟩

omit [DecidableEq Rig] [FrameTime Time] in
/-- A step that cancels nothing and leaves the generations, the schedulers and the records in
progress as they are. -/
theorem Moves.of_quiet (hmirrored : Mirrored c) (hcancels : ∀ rig, ¬ c.cancels event rig)
    (hgen : c'.index.generations = c.index.generations)
    (hscheduler : ∀ system', c'.scheduler = some system' → ∃ system, c.scheduler = some system ∧
      system'.sched.generations = system.sched.generations)
    (hretired : ∀ system' ∈ c'.retired, ∃ system ∈ c.retired,
      system'.sched.generations = system.sched.generations)
    (hrecording : ∀ worker done, c'.recording worker = some done →
      c.recording worker = some done)
    (hframes : ∀ place, Keeps (c.index.frames place) (c'.index.frames place) ∨
      ∃ done, c.stamps event = some done ∧ place = (done.rig, done.time) ∧
        (c'.index.frames place).key = done.key ∧
        (c'.index.frames place).completedGeneration = done.generation) :
    Moves c event c' where
  cancelled rig h := absurd h (hcancels rig)
  stands rig _ := congrFun hgen rig
  mirrored := by
    intro system' hsystem' rig
    obtain ⟨system, hsystem, hsame⟩ := hscheduler system' hsystem'
    rw [hgen, hmirrored system hsystem rig]
    exact (congrFun hsame rig).symm
  retired system' h := .inl (hretired system' h)
  recording worker done h := .inl (hrecording worker done h)
  frames := hframes

/-- The scheduler an activation commits with. -/
def committed (c : Context Rig Time Work) : System Rig Time Work := c.scheduler.getD {}

omit [FrameTime Time] in
theorem cancels_activate (c : Context Rig Time Work) (rigs : List Rig) (rig : Rig) :
    c.cancels (.activate rigs) rig ↔
      rig ∈ rigs.dedup ∧ (committed c).sched.inFlightCount rig > 0 := by
  rw [List.mem_dedup]
  refine and_congr_right fun _ => ?_
  cases hsched : c.scheduler with
  | none => simp [committed, hsched, BackgroundScheduler.inFlightCount]
  | some system => simp [committed, hsched]

theorem moves_activate (rigs : List Rig) (hmirrored : Mirrored c)
    (hbuilt : Rebuilt c (.activate rigs)) (hroom : Roomy c (.activate rigs)) :
    Moves c (.activate rigs) (c.activate rigs) := by
  have htied : c.index.generations = (committed c).sched.generations := by
    funext rig
    cases hsched : c.scheduler with
    | none => simpa [committed, hsched] using hbuilt rigs rfl hsched rig
    | some system =>
        simpa [committed, hsched, BackgroundScheduler.currentGeneration]
          using hmirrored system hsched rig
  obtain ⟨hkeeps, hsame, hgen⟩ := foldl_retireInFlight
    (⟨(committed c).sched, c.index⟩ : Warming Rig Time Work) rigs.dedup rigs.nodup_dedup htied
    fun rig hrig hpos => hroom rig ((cancels_activate c rigs rig).mpr ⟨hrig, hpos⟩)
  refine ⟨?_, ?_, ?_, fun system hs => .inl ⟨system, hs, rfl⟩, fun _ _ => .inl,
    fun place => .inl (hkeeps place)⟩
  · intro rig hcancels
    exact (hgen rig).trans (if_pos ((cancels_activate c rigs rig).mp hcancels))
  · intro rig hcancels
    exact (hgen rig).trans (if_neg fun h => hcancels ((cancels_activate c rigs rig).mpr h))
  · intro system hsystem rig
    cases hsystem
    exact (congrFun hsame rig).symm

theorem moves_deactivate (c : Context Rig Time Work) : Moves c .deactivate c.deactivate := by
  cases hsched : c.scheduler with
  | none =>
      have hreset : ∀ (rigs : List Rig) (x : WarmFrameIndex Rig Time),
          KeepsAll x (rigs.foldl WarmFrameIndex.resetRig x) ∧
            (rigs.foldl WarmFrameIndex.resetRig x).generations = x.generations := by
        intro rigs
        induction rigs with
        | nil => intro x; exact ⟨.refl _, rfl⟩
        | cons rig rigs ih =>
            intro x
            obtain ⟨hkeeps, hgen⟩ := ih (x.resetRig rig)
            exact ⟨(resetRig_keepsAll rig).trans hkeeps, hgen⟩
      obtain ⟨hkeeps, hgen⟩ := hreset c.sessions c.index
      have heq : c.deactivate = { c with sessions := [] }.setIndex
          (c.sessions.foldl WarmFrameIndex.resetRig c.index) := by
        rw [Context.deactivate, hsched]
      rw [heq]
      refine .of_quiet ?_ (fun _ => id) hgen (fun system hs => ⟨system, hs, rfl⟩)
        (fun system hs => ⟨system, hs, rfl⟩) (fun _ _ => id) fun place => .inl (hkeeps place)
      intro system hs
      cases hsched.symm.trans hs
  | some system =>
      obtain ⟨hkeeps, hgens, hgen⟩ := foldl_resetRig ⟨system.sched, c.index⟩ c.sessions
      have heq : c.deactivate =
          { c with
            scheduler := none
            retired := c.retired ++ [{ system with
              sched := (c.sessions.foldl Warming.resetRig ⟨system.sched, c.index⟩).sched }]
            sessions := [] }.setIndex
              (c.sessions.foldl Warming.resetRig ⟨system.sched, c.index⟩).index := by
        rw [Context.deactivate, hsched]
      rw [heq]
      refine ⟨fun _ => False.elim, fun rig _ => congrFun hgen rig, ?_, ?_, fun _ _ => .inl,
        fun place => .inl (hkeeps place)⟩
      · intro none hs
        cases hs
      · intro old hs
        rcases List.mem_append.mp hs with hs | hs
        · exact .inl ⟨old, hs, rfl⟩
        · rw [List.mem_singleton.mp hs]
          exact .inr ⟨system, hsched, hgens⟩

omit [DecidableEq Rig] [FrameTime Time] in
theorem Moves.unmoved (hmirrored : Mirrored c) (hcancels : ∀ rig, ¬ c.cancels event rig) :
    Moves c event c :=
  .of_quiet hmirrored hcancels rfl (fun system hs => ⟨system, hs, rfl⟩)
    (fun system hs => ⟨system, hs, rfl⟩) (fun _ _ => id) fun _ => .inl (.refl _)

theorem moves_index {moved : DeskEvent Rig Time} (h : c.step (.index moved) = some c')
    (hmirrored : Mirrored c) : Moves c (.index moved) c' := by
  simp only [Context.step] at h
  split_ifs at h with hpassive
  obtain ⟨desk, hdesk, rfl⟩ := Option.map_eq_some_iff.mp h
  obtain ⟨hkeeps, hgen⟩ := passive_step hpassive hdesk
  exact .of_quiet hmirrored (fun _ => id) hgen (fun system hs => ⟨system, hs, rfl⟩)
    (fun system hs => ⟨system, hs, rfl⟩) (fun _ _ => id) fun place => .inl (hkeeps place)

/-- With a scheduler, the rig's next generation is the scheduler's and the index's. -/
theorem moves_cancelGeneration {rig : Rig} (h : c.step (.cancelGeneration rig) = some c')
    (hmirrored : Mirrored c) (hroom : Roomy c (.cancelGeneration rig)) :
    Moves c (.cancelGeneration rig) c' := by
  cases h
  cases hsched : c.scheduler with
  | none =>
      rw [Context.withWarming, hsched]
      exact .unmoved hmirrored (by simp [Context.cancels, hsched])
  | some system =>
      rw [Context.withWarming, hsched]
      obtain ⟨hkeeps, hgens, hindex, -⟩ :=
        cancelGenerationLocked_spec ⟨system.sched, c.index⟩ rig
      have hnow : c.index.generations rig = system.sched.generations rig :=
        hmirrored system hsched rig
      have hbump : bump64 (system.sched.generations rig) = c.index.generations rig + 1 := by
        rw [← hnow]
        exact Nat.mod_eq_of_lt (hroom rig ⟨rfl, by simp [hsched]⟩)
      refine ⟨?_, ?_, ?_, fun system hs => .inl ⟨system, hs, rfl⟩, fun _ _ => .inl,
        fun place => .inl (hkeeps place)⟩
      · rintro at_ ⟨rfl, -⟩
        exact (congrFun hindex rig).trans ((Function.update_self ..).trans hbump)
      · intro at_ hne
        have hother : at_ ≠ rig := fun h => hne ⟨h.symm, by simp [hsched]⟩
        exact (congrFun hindex at_).trans (Function.update_of_ne hother ..)
      · intro after hafter at_
        cases hafter
        refine (congrFun hindex at_).trans (Eq.trans ?_ (congrFun hgens at_).symm)
        by_cases hother : at_ = rig
        · subst hother
          rw [Function.update_self, Function.update_self]
        · rw [Function.update_of_ne hother, Function.update_of_ne hother]
          exact hmirrored system hsched at_

theorem moves_cancelGenerationTimes {rig : Rig} {times : List (TimeCode Time)}
    (h : c.step (.cancelGenerationTimes rig times) = some c') (hmirrored : Mirrored c) :
    Moves c (.cancelGenerationTimes rig times) c' := by
  cases h
  cases hsched : c.scheduler with
  | none =>
      rw [Context.withWarming, hsched]
      exact .unmoved hmirrored fun _ => id
  | some system =>
      rw [Context.withWarming, hsched]
      obtain ⟨hkeeps, hindex⟩ := moveTo_index ⟨system.sched, c.index⟩
        (system.sched.cancelGenerationTimes rig times)
      refine .of_quiet hmirrored (fun _ => id) hindex ?_ (fun system hs => ⟨system, hs, rfl⟩)
        (fun _ _ => id) fun place => .inl (hkeeps place)
      intro after hafter
      cases hafter
      exact ⟨system, hsched, cancelGenerationTimes_generations ⟨system.sched, c.index⟩ rig times⟩

theorem moves_scheduler {moved : Event Rig Time Work} (h : c.step (.scheduler moved) = some c')
    (hmirrored : Mirrored c) : Moves c (.scheduler moved) c' := by
  obtain ⟨system, hsystem, hstep⟩ := Option.bind_eq_some_iff.mp h
  obtain ⟨next, hnext, rfl⟩ := Option.map_eq_some_iff.mp hstep
  obtain ⟨hgens, hkeeps, hgen⟩ := stepSystem_spec hnext
  refine .of_quiet hmirrored (fun _ => id) hgen ?_ (fun system hs => ⟨system, hs, rfl⟩)
    (fun _ _ => id) fun place => .inl (hkeeps place)
  intro after hafter
  cases hafter
  exact ⟨system, hsystem, hgens⟩

theorem moves_retired {which : Nat} {moved : Event Rig Time Work}
    (h : c.step (.retired which moved) = some c') (hmirrored : Mirrored c) :
    Moves c (.retired which moved) c' := by
  obtain ⟨system, hsystem, hstep⟩ := Option.bind_eq_some_iff.mp h
  obtain ⟨next, hnext, rfl⟩ := Option.map_eq_some_iff.mp hstep
  obtain ⟨hgens, hkeeps, hgen⟩ := stepSystem_spec hnext
  refine .of_quiet hmirrored (fun _ => id) hgen (fun system hs => ⟨system, hs, rfl⟩) ?_
    (fun _ _ => id) fun place => .inl (hkeeps place)
  intro after hafter
  rcases List.mem_or_eq_of_mem_set hafter with hold | rfl
  · exact ⟨after, hold, rfl⟩
  · exact ⟨system, List.mem_of_getElem? hsystem, hgens⟩

/-- A worker starts a record for a request that is current, or none. -/
theorem moves_insert {worker : Nat} {source : Option Nat} {request : WarmRequest Rig Time}
    {key : FrameCacheKey} (h : c.step (.insert worker source request key) = some c')
    (hmirrored : Mirrored c) : Moves c (.insert worker source request key) c' := by
  simp only [Context.step] at h
  split at h
  · rename_i system hsource hidle
    split_ifs at h with hcurrent
    · cases h
      refine ⟨fun _ => False.elim, fun _ _ => rfl, hmirrored,
        fun system hs => .inl ⟨system, hs, rfl⟩, ?_, fun place => .inl (.refl _)⟩
      intro at_ done hdone
      by_cases hat : at_ = worker
      · subst hat
        simp only [Function.update_self, Option.some.injEq] at hdone
        subst hdone
        exact .inr ⟨source, system, hsource, (isWarmRequestCurrent_iff.mp hcurrent).1.symm⟩
      · simp only [Function.update_of_ne hat] at hdone
        exact .inl hdone
    · cases h
      exact .unmoved hmirrored fun _ => id
  · cases h

theorem moves_record {worker : Nat} (h : c.step (.record worker) = some c')
    (hmirrored : Mirrored c) : Moves c (.record worker) c' := by
  simp only [Context.step] at h
  split at h
  · rename_i done hdone
    cases h
    refine .of_quiet hmirrored (fun _ => id) rfl (fun system hs => ⟨system, hs, rfl⟩)
      (fun system hs => ⟨system, hs, rfl⟩) ?_ ?_
    · intro at_ other hother
      by_cases hat : at_ = worker
      · subst hat
        simp [Context.setIndex] at hother
      · simpa [Context.setIndex, Function.update_of_ne hat] using hother
    · intro place
      exact (noteCompleted_frames done.rig done.time done.key done.generation place).imp_right
        fun hp => ⟨done, hdone, hp⟩
  · cases h

/-- **What a step does.** -/
theorem step_moves (h : c.step event = some c') (hmirrored : Mirrored c) (hbuilt : Rebuilt c event)
    (hroom : Roomy c event) : Moves c event c' := by
  cases event with
  | index event => exact moves_index h hmirrored
  | liveMemo rig time key =>
      cases h
      refine .of_quiet hmirrored (fun _ => id) rfl (fun system hs => ⟨system, hs, rfl⟩)
        (fun system hs => ⟨system, hs, rfl⟩) (fun _ _ => id) ?_
      intro place
      exact (noteCompleted_frames rig time key _ place).imp_right fun hp => ⟨_, rfl, hp⟩
  | activate rigs =>
      cases h
      exact moves_activate rigs hmirrored hbuilt hroom
  | deactivate =>
      cases h
      exact moves_deactivate c
  | join which =>
      cases h
      exact .of_quiet hmirrored (fun _ => id) rfl (fun system hs => ⟨system, hs, rfl⟩)
        (fun system hs => ⟨system, List.mem_of_mem_eraseIdx hs, rfl⟩) (fun _ _ => id)
        fun place => .inl (.refl _)
  | cancelGeneration rig => exact moves_cancelGeneration h hmirrored hroom
  | cancelGenerationTimes rig times => exact moves_cancelGenerationTimes h hmirrored
  | scheduler event => exact moves_scheduler h hmirrored
  | retired which event => exact moves_retired h hmirrored
  | insert worker source request key => exact moves_insert h hmirrored
  | record worker => exact moves_record h hmirrored

/-! ## What a run keeps -/

omit [DecidableEq Rig] [FrameTime Time] in
theorem Moves.le (h : Moves c event c') (rig : Rig) :
    c.index.generations rig ≤ c'.index.generations rig := by
  by_cases hcancels : c.cancels event rig
  · rw [h.cancelled rig hcancels]
    exact Nat.le_succ _
  · exact (h.stands rig hcancels).ge

omit [DecidableEq Rig] [FrameTime Time] in
theorem Tied.source_le (h : Tied c) {source : Option Nat} {system : System Rig Time Work}
    (hsource : c.source source = some system) (rig : Rig) :
    system.sched.generations rig ≤ c.index.generations rig := by
  cases source with
  | none => exact (h.mirrored system hsource rig).ge
  | some which => exact h.retired system (List.mem_of_getElem? hsource) rig

omit [DecidableEq Rig] [FrameTime Time] in
theorem Tied.step (h : Tied c) (hmoves : Moves c event c') : Tied c' where
  mirrored := hmoves.mirrored
  retired := by
    intro system hsystem rig
    rcases hmoves.retired system hsystem with ⟨old, hold, hsame⟩ | ⟨old, hold, hsame⟩
    · rw [hsame]
      exact (h.retired old hold rig).trans (hmoves.le rig)
    · rw [hsame]
      exact (h.mirrored old hold rig).ge.trans (hmoves.le rig)
  recording := by
    intro worker done hdone
    rcases hmoves.recording worker done hdone with hold | ⟨source, system, hsource, hgen⟩
    · exact (h.recording worker done hold).trans (hmoves.le done.rig)
    · rw [hgen]
      exact (h.source_le hsource done.rig).trans (hmoves.le done.rig)
  completed := by
    intro place hplace
    rcases hmoves.frames place with hkeeps | ⟨done, hstamps, rfl, -, hgen⟩
    · rw [hkeeps.generation hplace]
      exact (h.completed place (hkeeps.held hplace)).trans (hmoves.le place.1)
    · rw [hgen]
      refine Nat.le_trans ?_ (hmoves.le done.rig)
      cases event <;> simp only [Context.stamps] at hstamps <;> try cases hstamps
      · exact Nat.le_refl _
      · exact h.recording _ done hstamps

omit [DecidableEq Rig] [FrameTime Time] in
theorem Tied.initial : Tied ({} : Context Rig Time Work) where
  mirrored _ h := nomatch h
  retired _ h := nomatch h
  recording _ _ h := nomatch h
  completed _ h := nomatch h

/-- The condition on the steps of a history. -/
def Sane (c : Context Rig Time Work) (event : ContextEvent Rig Time Work) : Prop :=
  Rebuilt c event ∧ Roomy c event

/-- Some step of the run records the completion. -/
def RecordedIn (c : Context Rig Time Work) (events : List (ContextEvent Rig Time Work)) (rig : Rig)
    (time : Time) (key : FrameCacheKey) : Prop :=
  ∃ pre event post at_ generation, events = pre ++ event :: post ∧
    Lib.run Context.step c pre = some at_ ∧ at_.stamps event = some ⟨rig, time, key, generation⟩

theorem run_tied {events : List (ContextEvent Rig Time Work)} (h : Tied c)
    (hsane : Lib.Meets Context.step Sane c events)
    (hrun : Lib.run Context.step c events = some c') :
    Tied c' ∧ ∀ rig, c.index.generations rig ≤ c'.index.generations rig :=
  Lib.run_invariant
    (P := fun d => Tied d ∧ ∀ rig, c.index.generations rig ≤ d.index.generations rig)
    (fun _ _ _ hd hC hstep =>
      have hmoves := step_moves hstep hd.1.mirrored hC.1 hC.2
      ⟨hd.1.step hmoves, fun rig => (hd.2 rig).trans (hmoves.le rig)⟩)
    ⟨h, fun _ => Nat.le_refl _⟩ hsane hrun

theorem run_completion {events : List (ContextEvent Rig Time Work)} (h : Tied c)
    (hsane : Lib.Meets Context.step Sane c events)
    (hrun : Lib.run Context.step c events = some c') (rig : Rig) (time : Time)
    (hheld : (c'.index.frames (rig, time)).hasCompletion = true) :
    Keeps (c.index.frames (rig, time)) (c'.index.frames (rig, time)) ∨
      RecordedIn c events rig time (c'.index.frames (rig, time)).key := by
  induction events generalizing c with
  | nil =>
      cases hrun
      exact .inl (.refl _)
  | cons event events ih =>
      obtain ⟨next, hstep, hrest⟩ := Lib.run_cons_eq_some.mp hrun
      have hmoves := step_moves hstep h.mirrored hsane.1.1 hsane.1.2
      rcases ih (h.step hmoves) (hsane.2 next hstep) hrest with hkept | hrecorded
      · rcases hmoves.frames (rig, time) with hkeeps | ⟨done, hstamps, hplace, hkey, -⟩
        · exact .inl (hkeeps.trans hkept)
        · obtain ⟨rfl, rfl⟩ := Prod.mk.inj hplace
          refine .inr ⟨[], event, events, c, done.generation, rfl, rfl, ?_⟩
          rw [hkept.key hheld, hkey]
          exact hstamps
      · obtain ⟨pre, again, post, at_, generation, rfl, hpre, hstamps⟩ := hrecorded
        exact .inr ⟨event :: pre, again, post, at_, generation, rfl,
          Lib.run_cons_eq_some.mpr ⟨next, hstep, hpre⟩, hstamps⟩

/-! ## Every history -/

/-- A completion recorded before a `CancelGeneration` of its rig is answered by no lookup any more:
what a lookup answers was recorded after it. -/
def NeverReturns (events : List (ContextEvent Rig Time Work)) (c : Context Rig Time Work) : Prop :=
  ∀ pre event post before after rig, events = pre ++ event :: post →
    Context.history pre = some before → before.step event = some after →
    before.cancels event rig → ∀ time epochDigest key,
      c.lookup rig time epochDigest = some key → RecordedIn after post rig time key

theorem neverReturns {events : List (ContextEvent Rig Time Work)}
    (h : Context.history events = some c) (hsane : Lib.Meets Context.step Sane {} events) :
    NeverReturns events c := by
  rintro pre event post before after rig rfl hpre hstep hcancels time epochDigest key hlookup
  obtain ⟨start, hstart, hrest⟩ := Lib.run_append_eq_some.mp h
  cases hpre.symm.trans hstart
  obtain ⟨next, hnext, hpost⟩ := Lib.run_cons_eq_some.mp hrest
  cases hstep.symm.trans hnext
  obtain ⟨hsanePre, hsaneRest⟩ := hsane.append
  obtain ⟨hsaneStep, hsanePost⟩ := hsaneRest before hpre
  obtain ⟨htied, -⟩ := run_tied .initial hsanePre hpre
  have hmoves := step_moves hstep htied.mirrored hsaneStep.1 hsaneStep.2
  obtain ⟨-, hgrown⟩ := run_tied (htied.step hmoves) (hsanePost after hstep) hpost
  -- what the lookup says of the record
  simp only [Context.lookup, WarmFrameIndex.findCachedKey, Option.ite_none_right_eq_some,
    Frame.currentCompletion, Bool.and_eq_true, beq_iff_eq, Option.some.injEq] at hlookup
  obtain ⟨⟨⟨⟨hheld, -⟩, hgen⟩, -⟩, rfl⟩ := hlookup
  rcases run_completion (htied.step hmoves) (hsanePost after hstep) hpost rig time hheld with
    hkept | hrecorded
  · -- a record that stood since before the cancel is stamped below the index's generation
    exfalso
    have hkeeps : Keeps (before.index.frames (rig, time)) (after.index.frames (rig, time)) := by
      rcases hmoves.frames (rig, time) with hkeeps | ⟨done, hstamps, -⟩
      · exact hkeeps
      · cases (stamps_of_cancels hcancels).symm.trans hstamps
    have hold := htied.completed (rig, time) ((hkeeps.trans hkept).held hheld)
    have hsame := (hkeeps.trans hkept).generation hheld
    have hnext := hmoves.cancelled rig hcancels
    have hle := hgrown rig
    simp only at hold
    omega
  · exact hrecorded

theorem activate_fresh (rigs : List Rig) (hnone : c.scheduler = none) :
    ∃ system, (c.activate rigs).scheduler = some system ∧
      (∀ rig, system.sched.currentGeneration rig = 0) ∧
      (c.activate rigs).index.generations = c.index.generations := by
  have hidle : ∀ (rigs : List Rig),
      rigs.foldl Warming.retireInFlight (⟨{}, c.index⟩ : Warming Rig Time Work) = ⟨{}, c.index⟩ := by
    intro rigs
    induction rigs with
    | nil => rfl
    | cons rig rigs ih => exact ih
  have heq : c.activate rigs = { c with
      sessions := rigs.dedup
      scheduler := some {} }.setIndex c.index := by
    have hw := hidle rigs.dedup
    simp only [Context.activate, hnone, Option.getD_none, Context.withWarming]
    rw [show ({ c with sessions := rigs.dedup, scheduler := some {} } :
      Context Rig Time Work).index = c.index from rfl, hw]
  exact ⟨{}, by rw [heq]; rfl, fun _ => rfl, by rw [heq]; rfl⟩

/-- **Retired completions never come back, and the two generations agree**: in every history in
which no generation wraps, this holds of every state reached if and only if every scheduler was
made while the index had not counted a generation yet. -/
theorem retiredCompletions_iff {events : List (ContextEvent Rig Time Work)}
    (h : Context.history events = some c) (hroomy : Lib.Meets Context.step Roomy {} events) :
    Lib.Meets Context.step Rebuilt {} events ↔
      ∀ pre post at_, events = pre ++ post → Context.history pre = some at_ →
        Mirrored at_ ∧ NeverReturns pre at_ := by
  constructor
  · rintro hbuilt pre post at_ rfl hpre
    have hsane := (hbuilt.and hroomy).append.1
    exact ⟨(run_tied .initial hsane hpre).1.mirrored, neverReturns hpre hsane⟩
  · intro hall
    rw [Lib.meets_iff_prefix]
    rintro pre event post before rfl hpre rigs rfl hnone rig
    have hafter : Context.history (pre ++ [.activate rigs]) = some (before.activate rigs) :=
      Lib.run_append_eq_some.mpr ⟨before, hpre, rfl⟩
    obtain ⟨hmirrored, -⟩ := hall (pre ++ [.activate rigs]) post _ (by simp) hafter
    obtain ⟨system, hsystem, hzero, hgen⟩ := activate_fresh rigs hnone
    rw [← hgen, hmirrored system hsystem rig, hzero rig]

end Steps

/-- A rig is activated, a memo is taken, and the rig's generation is cancelled: the lookup is empty
from there on. -/
theorem retiredCompletions_cancelled :
    ∃ c : Context Nat Int Unit,
      Context.history [.activate [0], .liveMemo 0 5 ⟨7, 1⟩, .cancelGeneration 0] = some c ∧
      Mirrored c ∧ c.lookup 0 5 7 = none := by
  refine ⟨_, rfl, ?_, rfl⟩
  refine ((@retiredCompletions_iff Nat Int Unit _ _ _
    [.activate [0], .liveMemo 0 5 ⟨7, 1⟩, .cancelGeneration 0] rfl ?_).mp ?_
    [.activate [0], .liveMemo 0 5 ⟨7, 1⟩, .cancelGeneration 0] [] _ rfl rfl).1
  · refine ⟨fun rig ⟨_, _, hnone, _⟩ => (nomatch hnone), ?_⟩
    intro made hmade
    cases hmade
    refine ⟨fun _ => False.elim, ?_⟩
    intro taken htaken
    cases htaken
    refine ⟨?_, fun _ _ => trivial⟩
    rintro rig ⟨rfl, -⟩
    decide
  · refine ⟨fun _ _ _ _ => rfl, fun _ _ => ⟨?_, fun _ _ => ⟨?_, fun _ _ => trivial⟩⟩⟩
    · intro rigs hevent
      cases hevent
    · intro rigs hevent
      cases hevent

/-- A rig is deactivated and activated again after an edit: the new scheduler is one generation
behind the index.  A memo of the new activation is stamped with the index's generation 1, and the
next edit, which retires it, makes 1 the scheduler's generation and the index's again. -/
theorem reactivation_returns :
    (∃ c : Context Nat Int Unit,
      Context.history [.activate [0], .cancelGeneration 0, .deactivate, .activate [0]] = some c ∧
      ¬ Mirrored c) ∧
    ∃ c : Context Nat Int Unit,
      Context.history [.activate [0], .cancelGeneration 0, .deactivate, .activate [0],
        .liveMemo 0 5 ⟨7, 1⟩, .cancelGeneration 0] = some c ∧
      c.lookup 0 5 7 = some ⟨7, 1⟩ ∧
      ¬ NeverReturns [.activate [0], .cancelGeneration 0, .deactivate, .activate [0],
        .liveMemo 0 5 ⟨7, 1⟩, .cancelGeneration 0] c := by
  refine ⟨⟨_, rfl, fun hmirrored => ?_⟩, _, rfl, rfl, fun hnever => ?_⟩
  · exact absurd (hmirrored _ rfl 0) (by decide)
  · obtain ⟨pre, event, post, -, -, hnil, -⟩ := hnever
      [.activate [0], .cancelGeneration 0, .deactivate, .activate [0], .liveMemo 0 5 ⟨7, 1⟩]
      (.cancelGeneration 0) [] _ _ 0 rfl rfl rfl ⟨rfl, rfl⟩ 5 7 ⟨7, 1⟩ rfl
    simp at hnil

end RigExec.Registry
