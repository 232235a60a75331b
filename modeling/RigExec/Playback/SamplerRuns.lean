/-
# `RigExec.Playback.SamplerRuns` — what the inputs hold along a run

A session is a stage, a reader and a sampler bound to them, with what has happened since the
last sampling `Apply`:

    edited       the stage was edited (or, right after `Bind`, does not hold the defaults)
    announced    every edit was followed by `NoteStageChanged` or `Invalidate`
    failed       an `Apply` failed
    crossed      one failed at a time of the other Default-ness, with no refresh pending

A failed `Apply` has written some inputs but leaves the remembered time and the stale flag as
they were.  So two calls after it go wrong: one at the remembered time, which returns at
once, and, after a crossed failure, one that skips the static inputs the failure wrote.  In
a run without either (`Undisturbed`) every bound input holds the stage's value
(`apply_holds`).
-/
import RigExec.Lib.Machine
import RigExec.Playback.Sampling

namespace RigExec.Playback

variable {T : Type} [DecidableEq T]

/-! ## What an `Apply` does -/

section

variable {sampler : Sampler T} {stage : Stage T} {time : SampleTime T} {reader : Reader T}

theorem apply_of_atRest (h : sampler.atRest time = true) :
    sampler.apply stage time reader = ⟨reader, sampler, none, false⟩ := by
  rw [Sampler.apply, if_pos h]

/-- Past the early return, the reader is what the pass leaves, and the sampler remembers the
time and drops its stale flag only if nothing was refused. -/
theorem apply_of_not_atRest (stage : Stage T) (reader : Reader T) (h : sampler.atRest time = false)
    :
    ∃ reads error touched,
      (sampleBounds stage time (sampler.skips time) (sampler.verdicts stage time) reader 0).2.2 =
        error ∧
      sampler.apply stage time reader =
        ⟨{ (sampleBounds stage time (sampler.skips time) (sampler.verdicts stage time) reader
            0).1 with animatedTouched := touched },
          { sampler with
            animated := sampler.verdicts stage time, lastReads := reads
            last := if error = none then time else sampler.last
            sampled := if error = none then true else sampler.sampled
            staticStale := if error = none then false else sampler.staticStale },
          error, error.isNone⟩ := by
  unfold Sampler.apply
  rw [if_neg (by rw [h]; exact Bool.noConfusion)]
  rcases sampleBounds stage time (sampler.skips time) (sampler.verdicts stage time) reader 0 with
    ⟨after, reads, _ | error⟩
  · exact ⟨reads, none, true, rfl, rfl⟩
  · exact ⟨reads, some error, after.animatedTouched, rfl, rfl⟩

omit [DecidableEq T] in
theorem verdicts_of {file : File T} (stage : Stage T) (time : SampleTime T)
    (hof : ∀ b ∈ sampler.animated, b.Of file) :
    ∀ b ∈ sampler.verdicts stage time, b.Of file := by
  intro b hb
  unfold Sampler.verdicts at hb
  split at hb
  · obtain ⟨b', hb', rfl⟩ := List.mem_map.mp hb
    exact (Bound.of_decideStatic stage).mpr (hof b' hb')
  · exact hof b hb

omit [DecidableEq T] in
theorem verdicts_of_not_refreshes (h : sampler.refreshes time = false) :
    sampler.verdicts stage time = sampler.animated := by
  rw [Sampler.verdicts, if_neg (by rw [h]; exact Bool.noConfusion)]

omit [DecidableEq T] in
/-- No refresh: nothing is stale, and the time has the Default-ness of the last one. -/
theorem refreshes_eq_false :
    sampler.refreshes time = false ↔
      sampler.staticStale = false ∧ time.isDefault = sampler.last.isDefault := by
  rw [Sampler.refreshes, Bool.or_eq_false_iff, bne_eq_false_iff_eq]

theorem atRest_iff :
    sampler.atRest time = true ↔ sampler.sampled = true ∧ time = sampler.last := by
  rw [Sampler.atRest, Bool.and_eq_true, decide_eq_true_eq]

omit [DecidableEq T] in
theorem valueAt_static {bound : Bound} (h : staticInput stage bound.animated bound.name = true)
    {t t' : SampleTime T} (ht : t.isDefault = t'.isDefault) :
    stage.valueAt bound.name bound.type t = stage.valueAt bound.name bound.type t' := by
  cases t with
  | default =>
      cases t' with
      | default => rfl
      | numeric _ => cases ht
  | numeric t =>
      cases t' with
      | default => cases ht
      | numeric t' =>
          unfold staticInput at h
          unfold Stage.valueAt typedGet
          cases hattr : stage bound.name with
          | none => rfl
          | some attr =>
              rw [hattr, Bool.and_eq_true] at h
              have hvary : attr.mightVary = false := by simpa using h.2
              rw [Option.bind_some, Option.bind_some, attr.steady hvary t t']

end

/-! ## Sessions -/

/-- A sampler at work, with what has happened since it last sampled. -/
structure Session (T : Type) where
  stage : Stage T
  reader : Reader T
  sampler : Sampler T
  edited : Bool
  announced : Bool
  failed : Bool
  crossed : Bool

/-- What can happen to a sampler after `Bind`. -/
inductive Event (T : Type) where
  | apply (time : SampleTime T)
  | invalidate
  | noteStageChanged
  | setStaticInputSkip (skip : Bool)
  | edit (stage : Stage T)

/-- The call of `Apply` that the event makes. -/
def Session.outcome (s : Session T) (time : SampleTime T) : Outcome T :=
  s.sampler.apply s.stage time s.reader

def Session.apply (s : Session T) (time : SampleTime T) : Session T :=
  let out := s.outcome time
  { s with
    reader := out.reader
    sampler := out.sampler
    edited := s.edited && !out.sampled
    failed := !out.sampled && (s.failed || out.error.isSome)
    crossed := !out.sampled && (s.crossed || (out.error.isSome && !s.sampler.staticStale &&
      time.isDefault != s.sampler.last.isDefault)) }

/-- One event; an `Apply` waits until the edits are announced. -/
def Session.step (s : Session T) : Event T → Option (Session T)
  | .apply time => if s.announced = true then some (s.apply time) else none
  | .invalidate => some { s with sampler := s.sampler.invalidate, announced := true }
  | .noteStageChanged => some { s with sampler := s.sampler.noteStageChanged, announced := true }
  | .setStaticInputSkip skip => some { s with sampler := s.sampler.setStaticInputSkip skip }
  | .edit stage => some { s with stage := stage, edited := true, announced := false }

/-- The session right after `Bind`. -/
def Session.start (stage : Stage T) (reader : Reader T) (sampler : Sampler T) (edited : Bool) :
    Session T :=
  ⟨stage, reader, sampler.bind stage reader.file, edited, true, false, false⟩

/-- Neither of the two calls that a failed `Apply` misleads. -/
def Undisturbed (s : Session T) : Event T → Prop
  | .apply time => (s.failed = true → s.sampler.atRest time = false) ∧
      (s.crossed = true → s.sampler.skips time = false)
  | _ => True

/-! ## The invariant -/

/-- What holds along an undisturbed run. -/
structure Session.Faithful (s : Session T) : Prop where
  bound : ∀ b ∈ s.sampler.animated, b.Of s.reader.file
  /-- Nothing happened since the last sampling: its values stand. -/
  fresh : s.edited = false → s.failed = false →
    ∀ b ∈ s.sampler.animated, s.reader.Holds s.stage s.sampler.last b
  pending : s.sampler.sampled = false → s.sampler.staticStale = true
  stale : s.edited = true → s.announced = true → s.sampler.staticStale = true
  /-- With no refresh pending, the verdicts are those of the stage. -/
  verdict : s.sampler.staticStale = false → s.announced = true →
    ∀ b ∈ s.sampler.animated, b.isStatic = staticInput s.stage b.animated b.name
  /-- Nor has a failure written a static input with the other Default-ness's value. -/
  settled : s.sampler.staticStale = false → s.announced = true → s.crossed = false →
    ∀ b ∈ s.sampler.animated, b.isStatic = true → s.reader.Holds s.stage s.sampler.last b

section

variable {s : Session T} {time : SampleTime T}

theorem apply_eq_self (h : s.sampler.atRest time = true) : s.apply time = s := by
  have hout : s.outcome time = ⟨s.reader, s.sampler, none, false⟩ := apply_of_atRest h
  unfold Session.apply
  rw [hout]
  simp

omit [DecidableEq T] in
/-- A static input that a pass goes over keeps its value: it is skipped, or read again at a
time of the same Default-ness. -/
theorem Session.Faithful.static_kept (skip : Bool) (h : s.Faithful)
    (hannounced : s.announced = true)
    (hcrossed : s.crossed = false) (hrefresh : s.sampler.refreshes time = false)
    {b : Bound} (hb : b ∈ s.sampler.animated) (hstatic : b.isStatic = true) :
    (sampleBounds s.stage time skip s.sampler.animated s.reader 0).1.Holds s.stage time b := by
  obtain ⟨hstale, htime⟩ := refreshes_eq_false.mp hrefresh
  have hverdict := h.verdict hstale hannounced b hb
  rw [hstatic] at hverdict
  rcases sampleBounds_held s.stage time skip 0 h.bound (h.bound b hb) with hkept | hholds
  · have hlast := h.settled hstale hannounced hcrossed b hb hstatic
    rw [Reader.Holds, hkept, hlast]
    exact valueAt_static hverdict.symm htime.symm
  · exact hholds

/-- **An `Apply` that samples leaves the stage's values in every bound input.** -/
theorem Session.Faithful.samples (h : s.Faithful) (hannounced : s.announced = true)
    (hundisturbed : Undisturbed s (.apply time))
    (hok : (sampleBounds s.stage time (s.sampler.skips time) (s.sampler.verdicts s.stage time)
      s.reader 0).2.2 = none) :
    ∀ b ∈ s.sampler.verdicts s.stage time, (sampleBounds s.stage time (s.sampler.skips time)
      (s.sampler.verdicts s.stage time) s.reader 0).1.Holds s.stage time b := by
  intro b hb
  cases hread : s.sampler.skips time && b.isStatic with
  | false =>
      exact sampleBounds_read s.stage time (s.sampler.skips time) 0
        (verdicts_of s.stage time h.bound) hok hb hread
  | true =>
      obtain ⟨hskips, hstatic⟩ := Bool.and_eq_true_iff.mp hread
      have hrefresh : s.sampler.refreshes time = false := by
        rw [Sampler.skips, Bool.and_eq_true] at hskips
        simpa using hskips.2
      have hcrossed : s.crossed = false := by
        cases hcross : s.crossed with
        | false => rfl
        | true => exact absurd hskips (by rw [hundisturbed.2 hcross]; exact Bool.noConfusion)
      rw [verdicts_of_not_refreshes hrefresh] at hb ⊢
      exact h.static_kept (s.sampler.skips time) hannounced hcrossed hrefresh hb hstatic

omit [DecidableEq T] in
/-- The inputs an `Apply` goes over carry the verdicts of the stage. -/
theorem Session.Faithful.verdict_verdicts (time : SampleTime T) (h : s.Faithful)
    (hannounced : s.announced = true) :
    ∀ b ∈ s.sampler.verdicts s.stage time,
      b.isStatic = staticInput s.stage b.animated b.name := by
  intro b hb
  cases hrefresh : s.sampler.refreshes time with
  | false =>
      rw [verdicts_of_not_refreshes hrefresh] at hb
      exact h.verdict (refreshes_eq_false.mp hrefresh).1 hannounced b hb
  | true =>
      rw [Sampler.verdicts, if_pos hrefresh] at hb
      obtain ⟨b', -, rfl⟩ := List.mem_map.mp hb
      rfl

theorem Session.Faithful.apply (h : s.Faithful) (hannounced : s.announced = true)
    (hundisturbed : Undisturbed s (.apply time)) : (s.apply time).Faithful := by
  cases hrest : s.sampler.atRest time with
  | true =>
      rw [apply_eq_self hrest]
      exact h
  | false =>
      obtain ⟨reads, error, touched, herror, hout⟩ :=
        apply_of_not_atRest s.stage s.reader hrest
      have hof := verdicts_of s.stage time h.bound
      have hfile := sampleBounds_file s.stage time (s.sampler.skips time) 0 hof
      have hverdict := h.verdict_verdicts time hannounced
      have hbound : ∀ b ∈ s.sampler.verdicts s.stage time, b.Of (sampleBounds s.stage time
          (s.sampler.skips time) (s.sampler.verdicts s.stage time) s.reader 0).1.file :=
        hfile ▸ hof
      unfold Session.apply Session.outcome
      rw [hout]
      cases error with
      | none =>
          have hall := h.samples hannounced hundisturbed herror
          exact {
            bound := hbound
            fresh := fun _ _ => hall
            pending := fun hsampled => nomatch hsampled
            stale := fun hedited => by simp at hedited
            verdict := fun _ _ => hverdict
            settled := fun _ _ _ b hb _ => hall b hb }
      | some error =>
          exact {
            bound := hbound
            fresh := fun _ hfailed => by simp at hfailed
            pending := h.pending
            stale := fun hedited => h.stale (by simpa using hedited)
            verdict := fun _ _ => hverdict
            settled := by
              intro hstale _ hcrossed b hb hstatic
              replace hstale : s.sampler.staticStale = false := hstale
              simp only [Option.isNone_some, Bool.not_false, Bool.true_and, Option.isSome_some,
                hstale, Bool.or_eq_false_iff, bne_eq_false_iff_eq] at hcrossed
              have hrefresh := refreshes_eq_false.mpr ⟨hstale, hcrossed.2⟩
              replace hb : b ∈ s.sampler.animated := by
                rw [← verdicts_of_not_refreshes hrefresh]
                exact hb
              have hkept := h.static_kept (s.sampler.skips time) hannounced hcrossed.1 hrefresh hb hstatic
              have hverdict' := h.verdict hstale hannounced b hb
              rw [hstatic] at hverdict'
              refine Eq.trans ?_ (valueAt_static hverdict'.symm hcrossed.2)
              rw [verdicts_of_not_refreshes hrefresh]
              exact hkept }

/-- **Every undisturbed event keeps the session faithful.** -/
theorem Session.Faithful.step (h : s.Faithful) {e : Event T} {s' : Session T}
    (hundisturbed : Undisturbed s e) (hstep : s.step e = some s') : s'.Faithful := by
  cases e with
  | apply time =>
      unfold Session.step at hstep
      dsimp only at hstep
      split at hstep
      · rename_i hannounced
        cases hstep
        exact h.apply hannounced hundisturbed
      · cases hstep
  | invalidate | noteStageChanged =>
      cases hstep
      exact {
        bound := h.bound
        fresh := h.fresh
        pending := fun _ => rfl
        stale := fun _ _ => rfl
        verdict := fun hstale => nomatch hstale
        settled := fun hstale => nomatch hstale }
  | setStaticInputSkip skip =>
      cases hstep
      exact ⟨h.bound, h.fresh, h.pending, h.stale, h.verdict, h.settled⟩
  | edit stage =>
      cases hstep
      exact {
        bound := h.bound
        fresh := fun hedited => nomatch hedited
        pending := h.pending
        stale := fun _ hannounced => nomatch hannounced
        verdict := fun _ hannounced => nomatch hannounced
        settled := fun _ hannounced => nomatch hannounced }

end

omit [DecidableEq T] in
/-- The session right after `Bind` is faithful. -/
theorem Session.start_faithful {stage : Stage T} {reader : Reader T} {sampler : Sampler T}
    {edited : Bool} (hdefaults : edited = false →
      ∀ b ∈ (sampler.bind stage reader.file).animated, reader.Holds stage reader.file.bakeTime b) :
    (Session.start stage reader sampler edited).Faithful where
  bound := bind_of sampler stage reader.file
  fresh := fun hedited _ => hdefaults hedited
  pending := fun _ => rfl
  stale := fun _ _ => rfl
  verdict := fun hstale => nomatch hstale
  settled := fun hstale => nomatch hstale

/-- **The input sampler holds the stage's values.**  After any undisturbed run from `Bind`,
every bound input, Animated or static, holds the stage's value at the time of an `Apply`
that returns true and either samples or comes when nothing was edited since the last
sampling. -/
theorem apply_holds {stage : Stage T} {reader : Reader T} {sampler : Sampler T} {edited : Bool}
    {events : List (Event T)} {s : Session T} {time : SampleTime T}
    (hdefaults : edited = false →
      ∀ b ∈ (sampler.bind stage reader.file).animated, reader.Holds stage reader.file.bakeTime b)
    (hrun : Lib.run Session.step (Session.start stage reader sampler edited) events = some s)
    (hannounced : s.announced = true)
    (hundisturbed : Lib.Meets Session.step Undisturbed (Session.start stage reader sampler edited)
      (events ++ [.apply time]))
    (hok : (s.outcome time).error = none)
    (hcase : (s.outcome time).sampled = true ∨ s.edited = false) :
    ∀ b ∈ (s.apply time).sampler.animated, (s.apply time).reader.Holds s.stage time b := by
  obtain ⟨hmeets, hlast⟩ := (Lib.meets_append_singleton hrun).mp hundisturbed
  have hfaithful : s.Faithful := Lib.run_invariant
    (fun _ _ _ h hmet hstep => Session.Faithful.step h hmet hstep)
    (Session.start_faithful hdefaults) hmeets hrun
  cases hrest : s.sampler.atRest time with
  | true =>
      have hedited : s.edited = false := by
        refine hcase.resolve_left fun hsampled => ?_
        rw [Session.outcome, apply_of_atRest hrest] at hsampled
        cases hsampled
      have hfailed : s.failed = false := by
        cases hfail : s.failed with
        | false => rfl
        | true => exact absurd hrest (by rw [hlast.1 hfail]; exact Bool.noConfusion)
      rw [apply_eq_self hrest, (atRest_iff.mp hrest).2]
      exact hfaithful.fresh hedited hfailed
  | false =>
      obtain ⟨reads, error, touched, herror, hout⟩ :=
        apply_of_not_atRest s.stage s.reader hrest
      rw [Session.outcome, hout] at hok
      subst hok
      unfold Session.apply Session.outcome
      rw [hout]
      exact hfaithful.samples hannounced hlast herror

/-! ## A topology that changes

A ramp and an array of face counts, whose count at time 2 is not the file's: the `Apply`
there sets the ramp and is refused at the array. -/

def rampSlot : Slot where
  name := "/Rig.ramp"
  tag := .double
  animated := true
  stageArray := false
  stageToken := false
  providerRead := false
  sourceBacked := false
  topology := false
  defaultCount := 0
  default := some ⟨.double, [0]⟩
  stageArray_animated := by decide
  stageToken_animated := by decide

def countsSlot : Slot where
  name := "/Rig.counts"
  tag := .intArray
  animated := true
  stageArray := true
  stageToken := false
  providerRead := false
  sourceBacked := false
  topology := true
  defaultCount := 1
  default := some ⟨.intArray, [4]⟩
  stageArray_animated := by decide
  stageToken_animated := by decide

def rampFile : File Int where
  bakeTime := .numeric 0
  slots := [rampSlot, countsSlot]
  listed := 1
  names_nodup := by decide
  listable := by
    intro index slot hlt hslot
    cases Nat.lt_one_iff.mp hlt
    cases hslot
    rfl

def rampReader : Reader Int where
  file := rampFile
  held index := ⟨if index = 0 then rampSlot.default else countsSlot.default, false⟩
  animatedTouched := false

/-- An attribute keyed at every time. -/
def keyed (type : InputTag) (typeName : String) (value : Int → List Nat) : Attribute Int where
  type := some type
  typeName := typeName
  get
    | .default => none
    | .numeric t => some ⟨type, value t⟩
  blocked _ := false
  mightVary := true
  steady h := nomatch h

def rampStage : Stage Int := fun name =>
  if name = "/Rig.ramp" then some (keyed .double "double" fun t => [t.toNat])
  else if name = "/Rig.counts" then
    some (keyed .intArray "int[]" fun t => if t = 2 then [4, 4] else [4])
  else none

def freshSampler : Sampler Int :=
  ⟨[], 0, [], .default, false, false, true, 0⟩

/-- The session over the ramp, before time 1, time 2 and whatever comes then. -/
def rampSession : Session Int :=
  ((Session.start rampStage rampReader freshSampler false).apply (.numeric 1)).apply (.numeric 2)

/-- After the refusal at time 2, an `Apply` at time 3 samples both inputs. -/
theorem apply_holds_ramp :
    (rampSession.apply (.numeric 3)).reader.Holds rampStage (.numeric 3)
        ⟨0, "/Rig.ramp", .double, true, false⟩ ∧
      (rampSession.apply (.numeric 3)).reader.Holds rampStage (.numeric 3)
        ⟨1, "/Rig.counts", .intArray, true, false⟩ := by
  have hholds := @apply_holds Int _ rampStage rampReader freshSampler false
    [.apply (.numeric 1), .apply (.numeric 2)] rampSession (.numeric 3)
    (fun _ => by decide) rfl rfl ?_ rfl (Or.inl rfl)
  · exact ⟨hholds _ (List.Mem.head _), hholds _ (List.Mem.tail _ (List.Mem.head _))⟩
  · refine ⟨⟨(nomatch ·), (nomatch ·)⟩, fun s hs => ?_⟩
    cases hs
    refine ⟨⟨(nomatch ·), (nomatch ·)⟩, fun s hs => ?_⟩
    cases hs
    exact ⟨⟨fun _ => rfl, (nomatch ·)⟩, fun _ _ => trivial⟩

/-- **A refused `Apply` is forgotten.**  Back at time 1, `Apply` returns true at once, nothing
was edited, and the ramp holds its value at time 2. -/
theorem apply_forgets_refusal :
    Lib.run Session.step (Session.start rampStage rampReader freshSampler false)
        [.apply (.numeric 1), .apply (.numeric 2)] = some rampSession ∧
      (rampSession.outcome (.numeric 1)).error = none ∧
      rampSession.edited = false ∧ rampSession.announced = true ∧
      ∃ b ∈ (rampSession.apply (.numeric 1)).sampler.animated, b.animated = true ∧
        ¬ (rampSession.apply (.numeric 1)).reader.Holds rampStage (.numeric 1) b :=
  ⟨rfl, rfl, rfl, rfl, by decide⟩

end RigExec.Playback
