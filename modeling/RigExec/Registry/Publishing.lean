/-
# `RigExec.Registry.Publishing` — publications and retirements under one fence

A worker publishes a finished job through `RigExecPublishBackgroundCompletion`,
whose steps other threads come between:

    enter      a valid pose takes `FenceMutex`
    entered    `IsWarmRequestCurrent`, or the call returns
    checked    `Publish` into the captured cache, or the call returns
    stored     `NoteCompleted`, and the call returns

A retirement of the registry takes the same mutex, makes its calls one after
the other, and gives it back.  Everything else goes on meanwhile: the critical
sections of the scheduler, and registry calls that hold no fence, the
cancellation of `CancelFrameGeneration` and the live memo among them.

A cache method is one step, its evictions told to the index.  The machine is a
context between `_Activate` and `_Deactivate`, the only caller of the
scheduler's `ResetRig`.
-/
import RigExec.Registry.Partition

namespace RigExec.Registry

open RigExec.Scheduler RigExec.WarmIndex
open RigExec.FrameCache (Store StoredEntry Eviction EntryProvenance)

variable {Rig Time Work Pose Retained : Type}

/-! ## The calls -/

/-- The arguments of `RigExecPublishBackgroundCompletion`, as a job passes them; `cache` is the
number of a cache object. -/
structure Publication (Rig Time Pose Retained : Type) where
  request : WarmRequest Rig Time
  cache : Nat
  key : FrameCacheKey
  pose : Pose
  retained : Option Retained
  retainedBytes : Nat
  provenance : EntryProvenance

/-- Where a worker stands in the call. -/
inductive Stage where
  | entered
  | checked
  | stored
deriving DecidableEq

/-- Who holds `FenceMutex`. -/
inductive Owner where
  | worker (which : Nat)
  | registry
deriving DecidableEq

inductive RegistryCall (Rig Time Pose Retained : Type) where
  /-- `_CancelGenerationLocked`. -/
  | cancelGeneration (rig : Rig)
  | cancelGenerationTimes (rig : Rig) (times : List (TimeCode Time))
  | index (op : IndexOp Rig Time)
  | clear (rig : Rig) (cache : Nat)
  | evict (rig : Rig) (cache : Nat) (key : FrameCacheKey)
  | evictEpoch (rig : Rig) (cache : Nat) (epochDigest : UInt64)
  /-- A live memo or a carried entry: stored, and noted under the index's generation. -/
  | memo (p : Publication Rig Time Pose Retained)

inductive ImagingEvent (Rig Time Work Pose Retained : Type) where
  | enter (worker : Nat) (p : Publication Rig Time Pose Retained)
  /-- The next step of a worker in its call. -/
  | work (worker : Nat)
  | acquire
  | release
  | registry (call : RegistryCall Rig Time Pose Retained)
  | scheduler (event : Event Rig Time Work) (h : event.movesFence = false)

/-- The scheduler events of a step. -/
def ImagingEvent.scheduled :
    ImagingEvent Rig Time Work Pose Retained → List (Event Rig Time Work)
  | .registry (.cancelGeneration rig) => [.cancelGeneration rig]
  | .registry (.cancelGenerationTimes rig times) => [.cancelGenerationTimes rig times]
  | .scheduler event _ => [event]
  | _ => []

/-- What a registry thread does between taking the fence and giving it back, for one session; a
notice does it for each session it reaches. -/
inductive Retirement (Rig Time : Type) where
  /-- `ClearFrameCache`, of a session with or without a range request. -/
  | clearFrameCache (rig : Rig) (cache : Nat) (range : Option (List Time × Nat × UInt64))
  /-- `SetWeightOverlay`: the bridge clears its cache when the overlay is another one. -/
  | setWeightOverlay (rig : Rig) (cache : Nat) (moved : Bool)
  /-- A notice that reaches the rig's structure. -/
  | restructured (rig : Rig) (cache : Nat)
  /-- A notice that leaves the program stale: the epochs `NoteCaptureIndex` drops. -/
  | recaptured (rig : Rig) (cache : Nat) (epochs : List UInt64)
  /-- `_RetireAffectedTimesLocked`, the rows it marks and the times it purges. -/
  | affected (rig : Rig) (dirtied purged : List Time)
  /-- `RetirePoseOnlyCacheEntries`. -/
  | poseOnly (rig : Rig) (dirtied : List Time)

def Retirement.calls : Retirement Rig Time → List (RegistryCall Rig Time Pose Retained)
  | .clearFrameCache rig cache range =>
      [.cancelGeneration rig, .clear rig cache, .index (.resetRig rig)] ++
        range.toList.map fun range => .index (.setRequest rig range.1 range.2.1 range.2.2)
  | .setWeightOverlay rig cache moved =>
      .cancelGeneration rig :: if moved then [.clear rig cache] else []
  | .restructured rig cache => [.cancelGeneration rig, .clear rig cache]
  | .recaptured rig cache epochs => .cancelGeneration rig :: epochs.map (.evictEpoch rig cache)
  | .affected rig dirtied purged =>
      .index (.invalidateRequest rig) ::
        (dirtied.map fun time => .index (.noteDirtied rig time)) ++
          [.cancelGenerationTimes rig (purged.map .numeric)]
  | .poseOnly rig dirtied => dirtied.map fun time => .index (.noteDirtied rig time)

def Retirement.supersedes (request : WarmRequest Rig Time) : Retirement Rig Time → Prop
  | .clearFrameCache rig _ _ => request.rig = rig
  | .setWeightOverlay rig _ _ => request.rig = rig
  | .restructured rig _ => request.rig = rig
  | .recaptured rig _ _ => request.rig = rig
  | .affected rig _ purged => request.rig = rig ∧ request.time ∈ purged
  | .poseOnly _ _ => False

/-! ## The machine -/

/-- A scheduler, the index, every cache object, the fence, and the workers' calls. -/
structure Imaging (Rig Time Work Pose Retained : Type) [FramePose Pose] where
  system : System Rig Time Work := {}
  index : WarmFrameIndex Rig Time := {}
  caches : Nat → Store Time Pose Retained := fun _ => {}
  fence : Option Owner := none
  calls : Nat → Option (Stage × Publication Rig Time Pose Retained) := fun _ => none

namespace Imaging

variable [FramePose Pose] (m : Imaging Rig Time Work Pose Retained)

def moveCall (worker : Nat) (call : Option (Stage × Publication Rig Time Pose Retained)) :
    Imaging Rig Time Work Pose Retained :=
  { m with calls := Function.update m.calls worker call }

/-- The call returns, and its guard gives the fence back. -/
def leave (worker : Nat) : Imaging Rig Time Work Pose Retained :=
  { m.moveCall worker none with fence := none }

/-- `IsWarmRequestCurrent` of a request. -/
def current (request : WarmRequest Rig Time) : Bool :=
  m.system.sched.isWarmRequestCurrent request.rig request.generation (.numeric request.time)
    request.fenceToken

variable [DecidableEq Rig] [FrameTime Time]

/-- A cache after a method, its evictions told to the index. -/
def setCache (rig : Rig) (cache : Nat) (after : Store Time Pose Retained × List (Eviction Time)) :
    Imaging Rig Time Work Pose Retained :=
  { m with
    caches := Function.update m.caches cache after.1
    index := noteEvictions rig m.index after.2 }

/-- `Publish`; `none` when nothing is stored. -/
def publish (p : Publication Rig Time Pose Retained) :
    Option (Imaging Rig Time Work Pose Retained) :=
  ((m.caches p.cache).publish p.key (.numeric p.request.time) p.pose p.retainedBytes p.retained
    p.provenance).map (m.setCache p.request.rig p.cache)

/-- `NoteCompleted`. -/
def complete (p : Publication Rig Time Pose Retained) (generation : Nat) :
    Imaging Rig Time Work Pose Retained :=
  { m with index := m.index.noteCompleted p.request.rig p.request.time p.key generation }

/-- A critical section of the scheduler, with its hook. -/
def advance (event : Event Rig Time Work) : Option (Imaging Rig Time Work Pose Retained) :=
  (m.system.step event).map fun next =>
    { m with
      system := next
      index := (Warming.moveTo ⟨m.system.sched, m.index⟩ next.sched).index }

def call : RegistryCall Rig Time Pose Retained → Option (Imaging Rig Time Work Pose Retained)
  | .cancelGeneration rig =>
      (m.advance (.cancelGeneration rig)).map fun m =>
        { m with index := m.index.noteGeneration rig (m.system.sched.currentGeneration rig) }
  | .cancelGenerationTimes rig times => m.advance (.cancelGenerationTimes rig times)
  | .index op => if passive (.op op) then some { m with index := op.apply m.index } else none
  | .clear rig cache => some (m.setCache rig cache (m.caches cache).clear)
  | .evict rig cache key => some (m.setCache rig cache ((m.caches cache).evict key))
  | .evictEpoch rig cache epochDigest =>
      some (m.setCache rig cache ((m.caches cache).evictEpoch epochDigest))
  | .memo p =>
      match m.publish p with
      | none => some m
      | some stored => some (stored.complete p (stored.index.generations p.request.rig))

/-- One step of one thread. -/
def step (m : Imaging Rig Time Work Pose Retained) :
    ImagingEvent Rig Time Work Pose Retained → Option (Imaging Rig Time Work Pose Retained)
  | .enter worker p =>
      if m.fence = none ∧ m.calls worker = none ∧ FramePose.valid p.pose = true then
        some { m.moveCall worker (some (.entered, p)) with fence := some (.worker worker) }
      else none
  | .work worker =>
      match m.calls worker with
      | none => none
      | some (.entered, p) =>
          if m.current p.request then some (m.moveCall worker (some (.checked, p)))
          else some (m.leave worker)
      | some (.checked, p) =>
          match m.publish p with
          | none => some (m.leave worker)
          | some stored => some (stored.moveCall worker (some (.stored, p)))
      | some (.stored, p) => some ((m.complete p p.request.generation).leave worker)
  | .acquire => if m.fence = none then some { m with fence := some .registry } else none
  | .release => if m.fence = some .registry then some { m with fence := none } else none
  | .registry call => m.call call
  | .scheduler event _ => m.advance event

/-- A history of a context from its construction. -/
abbrev history (events : List (ImagingEvent Rig Time Work Pose Retained)) :
    Option (Imaging Rig Time Work Pose Retained) :=
  Lib.run step {} events

/-! ## What one step does -/

section Steps

variable {m m' : Imaging Rig Time Work Pose Retained} {p : Publication Rig Time Pose Retained}
  {worker : Nat} {stage : Stage} {place : Rig × Time}
  {event : ImagingEvent Rig Time Work Pose Retained}
  {events pre mid post : List (ImagingEvent Rig Time Work Pose Retained)}
  {m₀ m₁ m₂ : Imaging Rig Time Work Pose Retained} {request : WarmRequest Rig Time}

theorem noteEvictions_keepsAll (rig : Rig) (evicted : List (Eviction Time))
    (x : WarmFrameIndex Rig Time) : KeepsAll x (noteEvictions rig x evicted) := by
  induction evicted generalizing x with
  | nil => exact .refl x
  | cons gone evicted ih =>
      rw [noteEvictions, List.foldl_cons]
      cases gone.time.usable with
      | none => exact ih x
      | some time =>
          have hone : KeepsAll x (x.noteEvicted rig gone.key time) :=
            (@passive_op _ _ _ _ x (.noteEvicted rig gone.key time) rfl).1
          exact hone.trans (ih _)

/-- What a step may write: `p` is one of the publications whose entry or completion it is. -/
structure Adds (m m' : Imaging Rig Time Work Pose Retained)
    (writes : Publication Rig Time Pose Retained → Prop) : Prop where
  frames : ∀ place, Keeps (m.index.frames place) (m'.index.frames place) ∨
    ∃ p, writes p ∧ place = (p.request.rig, p.request.time)
  entries : ∀ cache key entry, (m'.caches cache).find key = some entry →
    (m.caches cache).find key = some entry ∨ ∃ p, writes p ∧ p.cache = cache ∧ p.key = key

variable {writes : Publication Rig Time Pose Retained → Prop}

omit [DecidableEq Rig] [FrameTime Time] in
theorem Adds.of_index (hcaches : m'.caches = m.caches) (h : KeepsAll m.index m'.index) :
    Adds m m' writes := by
  refine ⟨fun place => .inl (h place), fun cache key entry hfind => .inl ?_⟩
  rwa [hcaches] at hfind

omit [DecidableEq Rig] [FrameTime Time] in
theorem Adds.mono {writes' : Publication Rig Time Pose Retained → Prop} (h : Adds m m' writes)
    (hle : ∀ p, writes p → writes' p) : Adds m m' writes' where
  frames place := (h.frames place).imp_right fun hp => hp.imp fun p hp => ⟨hle p hp.1, hp.2⟩
  entries cache key entry hfind :=
    (h.entries cache key entry hfind).imp_right fun hp => hp.imp fun p hp => ⟨hle p hp.1, hp.2⟩

theorem setCache_adds {rig : Rig} {cache : Nat}
    {after : Store Time Pose Retained × List (Eviction Time)}
    (h : ∀ key entry, after.1.find key = some entry → (m.caches cache).find key = some entry ∨
      ∃ p, writes p ∧ p.cache = cache ∧ p.key = key) :
    Adds m (m.setCache rig cache after) writes := by
  refine ⟨fun place => .inl (noteEvictions_keepsAll rig after.2 m.index place),
    fun at_ key entry hfind => ?_⟩
  rcases eq_or_ne at_ cache with rfl | hne
  · have hself : (m.setCache rig at_ after).caches at_ = after.1 := Function.update_self ..
    rw [hself] at hfind
    exact h key entry hfind
  · have hother : (m.setCache rig cache after).caches at_ = m.caches at_ :=
      Function.update_of_ne hne ..
    rw [hother] at hfind
    exact .inl hfind

theorem Adds.complete (h : Adds m m' writes) (hp : writes p) (generation : Nat) :
    Adds m (m'.complete p generation) writes := by
  refine ⟨fun place => ?_, h.entries⟩
  rcases noteCompleted_frames p.request.rig p.request.time p.key generation place with
    hsame | ⟨hplace, -⟩
  · exact (h.frames place).imp_left fun hkept => hkept.trans hsame
  · exact .inr ⟨p, hp, hplace⟩

omit [FrameTime Time] in
theorem find_evictEpoch {store : Store Time Pose Retained} {epochDigest : UInt64}
    {key : FrameCacheKey} {entry : StoredEntry Time Pose Retained}
    (h : (store.evictEpoch epochDigest).1.find key = some entry) : store.find key = some entry := by
  obtain ⟨kv, hfound, rfl⟩ := Option.map_eq_some_iff.mp h
  rw [Store.evictEpoch, List.find?_filter] at hfound
  have hkey : kv.1.epochDigest ≠ epochDigest ∧ kv.1 = key := by
    simpa using List.find?_some hfound
  have hsame : (fun kv : FrameCacheKey × StoredEntry Time Pose Retained =>
      decide (decide (kv.1.epochDigest ≠ epochDigest) = true ∧ decide (kv.1 = key) = true)) =
        fun kv => decide (kv.1 = key) := by
    funext other
    by_cases hother : other.1 = key
    · simp [hother, ← hkey.2, hkey.1]
    · simp [hother]
  rw [Store.find, ← hsame]
  exact Option.map_eq_some_iff.mpr ⟨kv, hfound, rfl⟩

/-- What a step does to the fence and the workers' calls. -/
inductive Moves (m m' : Imaging Rig Time Work Pose Retained) : Prop
  | entered (worker : Nat) (p : Publication Rig Time Pose Retained) : m.fence = none →
      m'.fence = some (.worker worker) →
      m'.calls = Function.update m.calls worker (some (.entered, p)) → Moves m m'
  | went (worker : Nat) (stage next : Stage) (p : Publication Rig Time Pose Retained) :
      m.calls worker = some (stage, p) → (stage = .entered → m.current p.request = true) →
      m'.fence = m.fence → m'.calls = Function.update m.calls worker (some (next, p)) →
      Moves m m'
  | left (worker : Nat) (call : Stage × Publication Rig Time Pose Retained) :
      m.calls worker = some call → m'.calls = Function.update m.calls worker none → Moves m m'
  | passed : (∀ worker, m.fence ≠ some (.worker worker)) → m'.calls = m.calls → Moves m m'
  | elsewhere : m'.fence = m.fence → m'.calls = m.calls → Moves m m'

/-- A worker writes the entry or the completion of its publication, past its check. -/
def Writes (m : Imaging Rig Time Work Pose Retained)
    (event : ImagingEvent Rig Time Work Pose Retained)
    (p : Publication Rig Time Pose Retained) : Prop :=
  ∃ worker stage, event = .work worker ∧ m.calls worker = some (stage, p) ∧ stage ≠ .entered

/-- **The step lemma.** -/
structure Steps (m : Imaging Rig Time Work Pose Retained)
    (event : ImagingEvent Rig Time Work Pose Retained) (m' : Imaging Rig Time Work Pose Retained) :
    Prop where
  moves : Moves m m'
  system : Lib.run System.step m.system event.scheduled = some m'.system
  adds : Adds m m' fun p => Writes m event p ∨ event = .registry (.memo p)

theorem publish_spec (h : m.publish p = some m') :
    m'.system = m.system ∧ m'.fence = m.fence ∧ m'.calls = m.calls ∧
      Adds m m' fun q => q = p := by
  obtain ⟨published, hpublished, rfl⟩ := Option.map_eq_some_iff.mp h
  refine ⟨rfl, rfl, rfl, setCache_adds fun key entry hfind => ?_⟩
  rcases Store.find_publish hpublished hfind with ⟨rfl, -⟩ | ⟨-, hheld⟩
  · exact .inr ⟨p, rfl, rfl, rfl⟩
  · exact .inl hheld

theorem call_steps {call : RegistryCall Rig Time Pose Retained} (h : m.call call = some m') :
    Steps m (.registry call : ImagingEvent Rig Time Work Pose Retained) m' := by
  cases call with
  | cancelGeneration rig =>
      obtain ⟨moved, hmoved, rfl⟩ := Option.map_eq_some_iff.mp h
      obtain ⟨next, hnext, rfl⟩ := Option.map_eq_some_iff.mp hmoved
      exact ⟨.elsewhere rfl rfl, Lib.run_cons_eq_some.mpr ⟨next, hnext, rfl⟩,
        .of_index rfl ((noteTransitions_index _).1.trans (noteGeneration_keepsAll rig _))⟩
  | cancelGenerationTimes rig times =>
      obtain ⟨next, hnext, rfl⟩ := Option.map_eq_some_iff.mp h
      exact ⟨.elsewhere rfl rfl, Lib.run_cons_eq_some.mpr ⟨next, hnext, rfl⟩,
        .of_index rfl (noteTransitions_index _).1⟩
  | index op =>
      simp only [call, Option.ite_none_right_eq_some, Option.some.injEq] at h
      obtain ⟨hpassive, rfl⟩ := h
      exact ⟨.elsewhere rfl rfl, rfl, .of_index rfl (passive_op hpassive).1⟩
  | clear rig cache =>
      cases h
      exact ⟨.elsewhere rfl rfl, rfl, setCache_adds fun key entry hfind => by cases hfind⟩
  | evict rig cache key =>
      cases h
      exact ⟨.elsewhere rfl rfl, rfl,
        setCache_adds fun at_ entry hfind => .inl (Store.find_evict hfind).2⟩
  | evictEpoch rig cache epochDigest =>
      cases h
      exact ⟨.elsewhere rfl rfl, rfl,
        setCache_adds fun key entry hfind => .inl (find_evictEpoch hfind)⟩
  | memo p =>
      simp only [call] at h
      split at h
      · cases h
        exact ⟨.elsewhere rfl rfl, rfl, .of_index rfl (.refl _)⟩
      · next stored hstored =>
          cases h
          obtain ⟨hsystem, hfence, hcalls, hadds⟩ := publish_spec hstored
          refine ⟨.elsewhere hfence hcalls, congrArg some hsystem.symm,
            Adds.complete ?_ (.inr rfl) _⟩
          exact hadds.mono fun q hq => .inr (by rw [hq])

theorem work_steps (h : m.step (.work worker) = some m') : Steps m (.work worker) m' := by
  simp only [step] at h
  split at h
  · cases h
  · next p hcall =>
      split at h
      · next hcurrent =>
          cases h
          exact ⟨.went worker _ _ p hcall (fun _ => hcurrent) rfl rfl, rfl,
            .of_index rfl (.refl _)⟩
      · cases h
        exact ⟨.left worker _ hcall rfl, rfl, .of_index rfl (.refl _)⟩
  · next p hcall =>
      split at h
      · cases h
        exact ⟨.left worker _ hcall rfl, rfl, .of_index rfl (.refl _)⟩
      · next stored hstored =>
          cases h
          obtain ⟨hsystem, hfence, hcalls, hadds⟩ := publish_spec hstored
          refine ⟨.went worker _ .stored p hcall (fun he => by cases he) hfence ?_,
            congrArg some hsystem.symm, ?_⟩
          · rw [← hcalls]
            rfl
          · have hwrites := hadds.mono fun q (hq : q = p) =>
              (.inl ⟨worker, .checked, rfl, hq ▸ hcall, fun he => by cases he⟩ :
                Writes m (.work worker) q ∨
                  (.work worker : ImagingEvent Rig Time Work _ _) = .registry (.memo q))
            exact ⟨hwrites.frames, hwrites.entries⟩
  · next p hcall =>
      cases h
      have hsame : Adds m m fun q => Writes m (.work worker) q ∨
          (.work worker : ImagingEvent Rig Time Work _ _) = .registry (.memo q) :=
        .of_index rfl (.refl _)
      have hadds := hsame.complete
        (.inl ⟨worker, .stored, rfl, hcall, fun he => by cases he⟩) p.request.generation
      exact ⟨.left worker _ hcall rfl, rfl, hadds.frames, hadds.entries⟩

theorem step_steps (h : m.step event = some m') : Steps m event m' := by
  cases event with
  | enter worker p =>
      simp only [step, Option.ite_none_right_eq_some, Option.some.injEq] at h
      obtain ⟨⟨hfree, -⟩, rfl⟩ := h
      exact ⟨.entered worker p hfree rfl rfl, rfl, .of_index rfl (.refl _)⟩
  | work worker => exact work_steps h
  | acquire =>
      simp only [step, Option.ite_none_right_eq_some, Option.some.injEq] at h
      obtain ⟨hfree, rfl⟩ := h
      exact ⟨.passed (fun _ he => by cases hfree.symm.trans he) rfl, rfl, .of_index rfl (.refl _)⟩
  | release =>
      simp only [step, Option.ite_none_right_eq_some, Option.some.injEq] at h
      obtain ⟨hheld, rfl⟩ := h
      exact ⟨.passed (fun _ he => by cases hheld.symm.trans he) rfl, rfl, .of_index rfl (.refl _)⟩
  | registry call => exact call_steps h
  | scheduler at_ hat =>
      obtain ⟨next, hnext, rfl⟩ := Option.map_eq_some_iff.mp h
      exact ⟨.elsewhere rfl rfl, Lib.run_cons_eq_some.mpr ⟨next, hnext, rfl⟩,
        .of_index rfl (noteTransitions_index _).1⟩

/-! ## The fence -/

/-- A worker in the call holds the fence. -/
def Fenced (m : Imaging Rig Time Work Pose Retained) : Prop :=
  ∀ worker call, m.calls worker = some call → m.fence = some (.worker worker)

omit [FramePose Pose] [DecidableEq Rig] [FrameTime Time] in
theorem of_update {calls : Nat → Option (Stage × Publication Rig Time Pose Retained)}
    {at_ : Nat} {call : Stage × Publication Rig Time Pose Retained}
    {now : Option (Stage × Publication Rig Time Pose Retained)}
    (h : Function.update calls at_ now worker = some call) :
    (worker = at_ ∧ now = some call) ∨ worker ≠ at_ ∧ calls worker = some call := by
  rcases eq_or_ne worker at_ with rfl | hne
  · rw [Function.update_self] at h
    exact .inl ⟨rfl, h⟩
  · rw [Function.update_of_ne hne] at h
    exact .inr ⟨hne, h⟩

theorem Fenced.step (h : Fenced m) (hstep : m.step event = some m') : Fenced m' := by
  intro worker call hcall
  cases (step_steps hstep).moves with
  | entered entering p hfree hfence hcalls =>
      rw [hcalls] at hcall
      rcases of_update hcall with ⟨rfl, -⟩ | ⟨-, hin⟩
      · exact hfence
      · cases hfree.symm.trans (h worker call hin)
  | went going stage next p hin _ hfence hcalls =>
      rw [hcalls] at hcall
      rw [hfence]
      rcases of_update hcall with ⟨rfl, -⟩ | ⟨-, hother⟩
      · exact h worker _ hin
      · exact h worker call hother
  | left leaving inside hin hcalls =>
      rw [hcalls] at hcall
      rcases of_update hcall with ⟨-, hnone⟩ | ⟨hne, hother⟩
      · cases hnone
      · -- two workers would hold the fence
        cases (h leaving inside hin).symm.trans (h worker call hother)
        exact absurd rfl hne
  | passed hfree hcalls =>
      rw [hcalls] at hcall
      exact absurd (h worker call hcall) (hfree worker)
  | elsewhere hfence hcalls =>
      rw [hcalls] at hcall
      exact hfence.trans (h worker call hcall)

theorem history_fenced (h : history events = some m) : Fenced m := by
  have hstart : Fenced ({} : Imaging Rig Time Work Pose Retained) := by
    intro worker call hcall
    cases hcall
  exact Lib.run_preserves (fun _ _ _ hm hstep => hm.step hstep) hstart h

theorem Fenced.released (h : Fenced m) (hstep : m.step .release = some m') (worker : Nat) :
    m'.calls worker = none := by
  simp only [Imaging.step, Option.ite_none_right_eq_some, Option.some.injEq] at hstep
  obtain ⟨hheld, rfl⟩ := hstep
  by_contra hsome
  obtain ⟨call, hcall⟩ := Option.ne_none_iff_exists'.mp hsome
  cases hheld.symm.trans (h worker call hcall)

/-! ## What let a publication in -/

theorem run_system (h : Lib.run step m events = some m') :
    Lib.run System.step m.system (events.flatMap ImagingEvent.scheduled) = some m'.system := by
  induction events generalizing m with
  | nil =>
      cases h
      rfl
  | cons event events ih =>
      obtain ⟨next, hstep, hrest⟩ := Lib.run_cons_eq_some.mp h
      rw [List.flatMap_cons, Lib.run_append_eq_some]
      exact ⟨next.system, (step_steps hstep).system, ih hrest⟩

theorem step_past (h : m.step event = some m') (hcall : m'.calls worker = some (stage, p))
    (hpast : stage ≠ .entered) :
    (∃ stage', m.calls worker = some (stage', p) ∧ stage' ≠ .entered) ∨
      m.calls worker = some (.entered, p) ∧ m.current p.request = true := by
  cases (step_steps h).moves with
  | entered entering q _ _ hcalls =>
      rw [hcalls] at hcall
      rcases of_update hcall with ⟨-, he⟩ | ⟨-, hin⟩
      · cases he
        exact absurd rfl hpast
      · exact .inl ⟨stage, hin, hpast⟩
  | went going at_ next q hin hcurrent _ hcalls =>
      rw [hcalls] at hcall
      rcases of_update hcall with ⟨rfl, he⟩ | ⟨-, hin⟩
      · cases he
        cases at_ with
        | entered => exact .inr ⟨hin, hcurrent rfl⟩
        | _ => exact .inl ⟨_, hin, fun he => by cases he⟩
      · exact .inl ⟨stage, hin, hpast⟩
  | left leaving inside _ hcalls =>
      rw [hcalls] at hcall
      rcases of_update hcall with ⟨-, he⟩ | ⟨-, hin⟩
      · cases he
      · exact .inl ⟨stage, hin, hpast⟩
  | passed _ hcalls | elsewhere _ hcalls =>
      rw [hcalls] at hcall
      exact .inl ⟨stage, hcall, hpast⟩

/-- On the way the worker came to its check, in a state where its request was current. -/
def Admits (m : Imaging Rig Time Work Pose Retained)
    (events : List (ImagingEvent Rig Time Work Pose Retained)) (worker : Nat)
    (p : Publication Rig Time Pose Retained) : Prop :=
  ∃ before after admitting, events = before ++ after ∧ Lib.run step m before = some admitting ∧
    admitting.calls worker = some (.entered, p) ∧ admitting.current p.request = true

theorem run_past (hnone : ∀ worker, m.calls worker = none) (hrun : Lib.run step m events = some m')
    (hcall : m'.calls worker = some (stage, p)) (hpast : stage ≠ .entered) :
    Admits m events worker p := by
  induction events using List.reverseRecOn generalizing m' stage with
  | nil =>
      cases hrun
      cases (hnone worker).symm.trans hcall
  | append_singleton events event ih =>
      obtain ⟨last, hlast, hone⟩ := Lib.run_append_eq_some.mp hrun
      obtain ⟨_, hstep, hdone⟩ := Lib.run_cons_eq_some.mp hone
      cases hdone
      rcases step_past hstep hcall hpast with ⟨stage', hcall', hpast'⟩ | hadmitted
      · obtain ⟨before, after, admitting, rfl, hrest⟩ := ih hlast hcall' hpast'
        exact ⟨before, after ++ [event], admitting, List.append_assoc .., hrest⟩
      · exact ⟨events, [event], last, rfl, hlast, hadmitted⟩

/-! ## Over a history -/

omit [DecidableEq Rig] [FramePose Pose] in
theorem superseding_call {R : Retirement Rig Time} (h : R.supersedes request) :
    ∃ call ∈ (R.calls : List (RegistryCall Rig Time Pose Retained)), ∃ at_ : Event Rig Time Work,
      at_ ∈ ImagingEvent.scheduled (.registry call) ∧
        at_.supersedes request.rig (.numeric request.time) := by
  cases R with
  | affected rig dirtied purged =>
      obtain ⟨rfl, htime⟩ := h
      refine ⟨.cancelGenerationTimes request.rig (purged.map .numeric), ?_, _,
        List.mem_singleton_self _, rfl, request.time, rfl, ?_⟩
      · simp [Retirement.calls]
      · rw [BackgroundScheduler.affectedTimes, Lib.mem_sortUnique, List.mem_filterMap]
        exact ⟨.numeric request.time, List.mem_map_of_mem htime, rfl⟩
  | poseOnly rig dirtied => exact h.elim
  | _ rig =>
      exact ⟨.cancelGeneration rig, by simp [Retirement.calls], _, List.mem_singleton_self _,
        h.symm⟩

omit [DecidableEq Rig] [FrameTime Time] [FramePose Pose] in
/-- `_Deactivate` alone resets the tokens of a rig. -/
theorem resetRig_not_scheduled (event : ImagingEvent Rig Time Work Pose Retained) (rig : Rig) :
    .resetRig rig ∉ event.scheduled := by
  intro hmem
  cases event with
  | registry call => cases call <;> simp [ImagingEvent.scheduled] at hmem
  | scheduler at_ hat =>
      cases List.mem_singleton.mp hmem
      cases hat
  | _ => cases hmem

theorem run_not_current {at_ : Event Rig Time Work} (hpre : history pre = some m)
    (hcurrent : m.current request = true) (hat : at_ ∈ events.flatMap ImagingEvent.scheduled)
    (hsup : at_.supersedes request.rig (.numeric request.time))
    (hroom : Lib.Meets System.step NoWrap {} ((pre ++ events).flatMap ImagingEvent.scheduled))
    (hrun : Lib.run step m events = some m') : m'.current request = false := by
  rw [List.flatMap_append] at hroom
  obtain ⟨hroomPre, hroomRest⟩ := hroom.append
  have hissued := run_tokensIssued (fun _ _ => Nat.le_refl 0) hroomPre (run_system hpre) request.rig
  have hreset : Lib.Meets System.step (ResetAfterBump request.rig request.generation) m.system
      (events.flatMap ImagingEvent.scheduled) := by
    rw [Lib.meets_iff_prefix]
    rintro before found after _ hsplit - rfl
    have hmem : .resetRig request.rig ∈ events.flatMap ImagingEvent.scheduled := by simp [hsplit]
    obtain ⟨event, -, hevent⟩ := List.mem_flatMap.mp hmem
    exact absurd hevent (resetRig_not_scheduled event request.rig)
  have hrest := hroomRest m.system (run_system hpre)
  have hsystem := run_system hrun
  obtain ⟨before, after, hsplit⟩ := List.append_of_mem hat
  rw [hsplit] at hrest hreset hsystem
  exact (run_superseded hissued (notAhead_of_current hcurrent) hsup hrest hreset
    hsystem).not_current

/-- **Retirement is atomic with publication.**  Once a retirement has given the fence back, no
entry and no completion comes from a request it superseded. -/
theorem superseded_never_publishes {R : Retirement Rig Time} (hpre : history pre = some m₀)
    (hcurrent : m₀.current request = true)
    (hretire : (R.calls.map ImagingEvent.registry).Sublist mid) (hsup : R.supersedes request)
    (hrun : Lib.run step m₀ (mid ++ .release :: post) = some m)
    (hfew : issuesOf ((pre ++ (mid ++ .release :: post)).flatMap ImagingEvent.scheduled) <
      UInt64.size)
    (hstep : m.step event = some m') :
    Adds m m' fun p => (Writes m event p ∧ p.request ≠ request) ∨ event = .registry (.memo p) := by
  refine (step_steps hstep).adds.mono fun p hp => hp.imp_left fun hwrites => ⟨hwrites, ?_⟩
  rintro rfl
  obtain ⟨m₁, hmid, hlast⟩ := Lib.run_append_eq_some.mp hrun
  obtain ⟨m₂, hrelease, hpost⟩ := Lib.run_cons_eq_some.mp hlast
  have hfenced : Fenced m₁ := history_fenced (Lib.run_append_eq_some.mpr ⟨m₀, hpre, hmid⟩)
  obtain ⟨worker, stage, -, hcall, hne⟩ := hwrites
  -- the check that let the worker in came after the release
  obtain ⟨before, after, admitting, rfl, hbefore, -, hadmitting⟩ :=
    run_past (hfenced.released hrelease) hpost hcall hne
  obtain ⟨call, hmem, at_, hat, hsupAt⟩ := @superseding_call _ _ Work Pose Retained _ _ _ hsup
  have hroom : Lib.Meets System.step NoWrap {}
      ((pre ++ (mid ++ .release :: before)).flatMap ImagingEvent.scheduled) := by
    have hall := @meets_noWrap Rig Time Work _ _ {} _ 0 (fun _ => Nat.le_refl 0)
      (fun _ => Nat.le_refl 0) (by rwa [Nat.zero_add])
    have hsplit : pre ++ (mid ++ .release :: (before ++ after)) =
        (pre ++ (mid ++ .release :: before)) ++ after := by simp
    rw [hsplit, List.flatMap_append] at hall
    exact hall.append.1
  have hnot : admitting.current p.request = false := by
    refine run_not_current hpre hcurrent ?_ hsupAt hroom
      (Lib.run_append_eq_some.mpr ⟨m₁, hmid, Lib.run_cons_eq_some.mpr ⟨m₂, hrelease, hbefore⟩⟩)
    refine List.mem_flatMap.mpr ⟨.registry call, ?_, hat⟩
    exact List.mem_append_left _ (hretire.subset (List.mem_map_of_mem hmem))
  rw [hnot] at hadmitting
  cases hadmitting

/-- A record that shows a completion and no dirty mark. -/
def Clean (x : WarmFrameIndex Rig Time) (place : Rig × Time) : Prop :=
  (x.frames place).hasCompletion = true ∧ (x.frames place).dirty = false

/-- **A dirty row becomes clean** by a memo of the registry, or by the completion of a job whose
request was found current after the retirement. -/
theorem cleaned_by_current (hpre : history pre = some m₁)
    (hrelease : m₁.step .release = some m₂) (hdirty : ¬ Clean m₂.index place)
    (hrun : Lib.run step m₂ post = some m) (hclean : Clean m.index place) :
    ∃ front event back seen p, post = front ++ event :: back ∧
      Lib.run step m₂ front = some seen ∧ place = (p.request.rig, p.request.time) ∧
      (event = .registry (.memo p) ∨
        ∃ worker, event = .work worker ∧ Admits m₂ front worker p) := by
  obtain ⟨front, event, back, seen, after, rfl, hfront, hstep, hno, hyes⟩ :=
    @Lib.run_turns _ _ _ (fun m : Imaging Rig Time Work Pose Retained => Clean m.index place)
      _ _ _ hdirty hclean hrun
  rcases (step_steps hstep).adds.frames place with hkept | ⟨p, hwrites, hplace⟩
  · exact absurd ⟨hkept.held hyes.1, hkept.clean hyes.1 hyes.2⟩ hno
  · refine ⟨front, event, back, seen, p, rfl, hfront, hplace, hwrites.symm.imp_right ?_⟩
    rintro ⟨worker, stage, hevent, hcall, hne⟩
    exact ⟨worker, hevent, run_past ((history_fenced hpre).released hrelease) hfront hcall hne⟩

end Steps

/-- A job of rig 0 at frame 1. -/
def framePublication : Publication Nat Int Nat Unit where
  request := ⟨0, 1, .sweep, 0, 0⟩
  cache := 0
  key := ⟨1, 2⟩
  pose := 700
  retained := none
  retainedBytes := 0
  provenance := {}

/-- `ClearFrameCache` lands before the worker takes the fence. -/
theorem superseded_never_publishes_cleared :
    ∃ m m' : Imaging Nat Int Unit Nat Unit,
      history [.acquire, .registry (.cancelGeneration 0), .registry (.clear 0 0),
        .registry (.index (.resetRig 0)), .release, .enter 0 framePublication] = some m ∧
      m.step (.work 0) = some m' ∧
      Adds m m' fun p => (Writes m (.work 0) p ∧ p.request ≠ framePublication.request) ∨
        (.work 0 : ImagingEvent Nat Int Unit Nat Unit) = .registry (.memo p) := by
  refine ⟨_, _, rfl, rfl, ?_⟩
  exact @superseded_never_publishes Nat Int Unit Nat Unit _ _ _ _ _ (.work 0) []
    [.acquire, .registry (.cancelGeneration 0), .registry (.clear 0 0),
      .registry (.index (.resetRig 0))] [.enter 0 framePublication] {} framePublication.request
    (.clearFrameCache 0 0 none) rfl rfl (List.sublist_cons_self ..) rfl rfl (by decide) rfl

/-- `RetirePoseOnlyCacheEntries` marks a row that the queued job then completes. -/
theorem cleaned_by_current_poseOnly :
    ∃ m₁ m₂ m : Imaging Nat Int Unit Nat Unit,
      history [.registry (.memo framePublication), .acquire,
        .registry (.index (.noteDirtied 0 1))] = some m₁ ∧ m₁.step .release = some m₂ ∧
      Lib.run step m₂ [.enter 0 framePublication, .work 0, .work 0, .work 0] = some m ∧
      ∃ front event back seen p,
        ([.enter 0 framePublication, .work 0, .work 0, .work 0] :
          List (ImagingEvent Nat Int Unit Nat Unit)) = front ++ event :: back ∧
        Lib.run step m₂ front = some seen ∧ (0, 1) = (p.request.rig, p.request.time) ∧
        (event = .registry (.memo p) ∨
          ∃ worker, event = .work worker ∧ Admits m₂ front worker p) := by
  refine ⟨_, _, _, rfl, rfl, rfl, ?_⟩
  refine @cleaned_by_current Nat Int Unit Nat Unit _ _ _ _ (0, 1)
    [.registry (.memo framePublication), .acquire, .registry (.index (.noteDirtied 0 1))] _ _ _
    rfl rfl ?_ rfl ⟨rfl, rfl⟩
  rintro ⟨-, h⟩
  cases h

end Imaging

end RigExec.Registry
