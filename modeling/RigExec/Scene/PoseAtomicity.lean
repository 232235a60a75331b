/-
# `RigExec.Scene.PoseAtomicity` — pose commits are all or nothing

`commitOutcome` says what a commit comes to as a function of the slots it reads:
the loops compute it whatever the workspace held (`prepareCandidates_spec`,
`stageDescendants_spec`), and nothing is published before they are through.  The
two loops of publications then write every output once, from slots that are not
outputs, so each output ends with one of two contents and all of them with the same
kind (`runPoseCommit_atomic`).
-/
import Mathlib.Data.List.Nodup
import RigExec.Scene.PoseCommit

namespace RigExec.Scene

/-! ## Bindings -/

/-- The slots a commit publishes. -/
def PoseCommitBinding.outputs (binding : PoseCommitBinding) : List ValueId :=
  binding.candidates.map PoseCommitCandidate.output ++
    binding.descendants.map PoseCommitDescendant.output

/-- The slots a commit reads. -/
def PoseCommitBinding.inputs (binding : PoseCommitBinding) : List ValueId :=
  binding.candidates.flatMap (fun candidate => [candidate.before, candidate.candidate]) ++
    binding.descendants.map PoseCommitDescendant.current

/-- What the compiler gives a commit: slots of the store, and outputs of its own. -/
structure Compiled {P : Payloads} (binding : PoseCommitBinding) (store : TypedValueStore P) :
    Prop where
  inside : ∀ id ∈ binding.inputs ++ binding.outputs, id < store.length
  nodup : binding.outputs.Nodup
  disjoint : ∀ id ∈ binding.inputs, id ∉ binding.outputs

theorem PoseCommitBinding.before_mem {binding : PoseCommitBinding} {c : PoseCommitCandidate}
    (h : c ∈ binding.candidates) : c.before ∈ binding.inputs :=
  List.mem_append_left _ (List.mem_flatMap.mpr ⟨c, h, by simp⟩)

theorem PoseCommitBinding.candidate_mem {binding : PoseCommitBinding} {c : PoseCommitCandidate}
    (h : c ∈ binding.candidates) : c.candidate ∈ binding.inputs :=
  List.mem_append_left _ (List.mem_flatMap.mpr ⟨c, h, by simp⟩)

theorem PoseCommitBinding.current_mem {binding : PoseCommitBinding} {d : PoseCommitDescendant}
    (h : d ∈ binding.descendants) : d.current ∈ binding.inputs :=
  List.mem_append_right _ (List.mem_map_of_mem h)

section

variable {P : Payloads} {cmp : TypedSame P} {math : PoseMath P} {binding : PoseCommitBinding}
  {store : TypedValueStore P}

/-! ## What a commit comes to -/

variable (math store) in
/-- The delta of a candidate. -/
def deltaOf (candidate : PoseCommitCandidate) : Bool × P.Matrix :=
  match store.readFrame candidate.before, store.readFrame candidate.candidate with
  | some before, some after => math.prepareDelta before after
  | _, _ => (false, math.newMatrix)

variable (math store) in
/-- The frame of a descendant, if its propagation does not fail. -/
def descendantFrame (candidate : PoseCommitCandidate) (descendant : PoseCommitDescendant) :
    Option P.Frame :=
  let current := (store.readFrame descendant.current).getD math.empty
  let before := (store.readFrame candidate.before).getD math.empty
  let after := store.readFrame candidate.candidate
  match propagatePose math current before (after.getD math.empty) (deltaOf math store candidate).2
    (deltaOf math store candidate).1 descendant.solverOutput descendant.parentBlocked
    after.isSome with
  | (.skipped, _) => some current
  | (.staged, some frame) => some frame
  | _ => none

/-- The three ways a commit ends. -/
inductive CommitOutcome (P : Payloads) where
  | refused
  | failed (text : String)
  | published (frames : List P.Frame)

variable (math binding store) in
/-- What the descendants come to. -/
def descendantsOutcome : List PoseCommitDescendant → CommitOutcome P
  | [] => .published []
  | descendant :: rest =>
      match binding.candidates[descendant.candidate]? with
      | none => .refused
      | some candidate =>
          match descendantFrame math store candidate descendant with
          | none => .failed descendantFailure
          | some frame =>
              match descendantsOutcome rest with
              | .published frames => .published (frame :: frames)
              | outcome => outcome

variable (math store) in
/-- A candidate has a usable new frame. -/
def candidateReady (candidate : PoseCommitCandidate) : Bool :=
  (store.readFrame candidate.candidate).any math.usable

variable (math binding store) in
/-- What a commit comes to. -/
def commitOutcome : CommitOutcome P :=
  if binding.candidates.all (candidateReady math store) then
    descendantsOutcome math binding store binding.descendants
  else .failed candidateFailure

/-! ## The loops -/

variable (math store) in
/-- The workspace has the deltas of the first candidates. -/
def Prepared (candidates : List PoseCommitCandidate) (workspace : PoseCommitWorkspace P) : Prop :=
  ∀ (k : Nat) candidate, candidates[k]? = some candidate →
    workspace.deltaOk[k]? = some (deltaOf math store candidate).1 ∧
      ((deltaOf math store candidate).1 = true →
        workspace.deltas[k]? = some (deltaOf math store candidate).2)

/-- A candidate writes its own entries, whatever they held. -/
structure Recorded (i : Nat) (delta : Bool × P.Matrix) (workspace next : PoseCommitWorkspace P) :
    Prop where
  staged : next.staged = workspace.staged
  deltasLength : next.deltas.length = workspace.deltas.length
  okLength : next.deltaOk.length = workspace.deltaOk.length
  others : ∀ k, k ≠ i →
    next.deltas[k]? = workspace.deltas[k]? ∧ next.deltaOk[k]? = workspace.deltaOk[k]?
  flag : next.deltaOk[i]? = some delta.1
  delta : delta.1 = true → next.deltas[i]? = some delta.2

theorem recorded_recordDelta {i : Nat} (candidate : PoseCommitCandidate)
    {workspace : PoseCommitWorkspace P} (hdeltas : i < workspace.deltas.length)
    (hok : i < workspace.deltaOk.length) :
    Recorded i (deltaOf math store candidate) workspace
      (recordDelta math store i candidate workspace) := by
  have hunready : Recorded i (false, math.newMatrix) workspace
      { workspace with deltaOk := workspace.deltaOk.set i false } := by
    refine ⟨rfl, rfl, List.length_set, ?_, List.getElem?_set_self hok,
      fun h => Bool.noConfusion h⟩
    intro k hk
    exact ⟨rfl, List.getElem?_set_ne hk.symm⟩
  unfold recordDelta deltaOf
  cases store.readFrame candidate.before with
  | none => exact hunready
  | some before =>
      cases store.readFrame candidate.candidate with
      | none => exact hunready
      | some after =>
          refine ⟨rfl, List.length_set, List.length_set, ?_, List.getElem?_set_self hok,
            fun _ => List.getElem?_set_self hdeltas⟩
          intro k hk
          exact ⟨List.getElem?_set_ne hk.symm, List.getElem?_set_ne hk.symm⟩

theorem Prepared.snoc {passed : List PoseCommitCandidate} {candidate : PoseCommitCandidate}
    {workspace next : PoseCommitWorkspace P} (h : Prepared math store passed workspace)
    (hrecorded : Recorded passed.length (deltaOf math store candidate) workspace next) :
    Prepared math store (passed ++ [candidate]) next := by
  intro k found hk
  rcases Nat.lt_or_ge k passed.length with hlt | hge
  · rw [List.getElem?_append_left hlt] at hk
    obtain ⟨hdeltas, hok⟩ := hrecorded.others k (by omega)
    rw [hdeltas, hok]
    exact h k found hk
  · rw [List.getElem?_append_right hge] at hk
    cases hindex : k - passed.length with
    | zero =>
        rw [hindex] at hk
        obtain rfl : candidate = found := by simpa using hk
        obtain rfl : k = passed.length := by omega
        exact ⟨hrecorded.flag, hrecorded.delta⟩
    | succ m =>
        rw [hindex] at hk
        simp at hk

/-- **The loop over the candidates.** -/
theorem prepareCandidates_spec {passed : List PoseCommitCandidate}
    (rest : List PoseCommitCandidate) {workspace : PoseCommitWorkspace P} (failure : String)
    (hprepared : Prepared math store passed workspace)
    (hdeltas : workspace.deltas.length = passed.length + rest.length)
    (hok : workspace.deltaOk.length = passed.length + rest.length) :
    Prepared math store (passed ++ rest)
        (prepareCandidates math store passed.length rest (workspace, failure)).1 ∧
      (prepareCandidates math store passed.length rest (workspace, failure)).1.staged =
        workspace.staged ∧
      (prepareCandidates math store passed.length rest (workspace, failure)).2 =
        if rest.all (candidateReady math store) then failure else candidateFailure := by
  induction rest generalizing passed workspace failure with
  | nil => exact ⟨by simpa [prepareCandidates] using hprepared, rfl, rfl⟩
  | cons candidate rest ih =>
      rw [List.length_cons] at hdeltas hok
      have hrecorded : Recorded passed.length (deltaOf math store candidate) workspace
          (recordDelta math store passed.length candidate workspace) :=
        recorded_recordDelta candidate (by omega) (by omega)
      have hlength : (passed ++ [candidate]).length = passed.length + 1 := by simp
      obtain ⟨hspec, hstaged, hfailure⟩ := ih
        (if (store.readFrame candidate.candidate).any math.usable then failure
          else candidateFailure) (hprepared.snoc hrecorded)
        (by rw [hrecorded.deltasLength, hlength]; omega)
        (by rw [hrecorded.okLength, hlength]; omega)
      rw [hlength] at hspec hstaged hfailure
      rw [List.append_assoc, List.singleton_append] at hspec
      refine ⟨hspec, hstaged.trans hrecorded.staged, ?_⟩
      refine hfailure.trans ?_
      rw [List.all_cons, candidateReady]
      cases (store.readFrame candidate.candidate).any math.usable <;>
        cases rest.all (candidateReady math store) <;> rfl

theorem propagatePose_congr {current before after : P.Frame} {delta delta' : P.Matrix}
    {deltaOk solverOutput parentBlocked candidatePresent : Bool}
    (h : deltaOk = true → delta = delta') :
    propagatePose math current before after delta deltaOk solverOutput parentBlocked
        candidatePresent =
      propagatePose math current before after delta' deltaOk solverOutput parentBlocked
        candidatePresent := by
  cases deltaOk with
  | true => rw [h rfl]
  | false => simp [propagatePose]

/-- What the loop over the descendants has done when the outcome is `outcome`. -/
def Staged (staged : List P.Frame) (i : Nat) :
    CommitOutcome P → Bool × PoseCommitWorkspace P × String → Prop
  | .refused, found => found.1 = false
  | .failed text, found => found.1 = true ∧ found.2.2 = text ∧ text = descendantFailure
  | .published frames, found =>
      found.1 = true ∧ found.2.2 = "" ∧ found.2.1.staged = staged.take i ++ frames

theorem stageDescendants_failed (i : Nat) (rest : List PoseCommitDescendant)
    (workspace : PoseCommitWorkspace P) :
    stageDescendants math store binding i rest (workspace, descendantFailure) =
      (true, workspace, descendantFailure) := by
  cases rest with
  | nil => rfl
  | cons descendant rest => rw [stageDescendants, if_pos (by decide)]

/-- **The loop over the descendants.** -/
theorem stageDescendants_spec {i : Nat} {rest : List PoseCommitDescendant}
    {workspace : PoseCommitWorkspace P}
    (hprepared : Prepared math store binding.candidates workspace)
    (hlength : workspace.staged.length = i + rest.length) :
    Staged workspace.staged i (descendantsOutcome math binding store rest)
      (stageDescendants math store binding i rest (workspace, "")) := by
  induction rest generalizing i workspace with
  | nil =>
      refine ⟨rfl, rfl, ?_⟩
      rw [List.append_nil, List.take_of_length_le (by simp at hlength; omega)]
      rfl
  | cons descendant rest ih =>
      rw [stageDescendants, if_neg (by simp), descendantsOutcome]
      cases hcandidate : binding.candidates[descendant.candidate]? with
      | none => rfl
      | some candidate =>
          obtain ⟨hok, hdelta⟩ := hprepared _ _ hcandidate
          have hflag : workspace.deltaOk.getD descendant.candidate false =
              (deltaOf math store candidate).1 := by
            rw [List.getD_eq_getElem?_getD, hok, Option.getD_some]
          have hsame : ∀ (current before after : P.Frame) (solver blocked present : Bool),
              propagatePose math current before after
                  (workspace.deltas.getD descendant.candidate math.newMatrix)
                  (deltaOf math store candidate).1 solver blocked present =
                propagatePose math current before after (deltaOf math store candidate).2
                  (deltaOf math store candidate).1 solver blocked present := by
            intro current before after solver blocked present
            refine propagatePose_congr ?_
            intro h
            rw [List.getD_eq_getElem?_getD, hdelta h, Option.getD_some]
          dsimp only
          rw [hflag, hsame, descendantFrame]
          -- a staged or skipped descendant writes its own entry and the loop goes on
          have hstep : ∀ frame : P.Frame,
              Staged workspace.staged i
                (match descendantsOutcome math binding store rest with
                  | .published frames => .published (frame :: frames)
                  | outcome => outcome)
                (stageDescendants math store binding (i + 1) rest
                  ({ workspace with staged := workspace.staged.set i frame }, "")) := by
            intro frame
            rw [List.length_cons] at hlength
            let next : PoseCommitWorkspace P :=
              { workspace with staged := workspace.staged.set i frame }
            have hnext : next.staged.length = i + 1 + rest.length := by
              show (workspace.staged.set i frame).length = _
              rw [List.length_set]
              omega
            have hrec : Staged next.staged (i + 1) (descendantsOutcome math binding store rest)
                (stageDescendants math store binding (i + 1) rest (next, "")) :=
              ih hprepared hnext
            have htake : (workspace.staged.set i frame).take (i + 1) =
                workspace.staged.take i ++ [frame] := by
              rw [List.take_succ_eq_append_getElem (by rw [List.length_set]; omega),
                List.getElem_set_self, List.take_set_of_le (Nat.le_refl i)]
            cases houtcome : descendantsOutcome math binding store rest with
            | refused | failed text =>
                rw [houtcome] at hrec
                exact hrec
            | published frames =>
                rw [houtcome] at hrec
                obtain ⟨hreturned, hfailure, hstaged⟩ := hrec
                refine ⟨hreturned, hfailure, hstaged.trans ?_⟩
                rw [htake, List.append_assoc, List.singleton_append]
          generalize propagatePose math _ _ _ _ _ _ _ _ = status
          obtain ⟨status, frame⟩ := status
          cases status with
          | skipped => exact hstep _
          | staged =>
              cases frame with
              | some frame => exact hstep frame
              | none =>
                  dsimp only
                  rw [stageDescendants_failed]
                  exact ⟨rfl, rfl, rfl⟩
          | noCandidate | unusableDescendant | singularDelta | invalidResult =>
              dsimp only
              rw [stageDescendants_failed]
              exact ⟨rfl, rfl, rfl⟩

/-! ## Publications -/

/-- A store that differs from another at some slots only. -/
def Keeps (outputs : List ValueId) (store store' : TypedValueStore P) : Prop :=
  store'.length = store.length ∧ ∀ id, id ∉ outputs → store'[id]? = store[id]?

/-- What a loop of publications to different outputs leaves. -/
structure Written {ρ : Type} (rows : List ρ) (output : ρ → ValueId) (content : ρ → SlotContent P)
    (store store' : TypedValueStore P) : Prop where
  length : store'.length = store.length
  contents : ∀ row ∈ rows, contentAt store' (output row) = some (content row)
  others : ∀ id, id ∉ rows.map output → store'[id]? = store[id]?

/-- **A loop of publications.**  Each writes its own output from slots that are no outputs. -/
theorem foldlM_written {ρ : Type} {rows : List ρ} {output : ρ → ValueId}
    {content : ρ → SlotContent P} {write : TypedValueStore P → ρ → Option (TypedValueStore P)}
    {outputs : List ValueId} {first : TypedValueStore P}
    (hwrite : ∀ store, Keeps outputs first store → ∀ row ∈ rows, ∃ store',
      write store row = some store' ∧ Writes store (output row) (content row) store')
    (houtput : ∀ row ∈ rows, output row ∈ outputs) (hnodup : (rows.map output).Nodup)
    (h : Keeps outputs first store) :
    ∃ store', rows.foldlM write store = some store' ∧
      Written rows output content store store' := by
  induction rows generalizing store with
  | nil => exact ⟨store, rfl, rfl, by simp, fun _ _ => rfl⟩
  | cons row rest ih =>
      obtain ⟨hrow, hrest⟩ := List.nodup_cons.mp hnodup
      obtain ⟨between, hbetween, hwrites⟩ := hwrite store h row List.mem_cons_self
      have hkeeps : Keeps outputs first between := by
        refine ⟨hwrites.length.trans h.1, ?_⟩
        intro id hid
        have hne : id ≠ output row := fun he => hid (he ▸ houtput row List.mem_cons_self)
        exact (hwrites.others id hne).trans (h.2 id hid)
      obtain ⟨store', hfold, hlength, hcontents, hothers⟩ := ih
        (fun store hstore r hr => hwrite store hstore r (List.mem_cons_of_mem _ hr))
        (fun r hr => houtput r (List.mem_cons_of_mem _ hr)) hrest hkeeps
      refine ⟨store', ?_, hlength.trans hwrites.length, ?_, ?_⟩
      · rw [List.foldlM_cons, hbetween]
        exact hfold
      · intro r hr
        rcases List.mem_cons.mp hr with rfl | hr
        · rw [contentAt, hothers _ hrow, ← contentAt]
          exact hwrites.content
        · exact hcontents r hr
      · intro id hid
        rw [List.map_cons, List.mem_cons, not_or] at hid
        exact (hothers id hid.2).trans (hwrites.others id hid.1)

theorem Written.keeps {ρ : Type} {rows : List ρ} {output : ρ → ValueId}
    {content : ρ → SlotContent P} {outputs : List ValueId} {store' : TypedValueStore P}
    {first : TypedValueStore P} (h : Written rows output content store store')
    (houtput : ∀ row ∈ rows, output row ∈ outputs) (hkeeps : Keeps outputs first store) :
    Keeps outputs first store' := by
  refine ⟨h.length.trans hkeeps.1, ?_⟩
  intro id hid
  refine (h.others id ?_).trans (hkeeps.2 id hid)
  intro hin
  obtain ⟨row, hrow, rfl⟩ := List.mem_map.mp hin
  exact hid (houtput row hrow)

/-- What is passed through to an output. -/
def passedContent (failure : String) (content : SlotContent P) : SlotContent P :=
  { content with initialized := true, authoritative := false, error := failure }

/-- What a staged frame is published as. -/
def stagedContent (frame : P.Frame) : SlotContent P :=
  { value := .pointFrame frame, initialized := true, count := 1 }

theorem passthrough_writes (cmp : TypedSame P) (failure : String) {output input : ValueId}
    {state : TypedValueState P} (houtput : output < store.length)
    (hinput : store[input]? = some state) :
    ∃ store', passthrough cmp failure store output input = some store' ∧
      Writes store output (passedContent failure state.toSlotContent) store' := by
  obtain ⟨published, hpublished, hwrites⟩ := publish_writes cmp houtput state.value
    state.blocked false state.count failure
  refine ⟨_, ?_, hwrites.setRaw state.raw⟩
  rw [passthrough, hinput]
  simp only [Option.bind_eq_bind, Option.bind_some, hpublished, Option.pure_def]

variable (store) in
/-- The content of a slot, if there is one. -/
def contentOr (id : ValueId) : SlotContent P := (contentAt store id).getD {}

theorem contentOr_of {id : ValueId} {state : TypedValueState P} (h : store[id]? = some state) :
    contentOr store id = state.toSlotContent := by
  rw [contentOr, contentAt, h]
  rfl

theorem Keeps.getElem {outputs : List ValueId} {store' : TypedValueStore P}
    (h : Keeps outputs store store') {id : ValueId} (hid : id < store.length)
    (hout : id ∉ outputs) :
    ∃ state, store'[id]? = some state ∧ contentOr store id = state.toSlotContent := by
  have hstate := List.getElem?_eq_getElem hid
  exact ⟨store[id], (h.2 id hout).trans hstate, contentOr_of hstate⟩

theorem Compiled.candidatesNodup (h : Compiled binding store) :
    (binding.candidates.map PoseCommitCandidate.output).Nodup := (List.nodup_append.mp h.nodup).1

theorem Compiled.descendantsNodup (h : Compiled binding store) :
    (binding.descendants.map PoseCommitDescendant.output).Nodup :=
  (List.nodup_append.mp h.nodup).2.1

theorem PoseCommitBinding.candidateOutput_mem {c : PoseCommitCandidate}
    (h : c ∈ binding.candidates) : c.output ∈ binding.outputs :=
  List.mem_append_left _ (List.mem_map_of_mem h)

theorem PoseCommitBinding.descendantOutput_mem {d : PoseCommitDescendant}
    (h : d ∈ binding.descendants) : d.output ∈ binding.outputs :=
  List.mem_append_right _ (List.mem_map_of_mem h)

theorem Compiled.input_lt (h : Compiled binding store) {id : ValueId} (hid : id ∈ binding.inputs) :
    id < store.length := h.inside id (List.mem_append_left _ hid)

theorem Compiled.output_lt (h : Compiled binding store) {id : ValueId}
    (hid : id ∈ binding.outputs) : id < store.length := h.inside id (List.mem_append_right _ hid)

/-- Everything but the outputs is as it was, and the outputs of the candidates and of the rows
of the descendants have their contents. -/
structure Committed {ρ : Type} (binding : PoseCommitBinding) (rows : List ρ)
    (output : ρ → ValueId) (candidateContent : PoseCommitCandidate → SlotContent P)
    (rowContent : ρ → SlotContent P) (store store' : TypedValueStore P) : Prop where
  keeps : Keeps binding.outputs store store'
  candidates : ∀ c ∈ binding.candidates, contentAt store' c.output = some (candidateContent c)
  rows : ∀ row ∈ rows, contentAt store' (output row) = some (rowContent row)

theorem loops_committed {ρ : Type} {rows : List ρ} {output : ρ → ValueId}
    {candidateContent : PoseCommitCandidate → SlotContent P} {rowContent : ρ → SlotContent P}
    {writeCandidate : TypedValueStore P → PoseCommitCandidate → Option (TypedValueStore P)}
    {writeRow : TypedValueStore P → ρ → Option (TypedValueStore P)}
    (h : Compiled binding store)
    (hrows : rows.map output = binding.descendants.map PoseCommitDescendant.output)
    (hcandidate : ∀ store', Keeps binding.outputs store store' → ∀ c ∈ binding.candidates,
      ∃ store'', writeCandidate store' c = some store'' ∧
        Writes store' c.output (candidateContent c) store'')
    (hrow : ∀ store', Keeps binding.outputs store store' → ∀ row ∈ rows,
      ∃ store'', writeRow store' row = some store'' ∧
        Writes store' (output row) (rowContent row) store'') :
    ∃ between store', binding.candidates.foldlM writeCandidate store = some between ∧
      rows.foldlM writeRow between = some store' ∧
      Committed binding rows output candidateContent rowContent store store' := by
  have hfirst : Keeps binding.outputs store store := ⟨rfl, fun _ _ => rfl⟩
  have houtput : ∀ row ∈ rows, output row ∈ binding.outputs := by
    intro row hin
    refine List.mem_append_right _ ?_
    rw [← hrows]
    exact List.mem_map_of_mem hin
  obtain ⟨between, hbetween, hcandidates⟩ := foldlM_written hcandidate
    (fun c hc => binding.candidateOutput_mem hc) h.candidatesNodup hfirst
  have hkeeps := hcandidates.keeps (fun c hc => binding.candidateOutput_mem hc) hfirst
  obtain ⟨store', hstore', hwritten⟩ := foldlM_written hrow houtput
    (hrows ▸ h.descendantsNodup) hkeeps
  refine ⟨between, store', hbetween, hstore', hwritten.keeps houtput hkeeps, ?_,
    hwritten.contents⟩
  intro c hc
  -- no descendant writes a candidate's output
  have hother : c.output ∉ rows.map output := by
    rw [hrows]
    intro hin
    exact (List.nodup_append.mp h.nodup).2.2 _ (List.mem_map_of_mem hc) _ hin rfl
  rw [contentAt, hwritten.others _ hother, ← contentAt]
  exact hcandidates.contents c hc

theorem initialized_of_ready {c : PoseCommitCandidate}
    (h : candidateReady math store c = true)
    : (contentOr store c.candidate).initialized = true := by
  unfold candidateReady TypedValueStore.readFrame at h
  cases hstate : store[c.candidate]? with
  | none => rw [hstate] at h; cases h
  | some state =>
      rw [hstate] at h
      rw [contentOr_of hstate]
      dsimp only at h
      unfold SlotContent.frame? at h
      split_ifs at h with hreadable
      · exact hreadable.1
      · cases h

/-! ## The commit -/

variable (cmp math binding store) in
/-- What a commit with an outcome returns and leaves. -/
def Ends (result : PoseCommitResult P) : CommitOutcome P → Prop
  | .refused => result.returned = false ∧ result.message = none ∧ result.store = store
  | .failed text => result.returned = true ∧ result.message = some text ∧
      Committed binding binding.descendants PoseCommitDescendant.output
        (fun c => passedContent text (contentOr store c.before))
        (fun d => passedContent text (contentOr store d.current)) store result.store
  | .published frames => result.returned = true ∧ result.message = none ∧
      Committed binding (binding.descendants.zip frames)
        (fun row => row.1.output) (fun c => contentOr store c.candidate)
        (fun row => stagedContent row.2) store result.store

variable (math binding store) in
/-- What the first descendant comes to, and then the rest. -/
inductive FirstOutcome (d : PoseCommitDescendant) (rest : List PoseCommitDescendant) :
    CommitOutcome P → Prop
  | missing (hc : binding.candidates[d.candidate]? = none) : FirstOutcome d rest .refused
  | unusable {c : PoseCommitCandidate} (hc : binding.candidates[d.candidate]? = some c)
      (hframe : descendantFrame math store c d = none) :
      FirstOutcome d rest (.failed descendantFailure)
  | ended {outcome : CommitOutcome P} (hrest : descendantsOutcome math binding store rest = outcome)
      (hends : ∀ frames, outcome ≠ .published frames) : FirstOutcome d rest outcome
  | published {c : PoseCommitCandidate} {frame : P.Frame} {frames : List P.Frame}
      (hc : binding.candidates[d.candidate]? = some c)
      (hframe : descendantFrame math store c d = some frame)
      (hrest : descendantsOutcome math binding store rest = .published frames) :
      FirstOutcome d rest (.published (frame :: frames))

theorem FirstOutcome.of_eq {d : PoseCommitDescendant} {rest : List PoseCommitDescendant}
    {outcome : CommitOutcome P}
    (h : descendantsOutcome math binding store (d :: rest) = outcome) :
    FirstOutcome math binding store d rest outcome := by
  rw [descendantsOutcome] at h
  cases hc : binding.candidates[d.candidate]? with
  | none =>
      rw [hc] at h
      exact h ▸ .missing hc
  | some c =>
      rw [hc] at h
      dsimp only at h
      cases hframe : descendantFrame math store c d with
      | none =>
          rw [hframe] at h
          exact h ▸ .unusable hc hframe
      | some frame =>
          rw [hframe] at h
          cases hrest : descendantsOutcome math binding store rest with
          | published frames =>
              rw [hrest] at h
              exact h ▸ .published hc hframe hrest
          | refused | failed =>
              rw [hrest] at h
              exact .ended (hrest.trans h) (by simp [← h])

theorem length_frames {rest : List PoseCommitDescendant} {frames : List P.Frame}
    (h : descendantsOutcome math binding store rest = .published frames) :
    frames.length = rest.length := by
  induction rest generalizing frames with
  | nil => cases h; rfl
  | cons d rest ih =>
      cases FirstOutcome.of_eq h with
      | ended hrest hends => exact absurd rfl (hends _)
      | published hc hframe hrest => rw [List.length_cons, ih hrest, List.length_cons]

theorem map_zip_output {rest : List PoseCommitDescendant} {frames : List P.Frame}
    (h : frames.length = rest.length) :
    (rest.zip frames).map (fun row => row.1.output) = rest.map PoseCommitDescendant.output := by
  have hfst : (rest.zip frames).map Prod.fst = rest := List.map_fst_zip (by omega)
  calc (rest.zip frames).map (fun row => row.1.output)
      = ((rest.zip frames).map Prod.fst).map PoseCommitDescendant.output := by
        rw [List.map_map]
        rfl
    _ = rest.map PoseCommitDescendant.output := by rw [hfst]

theorem length_resize {α : Type} (l : List α) (n : Nat) (fresh : α) :
    (resize l n fresh).length = n := by
  rw [resize, List.length_append, List.length_take, List.length_replicate]
  omega

theorem prepared_sized (math : PoseMath P) (binding : PoseCommitBinding)
    (store : TypedValueStore P) (workspace : PoseCommitWorkspace P) :
    ∃ prepared failure,
      prepareCandidates math store 0 binding.candidates (workspace.sized math binding, "") =
        (prepared, failure) ∧
      Prepared math store binding.candidates prepared ∧
      prepared.staged.length = binding.descendants.length ∧
      failure = if binding.candidates.all (candidateReady math store) then ""
        else candidateFailure := by
  have hnone : Prepared math store [] (workspace.sized math binding) := by
    intro k candidate hk
    cases hk
  obtain ⟨hprepared, hstaged, hfailure⟩ := prepareCandidates_spec binding.candidates "" hnone
    (by rw [PoseCommitWorkspace.sized, length_resize, List.length_nil, Nat.zero_add])
    (by rw [PoseCommitWorkspace.sized, length_resize, List.length_nil, Nat.zero_add])
  refine ⟨_, _, rfl, hprepared, ?_, hfailure⟩
  refine (congrArg List.length hstaged).trans ?_
  rw [PoseCommitWorkspace.sized, length_resize]

/-- **A commit ends the way its outcome says.** -/
theorem runPoseCommit_spec (cmp : TypedSame P) (math : PoseMath P) (h : Compiled binding store)
    (workspace : PoseCommitWorkspace P) :
    ∃ result, runPoseCommit cmp math binding store workspace = some result ∧
      Ends binding store result (commitOutcome math binding store) := by
  have hpass : ∀ (text : String) (workspace : PoseCommitWorkspace P), ∃ result,
      (do
        let store ← binding.candidates.foldlM (fun store candidate =>
          passthrough cmp text store candidate.output candidate.before) store
        let store ← binding.descendants.foldlM (fun store descendant =>
          passthrough cmp text store descendant.output descendant.current) store
        pure ({ returned := true, store, workspace, message := some text } :
          PoseCommitResult P)) = some result ∧ Ends binding store result (.failed text) := by
    intro text workspace
    have hwrite : ∀ {output input : ValueId}, output ∈ binding.outputs →
        input ∈ binding.inputs → ∀ store', Keeps binding.outputs store store' → ∃ store'',
          passthrough cmp text store' output input = some store'' ∧
            Writes store' output (passedContent text (contentOr store input)) store'' := by
      intro output input houtput hinput store' hkeeps
      obtain ⟨state, hstate, hcontent⟩ := hkeeps.getElem (h.input_lt hinput)
        (h.disjoint input hinput)
      rw [hcontent]
      exact passthrough_writes cmp text (hkeeps.1 ▸ h.output_lt houtput) hstate
    obtain ⟨between, store', hbetween, hstore', hcommitted⟩ := loops_committed h rfl
      (fun store' hkeeps c hc => hwrite (binding.candidateOutput_mem hc)
        (binding.before_mem hc) store' hkeeps)
      (fun store' hkeeps d hd => hwrite (binding.descendantOutput_mem hd)
        (binding.current_mem hd) store' hkeeps)
    refine ⟨{ returned := true, store := store', workspace, message := some text }, ?_, rfl, rfl,
      hcommitted⟩
    rw [hbetween, Option.bind_eq_bind, Option.bind_some, hstore']
    rfl
  obtain ⟨prepared, failure, hprepare, hprepared, hlength, hfailure⟩ :=
    prepared_sized math binding store workspace
  unfold runPoseCommit commitOutcome
  rw [hprepare]
  dsimp only
  cases hready : binding.candidates.all (candidateReady math store) with
  | false =>
      rw [hready, if_neg (by simp)] at hfailure
      rw [if_neg (by simp), hfailure]
      have hstop : stageDescendants math store binding 0 binding.descendants
          (prepared, candidateFailure) = (true, prepared, candidateFailure) := by
        cases binding.descendants with
        | nil => rfl
        | cons descendant rest => rw [stageDescendants, if_pos (by decide)]
      rw [hstop]
      dsimp only
      rw [if_pos (by decide)]
      exact hpass candidateFailure prepared
  | true =>
      rw [hready, if_pos rfl] at hfailure
      rw [if_pos rfl, hfailure]
      have hstage : Staged prepared.staged 0
          (descendantsOutcome math binding store binding.descendants)
          (stageDescendants math store binding 0 binding.descendants (prepared, "")) :=
        stageDescendants_spec hprepared (by rw [hlength, Nat.zero_add])
      generalize hfound : stageDescendants math store binding 0 binding.descendants
        (prepared, "") = found at hstage ⊢
      obtain ⟨returned, workspace', failure'⟩ := found
      cases houtcome : descendantsOutcome math binding store binding.descendants with
      | refused =>
          rw [houtcome] at hstage
          obtain rfl : returned = false := hstage
          exact ⟨_, rfl, rfl, rfl, rfl⟩
      | failed text =>
          rw [houtcome] at hstage
          obtain ⟨hreturned, htext, hkind⟩ := hstage
          dsimp only at hreturned htext
          subst hreturned htext hkind
          dsimp only
          rw [if_pos (by decide)]
          exact hpass descendantFailure workspace'
      | published frames =>
          rw [houtcome] at hstage
          obtain ⟨hreturned, hnone, hstaged⟩ := hstage
          dsimp only at hreturned hnone
          subst hreturned hnone
          rw [List.take_zero, List.nil_append] at hstaged
          dsimp only at hstaged ⊢
          rw [if_neg (by simp), hstaged]
          have hinside := map_zip_output (length_frames houtcome)
          have hcandidate : ∀ store', Keeps binding.outputs store store' →
              ∀ c ∈ binding.candidates, ∃ store'',
                store'.copy cmp c.output c.candidate false = some store'' ∧
                  Writes store' c.output (contentOr store c.candidate) store'' := by
            intro store' hkeeps c hc
            obtain ⟨state, hstate, hcontent⟩ := hkeeps.getElem
              (h.input_lt (binding.candidate_mem hc)) (h.disjoint _ (binding.candidate_mem hc))
            have hinit := initialized_of_ready (List.all_eq_true.mp hready c hc)
            obtain ⟨store'', hcopy, hwrites⟩ := copy_writes cmp
              (hkeeps.1 ▸ h.output_lt (binding.candidateOutput_mem hc)) hstate false
            refine ⟨store'', hcopy, ?_⟩
            rw [hcontent] at hinit ⊢
            rw [Bool.false_or, ← hinit] at hwrites
            exact hwrites
          have hrow : ∀ store', Keeps binding.outputs store store' →
              ∀ row ∈ binding.descendants.zip frames, ∃ store'',
                store'.publish cmp row.1.output (.pointFrame row.2) false false 1 "" =
                  some store'' ∧ Writes store' row.1.output (stagedContent row.2) store'' := by
            intro store' hkeeps row hrow
            have hd := (List.of_mem_zip hrow).1
            exact publish_writes cmp
              (hkeeps.1 ▸ h.output_lt (binding.descendantOutput_mem hd)) _ false false 1 ""
          obtain ⟨between, store', hbetween, hstore', hcommitted⟩ :=
            loops_committed h hinside hcandidate hrow
          refine ⟨{ returned := true, store := store', workspace := workspace', message := none },
            ?_, rfl, rfl, hcommitted⟩
          rw [hbetween, Option.bind_eq_bind, Option.bind_some, hstore']
          rfl

/-! ## Only the inputs matter -/

/-- Two stores hold the same in the slots a commit reads. -/
def SameInputs (binding : PoseCommitBinding) (store store' : TypedValueStore P) : Prop :=
  ∀ id ∈ binding.inputs, contentAt store' id = contentAt store id

theorem readFrame_congr {store' : TypedValueStore P} {id : ValueId}
    (h : contentAt store' id = contentAt store id) : store'.readFrame id = store.readFrame id := by
  have hcontent : ∀ store : TypedValueStore P,
      store.readFrame id = (contentAt store id).bind SlotContent.frame? := by
    intro store
    unfold TypedValueStore.readFrame contentAt
    cases store[id]? <;> rfl
  rw [hcontent, hcontent, h]

theorem deltaOf_congr {store' : TypedValueStore P} (h : SameInputs binding store store')
    {c : PoseCommitCandidate} (hc : c ∈ binding.candidates) :
    deltaOf math store' c = deltaOf math store c := by
  rw [deltaOf, deltaOf, readFrame_congr (h _ (binding.before_mem hc)),
    readFrame_congr (h _ (binding.candidate_mem hc))]

theorem descendantsOutcome_congr {store' : TypedValueStore P}
    (h : SameInputs binding store store') {rest : List PoseCommitDescendant}
    (hrest : ∀ d ∈ rest, d ∈ binding.descendants) :
    descendantsOutcome math binding store' rest = descendantsOutcome math binding store rest := by
  induction rest with
  | nil => rfl
  | cons d rest ih =>
      rw [descendantsOutcome, descendantsOutcome,
        ih fun other hother => hrest other (List.mem_cons_of_mem _ hother)]
      cases hcandidate : binding.candidates[d.candidate]? with
      | none => rfl
      | some c =>
          have hc := List.mem_of_getElem? hcandidate
          have hd := hrest d List.mem_cons_self
          have hframe : descendantFrame math store' c d = descendantFrame math store c d := by
            rw [descendantFrame, descendantFrame, deltaOf_congr h hc,
              readFrame_congr (h _ (binding.current_mem hd)),
              readFrame_congr (h _ (binding.before_mem hc)),
              readFrame_congr (h _ (binding.candidate_mem hc))]
          dsimp only
          rw [hframe]

theorem commitOutcome_congr {store' : TypedValueStore P} (h : SameInputs binding store store') :
    commitOutcome math binding store' = commitOutcome math binding store := by
  have hready : binding.candidates.all (candidateReady math store') =
      binding.candidates.all (candidateReady math store) := by
    rw [Bool.eq_iff_iff, List.all_eq_true, List.all_eq_true]
    have hsame : ∀ c ∈ binding.candidates,
        candidateReady math store' c = candidateReady math store c := by
      intro c hc
      rw [candidateReady, candidateReady, readFrame_congr (h _ (binding.candidate_mem hc))]
    constructor
    · exact fun hall c hc => (hsame c hc).symm.trans (hall c hc)
    · exact fun hall c hc => (hsame c hc).trans (hall c hc)
  rw [commitOutcome, commitOutcome, hready, descendantsOutcome_congr h fun _ hd => hd]

theorem contentOr_congr {store' : TypedValueStore P} {id : ValueId}
    (h : contentAt store' id = contentAt store id) : contentOr store' id = contentOr store id := by
  rw [contentOr, contentOr, h]

theorem Ends.contents_eq {store' : TypedValueStore P} {result result' : PoseCommitResult P}
    {outcome : CommitOutcome P} (hinputs : SameInputs binding store store')
    (hframes : ∀ frames, outcome = .published frames → frames.length = binding.descendants.length)
    (h : Ends binding store result outcome) (h' : Ends binding store' result' outcome) :
    result'.returned = result.returned ∧ result'.message = result.message ∧
      (result.returned = true → ∀ id ∈ binding.outputs,
        contentAt result'.store id = contentAt result.store id) := by
  cases outcome with
  | refused =>
      obtain ⟨hreturned, hmessage, -⟩ := h
      obtain ⟨hreturned', hmessage', -⟩ := h'
      refine ⟨hreturned'.trans hreturned.symm, hmessage'.trans hmessage.symm, ?_⟩
      intro htrue
      rw [hreturned] at htrue
      cases htrue
  | failed text =>
      obtain ⟨hreturned, hmessage, hcommitted⟩ := h
      obtain ⟨hreturned', hmessage', hcommitted'⟩ := h'
      refine ⟨hreturned'.trans hreturned.symm, hmessage'.trans hmessage.symm, ?_⟩
      intro _ id hid
      rcases List.mem_append.mp hid with hid | hid
      · obtain ⟨c, hc, rfl⟩ := List.mem_map.mp hid
        rw [hcommitted'.candidates c hc, hcommitted.candidates c hc,
          contentOr_congr (hinputs _ (binding.before_mem hc))]
      · obtain ⟨d, hd, rfl⟩ := List.mem_map.mp hid
        rw [hcommitted'.rows d hd, hcommitted.rows d hd,
          contentOr_congr (hinputs _ (binding.current_mem hd))]
  | published frames =>
      obtain ⟨hreturned, hmessage, hcommitted⟩ := h
      obtain ⟨hreturned', hmessage', hcommitted'⟩ := h'
      refine ⟨hreturned'.trans hreturned.symm, hmessage'.trans hmessage.symm, ?_⟩
      intro _ id hid
      rcases List.mem_append.mp hid with hid | hid
      · obtain ⟨c, hc, rfl⟩ := List.mem_map.mp hid
        rw [hcommitted'.candidates c hc, hcommitted.candidates c hc,
          contentOr_congr (hinputs _ (binding.candidate_mem hc))]
      · rw [← map_zip_output (hframes frames rfl)] at hid
        obtain ⟨row, hrow, rfl⟩ := List.mem_map.mp hid
        rw [hcommitted'.rows row hrow, hcommitted.rows row hrow]

/-! ## All or nothing -/

/-- The frame a descendant is published with: its current one when it is skipped, and its
current one carried by the candidate's delta otherwise. -/
inductive CarriedFrame (math : PoseMath P) (store : TypedValueStore P)
    (candidate : PoseCommitCandidate) (descendant : PoseCommitDescendant) : P.Frame → Prop
  | skipped (hskip : descendant.parentBlocked = true ∨ descendant.solverOutput = true) :
      CarriedFrame math store candidate descendant
        ((store.readFrame descendant.current).getD math.empty)
  | carried {before after current : P.Frame}
      (hbefore : store.readFrame candidate.before = some before)
      (hafter : store.readFrame candidate.candidate = some after)
      (hcurrent : current = (store.readFrame descendant.current).getD math.empty)
      (hdelta : (math.prepareDelta before after).1 = true)
      (husable : math.usable current = true ∧
        math.usable (math.carry current (math.prepareDelta before after).2) = true) :
      CarriedFrame math store candidate descendant
        (math.carry current (math.prepareDelta before after).2)

/-- Every candidate's new frame is published, and every descendant's. -/
structure Published (math : PoseMath P) (binding : PoseCommitBinding)
    (store store' : TypedValueStore P) : Prop where
  candidates : ∀ c ∈ binding.candidates, ∃ frame, store.readFrame c.candidate = some frame ∧
    math.usable frame = true ∧ contentAt store' c.output = contentAt store c.candidate
  descendants : ∀ d ∈ binding.descendants, ∃ c frame,
    binding.candidates[d.candidate]? = some c ∧ CarriedFrame math store c d frame ∧
      contentAt store' d.output = some (stagedContent frame)

/-- Every output has what its input had, with one failure. -/
structure PassedThrough (binding : PoseCommitBinding) (text : String)
    (store store' : TypedValueStore P) : Prop where
  candidates : ∀ c ∈ binding.candidates,
    contentAt store' c.output = (contentAt store c.before).map (passedContent text)
  descendants : ∀ d ∈ binding.descendants,
    contentAt store' d.output = (contentAt store d.current).map (passedContent text)

theorem contentAt_input (h : Compiled binding store) {id : ValueId} (hid : id ∈ binding.inputs) :
    contentAt store id = some (contentOr store id) := by
  rw [contentOr, contentAt, List.getElem?_eq_getElem (h.input_lt hid)]
  rfl

theorem carried_of_descendantFrame {c : PoseCommitCandidate} {d : PoseCommitDescendant}
    {frame : P.Frame} (hready : candidateReady math store c = true)
    (h : descendantFrame math store c d = some frame) : CarriedFrame math store c d frame := by
  unfold candidateReady at hready
  unfold descendantFrame deltaOf at h
  cases hafter : store.readFrame c.candidate with
  | none => rw [hafter] at hready; cases hready
  | some after =>
      rw [hafter] at h
      unfold propagatePose at h
      dsimp only [Option.isSome_some, Option.getD_some] at h
      by_cases hblocked : d.parentBlocked = true
      · rw [if_pos (.inl hblocked)] at h
        cases h
        exact .skipped (.inl hblocked)
      · rw [if_neg (by simpa using hblocked)] at h
        by_cases hsolver : d.solverOutput = true
        · split_ifs at h with hunusable husable hdelta hresult
          · cases h
            exact .skipped (.inr hsolver)
          · cases hbefore : store.readFrame c.before with
            | none => rw [hbefore] at hdelta; simp at hdelta
            | some before =>
                rw [hbefore] at h hdelta hresult
                cases h
                exact .carried hbefore hafter rfl (by simpa using hdelta)
                  ⟨by simpa using husable, by simpa using hresult⟩
        · rw [if_neg (fun hand => hsolver hand.1)] at h
          split_ifs at h with husable hdelta hresult
          cases hbefore : store.readFrame c.before with
          | none => rw [hbefore] at hdelta; simp at hdelta
          | some before =>
              rw [hbefore] at h hdelta hresult
              cases h
              exact .carried hbefore hafter rfl (by simpa using hdelta)
                ⟨by simpa using husable, by simpa using hresult⟩

theorem descendantsOutcome_published {rest : List PoseCommitDescendant} {frames : List P.Frame}
    (h : descendantsOutcome math binding store rest = .published frames) :
    ∀ d ∈ rest, ∃ c frame, binding.candidates[d.candidate]? = some c ∧
      descendantFrame math store c d = some frame ∧ (d, frame) ∈ rest.zip frames := by
  induction rest generalizing frames with
  | nil => simp
  | cons d rest ih =>
      cases FirstOutcome.of_eq h with
      | ended hrest hends => exact absurd rfl (hends _)
      | published hc hframe hrest =>
          intro other hother
          rw [List.zip_cons_cons]
          rcases List.mem_cons.mp hother with rfl | hother
          · exact ⟨_, _, hc, hframe, List.mem_cons_self⟩
          · obtain ⟨c', frame', hc', hframe', hin⟩ := ih hrest other hother
            exact ⟨c', frame', hc', hframe', List.mem_cons_of_mem _ hin⟩

theorem descendantsOutcome_refused {rest : List PoseCommitDescendant}
    (h : descendantsOutcome math binding store rest = .refused) :
    ∃ d ∈ rest, binding.candidates.length ≤ d.candidate := by
  induction rest with
  | nil => cases h
  | cons d rest ih =>
      cases FirstOutcome.of_eq h with
      | missing hc => exact ⟨d, List.mem_cons_self, List.getElem?_eq_none_iff.mp hc⟩
      | ended hrest hends =>
          obtain ⟨other, hother, hle⟩ := ih hrest
          exact ⟨other, List.mem_cons_of_mem _ hother, hle⟩

theorem descendantsOutcome_failed {rest : List PoseCommitDescendant} {text : String}
    (h : descendantsOutcome math binding store rest = .failed text) :
    text = descendantFailure := by
  induction rest with
  | nil => cases h
  | cons d rest ih =>
      cases FirstOutcome.of_eq h with
      | unusable hc hframe => rfl
      | ended hrest hends => exact ih hrest

theorem Ends.passedThrough {result : PoseCommitResult P} {text : String}
    (hcompiled : Compiled binding store) (h : Ends binding store result (.failed text)) :
    PassedThrough binding text store result.store := by
  obtain ⟨-, -, hcommitted⟩ := h
  refine ⟨?_, ?_⟩
  · intro c hc
    rw [hcommitted.candidates c hc, contentAt_input hcompiled (binding.before_mem hc)]
    rfl
  · intro d hd
    rw [hcommitted.rows d hd, contentAt_input hcompiled (binding.current_mem hd)]
    rfl

theorem Ends.published {result : PoseCommitResult P} {frames : List P.Frame}
    (hcompiled : Compiled binding store)
    (hready : binding.candidates.all (candidateReady math store) = true)
    (houtcome : descendantsOutcome math binding store binding.descendants = .published frames)
    (h : Ends binding store result (.published frames)) :
    Published math binding store result.store := by
  obtain ⟨-, -, hcommitted⟩ := h
  have hready := List.all_eq_true.mp hready
  refine ⟨?_, ?_⟩
  · intro c hc
    have hcontent : contentAt result.store c.output = contentAt store c.candidate := by
      rw [hcommitted.candidates c hc, contentAt_input hcompiled (binding.candidate_mem hc)]
    have husable := hready c hc
    unfold candidateReady at husable
    cases hframe : store.readFrame c.candidate with
    | none => rw [hframe] at husable; cases husable
    | some frame =>
        rw [hframe] at husable
        exact ⟨frame, rfl, husable, hcontent⟩
  · intro d hd
    obtain ⟨c, frame, hcandidate, hframe, hrow⟩ := descendantsOutcome_published houtcome d hd
    have hc := hready c (List.mem_of_getElem? hcandidate)
    exact ⟨c, frame, hcandidate, carried_of_descendantFrame hc hframe, hcommitted.rows _ hrow⟩

end

/-- **Pose commits are all or nothing.**  A commit publishes every new frame, or passes every
input through with one failure, or refuses a descendant that names no candidate and publishes
nothing; and what its outputs hold depends on the slots it reads alone. -/
theorem runPoseCommit_atomic {P : Payloads} (cmp : TypedSame P) (math : PoseMath P)
    (binding : PoseCommitBinding) (store : TypedValueStore P) (workspace : PoseCommitWorkspace P)
    (h : Compiled binding store) :
    ∃ result, runPoseCommit cmp math binding store workspace = some result ∧
      Keeps binding.outputs store result.store ∧
      ((result.returned = true ∧ result.message = none ∧
          Published math binding store result.store) ∨
        (result.returned = true ∧ ∃ text, (text = candidateFailure ∨ text = descendantFailure) ∧
          result.message = some text ∧ PassedThrough binding text store result.store) ∨
        (result.returned = false ∧ result.store = store ∧
          ∃ d ∈ binding.descendants, binding.candidates.length ≤ d.candidate)) ∧
      ∀ (store' : TypedValueStore P) (workspace' : PoseCommitWorkspace P),
        Compiled binding store' → SameInputs binding store store' →
        ∃ result', runPoseCommit cmp math binding store' workspace' = some result' ∧
          result'.returned = result.returned ∧ result'.message = result.message ∧
          (result.returned = true → ∀ id ∈ binding.outputs,
            contentAt result'.store id = contentAt result.store id) := by
  obtain ⟨result, hresult, hends⟩ := runPoseCommit_spec cmp math h workspace
  have hframes : ∀ frames, commitOutcome math binding store = .published frames →
      frames.length = binding.descendants.length := by
    intro frames houtcome
    unfold commitOutcome at houtcome
    split_ifs at houtcome
    exact length_frames houtcome
  refine ⟨result, hresult, ?_, ?_, ?_⟩
  · cases houtcome : commitOutcome math binding store with
    | refused =>
        rw [houtcome] at hends
        obtain ⟨-, -, hstore⟩ := hends
        rw [hstore]
        exact ⟨rfl, fun _ _ => rfl⟩
    | failed text | published frames =>
        rw [houtcome] at hends
        exact hends.2.2.keeps
  · unfold commitOutcome at hends
    split_ifs at hends with hready
    · cases houtcome : descendantsOutcome math binding store binding.descendants with
      | refused =>
          rw [houtcome] at hends
          exact .inr (.inr ⟨hends.1, hends.2.2, descendantsOutcome_refused houtcome⟩)
      | failed text =>
          rw [houtcome] at hends
          exact .inr (.inl ⟨hends.1, text, .inr (descendantsOutcome_failed houtcome), hends.2.1,
            hends.passedThrough h⟩)
      | published frames =>
          rw [houtcome] at hends
          exact .inl ⟨hends.1, hends.2.1, hends.published h hready houtcome⟩
    · exact .inr (.inl ⟨hends.1, _, .inl rfl, hends.2.1, hends.passedThrough h⟩)
  · intro store' workspace' hcompiled hinputs
    obtain ⟨result', hresult', hends'⟩ := runPoseCommit_spec cmp math hcompiled workspace'
    rw [commitOutcome_congr hinputs] at hends'
    exact ⟨result', hresult', hends.contents_eq hinputs hframes hends'⟩

/-! ## Frames on a line -/

/-- Frames as places on a line, and deltas as translations. -/
abbrev linePayloads : Payloads where
  Double := Unit
  Single := Unit
  Vec3d := Unit
  Vec3f := Unit
  Matrix := Int
  Frame := Option Int
  Opaque := Unit

/-- A comparison that finds nothing equal. -/
def neverSame (P : Payloads) : TypedSame P := ⟨fun _ _ => false, fun _ _ h => Bool.noConfusion h⟩

def lineMath : PoseMath linePayloads where
  usable := Option.isSome
  prepareDelta before after :=
    match before, after with
    | some (x : Int), some (y : Int) => (true, y - x)
    | _, _ => (false, (0 : Int))
  carry frame delta := frame.map fun (x : Int) => x + (delta : Int)
  empty := none
  newMatrix := (0 : Int)
  newFrame := some 0

/-- A joint moved from 0 to 5, and a child at 7. -/
theorem runPoseCommit_atomic_joint :
    ∃ result, runPoseCommit (neverSame linePayloads) lineMath
        { candidates := [{ before := 0, candidate := 1, output := 2 }],
          descendants := [{ current := 3, output := 4 }] }
        [{ value := .pointFrame (some 0), initialized := true },
          { value := .pointFrame (some 5), initialized := true }, {},
          { value := .pointFrame (some 7), initialized := true }, {}] {} = some result ∧
      contentAt result.store 4 = some (stagedContent (some 12)) := by
  have hcompiled : Compiled
      { candidates := [{ before := 0, candidate := 1, output := 2 }],
        descendants := [{ current := 3, output := 4 }] }
      ([{ value := .pointFrame (some 0), initialized := true },
        { value := .pointFrame (some 5), initialized := true }, {},
        { value := .pointFrame (some 7), initialized := true }, {}] :
        TypedValueStore linePayloads) := ⟨by decide, by decide, by decide⟩
  obtain ⟨result, hresult, -⟩ := runPoseCommit_atomic (neverSame linePayloads) lineMath _ _ {}
    hcompiled
  refine ⟨result, hresult, ?_⟩
  obtain rfl := Option.some.inj hresult
  rfl

/-- A descendant that names no candidate: nothing is published, and nothing passed through. -/
theorem runPoseCommit_noCandidate :
    ¬∀ (binding : PoseCommitBinding) (store : TypedValueStore linePayloads)
      (workspace : PoseCommitWorkspace linePayloads), Compiled binding store →
      ∃ result, runPoseCommit (neverSame linePayloads) lineMath binding store workspace =
          some result ∧
        (Published lineMath binding store result.store ∨
          ∃ text, PassedThrough binding text store result.store) := by
  intro h
  obtain ⟨result, hresult, hends⟩ := h
    { descendants := [{ current := 0, output := 1 }] } [{}, {}] {}
    ⟨by decide, by decide, by decide⟩
  obtain rfl := Option.some.inj hresult
  rcases hends with hpublished | ⟨text, hpassed⟩
  · obtain ⟨c, -, hc, -⟩ := hpublished.descendants _ List.mem_cons_self
    cases hc
  · have hcontent := hpassed.descendants _ List.mem_cons_self
    have hinitialized := congrArg (Option.map SlotContent.initialized) hcontent
    simp [contentAt, passedContent] at hinitialized

end RigExec.Scene
