/-
# `RigExec.Closure.SmallRuns` — publishing small values changes no run

    smallBytes_eq        the small key is the general one, wherever it is not refused
    publishAt_keyedBy    so a publication leaves the same value on either path
    runs_keyedBy         so does a run, whichever of its publications take which path
-/
import RigExec.Closure.SmallValue

namespace RigExec.Closure

open Lib (Bytes)

/-! ## One value -/

section Value

variable {s : OpSources} {domain slot : Nat} {key : SmallKey 192}

theorem SmallKey.Holds.frame {N : Nat} {key : SmallKey N} {appended : Bytes}
    (h : key.Holds appended) (v : PointFrame) : (key.frame v).Holds (opFrame appended v) :=
  (h.append v.points).append v.flags

theorem SmallKey.Holds.plainValue {N : Nat} {key key' : SmallKey N} {appended : Bytes}
    (h : key.Holds appended) (v : PlainValue) (hkey : key.plainValue v = some key') :
    key'.Holds (keyPlainValue appended v) := by
  cases v with
  | monostate =>
      cases hkey
      exact h
  | frame v =>
      cases hkey
      exact h.frame v
  | double v | float v | vec3d v | matrix v | vec3f v | bool v | int32 v | vec2f v | int3 v =>
      cases hkey
      exact h.append v
  | text | floats | doubles | vec3fs | vec3ds | int32s | matrices | texts | bools | vec2fs =>
      cases hkey

theorem holds_read {T : Type} {table : List T} {small : T → SmallKey 192} {general : T → Bytes}
    (h : ∀ v, (small v).Holds (general v)) (hkey : (table[slot]?).map small = some key) :
    ∃ appended, (table[slot]?).map general = some appended ∧ key.Holds appended := by
  obtain ⟨v, hv, rfl⟩ := Option.map_eq_some_iff.mp hkey
  exact ⟨general v, by rw [hv]; rfl, h v⟩

theorem holds_flagged {flags : List UInt8} {values : List Mat4d}
    (hkey : smallFlagged flags values slot = some key) :
    ∃ appended, (do return keyAppend (keyAppend [] (← flags[slot]?)) (← values[slot]?)) =
      some appended ∧ key.Holds appended := by
  obtain ⟨flag, hflag, hrest⟩ := Option.bind_eq_some_iff.mp hkey
  obtain ⟨value, hvalue, hsmall⟩ := Option.bind_eq_some_iff.mp hrest
  cases hsmall
  refine ⟨keyAppend (keyAppend [] flag) value, ?_, ((holds_empty 192).append flag).append value⟩
  rw [hflag, hvalue]
  rfl

theorem holds_staging {poses : Option (List WireCommit)} {commits : List CommitScratch}
    (hkey : (do
      let (c, k) ← stagingOwner slot 0 (← poses)
      let commit ← commits[c]?
      let frame ← commit.staged[k]?
      let outcome ← commit.outcome[k]?
      return ((SmallKey.empty 192).frame frame).append outcome) = some key) :
    ∃ wires c k commit frame outcome, poses = some wires ∧ stagingOwner slot 0 wires = some (c, k) ∧
      commits[c]? = some commit ∧ commit.staged[k]? = some frame ∧
      commit.outcome[k]? = some outcome ∧
      key.Holds (keyAppend (opFrame [] frame) outcome) := by
  obtain ⟨wires, hwires, hrest⟩ := Option.bind_eq_some_iff.mp hkey
  obtain ⟨owner, howner, hrest⟩ := Option.bind_eq_some_iff.mp hrest
  obtain ⟨commit, hcommit, hrest⟩ := Option.bind_eq_some_iff.mp hrest
  obtain ⟨frame, hframe, hrest⟩ := Option.bind_eq_some_iff.mp hrest
  obtain ⟨outcome, houtcome, hsmall⟩ := Option.bind_eq_some_iff.mp hrest
  cases hsmall
  exact ⟨wires, owner.1, owner.2, commit, frame, outcome, hwires, howner, hcommit, hframe, houtcome,
    ((holds_empty 192).frame frame).append outcome⟩

/-- Where the small key is not refused there is a general one, and it is the same while it fits. -/
theorem holds_smallKey (hkey : smallKey s domain slot = some key) :
    ∃ appended, opValue s domain slot = some appended ∧ key.Holds appended := by
  unfold smallKey at hkey
  unfold opValue
  cases hdomain : SlotDomain.ofNat domain with
  | poseBase | poseFin =>
      rw [hdomain] at hkey
      exact holds_read (fun v => (holds_empty 192).frame v) hkey
  | posedM | finalMatrix | baseMatrix | switchFrame | poseWeight =>
      rw [hdomain] at hkey
      exact holds_read (fun v => (holds_empty 192).append v) hkey
  | constraintDelta | weightFrames | weightFramesBase | frameMatrix =>
      rw [hdomain] at hkey
      exact holds_flagged hkey
  | commitStaging =>
      rw [hdomain] at hkey
      obtain ⟨wires, c, k, commit, frame, outcome, hwires, howner, hcommit, hframe, houtcome, hholds⟩ :=
        holds_staging hkey
      refine ⟨_, ?_, hholds⟩
      simp only [hwires, Option.bind_some, bind, howner, hcommit, hframe, houtcome]
      rfl
  | spaceValue =>
      rw [hdomain] at hkey
      obtain ⟨v, hv, hrest⟩ := Option.bind_eq_some_iff.mp hkey
      by_cases herror : v.error = []
      · rw [if_neg (not_not_intro herror)] at hrest
        have hfields := ((((holds_empty 192).append v.initialized).append v.authoritative).append
          v.blocked).append v.count
        refine ⟨_, ?_, ((hfields.append (sizeOf_ v.error)).append v.value.index).plainValue _ hrest⟩
        rw [hv]
        show some (keyPlainValue (keyAppend (keyAppendText _ v.error) v.value.index) v.value) = _
        rw [keyAppendText, herror, List.append_nil]
      · rw [if_pos herror] at hrest
        cases hrest
  | other other =>
      rw [hdomain] at hkey
      cases hkey

theorem smallBytes_eq {bytes : Bytes} (h : smallBytes s domain slot = some bytes) :
    opValue s domain slot = some bytes := by
  obtain ⟨key, hkey, hrest⟩ := Option.bind_eq_some_iff.mp h
  obtain ⟨appended, hvalue, hholds⟩ := holds_smallKey hkey
  split at hrest
  · cases hrest
  · rename_i hfits
    cases hrest
    rw [hvalue, hholds (eq_false_of_ne_true hfits)]

-- three flags, a count, an empty text, the index of the alternative and a frame's flag
example : (smallBytes { providerValues := [{ value := .bool true }] } 32 0).map List.length =
    some 28 := by decide

/-- A publication that is not refused leaves the key, the flag and the revision that the general
one leaves. -/
theorem publishSmallValue_eq {value published : OpValueState}
    (h : publishSmallValue s value = some published) :
    publishOpValue s value = some published := by
  obtain ⟨bytes, hbytes, rfl⟩ := Option.map_eq_some_iff.mp h
  rw [publishOpValue, smallBytes_eq hbytes, publishKeyBytes_eq]
  rfl

end Value

/-! ## Runs -/

section Runs

variable {σ : Type} (program : ClosureProgram σ) (view : σ → OpSources)
  (mixes mixes' : Nat → Nat → σ → Bool)

/-- The program with the keys of both encoders, the small one tried where `mixes` says so. -/
def ClosureProgram.keyedBy : ClosureProgram σ :=
  { program with
    opValue := fun domain slot memory => keyText ((Closure.opValue (view memory) domain slot).getD [])
    smallValue := fun domain slot memory =>
      if mixes domain slot memory then (smallBytes (view memory) domain slot).map keyText
      else none }

theorem publishAt_keyedBy (memory : σ) (value : OpValueState) :
    publishAt (program.keyedBy view mixes) memory value =
      publishValue value
        (keyText ((opValue (view memory) value.domain value.slot).getD [])) := by
  unfold publishAt
  cases hsmall : (program.keyedBy view mixes).smallValue value.domain value.slot memory with
  | none => rfl
  | some text =>
      change (if mixes value.domain value.slot memory = true then
        (smallBytes (view memory) value.domain value.slot).map keyText else none) = some text
        at hsmall
      split at hsmall
      · obtain ⟨bytes, hbytes, rfl⟩ := Option.map_eq_some_iff.mp hsmall
        show publishKeyBytes value (keyText bytes) = _
        rw [publishKeyBytes_eq, smallBytes_eq hbytes]
        rfl
      · cases hsmall

theorem publishAt_mixes :
    publishAt (program.keyedBy view mixes) = publishAt (program.keyedBy view mixes') := by
  funext memory value
  rw [publishAt_keyedBy, publishAt_keyedBy]

theorem publishLeaf_mixes :
    publishLeaf (program.keyedBy view mixes) = publishLeaf (program.keyedBy view mixes') := by
  funext memory adapter id
  unfold publishLeaf
  rw [publishAt_mixes program view mixes mixes']

theorem publishLeaves_mixes :
    publishLeaves (program.keyedBy view mixes) = publishLeaves (program.keyedBy view mixes') := by
  funext full memory slotLeaves adapter
  unfold publishLeaves
  rw [publishLeaf_mixes program view mixes mixes']
  rfl

theorem prepareRun_mixes :
    prepareRun (program.keyedBy view mixes) = prepareRun (program.keyedBy view mixes') := by
  funext forced store
  unfold prepareRun
  rw [publishLeaves_mixes program view mixes mixes']
  rfl

theorem publishWrite_mixes :
    publishWrite (program.keyedBy view mixes) = publishWrite (program.keyedBy view mixes') := by
  funext state id
  unfold publishWrite
  rw [publishAt_mixes program view mixes mixes']
  rfl

theorem closureCallbacks_mixes (skipEffects : List Nat) :
    closureCallbacks (program.keyedBy view mixes) skipEffects =
      closureCallbacks (program.keyedBy view mixes') skipEffects := by
  have hrun : runOp (program.keyedBy view mixes) = runOp (program.keyedBy view mixes') := by
    funext c working
    unfold runOp
    rw [publishWrite_mixes program view mixes mixes']
    rfl
  unfold closureCallbacks
  rw [hrun]
  rfl

variable {program view mixes mixes'}

theorem Runs.remix {forced : Bool} {store store' : Store σ} {runEnd : RunEnd}
    (h : Runs (program.keyedBy view mixes) forced store runEnd store') :
    Runs (program.keyedBy view mixes') forced store runEnd store' := by
  cases h with
  | stopped hstop =>
      rw [prepareRun_mixes program view mixes mixes'] at hstop ⊢
      exact .stopped hstop
  | joined hstop hexecutes =>
      rw [prepareRun_mixes program view mixes mixes'] at hstop hexecutes ⊢
      rw [closureCallbacks_mixes program view mixes mixes'] at hexecutes
      exact .joined hstop hexecutes

theorem History.remix {store : Store σ} {last : Option RunEnd}
    (h : History (program.keyedBy view mixes) store last) :
    History (program.keyedBy view mixes') store last := by
  induction h with
  | compiled => exact .compiled
  | write _ memory owed ih => exact .write ih memory owed
  | run _ hrun ih => exact .run ih hrun.remix

end Runs

/-- A small publication leaves what the general one leaves, and every run and every history of
runs is one of general publications alone, whichever of its own took the small path. -/
theorem small_values_agree {σ : Type} (program : ClosureProgram σ) (view : σ → OpSources) :
    (∀ (s : OpSources) (value published : OpValueState),
      publishSmallValue s value = some published →
        (∃ key, smallBytes s value.domain value.slot = some key ∧
          opValue s value.domain value.slot = some key) ∧
        publishOpValue s value = some published) ∧
    (∀ (mixes : Nat → Nat → σ → Bool) (forced : Bool) (store store' : Store σ) (runEnd : RunEnd),
      Runs (program.keyedBy view mixes) forced store runEnd store' ↔
        Runs (program.keyedBy view fun _ _ _ => false) forced store runEnd store') ∧
    (∀ (mixes : Nat → Nat → σ → Bool) (store : Store σ) (last : Option RunEnd),
      History (program.keyedBy view mixes) store last ↔
        History (program.keyedBy view fun _ _ _ => false) store last) := by
  refine ⟨fun s value published h => ⟨?_, publishSmallValue_eq h⟩,
    fun mixes forced store store' runEnd => ⟨Runs.remix, Runs.remix⟩,
    fun mixes store last => ⟨History.remix, History.remix⟩⟩
  obtain ⟨bytes, hbytes, -⟩ := Option.map_eq_some_iff.mp h
  exact ⟨bytes, hbytes, smallBytes_eq hbytes⟩

end RigExec.Closure
