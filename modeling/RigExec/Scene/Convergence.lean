/-
# `RigExec.Scene.Convergence` — the retries end

The measure of an attempt is the pair of exclusion sets: both hold authored nodes
only, a retry has put one more node into one of them, and there is one attempt
more than there is room for.  So the attempts never run out
(`lowerSceneProgram_converges`), and an attempt that adds nothing has found every
role it set aside already excluded.
-/
import RigExec.Scene.Normalization

namespace RigExec.Scene

open OpGraph (OpExclusionProof)
open Lib (sortUnique)

section

variable {V T Time : Type} {sdfPath : String → SdfPath} {isPrimPath : SdfPath → Bool}
  {scene : SceneDescriptors V T Time} {lowerOnce : LowerOnce}
  {candidate program : SceneProgram} {state state' : NormalizationState} {changed : Bool}

/-! ## Roles -/

/-- How many roles are excluded. -/
def NormalizationState.roles (state : NormalizationState) : Nat :=
  state.excludedPoseWriters.card + state.excludedSolverBodies.card

/-- Only authored nodes are excluded. -/
def Authored (scene : SceneDescriptors V T Time) (state : NormalizationState) : Prop :=
  (∀ owner ∈ state.excludedPoseWriters, owner ∈ scene.nodes.keys) ∧
    ∀ owner ∈ state.excludedSolverBodies, owner ∈ scene.nodes.keys

theorem Authored.roles_le (h : Authored scene state) : state.roles ≤ roleBudget scene := by
  have hcard : ∀ owners : Finset SdfPath, (∀ owner ∈ owners, owner ∈ scene.nodes.keys) →
      owners.card ≤ scene.nodes.size := by
    intro owners howners
    have hsub : owners ⊆ scene.nodes.keys.toFinset := fun owner hin =>
      List.mem_toFinset.mpr (howners owner hin)
    calc owners.card ≤ scene.nodes.keys.toFinset.card := Finset.card_le_card hsub
      _ ≤ scene.nodes.keys.length := List.toFinset_card_le _
      _ = scene.nodes.size := List.length_map _
  have hwriters := hcard _ h.1
  have hbodies := hcard _ h.2
  rw [NormalizationState.roles, roleBudget]
  omega

/-- What excluding does: nothing is admitted again, and a change is one more role. -/
structure Grown (scene : SceneDescriptors V T Time) (state : NormalizationState) (changed : Bool)
    (state' : NormalizationState) : Prop where
  writers : state.excludedPoseWriters ⊆ state'.excludedPoseWriters
  bodies : state.excludedSolverBodies ⊆ state'.excludedSolverBodies
  authored : Authored scene state → Authored scene state'
  more : changed = true → state.roles < state'.roles
  same : changed = false → state'.excludedPoseWriters = state.excludedPoseWriters ∧
    state'.excludedSolverBodies = state.excludedSolverBodies

theorem Grown.refl (state : NormalizationState) : Grown scene state false state where
  writers := Finset.Subset.refl _
  bodies := Finset.Subset.refl _
  authored := id
  more := fun h => absurd h (by decide)
  same := fun _ => ⟨rfl, rfl⟩

theorem Grown.roles_le (h : Grown scene state changed state') : state.roles ≤ state'.roles :=
  Nat.add_le_add (Finset.card_le_card h.writers) (Finset.card_le_card h.bodies)

theorem Grown.trans {changed' : Bool} {state'' : NormalizationState}
    (h : Grown scene state changed state') (h' : Grown scene state' changed' state'') :
    Grown scene state (changed || changed') state'' where
  writers := h.writers.trans h'.writers
  bodies := h.bodies.trans h'.bodies
  authored := fun hauthored => h'.authored (h.authored hauthored)
  more := by
    intro hmore
    rcases Bool.or_eq_true_iff.mp hmore with hmore | hmore
    · exact Nat.lt_of_lt_of_le (h.more hmore) h'.roles_le
    · exact Nat.lt_of_le_of_lt h.roles_le (h'.more hmore)
  same := by
    intro hsame
    obtain ⟨hfirst, hsecond⟩ := Bool.or_eq_false_iff.mp hsame
    obtain ⟨hwriters, hbodies⟩ := h.same hfirst
    obtain ⟨hwriters', hbodies'⟩ := h'.same hsecond
    exact ⟨hwriters'.trans hwriters, hbodies'.trans hbodies⟩

theorem grown_insertWriter {owner : SdfPath} (hnode : owner ∈ scene.nodes.keys) :
    Grown scene state (owner ∉ state.excludedPoseWriters)
      { state with excludedPoseWriters := insert owner state.excludedPoseWriters } where
  writers := Finset.subset_insert _ _
  bodies := Finset.Subset.refl _
  authored := by
    rintro ⟨hwriters, hbodies⟩
    refine ⟨?_, hbodies⟩
    intro other hin
    rcases Finset.mem_insert.mp hin with rfl | hin
    · exact hnode
    · exact hwriters other hin
  more := by
    intro hnew
    simp only [NormalizationState.roles, Finset.card_insert_of_notMem (of_decide_eq_true hnew)]
    omega
  same := by
    intro hold
    exact ⟨Finset.insert_eq_self.mpr (not_not.mp (of_decide_eq_false hold)), rfl⟩

theorem grown_insertBody {owner : SdfPath} (hnode : owner ∈ scene.nodes.keys) :
    Grown scene state (owner ∉ state.excludedSolverBodies)
      { state with excludedSolverBodies := insert owner state.excludedSolverBodies } where
  writers := Finset.Subset.refl _
  bodies := Finset.subset_insert _ _
  authored := by
    rintro ⟨hwriters, hbodies⟩
    refine ⟨hwriters, ?_⟩
    intro other hin
    rcases Finset.mem_insert.mp hin with rfl | hin
    · exact hnode
    · exact hbodies other hin
  more := by
    intro hnew
    simp only [NormalizationState.roles, Finset.card_insert_of_notMem (of_decide_eq_true hnew)]
    omega
  same := by
    intro hold
    exact ⟨rfl, Finset.insert_eq_self.mpr (not_not.mp (of_decide_eq_false hold))⟩

/-! ## What is set aside -/

theorem excludeSolver_ok {key : String}
    (h : excludeSolver sdfPath isPrimPath scene key state = .ok (changed, state')) :
    Grown scene state changed state' ∧
      sdfPath (substr key 7) ∈ state'.excludedSolverBodies := by
  unfold excludeSolver at h
  split at h
  · cases h
  · dsimp only at h
    split at h
    · cases h
    · rename_i node hnode
      split at h
      · cases h
      · cases h
        exact ⟨grown_insertBody (Lib.OrderedMap.mem_keys_iff.mpr ⟨node, hnode⟩),
          Finset.mem_insert_self _ _⟩

theorem excludeCommit_ok {key : String}
    (h : excludeCommit sdfPath isPrimPath scene key state = .ok (changed, state')) :
    Grown scene state changed state' ∧ commitOwner sdfPath key ∈ state'.excludedPoseWriters := by
  unfold excludeCommit at h
  dsimp only at h
  by_cases hbegins : startsWith key (commitPrefix key) = false
  · rw [if_pos hbegins] at h
    cases h
  · rw [if_neg hbegins] at h
    cases hnode : scene.node (commitOwner sdfPath key) with
    | none => rw [hnode] at h; cases h
    | some node =>
        rw [hnode] at h
        dsimp only at h
        -- the two refusals: the node's domain, and the writer bindings
        split_ifs at h <;> cases h
        all_goals exact ⟨grown_insertWriter (Lib.OrderedMap.mem_keys_iff.mpr ⟨node, hnode⟩),
          Finset.mem_insert_self _ _⟩

/-- The owner of a role is excluded. -/
def RoleExcluded (sdfPath : String → SdfPath) (state : NormalizationState) (key : String) :
    SceneOperation → Prop
  | .solver => sdfPath (substr key 7) ∈ state.excludedSolverBodies
  | .poseCommit => commitOwner sdfPath key ∈ state.excludedPoseWriters
  | _ => True

theorem Grown.roleExcluded (h : Grown scene state changed state') {key : String}
    {operation : SceneOperation} (hrole : RoleExcluded sdfPath state key operation) :
    RoleExcluded sdfPath state' key operation := by
  cases operation with
  | solver => exact h.bodies hrole
  | poseCommit => exact h.writers hrole
  | extract => trivial
  | constraint => trivial
  | switch => trivial
  | autoClavicle => trivial
  | field => trivial
  | geometry => trivial
  | other => trivial

/-- An operation is in the graph, or its role is excluded. -/
def Settled (sdfPath : String → SdfPath) (program : SceneProgram) (state : NormalizationState)
    (i : Nat) (operation : SceneOperation) : Prop :=
  ∃ place, program.graph.canonicalIndex[program.descriptorIndex i]? = some place ∧
    (place < 0 → RoleExcluded sdfPath state (program.keyAt i) operation)

theorem excludeOperation_ok {key : String} {operation : SceneOperation}
    (h : excludeOperation sdfPath isPrimPath scene key state operation = .ok (changed, state')) :
    Grown scene state changed state' ∧ RoleExcluded sdfPath state' key operation := by
  cases operation with
  | solver => exact excludeSolver_ok h
  | poseCommit => exact excludeCommit_ok h
  | extract => cases h; exact ⟨.refl _, trivial⟩
  | constraint => cases h; exact ⟨.refl _, trivial⟩
  | switch => cases h; exact ⟨.refl _, trivial⟩
  | autoClavicle => cases h; exact ⟨.refl _, trivial⟩
  | field => cases h; exact ⟨.refl _, trivial⟩
  | geometry => cases h; exact ⟨.refl _, trivial⟩
  | other => cases h; exact ⟨.refl _, trivial⟩

/-- **What the first loop of an attempt does.** -/
theorem excludeOperations_ok {i : Nat} {operations : List SceneOperation} {changed₀ : Bool}
    (h : excludeOperations sdfPath isPrimPath scene candidate i operations (changed₀, state) =
      .ok (changed, state')) :
    ∃ more, changed = (changed₀ || more) ∧ Grown scene state more state' ∧
      ∀ k operation, operations[k]? = some operation →
        Settled sdfPath candidate state' (i + k) operation := by
  induction operations generalizing i changed₀ state with
  | nil =>
      cases h
      exact ⟨false, (Bool.or_false _).symm, .refl _, by simp⟩
  | cons operation rest ih =>
      -- one operation, then the rest from the state it leaves
      have hone : ∃ inserted between, Grown scene state inserted between ∧
          Settled sdfPath candidate between i operation ∧
          excludeOperations sdfPath isPrimPath scene candidate (i + 1) rest
            (changed₀ || inserted, between) = .ok (changed, state') := by
        rw [excludeOperations] at h
        cases hplace : candidate.graph.canonicalIndex[candidate.descriptorIndex i]? with
        | none => rw [hplace] at h; cases h
        | some place =>
            rw [hplace] at h
            dsimp only at h
            by_cases hkept : place ≥ 0
            · rw [if_pos hkept] at h
              refine ⟨false, state, .refl _, ⟨place, hplace, ?_⟩, by rwa [Bool.or_false]⟩
              intro hneg
              omega
            · rw [if_neg hkept] at h
              cases hexcluded : excludeOperation sdfPath isPrimPath scene (candidate.keyAt i) state
                  operation with
              | error fault => rw [hexcluded] at h; cases h
              | ok found =>
                  rw [hexcluded] at h
                  obtain ⟨hgrown, hrole⟩ := excludeOperation_ok hexcluded
                  exact ⟨found.1, found.2, hgrown, ⟨place, hplace, fun _ => hrole⟩, h⟩
      obtain ⟨inserted, between, hgrown, ⟨place, hplace, hfirst⟩, hrest⟩ := hone
      obtain ⟨more, hmore, hgrown', hroles⟩ := ih hrest
      refine ⟨inserted || more, by rw [hmore, Bool.or_assoc], hgrown.trans hgrown', ?_⟩
      intro k found hk
      cases k with
      | zero =>
          obtain rfl : operation = found := by simpa using hk
          exact ⟨place, hplace, fun hneg => hgrown'.roleExcluded (hfirst hneg)⟩
      | succ k =>
          have hshift : i + (k + 1) = i + 1 + k := by omega
          rw [hshift]
          exact hroles k found (by simpa using hk)

/-- The proof is about the candidate's cycles, and splits their members in two. -/
structure ProofOf (program : SceneProgram) (proof : OpExclusionProof) : Prop where
  cycles : proof.cycles = program.graph.cycles
  cycleMembers : proof.cycleMembers = program.graph.cycleMembers
  members : ∀ key, key ∈ proof.keys ∨ key ∈ proof.removedKeys ↔
    ∃ component ∈ program.graph.cycleMembers, key ∈ component
  disjoint : ∀ key ∈ proof.keys, key ∉ proof.removedKeys
  keysNodup : proof.keys.Nodup
  removedNodup : proof.removedKeys.Nodup

theorem proofOf_exclusionProofOf (candidate : SceneProgram) (state : NormalizationState) :
    ProofOf candidate (exclusionProofOf candidate state) where
  cycles := rfl
  cycleMembers := rfl
  members := by
    intro key
    have hmem : key ∈ sortUnique candidate.graph.cycleMembers.flatten ↔
        ∃ component ∈ candidate.graph.cycleMembers, key ∈ component := by
      rw [Lib.mem_sortUnique, List.mem_flatten]
    rw [← hmem]
    simp only [exclusionProofOf, List.mem_filter]
    cases withdrawn state key <;> simp
  disjoint := by
    intro key hkept hremoved
    simp only [exclusionProofOf, List.mem_filter] at hkept hremoved
    simp [hremoved.2] at hkept
  keysNodup := (Lib.ascending_sortUnique _).nodup.filter _
  removedNodup := (Lib.ascending_sortUnique _).nodup.filter _

theorem examineCandidate_ok
    (h : examineCandidate sdfPath isPrimPath scene candidate state = .ok (changed, state')) :
    Grown scene state changed state' ∧ ProofOf candidate state'.proof ∧
      ∀ i operation, candidate.operations[i]? = some operation →
        Settled sdfPath candidate state' i operation := by
  unfold examineCandidate at h
  split at h
  · cases h
  · rename_i changed' between hexcluded
    obtain ⟨more, rfl, hgrown, hroles⟩ := excludeOperations_ok hexcluded
    split at h
    · cases h
    · split at h
      · cases h
      · cases h
        refine ⟨?_, proofOf_exclusionProofOf candidate _, ?_⟩
        · exact ⟨hgrown.writers, hgrown.bodies, hgrown.authored, hgrown.more, hgrown.same⟩
        · intro i operation hi
          obtain ⟨place, hplace, hrole⟩ := hroles i operation hi
          rw [Nat.zero_add] at hplace hrole
          refine ⟨place, hplace, ?_⟩
          intro hneg
          have hrole := hrole hneg
          cases operation <;> exact hrole

/-! ## No attempt gives up

The last message is the loop's own: nothing an attempt calls returns it. -/

section

variable (sdfPath isPrimPath scene candidate lowerOnce)

theorem excludeSolver_faults (key : String) (state : NormalizationState) :
    excludeSolver sdfPath isPrimPath scene key state ≠ .error .notConverged := by
  unfold excludeSolver
  dsimp only
  split_ifs
  · simp
  · cases scene.node (sdfPath (substr key 7)) with
    | none => simp
    | some node => dsimp only; split_ifs <;> simp

theorem excludeCommit_faults (key : String) (state : NormalizationState) :
    excludeCommit sdfPath isPrimPath scene key state ≠ .error .notConverged := by
  unfold excludeCommit
  dsimp only
  by_cases hbegins : startsWith key (commitPrefix key) = false
  · rw [if_pos hbegins]
    simp
  · rw [if_neg hbegins]
    cases scene.node (commitOwner sdfPath key) with
    | none => simp
    | some node => dsimp only; split_ifs <;> simp

theorem excludeOperation_faults (key : String) (state : NormalizationState)
    (operation : SceneOperation) :
    excludeOperation sdfPath isPrimPath scene key state operation ≠ .error .notConverged := by
  cases operation with
  | solver => exact excludeSolver_faults sdfPath isPrimPath scene key state
  | poseCommit => exact excludeCommit_faults sdfPath isPrimPath scene key state
  | _ => simp [excludeOperation]

theorem excludeOperations_faults (i : Nat) (operations : List SceneOperation)
    (found : Bool × NormalizationState) :
    excludeOperations sdfPath isPrimPath scene candidate i operations found ≠
      .error .notConverged := by
  induction operations generalizing i found with
  | nil => simp [excludeOperations]
  | cons operation rest ih =>
      obtain ⟨changed, state⟩ := found
      rw [excludeOperations]
      cases candidate.graph.canonicalIndex[candidate.descriptorIndex i]? with
      | none => simp
      | some place =>
          dsimp only
          split_ifs
          · exact ih _ _
          · have hone := excludeOperation_faults sdfPath isPrimPath scene (candidate.keyAt i)
              state operation
            split
            · rename_i fault hfault
              rwa [hfault] at hone
            · exact ih _ _

theorem jointOwners_faults (key : String) (element : Nat) (bindings : List JointBindingDescriptor)
    (owners : List (String × SdfPath)) :
    jointOwners key element bindings owners ≠ .error .notConverged := by
  induction bindings generalizing owners with
  | nil => simp [jointOwners]
  | cons binding rest ih =>
      rw [jointOwners]
      split_ifs
      · cases findOwner owners key with
        | none => exact ih _
        | some owner =>
            dsimp only
            split_ifs
            · simp
            · exact ih _
      · exact ih _

theorem operationOwners_faults (key : String) (owners : List (String × SdfPath))
    (operation : SceneOperation) :
    operationOwners sdfPath isPrimPath scene key owners operation ≠ .error .notConverged := by
  cases operation with
  | poseCommit => simp only [operationOwners]; split_ifs <;> simp
  | extract element => exact jointOwners_faults key element _ _
  | _ => simp [operationOwners]

theorem gatherOwners_faults (i : Nat) (operations : List SceneOperation)
    (owners : List (String × SdfPath)) :
    gatherOwners sdfPath isPrimPath scene candidate i operations owners ≠
      .error .notConverged := by
  induction operations generalizing i owners with
  | nil => simp [gatherOwners]
  | cons operation rest ih =>
      have hone := operationOwners_faults sdfPath isPrimPath scene (candidate.keyAt i) owners
        operation
      rw [gatherOwners]
      split
      · rename_i fault hfault
        rwa [hfault] at hone
      · exact ih _ _

theorem gatherDrivers_faults (i : Nat) (operations : List SceneOperation)
    (drivers : List (String × SdfPath)) :
    gatherDrivers candidate i operations drivers ≠ .error .notConverged := by
  induction operations generalizing i drivers with
  | nil => simp [gatherDrivers]
  | cons operation rest ih =>
      cases operation with
      | geometry mover target driver =>
          rw [gatherDrivers]
          dsimp only
          split_ifs
          · exact ih _ _
          · simp
          · exact ih _ _
          · exact ih _ _
      | _ => exact ih _ _

theorem examineCandidate_faults (state : NormalizationState) :
    examineCandidate sdfPath isPrimPath scene candidate state ≠ .error .notConverged := by
  have hexclude := excludeOperations_faults sdfPath isPrimPath scene candidate 0
    candidate.operations (false, state)
  unfold examineCandidate
  split
  · rename_i fault hfault
    rw [hfault] at hexclude
    simpa using hexclude
  · rename_i changed state _
    have howners := gatherOwners_faults sdfPath isPrimPath scene candidate 0 candidate.operations
      state.removableOwners
    have hdrivers := gatherDrivers_faults candidate 0 candidate.operations
      state.removableGeometryDrivers
    split
    · rename_i fault hfault
      rw [hfault] at howners
      simpa using howners
    · split
      · rename_i fault hfault
        rw [hfault] at hdrivers
        simpa using hdrivers
      · simp

theorem attempt_faults (state : NormalizationState) :
    attempt sdfPath isPrimPath scene lowerOnce state ≠ .error .notConverged := by
  unfold attempt
  split
  · simp
  · rename_i candidate _
    have hexamine := examineCandidate_faults sdfPath isPrimPath scene candidate state
    split
    · rename_i fault hfault
      rw [hfault] at hexamine
      simpa using hexamine
    · split_ifs <;> simp

end

/-! ## What an attempt leaves -/

/-- A retry excludes what was excluded, and one more solver body or pose writer. -/
def Retried (scene : SceneDescriptors V T Time) (state state' : NormalizationState) : Prop :=
  state.excludedPoseWriters ⊆ state'.excludedPoseWriters ∧
    state.excludedSolverBodies ⊆ state'.excludedSolverBodies ∧
    ∃ owner ∈ scene.nodes.keys,
      (owner ∈ state'.excludedPoseWriters ∧ owner ∉ state.excludedPoseWriters) ∨
        (owner ∈ state'.excludedSolverBodies ∧ owner ∉ state.excludedSolverBodies)

/-- The program an attempt from `state` ends with. -/
structure Normalized (sdfPath : String → SdfPath) (lowerOnce : LowerOnce)
    (state : NormalizationState) (program : SceneProgram) : Prop where
  lowered : ∃ candidate,
    lowerOnce state.excludedPoseWriters state.excludedSolverBodies state.proof = .ok candidate ∧
      program = { candidate with retainedExclusions := program.retainedExclusions }
  settled : ∀ i operation, program.operations[i]? = some operation →
    Settled sdfPath program state i operation
  proof : ProofOf program program.retainedExclusions

theorem attempt_retry
    (h : attempt sdfPath isPrimPath scene lowerOnce state = .ok (.inr state')) :
    Grown scene state true state' := by
  unfold attempt at h
  split at h
  · cases h
  · split at h
    · cases h
    · rename_i changed between hexamined
      obtain ⟨hgrown, -, -⟩ := examineCandidate_ok hexamined
      cases changed with
      | true => cases h; exact hgrown
      | false => cases h

theorem attempt_done
    (h : attempt sdfPath isPrimPath scene lowerOnce state = .ok (.inl program)) :
    Normalized sdfPath lowerOnce state program := by
  unfold attempt at h
  split at h
  · cases h
  · rename_i candidate hlowered
    split at h
    · cases h
    · rename_i changed between hexamined
      obtain ⟨hgrown, hproof, hsettled⟩ := examineCandidate_ok hexamined
      cases changed with
      | true => cases h
      | false =>
          cases h
          refine ⟨⟨candidate, hlowered, rfl⟩, ?_, ⟨hproof.1, hproof.2, hproof.3, hproof.4,
            hproof.5, hproof.6⟩⟩
          intro i operation hi
          obtain ⟨place, hplace, hrole⟩ := hsettled i operation hi
          refine ⟨place, hplace, ?_⟩
          -- nothing was added, so the sets are those the candidate was lowered with
          intro hneg
          have hrole := hrole hneg
          obtain ⟨hwriters, hbodies⟩ := hgrown.same rfl
          cases operation with
          | solver => exact hbodies.subset hrole
          | poseCommit => exact hwriters.subset hrole
          | _ => trivial

theorem Grown.retried (hauthored : Authored scene state) (h : Grown scene state true state') :
    Retried scene state state' := by
  refine ⟨h.writers, h.bodies, ?_⟩
  have hmore := h.more rfl
  obtain ⟨hwriters, hbodies⟩ := h.authored hauthored
  by_cases hsame : state'.excludedPoseWriters ⊆ state.excludedPoseWriters
  · have hcard := Finset.card_le_card hsame
    have hlt : state.excludedSolverBodies.card < state'.excludedSolverBodies.card := by
      rw [NormalizationState.roles, NormalizationState.roles] at hmore
      omega
    obtain ⟨owner, hin, hout⟩ := Finset.exists_mem_notMem_of_card_lt_card hlt
    exact ⟨owner, hbodies owner hin, .inr ⟨hin, hout⟩⟩
  · obtain ⟨owner, hin, hout⟩ := Finset.not_subset.mp hsame
    exact ⟨owner, hwriters owner hin, .inl ⟨hin, hout⟩⟩

/-! ## The runs -/

variable (sdfPath isPrimPath scene lowerOnce) in
/-- The states the attempts start from, with the number of the attempt. -/
inductive Attempted : Nat → NormalizationState → Prop where
  | first : Attempted 0 {}
  | retry {n : Nat} {state state' : NormalizationState} (hbefore : Attempted n state)
      (hretry : attempt sdfPath isPrimPath scene lowerOnce state = .ok (.inr state')) :
      Attempted (n + 1) state'

theorem authored_first : Authored scene {} :=
  ⟨fun _ h => absurd h (Finset.notMem_empty _), fun _ h => absurd h (Finset.notMem_empty _)⟩

theorem Attempted.bounds {n : Nat} (h : Attempted sdfPath isPrimPath scene lowerOnce n state) :
    Authored scene state ∧ n ≤ state.roles := by
  induction h with
  | first => exact ⟨authored_first, Nat.zero_le _⟩
  | retry _ hretry ih =>
      have hgrown := attempt_retry hretry
      exact ⟨hgrown.authored ih.1, Nat.lt_of_le_of_lt ih.2 (hgrown.more rfl)⟩

/-- **The attempts that are left never run out.** -/
theorem attempts_converge {n left : Nat}
    (hstate : Attempted sdfPath isPrimPath scene lowerOnce n state)
    (hleft : roleBudget scene < n + left) :
    attempts sdfPath isPrimPath scene lowerOnce left state ≠ .error .notConverged := by
  induction left generalizing n state with
  | zero =>
      obtain ⟨hauthored, hn⟩ := hstate.bounds
      have hroles := hauthored.roles_le
      omega
  | succ left ih =>
      have hfaults := attempt_faults sdfPath isPrimPath scene lowerOnce state
      rw [attempts]
      cases hattempt : attempt sdfPath isPrimPath scene lowerOnce state with
      | error fault =>
          rw [hattempt] at hfaults
          simpa using hfaults
      | ok outcome =>
          cases outcome with
          | inl program => simp
          | inr state' => exact ih (.retry hstate hattempt) (by omega)

theorem attempts_ok {n left : Nat}
    (hstate : Attempted sdfPath isPrimPath scene lowerOnce n state)
    (h : attempts sdfPath isPrimPath scene lowerOnce left state = .ok program) :
    ∃ last final, Attempted sdfPath isPrimPath scene lowerOnce last final ∧
      Normalized sdfPath lowerOnce final program := by
  induction left generalizing n state with
  | zero => cases h
  | succ left ih =>
      rw [attempts] at h
      cases hattempt : attempt sdfPath isPrimPath scene lowerOnce state with
      | error fault => rw [hattempt] at h; cases h
      | ok outcome =>
          rw [hattempt] at h
          cases outcome with
          | inl found => cases h; exact ⟨n, state, hstate, attempt_done hattempt⟩
          | inr state' => exact ih (.retry hstate hattempt) h

end

/-- **The normalization converges.**  The loop's own message is never returned; an
attempt fails, ends, or excludes one more authored role, within the budget; the program
of a success has every solver body and pose writer it left out excluded, and a proof
about its own cycles; a failure leaves the destination as it was. -/
theorem lowerSceneProgram_converges {V T Time : Type} (sdfPath : String → SdfPath)
    (isPrimPath : SdfPath → Bool) (scene : SceneDescriptors V T Time) (lowerOnce : LowerOnce)
    (destination : Option SceneProgram) :
    (lowerSceneProgram sdfPath isPrimPath scene lowerOnce destination).1 ≠
        .error .notConverged ∧
      (∀ n state, Attempted sdfPath isPrimPath scene lowerOnce n state →
        n ≤ roleBudget scene ∧
          ((∃ fault, attempt sdfPath isPrimPath scene lowerOnce state = .error fault) ∨
            (∃ program, attempt sdfPath isPrimPath scene lowerOnce state = .ok (.inl program)) ∨
            ∃ state', attempt sdfPath isPrimPath scene lowerOnce state = .ok (.inr state') ∧
              Retried scene state state')) ∧
      (∀ fault, (lowerSceneProgram sdfPath isPrimPath scene lowerOnce destination).1 =
          .error fault →
        (lowerSceneProgram sdfPath isPrimPath scene lowerOnce destination).2 = destination) ∧
      ((lowerSceneProgram sdfPath isPrimPath scene lowerOnce destination).1 = .ok () →
        ∃ program n state,
          (lowerSceneProgram sdfPath isPrimPath scene lowerOnce destination).2 = some program ∧
          Attempted sdfPath isPrimPath scene lowerOnce n state ∧
          Normalized sdfPath lowerOnce state program) := by
  refine ⟨?_, ?_, ?_, ?_⟩
  · unfold lowerSceneProgram
    cases destination with
    | none => simp
    | some was =>
        have hruns : attempts sdfPath isPrimPath scene lowerOnce (roleBudget scene + 1) {} ≠
            .error .notConverged := attempts_converge .first (by omega)
        dsimp only
        split_ifs
        · simp
        · split
          · rename_i fault hfault
            intro he
            rw [hfault] at hruns
            exact hruns (by simpa using he)
          · simp
  · intro n state hstate
    obtain ⟨hauthored, hn⟩ := hstate.bounds
    refine ⟨hn.trans hauthored.roles_le, ?_⟩
    cases hattempt : attempt sdfPath isPrimPath scene lowerOnce state with
    | error fault => exact .inl ⟨fault, rfl⟩
    | ok outcome =>
        cases outcome with
        | inl program => exact .inr (.inl ⟨program, rfl⟩)
        | inr state' =>
            exact .inr (.inr ⟨state', rfl, (attempt_retry hattempt).retried hauthored⟩)
  · intro fault
    unfold lowerSceneProgram
    cases destination with
    | none => exact fun _ => rfl
    | some was =>
        dsimp only
        split_ifs
        · exact fun _ => rfl
        · split
          · exact fun _ => rfl
          · intro he
            cases he
  · unfold lowerSceneProgram
    cases destination with
    | none => intro he; cases he
    | some was =>
        dsimp only
        split_ifs
        · intro he
          cases he
        · split
          · intro he
            cases he
          · rename_i program hprogram
            intro _
            obtain ⟨n, state, hstate, hnormal⟩ := attempts_ok .first hprogram
            exact ⟨program, n, state, rfl, hstate, hnormal⟩

end RigExec.Scene
