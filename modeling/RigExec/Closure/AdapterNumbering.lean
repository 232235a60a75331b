/-
# `RigExec.Closure.AdapterNumbering` — which steps are numbered, and how

    bindWrites_ok, bindOps_ok          a slot has one producing step
    requiredOps_ok, bindSemantic_ok    every required key has a descriptor
    bindReads_ok, bindAllReads_ok      a read has a producer or is sampled
    numberSteps_ok                     all of them: `Admissible`

Each loop succeeds exactly under its condition, and its result is the slots found
so far with the descriptors over them.
-/
import RigExec.Closure.Numbering

namespace RigExec.Closure

open RigExec.OpGraph

section

variable {Step Range : Type} (backend : AdapterBackend Step Range)

namespace AdapterBackend

/-- The slots any of the steps writes. -/
def written (steps : List Step) : List TypedSlot := steps.flatMap backend.writeSlots

/-- The slots any of the steps reads. -/
def readBy (steps : List Step) : List TypedSlot := steps.flatMap backend.readSlots

/-- No two steps produce a slot. -/
def Single (steps : List Step) : Prop :=
  steps.Pairwise fun a b => ∀ typed ∈ backend.writeSlots a, typed ∉ backend.writeSlots b

/-- What the loops over the steps accept. -/
structure Admissible (steps : List Step) (semanticPredecessors : Option (Nat → List String)) :
    Prop where
  single : backend.Single steps
  required : ∀ semantic, semanticPredecessors = some semantic → ∀ i < steps.length,
    ∀ key ∈ semantic i, key ∈ steps.map backend.key
  sourced : ∀ step ∈ steps, ∀ typed ∈ backend.readSlots step, typed ∈ backend.written steps ∨
    backend.sampled (ofLex typed).1 (ofLex typed).2 = true

/-- A step over the slots `slots`, before its predecessors are known. -/
def describeWrites (slots : List TypedSlot) (step : Step) : OpDescriptor where
  key := backend.key step
  kind := backend.kind step
  volatileInput := backend.externalReads step
  writes := (backend.writeSlots step).map slots.idxOf

/-- The places of the keys the `i`th descriptor requires. -/
def requiredAt (semanticPredecessors : Option (Nat → List String)) (steps : List Step) (i : Nat) :
    List Nat :=
  match semanticPredecessors with
  | none => []
  | some semantic => (semantic i).map (steps.map backend.key).idxOf

/-- The descriptors of the steps, every id the place of its slot in `slots`. -/
def describeSteps (semanticPredecessors : Option (Nat → List String)) (slots : List TypedSlot)
    (steps : List Step) : List OpDescriptor :=
  steps.mapIdx fun i step =>
    { backend.describeWrites slots step with
      predecessors := backend.requiredAt semanticPredecessors steps i
      reads := (backend.readSlots step).map slots.idxOf }

/-- The slots in the order the loops find them. -/
def foundSlots (steps : List Step) : List TypedSlot :=
  findSlots (findSlots [] (backend.written steps)) (backend.readBy steps)

end AdapterBackend

variable {backend} {n : Numbering} {slots : List TypedSlot} {steps rest : List Step} {i : Nat}
  {writers : TypedSlot → Option Nat}

/-! ## Writes -/

/-- **One step's writes** are bound exactly when no other step has claimed one of them. -/
theorem bindWrites_ok (h : n.Indexed)
    {result : Numbering × (TypedSlot → Option Nat) × List ValueId} :
    bindWrites backend steps i slots n writers = .ok result ↔
      (∀ typed ∈ slots, ∀ j, writers typed = some j → j = i) ∧
      result = (n.addAll slots, fun typed => if typed ∈ slots then some i else writers typed,
        slots.map (n.addAll slots).slots.idxOf) := by
  induction slots generalizing n writers result with
  | nil => simp [bindWrites, Numbering.addAll, eq_comm]
  | cons typed slots ih =>
      have hadd : n.addAll (typed :: slots) = (n.valueOf typed).1.addAll slots := rfl
      rw [List.forall_mem_cons, hadd]
      by_cases hfound : ∀ j, writers typed = some j → j = i
      · have hgetD : (writers typed).getD i = i := by
          cases hwriter : writers typed with
          | none => rfl
          | some j => exact hfound j hwriter
        have hrest : (∀ other ∈ slots, ∀ j, Function.update writers typed (some i) other = some j →
            j = i) ↔ ∀ other ∈ slots, ∀ j, writers other = some j → j = i := by
          refine forall_congr' fun other => forall_congr' fun _ => forall_congr' fun j => ?_
          by_cases hother : other = typed
          · subst hother
            rw [Function.update_self]
            exact ⟨fun _ => hfound j, fun _ heq => (Option.some.inj heq).symm⟩
          · rw [Function.update_of_ne hother]
        have hwriters : (fun other => if other ∈ slots then some i
            else Function.update writers typed (some i) other) =
            fun other => if other ∈ typed :: slots then some i else writers other := by
          funext other
          by_cases hother : other = typed
          · subst hother
            simp
          · simp [List.mem_cons, hother]
        have hid : (n.valueOf typed).2 = ((n.valueOf typed).1.addAll slots).slots.idxOf typed := by
          rw [((h.valueOf typed).addAll slots).2, h.valueOf_id,
            idxOf_prefix (findSlots_isPrefix_of _ _)]
          rw [h.slots_valueOf]
          split_ifs with hin
          · exact hin
          · exact List.mem_append_right _ (List.mem_singleton_self _)
        rw [bindWrites]
        simp only [hgetD, ne_eq, not_true_eq_false, ↓reduceIte]
        cases hbind : bindWrites backend steps i slots (n.valueOf typed).1
            (Function.update writers typed (some i)) with
        | error message =>
            refine iff_of_false (fun heq => (nomatch heq)) ?_
            rintro ⟨⟨-, hcond⟩, -⟩
            have := (ih (h.valueOf typed)).mpr ⟨hrest.mpr hcond, rfl⟩
            rw [hbind] at this
            cases this
        | ok bound =>
            obtain ⟨hcond, rfl⟩ := (ih (h.valueOf typed)).mp hbind
            rw [Except.ok.injEq, hwriters, List.map_cons, ← hid]
            exact ⟨fun heq => ⟨⟨hfound, hrest.mp hcond⟩, heq.symm⟩, fun hboth => hboth.2.symm⟩
      · have hne : (writers typed).getD i ≠ i := by
          intro hgetD
          refine hfound fun j hj => ?_
          rw [hj] at hgetD
          exact hgetD
        rw [bindWrites]
        simp only [ne_eq, hne, not_false_eq_true, ↓reduceIte]
        exact iff_of_false (fun heq => (nomatch heq)) fun hboth => hfound hboth.1.1

theorem Numbering.addAll_append (n : Numbering) (slots more : List TypedSlot) :
    n.addAll (slots ++ more) = (n.addAll slots).addAll more := List.foldl_append ..

theorem Numbering.addLeaves_append (n : Numbering) (slots more : List TypedSlot) :
    n.addLeaves (slots ++ more) = (n.addLeaves slots).addLeaves more := List.foldl_append ..

/-- **The first loop** accepts exactly the steps of which no two produce a slot. -/
theorem bindOps_ok (h : n.Indexed) (hearlier : ∀ typed j, writers typed = some j → j < i)
    {result : Numbering × List OpDescriptor} :
    bindOps backend steps i rest n writers = .ok result ↔
      (backend.Single rest ∧ ∀ typed ∈ backend.written rest, writers typed = none) ∧
      result = (n.addAll (backend.written rest),
        rest.map (backend.describeWrites (n.addAll (backend.written rest)).slots)) := by
  induction rest generalizing n writers i result with
  | nil => simp [bindOps, AdapterBackend.Single, AdapterBackend.written, Numbering.addAll, eq_comm]
  | cons step rest ih =>
      have hwritten : backend.written (step :: rest) =
          backend.writeSlots step ++ backend.written rest := List.flatMap_cons
      rw [hwritten, Numbering.addAll_append, bindOps]
      have hclaim : (∀ typed ∈ backend.writeSlots step, ∀ j, writers typed = some j → j = i) ↔
          ∀ typed ∈ backend.writeSlots step, writers typed = none := by
        refine forall_congr' fun typed => forall_congr' fun _ => ?_
        constructor
        · intro hall
          cases hwriter : writers typed with
          | none => rfl
          | some j => exact absurd (hall j hwriter) (Nat.ne_of_lt (hearlier typed j hwriter))
        · intro hnone j hj
          rw [hnone] at hj
          cases hj
      have hbound := fun result =>
        @bindWrites_ok _ _ backend n (backend.writeSlots step) steps i writers h result
      cases hbind : bindWrites backend steps i (backend.writeSlots step) n writers with
      | error message =>
          refine iff_of_false (fun heq => (nomatch heq)) ?_
          rintro ⟨⟨-, hfree⟩, -⟩
          rw [(hbound _).mpr ⟨hclaim.mpr fun typed htyped =>
            hfree typed (List.mem_append_left _ htyped), rfl⟩] at hbind
          cases hbind
      | ok bound =>
          obtain ⟨hclaimed, rfl⟩ := (hbound _).mp hbind
          have hindexed := h.addAll (backend.writeSlots step)
          have hlater : ∀ typed j, (if typed ∈ backend.writeSlots step then some i
              else writers typed) = some j → j < i + 1 := by
            intro typed j hj
            split_ifs at hj with hin
            · exact Option.some.inj hj ▸ Nat.lt_succ_self i
            · exact Nat.lt_succ_of_lt (hearlier typed j hj)
          have hsplit : ((backend.Single rest ∧ ∀ typed ∈ backend.written rest,
              (if typed ∈ backend.writeSlots step then some i else writers typed) = none) ↔
              backend.Single (step :: rest) ∧
                ∀ typed ∈ backend.writeSlots step ++ backend.written rest, writers typed = none) := by
            constructor
            · rintro ⟨hsingle, hfree⟩
              refine ⟨List.pairwise_cons.mpr ⟨?_, hsingle⟩, ?_⟩
              · intro other hother typed htyped hin
                have := hfree typed (List.mem_flatMap.mpr ⟨other, hother, hin⟩)
                rw [if_pos htyped] at this
                cases this
              · intro typed htyped
                rcases List.mem_append.mp htyped with htyped | htyped
                · exact hclaim.mp hclaimed typed htyped
                · have := hfree typed htyped
                  split_ifs at this with hin
                  exact this
            · rintro ⟨hsingle, hfree⟩
              obtain ⟨hfirst, hrest⟩ := List.pairwise_cons.mp hsingle
              refine ⟨hrest, fun typed htyped => ?_⟩
              obtain ⟨other, hother, hin⟩ := List.mem_flatMap.mp htyped
              rw [if_neg fun hstep => hfirst other hother typed hstep hin]
              exact hfree typed (List.mem_append_right _ htyped)
          have hids : (backend.writeSlots step).map (n.addAll (backend.writeSlots step)).slots.idxOf =
              (backend.writeSlots step).map ((n.addAll (backend.writeSlots step)).addAll
                (backend.written rest)).slots.idxOf := by
            rw [(hindexed.1.addAll _).2]
            refine (map_idxOf_of_isPrefix (findSlots_isPrefix_of _ _) ?_).symm
            intro typed htyped
            rw [hindexed.2]
            exact mem_findSlots.mpr (Or.inr htyped)
          rw [← hsplit]
          cases hrest : bindOps backend steps (i + 1) rest (n.addAll (backend.writeSlots step))
              (fun typed => if typed ∈ backend.writeSlots step then some i else writers typed) with
          | error message =>
              refine iff_of_false (fun heq => ?_) ?_
              · simp only [hrest] at heq
                cases heq
              · rintro ⟨hcond, -⟩
                have := (ih hindexed.1 hlater).mpr ⟨hcond, rfl⟩
                rw [hrest] at this
                cases this
          | ok bound =>
              obtain ⟨hcond, rfl⟩ := (ih hindexed.1 hlater).mp hrest
              simp only [hrest, Except.ok.injEq, hids, List.map_cons]
              exact ⟨fun heq => ⟨hcond, heq.symm⟩, fun hboth => hboth.2.symm⟩

/-! ## Semantic predecessors -/

theorem requiredOps_ok {keys required : List String} {key : String} {found : List Nat} :
    requiredOps keys key required = .ok found ↔
      (∀ other ∈ required, other ∈ keys) ∧ found = required.map keys.idxOf := by
  induction required generalizing found with
  | nil => simp [requiredOps, eq_comm]
  | cons first required ih =>
      rw [requiredOps, List.forall_mem_cons, byKey]
      by_cases hin : first ∈ keys
      · rw [if_pos hin]
        cases hrest : requiredOps keys key required with
        | error message =>
            refine iff_of_false (fun heq => (nomatch heq)) ?_
            rintro ⟨⟨-, hall⟩, -⟩
            rw [ih.mpr ⟨hall, rfl⟩] at hrest
            cases hrest
        | ok list =>
            obtain ⟨hall, rfl⟩ := ih.mp hrest
            simp only [Except.map, Except.ok.injEq, List.map_cons]
            exact ⟨fun heq => ⟨⟨hin, hall⟩, heq.symm⟩, fun hboth => hboth.2.symm⟩
      · rw [if_neg hin]
        exact iff_of_false (fun heq => (nomatch heq)) fun hboth => hin hboth.1.1

/-- **The second loop** accepts exactly the requirements that have a descriptor. -/
theorem bindSemantic_ok {keys : List String} {semantic : Nat → List String}
    {ops result : List OpDescriptor} :
    bindSemantic keys semantic i ops = .ok result ↔
      (∀ k < ops.length, ∀ key ∈ semantic (i + k), key ∈ keys) ∧
      result = ops.mapIdx fun k op =>
        { op with predecessors := op.predecessors ++ (semantic (i + k)).map keys.idxOf } := by
  induction ops generalizing i result with
  | nil => simp [bindSemantic, eq_comm]
  | cons op ops ih =>
      have hcond : (∀ k < (op :: ops).length, ∀ key ∈ semantic (i + k), key ∈ keys) ↔
          (∀ key ∈ semantic i, key ∈ keys) ∧
            ∀ k < ops.length, ∀ key ∈ semantic (i + 1 + k), key ∈ keys := by
        constructor
        · intro hall
          refine ⟨hall 0 (Nat.succ_pos _), fun k hk => ?_⟩
          rw [Nat.add_assoc, Nat.add_comm 1 k]
          exact hall (k + 1) (Nat.succ_lt_succ hk)
        · rintro ⟨hfirst, hrest⟩ k hk
          cases k with
          | zero => exact hfirst
          | succ k =>
              rw [Nat.add_comm k 1, ← Nat.add_assoc]
              exact hrest k (Nat.lt_of_succ_lt_succ hk)
      have hshift : (fun k (op : OpDescriptor) =>
          { op with predecessors := op.predecessors ++ (semantic (i + 1 + k)).map keys.idxOf }) =
          fun k (op : OpDescriptor) =>
            { op with predecessors := op.predecessors ++ (semantic (i + (k + 1))).map keys.idxOf } := by
        funext k op
        rw [Nat.add_assoc, Nat.add_comm 1 k]
      rw [hcond, bindSemantic]
      cases hfound : requiredOps keys op.key (semantic i) with
      | error message =>
          refine iff_of_false (fun heq => (nomatch heq)) ?_
          rintro ⟨⟨hfirst, -⟩, -⟩
          rw [requiredOps_ok.mpr ⟨hfirst, rfl⟩] at hfound
          cases hfound
      | ok found =>
          obtain ⟨hfirst, rfl⟩ := requiredOps_ok.mp hfound
          cases hrest : bindSemantic keys semantic (i + 1) ops with
          | error message =>
              refine iff_of_false (fun heq => (nomatch heq)) ?_
              rintro ⟨⟨-, hall⟩, -⟩
              rw [ih.mpr ⟨hall, rfl⟩] at hrest
              cases hrest
          | ok list =>
              obtain ⟨hall, rfl⟩ := ih.mp hrest
              simp only [Except.map, Except.ok.injEq, List.mapIdx_cons, hshift, Nat.add_zero]
              exact ⟨fun heq => ⟨⟨hfirst, hall⟩, heq.symm⟩, fun hboth => hboth.2.symm⟩

/-! ## Reads -/

/-- **One step's reads** are bound exactly when each has a value or is sampled. -/
theorem bindReads_ok (h : n.Indexed) {key : String} {result : Numbering × List ValueId} :
    bindReads backend key slots n = .ok result ↔
      (∀ typed ∈ slots, typed ∈ n.slots ∨
        backend.sampled (ofLex typed).1 (ofLex typed).2 = true) ∧
      result = (n.addLeaves slots, slots.map (n.addLeaves slots).slots.idxOf) := by
  induction slots generalizing n result with
  | nil =>
      rw [bindReads, Except.ok.injEq, eq_comm]
      exact (and_iff_right fun typed htyped => (nomatch htyped)).symm
  | cons typed slots ih =>
      have hadd : n.addLeaves (typed :: slots) = (n.leafOf typed).1.addLeaves slots := rfl
      rw [List.forall_mem_cons, hadd, bindReads]
      by_cases hread : typed ∈ n.slots ∨ backend.sampled (ofLex typed).1 (ofLex typed).2 = true
      · have hnot : ¬ (n.values typed = none ∧
            backend.sampled (ofLex typed).1 (ofLex typed).2 = false) := by
          rintro ⟨hnone, hsampled⟩
          rcases hread with hin | hin
          · exact h.value_none_iff.mp hnone hin
          · rw [hin] at hsampled
            cases hsampled
        have hslots : (n.leafOf typed).1.slots =
            if typed ∈ n.slots then n.slots else n.slots ++ [typed] := by
          rw [(n.leafOf_slots typed).1, h.slots_valueOf]
        have hrest : (∀ other ∈ slots, other ∈ (n.leafOf typed).1.slots ∨
            backend.sampled (ofLex other).1 (ofLex other).2 = true) ↔
            ∀ other ∈ slots, other ∈ n.slots ∨
              backend.sampled (ofLex other).1 (ofLex other).2 = true := by
          refine forall_congr' fun other => forall_congr' fun _ => ?_
          rw [hslots]
          split_ifs with hin
          · rfl
          · rw [List.mem_append, List.mem_singleton]
            constructor
            · rintro ((hother | rfl) | hother)
              · exact Or.inl hother
              · exact hread
              · exact Or.inr hother
            · exact Or.imp_left Or.inl
        have hid : (n.leafOf typed).2 = ((n.leafOf typed).1.addLeaves slots).slots.idxOf typed := by
          rw [((h.leafOf typed).addLeaves slots).2, (n.leafOf_slots typed).2.2, h.valueOf_id,
            ← (n.leafOf_slots typed).1, idxOf_prefix (findSlots_isPrefix_of _ _)]
          rw [hslots]
          split_ifs with hin
          · exact hin
          · exact List.mem_append_right _ (List.mem_singleton_self _)
        rw [if_neg hnot]
        cases hbind : bindReads backend key slots (n.leafOf typed).1 with
        | error message =>
            refine iff_of_false (fun heq => ?_) ?_
            · simp only [hbind] at heq
              cases heq
            · rintro ⟨⟨-, hcond⟩, -⟩
              have := (ih (h.leafOf typed)).mpr ⟨hrest.mpr hcond, rfl⟩
              rw [hbind] at this
              cases this
        | ok bound =>
            obtain ⟨hcond, rfl⟩ := (ih (h.leafOf typed)).mp hbind
            simp only [hbind, Except.ok.injEq, List.map_cons, ← hid]
            exact ⟨fun heq => ⟨⟨hread, hrest.mp hcond⟩, heq.symm⟩, fun hboth => hboth.2.symm⟩
      · obtain ⟨hnew, hsampled⟩ := not_or.mp hread
        rw [if_pos ⟨h.value_none_iff.mpr hnew, Bool.eq_false_iff.mpr hsampled⟩]
        exact iff_of_false (fun heq => (nomatch heq)) fun hboth => hread hboth.1.1

/-- **The third loop** accepts exactly the reads with a value or a sample. -/
theorem bindAllReads_ok (h : n.Indexed) {ops : List OpDescriptor}
    (hlength : ops.length = steps.length)
    {result : Numbering × List OpDescriptor} :
    bindAllReads backend steps ops n = .ok result ↔
      (∀ typed ∈ backend.readBy steps, typed ∈ n.slots ∨
        backend.sampled (ofLex typed).1 (ofLex typed).2 = true) ∧
      result = (n.addLeaves (backend.readBy steps), List.zipWith (fun step op =>
        { op with
          reads := op.reads ++ (backend.readSlots step).map
            (n.addLeaves (backend.readBy steps)).slots.idxOf }) steps ops) := by
  induction steps generalizing n ops result with
  | nil =>
      have hnil : bindAllReads backend [] ops n = .ok (n, []) := by
        cases ops <;> rfl
      rw [hnil, Except.ok.injEq, eq_comm]
      exact (and_iff_right fun typed htyped => (nomatch htyped)).symm
  | cons step steps ih =>
      cases ops with
      | nil => cases hlength
      | cons op ops =>
          have hread : backend.readBy (step :: steps) =
              backend.readSlots step ++ backend.readBy steps := List.flatMap_cons
          rw [hread, Numbering.addLeaves_append, List.forall_mem_append, bindAllReads]
          cases hbind : bindReads backend (backend.key step) (backend.readSlots step) n with
          | error message =>
              refine iff_of_false (fun heq => (nomatch heq)) ?_
              rintro ⟨⟨hfirst, -⟩, -⟩
              rw [(bindReads_ok h).mpr ⟨hfirst, rfl⟩] at hbind
              cases hbind
          | ok bound =>
              obtain ⟨hfirst, rfl⟩ := (bindReads_ok h).mp hbind
              have hindexed := h.addLeaves (backend.readSlots step)
              have hcond : (∀ typed ∈ backend.readBy steps,
                  typed ∈ (n.addLeaves (backend.readSlots step)).slots ∨
                    backend.sampled (ofLex typed).1 (ofLex typed).2 = true) ↔
                  ∀ typed ∈ backend.readBy steps, typed ∈ n.slots ∨
                    backend.sampled (ofLex typed).1 (ofLex typed).2 = true := by
                refine forall_congr' fun typed => forall_congr' fun _ => ?_
                rw [hindexed.2, mem_findSlots]
                constructor
                · rintro ((hin | hin) | hin)
                  · exact Or.inl hin
                  · exact hfirst typed hin
                  · exact Or.inr hin
                · exact Or.imp_left Or.inl
              have hids : (backend.readSlots step).map
                    (n.addLeaves (backend.readSlots step)).slots.idxOf =
                  (backend.readSlots step).map ((n.addLeaves (backend.readSlots step)).addLeaves
                    (backend.readBy steps)).slots.idxOf := by
                rw [(hindexed.1.addLeaves _).2]
                refine (map_idxOf_of_isPrefix (findSlots_isPrefix_of _ _) ?_).symm
                intro typed htyped
                rw [hindexed.2]
                exact mem_findSlots.mpr (Or.inr htyped)
              have hih := fun result => @ih _ hindexed.1 ops (Nat.succ.inj hlength) result
              cases hrest : bindAllReads backend steps ops
                  (n.addLeaves (backend.readSlots step)) with
              | error message =>
                  refine iff_of_false (fun heq => ?_) ?_
                  · simp only [hrest] at heq
                    cases heq
                  · rintro ⟨⟨-, hall⟩, -⟩
                    rw [(hih _).mpr ⟨hcond.mpr hall, rfl⟩] at hrest
                    cases hrest
              | ok bound =>
                  obtain ⟨hall, rfl⟩ := (hih _).mp hrest
                  simp only [hrest, Except.ok.injEq, List.zipWith_cons_cons, hids]
                  exact ⟨fun heq => ⟨⟨hfirst, hcond.mp hall⟩, heq.symm⟩, fun hboth => hboth.2.symm⟩

/-! ## All of them -/

/-- The numbering that the loops leave. -/
def AdapterBackend.numbering (backend : AdapterBackend Step Range) (steps : List Step)
    : Numbering :=
  (({} : Numbering).addAll (backend.written steps)).addLeaves (backend.readBy steps)

theorem indexed_numbering (backend : AdapterBackend Step Range) (steps : List Step) :
    (backend.numbering steps).Indexed ∧
      (backend.numbering steps).slots = backend.foundSlots steps := by
  have hwrites := Numbering.indexed_empty.addAll (backend.written steps)
  have hreads := hwrites.1.addLeaves (backend.readBy steps)
  exact ⟨hreads.1, hreads.2.trans (congrArg (findSlots · _) hwrites.2)⟩

theorem bindSemantic_describe {semanticPredecessors : Option (Nat → List String)}
    {W : List TypedSlot} {ops : List OpDescriptor} :
    (semanticPredecessors.elim (.ok (steps.map (backend.describeWrites W))) fun required =>
        bindSemantic ((steps.map (backend.describeWrites W)).map OpDescriptor.key) required 0
          (steps.map (backend.describeWrites W))) = .ok ops ↔
      (∀ semantic, semanticPredecessors = some semantic → ∀ i < steps.length, ∀ key ∈ semantic i,
        key ∈ steps.map backend.key) ∧
      ops = steps.mapIdx fun i step =>
        { backend.describeWrites W step with
          predecessors := backend.requiredAt semanticPredecessors steps i } := by
  have hkeys : (steps.map (backend.describeWrites W)).map OpDescriptor.key =
      steps.map backend.key := by
    rw [List.map_map]
    rfl
  cases semanticPredecessors with
  | none =>
      have hplain : steps.map (backend.describeWrites W) =
          steps.mapIdx fun _ step => { backend.describeWrites W step with
            predecessors := [] } := by
        refine List.ext_getElem? fun i => ?_
        rw [List.getElem?_map, List.getElem?_mapIdx]
        rfl
      rw [Option.elim_none, Except.ok.injEq, hplain, eq_comm]
      exact (and_iff_right fun semantic heq => (nomatch heq)).symm
  | some semantic =>
      rw [Option.elim_some, bindSemantic_ok, hkeys, List.length_map]
      refine and_congr ?_ ?_
      · simp only [Nat.zero_add, Option.some.injEq, forall_eq']
      · have hmap : ((steps.map (backend.describeWrites W)).mapIdx fun k op =>
            { op with
              predecessors := op.predecessors ++
                (semantic (0 + k)).map (steps.map backend.key).idxOf }) =
            steps.mapIdx fun i step =>
              { backend.describeWrites W step with
                predecessors := backend.requiredAt (some semantic) steps i } := by
          refine List.ext_getElem? fun i => ?_
          rw [List.getElem?_mapIdx, List.getElem?_map, List.getElem?_mapIdx, Nat.zero_add,
            Option.map_map]
          rfl
        rw [hmap]

theorem describeSteps_eq (backend : AdapterBackend Step Range) (steps : List Step)
    (semanticPredecessors : Option (Nat → List String)) :
    backend.describeSteps semanticPredecessors (backend.foundSlots steps) steps =
      List.zipWith (fun step op =>
        { op with
          reads := op.reads ++ (backend.readSlots step).map (backend.numbering steps).slots.idxOf })
        steps (steps.mapIdx fun i step =>
          { backend.describeWrites (({} : Numbering).addAll (backend.written steps)).slots step with
            predecessors := backend.requiredAt semanticPredecessors steps i }) := by
  have hwrites := Numbering.indexed_empty.addAll (backend.written steps)
  refine List.ext_getElem? fun i => ?_
  rw [AdapterBackend.describeSteps, List.getElem?_mapIdx, List.getElem?_zipWith,
    List.getElem?_mapIdx, (indexed_numbering backend steps).2]
  cases hstep : steps[i]? with
  | none => rfl
  | some step =>
      have hids : (backend.writeSlots step).map (backend.foundSlots steps).idxOf =
          (backend.writeSlots step).map
            (({} : Numbering).addAll (backend.written steps)).slots.idxOf := by
        rw [hwrites.2]
        refine map_idxOf_of_isPrefix (findSlots_isPrefix_of _ _) ?_
        intro typed htyped
        exact mem_findSlots.mpr (Or.inr
          (List.mem_flatMap.mpr ⟨step, List.mem_of_getElem? hstep, htyped⟩))
      simp [AdapterBackend.describeWrites, hids]

/-- **The steps are numbered exactly when they are admissible.** -/
theorem numberSteps_ok {semanticPredecessors : Option (Nat → List String)}
    {result : Numbering × List OpDescriptor} :
    numberSteps backend steps semanticPredecessors = .ok result ↔
      backend.Admissible steps semanticPredecessors ∧
      result = (backend.numbering steps,
        backend.describeSteps semanticPredecessors (backend.foundSlots steps) steps) := by
  have hops := fun result => @bindOps_ok _ _ backend {} steps steps 0 (fun _ => none)
    Numbering.indexed_empty (fun _ _ heq => (nomatch heq)) result
  have hwrites := Numbering.indexed_empty.addAll (backend.written steps)
  rw [numberSteps]
  cases hbind : bindOps backend steps 0 steps {} (fun _ => none) with
  | error message =>
      refine iff_of_false (fun heq => (nomatch heq)) ?_
      rintro ⟨hadmissible, -⟩
      rw [(hops _).mpr ⟨⟨hadmissible.single, fun _ _ => rfl⟩, rfl⟩] at hbind
      cases hbind
  | ok bound =>
      obtain ⟨⟨hsingle, -⟩, rfl⟩ := (hops _).mp hbind
      have hsemantic := fun ops => @bindSemantic_describe _ _ backend steps semanticPredecessors
        (({} : Numbering).addAll (backend.written steps)).slots ops
      simp only
      cases hbound : (semanticPredecessors.elim (.ok (steps.map (backend.describeWrites
          (({} : Numbering).addAll (backend.written steps)).slots))) fun required =>
          bindSemantic ((steps.map (backend.describeWrites
            (({} : Numbering).addAll (backend.written steps)).slots)).map OpDescriptor.key) required 0
            (steps.map (backend.describeWrites
              (({} : Numbering).addAll (backend.written steps)).slots)) :
          Except String (List OpDescriptor)) with
      | error message =>
          refine iff_of_false (fun heq => (nomatch heq)) ?_
          rintro ⟨hadmissible, -⟩
          rw [(hsemantic _).mpr ⟨hadmissible.required, rfl⟩] at hbound
          cases hbound
      | ok ops =>
          obtain ⟨hrequired, rfl⟩ := (hsemantic _).mp hbound
          simp only
          rw [bindAllReads_ok hwrites.1 List.length_mapIdx]
          refine and_congr ?_ ?_
          · constructor
            · intro hread
              refine ⟨hsingle, hrequired, fun step hstep typed htyped => ?_⟩
              refine (hread typed (List.mem_flatMap.mpr ⟨step, hstep, htyped⟩)).imp_left ?_
              intro hin
              rw [hwrites.2] at hin
              exact (mem_findSlots.mp hin).resolve_left (fun hnil => (nomatch hnil))
            · intro hadmissible typed htyped
              obtain ⟨step, hstep, htyped⟩ := List.mem_flatMap.mp htyped
              refine (hadmissible.sourced step hstep typed htyped).imp_left ?_
              intro hin
              rw [hwrites.2]
              exact mem_findSlots.mpr (Or.inr hin)
          · rw [describeSteps_eq]
            rfl

end

end RigExec.Closure
