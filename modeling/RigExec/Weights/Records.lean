/-
# `RigExec.Weights.Records` — one record under each evaluator

Each evaluator has checks the other lacks.  Past them a record's field, and the packet built for
it, are given by what the records it names have.

    FieldAccepts    the checks of the field: no cycle, no static error, no values on a constant,
                    no sparse index outside the elements
    PacketAccepts   the checks of the packet, with the default weight it keeps: known tokens, one
                    representation along a dynamic, a dense combine of some elements, a default
                    that passes the policy though no element reads it

A packet that fails the field's checks may still be read by a combine, which does not expand its
inputs with `ResolveAll`.
-/
import RigExec.Weights.StaticRecords

namespace RigExec.Weights

section

variable {F : Type} {fl : Floats F} {program : WeightProgram F} {count : Nat}

/-! ## The checks of one side -/

/-- The record and those it names pass the checks that only the field makes. -/
inductive FieldAccepts (program : WeightProgram F) (count : Nat) : Int → Prop where
  | intro {id : Int} {object : WeightRecord F} {input : WeightFieldInputs F}
      (hnode : program.node id = some (object, input))
      (hblocked : input.blocked = false)
      (herror : object.staticError = "")
      (hconstant : object.kind = .static → object.representationToken = "constant" →
        paintedValues object input = [])
      (hsparse : object.kind = .static → object.representationToken = "sparse" →
        ∀ index ∈ paintedIndices object input, 0 ≤ index ∧ index < count)
      (hrefs : ∀ child ∈ object.refs, FieldAccepts program count child) :
      FieldAccepts program count id

/-- The record and those it names pass the checks that only the packet makes; its default is
the weight. -/
inductive PacketAccepts (fl : Floats F) (program : WeightProgram F) (count : Nat) :
    Int → F → Prop where
  | static {id : Int} {object : WeightRecord F} {input : WeightFieldInputs F} {w : F}
      (hnode : program.node id = some (object, input))
      (hkind : object.kind = .static)
      (hknown : knownRepresentation object.representationToken = true)
      (hpolicy : knownPolicy object.rangePolicy = true)
      (hdefault : applyWeightRangePolicy fl object.rangePolicy (input.scalars 0) = some w) :
      PacketAccepts fl program count id w
  | free {id : Int} {object : WeightRecord F} {input : WeightFieldInputs F} {w : F}
      (hnode : program.node id = some (object, input))
      (hkind : object.kind = .dynamic)
      (hbase : object.base < 0)
      (hconstant : object.representationToken = "constant")
      (hpolicy : knownPolicy object.rangePolicy = true)
      (hdefault : applyWeightRangePolicy fl object.rangePolicy
        (driven fl (input.scalars 1) (input.scalars 2) (input.scalars 3) fl.one) = some w) :
      PacketAccepts fl program count id w
  | driven {id : Int} {object baseObject : WeightRecord F} {input baseInput : WeightFieldInputs F}
      {b w : F}
      (hnode : program.node id = some (object, input))
      (hkind : object.kind = .dynamic)
      (hbase : 0 ≤ object.base)
      (hbaseNode : program.node object.base = some (baseObject, baseInput))
      (hsame : baseObject.representationToken = object.representationToken)
      (hknown : knownRepresentation object.representationToken = true)
      (hpolicy : knownPolicy object.rangePolicy = true)
      (haccepts : PacketAccepts fl program count object.base b)
      (hdense : object.representationToken = "dense" → w = fl.zero)
      (hdefault : object.representationToken ≠ "dense" →
        applyWeightRangePolicy fl object.rangePolicy
          (driven fl (input.scalars 1) (input.scalars 2) (input.scalars 3) b) = some w) :
      PacketAccepts fl program count id w
  | combine {id : Int} {object : WeightRecord F} {input : WeightFieldInputs F}
      (hnode : program.node id = some (object, input))
      (hkind : object.kind = .combine)
      (hdense : object.representationToken = "dense")
      (hpolicy : knownPolicy object.rangePolicy = true)
      (hmode : object.combineMode ≠ none)
      (hcount : count ≠ 0)
      (weights : Int → F)
      (haccepts : ∀ child ∈ object.inputs, PacketAccepts fl program count child (weights child)) :
      PacketAccepts fl program count id fl.zero

/-! ## One record -/

section

variable {id : Int} {object : WeightRecord F} {input : WeightFieldInputs F} {field : List F}

/-- The field a dynamic drives. -/
def baseField (fl : Floats F) (program : WeightProgram F) (count : Nat)
    (object : WeightRecord F) : Except String (List F) :=
  if 0 ≤ object.base then runWeightField fl program object.base count
  else return List.replicate count fl.one

/-- The packet a dynamic drives. -/
def basePacket (fl : Floats F) (program : WeightProgram F) (count : Nat)
    (object : WeightRecord F) : WeightPacket F :=
  if 0 ≤ object.base then weightPacket fl program count object.base else onePacket fl

/-- What a dynamic makes of a weight. -/
def drive (fl : Floats F) (input : WeightFieldInputs F) : F → F :=
  driven fl (input.scalars 1) (input.scalars 2) (input.scalars 3)

theorem clear_of_ok (hacyclic : program.Acyclic)
    (hok : runWeightField fl program id count = .ok field) :
    ∃ object input, program.node id = some (object, input) ∧ input.blocked = false ∧
      object.staticError = "" := by
  rw [runWeightField_eq hacyclic, resolveStep] at hok
  cases hnode : program.node id with
  | none =>
      rw [hnode] at hok
      cases hok
  | some node =>
      obtain ⟨object, input⟩ := node
      rw [hnode] at hok
      dsimp only at hok
      refine ⟨object, input, rfl, Bool.eq_false_of_not_eq_true fun hblocked => ?_,
        by_contra fun herror => ?_⟩
      · rw [if_pos hblocked] at hok
        cases hok
      · split at hok <;> cases hok

section

variable (hacyclic : program.Acyclic) (hnode : program.node id = some (object, input))

include hacyclic hnode

theorem weightPacket_static (hkind : object.kind = .static) :
    weightPacket fl program count id =
      buildStaticWeightPacket fl object.representationToken object.rangePolicy
        (paintedValues object input) (paintedIndices object input) (input.scalars 0) := by
  rw [weightPacket_eq hacyclic, packetStep, hnode]
  dsimp only
  rw [runWeightPacket, hkind]

theorem weightPacket_dynamic (hkind : object.kind = .dynamic) :
    weightPacket fl program count id =
      buildDynamicWeightPacket fl object.representationToken object.rangePolicy (input.scalars 1)
        (input.scalars 2) (input.scalars 3) (some (basePacket fl program count object)) := by
  rw [weightPacket_eq hacyclic, packetStep, hnode]
  dsimp only
  rw [runWeightPacket, hkind]
  dsimp only
  rw [basePacket]
  by_cases hbase : 0 ≤ object.base
  · rw [if_pos hbase, if_pos hbase]
  · rw [if_neg hbase, if_neg hbase, buildDynamic_none]

theorem weightPacket_combine (hkind : object.kind = .combine) :
    weightPacket fl program count id =
      buildCombineWeightPacket fl object.representationToken object.rangePolicy
        object.combineToken (object.inputs.map (weightPacket fl program count)) count
        (input.scalars 4) (input.scalars 5) := by
  rw [weightPacket_eq hacyclic, packetStep, hnode]
  dsimp only
  rw [runWeightPacket, hkind]

variable (hblocked : input.blocked = false) (herror : object.staticError = "")

include hblocked herror

theorem field_static_iff (hkind : object.kind = .static) :
    runWeightField fl program id count = .ok field ↔
      ∃ painted, (RecordShape fl object input ∧
        (recordArrays fl object input).Shows count painted) ∧
        List.Forall₂ (Passes fl object.rangePolicy (fun w => w)) painted field := by
  rw [runWeightField_eq hacyclic, resolveStep, hnode]
  dsimp only
  rw [if_neg (by rw [hblocked]; exact Bool.false_ne_true), if_neg (not_not.mpr herror), hkind]
  dsimp only
  rw [resolveStatic_iff]
  exact exists_congr fun painted => and_congr_left fun _ => paintedField_iff

theorem field_dynamic_iff (hkind : object.kind = .dynamic) :
    runWeightField fl program id count = .ok field ↔
      ∃ base, baseField fl program count object = .ok base ∧
        List.Forall₂ (Passes fl object.rangePolicy (drive fl input)) base field := by
  rw [runWeightField_eq hacyclic, resolveStep, hnode]
  dsimp only
  rw [if_neg (by rw [hblocked]; exact Bool.false_ne_true), if_neg (not_not.mpr herror), hkind]
  dsimp only
  rw [← baseField]
  cases hbase : baseField fl program count object with
  | error error =>
      constructor
      · intro h
        cases h
      · rintro ⟨base, h, -⟩
        cases h
  | ok base =>
      have hcheck : (base.mapM fun b => checkWeight fl object.clamp object.name
          "non-finite dynamic weight on " (drive fl input b)) = .ok field ↔
          List.Forall₂ (Passes fl object.rangePolicy (drive fl input)) base field := by
        rw [Lib.mapM_eq_ok_iff]
        exact ⟨fun h => h.imp fun _ _ h => checkWeight_iff.mp h,
          fun h => h.imp fun _ _ h => checkWeight_iff.mpr h⟩
      refine hcheck.trans ⟨fun h => ⟨base, rfl, h⟩, ?_⟩
      rintro ⟨other, hother, h⟩
      cases hother
      exact h

theorem field_combine_iff (hkind : object.kind = .combine) :
    runWeightField fl program id count = .ok field ↔
      ∃ out, combineWeightFieldsStreamed fl object.combineMode object.inputs count
          (fun child => runWeightField fl program child count) = .ok out ∧
        List.Forall₂ (Passes fl object.rangePolicy fun w => w)
          (out.map (combineRemap fl (input.scalars 4) (input.scalars 5))) field := by
  rw [runWeightField_eq hacyclic, resolveStep, hnode]
  dsimp only
  rw [if_neg (by rw [hblocked]; exact Bool.false_ne_true), if_neg (not_not.mpr herror), hkind]
  dsimp only
  cases hcombine : combineWeightFieldsStreamed fl object.combineMode object.inputs count
      fun child => runWeightField fl program child count with
  | error error =>
      constructor
      · intro h
        dsimp only at h
        split at h <;> cases h
      · rintro ⟨out, h, -⟩
        cases h
  | ok out =>
      have hcheck : (out.map (combineRemap fl (input.scalars 4) (input.scalars 5))).mapM
          (checkWeight fl object.clamp object.name "non-finite weight on ") = .ok field ↔
          List.Forall₂ (Passes fl object.rangePolicy fun w => w)
            (out.map (combineRemap fl (input.scalars 4) (input.scalars 5))) field := by
        rw [Lib.mapM_eq_ok_iff]
        exact ⟨fun h => h.imp fun _ _ h => checkWeight_iff.mp h,
          fun h => h.imp fun _ _ h => checkWeight_iff.mpr h⟩
      refine hcheck.trans ⟨fun h => ⟨out, rfl, h⟩, ?_⟩
      rintro ⟨other, hother, h⟩
      cases hother
      exact h

end

theorem node_of_valid (hacyclic : program.Acyclic)
    (hvalid : (weightPacket fl program count id).valid = true) :
    ∃ object input, program.node id = some (object, input) := by
  rw [weightPacket_eq hacyclic, packetStep] at hvalid
  cases hnode : program.node id with
  | none =>
      rw [hnode] at hvalid
      cases hvalid
  | some node => exact ⟨node.1, node.2, rfl⟩

theorem representation_of_valid (hacyclic : program.Acyclic)
    (hnode : program.node id = some (object, input))
    (hvalid : (weightPacket fl program count id).valid = true) :
    (weightPacket fl program count id).representation = object.representationToken := by
  cases hkind : object.kind with
  | static =>
      rw [weightPacket_static hacyclic hnode hkind] at hvalid ⊢
      obtain ⟨ranged, w, hparts⟩ := buildStatic_valid hvalid
      rw [buildStatic_eq hparts]
      rfl
  | dynamic =>
      rw [weightPacket_dynamic hacyclic hnode hkind] at hvalid ⊢
      obtain ⟨ranged, w, hparts⟩ := buildDynamic_valid hvalid
      rw [buildDynamic_eq hparts]
  | combine =>
      rw [weightPacket_combine hacyclic hnode hkind] at hvalid ⊢
      obtain ⟨_, ranged, hparts⟩ := buildCombine_valid hvalid
      rw [buildCombine_eq hparts]

end

theorem built_of_valid (hacyclic : program.Acyclic) : ∀ id : Int,
    (weightPacket fl program count id).valid = true → (weightPacket fl program count id).Built fl := by
  refine hacyclic.induction fun id ih hvalid => ?_
  obtain ⟨object, input, hnode⟩ := node_of_valid hacyclic hvalid
  cases hkind : object.kind with
  | static =>
      rw [weightPacket_static hacyclic hnode hkind] at hvalid ⊢
      obtain ⟨ranged, w, hparts⟩ := buildStatic_valid hvalid
      exact hparts.built
  | dynamic =>
      rw [weightPacket_dynamic hacyclic hnode hkind] at hvalid ⊢
      obtain ⟨ranged, w, hparts⟩ := buildDynamic_valid hvalid
      refine hparts.built ?_
      have hbaseValid := hparts.valid
      unfold basePacket at hbaseValid ⊢
      by_cases hbase : 0 ≤ object.base
      · rw [if_pos hbase] at hbaseValid ⊢
        exact ih _ ⟨object, input, hnode, mem_refs_of_dynamic hkind hbase⟩ hbaseValid
      · rw [if_neg hbase]
        exact built_onePacket
  | combine =>
      rw [weightPacket_combine hacyclic hnode hkind] at hvalid ⊢
      obtain ⟨_, ranged, hparts⟩ := buildCombine_valid hvalid
      exact hparts.built

end

end RigExec.Weights
