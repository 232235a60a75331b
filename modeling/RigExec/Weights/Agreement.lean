/-
# `RigExec.Weights.Agreement` — the two evaluators on one graph

A valid packet whose records pass the field's checks shows the field, record by record.  So the
evaluators agree wherever the records pass the checks of both, and differ where they pass those
of one.
-/
import RigExec.Weights.Records
import Mathlib.Data.Rat.Defs
import Mathlib.Algebra.Order.Ring.Unbundled.Rat

namespace RigExec.Weights

section

variable {F : Type} {fl : Floats F} {program : WeightProgram F} {count : Nat} {id : Int}
  {object : WeightRecord F} {input : WeightFieldInputs F} {field : List F}

/-! ## The field's checks -/

theorem FieldAccepts.inversion (h : FieldAccepts program count id)
    (hnode : program.node id = some (object, input)) :
    input.blocked = false ∧ object.staticError = "" ∧
      (object.kind = .static → object.representationToken = "constant" →
        paintedValues object input = []) ∧
      (object.kind = .static → object.representationToken = "sparse" →
        ∀ index ∈ paintedIndices object input, 0 ≤ index ∧ index < count) ∧
      ∀ child ∈ object.refs, FieldAccepts program count child := by
  obtain ⟨hnode', hblocked, herror, hconstant, hsparse, hrefs⟩ := h
  cases hnode.symm.trans hnode'
  exact ⟨hblocked, herror, hconstant, hsparse, hrefs⟩

theorem fieldAccepts_of_ok (hacyclic : program.Acyclic) : ∀ (id : Int) (field : List F),
    runWeightField fl program id count = .ok field → FieldAccepts program count id := by
  refine hacyclic.induction fun id ih field hok => ?_
  obtain ⟨object, input, hnode, hblocked, herror⟩ := clear_of_ok hacyclic hok
  cases hkind : object.kind with
  | static =>
      obtain ⟨painted, ⟨hshape, hshows⟩, -⟩ :=
        (field_static_iff hacyclic hnode hblocked herror hkind).mp hok
      refine .intro hnode hblocked herror (fun _ hrep => ?_) (fun _ hrep index hindex => ?_)
        fun child hchild => ?_
      · have hvalues : (recordArrays fl object input).values = paintedValues object input :=
          if_neg (hrep ▸ constant_ne_sparse)
        rw [← hvalues]
        exact hshows.fits.constant hrep
      · have hperm : (recordArrays fl object input).entries.Perm _ := hshape.entries hrep
        rw [← List.map_fst_zip (hshape.sizes hrep).le] at hindex
        obtain ⟨entry, hentry, rfl⟩ := List.mem_map.mp hindex
        exact Fits.entries hshows.fits hrep entry (hperm.mem_iff.mpr hentry)
      · rw [WeightRecord.refs, hkind] at hchild
        exact absurd hchild List.not_mem_nil
  | dynamic =>
      obtain ⟨base, hbase, -⟩ := (field_dynamic_iff hacyclic hnode hblocked herror hkind).mp hok
      refine .intro hnode hblocked herror (fun h => ?_) (fun h => ?_) fun child hchild => ?_
      · cases hkind.symm.trans h
      · cases hkind.symm.trans h
      · have hnames : program.Names id child := ⟨object, input, hnode, hchild⟩
        rw [WeightRecord.refs, hkind] at hchild
        dsimp only at hchild
        split at hchild
        · rename_i hnonneg
          cases List.mem_singleton.mp hchild
          rw [baseField, if_pos hnonneg] at hbase
          exact ih _ hnames base hbase
        · exact absurd hchild List.not_mem_nil
  | combine =>
      obtain ⟨out, hout, -⟩ := (field_combine_iff hacyclic hnode hblocked herror hkind).mp hok
      refine .intro hnode hblocked herror (fun h => ?_) (fun h => ?_) fun child hchild => ?_
      · cases hkind.symm.trans h
      · cases hkind.symm.trans h
      · have hnames : program.Names id child := ⟨object, input, hnode, hchild⟩
        rw [WeightRecord.refs, hkind] at hchild
        obtain ⟨data, hdata, -⟩ := (combine_ok hout).2 child hchild
        exact ih _ hnames data hdata

theorem fits_of_accepts (hacyclic : program.Acyclic) : ∀ id : Int,
    FieldAccepts program count id → (weightPacket fl program count id).valid = true →
    ((weightPacket fl program count id).representation = "dense" →
      (weightPacket fl program count id).values.length = count) →
    (weightPacket fl program count id).Fits count := by
  refine hacyclic.induction fun id ih haccepts hvalid hdense => ?_
  obtain ⟨object, input, hnode⟩ := node_of_valid hacyclic hvalid
  obtain ⟨-, -, hconstant, hsparse, hrefs⟩ := haccepts.inversion hnode
  cases hkind : object.kind with
  | static =>
      rw [weightPacket_static hacyclic hnode hkind] at hvalid hdense ⊢
      obtain ⟨ranged, w, hparts⟩ := buildStatic_valid hvalid
      rw [buildStatic_eq hparts] at hdense ⊢
      have hvalues := hparts.values
      refine ⟨fun hrep => ?_, hdense, fun hrep index hindex => ?_⟩
      · change object.representationToken = "constant" at hrep
        have hraw : (rawPacket fl object.representationToken object.rangePolicy
            (paintedValues object input) (paintedIndices object input) (input.scalars 0)).values =
            [] := (if_neg (hrep ▸ constant_ne_sparse)).trans (hconstant hkind hrep)
        rw [hraw] at hvalues
        exact List.forall₂_nil_left_iff.mp hvalues
      · change object.representationToken = "sparse" at hrep
        have hshaped : (recordArrays fl object input).Shaped := hparts.shape.shaped
        have hperm : (recordArrays fl object input).entries.Perm _ := hparts.shape.entries hrep
        change index ∈ (recordArrays fl object input).indices at hindex
        rw [← hshaped.keys hrep] at hindex
        obtain ⟨entry, hentry, rfl⟩ := List.mem_map.mp hindex
        exact hsparse hkind hrep entry.1
          (List.of_mem_zip (a := entry.1) (b := entry.2) (hperm.mem_iff.mp hentry)).1
  | dynamic =>
      rw [weightPacket_dynamic hacyclic hnode hkind] at hvalid hdense ⊢
      obtain ⟨ranged, w, hparts⟩ := buildDynamic_valid hvalid
      rw [buildDynamic_eq hparts] at hdense ⊢
      have hbase : (basePacket fl program count object).Fits count := by
        have hbaseValid := hparts.valid
        have hbaseDense : (basePacket fl program count object).representation = "dense" →
            (basePacket fl program count object).values.length = count := fun hrep => by
          rw [hparts.values.length_eq]
          exact hdense (hparts.same.symm.trans hrep)
        unfold basePacket at hbaseValid hbaseDense ⊢
        by_cases hnonneg : 0 ≤ object.base
        · rw [if_pos hnonneg] at hbaseValid hbaseDense ⊢
          have hmem := mem_refs_of_dynamic hkind hnonneg
          exact ih _ ⟨object, input, hnode, hmem⟩ (hrefs _ hmem) hbaseValid hbaseDense
        · rw [if_neg hnonneg]
          exact (shows_onePacket count).fits
      refine ⟨fun hrep => ?_, hdense, fun hrep => hbase.sparse (hparts.same.trans hrep)⟩
      have hvalues := hparts.values
      rw [hbase.constant (hparts.same.trans hrep)] at hvalues
      exact List.forall₂_nil_left_iff.mp hvalues
  | combine =>
      have hrep := representation_of_valid hacyclic hnode hvalid
      rw [weightPacket_combine hacyclic hnode hkind] at hvalid
      obtain ⟨_, ranged, hparts⟩ := buildCombine_valid hvalid
      rw [hparts.representation] at hrep
      exact ⟨fun h => absurd (h.symm.trans hrep) constant_ne_dense, hdense,
        fun h => absurd (hrep.symm.trans h) dense_ne_sparse⟩

/-! ## Field and packet -/

theorem combine_same
    (hsame : ∀ child ∈ object.inputs, runWeightField fl program child count =
      combineResolver fl count (weightPacket fl program count child)) :
    combineWeightFieldsStreamed fl object.combineMode object.inputs count
        (fun child => runWeightField fl program child count) =
      combineWeightFieldsStreamed fl object.combineMode
        (object.inputs.map (weightPacket fl program count)) count (combineResolver fl count) := by
  rw [combine_map]
  exact combine_congr hsame

theorem elementCount_of_shows {inputs : List (WeightPacket F)}
    (hvalid : ∀ input ∈ inputs, input.valid = true)
    (hshows : ∀ input ∈ inputs, ∃ field, input.Shows count field) :
    ∃ carried, inputElementCount 0 inputs = some carried ∧ elementCountOf carried count = count := by
  obtain ⟨carried, hcarried, hcount⟩ := inputElementCount_of_valid hvalid
    (fun input hinput hrep => by
      obtain ⟨field, hfield⟩ := hshows input hinput
      exact hfield.fits.dense hrep) (Or.inl rfl)
  refine ⟨carried, hcarried, ?_⟩
  unfold elementCountOf
  by_cases hzero : carried = 0
  · rw [if_pos hzero]
  · rw [if_neg hzero]
    exact hcount.resolve_left hzero

theorem elementCount_of_inputs {inputs : List Int}
    (hvalid : ∀ child ∈ inputs, (weightPacket fl program count child).valid = true)
    (hshows : ∀ child ∈ inputs, ∃ field, (weightPacket fl program count child).Shows count field) :
    ∃ carried, inputElementCount 0 (inputs.map (weightPacket fl program count)) = some carried ∧
      elementCountOf carried count = count := by
  refine elementCount_of_shows (fun packet hpacket => ?_) fun packet hpacket => ?_
  · obtain ⟨child, hmem, rfl⟩ := List.mem_map.mp hpacket
    exact hvalid child hmem
  · obtain ⟨child, hmem, rfl⟩ := List.mem_map.mp hpacket
    exact hshows child hmem

theorem field_iff_shows (hacyclic : program.Acyclic) : ∀ (id : Int),
    FieldAccepts program count id → (weightPacket fl program count id).valid = true →
    ∀ field, runWeightField fl program id count = .ok field ↔
      (weightPacket fl program count id).Shows count field := by
  refine hacyclic.induction fun id ih haccepts hvalid field => ?_
  have hbuilt := built_of_valid hacyclic id hvalid
  obtain ⟨object, input, hnode⟩ := node_of_valid hacyclic hvalid
  obtain ⟨hblocked, herror, -, -, hrefs⟩ := haccepts.inversion hnode
  cases hkind : object.kind with
  | static =>
      rw [field_static_iff hacyclic hnode hblocked herror hkind]
      rw [weightPacket_static hacyclic hnode hkind] at hvalid hbuilt ⊢
      obtain ⟨ranged, w, hparts⟩ := buildStatic_valid hvalid
      rw [buildStatic_eq hparts] at hbuilt ⊢
      have hshape : RecordShape fl object input := hparts.shape
      have hshaped : (recordArrays fl object input).Shaped := hshape.shaped
      rw [shows_iff_exists Passes.functional hshaped hbuilt.toShaped rfl rfl hparts.values fun _ =>
        hparts.defaultWeight]
      exact exists_congr fun painted => and_congr_left fun _ => and_iff_right hshape
  | dynamic =>
      rw [field_dynamic_iff hacyclic hnode hblocked herror hkind]
      rw [weightPacket_dynamic hacyclic hnode hkind] at hvalid hbuilt ⊢
      obtain ⟨ranged, w, hparts⟩ := buildDynamic_valid hvalid
      rw [buildDynamic_eq hparts] at hbuilt ⊢
      have hbase : (basePacket fl program count object).Shaped ∧ ∀ base,
          baseField fl program count object = .ok base ↔
            (basePacket fl program count object).Shows count base := by
        have hbaseValid := hparts.valid
        unfold basePacket baseField at *
        by_cases hnonneg : 0 ≤ object.base
        · simp only [if_pos hnonneg] at hbaseValid ⊢
          have hmem := mem_refs_of_dynamic hkind hnonneg
          exact ⟨(built_of_valid hacyclic _ hbaseValid).toShaped,
            ih _ ⟨object, input, hnode, hmem⟩ (hrefs _ hmem) hbaseValid⟩
        · simp only [if_neg hnonneg]
          refine ⟨built_onePacket.toShaped, fun base => pure_iff.trans ⟨fun h => ?_, fun h => ?_⟩⟩
          · rw [← Option.some.inj h]
            exact shows_onePacket count
          · exact congrArg some ((shows_onePacket count).unique built_onePacket.toShaped h)
      rw [shows_iff_exists Passes.functional hbase.1 hbuilt.toShaped hparts.same.symm rfl
        hparts.values fun hdense => hparts.defaultWeight fun heq => hdense (hparts.same.trans heq)]
      exact exists_congr fun base => and_congr_left fun _ => hbase.2 base
  | combine =>
      rw [field_combine_iff hacyclic hnode hblocked herror hkind]
      rw [weightPacket_combine hacyclic hnode hkind] at hvalid hbuilt ⊢
      obtain ⟨elementCount, ranged, hparts⟩ := buildCombine_valid hvalid
      obtain ⟨carried, hcarried, hcount⟩ := hparts.carried
      obtain ⟨folded, hfolded, hranged⟩ := hparts.values
      rw [buildCombine_eq hparts] at hbuilt ⊢
      have hchildValid : ∀ child ∈ object.inputs,
          (weightPacket fl program count child).valid = true := fun child hchild =>
        valid_of_inputElementCount hcarried _ (List.mem_map_of_mem hchild)
      have hchild : ∀ child ∈ object.inputs, ∀ data,
          runWeightField fl program child count = .ok data ↔
            (weightPacket fl program count child).Shows count data := fun child hmem =>
        have href := mem_refs_of_combine hkind hmem
        ih _ ⟨object, input, hnode, href⟩ (hrefs _ href) (hchildValid child hmem)
      -- a field that each input shows is what both sides read of it
      have hread : ∀ child ∈ object.inputs, ∀ data,
          (weightPacket fl program count child).Shows count data →
          runWeightField fl program child count =
            combineResolver fl count (weightPacket fl program count child) := by
        intro child hmem data hdata
        rw [(hchild child hmem data).mpr hdata]
        exact (combineResolver_eq_ok.mpr (resolveCombineInput_eq
          (built_of_valid hacyclic child (hchildValid child hmem)) hdata)).symm
      constructor
      · rintro ⟨out, hout, hfield⟩
        have hshows : ∀ child ∈ object.inputs, ∃ data,
            (weightPacket fl program count child).Shows count data := by
          intro child hmem
          obtain ⟨data, hdata, -⟩ := (combine_ok hout).2 child hmem
          exact ⟨data, (hchild child hmem data).mp hdata⟩
        obtain ⟨carried', hcarried', hsame⟩ := elementCount_of_inputs hchildValid hshows
        cases hcarried.symm.trans hcarried'
        have helements : elementCount = count := hcount.trans hsame
        subst helements
        rw [combine_same fun child hmem => (hshows child hmem).elim (hread child hmem)] at hout
        cases hout.symm.trans hfolded
        have heq : ranged = field := Passes.unique hranged hfield
        rw [← heq]
        exact shows_dense hparts.representation
          ⟨fun h => absurd (h.symm.trans hparts.representation) constant_ne_dense,
            fun _ => hparts.length,
            fun h => absurd (hparts.representation.symm.trans h) dense_ne_sparse⟩
      · intro hshows
        have heq : field = ranged :=
          hshows.unique hbuilt.toShaped (shows_dense hparts.representation hshows.fits)
        have helements : elementCount = count :=
          hparts.length.symm.trans (hshows.fits.dense hparts.representation)
        subst helements
        have hsame : ∀ child ∈ object.inputs, runWeightField fl program child elementCount =
            combineResolver fl elementCount (weightPacket fl program elementCount child) := by
          intro child hmem
          obtain ⟨data, hdata, -⟩ := (combine_ok hfolded).2 _ (List.mem_map_of_mem hmem)
          have hfits := fits_of_accepts hacyclic child (hrefs _ (mem_refs_of_combine hkind hmem))
            (hchildValid child hmem) fun hrep =>
              length_of_resolveCombineInput hrep (combineResolver_eq_ok.mp hdata)
          obtain ⟨shown, hshown⟩ :=
            (built_of_valid hacyclic child (hchildValid child hmem)).exists_shows hfits
          exact hread child hmem shown hshown
        refine ⟨folded, ?_, heq ▸ hranged⟩
        rw [combine_same hsame]
        exact hfolded

/-! ## The packet's checks -/

theorem exists_passes {policy : String} {drive : F → F} {base bs : List F}
    (hfield : List.Forall₂ (Passes fl policy drive) base field) (hmem : ∀ b ∈ bs, b ∈ base) :
    ∃ ranged, List.Forall₂ (Passes fl policy drive) bs ranged :=
  Lib.exists_forall₂ fun b hb => by
    obtain ⟨r, -, hr⟩ := Lib.forall₂_mem hfield (hmem b hb)
    exact ⟨r, hr⟩

theorem static_of_accepts {w : F} (h : PacketAccepts fl program count id w)
    (hnode : program.node id = some (object, input)) (hkind : object.kind = .static) :
    knownPolicy object.rangePolicy = true ∧
      applyWeightRangePolicy fl object.rangePolicy (input.scalars 0) = some w := by
  cases h with
  | static hnode' hkind' hknown hpolicy hdefault =>
      cases hnode.symm.trans hnode'
      exact ⟨hpolicy, hdefault⟩
  | free hnode' hkind' | driven hnode' hkind' | combine hnode' hkind' =>
      cases hnode.symm.trans hnode'
      cases hkind.symm.trans hkind'

theorem free_of_accepts {w : F} (h : PacketAccepts fl program count id w)
    (hnode : program.node id = some (object, input)) (hkind : object.kind = .dynamic)
    (hbase : ¬ 0 ≤ object.base) :
    object.representationToken = "constant" ∧ knownPolicy object.rangePolicy = true ∧
      applyWeightRangePolicy fl object.rangePolicy
        (driven fl (input.scalars 1) (input.scalars 2) (input.scalars 3) fl.one) = some w := by
  cases h with
  | free hnode' hkind' hnegative hconstant hpolicy hdefault =>
      cases hnode.symm.trans hnode'
      exact ⟨hconstant, hpolicy, hdefault⟩
  | driven hnode' hkind' hbase' =>
      cases hnode.symm.trans hnode'
      exact absurd hbase' hbase
  | static hnode' hkind' | combine hnode' hkind' =>
      cases hnode.symm.trans hnode'
      cases hkind.symm.trans hkind'

theorem driven_of_accepts {w : F} (h : PacketAccepts fl program count id w)
    (hnode : program.node id = some (object, input)) (hkind : object.kind = .dynamic)
    (hbase : 0 ≤ object.base) :
    ∃ baseObject baseInput b, program.node object.base = some (baseObject, baseInput) ∧
      baseObject.representationToken = object.representationToken ∧
      knownRepresentation object.representationToken = true ∧
      knownPolicy object.rangePolicy = true ∧ PacketAccepts fl program count object.base b ∧
      (object.representationToken = "dense" → w = fl.zero) ∧
      (object.representationToken ≠ "dense" → applyWeightRangePolicy fl object.rangePolicy
        (driven fl (input.scalars 1) (input.scalars 2) (input.scalars 3) b) = some w) := by
  cases h with
  | driven hnode' hkind' _ hbaseNode hsame hknown hpolicy haccepts hdense hdefault =>
      cases hnode.symm.trans hnode'
      exact ⟨_, _, _, hbaseNode, hsame, hknown, hpolicy, haccepts, hdense, hdefault⟩
  | free hnode' hkind' hnegative =>
      cases hnode.symm.trans hnode'
      exact absurd hbase (not_le.mpr hnegative)
  | static hnode' hkind' | combine hnode' hkind' =>
      cases hnode.symm.trans hnode'
      cases hkind.symm.trans hkind'

theorem combine_of_accepts {w : F} (h : PacketAccepts fl program count id w)
    (hnode : program.node id = some (object, input)) (hkind : object.kind = .combine) :
    object.representationToken = "dense" ∧ knownPolicy object.rangePolicy = true ∧
      object.combineMode ≠ none ∧ count ≠ 0 ∧ w = fl.zero ∧
      ∃ weights : Int → F, ∀ child ∈ object.inputs,
        PacketAccepts fl program count child (weights child) := by
  cases h with
  | combine hnode' hkind' hdense hpolicy hmode hcount weights haccepts =>
      cases hnode.symm.trans hnode'
      exact ⟨hdense, hpolicy, hmode, hcount, rfl, weights, haccepts⟩
  | static hnode' hkind' | free hnode' hkind' | driven hnode' hkind' =>
      cases hnode.symm.trans hnode'
      cases hkind.symm.trans hkind'

/-- The packet of a record passes its own checks, with the weight as its default. -/
def PacketPasses (fl : Floats F) (program : WeightProgram F) (count : Nat) (id : Int) (w : F) :
    Prop :=
  (weightPacket fl program count id).valid = true ∧
    (weightPacket fl program count id).defaultWeight = w

theorem packetAccepts_static (hacyclic : program.Acyclic)
    (hnode : program.node id = some (object, input)) (hkind : object.kind = .static)
    {painted : List F} (hshape : RecordShape fl object input)
    (hshows : (recordArrays fl object input).Shows count painted)
    (hfield : List.Forall₂ (Passes fl object.rangePolicy fun w => w) painted field) (w : F) :
    PacketAccepts fl program count id w ↔ PacketPasses fl program count id w := by
  rw [PacketPasses, weightPacket_static hacyclic hnode hkind]
  constructor
  · intro haccepts
    obtain ⟨hpolicy, hdefault⟩ := static_of_accepts haccepts hnode hkind
    have hshaped : (recordArrays fl object input).Shaped := hshape.shaped
    obtain ⟨ranged, hranged⟩ := exists_passes hfield fun v hv => hshows.mem_of_value hshaped hv
    have hparts : StaticParts fl object.representationToken object.rangePolicy
        (paintedValues object input) (paintedIndices object input) (input.scalars 0) ranged w :=
      ⟨hshape, hpolicy, hranged, hdefault⟩
    rw [buildStatic_eq hparts]
    exact ⟨rfl, rfl⟩
  · rintro ⟨hvalid, hw⟩
    obtain ⟨ranged, w', hparts⟩ := buildStatic_valid hvalid
    rw [buildStatic_eq hparts] at hw
    change w' = w at hw
    rw [← hw]
    exact .static hnode hkind hparts.shape.representation hparts.policy hparts.defaultWeight

theorem packetAccepts_driven (hacyclic : program.Acyclic)
    (hnode : program.node id = some (object, input)) (hkind : object.kind = .dynamic)
    (hnonneg : 0 ≤ object.base) {base : List F}
    (hbase : runWeightField fl program object.base count = .ok base)
    (hfield : List.Forall₂ (Passes fl object.rangePolicy (drive fl input)) base field)
    (ih : ∀ w, PacketAccepts fl program count object.base w ↔
      PacketPasses fl program count object.base w) (w : F) :
    PacketAccepts fl program count id w ↔ PacketPasses fl program count id w := by
  have hpacket : basePacket fl program count object =
      weightPacket fl program count object.base := if_pos hnonneg
  rw [PacketPasses, weightPacket_dynamic hacyclic hnode hkind, hpacket]
  constructor
  · intro haccepts
    obtain ⟨baseObject, baseInput, b, hbaseNode, hsame, hknown, hpolicy, haccepts, hdense,
      hdefault⟩ := driven_of_accepts haccepts hnode hkind hnonneg
    obtain ⟨hbaseValid, rfl⟩ := (ih b).mp haccepts
    have hshows := (field_iff_shows hacyclic _ (fieldAccepts_of_ok hacyclic _ _ hbase)
      hbaseValid base).mp hbase
    obtain ⟨ranged, hranged⟩ := exists_passes hfield fun v hv =>
      hshows.mem_of_value (built_of_valid hacyclic _ hbaseValid).toShaped hv
    have hparts : DynamicParts fl object.representationToken object.rangePolicy
        (input.scalars 1) (input.scalars 2) (input.scalars 3)
        (weightPacket fl program count object.base) ranged w :=
      ⟨hknown, hpolicy, hbaseValid,
        (representation_of_valid hacyclic hbaseNode hbaseValid).trans hsame, hranged,
        hdense, hdefault⟩
    rw [buildDynamic_eq hparts]
    exact ⟨hbaseValid, rfl⟩
  · rintro ⟨hvalid, hw⟩
    obtain ⟨ranged, w', hparts⟩ := buildDynamic_valid hvalid
    rw [buildDynamic_eq hparts] at hw
    change w' = w at hw
    rw [← hw]
    obtain ⟨baseObject, baseInput, hbaseNode⟩ := node_of_valid hacyclic hparts.valid
    exact .driven hnode hkind hnonneg hbaseNode
      ((representation_of_valid hacyclic hbaseNode hparts.valid).symm.trans hparts.same)
      hparts.representation hparts.policy ((ih _).mpr ⟨hparts.valid, rfl⟩) hparts.dense
      hparts.defaultWeight

theorem packetAccepts_free (hacyclic : program.Acyclic)
    (hnode : program.node id = some (object, input)) (hkind : object.kind = .dynamic)
    (hnegative : ¬ 0 ≤ object.base) (w : F) :
    PacketAccepts fl program count id w ↔ PacketPasses fl program count id w := by
  have hpacket : basePacket fl program count object = onePacket fl := if_neg hnegative
  rw [PacketPasses, weightPacket_dynamic hacyclic hnode hkind, hpacket]
  constructor
  · intro haccepts
    obtain ⟨hconstant, hpolicy, hdefault⟩ := free_of_accepts haccepts hnode hkind hnegative
    have hparts : DynamicParts fl object.representationToken object.rangePolicy
        (input.scalars 1) (input.scalars 2) (input.scalars 3) (onePacket fl) [] w :=
      ⟨knownRepresentation_iff.mpr (Or.inl hconstant), hpolicy, rfl, hconstant.symm,
        .nil, fun hdense => absurd (hconstant.symm.trans hdense) constant_ne_dense,
        fun _ => hdefault⟩
    rw [buildDynamic_eq hparts]
    exact ⟨rfl, rfl⟩
  · rintro ⟨hvalid, hw⟩
    obtain ⟨ranged, w', hparts⟩ := buildDynamic_valid hvalid
    rw [buildDynamic_eq hparts] at hw
    change w' = w at hw
    rw [← hw]
    have hconstant : object.representationToken = "constant" := hparts.same.symm
    exact .free hnode hkind (not_le.mp hnegative) hconstant hparts.policy
      (hparts.defaultWeight fun hdense => constant_ne_dense (hconstant.symm.trans hdense))

theorem packetAccepts_combine (hacyclic : program.Acyclic)
    (hnode : program.node id = some (object, input)) (hkind : object.kind = .combine)
    {out : List F}
    (hout : combineWeightFieldsStreamed fl object.combineMode object.inputs count
      (fun child => runWeightField fl program child count) = .ok out)
    (hfield : List.Forall₂ (Passes fl object.rangePolicy fun w => w)
      (out.map (combineRemap fl (input.scalars 4) (input.scalars 5))) field)
    (ih : ∀ child ∈ object.inputs, ∀ data, runWeightField fl program child count = .ok data →
      ∀ w, PacketAccepts fl program count child w ↔ PacketPasses fl program count child w)
    (w : F) :
    PacketAccepts fl program count id w ↔ PacketPasses fl program count id w := by
  rw [PacketPasses, weightPacket_combine hacyclic hnode hkind]
  have hchild : ∀ child ∈ object.inputs, ∃ data,
      runWeightField fl program child count = .ok data ∧
        ((weightPacket fl program count child).valid = true →
          (weightPacket fl program count child).Shows count data) := by
    intro child hmem
    obtain ⟨data, hdata, -⟩ := (combine_ok hout).2 child hmem
    exact ⟨data, hdata, fun hvalid =>
      (field_iff_shows hacyclic _ (fieldAccepts_of_ok hacyclic _ _ hdata) hvalid data).mp hdata⟩
  have helementCount : (∀ child ∈ object.inputs,
      (weightPacket fl program count child).valid = true) → ∃ carried,
      inputElementCount 0 (object.inputs.map (weightPacket fl program count)) = some carried ∧
        elementCountOf carried count = count := by
    intro hvalid
    refine elementCount_of_inputs hvalid fun child hmem => ?_
    obtain ⟨data, -, hshows⟩ := hchild child hmem
    exact ⟨data, hshows (hvalid child hmem)⟩
  constructor
  · intro haccepts
    obtain ⟨hdense, hpolicy, hmode, hcount, rfl, weights, haccepts⟩ :=
      combine_of_accepts haccepts hnode hkind
    have hvalid : ∀ child ∈ object.inputs,
        (weightPacket fl program count child).valid = true := by
      intro child hmem
      obtain ⟨data, hdata, -⟩ := hchild child hmem
      exact ((ih child hmem data hdata _).mp (haccepts child hmem)).1
    obtain ⟨carried, hcarried, helements⟩ := helementCount hvalid
    have hsame : ∀ child ∈ object.inputs, runWeightField fl program child count =
        combineResolver fl count (weightPacket fl program count child) := by
      intro child hmem
      obtain ⟨data, hdata, hshows⟩ := hchild child hmem
      rw [hdata]
      exact (combineResolver_eq_ok.mpr (resolveCombineInput_eq
        (built_of_valid hacyclic child (hvalid child hmem)) (hshows (hvalid child hmem)))).symm
    rw [combine_same hsame] at hout
    have hparts : CombineParts fl object.representationToken object.rangePolicy
        object.combineToken (object.inputs.map (weightPacket fl program count)) count
        (input.scalars 4) (input.scalars 5) count field :=
      ⟨hdense, hpolicy, hmode, ⟨carried, hcarried, helements.symm⟩, hcount, ⟨out, hout, hfield⟩⟩
    rw [buildCombine_eq hparts]
    exact ⟨rfl, rfl⟩
  · rintro ⟨hvalid, hw⟩
    obtain ⟨elementCount, ranged, hparts⟩ := buildCombine_valid hvalid
    rw [buildCombine_eq hparts] at hw
    change fl.zero = w at hw
    rw [← hw]
    obtain ⟨carried, hcarried, hcount⟩ := hparts.carried
    have hchildValid : ∀ child ∈ object.inputs,
        (weightPacket fl program count child).valid = true := fun child hmem =>
      valid_of_inputElementCount hcarried _ (List.mem_map_of_mem hmem)
    obtain ⟨carried', hcarried', helements⟩ := helementCount hchildValid
    cases hcarried.symm.trans hcarried'
    refine .combine hnode hkind hparts.representation hparts.policy hparts.mode ?_
      (fun child => (weightPacket fl program count child).defaultWeight) fun child hmem => ?_
    · rw [← helements, ← hcount]
      exact hparts.positive
    · obtain ⟨data, hdata, -⟩ := hchild child hmem
      exact (ih child hmem data hdata _).mpr ⟨hchildValid child hmem, rfl⟩

/-- **The packet's checks** are those the records say, wherever the field is there. -/
theorem packetAccepts_iff (hacyclic : program.Acyclic) : ∀ (id : Int) (field : List F),
    runWeightField fl program id count = .ok field → ∀ w,
      PacketAccepts fl program count id w ↔ PacketPasses fl program count id w := by
  refine hacyclic.induction fun id ih field hok w => ?_
  obtain ⟨object, input, hnode, hblocked, herror⟩ := clear_of_ok hacyclic hok
  cases hkind : object.kind with
  | static =>
      obtain ⟨painted, ⟨hshape, hshows⟩, hfield⟩ :=
        (field_static_iff hacyclic hnode hblocked herror hkind).mp hok
      exact packetAccepts_static hacyclic hnode hkind hshape hshows hfield w
  | dynamic =>
      obtain ⟨base, hbase, hfield⟩ :=
        (field_dynamic_iff hacyclic hnode hblocked herror hkind).mp hok
      by_cases hnonneg : 0 ≤ object.base
      · rw [baseField, if_pos hnonneg] at hbase
        exact packetAccepts_driven hacyclic hnode hkind hnonneg hbase hfield
          (ih _ ⟨object, input, hnode, mem_refs_of_dynamic hkind hnonneg⟩ base hbase) w
      · exact packetAccepts_free hacyclic hnode hkind hnonneg w
  | combine =>
      obtain ⟨out, hout, hfield⟩ :=
        (field_combine_iff hacyclic hnode hblocked herror hkind).mp hok
      exact packetAccepts_combine hacyclic hnode hkind hout hfield
        (fun child hmem => ih _ ⟨object, input, hnode, mem_refs_of_combine hkind hmem⟩) w

/-! ## Agreement -/

/-- `ResolveAll` succeeds on valid packets alone. -/
theorem valid_of_resolveAll {p : WeightPacket F}
    (h : p.resolveAll fl count = some field) : p.valid = true := by
  refine Bool.eq_true_of_not_eq_false fun hinvalid => ?_
  have hfalse : p.resolvesAll fl count = false := by
    rw [WeightPacket.resolvesAll, if_pos hinvalid]
  rw [WeightPacket.resolveAll, if_pos hfalse] at h
  cases h

/-- Where both evaluators succeed they give the same weights; each succeeds without the other
exactly where a check of the other alone fails. -/
theorem field_agrees_with_packet (fl : Floats F) (program : WeightProgram F)
    (hacyclic : program.Acyclic) (root : Int) (count : Nat) :
    (FieldAccepts program count root → (∃ w, PacketAccepts fl program count root w) →
      ∀ weights, runWeightField fl program root count = .ok weights ↔
        (weightPacket fl program count root).resolveAll fl count = some weights) ∧
    (∀ weights, runWeightField fl program root count = .ok weights →
      ((weightPacket fl program count root).valid = true ↔
        ∃ w, PacketAccepts fl program count root w) ∧
      ((weightPacket fl program count root).valid = true →
        (weightPacket fl program count root).resolveAll fl count = some weights)) ∧
    (∀ weights, (weightPacket fl program count root).resolveAll fl count = some weights →
      (FieldAccepts program count root ↔
        runWeightField fl program root count = .ok weights)) := by
  have hfield : ∀ weights, runWeightField fl program root count = .ok weights →
      (weightPacket fl program count root).valid = true →
      (weightPacket fl program count root).resolveAll fl count = some weights :=
    fun weights hok hvalid => (resolveAll_eq_some_iff (built_of_valid hacyclic root hvalid)).mpr
      ((field_iff_shows hacyclic root (fieldAccepts_of_ok hacyclic root weights hok) hvalid
        weights).mp hok)
  have hpacket : ∀ weights,
      (weightPacket fl program count root).resolveAll fl count = some weights →
      (FieldAccepts program count root ↔
        runWeightField fl program root count = .ok weights) := by
    intro weights hresolve
    have hvalid := valid_of_resolveAll hresolve
    refine ⟨fun haccepts => ?_, fieldAccepts_of_ok hacyclic root weights⟩
    exact (field_iff_shows hacyclic root haccepts hvalid weights).mpr
      ((resolveAll_eq_some_iff (built_of_valid hacyclic root hvalid)).mp hresolve)
  have hvalid : ∀ weights, runWeightField fl program root count = .ok weights →
      ((weightPacket fl program count root).valid = true ↔
        ∃ w, PacketAccepts fl program count root w) := by
    intro weights hok
    constructor
    · intro hvalid
      exact ⟨_, (packetAccepts_iff hacyclic root weights hok _).mpr ⟨hvalid, rfl⟩⟩
    · rintro ⟨w, haccepts⟩
      exact ((packetAccepts_iff hacyclic root weights hok w).mp haccepts).1
  refine ⟨fun hfieldAccepts hpacketAccepts weights => ⟨fun hok => ?_, fun hresolve => ?_⟩,
    fun weights hok => ⟨hvalid weights hok, hfield weights hok⟩, hpacket⟩
  · exact hfield weights hok ((hvalid weights hok).mpr hpacketAccepts)
  · exact (hpacket weights hresolve).mp hfieldAccepts

theorem acyclic_of_forward (h : ∀ (i : Nat) object, program.records[i]? = some object →
    ∀ child ∈ object.refs, (i : Int) < child) : program.Acyclic := by
  have hforward : ∀ id child, program.Names id child → id < child := by
    rintro id child ⟨object, input, hnode, hchild⟩
    rw [WeightProgram.node] at hnode
    split at hnode
    · cases hnode
    · rename_i hnonneg
      cases hrecord : program.records[id.toNat]? with
      | none =>
          rw [hrecord] at hnode
          cases hnode
      | some record =>
          rw [hrecord] at hnode
          cases hinput : program.inputs[id.toNat]? with
          | none =>
              rw [hinput] at hnode
              cases hnode
          | some other =>
              rw [hinput] at hnode
              cases hnode
              have hlt := h _ _ hrecord child hchild
              omega
  intro id hcycle
  have hlt : ∀ other, Relation.TransGen program.Names id other → id < other := by
    intro other hreach
    induction hreach with
    | single hnames => exact hforward _ _ hnames
    | tail _ hnames ih => exact lt_trans ih (hforward _ _ hnames)
  exact lt_irrefl id (hlt id hcycle)

end

/-! ## Small graphs -/

section

/-- Exact arithmetic. -/
def rationalFloats : Floats ℚ where
  zero := 0
  half := 1 / 2
  one := 1
  two := 2
  isFinite _ := true
  lt a b := a < b
  le a b := a ≤ b
  eq a b := a = b
  add a b := a + b
  sub a b := a - b
  mul a b := a * b
  reciprocal count := 1 / count
  finite_zero := rfl
  finite_one := rfl
  le_of_finite a b _ _ := by rw [← decide_not, decide_eq_decide, not_lt]
  zero_not_lt := rfl
  one_not_lt := rfl
  one_not_lt_zero := rfl

/-- Inputs with a default weight. -/
def defaulted (w : ℚ) : WeightFieldInputs ℚ where
  scalars := Function.update (unsetScalars rationalFloats) 0 w

/-- A combine of one sparse record. -/
def combineOfSparse : WeightProgram ℚ where
  records :=
    [{ name := "/w", kind := .combine, representationToken := "dense", inputs := [1] },
     { name := "/s", kind := .static, representationToken := "sparse", indices := [5],
       values := [1 / 2] }]
  inputs := [defaulted 0, defaulted 1]

/-- A sparse record that names both of its elements, with a default outside the range. -/
def coveredSparse : WeightProgram ℚ where
  records :=
    [{ name := "/s", kind := .static, representationToken := "sparse", indices := [1, 0],
       values := [1 / 2, 1] }]
  inputs := [defaulted 2]

/-- A combine of one constant record. -/
def combineOfConstant : WeightProgram ℚ where
  records :=
    [{ name := "/w", kind := .combine, representationToken := "dense", inputs := [1] },
     { name := "/c", kind := .static }]
  inputs := [defaulted 0, defaulted 1]

theorem acyclic_combineOfSparse : combineOfSparse.Acyclic := by
  refine acyclic_of_forward fun i object hobject child hchild => ?_
  match i with
  | 0 =>
      cases hobject
      cases List.mem_singleton.mp hchild
      decide
  | 1 =>
      cases hobject
      exact absurd hchild List.not_mem_nil
  | i + 2 => cases hobject

theorem field_agrees_with_packet_sparse :
    runWeightField rationalFloats combineOfSparse 0 6 = .ok [1, 1, 1, 1, 1, 1 / 2] ∧
      (weightPacket rationalFloats combineOfSparse 6 0).resolveAll rationalFloats 6 =
        some [1, 1, 1, 1, 1, 1 / 2] := by
  have hok : runWeightField rationalFloats combineOfSparse 0 6 = .ok [1, 1, 1, 1, 1, 1 / 2] := by
    decide +kernel
  obtain ⟨-, hboth⟩ := (field_agrees_with_packet rationalFloats combineOfSparse
    acyclic_combineOfSparse 0 6).2.1 _ hok
  exact ⟨hok, hboth (by decide +kernel)⟩

/-- A combine reads an input whose sparse index no element has; a default that no element reads
fails a packet; and a combine of no elements has no valid packet. -/
theorem evaluators_differ :
    (runWeightField rationalFloats combineOfSparse 0 2 =
        .error "sparse index out of range on /s" ∧
      (weightPacket rationalFloats combineOfSparse 2 0).resolveAll rationalFloats 2 =
        some [1, 1]) ∧
    (runWeightField rationalFloats coveredSparse 0 2 = .ok [1, 1 / 2] ∧
      (weightPacket rationalFloats coveredSparse 2 0).valid = false) ∧
    (runWeightField rationalFloats combineOfConstant 0 0 = .ok [] ∧
      (weightPacket rationalFloats combineOfConstant 0 0).valid = false) := by
  decide +kernel

end

end RigExec.Weights
