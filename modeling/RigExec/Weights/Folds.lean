/-
# `RigExec.Weights.Folds` — what a fold reads, and the recursion over the records

A fold depends on what its inputs resolve to alone, and succeeds where every one of them does
with as many elements.  Over records without a cycle both evaluators satisfy their bodies'
equations.
-/
import RigExec.Lib.Entries
import RigExec.Weights.Packets

namespace RigExec.Weights

open Relation (TransGen)

/-! ## Folds -/

section

variable {F ι κ : Type} {fl : Floats F} {mode : Option WeightCombine} {count : Nat}
  {resolve resolve' : ι → Except String (List F)} {inputs : List ι} {seed out : List F}

theorem readInput_eq_ok {input : ι} {data : List F} :
    readInput resolve count input = .ok data ↔ resolve input = .ok data ∧ data.length = count := by
  unfold readInput
  cases hresolve : resolve input with
  | error error =>
      constructor
      · intro h
        change (Except.error error : Except String (List F)) = _ at h
        cases h
      · rintro ⟨h, -⟩
        cases h
  | ok data' =>
      show (if data'.length ≠ count then throw "" else pure data') = Except.ok data ↔ _
      by_cases hlength : data'.length = count
      · rw [if_neg (not_not.mpr hlength)]
        constructor
        · intro h
          cases h
          exact ⟨rfl, hlength⟩
        · rintro ⟨h, -⟩
          exact h
      · rw [if_pos hlength]
        constructor
        · intro h
          cases h
        · rintro ⟨h, hsame⟩
          cases h
          exact absurd hsame hlength

theorem foldInputs_cons {input : ι} :
    foldInputs fl mode count resolve seed (input :: inputs) =
      (readInput resolve count input).bind fun data =>
        foldInputs fl mode count resolve (seed.zipWith (foldWeight fl mode) data) inputs := by
  unfold foldInputs
  rw [List.foldlM_cons]
  cases readInput resolve count input with
  | error error => rfl
  | ok data => rfl

theorem readInput_congr {input : ι} (h : resolve input = resolve' input) :
    readInput resolve count input = readInput resolve' count input := by
  unfold readInput
  rw [h]

theorem foldInputs_congr (h : ∀ input ∈ inputs, resolve input = resolve' input) :
    foldInputs fl mode count resolve seed inputs =
      foldInputs fl mode count resolve' seed inputs := by
  induction inputs generalizing seed with
  | nil => rfl
  | cons input inputs ih =>
      rw [foldInputs_cons, foldInputs_cons, readInput_congr (h input List.mem_cons_self)]
      exact congrArg _ (funext fun data => ih fun other hother =>
        h other (List.mem_cons_of_mem _ hother))

theorem combine_congr (h : ∀ input ∈ inputs, resolve input = resolve' input) :
    combineWeightFieldsStreamed fl mode inputs count resolve =
      combineWeightFieldsStreamed fl mode inputs count resolve' := by
  cases inputs with
  | nil => rfl
  | cons first rest =>
      unfold combineWeightFieldsStreamed
      have hrest : ∀ seed : List F, foldInputs fl mode count resolve seed rest =
          foldInputs fl mode count resolve' seed rest := fun seed =>
        foldInputs_congr fun other hother => h other (List.mem_cons_of_mem _ hother)
      dsimp only
      rw [foldInputs_congr h, readInput_congr (h first List.mem_cons_self), funext hrest]

theorem foldInputs_map {toInput : κ → ι} {inputs : List κ} :
    foldInputs fl mode count resolve seed (inputs.map toInput) =
      foldInputs fl mode count (fun input => resolve (toInput input)) seed inputs := by
  induction inputs generalizing seed with
  | nil => rfl
  | cons input inputs ih =>
      rw [List.map_cons, foldInputs_cons, foldInputs_cons]
      exact congrArg _ (funext fun data => ih)

theorem combine_map {toInput : κ → ι} {inputs : List κ} :
    combineWeightFieldsStreamed fl mode (inputs.map toInput) count resolve =
      combineWeightFieldsStreamed fl mode inputs count fun input => resolve (toInput input) := by
  cases inputs with
  | nil => rfl
  | cons first rest =>
      have hall : ∀ seed : List F,
          foldInputs fl mode count resolve seed (toInput first :: rest.map toInput) =
            foldInputs fl mode count (fun input => resolve (toInput input)) seed (first :: rest) :=
        fun seed => by
          rw [← List.map_cons]
          exact foldInputs_map
      have hrest : ∀ seed : List F, foldInputs fl mode count resolve seed (rest.map toInput) =
          foldInputs fl mode count (fun input => resolve (toInput input)) seed rest :=
        fun seed => foldInputs_map
      rw [List.map_cons]
      unfold combineWeightFieldsStreamed
      dsimp only [List.length_cons]
      rw [hall, funext hrest, List.length_map]
      rfl

theorem foldInputs_ok (hseed : seed.length = count)
    (hok : foldInputs fl mode count resolve seed inputs = .ok out) :
    out.length = count ∧
      ∀ input ∈ inputs, ∃ data, resolve input = .ok data ∧ data.length = count := by
  induction inputs generalizing seed with
  | nil =>
      cases hok
      exact ⟨hseed, fun input hinput => absurd hinput List.not_mem_nil⟩
  | cons input inputs ih =>
      rw [foldInputs_cons] at hok
      cases hread : readInput resolve count input with
      | error error =>
          rw [hread] at hok
          cases hok
      | ok data =>
          rw [hread] at hok
          obtain ⟨hdata, hlength⟩ := readInput_eq_ok.mp hread
          have hnext : (seed.zipWith (foldWeight fl mode) data).length = count := by
            rw [List.length_zipWith, hseed, hlength, Nat.min_self]
          obtain ⟨hout, hall⟩ := ih hnext hok
          refine ⟨hout, fun other hother => ?_⟩
          rcases List.mem_cons.mp hother with rfl | hother
          · exact ⟨data, hdata, hlength⟩
          · exact hall other hother

theorem combine_ok (hok : combineWeightFieldsStreamed fl mode inputs count resolve = .ok out) :
    out.length = count ∧
      ∀ input ∈ inputs, ∃ data, resolve input = .ok data ∧ data.length = count := by
  cases inputs with
  | nil =>
      cases hok
      exact ⟨List.length_replicate, fun input hinput => absurd hinput List.not_mem_nil⟩
  | cons first rest =>
      unfold combineWeightFieldsStreamed at hok
      -- the average keeps the length of the field it divides
      have hfolded : ∀ folded : Except String (List F),
          (∀ field, folded = .ok field → field.length = count ∧
            ∀ input ∈ first :: rest, ∃ data, resolve input = .ok data ∧ data.length = count) →
          (folded.map fun out => if mode = some WeightCombine.average then
            out.map fun w => fl.mul w (fl.reciprocal (first :: rest).length) else out) = .ok out →
          out.length = count ∧
            ∀ input ∈ first :: rest, ∃ data, resolve input = .ok data ∧ data.length = count := by
        intro folded hall hmap
        cases folded with
        | error error => cases hmap
        | ok field =>
            obtain ⟨hlength, hread⟩ := hall field rfl
            refine ⟨?_, hread⟩
            rw [← hlength, ← Except.ok.inj hmap]
            split
            · exact List.length_map _
            · rfl
      refine hfolded _ (fun field hfield => ?_) hok
      split at hfield
      · cases hread : readInput resolve count first with
        | error error =>
            rw [hread] at hfield
            cases hfield
        | ok data =>
            rw [hread] at hfield
            obtain ⟨hdata, hlength⟩ := readInput_eq_ok.mp hread
            obtain ⟨hout, hall⟩ := foldInputs_ok hlength hfield
            refine ⟨hout, fun input hinput => ?_⟩
            rcases List.mem_cons.mp hinput with rfl | hinput
            · exact ⟨data, hdata, hlength⟩
            · exact hall input hinput
      · exact foldInputs_ok List.length_replicate hfield

end

/-! ## The recursion -/

section

variable {F : Type} {fl : Floats F} {program : WeightProgram F} {count : Nat}

def WeightProgram.ids (program : WeightProgram F) : List Int :=
  (List.range program.records.length).map Int.ofNat

theorem WeightProgram.mem_ids {id : Int} {object : WeightRecord F} {input : WeightFieldInputs F}
    (h : program.node id = some (object, input)) : id ∈ program.ids := by
  unfold WeightProgram.node at h
  split at h
  · cases h
  · rename_i hnonneg
    cases hrecord : program.records[id.toNat]? with
    | none =>
        rw [hrecord] at h
        cases h
    | some record =>
        obtain ⟨hlt, -⟩ := List.getElem?_eq_some_iff.mp hrecord
        exact List.mem_map.mpr
          ⟨id.toNat, List.mem_range.mpr hlt, Int.toNat_of_nonneg (not_lt.mp hnonneg)⟩

/-- How many records are reached from one. -/
noncomputable def WeightProgram.rank (program : WeightProgram F) : Int → Nat :=
  Lib.height program.ids program.Names

theorem WeightProgram.rank_lt (hacyclic : program.Acyclic) {id child : Int}
    (h : program.Names id child) : program.rank child < program.rank id := by
  have hnames := h
  obtain ⟨object, input, hnode, -⟩ := hnames
  exact Lib.height_lt hacyclic (WeightProgram.mem_ids hnode) h

theorem WeightProgram.rank_lt_depth (program : WeightProgram F) (id : Int) :
    program.rank id < program.records.length + 2 := by
  have hle : program.rank id ≤ program.ids.length + 1 := Lib.height_le id
  rw [WeightProgram.ids, List.length_map, List.length_range] at hle
  exact Nat.lt_succ_of_le hle

theorem WeightProgram.Acyclic.induction (hacyclic : program.Acyclic) {P : Int → Prop}
    (h : ∀ id, (∀ child, program.Names id child → P child) → P id) (id : Int) : P id := by
  induction hrank : program.rank id using Nat.strong_induction_on generalizing id with
  | _ rank ih =>
      refine h id fun child hchild => ih (program.rank child) ?_ child rfl
      rw [← hrank]
      exact WeightProgram.rank_lt hacyclic hchild

theorem mem_refs_of_dynamic {object : WeightRecord F} (hkind : object.kind = .dynamic)
    (hbase : 0 ≤ object.base) : object.base ∈ object.refs := by
  unfold WeightRecord.refs
  rw [hkind]
  dsimp only
  rw [if_pos hbase]
  exact List.mem_singleton_self _

theorem mem_refs_of_combine {object : WeightRecord F} (hkind : object.kind = .combine)
    {child : Int} (hchild : child ∈ object.inputs) : child ∈ object.refs := by
  unfold WeightRecord.refs
  rw [hkind]
  exact hchild

theorem resolveStep_readsBelow (hacyclic : program.Acyclic) :
    Lib.ReadsBelow (resolveStep fl program count) program.rank := by
  intro id f g hsame
  unfold resolveStep
  cases hnode : program.node id with
  | none => rfl
  | some node =>
      obtain ⟨object, input⟩ := node
      have hchild : ∀ child ∈ object.refs, f child = g child := fun child hchild =>
        hsame child (WeightProgram.rank_lt hacyclic ⟨object, input, hnode, hchild⟩)
      dsimp only
      cases hkind : object.kind with
      | static => rfl
      | dynamic =>
          dsimp only
          by_cases hbase : 0 ≤ object.base
          · rw [if_pos hbase, if_pos hbase, hchild _ (mem_refs_of_dynamic hkind hbase)]
          · rw [if_neg hbase, if_neg hbase]
      | combine =>
          dsimp only
          rw [combine_congr fun child hmem => hchild child (mem_refs_of_combine hkind hmem)]

theorem packetStep_readsBelow (hacyclic : program.Acyclic) :
    Lib.ReadsBelow (packetStep fl program count) program.rank := by
  intro id f g hsame
  unfold packetStep
  cases hnode : program.node id with
  | none => rfl
  | some node =>
      obtain ⟨object, input⟩ := node
      have hchild : ∀ child ∈ object.refs, f child = g child := fun child hchild =>
        hsame child (WeightProgram.rank_lt hacyclic ⟨object, input, hnode, hchild⟩)
      dsimp only
      unfold runWeightPacket
      cases hkind : object.kind with
      | static => rfl
      | dynamic =>
          dsimp only
          by_cases hbase : 0 ≤ object.base
          · rw [if_pos hbase, if_pos hbase, hchild _ (mem_refs_of_dynamic hkind hbase)]
          · rw [if_neg hbase, if_neg hbase]
      | combine =>
          dsimp only
          rw [List.map_congr_left fun child hmem => hchild child (mem_refs_of_combine hkind hmem)]

theorem runWeightField_eq (hacyclic : program.Acyclic) (id : Int) :
    runWeightField fl program id count =
      resolveStep fl program count (fun child => runWeightField fl program child count) id :=
  Lib.unroll_eq (resolveStep_readsBelow hacyclic) program.rank_lt_depth id

theorem weightPacket_eq (hacyclic : program.Acyclic) (id : Int) :
    weightPacket fl program count id =
      packetStep fl program count (weightPacket fl program count) id :=
  Lib.unroll_eq (packetStep_readsBelow hacyclic) program.rank_lt_depth id

end

end RigExec.Weights
