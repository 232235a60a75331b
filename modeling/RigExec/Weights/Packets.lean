/-
# `RigExec.Weights.Packets` — the packet builders and `ResolveAll`

A packet is built from its record's own arrays or from packets, and a check that fails returns
it unset.  A combine reads its inputs through `_ResolveCombineInput`, not through `ResolveAll`.

    null            an input that no record stands behind is the packet of no content
    std::sort       insertion sort
    lower_bound     the halving of libstdc++
-/
import RigExec.Weights.Model
import RigExec.Lib.Unroll

namespace RigExec.Weights

section

variable {F : Type} (fl : Floats F)

structure WeightPacket (F : Type) where
  representation : String
  rangePolicy : String
  values : List F := []
  indices : List Int := []
  defaultWeight : F
  valid : Bool := false

/-- `RigExecWeightPacket()`. -/
def WeightPacket.empty : WeightPacket F where
  representation := ""
  rangePolicy := ""
  defaultWeight := fl.zero

/-- The representations a packet knows. -/
def knownRepresentation (token : String) : Bool :=
  token = "constant" || token = "dense" || token = "sparse"

/-- The range policies a packet knows. -/
def knownPolicy (token : String) : Bool := token = "strict" || token = "clamp"

/-- `RigExecApplyWeightRangePolicy`, with the weight it leaves. -/
def applyWeightRangePolicy (policy : String) (w : F) : Option F :=
  if fl.isFinite w = false then none
  else if fl.outside w = true then
    if policy = "clamp" then some (fl.clamp w) else none
  else some w

/-- The policy applied to the values until one fails, and whether none did. -/
def applyPolicies (policy : String) : List F → List F × Bool
  | [] => ([], true)
  | w :: ws =>
      match applyWeightRangePolicy fl policy w with
      | none => (w :: ws, false)
      | some w =>
          let rest := applyPolicies policy ws
          (w :: rest.1, rest.2)

/-! ## Static packets -/

/-- The pairs up to one whose index is the index before it, and whether none was. -/
def uniquePairs : List (Int × F) → List (Int × F) × Bool
  | [] => ([], true)
  | [pair] => ([pair], true)
  | pair :: next :: rest =>
      if next.1 = pair.1 then ([pair], false)
      else
        let tail := uniquePairs (next :: rest)
        (pair :: tail.1, tail.2)

/-- `a < b` of two pairs. -/
def pairLt (a b : Int × F) : Prop := a.1 < b.1 ∨ (a.1 = b.1 ∧ fl.lt a.2 b.2 = true)

instance (a b : Int × F) : Decidable (pairLt fl a b) :=
  inferInstanceAs (Decidable (_ ∨ _))

/-- The support sorted by index where no index repeats, the pairs sorted as pairs otherwise. -/
def canonicalPairs (indices : List Int) (values : List F) : List (Int × F) × Bool :=
  let pairs := indices.zip values
  if indices.Nodup then uniquePairs (pairs.insertionSort fun a b => a.1 ≤ b.1)
  else uniquePairs (pairs.insertionSort fun a b => ¬ pairLt fl b a)

/-- A static packet with the arrays its representation keeps, before their range checks. -/
def rawPacket (representation rangePolicy : String) (values : List F) (indices : List Int)
    (defaultWeight : F) : WeightPacket F where
  representation := representation
  rangePolicy := rangePolicy
  values :=
    if representation = "sparse" then (canonicalPairs fl indices values).1.map (·.2) else values
  indices := if representation = "sparse" then (canonicalPairs fl indices values).1.map (·.1) else []
  defaultWeight := defaultWeight

def buildStaticWeightPacket (representation rangePolicy : String) (values : List F)
    (indices : List Int) (defaultWeight : F) : WeightPacket F :=
  let packet := { WeightPacket.empty fl with
    representation := representation
    rangePolicy := rangePolicy }
  if knownRepresentation representation = false then packet
  else if knownPolicy rangePolicy = false then packet
  else if representation = "sparse" ∧ values.length ≠ indices.length then
    { packet with defaultWeight := defaultWeight }
  else
    let packet := rawPacket fl representation rangePolicy values indices defaultWeight
    if representation = "sparse" ∧ (canonicalPairs fl indices values).2 = false then packet
    else if representation = "dense" ∧ fl.eq defaultWeight fl.zero = false then packet
    else
      let ranged := applyPolicies fl rangePolicy packet.values
      let packet := { packet with values := ranged.1 }
      if ranged.2 = false then packet
      else
        match applyWeightRangePolicy fl rangePolicy defaultWeight with
        | none => packet
        | some w => { packet with defaultWeight := w, valid := true }

/-! ## Dynamic packets -/

/-- The driven values up to one that fails the policy, and whether none did. -/
def drivenValues (policy : String) (drive : F → F) : List F → List F × Bool
  | [] => ([], true)
  | b :: bs =>
      match applyWeightRangePolicy fl policy (drive b) with
      | none => ([], false)
      | some r =>
          let rest := drivenValues policy drive bs
          (r :: rest.1, rest.2)

def buildDynamicWeightPacket (representation rangePolicy : String) (driver scale bias : F)
    (base : Option (WeightPacket F)) : WeightPacket F :=
  let packet := { WeightPacket.empty fl with
    representation := representation
    rangePolicy := rangePolicy }
  if knownRepresentation representation = false then packet
  else if knownPolicy rangePolicy = false then packet
  else
    let drive := driven fl driver scale bias
    match base with
    | none =>
        if representation ≠ "constant" then packet
        else
          match applyWeightRangePolicy fl rangePolicy (drive fl.one) with
          | none => { packet with defaultWeight := drive fl.one }
          | some w => { packet with defaultWeight := w, valid := true }
    | some base =>
        if base.valid = false ∨ base.representation ≠ representation then packet
        else
          let ranged := drivenValues fl rangePolicy drive base.values
          let packet := { packet with indices := base.indices, values := ranged.1 }
          if ranged.2 = false then packet
          else if representation = "dense" then
            { packet with defaultWeight := fl.zero, valid := true }
          else
            match applyWeightRangePolicy fl rangePolicy (drive base.defaultWeight) with
            | none => { packet with defaultWeight := drive base.defaultWeight }
            | some w => { packet with defaultWeight := w, valid := true }

/-! ## Combine packets -/

/-- The position `std::lower_bound` halves down to. -/
def lowerBound (indices : List Int) (value : Int) : Nat → Nat → Nat → Nat
  | 0, first, _ => first
  | fuel + 1, first, len =>
      if len = 0 then first
      else
        let half := len / 2
        match indices[first + half]? with
        | none => first
        | some index =>
            if index < value then lowerBound indices value fuel (first + half + 1) (len - half - 1)
            else lowerBound indices value fuel first half

/-- `Resolve` of a sparse packet with as many indices as values. -/
def WeightPacket.resolveSparse (packet : WeightPacket F) (i : Nat) : F :=
  let at_ := lowerBound packet.indices i packet.indices.length 0 packet.indices.length
  if packet.indices[at_]? = some (i : Int) then packet.values.getD at_ packet.defaultWeight
  else packet.defaultWeight

/-- The sorted support merged into the default, from one element on. -/
def mergeSupport (defaultWeight : F) (i : Nat) : Nat → List (Int × F) → List F
  | 0, _ => []
  | left + 1, pairs =>
      match pairs.dropWhile fun pair => pair.1 < (i : Int) with
      | [] => defaultWeight :: mergeSupport defaultWeight (i + 1) left []
      | pair :: rest =>
          if pair.1 = i then pair.2 :: mergeSupport defaultWeight (i + 1) left rest
          else defaultWeight :: mergeSupport defaultWeight (i + 1) left (pair :: rest)

def resolveCombineInput (packet : WeightPacket F) (elementCount : Nat) : Option (List F) :=
  if packet.representation = "dense" then
    if packet.values.length ≠ elementCount then none
    else if packet.values.any (fl.lt · fl.zero) = true then none
    else some packet.values
  else if packet.representation ≠ "sparse" then
    if fl.lt packet.defaultWeight fl.zero = true then none
    else some (List.replicate elementCount packet.defaultWeight)
  else if packet.indices.length ≠ packet.values.length then none
  else
    let field :=
      if packet.indices.Pairwise (· ≤ ·) then
        mergeSupport packet.defaultWeight 0 elementCount (packet.indices.zip packet.values)
      else (List.range elementCount).map packet.resolveSparse
    if field.any (fl.lt · fl.zero) = true then none else some field

/-- The element count the dense inputs carry, none where an input is invalid or two counts
differ. -/
def inputElementCount : Nat → List (WeightPacket F) → Option Nat
  | elementCount, [] => some elementCount
  | elementCount, packet :: packets =>
      if packet.valid = false then none
      else if packet.representation = "dense" then
        if elementCount ≠ 0 ∧ packet.values.length ≠ elementCount then none
        else inputElementCount packet.values.length packets
      else inputElementCount elementCount packets

/-- An input of a combine as its fold reads it. -/
def combineResolver (count : Nat) (input : WeightPacket F) : Except String (List F) :=
  match resolveCombineInput fl input count with
  | none => throw ""
  | some field => return field

/-- The element count that was carried, the target's where none was. -/
def elementCountOf (carried weightTargetCount : Nat) : Nat :=
  if carried = 0 then weightTargetCount else carried

def buildCombineWeightPacket (representation rangePolicy combineMode : String)
    (inputs : List (WeightPacket F)) (weightTargetCount : Nat) (strength invert : F) :
    WeightPacket F :=
  let packet := { WeightPacket.empty fl with
    representation := representation
    rangePolicy := rangePolicy }
  if representation ≠ "dense" then packet
  else if knownPolicy rangePolicy = false then packet
  else
    match combineModeOf combineMode with
    | none => packet
    | some mode =>
        match inputElementCount 0 inputs with
        | none => packet
        | some carried =>
            let elementCount := elementCountOf carried weightTargetCount
            if elementCount = 0 then packet
            else
              match combineWeightFieldsStreamed fl (some mode) inputs elementCount
                  (combineResolver fl elementCount) with
              | .error _ => packet
              | .ok folded =>
                  let ranged := applyPolicies fl rangePolicy
                    (folded.map (combineRemap fl strength invert))
                  if ranged.2 = false then WeightPacket.empty fl
                  else { packet with values := ranged.1, valid := true }

/-! ## The packet of a record -/

/-- `RigExecRunWeightPacket` on the packets the record names. -/
def runWeightPacket (object : WeightRecord F) (input : WeightFieldInputs F) (targetCount : Nat)
    (packet : Int → WeightPacket F) : WeightPacket F :=
  match object.kind with
  | .static => buildStaticWeightPacket fl object.representationToken object.rangePolicy
      (paintedValues object input) (paintedIndices object input) (input.scalars 0)
  | .dynamic => buildDynamicWeightPacket fl object.representationToken object.rangePolicy
      (input.scalars 1) (input.scalars 2) (input.scalars 3)
      (if 0 ≤ object.base then some (packet object.base) else none)
  | .combine => buildCombineWeightPacket fl object.representationToken object.rangePolicy
      object.combineToken (object.inputs.map packet) targetCount (input.scalars 4)
      (input.scalars 5)

/-- The packet at a place, from the packets at the places it names. -/
def packetStep (program : WeightProgram F) (targetCount : Nat) (packet : Int → WeightPacket F)
    (id : Int) : WeightPacket F :=
  match program.node id with
  | none => WeightPacket.empty fl
  | some (object, input) => runWeightPacket fl object input targetCount packet

/-! ## `ResolveAll` -/

/-- A finite weight from 0 to 1. -/
def usable (v : F) : Bool := fl.isFinite v && fl.le fl.zero v && fl.le v fl.one

/-- `_WeightPacketResolvesAll`. -/
def WeightPacket.resolvesAll (packet : WeightPacket F) (count : Nat) : Bool :=
  if packet.valid = false then false
  else if packet.rangePolicy ≠ "" ∧ knownPolicy packet.rangePolicy = false then false
  else if packet.representation = "constant" then
    packet.values.isEmpty && packet.indices.isEmpty && usable fl packet.defaultWeight
  else if packet.representation = "dense" then
    packet.indices.isEmpty && packet.values.length == count && packet.values.all (usable fl)
  else if packet.representation = "sparse" then
    packet.indices.length == packet.values.length &&
      packet.indices.all (fun index => 0 ≤ index && index < count) &&
      decide (packet.indices.Pairwise (· < ·)) &&
      (count ≤ packet.indices.length || usable fl packet.defaultWeight) &&
      packet.values.all (usable fl)
  else false

def WeightPacket.resolveAll (packet : WeightPacket F) (count : Nat) : Option (List F) :=
  if packet.resolvesAll fl count = false then none
  else if packet.representation = "constant" then
    some (List.replicate count packet.defaultWeight)
  else if packet.representation = "dense" then some (packet.values.take count)
  else some ((packet.indices.zip packet.values).foldl (fun out pair => out.set pair.1.toNat pair.2)
    (List.replicate count packet.defaultWeight))

/-! ## Both evaluators -/

def runWeightField (program : WeightProgram F) (root : Int) (count : Nat) :
    Except String (List F) :=
  Lib.unroll (resolveStep fl program count) (.error "weight input unavailable")
    (program.records.length + 2) root

/-- The packet of a record, built bottom-up with `RigExecRunWeightPacket`. -/
def weightPacket (program : WeightProgram F) (targetCount : Nat) (id : Int) : WeightPacket F :=
  Lib.unroll (packetStep fl program targetCount) (WeightPacket.empty fl)
    (program.records.length + 2) id

end

end RigExec.Weights
