/-
# `RigExec.Weights.Workspace` — builds that share a workspace

A workspace keeps the last sparse support with its order and whether it repeats an index, and the
buffers of a build.

    static_cast<int>    `int32`
    -1.0f               the parameter `minusOne`
    std::sort           insertion sort
    null pointers       left out
-/
import RigExec.Weights.Packets

namespace RigExec.Weights

section

variable {F : Type} (fl : Floats F)

/-- `RigExecWeightPacketWorkspace`. -/
structure Workspace (F : Type) where
  pairs : List (Int × F) := []
  support : List Int := []
  supportOrder : List Nat := []
  uniqueSupport : Bool := false
  combineField : List F := []

/-! ## Static builds -/

/-- The positions of the support in the order of their indices. -/
def sortedOrder (indices : List Int) : List Nat :=
  (List.range indices.length).insertionSort fun a b => indices.getD a 0 ≤ indices.getD b 0

/-- No two neighbours in the order have one index. -/
def neighboursDiffer (indices : List Int) : List Nat → Bool
  | a :: b :: rest =>
      if indices.getD a 0 = indices.getD b 0 then false else neighboursDiffer indices (b :: rest)
  | _ => true

/-- The workspace with the order of a support, sorted unless it is the last one. -/
def Workspace.prepare (ws : Workspace F) (indices : List Int) : Workspace F :=
  if ws.support.length = indices.length ∧ (indices.length = 0 ∨ ws.support = indices) then ws
  else
    { ws with
      support := indices
      supportOrder := sortedOrder indices
      uniqueSupport := neighboursDiffer indices (sortedOrder indices) }

/-- The pairs in canonical order. -/
def Workspace.sortedPairs (ws : Workspace F) (indices : List Int) (values : List F) :
    List (Int × F) :=
  if ws.uniqueSupport then
    ws.supportOrder.map fun source => (indices.getD source 0, values.getD source fl.zero)
  else ws.pairs.insertionSort fun a b => ¬ pairLt fl b a

/-- The checks of a static packet whose arrays are in place. -/
def finishStatic (packet : WeightPacket F) : WeightPacket F :=
  if packet.representation = "dense" ∧ fl.eq packet.defaultWeight fl.zero = false then packet
  else
    let ranged := applyPolicies fl packet.rangePolicy packet.values
    let packet := { packet with values := ranged.1 }
    if ranged.2 = false then packet
    else
      match applyWeightRangePolicy fl packet.rangePolicy packet.defaultWeight with
      | none => packet
      | some w => { packet with defaultWeight := w, valid := true }

/-- `_BuildStaticWeightPacket` in a workspace. -/
def buildStaticIn (ws : Workspace F) (representation rangePolicy : String) (values : List F)
    (indices : List Int) (defaultWeight : F) : WeightPacket F × Workspace F :=
  let packet := { WeightPacket.empty fl with
    representation := representation
    rangePolicy := rangePolicy }
  if knownRepresentation representation = false then (packet, ws)
  else if knownPolicy rangePolicy = false then (packet, ws)
  else
    let packet := { packet with defaultWeight := defaultWeight }
    if representation = "sparse" then
      let ws := { ws with pairs := indices.zip values }
      if values.length ≠ indices.length then (packet, ws)
      else
        let ws := ws.prepare indices
        let ws := { ws with pairs := ws.sortedPairs fl indices values }
        let unique := uniquePairs ws.pairs
        let packet := { packet with
          indices := unique.1.map (·.1)
          values := unique.1.map (·.2) }
        if unique.2 = false then (packet, ws) else (finishStatic fl packet, ws)
    else (finishStatic fl { packet with values := values }, { ws with pairs := [] })

/-! ## Combine builds -/

variable (minusOne : F)

/-- `static_cast<int>` of an element's number. -/
def int32 (i : Nat) : Int :=
  ((i : Int) + 2 ^ 31) % 2 ^ 32 - 2 ^ 31

/-- `RigExecWeightPacket::Resolve`. -/
def WeightPacket.resolve (packet : WeightPacket F) (i count : Nat) : F :=
  if packet.representation = "dense" then
    if packet.values.length ≠ count ∨ i ≥ count then minusOne
    else packet.values.getD i minusOne
  else if packet.representation = "sparse" then
    if packet.indices.length ≠ packet.values.length then minusOne
    else
      let at_ := lowerBound packet.indices (int32 i) packet.indices.length 0 packet.indices.length
      if packet.indices[at_]? = some (int32 i) then packet.values.getD at_ packet.defaultWeight
      else packet.defaultWeight
  else packet.defaultWeight

/-- Elements resolved one by one until one is negative; the others keep the default. -/
def resolveLoop (defaultWeight : F) (resolve : Nat → F) (i : Nat) : Nat → List F × Bool
  | 0 => ([], true)
  | left + 1 =>
      if fl.lt (resolve i) fl.zero = true then
        (resolve i :: List.replicate left defaultWeight, false)
      else
        let rest := resolveLoop defaultWeight resolve (i + 1) left
        (resolve i :: rest.1, rest.2)

/-- The sorted support merged into the default, from one element on. -/
def mergeField (defaultWeight : F) (i : Nat) : Nat → List (Int × F) → List F
  | 0, _ => []
  | left + 1, pairs =>
      match pairs.dropWhile fun pair => pair.1 < int32 i with
      | [] => defaultWeight :: mergeField defaultWeight (i + 1) left []
      | pair :: rest =>
          if pair.1 = int32 i then pair.2 :: mergeField defaultWeight (i + 1) left rest
          else defaultWeight :: mergeField defaultWeight (i + 1) left (pair :: rest)

/-- `_ResolveCombineInput`, with what it leaves in the scratch field. -/
def resolveInputIn (scratch : List F) (packet : WeightPacket F) (elementCount : Nat) :
    List F × Option (List F) :=
  if packet.representation = "dense" then
    if packet.values.length ≠ elementCount then (scratch, none)
    else if packet.values.any (fl.lt · fl.zero) = true then (scratch, none)
    else (scratch, some packet.values)
  else if packet.representation ≠ "sparse" then
    if fl.lt packet.defaultWeight fl.zero = true then (scratch, none)
    else
      let field := List.replicate elementCount packet.defaultWeight
      (field, some field)
  else if packet.indices.length ≠ packet.values.length then (scratch, none)
  else if ¬ packet.indices.Pairwise (· ≤ ·) then
    let resolved := resolveLoop fl packet.defaultWeight
      (fun i => packet.resolve minusOne i elementCount) 0 elementCount
    (resolved.1, if resolved.2 = true then some resolved.1 else none)
  else
    let field := mergeField packet.defaultWeight 0 elementCount (packet.indices.zip packet.values)
    (field, if field.any (fl.lt · fl.zero) = true then none else some field)

section Streamed

variable {σ ι : Type}

/-- An input of a fold that resolves into the scratch `σ`. -/
def readInputIn (resolve : σ → ι → σ × Option (List F)) (elementCount : Nat) (scratch : σ)
    (input : ι) : σ × Except String (List F) :=
  let read := resolve scratch input
  (read.1,
    match read.2 with
    | none => .error ""
    | some data => if data.length ≠ elementCount then .error "" else .ok data)

/-- The inputs folded into a seeded field. -/
def foldInputsIn (mode : Option WeightCombine) (elementCount : Nat)
    (resolve : σ → ι → σ × Option (List F)) (scratch : σ) (out : List F) :
    List ι → σ × Except String (List F)
  | [] => (scratch, .ok out)
  | input :: rest =>
      let read := readInputIn resolve elementCount scratch input
      match read.2 with
      | .error e => (read.1, .error e)
      | .ok data =>
          foldInputsIn mode elementCount resolve read.1 (out.zipWith (foldWeight fl mode) data) rest

/-- `RigExecCombineWeightFieldsStreamed` with a scratch. -/
def combineStreamedIn (mode : Option WeightCombine) (inputs : List ι) (elementCount : Nat)
    (resolve : σ → ι → σ × Option (List F)) (scratch : σ) : σ × Except String (List F) :=
  match inputs with
  | [] => (scratch, .ok (List.replicate elementCount (weightCombineIdentity fl mode)))
  | first :: rest =>
      let folded :=
        if seedFromFirst mode = true then
          let read := readInputIn resolve elementCount scratch first
          match read.2 with
          | .error e => (read.1, .error e)
          | .ok seed => foldInputsIn fl mode elementCount resolve read.1 seed rest
        else
          foldInputsIn fl mode elementCount resolve scratch
            (List.replicate elementCount (weightCombineIdentity fl mode)) (first :: rest)
      (folded.1, folded.2.map fun out =>
        if mode = some .average then
          out.map fun w => fl.mul w (fl.reciprocal (first :: rest).length)
        else out)

end Streamed

/-- `RigExecBuildCombineWeightPacket` in a workspace. -/
def buildCombineIn (ws : Workspace F) (representation rangePolicy combineMode : String)
    (inputs : List (WeightPacket F)) (weightTargetCount : Nat) (strength invert : F) :
    WeightPacket F × Workspace F :=
  let packet := { WeightPacket.empty fl with
    representation := representation
    rangePolicy := rangePolicy }
  if representation ≠ "dense" then (packet, ws)
  else if knownPolicy rangePolicy = false then (packet, ws)
  else
    match combineModeOf combineMode with
    | none => (packet, ws)
    | some mode =>
        match inputElementCount 0 inputs with
        | none => (packet, ws)
        | some carried =>
            let elementCount := elementCountOf carried weightTargetCount
            if elementCount = 0 then (packet, ws)
            else
              let folded := combineStreamedIn fl (some mode) inputs elementCount
                (fun scratch input => resolveInputIn fl minusOne scratch input elementCount)
                ws.combineField
              let ws := { ws with combineField := folded.1 }
              match folded.2 with
              | .error _ => (packet, ws)
              | .ok out =>
                  let ranged := applyPolicies fl rangePolicy
                    (out.map (combineRemap fl strength invert))
                  if ranged.2 = false then (WeightPacket.empty fl, ws)
                  else ({ packet with values := ranged.1, valid := true }, ws)

/-! ## Runs of builds -/

inductive WeightBuild (F : Type) where
  | static (representation rangePolicy : String) (values : List F) (indices : List Int)
      (defaultWeight : F)
  | combine (representation rangePolicy combineMode : String) (inputs : List (WeightPacket F))
      (weightTargetCount : Nat) (strength invert : F)

/-- The packet of a build and the workspace it leaves. -/
def WeightBuild.run (ws : Workspace F) : WeightBuild F → WeightPacket F × Workspace F
  | .static representation rangePolicy values indices defaultWeight =>
      buildStaticIn fl ws representation rangePolicy values indices defaultWeight
  | .combine representation rangePolicy combineMode inputs weightTargetCount strength invert =>
      buildCombineIn fl minusOne ws representation rangePolicy combineMode inputs
        weightTargetCount strength invert

/-- The packets of builds that reuse one workspace. -/
def runBuilds (ws : Workspace F) : List (WeightBuild F) → List (WeightPacket F)
  | [] => []
  | build :: builds =>
      (build.run fl minusOne ws).1 :: runBuilds (build.run fl minusOne ws).2 builds

end

end RigExec.Weights
