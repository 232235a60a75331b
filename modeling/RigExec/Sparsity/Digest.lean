/-
# `RigExec.Sparsity.Digest` — the control digest

`RigExecControlStateDigest` folds every value a frame read into 64 bits, in a
fixed order, so that frames with one control state share a key:

    samples      the first of each path, by path, one level-1 digest each
    head         the table's own digest
    vary         the layout rows and external inputs that can move with time
    seeds        the stage-derived frames, in program order
    ups          the upstream values, the last of each path, by path
    overrides    the last of each key, by key

The digest is a hash, so equal digests say little; what it does promise is one
direction, `controlStateDigest_congr`: states that agree in what is folded have
one digest, whatever the order and the repetitions of their lists.  The memos
that a digest may read in place of a value it names (the static samples, the
recorded fold order, the burst's) are left out.
-/
import RigExec.Sparsity.Model

namespace RigExec.Sparsity

open Lib

variable {Time : Type}

/-! ## The folds -/

/-- The offset basis every digest starts from. -/
def fnvBasis : UInt64 := 1469598103934665603

/-- `_FoldU64` of a count or a coordinate. -/
def foldCount (hash : UInt64) (n : Nat) : UInt64 := mixWord hash n.toUInt64

/-- `_FoldU64` of a list's length, then its members. -/
def foldCounted {α : Type} (foldOne : UInt64 → α → UInt64) (hash : UInt64) (members : List α) :
    UInt64 :=
  members.foldl foldOne (foldCount hash members.length)

/-- A tag and its unit separator, in one run of bytes. -/
def foldTag (hash : UInt64) (tag : String) : UInt64 :=
  foldBytes hash (tag.toUTF8.toList ++ [0x1f])

/-- A flag's byte. -/
def foldFlag (hash : UInt64) (flag : Bool) : UInt64 := foldBytes hash [if flag then 1 else 0]

/-- Doubles, one `_FoldScalar` each. -/
def foldDoubles (hash : UInt64) (doubles : List (BitVec 64)) : UInt64 :=
  doubles.foldl (fun hash bits => foldBytes hash (littleEndian bits)) hash

def foldPointFrame (hash : UInt64) (frame : PointFrame) : UInt64 :=
  foldBytes (foldDoubles hash frame.points) (littleEndian frame.flags)

/-- `_FoldScalar` of a `char`. -/
def foldChar (hash : UInt64) (c : UInt8) : UInt64 := foldBytes hash [c]

/-- `_FoldStageSeeds`; the reset flags fold without their count. -/
def foldStageSeeds (hash : UInt64) (seeds : StageFrameSeeds) : UInt64 :=
  let hash := foldTag hash "seeds"
  let hash := foldCounted foldDoubles hash seeds.xformBase
  let hash := foldCounted foldPointFrame hash seeds.xformFrames
  let hash := foldCounted foldChar hash seeds.deltaOk
  let hash := foldCounted foldDoubles hash seeds.deltaBase
  let hash := foldCounted foldChar hash seeds.nativeOk
  let hash := foldCounted foldPointFrame hash seeds.nativeFrames
  let hash := foldCounted foldDoubles hash seeds.intervening
  seeds.interveningReset.foldl foldChar hash

/-- `RigExecFoldConstantDigest`: the namespace of the epoch's constants, folded over a digest. -/
def foldConstantDigest (controlDigest constantDigest : UInt64) : UInt64 :=
  mixWord (mixWord (foldTag fnvBasis "const") controlDigest) constantDigest

variable [VtHashing]

/-- What `RigExecSampleDigest` reads of a sample besides its path: a stale value that rides along
with a valueless sample is not read. -/
def SampledInput.content (sample : SampledInput) : Bool × Bool × Option VtValue :=
  (sample.hasValue, sample.valueBlocked, if sample.hasValue then some sample.value else none)

/-- `RigExecSampleDigest` of a path and what was sampled there. -/
def sampleDigest (path : SdfPath) (content : Bool × Bool × Option VtValue) : UInt64 :=
  let hash := foldString (foldTag fnvBasis "src") path
  let hash := foldFlag (foldFlag hash content.1) content.2.1
  match content.2.2 with
  | some value => foldVtValue hash value
  | none => foldString hash "novalue"

/-- The samples' block. -/
def foldSamples (hash : UInt64) (values : List SampledInput) : UInt64 :=
  foldCounted
    (fun hash path =>
      match (emplaced SampledInput.path values path).map SampledInput.content with
      | some content => mixWord hash (sampleDigest path content)
      | none => hash)
    hash (keysOf SampledInput.path values)

/-- `_FoldHeadLeafConstants`, of the table's digest; the tag's terminator is folded too. -/
def foldHeadLeafConstants (hash : UInt64) : Option UInt64 → UInt64
  | none => hash
  | some digest => mixWord (foldBytes hash ("head".toUTF8.toList ++ [0])) digest

/-- `kAbsent`, for a coordinate the vector does not hold. -/
def absentMark : UInt64 := ~~~0

/-- One row of the varying layouts. -/
def foldLayoutRow (inputs : FrameInputs Time) (hash : UInt64) (row : Nat) : UInt64 :=
  let hash := foldCount hash row
  match inputs.layoutLeaves[row]? with
  | some values => foldCounted foldLeafValue hash values
  | none => mixWord hash absentMark

/-- One varying external input: the coordinate as one word, then the leaf. -/
def foldRevisionLeaf (inputs : FrameInputs Time) (hash : UInt64) (leaf : Nat × Nat) : UInt64 :=
  let hash := mixWord hash ((leaf.1.toUInt64 <<< 32) ||| leaf.2.toUInt64)
  match leafAt inputs.revisionLeaves leaf.1 leaf.2 with
  | some value => foldLeafValue hash value
  | none => mixWord hash absentMark

def foldVaryingTransport (hash : UInt64) (inputs : FrameInputs Time) : UInt64 :=
  if inputs.varyingLayoutRows = [] ∧ inputs.varyingRevisionLeaves = [] then hash
  else
    let hash := foldTag hash "vary"
    let hash := foldCounted (foldLayoutRow inputs) hash inputs.varyingLayoutRows
    foldCounted (foldRevisionLeaf inputs) hash inputs.varyingRevisionLeaves

/-- `GetTypeName` of a value. -/
def VtValue.typeName : VtValue → String
  | .empty => ""
  | .holding held => VtHashing.typeName held

/-- One upstream value: an array by the hash its producer computed, if it did. -/
def foldUpstreamValue (hash : UInt64) (upstream : UpstreamValue) : UInt64 :=
  let hash := foldSeparator (foldString hash upstream.path)
  let hash := foldSeparator (foldString hash upstream.value.typeName)
  if upstream.value.isArrayValued ∧ upstream.foldHash ≠ 0 then mixWord hash upstream.foldHash
  else foldVtValue hash upstream.value

def foldUpstream (hash : UInt64) (upstream : List UpstreamValue) : UInt64 :=
  if upstream = [] then hash
  else
    foldCounted
      (fun hash path =>
        match assigned UpstreamValue.path upstream path with
        | some value => foldUpstreamValue hash value
        | none => hash)
      (foldTag hash "ups") (keysOf UpstreamValue.path upstream)

/-- One override, by its key. -/
def foldOverride (hash : UInt64) (key : OverrideKey) (value : VtValue) : UInt64 :=
  let hash := foldSeparator (foldString (foldTag hash "ovr") (ofLex key).1)
  let hash := foldSeparator (foldString hash (ofLex (ofLex key).2).1)
  let hash := foldSeparator (foldString hash (ofLex (ofLex key).2).2)
  foldVtValue hash value

def foldOverrides (hash : UInt64) (overrides : List ValueOverride) : UInt64 :=
  foldCounted
    (fun hash key =>
      match (assigned ValueOverride.key overrides key).map ValueOverride.value with
      | some value => foldOverride hash key value
      | none => hash)
    hash (keysOf ValueOverride.key overrides)

def controlStateDigest (tables : Nat → HeadLeafConstants) (inputs : FrameInputs Time)
    (overrides : List ValueOverride) : UInt64 :=
  let hash := foldSamples fnvBasis inputs.values
  let hash := foldHeadLeafConstants hash
    (inputs.headLeafConstants.map fun table => (tables table).digest)
  let hash := foldVaryingTransport hash inputs
  let hash := foldStageSeeds hash inputs.stageSeeds
  let hash := foldUpstream hash inputs.upstream
  foldOverrides hash overrides

/-! ## What the digest depends on -/

omit [VtHashing] in
theorem keysOf_eq_of_rows {ρ κ β : Type} [LinearOrder κ] {key : ρ → κ} {rows rows' : List ρ}
    {find : List ρ → κ → Option ρ} (read : ρ → β)
    (hfind : ∀ (rows : List ρ) (k : κ), (find rows k).isSome ↔ k ∈ rows.map key)
    (h : ∀ k, (find rows k).map read = (find rows' k).map read) :
    keysOf key rows = keysOf key rows' := by
  refine keysOf_eq fun k => ?_
  rw [← hfind, ← hfind, ← Option.isSome_map (f := read), h k, Option.isSome_map]

theorem foldSamples_congr {a b : List SampledInput} (hash : UInt64)
    (h : ∀ path, (emplaced SampledInput.path a path).map SampledInput.content =
      (emplaced SampledInput.path b path).map SampledInput.content) :
    foldSamples hash a = foldSamples hash b := by
  rw [foldSamples, foldSamples,
    keysOf_eq_of_rows SampledInput.content (fun _ _ => emplaced_isSome) h]
  simp only [h]

theorem foldOverrides_congr {a b : List ValueOverride} (hash : UInt64)
    (h : ∀ key, (assigned ValueOverride.key a key).map ValueOverride.value =
      (assigned ValueOverride.key b key).map ValueOverride.value) :
    foldOverrides hash a = foldOverrides hash b := by
  rw [foldOverrides, foldOverrides,
    keysOf_eq_of_rows ValueOverride.value (fun _ _ => assigned_isSome) h]
  simp only [h]

omit [VtHashing] in
/-- What the fold reads of an upstream row: of an array also the hash it came with. -/
def UpstreamValue.content (row : UpstreamValue) : VtValue × UInt64 :=
  (row.value, if row.value.isArrayValued then row.foldHash else 0)

theorem foldUpstreamValue_congr {a b : UpstreamValue} (hash : UInt64) (hpath : a.path = b.path)
    (hcontent : a.content = b.content) : foldUpstreamValue hash a = foldUpstreamValue hash b := by
  obtain ⟨hvalue, hfold⟩ := Prod.mk.injEq .. ▸ hcontent
  unfold foldUpstreamValue
  rw [hpath, hvalue]
  cases harray : b.value.isArrayValued with
  | false => simp
  | true =>
      rw [hvalue, harray] at hfold
      simp only [if_true] at hfold
      rw [hfold]

theorem foldUpstream_congr {a b : List UpstreamValue} (hash : UInt64)
    (h : ∀ path, (assigned UpstreamValue.path a path).map UpstreamValue.content =
      (assigned UpstreamValue.path b path).map UpstreamValue.content) :
    foldUpstream hash a = foldUpstream hash b := by
  have hkeys : keysOf UpstreamValue.path a = keysOf UpstreamValue.path b :=
    keysOf_eq_of_rows UpstreamValue.content (fun _ _ => assigned_isSome) h
  have hempty : a = [] ↔ b = [] := by
    have hnil : ∀ rows : List UpstreamValue, rows = [] ↔ keysOf UpstreamValue.path rows = [] := by
      intro rows
      rw [List.eq_nil_iff_forall_not_mem, List.eq_nil_iff_forall_not_mem]
      simp only [mem_keysOf, List.mem_map, not_exists, not_and]
      constructor
      · intro hrows key row hrow
        exact absurd hrow (hrows row)
      · intro hrows row hrow
        exact hrows row.path row hrow rfl
    rw [hnil, hnil, hkeys]
  unfold foldUpstream
  rw [hkeys]
  refine if_congr hempty rfl ?_
  refine List.foldl_ext _ _ _ ?_
  intro hash path _
  have hrow := h path
  cases ha : assigned UpstreamValue.path a path with
  | none =>
      rw [ha, Option.map_none, eq_comm, Option.map_eq_none_iff] at hrow
      rw [hrow]
  | some row =>
      rw [ha, Option.map_some, eq_comm, Option.map_eq_some_iff] at hrow
      obtain ⟨row', hb, hcontent⟩ := hrow
      rw [hb]
      exact foldUpstreamValue_congr hash ((key_of_assigned ha).trans (key_of_assigned hb).symm)
        hcontent.symm

/-- Two frames' inputs that agree in everything the digest folds besides samples and overrides. -/
structure SameBesides (tables : Nat → HeadLeafConstants) (a b : FrameInputs Time) : Prop where
  headLeaves : a.headLeafConstants.map (fun table => (tables table).digest) =
    b.headLeafConstants.map fun table => (tables table).digest
  layoutRows : a.varyingLayoutRows = b.varyingLayoutRows
  layouts : ∀ row ∈ a.varyingLayoutRows, a.layoutLeaves[row]? = b.layoutLeaves[row]?
  revisionKeys : a.varyingRevisionLeaves = b.varyingRevisionLeaves
  revisions : ∀ leaf ∈ a.varyingRevisionLeaves,
    leafAt a.revisionLeaves leaf.1 leaf.2 = leafAt b.revisionLeaves leaf.1 leaf.2
  seeds : a.stageSeeds = b.stageSeeds
  upstream : a.upstream = b.upstream

theorem foldVaryingTransport_congr {tables : Nat → HeadLeafConstants} {a b : FrameInputs Time}
    (hash : UInt64) (h : SameBesides tables a b) :
    foldVaryingTransport hash a = foldVaryingTransport hash b := by
  rw [foldVaryingTransport, foldVaryingTransport, ← h.layoutRows, ← h.revisionKeys]
  have rows (start : UInt64) :
      a.varyingLayoutRows.foldl (foldLayoutRow a) start =
        a.varyingLayoutRows.foldl (foldLayoutRow b) start := by
    refine List.foldl_ext _ _ _ fun hash row hrow => ?_
    rw [foldLayoutRow, foldLayoutRow, h.layouts row hrow]
  have leaves (start : UInt64) :
      a.varyingRevisionLeaves.foldl (foldRevisionLeaf a) start =
        a.varyingRevisionLeaves.foldl (foldRevisionLeaf b) start := by
    refine List.foldl_ext _ _ _ fun hash leaf hleaf => ?_
    rw [foldRevisionLeaf, foldRevisionLeaf, h.revisions leaf hleaf]
  simp only [foldCounted, rows, leaves]

theorem controlStateDigest_blocks {tables : Nat → HeadLeafConstants} {x y : FrameInputs Time}
    {overrides overrides' : List ValueOverride}
    (samples : ∀ path, (emplaced SampledInput.path x.values path).map SampledInput.content =
      (emplaced SampledInput.path y.values path).map SampledInput.content)
    (headLeaves : x.headLeafConstants.map (fun table => (tables table).digest) =
      y.headLeafConstants.map fun table => (tables table).digest)
    (varying : ∀ hash, foldVaryingTransport hash x = foldVaryingTransport hash y)
    (seeds : x.stageSeeds = y.stageSeeds)
    (admitted : ∀ path, (assigned UpstreamValue.path x.upstream path).map UpstreamValue.content =
      (assigned UpstreamValue.path y.upstream path).map UpstreamValue.content)
    (standing : ∀ key, (assigned ValueOverride.key overrides key).map ValueOverride.value =
      (assigned ValueOverride.key overrides' key).map ValueOverride.value) :
    controlStateDigest tables x overrides = controlStateDigest tables y overrides' := by
  rw [controlStateDigest, controlStateDigest]
  rw [foldSamples_congr fnvBasis samples, headLeaves, varying, seeds,
    foldUpstream_congr _ admitted, foldOverrides_congr _ standing]

theorem controlStateDigest_congr {tables : Nat → HeadLeafConstants} {a b : FrameInputs Time}
    {overrides overrides' : List ValueOverride} (besides : SameBesides tables a b)
    (samples : ∀ path, (emplaced SampledInput.path a.values path).map SampledInput.content =
      (emplaced SampledInput.path b.values path).map SampledInput.content)
    (standing : ∀ key, (assigned ValueOverride.key overrides key).map ValueOverride.value =
      (assigned ValueOverride.key overrides' key).map ValueOverride.value) :
    controlStateDigest tables a overrides = controlStateDigest tables b overrides' := by
  refine controlStateDigest_blocks samples besides.headLeaves ?_ besides.seeds ?_ standing
  · intro hash
    exact foldVaryingTransport_congr hash besides
  · intro path
    rw [besides.upstream]

end RigExec.Sparsity
