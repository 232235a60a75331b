/-
# `RigExec.Sparsity.Orders` — the control digest through the memos of the sampler

`RigExecControlStateDigest` has three ways to the same samples:

    sort             the first sample of each path, by path
    recorded order   the sampler's `RigExecFrameDigestOrder`, while its paths are still
                     the vector's
    static table     for a sample marked as a copy of a table's entry, the entry's
                     level-1 in place of the sample's own

A recorded order of the vector's paths is its sort (`rows_recorded`), and a level-1 that
its entry's copies share changes nothing, so all three fold the same words
(`servedDigest_eq`).  With that the digest is the one of `Digest`, which reads the
vectors through their maps and so depends on no order (`controlDigest_canonical`).

An upstream array is folded by the hash it was handed over with, which is therefore
part of what the digest depends on; and nobody compares a marked sample with its
entry, or counts past the 32 bits of a recorded index.
-/
import RigExec.Sparsity.Mixing
import Mathlib.Data.List.Find

namespace RigExec.Sparsity

open Lib

variable {Time : Type}

/-! ## What the sampler hands over -/

/-- `RigExecSampledInput::burstSampleRoute`. -/
inductive BurstRoute where
  | fresh
  | stage
  | resolved
deriving DecidableEq

/-- A sample with the marks of what served it. -/
structure ServedSample extends SampledInput where
  burstSampleRoute : BurstRoute := .fresh
  staticSample : Int := -1
deriving DecidableEq

/-- `RigExecFrozenStaticSamples`. -/
structure StaticSamples where
  samples : List ServedSample
  level1 : List UInt64
  digestible : List Bool

/-- `RigExecFrameDigestOrder`: the paths of a vector, the index of each path's first sample in the
order of the paths, and its `_SamplePrefix`. -/
structure FrameDigestOrder where
  paths : List SdfPath
  order : List Nat
  prefixes : List UInt64

def samplePrefix (path : SdfPath) : UInt64 := foldString (foldTag fnvBasis "src") path

/-- `uint32_t` of an index. -/
def index32 (i : Nat) : Nat := i % 2 ^ 32

variable (values : List ServedSample)

/-- The index of each path's first sample, in the order of the paths. -/
def sortedIndices : List Nat :=
  let paths := values.map fun sample => sample.path
  (keysOf id paths).map fun path => paths.idxOf path

def recordFrameDigestOrder : FrameDigestOrder :=
  let paths := values.map fun sample => sample.path
  { paths := paths
    order := (sortedIndices values).map index32
    prefixes := (keysOf id paths).map samplePrefix }

/-- An order somebody recorded: there is no other way to get one. -/
abbrev RecordedOrder := { order : FrameDigestOrder // ∃ values, order = recordFrameDigestOrder values }

/-- `RigExecFrameInputs`, with its samples' marks and what they refer to. -/
structure ServedInputs (Time : Type) where
  inputs : FrameInputs Time
  values : List ServedSample
  values_eq : inputs.values = values.map ServedSample.toSampledInput
  staticSamples : Option StaticSamples := none
  digestOrder : Option RecordedOrder := none

/-! ## The digest -/

def frameDigestOrderMatches (order : FrameDigestOrder) (values : List ServedSample) : Bool :=
  order.paths == values.map (fun sample => sample.path) &&
    order.prefixes.length == order.order.length

def staticEntry (table : StaticSamples) (sample : ServedSample) : Option Nat :=
  if sample.staticSample < 0 ∨ table.level1.length ≠ table.samples.length ∨
      table.digestible.length ≠ table.samples.length then none
  else
    match table.samples[sample.staticSample.toNat]? with
    | some entry => if entry.path = sample.path then some sample.staticSample.toNat else none
    | none => none

section

variable [VtHashing]

def sampleFromPrefix (hash : UInt64) (content : Bool × Bool × Option VtValue) : UInt64 :=
  let hash := foldFlag (foldFlag hash content.1) content.2.1
  match content.2.2 with
  | some value => foldVtValue hash value
  | none => foldString hash "novalue"

/-- `RigExecSampleDigest`. -/
def ServedSample.digest (sample : ServedSample) : UInt64 :=
  sampleDigest sample.path sample.content

def orderedLevel1 (s : ServedInputs Time) (sample : ServedSample) (hash : UInt64) : UInt64 :=
  match s.staticSamples.bind fun table =>
      (staticEntry table sample).bind fun entry => table.level1[entry]? with
  | some level1 => level1
  | none => sampleFromPrefix hash sample.content

/-- One row of the samples' block: an index and its path's state. -/
def foldRow (level1 : ServedSample → UInt64 → UInt64)
    (hash : UInt64) (row : Nat × UInt64) : UInt64 :=
  match values[row.1]? with
  | some sample => mixWord hash (level1 sample row.2)
  | none => hash

/-- The samples' block. -/
def foldRows (level1 : ServedSample → UInt64 → UInt64)
    (hash : UInt64) (rows : List (Nat × UInt64)) : UInt64 :=
  foldCounted (foldRow values level1) hash rows

/-- The indices of an order, with their paths' states. -/
def FrameDigestOrder.rows (recorded : FrameDigestOrder) : List (Nat × UInt64) :=
  recorded.order.zip recorded.prefixes

/-- The recorded order, while it matches. -/
def ServedInputs.matching (s : ServedInputs Time) : Option FrameDigestOrder :=
  (s.digestOrder.map Subtype.val).filter fun order => frameDigestOrderMatches order s.values

/-- The samples' block. -/
def foldServed (s : ServedInputs Time) : UInt64 :=
  match s.matching with
  | some recorded => foldRows s.values (orderedLevel1 s) fnvBasis recorded.rows
  | none => foldSamples fnvBasis s.inputs.values

/-- What is folded behind the samples. -/
def foldBesides (tables : Nat → HeadLeafConstants) (hash : UInt64) (inputs : FrameInputs Time)
    (overrides : List ValueOverride) : UInt64 :=
  let hash := foldHeadLeafConstants hash
    (inputs.headLeafConstants.map fun table => (tables table).digest)
  let hash := foldVaryingTransport hash inputs
  let hash := foldStageSeeds hash inputs.stageSeeds
  let hash := foldUpstream hash inputs.upstream
  foldOverrides hash overrides

/-- `RigExecControlStateDigest`, of an upstream list of its own. -/
def servedDigest (tables : Nat → HeadLeafConstants) (s : ServedInputs Time)
    (overrides : List ValueOverride) (upstream : List UpstreamValue) : UInt64 :=
  foldBesides tables (foldServed s) { s.inputs with upstream := upstream } overrides

/-! ## One fold -/

/-- What the samplers promise of the table: its level-1s are its samples', and a sample marked with
an entry holds what the entry does. -/
structure ServedVerbatim (s : ServedInputs Time) : Prop where
  level1 : ∀ table ∈ s.staticSamples, table.level1 = table.samples.map ServedSample.digest
  copied : ∀ table ∈ s.staticSamples, ∀ sample ∈ s.values, ∀ entry,
    staticEntry table sample = some entry →
      table.samples[entry]?.map (fun held => held.content) = some sample.content

omit [VtHashing] in
theorem staticEntry_path {table : StaticSamples} {sample : ServedSample} {entry : Nat}
    (h : staticEntry table sample = some entry) :
    ∃ held, table.samples[entry]? = some held ∧ held.path = sample.path := by
  unfold staticEntry at h
  split at h
  · cases h
  · split at h
    · next held hget =>
        split at h
        · next hpath =>
            cases h
            exact ⟨held, hget, hpath⟩
        · cases h
    · cases h

theorem ServedVerbatim.orderedLevel1_eq {s : ServedInputs Time} (h : ServedVerbatim s)
    {sample : ServedSample} (hin : sample ∈ s.values) :
    orderedLevel1 s sample (samplePrefix sample.path) = sample.digest := by
  unfold orderedLevel1
  cases htable : s.staticSamples with
  | none => rfl
  | some table =>
      cases hentry : staticEntry table sample with
      | none => simp only [Option.bind_some, hentry]; rfl
      | some entry =>
          obtain ⟨held, hget, hpath⟩ := staticEntry_path hentry
          have hcontent := h.copied table htable sample hin entry hentry
          rw [hget, Option.map_some, Option.some.injEq] at hcontent
          have hlevel : table.level1[entry]? = some held.digest := by
            rw [h.level1 table htable, List.getElem?_map, hget]
            rfl
          simp only [Option.bind_some, hentry, hlevel]
          rw [ServedSample.digest, hpath, hcontent, ServedSample.digest]

omit [VtHashing] in
theorem emplaced_served (path : SdfPath) :
    emplaced SampledInput.path (values.map ServedSample.toSampledInput) path =
      (values[(values.map fun sample => sample.path).idxOf path]?).map
        ServedSample.toSampledInput := by
  rw [emplaced_eq_getElem?, List.getElem?_map, List.map_map]
  rfl

omit [VtHashing] in
theorem getElem?_idxOf_path {values : List ServedSample} {path : SdfPath}
    (hpath : path ∈ values.map fun sample => sample.path) :
    ∃ sample, values[(values.map fun sample => sample.path).idxOf path]? = some sample ∧
      sample.path = path := by
  have hlt := List.idxOf_lt_length_of_mem hpath
  have hget := List.getElem_idxOf hlt
  rw [List.getElem_map] at hget
  rw [List.length_map] at hlt
  exact ⟨_, List.getElem?_eq_getElem hlt, hget⟩

/-- **The sorted indices fold as the sort does**, whatever goes with them, when every level-1 is the
sample's own. -/
theorem foldRows_eq {values : List ServedSample} {level1 : ServedSample → UInt64 → UInt64}
    {rows : List (Nat × UInt64)} (hrows : rows.map Prod.fst = sortedIndices values)
    (hlevel1 : ∀ row ∈ rows, ∀ sample, values[row.1]? = some sample →
      level1 sample row.2 = sample.digest)
    (hash : UInt64) :
    foldRows values level1 hash rows =
      foldSamples hash (values.map ServedSample.toSampledInput) := by
  have hkeys : keysOf SampledInput.path (values.map ServedSample.toSampledInput) =
      keysOf id (values.map fun sample => sample.path) := by
    rw [keysOf, keysOf, List.map_map, List.map_map]
    rfl
  have hown : ∀ start, rows.foldl (foldRow values level1) start =
      (rows.map Prod.fst).foldl (fun hash i =>
        foldRow values (fun sample _ => sample.digest) hash (i, 0)) start := by
    intro start
    rw [List.foldl_map]
    refine List.foldl_ext _ _ _ ?_
    intro hash row hrow
    cases hget : values[row.1]? with
    | none => simp only [foldRow, hget]
    | some sample => simp only [foldRow, hget, hlevel1 row hrow sample hget]
  have hlength : rows.length = (sortedIndices values).length := by
    rw [← hrows, List.length_map]
  rw [foldRows, foldSamples, hkeys, foldCounted, foldCounted, hown, hrows, hlength, sortedIndices,
    List.length_map, List.foldl_map]
  refine List.foldl_ext _ _ _ ?_
  intro hash path hpath
  rw [mem_keysOf, List.map_id] at hpath
  obtain ⟨sample, hget, rfl⟩ := getElem?_idxOf_path hpath
  simp only [emplaced_served, foldRow, hget, Option.map_some]
  rfl

omit [VtHashing] in
theorem rows_recorded {values : List ServedSample} (hfew : values.length ≤ 2 ^ 32) :
    (recordFrameDigestOrder values).rows.map Prod.fst = sortedIndices values ∧
      ∀ row ∈ (recordFrameDigestOrder values).rows, ∀ sample, values[row.1]? = some sample →
        row.2 = samplePrefix sample.path := by
  have hindex : ∀ path ∈ keysOf id (values.map fun sample => sample.path),
      index32 ((values.map fun sample => sample.path).idxOf path) =
        (values.map fun sample => sample.path).idxOf path := by
    intro path hpath
    rw [mem_keysOf, List.map_id] at hpath
    have hlt := List.idxOf_lt_length_of_mem hpath
    rw [List.length_map] at hlt
    exact Nat.mod_eq_of_lt (Nat.lt_of_lt_of_le hlt hfew)
  have hrows : (recordFrameDigestOrder values).rows =
      (keysOf id (values.map fun sample => sample.path)).map fun path =>
        ((values.map fun sample => sample.path).idxOf path, samplePrefix path) := by
    rw [FrameDigestOrder.rows, recordFrameDigestOrder, sortedIndices, List.map_map, List.zip_map']
    refine List.map_congr_left ?_
    intro path hpath
    rw [Function.comp_apply, hindex path hpath]
  rw [hrows]
  refine ⟨by rw [List.map_map]; rfl, ?_⟩
  intro row hrow sample hget
  obtain ⟨path, hpath, rfl⟩ := List.mem_map.mp hrow
  rw [mem_keysOf, List.map_id] at hpath
  obtain ⟨first, hfirst, rfl⟩ := getElem?_idxOf_path hpath
  cases hget.symm.trans hfirst
  rfl

omit [VtHashing] in
theorem ServedInputs.eq_of_matching {s : ServedInputs Time} {recorded : FrameDigestOrder}
    (h : s.matching = some recorded) : recorded = recordFrameDigestOrder s.values := by
  obtain ⟨hrecorded, hmatches⟩ := Option.filter_eq_some_iff.mp h
  obtain ⟨⟨order, values, rfl⟩, -, rfl⟩ := Option.map_eq_some_iff.mp hrecorded
  have hpaths := eq_of_beq (Bool.and_eq_true_iff.mp hmatches).1
  have hsame : values.map (fun sample => sample.path) =
      s.values.map (fun sample => sample.path) := hpaths
  simp only [recordFrameDigestOrder, sortedIndices, hsame]

/-- **All three ways fold the same words.** -/
theorem servedDigest_eq (tables : Nat → HeadLeafConstants) {s : ServedInputs Time}
    (hfew : s.values.length ≤ 2 ^ 32) (hverbatim : ServedVerbatim s)
    (overrides : List ValueOverride) (upstream : List UpstreamValue) :
    servedDigest tables s overrides upstream =
      controlStateDigest tables { s.inputs with upstream := upstream } overrides := by
  have hsamples : foldServed s = foldSamples fnvBasis s.inputs.values := by
    unfold foldServed
    split
    · next recorded hrecorded =>
        rw [s.eq_of_matching hrecorded, s.values_eq]
        obtain ⟨hindices, hstates⟩ := rows_recorded hfew
        refine foldRows_eq hindices ?_ fnvBasis
        intro row hrow sample hget
        rw [hstates row hrow sample hget]
        exact hverbatim.orderedLevel1_eq (List.mem_of_getElem? hget)
    · rfl
  rw [servedDigest, hsamples]
  rfl

/-! ## The digest is canonical -/

/-- **The control digest is canonical.**  Vectors whose marks hold have one digest when they agree in
the first sample of each path, in the last override of each key and in the last upstream row of each
path; and it is the digest that sorts them. -/
theorem controlDigest_canonical {tables : Nat → HeadLeafConstants} {a b : ServedInputs Time}
    {overrides overrides' : List ValueOverride} {upstream upstream' : List UpstreamValue}
    (hfew : a.values.length ≤ 2 ^ 32) (hfew' : b.values.length ≤ 2 ^ 32)
    (hverbatim : ServedVerbatim a) (hverbatim' : ServedVerbatim b)
    (besides : SameBesides tables { a.inputs with upstream := [] } { b.inputs with upstream := [] })
    (samples : ∀ path, (emplaced SampledInput.path a.inputs.values path).map SampledInput.content =
      (emplaced SampledInput.path b.inputs.values path).map SampledInput.content)
    (standing : ∀ key, (assigned ValueOverride.key overrides key).map ValueOverride.value =
      (assigned ValueOverride.key overrides' key).map ValueOverride.value)
    (admitted : ∀ path, (assigned UpstreamValue.path upstream path).map UpstreamValue.content =
      (assigned UpstreamValue.path upstream' path).map UpstreamValue.content) :
    servedDigest tables a overrides upstream = servedDigest tables b overrides' upstream' ∧
      servedDigest tables a overrides upstream =
        controlStateDigest tables { a.inputs with upstream := upstream } overrides := by
  have hsort := servedDigest_eq tables hfew hverbatim overrides upstream
  have hsort' := servedDigest_eq tables hfew' hverbatim' overrides' upstream'
  refine ⟨?_, hsort⟩
  rw [hsort, hsort']
  refine controlStateDigest_blocks samples besides.headLeaves ?_ besides.seeds admitted standing
  intro hash
  show foldVaryingTransport hash { a.inputs with upstream := [] } =
    foldVaryingTransport hash { b.inputs with upstream := [] }
  exact foldVaryingTransport_congr hash besides

/-! ## What the digest takes on trust -/

omit [VtHashing] in
/-- A vector of samples and nothing else. -/
def samplesOnly (table : Option StaticSamples) : ServedInputs Nat where
  inputs := { time := .default, values := values.map ServedSample.toSampledInput }
  values := values
  values_eq := rfl
  staticSamples := table
  digestOrder := some ⟨recordFrameDigestOrder values, values, rfl⟩

omit [VtHashing] in
theorem samplesOnly_matching (table : Option StaticSamples) :
    (samplesOnly values table).matching = some (recordFrameDigestOrder values) := by
  refine Option.filter_eq_some_iff.mpr ⟨rfl, ?_⟩
  simp [frameDigestOrderMatches, recordFrameDigestOrder, sortedIndices, samplesOnly]

omit [VtHashing] in
theorem foldStageSeeds_injective {hash hash' : UInt64}
    (h : foldStageSeeds hash {} = foldStageSeeds hash' {}) : hash = hash' := by
  have hcounts : ∀ {start start' : UInt64}, foldCount start 0 = foldCount start' 0 →
      start = start' := fun heq => mixWord_injective_hash heq
  exact foldBytes_injective (hcounts (hcounts (hcounts (hcounts (hcounts (hcounts (hcounts h)))))))

theorem samplesOnly_injective {tables : Nat → HeadLeafConstants} {x y : FrameInputs Nat}
    {hash hash' : UInt64} (hx : x = { time := .default, values := x.values })
    (hy : y = { time := .default, values := y.values })
    (h : foldBesides tables hash x [] = foldBesides tables hash' y []) : hash = hash' := by
  rw [hx, hy] at h
  exact foldStageSeeds_injective (mixWord_injective_hash h)

/-- A sample without a value. -/
def valueless (path : SdfPath) (blocked : Bool) (entry : Int) : ServedSample where
  path := path
  value := .empty
  hasValue := false
  valueBlocked := blocked
  staticSample := entry

omit [VtHashing] in
theorem valueless_content (path : SdfPath) (blocked : Bool) (entry : Int) :
    (valueless path blocked entry).content = (false, blocked, none) := rfl

theorem sampleFromPrefix_valueless {hash : UInt64}
    (h : sampleFromPrefix hash (false, false, none) = sampleFromPrefix hash (false, true, none)) :
    False :=
  foldFlag_ne _ (foldBytes_injective h)

omit [VtHashing] in
/-- An upstream array, handed over with a hash. -/
def weightsRow (foldHash : UInt64) : UpstreamValue where
  path := "/S.w"
  value := .holding { element := .float, array := true, elements := [] }
  foldHash := foldHash

theorem foldUpstream_weightsRow {hash foldHash foldHash' : UInt64} (hne : foldHash ≠ 0)
    (hne' : foldHash' ≠ 0)
    (h : foldUpstream hash [weightsRow foldHash] = foldUpstream hash [weightsRow foldHash']) :
    foldHash = foldHash' := by
  have hrow : ∀ w : UInt64, foldUpstream hash [weightsRow w] =
      foldUpstreamValue (foldCount (foldTag hash "ups") 1) (weightsRow w) := by
    intro w
    rw [foldUpstream, if_neg (List.cons_ne_nil _ _)]
    rfl
  rw [hrow, hrow, foldUpstreamValue, foldUpstreamValue, if_pos ⟨rfl, hne⟩, if_pos ⟨rfl, hne'⟩] at h
  exact mixWord_injective_word h

theorem upstreamHash_read (tables : Nat → HeadLeafConstants) :
    servedDigest tables (samplesOnly [] none) [] [weightsRow 1] ≠
      servedDigest tables (samplesOnly [] none) [] [weightsRow 2] := by
  intro h
  have hups : foldUpstream _ [weightsRow 1] = foldUpstream _ [weightsRow 2] :=
    mixWord_injective_hash h
  exact absurd (foldUpstream_weightsRow (by decide) (by decide) hups) (by decide)

theorem staleMark_read (tables : Nat → HeadLeafConstants) :
    servedDigest tables
        (samplesOnly [valueless "a" true 0] (some
          { samples := [valueless "a" false 0]
            level1 := [(valueless "a" false 0).digest]
            digestible := [true] })) [] [] ≠
      controlStateDigest tables
        (samplesOnly [valueless "a" true 0] none).inputs [] := by
  intro h
  have hsamples := samplesOnly_injective rfl rfl h
  have hsort : foldSamples fnvBasis [(valueless "a" true 0).toSampledInput] =
      mixWord (foldCount fnvBasis 1) (sampleDigest "a" (false, true, none)) := rfl
  have hserved : foldServed (samplesOnly [valueless "a" true 0] (some
          { samples := [valueless "a" false 0]
            level1 := [(valueless "a" false 0).digest]
            digestible := [true] })) =
      mixWord (foldCount fnvBasis 1) (sampleDigest "a" (false, false, none)) := rfl
  exact sampleFromPrefix_valueless (mixWord_injective_word
    (hserved.symm.trans (hsamples.trans hsort)))

omit [VtHashing] in
/-- A sample behind so many samples of another path. -/
def longVector (n : Nat) : List ServedSample :=
  List.replicate n (valueless "a" false (-1)) ++ [valueless "b" true (-1)]

omit [VtHashing] in
theorem longVector_keys {n : Nat} (hn : 0 < n) :
    keysOf id ((longVector n).map fun sample => sample.path) = ["a", "b"] ∧
      ((longVector n).map fun sample => sample.path).idxOf "a" = 0 ∧
      ((longVector n).map fun sample => sample.path).idxOf "b" = n := by
  have hpaths : (longVector n).map (fun sample => sample.path) = List.replicate n "a" ++ ["b"] := by
    rw [longVector, List.map_append, List.map_replicate]
    rfl
  rw [hpaths]
  refine ⟨?_, ?_, ?_⟩
  · refine (ascending_sortUnique _).eq_of_mem_iff (by decide) ?_
    intro path
    simp [Nat.ne_of_gt hn]
  · obtain ⟨m, rfl⟩ := Nat.exists_eq_succ_of_ne_zero (Nat.ne_of_gt hn)
    rfl
  · have hout : "b" ∉ List.replicate n "a" := by
      intro hin
      exact absurd (List.eq_of_mem_replicate hin) (by decide)
    rw [List.idxOf_append_of_notMem hout, List.length_replicate, List.idxOf_cons_self, Nat.add_zero]

theorem orderedLevel1_samplesOnly (sample : ServedSample) (hash : UInt64) :
    orderedLevel1 (samplesOnly values none) sample hash = sampleFromPrefix hash sample.content := rfl

theorem foldServed_longVector {n : Nat} (hn : 0 < n) (hwrap : index32 n = 0) :
    foldServed (samplesOnly (longVector n) none) =
      mixWord (mixWord (foldCount fnvBasis 2) (sampleFromPrefix (samplePrefix "a")
        (valueless "a" false (-1)).content))
        (sampleFromPrefix (samplePrefix "b") (valueless "a" false (-1)).content) := by
  obtain ⟨hkeys, hfirst, hlast⟩ := longVector_keys hn
  have hzero : index32 0 = 0 := Nat.zero_mod _
  have hget : (samplesOnly (longVector n) none).values[0]? = some (valueless "a" false (-1)) := by
    obtain ⟨m, rfl⟩ := Nat.exists_eq_succ_of_ne_zero (Nat.ne_of_gt hn)
    rfl
  simp only [foldServed, samplesOnly_matching, foldRows, foldRow, FrameDigestOrder.rows,
    recordFrameDigestOrder, sortedIndices, hkeys,
    List.map_cons, List.map_nil, hfirst, hlast, hwrap, hzero, List.zip_cons_cons,
    List.zip_nil_right, foldCounted, List.foldl_cons, List.foldl_nil, hget,
    orderedLevel1_samplesOnly, List.length_cons, List.length_nil]

theorem foldSamples_longVector {n : Nat} (hn : 0 < n) :
    foldSamples fnvBasis ((longVector n).map ServedSample.toSampledInput) =
      mixWord (mixWord (foldCount fnvBasis 2) (sampleDigest "a" (valueless "a" false (-1)).content))
        (sampleDigest "b" (valueless "b" true (-1)).content) := by
  obtain ⟨hkeys, hfirst, hlast⟩ := longVector_keys hn
  have hsame : keysOf SampledInput.path ((longVector n).map ServedSample.toSampledInput) =
      ["a", "b"] := by
    rw [← hkeys, keysOf, keysOf, List.map_map, List.map_map]
    rfl
  have hget : (longVector n)[0]? = some (valueless "a" false (-1)) := by
    obtain ⟨m, rfl⟩ := Nat.exists_eq_succ_of_ne_zero (Nat.ne_of_gt hn)
    rfl
  have hget' : (longVector n)[n]? = some (valueless "b" true (-1)) := by
    rw [longVector, List.getElem?_append_right (by rw [List.length_replicate]),
      List.length_replicate, Nat.sub_self]
    rfl
  simp only [foldSamples, hsame, foldCounted, List.foldl_cons, List.foldl_nil, emplaced_served,
    hfirst, hlast, hget, hget', Option.map_some, List.length_cons, List.length_nil]

theorem wrappedIndex_read (tables : Nat → HeadLeafConstants) {n : Nat} (hn : 0 < n)
    (hwrap : index32 n = 0) :
    servedDigest tables (samplesOnly (longVector n) none) [] [] ≠
      controlStateDigest tables (samplesOnly (longVector n) none).inputs [] := by
  intro h
  have hsamples : foldServed (samplesOnly (longVector n) none) =
      foldSamples fnvBasis ((longVector n).map ServedSample.toSampledInput) :=
    samplesOnly_injective rfl rfl h
  rw [foldServed_longVector hn hwrap, foldSamples_longVector hn, valueless_content,
    valueless_content] at hsamples
  exact sampleFromPrefix_valueless (mixWord_injective_word hsamples)

end

/-- Type names of floats, and no hashes. -/
@[reducible] def plainHashing : VtHashing where
  typeName held := if held.array then "VtArray<float>" else "float"
  hash _ := none

def noLeafTables (_ : Nat) : HeadLeafConstants where
  leaves := []
  digest := 0

/-- A table of one valueless sample. -/
def valuelessTable : StaticSamples where
  samples := [valueless "a" false 0]
  level1 := [@ServedSample.digest plainHashing (valueless "a" false 0)]
  digestible := [true]

/-- One pair of an upstream array under two hashes, a marked sample that is not its entry, and a
vector of more samples than a recorded index counts. -/
theorem controlDigest_trusts :
    (((weightsRow 1).path, (weightsRow 1).value) = ((weightsRow 2).path, (weightsRow 2).value) ∧
      @servedDigest Nat plainHashing noLeafTables (samplesOnly [] none) [] [weightsRow 1] ≠
        @servedDigest Nat plainHashing noLeafTables (samplesOnly [] none) [] [weightsRow 2]) ∧
    @servedDigest Nat plainHashing noLeafTables
        (samplesOnly [valueless "a" true 0] (some valuelessTable)) [] [] ≠
      @controlStateDigest Nat plainHashing noLeafTables
        (samplesOnly [valueless "a" true 0] (some valuelessTable)).inputs [] ∧
    @servedDigest Nat plainHashing noLeafTables (samplesOnly (longVector (2 ^ 32)) none) [] [] ≠
      @controlStateDigest Nat plainHashing noLeafTables
        (samplesOnly (longVector (2 ^ 32)) none).inputs [] :=
  ⟨⟨rfl, @upstreamHash_read plainHashing noLeafTables⟩, @staleMark_read plainHashing noLeafTables,
    @wrappedIndex_read plainHashing noLeafTables (2 ^ 32) (by decide) (by decide)⟩

/-- Samples in another order, one of them through the table, and rows that are replaced. -/
theorem controlDigest_canonical_reordered :
    @servedDigest Nat plainHashing noLeafTables
        (samplesOnly [valueless "b" true (-1), valueless "a" false 0] (some valuelessTable)) []
        [weightsRow 1, weightsRow 2] =
      @servedDigest Nat plainHashing noLeafTables
        (samplesOnly [valueless "a" false (-1), valueless "b" true (-1)] none) [] [weightsRow 2] := by
  have hmarked : @ServedVerbatim Nat plainHashing
      (samplesOnly [valueless "b" true (-1), valueless "a" false 0] (some valuelessTable)) := by
    refine @ServedVerbatim.mk Nat plainHashing _ ?_ ?_
    · intro table htable
      cases htable
      rfl
    · intro table htable sample hin entry hentry
      cases htable
      rcases List.mem_cons.mp hin with rfl | hin
      · cases hentry
      · cases List.mem_singleton.mp hin
        cases hentry
        rfl
  have hplain : @ServedVerbatim Nat plainHashing
      (samplesOnly [valueless "a" false (-1), valueless "b" true (-1)] none) := by
    refine @ServedVerbatim.mk Nat plainHashing _ ?_ ?_
    · intro table htable
      cases htable
    · intro table htable
      cases htable
  have hsamples : ∀ path, (emplaced SampledInput.path (samplesOnly
      [valueless "b" true (-1), valueless "a" false 0] (some valuelessTable)).inputs.values
      path).map SampledInput.content =
      (emplaced SampledInput.path (samplesOnly
        [valueless "a" false (-1), valueless "b" true (-1)] none).inputs.values path).map
        SampledInput.content := by
    intro path
    rcases eq_or_ne path "a" with rfl | ha
    · rfl
    · rcases eq_or_ne path "b" with rfl | hb
      · rfl
      · simp [samplesOnly, valueless, emplaced, ha.symm, hb.symm]
  have hadmitted : ∀ path, (assigned UpstreamValue.path [weightsRow 1, weightsRow 2] path).map
      UpstreamValue.content =
      (assigned UpstreamValue.path [weightsRow 2] path).map UpstreamValue.content := by
    intro path
    rcases eq_or_ne path "/S.w" with rfl | hne
    · rfl
    · simp [weightsRow, assigned, hne.symm]
  refine (@controlDigest_canonical Nat plainHashing noLeafTables _ _ [] [] _ _ (by decide) (by decide)
    hmarked hplain ⟨rfl, rfl, ?_, rfl, ?_, rfl, rfl⟩ hsamples ?_ hadmitted).1
  · intro row hrow
    cases hrow
  · intro leaf hleaf
    cases hleaf
  · intro key
    rfl

end RigExec.Sparsity
