/-
# `RigExec.Sparsity.Burst` — the control digest with a burst's memos

A burst digests one frame after another, and
`RigExecControlStateDigestWithBurstCache` keeps two things from one call to the
next: the level-1 of each sample the burst's maps serve, and the indices of the
first vector in the order of their paths.  Neither is checked against the vector
it is used for, except that

    overrides        are the burst's own
    shape            the vector has the recorded size, and its first and last path

and otherwise the call falls back to the plain digest.  So the memos rest on what
the burst's sampler does: a sample with a route is a copy of what the route's map
holds (`copied_readFrame`), and one burst emits one sequence of paths, which has
one order (`sortedIndices_of_paths`).  While that is so of the vectors that are
digested from the memos, every call returns the plain digest (`burstDigests_eq`).
A vector from elsewhere may have the burst's shape, and is then digested as
something else.
-/
import RigExec.Sparsity.Orders

namespace RigExec.Sparsity

open Lib

variable {Time : Type}

/-! ## The cache -/

structure BurstStaticSample where
  sample : ServedSample
  digest : UInt64 := 0
  digestValid : Bool := false

/-- The static samples of a burst, by route. -/
structure BurstStatics where
  staticStage : SdfPath → Option BurstStaticSample := fun _ => none
  staticResolved : SdfPath → Option BurstStaticSample := fun _ => none

/-- `RigExecBurstSampleCache`, with what its digest reads. -/
structure BurstSampleCache extends BurstStatics where
  usable : Bool
  overrides : List ValueOverride
  sortedOrder : List Nat := []
  orderValuesSize : Nat := 0
  orderFirstPath : SdfPath := ""
  orderLastPath : SdfPath := ""

namespace BurstStatics

/-- What the map of a route holds; a fresh sample has none. -/
def memo (statics : BurstStatics) (route : BurstRoute) (path : SdfPath) :
    Option BurstStaticSample :=
  match route with
  | .fresh => none
  | .stage => statics.staticStage path
  | .resolved => statics.staticResolved path

/-- An entry into the map of a route. -/
def remember (statics : BurstStatics) (route : BurstRoute) (path : SdfPath)
    (entry : BurstStaticSample) : BurstStatics :=
  match route with
  | .fresh => statics
  | .stage => { statics with staticStage := Function.update statics.staticStage path (some entry) }
  | .resolved =>
      { statics with staticResolved := Function.update statics.staticResolved path (some entry) }

theorem memo_remember (statics : BurstStatics) (route route' : BurstRoute) (path path' : SdfPath)
    (entry : BurstStaticSample) :
    (statics.remember route path entry).memo route' path' =
      if (route' = route ∧ path' = path) ∧ route ≠ .fresh then some entry
      else statics.memo route' path' := by
  cases route <;> cases route' <;> simp [remember, memo, Function.update_apply]

end BurstStatics

/-- `RigExecValueOverride::operator==`. -/
def ValueOverride.equal (equality : VtEquality) (a b : ValueOverride) : Bool :=
  a.prim == b.prim && a.computation == b.computation && a.attributeName == b.attributeName &&
    equality.equal a.value b.value

namespace BurstSampleCache

/-- Whether a call is one of the burst's. -/
def serves (cache : BurstSampleCache) (equality : VtEquality) (overrides : List ValueOverride) :
    Bool :=
  cache.usable && List.isEqv overrides cache.overrides (ValueOverride.equal equality)

/-- The burst's first frame records its vector's order. -/
def recordOrder (cache : BurstSampleCache) (values : List ServedSample) : BurstSampleCache :=
  { cache with
    sortedOrder := sortedIndices values
    orderValuesSize := values.length
    orderFirstPath := (values.head?.map fun sample => sample.path).getD cache.orderFirstPath
    orderLastPath := (values.getLast?.map fun sample => sample.path).getD cache.orderLastPath }

/-- A vector shaped like the recorded order's. -/
def shaped (cache : BurstSampleCache) (values : List ServedSample) : Bool :=
  values.length == cache.orderValuesSize &&
    (values.head?.map fun sample => sample.path) == some cache.orderFirstPath &&
      (values.getLast?.map fun sample => sample.path) == some cache.orderLastPath

/-- `_MemoizeBurstStaticSample`. -/
def memoize (cache : BurstSampleCache) (route : BurstRoute) (fresh : ServedSample) :
    BurstSampleCache :=
  { cache with
    toBurstStatics := cache.remember route fresh.path
      { sample := { fresh with burstSampleRoute := route } } }

end BurstSampleCache

/-! ## The digest -/

section

variable [VtHashing]

/-- `burstLevel1`: the level-1 of a sample one of the burst's maps served, from its memo. -/
def burstLevel1 (statics : BurstStatics) (sample : ServedSample) : BurstStatics × Option UInt64 :=
  match statics.memo sample.burstSampleRoute sample.path with
  | none => (statics, none)
  | some found =>
      if found.digestValid then (statics, some found.digest)
      else
        (statics.remember sample.burstSampleRoute sample.path
          { found with digest := sample.digest, digestValid := true }, some sample.digest)

/-- One row of the samples' block. -/
def foldBurstRow (values : List ServedSample) (level1 : ServedSample → UInt64 → UInt64)
    (state : BurstStatics × UInt64) (row : Nat × UInt64) : BurstStatics × UInt64 :=
  match values[row.1]? with
  | none => state
  | some sample =>
      let own := burstLevel1 state.1 sample
      (own.1, mixWord state.2 (own.2.getD (level1 sample row.2)))

/-- The samples' block, with the memos. -/
def foldBurst (values : List ServedSample) (level1 : ServedSample → UInt64 → UInt64)
    (statics : BurstStatics) (hash : UInt64) (rows : List (Nat × UInt64)) :
    BurstStatics × UInt64 :=
  rows.foldl (foldBurstRow values level1) (statics, foldCount hash rows.length)

/-- The samples' block of a call that the cache serves. -/
def foldCached (cache : BurstSampleCache) (s : ServedInputs Time) : BurstStatics × UInt64 :=
  match s.matching with
  | some recorded =>
      foldBurst s.values (orderedLevel1 s) cache.toBurstStatics fnvBasis recorded.rows
  | none =>
      foldBurst s.values (fun sample _ => sample.digest) cache.toBurstStatics fnvBasis
        (cache.sortedOrder.map fun i => (i, 0))

/-- The digest of a call that the cache serves. -/
def cachedDigest (tables : Nat → HeadLeafConstants) (cache : BurstSampleCache)
    (s : ServedInputs Time) (overrides : List ValueOverride) (upstream : List UpstreamValue) :
    BurstSampleCache × UInt64 :=
  let folded := foldCached cache s
  ({ cache with toBurstStatics := folded.1 },
    foldBesides tables folded.2 { s.inputs with upstream := upstream } overrides)

/-- `RigExecControlStateDigestWithBurstCache`, where values compare as `equality` says. -/
def digestWithBurstCache (tables : Nat → HeadLeafConstants) (equality : VtEquality)
    (cache : BurstSampleCache) (s : ServedInputs Time) (overrides : List ValueOverride)
    (upstream : List UpstreamValue) : BurstSampleCache × UInt64 :=
  if cache.serves equality overrides = false then (cache, servedDigest tables s overrides upstream)
  else if cache.sortedOrder = [] then
    cachedDigest tables (cache.recordOrder s.values) s overrides upstream
  else if cache.shaped s.values = false then (cache, servedDigest tables s overrides upstream)
  else cachedDigest tables cache s overrides upstream

end

/-- What happens to a burst's cache. -/
inductive BurstCall (Time : Type) where
  /-- The sampler memoizes a static sample it has just read. -/
  | memoize (route : BurstRoute) (fresh : ServedSample)
  /-- A control state is digested, and its overrides compare with the burst's as USD says then. -/
  | digest (equality : VtEquality) (s : ServedInputs Time) (overrides : List ValueOverride)
      (upstream : List UpstreamValue)

section

variable [VtHashing]

/-- The cache behind a call. -/
def BurstSampleCache.call (tables : Nat → HeadLeafConstants) (cache : BurstSampleCache) :
    BurstCall Time → BurstSampleCache
  | .memoize route fresh => cache.memoize route fresh
  | .digest equality s overrides upstream =>
      (digestWithBurstCache tables equality cache s overrides upstream).1

def burstDigests (tables : Nat → HeadLeafConstants) :
    BurstSampleCache → List (BurstCall Time) → List UInt64
  | _, [] => []
  | cache, .memoize route fresh :: calls => burstDigests tables (cache.memoize route fresh) calls
  | cache, .digest equality s overrides upstream :: calls =>
      (digestWithBurstCache tables equality cache s overrides upstream).2 ::
        burstDigests tables (digestWithBurstCache tables equality cache s overrides upstream).1
          calls

/-- The plain digests of the same states. -/
def plainDigests (tables : Nat → HeadLeafConstants) (calls : List (BurstCall Time)) :
    List UInt64 :=
  calls.filterMap fun call =>
    match call with
    | .memoize _ _ => none
    | .digest _ s overrides upstream => some (servedDigest tables s overrides upstream)

end

/-! ## What the sampler promises -/

variable (statics : BurstStatics)

/-- A sample with a route is a copy of what the route's map holds. -/
def Copied (values : List ServedSample) : Prop :=
  ∀ sample ∈ values, ∀ entry, statics.memo sample.burstSampleRoute sample.path = some entry →
    entry.sample.content = sample.content

/-- One of the burst's maps serves a sample of the vector. -/
def Memoized (values : List ServedSample) : Prop :=
  ∃ sample ∈ values, statics.memo sample.burstSampleRoute sample.path ≠ none

/-- What the memos of a call rest on: the samples served from a map are its entries' copies; without
an order of the vector's own, the recorded one is its sort; and with one, the vector keeps what the
plain digest is promised, if a map serves any of it. -/
structure BurstSampled [VtHashing] (cache : BurstSampleCache) (s : ServedInputs Time) : Prop where
  copied : Copied cache.toBurstStatics s.values
  ordered : s.matching = none → cache.sortedOrder = [] ∨ cache.sortedOrder = sortedIndices s.values
  promised : s.matching ≠ none → Memoized cache.toBurstStatics s.values →
    s.values.length ≤ 2 ^ 32 ∧ ServedVerbatim s

/-- Every vector that is digested from the memos is sampled from the cache as it is then: the calls
under the burst's overrides, of the first vector and of those that have its shape. -/
def BurstSampledRun [VtHashing] (tables : Nat → HeadLeafConstants) :
    BurstSampleCache → List (BurstCall Time) → Prop
  | _, [] => True
  | cache, .memoize route fresh :: calls =>
      BurstSampledRun tables (cache.memoize route fresh) calls
  | cache, .digest equality s overrides upstream :: calls =>
      (cache.serves equality overrides = true →
        cache.sortedOrder = [] ∨ cache.shaped s.values = true → BurstSampled cache s) ∧
        BurstSampledRun tables (digestWithBurstCache tables equality cache s overrides upstream).1
          calls

theorem sortedIndices_of_paths {values values' : List ServedSample}
    (h : values.map (fun sample => sample.path) = values'.map fun sample => sample.path) :
    sortedIndices values = sortedIndices values' := by
  rw [sortedIndices, sortedIndices, h]

/-- A read of the sampler: what the plain reader appends, the map that may serve it, and whether
its attribute is time-invariant. -/
structure BurstRead where
  route : BurstRoute
  isStatic : Bool
  sample : SampledInput

/-- `_SampleAttributeCached` and its kind: serve the map's entry, or read, and memoize what is
static. -/
def readCached (state : BurstStatics × List ServedSample) (read : BurstRead) :
    BurstStatics × List ServedSample :=
  match state.1.memo read.route read.sample.path with
  | some entry =>
      (state.1, state.2 ++ [{ entry.sample with burstSampleRoute := read.route }])
  | none =>
      let fresh : ServedSample := { toSampledInput := read.sample }
      if read.isStatic then
        let served : ServedSample := { fresh with burstSampleRoute := read.route }
        (state.1.remember read.route read.sample.path { sample := served }, state.2 ++ [served])
      else (state.1, state.2 ++ [fresh])

def readFrame (reads : List BurstRead) : BurstStatics × List ServedSample :=
  reads.foldl readCached (statics, [])

/-- The entries are keyed by their samples' paths. -/
def Keyed : Prop :=
  ∀ route path entry, statics.memo route path = some entry → entry.sample.path = path

theorem keyed_readCached {state : BurstStatics × List ServedSample} {read : BurstRead}
    (h : Keyed state.1) :
    Keyed (readCached state read).1 ∧
      (readCached state read).2.map (fun sample => sample.path) =
        state.2.map (fun sample => sample.path) ++ [read.sample.path] := by
  unfold readCached
  split
  · next entry hentry =>
      refine ⟨h, ?_⟩
      rw [List.map_append, List.map_cons, List.map_nil, ← h _ _ _ hentry]
  · split
    · refine ⟨?_, List.map_append⟩
      intro route path entry hentry
      rw [BurstStatics.memo_remember] at hentry
      split at hentry
      · next hkey =>
          cases hentry
          exact hkey.1.2.symm
      · exact h route path entry hentry
    · exact ⟨h, List.map_append⟩

/-- A sample that a map serves is in it, as it is served. -/
def ServedFrom (values : List ServedSample) : Prop :=
  ∀ sample ∈ values, sample.burstSampleRoute = .fresh ∨
    ∃ entry, statics.memo sample.burstSampleRoute sample.path = some entry ∧
      entry.sample.content = sample.content

theorem ServedFrom.copied {statics : BurstStatics} {values : List ServedSample}
    (h : ServedFrom statics values) : Copied statics values := by
  intro sample hin entry hentry
  rcases h sample hin with hfresh | ⟨held, hheld, hcontent⟩
  · rw [hfresh] at hentry
    cases hentry
  · cases hheld.symm.trans hentry
    exact hcontent

theorem held_readCached {state : BurstStatics × List ServedSample} {read : BurstRead}
    (hkeyed : Keyed state.1) (h : ServedFrom state.1 state.2) :
    ServedFrom (readCached state read).1 (readCached state read).2 := by
  unfold readCached
  split
  · next entry hentry =>
      intro sample hin
      rcases List.mem_append.mp hin with hin | hin
      · exact h sample hin
      · cases List.mem_singleton.mp hin
        have hpath := hkeyed _ _ _ hentry
        exact Or.inr ⟨entry, (congrArg _ hpath).trans hentry, rfl⟩
  · next hmiss =>
      split
      · intro sample hin
        rcases List.mem_append.mp hin with hin | hin
        · rcases h sample hin with hfresh | ⟨entry, hentry, hcontent⟩
          · exact Or.inl hfresh
          · refine Or.inr ⟨entry, ?_, hcontent⟩
            rw [BurstStatics.memo_remember, if_neg, hentry]
            rintro ⟨⟨hsame, hpath⟩, -⟩
            rw [hsame, hpath, hmiss] at hentry
            cases hentry
        · cases List.mem_singleton.mp hin
          rcases eq_or_ne read.route .fresh with hfresh | hroute
          · exact Or.inl hfresh
          · refine Or.inr ⟨_,
              (BurstStatics.memo_remember ..).trans (if_pos ⟨⟨rfl, rfl⟩, hroute⟩), ?_⟩
            rfl
      · intro sample hin
        rcases List.mem_append.mp hin with hin | hin
        · exact h sample hin
        · cases List.mem_singleton.mp hin
          exact Or.inl rfl

/-- **A frame's vector is a copy of its maps**, and has the paths of its reads. -/
theorem copied_readFrame {statics : BurstStatics} (reads : List BurstRead)
    (hkeyed : Keyed statics) :
    Copied (readFrame statics reads).1 (readFrame statics reads).2 ∧
      (readFrame statics reads).2.map (fun sample => sample.path) =
        reads.map fun read => read.sample.path := by
  have hrun : ∀ (rest : List BurstRead) (state : BurstStatics × List ServedSample),
      Keyed state.1 → ServedFrom state.1 state.2 →
      ServedFrom (rest.foldl readCached state).1 (rest.foldl readCached state).2 ∧
        (rest.foldl readCached state).2.map (fun sample => sample.path) =
          state.2.map (fun sample => sample.path) ++ rest.map fun read => read.sample.path := by
    intro rest
    induction rest with
    | nil =>
        intro state _ hheld
        exact ⟨hheld, (List.append_nil _).symm⟩
    | cons read rest ih =>
        intro state hkeyed hheld
        obtain ⟨hkeyed', hpaths⟩ := keyed_readCached hkeyed
        obtain ⟨hheld', hrest⟩ := ih (readCached state read) hkeyed' (held_readCached hkeyed hheld)
        refine ⟨hheld', ?_⟩
        rw [List.foldl_cons, hrest, hpaths, List.map_cons, List.append_assoc]
        rfl
  have hnone : ServedFrom statics [] := by
    intro sample hin
    cases hin
  obtain ⟨hheld, hpaths⟩ := hrun reads (statics, []) hkeyed hnone
  exact ⟨hheld.copied, hpaths⟩

/-! ## What the memos hold -/

section

variable [VtHashing]

/-- A memoized level-1 is that of the entry's sample. -/
def Level1s : Prop :=
  ∀ route path entry, statics.memo route path = some entry → entry.digestValid = true →
    entry.digest = sampleDigest path entry.sample.content

theorem burstLevel1_spec {statics : BurstStatics} {values : List ServedSample}
    (hlevel : Level1s statics) (hcopied : Copied statics values) {sample : ServedSample}
    (hin : sample ∈ values) {plain : UInt64} (hplain : plain = sample.digest) :
    (burstLevel1 statics sample).2.getD plain = sample.digest ∧
      Level1s (burstLevel1 statics sample).1 ∧ Copied (burstLevel1 statics sample).1 values := by
  unfold burstLevel1
  split
  · exact ⟨hplain, hlevel, hcopied⟩
  · next found hfound =>
      have hcontent := hcopied sample hin found hfound
      split
      · next hvalid =>
          refine ⟨?_, hlevel, hcopied⟩
          rw [Option.getD_some, hlevel _ _ _ hfound hvalid, hcontent, ServedSample.digest]
      · refine ⟨rfl, ?_, ?_⟩
        · intro route path entry hentry hvalid
          rw [BurstStatics.memo_remember] at hentry
          split at hentry
          · next hkey =>
              cases hentry
              show sample.digest = sampleDigest path found.sample.content
              rw [hcontent, hkey.1.2, ServedSample.digest]
          · exact hlevel route path entry hentry hvalid
        · intro other hother entry hentry
          rw [BurstStatics.memo_remember] at hentry
          split at hentry
          · next hkey =>
              cases hentry
              refine hcopied other hother found ?_
              rw [hkey.1.1, hkey.1.2, hfound]
          · exact hcopied other hother entry hentry

theorem foldBurst_spec {values : List ServedSample} {level1 : ServedSample → UInt64 → UInt64}
    {statics : BurstStatics} {rows : List (Nat × UInt64)} (hlevel : Level1s statics)
    (hcopied : Copied statics values)
    (hlevel1 : ∀ row ∈ rows, ∀ sample, values[row.1]? = some sample →
      level1 sample row.2 = sample.digest) (hash : UInt64) :
    (foldBurst values level1 statics hash rows).2 = foldRows values level1 hash rows ∧
      Level1s (foldBurst values level1 statics hash rows).1 := by
  have hrun : ∀ (rest : List (Nat × UInt64)) (start : UInt64) (statics : BurstStatics),
      (∀ row ∈ rest, row ∈ rows) → Level1s statics → Copied statics values →
      (rest.foldl (foldBurstRow values level1) (statics, start)).2 =
          rest.foldl (foldRow values level1) start ∧
        Level1s (rest.foldl (foldBurstRow values level1) (statics, start)).1 := by
    intro rest
    induction rest with
    | nil =>
        intro start statics _ hlevel _
        exact ⟨rfl, hlevel⟩
    | cons row rest ih =>
        intro start statics hrest hlevel hcopied
        have hrest' : ∀ row ∈ rest, row ∈ rows := by
          intro other hother
          exact hrest other (List.mem_cons_of_mem row hother)
        rw [List.foldl_cons, List.foldl_cons]
        cases hget : values[row.1]? with
        | none =>
            have hrow : foldBurstRow values level1 (statics, start) row = (statics, start) := by
              rw [foldBurstRow, hget]
            have hplain : foldRow values level1 start row = start := by
              rw [foldRow, hget]
            rw [hrow, hplain]
            exact ih start statics hrest' hlevel hcopied
        | some sample =>
            have hplain := hlevel1 row (hrest row List.mem_cons_self) sample hget
            obtain ⟨hown, hlevel', hcopied'⟩ :=
              burstLevel1_spec hlevel hcopied (List.mem_of_getElem? hget) hplain
            have hrow : foldBurstRow values level1 (statics, start) row =
                ((burstLevel1 statics sample).1, mixWord start (level1 sample row.2)) := by
              rw [foldBurstRow, hget]
              show (_, mixWord start _) = _
              rw [hown, hplain]
            have hsame : foldRow values level1 start row =
                mixWord start (level1 sample row.2) := by
              rw [foldRow, hget]
            rw [hrow, hsame]
            exact ih _ _ hrest' hlevel' hcopied'
  exact hrun rows _ statics (fun _ hrow => hrow) hlevel hcopied

theorem foldBurst_of_fresh {values : List ServedSample} {level1 : ServedSample → UInt64 → UInt64}
    {statics : BurstStatics} (hfresh : ¬Memoized statics values) (hash : UInt64)
    (rows : List (Nat × UInt64)) :
    foldBurst values level1 statics hash rows = (statics, foldRows values level1 hash rows) := by
  have hrow : ∀ (start : UInt64) (row : Nat × UInt64),
      foldBurstRow values level1 (statics, start) row =
        (statics, foldRow values level1 start row) := by
    intro start row
    unfold foldBurstRow foldRow
    cases hget : values[row.1]? with
    | none => rfl
    | some sample =>
        have hnone : statics.memo sample.burstSampleRoute sample.path = none := by
          by_contra hheld
          exact hfresh ⟨sample, List.mem_of_getElem? hget, hheld⟩
        simp only [burstLevel1, hnone, Option.getD_none]
  have hrun : ∀ (rest : List (Nat × UInt64)) (start : UInt64),
      rest.foldl (foldBurstRow values level1) (statics, start) =
        (statics, rest.foldl (foldRow values level1) start) := by
    intro rest
    induction rest with
    | nil =>
        intro start
        rfl
    | cons row rest ih =>
        intro start
        rw [List.foldl_cons, List.foldl_cons, hrow, ih]
  exact hrun rows _

theorem foldCached_spec {cache : BurstSampleCache} {s : ServedInputs Time}
    (hlevel : Level1s cache.toBurstStatics) (hsampled : BurstSampled cache s)
    (horder : s.matching = none → cache.sortedOrder = sortedIndices s.values) :
    (foldCached cache s).2 = foldServed s ∧ Level1s (foldCached cache s).1 := by
  unfold foldCached foldServed
  cases hmatching : s.matching with
  | some recorded =>
      have hsome : s.matching ≠ none := by
        rw [hmatching]
        exact Option.some_ne_none recorded
      dsimp only
      by_cases hmemo : Memoized cache.toBurstStatics s.values
      · obtain ⟨hfew, hverbatim⟩ := hsampled.promised hsome hmemo
        rw [s.eq_of_matching hmatching]
        obtain ⟨-, hstates⟩ := rows_recorded hfew
        refine foldBurst_spec hlevel hsampled.copied ?_ fnvBasis
        intro row hrow sample hget
        rw [hstates row hrow sample hget]
        exact hverbatim.orderedLevel1_eq (List.mem_of_getElem? hget)
      · rw [foldBurst_of_fresh hmemo]
        exact ⟨rfl, hlevel⟩
  | none =>
      have hindices : (cache.sortedOrder.map fun i => (i, (0 : UInt64))).map Prod.fst =
          sortedIndices s.values := by
        rw [List.map_map, ← horder hmatching]
        exact List.map_id _
      have hfold : foldRows s.values (fun sample _ => sample.digest) fnvBasis
          (cache.sortedOrder.map fun i => (i, 0)) = _ :=
        foldRows_eq hindices (fun _ _ sample _ => Eq.refl sample.digest) fnvBasis
      dsimp only
      rw [s.values_eq, ← hfold]
      exact foldBurst_spec hlevel hsampled.copied (fun _ _ sample _ => Eq.refl sample.digest)
        fnvBasis

variable (tables : Nat → HeadLeafConstants)

theorem cachedDigest_spec {cache : BurstSampleCache}
    {s : ServedInputs Time} (hlevel : Level1s cache.toBurstStatics)
    (hsampled : BurstSampled cache s)
    (horder : s.matching = none → cache.sortedOrder = sortedIndices s.values)
    (overrides : List ValueOverride) (upstream : List UpstreamValue) :
    (cachedDigest tables cache s overrides upstream).2 =
        servedDigest tables s overrides upstream ∧
      Level1s (cachedDigest tables cache s overrides upstream).1.toBurstStatics := by
  obtain ⟨hfold, hlevel'⟩ := foldCached_spec hlevel hsampled horder
  refine ⟨?_, hlevel'⟩
  rw [cachedDigest, hfold]
  rfl

/-- **One call**: whatever the cache holds, it is the plain digest that is returned. -/
theorem digestWithBurstCache_spec (equality : VtEquality)
    {cache : BurstSampleCache} {s : ServedInputs Time} (hlevel : Level1s cache.toBurstStatics)
    {overrides : List ValueOverride}
    (hsampled : cache.serves equality overrides = true →
      cache.sortedOrder = [] ∨ cache.shaped s.values = true → BurstSampled cache s)
    (upstream : List UpstreamValue) :
    (digestWithBurstCache tables equality cache s overrides upstream).2 =
        servedDigest tables s overrides upstream ∧
      Level1s
        (digestWithBurstCache tables equality cache s overrides upstream).1.toBurstStatics := by
  unfold digestWithBurstCache
  split
  · exact ⟨rfl, hlevel⟩
  · next hserves =>
      rw [Bool.not_eq_false] at hserves
      split
      · next hfirst =>
          have hsamples := hsampled hserves (Or.inl hfirst)
          have hrecorded : BurstSampled (cache.recordOrder s.values) s :=
            ⟨hsamples.copied, fun _ => Or.inr rfl, hsamples.promised⟩
          have hcached : Level1s (cache.recordOrder s.values).toBurstStatics := hlevel
          exact cachedDigest_spec tables hcached hrecorded (fun _ => rfl) overrides upstream
      · next hnonempty =>
          split
          · exact ⟨rfl, hlevel⟩
          · next hshaped =>
              rw [Bool.not_eq_false] at hshaped
              have hsamples := hsampled hserves (Or.inr hshaped)
              refine cachedDigest_spec tables hlevel hsamples ?_ overrides upstream
              intro hmatching
              exact (hsamples.ordered hmatching).resolve_left hnonempty

omit [VtHashing] in
theorem Level1s.memoize [VtHashing] {cache : BurstSampleCache}
    (hlevel : Level1s cache.toBurstStatics) (route : BurstRoute) (fresh : ServedSample) :
    Level1s (cache.memoize route fresh).toBurstStatics := by
  intro route' path entry hentry hvalid
  have hentry' : (cache.remember route fresh.path
      { sample := { fresh with burstSampleRoute := route } }).memo route' path = some entry := hentry
  rw [BurstStatics.memo_remember] at hentry'
  split at hentry'
  · cases hentry'
    cases hvalid
  · exact hlevel route' path entry hentry' hvalid

theorem burstDigests_of_level1s {calls : List (BurstCall Time)}
    {cache : BurstSampleCache} (hlevel : Level1s cache.toBurstStatics)
    (hrun : BurstSampledRun tables cache calls) :
    burstDigests tables cache calls = plainDigests tables calls := by
  induction calls generalizing cache with
  | nil => rfl
  | cons call calls ih =>
      cases call with
      | memoize route fresh => exact ih (hlevel.memoize route fresh) hrun
      | digest equality s overrides upstream =>
          obtain ⟨hsampled, hrest⟩ := hrun
          obtain ⟨hdigest, hlevel'⟩ :=
            digestWithBurstCache_spec tables equality hlevel hsampled upstream
          show _ :: _ = _
          rw [hdigest, ih hlevel' hrest]
          rfl

/-- **The burst's digests never go stale.**  From a prepared cache, whatever is memoized and
digested in whatever order, each call returns the plain digest of its state, when the vectors that
are digested from the memos are sampled as a burst's are. -/
theorem burstDigests_eq (tables : Nat → HeadLeafConstants) {calls : List (BurstCall Time)}
    {usable : Bool} {overrides : List ValueOverride}
    (hrun : BurstSampledRun tables { usable := usable, overrides := overrides } calls) :
    burstDigests tables { usable := usable, overrides := overrides } calls =
      plainDigests tables calls := by
  refine burstDigests_of_level1s tables ?_ hrun
  intro route path entry hentry
  cases route with
  | fresh => cases hentry
  | stage => cases hentry
  | resolved => cases hentry

/-! ## What a burst's vector has to be -/

omit [VtHashing] in
/-- A vector of samples whose order nobody recorded. -/
def unordered (values : List ServedSample) : ServedInputs Nat :=
  { samplesOnly values none with digestOrder := none }

omit [VtHashing] in
/-- A valueless sample that a map served. -/
def routed (path : SdfPath) (blocked : Bool) (entry : Int) : ServedSample :=
  { valueless path blocked entry with burstSampleRoute := .stage }

omit [VtHashing] in
/-- A burst without overrides. -/
def prepared : BurstSampleCache where
  usable := true
  overrides := []

omit [VtHashing] in
theorem samplePrefix_ne : samplePrefix "a" ≠ samplePrefix "b" := by
  intro h
  have hfirst : "a".toUTF8.toList = [97] := by decide +kernel
  have hsecond : "b".toUTF8.toList = [98] := by decide +kernel
  rw [samplePrefix, samplePrefix, foldString, foldString, hfirst, hsecond,
    foldBytes_of_short _ (by decide) (by decide), foldBytes_of_short _ (by decide) (by decide)] at h
  exact absurd (mixWord_injective_word h) (by decide)

theorem sampleFromPrefix_injective {hash hash' : UInt64} {blocked : Bool}
    (h : sampleFromPrefix hash (false, blocked, none) =
      sampleFromPrefix hash' (false, blocked, none)) : hash = hash' :=
  foldBytes_injective (foldBytes_injective (foldBytes_injective h))

theorem foldServed_unordered (values : List ServedSample) :
    foldServed (unordered values) = foldRows values (fun sample _ => sample.digest) fnvBasis
      ((sortedIndices values).map fun i => (i, 0)) := by
  refine (foldRows_eq ?_ (fun _ _ sample _ => Eq.refl sample.digest) fnvBasis).symm
  rw [List.map_map]
  exact List.map_id _

theorem foldBesides_apart {tables : Nat → HeadLeafConstants} {values : List ServedSample}
    {hash hash' : UInt64} (hne : hash ≠ hash') :
    foldBesides tables hash { (unordered values).inputs with upstream := [] } [] ≠
      foldBesides tables hash' { (unordered values).inputs with upstream := [] } [] := by
  intro h
  exact hne (samplesOnly_injective rfl rfl h)

/-- A burst whose first vector has the paths `a`, `b`, `b`. -/
def afterFirst : BurstSampleCache :=
  { prepared with
    sortedOrder := [0, 1]
    orderValuesSize := 3
    orderFirstPath := "a"
    orderLastPath := "b" }

theorem foreignShape_read :
    (digestWithBurstCache tables contentsEquality
        (digestWithBurstCache tables contentsEquality prepared (unordered [valueless "a" false (-1),
          valueless "b" true (-1), valueless "b" true (-1)]) [] []).1
        (unordered [valueless "a" false (-1), valueless "a" true (-1),
          valueless "b" true (-1)]) [] []).2 ≠
      servedDigest tables (unordered [valueless "a" false (-1), valueless "a" true (-1),
          valueless "b" true (-1)]) [] [] := by
  have hsecond : sortedIndices [valueless "a" false (-1), valueless "a" true (-1),
      valueless "b" true (-1)] = [0, 2] := rfl
  have hcache : (digestWithBurstCache tables contentsEquality prepared
      (unordered [valueless "a" false (-1), valueless "b" true (-1),
        valueless "b" true (-1)]) [] []).1 = afterFirst := rfl
  rw [hcache]
  refine foldBesides_apart ?_
  rw [foldServed_unordered, hsecond]
  intro h
  exact samplePrefix_ne (sampleFromPrefix_injective (mixWord_injective_word h))

/-- A burst that memoized a sample at `a`, once its digest is there. -/
theorem staleMemo_read :
    (digestWithBurstCache tables contentsEquality
        (digestWithBurstCache tables contentsEquality
          (prepared.memoize .stage (valueless "a" false (-1)))
          (unordered [routed "a" false (-1)]) [] []).1
        (unordered [routed "a" true (-1)]) [] []).2 ≠
      servedDigest tables (unordered [routed "a" true (-1)]) [] [] := by
  have hcached : (digestWithBurstCache tables contentsEquality
      (digestWithBurstCache tables contentsEquality
          (prepared.memoize .stage (valueless "a" false (-1)))
        (unordered [routed "a" false (-1)]) [] []).1
      (unordered [routed "a" true (-1)]) [] []).2 =
      foldBesides tables
        (mixWord (foldCount fnvBasis 1) (sampleDigest "a" (false, false, none)))
        { (unordered [routed "a" true (-1)]).inputs with upstream := [] } [] := rfl
  rw [hcached]
  refine foldBesides_apart ?_
  rw [foldServed_unordered]
  intro h
  exact sampleFromPrefix_valueless (mixWord_injective_word h)

theorem routedMark_read :
    (digestWithBurstCache tables contentsEquality (prepared.memoize .stage (valueless "a" true 0))
        (samplesOnly [routed "a" true 0] (some
          { samples := [valueless "a" false 0]
            level1 := [(valueless "a" false 0).digest]
            digestible := [true] })) [] []).2 ≠
      servedDigest tables
        (samplesOnly [routed "a" true 0] (some
          { samples := [valueless "a" false 0]
            level1 := [(valueless "a" false 0).digest]
            digestible := [true] })) [] [] := by
  intro h
  have hblock : mixWord (foldCount fnvBasis 1) (sampleDigest "a" (false, true, none)) =
      mixWord (foldCount fnvBasis 1) (sampleDigest "a" (false, false, none)) :=
    samplesOnly_injective rfl rfl h
  exact sampleFromPrefix_valueless (mixWord_injective_word hblock.symm)

omit [VtHashing] in
/-- `longVector`, with its samples served from a map. -/
def routedVector (n : Nat) : List ServedSample :=
  (longVector n).map fun sample => { sample with burstSampleRoute := .stage }

omit [VtHashing] in
theorem routedVector_paths (n : Nat) :
    (routedVector n).map (fun sample => sample.path) =
      (longVector n).map fun sample => sample.path := by
  rw [routedVector, List.map_map]
  rfl

omit [VtHashing] in
theorem routedVector_rows {n : Nat} (hn : 0 < n) (hwrap : index32 n = 0) :
    (recordFrameDigestOrder (routedVector n)).rows =
      [(0, samplePrefix "a"), (0, samplePrefix "b")] := by
  obtain ⟨hkeys, hfirst, hlast⟩ := longVector_keys hn
  have hzero : index32 0 = 0 := Nat.zero_mod _
  simp only [FrameDigestOrder.rows, recordFrameDigestOrder, sortedIndices, routedVector_paths,
    hkeys, List.map_cons, List.map_nil, hfirst, hlast, hwrap, hzero, List.zip_cons_cons,
    List.zip_nil_right]

omit [VtHashing] in
theorem routedVector_zero {n : Nat} (hn : 0 < n) :
    (routedVector n)[0]? = some (routed "a" false (-1)) := by
  obtain ⟨m, rfl⟩ := Nat.exists_eq_succ_of_ne_zero (Nat.ne_of_gt hn)
  rfl

theorem wrappedMemo_read {n : Nat} (hn : 0 < n) (hwrap : index32 n = 0) :
    (digestWithBurstCache tables contentsEquality
          (prepared.memoize .stage (valueless "a" false (-1)))
        (samplesOnly (routedVector n) none) [] []).2 ≠
      servedDigest tables (samplesOnly (routedVector n) none) [] [] := by
  intro h
  have hcached : (foldCached ((prepared.memoize .stage (valueless "a" false (-1))).recordOrder
      (routedVector n)) (samplesOnly (routedVector n) none)).2 =
      foldServed (samplesOnly (routedVector n) none) := samplesOnly_injective rfl rfl h
  have hvalues : (samplesOnly (routedVector n) none).values = routedVector n := rfl
  simp only [foldCached, foldServed, samplesOnly_matching, routedVector_rows hn hwrap, hvalues,
    foldBurst, foldRows, foldRow, foldCounted, List.foldl_cons, List.foldl_nil, foldBurstRow,
    routedVector_zero hn] at hcached
  have hbegins : samplePrefix "a" = samplePrefix "b" :=
    sampleFromPrefix_injective (mixWord_injective_word hcached)
  exact samplePrefix_ne hbegins

end

/-- Two vectors of one shape. -/
def foreignShape : List (BurstCall Nat) :=
  [.digest contentsEquality (unordered [valueless "a" false (-1), valueless "b" true (-1),
      valueless "b" true (-1)]) [] [],
    .digest contentsEquality (unordered [valueless "a" false (-1), valueless "a" true (-1),
      valueless "b" true (-1)]) [] []]

/-- A sample that is no longer what was memoized. -/
def staleMemo : List (BurstCall Nat) :=
  [.memoize .stage (valueless "a" false (-1)),
    .digest contentsEquality (unordered [routed "a" false (-1)]) [] [],
    .digest contentsEquality (unordered [routed "a" true (-1)]) [] []]

/-- A memoized sample that is marked with an entry it does not copy. -/
def routedMark : List (BurstCall Nat) :=
  [.memoize .stage (valueless "a" true 0),
    .digest contentsEquality (samplesOnly [routed "a" true 0] (some valuelessTable)) [] []]

/-- A memoized sample under a recorded index that wraps around. -/
def wrappedMemo (n : Nat) : List (BurstCall Nat) :=
  [.memoize .stage (valueless "a" false (-1)),
    .digest contentsEquality (samplesOnly (routedVector n) none) [] []]

/-- The four ways in which a burst's digest is not the plain one. -/
theorem burstDigests_trust :
    @burstDigests Nat plainHashing noLeafTables prepared foreignShape ≠
        @plainDigests Nat plainHashing noLeafTables foreignShape ∧
      @burstDigests Nat plainHashing noLeafTables prepared staleMemo ≠
        @plainDigests Nat plainHashing noLeafTables staleMemo ∧
      @burstDigests Nat plainHashing noLeafTables prepared routedMark ≠
        @plainDigests Nat plainHashing noLeafTables routedMark ∧
      @burstDigests Nat plainHashing noLeafTables prepared (wrappedMemo (2 ^ 32)) ≠
        @plainDigests Nat plainHashing noLeafTables (wrappedMemo (2 ^ 32)) := by
  refine ⟨?_, ?_, ?_, ?_⟩
  · intro h
    exact @foreignShape_read plainHashing noLeafTables (List.cons.inj (List.cons.inj h).2).1
  · intro h
    exact @staleMemo_read plainHashing noLeafTables (List.cons.inj (List.cons.inj h).2).1
  · intro h
    exact @routedMark_read plainHashing noLeafTables (List.cons.inj h).1
  · intro h
    exact @wrappedMemo_read plainHashing noLeafTables (2 ^ 32) (by decide) (by decide)
      (List.cons.inj h).1

/-- A sample that is read once and served twice, and a vector of another shape. -/
def servedTwice : List (BurstCall Nat) :=
  [.memoize .stage (valueless "a" false (-1)),
    .digest contentsEquality (unordered [routed "a" false (-1)]) [] [],
    .digest contentsEquality (unordered [routed "a" false (-1)]) [] [weightsRow 1],
    .digest contentsEquality (unordered [routed "b" false (-1), routed "a" true (-1)]) [] []]

theorem burstDigests_eq_servedTwice :
    @burstDigests Nat plainHashing noLeafTables { usable := true, overrides := [] } servedTwice =
      @plainDigests Nat plainHashing noLeafTables servedTwice := by
  have hsampled : ∀ cache : BurstSampleCache,
      (∀ entry, cache.memo .stage "a" = some entry →
        entry.sample.content = (false, false, none)) →
      (cache.sortedOrder = [] ∨ cache.sortedOrder = [0]) →
      @BurstSampled Nat plainHashing cache (unordered [routed "a" false (-1)]) := by
    intro cache hentry horder
    refine @BurstSampled.mk Nat plainHashing _ _ ?_ (fun _ => horder) (fun h => absurd rfl h)
    intro sample hin entry hmemo
    cases List.mem_singleton.mp hin
    exact hentry entry hmemo
  refine @burstDigests_eq Nat plainHashing noLeafTables servedTwice true [] ⟨?_, ?_, ?_, trivial⟩
  · intro _ _
    refine hsampled _ ?_ (Or.inl rfl)
    intro entry hentry
    cases hentry
    rfl
  · intro _ _
    refine hsampled _ ?_ (Or.inr rfl)
    intro entry hentry
    cases hentry
    rfl
  · -- the last vector has another size than the first: the memos are not read
    rintro _ (hfirst | hshaped)
    · exact absurd hfirst (List.cons_ne_nil 0 [])
    · exact absurd hshaped Bool.false_ne_true

end RigExec.Sparsity
