/-
# `RigExec.Resolved.Reads` — reading an input

`GetAttribute` takes a value that the generation has computed, or else walks the connections to the
attribute that answers; a float read of a double attribute is the double read, narrowed.  An
attribute that cannot change answers from the static-input cache.

    walk                          the loop over the connections, which both reads share
    getAttribute                  with the cache, which it fills
    getAttributeOverStageLayer    with a layer of authored values before each stage read

A null output and the purity check are not modelled.
-/
import RigExec.Resolved.Layers

namespace RigExec.Resolved

open Lib (OrderedMap)

variable {Path V Time : Type} [LinearOrder Path]

/-! ## The stage -/

/-- What USD answers about one attribute.  The last three fields are what it promises. -/
structure Attribute (Path V Time : Type) where
  /-- The C++ type of `GetTypeName()`. -/
  typeName : ValueType
  hasAuthoredConnections : Bool
  /-- `GetConnections`. -/
  connections : List Path
  /-- `ValueMightBeTimeVarying()`. -/
  mightVary : Bool
  /-- `GetNumTimeSamples()`. -/
  numTimeSamples : Nat
  /-- The value at a time. -/
  value : Time → Option (VtValue V)
  connections_nil : hasAuthoredConnections = false → connections = []
  steady : mightVary = false → numTimeSamples = 0 → ∀ t t', value t = value t'
  typed : ∀ t v, value t = some v → v.type = typeName

/-- A stage: its attributes. -/
abbrev Stage (Path V Time : Type) [LinearOrder Path] := OrderedMap Path (Attribute Path V Time)

/-- `attribute.Get<T>`. -/
def Attribute.get (attr : Attribute Path V Time) (T : ValueType) (time : Time) : Option V :=
  (attr.value time).bind (VtValue.holding T)

/-- The attribute that a lone connection leads to. -/
def Attribute.next (attr : Attribute Path V Time) : Option Path :=
  match if attr.hasAuthoredConnections then attr.connections else [] with
  | [next] => some next
  | _ => none

/-- `Get<T>` of the attribute at a path. -/
def stageGet (stage : Stage Path V Time) (T : ValueType) (time : Time) (path : Path) : Option V :=
  (stage.find? path).bind fun attr => attr.get T time

/-- `GetTypeName() == SdfValueTypeNames->Double`, of an attribute that there is. -/
def isDouble (stage : Stage Path V Time) (path : Path) : Bool :=
  (stage.find? path).any fun attr => attr.typeName = .double

/-! ## The cache -/

/-- `RigExecStaticInputCache::_Entry`. -/
structure CacheEntry (V : Type) where
  value : Option (VtValue V) := none
  valueType : Option ValueType := none
  cacheable : Bool := false
  filled : Bool := false
  hasValue : Bool := false

structure StaticInputCache (Path V : Type) [LinearOrder Path] where
  entries : OrderedMap Path (CacheEntry V) := ∅
  /-- The thread that owns it. -/
  owner : Nat
  hits : Nat := 0
  refusals : Nat := 0
  bypasses : Nat := 0

/-- An entry at the first read of an attribute. -/
def Attribute.admitted (attr : Attribute Path V Time) : CacheEntry V where
  cacheable := !attr.hasAuthoredConnections && !attr.mightVary && attr.numTimeSamples == 0

/-- An entry that its first typed read fills. -/
def CacheEntry.fill (entry : CacheEntry V) (T : ValueType) (got : Option V) : CacheEntry V :=
  { entry with
    value := got.map fun payload => ⟨T, payload⟩
    valueType := some T
    filled := true
    hasValue := got.isSome }

namespace StaticInputCache

variable (cache : StaticInputCache Path V)

def clear (thread : Nat) : StaticInputCache Path V :=
  { cache with entries := ∅, owner := thread }

def erase (thread : Nat) (path : Path) : StaticInputCache Path V :=
  { cache with entries := cache.entries.erase path, owner := thread }

def erasePrefixes (thread : Nat)
    (hasPrefix : Path → Path → Bool) (prefixes : List Path) : StaticInputCache Path V :=
  { cache with
    entries := cache.entries.filter fun path _ => !prefixes.any fun p => hasPrefix path p
    owner := thread }

/-- `Read`: the answer if it is authoritative (`handled`), and the cache. -/
def read (thread : Nat) (attr : Attribute Path V Time)
    (path : Path) (time : Time) (T : ValueType) : Option (Option V) × StaticInputCache Path V :=
  if cache.owner ≠ thread then (none, { cache with bypasses := cache.bypasses + 1 })
  else
    let entry := (cache.entries.find? path).getD attr.admitted
    if entry.cacheable = false then
      (none, { cache with
        entries := cache.entries.insert path entry, refusals := cache.refusals + 1 })
    else if entry.filled = false then
      (some (attr.get T time), { cache with
        entries := cache.entries.insert path (entry.fill T (attr.get T time)) })
    else if entry.valueType ≠ some T then (some (attr.get T time), cache)
    else
      (some (if entry.hasValue then entry.value.map VtValue.payload else none),
        { cache with hits := cache.hits + 1 })

end StaticInputCache

/-! ## The walk -/

/-- How the loop over the connections ends. -/
inductive Walk (Path V : Type) where
  /-- The resolved inputs hold a value. -/
  | found (payload : V)
  /-- A float read has reached a double attribute. -/
  | wide (path : Path)
  /-- There is nowhere to go; the attributes visited, the deepest first. -/
  | ended (fallback : List Path)

theorem length_unvisited_lt {keys fallback : List Path} {path : Path} (hin : path ∈ keys)
    (hout : path ∉ fallback) :
    (keys.filter (· ∉ path :: fallback)).length < (keys.filter (· ∉ fallback)).length := by
  have hcut : keys.filter (· ∉ path :: fallback)
      = (keys.filter (· ∉ fallback)).filter (· ≠ path) := by
    rw [List.filter_filter]
    refine List.filter_congr fun other _ => ?_
    simp
  rw [hcut, List.length_filter_lt_length_iff_exists]
  exact ⟨path, List.mem_filter.mpr ⟨hin, by simpa using hout⟩, by simp⟩

/-- The loop; `visiting` and `fallback` hold the same attributes, and `get` is `Get` of the resolved
inputs. -/
def walk (stage : Stage Path V Time) (get : Path → Option V) (T : ValueType)
    (fallback : List Path) (path : Path) : Walk Path V :=
  match _hattr : stage.find? path with
  | none => .ended fallback
  | some attr =>
      if _hvisiting : path ∈ fallback then .ended fallback
      else
        match get path with
        | some payload => .found payload
        | none =>
            if T = .float ∧ attr.typeName = .double then .wide path
            else
              match attr.next with
              | some next => walk stage get T (path :: fallback) next
              | none => .ended (path :: fallback)
  termination_by (stage.keys.filter (· ∉ fallback)).length
  decreasing_by
    exact length_unvisited_lt (OrderedMap.mem_keys_iff.mpr ⟨attr, _hattr⟩) _hvisiting

theorem walk_of_none {stage : Stage Path V Time} {get : Path → Option V} {T : ValueType}
    {fallback : List Path} {path : Path} (h : stage.find? path = none) :
    walk stage get T fallback path = .ended fallback := by
  rw [walk]
  split
  · rfl
  · rename_i attr hattr
    rw [h] at hattr
    exact absurd hattr.symm (Option.some_ne_none attr)

theorem walk_of_some {stage : Stage Path V Time} {get : Path → Option V} {T : ValueType}
    {fallback : List Path} {path : Path} {attr : Attribute Path V Time}
    (h : stage.find? path = some attr) :
    walk stage get T fallback path
      = if path ∈ fallback then .ended fallback
        else (get path).elim
          (if T = .float ∧ attr.typeName = .double then .wide path
            else attr.next.elim (.ended (path :: fallback)) (walk stage get T (path :: fallback)))
          .found := by
  rw [walk]
  split
  · rename_i hnone
    rw [h] at hnone
    exact absurd hnone (Option.some_ne_none attr)
  · rename_i attr' hattr
    obtain rfl := Option.some.inj (h.symm.trans hattr)
    rw [dite_eq_ite]
    cases get path with
    | some payload => rfl
    | none => cases attr.next <;> rfl

/-! ## `GetAttribute` -/

/-- The base of the overlay. -/
def ResolvedInputs.base? (r : ResolvedInputs Path V) : Option (ResolvedInputs Path V) :=
  match r.bases with
  | [] => none
  | layer :: bases => some { own := layer, bases := bases }

/-- There may be a value to rule out. -/
def ResolvedInputs.checkOverlay (r : ResolvedInputs Path V) : Bool :=
  r.own.values.size != 0 || r.base?.any fun base => !base.isEmpty

/-- What a read answers, and what it leaves of the cache. -/
abbrev Read (Path V : Type) [LinearOrder Path] := Option V × StaticInputCache Path V

section

variable (stage : Stage Path V Time) (r : ResolvedInputs Path V) (thread : Nat) (time : Time)

/-- The end of the walk, with `wide` for the double read that a float read ends on. -/
def getByWalk (wide : StaticInputCache Path V → Path → Read Path V) (T : ValueType)
    (cache : StaticInputCache Path V) (path : Path) : Read Path V :=
  match walk stage (r.get T) T [] path with
  | .found payload => (some payload, cache)
  | .wide reached => wide cache reached
  | .ended fallback => (fallback.findSome? (stageGet stage T time), cache)

/-- What the cache has refused. -/
def getRefused (wide : StaticInputCache Path V → Path → Read Path V) (T : ValueType)
    (cache : StaticInputCache Path V) (path : Path) (attr : Attribute Path V Time) : Read Path V :=
  if attr.hasAuthoredConnections = false then (attr.get T time, cache)
  else getByWalk stage r time wide T cache path

/-- `GetAttribute`, after the test for a float read of a double attribute. -/
def getExact (wide : StaticInputCache Path V → Path → Read Path V) (T : ValueType)
    (cache : StaticInputCache Path V) (path : Path) : Read Path V :=
  match stage.find? path with
  | none => getByWalk stage r time wide T cache path
  | some attr =>
      if r.checkOverlay && (r.find path).isSome then getByWalk stage r time wide T cache path
      else if r.cached then
        match cache.read thread attr path time T with
        | (some got, cache) => (got, cache)
        | (none, cache) => getRefused stage r time wide T cache path attr
      else getRefused stage r time wide T cache path attr

/-- `GetAttribute<double>`; its walk does not end on a double read. -/
def getDouble (cache : StaticInputCache Path V) (path : Path) : Read Path V :=
  getExact stage r thread time (fun cache _ => (none, cache)) .double cache path

/-- `_CoerceFromDouble` of the double read. -/
def getNarrowed (narrow : V → V) (cache : StaticInputCache Path V) (path : Path) : Read Path V :=
  let (wide, cache) := getDouble stage r thread time cache path
  (wide.map narrow, cache)

/-- `GetAttribute<T>`. -/
def getAttribute (narrow : V → V) (T : ValueType) (cache : StaticInputCache Path V)
    (path : Path) : Read Path V :=
  if T = .float ∧ isDouble stage path = true then
    getNarrowed stage r thread time narrow cache path
  else getExact stage r thread time (getNarrowed stage r thread time narrow) T cache path

/-! ## `GetAttributeOverStageLayer` -/

/-- A layer of authored values. -/
abbrev UpstreamLayer (Path V : Type) [LinearOrder Path] := OrderedMap Path (VtValue V)

variable (layer : UpstreamLayer Path V)

def fromLayer (T : ValueType) (path : Path) : Option V :=
  (layer.find? path).bind (VtValue.holding T)

/-- The read over a layer, after the test for a float read of a double attribute. -/
def overLayerExact (wide : Path → Option V) (T : ValueType) (path : Path) : Option V :=
  match walk stage (r.get T) T [] path with
  | .found payload => some payload
  | .wide reached => wide reached
  | .ended fallback => fallback.findSome? fun path =>
      (fromLayer layer T path).or (stageGet stage T time path)

/-- The double read over a layer, narrowed. -/
def overLayerNarrowed (narrow : V → V) (path : Path) : Option V :=
  (overLayerExact stage r time layer (fun _ => none) .double path).map narrow

/-- `GetAttributeOverStageLayer<T>`; an empty layer stands for a null one too. -/
def getAttributeOverStageLayer (narrow : V → V) (T : ValueType)
    (cache : StaticInputCache Path V) (path : Path) : Read Path V :=
  if layer.size = 0 then getAttribute stage r thread time narrow T cache path
  else if T = .float ∧ isDouble stage path = true then
    (overLayerNarrowed stage r time layer narrow path, cache)
  else
    (overLayerExact stage r time layer (overLayerNarrowed stage r time layer narrow) T path, cache)

end

end RigExec.Resolved
