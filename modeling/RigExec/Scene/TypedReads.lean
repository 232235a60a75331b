/-
# `RigExec.Scene.TypedReads` — typed inputs, read directly and over the graph

A typed read follows the connections of an attribute and keeps the hops.  It is
resolved twice: against the captured scene and the delivered values, and against the
slots of a value store.  Both look for a value in the same order.

    hops             the hops up to the first double, of a float read
    doubleHops       the hops from the first double on
    overlays         what was delivered, from the consumer on
    raw values       what is authored, from the far end back
    elements         a point of an array, for a `Vec3f` that asks for one

The path functions and the linker of the graph are parameters; `narrow` is the
conversion of a double to a float.
-/
import RigExec.Scene.Descriptors
import RigExec.Scene.TypedValues

namespace RigExec.Scene

variable {P : Payloads} {Time : Type}

/-! ## Captured inputs -/

/-- `SdfValueTypeName`, with the type of its values. -/
structure ValueTypeName where
  name : String
  cppType : TypeIndex
deriving DecidableEq

/-- `SdfValueTypeNames->Float`. -/
def floatName : ValueTypeName := ⟨"float", .float⟩

/-- `SdfValueTypeNames->Double`. -/
def doubleName : ValueTypeName := ⟨"double", .double⟩

/-- The scene a typed read is bound to. -/
abbrev TypedScene (P : Payloads) (Time : Type) := SceneDescriptors (VtValue P) ValueTypeName Time

/-- `RigExecSceneBoundInput`, of a raw read. -/
structure BoundInput (P : Payloads) where
  consumer : SdfPath
  values : List (VtValue P) := []
  available : List Bool := []
  computed : List Bool := []

/-- `RigExecSceneCompileInputs::Bind`, by the raw route. -/
def bindRaw (scene : TypedScene P Time) (path : SdfPath) : Except String (BoundInput P) :=
  match scene.attribute path with
  | none => .error ("missing compiled input: " ++ path)
  | some captured =>
      if captured.inputs.length ≠ scene.identities.length then
        .error ("incomplete compiled input identities: " ++ path)
      else
        .ok
          { consumer := path
            values := captured.inputs.map SceneInput.raw
            available := captured.inputs.map fun _ => true
            computed := captured.inputs.map fun _ => false }

/-- `RigExecSceneCompileInputs::Read`. -/
def readInput [DecidableEq Time] (scene : TypedScene P Time) (input : BoundInput P)
    (identity : Time) : Option (VtValue P) :=
  match scene.identities.idxOf? identity with
  | none => none
  | some index =>
      match input.values[index]?, input.available[index]?, input.computed[index]? with
      | some value, some available, some computed =>
          if computed then none else if available then some value else none
      | _, _, _ => none

/-! ## Binding -/

structure SceneTypedRead (P : Payloads) where
  consumer : SdfPath
  readPhase : String
  requested : ValueTypeName
  cppType : TypeIndex
  hops : List (BoundInput P) := []
  doubleHops : List (BoundInput P) := []
  inputElement : Int := -1
  elementSources : List SdfPath := []
  computedSources : List SdfPath := []

section

variable (primPath : SdfPath → SdfPath) (scene : TypedScene P Time)

/-- One hop of the connections; the flag is `asDouble`. -/
def bindHop (requested : ValueTypeName) (current : SdfPath)
    (captured : AttributeDescriptor (VtValue P) ValueTypeName) (raw : BoundInput P)
    (asDouble : Bool) (read : SceneTypedRead P) : Bool × SceneTypedRead P :=
  let double := asDouble || (requested = floatName && captured.type = doubleName)
  (double,
    { read with
      elementSources :=
        if 0 ≤ read.inputElement ∧ captured.type.cppType = .vec3fArray then
          read.elementSources ++ [current]
        else read.elementSources
      computedSources :=
        if captured.inputs.any fun input => input.state = .computed && input.source = current then
          read.computedSources ++ [current]
        else read.computedSources
      hops := if asDouble then read.hops else read.hops ++ [raw]
      doubleHops := if double then read.doubleHops ++ [raw] else read.doubleHops })

/-- The hops from a path on, for so many turns; `none` when they run out. -/
def followHops (requested : ValueTypeName) : Nat → List SdfPath → SdfPath →
    Bool × SceneTypedRead P → Option (Except String (SceneTypedRead P))
  | 0, _, _, _ => none
  | turns + 1, visited, current, (asDouble, read) =>
      if current = "" ∨ current ∈ visited then some (.ok read)
      else
        match scene.attribute current, scene.node (primPath current) with
        | some captured, some prim =>
            if prim.active = false then some (.ok read)
            else
              match bindRaw scene current with
              | .error message => some (.error message)
              | .ok raw =>
                  let next := bindHop requested current captured raw asDouble read
                  match captured.connections with
                  | [connection] =>
                      followHops requested turns (current :: visited) connection next
                  | _ => some (.ok next.2)
        | _, _ => some (.ok read)

/-- The element a head asks for. -/
def headElement (path : SdfPath) (requested : ValueTypeName)
    (head : Option (AttributeDescriptor (VtValue P) ValueTypeName)) : Except String Int :=
  match head.bind AttributeDescriptor.inputElement with
  | none => .ok (-1)
  | some (.int element) =>
      if requested.cppType ≠ .vec3f ∨ element < 0 then
        .error (path ++ ": rigExecInputElement requires a nonnegative int on a Vec3f input")
      else .ok element
  | some _ =>
      .error (path ++ ": rigExecInputElement requires a nonnegative int on a Vec3f input")

def bindSceneTypedRead (path : SdfPath) (requested : ValueTypeName) :
    Option (Except String (SceneTypedRead P)) :=
  let head := scene.attribute path
  match headElement path requested head with
  | .error message => some (.error message)
  | .ok inputElement =>
      followHops primPath scene requested (scene.attributes.size + 1) [] path
        (requested = floatName && head.any fun captured => captured.type = doubleName,
          { consumer := path
            readPhase := (head.map AttributeDescriptor.readPhase).getD "base"
            requested
            cppType := requested.cppType
            inputElement })

end

/-! ## Looking for a value -/

/-- The first value that is offered.  The flag tells that an element was out of range. -/
def firstOffer {α β : Type} (offer : Bool → α → Bool × Option β) :
    List α → Bool → Bool × Option β
  | [], unavailable => (unavailable, none)
  | hop :: rest, unavailable =>
      match offer unavailable hop with
      | (unavailable, some value) => (unavailable, some value)
      | (unavailable, none) => firstOffer offer rest unavailable

/-- An element of an array; an element past its end is unavailable. -/
def selectElement (element : Int) (unavailable : Bool) (value : VtValue P) :
    Bool × Option (VtValue P) :=
  if element < 0 then (unavailable, none)
  else
    match value with
    | .vec3fArray points =>
        match points[element.toNat]? with
        | some point => (unavailable, some (.vec3f point))
        | none => (true, none)
    | _ => (unavailable, none)

/-- A value of a type, or an element of it. -/
def offerValue (type : TypeIndex) (element : Int) (selects unavailable : Bool)
    (value : VtValue P) : Bool × Option (VtValue P) :=
  if value.typeid = some type then (unavailable, some value)
  else if selects then selectElement element unavailable value
  else (unavailable, none)

/-- What is found offers itself, if there is anything. -/
def offerFound (type : TypeIndex) (element : Int) (selects unavailable : Bool) :
    Option (VtValue P) → Bool × Option (VtValue P)
  | none => (unavailable, none)
  | some value => offerValue type element selects unavailable value

/-! ## The direct read -/

section

variable [DecidableEq Time] (narrow : P.Double → P.Single) (scene : TypedScene P Time)
  (read : SceneTypedRead P) (identity : Time) (delivered : Lib.OrderedMap SdfPath (VtValue P))

/-- What was delivered to a hop. -/
def deliveredOffer (type : TypeIndex) (unavailable : Bool) (hop : BoundInput P) :
    Bool × Option (VtValue P) :=
  offerFound type read.inputElement (type = read.cppType && hop.consumer ∈ read.elementSources)
    unavailable (delivered.find? hop.consumer)

/-- What is authored at a hop. -/
def authoredOffer (type : TypeIndex) (unavailable : Bool) (hop : BoundInput P) :
    Bool × Option (VtValue P) :=
  offerFound type read.inputElement
    (read.doubleHops.isEmpty && read.readPhase = "base" && !unavailable &&
      hop.consumer ∈ read.elementSources) unavailable (readInput scene hop identity)

/-- A computed source that does not have its value. -/
def lacksProducer (path : SdfPath) : Bool :=
  let required := if read.doubleHops.isEmpty then read.cppType else .double
  match delivered.find? path with
  | none => true
  | some value =>
      let selectedArray := read.doubleHops.isEmpty && decide (0 ≤ read.inputElement) &&
        decide (path ∈ read.elementSources) && decide (value.typeid = some .vec3fArray)
      !selectedArray && decide (value.typeid ≠ some required)

/-- `float(value)` of a double. -/
def narrowed : VtValue P → VtValue P
  | .double x => .float (narrow x)
  | value => value

/-- The message of a read that fell back. -/
def elementFallback : String :=
  "diag " ++ read.consumer ++ ": cross-domain input " ++ read.elementSources.headD "" ++
    " element " ++ toString read.inputElement ++ " is unavailable; using the typed fallback"

/-- The value behind the overlays of the hops. -/
def directTail (unavailable : Bool) : Bool × Option (VtValue P) :=
  if read.doubleHops.isEmpty then
    firstOffer (authoredOffer scene read identity read.cppType) read.hops.reverse unavailable
  else
    match firstOffer (deliveredOffer read delivered .double) read.doubleHops unavailable with
    | (unavailable, some value) => (unavailable, some value)
    | (unavailable, none) =>
        firstOffer (authoredOffer scene read identity .double) read.doubleHops.reverse unavailable

/-- The read, once the overlays of the hops have nothing. -/
def directRest (unavailable : Bool) : Except String (VtValue P × String) :=
  match read.computedSources.find? (lacksProducer read delivered) with
  | some path => .error ("computed input requires graph producer: " ++ path)
  | none =>
      match directTail scene read identity delivered unavailable with
      | (_, none) => .error ("typed input unavailable: " ++ read.consumer)
      | (unavailable, some value) =>
          .ok (if read.doubleHops.isEmpty then value else narrowed narrow value,
            if unavailable then elementFallback read else "")

/-- `RigExecResolveSceneTypedRead`: the value and the diagnostic. -/
def resolveSceneTypedRead : Except String (VtValue P × String) :=
  match firstOffer (deliveredOffer read delivered read.cppType) read.hops false with
  | (_, some value) => .ok (value, "")
  | (unavailable, none) =>
      directRest narrow scene read identity delivered
        (unavailable || (decide (0 ≤ read.inputElement) && !read.elementSources.isEmpty &&
          read.readPhase ≠ "base"))

end

/-! ## The graph read -/

structure GraphTypedHop where
  raw : ValueId := noValue
  overlay : ValueId := noValue
  element : Bool := false
  computed : Bool := false

structure GraphTypedRead where
  hops : List GraphTypedHop := []
  doubleHops : List GraphTypedHop := []
  type : TypeIndex
  element : Int := -1
  base : Bool := true
  effective : ValueId := noValue
  unavailable : String
  elementUnavailable : String

/-- `RigExecSceneGraphReadRequest`, with the fields a typed read sets. -/
structure GraphReadRequest where
  consumer : SdfPath
  source : SdfPath
  reader : SdfPath
  isPoints : Bool
  phase : String
  raw : Bool

/-- `RigExecSceneGraphBindingContext`. -/
structure GraphBindingContext where
  resolve : GraphReadRequest → Except String ValueId
  effectiveRead : Option (GraphTypedRead → Except String ValueId) := none

section

variable (nameToken : SdfPath → String)

def hopRequest (source : SceneTypedRead P) (input : BoundInput P) (raw : Bool) :
    GraphReadRequest :=
  { consumer := source.consumer
    source := input.consumer
    reader := source.consumer
    isPoints := nameToken input.consumer = "points"
    phase := source.readPhase
    raw }

/-- One hop; an overlay may be missing where nothing computes. -/
def bindGraphHop (source : SceneTypedRead P) (context : GraphBindingContext)
    (input : BoundInput P) : Except String GraphTypedHop :=
  let computed := decide (input.consumer ∈ source.computedSources)
  match context.resolve (hopRequest nameToken source input true) with
  | .error message => .error message
  | .ok raw =>
      match context.resolve (hopRequest nameToken source input false) with
      | .ok overlay =>
          .ok { raw, overlay, element := input.consumer ∈ source.elementSources, computed }
      | .error diagnostic =>
          if computed then .error diagnostic
          else .ok { raw, element := input.consumer ∈ source.elementSources, computed }

/-- The hops of a list, in order. -/
def bindGraphHops (source : SceneTypedRead P) (context : GraphBindingContext) :
    List (BoundInput P) → Except String (List GraphTypedHop)
  | [] => .ok []
  | input :: rest =>
      match bindGraphHop nameToken source context input with
      | .error message => .error message
      | .ok hop =>
          match bindGraphHops source context rest with
          | .error message => .error message
          | .ok hops => .ok (hop :: hops)

/-- A graph read with its hops, before an operation of its own is asked for. -/
def bindTypedHops (source : SceneTypedRead P) (context : GraphBindingContext) :
    Except String GraphTypedRead :=
  match bindGraphHops nameToken source context source.hops with
  | .error message => .error message
  | .ok hops =>
      match bindGraphHops nameToken source context source.doubleHops with
      | .error message => .error message
      | .ok doubleHops =>
          .ok
            { hops, doubleHops
              type := source.cppType
              element := source.inputElement
              base := source.readPhase = "base"
              unavailable := "typed input unavailable: " ++ source.consumer
              elementUnavailable := "diag " ++ source.consumer ++
                ": selected array element is unavailable; using the typed fallback" }

def bindGraphTypedRead (source : SceneTypedRead P) (context : GraphBindingContext) :
    Except String GraphTypedRead :=
  match bindTypedHops nameToken source context with
  | .error message => .error message
  | .ok read =>
      match context.effectiveRead with
      | none => .ok read
      | some effectiveRead =>
          match effectiveRead read with
          | .error message => .error message
          | .ok effective =>
              .ok
                { read with
                  effective
                  hops := [{ raw := effective, overlay := effective, computed := true }]
                  doubleHops := [] }

end

section

variable (narrow : P.Double → P.Single) (matrixOf : P.Frame → Option P.Matrix)
  (read : GraphTypedRead) (store : TypedValueStore P)

/-- What the overlay slot of a hop holds, if the hop looks at it. -/
def overlayValue (hop : GraphTypedHop) : Option (VtValue P) :=
  match store[hop.overlay]? with
  | none => none
  | some state =>
      if hop.computed = false ∧ state.authoritative = false then none
      else store.readSceneGraphValue matrixOf hop.overlay true

/-- What the overlay of a hop offers. -/
def overlayOffer (type : TypeIndex) (unavailable : Bool) (hop : GraphTypedHop) :
    Bool × Option (VtValue P) :=
  offerFound type read.element (type = read.type && hop.element) unavailable
    (overlayValue matrixOf store hop)

/-- What the raw slot of a hop offers. -/
def rawOffer (type : TypeIndex) (unavailable : Bool) (hop : GraphTypedHop) :
    Bool × Option (VtValue P) :=
  offerFound type read.element
    (read.doubleHops.isEmpty && read.base && !unavailable && hop.element) unavailable
    (store.readSceneGraphValue matrixOf hop.raw false)

/-- A computed hop that does not have its value. -/
def lacksValue (hop : GraphTypedHop) : Bool :=
  let required := if read.doubleHops.isEmpty then read.type else .double
  hop.computed &&
    match store.readSceneGraphValue matrixOf hop.overlay true with
    | none => true
    | some value =>
        let selectedArray := read.doubleHops.isEmpty && hop.element &&
          decide (0 ≤ read.element) && decide (value.typeid = some .vec3fArray)
        !selectedArray && decide (value.typeid ≠ some required)

/-- The value behind the overlays of the hops. -/
def graphTail (unavailable : Bool) : Bool × Option (VtValue P) :=
  if read.doubleHops.isEmpty then
    firstOffer (rawOffer matrixOf read store read.type) read.hops.reverse unavailable
  else
    match firstOffer (overlayOffer matrixOf read store .double) read.doubleHops unavailable with
    | (unavailable, some value) => (unavailable, some value)
    | (unavailable, none) =>
        firstOffer (rawOffer matrixOf read store .double) read.doubleHops.reverse unavailable

/-- The read, once the overlays of the hops have nothing. -/
def graphRest (unavailable : Bool) : Except String (VtValue P × String) :=
  if read.hops.any (lacksValue matrixOf read store) then .error read.unavailable
  else
    match graphTail matrixOf read store unavailable with
    | (_, none) => .error read.unavailable
    | (unavailable, some value) =>
        .ok (if read.doubleHops.isEmpty then value else narrowed narrow value,
          if unavailable then read.elementUnavailable else "")

/-- `RigExecReadGraphTypedRead`: the value and the diagnostic. -/
def readGraphTypedRead : Except String (VtValue P × String) :=
  if read.effective ≠ noValue then
    match store[read.effective]? with
    | none => .error read.unavailable
    | some state =>
        match store.readSceneGraphValue matrixOf read.effective false with
        | none => .error state.error
        | some value => .ok (value, state.error)
  else
    match firstOffer (overlayOffer matrixOf read store read.type) read.hops false with
    | (_, some value) => .ok (value, "")
    | (unavailable, none) =>
        graphRest narrow matrixOf read store
          (unavailable || (decide (0 ≤ read.element) && !read.base))

/-- The body of `RigExecSceneEffectiveReadOp`; `boxedCount` is the cardinality of a value. -/
def runEffectiveRead (cmp : TypedSame P) (boxedCount : VtValue P → Nat) (output : ValueId) :
    Option (TypedValueStore P) :=
  match readGraphTypedRead narrow matrixOf read store with
  | .error diagnostic => store.publishSource cmp output .empty true true 0 diagnostic
  | .ok (selected, diagnostic) =>
      store.publishSource cmp output selected false true (boxedCount selected) diagnostic

end

end RigExec.Scene
