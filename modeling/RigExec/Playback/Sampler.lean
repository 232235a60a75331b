/-
# `RigExec.Playback.Sampler` — feeding the inputs from the stage

A sampler binds the inputs of a reader to the attributes of a stage that hold their types,
and sets them, at each new time, to what the stage holds there.

    UsdStage                 `Stage`: the attributes by path
    UsdAttribute             `Attribute`; a typed `Get` finds values of its type only
    RigExecSampleInputAt     `sampleInputAt`
    Bind, Apply              `Sampler.bind`, `Sampler.apply`

A refused set ends an `Apply` part way: the inputs before it hold the new time's values,
those behind it the old ones, and the sampler still remembers the old time.
-/
import RigExec.Playback.Reader

namespace RigExec.Playback

/-! ## The stage -/

/-- A `UsdAttribute` of the stage. -/
structure Attribute (T : Type) where
  /-- `GetTypeName().GetType()`, where an input can hold it. -/
  type : Option InputTag
  typeName : String
  /-- `Get`, with the value of whatever type the stage holds. -/
  get : SampleTime T → Option Value
  /-- `GetResolveInfo(time).ValueIsBlocked()`. -/
  blocked : SampleTime T → Bool
  /-- `ValueMightBeTimeVarying`. -/
  mightVary : Bool
  steady : mightVary = false → ∀ t t' : T, get (.numeric t) = get (.numeric t')

/-- The attributes by path. -/
abbrev Stage (T : Type) : Type :=
  String → Option (Attribute T)

variable {T : Type}

/-- A typed `Get`. -/
def typedGet (attr : Option (Attribute T)) (tag : InputTag) (time : SampleTime T) :
    Option Value :=
  (attr.bind fun a => a.get time).filter fun value => value.tag = tag

/-- The value of its type that an attribute of the stage holds at a time. -/
def Stage.valueAt (stage : Stage T) (name : String) (tag : InputTag) (time : SampleTime T) :
    Option Value :=
  typedGet (stage name) tag time

/-! ## One input -/

def publishBlocked (attr : Option (Attribute T)) (index : Nat) (time : SampleTime T) :
    Except String (Reader T) → Except String (Reader T)
  | .error error => .error error
  | .ok reader =>
      if reader.canSampleProviderValue index = true then
        reader.setSampleBlocked index ((attr.map fun a => a.blocked time).getD false)
      else .ok reader

def sampleInputAt (attr : Option (Attribute T)) (index : Nat) (name : String)
    (tag : InputTag) (time : SampleTime T) (reader : Reader T) : Except String (Reader T) :=
  if tag = .token ∧ reader.canSampleToken index = true then
    publishBlocked attr index time
      (reader.tokenSample index (typedGet attr .token time))
  else if tag.isArray = true then
    if reader.canSample index = false then reader.resetInput name
    else
      match attr.bind fun a => a.get time with
      | none => publishBlocked attr index time (reader.clearSample index)
      | some value =>
          if value.tag ≠ tag then
            .error (name ++ ": the stage sample is not a " ++ tag.name)
          else if tag = .tokenArray then
            publishBlocked attr index time (reader.setTokenArraySample index value)
          else
            publishBlocked attr index time (reader.setSample index value)
  else
    match typedGet attr tag time with
    | some value =>
        if tag = .token then
          publishBlocked attr index time (reader.setInputToken name value)
        else if reader.canSampleProviderValue index = true then
          publishBlocked attr index time (reader.setScalarSample index value)
        else
          publishBlocked attr index time (reader.setSampledInputAt index value)
    | none =>
        if reader.canSampleProviderValue index = true then
          publishBlocked attr index time (reader.clearScalarSample index)
        else
          publishBlocked attr index time (reader.clearInputAt index)

/-! ## The sampler -/

structure Bound where
  index : Nat
  name : String
  type : InputTag
  animated : Bool
  isStatic : Bool

/-- `_StaticInput`: not Animated, on an attribute that cannot vary with time. -/
def staticInput (stage : Stage T) (animated : Bool) (name : String) : Bool :=
  !animated && ((stage name).map fun a => !a.mightVary).getD false

/-- The verdict on an input, decided again. -/
def Bound.decideStatic (stage : Stage T) (bound : Bound) : Bound :=
  { bound with isStatic := staticInput stage bound.animated bound.name }

/-- `RigExecInputSampler`.  The list `animated` also holds the static source-backed
inputs. -/
structure Sampler (T : Type) where
  animated : List Bound
  animatedCount : Nat
  warnings : List String
  last : SampleTime T
  sampled : Bool
  staticSkip : Bool
  staticStale : Bool
  lastReads : Nat

/-- The bound input of a slot, or the warning that the stage has no attribute for it. -/
def Slot.binding (stage : Stage T) (slot : Slot) (index : Nat) (animated : Bool)
    (warning : String) : String ⊕ Bound :=
  match stage slot.name with
  | none => .inl (slot.name ++ warning)
  | some attr =>
      if attr.type = some slot.tag then
        .inr ⟨index, slot.name, slot.tag, animated, false⟩
      else .inl (slot.name ++ warning)

/-- The row of a listed scalar: it is resolved, and bound if the file marks it Animated. -/
def Slot.listedRow (stage : Stage T) (slot : Slot) (index : Nat) : List (String ⊕ Bound) :=
  if slot.tag.isArray = true then []
  else
    match stage slot.name with
    | none => [.inl (slot.name ++ ": the stage has no such attribute")]
    | some attr =>
        if attr.type ≠ some slot.tag then
          [.inl (slot.name ++ ": the stage's attribute is a " ++ attr.typeName ++
            ", the input a " ++ slot.tag.name)]
        else if slot.animated = true then
          [.inr ⟨index, slot.name, slot.tag, true, false⟩]
        else []

/-- Whether `EnumerateProviderValues` gives the slot. -/
def Slot.providerValue (slot : Slot) : Bool :=
  slot.providerSource && (slot.sourceBacked || slot.animated) && slot.tag ≠ .token &&
    !slot.tag.isArray

def rowBounds (rows : List (String ⊕ Bound)) : List Bound :=
  rows.filterMap Sum.getRight?

/-- The rows of `Bind`: the listed scalars, the stage arrays, the stage tokens, and the
provider values at slots not bound yet. -/
def bindRows (stage : Stage T) (file : File T) : List (String ⊕ Bound) :=
  let slots := file.slots.zipIdx
  let listed := (slots.take file.listed).flatMap fun (slot, index) => slot.listedRow stage index
  let arrays := (slots.filter fun (slot, _) => slot.stageArray).map fun (slot, index) =>
    slot.binding stage index true ": no matching stage array"
  let tokens := (slots.filter fun (slot, _) => slot.stageToken).map fun (slot, index) =>
    slot.binding stage index true ": no matching stage token"
  let bound := (rowBounds (listed ++ arrays ++ tokens)).map Bound.index
  let providers := (slots.filter fun (slot, index) => slot.providerValue && index ∉ bound).map
    fun (slot, index) =>
      slot.binding stage index slot.animated ": no matching stage provider input"
  listed ++ arrays ++ tokens ++ providers

variable (sampler : Sampler T)

/-- `Bind`, to a stage that is there. -/
def Sampler.bind (stage : Stage T) (file : File T) : Sampler T :=
  let rows := bindRows stage file
  { sampler with
    animated := (rowBounds rows).map (Bound.decideStatic stage)
    animatedCount := (rowBounds rows).countP Bound.animated
    warnings := rows.filterMap Sum.getLeft?
    last := file.bakeTime
    sampled := true
    staticStale := true
    lastReads := 0 }

/-- What `Apply` leaves: it returned false with a reason, or true. -/
structure Outcome (T : Type) where
  reader : Reader T
  sampler : Sampler T
  error : Option String
  sampled : Bool

/-- The loop of `Apply`: the reader, the number of reads, and the reason if one was
refused. -/
def sampleBounds (stage : Stage T) (time : SampleTime T) (skipStatic : Bool) :
    List Bound → Reader T → Nat → Reader T × Nat × Option String
  | [], reader, reads => (reader, reads, none)
  | bound :: bounds, reader, reads =>
      if skipStatic && bound.isStatic then sampleBounds stage time skipStatic bounds reader reads
      else
        match sampleInputAt (stage bound.name) bound.index bound.name bound.type time reader with
        | .ok reader' => sampleBounds stage time skipStatic bounds reader' (reads + 1)
        | .error error => (reader, reads + 1, some error)

section

variable [DecidableEq T]

/-- Whether an `Apply` returns at once. -/
def Sampler.atRest (time : SampleTime T) : Bool :=
  sampler.sampled && time = sampler.last

/-- Whether an `Apply` that samples reads every input and decides again which are static. -/
def Sampler.refreshes (time : SampleTime T) : Bool :=
  sampler.staticStale || time.isDefault != sampler.last.isDefault

/-- The bound inputs an `Apply` goes through. -/
def Sampler.verdicts (stage : Stage T) (time : SampleTime T) : List Bound :=
  if sampler.refreshes time = true then sampler.animated.map (Bound.decideStatic stage)
  else sampler.animated

/-- Whether an `Apply` passes over the static inputs. -/
def Sampler.skips (time : SampleTime T) : Bool :=
  sampler.staticSkip && !sampler.refreshes time

def Sampler.apply (stage : Stage T) (time : SampleTime T) (reader : Reader T) : Outcome T :=
  if sampler.atRest time = true then ⟨reader, sampler, none, false⟩
  else
    match sampleBounds stage time (sampler.skips time) (sampler.verdicts stage time) reader 0 with
    | (reader', reads, some error) =>
        ⟨reader', { sampler with
          animated := sampler.verdicts stage time, lastReads := reads }, some error, false⟩
    | (reader', reads, none) =>
        ⟨reader'.touchAnimatedInputs, { sampler with
          animated := sampler.verdicts stage time, lastReads := reads
          last := time, sampled := true, staticStale := false }, none, true⟩

end

def Sampler.invalidate : Sampler T :=
  { sampler with sampled := false, staticStale := true }

def Sampler.noteStageChanged : Sampler T :=
  { sampler with staticStale := true }

def Sampler.setStaticInputSkip (skip : Bool) : Sampler T :=
  { sampler with staticSkip := skip }

end RigExec.Playback
