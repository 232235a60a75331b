/-
# `RigExec.Standalone.System` — the system over a database

The system owns a database and a runtime that is compiled from it.  A call that fails says why.

    evaluate            the exported identities only
    evaluateResolved    any identity: its rows are laid over the database for the one call
    setValue …          edits; those of the structure ask for another compile

The scene runtime is a parameter: it reads the database and writes to itself alone.
-/
import RigExec.Standalone.Database

namespace RigExec.Standalone

open Lib

variable {Path Value TypeName Time ρ : Type} [LinearOrder Path]

/-! ## The compiled program -/

/-- `UINT64_MAX`, the id of no value. -/
def noId : Nat := 0xffffffffffffffff

/-- `RigExecSceneValueDomain`. -/
inductive ValueDomain where
  | property
  | points
  | pose
  | providerSpace
  | weight
  | solverAggregate
  deriving DecidableEq

/-- The geometry binding of an operation. -/
structure GeometryOp (Path : Type) where
  matrixOutput : Bool
  pointsTarget : Path

/-- The values along a chain of versions. -/
structure Chain where
  base : Nat
  poseBase : Nat
  versions : List Nat

structure Sample where
  raw : Nat
  rawDefault : Nat
  providerRaw : Nat

/-- `RigExecSceneProgram`, as far as the system asks. -/
structure Program (Path : Type) [LinearOrder Path] where
  geometry : List (GeometryOp Path)
  sampleIndex : OrderedMap Path Nat
  samples : List Sample
  chains : Path → ValueDomain → Option Chain
  /-- `providers.FindValue`, by provider and name. -/
  findValue : Path → String → Nat
  readers : OrderedMap Nat (List Nat)
  /-- What each operation of the graph writes. -/
  writes : List (List Nat)
  skippedOperations : List (Path × String)
  cycles : List (List String)

/-- `RigExecStandaloneSceneRuntime`.  A failure leaves its text. -/
structure Runtime (Path Value TypeName Time ρ : Type) [LinearOrder Path] where
  prepare : Database Path Value TypeName → Path → List Time → List Path → ρ → ρ × Option String
  refreshSamples : Database Path Value TypeName → List Time → ρ → ρ × Option String
  evaluate : Nat → ρ → ρ × Option String
  program : ρ → Program Path
  publicValueId : ρ → Path → Nat
  /-- `RigExecReadSceneGraphValue`. -/
  readValue : ρ → Nat → Bool → Bool × Value
  /-- The error text of a value that the runtime has. -/
  valueError : ρ → Nat → Option String

structure ValueAddress (Path : Type) where
  target : Path
  publicComputation : String
  phase : String

/-- `RigExecStandaloneResolvedState`. -/
structure ResolvedState (Value : Type) where
  value : Value
  blocked : Bool

/-- `RigExecStandaloneResult`. -/
structure Result (Value Time : Type) where
  valid : Bool
  generation : UInt64
  time : Time
  values : List Value
  diagnostics : List String

/-- `RigExecStandaloneSystem`. -/
structure System (Path Value TypeName Time ρ : Type) [LinearOrder Path] where
  database : Database Path Value TypeName
  runtime : ρ
  addresses : List (ValueAddress Path)
  times : List Time
  timeKeys : List String
  taps : List Nat
  generation : UInt64
  invalidations : Nat
  compiled : Bool

/-- The constructor. -/
def System.fresh (db : Database Path Value TypeName) (runtime : ρ) :
    System Path Value TypeName Time ρ where
  database := db
  runtime := runtime
  addresses := []
  times := []
  timeKeys := []
  taps := []
  generation := 0
  invalidations := 0
  compiled := false

/-! ## Structural values -/

section Structural

variable (host : Host Path Value TypeName Time) (db : Database Path Value TypeName)

def same (a b : Value) : Bool :=
  match host.encodeInputValue a, host.encodeInputValue b with
  | some x, some y => x == y
  | _, _ => false

/-- The name that a token of an order stands for. -/
def opName (token : String) : String :=
  if startsWith token "!invert!" then String.ofList (token.toList.drop 8) else token

/-- The walk up from a mesh: an owner whose order names the path, before one that resets.  An
absolute path has no more owners than elements. -/
def capturedFrom (path : Path) : Nat → Path → Bool
  | 0, _ => false
  | fuel + 1, owner =>
      if host.isEmpty owner || owner == host.absoluteRootPath then false
      else
        let order := ((db.attributes.find? (host.appendProperty owner "xformOpOrder")).bind
          fun attr => attr.resolved.find? "default").bind host.tokens
        let tokens := order.getD []
        if tokens.any fun token => token != "!resetXformStack!" &&
            owner == host.getPrimPath path && opName token == host.getName path then true
        else if tokens.contains "!resetXformStack!" then false
        else capturedFrom path fuel (host.getParentPath owner)

def projectorCapturedDefault (program : Program Path) (path : Path) : Bool :=
  startsWith (host.getName path) "xformOp:" &&
    program.geometry.any fun op =>
      let mesh := host.getPrimPath op.pointsTarget
      op.matrixOutput && capturedFrom host db path (host.getPathElementCount mesh + 1) mesh

/-- The structural tables that every prim has under the same names. -/
def structuralNames : List String :=
  ["rigExec:jointElements", "rigExec:controlSpace",
    "rigExec:scaleBlend", "rigExec:rotationBlend",
    "rigExec:volumeWeights", "rigExec:restLength", "rigExec:rootTangent",
    "rigExec:operation",
    "rigExec:method", "rigExec:skinMethod", "rigExec:channels", "rigExec:driverChannels",
    "rigExec:inbetweenWeights", "rigExec:evaluationMode",
    "rigExec:orientationMode", "rigExec:poleVectorMode", "rigExec:solverMode",
    "rigExec:aimAxis", "rigExec:worldUpType", "rigExec:spaceLabels",
    "rigExec:rotationFilters", "rigExec:twistAxis", "rigExec:blendShear",
    "rigExec:worldUpRotationOnly", "rigExec:representation", "rigExec:rangePolicy",
    "rigExec:combineMode", "rigExec:falloffProfile", "xformOpOrder"]

def structuralValue (path : Path) (program : Option (Program Path)) : Bool :=
  let type := ((db.prims.find? (host.getPrimPath path)).map (·.type)).getD ""
  let name := host.getName path
  program.any (fun program => projectorCapturedDefault host db program path) ||
    (type == "RigExecTwistDistribution" &&
      (name == "rigExec:weights" || name == "rigExec:count")) ||
    ("Constraint".toList.isSuffixOf type.toList && name == "rigExec:rotationOrder") ||
    type == "RigExecPose" ||
    (type == "RigExecPoseInterpolator" && startsWith name "rigExec:") ||
    (type == "RigExecSpaceSwitch" &&
      (startsWith name "inputs:affect" || name == "inputs:sourceWeights")) ||
    host.externalSchemas.contains type ||
    structuralNames.contains name

end Structural

/-! ## Addresses and readers -/

/-- The value below all versions. -/
def Chain.start (chain : Chain) (domain : ValueDomain) : Nat :=
  if domain = .pose then chain.poseBase else chain.base

def phaseId (program : Program Path) (path : Path) (domain : ValueDomain) (phase : String) : Nat :=
  match program.chains path domain with
  | none => noId
  | some chain =>
      if phase = "base" then chain.start domain
      else chain.versions.getLast?.getD (chain.start domain)

/-- `layout.samples[i]`. -/
def Program.sample? (program : Program Path) (path : Path) : Option Sample :=
  (program.sampleIndex.find? path).bind fun i => program.samples[i]?

def addressId (host : Host Path Value TypeName Time) (program : Program Path)
    (publicValueId : Path → Nat) (address : ValueAddress Path) : Nat :=
  let name := address.publicComputation
  if host.isPropertyPath address.target then
    if name = "computeResolvedValue" then
      ((program.sample? address.target).map (·.raw)).getD noId
    else if name ≠ "" ∧ name ≠ "computeValue" then noId
    else
      let domain : ValueDomain :=
        if host.getName address.target = "points" then .points else .property
      let version := (program.chains address.target domain).bind (·.versions.getLast?)
      match version with
      | some version =>
          if address.phase = "final" then version else publicValueId address.target
      | none => publicValueId address.target
  else if name = "computePointFrame" ∨ name = "computeMatrix" then
    phaseId program address.target .pose address.phase
  else if name = "computePointFrameArray" then
    phaseId program address.target .solverAggregate address.phase
  else if name = "computeWeightPacket" then
    phaseId program address.target .weight address.phase
  else program.findValue address.target name

/-- One value more that is reached. -/
def reachNew (reached : List Nat) (id : Nat) : List Nat :=
  if id ∈ reached then reached else reached ++ [id]

/-- The loop over what is reached: the values that the readers of the `i`th one write are reached
too.  Every value is there once, so that a turn for each written value is enough. -/
def Program.reachFrom (program : Program Path) : Nat → Nat → List Nat → List Nat
  | 0, _, reached => reached
  | fuel + 1, i, reached =>
      match reached[i]? with
      | none => reached
      | some id =>
          let ops := (program.readers.find? id).getD []
          let outs := ops.flatMap fun op => program.writes.getD op []
          program.reachFrom fuel (i + 1) (outs.foldl reachNew reached)

/-- What a sample reaches in the compiled graph. -/
def Program.reachOf (program : Program Path) (sample : Sample) : List Nat :=
  let ids := [sample.raw, sample.rawDefault, sample.providerRaw].filter (· ≠ noId)
  program.reachFrom (program.writes.flatten.length + 4) 0 (ids.foldl reachNew [])

/-! ## `Prepare` and `Evaluate` -/

section Calls

variable (host : Host Path Value TypeName Time) (rt : Runtime Path Value TypeName Time ρ)

/-- What is wrong with a tap. -/
def tapFault (db : Database Path Value TypeName) (address : ValueAddress Path) : Option String :=
  if !db.hasObject host address.target then
    some ("tap provider missing or inactive: " ++ host.getString address.target)
  else if address.phase ≠ "base" ∧ address.phase ≠ "final" then
    some "standalone tap phase must be base or final"
  else if host.isPropertyPath address.target && !count db.attributes address.target then
    some ("tap property is not an attribute: " ++ host.getString address.target)
  else none

/-- The one active rig root, or the pseudo-root. -/
def rigRoot (db : Database Path Value TypeName) : Path :=
  match db.prims.rows.filter fun row => row.2.type == "RigExecRoot" && db.isActive host row.1 with
  | [row] => row.1
  | _ => host.absoluteRootPath

/-- The times of the exported identities, up to the first that is none, and whether all are. -/
def timesOf : List String → List Time × Bool
  | [] => ([], true)
  | key :: keys =>
      match host.codes.time key with
      | none => ([], false)
      | some t => (t :: (timesOf keys).1, (timesOf keys).2)

/-- The taps of the addresses, up to the first that has none. -/
def tapsOf (address : ValueAddress Path → Nat) :
    List (ValueAddress Path) → List Nat × Option (ValueAddress Path)
  | [] => ([], none)
  | first :: rest =>
      if address first = noId then ([], some first)
      else ((address first :: (tapsOf address rest).1), (tapsOf address rest).2)

namespace System

variable (s : System Path Value TypeName Time ρ)

/-- The part of `Prepare` that compiles a database. -/
def compile : System Path Value TypeName Time ρ × Option String :=
  match s.database.validate host with
  | some error => (s, some error)
  | none =>
      let (times, valid) := timesOf host s.database.identities.keys
      let s := { s with
        times := times
        timeKeys := s.database.identities.keys.take times.length }
      if !valid then (s, some "invalid standalone identity")
      else
        let (runtime, error) := rt.prepare s.database (rigRoot host s.database) times
          (s.addresses.map (·.target)) s.runtime
        let s := { s with runtime := runtime }
        match error with
        | some error => (s, some error)
        | none =>
            let (taps, missing) := tapsOf (addressId host (rt.program s.runtime)
              (rt.publicValueId s.runtime)) s.addresses
            let s := { s with taps := taps }
            match missing with
            | some address =>
                (s, some ("standalone computation is unavailable: " ++
                  host.getString address.target ++ " " ++ address.publicComputation))
            | none => ({ s with compiled := true }, none)

/-- `Prepare`: the text of a failure. -/
def prepare : System Path Value TypeName Time ρ × Option String :=
  match s.addresses.findSome? (tapFault host s.database) with
  | some error => (s, some error)
  | none => if s.compiled then (s, none) else s.compile host rt

/-- `Changed`: the taps that an attribute's sample reaches. -/
def changed (path : Path) : System Path Value TypeName Time ρ :=
  if s.compiled then
    match (rt.program s.runtime).sample? path with
    | none => s
    | some sample =>
        let reached := (rt.program s.runtime).reachOf sample
        { s with invalidations :=
            s.invalidations + (s.taps.filter fun tap => reached.contains tap).length }
  else s

/-- A result that is not valid, with its one diagnostic. -/
def failed (t : Time) (diagnostic : String) : Result Value Time where
  valid := false
  generation := 0
  time := t
  values := []
  diagnostics := [diagnostic]

/-- What one tap gives: its value, whether there is one, and what there is to say. -/
def extract (runtime : ρ) (address : ValueAddress Path) (tap : Nat) :
    Value × Bool × List String :=
  let read := rt.readValue runtime tap
    (host.isPrimPath address.target && address.publicComputation == "computeMatrix")
  let found := read.1 && !host.hasNoValue read.2
  (read.2, found,
    (if found then [] else
      ["standalone tap produced no value: " ++ host.getString address.target ++ " " ++
        address.publicComputation]) ++
    ((rt.valueError runtime tap).filter (· ≠ "")).toList)

/-- The result of a run that ended. -/
def extractAll (t : Time) : System Path Value TypeName Time ρ × Result Value Time :=
  let program := rt.program s.runtime
  let taps := (s.addresses.zip s.taps).map fun tap => extract host rt s.runtime tap.1 tap.2
  let valid := taps.all (·.2.1)
  let diagnostics := taps.flatMap (·.2.2) ++
    (program.skippedOperations.map fun skipped => host.getString skipped.1 ++ ": " ++ skipped.2) ++
    (program.cycles.map fun cycle => cycle.foldl (fun text name => text ++ " " ++ name)
      "cyclic graph:")
  let generation := if valid then s.generation + 1 else s.generation
  ({ s with generation := generation },
    { valid := valid
      generation := if valid then generation else 0
      time := t
      values := taps.map (·.1)
      diagnostics := diagnostics })

def evaluate (t : Time) (s : System Path Value TypeName Time ρ) :
    System Path Value TypeName Time ρ × Result Value Time :=
  let key := host.codes.timeKey t
  if key = "" ∨ count s.database.identities key = false then
    (s, failed t "unexported standalone evaluation identity")
  else
    match s.prepare host rt with
    | (s, some error) => (s, failed t error)
    | (s, none) =>
        let (times, valid) := timesOf host s.database.identities.keys
        if !valid then (s, failed t "invalid standalone identity")
        else
          let (runtime, error) := rt.refreshSamples s.database times s.runtime
          let s := { s with runtime := runtime }
          match error with
          | some error => (s, failed t error)
          | none =>
              let (runtime, error) := rt.evaluate (s.database.identities.keys.idxOf key) s.runtime
              let s := { s with runtime := runtime }
              match error with
              | some error => (s, failed t error)
              | none => s.extractAll host rt t

/-! ## `EvaluateResolved` -/

/-- A state that an attribute does not take. -/
def rejects (states : OrderedMap Path (ResolvedState Value)) (path : Path)
    (attr : Attribute Path Value TypeName) : Bool :=
  match states.find? path with
  | none => true
  | some state =>
      (state.blocked && !host.hasNoValue state.value) ||
        (!host.hasNoValue state.value && !host.hasType state.value attr.type)

/-- A state that differs from the structure that was compiled. -/
def differs (db : Database Path Value TypeName) (program : Program Path)
    (states : OrderedMap Path (ResolvedState Value)) (path : Path)
    (attr : Attribute Path Value TypeName) : Bool :=
  structuralValue host db path (some program) &&
    (states.find? path).any fun state =>
      !same host state.value ((attr.resolved.find? "default").getD host.noValue) ||
        state.blocked != count attr.blockedIdentities "default"

/-- A row at an identity, and whether it is blocked. -/
def assign (identity : String) (value : Value) (blocked : Bool)
    (attr : Attribute Path Value TypeName) : Attribute Path Value TypeName :=
  { attr with
    resolved := attr.resolved.insert identity value
    blockedIdentities := if blocked then attr.blockedIdentities.insert identity ()
      else attr.blockedIdentities.erase identity }

/-- The states laid over the rows. -/
def overlay (identity : String) (states : OrderedMap Path (ResolvedState Value))
    (db : Database Path Value TypeName) : Database Path Value TypeName :=
  { db with
    attributes := db.attributes.mapValues fun path attr =>
      let state := (states.find? path).getD ⟨host.noValue, false⟩
      assign identity state.value state.blocked attr
    identities := db.identities.insert identity () }

/-- What `Restore` keeps of the rows. -/
def previousRows (identity : String) (db : Database Path Value TypeName) :
    OrderedMap Path Value :=
  db.attributes.mapValues fun _ attr => (attr.resolved.find? identity).getD host.noValue

/-- The attributes that are blocked at an identity. -/
def blockedPaths (identity : String) (db : Database Path Value TypeName) : OrderedSet Path :=
  (db.attributes.filter fun _ attr => count attr.blockedIdentities identity).mapValues
    fun _ _ => ()

/-- `~Restore`. -/
def restore (identity : String) (retained : Bool) (previous : OrderedMap Path Value)
    (blocked : OrderedSet Path) (db : Database Path Value TypeName) :
    Database Path Value TypeName :=
  { db with
    attributes := db.attributes.mapValues fun path attr =>
      { attr with
        resolved :=
          if retained then
            attr.resolved.insert identity ((previous.find? path).getD host.noValue)
          else attr.resolved.erase identity
        blockedIdentities :=
          if count blocked path then attr.blockedIdentities.insert identity ()
          else attr.blockedIdentities.erase identity }
    identities := if retained then db.identities else db.identities.erase identity }

/-- `EvaluateResolved`; `none` is the exception of a row that is not there. -/
def evaluateResolved (t : Time) (states : OrderedMap Path (ResolvedState Value))
    (s : System Path Value TypeName Time ρ) :
    System Path Value TypeName Time ρ × Option (Result Value Time) :=
  let identity := host.codes.timeKey t
  if identity = "" ∨ states.size ≠ s.database.attributes.size then
    (s, some (failed t
      "transient evaluation requires a complete resolved-state set and finite time"))
  else
    match s.database.attributes.rows.find? fun row => rejects host states row.1 row.2 with
    | some row => (s, some (failed t ("invalid transient resolved state for " ++
        host.getString row.1)))
    | none =>
        match s.prepare host rt with
        | (s, some error) => (s, some (failed t error))
        | (s, none) =>
            let program := rt.program s.runtime
            match s.database.attributes.rows.find? fun row =>
                differs host s.database program states row.1 row.2 with
            | some row => (s, some (failed t
                ("transient structural state differs from compiled Default: " ++
                  host.getString row.1)))
            | none =>
                let retained := count s.database.identities identity
                if retained && s.database.attributes.rows.any fun row =>
                    !count row.2.resolved identity then
                  (s, none)
                else
                  let previous := previousRows host identity s.database
                  let blocked := blockedPaths identity s.database
                  let laid := s.database.attributes.keys.foldl (changed rt) s
                  let laid := { laid with database := overlay host identity states laid.database }
                  let (s, result) := laid.evaluate host rt t
                  let database := restore host identity retained previous blocked s.database
                  ({ s with database := database }, some result)

/-- `EvaluateResolved` over plain values: an empty one keeps the block of its identity. -/
def evaluateValues (t : Time) (states : OrderedMap Path Value)
    (s : System Path Value TypeName Time ρ) :
    System Path Value TypeName Time ρ × Option (Result Value Time) :=
  let identity := host.codes.timeKey t
  s.evaluateResolved host rt t (states.mapValues fun path value =>
    { value := value
      blocked := host.hasNoValue value && (s.database.attributes.find? path).any fun attr =>
        count attr.blockedIdentities identity })

/-! ## Edits -/

/-- What an edit answers: an exception, the text of a failure, or nothing. -/
inductive Answer where
  | done
  | failed (error : String)
  | raised
  deriving DecidableEq

def addTap (address : ValueAddress Path) (s : System Path Value TypeName Time ρ) :
    System Path Value TypeName Time ρ × Nat :=
  ({ s with addresses := s.addresses ++ [address], compiled := false }, s.addresses.length)

/-- `resolved[identity] = value`. -/
def setRow (identity : String) (value : Value) (attr : Attribute Path Value TypeName) :
    Attribute Path Value TypeName :=
  { attr with resolved := attr.resolved.insert identity value }

/-- A row, and no block where there is a value. -/
def setState (identity : String) (value : Value) (attr : Attribute Path Value TypeName) :
    Attribute Path Value TypeName :=
  if host.hasNoValue value then setRow identity value attr
  else
    { setRow identity value attr with
      blockedIdentities := attr.blockedIdentities.erase identity }

/-- An attribute's record is written. -/
def setAttribute (path : Path) (attr : Attribute Path Value TypeName)
    (s : System Path Value TypeName Time ρ) : System Path Value TypeName Time ρ :=
  { s with database := { s.database with attributes := s.database.attributes.insert path attr } }

/-- `compiled = false`. -/
def uncompiled : System Path Value TypeName Time ρ :=
  { s with compiled := false }

/-- The next call compiles again, if the edit was of the structure. -/
def edited (structural : Bool) (s : System Path Value TypeName Time ρ) :
    System Path Value TypeName Time ρ :=
  if structural then s.uncompiled else s

def setValue (path : Path) (t : Time) (value : Value) (s : System Path Value TypeName Time ρ) :
    System Path Value TypeName Time ρ × Answer :=
  let identity := host.codes.timeKey t
  match s.database.attributes.find? path with
  | none => (s, .failed "attribute or exported identity not found")
  | some attr =>
      if count s.database.identities identity = false then
        (s, .failed "attribute or exported identity not found")
      else if !host.hasNoValue value && !host.hasType value attr.type then
        (s, .failed "value does not match exact native attribute type")
      else
        let held := (attr.resolved.find? identity).getD host.noValue
        -- `resolved[identity]` makes an empty row where there is none
        let s := s.setAttribute path (setRow identity held attr)
        if same host held value then (s, .done)
        else
          let s := (s.changed rt path).setAttribute path
            (setState host identity value (setRow identity held attr))
          let program :=
            if host.codes.isDefault t then some (rt.program s.runtime) else none
          (s.edited (structuralValue host s.database path program), .done)

def setConnections (path : Path) (sources : List Path) (s : System Path Value TypeName Time ρ) :
    System Path Value TypeName Time ρ × Answer :=
  match s.database.attributes.find? path with
  | none => (s, .failed "attribute not found")
  | some attr =>
      if count s.database.prims (host.getPrimPath path) = false then (s, .raised)
      else if s.database.overconnected host path attr.type sources then
        (s, .failed "RigExec scalar attribute requires at most one connection")
      else if sources.any fun source => !count s.database.attributes source then
        (s, .failed "connection needs a retained source attribute")
      else if attr.connections = sources then (s, .done)
      else
        ((s.setAttribute path
          { attr with connections := sources, hasAuthoredConnections := true }).uncompiled, .done)

def setTargets (path : Path) (targets : List Path) (s : System Path Value TypeName Time ρ) :
    System Path Value TypeName Time ρ × Answer :=
  match s.database.relationships.find? path with
  | none => (s, .failed "relationship not found")
  | some relation =>
      if targets.any fun target => !s.database.hasObject host target then
        (s, .failed "relationship target not found")
      else if relation.targets = targets then (s, .done)
      else
        ({ s with
          database := { s.database with
            relationships := s.database.relationships.insert path
              { relation with targets := targets } }
          compiled := false }, .done)

def setPrimActive (path : Path) (active : Bool) (s : System Path Value TypeName Time ρ) :
    System Path Value TypeName Time ρ × Answer :=
  match s.database.prims.find? path with
  | none => (s, .failed "editable prim not found")
  | some prim =>
      if path = host.absoluteRootPath then (s, .failed "editable prim not found")
      else if prim.active = active then (s, .done)
      else
        ({ s with
          database := { s.database with
            prims := s.database.prims.insert path { prim with active := active } }
          compiled := false }, .done)

end System

/-! ## Runs -/

/-- A call of the host. -/
inductive Call (Path Value Time : Type) [LinearOrder Path] where
  | addTap (address : ValueAddress Path)
  | prepare
  | evaluate (t : Time)
  | evaluateResolved (t : Time) (states : OrderedMap Path (ResolvedState Value))
  | evaluateValues (t : Time) (states : OrderedMap Path Value)
  | setValue (path : Path) (t : Time) (value : Value)
  | setConnections (path : Path) (sources : List Path)
  | setTargets (path : Path) (targets : List Path)
  | setPrimActive (path : Path) (active : Bool)

/-- The system after a call. -/
def System.after (s : System Path Value TypeName Time ρ) :
    Call Path Value Time → System Path Value TypeName Time ρ
  | .addTap address => (s.addTap address).1
  | .prepare => (s.prepare host rt).1
  | .evaluate t => (s.evaluate host rt t).1
  | .evaluateResolved t states => (s.evaluateResolved host rt t states).1
  | .evaluateValues t states => (s.evaluateValues host rt t states).1
  | .setValue path t value => (s.setValue host rt path t value).1
  | .setConnections path sources => (s.setConnections host path sources).1
  | .setTargets path targets => (s.setTargets host path targets).1
  | .setPrimActive path active => (s.setPrimActive host path active).1

/-- The system over a database after some calls. -/
def System.run (db : Database Path Value TypeName) (runtime : ρ)
    (calls : List (Call Path Value Time)) : System Path Value TypeName Time ρ :=
  calls.foldl (System.after host rt) (System.fresh db runtime)

end Calls

end RigExec.Standalone
