/-
# `RigExec.Baked.PoseVersions` — the check of the bound pose versions

A pose slot has versions: the one its compose writes, and one for each write-back of a commit.  The
tables behind the steps name, for every read of a frame, the version it is bound to.

    entries         who writes which version, in the order in which the check records them
    bindings        the versions that a step's tables bind its reads to
    checkBinding    one binding against the recorded writers

The tables are those that the check looks into, with the fields it looks at.
-/
import RigExec.Baked.Accepted

namespace RigExec.Baked

/-! ## Tables -/

/-- `RigExecBakedComposeGroup`. -/
structure ComposeGroup where
  begin_ : Int
  end_ : Int

/-- `RigExecBakedCommit::AncestorRead`. -/
structure AncestorRead where
  fin : Nat
  base : Nat

/-- `RigExecBakedCommit`. -/
structure Commit where
  solverOutput : Bool := false
  slots : List Int := []
  /-- (descendant, closest revised ancestor). -/
  propagate : List (Int × Int) := []
  split : Bool := false
  slotReads : List Nat := []
  slotWrites : List Nat := []
  slotBaseWrites : List Nat := []
  descendantReads : List Nat := []
  closestReads : List Nat := []
  descendantWrites : List Nat := []
  descendantBaseWrites : List Nat := []
  slotCarry : List Nat := []
  slotBaseCarry : List Nat := []
  descendantCarry : List Nat := []
  descendantBaseCarry : List Nat := []
  sourceReads : List Nat := []
  worldUpRead : Nat := 0
  targetRead : Nat := 0
  targetReads : List Nat := []
  effectorRead : Nat := 0
  effectorAncestors : List AncestorRead := []
  poleReads : List Nat := []
  poleAncestors : List (List AncestorRead) := []
  sourceAncestors : List (List AncestorRead) := []
  worldUpAncestors : List AncestorRead := []

structure Constraint where
  sources : List Int := []
  target : Int := -1
  worldUpObject : Int := -1
  effector : Int := -1
  poleObjects : List Int := []

structure Solver where
  controlReads : List Nat := []
  start : Int := -1
  startRead : Nat := 0
  root : Int := -1
  rootRead : Nat := 0
  mid : Int := -1
  midRead : Nat := 0
  tip : Int := -1
  tipRead : Nat := 0
  pole : Int := -1
  poleRead : Nat := 0
  spaceSlot : Int := -1
  spaceRead : Int := -1
  restReads : List Nat := []
  restIsLive : List Bool := []

/-- `ProviderRefresh`, with the reads of its carries. -/
structure ProviderRefresh where
  baseRead : Nat
  finRead : Nat
  carries : List AncestorRead
  baseValue : Nat
  currentValue : Nat
  priorConstraints : List (Nat × Nat)

structure PoseInterpolator where
  driverSlot : Int
  parentSlot : Int

/-- `RigExecBakedFrameRecord`. -/
structure FrameRecord where
  slot : Int
  commit : Int
  position : Int
  version : Nat
  mover : String

/-- A program, with its pose tables. -/
structure PoseProgram extends Program where
  /-- The texts of `paths`. -/
  pathText : Nat → String
  /-- `fin.size()` and `base.size()`. -/
  finSize : Nat
  baseSize : Nat
  finLast : List Nat
  baseLast : List Nat
  composeGroups : List ComposeGroup
  commits : List Commit
  /-- The constraint slot of each walk step. -/
  walkSteps : List Int
  constraints : List Constraint
  solvers : List Solver
  providerRefreshes : List ProviderRefresh
  /-- `providerValues.values.size()`. -/
  providerValueCount : Nat
  poseInterpolators : List PoseInterpolator
  frameRecords : List FrameRecord

/-- An index that is one of `n`: `i >= 0 && size_t(i) < n`. -/
def within (i : Int) (n : Nat) : Bool := decide (0 ≤ i) && decide (i.toNat < n)

/-- The entry of a table that an `int` names. -/
def entryAt {α : Type} (table : List α) (i : Int) : Option α :=
  if i < 0 then none else table[i.toNat]?

/-- `uint32_t(i)`. -/
def uint32 (i : Int) : Nat := (i % 0x100000000).toNat

def isCommitStep : StepKind → Bool
  | .solverCommit | .constraint | .commitDelta | .propagateChunk | .commitApply => true
  | _ => false

/-! ## Who writes a version -/

/-- A version that a step writes, and the slot it is a version of. -/
structure Record where
  domain : SlotDomain
  entry : Nat
  step : Nat
  slot : Int
  deriving DecidableEq

/-- What the check comes across: a version that is written, or a `FrameMatrix` step. -/
inductive Entry where
  | version (record : Record)
  | frame (step : Nat) (object : Int)

/-- What has been recorded. -/
structure Recorded where
  written : List Record
  /-- The step of each frame record. -/
  frameSteps : List (Nat × Nat)
  lines : List String

section

variable (P : PoseProgram)

/-- A domain's number of entries. -/
def PoseProgram.sizeOf (domain : SlotDomain) : Nat :=
  if domain = .poseFin then P.finSize else P.baseSize

/-- A version in both domains. -/
def bothVersions (entry step : Nat) (slot : Int) : List Entry :=
  [.version ⟨.poseFin, entry, step, slot⟩, .version ⟨.poseBase, entry, step, slot⟩]

/-- What the first loop comes across at one step. -/
def stepEntries (index : Nat) : List Entry :=
  let step := P.stepAt index
  if step.kind = .frameMatrix then [.frame index step.object]
  else if step.kind = .composeSubtree then
    match entryAt P.composeGroups step.object with
    | none => []
    | some group =>
        (List.range (group.end_ - group.begin_).toNat).flatMap fun k =>
          bothVersions (uint32 (group.begin_ + k)) index (group.begin_ + k)
  else []

def commitSteps (w : Nat) : List Nat :=
  (List.range P.steps.length).filter fun index =>
    isCommitStep (P.stepAt index).kind && (P.stepAt index).object == w

/-- The write-backs at the sites of a list: in `fin`, and where there is one in `base`. -/
def writeBacks (step : Nat) (finWrites baseWrites : List Nat) (slots : List Int) : List Entry :=
  slots.zipIdx.flatMap fun site =>
    ((finWrites[site.2]?).map fun entry =>
      Entry.version ⟨.poseFin, entry, step, site.1⟩).toList ++
    ((baseWrites[site.2]?).map fun entry =>
      Entry.version ⟨.poseBase, entry, step, site.1⟩).toList

/-- The write-backs of a commit, by its last step. -/
def commitEntries (w : Nat) (commit : Commit) : List Entry :=
  match (commitSteps P w).getLast? with
  | none => []
  | some writer =>
      writeBacks writer commit.slotWrites commit.slotBaseWrites commit.slots ++
        writeBacks writer commit.descendantWrites commit.descendantBaseWrites
          (commit.propagate.map Prod.fst)

/-- The versions that another step declares to write. -/
def declaredEntries (index : Nat) : List Entry :=
  let step := P.stepAt index
  if step.kind = .composeSubtree || isCommitStep step.kind then []
  else
    step.writes.flatMap fun write =>
      if write.domain ≠ .poseFin ∧ write.domain ≠ .poseBase then []
      else write.slots.map fun entry => .version ⟨write.domain, entry, index, -1⟩

/-- All that is recorded, in order. -/
def entries : List Entry :=
  (List.range P.steps.length).flatMap (stepEntries P) ++
    P.commits.zipIdx.flatMap (fun commit => commitEntries P commit.2 commit.1) ++
    (List.range P.steps.length).flatMap (declaredEntries P)

/-- The recorded versions of an entry. -/
def writersOf (written : List Record) (domain : SlotDomain) (entry : Nat) : List Record :=
  written.filter fun record => record.domain = domain && record.entry == entry

/-- One entry is recorded: `record`, or the branch for `FrameMatrix` steps. -/
def note (t : Recorded) : Entry → Recorded
  | .version record =>
      let what := nameStep P.toProgram record.step ++ " writes " ++ record.domain.name ++
        " version " ++ toString record.entry
      if P.sizeOf record.domain ≤ record.entry then
        { t with lines := t.lines ++ [what ++ ", past the table's " ++
          toString (P.sizeOf record.domain) ++ " entries"] }
      else
        match writersOf t.written record.domain record.entry with
        | [] => { t with written := t.written ++ [record] }
        | other :: _ =>
            { t with lines := t.lines ++ [what ++ ", which " ++
              nameStep P.toProgram other.step ++ " writes too"] }
  | .frame step object =>
      if !within object P.frameRecords.length then
        { t with lines := t.lines ++ [nameStep P.toProgram step ++ " names frame record " ++
          toString object ++ " of " ++ toString P.frameRecords.length] }
      else
        match t.frameSteps.lookup object.toNat with
        | some other =>
            { t with lines := t.lines ++ [nameStep P.toProgram step ++
              " evaluates the same frame record as " ++ nameStep P.toProgram other] }
        | none => { t with frameSteps := t.frameSteps ++ [(object.toNat, step)] }

/-- The tables after the first three loops. -/
def recorded : Recorded := (entries P).foldl (note P) ⟨[], [], []⟩

/-! ## What a read is bound to -/

/-- A version that a read is bound to; a carry may name one that its own step writes. -/
structure Binding where
  domain : SlotDomain
  entry : Nat
  carried : Bool
  deriving DecidableEq

def fins (versions : List Nat) : List Binding := versions.map fun v => ⟨.poseFin, v, false⟩

/-- The version of an object, if there is one. -/
def finIf (object : Int) (version : Nat) : List Binding :=
  if 0 ≤ object then fins [version] else []

/-- The versions of the objects of a list. -/
def finsIf (objects : List Int) (versions : List Nat) : List Binding :=
  (objects.zip versions).flatMap fun read => finIf read.1 read.2

def ancestorBindings (reads : List AncestorRead) : List Binding :=
  reads.flatMap fun read => [⟨.poseFin, read.fin, false⟩, ⟨.poseBase, read.base, false⟩]

def solverBindings (solver : Solver) : List Binding :=
  fins solver.controlReads ++ finIf solver.start solver.startRead ++
    finIf solver.root solver.rootRead ++ finIf solver.mid solver.midRead ++
    finIf solver.tip solver.tipRead ++ finIf solver.pole solver.poleRead ++
    finIf solver.spaceSlot (uint32 solver.spaceRead) ++
    fins (((solver.restReads.zip solver.restIsLive).filter (·.2)).map Prod.fst)

def constraintBindings (commit : Commit) (c : Constraint) : List Binding :=
  finsIf c.sources commit.sourceReads ++ finIf c.target commit.targetRead ++
    fins commit.targetReads ++ finIf c.worldUpObject commit.worldUpRead ++
    finIf c.effector commit.effectorRead ++ finsIf c.poleObjects commit.poleReads ++
    commit.sourceAncestors.flatMap ancestorBindings ++
    commit.poleAncestors.flatMap ancestorBindings ++
    ancestorBindings commit.worldUpAncestors ++ ancestorBindings commit.effectorAncestors

/-- The pairs `[first, stop)` of a commit's propagation. -/
def pairBindings (commit : Commit) (first stop : Nat) : List Binding :=
  (List.range' first (stop - first)).flatMap fun k =>
    fins ((commit.descendantReads[k]?).toList ++ (commit.closestReads[k]?).toList)

/-- A descendant's carries: one names what a candidate of the same commit wrote. -/
def descendantCarries (commit : Commit) (domain : SlotDomain) (carries candidateWrites : List Nat) :
    List Binding :=
  carries.zipIdx.map fun carry =>
    { domain := domain
      entry := carry.1
      carried := (commit.slots.zip candidateWrites).any fun candidate =>
        (commit.propagate[carry.2]?).any (fun pair => candidate.1 == pair.1) &&
          candidate.2 == carry.1 }

def commitBindings (step : Step) (commit : Commit) : List Binding :=
  let apply := step.kind = .commitApply ∨
    commit.split = false ∧ (step.kind = .constraint ∨ step.kind = .solverCommit)
  let whole := apply ∧ commit.split = false
  (if step.kind = .constraint then
    match (entryAt P.walkSteps step.object).bind (entryAt P.constraints) with
    | none => []
    | some c => constraintBindings commit c
  else []) ++
  (if step.kind = .commitDelta ∨ whole then fins commit.slotReads else []) ++
  (if step.kind = .propagateChunk then
    if step.part < 0 then []
    else pairBindings commit (step.part.toNat * 64)
      (min (step.part.toNat * 64 + 64) commit.propagate.length)
  else if whole then pairBindings commit 0 commit.propagate.length
  else []) ++
  (if apply then
    fins commit.slotCarry ++ commit.slotBaseCarry.map (fun v => ⟨.poseBase, v, false⟩) ++
      descendantCarries commit .poseFin commit.descendantCarry commit.slotWrites ++
      descendantCarries commit .poseBase commit.descendantBaseCarry commit.slotBaseWrites
  else [])

/-- The last version of a slot. -/
def finLastOf (slot : Int) : List Binding :=
  if within slot P.pathCount then fins (P.finLast[slot.toNat]?).toList else []

/-- The versions that a step's tables bind its reads to. -/
def bindings (reader : Nat) : List Binding :=
  let step := P.stepAt reader
  match step.kind with
  | .solve =>
      match entryAt P.solvers step.object with
      | none => []
      | some solver => solverBindings solver
  | .solverCommit | .constraint | .commitDelta | .propagateChunk | .commitApply =>
      match entryAt P.commits step.object with
      | none => []
      | some commit => commitBindings P step commit
  | .providerRefresh =>
      match entryAt P.providerRefreshes step.object with
      | none => []
      | some refresh =>
          ⟨.poseBase, refresh.baseRead, false⟩ :: ⟨.poseFin, refresh.finRead, false⟩ ::
            refresh.carries.flatMap fun carry =>
              [⟨.poseBase, carry.base, false⟩, ⟨.poseFin, carry.fin, false⟩]
  | .providerMatrix =>
      if within step.object P.pathCount then
        (if step.part ≠ 0 then finLastOf P step.object else []) ++
          (P.baseLast[step.object.toNat]?).toList.map fun v => ⟨.poseBase, v, false⟩
      else []
  | .poseInterpolator =>
      match entryAt P.poseInterpolators step.object with
      | none => []
      | some interp => finLastOf P interp.driverSlot ++ finLastOf P interp.parentSlot
  | _ => []

/-! ## One binding -/

/-- The writer of a version, as it was recorded. -/
def writerOf (domain : SlotDomain) (entry : Nat) : Option Record :=
  (writersOf (recorded P).written domain entry).head?

/-- A version that the reader itself writes, and may carry. -/
def isInternal (reader : Nat) (binding : Binding) : Bool :=
  binding.carried && (writerOf P binding.domain binding.entry).any (fun w => w.step == reader) &&
    covers (P.stepAt reader).writes binding.domain binding.entry

def bindingText (reader : Nat) (binding : Binding) : String :=
  nameStep P.toProgram reader ++ " is bound to " ++ binding.domain.name ++ " version " ++
    toString binding.entry ++
    match writerOf P binding.domain binding.entry with
    | some w => if within w.slot P.pathCount then " of " ++ P.pathText w.slot.toNat else ""
    | none => ""

/-- `check`. -/
def checkBinding (reader : Nat) (binding : Binding) : List String :=
  let line := bindingText P reader binding
  match writerOf P binding.domain binding.entry with
  | none =>
      if !isDeclaredSeedOrExcluded P.toProgram binding.domain binding.entry then
        [line ++ ", which no step writes"]
      else lineIf (covers (P.stepAt reader).reads binding.domain binding.entry = false)
        (line ++ " without declaring it")
  | some w =>
      if isInternal P reader binding then []
      else if reader ≤ w.step then
        [line ++ ", which " ++ nameStep P.toProgram w.step ++ " writes at or after it"]
      else if covers (P.stepAt reader).reads binding.domain binding.entry = false then
        [line ++ " without declaring it"]
      else lineIf ((w.step : Int) ∉ (P.stepAt reader).preds)
        (line ++ " without an edge from its producer " ++ nameStep P.toProgram w.step)

/-! ## The check -/

/-- What else a `ProviderRefresh` step is to declare. -/
def refreshLines (reader : Nat) : List String :=
  let step := P.stepAt reader
  if step.kind ≠ .providerRefresh then []
  else
    match entryAt P.providerRefreshes step.object with
    | none => []
    | some refresh =>
        ([refresh.baseValue, refresh.currentValue].flatMap fun value =>
          lineIf (P.providerValueCount ≤ value ∨
              covers step.reads .spaceValue (value % 0x100000000) = false)
            (nameStep P.toProgram reader ++ " consumes SpaceValue[" ++ toString value ++
              "] without declaring it")) ++
        refresh.priorConstraints.flatMap fun prior =>
          lineIf (covers step.reads .commitTable prior.1 = false)
            (nameStep P.toProgram reader ++ " inspects commit " ++ toString prior.1 ++
              " without declaring it")

/-- What is wrong with the exit of the commit that a frame record reads. -/
def exitLines (reader : Nat) (record : FrameRecord) : List String :=
  let commit := toString record.commit
  match (commitSteps P record.commit.toNat).head? with
  | none =>
      lineIf (isDeclaredSeedOrExcluded P.toProgram .commitTable (uint32 record.commit) = false)
        (nameStep P.toProgram reader ++ " reads the exit of commit " ++ commit ++
          ", which no step writes")
  | some head =>
      if reader ≤ head then
        [nameStep P.toProgram reader ++ " reads the exit of commit " ++ commit ++ ", which " ++
          nameStep P.toProgram head ++ " writes at or after it"]
      else lineIf (covers (P.stepAt reader).reads .commitTable (uint32 record.commit) = false ∨
          (head : Int) ∉ (P.stepAt reader).preds)
        (nameStep P.toProgram reader ++ " reads the exit of commit " ++ commit ++
          " without its declared value and producer edge")

/-- A frame record. -/
def frameLines (r : Nat) (record : FrameRecord) : List String :=
  match (recorded P).frameSteps.lookup r with
  | none =>
      ["frame record " ++ toString r ++ " of " ++
        (if within record.slot P.pathCount then P.pathText record.slot.toNat
          else "slot " ++ toString record.slot) ++
        " after " ++ record.mover ++ " has no FrameMatrix step"]
  | some reader =>
      match entryAt P.commits record.commit with
      | none =>
          [nameStep P.toProgram reader ++ " names commit " ++ toString record.commit ++ " of " ++
            toString P.commits.length]
      | some commit =>
          checkBinding P reader ⟨.poseFin, record.version, false⟩ ++
          (match writerOf P .poseFin record.version with
            | none => []
            | some w =>
                lineIf (0 ≤ w.slot ∧ w.slot ≠ record.slot)
                  (nameStep P.toProgram reader ++ " is bound to PoseFin version " ++
                    toString record.version ++ " of " ++ P.pathText w.slot.toNat ++
                    ", not of the provider it records")) ++
          lineIf (commit.solverOutput = true ∧
              entryAt commit.slots record.position ≠ some record.slot)
            (nameStep P.toProgram reader ++ " reads position " ++ toString record.position ++
              " of commit " ++ toString record.commit ++
              ", which is not the provider it records") ++
          exitLines P reader record

/-- The versions that a step declares to read. -/
def declaredBindings (reader : Nat) : List Binding :=
  (P.stepAt reader).reads.flatMap fun read =>
    if read.domain ≠ .poseFin ∧ read.domain ≠ .poseBase then []
    else read.slots.map fun entry => ⟨read.domain, entry, false⟩

def validatePoseVersions : List String :=
  if P.pathCount = 0 then []
  else if P.finLast.length ≠ P.pathCount ∨ P.baseLast.length ≠ P.pathCount then
    ["the last-version table holds " ++ toString P.finLast.length ++ " PoseFin and " ++
      toString P.baseLast.length ++ " PoseBase entries for " ++ toString P.pathCount ++
      " pose slots"]
  else
    (recorded P).lines ++
    ((List.range P.steps.length).flatMap fun reader =>
      (bindings P reader).flatMap (checkBinding P reader) ++ refreshLines P reader) ++
    (P.frameRecords.zipIdx.flatMap fun record => frameLines P record.2 record.1) ++
    (List.range P.steps.length).flatMap fun reader =>
      (declaredBindings P reader).flatMap (checkBinding P reader)

end

end RigExec.Baked
