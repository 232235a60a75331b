/-
# `RigExec.PointBlocks.Model` — the vertex groups of a point chain

A vertex group publishes an immutable run of points under a content version.
The run lives in a buffer held by `shared_ptr`s: two of the group's own, the
published ref, and whatever refs readers and program clones keep.

    Heap          buffers by number; a number is never used twice
    PointsRef     a run of a buffer, and the count on it
    GroupState    one writer's slot: what it publishes, its two own buffers,
                  and a speculative chunk's kept result
    World         every group of every program, and the refs readers hold

`use_count()` is the number of handles to a buffer in the world.  A point is its
bits, so equal lists of points are what `memcmp` takes for equal.  Versions are
64-bit counters of publications, and do not wrap in a history that can be run.

Next to a group's state the world keeps what a history needs: the scratch buffer
its writer is filling, the versions and points it has published and computed so
far, and the points of its last publication since a reset.
-/
import RigExec.Lib.Machine
import Mathlib.Data.Fin.Basic

namespace RigExec.PointBlocks

variable {Point : Type}

/-! ## Buffers and refs -/

/-- The buffers, by number; `next` is the first number not given out. -/
structure Heap (Point : Type) where
  buffers : Nat → List Point := fun _ => []
  next : Nat := 0

/-- `RigExecPointsRef`: the owner, and where its points lie in the owner's buffer. -/
structure PointsRef where
  owner : Option Nat := none
  start : Nat := 0
  count : Nat := 0
deriving DecidableEq

namespace Heap

variable (heap : Heap Point)

def points (ref : PointsRef) : List Point :=
  match ref.owner with
  | none => []
  | some buffer => ((heap.buffers buffer).drop ref.start).take ref.count

/-- The points of a handle. -/
def bytes : Option Nat → List Point
  | none => []
  | some buffer => heap.buffers buffer

def store (buffer : Nat) (points : List Point) : Heap Point :=
  { heap with buffers := Function.update heap.buffers buffer points }

/-- `make_shared`. -/
def allocate (points : List Point) : Nat × Heap Point :=
  (heap.next, { heap.store heap.next points with next := heap.next + 1 })

def whole (buffer : Nat) : PointsRef where
  owner := some buffer
  count := (heap.buffers buffer).length

end Heap

/-! ## One group -/

/-- `RigExecGroupSource`; `none` is `kRigExecNoGroupSource`. -/
structure GroupSource where
  slot : Option Int := none
  version : Nat := 0
deriving DecidableEq

/-- `RigExecGroupState`; an index of -1 is `none`. -/
structure GroupState where
  published : PointsRef := {}
  version : Nat := 0
  ran : Bool := false
  passedFrom : GroupSource := {}
  own : Fin 2 → Option Nat := fun _ => none
  ownPublished : Option (Fin 2) := none
  ownComputed : Option (Fin 2) := none
  computedVersion : Nat := 0
  computedRan : Bool := false

namespace GroupState

variable (state : GroupState)

/-- The handles of a state: its own buffers and the published owner. -/
def handles : List Nat :=
  (state.own 0).toList ++ (state.own 1).toList ++ state.published.owner.toList

/-- A chunk ran but its fuse did not: the kept result is forgotten. -/
def forgetComputed : GroupState :=
  if state.ownPublished.isSome ∧ state.ownComputed.isSome ∧
      state.ownPublished ≠ state.ownComputed then
    { state with
      ownComputed := none
      computedRan := false }
  else state

/-- The own indices that are neither published nor kept. -/
def free : List (Fin 2) :=
  [0, 1].filter fun k => state.ownPublished ≠ some k ∧ state.ownComputed ≠ some k

/-- Whether an own buffer has no other holder. -/
def unique (useCount : Nat → Nat) (k : Fin 2) : Bool :=
  match state.own k with
  | none => false
  | some buffer => useCount buffer == 1

/-- The candidate of `RigExecGroupScratch`: a free buffer nobody else holds, or the first free
one. -/
def candidate (useCount : Nat → Nat) : Fin 2 :=
  match state.free.find? (state.unique useCount) with
  | some k => k
  | none => state.free.headD 0

def setOwn (k : Fin 2) (buffer : Option Nat) : GroupState :=
  { state with own := Function.update state.own k buffer }

end GroupState

/-- `resize`. -/
def resized [Inhabited Point] (points : List Point) (count : Nat) : List Point :=
  points.take count ++ List.replicate (count - points.length) default

def groupScratch [Inhabited Point] (useCount : Nat → Nat) (heap : Heap Point) (state : GroupState)
    (count : Nat) : Fin 2 × Heap Point × GroupState :=
  let state := state.forgetComputed
  let k := state.candidate useCount
  match state.own k, state.unique useCount k with
  | some buffer, true => (k, heap.store buffer (resized (heap.buffers buffer) count), state)
  | _, _ =>
      let made := heap.allocate (List.replicate count default)
      (k, made.2, state.setOwn k (some made.1))

section

variable [DecidableEq Point]

def publishOwnGroup (heap : Heap Point) (state : GroupState) (k : Fin 2) : GroupState :=
  match state.own k with
  | none => state
  | some buffer =>
      if !state.ran ∨ heap.points state.published ≠ heap.buffers buffer then
        { state with
          published := heap.whole buffer
          ownPublished := some k
          passedFrom := {}
          version := state.version + 1
          ran := true }
      else { state with ran := true }

/-- Whether passing a source through moves the version. -/
def passedMoves (heap : Heap Point) (state : GroupState) (source : PointsRef)
    (passedFrom : GroupSource) : Bool :=
  if state.ran then
    if passedFrom.slot ≠ none ∧ state.passedFrom.slot = passedFrom.slot then
      -- one writer's slot: its version moves exactly with its bytes
      state.passedFrom.version ≠ passedFrom.version
    else heap.points state.published ≠ heap.points source
  else true

def publishPassedGroup (heap : Heap Point) (state : GroupState) (source : PointsRef)
    (passedFrom : GroupSource) : GroupState :=
  { state with
    published := source
    passedFrom
    ownPublished := none
    version := if passedMoves heap state source passedFrom then state.version + 1 else state.version
    ran := true }

def noteComputedGroup (heap : Heap Point) (state : GroupState) (k : Fin 2) : GroupState :=
  match state.ownComputed with
  | some kept =>
      if !state.computedRan ∨ heap.bytes (state.own kept) ≠ heap.bytes (state.own k) then
        { state with
          ownComputed := some k
          computedVersion := state.computedVersion + 1
          computedRan := true }
      else state
  | none =>
      { state with
        ownComputed := some k
        computedVersion := state.computedVersion + 1
        computedRan := true }

end

def resetGroup (state : GroupState) : GroupState :=
  { state with
    ran := false
    computedRan := false
    passedFrom := {}
    ownPublished := none
    ownComputed := none }

def dropGroupSpare (state : GroupState) : GroupState :=
  { state with
    own := fun k =>
      if state.ownPublished ≠ some k ∧ state.ownComputed ≠ some k then none else state.own k }

/-! ## Every group of every program -/

/-- A group of a program: its slot number and its state, the scratch its writer is filling, what it
has published and computed, and its last publication since a reset. -/
structure Group (Point : Type) where
  program : Nat
  slot : Int
  state : GroupState := {}
  writing : Option (Fin 2) := none
  publications : List (Nat × List Point) := []
  results : List (Nat × List Point) := []
  previous : Option (List Point) := none

structure World (Point : Type) where
  heap : Heap Point := {}
  groups : List (Group Point) := []
  readers : List PointsRef := []
  programs : Nat := 1

/-- What writers, readers and cloners do. -/
inductive Event (Point : Type) where
  /-- A chunk or a fuse asks for a buffer of so many points. -/
  | scratch (i : Nat) (count : Nat)
  /-- It fills the buffer. -/
  | write (i : Nat) (points : List Point)
  | publishOwn (i : Nat) (k : Fin 2)
  /-- A group of the same program is passed through. -/
  | publishPassed (i source : Nat)
  /-- A ref that no group numbers is passed through. -/
  | publishForeign (i reader : Nat)
  | noteComputed (i : Nat) (k : Fin 2)
  | reset (i : Nat)
  /-- A program is cloned, group by group, and the clone drops its spare buffers. -/
  | clone (program : Nat)
  /-- A reader keeps a published ref, or a part of a ref it holds, or lets one go. -/
  | hold (i : Nat)
  | slice (reader start count : Nat)
  | release (reader : Nat)
  /-- Points come from outside, in a buffer of their own. -/
  | adopt (points : List Point)

namespace World

variable (w : World Point)

/-- Every handle to a buffer. -/
def handles : List Nat :=
  (w.groups.flatMap fun g => g.state.handles) ++ w.readers.flatMap fun ref => ref.owner.toList

/-- `use_count()`. -/
def useCount (buffer : Nat) : Nat := w.handles.count buffer

def setGroup (i : Nat) (g : Group Point) : World Point := { w with groups := w.groups.set i g }

/-- A publication: the state moves, and its version and points are recorded. -/
def publish (i : Nat) (g : Group Point) (state : GroupState) : World Point :=
  w.setGroup i
    { g with
      state
      writing := none
      publications := g.publications ++ [(state.version, w.heap.points state.published)]
      previous := some (w.heap.points state.published) }

def cloned (g : Group Point) : Group Point :=
  { g with
    program := w.programs
    state := dropGroupSpare g.state
    writing := none }

variable [DecidableEq Point] [Inhabited Point]

/-- One operation. -/
def step (w : World Point) : Event Point → Option (World Point)
  | .scratch i count =>
      (w.groups[i]?).map fun g =>
        let handed := groupScratch w.useCount w.heap g.state count
        { w with heap := handed.2.1 }.setGroup i
          { g with
            state := handed.2.2
            writing := some handed.1 }
  | .write i points =>
      (w.groups[i]?).bind fun g =>
        (g.writing.bind g.state.own).map fun buffer =>
          { w with heap := w.heap.store buffer points }
  | .publishOwn i k =>
      (w.groups[i]?).bind fun g =>
        if g.state.own k = none then none
        else some (w.publish i g (publishOwnGroup w.heap g.state k))
  | .publishPassed i source =>
      (w.groups[i]?).bind fun g =>
        (w.groups[source]?).bind fun from_ =>
          if from_.program ≠ g.program then none
          else some (w.publish i g (publishPassedGroup w.heap g.state from_.state.published
            ⟨some from_.slot, from_.state.version⟩))
  | .publishForeign i reader =>
      (w.groups[i]?).bind fun g =>
        (w.readers[reader]?).map fun ref =>
          w.publish i g (publishPassedGroup w.heap g.state ref {})
  | .noteComputed i k =>
      (w.groups[i]?).bind fun g =>
        if g.state.own k = none then none
        else
          let state := noteComputedGroup w.heap g.state k
          some (w.setGroup i
            { g with
              state
              writing := none
              results := g.results ++ [(state.computedVersion, w.heap.bytes (g.state.own k))] })
  | .reset i =>
      (w.groups[i]?).map fun g =>
        w.setGroup i
          { g with
            state := resetGroup g.state
            writing := none
            previous := none }
  | .clone program =>
      some
        { w with
          groups := w.groups ++ (w.groups.filter fun g => g.program = program).map w.cloned
          programs := w.programs + 1 }
  | .hold i =>
      (w.groups[i]?).map fun g => { w with readers := w.readers ++ [g.state.published] }
  | .slice reader start count =>
      (w.readers[reader]?).map fun ref =>
        { w with
          readers := w.readers ++
            [{ ref with
              start := ref.start + start
              count := min count (ref.count - start) }] }
  | .release reader => some { w with readers := w.readers.eraseIdx reader }
  | .adopt points =>
      let made := w.heap.allocate points
      some { w with
        heap := made.2
        readers := w.readers ++ [w.heap.whole made.1] }

/-- A program of fresh groups, one for each slot. -/
def initial (slots : List Int) : World Point where
  groups := slots.dedup.map fun slot => { program := 0, slot }

abbrev history (slots : List Int) (events : List (Event Point)) : Option (World Point) :=
  Lib.run step (initial slots) events

end World

end RigExec.PointBlocks
