/-
# `RigExec.Binary.Budget` — the walk that bounds unpacking

Before a file is verified and unpacked a walk over its type tables charges every table, vector and
string that a field reaches, once for each reference.  The charges may not exceed the buffer.

    budget       the walk, on bounds-checked reads
    children     what an object refers to: no bounds, no budget
    referenced   the tree by the walk's test of whether a field is there
    unpacked     the tree by the test of `UnPack`, the same where vtables have even sizes
    openAligned  version, walk, verifier, unpack, validate

The bytes past the end of a buffer are whatever stands in memory; the walk does not see them.
-/
import RigExec.Lib.Budget
import RigExec.Lib.Bytes
import Mathlib.Data.BitVec

namespace RigExec.Binary

open Lib

/-! ## Type tables -/

/-- `SequenceType`; a struct's table ends in its size. -/
inductive SequenceType where
  | table
  | struct (size : { n : Nat // 0 < n })
  | union
  | enum
  deriving DecidableEq

/-- `ElementaryType`; a sequence has its reference. -/
inductive ElementaryType (ι : Type) where
  | utype
  | bool
  | char
  | uchar
  | short
  | ushort
  | int
  | uint
  | long
  | ulong
  | float
  | double
  | string
  | sequence (ref : ι)
  deriving DecidableEq

structure TypeCode (ι : Type) where
  base : ElementaryType ι
  isRepeating : Bool

/-- `TypeTable`, under the name it is referred to by. -/
structure TypeTable (ι : Type) where
  st : SequenceType
  codes : List (TypeCode ι)

section Types

variable {ι : Type} (types : ι → TypeTable ι)

/-- `isString || isTable`: a value that is stored by its offset. -/
def isReference : ElementaryType ι → Bool
  | .string => true
  | .sequence ref => (types ref).st == .table
  | _ => false

def isUnion : ElementaryType ι → Bool
  | .sequence ref => (types ref).st == .union
  | _ => false

def elementSize : ElementaryType ι → Nat
  | .short | .ushort => 2
  | .int | .uint | .float | .string => 4
  | .long | .ulong | .double => 8
  | .sequence ref =>
      match (types ref).st with
      | .struct size => size.1
      | _ => 4
  | .utype | .bool | .char | .uchar => 1

end Types

/-! ## Objects -/

/-- What a reference leads to. -/
inductive Object (ι : Type) where
  | table (type : ι) (pos : Nat)
  | vector (base : ElementaryType ι) (pos : Nat)
  | string (pos : Nat)
  deriving DecidableEq

/-- A buffer in memory. -/
structure Buffer where
  bytes : Nat → UInt8
  size : Nat

/-- The little-endian number of `n` bytes. -/
def Buffer.read (b : Buffer) (pos n : Nat) : Nat :=
  readLE ((List.range n).map fun i => b.bytes (pos + i)) n

def Buffer.load (b : Buffer) (pos n : Nat) : Option Nat :=
  if b.size < pos ∨ b.size - pos < n then none else some (b.read pos n)

/-- `int32_t`. -/
def int32 (n : Nat) : Int := (BitVec.ofNat 32 n).toInt

/-! ## The walk -/

def maxDepth : Nat := 64

section Walk

variable {ι : Type} (types : ι → TypeTable ι) (load : Nat → Nat → Option Nat) (size : Nat)

def target (pos : Nat) : Option Nat :=
  match load pos 4 with
  | none => none
  | some offset =>
      if offset = 0 ∨ 0x7fffffff < offset then none
      else if pos + offset < size then some (pos + offset) else none

def string (pos : Nat) : Walk (Object ι) :=
  match load pos 4 with
  | none => .refuse
  | some length =>
      if size - pos - 4 ≤ length then .refuse else .charge (.string pos) (4 + length + 1)

/-- A string or a table. -/
def object (table : ι → Nat → Walk (Object ι)) (base : ElementaryType ι) (pos : Nat) :
    Walk (Object ι) :=
  match base with
  | .string => string load size pos
  | .sequence ref => table ref pos
  | _ => .refuse

/-- An element of a vector of offsets. -/
def element (table : ι → Nat → Walk (Object ι)) (base : ElementaryType ι) (pos k : Nat) :
    Walk (Object ι) :=
  match target load size (pos + 4 + 4 * k) with
  | none => .refuse
  | some t => object load size table base t

/-- `_Vector`, and its elements. -/
def vector (table : ι → Nat → Walk (Object ι)) (base : ElementaryType ι) (pos : Nat) :
    Walk (Object ι) :=
  match load pos 4 with
  | none => .refuse
  | some count =>
      if (size - pos - 4) / elementSize types base < count then .refuse
      else
        (Walk.charge (.vector base pos) (4 + count * elementSize types base)).andThen
          (if isReference types base then
            .all (element load size table base pos) (List.range count)
          else .done)

/-- The field of a table: its code, and its number. -/
def field (table : ι → Nat → Walk (Object ι)) (pos vtable vtableSize : Nat)
    (code : TypeCode ι × Nat) : Walk (Object ι) :=
  if isUnion types code.1.base then .refuse
  else if !code.1.isRepeating && !isReference types code.1.base then .done
  else if vtableSize < 4 + 2 * code.2 + 2 then .done
  else
    match load (vtable + (4 + 2 * code.2)) 2 with
    | none => .refuse
    | some entry =>
        if entry = 0 then .done
        else
          match target load size (pos + entry) with
          | none => .refuse
          | some t =>
              if code.1.isRepeating then vector types load size table code.1.base t
              else object load size table code.1.base t

/-- `_Table`, with the levels that are left. -/
def table : Nat → ι → Nat → Walk (Object ι)
  | 0, _, _ => .refuse
  | levels + 1, type, pos =>
      match load pos 4 with
      | none => .refuse
      | some back =>
          let vtable := (pos : Int) - int32 back
          if vtable < 0 then .refuse
          else
            match load vtable.toNat 2, load (vtable.toNat + 2) 2 with
            | some vtableSize, some objectSize =>
                (Walk.charge (.table type pos) (max objectSize 4)).andThen
                  (.all (field types load size (table levels) pos vtable.toNat vtableSize)
                    (types type).codes.zipIdx)
            | _, _ => .refuse

def root (type : ι) : Walk (Object ι) :=
  match target load size 0 with
  | none => .refuse
  | some t => table types load size maxDepth type t

end Walk

/-- `_Budget(buffer, size).Root(type)`. -/
def budget {ι : Type} (types : ι → TypeTable ι) (type : ι) (b : Buffer) :
    Bool × Ledger (Object ι) :=
  root types b.load b.size type ⟨b.size, []⟩

/-! ## Unpacking -/

section Unpacking

variable {ι : Type} (types : ι → TypeTable ι) (b : Buffer)

/-- What the offset at `pos` refers to. -/
def follow (pos : Nat) : Nat := pos + b.read pos 4

def vtableOf (pos : Nat) : Nat := ((pos : Int) - int32 (b.read pos 4)).toNat

/-- The bytes of an object. -/
def Object.size : Object ι → Nat
  | .table _ pos => max (b.read (vtableOf b pos + 2) 2) 4
  | .vector base pos => 4 + b.read pos 4 * elementSize types base
  | .string pos => 4 + b.read pos 4 + 1

/-- The string or table of an offset. -/
def pointee (base : ElementaryType ι) (pos : Nat) : Option (List (Object ι)) :=
  match base with
  | .string => some [.string pos]
  | .sequence ref => some [.table ref pos]
  | _ => none

/-- The walk takes a field to be there if the whole of its entry lies in the vtable. -/
def liesIn (vtableSize i : Nat) : Bool := 4 + 2 * i + 2 ≤ vtableSize

/-- `field < vtsize`, of `GetOptionalFieldOffset`: its entry begins there. -/
def beginsIn (vtableSize i : Nat) : Bool := 4 + 2 * i < vtableSize

variable (isThere : Nat → Nat → Bool)

/-- What a field refers to; the schema has no unions, and nothing is said of one. -/
def fieldRefs (pos : Nat) (code : TypeCode ι × Nat) : Option (List (Object ι)) :=
  let vtable := vtableOf b pos
  let entry := b.read (vtable + (4 + 2 * code.2)) 2
  if isUnion types code.1.base then none
  else if !code.1.isRepeating && !isReference types code.1.base then some []
  else if isThere (b.read vtable 2) code.2 = false then some []
  else if entry = 0 then some []
  else if code.1.isRepeating then some [.vector code.1.base (follow b (pos + entry))]
  else pointee code.1.base (follow b (pos + entry))

/-- What an object refers to. -/
def Object.children : Object ι → Option (List (Object ι))
  | .table type pos => gather (fieldRefs types b isThere pos) (types type).codes.zipIdx
  | .vector base pos =>
      if isReference types base then
        gather (fun k => pointee base (follow b (pos + 4 + 4 * k))) (List.range (b.read pos 4))
      else some []
  | .string _ => some []

/-- The objects that are referred to, from the root, once for each reference. -/
def referenced (levels : Nat) (type : ι) : Option (List (Object ι)) :=
  preorder (Object.children types b liesIn) levels (.table type (follow b 0))

/-- The objects that unpacking makes. -/
def unpacked (levels : Nat) (type : ι) : Option (List (Object ι)) :=
  preorder (Object.children types b beginsIn) levels (.table type (follow b 0))

/-- The vtable of every table that unpacking makes has an even size. -/
def EvenVtables (type : ι) : Prop :=
  ∀ ref pos, LeadsTo (Object.children types b beginsIn) (.table type (follow b 0))
    (.table ref pos) → b.read (vtableOf b pos) 2 % 2 = 0

variable {types b}

theorem fieldRefs_of_even {pos : Nat} (heven : b.read (vtableOf b pos) 2 % 2 = 0)
    (code : TypeCode ι × Nat) :
    fieldRefs types b liesIn pos code = fieldRefs types b beginsIn pos code := by
  have hsame : liesIn (b.read (vtableOf b pos) 2) code.2 =
      beginsIn (b.read (vtableOf b pos) 2) code.2 := by
    refine Bool.eq_iff_iff.mpr ?_
    rw [liesIn, beginsIn, decide_eq_true_iff, decide_eq_true_iff]
    omega
  rw [fieldRefs, fieldRefs, hsame]

theorem unpacked_eq_referenced {type : ι} (heven : EvenVtables types b type) (levels : Nat) :
    unpacked types b levels type = referenced types b levels type := by
  refine (preorder_congr (fun o hleads => ?_) levels).symm
  cases o with
  | table ref pos =>
      exact gather_congr fun code _ => fieldRefs_of_even (heven ref pos hleads) code
  | vector base pos => rfl
  | string pos => rfl

end Unpacking

/-! ## The open path -/

/-- The verifier and what is generated from the schema. -/
structure Generated {ι : Type} (types : ι → TypeTable ι) (type : ι) (File : Type) where
  /-- The version that the root table alone gives. -/
  probe : Buffer → Option Nat
  verify : Buffer → Bool
  /-- `VerifyTableStart`: the size of a vtable is even. -/
  even : ∀ b, verify b = true → EvenVtables types b type
  formatVersion : Buffer → Nat
  unpack : Buffer → File
  validate : File → Option String

def formatReads (version : Nat) : Bool := decide (20 ≤ version) && decide (version ≤ 21)

def versionRefusal (version : Nat) : String :=
  "unsupported .rigexec format version " ++ toString version ++ " (this reader reads " ++
    toString 20 ++ " through " ++ toString 21 ++ "); " ++
    if version < 20 then "re-export: per-group range chains" else "rebake"

def openAligned {ι File : Type} (types : ι → TypeTable ι) (type : ι)
    (fb : Generated types type File) (b : Buffer) : Except String File :=
  if (fb.probe b).any fun version => !formatReads version then
    .error (versionRefusal ((fb.probe b).getD 0))
  else if !(budget types type b).1 then
    .error ("malformed .rigexec: its objects do not fit its bytes " ++
      "(shared, overlapping or out of range)")
  else if !fb.verify b then
    .error "malformed .rigexec: the FlatBuffers verifier refused it"
  else if !formatReads (fb.formatVersion b) then .error (versionRefusal (fb.formatVersion b))
  else
    match fb.validate (fb.unpack b) with
    | some why => .error ("invalid .rigexec: " ++ why)
    | none => .ok (fb.unpack b)

/-! ## Reads -/

section Reads

variable {b b' : Buffer} {pos n v t : Nat}

theorem load_congr (hsize : b'.size = b.size) (hbytes : ∀ i < b.size, b'.bytes i = b.bytes i) :
    b'.load = b.load := by
  funext pos n
  unfold Buffer.load
  rw [hsize]
  split
  · rfl
  · rename_i hin
    refine congrArg (fun bytes => some (readLE bytes n)) (List.map_congr_left fun i hi => ?_)
    have hlt := List.mem_range.mp hi
    exact hbytes (pos + i) (by omega)

theorem read_of_load (h : b.load pos n = some v) : b.read pos n = v := by
  unfold Buffer.load at h
  split at h
  · cases h
  · exact Option.some.inj h

theorem follow_of_target (h : target b.load b.size pos = some t) : follow b pos = t := by
  unfold target at h
  split at h
  · cases h
  · rename_i hload
    split_ifs at h
    rw [follow, read_of_load hload]
    exact Option.some.inj h

end Reads

/-! ## The walk visits what is referred to -/

section Visits

variable {ι : Type} {types : ι → TypeTable ι} {b : Buffer}

theorem string_visits (pos n : Nat) :
    Visits (Object.size types b) (string b.load b.size pos)
      (preorder (Object.children types b liesIn) (n + 1) (.string pos)) := by
  unfold string
  split
  · exact visits_refuse _
  · rename_i length hload
    split
    · exact visits_refuse _
    · refine visits_charge ?_
      rw [Object.size, read_of_load hload]

/-- The walk of tables of some depth visits the trees below them. -/
def TablesVisit (types : ι → TypeTable ι) (b : Buffer) (walk : ι → Nat → Walk (Object ι))
    (n : Nat) : Prop :=
  ∀ type pos, Visits (Object.size types b) (walk type pos)
    (preorder (Object.children types b liesIn) (n + 1) (.table type pos))

variable {walk : ι → Nat → Walk (Object ι)} {n : Nat}

theorem TablesVisit.mono (h : TablesVisit types b walk n) {m : Nat} (hle : n ≤ m) :
    TablesVisit types b walk m :=
  fun type pos => (h type pos).mono fun _ hl => preorder_mono (by omega) hl

theorem object_visits (h : TablesVisit types b walk n) (base : ElementaryType ι) (pos : Nat) :
    Visits (Object.size types b) (object b.load b.size walk base pos)
      ((pointee base pos).bind (gather (preorder (Object.children types b liesIn) (n + 1)))) := by
  cases base with
  | string =>
      rw [object, pointee, Option.bind_some, gather_singleton]
      exact string_visits pos n
  | sequence ref =>
      rw [object, pointee, Option.bind_some, gather_singleton]
      exact h ref pos
  | _ => exact visits_refuse _

theorem element_visits (h : TablesVisit types b walk n) (base : ElementaryType ι) (pos k : Nat) :
    Visits (Object.size types b) (element b.load b.size walk base pos k)
      ((pointee base (follow b (pos + 4 + 4 * k))).bind
        (gather (preorder (Object.children types b liesIn) (n + 1)))) := by
  unfold element
  split
  · exact visits_refuse _
  · rename_i t htarget
    rw [follow_of_target htarget]
    exact object_visits h base t

theorem vector_visits (h : TablesVisit types b walk n) (base : ElementaryType ι) (pos : Nat) :
    Visits (Object.size types b) (vector types b.load b.size walk base pos)
      (preorder (Object.children types b liesIn) (n + 2) (.vector base pos)) := by
  unfold vector
  split
  · exact visits_refuse _
  · rename_i count hload
    have hcount := read_of_load hload
    split
    · exact visits_refuse _
    · have hcost : 4 + count * elementSize types base =
          Object.size types b (.vector base pos) := by rw [Object.size, hcount]
      rw [preorder, Object.children]
      split
      · rw [hcount, gather_gather]
        exact visits_node hcost (visits_all fun k _ => element_visits h base pos k)
      · exact visits_node hcost visits_done

theorem field_visits (h : TablesVisit types b walk n) {pos vtableSize : Nat}
    (hsize : b.read (vtableOf b pos) 2 = vtableSize) (code : TypeCode ι × Nat) :
    Visits (Object.size types b)
      (field types b.load b.size walk pos (vtableOf b pos) vtableSize code)
      ((fieldRefs types b liesIn pos code).bind
        (gather (preorder (Object.children types b liesIn) (n + 2)))) := by
  have hthere : liesIn vtableSize code.2 = false ↔ vtableSize < 4 + 2 * code.2 + 2 := by
    rw [liesIn, decide_eq_false_iff_not, not_le]
  unfold field fieldRefs
  dsimp only
  rw [hsize, if_congr hthere rfl rfl]
  split
  · exact visits_refuse _
  split
  · exact visits_done
  split
  · exact visits_done
  split
  · exact visits_refuse _
  · rename_i entry hload
    rw [read_of_load hload]
    split
    · exact visits_done
    split
    · exact visits_refuse _
    · rename_i t htarget
      rw [follow_of_target htarget]
      split
      · rw [Option.bind_some, gather_singleton]
        exact vector_visits h code.1.base t
      · exact object_visits (h.mono (Nat.le_succ n)) code.1.base t

/-- **A table's walk visits its tree.**  A level of tables is two of objects: a vector may stand
between. -/
theorem table_visits (levels : Nat) :
    TablesVisit types b (table types b.load b.size levels) (2 * levels) := by
  induction levels with
  | zero => exact fun type pos => visits_refuse _
  | succ levels ih =>
      intro type pos
      rw [table]
      split
      · exact visits_refuse _
      rename_i back hback
      dsimp only
      split
      · exact visits_refuse _
      have hvtable : ((pos : Int) - int32 back).toNat = vtableOf b pos := by
        rw [vtableOf, read_of_load hback]
      rw [hvtable]
      split
      · rename_i vtableSize objectSize hsize hobject
        have hcost : max objectSize 4 = Object.size types b (.table type pos) := by
          rw [Object.size, read_of_load hobject]
        rw [preorder, Object.children, gather_gather]
        exact visits_node hcost (visits_all fun code _ => field_visits ih (read_of_load hsize) code)
      · exact visits_refuse _

theorem root_visits (type : ι) :
    Visits (Object.size types b) (root types b.load b.size type)
      (referenced types b (2 * maxDepth + 1) type) := by
  unfold root referenced
  split
  · exact visits_refuse _
  · rename_i t htarget
    rw [follow_of_target htarget]
    exact table_visits maxDepth type t

end Visits

theorem four_le_size {ι : Type} (types : ι → TypeTable ι) (b : Buffer) (o : Object ι) :
    4 ≤ o.size types b := by
  cases o with
  | table type pos => exact le_max_right _ _
  | vector base pos => exact Nat.le_add_right _ _
  | string pos => exact Nat.le_add_right 4 (b.read pos 4 + 1)

/-- **The bounding walk makes unpacking linear.**  The walk sees the bytes of the buffer only; what
it charges takes no more than the buffer, so that it stops after a quarter as many objects as there
are bytes, whatever it answers; if it accepts, what it charged is all that is referred to, once for
each reference; and a file that opens was accepted, and what it charged is all that unpacking
made. -/
theorem budget_linear {ι File : Type} (types : ι → TypeTable ι) (type : ι)
    (fb : Generated types type File) (b : Buffer) :
    let out := budget types type b
    (∀ b' : Buffer, b'.size = b.size → (∀ i < b.size, b'.bytes i = b.bytes i) →
      budget types type b' = out) ∧
    (out.2.charged.map (Object.size types b)).sum ≤ b.size ∧
    4 * out.2.charged.length ≤ b.size ∧
    (out.1 = true → ∀ levels, 2 * maxDepth < levels →
      referenced types b levels type = some out.2.charged) ∧
    ∀ file, openAligned types type fb b = .ok file → out.1 = true ∧
      ∀ levels, 2 * maxDepth < levels → unpacked types b levels type = some out.2.charged := by
  intro out
  obtain ⟨hwithin, hfound⟩ := (@root_visits _ types b type).within b.size
  have hreferenced : out.1 = true → ∀ levels, 2 * maxDepth < levels →
      referenced types b levels type = some out.2.charged :=
    fun hok levels hlevels => preorder_mono hlevels (hfound hok)
  refine ⟨fun b' hsize hbytes => ?_, hwithin, ?_, hreferenced, fun file hopen => ?_⟩
  · show root types b'.load b'.size type ⟨b'.size, []⟩ = root types b.load b.size type ⟨b.size, []⟩
    rw [load_congr hsize hbytes, hsize]
  · have hfour : ∀ l : List (Object ι), 4 * l.length ≤ (l.map (Object.size types b)).sum := by
      intro l
      induction l with
      | nil => exact le_refl 0
      | cons o l ih =>
          have ho := four_le_size types b o
          rw [List.length_cons, List.map_cons, List.sum_cons]
          omega
    exact (hfour _).trans hwithin
  · unfold openAligned at hopen
    split_ifs at hopen with hprobe hbudget hverify
    · have hok : out.1 = true := Bool.of_not_eq_false (by simpa using hbudget)
      refine ⟨hok, fun levels hlevels => ?_⟩
      rw [unpacked_eq_referenced (fb.even b (by simpa using hverify))]
      exact hreferenced hok levels hlevels

/-! ## A file of one string -/

/-- A table with a string. -/
def oneString : Unit → TypeTable Unit := fun _ => ⟨.table, [⟨.string, false⟩]⟩

/-- Its offset, a vtable of six bytes, the table, and the string `ab`. -/
def oneStringBuffer : Buffer where
  bytes i := [12, 0, 0, 0, 0, 0, 6, 0, 8, 0, 4, 0, 6, 0, 0, 0, 4, 0, 0, 0, 2, 0, 0, 0, 97, 98,
    0].getD i 0
  size := 27

theorem children_oneString {b : Buffer} {pos : Nat} {below : List (Object Unit)} {o : Object Unit}
    (hbelow : Object.children oneString b beginsIn (.table () pos) = some below) (ho : o ∈ below) :
    ∃ start, o = .string start := by
  have hrefs : fieldRefs oneString b beginsIn pos (⟨.string, false⟩, 0) = some below :=
    (gather_singleton _ _).symm.trans hbelow
  unfold fieldRefs at hrefs
  dsimp only [isUnion, isReference, pointee] at hrefs
  split_ifs at hrefs
  all_goals cases hrefs
  all_goals first
    | exact absurd ho List.not_mem_nil
    | exact ⟨_, List.mem_singleton.mp ho⟩

/-- A verifier of such files, which looks at the vtable. -/
def oneStringGenerated : Generated oneString () Unit where
  probe _ := none
  verify b := b.read (vtableOf b (follow b 0)) 2 % 2 == 0
  even b heven ref pos hleads := by
    rcases Relation.ReflTransGen.cases_head hleads with heq | ⟨o, ⟨below, hbelow, ho⟩, hrest⟩
    · cases heq
      exact beq_iff_eq.mp heven
    · -- what the table refers to is a string, which refers to nothing
      obtain ⟨start, rfl⟩ := children_oneString hbelow ho
      rcases Relation.ReflTransGen.cases_head hrest with heq | ⟨o, ⟨below, hbelow, ho⟩, -⟩
      · cases heq
      · cases hbelow
        cases ho
  formatVersion _ := 20
  unpack _ := ()
  validate _ := none

/-- The walk accepts it, and unpacking makes the table and the string. -/
theorem budget_linear_oneString :
    budget oneString () oneStringBuffer =
      (true, ⟨12, [.table () 12, .string 20]⟩) ∧
    unpacked oneString oneStringBuffer 129 () = some [.table () 12, .string 20] := by
  have hbudget : budget oneString () oneStringBuffer =
      (true, ⟨12, [.table () 12, .string 20]⟩) := by decide
  have hlinear := budget_linear oneString () oneStringGenerated oneStringBuffer
  rw [hbudget] at hlinear
  have hopens : openAligned oneString () oneStringGenerated oneStringBuffer = .ok () := by decide
  exact ⟨hbudget, (hlinear.2.2.2.2 () hopens).2 129 (by decide)⟩

end RigExec.Binary
