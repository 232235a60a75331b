/-
# `RigExec.Lib.OrderedMap` — ordered maps as ascending rows

An `OrderedMap` is its rows in the order in which they are walked, and carries the
proof that they ascend; so a key has one row, and two maps with the same keys list
them alike.  Comparing two maps is comparing their rows one by one, with whatever
`==` the values have: it need not be reflexive.
-/
import RigExec.Lib.SortedList

namespace Lib

/-- Rows by ascending key. -/
structure OrderedMap (κ α : Type) [LinearOrder κ] where
  rows : List (κ × α)
  ascending : Ascending (rows.map Prod.fst)

namespace OrderedMap

variable {κ α : Type} [LinearOrder κ]

instance : EmptyCollection (OrderedMap κ α) := ⟨[], List.Pairwise.nil⟩

instance [BEq α] : BEq (OrderedMap κ α) := ⟨fun m n => m.rows == n.rows⟩

variable (m : OrderedMap κ α)

def size : Nat := m.rows.length

def keys : List κ := m.rows.map Prod.fst

def find? (k : κ) : Option α :=
  (m.rows.find? fun row => row.1 = k).map Prod.snd

theorem keys_nodup : m.keys.Nodup := m.ascending.nodup

theorem mem_rows_iff {m : OrderedMap κ α} {k : κ} {a : α} :
    (k, a) ∈ m.rows ↔ m.find? k = some a := by
  constructor
  · intro hin
    obtain ⟨row, hrow⟩ : ∃ row, m.rows.find? (fun row => row.1 = k) = some row := by
      rw [← Option.isSome_iff_exists, List.find?_isSome]
      exact ⟨(k, a), hin, decide_eq_true rfl⟩
    have hkey : row.1 = k := by simpa using List.find?_some hrow
    have hsame : row = (k, a) :=
      List.inj_on_of_nodup_map m.keys_nodup (List.mem_of_find?_eq_some hrow) hin hkey
    rw [find?, hrow, hsame]
    rfl
  · intro h
    obtain ⟨row, hrow, rfl⟩ := Option.map_eq_some_iff.mp h
    have hkey : row.1 = k := by simpa using List.find?_some hrow
    rw [← hkey]
    exact List.mem_of_find?_eq_some hrow

theorem mem_keys_iff {m : OrderedMap κ α} {k : κ} : k ∈ m.keys ↔ ∃ a, m.find? k = some a := by
  rw [keys, List.mem_map]
  constructor
  · rintro ⟨⟨key, a⟩, hin, rfl⟩
    exact ⟨a, mem_rows_iff.mp hin⟩
  · rintro ⟨a, ha⟩
    exact ⟨(k, a), mem_rows_iff.mpr ha, rfl⟩

theorem keys_eq_of_beq [BEq α] {m n : OrderedMap κ α} (h : (m == n) = true) : m.keys = n.keys := by
  have hrows : ∀ {rows rows' : List (κ × α)}, (rows == rows') = true →
      rows.map Prod.fst = rows'.map Prod.fst := by
    intro rows
    induction rows with
    | nil =>
        intro rows' h
        cases rows' with
        | nil => rfl
        | cons row rows' => cases h
    | cons row rows ih =>
        intro rows' h
        cases rows' with
        | nil => cases h
        | cons row' rows' =>
            rw [List.cons_beq_cons, Bool.and_eq_true] at h
            have hkey := (Bool.and_eq_true_iff.mp h.1).1
            rw [List.map_cons, List.map_cons, eq_of_beq hkey, ih h.2]
  exact hrows h

theorem size_eq_of_beq [BEq α] {m n : OrderedMap κ α} (h : (m == n) = true) : m.size = n.size := by
  have hkeys := congrArg List.length (keys_eq_of_beq h)
  rwa [keys, keys, List.length_map, List.length_map] at hkeys

/-! ### Assignment and erasure -/

/-- The rows with one assigned. -/
def insertRow (k : κ) (a : α) : List (κ × α) → List (κ × α)
  | [] => [(k, a)]
  | row :: rows =>
      if k < row.1 then (k, a) :: row :: rows
      else if k = row.1 then (k, a) :: rows
      else row :: insertRow k a rows

theorem keys_insertRow (k : κ) (a : α) (rows : List (κ × α)) :
    (insertRow k a rows).map Prod.fst = insertUnique k (rows.map Prod.fst) := by
  induction rows with
  | nil => rfl
  | cons row rows ih =>
      rw [insertRow, List.map_cons, insertUnique]
      split_ifs with hlt heq
      · rfl
      · rw [heq]
        rfl
      · rw [List.map_cons, ih]

/-- `m[k] = a`. -/
def insert (k : κ) (a : α) : OrderedMap κ α where
  rows := insertRow k a m.rows
  ascending := by
    rw [keys_insertRow]
    exact ascending_insertUnique m.ascending

/-- The rows of which `p` holds. -/
def filter (p : κ → α → Bool) (m : OrderedMap κ α) : OrderedMap κ α where
  rows := m.rows.filter fun row => p row.1 row.2
  ascending := m.ascending.sublist (List.filter_sublist.map Prod.fst)

/-- `m.erase(k)`. -/
def erase (k : κ) : OrderedMap κ α := m.filter fun k' _ => k' ≠ k

/-- Every value is replaced. -/
def mapValues {β : Type} (f : κ → α → β) (m : OrderedMap κ α) : OrderedMap κ β where
  rows := m.rows.map fun row => (row.1, f row.1 row.2)
  ascending := by
    rw [List.map_map]
    exact m.ascending

theorem ext_find? {m n : OrderedMap κ α} (h : ∀ k, m.find? k = n.find? k) : m = n := by
  have hnodup : ∀ m : OrderedMap κ α, m.rows.Nodup := fun m => m.keys_nodup.of_map
  have hperm : m.rows.Perm n.rows := by
    refine (List.perm_ext_iff_of_nodup (hnodup m) (hnodup n)).mpr ?_
    rintro ⟨k, a⟩
    rw [mem_rows_iff, mem_rows_iff, h]
  have hrows : m.rows = n.rows :=
    hperm.eq_of_pairwise (fun _ _ _ _ hlt hgt => absurd hlt (lt_asymm hgt))
      (List.pairwise_map.mp m.ascending) (List.pairwise_map.mp n.ascending)
  cases m
  cases n
  cases hrows
  rfl

theorem find?_insertRow (k k' : κ) (a : α) (rows : List (κ × α)) :
    (insertRow k a rows).find? (fun row => row.1 = k') =
      if k' = k then some (k, a) else rows.find? fun row => row.1 = k' := by
  have hhead : ∀ rows : List (κ × α), ((k, a) :: rows).find? (fun row => row.1 = k') =
      if k' = k then some (k, a) else rows.find? fun row => row.1 = k' := by
    intro rows
    rw [List.find?_cons]
    by_cases heq : k' = k
    · simp [heq]
    · simp [heq, Ne.symm heq]
  induction rows with
  | nil => exact hhead []
  | cons row rows ih =>
      by_cases hlt : k < row.1
      · rw [insertRow, if_pos hlt]
        exact hhead _
      by_cases hsame : k = row.1
      · rw [insertRow, if_neg hlt, if_pos hsame, hhead]
        by_cases heq : k' = k
        · rw [if_pos heq, if_pos heq]
        · rw [if_neg heq, if_neg heq, List.find?_cons_of_neg]
          simpa [← hsame] using Ne.symm heq
      · rw [insertRow, if_neg hlt, if_neg hsame, List.find?_cons, List.find?_cons, ih]
        by_cases heq : row.1 = k'
        · have hne : k' ≠ k := fun h => hsame (h.symm.trans heq.symm)
          rw [if_neg hne, if_neg hne]
        · rw [decide_eq_false heq]

theorem find?_insert (k k' : κ) (a : α) :
    (m.insert k a).find? k' = if k' = k then some a else m.find? k' := by
  rw [find?, insert, find?_insertRow]
  split <;> rfl

theorem find?_filter (p : κ → α → Bool) (m : OrderedMap κ α) (k : κ) :
    (m.filter p).find? k = (m.find? k).filter (p k) := by
  refine Option.ext fun a => ?_
  rw [← mem_rows_iff, filter, List.mem_filter, mem_rows_iff, Option.filter_eq_some_iff]

theorem find?_erase (k k' : κ) :
    (m.erase k).find? k' = if k' = k then none else m.find? k' := by
  rw [erase, find?_filter]
  by_cases heq : k' = k
  · rw [if_pos heq, Option.filter_eq_none_iff]
    simp [heq]
  · rw [if_neg heq]
    cases m.find? k' with
    | none => rfl
    | some a => simp [heq]

theorem find?_mapValues {β : Type} (f : κ → α → β) (m : OrderedMap κ α) (k : κ) :
    (m.mapValues f).find? k = (m.find? k).map (f k) := by
  rw [find?, mapValues, List.find?_map, find?, Option.map_map, Option.map_map]
  show ((m.rows.find? fun row => row.1 = k).map fun row => f row.1 row.2) =
    (m.rows.find? fun row => row.1 = k).map fun row => f k row.2
  refine Option.map_congr fun row hrow => ?_
  have hkey : row.1 = k := by simpa using List.find?_some hrow
  rw [hkey]

theorem insert_insert (k : κ) (a b : α) :
    (m.insert k a).insert k b = m.insert k b := by
  refine ext_find? fun k' => ?_
  rw [find?_insert, find?_insert, find?_insert]
  split <;> rfl

theorem insert_self {m : OrderedMap κ α} {k : κ} {a : α} (h : m.find? k = some a) :
    m.insert k a = m := by
  refine ext_find? fun k' => ?_
  rw [find?_insert]
  split
  · rename_i heq
    rw [heq, h]
  · rfl

theorem erase_insert {m : OrderedMap κ α} {k : κ} (a : α) (h : m.find? k = none) :
    (m.insert k a).erase k = m := by
  refine ext_find? fun k' => ?_
  rw [find?_erase, find?_insert]
  split
  · rename_i heq
    rw [heq, h]
  · rfl

end OrderedMap

theorem length_eq_of_beq {α : Type} [BEq α] {l m : List α} (h : (l == m) = true) :
    l.length = m.length := by
  induction l generalizing m with
  | nil =>
      cases m with
      | nil => rfl
      | cons b m => cases h
  | cons a l ih =>
      cases m with
      | nil => cases h
      | cons b m =>
          rw [List.cons_beq_cons, Bool.and_eq_true] at h
          rw [List.length_cons, List.length_cons, ih h.2]

theorem filterMap_keys_sublist {ρ σ κ : Type} {key : ρ → κ} {key' : σ → κ} {pick : ρ → Option σ}
    (h : ∀ row picked, pick row = some picked → key' picked = key row) (rows : List ρ) :
    ((rows.filterMap pick).map key').Sublist (rows.map key) := by
  induction rows with
  | nil => exact List.Sublist.slnil
  | cons row rows ih =>
      rw [List.filterMap_cons, List.map_cons]
      cases hpick : pick row with
      | none => exact ih.cons _
      | some picked =>
          simp only [List.map_cons, h row picked hpick]
          exact ih.cons_cons _

end Lib
