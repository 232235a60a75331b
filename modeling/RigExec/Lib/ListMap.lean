/-
# `RigExec.Lib.ListMap` — ordered maps filled from a list of rows

A loop that fills an ordered map from a list either keeps the first row of a
key or the last one.  `emplaced` and `assigned` are the two maps as lookups, and
`keysOf` is the order in which either one is walked.

    keysOf       depends on the set of keys alone (`keysOf_eq`)
    movedKeys    the keys at which two maps differ, up to a comparison of rows
                 (`mem_movedKeys`)
-/
import RigExec.Lib.SortedList

namespace Lib

variable {ρ κ : Type}

section Lookups

variable [DecidableEq κ]

/-- The row of a key in a map filled by `emplace`: the first one. -/
def emplaced (key : ρ → κ) (rows : List ρ) (k : κ) : Option ρ :=
  rows.find? fun row => key row = k

/-- The row of a key in a map filled by assignment: the last one. -/
def assigned (key : ρ → κ) (rows : List ρ) (k : κ) : Option ρ :=
  rows.reverse.find? fun row => key row = k

theorem emplaced_isSome {key : ρ → κ} {rows : List ρ} {k : κ} :
    (emplaced key rows k).isSome ↔ k ∈ rows.map key := by
  simp [emplaced]

theorem assigned_isSome {key : ρ → κ} {rows : List ρ} {k : κ} :
    (assigned key rows k).isSome ↔ k ∈ rows.map key := by
  simp [assigned]

theorem key_of_assigned {key : ρ → κ} {rows : List ρ} {k : κ} {row : ρ}
    (h : assigned key rows k = some row) : key row = k := by
  simpa using List.find?_some h

theorem emplaced_eq_getElem? (key : ρ → κ) (rows : List ρ) (k : κ) :
    emplaced key rows k = rows[(rows.map key).idxOf k]? := by
  induction rows with
  | nil => rfl
  | cons row rows ih =>
      rw [emplaced, List.find?_cons, List.map_cons, List.idxOf_cons]
      rcases eq_or_ne (key row) k with heq | hne
      · simp [heq]
      · have hfalse : (key row == k) = false := beq_eq_false_iff_ne.mpr hne
        simp only [hne, decide_false, hfalse, cond_false, List.getElem?_cons_succ]
        exact ih

end Lookups

/-! ## The walk -/

/-- The keys of either map, in order. -/
def keysOf [LinearOrder κ] (key : ρ → κ) (rows : List ρ) : List κ := sortUnique (rows.map key)

@[simp] theorem mem_keysOf [LinearOrder κ] {key : ρ → κ} {rows : List ρ} {k : κ} :
    k ∈ keysOf key rows ↔ k ∈ rows.map key := mem_sortUnique

theorem keysOf_eq {σ : Type} [LinearOrder κ] {key : ρ → κ} {key' : σ → κ} {rows : List ρ}
    {rows' : List σ} (h : ∀ k, k ∈ rows.map key ↔ k ∈ rows'.map key') :
    keysOf key rows = keysOf key' rows' :=
  sortUnique_congr h

/-! ## What moved -/

/-- Whether a key's two rows are the same. -/
def sameRow (same : ρ → ρ → Bool) : Option ρ → Option ρ → Bool
  | some a, some b => same a b
  | none, none => true
  | _, _ => false

/-- The two loops that compare a map with a later one: the keys that left or moved, then the keys
that came. -/
def movedKeys (same : ρ → ρ → Bool) (was now : κ → Option ρ) (wasKeys nowKeys : List κ) :
    List κ :=
  wasKeys.filter (fun k => !sameRow same (was k) (now k)) ++
    nowKeys.filter fun k => (was k).isNone

theorem mem_movedKeys {same : ρ → ρ → Bool} {was now : κ → Option ρ} {wasKeys nowKeys : List κ}
    (hwas : ∀ k, k ∈ wasKeys ↔ (was k).isSome) (hnow : ∀ k, k ∈ nowKeys ↔ (now k).isSome)
    {k : κ} : k ∈ movedKeys same was now wasKeys nowKeys ↔ sameRow same (was k)
    (now k) = false := by
  rw [movedKeys, List.mem_append, List.mem_filter, List.mem_filter, hwas, hnow]
  cases was k <;> cases now k <;> simp [sameRow]

end Lib
