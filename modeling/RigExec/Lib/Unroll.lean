/-
# `RigExec.Lib.Unroll` — recursion over the references of a table

A body that asks for the answers at other places is run to a depth.  Over references without a
cycle the answers stop changing once the depth passes the number of places, and then the body's
own equation holds.

    unroll          the body run to a depth, over one answer below
    ReadsBelow      the body asks for places of lower rank alone
    height          how many places are reached from one
-/
import Mathlib.Data.List.Basic
import Mathlib.Logic.Relation

namespace Lib

open Relation (TransGen)

variable {ι α : Type} {step : (ι → α) → ι → α} {stuck : α} {rank : ι → Nat}

/-! ## Depth -/

/-- `step` run to a depth, over `stuck`. -/
def unroll (step : (ι → α) → ι → α) (stuck : α) : Nat → ι → α
  | 0 => fun _ => stuck
  | depth + 1 => step (unroll step stuck depth)

/-- `step` asks for the answers at places of lower rank alone. -/
def ReadsBelow (step : (ι → α) → ι → α) (rank : ι → Nat) : Prop :=
  ∀ id f g, (∀ child, rank child < rank id → f child = g child) → step f id = step g id

theorem unroll_stable (hbelow : ReadsBelow step rank) {id : ι} {depth depth' : Nat}
    (hdepth : rank id < depth) (hdepth' : rank id < depth') :
    unroll step stuck depth id = unroll step stuck depth' id := by
  induction depth generalizing id depth' with
  | zero => exact absurd hdepth (Nat.not_lt_zero _)
  | succ depth ih =>
      cases depth' with
      | zero => exact absurd hdepth' (Nat.not_lt_zero _)
      | succ depth' =>
          refine hbelow id _ _ fun child hchild => ih ?_ ?_
          · exact Nat.lt_of_lt_of_le hchild (Nat.le_of_lt_succ hdepth)
          · exact Nat.lt_of_lt_of_le hchild (Nat.le_of_lt_succ hdepth')

theorem unroll_eq (hbelow : ReadsBelow step rank) {depth : Nat} (hdepth : ∀ id, rank id < depth)
    (id : ι) : unroll step stuck depth id = step (unroll step stuck depth) id := by
  calc unroll step stuck depth id
      = unroll step stuck (depth + 1) id :=
        unroll_stable hbelow (hdepth id) (Nat.lt_succ_of_lt (hdepth id))
    _ = step (unroll step stuck depth) id := rfl

/-! ## Height -/

section

variable {ids : List ι} {refs : ι → ι → Prop}

open Classical in
/-- One more than the number of the listed places reached from a listed one. -/
noncomputable def height (ids : List ι) (refs : ι → ι → Prop) (id : ι) : Nat :=
  if id ∈ ids then (ids.filter fun other => decide (TransGen refs id other)).length + 1 else 0

theorem height_le (id : ι) : height ids refs id ≤ ids.length + 1 := by
  unfold height
  split
  · exact Nat.succ_le_succ (List.length_filter_le _ _)
  · exact Nat.zero_le _

theorem height_lt (hacyclic : ∀ id, ¬ TransGen refs id id) {id child : ι} (hid : id ∈ ids)
    (href : refs id child) : height ids refs child < height ids refs id := by
  classical
  unfold height
  rw [if_pos hid]
  split
  · rename_i hchild
    have hsub : (ids.filter fun other => decide (TransGen refs child other)).Sublist
        (ids.filter fun other => decide (TransGen refs id other)) := by
      refine List.monotone_filter_right ids fun other hother => ?_
      exact decide_eq_true (TransGen.head href (of_decide_eq_true hother))
    refine Nat.succ_lt_succ (Nat.lt_of_le_of_ne hsub.length_le fun heq => ?_)
    have hmem : child ∈ ids.filter fun other => decide (TransGen refs child other) := by
      rw [hsub.eq_of_length heq]
      exact List.mem_filter.mpr ⟨hchild, decide_eq_true (TransGen.single href)⟩
    exact hacyclic child (of_decide_eq_true (List.mem_filter.mp hmem).2)
  · exact Nat.succ_pos _

end

end Lib
