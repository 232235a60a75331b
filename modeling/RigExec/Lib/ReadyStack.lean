/-
# `RigExec.Lib.ReadyStack` — Kahn's sort over a stack

The ready vertices are a stack: the one released last is taken next.  Which vertex is
taken does not matter for what the sort leaves (`BagDraining`), so with no cycle it
orders every vertex after its predecessors.
-/
import RigExec.Lib.LeastOrder

namespace Lib

/-- The ready vertices, taken from the back. -/
def drainStack (succs : Nat → List Nat) (counted : List Int × List Nat) (order : List Nat) :
    List Nat :=
  match _h : counted.2.getLast? with
  | none => order
  | some at_ =>
      drainStack succs ((succs at_).foldl release (counted.1, counted.2.dropLast)) (order ++ [at_])
termination_by counted.1.countP (0 < ·) + counted.2.length
decreasing_by
  have hne : counted.2 ≠ [] := by
    rintro hnil
    rw [hnil] at _h
    cases _h
  have hpos := List.length_pos_iff.mpr hne
  have hlength : counted.2.dropLast.length = counted.2.length - 1 := List.length_dropLast ..
  have := countP_foldl_release_le (succs at_) (counted.1, counted.2.dropLast)
  simp only at this
  omega

section

variable {scope : Nat → Prop} {preds succs : Nat → List Nat} {counted : List Int × List Nat}
  {order : List Nat}

/-- **What the sort leaves**: no vertex is ready any more. -/
theorem BagDraining.drainStack (hl : Links scope preds succs)
    (h : BagDraining scope preds counted order) :
    ∃ counts, BagDraining scope preds (counts, []) (Lib.drainStack succs counted order) := by
  induction counted, order using Lib.drainStack.induct succs with
  | case1 counted order hnone =>
      rw [Lib.drainStack]
      split
      · obtain ⟨counts, bag⟩ := counted
        cases List.getLast?_eq_none_iff.mp hnone
        exact ⟨counts, h⟩
      · rename_i at_ hat
        cases hat.symm.trans hnone
  | case2 counted order at_ hat ih =>
      rw [Lib.drainStack]
      split
      · rename_i hnone
        cases hnone.symm.trans hat
      · rename_i other hother
        cases hother.symm.trans hat
        refine ih (h.take hl ?_)
        obtain ⟨hne, hlast⟩ := List.getLast?_eq_some_iff.mp hat
        rw [hlast]
        rw [List.dropLast_concat]
        exact List.perm_append_singleton at_ hne

end

end Lib
