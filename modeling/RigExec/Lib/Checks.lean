/-
# `RigExec.Lib.Checks` — sequences of checks

A check either passes or stops with an error.  A sequence of checks passes exactly where every
check of it does.
-/
import Mathlib.Data.List.Basic

namespace Lib

variable {ε α β : Type}

theorem bind_eq_ok {check : Except ε α} {rest : α → Except ε β} {b : β} :
    (check >>= rest) = .ok b ↔ ∃ a, check = .ok a ∧ rest a = .ok b := by
  cases check with
  | error e =>
      constructor
      · intro h
        cases h
      · rintro ⟨a, h, -⟩
        cases h
  | ok a =>
      constructor
      · intro h
        exact ⟨a, rfl, h⟩
      · rintro ⟨a', h, rest⟩
        cases h
        exact rest

theorem throw_bind_eq_ok {c : Prop} [Decidable c] {e : ε} {rest : Unit → Except ε β} {b : β} :
    (if c then (throw e : Except ε Unit) >>= rest else rest ⟨⟩) = .ok b ↔
      ¬ c ∧ rest ⟨⟩ = .ok b := by
  by_cases bad : c
  · rw [if_pos bad]
    constructor
    · intro h
      cases h
    · intro h
      exact absurd bad h.1
  · rw [if_neg bad]
    exact (and_iff_right bad).symm

theorem forM_eq_ok {check : α → Except ε Unit} {items : List α} :
    items.forM check = .ok ⟨⟩ ↔ ∀ i ∈ items, check i = .ok ⟨⟩ := by
  induction items with
  | nil => simp [pure, Except.pure]
  | cons i rest ih =>
      have first : (i :: rest).forM check = (check i >>= fun _ => rest.forM check) := rfl
      rw [first, bind_eq_ok, List.forall_mem_cons, ← ih]
      constructor
      · rintro ⟨u, here, later⟩
        exact ⟨here, later⟩
      · rintro ⟨here, later⟩
        exact ⟨⟨⟩, here, later⟩

end Lib
