/-
# `RigExec.Lib.Loop` — loops that run until a step has nothing to do

A loop is a partial step function: `step s = none` when the loop has ended in `s`.  It runs
with fuel, and `loop_total` is its rule: an indexed invariant whose index every step makes
smaller gives an end within that index, in a state that still satisfies it.

    loop        the loop with fuel
    Reaches     a state the loop passes through
    trace       the states it passes through, of a loop that ends
-/
import Mathlib.Logic.Relation

namespace Lib

variable {S : Type} {step : S → Option S}

/-- The loop; `none` when the fuel runs out first. -/
def loop (step : S → Option S) : Nat → S → Option S
  | 0, s =>
      match step s with
      | none => some s
      | some _ => none
  | fuel + 1, s =>
      match step s with
      | none => some s
      | some s' => loop step fuel s'

theorem loop_of_none {s : S} (h : step s = none) (fuel : Nat) : loop step fuel s = some s := by
  cases fuel with
  | zero => rw [loop, h]
  | succ fuel => rw [loop, h]

theorem loop_of_some {s s' : S} (h : step s = some s') (fuel : Nat) :
    loop step (fuel + 1) s = loop step fuel s' := by
  rw [loop, h]

/-- The loop passes through `t` when it starts in `s`. -/
def Reaches (step : S → Option S) : S → S → Prop :=
  Relation.ReflTransGen fun s s' => step s = some s'

theorem Reaches.invariant {P : S → Prop} (hstep : ∀ s s', P s → step s = some s' → P s') {s t : S}
    (hs : P s) (h : Reaches step s t) : P t := by
  induction h with
  | refl => exact hs
  | tail _ hlast ih => exact hstep _ _ ih hlast

/-- The states that the loop passes through with some fuel. -/
def trace (step : S → Option S) : Nat → S → List S
  | 0, s => [s]
  | fuel + 1, s => s :: ((step s).map (trace step fuel)).getD []

theorem Reaches.of_mem_trace {fuel : Nat} {s t : S} (h : t ∈ trace step fuel s) :
    Reaches step s t := by
  induction fuel generalizing s with
  | zero => exact List.mem_singleton.mp h ▸ .refl
  | succ fuel ih =>
      rcases List.mem_cons.mp h with rfl | hlater
      · exact .refl
      · cases hnext : step s with
        | none =>
            rw [hnext] at hlater
            cases hlater
        | some s' =>
            rw [hnext] at hlater
            exact .head hnext (ih hlater)

theorem Reaches.mem_trace {fuel : Nat} {s t : S} (h : Reaches step s t)
    (hends : (loop step fuel s).isSome = true) : t ∈ trace step fuel s := by
  induction fuel generalizing s with
  | zero =>
      rcases h.cases_head with rfl | ⟨s', hnext, -⟩
      · exact List.mem_singleton.mpr rfl
      · rw [loop, hnext] at hends
        cases hends
  | succ fuel ih =>
      rcases h.cases_head with rfl | ⟨s', hnext, hrest⟩
      · exact List.mem_cons_self
      · rw [loop_of_some hnext] at hends
        refine List.mem_cons_of_mem _ ?_
        rw [hnext]
        exact ih hrest hends

/-- **The rule of total correctness.** -/
theorem loop_total {P : Nat → S → Prop}
    (hstep : ∀ n s s', P n s → step s = some s' → ∃ m < n, P m s') {fuel n : Nat} {s : S}
    (hs : P n s) (hfuel : n ≤ fuel) :
    ∃ t m, loop step fuel s = some t ∧ step t = none ∧ P m t := by
  induction fuel generalizing n s with
  | zero =>
      unfold loop
      cases hnext : step s with
      | none => exact ⟨s, n, rfl, hnext, hs⟩
      | some s' =>
          obtain ⟨m, hm, -⟩ := hstep n s s' hs hnext
          omega
  | succ fuel ih =>
      unfold loop
      cases hnext : step s with
      | none => exact ⟨s, n, rfl, hnext, hs⟩
      | some s' =>
          obtain ⟨m, hm, hs'⟩ := hstep n s s' hs hnext
          exact ih hs' (by omega)

end Lib
