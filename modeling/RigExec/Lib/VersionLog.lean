/-
# `RigExec.Lib.VersionLog` — a log of numbered contents

A writer that numbers what it publishes keeps its number while the content stays
and takes the next one when it moves.  The log lists what was published, number
and content, oldest first.

    Numbered log v     numbers are at most v, and one number has one content
    Current log v x    what was published under v is x

A writer may also take the next number for no reason; the log stays numbered.
-/
import Mathlib.Data.List.Basic

namespace Lib

variable {X : Type}

/-- Numbers of the log are at most `v`, and no number has two contents. -/
structure Numbered (log : List (Nat × X)) (v : Nat) : Prop where
  le : ∀ a ∈ log, a.1 ≤ v
  unique : ∀ a ∈ log, ∀ b ∈ log, a.1 = b.1 → a.2 = b.2

/-- What the log has under `v` is `x`. -/
def Current (log : List (Nat × X)) (v : Nat) (x : X) : Prop := ∀ a ∈ log, a.1 = v → a.2 = x

theorem numbered_nil (v : Nat) : Numbered ([] : List (Nat × X)) v where
  le _ h := absurd h List.not_mem_nil
  unique _ h := absurd h List.not_mem_nil

theorem current_nil (v : Nat) (x : X) : Current [] v x := by
  intro a h
  exact absurd h List.not_mem_nil

theorem Numbered.again {log : List (Nat × X)} {v : Nat} {x : X} (h : Numbered log v)
    (hx : Current log v x) : Numbered (log ++ [(v, x)]) v where
  le := by
    intro a ha
    rcases List.mem_append.mp ha with ha | ha
    · exact h.le a ha
    · obtain rfl := List.mem_singleton.mp ha
      exact Nat.le_refl v
  unique := by
    intro a ha b hb hab
    rcases List.mem_append.mp ha with ha | ha <;> rcases List.mem_append.mp hb with hb | hb
    · exact h.unique a ha b hb hab
    · obtain rfl := List.mem_singleton.mp hb
      exact hx a ha hab
    · obtain rfl := List.mem_singleton.mp ha
      exact (hx b hb hab.symm).symm
    · rw [List.mem_singleton.mp ha, List.mem_singleton.mp hb]

theorem Current.again {log : List (Nat × X)} {v : Nat} {x : X} (hx : Current log v x) :
    Current (log ++ [(v, x)]) v x := by
  intro a ha hav
  rcases List.mem_append.mp ha with ha | ha
  · exact hx a ha hav
  · rw [List.mem_singleton.mp ha]

theorem Numbered.current_succ {log : List (Nat × X)} {v : Nat} (h : Numbered log v) (x : X) :
    Current log (v + 1) x := by
  intro a ha hav
  have hle := h.le a ha
  omega

theorem Numbered.mono {log : List (Nat × X)} {v v' : Nat} (h : Numbered log v) (hv : v ≤ v') :
    Numbered log v' :=
  ⟨fun a ha => Nat.le_trans (h.le a ha) hv, h.unique⟩

/-- One entry more: the number stays and the content is the current one, or the number is the
next. -/
theorem Numbered.publish {log : List (Nat × X)} {v v' : Nat} {x : X} (h : Numbered log v)
    (hx : v' = v ∧ Current log v x ∨ v' = v + 1) :
    Numbered (log ++ [(v', x)]) v' ∧ Current (log ++ [(v', x)]) v' x := by
  rcases hx with ⟨rfl, hx⟩ | rfl
  · exact ⟨h.again hx, hx.again⟩
  · exact ⟨(h.mono (Nat.le_succ v)).again (h.current_succ x), (h.current_succ x).again⟩

end Lib
