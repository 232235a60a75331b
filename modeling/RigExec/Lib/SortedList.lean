/-
# `RigExec.Lib.SortedList` — ascending lists without duplicates

`sortUnique l` is what sorting a list and erasing repeated neighbours leaves,
and also what iterating an ordered set of the members of `l` visits.  A
strictly ascending list is determined by its members (`eq_of_mem_iff`), so two
programs that collect the same members in different orders agree as soon as
they normalise with `sortUnique`.
-/
import Mathlib.Order.Defs.LinearOrder
import Mathlib.Data.List.Basic
import Mathlib.Data.List.Sort
import Mathlib.Tactic.Order

namespace Lib

variable {α : Type} [LinearOrder α]

/-- Strictly ascending. -/
abbrev Ascending (l : List α) : Prop := l.Pairwise (· < ·)

/-- Insertion into an ascending list; a member already present is not repeated. -/
def insertUnique (a : α) : List α → List α
  | [] => [a]
  | b :: l => if a < b then a :: b :: l else if a = b then b :: l else b :: insertUnique a l

/-- The members of a list, ascending, each once. -/
def sortUnique (l : List α) : List α := l.foldr insertUnique []

@[simp] theorem mem_insertUnique {a x : α} {l : List α} :
    x ∈ insertUnique a l ↔ x = a ∨ x ∈ l := by
  induction l with
  | nil => simp [insertUnique]
  | cons b l ih =>
      simp only [insertUnique]
      split_ifs with h₁ h₂
      · simp
      · subst h₂; simp
      · simp only [List.mem_cons, ih]; tauto

theorem ascending_insertUnique {a : α} {l : List α} (h : Ascending l) :
    Ascending (insertUnique a l) := by
  induction l with
  | nil => simp [insertUnique]
  | cons b l ih =>
      obtain ⟨hb, hl⟩ := List.pairwise_cons.mp h
      simp only [insertUnique]
      split_ifs with h₁ h₂
      · refine List.pairwise_cons.mpr ⟨fun x hx => ?_, h⟩
        rcases List.mem_cons.mp hx with rfl | hx
        · exact h₁
        · exact lt_trans h₁ (hb x hx)
      · exact h
      · refine List.pairwise_cons.mpr ⟨fun x hx => ?_, ih hl⟩
        rcases mem_insertUnique.mp hx with rfl | hx
        · order
        · exact hb x hx

@[simp] theorem mem_sortUnique {x : α} {l : List α} : x ∈ sortUnique l ↔ x ∈ l := by
  induction l with
  | nil => simp [sortUnique]
  | cons a l ih =>
      simp only [sortUnique, List.foldr_cons, mem_insertUnique, List.mem_cons] at ih ⊢
      rw [ih]

theorem length_insertUnique_le (a : α) (l : List α) :
    (insertUnique a l).length ≤ l.length + 1 := by
  induction l with
  | nil => exact Nat.le_refl 1
  | cons b l ih =>
      simp only [insertUnique]
      split_ifs
      · exact Nat.le_refl _
      · exact Nat.le_succ _
      · exact Nat.succ_le_succ ih

theorem length_sortUnique_le (l : List α) : (sortUnique l).length ≤ l.length := by
  induction l with
  | nil => exact Nat.le_refl 0
  | cons a l ih => exact (length_insertUnique_le a _).trans (Nat.succ_le_succ ih)

theorem ascending_sortUnique (l : List α) : Ascending (sortUnique l) := by
  induction l with
  | nil => exact List.Pairwise.nil
  | cons a l ih => exact ascending_insertUnique ih

theorem Ascending.nodup {l : List α} (h : Ascending l) : l.Nodup :=
  h.imp fun hab => ne_of_lt hab

theorem Ascending.eq_of_mem_iff {l m : List α} (hl : Ascending l) (hm : Ascending m)
    (h : ∀ x, x ∈ l ↔ x ∈ m) : l = m :=
  ((List.perm_ext_iff_of_nodup hl.nodup hm.nodup).mpr h).eq_of_pairwise
    (fun _ _ _ _ hab hba => absurd hab (lt_asymm hba)) hl hm

theorem sortUnique_congr {l m : List α} (h : ∀ x, x ∈ l ↔ x ∈ m) : sortUnique l = sortUnique m :=
  (ascending_sortUnique l).eq_of_mem_iff (ascending_sortUnique m) (by simpa using h)

theorem sortUnique_of_ascending {l : List α} (h : Ascending l) : sortUnique l = l :=
  (ascending_sortUnique l).eq_of_mem_iff h (by simp)

end Lib
