/-
# `RigExec.Lib.Sorting` — sorting by an order that its members alone have

A comparison need not be an order on a whole type to sort a list.  Where it is total, transitive
and antisymmetric among the members, insertion sort gives one list for every arrangement of them.
-/
import Mathlib.Data.List.Sort

namespace Lib

variable {α : Type} {r : α → α → Prop} [DecidableRel r] {l l' : List α}

/-- An order among the members of a list. -/
structure OrdersMembers (r : α → α → Prop) (l : List α) : Prop where
  total : ∀ a ∈ l, ∀ b ∈ l, r a b ∨ r b a
  trans : ∀ a ∈ l, ∀ b ∈ l, ∀ c ∈ l, r a b → r b c → r a c
  antisymm : ∀ a ∈ l, ∀ b ∈ l, r a b → r b a → a = b

omit [DecidableRel r] in
theorem OrdersMembers.of_subset (h : OrdersMembers r l') (hsub : ∀ a ∈ l, a ∈ l') :
    OrdersMembers r l where
  total a ha b hb := h.total a (hsub a ha) b (hsub b hb)
  trans a ha b hb c hc := h.trans a (hsub a ha) b (hsub b hb) c (hsub c hc)
  antisymm a ha b hb := h.antisymm a (hsub a ha) b (hsub b hb)

theorem pairwise_orderedInsert {a : α} (h : OrdersMembers r (a :: l)) (hsorted : l.Pairwise r) :
    (l.orderedInsert r a).Pairwise r := by
  induction l with
  | nil => exact List.pairwise_singleton r a
  | cons b l ih =>
      have hb : b ∈ a :: b :: l := List.mem_cons_of_mem a List.mem_cons_self
      have hrest := List.pairwise_cons.mp hsorted
      rw [List.orderedInsert_cons]
      split
      · rename_i hab
        refine List.pairwise_cons.mpr ⟨fun c hc => ?_, hsorted⟩
        rcases List.mem_cons.mp hc with rfl | hlater
        · exact hab
        · exact h.trans a List.mem_cons_self b hb c (List.mem_cons_of_mem a hc) hab
            (hrest.1 c hlater)
      · rename_i hab
        have hba := (h.total a List.mem_cons_self b hb).resolve_left hab
        have hsub : ∀ c ∈ a :: l, c ∈ a :: b :: l := by
          intro c hc
          rcases List.mem_cons.mp hc with rfl | hlater
          · exact List.mem_cons_self
          · exact List.mem_cons_of_mem a (List.mem_cons_of_mem b hlater)
        refine List.pairwise_cons.mpr ⟨fun c hc => ?_, ih (h.of_subset hsub) hrest.2⟩
        rcases List.mem_cons.mp ((List.perm_orderedInsert r a l).mem_iff.mp hc) with rfl | hlater
        · exact hba
        · exact hrest.1 c hlater

theorem pairwise_insertionSort (h : OrdersMembers r l) : (l.insertionSort r).Pairwise r := by
  induction l with
  | nil => exact List.Pairwise.nil
  | cons a l ih =>
      have htail := ih (h.of_subset fun b hb => List.mem_cons_of_mem a hb)
      refine pairwise_orderedInsert (h.of_subset fun b hb => ?_) htail
      rcases List.mem_cons.mp hb with rfl | hsorted
      · exact List.mem_cons_self
      · exact List.mem_cons_of_mem a ((List.perm_insertionSort r l).mem_iff.mp hsorted)

theorem insertionSort_eq_of_perm (h : OrdersMembers r l) (hperm : l.Perm l') :
    l.insertionSort r = l'.insertionSort r := by
  have h' : OrdersMembers r l' := h.of_subset fun a ha => hperm.mem_iff.mpr ha
  have hsorted := (List.perm_insertionSort r l).trans
    (hperm.trans (List.perm_insertionSort r l').symm)
  refine List.Perm.eq_of_pairwise ?_ (pairwise_insertionSort h) (pairwise_insertionSort h') hsorted
  intro a b ha hb hab hba
  exact h.antisymm a ((List.perm_insertionSort r l).mem_iff.mp ha) b
    (hperm.mem_iff.mpr ((List.perm_insertionSort r l').mem_iff.mp hb)) hab hba

end Lib
