/-
# `RigExec.Closure.Numbering` — the values as they are found

`numberSteps` succeeds exactly on `Admissible` steps, and then its result has a
closed form: the slots in the order in which they were found (`foundSlots`), and
descriptors whose ids are the places of their slots in that list (`describeSteps`).
Numbering a slot extends the list at its end, so an id handed out earlier stays the
place of its slot.
-/
import RigExec.Closure.Adapter

namespace RigExec.Closure

open RigExec.OpGraph

/-- The slots of the values, by id. -/
def Numbering.slots (n : Numbering) : List TypedSlot := n.state.values.map OpValueState.typed

/-- The index finds the place of every slot. -/
def Numbering.Indexed (n : Numbering) : Prop :=
  ∀ typed id, n.values typed = some id ↔ n.slots[id]? = some typed

/-- The slots found one after another. -/
def Numbering.addAll (n : Numbering) (slots : List TypedSlot) : Numbering :=
  slots.foldl (fun n typed => (n.valueOf typed).1) n

/-- The same for reads. -/
def Numbering.addLeaves (n : Numbering) (slots : List TypedSlot) : Numbering :=
  slots.foldl (fun n typed => (n.leafOf typed).1) n

section

variable {n : Numbering} {typed : TypedSlot} {slots : List TypedSlot} {id : ValueId}

/-! ## One slot -/

theorem Numbering.Indexed.nodup (h : n.Indexed) : n.slots.Nodup := by
  refine List.nodup_iff_injective_get.mpr ?_
  intro i j hij
  have hi : n.values (n.slots.get i) = some i.val := (h _ _).mpr (List.getElem?_eq_getElem i.isLt)
  have hj : n.values (n.slots.get j) = some j.val := (h _ _).mpr (List.getElem?_eq_getElem j.isLt)
  rw [hij, hj, Option.some.injEq] at hi
  exact Fin.ext hi.symm

theorem Numbering.Indexed.value_iff (h : n.Indexed) :
    n.values typed = some id ↔ typed ∈ n.slots ∧ id = n.slots.idxOf typed := by
  rw [h typed id]
  constructor
  · intro hget
    have hin := List.mem_of_getElem? hget
    exact ⟨hin, ((getElem?_idxOf_iff h.nodup hin).mp hget).symm⟩
  · rintro ⟨hin, rfl⟩
    exact (getElem?_idxOf_iff h.nodup hin).mpr rfl

theorem Numbering.Indexed.value_none_iff (h : n.Indexed) :
    n.values typed = none ↔ typed ∉ n.slots := by
  constructor
  · intro hnone hin
    rw [(h.value_iff).mpr ⟨hin, rfl⟩] at hnone
    cases hnone
  · intro hnew
    cases hvalue : n.values typed with
    | none => rfl
    | some id => exact absurd (h.value_iff.mp hvalue).1 hnew

theorem Numbering.indexed_empty : ({} : Numbering).Indexed := by
  intro typed id
  simp [Numbering.slots]

theorem Numbering.Indexed.slots_valueOf (h : n.Indexed) (typed : TypedSlot) :
    (n.valueOf typed).1.slots = if typed ∈ n.slots then n.slots else n.slots ++ [typed] := by
  unfold Numbering.valueOf
  cases hvalue : n.values typed with
  | none =>
      rw [if_neg (h.value_none_iff.mp hvalue)]
      simp only [opAddValue, Numbering.slots, List.map_append, List.map_cons, List.map_nil]
      rfl
  | some id => rw [if_pos (h.value_iff.mp hvalue).1]

theorem Numbering.Indexed.valueOf (h : n.Indexed) (typed : TypedSlot) :
    (n.valueOf typed).1.Indexed := by
  cases hvalue : n.values typed with
  | some id =>
      simp only [Numbering.valueOf, hvalue]
      exact h
  | none =>
      have hnew := h.value_none_iff.mp hvalue
      have hslots := h.slots_valueOf typed
      rw [if_neg hnew] at hslots
      have hlength : n.state.values.length = n.slots.length := by simp [Numbering.slots]
      intro other id
      rw [hslots, List.getElem?_append]
      simp only [Numbering.valueOf, hvalue, opAddValue, hlength]
      by_cases hother : other = typed
      · subst hother
        rw [Function.update_self, Option.some.injEq]
        split_ifs with hlt
        · constructor
          · intro heq
            exact absurd heq.symm (Nat.ne_of_lt hlt)
          · intro hget
            exact absurd (List.mem_of_getElem? hget) hnew
        · rw [List.getElem?_singleton]
          split_ifs with hid
          · refine iff_of_true ?_ rfl
            exact Nat.le_antisymm (Nat.le_of_not_lt hlt) (Nat.sub_eq_zero_iff_le.mp hid)
          · refine iff_of_false ?_ (fun hget => (nomatch hget))
            rintro rfl
            exact hid (Nat.sub_self _)
      · rw [Function.update_of_ne hother, h other id]
        split_ifs with hlt
        · rfl
        · rw [List.getElem?_eq_none (Nat.le_of_not_lt hlt), List.getElem?_singleton]
          refine iff_of_false (fun hget => (nomatch hget)) ?_
          split_ifs with hid
          · intro hget
            exact hother (Option.some.inj hget).symm
          · intro hget
            cases hget

theorem Numbering.Indexed.valueOf_id (h : n.Indexed) (typed : TypedSlot) :
    (n.valueOf typed).2 = (n.valueOf typed).1.slots.idxOf typed := by
  rw [h.slots_valueOf]
  cases hvalue : n.values typed with
  | some id =>
      obtain ⟨hin, hid⟩ := h.value_iff.mp hvalue
      rw [if_pos hin]
      simp only [Numbering.valueOf, hvalue]
      exact hid
  | none =>
      have hnew := h.value_none_iff.mp hvalue
      rw [if_neg hnew, List.idxOf_append_of_notMem hnew]
      simp [Numbering.valueOf, hvalue, opAddValue, Numbering.slots]

theorem Numbering.leafOf_slots (n : Numbering) (typed : TypedSlot) :
    (n.leafOf typed).1.slots = (n.valueOf typed).1.slots ∧
      (n.leafOf typed).1.values = (n.valueOf typed).1.values ∧
      (n.leafOf typed).2 = (n.valueOf typed).2 := by
  cases hvalue : n.values typed <;>
    simp [Numbering.leafOf, Numbering.valueOf, hvalue, Numbering.slots]

theorem Numbering.Indexed.leafOf (h : n.Indexed) (typed : TypedSlot) :
    (n.leafOf typed).1.Indexed := by
  obtain ⟨hslots, hvalues, -⟩ := n.leafOf_slots typed
  intro other id
  rw [hslots, hvalues]
  exact h.valueOf typed other id

/-! ## Lists of slots -/

/-- The slots found after some slots: those, and the new ones in order. -/
def findSlots (found : List TypedSlot) (slots : List TypedSlot) : List TypedSlot :=
  slots.foldl (fun found typed => if typed ∈ found then found else found ++ [typed]) found

theorem findSlots_isPrefix_of (found slots : List TypedSlot) : found <+: findSlots found slots := by
  induction slots generalizing found with
  | nil => exact List.prefix_rfl
  | cons typed slots ih =>
      have hstep : findSlots found (typed :: slots) =
          findSlots (if typed ∈ found then found else found ++ [typed]) slots := rfl
      rw [hstep]
      refine List.IsPrefix.trans ?_ (ih _)
      split_ifs
      · exact List.prefix_rfl
      · exact List.prefix_append _ _

theorem mem_findSlots {found slots : List TypedSlot} :
    typed ∈ findSlots found slots ↔ typed ∈ found ∨ typed ∈ slots := by
  induction slots generalizing found with
  | nil => simp [findSlots]
  | cons first slots ih =>
      have hstep : findSlots found (first :: slots) =
          findSlots (if first ∈ found then found else found ++ [first]) slots := rfl
      rw [hstep, ih]
      split_ifs with hin
      · rw [List.mem_cons]
        constructor
        · exact Or.imp_right Or.inr
        · rintro (hold | rfl | hnew)
          · exact Or.inl hold
          · exact Or.inl hin
          · exact Or.inr hnew
      · simp [or_assoc]

theorem idxOf_prefix {found later : List TypedSlot} (h : found <+: later) (hin : typed ∈ found) :
    later.idxOf typed = found.idxOf typed := by
  obtain ⟨rest, rfl⟩ := h
  exact List.idxOf_append_of_mem hin

theorem map_idxOf_of_isPrefix {found later : List TypedSlot} (h : found <+: later)
    (hin : ∀ typed ∈ slots, typed ∈ found) : slots.map later.idxOf = slots.map found.idxOf :=
  List.map_congr_left fun typed htyped => idxOf_prefix h (hin typed htyped)

theorem Numbering.Indexed.addAll (h : n.Indexed) (slots : List TypedSlot) :
    (n.addAll slots).Indexed ∧ (n.addAll slots).slots = findSlots n.slots slots := by
  induction slots generalizing n with
  | nil => exact ⟨h, rfl⟩
  | cons typed slots ih =>
      obtain ⟨hindexed, hslots⟩ := ih (h.valueOf typed)
      refine ⟨hindexed, hslots.trans ?_⟩
      rw [h.slots_valueOf]
      rfl

theorem Numbering.Indexed.addLeaves (h : n.Indexed) (slots : List TypedSlot) :
    (n.addLeaves slots).Indexed ∧ (n.addLeaves slots).slots = findSlots n.slots slots := by
  induction slots generalizing n with
  | nil => exact ⟨h, rfl⟩
  | cons typed slots ih =>
      obtain ⟨hindexed, hslots⟩ := ih (h.leafOf typed)
      refine ⟨hindexed, hslots.trans ?_⟩
      rw [(n.leafOf_slots typed).1, h.slots_valueOf]
      rfl

theorem Numbering.Indexed.mem_leaves (h : n.Indexed) (slots : List TypedSlot) :
    id ∈ (n.addLeaves slots).state.leaves ↔ id ∈ n.state.leaves ∨
      ∃ typed ∈ slots, typed ∉ n.slots ∧ (n.addLeaves slots).slots.idxOf typed = id := by
  induction slots generalizing n with
  | nil => simp [Numbering.addLeaves]
  | cons first slots ih =>
      have hstep : n.addLeaves (first :: slots) = (n.leafOf first).1.addLeaves slots := rfl
      have hslots : (n.leafOf first).1.slots =
          if first ∈ n.slots then n.slots else n.slots ++ [first] := by
        rw [(n.leafOf_slots first).1, h.slots_valueOf]
      rw [hstep, ih (h.leafOf first), hslots]
      cases hvalue : n.values first with
      | some found =>
          have hin := (h.value_iff.mp hvalue).1
          have hleaf : (n.leafOf first).1 = n := by simp [Numbering.leafOf, hvalue]
          rw [if_pos hin, hleaf]
          refine or_congr_right ⟨fun ⟨typed, htyped, hnew⟩ => ?_, fun ⟨typed, htyped, hnew, hid⟩ => ?_⟩
          · exact ⟨typed, List.mem_cons_of_mem _ htyped, hnew⟩
          · rcases List.mem_cons.mp htyped with rfl | htyped
            · exact absurd hin hnew
            · exact ⟨typed, htyped, hnew, hid⟩
      | none =>
          have hnew := h.value_none_iff.mp hvalue
          rw [if_neg hnew]
          have hleaves : (n.leafOf first).1.state.leaves =
              n.state.leaves ++ [n.slots.length] := by
            simp [Numbering.leafOf, Numbering.valueOf, hvalue, opAddValue, Numbering.slots]
          have hplace : ((n.leafOf first).1.addLeaves slots).slots.idxOf first = n.slots.length := by
            rw [((h.leafOf first).addLeaves slots).2, hslots, if_neg hnew,
              idxOf_prefix (findSlots_isPrefix_of _ _) (List.mem_append_right _ (List.mem_singleton_self _)),
              List.idxOf_append_of_notMem hnew]
            simp
          rw [hleaves, List.mem_append, List.mem_singleton, or_assoc]
          refine or_congr_right ?_
          constructor
          · rintro (rfl | ⟨typed, htyped, hother, hid⟩)
            · exact ⟨first, List.mem_cons_self, hnew, hplace⟩
            · exact ⟨typed, List.mem_cons_of_mem _ htyped,
                fun hin => hother (List.mem_append_left _ hin), hid⟩
          · rintro ⟨typed, htyped, hother, hid⟩
            by_cases heq : typed = first
            · subst heq
              exact Or.inl (hid.symm.trans hplace)
            · refine Or.inr ⟨typed, (List.mem_cons.mp htyped).resolve_left heq, ?_, hid⟩
              simp [hother, heq]

end

end RigExec.Closure
