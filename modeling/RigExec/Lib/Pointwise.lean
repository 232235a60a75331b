/-
# `RigExec.Lib.Pointwise` — loops that rewrite one cell at a time

A state has cells.  A step that rewrites the cell it is given, by what that cell holds, leaves the
others as they are; so a loop over a list without repetition rewrites each cell of the list once,
and a loop over any list does where a second rewriting changes nothing.

A list of the marked cells names each once, and grows as cells are marked (`Lists`).
-/
import Mathlib.Data.List.Nodup

namespace Lib

variable {σ ι β : Type} {view : σ → ι → β} {step : σ → ι → σ} {f : ι → β → β}

theorem foldl_frame {γ : Type} {g : σ → γ} (h : ∀ st i, g (step st i) = g st) (l : List ι)
    (st : σ) : g (l.foldl step st) = g st := by
  induction l generalizing st with
  | nil => rfl
  | cons i l ih => rw [List.foldl_cons, ih, h]

/-- A step rewrites the cell it is given, and no other. -/
structure Rewrites (view : σ → ι → β) (step : σ → ι → σ) (f : ι → β → β) : Prop where
  here : ∀ st i, view (step st i) i = f i (view st i)
  others : ∀ st i j, j ≠ i → view (step st i) j = view st j

theorem Rewrites.foldl_of_notMem (h : Rewrites view step f) {l : List ι} {i : ι} (hi : i ∉ l)
    (st : σ) : view (l.foldl step st) i = view st i := by
  induction l generalizing st with
  | nil => rfl
  | cons a l ih =>
      have hne : i ≠ a := fun heq => hi (heq ▸ List.mem_cons_self)
      have hrest : i ∉ l := fun hmem => hi (List.mem_cons_of_mem a hmem)
      rw [List.foldl_cons, ih hrest, h.others st a i hne]

theorem Rewrites.foldl_of_mem (h : Rewrites view step f) {l : List ι} (hnodup : l.Nodup) {i : ι}
    (hi : i ∈ l) (st : σ) : view (l.foldl step st) i = f i (view st i) := by
  induction l generalizing st with
  | nil => exact absurd hi List.not_mem_nil
  | cons a l ih =>
      obtain ⟨ha, hnodup⟩ := List.nodup_cons.mp hnodup
      rw [List.foldl_cons]
      rcases List.mem_cons.mp hi with rfl | hrest
      · rw [h.foldl_of_notMem ha, h.here]
      · have hne : i ≠ a := fun heq => ha (heq ▸ hrest)
        rw [ih hnodup hrest, h.others st a i hne]

theorem Rewrites.foldl_of_idempotent (h : Rewrites view step f)
    (hidem : ∀ i v, f i (f i v) = f i v) {l : List ι} {i : ι} (hi : i ∈ l) (st : σ) :
    view (l.foldl step st) i = f i (view st i) := by
  induction l generalizing st with
  | nil => exact absurd hi List.not_mem_nil
  | cons a l ih =>
      rw [List.foldl_cons]
      by_cases hrest : i ∈ l
      · rw [ih hrest]
        by_cases heq : i = a
        · rw [heq, h.here, hidem]
        · rw [h.others st a i heq]
      · rcases List.mem_cons.mp hi with rfl | hmem
        · rw [h.foldl_of_notMem hrest, h.here]
        · exact absurd hmem hrest

theorem Rewrites.listed_foldl (h : Rewrites view step f) {listed : σ → List ι}
    {keep : ι → β → Bool}
    (hlist : ∀ st i, listed (step st i) =
      if keep i (view st i) then listed st ++ [i] else listed st)
    {l : List ι} (hnodup : l.Nodup) (st : σ) :
    listed (l.foldl step st) = listed st ++ l.filter fun i => keep i (view st i) := by
  induction l generalizing st with
  | nil => exact (List.append_nil _).symm
  | cons a l ih =>
      obtain ⟨ha, hnodup⟩ := List.nodup_cons.mp hnodup
      have hrest : (l.filter fun i => keep i (view (step st a) i)) =
          l.filter fun i => keep i (view st i) := by
        refine List.filter_congr fun i hi => ?_
        rw [h.others st a i fun heq => ha (heq ▸ hi)]
      rw [List.foldl_cons, ih hnodup, hlist, hrest, List.filter_cons]
      split
      · rw [List.append_assoc, List.singleton_append]
      · rfl

/-! ## Listed marks -/

/-- A list names the cells that are marked, each once. -/
structure Lists (l : List ι) (mark : ι → Bool) : Prop where
  nodup : l.Nodup
  mem_iff : ∀ i, i ∈ l ↔ mark i = true

theorem Lists.mark {l l' : List ι} {mark mark' : ι → Bool} (h : Lists l mark) {i : ι}
    (hothers : ∀ j, j ≠ i → mark' j = mark j) (hkept : mark i = true → mark' i = true)
    (hlist : l' = if mark' i = mark i then l else l ++ [i]) : Lists l' mark' := by
  by_cases hsame : mark' i = mark i
  · rw [hlist, if_pos hsame]
    refine ⟨h.nodup, fun j => ?_⟩
    rw [h.mem_iff j]
    by_cases hj : j = i
    · rw [hj, hsame]
    · rw [hothers j hj]
  · have hbefore : mark i = false := eq_false_of_ne_true fun hi => hsame (by rw [hi, hkept hi])
    have hafter : mark' i = true := eq_true_of_ne_false fun hi => hsame (by rw [hi, hbefore])
    have hnew : i ∉ l := by
      rw [h.mem_iff, hbefore]
      exact Bool.false_ne_true
    rw [hlist, if_neg hsame]
    refine ⟨?_, fun j => ?_⟩
    · exact List.nodup_append.mpr ⟨h.nodup, List.nodup_singleton i, fun a ha b hb heq =>
        hnew (List.mem_singleton.mp hb ▸ heq ▸ ha)⟩
    · rw [List.mem_append, List.mem_singleton, h.mem_iff j]
      by_cases hj : j = i
      · rw [hj, hafter]
        exact ⟨fun _ => rfl, fun _ => .inr rfl⟩
      · rw [hothers j hj]
        exact or_iff_left hj

end Lib
