/-
# `RigExec.Lib.Sweep` — one pass over cells, each from cells done before

A table of cells is filled in one pass: the cell of a vertex is computed from its own
first value and from the cells of vertices the pass has done before.  What the pass
leaves then satisfies the equation of every cell in the finished table (`sweep_eq`).

For the closure of a graph, with the vertices taken in reverse topological order, the
equation is

    T v d  ↔  d = v ∨ ∃ s ∈ succs v, T s d

and its solution is reachability (`reach_of_equation`).
-/
import RigExec.Lib.Countdown

namespace Lib

section

variable {A : Type} {update : List A → Nat → A → A} {deps : Nat → List Nat}

/-- The cells of the listed vertices, updated one after another. -/
def sweep (update : List A → Nat → A → A) (order : List Nat) (cells : List A) : List A :=
  order.foldl (fun cells v => cells.modify v (update cells v)) cells

theorem sweep_append (order more : List Nat) (cells : List A) :
    sweep update (order ++ more) cells = sweep update more (sweep update order cells) :=
  List.foldl_append ..

theorem sweep_of_notMem {order : List Nat} {w : Nat} (hw : w ∉ order) (cells : List A) :
    (sweep update order cells)[w]? = cells[w]? := by
  induction order generalizing cells with
  | nil => rfl
  | cons v order ih =>
      obtain ⟨hne, hrest⟩ := not_or.mp (mt List.mem_cons.mpr hw)
      exact (ih hrest _).trans (List.getElem?_modify_ne _ _ (Ne.symm hne))

/-- **Every cell satisfies its equation in the finished table**, when a cell looks only at cells
done before it. -/
theorem sweep_eq {order : List Nat} {cells : List A}
    (hlocal : ∀ (table table' : List A) (v : Nat) (cell : A),
      (∀ w ∈ deps v, table[w]? = table'[w]?) → update table v cell = update table' v cell)
    (hnodup : order.Nodup)
    (hbefore : ∀ pre v post, order = pre ++ v :: post → ∀ w ∈ deps v, w ∉ v :: post) {v : Nat}
    (hv : v ∈ order) :
    (sweep update order cells)[v]? = cells[v]?.map (update (sweep update order cells) v) := by
  induction order using List.reverseRecOn with
  | nil => cases hv
  | append_singleton order last ih =>
      have hlast : last ∉ order := by
        intro hin
        exact (List.nodup_append.mp hnodup).2.2 last hin last (List.mem_singleton_self _) rfl
      have hstep : sweep update (order ++ [last]) cells =
          (sweep update order cells).modify last (update (sweep update order cells) last) := by
        rw [sweep_append]
        rfl
      have hsame : ∀ w, w ≠ last →
          (sweep update (order ++ [last]) cells)[w]? = (sweep update order cells)[w]? := by
        intro w hw
        rw [hstep]
        exact List.getElem?_modify_ne _ _ (Ne.symm hw)
      have hdeps : ∀ u ∈ order ++ [last], ∀ w ∈ deps u, w ≠ last := by
        intro u hu w hw heq
        obtain ⟨pre, post, hsplit, -⟩ := List.eq_append_cons_of_mem hu
        refine hbefore pre u post hsplit w hw (heq ▸ ?_)
        have hin : last ∈ pre ++ u :: post := hsplit ▸ List.mem_append_right _ (List.mem_singleton_self _)
        rcases List.eq_nil_or_concat post with rfl | ⟨init, final, rfl⟩
        · obtain ⟨-, heq'⟩ := List.append_inj' hsplit rfl
          cases heq'
          exact List.mem_cons_self
        · rw [List.concat_eq_append, ← List.cons_append, ← List.append_assoc] at hsplit
          obtain ⟨-, heq'⟩ := List.append_inj' hsplit rfl
          cases heq'
          simp
      have htable : ∀ u ∈ order ++ [last], ∀ cell,
          update (sweep update (order ++ [last]) cells) u cell =
            update (sweep update order cells) u cell := by
        intro u hu cell
        exact hlocal _ _ u cell fun w hw => hsame w (hdeps u hu w hw)
      rcases List.mem_append.mp hv with hin | hin
      · have hne : v ≠ last := fun heq => hlast (heq ▸ hin)
        rw [hsame v hne, ih (List.nodup_append.mp hnodup).1 ?_ hin]
        · refine Option.map_congr fun cell _ => (htable v hv cell).symm
        · intro pre u post hsplit w hw hmem
          refine hbefore pre u (post ++ [last]) (by rw [hsplit]; simp) w hw ?_
          rw [← List.cons_append]
          exact List.mem_append_left _ hmem
      · cases List.mem_singleton.mp hin
        rw [hstep, List.getElem?_modify_eq, sweep_of_notMem hlast, ← hstep]
        exact Option.map_congr fun cell _ => (htable v hv cell).symm

theorem sweep_reverse_eq (deps : Nat → List Nat) {order : List Nat} (cells : List A)
    (hlocal : ∀ (table table' : List A) (v : Nat) (cell : A),
      (∀ w ∈ deps v, table[w]? = table'[w]?) → update table v cell = update table' v cell)
    (hnodup : order.Nodup)
    (hafter : ∀ pre v post, order = pre ++ v :: post → ∀ w ∈ deps v, w ∉ pre ∧ w ≠ v) {v : Nat}
    (hv : v ∈ order) :
    (sweep update order.reverse cells)[v]? =
      cells[v]?.map (update (sweep update order.reverse cells) v) := by
  refine sweep_eq hlocal (List.nodup_reverse.mpr hnodup) ?_ (List.mem_reverse.mpr hv)
  intro pre u post hsplit w hw hmem
  have hforward : order = post.reverse ++ u :: pre.reverse := by
    have hback := congrArg List.reverse hsplit
    rwa [List.reverse_reverse, List.reverse_append, List.reverse_cons, List.append_assoc] at hback
  obtain ⟨hpost, hne⟩ := hafter _ u _ hforward w hw
  rcases List.mem_cons.mp hmem with heq | hin
  · exact hne heq
  · exact hpost (List.mem_reverse.mpr hin)

end

section

variable {succs preds : Nat → List Nat} {order : List Nat} {T : Nat → Nat → Prop}

theorem of_reach {scope : Nat → Prop} (hsuccs : ∀ v, scope v → ∀ s ∈ succs v, scope s)
    (hT : ∀ v, scope v → ∀ d, d = v ∨ (∃ s ∈ succs v, T s d) → T v d) {v d : Nat} (hv : scope v)
    (hreach : Relation.ReflTransGen (fun v s => s ∈ succs v) v d) : T v d := by
  induction hreach using Relation.ReflTransGen.head_induction_on with
  | refl => exact hT d hv d (Or.inl rfl)
  | head hedge _ ih => exact hT _ hv d (Or.inr ⟨_, hedge, ih (hsuccs _ hv _ hedge)⟩)

/-- **The equation has one solution on a graph that has an order**: reachability. -/
theorem reach_of_equation (T : Nat → Nat → Prop) {scope : Nat → Prop}
    (horder : Topological preds order)
    (hall : ∀ v, scope v → v ∈ order)
    (hsuccs : ∀ v, scope v → ∀ s ∈ succs v, scope s ∧ v ∈ preds s)
    (hT : ∀ v, scope v → ∀ d, T v d ↔ d = v ∨ ∃ s ∈ succs v, T s d) {v d : Nat} (hv : scope v) :
    T v d ↔ Relation.ReflTransGen (fun v s => s ∈ succs v) v d := by
  constructor
  · have hback : ∀ n v, scope v → order.length - order.idxOf v ≤ n → T v d →
        Relation.ReflTransGen (fun v s => s ∈ succs v) v d := by
      intro n
      induction n with
      | zero =>
          intro v hv hn
          have := List.idxOf_lt_length_of_mem (hall v hv)
          omega
      | succ n ih =>
          intro v hv hn hTv
          rcases (hT v hv d).mp hTv with rfl | ⟨s, hs, hTs⟩
          · exact Relation.ReflTransGen.refl
          · obtain ⟨hscope, hpred⟩ := hsuccs v hv s hs
            have hlt := (horder.idxOf_lt (hall s hscope) hpred).2
            have := List.idxOf_lt_length_of_mem (hall s hscope)
            exact Relation.ReflTransGen.head hs (ih s hscope (by omega) hTs)
    exact hback _ v hv (Nat.le_refl _)
  · exact of_reach (fun v hv s hs => (hsuccs v hv s hs).1) (fun v hv d => (hT v hv d).mpr) hv

end

end Lib
