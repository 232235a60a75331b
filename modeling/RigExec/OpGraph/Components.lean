/-
# `RigExec.OpGraph.Components` — the cyclic components

`Components` searches twice: forwards, for the order in which the vertices are
finished, and then backwards from the last finished vertex on.  Each backward
search gathers one strong component (`collected_iff`), because the vertices it has
marked before are a union of strong components: a vertex that reaches the root
without being mutual to it has a mutual vertex that finished after the root
(`Lib.finishOrder_late`), and was gathered with that one.

Reported are the components with a cycle, so that the members of the reported
components are the vertices on cycles (`mem_components_iff`).
-/
import RigExec.OpGraph.Model

namespace RigExec.OpGraph

open Lib (Reach Mutual)

/-! ## Edges both ways -/

/-- Edges between vertices below a bound, from both ends. -/
structure Edges (count : Nat) (succs preds : Nat → List Nat) : Prop where
  mem_iff : ∀ u v, v ∈ succs u ↔ u ∈ preds v
  succs_lt : ∀ u, ∀ v ∈ succs u, v < count
  preds_lt : ∀ v, ∀ u ∈ preds v, u < count

/-- A vertex on a cycle. -/
def Cyclic (next : Nat → List Nat) (v : Nat) : Prop :=
  Relation.TransGen (fun u w => w ∈ next u) v v

/-- A strong component with a cycle. -/
structure CyclicComponent (succs : Nat → List Nat) (component : List Nat) : Prop where
  nodup : component.Nodup
  nonempty : component ≠ []
  mem_iff : ∀ v ∈ component, ∀ u, u ∈ component ↔ Mutual succs v u
  cyclic : ∀ v ∈ component, Cyclic succs v

section

variable {count : Nat} {succs preds : Nat → List Nat} {u v : Nat}

theorem Cyclic.lt (h : Edges count succs preds) (hv : Cyclic succs v) : v < count := by
  obtain ⟨w, -, hedge⟩ := Relation.TransGen.tail'_iff.mp hv
  exact h.succs_lt w v hedge

theorem reach_swap (h : Edges count succs preds) : Reach preds u v ↔ Reach succs v u := by
  have hswap : (fun u w => w ∈ preds u) = Function.swap fun u w => w ∈ succs u := by
    funext a b
    exact propext (h.mem_iff b a).symm
  rw [Reach, hswap, Relation.reflTransGen_swap]

theorem cyclic_of_ne (h : Mutual succs v u) (hne : v ≠ u) : Cyclic succs v := by
  rcases Relation.reflTransGen_iff_eq_or_transGen.mp h.1 with he | hpath
  · exact absurd he.symm hne
  · exact hpath.trans_left h.2

theorem Cyclic.congr (hv : Cyclic succs v) (h : Mutual succs v u) : Cyclic succs u := by
  by_cases he : u = v
  · exact he ▸ hv
  · exact cyclic_of_ne h.symm he

/-! ## One backward search -/

/-- What is marked before a root is a union of strong components. -/
def ClosedUnder (succs : Nat → List Nat) (base : Nat → Bool) : Prop :=
  ∀ u v, Mutual succs u v → base u = true → base v = true

/-- Marked is whatever is finished after the root, by then. -/
def LaterMarked (finish : List Nat) (base : Nat → Bool) (root : Nat) : Prop :=
  ∀ u, Lib.Earlier finish root u → base u = true

/-- **One search backwards gathers the strong component of its root.** -/
theorem collected_iff (h : Edges count succs preds) {base : Nat → Bool} {root : Nat}
    (hbase : ClosedUnder succs base) (hroot : base root = false)
    (hlater : LaterMarked (Lib.finishOrder count succs) base root) (v : Nat) :
    v ∈ (Lib.collect count preds (Lib.mark base root) [] [root]).2 ↔ Mutual succs root v := by
  have hcollected := Lib.collect_root h.preds_lt hroot
  have hmem : root ∈ (Lib.collect count preds (Lib.mark base root) [] [root]).2 := by
    rcases hcollected.root_mem with hmem | hmem
    · exact hmem
    · cases hmem
  constructor
  · intro hv
    have hback : Reach succs v root := (reach_swap h).mp (hcollected.reached v (.inl hv))
    refine ⟨?_, hback⟩
    by_cases he : v = root
    · rw [he]
    · have hlt : v < count := by
        rcases Relation.ReflTransGen.cases_head hback with heq | ⟨w, hedge, -⟩
        · exact absurd heq he
        · exact h.preds_lt w v ((h.mem_iff v w).mp hedge)
      rcases Lib.finishOrder_late (fun u _ => h.succs_lt u) hlt hback with hreach | ⟨u, hsame, hu⟩
      · exact hreach
      · have := hbase u v hsame.symm (hlater u hu)
        rw [hcollected.fresh v (.inl hv)] at this
        cases this
  · intro hv
    have hreach : Reach preds root v := (reach_swap h).mpr hv.2
    -- along a path back to the root every vertex is mutual to the root, so not in the base
    have hall : ∀ w, Reach preds root w → Reach preds w v →
        w ∈ (Lib.collect count preds (Lib.mark base root) [] [root]).2 := by
      intro w hw
      induction hw with
      | refl => exact fun _ => hmem
      | tail hpath hedge ih =>
          rename_i a w
          intro hrest
          have ha := ih ((Relation.ReflTransGen.single hedge).trans hrest)
          have hmarked := hcollected.closed a ha w hedge
          rw [hcollected.marked] at hmarked
          rcases hmarked with hin | hin | hin
          · have hsame : Mutual succs w root := by
              refine ⟨(reach_swap h).mp (hpath.tail hedge), hv.1.trans ?_⟩
              exact (reach_swap h).mp hrest
            rw [hbase w root hsame hin] at hroot
            cases hroot
          · exact hin
          · cases hin
    exact hall v hreach Relation.ReflTransGen.refl

/-! ## All of them -/

/-- The invariant of the second pass, after the roots `done`. -/
structure Gathering (succs : Nat → List Nat) (done : List Nat)
    (found : (Nat → Bool) × List (List Nat)) : Prop where
  marked : ∀ v, found.1 v = true ↔ ∃ root ∈ done, Mutual succs root v
  component : ∀ component ∈ found.2, CyclicComponent succs component
  complete : ∀ v, found.1 v = true → Cyclic succs v → ∃ component ∈ found.2, v ∈ component

theorem Gathering.closedUnder {done : List Nat} {found : (Nat → Bool) × List (List Nat)}
    (h : Gathering succs done found) : ClosedUnder succs found.1 := by
  intro u v hsame hu
  obtain ⟨root, hroot, hu⟩ := (h.marked u).mp hu
  exact (h.marked v).mpr ⟨root, hroot, hu.trans hsame⟩

theorem cyclic_test {component : List Nat} (hnodup : component.Nodup) {root : Nat}
    (hmem : ∀ v, v ∈ component ↔ Mutual succs root v) :
    (component.length > 1 ∨ (component.head?.any fun first => (succs first).contains first) = true) ↔
      Cyclic succs root := by
  cases component with
  | nil => exact absurd ((hmem root).mpr (Mutual.refl root)) (by simp)
  | cons first rest =>
      have hfirst : Mutual succs root first := (hmem first).mp List.mem_cons_self
      cases rest with
      | nil =>
          have hsingle : ∀ v, Mutual succs root v → v = first := fun v hv =>
            List.mem_singleton.mp ((hmem v).mpr hv)
          have hroot := hsingle root (Mutual.refl root)
          subst hroot
          simp only [List.length_singleton, gt_iff_lt, Nat.lt_irrefl, false_or, List.head?_cons,
            Option.any_some, List.contains_iff_mem]
          refine ⟨fun hedge => Relation.TransGen.single hedge, fun hcycle => ?_⟩
          obtain ⟨w, hedge, hback⟩ := Relation.TransGen.head'_iff.mp hcycle
          have := hsingle w ⟨Relation.ReflTransGen.single hedge, hback⟩
          exact this ▸ hedge
      | cons second rest =>
          refine iff_of_true (.inl (by simp)) ?_
          have hsecond : Mutual succs root second := (hmem second).mp (by simp)
          have hne : first ≠ second := by
            rintro rfl
            simp at hnodup
          exact (cyclic_of_ne (hfirst.symm.trans hsecond) hne).congr hfirst.symm

theorem Gathering.step (h : Edges count succs preds) {done : List Nat}
    {found : (Nat → Bool) × List (List Nat)} (hfound : Gathering succs done found) {root : Nat}
    (hlater : LaterMarked (Lib.finishOrder count succs) found.1 root) :
    Gathering succs (done ++ [root]) (componentFrom count succs preds found root) := by
  unfold componentFrom
  split
  · rename_i hold
    refine ⟨fun v => ?_, hfound.component, hfound.complete⟩
    refine (hfound.marked v).trans ⟨?_, ?_⟩
    · rintro ⟨r, hr, hsame⟩
      exact ⟨r, List.mem_append_left _ hr, hsame⟩
    · rintro ⟨r, hr, hsame⟩
      rcases List.mem_append.mp hr with hr | hr
      · exact ⟨r, hr, hsame⟩
      · obtain ⟨r', hr', hsame'⟩ := (hfound.marked root).mp hold
        rw [List.mem_singleton.mp hr] at hsame
        exact ⟨r', hr', hsame'.trans hsame⟩
  · rename_i hnew
    have hnew : found.1 root = false := Bool.eq_false_iff.mpr hnew
    have hmem := collected_iff h hfound.closedUnder hnew hlater
    have hcollected := Lib.collect_root h.preds_lt hnew
    revert hmem hcollected
    generalize Lib.collect count preds (Lib.mark found.1 root) [] [root] = collected
    intro hmem hcollected
    have hmarked : ∀ v, collected.1 v = true ↔ found.1 v = true ∨ Mutual succs root v := by
      intro v
      rw [hcollected.marked, hmem]
      simp
    have htest := cyclic_test hcollected.nodup_component hmem
    have hcomponent : Cyclic succs root → CyclicComponent succs collected.2 := by
      intro hcycle
      refine ⟨hcollected.nodup_component, List.ne_nil_of_mem ((hmem root).mpr (Mutual.refl root)),
        fun v hv u => ?_, fun v hv => hcycle.congr ((hmem v).mp hv)⟩
      have hv := (hmem v).mp hv
      exact (hmem u).trans ⟨fun hu => hv.symm.trans hu, fun hu => hv.trans hu⟩
    refine ⟨fun v => ?_, fun component hin => ?_, fun v hv hcycle => ?_⟩
    · rw [hmarked, hfound.marked]
      simp only [List.mem_append, List.mem_singleton, or_and_right, exists_or, exists_eq_left]
    · dsimp only at hin
      split at hin
      · rename_i hcycle
        rcases List.mem_append.mp hin with hin | hin
        · exact hfound.component component hin
        · exact List.mem_singleton.mp hin ▸ hcomponent (htest.mp hcycle)
      · exact hfound.component component hin
    · dsimp only
      rcases (hmarked v).mp hv with hv | hv
      · obtain ⟨component, hin, hvin⟩ := hfound.complete v hv hcycle
        refine ⟨component, ?_, hvin⟩
        split
        · exact List.mem_append_left _ hin
        · exact hin
      · rw [if_pos (htest.mpr (hcycle.congr hv.symm))]
        exact ⟨collected.2, by simp, (hmem v).mpr hv⟩

theorem mem_done {finish done rest : List Nat} {root u : Nat} (hnodup : finish.Nodup)
    (hsplit : finish.reverse = done ++ root :: rest) (hu : Lib.Earlier finish root u) :
    u ∈ done := by
  obtain ⟨pre, post, rfl, hroot⟩ := hu
  simp only [List.reverse_append, List.reverse_cons, List.append_assoc, List.cons_append,
    List.nil_append] at hsplit
  have hnodup' : (post.reverse ++ u :: pre.reverse).Nodup := by
    have := List.nodup_reverse.mpr hnodup
    simpa using this
  by_contra hnot
  have hin : u ∈ root :: rest := by
    have : u ∈ done ++ root :: rest := hsplit ▸ by simp
    exact (List.mem_append.mp this).resolve_left hnot
  rcases List.append_eq_append_iff.mp hsplit with ⟨more, hdone, hmore⟩ | ⟨more, hpost, hmore⟩
  · cases more with
    | nil =>
        simp only [List.nil_append, List.cons.injEq] at hmore
        have := (List.nodup_append.mp hnodup').2.1
        rw [hmore.1] at this
        exact (List.nodup_cons.mp this).1 (List.mem_reverse.mpr hroot)
    | cons w more =>
        simp only [List.cons_append, List.cons.injEq] at hmore
        exact hnot (hdone ▸ by simp [hmore.1])
  · cases more with
    | nil =>
        simp only [List.nil_append, List.cons.injEq] at hmore
        have := (List.nodup_append.mp hnodup').2.1
        rw [← hmore.1] at this
        exact (List.nodup_cons.mp this).1 (List.mem_reverse.mpr hroot)
    | cons w more =>
        simp only [List.cons_append, List.cons.injEq] at hmore
        have hroot' : root ∈ post.reverse := hpost ▸ by simp [hmore.1]
        exact (List.nodup_append.mp hnodup').2.2 root hroot' root
          (List.mem_cons_of_mem _ (List.mem_reverse.mpr hroot)) rfl

theorem gathering_foldl (h : Edges count succs preds) {done rest : List Nat}
    (hsplit : (Lib.finishOrder count succs).reverse = done ++ rest) :
    Gathering succs done (done.foldl (componentFrom count succs preds) (fun _ => false, [])) := by
  induction done using List.reverseRecOn generalizing rest with
  | nil =>
      exact ⟨fun v => by simp, fun component hin => (nomatch hin), fun v hv => (nomatch hv)⟩
  | append_singleton done root ih =>
      rw [List.append_assoc] at hsplit
      have hfound := ih hsplit
      rw [List.foldl_append, List.foldl_cons, List.foldl_nil]
      refine hfound.step h fun u hu => (hfound.marked u).mpr ⟨u, ?_, Mutual.refl u⟩
      exact mem_done (Lib.finishOrder_nodup fun u _ => h.succs_lt u) hsplit hu

/-- **Every reported component is a strong component with a cycle.** -/
theorem cyclicComponent_of_mem (h : Edges count succs preds) {component : List Nat}
    (hin : component ∈ components count succs preds) : CyclicComponent succs component :=
  (gathering_foldl h (List.append_nil _).symm).component component hin

/-- **The members of the reported components are the vertices on cycles.** -/
theorem mem_components_iff (h : Edges count succs preds) :
    (∃ component ∈ components count succs preds, v ∈ component) ↔ Cyclic succs v := by
  constructor
  · rintro ⟨component, hin, hv⟩
    exact (cyclicComponent_of_mem h hin).cyclic v hv
  · intro hcycle
    have hfound := gathering_foldl h (List.append_nil (Lib.finishOrder count succs).reverse).symm
    refine hfound.complete v ((hfound.marked v).mpr ⟨v, ?_, Mutual.refl v⟩) hcycle
    exact List.mem_reverse.mpr
      ((Lib.finishOrder_mem (fun u _ => h.succs_lt u) v).mpr (hcycle.lt h))

end

end RigExec.OpGraph
