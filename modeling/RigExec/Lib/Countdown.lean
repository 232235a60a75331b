/-
# `RigExec.Lib.Countdown` — ready lists kept by counting predecessors down

Kahn's sort keeps, for every vertex, how many of its predecessors have not
released it yet, and appends a vertex to the ready list when its count reaches
zero.  Here the graph is two lists per vertex, the vertices are a `scope`, and
the release of one edge is one step, so that loops which release all edges of a
vertex at once and threads which interleave their releases use the same rule.

    Links        the two lists of every vertex are inverse, without repeats
    Countdown    counts and ready list, against the edges released so far
    release      one edge: count down, append when the count reaches zero
    drain        the loop that goes through the ready list as it grows
    Topological  every predecessor stands earlier in the list

Counters are integers and a counter outside the list is left alone, so `release`
and `drain` are total; `drain` ends because a vertex is appended only when a
positive counter drops to zero.
-/
import Mathlib.Data.List.Basic
import Mathlib.Data.List.Induction
import Mathlib.Data.List.Nodup
import Mathlib.Logic.Relation

namespace Lib

/-! ## Orders -/

section

variable {V : Type} {preds : V → List V} {order : List V}

/-- Every predecessor of a listed vertex is listed before it. -/
def Topological (preds : V → List V) (order : List V) : Prop :=
  ∀ pre v post, order = pre ++ v :: post → ∀ p ∈ preds v, p ∈ pre

theorem topological_nil : Topological preds [] := by
  intro pre v post h
  exact absurd h (by simp)

theorem topological_append_singleton {v : V} :
    Topological preds (order ++ [v]) ↔ Topological preds order ∧ ∀ p ∈ preds v, p ∈ order := by
  constructor
  · intro h
    refine ⟨fun pre w post he => ?_, h order v [] rfl⟩
    exact h pre w (post ++ [v]) (by rw [he]; simp)
  · rintro ⟨horder, hv⟩ pre w post he
    rcases List.eq_nil_or_concat post with rfl | ⟨init, last, rfl⟩
    · obtain ⟨rfl, hw⟩ := List.append_inj' he rfl
      cases hw
      exact hv
    · rw [List.concat_eq_append, ← List.cons_append, ← List.append_assoc] at he
      obtain ⟨rfl, -⟩ := List.append_inj' he rfl
      exact horder pre w init rfl

theorem Topological.append {more : List V} (h : Topological preds order)
    (hmore : ∀ pre v post, more = pre ++ v :: post → ∀ p ∈ preds v, p ∈ order ++ pre) :
    Topological preds (order ++ more) := by
  induction more using List.reverseRecOn with
  | nil => simpa using h
  | append_singleton more v ih =>
      rw [← List.append_assoc, topological_append_singleton]
      refine ⟨ih fun pre w post he => ?_, hmore more v [] rfl⟩
      exact hmore pre w (post ++ [v]) (by rw [he]; simp)

theorem Topological.idxOf_lt [DecidableEq V] (h : Topological preds order) {p v : V}
    (hv : v ∈ order) (hp : p ∈ preds v) : p ∈ order ∧ order.idxOf p < order.idxOf v := by
  obtain ⟨pre, post, rfl, hfirst⟩ := List.eq_append_cons_of_mem hv
  have hpre := h pre v post rfl p hp
  refine ⟨List.mem_append_left _ hpre, ?_⟩
  rw [List.idxOf_append_of_mem hpre, List.idxOf_append_of_notMem hfirst]
  exact Nat.lt_of_lt_of_le (List.idxOf_lt_length_of_mem hpre) (Nat.le_add_right _ _)

theorem Topological.acyclic [DecidableEq V] (h : Topological preds order) {v : V}
    (hv : v ∈ order) : ¬ Relation.TransGen (fun p w => p ∈ preds w) v v := by
  have hback : ∀ u, Relation.TransGen (fun p w => p ∈ preds w) u v →
      order.idxOf u < order.idxOf v := by
    intro u hpath
    induction hpath using Relation.TransGen.head_induction_on with
    | single hedge => exact (h.idxOf_lt hv hedge).2
    | head hedge _ ih =>
        have hmem := List.idxOf_lt_length_iff.mp (Nat.lt_trans ih (List.idxOf_lt_length_of_mem hv))
        exact Nat.lt_trans (h.idxOf_lt hmem hedge).2 ih
  exact fun hcycle => Nat.lt_irrefl _ (hback v hcycle)

end

/-! ## Counting down -/

/-- The vertices in scope, their predecessors and their successors. -/
structure Links (scope : Nat → Prop) (preds succs : Nat → List Nat) : Prop where
  nodup_preds : ∀ v, scope v → (preds v).Nodup
  nodup_succs : ∀ u, scope u → (succs u).Nodup
  mem_preds : ∀ v, scope v → ∀ p ∈ preds v, scope p ∧ v ∈ succs p
  mem_succs : ∀ u, scope u → ∀ v ∈ succs u, scope v ∧ u ∈ preds v

/-- One edge into `next` is released: its counter drops, and `next` is appended when it reaches
zero. -/
def release (counted : List Int × List Nat) (next : Nat) : List Int × List Nat :=
  match counted.1[next]? with
  | none => counted
  | some count =>
      (counted.1.set next (count - 1),
        if count - 1 = 0 then counted.2 ++ [next] else counted.2)

/-- How many predecessors have not released a vertex. -/
def pending (preds : Nat → List Nat) (released : Nat → Nat → Bool) (v : Nat) : Nat :=
  (preds v).countP fun p => !released p v

/-- The counters of the vertices in scope hold the number of edges not released yet, and the ready
list the vertices with none. -/
structure Countdown (scope : Nat → Prop) (preds : Nat → List Nat) (released : Nat → Nat → Bool)
    (counted : List Int × List Nat) : Prop where
  count : ∀ v, scope v → counted.1[v]? = some ((pending preds released v : Nat) : Int)
  ready : ∀ v, v ∈ counted.2 ↔ scope v ∧ ∀ p ∈ preds v, released p v = true
  nodup : counted.2.Nodup

section

variable {scope : Nat → Prop} {preds succs : Nat → List Nat} {released released' : Nat → Nat → Bool}
  {counted : List Int × List Nat}

theorem pending_eq_zero {v : Nat} :
    pending preds released v = 0 ↔ ∀ p ∈ preds v, released p v = true := by
  simp only [pending, List.countP_eq_zero, Bool.not_eq_true', Bool.not_eq_false]

theorem pending_congr {v : Nat} (h : ∀ p ∈ preds v, released p v = released' p v) :
    pending preds released v = pending preds released' v :=
  List.countP_congr fun p hp => by rw [h p hp]

theorem Countdown.congr (h : Countdown scope preds released counted)
    (hsame : ∀ v, scope v → ∀ p ∈ preds v, released p v = released' p v) :
    Countdown scope preds released' counted where
  count := fun v hv => by rw [h.count v hv, pending_congr (hsame v hv)]
  ready := fun v => by
    rw [h.ready v]
    refine and_congr_right fun hv => forall₂_congr fun p hp => ?_
    rw [hsame v hv p hp]
  nodup := h.nodup

theorem countP_exclude {l : List Nat} {p : Nat} (test : Nat → Bool) (hl : l.Nodup) (hp : p ∈ l)
    (htest : test p = true) :
    l.countP test = (l.countP fun q => test q && !(q == p)) + 1 := by
  induction l with
  | nil => cases hp
  | cons q l ih =>
      obtain ⟨hq, hl⟩ := List.nodup_cons.mp hl
      rcases List.mem_cons.mp hp with rfl | hp
      · have hrest : (l.countP fun r => test r && !(r == p)) = l.countP test := by
          refine List.countP_congr fun r hr => ?_
          have hne : r ≠ p := fun he => hq (he ▸ hr)
          simp [hne]
        rw [List.countP_cons_of_pos htest, List.countP_cons_of_neg (by simp), hrest]
      · have hne : q ≠ p := fun he => hq (he ▸ hp)
        have hsame : (test q && !(q == p)) = test q := by simp [hne]
        rw [List.countP_cons, List.countP_cons, hsame, ih hl hp]
        omega

/-- The edge from `u` to `v` is released too. -/
def releasing (released : Nat → Nat → Bool) (u v : Nat) : Nat → Nat → Bool :=
  fun p w => released p w || (p == u && w == v)

theorem releasing_of_ne {u v w : Nat} (h : w ≠ v) (p : Nat) :
    releasing released u v p w = released p w := by
  simp [releasing, h]

theorem pending_releasing {u v : Nat} (hnodup : (preds v).Nodup) (hu : u ∈ preds v)
    (hfresh : released u v = false) :
    pending preds (releasing released u v) v + 1 = pending preds released v := by
  rw [pending, pending, countP_exclude (fun p => !released p v) hnodup hu (by simp [hfresh])]
  congr 2
  funext p
  simp only [releasing, beq_self_eq_true, Bool.and_true, Bool.not_or]

/-- **One release.** -/
theorem Countdown.release (h : Countdown scope preds released counted) {u v : Nat} (hv : scope v)
    (hnodup : (preds v).Nodup) (hu : u ∈ preds v) (hfresh : released u v = false) :
    Countdown scope preds (releasing released u v) (Lib.release counted v) := by
  have hcount := h.count v hv
  have hleft := pending_releasing hnodup hu hfresh
  have hvalue : (pending preds released v : Int) - 1 =
      (pending preds (releasing released u v) v : Nat) := by
    omega
  have hnotin : v ∉ counted.2 := fun hin => by
    rw [(h.ready v).mp hin |>.2 u hu] at hfresh
    cases hfresh
  simp only [Lib.release, hcount, hvalue, Int.natCast_eq_zero]
  refine ⟨fun w hw => ?_, fun w => ?_, ?_⟩
  · by_cases he : w = v
    · subst he
      rw [List.getElem?_set_self (List.getElem?_eq_some_iff.mp hcount).1]
    · rw [List.getElem?_set_ne (Ne.symm he), h.count w hw,
        pending_congr fun p _ => releasing_of_ne he p]
  · by_cases he : w = v
    · subst he
      simp only [hv, true_and, ← pending_eq_zero]
      split
      · rename_i hz
        exact iff_of_true (by simp) hz
      · rename_i hz
        exact iff_of_false hnotin hz
    · simp only [releasing_of_ne he, ← h.ready w]
      split <;> simp [he]
  · split
    · exact List.nodup_append.mpr ⟨h.nodup, List.nodup_singleton v, fun a ha b hb hab =>
        hnotin (List.mem_singleton.mp hb ▸ hab ▸ ha)⟩
    · exact h.nodup

/-- All the edges out of `u`, released one after the other. -/
theorem Countdown.releaseAll (h : Countdown scope preds released counted) {u : Nat}
    {targets : List Nat} (hnodup : targets.Nodup)
    (htargets : ∀ v ∈ targets, scope v ∧ (preds v).Nodup ∧ u ∈ preds v ∧ released u v = false) :
    Countdown scope preds (fun p v => released p v || (p == u && targets.contains v))
      (targets.foldl Lib.release counted) := by
  induction targets generalizing released counted with
  | nil => exact h.congr fun v _ p _ => by simp
  | cons v targets ih =>
      obtain ⟨hv, hnodup⟩ := List.nodup_cons.mp hnodup
      obtain ⟨hscope, hpreds, hu, hfresh⟩ := htargets v List.mem_cons_self
      refine (ih (h.release hscope hpreds hu hfresh) hnodup fun w hw => ?_).congr
        fun w _ p _ => ?_
      · obtain ⟨hscope', hpreds', hu', hfresh'⟩ := htargets w (List.mem_cons_of_mem v hw)
        have hne : w ≠ v := fun he => hv (he ▸ hw)
        exact ⟨hscope', hpreds', hu', by rw [releasing_of_ne hne, hfresh']⟩
      · simp only [releasing, List.contains_cons, Bool.or_assoc, ← Bool.and_or_distrib_left]

end

/-! ## Draining the ready list -/

theorem countP_release_le (counted : List Int × List Nat) (next : Nat) :
    (release counted next).1.countP (0 < ·) + (release counted next).2.length ≤
      counted.1.countP (0 < ·) + counted.2.length := by
  unfold release
  split
  · exact Nat.le_refl _
  · rename_i count hcount
    obtain ⟨hlt, hget⟩ := List.getElem?_eq_some_iff.mp hcount
    simp only [List.countP_set hlt, hget, decide_eq_true_eq]
    have hpos : 0 < count → 0 < counted.1.countP (0 < ·) := fun h =>
      List.countP_pos_iff.mpr ⟨count, List.mem_of_getElem? hcount, by simpa⟩
    by_cases hone : count - 1 = 0
    · have hcount' : 0 < count := by omega
      have := hpos hcount'
      rw [if_pos hcount', if_neg (by omega), if_pos hone, List.length_append,
        List.length_singleton]
      omega
    · rw [if_neg hone]
      by_cases hcount' : 0 < count
      · have := hpos hcount'
        rw [if_pos hcount', if_pos (by omega)]
        omega
      · rw [if_neg hcount', if_neg (by omega)]
        omega

theorem countP_foldl_release_le (targets : List Nat) (counted : List Int × List Nat) :
    (targets.foldl release counted).1.countP (0 < ·) + (targets.foldl release counted).2.length ≤
      counted.1.countP (0 < ·) + counted.2.length := by
  induction targets generalizing counted with
  | nil => exact Nat.le_refl _
  | cons next targets ih =>
      exact Nat.le_trans (ih (release counted next)) (countP_release_le counted next)

/-- The ready list is gone through from `head` on, while it grows. -/
def drain (succs : Nat → List Nat) (counted : List Int × List Nat) (head : Nat) :
    List Int × List Nat :=
  if h : head < counted.2.length then
    drain succs ((succs counted.2[head]).foldl release counted) (head + 1)
  else counted
termination_by counted.1.countP (0 < ·) + counted.2.length - head
decreasing_by
  have := countP_foldl_release_le (succs counted.2[head]) counted
  omega

theorem foldl_release_append (targets : List Nat) (counted : List Int × List Nat) :
    ∃ more, (targets.foldl release counted).2 = counted.2 ++ more := by
  induction targets generalizing counted with
  | nil => exact ⟨[], (List.append_nil _).symm⟩
  | cons next targets ih =>
      obtain ⟨more, hmore⟩ := ih (release counted next)
      have hone : ∃ one, (release counted next).2 = counted.2 ++ one := by
        unfold release
        split
        · exact ⟨[], (List.append_nil _).symm⟩
        · split
          · exact ⟨[next], rfl⟩
          · exact ⟨[], (List.append_nil _).symm⟩
      obtain ⟨one, hone⟩ := hone
      exact ⟨one ++ more, by rw [List.foldl_cons, hmore, hone, List.append_assoc]⟩

theorem length_foldl_release (targets : List Nat) (counted : List Int × List Nat) :
    (targets.foldl release counted).1.length = counted.1.length := by
  induction targets generalizing counted with
  | nil => rfl
  | cons next targets ih =>
      have hone : (release counted next).1.length = counted.1.length := by
        unfold release
        split
        · rfl
        · exact List.length_set
      exact (ih (release counted next)).trans hone

theorem length_drain (succs : Nat → List Nat) (counted : List Int × List Nat) (head : Nat) :
    (drain succs counted head).1.length = counted.1.length := by
  induction counted, head using drain.induct succs with
  | case1 counted head hhead ih =>
      rw [drain, dif_pos hhead, ih, length_foldl_release]
  | case2 counted head hhead => rw [drain, dif_neg hhead]

section

variable {scope : Nat → Prop} {preds succs : Nat → List Nat}

/-- The loop invariant: the vertices before `head` have released all their edges, and the ready
list is in topological order. -/
structure Draining (scope : Nat → Prop) (preds : Nat → List Nat) (counted : List Int × List Nat)
    (head : Nat) : Prop where
  countdown : Countdown scope preds (fun p _ => (counted.2.take head).contains p) counted
  topological : Topological preds counted.2
  head_le : head ≤ counted.2.length

theorem Draining.advance (hl : Links scope preds succs) {counted : List Int × List Nat}
    {head : Nat} (h : Draining scope preds counted head) (hhead : head < counted.2.length) :
    Draining scope preds ((succs counted.2[head]).foldl release counted) (head + 1) := by
  obtain ⟨more, hmore⟩ := foldl_release_append (succs counted.2[head]) counted
  have hu : scope counted.2[head] :=
    ((h.countdown.ready _).mp (List.getElem_mem hhead)).1
  have hnew : counted.2[head] ∉ counted.2.take head := by
    intro hin
    obtain ⟨i, hi, he⟩ := List.getElem_of_mem hin
    rw [List.length_take] at hi
    rw [List.getElem_take] at he
    have := (List.Nodup.getElem_inj_iff h.countdown.nodup).mp he
    omega
  have htake : counted.2.take (head + 1) = counted.2.take head ++ [counted.2[head]] :=
    (List.take_append_getElem hhead).symm
  have hall := h.countdown.releaseAll (hl.nodup_succs _ hu) fun v hv => by
    obtain ⟨hscope, hmem⟩ := hl.mem_succs _ hu v hv
    exact ⟨hscope, hl.nodup_preds v hscope, hmem, by simpa using hnew⟩
  have hcountdown : Countdown scope preds
      (fun p _ => (((succs counted.2[head]).foldl release counted).2.take (head + 1)).contains p)
      ((succs counted.2[head]).foldl release counted) := by
    refine hall.congr fun v hv p hp => ?_
    rw [hmore, List.take_append_of_le_length hhead, htake, Bool.eq_iff_iff]
    simp only [Bool.or_eq_true, Bool.and_eq_true, List.contains_iff_mem, List.mem_append,
      List.mem_singleton, beq_iff_eq]
    refine or_congr_right ⟨fun hpu => hpu.1, fun he => ⟨he, ?_⟩⟩
    exact he ▸ (hl.mem_preds v hv p hp).2
  refine ⟨hcountdown, ?_, ?_⟩
  · rw [hmore]
    refine h.topological.append fun pre v post hv p hp => List.mem_append_left _ ?_
    have hready := ((hcountdown.ready v).mp (by rw [hmore, hv]; simp)).2 p hp
    rw [hmore, List.take_append_of_le_length hhead, List.contains_iff_mem] at hready
    exact List.mem_of_mem_take hready
  · rw [hmore, List.length_append]
    omega

/-- **What the loop leaves**: the ready list is in topological order and holds exactly the vertices
all of whose predecessors it holds; a counter tells how many it misses. -/
theorem Draining.drain (hl : Links scope preds succs) {counted : List Int × List Nat} {head : Nat}
    (h : Draining scope preds counted head) :
    Draining scope preds (Lib.drain succs counted head)
      (Lib.drain succs counted head).2.length := by
  induction counted, head using drain.induct succs with
  | case1 counted head hhead ih =>
      rw [Lib.drain, dif_pos hhead]
      exact ih (h.advance hl hhead)
  | case2 counted head hhead =>
      rw [Lib.drain, dif_neg hhead]
      have hlen : head = counted.2.length := Nat.le_antisymm h.head_le (Nat.not_lt.mp hhead)
      exact hlen ▸ h

section

variable {counted : List Int × List Nat}

theorem Draining.mem_iff (h : Draining scope preds counted counted.2.length) {v : Nat} :
    v ∈ counted.2 ↔ scope v ∧ ∀ p ∈ preds v, p ∈ counted.2 := by
  have := h.countdown.ready v
  simpa only [List.take_length, List.contains_iff_mem] using this

theorem Draining.exists_missing (h : Draining scope preds counted counted.2.length) {v : Nat}
    (hv : scope v) (hmissing : v ∉ counted.2) : ∃ p ∈ preds v, p ∉ counted.2 := by
  by_contra hall
  exact hmissing (h.mem_iff.mpr ⟨hv, fun p hp => by_contra fun hp' => hall ⟨p, hp, hp'⟩⟩)

theorem Draining.count_eq_zero (h : Draining scope preds counted counted.2.length) {v : Nat}
    (hv : scope v) : counted.1[v]? = some 0 ↔ v ∈ counted.2 := by
  rw [h.countdown.count v hv, h.countdown.ready v]
  simp only [Option.some.injEq, Int.natCast_eq_zero, pending_eq_zero, hv, true_and]

end

end

end Lib
