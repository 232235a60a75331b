/-
# `RigExec.Paths.Order` — texts and their order, without composing them

A text splits at its last separator, which stands in front of the last name; so a text names one
node.  The comparison climbs from both nodes to their common ancestor.  What it keeps of the way,
two nodes on each side, is what follows the ancestor's text up to the first difference.

    splits         a text has one last separator
    Climbed        a walk and the nodes it came from
    nameLess_eq    two names and what follows them, compared
-/
import RigExec.Paths.Valid
import Mathlib.Data.List.Lex

namespace RigExec.Paths

open Lib (Bytes)

/-! ## Splitting a text -/

/-- A byte in front of a name. -/
def IsSeparator (b : UInt8) : Prop := b = 47 ∨ b = 46

theorem isComponent_iff {name : Bytes} :
    isComponent name = true ↔ ∀ b ∈ name, ¬ IsSeparator b := by
  simp [isComponent, IsSeparator]

theorem isSeparator_separator (f : File) (i : Nat) : IsSeparator (f.separator i) := by
  unfold File.separator
  split
  · exact Or.inl rfl
  · exact Or.inr rfl

theorem splits {u u' n n' : Bytes} {s s' : UInt8} (hs : IsSeparator s) (hs' : IsSeparator s')
    (hn : ∀ b ∈ n, ¬ IsSeparator b) (hn' : ∀ b ∈ n', ¬ IsSeparator b)
    (same : u ++ s :: n = u' ++ s' :: n') : u = u' ∧ s = s' ∧ n = n' := by
  rcases List.append_eq_append_iff.mp same with ⟨front, rfl, back⟩ | ⟨front, rfl, back⟩
  · cases front with
    | nil =>
        rw [List.nil_append, List.cons.injEq] at back
        exact ⟨(List.append_nil u).symm, back.1, back.2⟩
    | cons b front =>
        rw [List.cons_append, List.cons.injEq] at back
        have inName : s' ∈ n := by
          rw [back.2]
          exact List.mem_append_right _ List.mem_cons_self
        exact absurd hs' (hn s' inName)
  · cases front with
    | nil =>
        rw [List.nil_append, List.cons.injEq] at back
        exact ⟨List.append_nil u', back.1.symm, back.2.symm⟩
    | cons b front =>
        rw [List.cons_append, List.cons.injEq] at back
        have inName : s ∈ n' := by
          rw [back.2]
          exact List.mem_append_right _ List.mem_cons_self
        exact absurd hs (hn' s inName)

section Injective

variable {f : File}

theorem eq_of_parts (valid : f.Valid) {a b : Nat} (ha : f.Tree a) (hb : f.Tree b)
    (parent : (f.node a).parent = (f.node b).parent) (sep : f.separator a = f.separator b)
    (name : f.nameOf a = f.nameOf b) : a = b := by
  have kind : (f.node a).kind = (f.node b).kind := by
    unfold File.separator at sep
    rcases ha.2.2 with ka | ka <;> rcases hb.2.2 with kb | kb <;> simp_all
  have nameId : (f.node a).name = (f.node b).name := by
    have va := ha.valid valid
    have vb := hb.valid valid
    have inTail : ∀ k, k ≠ 0 → k < f.names.length →
        ∃ h : k - 1 < f.names.tail.length, f.names.getD k [] = f.names.tail[k - 1] := by
      intro k hk lk
      refine ⟨by rw [List.length_tail]; omega, ?_⟩
      rw [List.getElem_tail, List.getD_eq_getElem _ _ lk]
      congr 1
      omega
    obtain ⟨la, ea⟩ := inTail _ va.name_ne va.name_lt
    obtain ⟨lb, eb⟩ := inTail _ vb.name_ne vb.name_lt
    rw [File.nameOf, File.nameOf, ea, eb, valid.names_nodup.getElem_inj_iff] at name
    have pa := va.name_ne
    have pb := vb.name_ne
    omega
  have node : f.node a = f.node b := by
    calc f.node a = ⟨(f.node a).parent, (f.node a).name, (f.node a).kind⟩ := rfl
      _ = ⟨(f.node b).parent, (f.node b).name, (f.node b).kind⟩ := by rw [parent, nameId, kind]
      _ = f.node b := rfl
  have inTail : ∀ i, f.Tree i → ∃ h : i - 1 < f.paths.tail.length,
      f.node i = f.paths.tail[i - 1] := by
    intro i tree
    have pos := tree.1
    have bound := tree.2.1
    refine ⟨by rw [List.length_tail]; omega, ?_⟩
    rw [List.getElem_tail, File.node, List.getD_eq_getElem _ _ bound]
    congr 1
    omega
  obtain ⟨la, ea⟩ := inTail a ha
  obtain ⟨lb, eb⟩ := inTail b hb
  rw [ea, eb, valid.nodup.getElem_inj_iff] at node
  have pa := ha.1
  have pb := hb.1
  omega

theorem pathText_inj (valid : f.Valid) {a b : Nat} (ha : f.Tree a) (hb : f.Tree b)
    (same : f.pathText a = f.pathText b) : a = b := by
  induction a using Nat.strong_induction_on generalizing b with
  | _ a ih =>
      rw [pathText_eq ha valid, pathText_eq hb valid] at same
      obtain ⟨texts, sep, name⟩ := splits (isSeparator_separator f a) (isSeparator_separator f b)
        (isComponent_iff.mp (ha.component valid)) (isComponent_iff.mp (hb.component valid)) same
      refine eq_of_parts valid ha hb ?_ sep name
      have nonempty : ∀ {i}, f.Tree i → f.pathText i ≠ [] := by
        intro i tree empty
        rw [pathText_eq tree valid] at empty
        exact absurd empty (by simp)
      rcases ha.parent valid with topA | treeA
      · rcases hb.parent valid with topB | treeB
        · rw [topA, topB]
        · rw [topA, pathText_zero] at texts
          exact absurd texts.symm (nonempty treeB)
      · rcases hb.parent valid with topB | treeB
        · rw [topB, pathText_zero] at texts
          exact absurd texts (nonempty treeA)
        · exact ih _ (ha.valid valid).parent_lt treeA treeB texts

end Injective

/-! ## Comparing two names -/

section Names

theorem append_lt_append {u a b : Bytes} : u ++ a < u ++ b ↔ a < b := by
  induction u with
  | nil => rfl
  | cons c u ih =>
      rw [List.cons_append, List.cons_append, List.cons_lt_cons_iff, ih]
      constructor
      · rintro (less | ⟨-, less⟩)
        · exact absurd less (UInt8.lt_irrefl c)
        · exact less
      · intro less
        exact Or.inr ⟨rfl, less⟩

/-- What follows a name: nothing, or a separator. -/
def Follows (next : Int) (rest : Bytes) : Prop :=
  (next = -1 ∧ rest = []) ∨ ∃ s r, IsSeparator s ∧ next = (s.toNat : Int) ∧ rest = s :: r

theorem nameLess_cons (a b : UInt8) (as bs : Bytes) (nextA nextB : Int) :
    nameLess (a :: as) (b :: bs) nextA nextB =
      if a < b then true else if b < a then false else nameLess as bs nextA nextB := by
  unfold nameLess
  simp only [List.length_cons, Nat.succ_min_succ, List.take_succ_cons, memcmp,
    List.getD_cons_succ, Nat.add_lt_add_iff_right]
  by_cases less : a < b
  · rw [if_pos less, if_pos less]
  · rw [if_neg less, if_neg less]
    by_cases more : b < a
    · rw [if_pos more, if_pos more]
    · rw [if_neg more, if_neg more]

theorem Follows.lt_iff {next : Int} {rest : Bytes} (h : Follows next rest) {b : UInt8}
    (hb : ¬ IsSeparator b) (bs : Bytes) : next < (b.toNat : Int) ↔ rest < b :: bs := by
  rcases h with ⟨rfl, rfl⟩ | ⟨s, r, hs, rfl, rfl⟩
  · exact ⟨fun _ => List.nil_lt_cons b bs, fun _ => by omega⟩
  · have differ : s ≠ b := fun same => hb (same ▸ hs)
    rw [List.cons_lt_cons_iff, UInt8.lt_iff_toNat_lt, Int.ofNat_lt]
    exact ⟨Or.inl, fun h => h.resolve_right fun both => differ both.1⟩

theorem Follows.gt_iff {next : Int} {rest : Bytes} (h : Follows next rest) {b : UInt8}
    (hb : ¬ IsSeparator b) (bs : Bytes) : (b.toNat : Int) < next ↔ b :: bs < rest := by
  rcases h with ⟨rfl, rfl⟩ | ⟨s, r, hs, rfl, rfl⟩
  · constructor
    · intro h
      omega
    · intro h
      exact absurd h (List.not_lt_nil _)
  · have differ : b ≠ s := fun same => hb (same ▸ hs)
    rw [List.cons_lt_cons_iff, UInt8.lt_iff_toNat_lt, Int.ofNat_lt]
    exact ⟨Or.inl, fun h => h.resolve_right fun both => differ both.1⟩

theorem nameLess_eq {nameA nameB restA restB : Bytes} {nextA nextB : Int}
    (componentA : ∀ b ∈ nameA, ¬ IsSeparator b) (componentB : ∀ b ∈ nameB, ¬ IsSeparator b)
    (followsA : Follows nextA restA) (followsB : Follows nextB restB) (differ : nameA ≠ nameB) :
    nameLess nameA nameB nextA nextB = decide (nameA ++ restA < nameB ++ restB) := by
  induction nameA generalizing nameB with
  | nil =>
      cases nameB with
      | nil => exact absurd rfl differ
      | cons b bs =>
          exact decide_eq_decide.mpr
            (followsA.lt_iff (componentB b List.mem_cons_self) (bs ++ restB))
  | cons a as ih =>
      cases nameB with
      | nil =>
          exact decide_eq_decide.mpr
            (followsB.gt_iff (componentA a List.mem_cons_self) (as ++ restA))
      | cons b bs =>
          rw [nameLess_cons, List.cons_append, List.cons_append]
          by_cases less : a < b
          · rw [if_pos less, decide_eq_true (List.cons_lt_cons_iff.mpr (Or.inl less))]
          · rw [if_neg less]
            by_cases more : b < a
            · rw [if_pos more, decide_eq_false]
              intro h
              rcases List.cons_lt_cons_iff.mp h with h | ⟨h, -⟩
              · exact less h
              · exact UInt8.lt_irrefl b (h ▸ more)
            · have same : a = b := UInt8.le_antisymm (UInt8.not_lt.mp more) (UInt8.not_lt.mp less)
              subst same
              rw [if_neg more, ih (fun b hb => componentA b (List.mem_cons_of_mem a hb))
                (fun b hb => componentB b (List.mem_cons_of_mem a hb))
                (fun h => differ (congrArg (a :: ·) h))]
              refine decide_eq_decide.mpr ?_
              rw [List.cons_lt_cons_iff]
              exact ⟨fun h => Or.inr ⟨rfl, h⟩, fun h => (h.resolve_left (UInt8.lt_irrefl a)).2⟩

end Names

/-! ## Climbing -/

section Climbing

variable {f : File} {a b : Nat}

/-- The walk from `a` after `k` steps, no step of it from the root. -/
inductive Climbed (f : File) (a : Nat) : Nat → Climb → Prop where
  | start : Climbed f a 0 ⟨a, none, none⟩
  | up {k : Nat} {c : Climb} : Climbed f a k c → f.Tree c.node → Climbed f a (k + 1) (f.up c)

/-- The depth the validator holds of a node. -/
def File.depth (f : File) (i : Nat) : Nat :=
  (depthsOf f.paths.tail).getD i 0

theorem Climbed.tree {k : Nat} {c : Climb} (h : Climbed f a k c) (valid : f.Valid)
    (ha : f.Tree a) : c.node = 0 ∨ f.Tree c.node := by
  induction h with
  | start => exact Or.inr ha
  | up _ here _ => exact here.parent valid

theorem Climbed.depth {k : Nat} {c : Climb} (h : Climbed f a k c) (valid : f.Valid) :
    f.depth c.node + k = f.depth a := by
  induction h with
  | start => rfl
  | @up k c _ here ih =>
      have step : f.depth c.node = f.depth (f.node c.node).parent + 1 := depth_eq here valid
      show f.depth (f.node c.node).parent + (k + 1) = f.depth a
      omega

theorem Climbed.eq_start {c : Climb} (h : Climbed f a 0 c) : c = ⟨a, none, none⟩ := by
  cases h
  rfl

theorem Climbed.text {k : Nat} {c : Climb} (h : Climbed f a k c) (valid : f.Valid) (hk : k ≠ 0) :
    ∃ child rest, c.child = some child ∧ f.Tree child ∧ (f.node child).parent = c.node ∧
      Follows (f.next c.grandchild) rest ∧
      f.pathText a = f.pathText c.node ++ f.separator child :: (f.nameOf child ++ rest) := by
  induction h with
  | start => exact absurd rfl hk
  | @up k c before here ih =>
      by_cases first : k = 0
      · subst first
        have start := before.eq_start
        subst start
        refine ⟨a, [], rfl, here, rfl, Or.inl ⟨rfl, rfl⟩, ?_⟩
        rw [List.append_nil]
        exact pathText_eq here valid
      · obtain ⟨child, rest, kept, -, -, -, text⟩ := ih first
        refine ⟨c.node, f.separator child :: (f.nameOf child ++ rest), rfl, here, rfl, ?_, ?_⟩
        · refine Or.inr ⟨f.separator child, f.nameOf child ++ rest,
            isSeparator_separator f child, ?_, rfl⟩
          show f.next c.child = _
          rw [kept]
          rfl
        · rw [text, pathText_eq here valid, List.append_assoc, List.cons_append]
          rfl

theorem depth_pos (valid : f.Valid) {i : Nat} (tree : f.Tree i) : 0 < f.depth i := by
  rw [File.depth, depth_eq tree valid]
  exact Nat.succ_pos _

theorem depth_le (valid : f.Valid) {i : Nat} (place : i = 0 ∨ f.Tree i) : f.depth i ≤ i := by
  induction i using Nat.strong_induction_on with
  | _ i ih =>
      rcases place with rfl | tree
      · exact Nat.le_of_eq (depth_zero _)
      · have below := (tree.valid valid).parent_lt
        have parent := ih _ below (tree.parent valid)
        have step : f.depth i = f.depth (f.node i).parent + 1 := depth_eq tree valid
        omega

theorem climb_total (valid : f.Valid) (ha : f.Tree a) (bound : Nat) {fuel : Nat}
    (hfuel : f.paths.length ≤ fuel) :
    ∃ k c, Lib.loop (f.climbStep (depthsOf f.paths.tail) bound) fuel ⟨a, none, none⟩ = some c ∧
      Climbed f a k c ∧ f.depth c.node = min (f.depth a) bound := by
  have step : ∀ n c c',
      (∃ k, Climbed f a k c ∧ f.depth c.node = n ∧ min (f.depth a) bound ≤ f.depth c.node) →
      f.climbStep (depthsOf f.paths.tail) bound c = some c' → ∃ m < n,
        ∃ k, Climbed f a k c' ∧ f.depth c'.node = m ∧ min (f.depth a) bound ≤ f.depth c'.node := by
    rintro n c c' ⟨k, climbed, rfl, least⟩ goes
    unfold File.climbStep at goes
    split at goes
    · rename_i deeper
      have deep : bound < f.depth c.node := deeper
      cases goes
      have here : f.Tree c.node := by
        refine (climbed.tree valid ha).resolve_left fun root => ?_
        have zero : f.depth c.node = 0 := by rw [root]; exact depth_zero _
        omega
      have one : f.depth c.node = f.depth (f.node c.node).parent + 1 := depth_eq here valid
      have after : f.depth (f.up c).node = f.depth (f.node c.node).parent := rfl
      exact ⟨f.depth (f.node c.node).parent, by omega, k + 1, climbed.up here, after, by omega⟩
    · cases goes
  have low := depth_le valid (Or.inr ha)
  have inside := ha.2.1
  obtain ⟨c, m, run, ended, k, climbed, -, least⟩ := Lib.loop_total step
    ⟨0, Climbed.start, rfl, Nat.min_le_left _ _⟩ (show f.depth a ≤ fuel by omega)
  refine ⟨k, c, run, climbed, ?_⟩
  have up := climbed.depth valid
  have shallow : f.depth c.node ≤ bound := by
    unfold File.climbStep at ended
    split at ended
    · cases ended
    · rename_i notDeeper
      exact Nat.le_of_not_lt notDeeper
  omega

theorem meet_total (valid : f.Valid) (ha : f.Tree a) (hb : f.Tree b) {x y : Climb} {k l : Nat}
    (hx : Climbed f a k x) (hy : Climbed f b l y) (level : f.depth x.node = f.depth y.node)
    (apart : x.node ≠ y.node) {fuel : Nat} (hfuel : f.paths.length ≤ fuel) :
    ∃ k' l' w, Lib.loop f.meetStep fuel (x, y) = some w ∧ Climbed f a (k' + 1) w.1 ∧
      Climbed f b (l' + 1) w.2 ∧ w.1.node = w.2.node ∧ w.1.child ≠ w.2.child := by
  have step : ∀ n (w w' : Climb × Climb),
      (∃ k l, Climbed f a k w.1 ∧ Climbed f b l w.2 ∧ f.depth w.1.node = n ∧
        f.depth w.2.node = n ∧ (w.1.node = w.2.node → k ≠ 0 ∧ l ≠ 0 ∧ w.1.child ≠ w.2.child)) →
      f.meetStep w = some w' → ∃ m < n,
        ∃ k l, Climbed f a k w'.1 ∧ Climbed f b l w'.2 ∧ f.depth w'.1.node = m ∧
          f.depth w'.2.node = m ∧
          (w'.1.node = w'.2.node → k ≠ 0 ∧ l ≠ 0 ∧ w'.1.child ≠ w'.2.child) := by
    rintro n w w' ⟨k, l, climbedX, climbedY, depthX, depthY, -⟩ goes
    unfold File.meetStep at goes
    split at goes
    · rename_i differ
      cases goes
      -- at depth zero both stand at the root
      have deep : n ≠ 0 := by
        intro zero
        rcases climbedX.tree valid ha with rootX | treeX
        · rcases climbedY.tree valid hb with rootY | treeY
          · exact differ (rootX.trans rootY.symm)
          · have pos := depth_pos valid treeY
            omega
        · have pos := depth_pos valid treeX
          omega
      have hereX : f.Tree w.1.node := by
        refine (climbedX.tree valid ha).resolve_left fun root => deep ?_
        rw [← depthX, root]
        exact depth_zero _
      have hereY : f.Tree w.2.node := by
        refine (climbedY.tree valid hb).resolve_left fun root => deep ?_
        rw [← depthY, root]
        exact depth_zero _
      have oneX : f.depth w.1.node = f.depth (f.node w.1.node).parent + 1 := depth_eq hereX valid
      have oneY : f.depth w.2.node = f.depth (f.node w.2.node).parent + 1 := depth_eq hereY valid
      have afterX : f.depth (f.up w.1).node = f.depth (f.node w.1.node).parent := rfl
      have afterY : f.depth (f.up w.2).node = f.depth (f.node w.2.node).parent := rfl
      refine ⟨n - 1, by omega, k + 1, l + 1, climbedX.up hereX, climbedY.up hereY, ?_, ?_, ?_⟩
      · show f.depth (f.up w.1).node = n - 1
        omega
      · show f.depth (f.up w.2).node = n - 1
        omega
      · intro _
        exact ⟨Nat.succ_ne_zero k, Nat.succ_ne_zero l, fun same => differ (Option.some.inj same)⟩
    · cases goes
  have low := depth_le valid (hx.tree valid ha)
  have up := hx.depth valid
  have lowA := depth_le valid (Or.inr ha)
  have inside := ha.2.1
  obtain ⟨w, m, run, ended, k', l', climbedX, climbedY, -, -, children⟩ :=
    Lib.loop_total step (s := (x, y))
      ⟨k, l, hx, hy, rfl, level.symm, fun same => absurd same apart⟩
      (show f.depth x.node ≤ fuel by omega)
  have meet : w.1.node = w.2.node := by
    unfold File.meetStep at ended
    split at ended
    · cases ended
    · rename_i same
      exact not_not.mp same
  obtain ⟨hk, hl, differ⟩ := children meet
  obtain ⟨k, rfl⟩ := Nat.exists_eq_succ_of_ne_zero hk
  obtain ⟨l, rfl⟩ := Nat.exists_eq_succ_of_ne_zero hl
  exact ⟨k, l, w, run, climbedX, climbedY, meet, differ⟩

theorem belowLess_eq (valid : f.Valid) {x y : Climb} {k l : Nat} (hx : Climbed f a (k + 1) x)
    (hy : Climbed f b (l + 1) y) (meet : x.node = y.node) (differ : x.child ≠ y.child) :
    f.belowLess x y = decide (f.pathText a < f.pathText b) := by
  obtain ⟨xc, restA, keptX, treeX, parentX, followsX, textA⟩ := hx.text valid (Nat.succ_ne_zero k)
  obtain ⟨yc, restB, keptY, treeY, parentY, followsY, textB⟩ := hy.text valid (Nat.succ_ne_zero l)
  have children : xc ≠ yc := by
    intro same
    rw [keptX, keptY, same] at differ
    exact differ rfl
  rw [textA, textB, meet, File.belowLess, keptX, keptY]
  dsimp only [Option.getD_some]
  by_cases seps : f.separator xc = f.separator yc
  · have names : f.nameOf xc ≠ f.nameOf yc := fun same =>
      children (eq_of_parts valid treeX treeY (parentX.trans (meet.trans parentY.symm)) seps same)
    rw [if_neg (not_not_intro seps), nameLess_eq (isComponent_iff.mp (treeX.component valid))
      (isComponent_iff.mp (treeY.component valid)) followsX followsY names]
    refine decide_eq_decide.mpr ?_
    rw [append_lt_append, List.cons_lt_cons_iff, seps]
    exact ⟨fun h => Or.inr ⟨rfl, h⟩, fun h => (h.resolve_left (UInt8.lt_irrefl _)).2⟩
  · rw [if_pos seps]
    refine decide_eq_decide.mpr ?_
    rw [append_lt_append, List.cons_lt_cons_iff]
    exact ⟨Or.inl, fun h => h.resolve_right fun both => seps both.1⟩

theorem text_lt_of_climbed (valid : f.Valid) {c : Climb} {k : Nat} (h : Climbed f a k c)
    (hk : k ≠ 0) : f.pathText c.node < f.pathText a := by
  obtain ⟨child, rest, -, -, -, -, text⟩ := h.text valid hk
  rw [text]
  have shorter := append_lt_append (u := f.pathText c.node) (a := [])
    (b := f.separator child :: (f.nameOf child ++ rest))
  rw [List.append_nil] at shorter
  exact shorter.mpr (List.nil_lt_cons _ _)

end Climbing

/-! ## The comparison -/

section Comparison

variable {f : File} {a b : Nat}

theorem ancestor_eq (valid : f.Valid) {x y : Climb} {k l : Nat} (hx : Climbed f a k x)
    (hy : Climbed f b l y) (one : k = 0 ∨ l = 0) (meet : x.node = y.node) :
    (x.node = a && a ≠ b : Bool) = decide (f.pathText a < f.pathText b) := by
  have irrefl : ∀ text : Bytes, ¬ text < text := by
    intro text
    have same := append_lt_append (u := text) (a := []) (b := [])
    rw [List.append_nil] at same
    exact fun h => List.not_lt_nil _ (same.mp h)
  by_cases start : k = 0
  · subst start
    have here := hx.eq_start
    subst here
    by_cases same : a = b
    · subst same
      simp [irrefl]
    · have moved : l ≠ 0 := by
        rintro rfl
        have there := hy.eq_start
        subst there
        exact same meet
      have below := text_lt_of_climbed valid hy moved
      rw [← meet] at below
      simp [same, below]
  · have stays := one.resolve_left start
    subst stays
    have there := hy.eq_start
    subst there
    have moved : x.node ≠ a := by
      intro same
      have depth := hx.depth valid
      rw [same] at depth
      omega
    have above := text_lt_of_climbed valid hx start
    rw [meet] at above
    have notLess : ¬ f.pathText a < f.pathText b := by
      intro less
      exact List.lt_asymm less above
    simp [moved, notLess]

theorem textLess_eq (valid : f.Valid) (ha : f.Tree a) (hb : f.Tree b) {fuel : Nat}
    (hfuel : f.paths.length ≤ fuel) :
    f.textLess (depthsOf f.paths.tail) fuel a b =
      some (decide (f.pathText a < f.pathText b)) := by
  obtain ⟨k, x, runX, climbedX, depthX⟩ := climb_total valid ha (f.depth b) hfuel
  obtain ⟨l, y, runY, climbedY, depthY⟩ := climb_total valid hb (f.depth x.node) hfuel
  have upX := climbedX.depth valid
  have upY := climbedY.depth valid
  unfold File.textLess
  rw [show (depthsOf f.paths.tail).getD b 0 = f.depth b from rfl, runX]
  simp only [Option.bind_eq_bind, Option.bind_some]
  rw [show (depthsOf f.paths.tail).getD x.node 0 = f.depth x.node from rfl, runY]
  simp only [Option.bind_some]
  by_cases meet : x.node = y.node
  · rw [if_pos meet]
    exact congrArg some (ancestor_eq valid climbedX climbedY (by omega) meet)
  · obtain ⟨k', l', w, runW, climbedA, climbedB, same, differ⟩ :=
      meet_total valid ha hb climbedX climbedY (by omega) meet hfuel
    rw [if_neg meet, runW]
    exact congrArg some (belowLess_eq valid climbedA climbedB same differ)

/-- **The order of the path tree.**  In a file whose paths the validator accepts, a text names
one prim or property, the comparison of two of them ends and is that of their texts byte by byte,
and every walk to the root ends. -/
theorem pathTree_order {f : File} {depth : List Nat} (accepted : f.checkPaths = .ok depth) :
    (∀ a b, f.Tree a → f.Tree b → f.pathText a = f.pathText b → a = b) ∧
    (∀ fuel a b, f.paths.length ≤ fuel → f.Tree a → f.Tree b →
      f.textLess depth fuel a b = some (decide (f.pathText a < f.pathText b))) ∧
    (∀ i < f.paths.length, ∃ k ≤ i, (fun i => (f.node i).parent)^[k] i = 0) := by
  obtain ⟨valid, -, rfl⟩ := checkPaths_eq_ok.mp accepted
  refine ⟨?_, ?_, ?_⟩
  · intro a b ha hb same
    exact pathText_inj valid ha hb same
  · intro fuel a b hfuel ha hb
    exact textLess_eq valid ha hb hfuel
  · intro i hi
    exact walk_ends valid hi

/-- Prims `/a` and `/a-b` and a property `/a.x`: `-` stands below `.` and `/`. -/
def dashed : File where
  names := [[], [97], [97, 45, 98], [120]]
  paths := [rootNode, ⟨0, 1, .prim⟩, ⟨0, 2, .prim⟩, ⟨1, 3, .property⟩]
  rig := 1

theorem pathTree_order_dashed :
    dashed.textLess [0, 1, 1, 2] 4 2 3 = some true ∧
      dashed.pathText 2 < dashed.pathText 3 := by
  have accepted : dashed.checkPaths = .ok [0, 1, 1, 2] := by
    have valid : dashed.Valid :=
      { names_head := rfl
        names_ne := by decide
        names_nodup := by decide
        root := rfl
        node := by
          intro i hi bound
          have range : ∀ i < 4, 0 < i → dashed.checkNode i = .ok () := by decide
          exact (checkNode_eq_ok hi).mp (range i bound hi)
        nodup := by decide }
    exact checkPaths_eq_ok.mpr ⟨valid, rfl, rfl⟩
  have order := (pathTree_order accepted).2.1 4 2 3 (by decide)
    ⟨by decide, by decide, Or.inl rfl⟩ ⟨by decide, by decide, Or.inr rfl⟩
  have less : dashed.textLess [0, 1, 1, 2] 4 2 3 = some true := by decide
  refine ⟨less, ?_⟩
  rw [less] at order
  exact of_decide_eq_true (Option.some.inj order).symm

end Comparison

end RigExec.Paths
