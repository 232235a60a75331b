/-
# `RigExec.Registry.ReadRoots` — the scopes a rig reads

A worklist of scopes, from the assets' roots.  A scope is scanned once: the prims that its traversal
visits, and its ancestors; each prim once.  What a prim's relationships and connections name becomes
a scope, and waits to be scanned unless it lies below a scope that was.

    collectReadRoots    the worklist, and the scopes that lie below no other
    Covered             the closure, by path
    PassedOver          a reference that a turn does not queue
    Lossless            what a passed over reference leads to is covered all the same

A traversal leaves out what the default predicate does (the prims of an instance, those that are
inactive or undefined), and one that starts below such a prim visits it.  So a scope below another
may refer to what the wider one's scan does not meet.
-/
import RigExec.Lib.Loop
import RigExec.Lib.Pointwise
import RigExec.Lib.SortedList
import Mathlib.Data.String.Basic
import Mathlib.Data.List.Infix
import Mathlib.Algebra.GroupWithZero.Nat
import Mathlib.Algebra.Order.BigOperators.Group.List

namespace RigExec.ReadRoots

open Lib

/-! ## Stages -/

/-- The path of a prim, by names; the pseudo-root has none. -/
abbrev PrimPath := List String

/-- The stage as it is asked. -/
structure Stage (SdfPath : Type) where
  prims : List PrimPath
  /-- `UsdPrimRange(prim)`: the prim and those below it that the default traversal visits. -/
  range : PrimPath → List PrimPath
  /-- The targets of each relationship. -/
  relationships : PrimPath → List (List SdfPath)
  /-- The connections of each attribute. -/
  attributes : PrimPath → List (List SdfPath)
  /-- `target.GetPrimPath()`, if it is absolute and the path of a prim. -/
  primPath : SdfPath → Option PrimPath
  range_mem : ∀ path prim, prim ∈ range path → prim ∈ prims
  range_below : ∀ path prim, prim ∈ range path → path <+: prim
  parent_mem : ∀ path ∈ prims, ∀ parent, parent <+: path → parent ∈ prims

variable {SdfPath : Type} (stage : Stage SdfPath)

/-- The ancestors of a prim below the pseudo-root, the nearest first. -/
def ancestors (path : PrimPath) : List PrimPath :=
  (List.range (path.length - 1)).reverse.map fun n => path.take (n + 1)

/-- The prims that the scan of a scope visits. -/
def Stage.visited (path : PrimPath) : List PrimPath := stage.range path ++ ancestors path

/-- The prims that a prim's relationships and attributes name. -/
def Stage.referred (prim : PrimPath) : List PrimPath :=
  ((stage.relationships prim).flatten ++ (stage.attributes prim).flatten).filterMap stage.primPath

/-! ## `_CollectReadRoots` -/

/-- `roots`, `pending` from its back, `scannedPrims` and `scannedSubtrees`. -/
structure Walk where
  roots : List PrimPath
  pending : List PrimPath
  scannedPrims : List PrimPath
  scannedSubtrees : List PrimPath

/-- `enqueue`, of a target that names a prim. -/
def enqueue (s : Walk) (path : PrimPath) : Walk :=
  let s := { s with roots := insertUnique path s.roots }
  if s.scannedSubtrees.any fun scope => scope.isPrefixOf path then s
  else { s with pending := path :: s.pending }

def scan (s : Walk) (prim : PrimPath) : Walk :=
  if prim ∈ s.scannedPrims then s
  else (stage.referred prim).foldl enqueue { s with scannedPrims := prim :: s.scannedPrims }

/-- A turn of the loop. -/
def turn (s : Walk) : Option Walk :=
  match s.pending with
  | [] => none
  | path :: pending =>
      let s := { s with pending := pending }
      if path ∈ s.scannedSubtrees then some s
      else
        let s := { s with scannedSubtrees := path :: s.scannedSubtrees }
        if path ∈ stage.prims then some ((stage.visited path).foldl (scan stage) s) else some s

/-- The scopes that lie below no other. -/
def compact (roots : List PrimPath) : List PrimPath :=
  roots.foldl (fun kept path =>
    if kept.any fun root => root.isPrefixOf path then kept else kept ++ [path]) []

def start (assetRoots : List PrimPath) : Walk where
  roots := sortUnique assetRoots
  pending := (sortUnique assetRoots).reverse
  scannedPrims := []
  scannedSubtrees := []

/-- What the prims not yet scanned refer to. -/
def unscanned (scanned : List PrimPath) : Nat :=
  ((stage.prims.filter (· ∉ scanned)).map fun prim => (stage.referred prim).length).sum

/-- `_CollectReadRoots`, with a turn for each asset and each reference. -/
def collectReadRoots (assetRoots : List PrimPath) : Option (List PrimPath) :=
  (loop (turn stage) ((sortUnique assetRoots).length + unscanned stage [])
    (start assetRoots)).map fun s => compact s.roots

/-! ## What is to be collected -/

/-- The least set of paths that contains the start, and what lies below its paths, what its prims
refer to, and what the ancestors of its prims refer to. -/
inductive Covered (start : List PrimPath) : PrimPath → Prop where
  | start {path : PrimPath} : path ∈ start → Covered start path
  | under {scope path : PrimPath} : Covered start scope → scope <+: path → Covered start path
  | refers {prim path : PrimPath} : Covered start prim → prim ∈ stage.prims →
      path ∈ stage.referred prim → Covered start path
  | above {scope prim path : PrimPath} : Covered start scope → scope ∈ stage.prims →
      prim ∈ ancestors scope → path ∈ stage.referred prim → Covered start path

/-- No scope below another. -/
def Antichain (scopes : List PrimPath) : Prop :=
  scopes.Pairwise fun scope scope' => ¬scope <+: scope' ∧ ¬scope' <+: scope

/-- The read roots cover the closure: an antichain of scopes that has the same paths below. -/
def ReadRootsCover (assetRoots : List PrimPath) : Prop :=
  ∃ roots, collectReadRoots stage assetRoots = some roots ∧ Antichain roots ∧
    ∀ path, (∃ root ∈ roots, root <+: path) ↔ Covered stage assetRoots path

/-- A path lies below one of the scopes. -/
def Below (scopes : List PrimPath) (path : PrimPath) : Prop := ∃ scope ∈ scopes, scope <+: path

instance (scopes : List PrimPath) (path : PrimPath) : Decidable (Below scopes path) :=
  inferInstanceAs (Decidable (∃ scope ∈ scopes, scope <+: path))

/-! ## What the walk passes over -/

/-- The turn that takes up `path` does not queue a reference of a prim that the traversal leaves
out, nor one that lies below a scope already taken up. -/
def PassedOver (s : Walk) (path prim target : PrimPath) : Prop :=
  prim ∉ stage.visited path ∨ Below (path :: s.scannedSubtrees) target

/-- The scopes that wait when `path` is taken up: the others that are pending, and what the prims
visited refer to beyond the scopes taken up. -/
def Walk.waiting (s : Walk) (path : PrimPath) : List PrimPath :=
  s.pending.filter (· ∉ path :: s.scannedSubtrees) ++
    ((stage.visited path).flatMap stage.referred).filter
      fun target => ¬Below (path :: s.scannedSubtrees) target

/-- A turn of the walk takes up `path`, a prim that was not taken up before. -/
structure TakesUp (assetRoots : List PrimPath) (s : Walk) (path : PrimPath) : Prop where
  reached : Reaches (turn stage) (start assetRoots) s
  next : s.pending.head? = some path
  fresh : path ∉ s.scannedSubtrees
  prim : path ∈ stage.prims

/-- What a reference leads to that a turn passes over lies below a scope taken up by then, or is
covered by those that wait.  The references are of the prims below the scope, and of its
ancestors. -/
def Lossless (assetRoots : List PrimPath) : Prop :=
  ∀ s path, TakesUp stage assetRoots s path →
    ∀ prim ∈ stage.prims, path <+: prim ∨ prim ∈ ancestors path →
      ∀ target ∈ stage.referred prim, PassedOver stage s path prim target →
        ∀ led, Covered stage [target] led →
          Below (path :: s.scannedSubtrees) led ∨ Covered stage (s.waiting stage path) led

section Covering

variable {stage} {roots roots' : List PrimPath} {path prim target : PrimPath}

theorem Covered.trans (h : Covered stage roots path)
    (hroots : ∀ root ∈ roots, Covered stage roots' root) : Covered stage roots' path := by
  induction h with
  | start hin => exact hroots _ hin
  | under _ hbelow ih => exact .under ih hbelow
  | refers _ hprim hrefer ih => exact .refers ih hprim hrefer
  | above _ hscope hprim hrefer ih => exact .above ih hscope hprim hrefer

theorem Covered.mono (h : Covered stage roots path) (hsub : ∀ root ∈ roots, root ∈ roots') :
    Covered stage roots' path := by
  refine h.trans ?_
  intro root hroot
  exact .start (hsub root hroot)

theorem Covered.of_one (h : Covered stage roots path) :
    ∃ root ∈ roots, Covered stage [root] path := by
  induction h with
  | @start path hin => exact ⟨path, hin, .start (List.mem_singleton_self path)⟩
  | under _ hbelow ih =>
      obtain ⟨root, hroot, hcovered⟩ := ih
      exact ⟨root, hroot, .under hcovered hbelow⟩
  | refers _ hprim hrefer ih =>
      obtain ⟨root, hroot, hcovered⟩ := ih
      exact ⟨root, hroot, .refers hcovered hprim hrefer⟩
  | above _ hscope hprim hrefer ih =>
      obtain ⟨root, hroot, hcovered⟩ := ih
      exact ⟨root, hroot, .above hcovered hscope hprim hrefer⟩

theorem mem_ancestors : prim ∈ ancestors path ↔ prim <+: path ∧ prim ≠ [] ∧ prim ≠ path := by
  unfold ancestors
  constructor
  · intro h
    obtain ⟨n, hn, rfl⟩ := List.mem_map.mp h
    have hlt := List.mem_range.mp (List.mem_reverse.mp hn)
    have hlength : (path.take (n + 1)).length = n + 1 := by
      rw [List.length_take]
      omega
    refine ⟨List.take_prefix _ _, ?_, ?_⟩
    · intro hnil
      rw [hnil, List.length_nil] at hlength
      omega
    · intro hsame
      rw [hsame] at hlength
      omega
  · rintro ⟨hbegins, hne, hother⟩
    have hpos := List.length_pos_iff.mpr hne
    have hless : prim.length < path.length := by
      refine lt_of_le_of_ne hbegins.length_le ?_
      intro hlength
      exact hother (hbegins.eq_of_length hlength)
    refine List.mem_map.mpr ⟨prim.length - 1, ?_, ?_⟩
    · exact List.mem_reverse.mpr (List.mem_range.mpr (by omega))
    · rw [Nat.sub_add_cancel hpos]
      exact (List.prefix_iff_eq_take.mp hbegins).symm

theorem ancestors_below {scope : PrimPath} (hbelow : scope <+: path) (h : prim ∈ ancestors path) :
    scope <+: prim ∨ prim ∈ ancestors scope := by
  obtain ⟨hbegins, hne, -⟩ := mem_ancestors.mp h
  rcases List.prefix_or_prefix_of_prefix hbelow hbegins with hunder | hover
  · exact .inl hunder
  · by_cases hsame : prim = scope
    · exact .inl (hsame ▸ List.prefix_rfl)
    · exact .inr (mem_ancestors.mpr ⟨hover, hne, hsame⟩)

/-- A path that a scope covers lies below it, or is led to by a reference of a prim below the scope
or of an ancestor. -/
theorem Covered.first {scope : PrimPath} (h : Covered stage [scope] path) :
    scope <+: path ∨ scope ∈ stage.prims ∧ ∃ prim ∈ stage.prims,
      (scope <+: prim ∨ prim ∈ ancestors scope) ∧
        ∃ target ∈ stage.referred prim, Covered stage [target] path := by
  induction h with
  | start hin => exact .inl (List.mem_singleton.mp hin ▸ List.prefix_rfl)
  | under _ hbelow ih =>
      rcases ih with hunder | ⟨hscope, prim, hprim, hnear, target, htarget, hled⟩
      · exact .inl (hunder.trans hbelow)
      · exact .inr ⟨hscope, prim, hprim, hnear, target, htarget, .under hled hbelow⟩
  | @refers prim path _ hprim hrefer ih =>
      rcases ih with hunder | ⟨hscope, first, hfirst, hnear, target, htarget, hled⟩
      · exact .inr ⟨stage.parent_mem prim hprim scope hunder, prim, hprim, .inl hunder, path,
          hrefer, .start (List.mem_singleton_self path)⟩
      · exact .inr ⟨hscope, first, hfirst, hnear, target, htarget, .refers hled hprim hrefer⟩
  | @above low prim path _ hlow hprim hrefer ih =>
      rcases ih with hunder | ⟨hscope, first, hfirst, hnear, target, htarget, hled⟩
      · exact .inr ⟨stage.parent_mem low hlow scope hunder, prim,
          stage.parent_mem low hlow prim (mem_ancestors.mp hprim).1, ancestors_below hunder hprim,
          path, hrefer, .start (List.mem_singleton_self path)⟩
      · exact .inr ⟨hscope, first, hfirst, hnear, target, htarget, .above hled hlow hprim hrefer⟩

theorem visited_mem (hpath : path ∈ stage.prims) (h : prim ∈ stage.visited path) :
    prim ∈ stage.prims := by
  rcases List.mem_append.mp h with h | h
  · exact stage.range_mem path prim h
  · exact stage.parent_mem path hpath prim (mem_ancestors.mp h).1

theorem Covered.visited (h : Covered stage roots path) (hpath : path ∈ stage.prims)
    (hprim : prim ∈ stage.visited path) (hrefer : target ∈ stage.referred prim) :
    Covered stage roots target := by
  rcases List.mem_append.mp hprim with hrange | habove
  · exact .refers (.under h (stage.range_below path prim hrange)) (stage.range_mem path prim hrange)
      hrefer
  · exact .above h hpath habove hrefer

end Covering

/-! ## Scanning -/

/-- What the prims refer to that were not scanned. -/
def News (prims : List PrimPath) (s : Walk) (path : PrimPath) : Prop :=
  ∃ prim ∈ prims, prim ∉ s.scannedPrims ∧ path ∈ stage.referred prim

/-- The turns that are left, at most. -/
def left (s : Walk) : Nat := s.pending.length + unscanned stage s.scannedPrims

/-- What the scan of prims does. -/
structure Scanned (prims : List PrimPath) (s s' : Walk) : Prop where
  roots : ∀ path, path ∈ s'.roots ↔ path ∈ s.roots ∨ News stage prims s path
  pending : ∀ path, path ∈ s'.pending ↔
    path ∈ s.pending ∨ News stage prims s path ∧ ¬Below s.scannedSubtrees path
  scannedPrims : ∀ prim, prim ∈ s'.scannedPrims ↔ prim ∈ s.scannedPrims ∨ prim ∈ prims
  scannedSubtrees : s'.scannedSubtrees = s.scannedSubtrees
  ascending : Ascending s.roots → Ascending s'.roots
  left : (∀ prim ∈ prims, prim ∈ stage.prims) → left stage s' ≤ left stage s

section Scanning

variable {stage} {prims : List PrimPath} {s s' : Walk} {path prim : PrimPath}

theorem any_isPrefixOf {scopes : List PrimPath} :
    (scopes.any fun scope => scope.isPrefixOf path) = true ↔ Below scopes path := by
  rw [List.any_eq_true]
  exact exists_congr fun scope => and_congr_right fun _ => List.isPrefixOf_iff_prefix

theorem enqueue_eq (s : Walk) (path : PrimPath) : enqueue s path =
    { s with
      roots := insertUnique path s.roots
      pending := if Below s.scannedSubtrees path then s.pending else path :: s.pending } := by
  unfold enqueue
  dsimp only
  by_cases hbelow : Below s.scannedSubtrees path
  · rw [if_pos (any_isPrefixOf.mpr hbelow), if_pos hbelow]
  · rw [if_neg (mt any_isPrefixOf.mp hbelow), if_neg hbelow]

theorem enqueueAll_spec (l : List PrimPath) (s : Walk) :
    (∀ q, q ∈ (l.foldl enqueue s).roots ↔ q ∈ s.roots ∨ q ∈ l) ∧
      (∀ q, q ∈ (l.foldl enqueue s).pending ↔
        q ∈ s.pending ∨ q ∈ l ∧ ¬Below s.scannedSubtrees q) ∧
      (l.foldl enqueue s).scannedPrims = s.scannedPrims ∧
      (l.foldl enqueue s).scannedSubtrees = s.scannedSubtrees ∧
      (Ascending s.roots → Ascending (l.foldl enqueue s).roots) ∧
      (l.foldl enqueue s).pending.length ≤ s.pending.length + l.length := by
  induction l generalizing s with
  | nil =>
      refine ⟨?_, ?_, rfl, rfl, id, le_refl _⟩
      · intro q
        exact (or_iff_left List.not_mem_nil).symm
      · intro q
        exact (or_iff_left fun h => List.not_mem_nil h.1).symm
  | cons path l ih =>
      obtain ⟨hroots, hpending, hprims, hsubtrees, hascending, hlength⟩ := ih (enqueue s path)
      rw [enqueue_eq] at hroots hpending hprims hsubtrees hascending hlength
      dsimp only at hroots hpending hprims hsubtrees hascending hlength
      rw [List.foldl_cons, enqueue_eq]
      refine ⟨?_, ?_, hprims, hsubtrees, ?_, ?_⟩
      · intro q
        rw [hroots, mem_insertUnique, List.mem_cons]
        tauto
      · intro q
        rw [hpending, List.mem_cons]
        by_cases hbelow : Below s.scannedSubtrees path
        · rw [if_pos hbelow]
          constructor
          · rintro (hin | ⟨hin, hfree⟩)
            · exact .inl hin
            · exact .inr ⟨.inr hin, hfree⟩
          · rintro (hin | ⟨rfl | hin, hfree⟩)
            · exact .inl hin
            · exact absurd hbelow hfree
            · exact .inr ⟨hin, hfree⟩
        · rw [if_neg hbelow, List.mem_cons]
          constructor
          · rintro ((rfl | hin) | ⟨hin, hfree⟩)
            · exact .inr ⟨.inl rfl, hbelow⟩
            · exact .inl hin
            · exact .inr ⟨.inr hin, hfree⟩
          · rintro (hin | ⟨rfl | hin, hfree⟩)
            · exact .inl (.inr hin)
            · exact .inl (.inl rfl)
            · exact .inr ⟨hin, hfree⟩
      · intro hsorted
        exact hascending (ascending_insertUnique hsorted)
      · refine hlength.trans ?_
        rw [List.length_cons]
        split
        · omega
        · rw [List.length_cons]
          omega

theorem unscanned_cons {scanned : List PrimPath} (hmem : prim ∈ stage.prims)
    (hnew : prim ∉ scanned) :
    (stage.referred prim).length + unscanned stage (prim :: scanned) ≤ unscanned stage scanned := by
  unfold unscanned
  generalize stage.prims = prims at hmem
  induction prims with
  | nil => cases hmem
  | cons p prims ih =>
      have hmono : ((prims.filter (· ∉ prim :: scanned)).map
          fun q => (stage.referred q).length).sum ≤
          ((prims.filter (· ∉ scanned)).map fun q => (stage.referred q).length).sum := by
        refine List.Sublist.sum_le_sum (List.Sublist.map _ ?_) fun _ _ => Nat.zero_le _
        refine List.monotone_filter_right prims fun q hq => ?_
        simp only [decide_eq_true_eq, List.mem_cons, not_or] at hq ⊢
        exact hq.2
      by_cases hp : p = prim
      · subst hp
        rw [List.filter_cons_of_neg (by simp), List.filter_cons_of_pos (by simpa using hnew),
          List.map_cons, List.sum_cons]
        exact Nat.add_le_add_left hmono _
      · have hrest := ih ((List.mem_cons.mp hmem).resolve_left (Ne.symm hp))
        by_cases hin : p ∈ scanned
        · rw [List.filter_cons_of_neg (by simp [hin]), List.filter_cons_of_neg (by simp [hin])]
          exact hrest
        · rw [List.filter_cons_of_pos (by simp [hp, hin]), List.filter_cons_of_pos (by simp [hin]),
            List.map_cons, List.map_cons, List.sum_cons, List.sum_cons]
          omega

theorem Scanned.nil (s : Walk) : Scanned stage [] s s := by
  have hnone : ∀ q, ¬News stage [] s q := by
    rintro q ⟨prim, hprim, -⟩
    cases hprim
  refine ⟨?_, ?_, ?_, rfl, id, fun _ => le_refl _⟩
  · intro q
    exact (or_iff_left (hnone q)).symm
  · intro q
    exact (or_iff_left fun h => hnone q h.1).symm
  · intro p
    exact (or_iff_left List.not_mem_nil).symm

theorem scan_spec (s : Walk) (prim : PrimPath) : Scanned stage [prim] s (scan stage s prim) := by
  have hnews : ∀ q, News stage [prim] s q ↔ prim ∉ s.scannedPrims ∧ q ∈ stage.referred prim := by
    intro q
    constructor
    · rintro ⟨p, hp, hnew, hq⟩
      rw [List.mem_singleton.mp hp] at hnew hq
      exact ⟨hnew, hq⟩
    · rintro ⟨hnew, hq⟩
      exact ⟨prim, List.mem_singleton_self prim, hnew, hq⟩
  unfold scan
  by_cases hin : prim ∈ s.scannedPrims
  · rw [if_pos hin]
    refine ⟨?_, ?_, ?_, rfl, id, fun _ => le_refl _⟩
    · intro q
      exact (or_iff_left fun h => ((hnews q).mp h).1 hin).symm
    · intro q
      exact (or_iff_left fun h => ((hnews q).mp h.1).1 hin).symm
    · intro p
      refine (or_iff_left_of_imp ?_).symm
      intro hp
      exact List.mem_singleton.mp hp ▸ hin
  · rw [if_neg hin]
    obtain ⟨hroots, hpending, hprims, hsubtrees, hascending, hlength⟩ :=
      enqueueAll_spec (stage.referred prim) { s with scannedPrims := prim :: s.scannedPrims }
    refine ⟨?_, ?_, ?_, hsubtrees, hascending, ?_⟩
    · intro q
      rw [hroots, hnews, and_iff_right hin]
    · intro q
      rw [hpending, hnews, and_iff_right hin]
    · intro p
      rw [hprims, List.mem_cons, List.mem_singleton, or_comm]
    · intro hvalid
      have hless := unscanned_cons (hvalid prim (List.mem_singleton_self prim)) hin
      unfold ReadRoots.left
      rw [hprims]
      dsimp only at hlength ⊢
      omega

theorem Scanned.append {s'' : Walk} {prims' : List PrimPath} (h : Scanned stage prims s s')
    (h' : Scanned stage prims' s' s'') : Scanned stage (prims ++ prims') s s'' := by
  have hnews : ∀ q, News stage (prims ++ prims') s q ↔
      News stage prims s q ∨ News stage prims' s' q := by
    intro q
    constructor
    · rintro ⟨prim, hprim, hnew, hq⟩
      by_cases hin : prim ∈ prims
      · exact .inl ⟨prim, hin, hnew, hq⟩
      · refine .inr ⟨prim, (List.mem_append.mp hprim).resolve_left hin, ?_, hq⟩
        rw [h.scannedPrims, not_or]
        exact ⟨hnew, hin⟩
    · rintro (⟨prim, hprim, hnew, hq⟩ | ⟨prim, hprim, hnew, hq⟩)
      · exact ⟨prim, List.mem_append_left _ hprim, hnew, hq⟩
      · rw [h.scannedPrims, not_or] at hnew
        exact ⟨prim, List.mem_append_right _ hprim, hnew.1, hq⟩
  refine ⟨?_, ?_, ?_, h'.scannedSubtrees.trans h.scannedSubtrees, ?_, ?_⟩
  · intro q
    rw [h'.roots, h.roots, hnews, or_assoc]
  · intro q
    rw [h'.pending, h.pending, h.scannedSubtrees, hnews, or_and_right, or_assoc]
  · intro p
    rw [h'.scannedPrims, h.scannedPrims, List.mem_append, or_assoc]
  · intro hsorted
    exact h'.ascending (h.ascending hsorted)
  · intro hvalid
    refine (h'.left ?_).trans (h.left ?_)
    · intro p hp
      exact hvalid p (List.mem_append_right _ hp)
    · intro p hp
      exact hvalid p (List.mem_append_left _ hp)

theorem scanAll_spec (prims : List PrimPath) (s : Walk) :
    Scanned stage prims s (prims.foldl (scan stage) s) := by
  induction prims generalizing s with
  | nil => exact Scanned.nil s
  | cons prim prims ih => exact (scan_spec s prim).append (ih (scan stage s prim))

end Scanning

/-! ## Turns -/

/-- A turn drops a scope that was taken up, or takes it up: the prims that it visits are scanned. -/
theorem turn_cases {s s' : Walk} (h : turn stage s = some s') :
    ∃ path pending, s.pending = path :: pending ∧
      (path ∈ s.scannedSubtrees ∧ s' = { s with pending := pending } ∨
        path ∉ s.scannedSubtrees ∧
          Scanned stage (if path ∈ stage.prims then stage.visited path else [])
            { s with pending := pending, scannedSubtrees := path :: s.scannedSubtrees } s') := by
  unfold turn at h
  split at h
  · cases h
  rename_i path pending hpending
  refine ⟨path, pending, hpending, ?_⟩
  dsimp only at h
  by_cases hknown : path ∈ s.scannedSubtrees
  · rw [if_pos hknown] at h
    cases h
    exact .inl ⟨hknown, rfl⟩
  · rw [if_neg hknown] at h
    refine .inr ⟨hknown, ?_⟩
    by_cases hvalid : path ∈ stage.prims
    · rw [if_pos hvalid] at h ⊢
      cases h
      exact scanAll_spec _ _
    · rw [if_neg hvalid] at h ⊢
      cases h
      exact Scanned.nil _

theorem pending_of_turn {s : Walk} (h : turn stage s = none) : s.pending = [] := by
  unfold turn at h
  split at h
  · rename_i hpending
    exact hpending
  · dsimp only at h
    split_ifs at h

/-- The walk as it goes on: what is collected, and what of it is settled. -/
structure Walks (assetRoots : List PrimPath) (s : Walk) : Prop where
  ascending : Ascending s.roots
  sound : ∀ path ∈ s.roots, Covered stage assetRoots path
  pending : ∀ path ∈ s.pending, path ∈ s.roots
  scanned : ∀ scope ∈ s.scannedSubtrees, scope ∈ s.roots
  assets : ∀ path ∈ assetRoots, path ∈ s.pending ∨ path ∈ s.scannedSubtrees
  settled : ∀ path ∈ s.roots, path ∈ s.pending ∨ Below s.scannedSubtrees path
  referred : ∀ prim ∈ s.scannedPrims, ∀ path ∈ stage.referred prim, path ∈ s.roots
  done : ∀ scope ∈ s.scannedSubtrees, scope ∈ stage.prims →
    ∀ prim ∈ stage.visited scope, prim ∈ s.scannedPrims

section Turns

variable {stage} {assetRoots prims : List PrimPath} {s s' t : Walk} {path : PrimPath}

theorem walks_start (assetRoots : List PrimPath) : Walks stage assetRoots (start assetRoots) := by
  refine ⟨ascending_sortUnique _, ?_, ?_, ?_, ?_, ?_, ?_, ?_⟩
  · intro path hpath
    exact .start (mem_sortUnique.mp hpath)
  · intro path hpath
    exact List.mem_reverse.mp hpath
  · intro scope hscope
    cases hscope
  · intro path hpath
    exact .inl (List.mem_reverse.mpr (mem_sortUnique.mpr hpath))
  · intro path hpath
    exact .inl (List.mem_reverse.mpr hpath)
  · intro prim hprim
    cases hprim
  · intro scope hscope
    cases hscope

theorem Walks.drop {pending : List PrimPath} (h : Walks stage assetRoots s)
    (hpending : s.pending = path :: pending) (hknown : path ∈ s.scannedSubtrees) :
    Walks stage assetRoots { s with pending := pending } := by
  refine ⟨h.ascending, h.sound, ?_, h.scanned, ?_, ?_, h.referred, h.done⟩
  · intro q hq
    exact h.pending q (hpending ▸ List.mem_cons_of_mem path hq)
  · intro q hq
    rcases h.assets q hq with hin | hin
    · rw [hpending, List.mem_cons] at hin
      rcases hin with rfl | hin
      · exact .inr hknown
      · exact .inl hin
    · exact .inr hin
  · intro q hq
    rcases h.settled q hq with hin | hbelow
    · rw [hpending, List.mem_cons] at hin
      rcases hin with rfl | hin
      · exact .inr ⟨q, hknown, List.prefix_rfl⟩
      · exact .inl hin
    · exact .inr hbelow

theorem Walks.take {pending : List PrimPath} (h : Walks stage assetRoots s)
    (hpending : s.pending = path :: pending)
    (hprims : path ∈ stage.prims → prims = stage.visited path)
    (hcovered : ∀ prim ∈ prims, ∀ q ∈ stage.referred prim, Covered stage assetRoots q)
    (hscanned : Scanned stage prims
      { s with pending := pending, scannedSubtrees := path :: s.scannedSubtrees } s') :
    Walks stage assetRoots s' := by
  have hkept : ∀ q, q ∈ s.pending → q ∈ s'.pending ∨ q ∈ s'.scannedSubtrees := by
    intro q hq
    rw [hscanned.pending, hscanned.scannedSubtrees]
    rw [hpending, List.mem_cons] at hq
    rcases hq with rfl | hq
    · exact .inr List.mem_cons_self
    · exact .inl (.inl hq)
  have hsub : ∀ q ∈ s.scannedSubtrees, q ∈ s'.scannedSubtrees := by
    intro q hq
    rw [hscanned.scannedSubtrees]
    exact List.mem_cons_of_mem path hq
  refine ⟨hscanned.ascending h.ascending, ?_, ?_, ?_, ?_, ?_, ?_, ?_⟩
  · intro q hq
    rcases (hscanned.roots q).mp hq with hq | ⟨prim, hprim, -, hrefer⟩
    · exact h.sound q hq
    · exact hcovered prim hprim q hrefer
  · intro q hq
    rw [hscanned.roots]
    rcases (hscanned.pending q).mp hq with hq | ⟨hnews, -⟩
    · exact .inl (h.pending q (hpending ▸ List.mem_cons_of_mem path hq))
    · exact .inr hnews
  · intro q hq
    rw [hscanned.scannedSubtrees] at hq
    rw [hscanned.roots]
    rcases List.mem_cons.mp hq with rfl | hq
    · exact .inl (h.pending q (hpending ▸ List.mem_cons_self))
    · exact .inl (h.scanned q hq)
  · intro q hq
    rcases h.assets q hq with hin | hin
    · exact hkept q hin
    · exact .inr (hsub q hin)
  · intro q hq
    have hold : q ∈ s.roots → q ∈ s'.pending ∨ Below s'.scannedSubtrees q := by
      intro hin
      rcases h.settled q hin with hin | ⟨scope, hscope, hbelow⟩
      · exact (hkept q hin).imp_right fun hin => ⟨q, hin, List.prefix_rfl⟩
      · exact .inr ⟨scope, hsub scope hscope, hbelow⟩
    rcases (hscanned.roots q).mp hq with hin | hnews
    · exact hold hin
    · rw [hscanned.pending, hscanned.scannedSubtrees]
      by_cases hbelow : Below (path :: s.scannedSubtrees) q
      · exact .inr hbelow
      · exact .inl (.inr ⟨hnews, hbelow⟩)
  · intro prim hprim q hq
    rw [hscanned.roots]
    by_cases hin : prim ∈ s.scannedPrims
    · exact .inl (h.referred prim hin q hq)
    · have hnew := ((hscanned.scannedPrims prim).mp hprim).resolve_left hin
      exact .inr ⟨prim, hnew, hin, hq⟩
  · intro scope hscope hvalid prim hprim
    rw [hscanned.scannedSubtrees, List.mem_cons] at hscope
    rw [hscanned.scannedPrims]
    rcases hscope with rfl | hscope
    · rw [hprims hvalid]
      exact .inr hprim
    · exact .inl (h.done scope hscope hvalid prim hprim)

theorem Walks.covered {prim : PrimPath} (h : Walks stage assetRoots s) (hpath : path ∈ s.pending)
    (hprim : prim ∈ if path ∈ stage.prims then stage.visited path else []) :
    ∀ q ∈ stage.referred prim, Covered stage assetRoots q := by
  intro q hq
  split at hprim
  · next hvalid => exact (h.sound path (h.pending path hpath)).visited hvalid hprim hq
  · cases hprim

/-- **A turn goes on**, and leaves one turn less. -/
theorem Walks.turn (h : Walks stage assetRoots s) (hturn : turn stage s = some s') :
    Walks stage assetRoots s' ∧ left stage s' < left stage s := by
  obtain ⟨path, pending, hpending, hcases⟩ := turn_cases stage hturn
  have hless : pending.length + unscanned stage s.scannedPrims < left stage s := by
    unfold left
    rw [hpending, List.length_cons]
    omega
  rcases hcases with ⟨hknown, rfl⟩ | ⟨-, hscanned⟩
  · exact ⟨h.drop hpending hknown, hless⟩
  · refine ⟨h.take hpending (fun hvalid => if_pos hvalid) ?_ hscanned, ?_⟩
    · intro prim hprim
      exact h.covered (hpending ▸ List.mem_cons_self) hprim
    · refine lt_of_le_of_lt (hscanned.left ?_) hless
      intro prim hprim
      split at hprim
      · next hvalid => exact visited_mem hvalid hprim
      · cases hprim

theorem walks_of_reaches (h : Reaches (turn stage) (start assetRoots) s) :
    Walks stage assetRoots s :=
  h.invariant (fun _ _ hwalks hturn => (hwalks.turn hturn).1) (walks_start assetRoots)

theorem exists_end (stage : Stage SdfPath) (assetRoots : List PrimPath) :
    ∃ s, Reaches (ReadRoots.turn stage) (start assetRoots) s ∧ s.pending = [] ∧
      collectReadRoots stage assetRoots = some (compact s.roots) := by
  obtain ⟨s, n, hloop, hturn, hreaches, -⟩ :=
    loop_total (P := fun n s => Reaches (ReadRoots.turn stage) (start assetRoots) s ∧
      left stage s = n)
    (by
      rintro n s s' ⟨hreaches, rfl⟩ hturn
      exact ⟨_, ((walks_of_reaches hreaches).turn hturn).2, hreaches.tail hturn, rfl⟩)
    ⟨Relation.ReflTransGen.refl, rfl⟩ (le_of_eq (by
      unfold left
      rw [start, List.length_reverse]))
  refine ⟨s, hreaches, pending_of_turn stage hturn, ?_⟩
  rw [collectReadRoots, hloop]
  rfl

end Turns

/-! ## Scopes that lie below no other -/

section Compact

theorem compact_from {roots kept : List PrimPath} (hroots : Ascending roots)
    (hkept : ∀ k ∈ kept, ∀ r ∈ roots, k < r) (hanti : Antichain kept) :
    let out := roots.foldl (fun kept path =>
      if kept.any fun root => root.isPrefixOf path then kept else kept ++ [path]) kept
    Antichain out ∧ (∀ k ∈ out, k ∈ kept ∨ k ∈ roots) ∧
      ∀ r, r ∈ kept ∨ r ∈ roots → ∃ k ∈ out, k <+: r := by
  induction roots generalizing kept with
  | nil =>
      refine ⟨hanti, fun k hk => .inl hk, fun r hr => ⟨r, ?_, List.prefix_rfl⟩⟩
      exact hr.resolve_right List.not_mem_nil
  | cons path roots ih =>
      intro out
      obtain ⟨habove, hrest⟩ := List.pairwise_cons.mp hroots
      by_cases hcovered : (kept.any fun root => root.isPrefixOf path) = true
      · obtain ⟨hout, hsub, hcover⟩ := ih hrest
          (fun k hk r hr => hkept k hk r (List.mem_cons_of_mem path hr)) hanti
        have heq : out = roots.foldl (fun kept path =>
            if kept.any fun root => root.isPrefixOf path then kept else kept ++ [path]) kept := by
          show List.foldl _ (if _ then _ else _) _ = _
          rw [if_pos hcovered]
        rw [heq]
        refine ⟨hout, fun k hk => (hsub k hk).imp_right (List.mem_cons_of_mem path), ?_⟩
        rintro r (hr | hr)
        · exact hcover r (.inl hr)
        rcases List.mem_cons.mp hr with rfl | hr
        · obtain ⟨root, hroot, hbelow⟩ := any_isPrefixOf.mp hcovered
          obtain ⟨k, hk, hbegins⟩ := hcover root (.inl hroot)
          exact ⟨k, hk, hbegins.trans hbelow⟩
        · exact hcover r (.inr hr)
      · have hfree : ∀ k ∈ kept, ¬k <+: path ∧ ¬path <+: k := by
          intro k hk
          refine ⟨fun hbelow => hcovered (any_isPrefixOf.mpr ⟨k, hk, hbelow⟩), fun habove => ?_⟩
          exact absurd (hkept k hk path List.mem_cons_self) (List.not_lt.mpr habove.le)
        have hkept' : ∀ k ∈ kept ++ [path], ∀ r ∈ roots, k < r := by
          intro k hk r hr
          rcases List.mem_append.mp hk with hk | hk
          · exact hkept k hk r (List.mem_cons_of_mem path hr)
          · rw [List.mem_singleton.mp hk]
            exact habove r hr
        have hanti' : Antichain (kept ++ [path]) := by
          refine List.pairwise_append.mpr ⟨hanti, List.pairwise_singleton _ _, fun k hk q hq => ?_⟩
          rw [List.mem_singleton.mp hq]
          exact hfree k hk
        obtain ⟨hout, hsub, hcover⟩ := ih hrest hkept' hanti'
        have heq : out = roots.foldl (fun kept path =>
            if kept.any fun root => root.isPrefixOf path then kept else kept ++ [path])
              (kept ++ [path]) := by
          show List.foldl _ (if _ then _ else _) _ = _
          rw [if_neg hcovered]
        rw [heq]
        refine ⟨hout, fun k hk => ?_, ?_⟩
        · rcases hsub k hk with hin | hin
          · rw [List.mem_append, List.mem_singleton] at hin
            rcases hin with hin | rfl
            · exact .inl hin
            · exact .inr List.mem_cons_self
          · exact .inr (List.mem_cons_of_mem path hin)
        · rintro r (hr | hr)
          · exact hcover r (.inl (List.mem_append_left _ hr))
          rcases List.mem_cons.mp hr with rfl | hr
          · exact hcover r (.inl (List.mem_append_right _ (List.mem_singleton_self r)))
          · exact hcover r (.inr hr)

theorem compact_spec {roots : List PrimPath} (h : Ascending roots) :
    Antichain (compact roots) ∧ (∀ k ∈ compact roots, k ∈ roots) ∧
      ∀ r ∈ roots, ∃ k ∈ compact roots, k <+: r := by
  obtain ⟨hanti, hsub, hcover⟩ := @compact_from roots [] h
    (fun k hk => absurd hk List.not_mem_nil) List.Pairwise.nil
  exact ⟨hanti, fun k hk => (hsub k hk).resolve_left List.not_mem_nil,
    fun r hr => hcover r (.inr hr)⟩

end Compact

/-! ## The closure -/

/-- What a state of the walk covers: what lies below the scopes taken up, and the closure of those
that wait. -/
def Held (s : Walk) (path : PrimPath) : Prop :=
  Below s.scannedSubtrees path ∨ Covered stage (s.pending.filter (· ∉ s.scannedSubtrees)) path

section Closure

variable {stage} {assetRoots roots pending : List PrimPath} {s s' t : Walk} {path : PrimPath}

theorem waiting_of_pending {q : PrimPath} (hin : q ∈ s.pending)
    (hnew : q ∉ path :: s.scannedSubtrees) : q ∈ s.waiting stage path := by
  refine List.mem_append_left _ (List.mem_filter.mpr ⟨hin, ?_⟩)
  exact decide_eq_true hnew

theorem mem_waiting (hwalks : Walks stage assetRoots s) (hpending : s.pending = path :: pending)
    (hscanned : Scanned stage (stage.visited path)
      { s with pending := pending, scannedSubtrees := path :: s.scannedSubtrees } s')
    (q : PrimPath) :
    q ∈ s.waiting stage path ↔ q ∈ s'.pending.filter (· ∉ s'.scannedSubtrees) := by
  rw [List.mem_filter, hscanned.pending, hscanned.scannedSubtrees, decide_eq_true_eq]
  constructor
  · intro h
    rcases List.mem_append.mp h with h | h
    · obtain ⟨hin, hnew⟩ := List.mem_filter.mp h
      rw [decide_eq_true_eq] at hnew
      rw [hpending, List.mem_cons] at hin
      refine ⟨.inl (hin.resolve_left ?_), hnew⟩
      rintro rfl
      exact hnew List.mem_cons_self
    · obtain ⟨hrefer, hfree⟩ := List.mem_filter.mp h
      rw [decide_eq_true_eq] at hfree
      have hnew : q ∉ path :: s.scannedSubtrees := fun hin => hfree ⟨q, hin, List.prefix_rfl⟩
      refine ⟨?_, hnew⟩
      obtain ⟨prim, hprim, hq⟩ := List.mem_flatMap.mp hrefer
      by_cases hold : prim ∈ s.scannedPrims
      · -- the prim was scanned before, and the reference waits since then
        rcases hwalks.settled q (hwalks.referred prim hold q hq) with hin | ⟨scope, hscope, hbelow⟩
        · rw [hpending, List.mem_cons] at hin
          refine .inl (hin.resolve_left ?_)
          rintro rfl
          exact hnew List.mem_cons_self
        · exact absurd ⟨scope, List.mem_cons_of_mem path hscope, hbelow⟩ hfree
      · exact .inr ⟨⟨prim, hprim, hold, hq⟩, hfree⟩
  · rintro ⟨hin | ⟨⟨prim, hprim, -, hq⟩, hfree⟩, hnew⟩
    · exact waiting_of_pending (hpending ▸ List.mem_cons_of_mem path hin) hnew
    · refine List.mem_append_right _ (List.mem_filter.mpr ⟨?_, decide_eq_true hfree⟩)
      exact List.mem_flatMap.mpr ⟨prim, hprim, hq⟩

theorem held_iff (hwalks : Walks stage assetRoots s) (hpending : s.pending = path :: pending)
    (hscanned : Scanned stage (stage.visited path)
      { s with pending := pending, scannedSubtrees := path :: s.scannedSubtrees } s')
    (q : PrimPath) :
    Held stage s' q ↔
      Below (path :: s.scannedSubtrees) q ∨ Covered stage (s.waiting stage path) q := by
  unfold Held
  have hwaiting := mem_waiting hwalks hpending hscanned
  rw [hscanned.scannedSubtrees] at hwaiting ⊢
  constructor
  · intro h
    exact h.imp_right fun hcovered => hcovered.mono fun root hroot => (hwaiting root).mpr hroot
  · intro h
    exact h.imp_right fun hcovered => hcovered.mono fun root hroot => (hwaiting root).mp hroot

theorem held_of_takesUp (hlossless : Lossless stage assetRoots)
    (htakes : TakesUp stage assetRoots s path) {led : PrimPath} (hled : Covered stage [path] led) :
    Below (path :: s.scannedSubtrees) led ∨ Covered stage (s.waiting stage path) led := by
  rcases hled.first with hunder | ⟨-, prim, hprim, hnear, target, htarget, hled⟩
  · exact .inl ⟨path, List.mem_cons_self, hunder⟩
  by_cases hover : PassedOver stage s path prim target
  · exact hlossless s path htakes prim hprim hnear target htarget hover led hled
  · obtain ⟨hvisited, hfree⟩ := not_or.mp hover
    refine .inr (hled.mono ?_)
    intro root hroot
    rw [List.mem_singleton.mp hroot]
    refine List.mem_append_right _ (List.mem_filter.mpr ⟨?_, decide_eq_true hfree⟩)
    exact List.mem_flatMap.mpr ⟨prim, not_not.mp hvisited, htarget⟩

/-- **A turn loses nothing**: what was covered before it is covered after it. -/
theorem Held.turn (hlossless : Lossless stage assetRoots)
    (hreaches : Reaches (turn stage) (start assetRoots) s) (hturn : turn stage s = some s') :
    (∀ q, Held stage s q → Held stage s' q) ∧
      ∀ scope ∈ s'.scannedSubtrees, scope ∉ s.scannedSubtrees →
        ∀ q, Covered stage [scope] q → Held stage s' q := by
  have hwalks := walks_of_reaches hreaches
  obtain ⟨path, pending, hpending, ⟨hknown, rfl⟩ | ⟨hnew, hscanned⟩⟩ := turn_cases stage hturn
  · refine ⟨?_, fun scope hscope hnew => absurd hscope hnew⟩
    intro q hq
    refine hq.imp_right fun hcovered => hcovered.mono ?_
    intro root hroot
    obtain ⟨hin, hfree⟩ := List.mem_filter.mp hroot
    refine List.mem_filter.mpr ⟨?_, hfree⟩
    rw [hpending, List.mem_cons] at hin
    refine hin.resolve_left ?_
    rintro rfl
    exact of_decide_eq_true hfree hknown
  -- the scope taken up is covered, and so is whatever else waited
  have hself : ∀ q, Covered stage [path] q → Held stage s' q := by
    intro q hq
    by_cases hvalid : path ∈ stage.prims
    · rw [if_pos hvalid] at hscanned
      have hnext : s.pending.head? = some path := by
        rw [hpending]
        rfl
      have htakes : TakesUp stage assetRoots s path := ⟨hreaches, hnext, hnew, hvalid⟩
      exact (held_iff hwalks hpending hscanned q).mpr (held_of_takesUp hlossless htakes hq)
    · rcases hq.first with hunder | ⟨hprim, -⟩
      · refine .inl ⟨path, ?_, hunder⟩
        rw [hscanned.scannedSubtrees]
        exact List.mem_cons_self
      · exact absurd hprim hvalid
  refine ⟨?_, ?_⟩
  · rintro q (⟨scope, hscope, hbelow⟩ | hcovered)
    · refine .inl ⟨scope, ?_, hbelow⟩
      rw [hscanned.scannedSubtrees]
      exact List.mem_cons_of_mem path hscope
    · obtain ⟨root, hroot, hcovered⟩ := hcovered.of_one
      obtain ⟨hin, hfree⟩ := List.mem_filter.mp hroot
      by_cases hsame : root = path
      · exact hself q (hsame ▸ hcovered)
      · refine .inr (hcovered.mono ?_)
        intro other hother
        rw [List.mem_singleton.mp hother]
        rw [hpending, List.mem_cons] at hin
        refine List.mem_filter.mpr ⟨?_, decide_eq_true ?_⟩
        · rw [hscanned.pending]
          exact .inl (hin.resolve_left hsame)
        · rw [hscanned.scannedSubtrees, List.mem_cons, not_or]
          exact ⟨hsame, of_decide_eq_true hfree⟩
  · intro scope hscope hfresh q hq
    rw [hscanned.scannedSubtrees] at hscope
    rcases List.mem_cons.mp hscope with rfl | hscope
    · exact hself q hq
    · exact absurd hscope hfresh

theorem readRootsCover_iff (hreaches : Reaches (turn stage) (start assetRoots) t)
    (hend : t.pending = [])
    (hcollect : collectReadRoots stage assetRoots = some (compact t.roots)) :
    ReadRootsCover stage assetRoots ↔
      ∀ q, Covered stage assetRoots q → Below t.scannedSubtrees q := by
  have hwalks := walks_of_reaches hreaches
  obtain ⟨hanti, hsub, hcover⟩ := compact_spec hwalks.ascending
  constructor
  · rintro ⟨roots, hroots, -, hclosure⟩ q hq
    cases hcollect.symm.trans hroots
    obtain ⟨root, hroot, hbelow⟩ := (hclosure q).mpr hq
    rcases hwalks.settled root (hsub root hroot) with hin | ⟨scope, hscope, hover⟩
    · rw [hend] at hin
      cases hin
    · exact ⟨scope, hscope, hover.trans hbelow⟩
  · intro hbelow
    refine ⟨_, hcollect, hanti, fun q => ⟨?_, ?_⟩⟩
    · rintro ⟨root, hroot, hunder⟩
      exact .under (hwalks.sound root (hsub root hroot)) hunder
    · intro hq
      obtain ⟨scope, hscope, hunder⟩ := hbelow q hq
      obtain ⟨root, hroot, hover⟩ := hcover scope (hwalks.scanned scope hscope)
      exact ⟨root, hroot, hover.trans hunder⟩

/-- What a walk has settled is closed, if every traversal visits all the prims below its scope. -/
theorem below_of_whole (ht : Reaches (turn stage) (start assetRoots) t) (hend : t.pending = [])
    (hwhole : ∀ path ∈ stage.prims, ∀ prim ∈ stage.prims, path <+: prim → prim ∈ stage.range path)
    {q : PrimPath} (hq : Covered stage assetRoots q) : Below t.scannedSubtrees q := by
  have hwalks := walks_of_reaches ht
  have hsettled : ∀ root ∈ t.roots, Below t.scannedSubtrees root := by
    intro root hroot
    refine (hwalks.settled root hroot).resolve_left ?_
    intro hin
    rw [hend] at hin
    cases hin
  have hrefers : ∀ scope ∈ t.scannedSubtrees, scope ∈ stage.prims →
      ∀ prim ∈ stage.prims, scope <+: prim ∨ prim ∈ ancestors scope →
        ∀ target ∈ stage.referred prim, Below t.scannedSubtrees target := by
    intro scope hscope hvalid prim hprim hnear target htarget
    have hvisited : prim ∈ stage.visited scope := by
      rcases hnear with hunder | habove
      · exact List.mem_append_left _ (hwhole scope hvalid prim hprim hunder)
      · exact List.mem_append_right _ habove
    have hscanned := hwalks.done scope hscope hvalid prim hvisited
    exact hsettled target (hwalks.referred prim hscanned target htarget)
  induction hq with
  | @start path hin =>
      refine hsettled path ?_
      exact (hwalks.assets path hin).elim (hwalks.pending path) (hwalks.scanned path)
  | under _ hbelow ih =>
      obtain ⟨scope, hscope, hover⟩ := ih
      exact ⟨scope, hscope, hover.trans hbelow⟩
  | @refers prim target _ hprim htarget ih =>
      obtain ⟨scope, hscope, hover⟩ := ih
      exact hrefers scope hscope (stage.parent_mem prim hprim scope hover) prim hprim (.inl hover)
        target htarget
  | @above low prim target _ hlow hprim htarget ih =>
      obtain ⟨scope, hscope, hover⟩ := ih
      exact hrefers scope hscope (stage.parent_mem low hlow scope hover) prim
        (stage.parent_mem low hlow prim (mem_ancestors.mp hprim).1) (ancestors_below hover hprim)
        target htarget

end Closure

theorem readRootsCover_of_whole (assetRoots : List PrimPath)
    (hwhole : ∀ path ∈ stage.prims, ∀ prim ∈ stage.prims, path <+: prim →
      prim ∈ stage.range path) : ReadRootsCover stage assetRoots := by
  obtain ⟨t, hreaches, hend, hcollect⟩ := exists_end stage assetRoots
  refine (readRootsCover_iff hreaches hend hcollect).mpr ?_
  intro q hq
  exact below_of_whole hreaches hend hwhole hq

/-! ## A stage with an instance -/

end RigExec.ReadRoots
