/-
# `RigExec.OpGraph.Exclusions` — compiling again with what was excluded

A graph compiled with its cycles set aside can be compiled again from a list in which
some of the cycle members are gone, with a proof that names them all:

    keys          members that still have a descriptor; they stay excluded
    removedKeys   members whose descriptor is gone

`dropDescriptors` is the list without the removed ones.  Its places are those of the
survivors (`placeOf`), and between survivors it has the same dependencies
(`depends_drop`).  Left among the others there is no cycle, since every vertex of one
was a member, so the second compilation finds no component of its own and has the
reports of the proof.  Its order is the first one with the places renamed
(`Lib.Placed.least_eq`).

What the second compilation does ask for is a producer for every read.  A dropped
member takes its writes along, and a descriptor that still reads them is refused.
-/
import RigExec.OpGraph.Cycles

namespace RigExec.OpGraph

open Lib (sortUnique Ascending OrderOf Placed)

/-! ## The list without some descriptors -/

/-- The descriptors left when those with certain keys are dropped. -/
def survivors (descriptors : List OpDescriptor) (removed : List String) : List Nat :=
  (List.range descriptors.length).filter fun i => !removed.contains (keyOf descriptors i)

/-- The place a survivor has among the survivors. -/
def placeOf (descriptors : List OpDescriptor) (removed : List String) (i : Nat) : Nat :=
  (survivors descriptors removed).idxOf i

/-- A descriptor with its predecessors renumbered; those that are gone are left out. -/
def OpDescriptor.renumber (left : List Nat) (d : OpDescriptor) : OpDescriptor :=
  { d with predecessors := (d.predecessors.filter left.contains).map left.idxOf }

/-- The list without the descriptors of certain keys. -/
def dropDescriptors (descriptors : List OpDescriptor) (removed : List String) :
    List OpDescriptor :=
  let left := survivors descriptors removed
  left.map fun i => (descriptors[i]?.getD { key := "" }).renumber left

/-- The proof made of a graph's cycles. -/
def exclusionProof (graph : CompiledGraph) (keys removed : List String) : OpExclusionProof where
  keys := keys
  removedKeys := removed
  cycles := graph.cycles
  cycleMembers := graph.cycleMembers

section

variable {descriptors : List OpDescriptor} {removed : List String} {i j k : Nat}

theorem mem_survivors : i ∈ survivors descriptors removed ↔
    i < descriptors.length ∧ keyOf descriptors i ∉ removed := by
  simp [survivors, List.mem_filter]

theorem nodup_survivors : (survivors descriptors removed).Nodup :=
  List.nodup_range.filter _

theorem length_dropDescriptors :
    (dropDescriptors descriptors removed).length = (survivors descriptors removed).length := by
  rw [dropDescriptors, List.length_map]

theorem getElem?_placeOf (hi : i ∈ survivors descriptors removed) :
    (dropDescriptors descriptors removed)[placeOf descriptors removed i]? =
      descriptors[i]?.map (OpDescriptor.renumber (survivors descriptors removed)) := by
  rw [dropDescriptors, List.getElem?_map, placeOf, (getElem?_idxOf_iff nodup_survivors hi).mpr rfl,
    List.getElem?_eq_getElem (mem_survivors.mp hi).1]
  simp only [Option.map_some, Option.getD_some, List.getElem?_eq_getElem (mem_survivors.mp hi).1]

theorem placeOf_injective (hi : i ∈ survivors descriptors removed)
    (h : placeOf descriptors removed i = placeOf descriptors removed j) : i = j :=
  (List.idxOf_inj hi).mp h

theorem exists_placeOf (hk : k < (dropDescriptors descriptors removed).length) :
    ∃ i ∈ survivors descriptors removed, placeOf descriptors removed i = k := by
  rw [length_dropDescriptors] at hk
  exact ⟨(survivors descriptors removed)[k], List.getElem_mem hk,
    List.Nodup.idxOf_getElem nodup_survivors k hk⟩

theorem placeOf_lt (hi : i ∈ survivors descriptors removed) :
    placeOf descriptors removed i < (dropDescriptors descriptors removed).length := by
  rw [length_dropDescriptors]
  exact List.idxOf_lt_length_of_mem hi

theorem keyOf_drop (hi : i ∈ survivors descriptors removed) :
    keyOf (dropDescriptors descriptors removed) (placeOf descriptors removed i) =
      keyOf descriptors i := by
  rw [keyOf, getElem?_placeOf hi, keyOf]
  cases descriptors[i]? <;> rfl

/-- **Survivors depend on each other as before.** -/
theorem depends_drop (hi : i ∈ survivors descriptors removed)
    (hj : j ∈ survivors descriptors removed) :
    Depends (dropDescriptors descriptors removed) (placeOf descriptors removed i)
        (placeOf descriptors removed j) ↔ Depends descriptors i j := by
  have hpredecessors : ∀ list : List Nat,
      placeOf descriptors removed j ∈
        (list.filter (survivors descriptors removed).contains).map
          (survivors descriptors removed).idxOf ↔ j ∈ list := by
    intro list
    rw [List.mem_map]
    constructor
    · rintro ⟨p, hp, heq⟩
      exact placeOf_injective hj heq.symm ▸ (List.mem_filter.mp hp).1
    · intro hin
      exact ⟨j, List.mem_filter.mpr ⟨hin, List.contains_iff_mem.mpr hj⟩, rfl⟩
  simp only [Depends, getElem?_placeOf hi, getElem?_placeOf hj, Option.map_eq_some_iff]
  constructor
  · rintro ⟨_, ⟨d, hd, rfl⟩, hp | ⟨value, hread, _, ⟨w, hw, rfl⟩, hwrite⟩⟩
    · exact ⟨d, hd, Or.inl ((hpredecessors d.predecessors).mp hp)⟩
    · exact ⟨d, hd, Or.inr ⟨value, hread, w, hw, hwrite⟩⟩
  · rintro ⟨d, hd, hp | ⟨value, hread, w, hw, hwrite⟩⟩
    · exact ⟨_, ⟨d, hd, rfl⟩, Or.inl ((hpredecessors d.predecessors).mpr hp)⟩
    · exact ⟨_, ⟨d, hd, rfl⟩, Or.inr ⟨value, hread, _, ⟨w, hw, rfl⟩, hwrite⟩⟩

theorem mem_dropDescriptors {d : OpDescriptor} :
    d ∈ dropDescriptors descriptors removed ↔ ∃ e ∈ descriptors, e.key ∉ removed ∧
      d = e.renumber (survivors descriptors removed) := by
  rw [dropDescriptors, List.mem_map]
  constructor
  · rintro ⟨i, hi, rfl⟩
    obtain ⟨hlt, hkey⟩ := mem_survivors.mp hi
    rw [keyOf, List.getElem?_eq_getElem hlt] at hkey
    rw [List.getElem?_eq_getElem hlt]
    exact ⟨descriptors[i], List.getElem_mem hlt, hkey, rfl⟩
  · rintro ⟨e, he, hkey, rfl⟩
    obtain ⟨i, hi⟩ := List.mem_iff_getElem?.mp he
    refine ⟨i, mem_survivors.mpr ⟨(List.getElem?_eq_some_iff.mp hi).1, ?_⟩, by rw [hi]; rfl⟩
    rw [keyOf, hi]
    exact hkey

theorem pairwise_drop {R : OpDescriptor → OpDescriptor → Prop} (hR : descriptors.Pairwise R)
    (hrenumber : ∀ left a b, R a b → R (a.renumber left) (b.renumber left)) :
    (dropDescriptors descriptors removed).Pairwise R := by
  rw [dropDescriptors, List.pairwise_map]
  have hascending : (survivors descriptors removed).Pairwise (· < ·) :=
    List.pairwise_lt_range.filter _
  refine hascending.imp_of_mem ?_
  intro a b ha hb hab
  have hlta := (mem_survivors.mp ha).1
  have hltb := (mem_survivors.mp hb).1
  rw [List.getElem?_eq_getElem hlta, List.getElem?_eq_getElem hltb]
  exact hrenumber _ _ _ (List.pairwise_iff_getElem.mp hR a b hlta hltb hab)

/-- **When the shorter list is declared**: every read has a producer still. -/
theorem declared_drop_iff {leaves leaves' : List ValueId} (hdeclared : Declared descriptors leaves)
    (hleaves : ∀ d ∈ dropDescriptors descriptors removed, ∀ v ∈ d.writes, v ∉ leaves') :
    Declared (dropDescriptors descriptors removed) leaves' ↔
      ∀ d ∈ dropDescriptors descriptors removed, ∀ v ∈ d.reads,
        v ∈ leaves' ∨ ∃ w ∈ dropDescriptors descriptors removed, v ∈ w.writes := by
  refine ⟨fun h => h.sourced, ?_⟩
  intro hsourced
  exact {
    key_ne := by
      intro d hd
      obtain ⟨e, he, -, rfl⟩ := mem_dropDescriptors.mp hd
      exact hdeclared.key_ne e he
    keys := by
      refine List.pairwise_map.mpr (pairwise_drop (List.pairwise_map.mp hdeclared.keys) ?_)
      intro left a b hab
      exact hab
    leaf := hleaves
    single := pairwise_drop hdeclared.single fun left a b hab => hab
    few := by
      have hlength : (survivors descriptors removed).length ≤ descriptors.length := by
        have hfilter := List.length_filter_le
          (fun i => !removed.contains (keyOf descriptors i)) (List.range descriptors.length)
        rwa [List.length_range] at hfilter
      rw [length_dropDescriptors]
      exact Nat.le_trans hlength hdeclared.few
    predecessors_lt := by
      intro d hd p hp
      obtain ⟨e, -, -, rfl⟩ := mem_dropDescriptors.mp hd
      obtain ⟨q, hq, rfl⟩ := List.mem_map.mp hp
      exact placeOf_lt (List.contains_iff_mem.mp (List.mem_filter.mp hq).2)
    sourced := hsourced }

end

/-! ## The proof is accepted -/

/-- The cycle members, split into those with a descriptor and those without. -/
structure SplitMembers (graph : CompiledGraph) (keys removed : List String) : Prop where
  nodup : (keys ++ removed).Nodup
  mem_iff : ∀ key, key ∈ keys ++ removed ↔ key ∈ graph.cycleMembers.flatten

section

variable {descriptors : List OpDescriptor} {leaves : List ValueId} {graph : CompiledGraph}
  {keys removed : List String} {i j : Nat}

theorem OnCycle.of_sameComponent (hi : OnCycle descriptors i)
    (h : SameComponent descriptors i j) : OnCycle descriptors j :=
  (Relation.TransGen.trans_right h.2 hi).trans_left h.1

theorem CyclesSetAside.mem_flatten (h : CyclesSetAside descriptors graph) (key : String) :
    key ∈ graph.cycleMembers.flatten ↔ ∃ i, OnCycle descriptors i ∧ keyOf descriptors i = key := by
  rw [List.mem_flatten]
  constructor
  · rintro ⟨members, hmembers, hkey⟩
    obtain ⟨k, hk⟩ := List.mem_iff_getElem?.mp hmembers
    have hlt := (List.getElem?_eq_some_iff.mp hk).1
    have hcycle := List.getElem?_eq_getElem (h.aligned.symm ▸ hlt : k < graph.cycles.length)
    have hreport : (graph.cycles.zip graph.cycleMembers)[k]? = some (_, members) :=
      List.getElem?_zip_eq_some.mpr ⟨hcycle, hk⟩
    obtain ⟨i, walk, hi, -, -, -, -, hcomponent⟩ := h.reported _ (List.mem_of_getElem? hreport)
    obtain ⟨j, hj, rfl⟩ := (hcomponent key).mp hkey
    exact ⟨j, hi.of_sameComponent hj, rfl⟩
  · rintro ⟨i, hi, rfl⟩
    exact h.complete i hi

theorem CyclesSetAside.checkReport_ok (hdeclared : Declared descriptors leaves)
    (h : CyclesSetAside descriptors graph) {report : List String × List String}
    (hreport : report ∈ graph.cycles.zip graph.cycleMembers) :
    checkReport report.1 report.2 = .ok () := by
  obtain ⟨i, walk, hi, hloop, hclosed, hinside, hascending, hmembers⟩ := h.reported report hreport
  have hempty : report.2 ≠ [] := by
    refine List.ne_nil_of_mem ((hmembers (keyOf descriptors i)).mpr ⟨i, ?_, rfl⟩)
    exact ⟨Relation.ReflTransGen.refl, Relation.ReflTransGen.refl⟩
  have hends : report.1.head? = report.1.getLast? := by
    rw [hloop, List.head?_map, List.getLast?_map, hclosed.closed]
  have hlength : ¬ report.1.length < 2 := by
    rw [hloop, List.length_map]
    exact Nat.not_lt.mpr hclosed.length
  have hnamed : report.2.contains "" = false := by
    refine Bool.eq_false_iff.mpr ?_
    intro hcontains
    obtain ⟨j, hj, hkey⟩ := (hmembers "").mp (List.contains_iff_mem.mp hcontains)
    have hlt := hj.lt hdeclared hi
    rw [keyOf, List.getElem?_eq_getElem hlt] at hkey
    exact hdeclared.key_ne _ (List.getElem_mem hlt) hkey
  have hloops : (report.1.any fun key => !report.2.contains key) = false := by
    refine Bool.eq_false_iff.mpr ?_
    intro hany
    obtain ⟨key, hkey, hout⟩ := List.any_eq_true.mp hany
    rw [hloop] at hkey
    obtain ⟨w, hw, rfl⟩ := List.mem_map.mp hkey
    have hin := List.contains_iff_mem.mpr ((hmembers (keyOf descriptors w)).mpr
      ⟨w, hinside w hw, rfl⟩)
    rw [hin] at hout
    cases hout
  unfold checkReport
  rw [if_neg, hnamed, hloops]
  · rfl
  · rintro (hbad | hbad | hbad | hbad)
    · exact hlength hbad
    · exact hbad hends
    · exact hempty hbad
    · exact hbad hascending

theorem checkReports_ok {reports : List (List String × List String)}
    (h : ∀ report ∈ reports, checkReport report.1 report.2 = .ok ()) :
    checkReports reports = .ok () := by
  induction reports with
  | nil => rfl
  | cons report reports ih =>
      rw [checkReports, h report List.mem_cons_self]
      exact ih fun other hin => h other (List.mem_cons_of_mem _ hin)

theorem checkRetainedKeys_ok {members described list seen : List String}
    (h : ∀ key ∈ list, key ∈ members ∧ key ∈ described) (hnodup : (list ++ seen).Nodup) :
    checkRetainedKeys members described list seen = .ok () := by
  induction list generalizing seen with
  | nil => rfl
  | cons key list ih =>
      obtain ⟨hmember, hdescribed⟩ := h key List.mem_cons_self
      obtain ⟨hnew, hrest⟩ := List.nodup_cons.mp hnodup
      have hseen : key ∉ seen := fun hin => hnew (List.mem_append_right _ hin)
      rw [checkRetainedKeys, if_neg (by simp [hseen, hmember]), if_neg (by simp [hdescribed])]
      refine ih (fun other hin => h other (List.mem_cons_of_mem key hin)) ?_
      exact (List.perm_middle.nodup_iff).mpr hnodup

theorem checkRemovedKeys_ok {members retainedKeys described list seen : List String}
    (h : ∀ key ∈ list, key ∉ retainedKeys ∧ key ∈ members ∧ key ∉ described)
    (hnodup : (list ++ seen).Nodup) :
    checkRemovedKeys members retainedKeys described list seen = .ok () := by
  induction list generalizing seen with
  | nil => rfl
  | cons key list ih =>
      obtain ⟨hretained, hmember, hdescribed⟩ := h key List.mem_cons_self
      obtain ⟨hnew, hrest⟩ := List.nodup_cons.mp hnodup
      have hseen : key ∉ seen := fun hin => hnew (List.mem_append_right _ hin)
      rw [checkRemovedKeys, if_neg (by simp [hseen, hretained, hmember]),
        if_neg (by simp [hdescribed])]
      refine ih (fun other hin => h other (List.mem_cons_of_mem key hin)) ?_
      exact (List.perm_middle.nodup_iff).mpr hnodup

/-- **The proof made of a graph's cycles is accepted** for the list without the removed members. -/
theorem SplitMembers.checkRetained_ok (hsplit : SplitMembers graph keys removed)
    (hdeclared : Declared descriptors leaves) (h : CyclesSetAside descriptors graph) :
    checkRetained ((dropDescriptors descriptors removed).map OpDescriptor.key)
      (exclusionProof graph keys removed) = .ok () := by
  have hmembers : ∀ key, key ∈ keys ++ removed → key ∈ sortUnique graph.cycleMembers.flatten := by
    intro key hkey
    rw [Lib.mem_sortUnique]
    exact (hsplit.mem_iff key).mp hkey
  obtain ⟨hkeys, hremoved, hdisjoint⟩ := List.nodup_append.mp hsplit.nodup
  have hdescribed : ∀ key, key ∈ (dropDescriptors descriptors removed).map OpDescriptor.key ↔
      key ∉ removed ∧ ∃ d ∈ descriptors, d.key = key := by
    intro key
    rw [List.mem_map]
    constructor
    · rintro ⟨_, hd, rfl⟩
      obtain ⟨e, he, hkey, rfl⟩ := mem_dropDescriptors.mp hd
      exact ⟨hkey, e, he, rfl⟩
    · rintro ⟨hkey, e, he, rfl⟩
      exact ⟨_, mem_dropDescriptors.mpr ⟨e, he, hkey, rfl⟩, rfl⟩
  have hretained : checkRetainedKeys (sortUnique graph.cycleMembers.flatten)
      ((dropDescriptors descriptors removed).map OpDescriptor.key) keys [] = .ok () := by
    refine checkRetainedKeys_ok ?_ (by simpa using hkeys)
    intro key hkey
    refine ⟨hmembers key (List.mem_append_left _ hkey), (hdescribed key).mpr ⟨?_, ?_⟩⟩
    · intro hin
      exact hdisjoint key hkey key hin rfl
    · obtain ⟨i, hi, rfl⟩ := (h.mem_flatten key).mp
        ((hsplit.mem_iff key).mp (List.mem_append_left _ hkey))
      obtain ⟨w, hdep, -⟩ := Relation.TransGen.head'_iff.mp hi
      have hlt := (hdep.lt hdeclared).1
      exact ⟨descriptors[i], List.getElem_mem hlt, by rw [keyOf, List.getElem?_eq_getElem hlt]⟩
  have hgone : checkRemovedKeys (sortUnique graph.cycleMembers.flatten) keys
      ((dropDescriptors descriptors removed).map OpDescriptor.key) removed [] = .ok () := by
    refine checkRemovedKeys_ok ?_ (by simpa using hremoved)
    intro key hkey
    refine ⟨?_, hmembers key (List.mem_append_right _ hkey), ?_⟩
    · intro hin
      exact hdisjoint key hin key hkey rfl
    · intro hin
      exact ((hdescribed key).mp hin).1 hkey
  have hmapped : ((sortUnique graph.cycleMembers.flatten).find? fun key =>
      !keys.contains key && !removed.contains key) = none := by
    refine List.find?_eq_none.mpr ?_
    intro key hkey
    rw [Lib.mem_sortUnique, ← hsplit.mem_iff, List.mem_append] at hkey
    rcases hkey with hkey | hkey <;> simp [hkey]
  have hreports := checkReports_ok fun report hreport => h.checkReport_ok hdeclared hreport
  unfold checkRetained
  simp only [exclusionProof, h.aligned, ne_eq, not_true_eq_false, if_false, hreports, hretained,
    hgone, hmapped]

end

/-! ## The second compilation -/

section

variable {descriptors : List OpDescriptor} {leaves leaves' : List ValueId} {graph : CompiledGraph}
  {keys removed : List String} {edges edges' : Nat → List Nat} {i j k : Nat}

theorem SplitMembers.survives (hsplit : SplitMembers graph keys removed)
    (hdeclared : Declared descriptors leaves) (h : CyclesSetAside descriptors graph)
    (hlt : i < descriptors.length) (hi : ¬ OnCycle descriptors i) :
    i ∈ survivors descriptors removed := by
  refine mem_survivors.mpr ⟨hlt, ?_⟩
  intro hin
  obtain ⟨j, hj, hkey⟩ := (h.mem_flatten _).mp
    ((hsplit.mem_iff _).mp (List.mem_append_right _ hin))
  obtain ⟨w, hdep, -⟩ := Relation.TransGen.head'_iff.mp hj
  rw [keyOf_injective hdeclared.toRegistered (hdep.lt hdeclared).1 hlt hkey] at hj
  exact hi hj

theorem SplitMembers.retainedExcluded_iff (hsplit : SplitMembers graph keys removed)
    (hdeclared : Declared descriptors leaves) (h : CyclesSetAside descriptors graph)
    (hi : i ∈ survivors descriptors removed) :
    retainedExcluded (dropDescriptors descriptors removed)
        (some (exclusionProof graph keys removed)) (placeOf descriptors removed i) = true ↔
      OnCycle descriptors i := by
  obtain ⟨hlt, hkept⟩ := mem_survivors.mp hi
  have hmember : keyOf descriptors i ∈ keys ↔ keyOf descriptors i ∈ graph.cycleMembers.flatten := by
    rw [← hsplit.mem_iff, List.mem_append]
    exact (or_iff_left hkept).symm
  simp only [retainedExcluded, exclusionProof, placeOf_lt hi, decide_true, Bool.true_and,
    keyOf_drop hi, List.contains_iff_mem, hmember, h.mem_flatten]
  constructor
  · rintro ⟨j, hj, hkey⟩
    obtain ⟨w, hdep, -⟩ := Relation.TransGen.head'_iff.mp hj
    exact keyOf_injective hdeclared.toRegistered (hdep.lt hdeclared).1 hlt hkey ▸ hj
  · intro hcycle
    exact ⟨i, hcycle, rfl⟩

variable (hsplit : SplitMembers graph keys removed) (hdeclared : Declared descriptors leaves)
  (hedges : Dependencies descriptors edges) (h : CyclesSetAside descriptors graph)
  (hdeclared' : Declared (dropDescriptors descriptors removed) leaves')
  (hedges' : Dependencies (dropDescriptors descriptors removed) edges')

include hsplit hdeclared h hdeclared' hedges'

theorem mem_activeSuccs_drop (hi : i ∈ survivors descriptors removed) :
    k ∈ activeSuccs (dropDescriptors descriptors removed)
        (some (exclusionProof graph keys removed)) edges' (placeOf descriptors removed i) ↔
      ∃ j ∈ survivors descriptors removed, placeOf descriptors removed j = k ∧
        ¬ OnCycle descriptors i ∧ ¬ OnCycle descriptors j ∧ Depends descriptors j i := by
  have hfalse := fun {i : Nat} (hi : i ∈ survivors descriptors removed) =>
    (Bool.eq_false_iff.trans (hsplit.retainedExcluded_iff hdeclared h hi).not)
  rw [mem_activeSuccs hdeclared' hedges', hfalse hi]
  constructor
  · rintro ⟨hout, hretained, hdep⟩
    obtain ⟨j, hj, rfl⟩ := exists_placeOf (hdep.lt hdeclared').1
    exact ⟨j, hj, rfl, hout, (hfalse hj).mp hretained, (depends_drop hj hi).mp hdep⟩
  · rintro ⟨j, hj, rfl, hout, hout', hdep⟩
    exact ⟨hout, (hfalse hj).mpr hout', (depends_drop hj hi).mpr hdep⟩

/-- **No new cycle**: every vertex of one would have been a member. -/
theorem not_cyclic_drop (k : Nat) :
    ¬ Cyclic (activeSuccs (dropDescriptors descriptors removed)
      (some (exclusionProof graph keys removed)) edges') k := by
  intro hcycle
  have hactive := edges_active (some (exclusionProof graph keys removed)) hdeclared' hedges'
  obtain ⟨i, hi, rfl⟩ := exists_placeOf (hcycle.lt hactive)
  obtain ⟨w, hfirst, -⟩ := Relation.TransGen.head'_iff.mp hcycle
  obtain ⟨-, -, -, hout, -⟩ := (mem_activeSuccs_drop hsplit hdeclared h hdeclared' hedges' hi).mp
    hfirst
  have hpath : ∀ b, Relation.TransGen (fun u w => w ∈ activeSuccs
      (dropDescriptors descriptors removed) (some (exclusionProof graph keys removed)) edges' u)
      (placeOf descriptors removed i) b →
      ∃ j ∈ survivors descriptors removed, placeOf descriptors removed j = b ∧
        Relation.TransGen (Depends descriptors) j i := by
    intro b hb
    induction hb with
    | single hedge =>
        obtain ⟨j, hj, hplace, -, -, hdep⟩ :=
          (mem_activeSuccs_drop hsplit hdeclared h hdeclared' hedges' hi).mp hedge
        exact ⟨j, hj, hplace, Relation.TransGen.single hdep⟩
    | tail _ hedge ih =>
        obtain ⟨j, hj, rfl, hpath⟩ := ih
        obtain ⟨j', hj', hplace, -, -, hdep⟩ :=
          (mem_activeSuccs_drop hsplit hdeclared h hdeclared' hedges' hj).mp hedge
        exact ⟨j', hj', hplace, Relation.TransGen.head hdep hpath⟩
  obtain ⟨j, hj, hplace, hloop⟩ := hpath _ hcycle
  exact hout (placeOf_injective hj hplace ▸ hloop)

theorem foundComponents_drop : foundComponents (dropDescriptors descriptors removed)
    (some (exclusionProof graph keys removed)) edges' = [] := by
  refine List.eq_nil_iff_forall_not_mem.mpr ?_
  intro component hin
  have hcomponent := cyclicComponent_of_mem
    (edges_active (some (exclusionProof graph keys removed)) hdeclared' hedges') hin
  obtain ⟨v, hv⟩ := List.exists_mem_of_ne_nil component hcomponent.nonempty
  exact not_cyclic_drop hsplit hdeclared h hdeclared' hedges' v (hcomponent.cyclic v hv)

/-- **The same vertices are excluded.** -/
theorem kept_drop_iff :
    Kept (dropDescriptors descriptors removed) (some (exclusionProof graph keys removed)) edges' k ↔
      ∃ i ∈ survivors descriptors removed, placeOf descriptors removed i = k ∧
        ¬ OnCycle descriptors i := by
  have hexcluded : ∀ i ∈ survivors descriptors removed,
      excludedOps (dropDescriptors descriptors removed) (some (exclusionProof graph keys removed))
        edges' (placeOf descriptors removed i) = false ↔ ¬ OnCycle descriptors i := by
    intro i hi
    rw [excludedOps, foundComponents_drop hsplit hdeclared h hdeclared' hedges', List.any_nil,
      Bool.or_false, Bool.eq_false_iff]
    exact (hsplit.retainedExcluded_iff hdeclared h hi).not
  constructor
  · rintro ⟨hlt, hkept⟩
    obtain ⟨i, hi, rfl⟩ := exists_placeOf hlt
    exact ⟨i, hi, rfl, (hexcluded i hi).mp hkept⟩
  · rintro ⟨i, hi, rfl, hout⟩
    exact ⟨placeOf_lt hi, (hexcluded i hi).mpr hout⟩

include hedges

theorem placed_drop : Placed (Kept descriptors none edges)
    (Kept (dropDescriptors descriptors removed) (some (exclusionProof graph keys removed)) edges')
    (keptOf descriptors none edges (activePreds descriptors none edges))
    (keptOf (dropDescriptors descriptors removed) (some (exclusionProof graph keys removed)) edges'
      (activePreds (dropDescriptors descriptors removed)
        (some (exclusionProof graph keys removed)) edges'))
    (placeOf descriptors removed) := by
  have hold := fun i : Nat => @kept_iff_not_onCycle _ _ _ i hdeclared hedges
  have hnew := fun k : Nat => @kept_drop_iff _ _ _ _ _ _ _ k hsplit hdeclared h hdeclared' hedges'
  have hsurvives : ∀ i, Kept descriptors none edges i → i ∈ survivors descriptors removed := by
    intro i hi
    obtain ⟨hlt, hout⟩ := (hold i).mp hi
    exact hsplit.survives hdeclared h hlt hout
  have hkept : ∀ i, Kept descriptors none edges i →
      Kept (dropDescriptors descriptors removed) (some (exclusionProof graph keys removed)) edges'
        (placeOf descriptors removed i) := by
    intro i hi
    exact (hnew _).mpr ⟨i, hsurvives i hi, rfl, ((hold i).mp hi).2⟩
  have hscope : ∀ k, Kept (dropDescriptors descriptors removed)
      (some (exclusionProof graph keys removed)) edges' k →
      ∃ i, Kept descriptors none edges i ∧ placeOf descriptors removed i = k := by
    intro k hk
    obtain ⟨i, hi, hplace, hout⟩ := (hnew k).mp hk
    exact ⟨i, (hold i).mpr ⟨(mem_survivors.mp hi).1, hout⟩, hplace⟩
  exact {
    injective := by
      intro i j hi _ hplace
      exact placeOf_injective (hsurvives i hi) hplace
    scope_iff := by
      intro k
      refine ⟨hscope k, ?_⟩
      rintro ⟨i, hi, rfl⟩
      exact hkept i hi
    within := by
      intro i hi j hj
      exact ((mem_keptPreds hdeclared hedges hi).mp hj).1
    forth := by
      intro i hi j hj
      obtain ⟨hj, hdep⟩ := (mem_keptPreds hdeclared hedges hi).mp hj
      exact (mem_keptPreds hdeclared' hedges' (hkept i hi)).mpr
        ⟨hkept j hj, (depends_drop (hsurvives i hi) (hsurvives j hj)).mpr hdep⟩
    back := by
      intro i hi p hp
      obtain ⟨hp, hdep⟩ := (mem_keptPreds hdeclared' hedges' (hkept i hi)).mp hp
      obtain ⟨j, hj, rfl⟩ := hscope p hp
      exact ⟨j, (mem_keptPreds hdeclared hedges hi).mpr
        ⟨hj, (depends_drop (hsurvives i hi) (hsurvives j hj)).mp hdep⟩, rfl⟩ }

/-- **The order is the first one**, with the places renamed. -/
theorem orderOf_drop :
    orderOf (dropDescriptors descriptors removed) (some (exclusionProof graph keys removed)) edges' =
      (orderOf descriptors none edges).map (placeOf descriptors removed) := by
  obtain ⟨horder, hleast⟩ := orderOf_spec none hdeclared hedges
  obtain ⟨horder', hleast'⟩ := orderOf_spec (some (exclusionProof graph keys removed)) hdeclared'
    hedges'
  refine (placed_drop hsplit hdeclared hedges h hdeclared' hedges').least_eq ?_ ?_ horder hleast
    horder' hleast'
  · intro i hi
    obtain ⟨hlt, hout⟩ := (kept_iff_not_onCycle hdeclared hedges).mp hi
    exact keyOf_drop (hsplit.survives hdeclared h hlt hout)
  · intro u v hu hv hkey
    exact keyOf_injective hdeclared'.toRegistered hu.1 hv.1 hkey

/-- **The ops are the first ones**, with their original indices renamed. -/
theorem emitted_ops_drop (reports reports' : List CycleReport) :
    (emitted (dropDescriptors descriptors removed) (some (exclusionProof graph keys removed)) edges'
      reports' (orderOf (dropDescriptors descriptors removed)
        (some (exclusionProof graph keys removed)) edges')).ops =
      (emitted descriptors none edges reports (orderOf descriptors none edges)).ops.map
        (CompiledOp.renumber (placeOf descriptors removed)) := by
  have horder := (orderOf_spec none hdeclared hedges).1
  have hsurvives : ∀ i ∈ orderOf descriptors none edges, i ∈ survivors descriptors removed := by
    intro i hi
    obtain ⟨hlt, hout⟩ := (kept_iff_not_onCycle hdeclared hedges).mp ((horder.mem_iff i).mp hi)
    exact hsplit.survives hdeclared h hlt hout
  rw [orderOf_drop hsplit hdeclared hedges h hdeclared' hedges']
  refine emitted_ops_placed hdeclared hedges horder hdeclared' hedges'
    ((placed_drop hsplit hdeclared hedges h hdeclared' hedges').order_map horder) ?_ ?_ _ _
  · intro u hu v hv
    exact depends_drop (hsurvives v hv) (hsurvives u hu)
  · intro v hv
    rw [getElem?_placeOf (hsurvives v hv), Option.map_map]
    rfl

omit hedges in
/-- **The reports are those of the proof.** -/
theorem cycleReports_drop
    (hcycles : graph.cycles = (cycleReports descriptors none edges).map fun report =>
      (ofLex report).1)
    (hmembers : graph.cycleMembers = (cycleReports descriptors none edges).map fun report =>
      (ofLex report).2) :
    cycleReports (dropDescriptors descriptors removed) (some (exclusionProof graph keys removed))
      edges' = cycleReports descriptors none edges := by
  have hretained : retainedReports (some (exclusionProof graph keys removed)) =
      cycleReports descriptors none edges := by
    simp only [retainedReports, exclusionProof, hcycles, hmembers, List.zip_map', List.map_map]
    exact List.map_id _
  have hascending : Ascending (cycleReports descriptors none edges) := Lib.ascending_sortUnique _
  rw [cycleReports, foundComponents_drop hsplit hdeclared h hdeclared' hedges', List.map_nil,
    List.append_nil, hretained, Lib.sortUnique_of_ascending hascending]

end

/-! ## Every descriptor list -/

section

variable {descriptors : List OpDescriptor} {leaves leaves' : List ValueId} {graph : CompiledGraph}
  {keys removed : List String}

theorem survivors_nil : survivors descriptors [] = List.range descriptors.length := by
  simp [survivors]

theorem placeOf_nil {i : Nat} (hi : i < descriptors.length) : placeOf descriptors [] i = i := by
  rw [placeOf, survivors_nil]
  exact (getElem?_idxOf_iff List.nodup_range (List.mem_range.mpr hi)).mp (List.getElem?_range hi)

theorem dropDescriptors_nil (hdeclared : Declared descriptors leaves) :
    dropDescriptors descriptors [] = descriptors := by
  have hrenumber : ∀ d ∈ descriptors, d.renumber (survivors descriptors []) = d := by
    intro d hd
    have hlt := hdeclared.predecessors_lt d hd
    have hfilter : d.predecessors.filter (survivors descriptors []).contains = d.predecessors := by
      refine List.filter_eq_self.mpr ?_
      intro p hp
      rw [survivors_nil]
      exact List.contains_iff_mem.mpr (List.mem_range.mpr (hlt p hp))
    have hmap : d.predecessors.map (survivors descriptors []).idxOf = d.predecessors := by
      refine (List.map_congr_left ?_).trans (List.map_id _)
      intro p hp
      exact placeOf_nil (hlt p hp)
    rw [OpDescriptor.renumber, hfilter, hmap]
  refine List.ext_getElem? ?_
  intro i
  rcases Nat.lt_or_ge i descriptors.length with hlt | hge
  · have hi : i ∈ survivors descriptors [] := mem_survivors.mpr ⟨hlt, List.not_mem_nil⟩
    have hget := getElem?_placeOf hi
    rw [placeOf_nil hlt, List.getElem?_eq_getElem hlt, Option.map_some,
      hrenumber _ (List.getElem_mem hlt)] at hget
    rw [hget, List.getElem?_eq_getElem hlt]
  · have hlength : (dropDescriptors descriptors []).length ≤ i := by
      rw [length_dropDescriptors, survivors_nil, List.length_range]
      exact hge
    rw [List.getElem?_eq_none hlength, List.getElem?_eq_none hge]

theorem emitted_congr {retained retained' : Option OpExclusionProof} {edges edges' : Nat → List Nat}
    {reports : List CycleReport} {order : List Nat}
    (hops : (emitted descriptors retained edges reports order).ops =
      (emitted descriptors retained' edges' reports order).ops) :
    emitted descriptors retained edges reports order =
      emitted descriptors retained' edges' reports order := by
  simp only [emitted, emitGraph] at hops ⊢
  rw [hops]

theorem emitted_drop_nil {edges edges' : Nat → List Nat} (hsplit : SplitMembers graph keys [])
    (hdeclared : Declared descriptors leaves) (hedges : Dependencies descriptors edges)
    (h : CyclesSetAside descriptors graph)
    (hdeclared' : Declared (dropDescriptors descriptors []) leaves')
    (hedges' : Dependencies (dropDescriptors descriptors []) edges') (reports : List CycleReport) :
    emitted (dropDescriptors descriptors []) (some (exclusionProof graph keys [])) edges' reports
        (orderOf (dropDescriptors descriptors []) (some (exclusionProof graph keys [])) edges') =
      emitted descriptors none edges reports (orderOf descriptors none edges) := by
  have hops := emitted_ops_drop hsplit hdeclared hedges h hdeclared' hedges' reports reports
  have hplace : ∀ i ∈ orderOf descriptors none edges, placeOf descriptors [] i = i := by
    intro i hi
    exact placeOf_nil (((orderOf_spec none hdeclared hedges).1.mem_iff i).mp hi).1
  have horder : (orderOf descriptors none edges).map (placeOf descriptors []) =
      orderOf descriptors none edges :=
    (List.map_congr_left hplace).trans (List.map_id _)
  have hrenumber : (emitted descriptors none edges reports (orderOf descriptors none edges)).ops.map
      (CompiledOp.renumber (placeOf descriptors [])) =
      (emitted descriptors none edges reports (orderOf descriptors none edges)).ops := by
    simp only [emitted, emitGraph, List.map_map]
    refine List.map_congr_left ?_
    intro i hi
    exact CompiledOp.ext rfl (hplace i hi) rfl rfl
  rw [orderOf_drop hsplit hdeclared hedges h hdeclared' hedges', horder, hrenumber,
    dropDescriptors_nil hdeclared] at hops
  rw [orderOf_drop hsplit hdeclared hedges h hdeclared' hedges', horder,
    dropDescriptors_nil hdeclared]
  exact emitted_congr hops

/-- **A declared list without the removed members compiles** to the same ops and reports, and with
nothing removed to the same graph. -/
theorem compileOpGraph_drop (hgraph : compileOpGraph descriptors leaves .setAside none = .ok graph)
    (hsplit : SplitMembers graph keys removed)
    (hdeclared' : Declared (dropDescriptors descriptors removed) leaves') :
    ∃ graph', compileOpGraph (dropDescriptors descriptors removed) leaves' .setAside
        (some (exclusionProof graph keys removed)) = .ok graph' ∧
      graph'.ops = graph.ops.map (CompiledOp.renumber (placeOf descriptors removed)) ∧
      graph'.cycles = graph.cycles ∧ graph'.cycleMembers = graph.cycleMembers ∧
      (removed = [] → graph' = graph) := by
  obtain ⟨hdeclared, -, edges, hedges, horder⟩ := compileOpGraph_ok.mp hgraph
  rw [orderGraph_ok hdeclared hedges, if_neg (by simp), Except.ok.injEq] at horder
  have hset : CyclesSetAside descriptors graph := horder ▸ cyclesSetAside hdeclared hedges
  obtain ⟨edges', hedges', hcompile⟩ := @compileOpGraph_of_declared _ _
    (some (exclusionProof graph keys removed)) hdeclared'
    (hsplit.checkRetained_ok hdeclared hset)
  have hcycles : graph.cycles = (cycleReports descriptors none edges).map fun report =>
      (ofLex report).1 := by
    rw [← horder]
    rfl
  have hmembers : graph.cycleMembers = (cycleReports descriptors none edges).map fun report =>
      (ofLex report).2 := by
    rw [← horder]
    rfl
  have hgraph' := hcompile .setAside
  rw [orderGraph_ok hdeclared' hedges', if_neg (by simp),
    cycleReports_drop hsplit hdeclared hset hdeclared' hedges' hcycles hmembers] at hgraph'
  refine ⟨_, hgraph', ?_, hcycles.symm, hmembers.symm, ?_⟩
  · rw [← horder]
    exact emitted_ops_drop hsplit hdeclared hedges hset hdeclared' hedges'
      (cycleReports descriptors none edges) (cycleReports descriptors none edges)
  · rintro rfl
    rw [emitted_drop_nil hsplit hdeclared hedges hset hdeclared' hedges', horder]

/-- **Retained exclusions are stable.**  The same list with the proof made of a graph compiles to
that graph.  Without some of the members it compiles exactly when what is left has a producer for
every read and writes no leaf, and then to the same ops, in the same order, and the same reports. -/
theorem retainedExclusions_stable
    (hgraph : compileOpGraph descriptors leaves .setAside none = .ok graph) :
    (∀ keys, SplitMembers graph keys [] →
      compileOpGraph descriptors leaves .setAside (some (exclusionProof graph keys [])) =
        .ok graph) ∧
    ∀ keys removed leaves', SplitMembers graph keys removed →
      ((∃ graph', compileOpGraph (dropDescriptors descriptors removed) leaves' .setAside
          (some (exclusionProof graph keys removed)) = .ok graph') ↔
        (∀ d ∈ dropDescriptors descriptors removed, ∀ v ∈ d.writes, v ∉ leaves') ∧
        ∀ d ∈ dropDescriptors descriptors removed, ∀ v ∈ d.reads,
          v ∈ leaves' ∨ ∃ w ∈ dropDescriptors descriptors removed, v ∈ w.writes) ∧
      ∀ graph', compileOpGraph (dropDescriptors descriptors removed) leaves' .setAside
          (some (exclusionProof graph keys removed)) = .ok graph' →
        graph'.ops = graph.ops.map (CompiledOp.renumber (placeOf descriptors removed)) ∧
          graph'.cycles = graph.cycles ∧ graph'.cycleMembers = graph.cycleMembers := by
  have hdeclared := (compileOpGraph_ok.mp hgraph).1
  refine ⟨?_, ?_⟩
  · intro keys hsplit
    have hsame := dropDescriptors_nil hdeclared
    obtain ⟨graph', hcompile, -, -, -, hunchanged⟩ :=
      compileOpGraph_drop hgraph hsplit (hsame.symm ▸ hdeclared)
    rw [hsame, hunchanged rfl] at hcompile
    exact hcompile
  · intro keys removed leaves' hsplit
    refine ⟨⟨?_, ?_⟩, ?_⟩
    · rintro ⟨graph', hcompile⟩
      have hdeclared' := (compileOpGraph_ok.mp hcompile).1
      exact ⟨hdeclared'.leaf, hdeclared'.sourced⟩
    · rintro ⟨hleaf, hsourced⟩
      obtain ⟨graph', hcompile, -⟩ := compileOpGraph_drop hgraph hsplit
        ((declared_drop_iff hdeclared hleaf).mpr hsourced)
      exact ⟨graph', hcompile⟩
    · intro graph' hcompile
      obtain ⟨other, hother, hops, hcycles, hmembers, -⟩ :=
        compileOpGraph_drop hgraph hsplit (compileOpGraph_ok.mp hcompile).1
      cases hcompile.symm.trans hother
      exact ⟨hops, hcycles, hmembers⟩

/-- Two ops that read each other's value. -/
def readingPair : List OpDescriptor :=
  [{ key := "A", reads := [2], writes := [1] }, { key := "B", reads := [1], writes := [2] }]

theorem declared_readingPair : Declared readingPair [] where
  key_ne := by decide
  keys := by decide
  leaf := by decide
  single := by decide
  few := by decide
  predecessors_lt := by decide
  sourced := by decide

theorem compile_readingPair : ∃ graph, compileOpGraph readingPair [] .setAside none = .ok graph ∧
    SplitMembers graph ["A", "B"] [] ∧ SplitMembers graph ["A"] ["B"] := by
  obtain ⟨edges, hedges, hcompile⟩ := @compileOpGraph_of_declared _ _ none declared_readingPair rfl
  have hgraph := hcompile .setAside
  rw [orderGraph_ok declared_readingPair hedges, if_neg (by simp)] at hgraph
  have hset := cyclesSetAside declared_readingPair hedges
  have hfirst : Depends readingPair 0 1 := ⟨_, rfl, Or.inr ⟨2, by decide, _, rfl, by decide⟩⟩
  have hsecond : Depends readingPair 1 0 := ⟨_, rfl, Or.inr ⟨1, by decide, _, rfl, by decide⟩⟩
  have hmembers : ∀ key, (∃ i, OnCycle readingPair i ∧ keyOf readingPair i = key) ↔
      key ∈ ["A", "B"] := by
    intro key
    constructor
    · rintro ⟨i, hi, rfl⟩
      obtain ⟨w, hdep, -⟩ := Relation.TransGen.head'_iff.mp hi
      have hlt : i < 2 := (hdep.lt declared_readingPair).1
      obtain rfl | rfl : i = 0 ∨ i = 1 := by omega
      · decide
      · decide
    · intro hkey
      simp only [List.mem_cons, List.not_mem_nil, or_false] at hkey
      rcases hkey with rfl | rfl
      · exact ⟨0, (Relation.TransGen.single hfirst).tail hsecond, rfl⟩
      · exact ⟨1, (Relation.TransGen.single hsecond).tail hfirst, rfl⟩
  refine ⟨_, hgraph, ⟨by decide, ?_⟩, ⟨by decide, ?_⟩⟩
  · intro key
    rw [hset.mem_flatten, hmembers]
    simp
  · intro key
    rw [hset.mem_flatten, hmembers]
    simp

theorem retainedExclusions_stable_readingPair :
    ∃ graph, compileOpGraph readingPair [] .setAside none = .ok graph ∧
      compileOpGraph readingPair [] .setAside (some (exclusionProof graph ["A", "B"] [])) =
        .ok graph ∧
      ∃ graph', compileOpGraph (dropDescriptors readingPair ["B"]) [2] .setAside
          (some (exclusionProof graph ["A"] ["B"])) = .ok graph' := by
  obtain ⟨graph, hgraph, hall, hsome⟩ := compile_readingPair
  have hstable := retainedExclusions_stable hgraph
  exact ⟨graph, hgraph, hstable.1 _ hall, (hstable.2 _ _ [2] hsome).1.mpr ⟨by decide, by decide⟩⟩

/-- A member that reads what a dropped one wrote is refused. -/
theorem droppedProducer_refused :
    ∃ graph, compileOpGraph readingPair [] .setAside none = .ok graph ∧
      SplitMembers graph ["A"] ["B"] ∧
      compileOpGraph (dropDescriptors readingPair ["B"]) [] .setAside
          (some (exclusionProof graph ["A"] ["B"])) =
        .error "read has no producer or sampled leaf: A" := by
  obtain ⟨graph, hgraph, -, hsome⟩ := compile_readingPair
  exact ⟨graph, hgraph, hsome, rfl⟩

end

end RigExec.OpGraph
