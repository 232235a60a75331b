/-
# `RigExec.OpGraph.Renaming` — the declaration order does not matter

A renaming `σ` moves the `i`th descriptor to place `σ i` and renames the explicit
predecessors with it.  Everything the compiler computes from indices is carried along
by `σ`:

    declarations   accepted together (`Renames.declared`)
    edges          `Depends` between renamed vertices (`Renames.depends_iff`)
    components     the same sets, so the same keys are excluded (`Renames.excludedOps`)
    loops          the same walk, because vertices and edges are tried in the order
                   of their keys (`Renames.reportOf_eq`)
    order          the same keys in the same order, because both orders have the
                   least keys of all (`Renames.orderOf_eq`)

What is emitted names vertices by their place in the order, so it is the same graph.
-/
import Mathlib.Logic.Equiv.Basic
import RigExec.OpGraph.Cycles

namespace RigExec.OpGraph

open Lib (sortUnique Ascending OrderOf Placed Mutual)

/-- A descriptor with its explicit predecessors renamed. -/
def OpDescriptor.rename (σ : Equiv.Perm Nat) (d : OpDescriptor) : OpDescriptor :=
  { d with predecessors := d.predecessors.map σ }

/-- The second list is the first one in another order. -/
structure Renames (σ : Equiv.Perm Nat) (descriptors descriptors' : List OpDescriptor) : Prop where
  length_eq : descriptors'.length = descriptors.length
  lt_iff : ∀ i, σ i < descriptors.length ↔ i < descriptors.length
  get_eq : ∀ i, descriptors'[σ i]? = descriptors[i]?.map (OpDescriptor.rename σ)

section

variable {σ : Equiv.Perm Nat} {descriptors descriptors' : List OpDescriptor}
  {leaves : List ValueId} {retained : Option OpExclusionProof} {edges edges' : Nat → List Nat}
  {i j u v : Nat}

theorem OpDescriptor.rename_symm (d : OpDescriptor) : (d.rename σ).rename σ.symm = d := by
  simp [OpDescriptor.rename, Function.comp_def]

theorem Renames.symm (h : Renames σ descriptors descriptors') :
    Renames σ.symm descriptors' descriptors where
  length_eq := h.length_eq.symm
  lt_iff := fun i => by
    have := h.lt_iff (σ.symm i)
    rw [Equiv.apply_symm_apply] at this
    rw [h.length_eq, this]
  get_eq := fun i => by
    have := h.get_eq (σ.symm i)
    rw [Equiv.apply_symm_apply] at this
    rw [this, Option.map_map]
    cases descriptors[σ.symm i]? with
    | none => rfl
    | some d => simp [OpDescriptor.rename_symm]

/-! ## Declarations -/

section

variable (h : Renames σ descriptors descriptors')
include h

theorem Renames.exists_mem {d : OpDescriptor}
    (hd : d ∈ descriptors') : ∃ e ∈ descriptors, d = e.rename σ := by
  obtain ⟨i, hi⟩ := List.mem_iff_getElem?.mp hd
  have := h.get_eq (σ.symm i)
  rw [Equiv.apply_symm_apply, hi, eq_comm, Option.map_eq_some_iff] at this
  obtain ⟨e, he, rfl⟩ := this
  exact ⟨e, List.mem_of_getElem? he, rfl⟩

theorem Renames.mem {d : OpDescriptor} (hd : d ∈ descriptors) : d.rename σ ∈ descriptors' := by
  obtain ⟨i, hi⟩ := List.mem_iff_getElem?.mp hd
  exact List.mem_of_getElem? (i := σ i) (by rw [h.get_eq, hi, Option.map_some])

theorem Renames.keyOf_eq (i : Nat) :
    keyOf descriptors' (σ i) = keyOf descriptors i := by
  rw [keyOf, h.get_eq, keyOf]
  cases descriptors[i]? <;> rfl

theorem Renames.depends_iff :
    Depends descriptors' (σ i) (σ j) ↔ Depends descriptors i j := by
  simp only [Depends, h.get_eq, Option.map_eq_some_iff]
  constructor
  · rintro ⟨_, ⟨d, hd, rfl⟩, hj⟩
    refine ⟨d, hd, hj.imp (fun hj => ?_) fun hj => ?_⟩
    · obtain ⟨p, hp, he⟩ := List.mem_map.mp hj
      exact σ.injective he ▸ hp
    · obtain ⟨value, hread, _, ⟨w, hw, rfl⟩, hwrite⟩ := hj
      exact ⟨value, hread, w, hw, hwrite⟩
  · rintro ⟨d, hd, hj⟩
    refine ⟨d.rename σ, ⟨d, hd, rfl⟩, hj.imp (fun hj => List.mem_map_of_mem hj) fun hj => ?_⟩
    obtain ⟨value, hread, w, hw, hwrite⟩ := hj
    exact ⟨value, hread, w.rename σ, ⟨w, hw, rfl⟩, hwrite⟩

theorem Renames.pairwise {R : OpDescriptor → OpDescriptor → Prop} (hsymm : ∀ {a b}, R a b → R b a)
    (hrename : ∀ {a b}, R a b → R (a.rename σ) (b.rename σ)) (hR : descriptors.Pairwise R) :
    descriptors'.Pairwise R := by
  refine List.pairwise_iff_getElem.mpr fun i j hi hj hij => ?_
  have hget : ∀ k (hk : k < descriptors'.length), ∃ hk' : σ.symm k < descriptors.length,
      descriptors'[k] = descriptors[σ.symm k].rename σ := by
    intro k hk
    have := h.get_eq (σ.symm k)
    rw [Equiv.apply_symm_apply, List.getElem?_eq_getElem hk, eq_comm, Option.map_eq_some_iff] at this
    obtain ⟨d, hd, he⟩ := this
    obtain ⟨hlt, rfl⟩ := List.getElem?_eq_some_iff.mp hd
    exact ⟨hlt, he.symm⟩
  obtain ⟨hi', hgi⟩ := hget i hi
  obtain ⟨hj', hgj⟩ := hget j hj
  rw [hgi, hgj]
  have hne : σ.symm i ≠ σ.symm j := fun he => Nat.ne_of_lt hij (σ.symm.injective he)
  have hpairs := List.pairwise_iff_getElem.mp hR
  rcases Nat.lt_or_gt_of_ne hne with hlt | hlt
  · exact hrename (hpairs _ _ hi' hj' hlt)
  · exact hrename (hsymm (hpairs _ _ hj' hi' hlt))

/-- **Both lists are declared, or neither.** -/
theorem Renames.declared
    (hdeclared : Declared descriptors leaves) : Declared descriptors' leaves := by
  have hkeys : descriptors'.Pairwise fun a b => a.key ≠ b.key :=
    h.pairwise (fun hab => hab.symm) (fun hab => hab) (List.pairwise_map.mp hdeclared.keys)
  refine {
    key_ne := fun d hd => ?_
    keys := List.pairwise_map.mpr hkeys
    leaf := fun d hd => ?_
    single := h.pairwise (fun hab value hb ha => hab value ha hb) (fun hab => hab) hdeclared.single
    few := h.length_eq ▸ hdeclared.few
    predecessors_lt := fun d hd p hp => ?_
    sourced := fun d hd value hread => ?_ }
  · obtain ⟨e, he, rfl⟩ := h.exists_mem hd
    exact hdeclared.key_ne e he
  · obtain ⟨e, he, rfl⟩ := h.exists_mem hd
    exact hdeclared.leaf e he
  · obtain ⟨e, he, rfl⟩ := h.exists_mem hd
    obtain ⟨q, hq, rfl⟩ := List.mem_map.mp hp
    rw [h.length_eq]
    exact (h.lt_iff q).mpr (hdeclared.predecessors_lt e he q hq)
  · obtain ⟨e, he, rfl⟩ := h.exists_mem hd
    refine (hdeclared.sourced e he value hread).imp_right fun ⟨w, hw, hwrite⟩ => ?_
    exact ⟨w.rename σ, h.mem hw, hwrite⟩

end

/-! ## Retained proofs look at keys only -/

theorem checkRetainedKeys_congr {keys keys' : List String}
    (hkeys : ∀ key, keys.contains key = keys'.contains key) (members list seen : List String) :
    checkRetainedKeys members keys list seen = checkRetainedKeys members keys' list seen := by
  induction list generalizing seen with
  | nil => rfl
  | cons key list ih => rw [checkRetainedKeys, checkRetainedKeys, hkeys, ih]

theorem checkRemovedKeys_congr {keys keys' : List String}
    (hkeys : ∀ key, keys.contains key = keys'.contains key)
    (members retainedKeys list seen : List String) :
    checkRemovedKeys members retainedKeys keys list seen =
      checkRemovedKeys members retainedKeys keys' list seen := by
  induction list generalizing seen with
  | nil => rfl
  | cons key list ih => rw [checkRemovedKeys, checkRemovedKeys, hkeys, ih]

theorem Renames.checkRetained_eq (h : Renames σ descriptors descriptors')
    (proof : OpExclusionProof) :
    checkRetained (descriptors'.map OpDescriptor.key) proof =
      checkRetained (descriptors.map OpDescriptor.key) proof := by
  have hkeys : ∀ key, (descriptors'.map OpDescriptor.key).contains key =
      (descriptors.map OpDescriptor.key).contains key := by
    intro key
    rw [Bool.eq_iff_iff, List.contains_iff_mem, List.contains_iff_mem, List.mem_map, List.mem_map]
    constructor
    · rintro ⟨d, hd, rfl⟩
      obtain ⟨e, he, rfl⟩ := h.exists_mem hd
      exact ⟨e, he, rfl⟩
    · rintro ⟨d, hd, rfl⟩
      exact ⟨d.rename σ, h.mem hd, rfl⟩
  simp only [checkRetained, checkRetainedKeys_congr hkeys, checkRemovedKeys_congr hkeys]

theorem Renames.retainedExcluded_eq (h : Renames σ descriptors descriptors')
    (retained : Option OpExclusionProof) (i : Nat) :
    retainedExcluded descriptors' retained (σ i) = retainedExcluded descriptors retained i := by
  cases retained with
  | none => rfl
  | some proof => simp only [retainedExcluded, h.keyOf_eq, h.length_eq, h.lt_iff]

/-! ## Components -/

section

variable (h : Renames σ descriptors descriptors') (hdeclared : Declared descriptors leaves)
  (hedges : Dependencies descriptors edges) (hedges' : Dependencies descriptors' edges')

include h hdeclared hedges hedges'

theorem mem_activeSuccs_rename :
    σ v ∈ activeSuccs descriptors' retained edges' (σ u) ↔
      v ∈ activeSuccs descriptors retained edges u := by
  rw [mem_activeSuccs (h.declared hdeclared) hedges', mem_activeSuccs hdeclared hedges,
    h.retainedExcluded_eq, h.retainedExcluded_eq, h.depends_iff]

theorem cyclic_rename (hcycle : Cyclic (activeSuccs descriptors retained edges) v) :
    Cyclic (activeSuccs descriptors' retained edges') (σ v) :=
  Relation.TransGen.lift σ
    (fun _ _ hab => (mem_activeSuccs_rename h hdeclared hedges hedges').mpr hab) v v hcycle

theorem reach_rename (hreach : Lib.Reach (activeSuccs descriptors retained edges) u v) :
    Lib.Reach (activeSuccs descriptors' retained edges') (σ u) (σ v) :=
  Relation.ReflTransGen.lift σ
    (fun _ _ hab => (mem_activeSuccs_rename h hdeclared hedges hedges').mpr hab) u v hreach

theorem mutual_rename (hsame : Mutual (activeSuccs descriptors retained edges) u v) :
    Mutual (activeSuccs descriptors' retained edges') (σ u) (σ v) :=
  ⟨reach_rename h hdeclared hedges hedges' hsame.1, reach_rename h hdeclared hedges hedges' hsame.2⟩

/-- **Renamed vertices are excluded together.** -/
theorem excludedOps_rename :
    excludedOps descriptors' retained edges' (σ v) = excludedOps descriptors retained edges v := by
  rw [Bool.eq_iff_iff, excludedOps_iff retained (h.declared hdeclared) hedges',
    excludedOps_iff retained hdeclared hedges, h.retainedExcluded_eq]
  refine or_congr_right ⟨fun hcycle => ?_, cyclic_rename h hdeclared hedges hedges'⟩
  have := cyclic_rename h.symm (h.declared hdeclared) hedges' hedges hcycle
  rwa [Equiv.symm_apply_apply] at this

/-- **A component, renamed, is a component.** -/
theorem exists_component {component : List Nat}
    (hin : component ∈ foundComponents descriptors retained edges) :
    ∃ component' ∈ foundComponents descriptors' retained edges',
      component'.Perm (component.map σ) := by
  have hactive := edges_active retained hdeclared hedges
  have hactive' := edges_active retained (h.declared hdeclared) hedges'
  have hcomponent := cyclicComponent_of_mem hactive hin
  obtain ⟨v, hv⟩ := List.exists_mem_of_ne_nil component hcomponent.nonempty
  obtain ⟨component', hin', hv'⟩ := (mem_components_iff hactive').mpr
    (cyclic_rename h hdeclared hedges hedges' (hcomponent.cyclic v hv))
  have hcomponent' := cyclicComponent_of_mem hactive' hin'
  refine ⟨component', hin', (List.perm_ext_iff_of_nodup hcomponent'.nodup
    (hcomponent.nodup.map σ.injective)).mpr fun w => ?_⟩
  rw [hcomponent'.mem_iff _ hv' w, List.mem_map]
  constructor
  · intro hsame
    have := mutual_rename h.symm (h.declared hdeclared) hedges' hedges hsame
    rw [Equiv.symm_apply_apply] at this
    exact ⟨σ.symm w, (hcomponent.mem_iff v hv _).mpr this, Equiv.apply_symm_apply σ w⟩
  · rintro ⟨w, hw, rfl⟩
    exact mutual_rename h hdeclared hedges hedges' ((hcomponent.mem_iff v hv w).mp hw)

end

/-! ## Loops -/

theorem sortByKey_rename {key key' : Nat → String} {list list' : List Nat}
    (hkey : ∀ v, key' (σ v) = key v) (hperm : list'.Perm (list.map σ))
    (hinj : ∀ v ∈ list, ∀ w ∈ list, key v = key w → v = w) :
    sortByKey key' list' = (sortByKey key list).map σ := by
  have hsorted : ((sortByKey key list).map σ).Pairwise fun a b => key' a ≤ key' b := by
    refine List.pairwise_map.mpr ((List.pairwise_insertionSort _ list).imp fun hab => ?_)
    rwa [hkey, hkey]
  have hperm' : (sortByKey key' list').Perm ((sortByKey key list).map σ) :=
    ((List.perm_insertionSort _ list').trans hperm).trans
      ((List.perm_insertionSort _ list).map σ).symm
  refine hperm'.eq_of_pairwise (fun a b ha hb hab hba => ?_) (List.pairwise_insertionSort _ list')
    hsorted
  have hmem : ∀ x ∈ (sortByKey key list).map σ, ∃ v ∈ list, σ v = x := by
    intro x hx
    obtain ⟨v, hv, rfl⟩ := List.mem_map.mp hx
    exact ⟨v, (List.mem_insertionSort _).mp hv, rfl⟩
  obtain ⟨v, hv, rfl⟩ := hmem a (hperm'.mem_iff.mp ha)
  obtain ⟨w, hw, rfl⟩ := hmem b hb
  rw [hkey, hkey] at hab hba
  rw [hinj v hv w hw (le_antisymm hab hba)]

/-- **The loop search, with the vertices renamed.** -/
theorem loopFrom_rename {members members' : List Nat} {next next' : Nat → List Nat}
    (hmembers : ∀ v, σ v ∈ members' ↔ v ∈ members)
    (hnext : ∀ v ∈ members, next' (σ v) = (next v).map σ) {state state' : Nat → Colour}
    {position position' : Nat → Int} {stack : List (Nat × List Nat)}
    (hstate : ∀ v, state' (σ v) = state v) (hposition : ∀ v, position' (σ v) = position v) :
    loopFrom members' next' state' position' (stack.map fun entry => (σ entry.1, entry.2.map σ)) =
      (loopFrom members next state position stack).map σ := by
  have hupdate : ∀ {A : Type} {f f' : Nat → A} (_ : ∀ v, f' (σ v) = f v) (v : Nat) (a : A) (w : Nat),
      Function.update f' (σ v) a (σ w) = Function.update f v a w := by
    intro A f f' hf v a w
    by_cases he : w = v
    · subst he
      simp
    · rw [Function.update_of_ne he, Function.update_of_ne fun hσ => he (σ.injective hσ), hf]
  induction state, position, stack using loopFrom.induct members next generalizing state' position'
    with
  | case1 state position =>
      rw [List.map_nil, loopFrom, loopFrom, List.map_nil]
  | case2 state position top stack ih =>
      rw [List.map_cons, List.map_nil, loopFrom, loopFrom]
      exact ih (hupdate hstate top _) (hupdate hposition top _)
  | case3 state position top v rest stack hmem ih =>
      rw [List.map_cons, List.map_cons, loopFrom, loopFrom, dif_pos hmem,
        dif_pos (mt (hmembers v).mp hmem)]
      exact ih hstate hposition
  | case4 state position top v rest stack hmem hopen =>
      rw [List.map_cons, List.map_cons, loopFrom, loopFrom, dif_neg hmem,
        dif_neg (mt (mt (hmembers v).mpr) hmem)]
      split
      · split
        · simp [hposition, List.map_drop, Function.comp_def]
        · rename_i hbad
          cases hopen.symm.trans hbad
        · rename_i hbad
          cases hopen.symm.trans hbad
      · rename_i hbad
        cases hopen.symm.trans ((hstate v).symm.trans hbad)
      · rename_i hbad
        cases hopen.symm.trans ((hstate v).symm.trans hbad)
  | case5 state position top v rest stack hmem hunseen ih =>
      rw [List.map_cons, List.map_cons, loopFrom, loopFrom, dif_neg hmem,
        dif_neg (mt (mt (hmembers v).mpr) hmem)]
      have hnew := ih (hupdate hstate v .open_)
        (hupdate hposition v ((((top, rest) :: stack).length : Nat) : Int))
      split
      · rename_i hbad
        cases hunseen.symm.trans ((hstate v).symm.trans hbad)
      · split
        · rename_i hbad
          cases hunseen.symm.trans hbad
        · simpa [hnext v (not_not.mp hmem)] using hnew
        · rename_i hbad
          cases hunseen.symm.trans hbad
      · rename_i hbad
        cases hunseen.symm.trans ((hstate v).symm.trans hbad)
  | case6 state position top v rest stack hmem hclosed ih =>
      rw [List.map_cons, List.map_cons, loopFrom, loopFrom, dif_neg hmem,
        dif_neg (mt (mt (hmembers v).mpr) hmem)]
      split
      · rename_i hbad
        cases hclosed.symm.trans ((hstate v).symm.trans hbad)
      · rename_i hbad
        cases hclosed.symm.trans ((hstate v).symm.trans hbad)
      · split
        · rename_i hbad
          cases hclosed.symm.trans hbad
        · rename_i hbad
          cases hclosed.symm.trans hbad
        · exact ih hstate hposition

section

variable (h : Renames σ descriptors descriptors') (hdeclared : Declared descriptors leaves)
  (hedges : Dependencies descriptors edges) (hedges' : Dependencies descriptors' edges')

include h hdeclared hedges hedges'

theorem sortByKey_activeSuccs (v : Nat) :
    sortByKey (keyOf descriptors') (activeSuccs descriptors' retained edges' (σ v)) =
      (sortByKey (keyOf descriptors) (activeSuccs descriptors retained edges v)).map σ := by
  have hlt : ∀ w ∈ activeSuccs descriptors retained edges v, w < descriptors.length := fun w hw =>
    (edges_active retained hdeclared hedges).succs_lt v w hw
  refine sortByKey_rename h.keyOf_eq ?_ fun a ha b hb =>
    keyOf_injective hdeclared.toRegistered (hlt a ha) (hlt b hb)
  refine (List.perm_ext_iff_of_nodup (ascending_activeSuccs (σ v)).nodup
    ((ascending_activeSuccs v).nodup.map σ.injective)).mpr fun w => ?_
  rw [List.mem_map]
  constructor
  · intro hw
    refine ⟨σ.symm w, ?_, Equiv.apply_symm_apply σ w⟩
    rw [← mem_activeSuccs_rename h hdeclared hedges hedges', Equiv.apply_symm_apply]
    exact hw
  · rintro ⟨w, hw, rfl⟩
    exact (mem_activeSuccs_rename h hdeclared hedges hedges').mpr hw

/-- **A component is reported alike under every numbering.** -/
theorem reportOf_rename {component component' : List Nat}
    (hin : component ∈ foundComponents descriptors retained edges)
    (hperm : component'.Perm (component.map σ)) :
    reportOf descriptors' (activeSuccs descriptors' retained edges') component' =
      reportOf descriptors (activeSuccs descriptors retained edges) component := by
  have hcomponent := cyclicComponent_of_mem (edges_active retained hdeclared hedges) hin
  have hlt : ∀ v ∈ component, v < descriptors.length := fun v hv =>
    (hcomponent.cyclic v hv).lt (edges_active retained hdeclared hedges)
  have hmem : ∀ v, σ v ∈ component' ↔ v ∈ component := fun v => by
    rw [hperm.mem_iff, List.mem_map_of_injective σ.injective]
  have hmap : ∀ list : List Nat, (list.map σ).map (keyOf descriptors') =
      list.map (keyOf descriptors) := by
    intro list
    rw [List.map_map]
    exact List.map_congr_left fun v _ => h.keyOf_eq v
  have hloop : loop descriptors' (activeSuccs descriptors' retained edges') component' =
      loop descriptors (activeSuccs descriptors retained edges) component := by
    have hstarts := sortByKey_rename h.keyOf_eq hperm fun a ha b hb =>
      keyOf_injective hdeclared.toRegistered (hlt a ha) (hlt b hb)
    let next := fun v => if component.contains v then
      sortByKey (keyOf descriptors) (activeSuccs descriptors retained edges v)
      else activeSuccs descriptors retained edges v
    let next' := fun v => if component'.contains v then
      sortByKey (keyOf descriptors') (activeSuccs descriptors' retained edges' v)
      else activeSuccs descriptors' retained edges' v
    have hnext : ∀ v ∈ component, next' (σ v) = (next v).map σ := by
      intro v hv
      dsimp only [next, next']
      rw [if_pos (List.contains_iff_mem.mpr ((hmem v).mpr hv)),
        if_pos (List.contains_iff_mem.mpr hv), sortByKey_activeSuccs h hdeclared hedges hedges']
    rw [loop, loop, hstarts]
    cases hfirst : sortByKey (keyOf descriptors) component with
    | nil => rfl
    | cons start rest =>
        have hstart : start ∈ component :=
          (List.mem_insertionSort _).mp (hfirst ▸ List.mem_cons_self)
        have hupdate : ∀ {A : Type} (a b : A) (v : Nat),
            Function.update (fun _ => b) (σ start) a (σ v) =
              Function.update (fun _ => b) start a v := by
          intro A a b v
          by_cases he : v = start
          · subst he
            simp
          · rw [Function.update_of_ne he, Function.update_of_ne fun hσ => he (σ.injective hσ)]
        have hwalk := @loopFrom_rename σ component component' next next' hmem hnext _ _ _ _
          [(start, next start)] (hupdate .open_ .unseen) (hupdate 0 (-1))
        rw [List.map_cons, List.map_nil, ← hnext start hstart] at hwalk
        exact (congrArg (List.map (keyOf descriptors')) hwalk).trans (hmap _)
  have hmembers : ((component'.map (keyOf descriptors')).insertionSort (· ≤ ·)) =
      ((component.map (keyOf descriptors)).insertionSort (· ≤ ·)) := by
    refine List.Perm.eq_of_pairwise' (List.pairwise_insertionSort _ _)
      (List.pairwise_insertionSort _ _) ?_
    refine (List.perm_insertionSort _ _).trans (List.Perm.trans ?_ (List.perm_insertionSort _ _).symm)
    exact hmap component ▸ hperm.map (keyOf descriptors')
  rw [reportOf, reportOf, hloop, hmembers]

theorem mem_cycleReports_rename {report : CycleReport}
    (hreport : report ∈ cycleReports descriptors retained edges) :
    report ∈ cycleReports descriptors' retained edges' := by
  rw [cycleReports, Lib.mem_sortUnique, List.mem_append] at hreport ⊢
  refine hreport.imp_right fun hfound => ?_
  obtain ⟨component, hin, rfl⟩ := List.mem_map.mp hfound
  obtain ⟨component', hin', hperm⟩ := exists_component h hdeclared hedges hedges' hin
  exact List.mem_map.mpr ⟨component', hin', reportOf_rename h hdeclared hedges hedges' hin hperm⟩

/-- **The reports are the same.** -/
theorem cycleReports_rename :
    cycleReports descriptors' retained edges' = cycleReports descriptors retained edges :=
  (Lib.ascending_sortUnique _).eq_of_mem_iff (Lib.ascending_sortUnique _) fun _ =>
    ⟨mem_cycleReports_rename h.symm (h.declared hdeclared) hedges' hedges,
      mem_cycleReports_rename h hdeclared hedges hedges'⟩

/-! ## The order -/

theorem kept_rename : Kept descriptors' retained edges' (σ v) ↔ Kept descriptors retained edges v := by
  rw [Kept, Kept, excludedOps_rename h hdeclared hedges hedges', h.length_eq, h.lt_iff]

theorem placed_rename : Placed (Kept descriptors retained edges) (Kept descriptors' retained edges')
    (keptOf descriptors retained edges (activePreds descriptors retained edges))
    (keptOf descriptors' retained edges' (activePreds descriptors' retained edges')) σ := by
  have hkept : ∀ v, Kept descriptors' retained edges' (σ v) ↔ Kept descriptors retained edges v :=
    fun _ => kept_rename h hdeclared hedges hedges'
  exact {
    injective := fun _ _ _ _ he => σ.injective he
    scope_iff := by
      intro w
      constructor
      · intro hw
        rw [← Equiv.apply_symm_apply σ w] at hw
        exact ⟨σ.symm w, (hkept _).mp hw, Equiv.apply_symm_apply σ w⟩
      · rintro ⟨v, hv, rfl⟩
        exact (hkept v).mpr hv
    within := by
      intro v hv u hu
      exact ((mem_keptPreds hdeclared hedges hv).mp hu).1
    forth := by
      intro v hv u hu
      obtain ⟨hu, hdep⟩ := (mem_keptPreds hdeclared hedges hv).mp hu
      exact (mem_keptPreds (h.declared hdeclared) hedges' ((hkept v).mpr hv)).mpr
        ⟨(hkept u).mpr hu, h.depends_iff.mpr hdep⟩
    back := by
      intro v hv p hp
      obtain ⟨hp, hdep⟩ :=
        (mem_keptPreds (h.declared hdeclared) hedges' ((hkept v).mpr hv)).mp hp
      rw [← Equiv.apply_symm_apply σ p] at hp hdep
      exact ⟨σ.symm p, (mem_keptPreds hdeclared hedges hv).mpr
        ⟨(hkept _).mp hp, h.depends_iff.mp hdep⟩, Equiv.apply_symm_apply σ p⟩ }

/-- **The order is renamed in place**: both orders have the least keys. -/
theorem orderOf_rename :
    orderOf descriptors' retained edges' = (orderOf descriptors retained edges).map σ := by
  obtain ⟨horder, hleast⟩ := orderOf_spec retained hdeclared hedges
  obtain ⟨horder', hleast'⟩ := orderOf_spec retained (h.declared hdeclared) hedges'
  refine (placed_rename h hdeclared hedges hedges').least_eq ?_ ?_ horder hleast horder' hleast'
  · intro v _
    exact h.keyOf_eq v
  · intro u v hu hv hkey
    exact keyOf_injective (h.declared hdeclared).toRegistered hu.1 hv.1 hkey

/-! ## The graph -/

/-- An op with its original index renamed. -/
def CompiledOp.rename (σ : Equiv.Perm Nat) (op : CompiledOp) : CompiledOp :=
  { op with originalIndex := σ op.originalIndex }

/-- **The ops are the same** up to the original index. -/
theorem emitted_ops_rename (reports : List CycleReport) :
    (emitted descriptors' retained edges' reports (orderOf descriptors' retained edges')).ops =
      (emitted descriptors retained edges reports (orderOf descriptors retained edges)).ops.map
        (CompiledOp.rename σ) := by
  have horder := (orderOf_spec retained hdeclared hedges).1
  rw [orderOf_rename h hdeclared hedges hedges']
  refine emitted_ops_placed hdeclared hedges horder (h.declared hdeclared) hedges'
    ((placed_rename h hdeclared hedges hedges').order_map horder) ?_ ?_ _ _
  · intro u _ v _
    exact h.depends_iff
  · intro v _
    rw [h.get_eq, Option.map_map]
    rfl

theorem canonicalIndex_rename (reports : List CycleReport) (hi : i < descriptors.length) :
    (emitted descriptors' retained edges' reports
      (orderOf descriptors' retained edges')).canonicalIndex[σ i]? =
    (emitted descriptors retained edges reports
      (orderOf descriptors retained edges)).canonicalIndex[i]? := by
  have hlt : σ i < descriptors'.length := by
    rw [h.length_eq]
    exact (h.lt_iff i).mpr hi
  have hidx : ∀ list : List Nat, (list.map σ).idxOf (σ i) = list.idxOf i := by
    intro list
    induction list with
    | nil => rfl
    | cons a list ih => simp [List.idxOf_cons, ih, beq_eq_decide]
  simp only [emitted, emitGraph, List.getElem?_map, List.getElem?_range hlt, List.getElem?_range hi,
    Option.map_some, orderOf_rename h hdeclared hedges hedges', hidx, List.contains_iff_mem,
    List.mem_map_of_injective σ.injective]

end

end

/-- The same fields from the same ops: what is read off the ops ignores their original index. -/
theorem distances_rename (σ : Equiv.Perm Nat) (ops : List CompiledOp) :
    distances (ops.map (CompiledOp.rename σ)) = distances ops := by
  rw [distances, distances, List.foldl_map]
  rfl

theorem any_rename (σ : Equiv.Perm Nat) (ops : List CompiledOp) (test : OpDescriptor → Bool) :
    ((List.range (ops.map (CompiledOp.rename σ)).length).filter fun i =>
      (ops.map (CompiledOp.rename σ))[i]?.any fun op => test op.descriptor) =
    (List.range ops.length).filter fun i => ops[i]?.any fun op => test op.descriptor := by
  rw [List.length_map]
  refine List.filter_congr fun i _ => ?_
  rw [List.getElem?_map, Option.any_map]
  rfl

/-! ## Whole compilations -/

/-- Every vertex of a list stands after the vertices of `kept` it depends on. -/
def RespectsDependencies (descriptors : List OpDescriptor) (kept order : List Nat) : Prop :=
  ∀ pre v post, order = pre ++ v :: post → ∀ u ∈ kept, Depends descriptors v u → u ∈ pre

/-- The ops stand in dependency order, and of all such orders of theirs this one's keys come
first. -/
def LeastOrder (descriptors : List OpDescriptor) (graph : CompiledGraph) : Prop :=
  RespectsDependencies descriptors (graph.ops.map CompiledOp.originalIndex)
      (graph.ops.map CompiledOp.originalIndex) ∧
    ∀ other : List Nat, other.Perm (graph.ops.map CompiledOp.originalIndex) →
      RespectsDependencies descriptors (graph.ops.map CompiledOp.originalIndex) other →
      graph.ops.map (fun op => op.descriptor.key) ≤ other.map (keyOf descriptors)

section

variable {σ : Equiv.Perm Nat} {descriptors descriptors' : List OpDescriptor}
  {leaves : List ValueId} {retained : Option OpExclusionProof} {edges edges' : Nat → List Nat}
  {policy : CyclePolicy} {graph : CompiledGraph}

theorem leastOrder_emitted (hdeclared : Declared descriptors leaves)
    (hedges : Dependencies descriptors edges) (reports : List CycleReport) :
    LeastOrder descriptors (singly (emitted descriptors retained edges reports
      (orderOf descriptors retained edges))) := by
  obtain ⟨horder, hleast⟩ := orderOf_spec retained hdeclared hedges
  have hkept : (singly (emitted descriptors retained edges reports
      (orderOf descriptors retained edges))).ops.map CompiledOp.originalIndex =
      orderOf descriptors retained edges := by
    simp [singly, emitted, emitGraph, Function.comp_def, emitOp]
  have hkeys : (singly (emitted descriptors retained edges reports
      (orderOf descriptors retained edges))).ops.map (fun op => op.descriptor.key) =
      (orderOf descriptors retained edges).map (keyOf descriptors) := by
    simp only [singly, emitted, emitGraph, List.map_map]
    refine List.map_congr_left fun v _ => ?_
    simp only [Function.comp_apply, emitOp, keyOf]
    cases descriptors[v]? <;> rfl
  rw [LeastOrder, hkept, hkeys]
  refine ⟨fun pre v post he u hu hdep => ?_, fun other hperm hrespects => hleast other ?_⟩
  · have hv := (horder.mem_iff v).mp (by rw [he]; simp)
    exact horder.topological pre v post he u
      ((mem_keptPreds hdeclared hedges hv).mpr ⟨(horder.mem_iff u).mp hu, hdep⟩)
  · refine ⟨fun pre v post he p hp => ?_, hperm.nodup_iff.mpr horder.nodup, fun v =>
      hperm.mem_iff.trans (horder.mem_iff v)⟩
    have hv : Kept descriptors retained edges v :=
      (horder.mem_iff v).mp (hperm.mem_iff.mp (by rw [he]; simp))
    obtain ⟨hkept', hdep⟩ := (mem_keptPreds hdeclared hedges hv).mp hp
    exact hrespects pre v post he p ((horder.mem_iff p).mpr hkept') hdep

/-- A graph with its original indices renamed; `canonical` is indexed by them. -/
def CompiledGraph.rename (σ : Equiv.Perm Nat) (canonical : List Int) (graph : CompiledGraph) :
    CompiledGraph :=
  { graph with
    ops := graph.ops.map (CompiledOp.rename σ)
    canonicalIndex := canonical }

theorem singly_rename (σ : Equiv.Perm Nat) (canonical : List Int) (graph : CompiledGraph) :
    singly (graph.rename σ canonical) = (singly graph).rename σ canonical := by
  have hpreds : ∀ i, (graph.rename σ canonical).preds i = graph.preds i := by
    intro i
    simp only [CompiledGraph.preds, CompiledGraph.rename, List.getElem?_map]
    cases graph.ops[i]? <;> rfl
  have hsuccs : ∀ i, (graph.rename σ canonical).succs i = graph.succs i := by
    intro i
    simp only [CompiledGraph.succs, CompiledGraph.rename, List.getElem?_map]
    cases graph.ops[i]? <;> rfl
  simp only [singly, hpreds, hsuccs]
  simp [CompiledGraph.rename]

theorem emitted_rename (h : Renames σ descriptors descriptors')
    (hdeclared : Declared descriptors leaves) (hedges : Dependencies descriptors edges)
    (hedges' : Dependencies descriptors' edges') (reports : List CycleReport) :
    ∃ canonical, emitted descriptors' retained edges' reports (orderOf descriptors' retained edges') =
        (emitted descriptors retained edges reports (orderOf descriptors retained edges)).rename σ
          canonical ∧
      ∀ i < descriptors.length, canonical[σ i]? = (emitted descriptors retained edges reports
        (orderOf descriptors retained edges)).canonicalIndex[i]? := by
  have hops := @emitted_ops_rename σ descriptors descriptors' leaves retained edges edges' h hdeclared
    hedges hedges' reports
  refine ⟨_, ?_, fun i hi => canonicalIndex_rename h hdeclared hedges hedges' reports hi⟩
  have hreaders : ∀ ops : List CompiledOp,
      readersOf (ops.map (CompiledOp.rename σ)) = readersOf ops := fun ops =>
    funext fun value => any_rename σ ops fun d => d.reads.contains value
  have hvolatile := fun ops : List CompiledOp => any_rename σ ops OpDescriptor.volatileInput
  have heta : ∀ (ex : Nat → Bool) (p s : Nat → List Nat) (order : List Nat)
      (list : List OpDescriptor), emitGraph list ex p s reports order =
        { ops := (emitGraph list ex p s reports order).ops
          canonicalIndex := (emitGraph list ex p s reports order).canonicalIndex
          readers := readersOf (emitGraph list ex p s reports order).ops
          cycles := reports.map fun report => (ofLex report).1
          cycleMembers := reports.map fun report => (ofLex report).2
          longestPath := (distances (emitGraph list ex p s reports order).ops).foldl max 0
          volatileOps := (List.range (emitGraph list ex p s reports order).ops.length).filter fun i =>
            (emitGraph list ex p s reports order).ops[i]?.any fun op =>
              op.descriptor.volatileInput } := fun _ _ _ _ _ => rfl
  rw [emitted, emitted] at hops ⊢
  rw [heta _ _ _ _ descriptors', heta _ _ _ _ descriptors, hops, hreaders, distances_rename,
    hvolatile]
  rfl

/-- **A renamed list compiles to the same graph**, up to the original indices. -/
theorem Renames.compile_ok (h : Renames σ descriptors descriptors')
    (hgraph : compileOpGraph descriptors leaves policy retained = .ok graph) :
    ∃ canonical, compileOpGraph descriptors' leaves policy retained =
        .ok (graph.rename σ canonical) ∧
      ∀ i < descriptors.length, canonical[σ i]? = graph.canonicalIndex[i]? := by
  obtain ⟨hdeclared, hretained, edges, hedges, horder⟩ := compileOpGraph_ok.mp hgraph
  have hretained' : retained.elim (.ok ()) (checkRetained (descriptors'.map OpDescriptor.key)) =
      .ok () := by
    cases retained with
    | none => rfl
    | some proof => exact (h.checkRetained_eq proof).trans hretained
  obtain ⟨edges', hedges', hcompile⟩ := compileOpGraph_of_declared (h.declared hdeclared) hretained'
  have hreports := @cycleReports_rename σ descriptors descriptors' leaves retained edges edges' h
    hdeclared hedges hedges'
  rw [orderGraph_ok hdeclared hedges] at horder
  rw [hcompile, orderGraph_ok (h.declared hdeclared) hedges', hreports]
  split at horder
  · cases horder
  · rename_i hpolicy
    cases horder
    obtain ⟨canonical, hemitted, hcanonical⟩ := @emitted_rename σ descriptors descriptors' leaves
      retained edges edges' h hdeclared hedges hedges' (cycleReports descriptors retained edges)
    exact ⟨canonical, by rw [if_neg hpolicy, hemitted, singly_rename], hcanonical⟩

/-- **The declaration order does not matter.**  A renamed list compiles exactly when the list does,
to the same graph up to the original indices; and the execution order is the topological order of
the kept ops whose keys come first. -/
theorem compileOpGraph_renames (h : Renames σ descriptors descriptors') (leaves : List ValueId)
    (policy : CyclePolicy) (retained : Option OpExclusionProof) :
    ((∃ graph, compileOpGraph descriptors leaves policy retained = .ok graph) ↔
      ∃ graph, compileOpGraph descriptors' leaves policy retained = .ok graph) ∧
    ∀ graph, compileOpGraph descriptors leaves policy retained = .ok graph →
      (∃ canonical, compileOpGraph descriptors' leaves policy retained =
          .ok (graph.rename σ canonical) ∧
        ∀ i < descriptors.length, canonical[σ i]? = graph.canonicalIndex[i]?) ∧
      LeastOrder descriptors graph := by
  refine ⟨⟨fun ⟨graph, hgraph⟩ => ?_, fun ⟨graph, hgraph⟩ => ?_⟩, fun graph hgraph =>
    ⟨h.compile_ok hgraph, ?_⟩⟩
  · obtain ⟨canonical, hgraph', -⟩ := h.compile_ok hgraph
    exact ⟨_, hgraph'⟩
  · obtain ⟨canonical, hgraph', -⟩ := h.symm.compile_ok hgraph
    exact ⟨_, hgraph'⟩
  · obtain ⟨hdeclared, -, edges, hedges, horder⟩ := compileOpGraph_ok.mp hgraph
    rw [orderGraph_ok hdeclared hedges] at horder
    split at horder
    · cases horder
    · cases horder
      exact leastOrder_emitted hdeclared hedges _

/-- Two descriptors swapped, the second one naming the first as a predecessor. -/
theorem compileOpGraph_renames_swapped :
    ((∃ graph, compileOpGraph [{ key := "a" }, { key := "b", predecessors := [0] }]
    [] .reject none =
        .ok graph) ↔
      ∃ graph, compileOpGraph [{ key := "b", predecessors := [1] }, { key := "a" }] [] .reject none =
        .ok graph) ∧
    ∀ graph, compileOpGraph [{ key := "a" }, { key := "b", predecessors := [0] }] [] .reject none =
        .ok graph →
      (∃ canonical, compileOpGraph [{ key := "b", predecessors := [1] }, { key := "a" }] [] .reject
          none = .ok (graph.rename (Equiv.swap 0 1) canonical) ∧
        ∀ i < 2, canonical[(Equiv.swap 0 1 : Equiv.Perm Nat) i]? = graph.canonicalIndex[i]?) ∧
      LeastOrder [{ key := "a" }, { key := "b", predecessors := [0] }] graph := by
  refine @compileOpGraph_renames (Equiv.swap 0 1)
    [{ key := "a" }, { key := "b", predecessors := [0] }]
    [{ key := "b", predecessors := [1] }, { key := "a" }] ⟨rfl, fun i => ?_, fun i => ?_⟩ [] .reject
    none
  · match i with
    | 0 => decide
    | 1 => decide
    | i + 2 => rw [Equiv.swap_apply_of_ne_of_ne (by omega) (by omega)]
  · match i with
    | 0 => decide
    | 1 => decide
    | i + 2 =>
        rw [Equiv.swap_apply_of_ne_of_ne (by omega) (by omega)]
        rfl

end

end RigExec.OpGraph
