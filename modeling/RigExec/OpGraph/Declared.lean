/-
# `RigExec.OpGraph.Declared` — what the compiler accepts of a declaration list

The first loops of `RigExecCompileOpGraph` check keys and writes, predecessors and
reads.  What they accept is `Declared`, a condition on the list as a whole, and what
they hand on is one list of predecessors for every descriptor (`Dependencies`),
determined by the declarations.  `compileOpGraph_ok` puts the two together: from
there on only the edges, the keys and the retained proof are looked at.
-/
import RigExec.OpGraph.Model

namespace RigExec.OpGraph

open Lib (sortUnique Ascending)

variable {descriptors front rest : List OpDescriptor} {leaves : List ValueId}
  {producers : ValueId → Option Nat}

/-! ## Keys and writes -/

/-- Keys are nonempty and distinct, and every value has one producer and is no leaf. -/
structure Registered (leaves : List ValueId) (list : List OpDescriptor) : Prop where
  key_ne : ∀ d ∈ list, d.key ≠ ""
  keys : (list.map OpDescriptor.key).Nodup
  leaf : ∀ d ∈ list, ∀ v ∈ d.writes, v ∉ leaves
  single : list.Pairwise fun a b => ∀ v ∈ a.writes, v ∉ b.writes

/-- The producers are the writers of a list. -/
def Producing (list : List OpDescriptor) (producers : ValueId → Option Nat) : Prop :=
  ∀ v j, producers v = some j ↔ ∃ d, list[j]? = some d ∧ v ∈ d.writes

theorem Registered.append_left (h : Registered leaves (front ++ rest)) :
    Registered leaves front where
  key_ne := fun d hd => h.key_ne d (List.mem_append_left _ hd)
  keys := by
    have := h.keys
    rw [List.map_append] at this
    exact (List.nodup_append.mp this).1
  leaf := fun d hd => h.leaf d (List.mem_append_left _ hd)
  single := (List.pairwise_append.mp h.single).1

theorem registered_append_singleton {d : OpDescriptor} :
    Registered leaves (front ++ [d]) ↔ Registered leaves front ∧ d.key ≠ "" ∧
      d.key ∉ front.map OpDescriptor.key ∧ (∀ v ∈ d.writes, v ∉ leaves) ∧
        ∀ a ∈ front, ∀ v ∈ a.writes, v ∉ d.writes := by
  constructor
  · intro h
    refine ⟨h.append_left, h.key_ne d (by simp), fun hin => ?_, h.leaf d (by simp), ?_⟩
    · have := h.keys
      rw [List.map_append] at this
      exact (List.nodup_append.mp this).2.2 d.key hin d.key (by simp) rfl
    · exact fun a ha => (List.pairwise_append.mp h.single).2.2 a ha d (List.mem_singleton_self d)
  · rintro ⟨h, hkey, hnew, hleaf, hsingle⟩
    refine ⟨fun a ha => ?_, ?_, fun a ha => ?_, ?_⟩
    · rcases List.mem_append.mp ha with ha | ha
      · exact h.key_ne a ha
      · exact List.mem_singleton.mp ha ▸ hkey
    · rw [List.map_append]
      refine List.nodup_append.mpr ⟨h.keys, List.nodup_singleton _, fun a ha b hb hab => ?_⟩
      exact hnew (List.mem_singleton.mp hb ▸ hab ▸ ha)
    · rcases List.mem_append.mp ha with ha | ha
      · exact h.leaf a ha
      · exact List.mem_singleton.mp ha ▸ hleaf
    · refine List.pairwise_append.mpr ⟨h.single, List.pairwise_singleton _ _, fun a ha b hb => ?_⟩
      exact List.mem_singleton.mp hb ▸ hsingle a ha

theorem registerWrites_spec (descriptors : List OpDescriptor) (leaves : List ValueId) (i : Nat)
    (writes : List ValueId) (producers : ValueId → Option Nat) :
    ((∃ p, registerWrites descriptors leaves i writes producers = .ok p) ↔
      ∀ v ∈ writes, v ∉ leaves ∧ ∀ j, producers v = some j → j = i) ∧
    ∀ p, registerWrites descriptors leaves i writes producers = .ok p →
      p = fun v => if v ∈ writes then some i else producers v := by
  induction writes generalizing producers with
  | nil => simp [registerWrites, eq_comm]
  | cons value writes ih =>
      by_cases hleaf : value ∈ leaves
      · have hcontains : leaves.contains value = true := List.contains_iff_mem.mpr hleaf
        have herror : ∀ p, registerWrites descriptors leaves i (value :: writes) producers ≠ .ok p := by
          intro p h
          simp only [registerWrites, hcontains, if_true] at h
          split at h
          · split at h <;> cases h
          · cases h
        refine ⟨iff_of_false (fun ⟨p, h⟩ => herror p h) fun h => ?_, fun p h => absurd h (herror p)⟩
        exact (h value List.mem_cons_self).1 hleaf
      · have hcontains : leaves.contains value = false := by simpa using hleaf
        cases hvalue : producers value with
        | none =>
            have hset : ∀ v, (∀ j, Function.update producers value (some i) v = some j → j = i) ↔
                ∀ j, producers v = some j → j = i := by
              intro v
              by_cases he : v = value
              · subst he
                simp [hvalue, eq_comm]
              · simp [Function.update_of_ne he]
            obtain ⟨hok, hp⟩ := ih (Function.update producers value (some i))
            simp only [registerWrites, hvalue, hcontains, hok, Bool.false_eq_true, if_false]
            refine ⟨?_, fun p h => (hp p h).trans (funext fun v => ?_)⟩
            · simp only [hset, List.forall_mem_cons, hvalue, hleaf, not_false_eq_true, true_and,
                reduceCtorEq, false_imp_iff, implies_true]
            · by_cases he : v = value
              · subst he
                simp
              · simp [he]
        | some other =>
            by_cases he : other = i
            · subst he
              obtain ⟨hok, hp⟩ := ih producers
              simp only [registerWrites, hvalue, hcontains, hok, ne_eq, not_true_eq_false,
                Bool.false_eq_true, if_false]
              refine ⟨?_, fun p h => (hp p h).trans (funext fun v => ?_)⟩
              · simp only [List.forall_mem_cons, hvalue, hleaf, not_false_eq_true, true_and,
                  Option.some.injEq, forall_eq']
              · by_cases he : v = value
                · subst he
                  simp [hvalue]
                · simp [he]
            · simp only [registerWrites, hvalue, ne_eq, he, not_false_eq_true, if_true]
              refine ⟨iff_of_false (fun ⟨p, h⟩ => (nomatch h)) fun h => ?_, fun p h => (nomatch h)⟩
              exact he ((h value List.mem_cons_self).2 other hvalue)

theorem Producing.append_singleton (h : Producing front producers) {d : OpDescriptor}
    (hnew : ∀ v ∈ d.writes, ∀ j, producers v = some j → j = front.length) :
    Producing (front ++ [d]) fun v => if v ∈ d.writes then some front.length else producers v := by
  have hnone : ∀ v ∈ d.writes, producers v = none := by
    intro v hv
    refine Option.eq_none_iff_forall_ne_some.mpr fun j hj => ?_
    obtain ⟨a, ha, -⟩ := (h v j).mp hj
    have hlt := (List.getElem?_eq_some_iff.mp ha).1
    exact Nat.ne_of_lt hlt (hnew v hv j hj)
  intro v j
  by_cases hv : v ∈ d.writes
  · simp only [if_pos hv, Option.some.injEq]
    constructor
    · rintro rfl
      exact ⟨d, by simp, hv⟩
    · rintro ⟨a, ha, hva⟩
      by_cases hj : j < front.length
      · rw [List.getElem?_append_left hj] at ha
        cases (hnone v hv).symm.trans ((h v j).mpr ⟨a, ha, hva⟩)
      · have := (List.getElem?_eq_some_iff.mp ha).1
        simp only [List.length_append, List.length_singleton] at this
        omega
  · simp only [if_neg hv, h v j]
    constructor
    · rintro ⟨a, ha, hva⟩
      refine ⟨a, ?_, hva⟩
      rw [List.getElem?_append_left (List.getElem?_eq_some_iff.mp ha).1, ha]
    · rintro ⟨a, ha, hva⟩
      by_cases hj : j < front.length
      · rw [List.getElem?_append_left hj] at ha
        exact ⟨a, ha, hva⟩
      · have hlt := (List.getElem?_eq_some_iff.mp ha).1
        simp only [List.length_append, List.length_singleton] at hlt
        have hj' : j = front.length := by omega
        subst hj'
        simp only [List.getElem?_concat_length, Option.some.injEq] at ha
        exact absurd (ha ▸ hva) hv

/-- **The loop over keys and writes** accepts exactly the registered lists. -/
theorem registerOps_spec (descriptors : List OpDescriptor) {keys : List String}
    (hfront : Registered leaves front)
    (hkeys : ∀ key, key ∈ keys ↔ key ∈ front.map OpDescriptor.key)
    (hproducers : Producing front producers) :
    (Registered leaves (front ++ rest) →
      ∃ p, registerOps descriptors leaves front.length rest keys producers = .ok p) ∧
    ∀ p, registerOps descriptors leaves front.length rest keys producers = .ok p →
      Registered leaves (front ++ rest) ∧ Producing (front ++ rest) p := by
  induction rest generalizing front keys producers with
  | nil =>
      rw [List.append_nil]
      refine ⟨fun _ => ⟨producers, rfl⟩, fun p h => ?_⟩
      cases h
      exact ⟨hfront, hproducers⟩
  | cons d rest ih =>
      obtain ⟨hok, hp⟩ := registerWrites_spec descriptors leaves front.length d.writes producers
      have hnext : ∀ {p}, Registered leaves (front ++ [d]) →
          registerWrites descriptors leaves front.length d.writes producers = .ok p → _ :=
        fun {p} hreg hwrites =>
          have hkeys' : ∀ key, key ∈ d.key :: keys ↔ key ∈ (front ++ [d]).map OpDescriptor.key := by
            simp [hkeys, or_comm]
          ih hreg hkeys' ((hp p hwrites).symm ▸ hproducers.append_singleton
            fun v hv => (hok.mp ⟨p, hwrites⟩ v hv).2)
      have happend : front ++ d :: rest = front ++ [d] ++ rest := by simp
      have hlength : (front ++ [d]).length = front.length + 1 := by simp
      simp only [hlength, ← happend] at hnext
      simp only [registerOps, List.contains_iff_mem, hkeys]
      constructor
      · intro hall
        have hreg : Registered leaves (front ++ [d]) := (happend ▸ hall).append_left
        obtain ⟨-, hkey, hnew, hleaf, hsingle⟩ := registered_append_singleton.mp hreg
        rw [if_neg (not_or.mpr ⟨hkey, hnew⟩)]
        obtain ⟨p, hwrites⟩ := hok.mpr fun v hv => ⟨hleaf v hv, fun j hj => by
          obtain ⟨a, ha, hva⟩ := (hproducers v j).mp hj
          exact absurd hv (hsingle a (List.mem_of_getElem? ha) v hva)⟩
        rw [hwrites]
        exact (hnext hreg hwrites).1 hall
      · intro p h
        split at h
        · cases h
        · rename_i hkey
          obtain ⟨hkey, hnew⟩ := not_or.mp hkey
          split at h
          · cases h
          · rename_i p' hwrites
            have hsplit := hok.mp ⟨p', hwrites⟩
            refine (hnext ?_ hwrites).2 p h
            refine registered_append_singleton.mpr ⟨hfront, hkey, hnew, fun v hv => (hsplit v hv).1,
              fun a ha v hva hv => ?_⟩
            obtain ⟨j, hj⟩ := List.mem_iff_getElem?.mp ha
            have := (hsplit v hv).2 j ((hproducers v j).mpr ⟨a, hj, hva⟩)
            exact Nat.ne_of_lt (List.getElem?_eq_some_iff.mp hj).1 this

/-! ## Predecessors and reads -/

theorem readProducers_ok {key : String} {reads : List ValueId} {produced : List Nat} :
    readProducers leaves producers key reads = .ok produced ↔
      (∀ v ∈ reads, producers v = none → v ∈ leaves) ∧ produced = reads.filterMap producers := by
  induction reads generalizing produced with
  | nil => simp [readProducers, eq_comm]
  | cons value reads ih =>
      simp only [readProducers, List.forall_mem_cons]
      cases hvalue : producers value with
      | none =>
          by_cases hleaf : value ∈ leaves
          · simp [hleaf, ih, hvalue]
          · simp [hleaf]
      | some producer =>
          cases hrest : readProducers leaves producers key reads with
          | error message =>
              have : ¬ ∀ v ∈ reads, producers v = none → v ∈ leaves := fun h => by
                cases hrest.symm.trans (ih.mpr ⟨h, rfl⟩)
              simp [Except.map, this]
          | ok list =>
              obtain ⟨hall, rfl⟩ := ih.mp hrest
              simp only [Except.map, Except.ok.injEq, reduceCtorEq, false_imp_iff, true_and,
                List.filterMap_cons_some hvalue]
              exact ⟨fun h => ⟨hall, h.symm⟩, fun h => h.2.symm⟩

theorem predecessorLists_ok {count : Nat} {lists : List (List Nat)} :
    predecessorLists count leaves producers rest = .ok lists ↔
      (∀ d ∈ rest, (∀ p ∈ d.predecessors, p < count) ∧
        ∀ v ∈ d.reads, producers v = none → v ∈ leaves) ∧
      lists = rest.map fun d => sortUnique (d.predecessors ++ d.reads.filterMap producers) := by
  induction rest generalizing lists with
  | nil => simp [predecessorLists, eq_comm]
  | cons d rest ih =>
      simp only [predecessorLists, List.forall_mem_cons, List.map_cons]
      by_cases hrange : ∀ p ∈ d.predecessors, p < count
      · have hany : (d.predecessors.any (count ≤ ·)) = false := by simpa using hrange
        rw [if_neg (by simp [hany])]
        cases hreads : readProducers leaves producers d.key d.reads with
        | error message =>
            have : ¬ ∀ v ∈ d.reads, producers v = none → v ∈ leaves := fun h => by
              cases hreads.symm.trans (readProducers_ok.mpr ⟨h, rfl⟩)
            simp [this]
        | ok produced =>
            obtain ⟨hleaf, rfl⟩ := readProducers_ok.mp hreads
            cases hrest : predecessorLists count leaves producers rest with
            | error message =>
                have : ¬ ∀ d ∈ rest, (∀ p ∈ d.predecessors, p < count) ∧
                    ∀ v ∈ d.reads, producers v = none → v ∈ leaves := fun h => by
                  cases hrest.symm.trans (ih.mpr ⟨h, rfl⟩)
                simp [Except.map, this]
            | ok list =>
                obtain ⟨hall, rfl⟩ := ih.mp hrest
                simp only [Except.map, Except.ok.injEq]
                exact ⟨fun h => ⟨⟨⟨hrange, hleaf⟩, hall⟩, h.symm⟩, fun h => h.2.symm⟩
      · have hany : (d.predecessors.any (count ≤ ·)) = true := by simpa using hrange
        rw [if_pos hany]
        exact iff_of_false (fun h => (nomatch h)) fun h => hrange h.1.1.1

/-! ## The declarations as a whole -/

/-- What the first loops of the compiler accept. -/
structure Declared (descriptors : List OpDescriptor) (leaves : List ValueId) : Prop extends
    Registered leaves descriptors where
  few : descriptors.length ≤ uint32Max
  predecessors_lt : ∀ d ∈ descriptors, ∀ p ∈ d.predecessors, p < descriptors.length
  sourced : ∀ d ∈ descriptors, ∀ v ∈ d.reads, v ∈ leaves ∨ ∃ w ∈ descriptors, v ∈ w.writes

/-- The `i`th descriptor names the `j`th as a predecessor or reads a value it writes. -/
def Depends (descriptors : List OpDescriptor) (i j : Nat) : Prop :=
  ∃ d, descriptors[i]? = some d ∧
    (j ∈ d.predecessors ∨ ∃ v ∈ d.reads, ∃ w, descriptors[j]? = some w ∧ v ∈ w.writes)

/-- The predecessors of every descriptor, ascending. -/
structure Dependencies (descriptors : List OpDescriptor) (edges : Nat → List Nat) : Prop where
  ascending : ∀ i, Ascending (edges i)
  mem_iff : ∀ i j, j ∈ edges i ↔ Depends descriptors i j

theorem Dependencies.unique {edges edges' : Nat → List Nat} (h : Dependencies descriptors edges)
    (h' : Dependencies descriptors edges') : edges = edges' :=
  funext fun i => (h.ascending i).eq_of_mem_iff (h'.ascending i) fun j =>
    (h.mem_iff i j).trans (h'.mem_iff i j).symm

theorem Depends.lt (h : Declared descriptors leaves) {i j : Nat} (hdep : Depends descriptors i j) :
    i < descriptors.length ∧ j < descriptors.length := by
  obtain ⟨d, hd, hj⟩ := hdep
  refine ⟨(List.getElem?_eq_some_iff.mp hd).1, ?_⟩
  rcases hj with hj | ⟨v, -, w, hw, -⟩
  · exact h.predecessors_lt d (List.mem_of_getElem? hd) j hj
  · exact (List.getElem?_eq_some_iff.mp hw).1

theorem keyOf_injective (h : Registered leaves descriptors) {i j : Nat}
    (hi : i < descriptors.length) (hj : j < descriptors.length)
    (hkey : keyOf descriptors i = keyOf descriptors j) : i = j := by
  simp only [keyOf, List.getElem?_eq_getElem hi, List.getElem?_eq_getElem hj] at hkey
  have hi' : i < (descriptors.map OpDescriptor.key).length := by simpa using hi
  have hj' : j < (descriptors.map OpDescriptor.key).length := by simpa using hj
  have hsame : (descriptors.map OpDescriptor.key)[i] = (descriptors.map OpDescriptor.key)[j] := by
    simpa using hkey
  exact (List.Nodup.getElem_inj_iff h.keys).mp hsame

theorem Registered.writer_unique (h : Registered leaves descriptors) {i j : Nat}
    {d w : OpDescriptor} (hi : descriptors[i]? = some d) (hj : descriptors[j]? = some w)
    {value : ValueId} (hd : value ∈ d.writes) (hw : value ∈ w.writes) : i = j := by
  obtain ⟨hilt, rfl⟩ := List.getElem?_eq_some_iff.mp hi
  obtain ⟨hjlt, rfl⟩ := List.getElem?_eq_some_iff.mp hj
  have hpairs := List.pairwise_iff_getElem.mp h.single
  rcases Nat.lt_trichotomy i j with hlt | he | hlt
  · exact absurd hw (hpairs i j hilt hjlt hlt value hd)
  · exact he
  · exact absurd hd (hpairs j i hjlt hilt hlt value hw)

theorem dependencies_listAt (hproducers : Producing descriptors producers) :
    Dependencies descriptors (listAt (descriptors.map fun d =>
      sortUnique (d.predecessors ++ d.reads.filterMap producers))) := by
  refine ⟨fun i => ?_, fun i j => ?_⟩
  · simp only [listAt, List.getElem?_map]
    cases descriptors[i]? with
    | none => exact List.Pairwise.nil
    | some d => exact Lib.ascending_sortUnique _
  · simp only [listAt, List.getElem?_map, Depends]
    cases descriptors[i]? with
    | none => simp
    | some d =>
        simp only [Option.map_some, Option.getD_some, Lib.mem_sortUnique, List.mem_append,
          List.mem_filterMap, hproducers _ j, Option.some.injEq, exists_eq_left']

theorem registerOps_all (descriptors : List OpDescriptor) (leaves : List ValueId) :
    (Registered leaves descriptors →
      ∃ p, registerOps descriptors leaves 0 descriptors [] (fun _ => none) = .ok p) ∧
    ∀ p, registerOps descriptors leaves 0 descriptors [] (fun _ => none) = .ok p →
      Registered leaves descriptors ∧ Producing descriptors p := by
  have hnil : Registered leaves [] :=
    ⟨fun d hd => (nomatch hd), List.nodup_nil, fun d hd => (nomatch hd), List.Pairwise.nil⟩
  have hkeys : ∀ key, key ∈ ([] : List String) ↔ key ∈ ([] : List OpDescriptor).map OpDescriptor.key :=
    fun _ => Iff.rfl
  have hnone : Producing [] fun _ => none := fun v j => by simp
  exact @registerOps_spec [] descriptors _ _ descriptors _ hnil hkeys hnone

theorem Producing.sourced_iff (h : Producing descriptors producers) (value : ValueId) :
    (producers value = none → value ∈ leaves) ↔
      (value ∈ leaves ∨ ∃ w ∈ descriptors, value ∈ w.writes) := by
  constructor
  · intro hleaf
    cases hvalue : producers value with
    | none => exact .inl (hleaf hvalue)
    | some j =>
        obtain ⟨w, hw, hwrite⟩ := (h value j).mp hvalue
        exact .inr ⟨w, List.mem_of_getElem? hw, hwrite⟩
  · rintro (hleaf | ⟨w, hw, hwrite⟩) hvalue
    · exact hleaf
    · obtain ⟨j, hj⟩ := List.mem_iff_getElem?.mp hw
      cases hvalue.symm.trans ((h value j).mpr ⟨w, hj, hwrite⟩)

section

variable {policy : CyclePolicy} {retained : Option OpExclusionProof} {graph : CompiledGraph}

/-- **On a declared list** with an accepted proof the compiler goes on with the dependencies. -/
theorem compileOpGraph_of_declared (hdeclared : Declared descriptors leaves)
    (hretained : retained.elim (.ok ()) (checkRetained (descriptors.map OpDescriptor.key)) = .ok ())
    :
    ∃ edges, Dependencies descriptors edges ∧ ∀ policy,
      compileOpGraph descriptors leaves policy retained =
        orderGraph descriptors retained edges policy := by
  obtain ⟨hcomplete, hsound⟩ := registerOps_all descriptors leaves
  obtain ⟨p, hregister⟩ := hcomplete hdeclared.toRegistered
  have hproducers := (hsound p hregister).2
  have hlists := (@predecessorLists_ok descriptors leaves p descriptors.length _).mpr
    ⟨fun d hd => ⟨hdeclared.predecessors_lt d hd,
      fun v hv => (hproducers.sourced_iff v).mpr (hdeclared.sourced d hd v hv)⟩, rfl⟩
  refine ⟨_, dependencies_listAt hproducers, fun policy => ?_⟩
  rw [compileOpGraph, if_neg (Nat.not_lt.mpr hdeclared.few), hregister]
  simp only [hlists, hretained]

/-- **What a successful compilation has checked**, and what it goes on with. -/
theorem compileOpGraph_ok :
    compileOpGraph descriptors leaves policy retained = .ok graph ↔
      Declared descriptors leaves ∧
      retained.elim (.ok ()) (checkRetained (descriptors.map OpDescriptor.key)) = .ok () ∧
      ∃ edges, Dependencies descriptors edges ∧
        orderGraph descriptors retained edges policy = .ok graph := by
  constructor
  · intro h
    unfold compileOpGraph at h
    split at h
    · cases h
    · rename_i hfew
      split at h
      · cases h
      · rename_i p hregister
        obtain ⟨hreg, hproducers⟩ := (registerOps_all descriptors leaves).2 p hregister
        split at h
        · cases h
        · rename_i lists hlists
          obtain ⟨hchecked, rfl⟩ := predecessorLists_ok.mp hlists
          split at h
          · cases h
          · rename_i hretained
            refine ⟨⟨hreg, Nat.not_lt.mp hfew, fun d hd => (hchecked d hd).1, fun d hd v hv => ?_⟩,
              hretained, _, dependencies_listAt hproducers, h⟩
            exact (hproducers.sourced_iff v).mp ((hchecked d hd).2 v hv)
  · rintro ⟨hdeclared, hretained, edges, hedges, horder⟩
    obtain ⟨edges', hedges', hcompile⟩ := compileOpGraph_of_declared hdeclared hretained
    rw [hcompile, hedges'.unique hedges, horder]

end

end RigExec.OpGraph
