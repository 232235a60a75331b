/-
# `RigExec.OpGraph.Lowering` — chains of ops, for any costs and grain

The lowering starts a chain at every op that is in none yet, and follows it while
an op is the only successor of the one before, which is its only predecessor.  A
chain may claim ops far down the order, so what keeps the clusters in order is
their starts:

    starts ascend          a chain is started at the first op left (`Growing`)
    an edge into a chain   enters at its start, since the other members have one
                           predecessor, the member before (`edge_enters_start`)

and an op in front of a chain's start is in a chain started earlier.  With this
the validator accepts the result (`validate_lowered`), and what it accepts splits
the ops into chains with an acyclic quotient (`ChainPartition`).
-/
import RigExec.OpGraph.Cycles

namespace RigExec.OpGraph

open Lib (sortUnique Ascending)

/-- `RigExecLowerOpClusters` with the graph it writes to, at its end. -/
def lowerOpClustersInto {C : Type} [OpCost C] (graph : CompiledGraph) (costs : List C) (grain : C) :
    Except String Unit × CompiledGraph :=
  match lowerOpClusters graph costs grain with
  | .error message => (.error message, graph)
  | .ok lowered => (.ok (), lowered)

section

variable {graph : CompiledGraph} {u v : Nat} {members : List Nat}

/-! ## Chains -/

theorem ascending_of_chain (h : members.IsChain (Linked graph)) : Ascending members :=
  List.isChain_iff_pairwise.mp (h.imp fun _ _ hab => hab.1)

theorem pred_of_mem_tail {start : Nat} {rest : List Nat}
    (h : (start :: rest).IsChain (Linked graph)) (hv : v ∈ rest) :
    ∃ w ∈ start :: rest, graph.preds v = [w] := by
  induction rest generalizing start with
  | nil => exact absurd hv List.not_mem_nil
  | cons next rest ih =>
      obtain ⟨hlink, hrest⟩ := List.isChain_cons_cons.mp h
      rcases List.mem_cons.mp hv with rfl | hv
      · exact ⟨start, List.mem_cons_self, hlink.2.2⟩
      · obtain ⟨w, hw, hpreds⟩ := ih hrest hv
        exact ⟨w, List.mem_cons_of_mem start hw, hpreds⟩

theorem start_le {start : Nat} {rest : List Nat} (h : (start :: rest).IsChain (Linked graph))
    (hv : v ∈ start :: rest) : start ≤ v := by
  rcases List.mem_cons.mp hv with rfl | hv
  · exact Nat.le_refl _
  · exact Nat.le_of_lt (List.rel_of_pairwise_cons (ascending_of_chain h) hv)

theorem edge_enters_start {start : Nat} {rest : List Nat}
    (h : (start :: rest).IsChain (Linked graph)) (hv : v ∈ start :: rest)
    (hedge : u ∈ graph.preds v) (hout : u ∉ start :: rest) : v = start := by
  rcases List.mem_cons.mp hv with heq | hv
  · exact heq
  · obtain ⟨w, hw, hpreds⟩ := pred_of_mem_tail h hv
    rw [hpreds] at hedge
    exact absurd (List.mem_singleton.mp hedge ▸ hw) hout

end

/-! ## One chain -/

section

variable {C : Type} [OpCost C] {graph : CompiledGraph} {cost : Nat → C} {grain : C}

theorem getElem?_set_ne_unassigned {membership : List Nat} {current cluster op : Nat}
    (hcluster : cluster ≠ unassigned)
    (hop : (membership.set current cluster)[op]? = some unassigned) :
    op ≠ current ∧ membership[op]? = some unassigned := by
  rcases eq_or_ne op current with rfl | hne
  · rw [List.getElem?_set_self'] at hop
    cases hold : membership[op]? with
    | none =>
        rw [hold] at hop
        cases hop
    | some old =>
        rw [hold] at hop
        exact absurd (Option.some.inj hop) hcluster
  · rw [List.getElem?_set_ne hne.symm] at hop
    exact ⟨hne, hop⟩

/-- A chain grown from `current`: its ops had no cluster yet, and they get this one. -/
structure Grown (graph : CompiledGraph) (cluster room current : Nat)
    (membership rest membership' : List Nat) : Prop where
  room : (current :: rest).length ≤ room + 1
  chain : (current :: rest).IsChain (Linked graph)
  free : ∀ op ∈ current :: rest, membership[op]? = some unassigned
  set : ∀ op : Nat,
    membership'[op]? = if op ∈ current :: rest then some cluster else membership[op]?
  length_eq : membership'.length = membership.length

theorem getElem?_set_current {cluster current : Nat} {membership : List Nat}
    (hcurrent : membership[current]? = some unassigned) (op : Nat) :
    (membership.set current cluster)[op]? =
      if op = current then some cluster else membership[op]? := by
  rcases eq_or_ne op current with rfl | hne
  · rw [List.getElem?_set_self', hcurrent, if_pos rfl]
    rfl
  · rw [List.getElem?_set_ne hne.symm, if_neg hne]

theorem Grown.stop {cluster room current : Nat} {membership : List Nat}
    (hcurrent : membership[current]? = some unassigned) :
    Grown graph cluster room current membership [] (membership.set current cluster) where
  room := Nat.le_add_left 1 room
  chain := List.IsChain.singleton current
  free := by
    intro op hop
    rw [List.mem_singleton.mp hop]
    exact hcurrent
  set := by
    intro op
    rw [getElem?_set_current hcurrent]
    simp only [List.mem_singleton]
  length_eq := List.length_set

theorem Grown.cons {cluster room current next : Nat} {membership rest membership' : List Nat}
    (hcluster : cluster ≠ unassigned) (hcurrent : membership[current]? = some unassigned)
    (hlink : Linked graph current next)
    (h : Grown graph cluster room next (membership.set current cluster) rest membership') :
    Grown graph cluster (room + 1) current membership (next :: rest) membership' where
  room := Nat.succ_le_succ h.room
  chain := List.isChain_cons_cons.mpr ⟨hlink, h.chain⟩
  free := by
    intro op hop
    rcases List.mem_cons.mp hop with rfl | hop
    · exact hcurrent
    · exact (getElem?_set_ne_unassigned hcluster (h.free op hop)).2
  set := by
    intro op
    rw [h.set op, getElem?_set_current hcurrent]
    rcases eq_or_ne op current with rfl | hne
    · rw [if_pos rfl, ite_self, if_pos List.mem_cons_self]
    · simp only [hne, List.mem_cons, false_or, if_false]
  length_eq := h.length_eq.trans List.length_set

variable (cost grain) in
/-- **A chain grows** without an error. -/
theorem growCluster_spec (h : Topology graph) {cluster : Nat} (hcluster : cluster ≠ unassigned)
    (room current : Nat) (total : C) (members membership : List Nat)
    (hcurrent : membership[current]? = some unassigned) :
    ∃ rest membership', growCluster graph cost grain cluster room current total members membership =
        .ok (members ++ current :: rest, membership') ∧
      Grown graph cluster room current membership rest membership' := by
  induction room generalizing current total members membership with
  | zero => exact ⟨[], _, rfl, Grown.stop hcurrent⟩
  | succ room ih =>
      have hstop : ∃ rest membership',
          (Except.ok (members ++ [current], membership.set current cluster) :
            Except String (List Nat × List Nat)) = .ok (members ++ current :: rest, membership') ∧
          Grown graph cluster (room + 1) current membership rest membership' :=
        ⟨[], _, rfl, Grown.stop hcurrent⟩
      unfold growCluster
      simp only
      split
      · exact hstop
      · split
        · next next hsuccs =>
            have hedge : current ∈ graph.preds next :=
              (h.mem_succs_iff current next).mp (hsuccs ▸ List.mem_singleton_self next)
            have hlt := h.preds_lt next current hedge
            have hbound := lt_of_mem_preds hedge
            rw [if_neg (by omega)]
            split
            · exact hstop
            · next hgrow =>
                obtain ⟨hfree, hrest⟩ := not_or.mp hgrow
                have hpreds := not_not.mp (not_or.mp hrest).1
                obtain ⟨rest, membership', hgrown, hspec⟩ := ih next (total + cost current)
                  (members ++ [current]) (membership.set current cluster) (not_not.mp hfree)
                refine ⟨next :: rest, membership', ?_,
                  hspec.cons hcluster hcurrent ⟨hlt, hsuccs, hpreds⟩⟩
                rw [hgrown, List.append_assoc]
                rfl
        · exact hstop

/-! ## All chains -/

/-- The chains started at the ops before `done`. -/
structure Growing (graph : CompiledGraph) (done : Nat) (chains : List (List Nat))
    (membership : List Nat) : Prop where
  assigned : ∀ op c : Nat, membership[op]? = some c →
    c = unassigned ∨ ∃ members, chains[c]? = some members ∧ op ∈ members
  home : ∀ (c : Nat) (members : List Nat), chains[c]? = some members →
    ∀ op ∈ members, membership[op]? = some c
  chain : ∀ members ∈ chains, ∃ start rest, members = start :: rest ∧ start < done ∧
    members.length ≤ clusterLimit ∧ members.IsChain (Linked graph)
  starts : chains.Pairwise fun a b => a.headD 0 < b.headD 0
  past : ∀ op < done, membership[op]? ≠ some unassigned
  few : chains.length ≤ done
  length_eq : membership.length = graph.ops.length

theorem Growing.pass {done : Nat} {chains : List (List Nat)} {membership : List Nat}
    (h : Growing graph done chains membership) (hdone : membership[done]? ≠ some unassigned) :
    Growing graph (done + 1) chains membership where
  assigned := h.assigned
  home := h.home
  chain := by
    intro members hin
    obtain ⟨start, rest, heq, hlt, hlimit, hchain⟩ := h.chain members hin
    exact ⟨start, rest, heq, Nat.lt_succ_of_lt hlt, hlimit, hchain⟩
  starts := h.starts
  past := by
    intro op hop
    rcases Nat.lt_succ_iff_lt_or_eq.mp hop with hop | rfl
    · exact h.past op hop
    · exact hdone
  few := Nat.le_succ_of_le h.few
  length_eq := h.length_eq

theorem Growing.start {done : Nat} {chains : List (List Nat)} {membership : List Nat}
    (h : Growing graph done chains membership) {rest membership' : List Nat}
    (hcluster : chains.length < unassigned)
    (hgrown : Grown graph chains.length (clusterLimit - 1) done membership rest membership') :
    Growing graph (done + 1) (chains ++ [done :: rest]) membership' where
  assigned := by
    intro op c hc
    rw [hgrown.set op] at hc
    split at hc
    · next hop =>
        cases hc
        exact Or.inr ⟨_, List.getElem?_concat_length, hop⟩
    · rcases h.assigned op c hc with hnone | ⟨members, hmembers, hop⟩
      · exact Or.inl hnone
      · right
        refine ⟨members, ?_, hop⟩
        rw [List.getElem?_append_left (List.getElem?_eq_some_iff.mp hmembers).1]
        exact hmembers
  home := by
    intro c members hc op hop
    rw [hgrown.set op]
    rcases Nat.lt_or_ge c chains.length with hlt | hge
    · rw [List.getElem?_append_left hlt] at hc
      have hhome := h.home c members hc op hop
      have hold : op ∉ done :: rest := by
        intro hnew
        have hfree := hhome.symm.trans (hgrown.free op hnew)
        exact absurd (Option.some.inj hfree) (Nat.ne_of_lt (Nat.lt_trans hlt hcluster))
      rw [if_neg hold, hhome]
    · rw [List.getElem?_append_right hge] at hc
      obtain ⟨hzero, hmembers⟩ := List.getElem?_eq_some_iff.mp hc
      have hlast : c = chains.length := by
        rw [List.length_singleton] at hzero
        omega
      subst hlast
      simp only [Nat.sub_self, List.getElem_cons_zero] at hmembers
      rw [if_pos (hmembers ▸ hop)]
  chain := by
    intro members hin
    rcases List.mem_append.mp hin with hin | hin
    · obtain ⟨start, rest', heq, hlt, hlimit, hchain⟩ := h.chain members hin
      exact ⟨start, rest', heq, Nat.lt_succ_of_lt hlt, hlimit, hchain⟩
    · rw [List.mem_singleton.mp hin]
      exact ⟨done, rest, rfl, Nat.lt_succ_self done, hgrown.room, hgrown.chain⟩
  starts := by
    refine List.pairwise_append.mpr ⟨h.starts, List.pairwise_singleton _ _, ?_⟩
    intro a ha b hb
    obtain ⟨start, rest', rfl, hlt, -⟩ := h.chain a ha
    rw [List.mem_singleton.mp hb]
    exact hlt
  past := by
    intro op hop
    rw [hgrown.set op]
    split
    · intro heq
      exact absurd (Option.some.inj heq) (Nat.ne_of_lt hcluster)
    · next hout =>
        rcases Nat.lt_succ_iff_lt_or_eq.mp hop with hop | rfl
        · exact h.past op hop
        · exact absurd List.mem_cons_self hout
  few := by
    rw [List.length_append]
    exact Nat.succ_le_succ h.few
  length_eq := hgrown.length_eq.trans h.length_eq

theorem Growing.nothing :
    Growing graph 0 [] (List.replicate graph.ops.length unassigned) where
  assigned := by
    intro op c hc
    exact Or.inl (List.eq_of_mem_replicate (List.mem_of_getElem? hc))
  home := by
    intro c members hc
    cases hc
  chain := by
    intro members hin
    cases hin
  starts := List.Pairwise.nil
  past := by
    intro op hop
    cases hop
  few := Nat.le_refl 0
  length_eq := List.length_replicate

variable (cost grain) in
/-- **All chains grow** without an error. -/
theorem growClusters_spec (h : Topology graph) (hfew : graph.ops.length ≤ uint32Max)
    {count done : Nat} {chains : List (List Nat)} {membership : List Nat}
    (hend : done + count = graph.ops.length) (hgrowing : Growing graph done chains membership) :
    ∃ chains' membership', growClusters graph cost grain (List.range' done count) chains membership =
        .ok (chains', membership') ∧ Growing graph graph.ops.length chains' membership' := by
  induction count generalizing done chains membership with
  | zero =>
      rw [Nat.add_zero] at hend
      exact ⟨chains, membership, rfl, hend ▸ hgrowing⟩
  | succ count ih =>
      rw [List.range'_succ, growClusters]
      split
      · next hdone => exact ih (by omega) (hgrowing.pass hdone)
      · next hfree =>
          have hcluster : chains.length < unassigned :=
            Nat.lt_of_le_of_lt hgrowing.few (Nat.lt_of_lt_of_le (by omega) hfew)
          obtain ⟨rest, membership', hgrow, hgrown⟩ := growCluster_spec cost grain h
            (Nat.ne_of_lt hcluster) (clusterLimit - 1) done 0 [] membership (not_not.mp hfree)
          rw [hgrow]
          exact ih (by omega) (hgrowing.start hcluster hgrown)

end

/-! ## The lowered graph -/

section

variable {graph : CompiledGraph} {chains : List (List Nat)} {membership : List Nat}

/-- A graph with these chains for clusters. -/
def lowered (graph : CompiledGraph) (chains : List (List Nat)) (membership : List Nat) :
    CompiledGraph :=
  { graph with
    clusters := chains.mapIdx fun cluster members =>
      { members := members
        predecessors := clusterPreds (clusterEdges graph membership) cluster
        successors := clusterSuccs (clusterEdges graph membership) cluster }
    opClusters := membership }

theorem getElem?_lowered {c : Nat} {cluster : OpCluster}
    (h : (lowered graph chains membership).clusters[c]? = some cluster) :
    chains[c]? = some cluster.members ∧
      cluster.predecessors = clusterPreds (clusterEdges graph membership) c ∧
      cluster.successors = clusterSuccs (clusterEdges graph membership) c := by
  simp only [lowered, List.getElem?_mapIdx, Option.map_eq_some_iff] at h
  obtain ⟨members, hmembers, rfl⟩ := h
  exact ⟨hmembers, rfl, rfl⟩

theorem Growing.homed (h : Growing graph graph.ops.length chains membership) {op c : Nat}
    (hc : membership[op]? = some c) : ∃ members, chains[c]? = some members ∧ op ∈ members := by
  have hlt : op < graph.ops.length := h.length_eq ▸ (List.getElem?_eq_some_iff.mp hc).1
  rcases h.assigned op c hc with rfl | hhome
  · exact absurd hc (h.past op hlt)
  · exact hhome

theorem Growing.forward (htopology : Topology graph)
    (h : Growing graph graph.ops.length chains membership) {u v a b : Nat}
    (hedge : u ∈ graph.preds v) (ha : membership[u]? = some a) (hb : membership[v]? = some b) :
    a ≤ b := by
  obtain ⟨before, hbefore, hu⟩ := h.homed ha
  obtain ⟨after, hafter, hv⟩ := h.homed hb
  obtain ⟨start, rest, rfl, -, -, hchain⟩ := h.chain before (List.mem_of_getElem? hbefore)
  obtain ⟨start', rest', rfl, -, -, hchain'⟩ := h.chain after (List.mem_of_getElem? hafter)
  rcases eq_or_ne a b with rfl | hne
  · exact Nat.le_refl a
  · have hout : u ∉ start' :: rest' := by
      intro hin
      exact hne (Option.some.inj (ha.symm.trans (h.home b _ hafter u hin)))
    have henters := edge_enters_start hchain' hv hedge hout
    have hstarts : start < start' := calc
      start ≤ u := start_le hchain hu
      _ < v := htopology.preds_lt v u hedge
      _ = start' := henters
    rcases Nat.lt_or_ge b a with hlt | hge
    · obtain ⟨hlb, hgetb⟩ := List.getElem?_eq_some_iff.mp hafter
      obtain ⟨hla, hgeta⟩ := List.getElem?_eq_some_iff.mp hbefore
      have hback := List.pairwise_iff_getElem.mp h.starts b a hlb hla hlt
      rw [hgetb, hgeta] at hback
      exact absurd hback (Nat.lt_asymm hstarts)
    · exact hge

theorem clustering_lowered (htopology : Topology graph)
    (h : Growing graph graph.ops.length chains membership) :
    Clustering (lowered graph chains membership) := by
  have hchain : ∀ cluster ∈ (lowered graph chains membership).clusters,
      cluster.members ≠ [] ∧ cluster.members.length ≤ clusterLimit ∧
        cluster.members.IsChain (Linked graph) := by
    intro cluster hin
    obtain ⟨c, hc⟩ := List.mem_iff_getElem?.mp hin
    obtain ⟨start, rest, heq, -, hlimit, hchain⟩ :=
      h.chain _ (List.mem_of_getElem? (getElem?_lowered hc).1)
    rw [heq] at hlimit hchain ⊢
    exact ⟨List.cons_ne_nil start rest, hlimit, hchain⟩
  exact {
    length_eq := h.length_eq
    lt := by
      intro op c hc
      obtain ⟨members, hmembers, -⟩ := h.homed hc
      rw [lowered, List.length_mapIdx]
      exact (List.getElem?_eq_some_iff.mp hmembers).1
    mem_iff := by
      intro c cluster hc op
      obtain ⟨hmembers, -⟩ := getElem?_lowered hc
      constructor
      · intro hop
        exact h.home c _ hmembers op hop
      · intro hop
        obtain ⟨members, hother, hin⟩ := h.homed hop
        cases hmembers.symm.trans hother
        exact hin
    nonempty := by
      intro cluster hin
      exact (hchain cluster hin).1
    limit := by
      intro cluster hin
      exact (hchain cluster hin).2.1
    ascending := by
      intro cluster hin
      exact ascending_of_chain (hchain cluster hin).2.2
    chain := by
      intro cluster hin
      exact (hchain cluster hin).2.2.imp fun _ _ hab => hab.2
    preds_eq := by
      intro c cluster hc
      exact (getElem?_lowered hc).2.1
    succs_eq := by
      intro c cluster hc
      exact (getElem?_lowered hc).2.2
    forward := by
      intro u v a b hedge ha hb
      exact h.forward htopology hedge ha hb }

end

/-! ## What is accepted -/

section

variable {graph : CompiledGraph}

theorem linked_of_chain {members : List Nat}
    (hchain : members.IsChain fun before op => graph.succs before = [op] ∧ graph.preds op = [before])
    (hascending : Ascending members) : members.IsChain (Linked graph) := by
  rw [List.isChain_iff_getElem] at hchain ⊢
  intro i hi
  exact ⟨List.pairwise_iff_getElem.mp hascending i (i + 1) (Nat.lt_of_succ_lt hi) hi
    (Nat.lt_succ_self i), hchain i hi⟩

theorem checkClusters_accepts {group previousStart : Nat} {clusters : List OpCluster}
    {seen : List Nat}
    (hchecked : ∀ k cluster, clusters[k]? = some cluster → ClusterChecked graph (group + k) cluster)
    (hseen : ∀ op ∈ seen, ∃ c < group, graph.opClusters[op]? = some c)
    (hfirst : ∀ cluster ∈ clusters, group ≠ 0 → previousStart < cluster.members.headD 0)
    (hstarts : clusters.Pairwise fun a b => a.members.headD 0 < b.members.headD 0) :
    ∃ seen', checkClusters graph group previousStart clusters seen = .ok seen' := by
  induction clusters generalizing group previousStart seen with
  | nil => exact ⟨seen, rfl⟩
  | cons cluster clusters ih =>
      have hcluster := hchecked 0 cluster rfl
      have hmembers : checkMembers graph group none cluster.members seen =
          .ok (cluster.members.reverse ++ seen) := by
        refine checkMembers_ok.mpr ⟨?_, (ascending_of_chain hcluster.chain).nodup,
          hcluster.chain, rfl⟩
        intro op hop
        refine ⟨(hcluster.mem op hop).1, (hcluster.mem op hop).2, ?_⟩
        intro hin
        obtain ⟨c, hlt, hc⟩ := hseen op hin
        have hgroup := Option.some.inj (hc.symm.trans (hcluster.mem op hop).2)
        exact absurd hgroup (Nat.ne_of_lt hlt)
      rw [checkClusters]
      split
      · next hnil => exact absurd hnil hcluster.nonempty
      · next first rest hcons =>
          have hstart : cluster.members.headD 0 = first := by rw [hcons]; rfl
          have hbefore := hfirst cluster List.mem_cons_self
          rw [hstart] at hbefore
          rw [if_neg (Nat.not_lt.mpr hcluster.limit),
            if_neg fun hbad => Nat.not_lt.mpr hbad.2 (hbefore hbad.1), hmembers]
          refine ih ?_ ?_ ?_ (List.pairwise_cons.mp hstarts).2
          · intro k other hk
            have hother := hchecked (k + 1) other hk
            rwa [← Nat.add_assoc, Nat.add_right_comm] at hother
          · intro op hop
            rcases List.mem_append.mp hop with hop | hop
            · exact ⟨group, Nat.lt_succ_self group,
                (hcluster.mem op (List.mem_reverse.mp hop)).2⟩
            · obtain ⟨c, hlt, hc⟩ := hseen op hop
              exact ⟨c, Nat.lt_succ_of_lt hlt, hc⟩
          · intro other hin _
            rw [← hstart]
            exact (List.pairwise_cons.mp hstarts).1 other hin

theorem checkPredecessors_accepts {pairs : List (Nat × Nat)}
    (h : ∀ pair ∈ pairs, pair.1 < pair.2 ∧ ∀ a b, graph.opClusters[pair.1]? = some a →
      graph.opClusters[pair.2]? = some b → a ≤ b) :
    checkPredecessors graph pairs = .ok () := by
  induction pairs with
  | nil => rfl
  | cons pair pairs ih =>
      obtain ⟨before, op⟩ := pair
      obtain ⟨hlt, hforward⟩ := h (before, op) List.mem_cons_self
      have hrest : checkPredecessors graph pairs = .ok () := by
        refine ih ?_
        intro other hin
        exact h other (List.mem_cons_of_mem _ hin)
      rw [checkPredecessors, if_neg (Nat.not_le.mpr hlt)]
      split
      · next a b ha hb =>
          have hle := hforward a b ha hb
          rw [if_neg (by omega), hrest]
      · exact hrest

/-- **A clustering in the order of its starts is accepted.** -/
theorem validateOpClusters_accepts (htopology : Topology graph) (h : Clustering graph)
    (hstarts : graph.clusters.Pairwise fun a b => a.members.headD 0 < b.members.headD 0) :
    validateOpClusters graph = .ok () := by
  have hchecked : ∀ k cluster, graph.clusters[k]? = some cluster →
      ClusterChecked graph k cluster := by
    intro k cluster hk
    have hin := List.mem_of_getElem? hk
    refine ⟨h.nonempty cluster hin, h.limit cluster hin, ?_,
      linked_of_chain (h.chain cluster hin) (h.ascending cluster hin)⟩
    intro op hop
    have hgroup := (h.mem_iff k cluster hk op).mp hop
    exact ⟨h.length_eq ▸ (List.getElem?_eq_some_iff.mp hgroup).1, hgroup⟩
  obtain ⟨seen, hseen⟩ := @checkClusters_accepts graph 0 0 graph.clusters []
    (by simpa using hchecked) (by simp) (by simp) hstarts
  have hall : ∀ op < graph.ops.length, op ∈ seen := by
    intro op hop
    have hlt : op < graph.opClusters.length := h.length_eq.symm ▸ hop
    have hget := List.getElem?_eq_getElem hlt
    have hcluster := List.getElem?_eq_getElem (h.lt op _ hget)
    exact ((checkClusters_ok hseen).2 op).mpr (Or.inr ⟨_, List.mem_of_getElem? hcluster,
      (h.mem_iff _ _ hcluster op).mpr hget⟩)
  have hnone : graph.ops.length = 0 → graph.clusters = [] := by
    intro hzero
    refine List.eq_nil_iff_forall_not_mem.mpr ?_
    intro cluster hin
    obtain ⟨c, hc⟩ := List.mem_iff_getElem?.mp hin
    obtain ⟨op, hop⟩ := List.exists_mem_of_ne_nil _ (h.nonempty cluster hin)
    have hlt := ((hchecked c cluster hc).mem op hop).1
    omega
  have hpreds : checkPredecessors graph ((List.range graph.ops.length).flatMap fun op =>
      (graph.preds op).map fun before => (before, op)) = .ok () := by
    refine checkPredecessors_accepts ?_
    intro pair hpair
    obtain ⟨op, -, hpair⟩ := List.mem_flatMap.mp hpair
    obtain ⟨before, hbefore, rfl⟩ := List.mem_map.mp hpair
    exact ⟨htopology.preds_lt op before hbefore, fun a b => h.forward before op a b hbefore⟩
  unfold validateOpClusters
  simp only [hseen, hpreds]
  rw [if_neg, if_neg, if_neg]
  · intro hany
    obtain ⟨c, -, hbad⟩ := List.any_eq_true.mp hany
    cases hc : graph.clusters[c]? with
    | none => simp [hc] at hbad
    | some cluster =>
        rw [hc, Option.any_some, h.preds_eq c cluster hc, h.succs_eq c cluster hc] at hbad
        simp at hbad
  · intro hany
    obtain ⟨op, hop, hmissing⟩ := List.any_eq_true.mp hany
    simp [hall op (List.mem_range.mp hop)] at hmissing
  · rintro (hlength | ⟨hzero, hclusters⟩)
    · exact hlength h.length_eq
    · exact hclusters (hnone hzero)

/-- Two different clusters with an op edge from the one to the other. -/
def QuotientEdge (graph : CompiledGraph) (a b : Nat) : Prop :=
  a ≠ b ∧ ∃ before after : OpCluster, graph.clusters[a]? = some before ∧
    graph.clusters[b]? = some after ∧
      ∃ u ∈ before.members, ∃ v ∈ after.members, u ∈ graph.preds v

/-- The clusters split the ops into chains, with an acyclic quotient. -/
structure ChainPartition (graph : CompiledGraph) : Prop where
  /-- Every op is in one cluster, the one it names. -/
  home : ∀ op < graph.ops.length, ∃ c cluster, graph.clusters[c]? = some cluster ∧
    op ∈ cluster.members ∧ graph.opClusters[op]? = some c
  once : ∀ (a b : Nat) (first second : OpCluster), graph.clusters[a]? = some first →
    graph.clusters[b]? = some second → ∀ op ∈ first.members, op ∈ second.members → a = b
  member : ∀ cluster ∈ graph.clusters, ∀ op ∈ cluster.members, op < graph.ops.length
  size : ∀ cluster ∈ graph.clusters, 1 ≤ cluster.members.length ∧ cluster.members.length ≤ 64
  chain : ∀ cluster ∈ graph.clusters, cluster.members.IsChain (Linked graph)
  nodup : ∀ cluster ∈ graph.clusters, cluster.members.Nodup
  /-- The recorded edges are those of the quotient. -/
  preds_iff : ∀ (c : Nat) (cluster : OpCluster), graph.clusters[c]? = some cluster →
    Ascending cluster.predecessors ∧ ∀ a, a ∈ cluster.predecessors ↔ QuotientEdge graph a c
  succs_iff : ∀ (c : Nat) (cluster : OpCluster), graph.clusters[c]? = some cluster →
    Ascending cluster.successors ∧ ∀ b, b ∈ cluster.successors ↔ QuotientEdge graph c b
  acyclic : ∀ c, ¬ Relation.TransGen (QuotientEdge graph) c c

theorem Clustering.quotientEdge_iff (h : Clustering graph) (a b : Nat) :
    QuotientEdge graph a b ↔ a ≠ b ∧ ∃ u v, u ∈ graph.preds v ∧
      graph.opClusters[u]? = some a ∧ graph.opClusters[v]? = some b := by
  constructor
  · rintro ⟨hne, before, after, ha, hb, u, hu, v, hv, hedge⟩
    exact ⟨hne, u, v, hedge, (h.mem_iff a before ha u).mp hu, (h.mem_iff b after hb v).mp hv⟩
  · rintro ⟨hne, u, v, hedge, hu, hv⟩
    have ha := List.getElem?_eq_getElem (h.lt u a hu)
    have hb := List.getElem?_eq_getElem (h.lt v b hv)
    exact ⟨hne, _, _, ha, hb, u, (h.mem_iff a _ ha u).mpr hu, v, (h.mem_iff b _ hb v).mpr hv, hedge⟩

theorem Clustering.lt_of_transGen (h : Clustering graph) {a b : Nat}
    (hpath : Relation.TransGen (QuotientEdge graph) a b) : a < b := by
  have hedge : ∀ a b, QuotientEdge graph a b → a < b := by
    intro a b hab
    obtain ⟨hne, u, v, hpred, hu, hv⟩ := (h.quotientEdge_iff a b).mp hab
    exact Nat.lt_of_le_of_ne (h.forward u v a b hpred hu hv) hne
  induction hpath with
  | single hab => exact hedge a _ hab
  | tail _ hbc ih => exact Nat.lt_trans ih (hedge _ _ hbc)

theorem Clustering.chainPartition (h : Clustering graph) : ChainPartition graph where
  home := by
    intro op hop
    have hget := List.getElem?_eq_getElem (h.length_eq.symm ▸ hop)
    have hcluster := List.getElem?_eq_getElem (h.lt op _ hget)
    exact ⟨_, _, hcluster, (h.mem_iff _ _ hcluster op).mpr hget, hget⟩
  once := by
    intro a b first second ha hb op hfirst hsecond
    have hop := (h.mem_iff a first ha op).mp hfirst
    exact Option.some.inj (hop.symm.trans ((h.mem_iff b second hb op).mp hsecond))
  member := by
    intro cluster hin op hop
    obtain ⟨c, hc⟩ := List.mem_iff_getElem?.mp hin
    have hget := (h.mem_iff c cluster hc op).mp hop
    exact h.length_eq ▸ (List.getElem?_eq_some_iff.mp hget).1
  size := by
    intro cluster hin
    exact ⟨List.length_pos_of_ne_nil (h.nonempty cluster hin), h.limit cluster hin⟩
  chain := by
    intro cluster hin
    exact linked_of_chain (h.chain cluster hin) (h.ascending cluster hin)
  nodup := by
    intro cluster hin
    exact (h.ascending cluster hin).nodup
  preds_iff := by
    intro c cluster hc
    rw [h.preds_eq c cluster hc]
    refine ⟨Lib.ascending_sortUnique _, ?_⟩
    intro a
    rw [h.quotientEdge_iff]
    exact mem_clusterPreds
  succs_iff := by
    intro c cluster hc
    rw [h.succs_eq c cluster hc]
    refine ⟨Lib.ascending_sortUnique _, ?_⟩
    intro b
    rw [h.quotientEdge_iff]
    exact mem_clusterSuccs
  acyclic := by
    intro c hcycle
    exact Nat.lt_irrefl c (h.lt_of_transGen hcycle)

end

/-! ## Every compiled graph -/

section

variable {descriptors : List OpDescriptor} {leaves : List ValueId} {policy : CyclePolicy}
  {retained : Option OpExclusionProof} {graph : CompiledGraph}

theorem compiled_of_compile (h : compileOpGraph descriptors leaves policy retained = .ok graph) :
    Compiled graph ∧ graph.ops.length ≤ uint32Max := by
  obtain ⟨hdeclared, -, edges, hedges, horder⟩ := compileOpGraph_ok.mp h
  have hspec := (orderOf_spec retained hdeclared hedges).1
  have hlength : (orderOf descriptors retained edges).length ≤ uint32Max := by
    have hsub := List.subperm_of_subset hspec.nodup
      fun v hv => List.mem_range.mpr ((hspec.mem_iff v).mp hv).1
    exact Nat.le_trans (by simpa using hsub.length_le) hdeclared.few
  rw [orderGraph_ok hdeclared hedges] at horder
  split at horder
  · cases horder
  · cases horder
    exact ⟨(compiled_emitted hdeclared hedges hspec).singly, by rwa [singly, emitted_length]⟩

/-- **Costs and a grain that are numbers, not negative, lower a graph**, and what comes out is
accepted. -/
theorem lowerOpClusters_accepted {C : Type} [OpCost C] (htopology : Topology graph)
    (hfew : graph.ops.length ≤ uint32Max) {costs : List C} {grain : C}
    (hlength : costs = [] ∨ costs.length = graph.ops.length)
    (hcosts : ∀ cost ∈ costs, OpCost.isFinite cost = true ∧ OpCost.less cost 0 = false)
    (hgrain : OpCost.isFinite grain = true ∧ OpCost.less grain 0 = false) :
    ∃ chains membership, lowerOpClusters graph costs grain = .ok (lowered graph chains membership) ∧
      validateOpClusters (lowered graph chains membership) = .ok () := by
  obtain ⟨chains, membership, hgrow, hgrowing⟩ := growClusters_spec
    (fun op : Nat => if costs = [] then 1 else costs[op]?.getD 1) grain htopology hfew
    (Nat.zero_add _) Growing.nothing
  refine ⟨chains, membership, ?_, ?_⟩
  · have hforward : ((List.range graph.ops.length).any fun op => (graph.preds op).any (op ≤ ·)) =
        false := by
      refine Bool.eq_false_iff.mpr ?_
      intro hany
      simp only [List.any_eq_true, decide_eq_true_eq] at hany
      obtain ⟨op, -, p, hp, hle⟩ := hany
      exact Nat.not_lt.mpr hle (htopology.preds_lt op p hp)
    have hbad : costs.any (fun cost => !OpCost.isFinite cost || OpCost.less cost 0) = false := by
      refine Bool.eq_false_iff.mpr ?_
      intro hany
      obtain ⟨cost, hin, hcost⟩ := List.any_eq_true.mp hany
      simp [hcosts cost hin] at hcost
    rw [lowerOpClusters, if_neg (by simp [hgrain]), if_neg, hbad, if_neg Bool.false_ne_true]
    · rw [← List.range_eq_range'] at hgrow
      simp only [hgrow, hforward, Bool.false_eq_true, if_false]
      rfl
    · rintro (hmany | ⟨hne, hdiffers⟩)
      · exact Nat.not_lt.mpr hfew hmany
      · exact hlength.elim hne hdiffers
  · have htopology' : Topology (lowered graph chains membership) :=
      ⟨htopology.preds_ascending, htopology.succs_ascending, htopology.mem_succs_iff,
        htopology.preds_lt⟩
    refine validateOpClusters_accepts htopology' (clustering_lowered htopology hgrowing) ?_
    refine List.pairwise_iff_getElem.mpr ?_
    intro a b ha hb hlt
    have hget := fun i (hi : i < (lowered graph chains membership).clusters.length) =>
      (getElem?_lowered (List.getElem?_eq_getElem hi)).1
    have hstarts := List.pairwise_iff_getElem.mp hgrowing.starts a b
      (List.getElem?_eq_some_iff.mp (hget a ha)).1 (List.getElem?_eq_some_iff.mp (hget b hb)).1 hlt
    rwa [(List.getElem?_eq_some_iff.mp (hget a ha)).2,
      (List.getElem?_eq_some_iff.mp (hget b hb)).2] at hstarts

/-- **The lowering is valid.**  Every compiled graph is lowered with any costs and grain that are
finite and not negative, into clusters the validator accepts; whatever the validator accepts splits
the ops into chains with an acyclic quotient; and a lowering that fails leaves the graph alone. -/
theorem clusterLowering_valid {C : Type} [OpCost C] :
    (∀ (descriptors : List OpDescriptor) (leaves : List ValueId) (policy : CyclePolicy)
        (retained : Option OpExclusionProof) (graph : CompiledGraph),
      compileOpGraph descriptors leaves policy retained = .ok graph →
      ∀ (costs : List C) (grain : C), (costs = [] ∨ costs.length = graph.ops.length) →
        (∀ cost ∈ costs, OpCost.isFinite cost = true ∧ OpCost.less cost 0 = false) →
        OpCost.isFinite grain = true ∧ OpCost.less grain 0 = false →
        ∃ graph', lowerOpClustersInto graph costs grain = (.ok (), graph') ∧
          graph'.ops = graph.ops ∧ validateOpClusters graph' = .ok ()) ∧
    (∀ graph, validateOpClusters graph = .ok () → ChainPartition graph) ∧
    ∀ (graph : CompiledGraph) (costs : List C) (grain : C) (message : String),
      (lowerOpClustersInto graph costs grain).1 = .error message →
        (lowerOpClustersInto graph costs grain).2 = graph := by
  refine ⟨?_, ?_, ?_⟩
  · intro descriptors leaves policy retained graph hgraph costs grain hlength hcosts hgrain
    obtain ⟨hcompiled, hfew⟩ := compiled_of_compile hgraph
    obtain ⟨chains, membership, hlower, hvalid⟩ :=
      lowerOpClusters_accepted hcompiled.toTopology hfew hlength hcosts hgrain
    refine ⟨lowered graph chains membership, ?_, rfl, hvalid⟩
    rw [lowerOpClustersInto, hlower]
  · intro graph hvalid
    exact (clustering_of_valid hvalid).chainPartition
  · intro graph costs grain message herror
    unfold lowerOpClustersInto at herror ⊢
    split
    · rfl
    · next hlower =>
        rw [hlower] at herror
        cases herror

/-- One op in front of another. -/
def chainedPair : List OpDescriptor := [{ key := "a" }, { key := "b", predecessors := [0] }]

theorem declared_chainedPair : Declared chainedPair [] where
  key_ne := by decide
  keys := by decide
  leaf := by decide
  single := by decide
  few := by decide
  predecessors_lt := by decide
  sourced := by decide

theorem clusterLowering_valid_chainedPair :
    ∃ graph, compileOpGraph chainedPair [] .setAside none = .ok graph ∧
      ∃ graph', lowerOpClustersInto graph ([] : List Nat) 2 = (.ok (), graph') ∧
        ChainPartition graph' := by
  have hvalid := @clusterLowering_valid Nat _
  obtain ⟨edges, hedges, hcompile⟩ :=
    @compileOpGraph_of_declared _ _ none declared_chainedPair rfl
  have hgraph := hcompile .setAside
  rw [orderGraph_ok declared_chainedPair hedges, if_neg (by simp)] at hgraph
  obtain ⟨graph', hlower, -, haccepted⟩ := hvalid.1 chainedPair [] .setAside none _ hgraph [] 2
    (Or.inl rfl) (by simp) ⟨rfl, rfl⟩
  exact ⟨_, hgraph, graph', hlower, hvalid.2.1 graph' haccepted⟩

end

end RigExec.OpGraph
