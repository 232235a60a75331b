/-
# `RigExec.Scene.SwitchContexts` — checkpoints introduce no cycle

In a forest of composed providers the depths are the lengths of the longest
source chains, and the context of a switch is read off its parent's ancestry: the
ancestors up to the first one that no switch of the reader's depth or more stands
above, and that one.

    SourceEdge        `i` reads a source whose nearest switch is `j`
    CheckpointEdge    the anchor of `i`'s context has nearest switch `j`

Both kinds of edge go to a strictly shallower switch, so together they are as
acyclic as the sources alone (`parentContexts_spec`).
-/
import Mathlib.Data.List.Nodup
import RigExec.Scene.Switches

namespace RigExec.Scene

open Lib (Acyclic ChainOf)

section

variable {parents : List Int} {switchSlots : List Int} {sources : List (List Int)}
  {bySlot : List Int} {slot : Int}

/-! ## Forests -/

/-- The slots from one up to its root. -/
inductive Ancestry (parents : List Int) : Int → List Int → Prop
  | past : Ancestry parents (-1) []
  | up {slot : Int} {rest : List Int} (h : 0 ≤ slot)
      (above : Ancestry parents (slotAt parents slot) rest) : Ancestry parents slot (slot :: rest)

/-- The first switch on the way up from a slot, if there is one. -/
inductive NearestSwitch (parents switchSlots : List Int) : Int → Option Nat → Prop
  | past : NearestSwitch parents switchSlots (-1) none
  | here {slot : Int} {i : Nat} (h : switchSlots[i]? = some slot) :
      NearestSwitch parents switchSlots slot (some i)
  | up {slot : Int} {found : Option Nat} (h : 0 ≤ slot) (hno : slot ∉ switchSlots)
      (above : NearestSwitch parents switchSlots (slotAt parents slot) found) :
      NearestSwitch parents switchSlots slot found

/-- `slot` is a provider with parent `parent`. -/
def IsParent (parents : List Int) (slot parent : Int) : Prop :=
  0 ≤ slot ∧ 0 ≤ parent ∧ parents[slot.toNat]? = some parent

/-- The parent table is one of a forest. -/
structure Forest (parents : List Int) : Prop where
  mem : ∀ parent ∈ parents, SlotOrNone parents.length parent
  acyclic : Acyclic (IsParent parents)

theorem Forest.slotAt (h : Forest parents) (slot : Int) :
    SlotOrNone parents.length (slotAt parents slot) := by
  rw [Scene.slotAt]
  cases hget : parents[slot.toNat]? with
  | none => exact ⟨Int.le_refl _, by simp only [Option.getD_none]; omega⟩
  | some parent => exact h.mem parent (List.mem_of_getElem? hget)

/-- At most `n` slots on the way up. -/
def slotsAbove (parents : List Int) : Nat → Int → List Int
  | 0, _ => []
  | n + 1, slot => if slot < 0 then [] else slot :: slotsAbove parents n (slotAt parents slot)

theorem ancestry_or_long (h : Forest parents) (n : Nat) {slot : Int}
    (hslot : SlotOrNone parents.length slot) :
    Ancestry parents slot (slotsAbove parents n slot) ∨ (slotsAbove parents n slot).length = n := by
  induction n generalizing slot with
  | zero => exact .inr rfl
  | succ n ih =>
      rw [slotsAbove]
      split
      · rename_i hneg
        have he : slot = -1 := by
          have := hslot.1
          omega
        exact .inl (he ▸ .past)
      · rename_i hpos
        rcases ih (h.slotAt slot) with habove | hlong
        · exact .inl (.up (Int.not_lt.mp hpos) habove)
        · exact .inr (by rw [List.length_cons, hlong])

theorem slotsAbove_isChain (h : Forest parents) (n : Nat) {slot : Int}
    (hslot : SlotOrNone parents.length slot) :
    (slotsAbove parents n slot).IsChain (IsParent parents) ∧
      ∀ a ∈ slotsAbove parents n slot, 0 ≤ a ∧ a < parents.length := by
  induction n generalizing slot with
  | zero => exact ⟨List.isChain_nil, by simp [slotsAbove]⟩
  | succ n ih =>
      obtain ⟨hchain, hmem⟩ := ih (h.slotAt slot)
      rw [slotsAbove]
      split
      · exact ⟨List.isChain_nil, by simp⟩
      · rename_i hpos
        refine ⟨?_, List.forall_mem_cons.mpr ⟨⟨Int.not_lt.mp hpos, hslot.2⟩, hmem⟩⟩
        cases n with
        | zero => exact List.isChain_singleton slot
        | succ n =>
            rw [slotsAbove] at hchain ⊢
            split
            · exact List.isChain_singleton slot
            · rename_i habove
              rw [if_neg habove] at hchain
              refine List.isChain_cons_cons.mpr ⟨⟨by omega, by omega, ?_⟩, hchain⟩
              have hlt : slot.toNat < parents.length := by
                have := hslot.2
                omega
              rw [Scene.slotAt, List.getElem?_eq_getElem hlt, Option.getD_some]

/-- **Every slot has an ancestry**, with no more slots than there are. -/
theorem Forest.exists_ancestry (h : Forest parents) (hslot : SlotOrNone parents.length slot) :
    ∃ list, Ancestry parents slot list ∧ list.length ≤ parents.length ∧
      ∀ a ∈ list, 0 ≤ a ∧ a < parents.length := by
  obtain ⟨hchain, hmem⟩ := slotsAbove_isChain h (parents.length + 1) hslot
  have hlength : (slotsAbove parents (parents.length + 1) slot).length ≤ parents.length := by
    have hsub : (slotsAbove parents (parents.length + 1) slot) ⊆
        (List.range parents.length).map Nat.cast := by
      intro a ha
      obtain ⟨hpos, hlt⟩ := hmem a ha
      exact List.mem_map.mpr ⟨a.toNat, List.mem_range.mpr (by omega), Int.toNat_of_nonneg hpos⟩
    have hle := (List.subperm_of_subset (h.acyclic.nodup hchain) hsub).length_le
    rwa [List.length_map, List.length_range] at hle
  refine ⟨_, ?_, hlength, hmem⟩
  rcases ancestry_or_long h (parents.length + 1) hslot with hancestry | hlong
  · exact hancestry
  · omega

/-! ## The table of switches -/

/-- The table names each switch at its slot and nothing elsewhere. -/
structure Indexed (switchSlots bySlot : List Int) : Prop where
  at_switch : ∀ (i : Nat) (slot : Int), switchSlots[i]? = some slot → slotAt bySlot slot = i
  elsewhere : ∀ slot, 0 ≤ slot → slot ∉ switchSlots → slotAt bySlot slot = -1

theorem slotAt_set {table : List Int} {slot : Int} {value : Int} (other : Int) (hslot : 0 ≤ slot)
    (hlt : slot < table.length) (hother : 0 ≤ other) :
    slotAt (table.set slot.toNat value) other =
      if other = slot then value else slotAt table other := by
  rw [slotAt, List.getElem?_set]
  split
  · rename_i he
    rw [if_pos (by omega), if_pos (by omega : other = slot), Option.getD_some]
  · rename_i hne
    rw [if_neg (by rintro rfl; exact hne rfl), slotAt]

theorem bindSlots_spec {count : Nat} (pairs : List (Int × List Int)) (i : Nat) (bySlot : List Int)
    (hlength : bySlot.length = count)
    (hslots : ∀ pair ∈ pairs, 0 ≤ pair.1 ∧ pair.1 < count ∧ slotAt bySlot pair.1 < 0)
    (hsources : ∀ pair ∈ pairs, ∀ source ∈ pair.2, SlotOrNone count source)
    (hnodup : (pairs.map Prod.fst).Nodup) :
    ∃ table, bindSlots count i pairs bySlot = some table ∧
      (∀ (k : Nat) (slot : Int), (pairs.map Prod.fst)[k]? = some slot →
        slotAt table slot = (i + k : Nat)) ∧
      ∀ slot, 0 ≤ slot → slot ∉ pairs.map Prod.fst → slotAt table slot = slotAt bySlot slot := by
  induction pairs generalizing i bySlot with
  | nil => exact ⟨bySlot, rfl, by simp, fun _ _ _ => rfl⟩
  | cons pair pairs ih =>
      obtain ⟨slot, list⟩ := pair
      obtain ⟨⟨hpos, hlt, hfree⟩, hslots⟩ := List.forall_mem_cons.mp hslots
      obtain ⟨hlist, hsources⟩ := List.forall_mem_cons.mp hsources
      obtain ⟨hnew, hnodup⟩ := List.nodup_cons.mp hnodup
      have hset : ∀ other, 0 ≤ other → slotAt (bySlot.set slot.toNat i) other =
          if other = slot then (i : Int) else slotAt bySlot other := fun other hother =>
        slotAt_set other hpos (hlength ▸ hlt) hother
      have hslots' : ∀ pair ∈ pairs, 0 ≤ pair.1 ∧ pair.1 < count ∧
          slotAt (bySlot.set slot.toNat i) pair.1 < 0 := by
        intro pair hpair
        obtain ⟨hpos', hlt', hfree'⟩ := hslots pair hpair
        rw [hset pair.1 hpos', if_neg]
        · exact ⟨hpos', hlt', hfree'⟩
        · intro he
          exact hnew (List.mem_map.mpr ⟨pair, hpair, he⟩)
      obtain ⟨table, htable, hat, helse⟩ := ih (i + 1) (bySlot.set slot.toNat i)
        (by rw [List.length_set, hlength]) hslots' hsources hnodup
      refine ⟨table, ?_, ?_, ?_⟩
      · have haccept : ¬ (slot < 0 ∨ slot ≥ count ∨ slotAt bySlot slot ≥ 0) := by
          simp only at hpos hlt hfree
          omega
        rw [bindSlots, if_neg haccept, if_pos hlist, htable]
      · intro k other hk
        cases k with
        | zero =>
            obtain rfl : slot = other := by simpa using hk
            rw [helse slot hpos hnew, hset slot hpos, if_pos rfl, Nat.add_zero]
        | succ k =>
            rw [hat k other (by simpa using hk)]
            congr 1
            omega
      · intro other hother hnot
        rw [List.map_cons, List.mem_cons, not_or] at hnot
        rw [helse other hother hnot.2, hset other hother, if_neg hnot.1]

/-- What the caller hands over: switches on distinct slots of a forest, with sources among its
slots. -/
structure SwitchForest (parents switchSlots : List Int) (sources : List (List Int)) : Prop
    extends Forest parents where
  slots_mem : ∀ slot ∈ switchSlots, 0 ≤ slot ∧ slot < parents.length
  slots_nodup : switchSlots.Nodup
  sources_length : switchSlots.length = sources.length
  sources_mem : ∀ list ∈ sources, ∀ source ∈ list, SlotOrNone parents.length source

theorem SwitchForest.bindSlots (h : SwitchForest parents switchSlots sources) :
    ∃ bySlot, bindSlots parents.length 0 (switchSlots.zip sources)
        (List.replicate parents.length (-1)) = some bySlot ∧ Indexed switchSlots bySlot := by
  have hfst : (switchSlots.zip sources).map Prod.fst = switchSlots :=
    List.map_fst_zip (Nat.le_of_eq h.sources_length)
  have hempty : ∀ slot, slotAt (List.replicate parents.length (-1)) slot = -1 := by
    intro slot
    rw [slotAt, List.getElem?_replicate]
    split <;> rfl
  obtain ⟨table, htable, hat, helse⟩ := @bindSlots_spec parents.length (switchSlots.zip sources) 0
    (List.replicate parents.length (-1)) List.length_replicate
    (fun pair hpair => by
      obtain ⟨hpos, hlt⟩ := h.slots_mem pair.1 (List.of_mem_zip hpair).1
      exact ⟨hpos, hlt, by rw [hempty]; decide⟩)
    (fun pair hpair => h.sources_mem pair.2 (List.of_mem_zip hpair).2)
    (hfst.symm ▸ h.slots_nodup)
  rw [hfst] at hat helse
  refine ⟨table, htable, ?_, ?_⟩
  · intro i slot hi
    rw [hat i slot hi, Nat.zero_add]
  · intro slot hpos hnot
    rw [helse slot hpos hnot, hempty]

/-! ## The nearest switch -/

/-- An index as the code writes it. -/
def indexOrNone (found : Option Nat) : Int := found.elim (-1) Nat.cast

theorem nearest_of_ancestry (h : Indexed switchSlots bySlot) {list : List Int}
    (hancestry : Ancestry parents slot list) {remaining : Nat} (hlength : list.length ≤ remaining) :
    ∃ found, NearestSwitch parents switchSlots slot found ∧
      nearest parents bySlot remaining slot = indexOrNone found := by
  induction hancestry generalizing remaining with
  | past =>
      refine ⟨none, .past, ?_⟩
      cases remaining with
      | zero => rfl
      | succ remaining => rw [nearest, if_pos (by decide)]; rfl
  | @up slot rest hpos _ ih =>
      obtain ⟨remaining, rfl⟩ := Nat.exists_eq_add_of_lt (Nat.lt_of_lt_of_le (Nat.succ_pos _) hlength)
      rw [Nat.zero_add, nearest, if_neg (by omega)]
      by_cases hswitch : slot ∈ switchSlots
      · obtain ⟨i, hi⟩ := List.mem_iff_getElem?.mp hswitch
        rw [h.at_switch i slot hi, if_pos (Int.natCast_nonneg i)]
        exact ⟨some i, .here hi, rfl⟩
      · rw [h.elsewhere slot hpos hswitch, if_neg (by decide)]
        obtain ⟨found, hfound, heq⟩ := ih
          (by simpa using hlength : rest.length ≤ remaining)
        exact ⟨found, .up hpos hswitch hfound, heq⟩

theorem NearestSwitch.unique (hnodup : switchSlots.Nodup) (hpos : ∀ slot ∈ switchSlots, 0 ≤ slot)
    {found found' : Option Nat} (h : NearestSwitch parents switchSlots slot found)
    (h' : NearestSwitch parents switchSlots slot found') : found = found' := by
  induction h with
  | past =>
      cases h' with
      | past => rfl
      | here hi => exact absurd (hpos (-1) (List.mem_of_getElem? hi)) (by decide)
      | up hneg _ _ => exact absurd hneg (by decide)
  | @here slot i hi =>
      cases h' with
      | past => exact absurd (hpos (-1) (List.mem_of_getElem? hi)) (by decide)
      | here hi' =>
          obtain ⟨hlt, he⟩ := List.getElem?_eq_some_iff.mp hi
          obtain ⟨hlt', he'⟩ := List.getElem?_eq_some_iff.mp hi'
          exact congrArg some (hnodup.getElem_inj_iff.mp (he.trans he'.symm))
      | up _ hno _ => exact absurd (List.mem_of_getElem? hi) hno
  | up hnonneg hno _ ih =>
      cases h' with
      | past => exact absurd hnonneg (by decide)
      | here hi => exact absurd (List.mem_of_getElem? hi) hno
      | up _ _ habove => exact ih habove

/-- **The walk finds the nearest switch.** -/
theorem SwitchForest.nearest_eq (h : SwitchForest parents switchSlots sources)
    (hindexed : Indexed switchSlots bySlot) (hslot : SlotOrNone parents.length slot)
    (found : Option Nat) :
    nearest parents bySlot parents.length slot = indexOrNone found ↔
      NearestSwitch parents switchSlots slot found := by
  obtain ⟨list, hancestry, hlength, -⟩ := h.exists_ancestry hslot
  obtain ⟨found', hfound', heq⟩ := nearest_of_ancestry hindexed hancestry hlength
  rw [heq]
  constructor
  · intro hsame
    have : found' = found := by
      cases found' <;> cases found <;> simp only [indexOrNone, Option.elim] at hsame <;>
        first | rfl | omega | exact congrArg some (by omega)
    exact this ▸ hfound'
  · intro hfound
    rw [hfound'.unique h.slots_nodup (fun slot hin => (h.slots_mem slot hin).1) hfound]

end

/-! ## The contexts -/

section

variable {parents : List Int} {switchSlots : List Int} {sources : List (List Int)}

/-- `i` reads a source whose nearest switch is `j`. -/
def SourceEdge (parents switchSlots : List Int) (sources : List (List Int)) (i j : Nat) : Prop :=
  ∃ list, sources[i]? = some list ∧
    ∃ source ∈ list, NearestSwitch parents switchSlots source (some j)

/-- The anchor of `i`'s context has nearest switch `j`. -/
def CheckpointEdge (parents switchSlots : List Int) (contexts : List SpaceParentContext)
    (i j : Nat) : Prop :=
  ∃ context, contexts[i]? = some context ∧
    NearestSwitch parents switchSlots context.anchor (some j)

/-- The context of a reader whose way up starts at a slot: what is recomposed is the longest run of
ancestors under a switch at least as deep as the reader, from the root down. -/
def ContextOf (parents switchSlots : List Int) (depth : Nat → Nat) (reader : Nat) (start : Int)
    (context : SpaceParentContext) : Prop :=
  ∃ run rest, Ancestry parents start (run ++ rest) ∧ context.recompose = run.reverse ∧
    context.anchor = rest.headD (-1) ∧
    (∀ a ∈ run, ∃ j, NearestSwitch parents switchSlots a (some j) ∧ depth reader ≤ depth j) ∧
    ∀ j, NearestSwitch parents switchSlots context.anchor (some j) → depth j < depth reader

variable {bySlot : List Int}

theorem mem_producers (h : SwitchForest parents switchSlots sources)
    (hindexed : Indexed switchSlots bySlot) {i j : Nat} :
    j ∈ producers parents bySlot sources i ↔ SourceEdge parents switchSlots sources i j := by
  have hsource : ∀ list ∈ sources, ∀ source ∈ list,
      ((if nearest parents bySlot parents.length source ≥ 0 then
          some (nearest parents bySlot parents.length source).toNat else none) = some j ↔
        NearestSwitch parents switchSlots source (some j)) := by
    intro list hlist source hin
    rw [← h.nearest_eq hindexed (h.sources_mem list hlist source hin), indexOrNone, Option.elim]
    split
    · rename_i hpos
      rw [Option.some.injEq]
      omega
    · simp only [reduceCtorEq, false_iff]
      omega
  rw [producers, List.mem_filterMap, SourceEdge]
  cases hlist : sources[i]? with
  | none => simp
  | some list =>
      simp only [Option.getD_some, Option.some.injEq, exists_eq_left']
      constructor
      · rintro ⟨source, hin, hfound⟩
        exact ⟨source, hin, (hsource list (List.mem_of_getElem? hlist) source hin).mp hfound⟩
      · rintro ⟨source, hin, hfound⟩
        exact ⟨source, hin, (hsource list (List.mem_of_getElem? hlist) source hin).mpr hfound⟩

theorem NearestSwitch.lt {slot : Int} {j : Nat}
    (h : NearestSwitch parents switchSlots slot (some j)) : j < switchSlots.length := by
  generalize hfound : some j = found at h
  induction h with
  | past => cases hfound
  | here hi =>
      cases hfound
      exact (List.getElem?_eq_some_iff.mp hi).1
  | up _ _ _ ih => exact ih hfound

theorem SourceEdge.lt (h : SwitchForest parents switchSlots sources) {i j : Nat}
    (hedge : SourceEdge parents switchSlots sources i j) :
    i < sources.length ∧ j < sources.length := by
  obtain ⟨list, hlist, source, -, hfound⟩ := hedge
  exact ⟨(List.getElem?_eq_some_iff.mp hlist).1, h.sources_length ▸ hfound.lt⟩

/-- **The depths are the longest source chains.** -/
theorem switchDepths_greatest (h : SwitchForest parents switchSlots sources)
    (hindexed : Indexed switchSlots bySlot)
    (hacyclic : Acyclic (SourceEdge parents switchSlots sources)) {i : Nat}
    (hi : i < switchSlots.length) :
    IsGreatest {n | ChainOf (SourceEdge parents switchSlots sources) i n}
      ((switchDepths parents bySlot sources)[i]?.getD 0) := by
  have hrel : (fun v w => w ∈ producers parents bySlot sources v) =
      SourceEdge parents switchSlots sources := by
    funext v w
    exact propext (mem_producers h hindexed)
  have hsettled := @Lib.settle_greatest (producers parents bySlot sources) sources.length
    (hacyclic.mono fun v w hvw => (mem_producers h hindexed).mp hvw.1)
    (fun v _ w hw => (((mem_producers h hindexed).mp hw).lt h).2)
  rw [← hrel]
  exact hsettled.2 i (h.sources_length ▸ hi)

theorem depth_lt_of_sourceEdge {depth : Nat → Nat}
    (hdepth : ∀ i < switchSlots.length,
      IsGreatest {n | ChainOf (SourceEdge parents switchSlots sources) i n} (depth i))
    (h : SwitchForest parents switchSlots sources) {i j : Nat}
    (hedge : SourceEdge parents switchSlots sources i j) : depth j < depth i := by
  obtain ⟨hi, hj⟩ := hedge.lt h
  rw [← h.sources_length] at hi hj
  exact (hdepth i hi).2 (.cons hedge (hdepth j hj).1)

/-- **What the walk of `bind` returns.** -/
theorem bindWalk_spec (h : SwitchForest parents switchSlots sources)
    (hindexed : Indexed switchSlots bySlot) {composed : List Bool}
    (hcomposed : ∀ slot < parents.length, composed[slot]? = some true) {depth : List Nat}
    {reader : Nat} {start : Int} {list : List Int} (hancestry : Ancestry parents start list)
    (hmem : ∀ a ∈ list, 0 ≤ a ∧ a < parents.length) {remaining : Nat}
    (hlength : list.length ≤ remaining) :
    ∃ run rest, list = run ++ rest ∧
      bindWalk parents composed bySlot depth reader remaining start = (run, rest.headD (-1)) ∧
      (∀ a ∈ run, ∃ j, NearestSwitch parents switchSlots a (some j) ∧
        depth[reader]?.getD 0 ≤ depth[j]?.getD 0) ∧
      ∀ j, NearestSwitch parents switchSlots (rest.headD (-1)) (some j) →
        depth[j]?.getD 0 < depth[reader]?.getD 0 := by
  have hroot : ∀ j, NearestSwitch parents switchSlots (-1) (some j) →
      depth[j]?.getD 0 < depth[reader]?.getD 0 := by
    intro j hj
    cases hj with
    | here hi => exact absurd (h.slots_mem (-1) (List.mem_of_getElem? hi)).1 (by decide)
    | up hneg _ _ => exact absurd hneg (by decide)
  induction hancestry generalizing remaining with
  | past =>
      refine ⟨[], [], rfl, ?_, by simp, hroot⟩
      cases remaining with
      | zero => rfl
      | succ remaining => rw [bindWalk, if_pos (.inl (by decide))]; rfl
  | @up slot rest hpos _ ih =>
      obtain ⟨⟨-, hlt⟩, hrest⟩ := List.forall_mem_cons.mp hmem
      obtain ⟨remaining, rfl⟩ := Nat.exists_eq_add_of_lt (Nat.lt_of_lt_of_le (Nat.succ_pos _) hlength)
      have hslot : SlotOrNone parents.length slot := ⟨by omega, hlt⟩
      have hinside : ¬ (slot < 0 ∨ composed[slot.toNat]?.getD false = false) := by
        rw [hcomposed slot.toNat (by omega)]
        simp only [Option.getD_some, Bool.true_eq_false, or_false]
        omega
      rw [Nat.zero_add, bindWalk, if_neg hinside]
      have hnearest := fun found => h.nearest_eq hindexed hslot found
      by_cases hstop : nearest parents bySlot parents.length slot < 0 ∨
          depth[(nearest parents bySlot parents.length slot).toNat]?.getD 0 < depth[reader]?.getD 0
      · refine ⟨[], slot :: rest, rfl, by simp only [if_pos hstop, List.headD_cons], by simp, ?_⟩
        intro j hj
        have hj' := (hnearest (some j)).mpr hj
        rw [hj', indexOrNone, Option.elim] at hstop
        rcases hstop with hneg | hlower
        · omega
        · rwa [Int.toNat_natCast] at hlower
      · obtain ⟨run, rest', rfl, hwalk, hrun, hanchor⟩ := ih hrest
          (by simpa using hlength : rest.length ≤ remaining)
        obtain ⟨hfound, hdeep⟩ := not_or.mp hstop
        refine ⟨slot :: run, rest', rfl, by simp only [if_neg hstop, hwalk], ?_, hanchor⟩
        refine List.forall_mem_cons.mpr ⟨?_, hrun⟩
        refine ⟨(nearest parents bySlot parents.length slot).toNat, (hnearest _).mp ?_,
          Nat.not_lt.mp hdeep⟩
        rw [indexOrNone, Option.elim]
        omega

theorem contextOf_bind (h : SwitchForest parents switchSlots sources)
    (hindexed : Indexed switchSlots bySlot) {composed : List Bool}
    (hcomposed : ∀ slot < parents.length, composed[slot]? = some true) (depth : List Nat)
    (reader : Nat) {start : Int} (hstart : SlotOrNone parents.length start) :
    ContextOf parents switchSlots (fun i => depth[i]?.getD 0) reader start
      (bindContext parents composed bySlot depth reader start) := by
  obtain ⟨list, hancestry, hlength, hmem⟩ := h.exists_ancestry hstart
  obtain ⟨run, rest, rfl, hwalk, hrun, hanchor⟩ := @bindWalk_spec parents switchSlots sources bySlot
    h hindexed composed hcomposed depth reader start list hancestry hmem parents.length hlength
  refine ⟨run, rest, hancestry, ?_, ?_, hrun, ?_⟩
  · rw [bindContext, hwalk]
  · rw [bindContext, hwalk]
  · rw [bindContext, hwalk]
    exact hanchor

/-! ## The result -/

/-- What is handed over besides the forest: destinations, composed slots, and carry slots with their
destination or neither. -/
structure Handed (parents switchSlots : List Int) (composed : List Bool)
    (output : Option (List SpaceParentContext)) (carrySlots : Option (List Int))
    (carryOutput : Option (List SpaceParentContext)) : Prop where
  output_some : output.isSome = true
  composed_eq : composed = List.replicate parents.length true
  carry_both : carrySlots.isSome = carryOutput.isSome
  carry_mem : ∀ slots ∈ carrySlots, slots.length = switchSlots.length ∧
    ∀ slot ∈ slots, SlotOrNone parents.length slot

/-- **Checkpoints introduce no cycle.**  In a composed forest whose source relation is acyclic the
derivation succeeds, a switch is as deep as its longest source chain, its parent context is the one
its depth asks for, and source edges and checkpoint edges together are acyclic.  Whatever it is
given, a derivation that fails leaves both destinations as they were. -/
theorem parentContexts_spec (parents : List Int) (composed : List Bool) (switchSlots : List Int)
    (sources : List (List Int)) (output : Option (List SpaceParentContext))
    (carrySlots : Option (List Int)) (carryOutput : Option (List SpaceParentContext)) :
    ((deriveSpaceSwitchParentContexts parents composed switchSlots sources output carrySlots
        carryOutput).1 = false →
      (deriveSpaceSwitchParentContexts parents composed switchSlots sources output carrySlots
        carryOutput).2 = (output, carryOutput)) ∧
    (SwitchForest parents switchSlots sources →
      Handed parents switchSlots composed output carrySlots carryOutput →
      Acyclic (SourceEdge parents switchSlots sources) →
      ∃ bySlot contexts,
        bindSlots parents.length 0 (switchSlots.zip sources)
          (List.replicate parents.length (-1)) = some bySlot ∧
        (deriveSpaceSwitchParentContexts parents composed switchSlots sources output carrySlots
          carryOutput).1 = true ∧
        (deriveSpaceSwitchParentContexts parents composed switchSlots sources output carrySlots
          carryOutput).2.1 = some contexts ∧
        contexts.length = switchSlots.length ∧
        (∀ i < switchSlots.length,
          IsGreatest {n | ChainOf (SourceEdge parents switchSlots sources) i n}
            ((switchDepths parents bySlot sources)[i]?.getD 0)) ∧
        (∀ i slot context, switchSlots[i]? = some slot → contexts[i]? = some context →
          ContextOf parents switchSlots
            (fun i => (switchDepths parents bySlot sources)[i]?.getD 0) i (slotAt parents slot)
            context) ∧
        Acyclic fun i j => SourceEdge parents switchSlots sources i j ∨
          CheckpointEdge parents switchSlots contexts i j) := by
  constructor
  · intro hfailed
    unfold deriveSpaceSwitchParentContexts at hfailed ⊢
    dsimp only at hfailed ⊢
    split_ifs at hfailed ⊢ <;> try rfl
    split at hfailed
    · rfl
    · cases hfailed
  · intro h hhanded hacyclic
    obtain ⟨bySlot, hbind, hindexed⟩ := h.bindSlots
    have hdepth := fun i (hi : i < switchSlots.length) =>
      switchDepths_greatest h hindexed hacyclic hi
    have hcomposed : ∀ slot < parents.length, composed[slot]? = some true := by
      intro slot hslot
      rw [hhanded.composed_eq, List.getElem?_replicate, if_pos hslot]
    have hsuccess : deriveSpaceSwitchParentContexts parents composed switchSlots sources output
        carrySlots carryOutput = (true, some ((List.range switchSlots.length).map fun i =>
          bindContext parents composed bySlot (switchDepths parents bySlot sources) i
            (slotAt parents (switchSlots[i]?.getD (-1)))), carrySlots.map fun slots =>
          (List.range switchSlots.length).map fun i =>
            if ownTarget parents (switchSlots[i]?.getD (-1)) parents.length (slots[i]?.getD (-1)) then
              { anchor := slots[i]?.getD (-1) }
            else bindContext parents composed bySlot (switchDepths parents bySlot sources) i
              (slots[i]?.getD (-1))) := by
      have hshape : ¬ (output.isNone = true ∨ parents.length ≠ composed.length ∨
          switchSlots.length ≠ sources.length) := by
        rw [hhanded.composed_eq, List.length_replicate, ← h.sources_length]
        simp [Option.isSome_iff_ne_none.mp hhanded.output_some]
      have hcarry : ¬ (carrySlots.isNone ≠ carryOutput.isNone ∨
          ∃ slots ∈ carrySlots, slots.length ≠ switchSlots.length) := by
        rw [← Option.not_isSome, ← Option.not_isSome, hhanded.carry_both]
        simp only [ne_eq, not_true_eq_false, false_or, not_exists, not_and, not_not]
        intro slots hslots
        exact (hhanded.carry_mem slots hslots).1
      have hslots : ¬ ∃ slots ∈ carrySlots, ∃ slot ∈ slots, ¬ SlotOrNone parents.length slot := by
        simp only [not_exists, not_and, not_not]
        intro slots hslots
        exact (hhanded.carry_mem slots hslots).2
      have hparents : ¬ ∃ parent ∈ parents, ¬ SlotOrNone parents.length parent := by
        simp only [not_exists, not_and, not_not]
        exact h.mem
      rw [deriveSpaceSwitchParentContexts]
      simp only [if_neg hshape, if_neg hcarry, if_neg hslots, if_neg hparents, hbind]
    have hcontext : ∀ i slot context, switchSlots[i]? = some slot →
        ((List.range switchSlots.length).map fun i =>
          bindContext parents composed bySlot (switchDepths parents bySlot sources) i
            (slotAt parents (switchSlots[i]?.getD (-1))))[i]? = some context →
        ContextOf parents switchSlots
          (fun i => (switchDepths parents bySlot sources)[i]?.getD 0) i (slotAt parents slot)
          context := by
      intro i slot context hslot hget
      rw [List.getElem?_map, List.getElem?_range (List.getElem?_eq_some_iff.mp hslot).1,
        Option.map_some, hslot, Option.getD_some] at hget
      rw [← Option.some.inj hget]
      exact contextOf_bind h hindexed hcomposed _ i (h.slotAt slot)
    refine ⟨bySlot, _, hbind, by rw [hsuccess], by rw [hsuccess], by simp, hdepth, hcontext, ?_⟩
    -- both kinds of edge go to a shallower switch
    refine Acyclic.of_rank (fun i => (switchDepths parents bySlot sources)[i]?.getD 0) ?_
    rintro i j (hsource | ⟨context, hget, hanchor⟩)
    · exact depth_lt_of_sourceEdge hdepth h hsource
    · have hi : i < switchSlots.length := by
        have := (List.getElem?_eq_some_iff.mp hget).1
        simpa using this
      obtain ⟨run, rest, -, -, -, -, hshallow⟩ :=
        hcontext i _ context (List.getElem?_eq_getElem hi) hget
      exact hshallow j hanchor

end

/-- A switch on the leaf of three nested slots that reads the root, where the other switch stands. -/
theorem switchForest_nested : SwitchForest [-1, 0, 1] [2, 0] [[0], []] where
  mem := by decide
  acyclic := by
    refine Acyclic.of_rank Int.toNat ?_
    rintro slot parent ⟨hslot, hparent, hget⟩
    have hcases : slot.toNat = 0 ∧ parent = -1 ∨ slot.toNat = 1 ∧ parent = 0 ∨
        slot.toNat = 2 ∧ parent = 1 := by
      match hn : slot.toNat with
      | 0 => rw [hn] at hget; simp_all
      | 1 => rw [hn] at hget; simp_all
      | 2 => rw [hn] at hget; simp_all
      | n + 3 => rw [hn] at hget; simp at hget
    omega
  slots_mem := by decide
  slots_nodup := by decide
  sources_length := rfl
  sources_mem := by decide

theorem acyclic_sources_nested : Acyclic (SourceEdge [-1, 0, 1] [2, 0] [[0], []]) := by
  refine Acyclic.of_rank (fun i => if i = 0 then 1 else 0) ?_
  rintro i j ⟨list, hlist, source, hin, hfound⟩
  match i with
  | 0 =>
      obtain rfl : [0] = list := by simpa using hlist
      obtain rfl := List.mem_singleton.mp hin
      cases hfound with
      | here hj =>
          match j with
          | 0 => simp at hj
          | j + 1 => simp
      | up _ hno _ => exact absurd (by decide) hno
  | 1 =>
      obtain rfl : [] = list := by simpa using hlist
      cases hin
  | i + 2 => simp at hlist

theorem parentContexts_spec_nested :
    ∃ contexts, (deriveSpaceSwitchParentContexts [-1, 0, 1] [true, true, true] [2, 0] [[0], []]
        (some []) none none).2.1 = some contexts ∧ contexts.length = 2 ∧
      Acyclic fun i j => SourceEdge [-1, 0, 1] [2, 0] [[0], []] i j ∨
        CheckpointEdge [-1, 0, 1] [2, 0] contexts i j := by
  obtain ⟨-, contexts, -, -, hcontexts, hlength, -, -, hacyclic⟩ :=
    (parentContexts_spec [-1, 0, 1] [true, true, true] [2, 0] [[0], []] (some []) none none).2
      switchForest_nested ⟨rfl, rfl, rfl, by simp⟩ acyclic_sources_nested
  exact ⟨contexts, hcontexts, hlength, hacyclic⟩

example : (deriveSpaceSwitchParentContexts [-1, 0, 1] [true, true, true] [2, 0] [[0], []]
    (some []) none none).2.1 = some [{ anchor := 1 }, { anchor := -1 }] := by decide

end RigExec.Scene
