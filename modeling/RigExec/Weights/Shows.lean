/-
# `RigExec.Weights.Shows` — the field a packet shows

A valid packet fits an element count or does not, and shows one field at a count it fits.

    Shaped          the arrays a representation has
    Built           what a valid packet promises
    Fits            what `ResolveAll` asks of the count
    Weighs          the weight of one element
    Shows           the field of a count

`ResolveAll` and a combine's input expansion both give the field that is shown.
-/
import RigExec.Lib.Entries
import RigExec.Weights.Packets
import Mathlib.Data.List.TakeWhile

namespace RigExec.Weights

open Lib (Reads writeEntries)

section

variable {F : Type} {fl : Floats F} {p base : WeightPacket F} {count : Nat} {field field' : List F}

/-! ## The range -/

theorem usable_iff {v : F} : usable fl v = true ↔ fl.isFinite v = true ∧ fl.outside v = false := by
  rw [usable, Floats.outside, Bool.and_eq_true, Bool.and_eq_true, Bool.or_eq_false_iff, and_assoc]
  constructor
  · rintro ⟨hfinite, hlow, hhigh⟩
    rw [fl.le_of_finite _ _ fl.finite_zero hfinite] at hlow
    rw [fl.le_of_finite _ _ hfinite fl.finite_one] at hhigh
    exact ⟨hfinite, Bool.not_eq_true' _ ▸ hlow, Bool.not_eq_true' _ ▸ hhigh⟩
  · rintro ⟨hfinite, hlow, hhigh⟩
    rw [fl.le_of_finite _ _ fl.finite_zero hfinite, fl.le_of_finite _ _ hfinite fl.finite_one,
      hlow, hhigh]
    exact ⟨hfinite, rfl, rfl⟩

theorem not_negative {v : F} (h : usable fl v = true) : fl.lt v fl.zero = false :=
  (Bool.or_eq_false_iff.mp (usable_iff.mp h).2).1

theorem usable_zero : usable fl fl.zero = true := by
  refine usable_iff.mpr ⟨fl.finite_zero, ?_⟩
  rw [Floats.outside, fl.zero_not_lt, fl.one_not_lt_zero]
  rfl

theorem usable_one (hless : fl.lt fl.one fl.zero = false) : usable fl fl.one = true := by
  refine usable_iff.mpr ⟨fl.finite_one, ?_⟩
  rw [Floats.outside, hless, fl.one_not_lt]
  rfl

theorem usable_clamp {w : F} (hfinite : fl.isFinite w = true) : usable fl (fl.clamp w) = true := by
  unfold Floats.clamp Floats.max Floats.min
  by_cases hlow : fl.lt w fl.zero = true
  · rw [if_pos hlow, if_neg (by rw [fl.one_not_lt_zero]; exact Bool.false_ne_true)]
    exact usable_zero
  · rw [if_neg hlow]
    split
    · exact usable_one fl.one_not_lt_zero
    · rename_i hhigh
      refine usable_iff.mpr ⟨hfinite, Bool.or_eq_false_iff.mpr ⟨?_, ?_⟩⟩
      · exact Bool.eq_false_of_not_eq_true hlow
      · exact Bool.eq_false_of_not_eq_true hhigh

theorem usable_of_policy {policy : String} {w r : F}
    (h : applyWeightRangePolicy fl policy w = some r) : usable fl r = true := by
  unfold applyWeightRangePolicy at h
  by_cases hfinite : fl.isFinite w = false
  · rw [if_pos hfinite] at h
    cases h
  · rw [if_neg hfinite] at h
    have hyes : fl.isFinite w = true := Bool.eq_true_of_not_eq_false hfinite
    by_cases hout : fl.outside w = true
    · rw [if_pos hout] at h
      split at h
      · cases h
        exact usable_clamp hyes
      · cases h
    · rw [if_neg hout] at h
      cases h
      exact usable_iff.mpr ⟨hyes, Bool.eq_false_of_not_eq_true hout⟩

/-! ## Packets -/

/-- The arrays a representation has. -/
structure WeightPacket.Shaped (p : WeightPacket F) : Prop where
  representation : knownRepresentation p.representation = true
  indices : p.representation ≠ "sparse" → p.indices = []
  support : p.representation = "sparse" →
    p.indices.length = p.values.length ∧ p.indices.Pairwise (· < ·)

/-- What a valid packet promises. -/
structure WeightPacket.Built (fl : Floats F) (p : WeightPacket F) : Prop extends
    WeightPacket.Shaped p where
  valid : p.valid = true
  policy : knownPolicy p.rangePolicy = true
  values : ∀ v ∈ p.values, usable fl v = true
  defaultWeight : usable fl p.defaultWeight = true

/-- A count the packet can be resolved at. -/
structure WeightPacket.Fits (p : WeightPacket F) (count : Nat) : Prop where
  constant : p.representation = "constant" → p.values = []
  dense : p.representation = "dense" → p.values.length = count
  sparse : p.representation = "sparse" → ∀ index ∈ p.indices, 0 ≤ index ∧ index < count

def WeightPacket.entries (p : WeightPacket F) : List (Int × F) := p.indices.zip p.values

/-- Element `i` weighs `w`. -/
structure WeightPacket.Weighs (p : WeightPacket F) (i : Nat) (w : F) : Prop where
  constant : p.representation = "constant" → w = p.defaultWeight
  dense : p.representation = "dense" → p.values[i]? = some w
  sparse : p.representation = "sparse" → Reads p.entries p.defaultWeight i w

/-- The field of a count the packet fits. -/
structure WeightPacket.Shows (p : WeightPacket F) (count : Nat) (field : List F) : Prop where
  length : field.length = count
  fits : p.Fits count
  weights : ∀ (i : Nat) w, field[i]? = some w → p.Weighs i w

theorem knownRepresentation_iff {token : String} :
    knownRepresentation token = true ↔ token = "constant" ∨ token = "dense" ∨ token = "sparse" := by
  rw [knownRepresentation, Bool.or_eq_true, Bool.or_eq_true, decide_eq_true_eq, decide_eq_true_eq,
    decide_eq_true_eq, or_assoc]

theorem constant_ne_dense : ("constant" : String) ≠ "dense" := by decide

theorem constant_ne_sparse : ("constant" : String) ≠ "sparse" := by decide

theorem dense_ne_sparse : ("dense" : String) ≠ "sparse" := by decide

theorem WeightPacket.Shaped.keys (h : p.Shaped) (hrep : p.representation = "sparse") :
    p.entries.map (·.1) = p.indices :=
  List.map_fst_zip (h.support hrep).1.le

theorem WeightPacket.Shaped.keys_nodup (h : p.Shaped) (hrep : p.representation = "sparse") :
    (p.entries.map (·.1)).Nodup := by
  rw [h.keys hrep]
  exact (h.support hrep).2.imp fun hlt => ne_of_lt hlt

theorem WeightPacket.Shows.unique (h : p.Shaped) (hshows : p.Shows count field)
    (hshows' : p.Shows count field') : field = field' := by
  refine List.ext_getElem (hshows.length.trans hshows'.length.symm) fun i hi hi' => ?_
  have hw := hshows.weights i _ (List.getElem?_eq_getElem hi)
  have hw' := hshows'.weights i _ (List.getElem?_eq_getElem hi')
  rcases knownRepresentation_iff.mp h.representation with hrep | hrep | hrep
  · rw [hw.constant hrep, hw'.constant hrep]
  · exact Option.some.inj ((hw.dense hrep).symm.trans (hw'.dense hrep))
  · exact (hw.sparse hrep).unique (h.keys_nodup hrep) (hw'.sparse hrep)

theorem shows_constant (hrep : p.representation = "constant") (hfits : p.Fits count) :
    p.Shows count (List.replicate count p.defaultWeight) := by
  refine ⟨List.length_replicate, hfits, fun i w hw => ⟨fun _ => ?_, fun h => ?_, fun h => ?_⟩⟩
  · exact List.eq_of_mem_replicate (List.mem_of_getElem? hw)
  · exact absurd (hrep.symm.trans h) constant_ne_dense
  · exact absurd (hrep.symm.trans h) constant_ne_sparse

theorem shows_dense (hrep : p.representation = "dense") (hfits : p.Fits count) :
    p.Shows count p.values := by
  refine ⟨hfits.dense hrep, hfits, fun i w hw => ⟨fun h => ?_, fun _ => hw, fun h => ?_⟩⟩
  · exact absurd (h.symm.trans hrep) constant_ne_dense
  · exact absurd (hrep.symm.trans h) dense_ne_sparse

theorem shows_sparse (hrep : p.representation = "sparse") (hfits : p.Fits count)
    (hlength : field.length = count)
    (hreads : ∀ (i : Nat) w, field[i]? = some w → Reads p.entries p.defaultWeight i w) :
    p.Shows count field := by
  refine ⟨hlength, hfits, fun i w hw => ⟨fun h => ?_, fun h => ?_, fun _ => hreads i w hw⟩⟩
  · exact absurd (h.symm.trans hrep) constant_ne_sparse
  · exact absurd (h.symm.trans hrep) dense_ne_sparse

theorem Fits.entries (hfits : p.Fits count) (hrep : p.representation = "sparse") :
    ∀ entry ∈ p.entries, 0 ≤ entry.1 ∧ entry.1 < count := fun entry hentry =>
  hfits.sparse hrep entry.1 (List.of_mem_zip (a := entry.1) (b := entry.2) hentry).1

theorem shows_writeEntries (h : p.Shaped) (hrep : p.representation = "sparse")
    (hfits : p.Fits count) :
    p.Shows count (writeEntries (List.replicate count p.defaultWeight) p.entries) := by
  refine shows_sparse hrep hfits ?_ fun i w hw => ?_
  · rw [Lib.length_writeEntries, List.length_replicate]
  · exact Lib.reads_writeEntries (fun entry hentry => (Fits.entries hfits hrep entry hentry).1)
      (h.keys_nodup hrep) hw

theorem WeightPacket.Shows.mem_of_value (h : p.Shaped) (hshows : p.Shows count field) {v : F}
    (hv : v ∈ p.values) : v ∈ field := by
  rcases knownRepresentation_iff.mp h.representation with hrep | hrep | hrep
  · rw [hshows.fits.constant hrep] at hv
    exact absurd hv List.not_mem_nil
  · rw [hshows.unique h (shows_dense hrep hshows.fits)]
    exact hv
  · obtain ⟨i, hi⟩ := List.mem_iff_getElem?.mp hv
    have hlt : i < p.indices.length := by
      rw [(h.support hrep).1]
      exact (List.getElem?_eq_some_iff.mp hi).1
    have hentry : (p.indices[i], v) ∈ p.entries := by
      refine List.mem_iff_getElem?.mpr ⟨i, ?_⟩
      exact List.getElem?_zip_eq_some.mpr ⟨List.getElem?_eq_getElem hlt, hi⟩
    obtain ⟨hnonneg, hbound⟩ := Fits.entries hshows.fits hrep _ hentry
    obtain ⟨k, hk⟩ := Int.eq_ofNat_of_zero_le hnonneg
    dsimp only at hk hbound
    have hinside : k < field.length := by
      rw [hshows.length]
      omega
    have hreads := (hshows.weights k _ (List.getElem?_eq_getElem hinside)).sparse hrep
    rw [← hk] at hreads
    rw [Reads.unique (h.keys_nodup hrep) (Or.inl hentry) hreads]
    exact List.getElem_mem hinside

/-! ## Packets of the same shape -/

theorem WeightPacket.Shows.transform {R : F → F → Prop}
    (hfunctional : ∀ b r r', R b r → R b r' → r = r') (hshows : base.Shows count field)
    (hrep : p.representation = base.representation) (hindices : p.indices = base.indices)
    (hvalues : List.Forall₂ R base.values p.values)
    (hdefault : base.representation ≠ "dense" → R base.defaultWeight p.defaultWeight)
    (hfield : List.Forall₂ R field field') : p.Shows count field' := by
  refine ⟨?_, ⟨fun h => ?_, fun h => ?_, fun h => ?_⟩, fun i w hw => ?_⟩
  · rw [← hfield.length_eq, hshows.length]
  · have hnil := hshows.fits.constant (hrep.symm.trans h)
    rw [hnil] at hvalues
    exact List.forall₂_nil_left_iff.mp hvalues
  · rw [← hvalues.length_eq]
    exact hshows.fits.dense (hrep.symm.trans h)
  · rw [hindices]
    exact hshows.fits.sparse (hrep.symm.trans h)
  · obtain ⟨b, hb, hr⟩ := Lib.forall₂_getElem? hfield.flip hw
    have hweighs := hshows.weights i b hb
    refine ⟨fun h => ?_, fun h => ?_, fun h => ?_⟩
    · have hconstant := hrep.symm.trans h
      rw [hweighs.constant hconstant] at hr
      exact hfunctional _ _ _ hr
        (hdefault fun hdense => constant_ne_dense (hconstant.symm.trans hdense))
    · obtain ⟨r, hmem, hr'⟩ := Lib.forall₂_getElem? hvalues (hweighs.dense (hrep.symm.trans h))
      rw [hmem, hfunctional _ _ _ hr hr']
    · have hsparse := hrep.symm.trans h
      rcases hweighs.sparse hsparse with hmem | ⟨hnot, hb⟩
      · obtain ⟨r, hmem', hr'⟩ := Lib.forall₂_zip_mem hvalues hmem
        refine Or.inl ?_
        rw [hfunctional _ _ _ hr hr', WeightPacket.entries, hindices]
        exact hmem'
      · refine Or.inr ⟨fun hmem => hnot ?_, ?_⟩
        · obtain ⟨⟨_, v⟩, hentry, rfl⟩ := List.mem_map.mp hmem
          rw [WeightPacket.entries, hindices] at hentry
          obtain ⟨b', hb', -⟩ := Lib.forall₂_zip_mem hvalues.flip hentry
          exact Lib.mem_keys_of_mem hb'
        · rw [hb] at hr
          exact hfunctional _ _ _ hr
            (hdefault fun hdense => dense_ne_sparse (hdense.symm.trans hsparse))

theorem WeightPacket.Shows.transform_iff {R : F → F → Prop}
    (hfunctional : ∀ b r r', R b r → R b r' → r = r') (hbase : base.Shaped) (h : p.Shaped)
    (hshows : base.Shows count field)
    (hrep : p.representation = base.representation) (hindices : p.indices = base.indices)
    (hvalues : List.Forall₂ R base.values p.values)
    (hdefault : base.representation ≠ "dense" → R base.defaultWeight p.defaultWeight) :
    List.Forall₂ R field field' ↔ p.Shows count field' := by
  constructor
  · exact hshows.transform hfunctional hrep hindices hvalues hdefault
  · intro hshows'
    have hall : ∀ b ∈ field, ∃ r, R b r := by
      intro b hb
      obtain ⟨i, hi⟩ := List.mem_iff_getElem?.mp hb
      have hweighs := hshows.weights i b hi
      rcases knownRepresentation_iff.mp hbase.representation with hr | hr | hr
      · rw [hweighs.constant hr]
        exact ⟨_, hdefault fun hdense => constant_ne_dense (hr.symm.trans hdense)⟩
      · obtain ⟨r, -, hbr⟩ := Lib.forall₂_getElem? hvalues (hweighs.dense hr)
        exact ⟨r, hbr⟩
      · rcases hweighs.sparse hr with hmem | ⟨-, rfl⟩
        · obtain ⟨r, -, hbr⟩ := Lib.forall₂_zip_mem hvalues hmem
          exact ⟨r, hbr⟩
        · exact ⟨_, hdefault fun hdense => dense_ne_sparse (hdense.symm.trans hr)⟩
    obtain ⟨other, hother⟩ := Lib.exists_forall₂ hall
    rw [hshows'.unique h (hshows.transform hfunctional hrep hindices hvalues hdefault hother)]
    exact hother

theorem WeightPacket.Shaped.exists_shows (h : p.Shaped) (hfits : p.Fits count) :
    ∃ field, p.Shows count field := by
  rcases knownRepresentation_iff.mp h.representation with hrep | hrep | hrep
  · exact ⟨_, shows_constant hrep hfits⟩
  · exact ⟨_, shows_dense hrep hfits⟩
  · exact ⟨_, shows_writeEntries h hrep hfits⟩

theorem shows_iff_exists {R : F → F → Prop}
    (hfunctional : ∀ b r r', R b r → R b r' → r = r') (hbase : base.Shaped) (h : p.Shaped)
    (hrep : p.representation = base.representation) (hindices : p.indices = base.indices)
    (hvalues : List.Forall₂ R base.values p.values)
    (hdefault : base.representation ≠ "dense" → R base.defaultWeight p.defaultWeight) :
    p.Shows count field' ↔ ∃ field, base.Shows count field ∧ List.Forall₂ R field field' := by
  constructor
  · intro hshows
    have hfits : base.Fits count := by
      refine ⟨fun hc => ?_, fun hd => ?_, fun hs => ?_⟩
      · have hnil := hshows.fits.constant (hrep.trans hc)
        rw [hnil] at hvalues
        exact List.forall₂_nil_right_iff.mp hvalues
      · rw [hvalues.length_eq]
        exact hshows.fits.dense (hrep.trans hd)
      · rw [← hindices]
        exact hshows.fits.sparse (hrep.trans hs)
    obtain ⟨field, hfield⟩ := hbase.exists_shows hfits
    exact ⟨field, hfield,
      (hfield.transform_iff hfunctional hbase h hrep hindices hvalues hdefault).mpr hshows⟩
  · rintro ⟨field, hfield, hrelated⟩
    exact hfield.transform hfunctional hrep hindices hvalues hdefault hrelated

/-! ## `ResolveAll` -/

theorem resolvesAll_iff (h : p.Built fl) : p.resolvesAll fl count = true ↔ p.Fits count := by
  have hvalues : p.values.all (usable fl) = true := List.all_eq_true.mpr h.values
  unfold WeightPacket.resolvesAll
  rw [if_neg (by rw [h.valid]; exact Bool.noConfusion),
    if_neg (fun hpolicy => by rw [h.policy] at hpolicy; exact Bool.noConfusion hpolicy.2)]
  rcases knownRepresentation_iff.mp h.representation with hrep | hrep | hrep
  · rw [if_pos hrep, h.indices (hrep ▸ constant_ne_sparse), h.defaultWeight, Bool.and_true]
    constructor
    · intro hempty
      rw [Bool.and_eq_true, List.isEmpty_iff] at hempty
      exact ⟨fun _ => hempty.1, fun hd => absurd (hrep.symm.trans hd) constant_ne_dense,
        fun hs => absurd (hrep.symm.trans hs) constant_ne_sparse⟩
    · intro hfits
      rw [hfits.constant hrep]
      rfl
  · rw [if_neg (fun hc => constant_ne_dense (hc.symm.trans hrep)), if_pos hrep,
      h.indices (hrep ▸ dense_ne_sparse), hvalues, Bool.and_true]
    constructor
    · intro hlength
      rw [Bool.and_eq_true, beq_iff_eq] at hlength
      exact ⟨fun hc => absurd (hc.symm.trans hrep) constant_ne_dense, fun _ => hlength.2,
        fun hs => absurd (hrep.symm.trans hs) dense_ne_sparse⟩
    · intro hfits
      rw [hfits.dense hrep, beq_self_eq_true]
      rfl
  · obtain ⟨hsizes, hsorted⟩ := h.support hrep
    rw [if_neg (fun hc => constant_ne_sparse (hc.symm.trans hrep)),
      if_neg (fun hd => dense_ne_sparse (hd.symm.trans hrep)), if_pos hrep, hvalues,
      h.defaultWeight, Bool.or_true, Bool.and_true, Bool.and_true, decide_eq_true hsorted,
      Bool.and_true, hsizes, beq_self_eq_true, Bool.true_and, List.all_eq_true]
    constructor
    · intro hall
      refine ⟨fun hc => absurd (hc.symm.trans hrep) constant_ne_sparse,
        fun hd => absurd (hd.symm.trans hrep) dense_ne_sparse, fun _ index hindex => ?_⟩
      have hrange := hall index hindex
      rw [Bool.and_eq_true, decide_eq_true_eq, decide_eq_true_eq] at hrange
      exact hrange
    · intro hfits index hindex
      obtain ⟨hlow, hhigh⟩ := hfits.sparse hrep index hindex
      rw [decide_eq_true hlow, decide_eq_true hhigh]
      rfl

/-- `ResolveAll` gives the field the packet shows. -/
theorem resolveAll_eq_some_iff (h : p.Built fl) :
    p.resolveAll fl count = some field ↔ p.Shows count field := by
  have hresolve : p.Fits count → ∃ shown, p.resolveAll fl count = some shown ∧
      p.Shows count shown := by
    intro hfits
    unfold WeightPacket.resolveAll
    rw [if_neg (by rw [(resolvesAll_iff h).mpr hfits]; exact Bool.noConfusion)]
    rcases knownRepresentation_iff.mp h.representation with hrep | hrep | hrep
    · rw [if_pos hrep]
      exact ⟨_, rfl, shows_constant hrep hfits⟩
    · rw [if_neg (fun hc => constant_ne_dense (hc.symm.trans hrep)), if_pos hrep,
        ← hfits.dense hrep, List.take_length]
      refine ⟨_, rfl, ?_⟩
      rw [hfits.dense hrep]
      exact shows_dense hrep hfits
    · rw [if_neg (fun hc => constant_ne_sparse (hc.symm.trans hrep)),
        if_neg (fun hd => dense_ne_sparse (hd.symm.trans hrep))]
      exact ⟨_, rfl, shows_writeEntries h.toShaped hrep hfits⟩
  constructor
  · intro hsome
    have hfits : p.Fits count := by
      refine (resolvesAll_iff h).mp (Bool.eq_true_of_not_eq_false fun hfalse => ?_)
      rw [WeightPacket.resolveAll, if_pos hfalse] at hsome
      cases hsome
    obtain ⟨shown, hshown, hshows⟩ := hresolve hfits
    rw [Option.some.inj (hsome.symm.trans hshown)]
    exact hshows
  · intro hshows
    obtain ⟨shown, hshown, hshows'⟩ := hresolve hshows.fits
    rw [hshown, hshows.unique h.toShaped hshows']

/-! ## The input of a combine -/

theorem reads_of_dropWhile {entries : List (Int × F)} {d w : F} {i k : Int} (hik : i ≤ k)
    (h : Reads (entries.dropWhile fun entry => entry.1 < i) d k w) : Reads entries d k w := by
  rcases h with hmem | ⟨hnot, hw⟩
  · exact Or.inl ((List.dropWhile_sublist _).mem hmem)
  · refine Or.inr ⟨fun hmem => hnot ?_, hw⟩
    obtain ⟨entry, hentry, rfl⟩ := List.mem_map.mp hmem
    refine List.mem_map.mpr ⟨entry, ?_, rfl⟩
    rw [← List.takeWhile_append_dropWhile (p := fun e : Int × F => decide (e.1 < i)) (l := entries)]
      at hentry
    rcases List.mem_append.mp hentry with htake | hdrop
    · have hbelow : decide (entry.1 < i) = true :=
        List.mem_takeWhile_imp (p := fun e : Int × F => decide (e.1 < i)) htake
      have hlt := of_decide_eq_true hbelow
      omega
    · exact hdrop

theorem mergeSupport_reads (d : F) (left : Nat) : ∀ (i : Nat) (entries : List (Int × F)),
    (entries.map (·.1)).Pairwise (· < ·) →
    (mergeSupport d i left entries).length = left ∧
      ∀ (j : Nat) w, (mergeSupport d i left entries)[j]? = some w →
        Reads entries d ((i + j : Nat) : Int) w := by
  induction left with
  | zero =>
      intro i entries _
      exact ⟨rfl, fun j w hw => absurd hw (Option.some_ne_none _).symm⟩
  | succ left ih =>
      intro i entries hsorted
      have hdropped : ((entries.dropWhile fun entry => entry.1 < (i : Int)).map (·.1)).Pairwise
          (· < ·) := hsorted.sublist ((List.dropWhile_sublist _).map _)
      -- what the dropped entries read is what all of them do, from `i` on
      have hlift : ∀ (j : Nat) w, Reads (entries.dropWhile fun entry => entry.1 < (i : Int)) d
          ((i + j : Nat) : Int) w → Reads entries d ((i + j : Nat) : Int) w := fun j w h =>
        reads_of_dropWhile (by omega) h
      unfold mergeSupport
      cases hdrop : entries.dropWhile fun entry => entry.1 < (i : Int) with
      | nil =>
          rw [hdrop] at hlift
          obtain ⟨hlength, hrest⟩ := ih (i + 1) [] .nil
          refine ⟨congrArg Nat.succ hlength, fun j w hw => hlift j w ?_⟩
          cases j with
          | zero =>
              cases hw
              exact Or.inr ⟨List.not_mem_nil, rfl⟩
          | succ j =>
              have hreads := hrest j w hw
              rw [Nat.add_right_comm, Nat.add_assoc] at hreads
              exact hreads
      | cons entry rest =>
          rw [hdrop] at hlift hdropped
          rw [List.map_cons, List.pairwise_cons] at hdropped
          have hhead : ¬ entry.1 < (i : Int) := by
            have hne : (entries.dropWhile fun entry => entry.1 < (i : Int)) ≠ [] := by
              rw [hdrop]
              exact List.cons_ne_nil _ _
            have hfalse := List.head_dropWhile_not
              (fun entry : Int × F => decide (entry.1 < (i : Int))) hne
            intro hlt
            simp only [hdrop, List.head_cons] at hfalse
            exact absurd hlt (of_decide_eq_false hfalse)
          dsimp only
          by_cases hat : entry.1 = (i : Int)
          · rw [if_pos hat]
            obtain ⟨hlength, hrest⟩ := ih (i + 1) rest hdropped.2
            refine ⟨congrArg Nat.succ hlength, fun j w hw => hlift j w ?_⟩
            cases j with
            | zero =>
                cases hw
                refine Or.inl (List.mem_cons.mpr (Or.inl ?_))
                show ((i : Int), entry.2) = entry
                rw [← hat]
            | succ j =>
                have hreads := hrest j w hw
                rw [Nat.add_right_comm, Nat.add_assoc] at hreads
                rcases hreads with hmem | ⟨hnot, hd⟩
                · exact Or.inl (List.mem_cons_of_mem _ hmem)
                · refine Or.inr ⟨fun hmem => ?_, hd⟩
                  rcases List.mem_cons.mp hmem with hsame | hlater
                  · change ((i + (j + 1) : Nat) : Int) = entry.1 at hsame
                    omega
                  · exact hnot hlater
          · rw [if_neg hat]
            obtain ⟨hlength, hrest⟩ := ih (i + 1) (entry :: rest)
              (List.pairwise_cons.mpr hdropped)
            refine ⟨congrArg Nat.succ hlength, fun j w hw => hlift j w ?_⟩
            cases j with
            | zero =>
                cases hw
                refine Or.inr ⟨fun hmem => ?_, rfl⟩
                rcases List.mem_cons.mp hmem with hsame | hlater
                · exact hat hsame.symm
                · have hlt := hdropped.1 _ hlater
                  omega
            | succ j =>
                have hreads := hrest j w hw
                rw [Nat.add_right_comm, Nat.add_assoc] at hreads
                exact hreads

theorem reads_usable (h : p.Built fl) {i : Int} {w : F}
    (hreads : Reads p.entries p.defaultWeight i w) : usable fl w = true := by
  rcases hreads with hmem | ⟨-, rfl⟩
  · exact h.values w (List.of_mem_zip hmem).2
  · exact h.defaultWeight

theorem any_negative {ws : List F} (h : ∀ w ∈ ws, usable fl w = true) :
    ¬ ws.any (fl.lt · fl.zero) = true := by
  intro hany
  obtain ⟨w, hw, hlt⟩ := List.any_eq_true.mp hany
  rw [not_negative (h w hw)] at hlt
  cases hlt

theorem resolveCombineInput_eq (h : p.Built fl) (hshows : p.Shows count field) :
    resolveCombineInput fl p count = some field := by
  unfold resolveCombineInput
  rcases knownRepresentation_iff.mp h.representation with hrep | hrep | hrep
  · rw [if_neg (fun hd => constant_ne_dense (hrep.symm.trans hd)),
      if_pos (fun hs => constant_ne_sparse (hrep.symm.trans hs)),
      if_neg (by rw [not_negative h.defaultWeight]; exact Bool.noConfusion),
      hshows.unique h.toShaped (shows_constant hrep hshows.fits)]
  · rw [if_pos hrep, if_neg (not_not.mpr (hshows.fits.dense hrep)),
      if_neg (any_negative h.values), hshows.unique h.toShaped (shows_dense hrep hshows.fits)]
  · obtain ⟨hsizes, hsorted⟩ := h.support hrep
    have hkeys : (p.entries.map (·.1)).Pairwise (· < ·) := by
      rw [h.keys hrep]
      exact hsorted
    obtain ⟨hlength, hreads⟩ := mergeSupport_reads p.defaultWeight count 0 p.entries hkeys
    have hmerged : ∀ (i : Nat) w, (mergeSupport p.defaultWeight 0 count p.entries)[i]? = some w →
        Reads p.entries p.defaultWeight i w := fun i w hw => by
      have hread := hreads i w hw
      rw [Nat.zero_add] at hread
      exact hread
    have husable : ∀ w ∈ mergeSupport p.defaultWeight 0 count p.entries, usable fl w = true := by
      intro w hw
      obtain ⟨i, hi⟩ := List.mem_iff_getElem?.mp hw
      exact reads_usable h (hmerged i w hi)
    rw [if_neg (fun hd => dense_ne_sparse (hd.symm.trans hrep)), if_neg (not_not.mpr hrep),
      if_neg (not_not.mpr hsizes), if_pos (hsorted.imp fun hlt => le_of_lt hlt)]
    dsimp only
    rw [← WeightPacket.entries, if_neg (any_negative husable),
      hshows.unique h.toShaped (shows_sparse hrep hshows.fits hlength hmerged)]

theorem length_of_resolveCombineInput (hrep : p.representation = "dense")
    (hresolve : resolveCombineInput fl p count = some field) : p.values.length = count := by
  unfold resolveCombineInput at hresolve
  rw [if_pos hrep] at hresolve
  by_contra hne
  rw [if_pos hne] at hresolve
  cases hresolve

end

end RigExec.Weights
