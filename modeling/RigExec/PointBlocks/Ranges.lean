/-
# `RigExec.PointBlocks.Ranges` — the ranges of a point chain

A build cuts a chain into ranges of equal size, the last ones shorter or empty.  A run applies to
some other count of points: it clips every range to it, and lets the last one run to its end.  The
bounds ascend from zero, so each range begins where the one before it ends (`rangeAt_next`), and
what the ranges list one after another is `[0, count)` (`ranges_cover`).

A range is published by copying the blocks of it whose bytes differ (`copyMovedRange`).
-/
import Mathlib.Order.Monotone.Basic
import Mathlib.Data.Int.Order.Basic

namespace RigExec.PointBlocks

/-! ## Bounds -/

/-- `size_t` arithmetic. -/
def sizeT (n : Nat) : Nat := n % (1 <<< 64)

/-- `int(n)`, of a `size_t`. -/
def intOf (n : Nat) : Int := (BitVec.ofNat 32 n).toInt

/-- `(n + size - 1) / size`. -/
def roundedUp (n size : Nat) : Nat := sizeT (sizeT (n + size) + (1 <<< 64) - 1) / size

def pointRangeCount (points target cap : Nat) : Nat :=
  let target := max target 1
  let cap := max cap 1
  max 1 (min (roundedUp points target) cap)

def pointRangeBound (points ranges k : Nat) : Nat :=
  let size := if ranges ≠ 0 then roundedUp points ranges else points
  min points (sizeT (k * size))

def pointRangeAt (buildBegin buildEnd : Int) (last : Bool) (count : Nat) : Nat × Nat :=
  let first := min (max buildBegin 0).toNat count
  let limit := if last then count else min (max buildEnd 0).toNat count
  (first, if limit < first then first else limit)

/-- `groupBounds[k]`. -/
def groupBound (points ranges k : Nat) : Int := intOf (pointRangeBound points ranges k)

/-- The range `k` of a chain, of the points that a run applies to. -/
def groupRange (points ranges count k : Nat) : Nat × Nat :=
  pointRangeAt (groupBound points ranges k) (groupBound points ranges (k + 1))
    (decide (k + 1 = ranges)) count

/-! ## Arithmetic that does not overflow -/

section Bounds

variable {points target cap ranges count k : Nat}

theorem roundedUp_eq {n size : Nat} (hn : n < 1 <<< 31) (hpos : 0 < size) (hsize : size < 1 <<< 31)
    :
    roundedUp n size = (n + size - 1) / size := by
  have hexact : sizeT (sizeT (n + size) + (1 <<< 64) - 1) = n + size - 1 := by
    simp only [sizeT, Nat.reduceShiftLeft] at *
    omega
  rw [roundedUp, hexact]

theorem pointRangeCount_bounds (hcap : cap < 1 <<< 31) :
    0 < pointRangeCount points target cap ∧ pointRangeCount points target cap < 1 <<< 31 := by
  unfold pointRangeCount
  dsimp only
  omega

theorem intOf_eq {n : Nat} (hn : n < 1 <<< 31) : intOf n = n := by
  unfold intOf
  rw [BitVec.toInt_eq_toNat_of_lt, BitVec.toNat_ofNat, Nat.mod_eq_of_lt]
  · omega
  · rw [BitVec.toNat_ofNat]
    omega

/-- The bound `k` of `ranges` equal ranges. -/
def equalBound (points ranges k : Nat) : Nat := min points (k * ((points + ranges - 1) / ranges))

theorem groupBound_eq (hpoints : points < 1 <<< 31) (hpos : 0 < ranges)
    (hranges : ranges < 1 <<< 31) (hk : k ≤ ranges) :
    groupBound points ranges k = equalBound points ranges k := by
  have hsize : (points + ranges - 1) / ranges ≤ points + ranges - 1 := Nat.div_le_self _ _
  have hproduct : k * ((points + ranges - 1) / ranges) < 1 <<< 64 := by
    calc k * ((points + ranges - 1) / ranges)
        ≤ (1 <<< 31) * (1 <<< 32) := Nat.mul_le_mul (hk.trans hranges.le) (by
          simp only [Nat.reduceShiftLeft] at *
          omega)
      _ < 1 <<< 64 := by decide
  have hbound : pointRangeBound points ranges k = equalBound points ranges k := by
    unfold pointRangeBound equalBound sizeT
    dsimp only
    rw [if_pos (Nat.pos_iff_ne_zero.mp hpos), roundedUp_eq hpoints hpos hranges,
      Nat.mod_eq_of_lt hproduct]
  rw [groupBound, hbound, intOf_eq]
  exact Nat.lt_of_le_of_lt (Nat.min_le_left _ _) hpoints

theorem equalBound_zero : equalBound points ranges 0 = 0 := by
  rw [equalBound, Nat.zero_mul, Nat.min_zero]

theorem equalBound_mono : Monotone (equalBound points ranges) := by
  intro a b h
  have hproduct := Nat.mul_le_mul_right ((points + ranges - 1) / ranges) h
  unfold equalBound
  omega

/-! ## The ranges of a run -/

/-- Where the range `k` of a run begins; after the last one, where the points end. -/
def rangeStart (points ranges count k : Nat) : Nat :=
  if k < ranges then min (equalBound points ranges k) count else count

theorem rangeStart_mono : Monotone (rangeStart points ranges count) := by
  intro a b h
  unfold rangeStart
  split
  · split
    · have hbound := @equalBound_mono points ranges a b h
      omega
    · exact Nat.min_le_right _ _
  · rename_i ha
    rw [if_neg (fun hb => ha (Nat.lt_of_le_of_lt h hb))]

/-- **A range begins where the one before it ends.** -/
theorem groupRange_eq (hpoints : points < 1 <<< 31) (hranges : ranges < 1 <<< 31)
    (hk : k < ranges) : groupRange points ranges count k =
      (rangeStart points ranges count k, rangeStart points ranges count (k + 1)) := by
  have hpos : 0 < ranges := Nat.lt_of_le_of_lt (Nat.zero_le k) hk
  have hnext := @rangeStart_mono points ranges count k (k + 1) (Nat.le_succ k)
  unfold groupRange pointRangeAt
  rw [groupBound_eq hpoints hpos hranges hk.le, groupBound_eq hpoints hpos hranges hk,
    Int.max_eq_left (Int.natCast_nonneg _), Int.max_eq_left (Int.natCast_nonneg _),
    Int.toNat_natCast, Int.toNat_natCast]
  dsimp only
  have hfirst : min (equalBound points ranges k) count = rangeStart points ranges count k :=
    (if_pos hk).symm
  have hlimit : (if decide (k + 1 = ranges) = true then count
      else min (equalBound points ranges (k + 1)) count) =
        rangeStart points ranges count (k + 1) := by
    unfold rangeStart
    split
    · rename_i hlast
      rw [if_neg (fun hlt => hlt.ne (of_decide_eq_true hlast))]
    · rename_i hinner
      rw [if_pos (Nat.lt_of_le_of_ne hk fun hlast => hinner (decide_eq_true hlast))]
  rw [hfirst, hlimit, if_neg (Nat.not_lt.mpr hnext)]

theorem flatMap_intervals {f : Nat → Nat} (hmono : Monotone f) (hzero : f 0 = 0) (n : Nat) :
    ((List.range n).flatMap fun k => List.range' (f k) (f (k + 1) - f k)) =
      List.range (f n) := by
  induction n with
  | zero =>
      rw [hzero]
      rfl
  | succ n ih =>
      have hstep := hmono (Nat.le_succ n)
      rw [List.range_succ, List.flatMap_append, ih, List.flatMap_singleton, List.range_eq_range',
        List.range_eq_range']
      have happend := @List.range'_append_1 0 (f n) (f (n + 1) - f n)
      rw [Nat.zero_add, Nat.add_sub_of_le hstep] at happend
      exact happend

/-- **The ranges of a run partition its points**, however many it has. -/
theorem groupRanges_partition (hpoints : points < 1 <<< 31) (hpos : 0 < ranges)
    (hranges : ranges < 1 <<< 31) (count : Nat) :
    ((List.range ranges).flatMap fun k =>
        List.range' (groupRange points ranges count k).1
          ((groupRange points ranges count k).2 - (groupRange points ranges count k).1)) =
      List.range count := by
  have hzero : rangeStart points ranges count 0 = 0 := by
    rw [rangeStart, if_pos hpos, equalBound_zero, Nat.zero_min]
  have hend : rangeStart points ranges count ranges = count := if_neg (Nat.lt_irrefl _)
  have hintervals := flatMap_intervals (@rangeStart_mono points ranges count) hzero ranges
  rw [hend] at hintervals
  rw [← hintervals, List.flatMap_def, List.flatMap_def]
  refine congrArg List.flatten (List.map_congr_left fun k hk => ?_)
  rw [groupRange_eq hpoints hranges (List.mem_range.mp hk)]

end Bounds

/-! ## Copying what moved -/

section Copy

variable {Point : Type}

/-- The block at `first` of two arrays of `n` points: compared, and copied where they differ. -/
def copyBlock [DecidableEq Point] (input : Nat → Point) (n first : Nat) (st : (Nat → Point) × Bool)
    :
    (Nat → Point) × Bool :=
  let m := min 1024 (n - first)
  if (List.range' first m).all fun i => decide (input i = st.1 i) then st
  else (fun i => if first ≤ i ∧ i < first + m then input i else st.1 i, true)

/-- The blocks from `first` on. -/
def copyBlocks [DecidableEq Point] (input : Nat → Point) (n first : Nat) (st : (Nat → Point) × Bool)
    :
    (Nat → Point) × Bool :=
  if first < n then copyBlocks input n (first + 1024) (copyBlock input n first st) else st
termination_by n - first
decreasing_by omega

/-- `RigExecCopyMovedRange`, of points that are equal where their bytes are: the output, and
whether any block moved. -/
def copyMovedRange [DecidableEq Point] (input output : Nat → Point) (n : Nat)
    : (Nat → Point) × Bool :=
  copyBlocks input n 0 (output, false)

variable {input output : Nat → Point} {n first : Nat} {moved : Bool}

/-- What a copy from `first` up to `limit` leaves. -/
structure Copied (input output : Nat → Point) (moved : Bool) (first limit : Nat)
    (st : (Nat → Point) × Bool) : Prop where
  copy : ∀ i, st.1 i = if first ≤ i ∧ i < limit then input i else output i
  reported : st.2 = true ↔ moved = true ∨ ∃ i, first ≤ i ∧ i < limit ∧ input i ≠ output i

theorem copied_block [DecidableEq Point] : Copied input output moved first (min n (first + 1024))
    (copyBlock input n first (output, moved)) := by
  have hlimit : ∀ i, (first ≤ i ∧ i < first + min 1024 (n - first)) ↔
      (first ≤ i ∧ i < min n (first + 1024)) := by
    intro i
    omega
  unfold copyBlock
  dsimp only
  split
  · rename_i hsame
    rw [List.all_eq_true] at hsame
    have hequal : ∀ i, first ≤ i → i < min n (first + 1024) → input i = output i := by
      intro i hfirst hlast
      exact of_decide_eq_true (hsame i (List.mem_range'_1.mpr ((hlimit i).mpr ⟨hfirst, hlast⟩)))
    refine ⟨fun i => ?_, ?_⟩
    · split
      · rename_i hin
        exact (hequal i hin.1 hin.2).symm
      · rfl
    · refine (or_iff_left ?_).symm
      rintro ⟨i, hfirst, hlast, hne⟩
      exact hne (hequal i hfirst hlast)
  · rename_i hdiffers
    refine ⟨fun i => if_congr (hlimit i) rfl rfl, iff_of_true rfl (.inr ?_)⟩
    rw [List.all_eq_true] at hdiffers
    push Not at hdiffers
    obtain ⟨i, hmem, hne⟩ := hdiffers
    obtain ⟨hfirst, hlast⟩ := (hlimit i).mp (List.mem_range'_1.mp hmem)
    exact ⟨i, hfirst, hlast, fun heq => hne (decide_eq_true heq)⟩

/-- **Step lemma.**  One block, then the blocks after it. -/
theorem Copied.trans {middle limit : Nat} {st st' : (Nat → Point) × Bool} (hfirst : first ≤ middle)
    (hmiddle : middle ≤ limit) (hblock : Copied input output moved first middle st)
    (hrest : Copied input st.1 st.2 middle limit st') :
    Copied input output moved first limit st' where
  copy i := by
    rw [hrest.copy i, hblock.copy i]
    by_cases hin : middle ≤ i ∧ i < limit
    · rw [if_pos hin, if_pos ⟨hfirst.trans hin.1, hin.2⟩]
    · rw [if_neg hin]
      refine if_congr ?_ rfl rfl
      omega
  reported := by
    rw [hrest.reported, hblock.reported, or_assoc]
    refine or_congr_right ?_
    constructor
    · rintro (⟨i, hge, hlt, hne⟩ | ⟨i, hge, hlt, hne⟩)
      · exact ⟨i, hge, hlt.trans_le hmiddle, hne⟩
      · rw [hblock.copy i, if_neg (fun hin => absurd hin.2 (Nat.not_lt.mpr hge))] at hne
        exact ⟨i, hfirst.trans hge, hlt, hne⟩
    · rintro ⟨i, hge, hlt, hne⟩
      by_cases hin : i < middle
      · exact .inl ⟨i, hge, hin, hne⟩
      · refine .inr ⟨i, Nat.le_of_not_lt hin, hlt, ?_⟩
        rw [hblock.copy i, if_neg (fun h => hin h.2)]
        exact hne

/-- **Run lemma.** -/
theorem copied_blocks [DecidableEq Point] (hfirst : first ≤ n) : Copied input output moved first n
    (copyBlocks input n first (output, moved)) := by
  generalize hst : (output, moved) = st
  induction first, st using copyBlocks.induct input n generalizing output moved with
  | case1 first st hlt ih =>
      subst hst
      rw [copyBlocks, if_pos hlt]
      have hblock := @copied_block Point input output n first moved _
      rcases Nat.le_total (first + 1024) n with hmore | hlast
      · rw [Nat.min_eq_right hmore] at hblock
        exact hblock.trans (Nat.le_add_right _ _) hmore (ih hmore rfl)
      · rw [Nat.min_eq_left hlast] at hblock
        rw [copyBlocks, if_neg (Nat.not_lt.mpr hlast)]
        exact hblock
  | case2 first st hge =>
      subst hst
      rw [copyBlocks, if_neg hge]
      refine ⟨fun i => ?_, (or_iff_left ?_).symm⟩
      · rw [if_neg]
        omega
      · rintro ⟨i, hfirst, hlast, -⟩
        omega

theorem copied_movedRange [DecidableEq Point] (input output : Nat → Point) (n : Nat) :
    Copied input output false 0 n (copyMovedRange input output n) :=
  copied_blocks (Nat.zero_le n)

end Copy

/-- **Point ranges partition every run.**  For every build count, target and cap the ranges, clipped
to whatever count a run has, list `[0, count)` once and in order; and publishing a range leaves the
output equal to the input, and reports a move exactly where they differed. -/
theorem pointRanges_partition {Point : Type} [DecidableEq Point] {points target cap : Nat}
    (hpoints : points < 1 <<< 31) (hcap : cap < 1 <<< 31) :
    (∀ count, ((List.range (pointRangeCount points target cap)).flatMap fun k =>
        let range := groupRange points (pointRangeCount points target cap) count k
        List.range' range.1 (range.2 - range.1)) = List.range count) ∧
      ∀ (input output : Nat → Point) (n : Nat),
        (∀ i < n, (copyMovedRange input output n).1 i = input i) ∧
          ((copyMovedRange input output n).2 = true ↔ ∃ i < n, input i ≠ output i) := by
  obtain ⟨hpos, hranges⟩ := @pointRangeCount_bounds points target cap hcap
  refine ⟨fun count => groupRanges_partition hpoints hpos hranges count, fun input output n => ?_⟩
  have hcopied := copied_movedRange input output n
  refine ⟨fun i hi => ?_, ?_⟩
  · rw [hcopied.copy i, if_pos ⟨Nat.zero_le i, hi⟩]
  · rw [hcopied.reported]
    constructor
    · rintro (hfalse | ⟨i, -, hi, hne⟩)
      · exact Bool.noConfusion hfalse
      · exact ⟨i, hi, hne⟩
    · rintro ⟨i, hi, hne⟩
      exact .inr ⟨i, Nat.zero_le i, hi, hne⟩

/-- Four points in three ranges leave the last one empty; a run of seven stretches it. -/
theorem pointRanges_partition_seven :
    pointRangeCount 4 1 3 = 3 ∧ groupRange 4 3 7 2 = (4, 7) ∧
      ((List.range (pointRangeCount 4 1 3)).flatMap fun k =>
        let range := groupRange 4 (pointRangeCount 4 1 3) 7 k
        List.range' range.1 (range.2 - range.1)) = List.range 7 :=
  ⟨by decide, by decide,
    (@pointRanges_partition Nat _ 4 1 3 (by decide) (by decide)).1 7⟩

end RigExec.PointBlocks
