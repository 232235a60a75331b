/-
# `RigExec.Standalone.TimeKeys` — the textual identity of a time

A finite time has one text: `exact:` or `pre:`, and the sixteen digits of its bits, a negative zero
as zero.  Three readers take such texts apart.  The system and the pack read the digits and write
them again; the database looks at the bits.  All three accept `IsKey`.

    system      `time`            the text written again is the text that was read
    pack        `validIdentity`   the same, without the time
    database    `identityFault`   the bits are finite, and no negative zero

`UsdTimeCode` is a parameter, with what its documentation says of it.
-/
import RigExec.Lib.Hex
import Mathlib.Data.BitVec

namespace RigExec.Standalone

open Lib

/-! ## Doubles -/

/-- `std::isfinite`, by the bits. -/
def isFinite (bits : BitVec 64) : Bool := bits.extractLsb' 52 11 != 0x7ff#11

/-- `value == 0`, by the bits: the sign is not looked at. -/
def isZero (bits : BitVec 64) : Bool := bits.extractLsb' 0 63 == 0#63

/-- `if (value == 0) value = 0`. -/
def unsigned (bits : BitVec 64) : BitVec 64 := if isZero bits then 0 else bits

/-! ## Time codes -/

/-- `UsdTimeCode`: the default time, or a number, taken at its time or before it. -/
structure TimeCodes (Time : Type) where
  /-- `Default()`. -/
  default : Time
  /-- `UsdTimeCode(double)`. -/
  ofDouble : BitVec 64 → Time
  preTime : BitVec 64 → Time
  isDefault : Time → Bool
  isPreTime : Time → Bool
  getValue : Time → BitVec 64
  isDefault_default : isDefault default = true
  finite_ofDouble : ∀ v, isFinite v = true → isDefault (ofDouble v) = false
  finite_preTime : ∀ v, isFinite v = true → isDefault (preTime v) = false
  numeric_ofDouble : ∀ v, isDefault (ofDouble v) = false →
    getValue (ofDouble v) = v ∧ isPreTime (ofDouble v) = false
  numeric_preTime : ∀ v, isDefault (preTime v) = false →
    getValue (preTime v) = v ∧ isPreTime (preTime v) = true
  /-- A number and its mark are all there is to a time. -/
  numeric : ∀ t, isDefault t = false →
    t = if isPreTime t then preTime (getValue t) else ofDouble (getValue t)

/-! ## The text -/

/-- `key.rfind("pre:",0)==0?4:key.rfind("exact:",0)==0?6:0`. -/
def headLength (key : String) : Nat :=
  if "pre:".toList.isPrefixOf key.toList then 4
  else if "exact:".toList.isPrefixOf key.toList then 6 else 0

/-- The digits, read as `uint64_t`. -/
def bitsOf (digits : List Char) : BitVec 64 := BitVec.ofNat 64 (readHex digits)

/-- What `Validate` finds wrong with an exported identity. -/
def identityFault (identity : String) : Option String :=
  if identity = "default" then none
  else
    let head := if "exact:".toList.isPrefixOf identity.toList then 6
      else if "pre:".toList.isPrefixOf identity.toList then 4 else 0
    let digits := identity.toList.drop head
    if head = 0 ∨ identity.length ≠ head + 16 ∨ digits.any (fun c => decide (c ∉ hexAlphabet)) then
      some ("malformed exported time identity " ++ identity)
    else if !isFinite (bitsOf digits) || (isZero (bitsOf digits) && bitsOf digits != 0) then
      some ("noncanonical exported time identity " ++ identity)
    else none

namespace TimeCodes

variable {Time : Type} (codes : TimeCodes Time)

/-- `RigExecStandaloneTimeKey`. -/
def timeKey (t : Time) : String :=
  if codes.isDefault t then "default"
  else if isFinite (codes.getValue t) then
    (if codes.isPreTime t then "pre:" else "exact:") ++
      String.ofList (hexDigits 16 (unsigned (codes.getValue t)).toNat)
  else ""

/-- The time that the bits of a key stand for. -/
def timeOf (head : Nat) (bits : BitVec 64) : Time :=
  if head = 4 then codes.preTime bits else codes.ofDouble bits

/-- `Time`, of the system. -/
def time (key : String) : Option Time :=
  if key = "default" then some codes.default
  else
    let head := headLength key
    let digits := key.toList.drop head
    if head = 0 ∨ key.length ≠ head + 16 then none
    else if digits.any fun c => !isHexDigit c then none
    else
      let t := codes.timeOf head (bitsOf digits)
      if codes.timeKey t = key then some t else none

/-- `ValidIdentity`, of the pack. -/
def validIdentity (key : String) : Bool :=
  if key = "default" then true
  else
    let head := headLength key
    let digits := key.toList.drop head
    if head = 0 ∨ key.length ≠ head + 16 then false
    else if digits.any fun c => !isHexDigit c then false
    else codes.timeKey (codes.timeOf head (bitsOf digits)) == key

/-! ## What a text says -/

/-- A finite time. -/
def IsFinite (t : Time) : Prop := codes.isDefault t = false ∧ isFinite (codes.getValue t) = true

/-- Times that differ in the sign of a zero at most. -/
def SameTime (t t' : Time) : Prop :=
  codes.isPreTime t = codes.isPreTime t' ∧
    unsigned (codes.getValue t) = unsigned (codes.getValue t')

/-- The default key, or the key of a finite time. -/
def IsKey (key : String) : Prop :=
  key = "default" ∨ ∃ t, codes.IsFinite t ∧ codes.timeKey t = key

end TimeCodes

/-! ## Keys that are spelled -/

/-- The key of some bits. -/
def spelled (pre : Bool) (bits : BitVec 64) : String :=
  (if pre then "pre:" else "exact:") ++ String.ofList (hexDigits 16 bits.toNat)

/-- The length of a head. -/
def headOf (pre : Bool) : Nat := if pre then 4 else 6

/-- A key is a head and sixteen digits. -/
structure Reads (key : String) : Prop where
  head : headLength key ≠ 0
  length : key.length = headLength key + 16
  digits : ∀ c ∈ key.toList.drop (headLength key), isHexDigit c = true

section Spelled

variable {pre pre' : Bool} {bits bits' : BitVec 64} {key : String}

theorem toList_spelled : (spelled pre bits).toList =
    (if pre then "pre:" else "exact:").toList ++ hexDigits 16 bits.toNat := by
  rw [spelled, String.toList_append, String.toList_ofList]

theorem headLength_spelled : headLength (spelled pre bits) = headOf pre := by
  rw [headLength, toList_spelled]
  cases pre <;> rfl

theorem length_head : (if pre then "pre:" else "exact:").toList.length = headOf pre := by
  cases pre <;> rfl

theorem drop_spelled : (spelled pre bits).toList.drop (headOf pre) = hexDigits 16 bits.toNat := by
  rw [toList_spelled]
  exact List.drop_left' length_head

theorem bitsOf_hexDigits : bitsOf (hexDigits 16 bits.toNat) = bits := by
  rw [bitsOf, readHex_hexDigits (show bits.toNat < hexSpan 16 from bits.isLt)]
  refine BitVec.eq_of_toNat_eq ?_
  rw [BitVec.toNat_ofNat, Nat.mod_eq_of_lt bits.isLt]

theorem reads_spelled : Reads (spelled pre bits) where
  head := by
    rw [headLength_spelled]
    cases pre <;> decide
  length := by
    rw [headLength_spelled, ← String.length_toList, toList_spelled, List.length_append,
      length_hexDigits, length_head]
  digits c hc := by
    rw [headLength_spelled, drop_spelled] at hc
    exact isHexDigit_of_mem_hexDigits hc

theorem spelled_ne_default : spelled pre bits ≠ "default" := by
  intro h
  have hhead := congrArg headLength h
  rw [headLength_spelled] at hhead
  cases pre <;> exact absurd hhead (by decide)

theorem spelled_injective (h : spelled pre bits = spelled pre' bits') :
    pre = pre' ∧ bits = bits' := by
  have hhead := congrArg headLength h
  rw [headLength_spelled, headLength_spelled] at hhead
  have hpre : pre = pre' := by
    cases pre <;> cases pre' <;> first | rfl | exact absurd hhead (by decide)
  subst hpre
  refine ⟨rfl, ?_⟩
  rw [← @bitsOf_hexDigits bits, ← @bitsOf_hexDigits bits', ← @drop_spelled pre bits,
    ← @drop_spelled pre bits', h]

theorem Reads.eq_spelled (h : Reads key) :
    key = spelled (decide (headLength key = 4)) (bitsOf (key.toList.drop (headLength key))) := by
  have hcount : (key.toList.drop (headLength key)).length = 16 := by
    rw [List.length_drop, String.length_toList, h.length]
    omega
  have hlt : readHex (key.toList.drop (headLength key)) < 1 <<< 64 := by
    have hspan := readHex_lt h.digits
    rw [hcount] at hspan
    exact hspan
  have hbits : (bitsOf (key.toList.drop (headLength key))).toNat =
      readHex (key.toList.drop (headLength key)) := by
    rw [bitsOf, BitVec.toNat_ofNat]
    exact Nat.mod_eq_of_lt hlt
  have hdigits : hexDigits 16 (bitsOf (key.toList.drop (headLength key))).toNat =
      key.toList.drop (headLength key) := by
    rw [hbits, ← hcount]
    exact hexDigits_readHex h.digits
  refine String.toList_inj.mp ?_
  rw [toList_spelled, hdigits]
  have hhead := h.head
  unfold headLength at hhead ⊢
  split
  · rename_i hpre
    obtain ⟨rest, hrest⟩ := List.isPrefixOf_iff_prefix.mp hpre
    rw [← hrest]
    rfl
  · split
    · rename_i hexact
      obtain ⟨rest, hrest⟩ := List.isPrefixOf_iff_prefix.mp hexact
      rw [← hrest]
      rfl
    · rename_i hpre hexact
      rw [if_neg hpre, if_neg hexact] at hhead
      exact absurd rfl hhead

end Spelled

/-! ## Canonical bits -/

/-- The bits that a key may spell. -/
structure Canonical (bits : BitVec 64) : Prop where
  finite : isFinite bits = true
  unsigned : unsigned bits = bits

section Canonical

variable {bits : BitVec 64}

theorem canonical_unsigned (h : isFinite bits = true) : Canonical (unsigned bits) := by
  unfold Standalone.unsigned
  split
  · exact ⟨rfl, rfl⟩
  · rename_i hzero
    exact ⟨h, if_neg hzero⟩

theorem canonical_iff : Canonical bits ↔
    ¬(!isFinite bits || (isZero bits && bits != 0)) = true := by
  rw [Bool.or_eq_true, Bool.not_eq_true', Bool.and_eq_true, bne_iff_ne]
  constructor
  · rintro ⟨hfinite, hunsigned⟩ (hinfinite | ⟨hzero, hne⟩)
    · rw [hfinite] at hinfinite
      cases hinfinite
    · rw [unsigned, if_pos hzero] at hunsigned
      exact hne hunsigned.symm
  · intro h
    push Not at h
    refine ⟨Bool.of_not_eq_false h.1, ?_⟩
    unfold unsigned
    split
    · rename_i hzero
      exact (h.2 hzero).symm
    · rfl

end Canonical

/-! ## The readers -/

section Readers

variable {Time : Type} (codes : TimeCodes Time) {pre : Bool} {bits : BitVec 64} {key : String}
  {t : Time}

theorem timeKey_finite (h : codes.IsFinite t) :
    codes.timeKey t = spelled (codes.isPreTime t) (unsigned (codes.getValue t)) := by
  rw [TimeCodes.timeKey, h.1, if_neg Bool.false_ne_true, if_pos h.2]
  rfl

/-- The time of some bits: the default one, or a number with these bits. -/
theorem timeOf_numeric (h : codes.isDefault (codes.timeOf (headOf pre) bits) = false) :
    codes.getValue (codes.timeOf (headOf pre) bits) = bits ∧
      codes.isPreTime (codes.timeOf (headOf pre) bits) = pre := by
  cases pre with
  | false => exact codes.numeric_ofDouble bits h
  | true => exact codes.numeric_preTime bits h

theorem isFinite_timeOf (h : isFinite bits = true) :
    codes.IsFinite (codes.timeOf (headOf pre) bits) := by
  have hdefault : codes.isDefault (codes.timeOf (headOf pre) bits) = false := by
    cases pre with
    | false => exact codes.finite_ofDouble bits h
    | true => exact codes.finite_preTime bits h
  refine ⟨hdefault, ?_⟩
  rw [(timeOf_numeric codes hdefault).1]
  exact h

theorem timeKey_timeOf : codes.timeKey (codes.timeOf (headOf pre) bits) = spelled pre bits ↔
    Canonical bits := by
  constructor
  · intro h
    cases hdefault : codes.isDefault (codes.timeOf (headOf pre) bits) with
    | true =>
        rw [TimeCodes.timeKey, if_pos hdefault] at h
        exact absurd h.symm spelled_ne_default
    | false =>
        obtain ⟨hvalue, hpre⟩ := timeOf_numeric codes hdefault
        by_cases hfinite : isFinite bits = true
        · rw [timeKey_finite codes (isFinite_timeOf codes hfinite), hvalue] at h
          exact ⟨hfinite, (spelled_injective h).2⟩
        · rw [TimeCodes.timeKey, hdefault, if_neg Bool.false_ne_true, hvalue, if_neg hfinite] at h
          have hhead := @headLength_spelled pre bits
          rw [← h] at hhead
          cases pre <;> exact absurd hhead (by decide)
  · rintro ⟨hfinite, hunsigned⟩
    have hnumeric := @isFinite_timeOf _ codes pre bits hfinite
    obtain ⟨hvalue, hpre⟩ := timeOf_numeric codes hnumeric.1
    rw [timeKey_finite codes hnumeric, hvalue, hpre, hunsigned]

theorem isKey_iff : codes.IsKey key ↔
    key = "default" ∨ ∃ pre bits, Canonical bits ∧ spelled pre bits = key := by
  refine or_congr_right ⟨?_, ?_⟩
  · rintro ⟨t, hfinite, rfl⟩
    exact ⟨_, _, canonical_unsigned hfinite.2, (timeKey_finite codes hfinite).symm⟩
  · rintro ⟨pre, bits, hcanonical, rfl⟩
    exact ⟨codes.timeOf (headOf pre) bits, isFinite_timeOf codes hcanonical.finite,
      (timeKey_timeOf codes).mpr hcanonical⟩

theorem reads_iff : Reads key ↔
    ¬(headLength key = 0 ∨ key.length ≠ headLength key + 16) ∧
      ¬((key.toList.drop (headLength key)).any fun c => !isHexDigit c) = true := by
  rw [not_or, not_not, List.any_eq_true]
  constructor
  · rintro ⟨hhead, hlength, hdigits⟩
    refine ⟨⟨hhead, hlength⟩, ?_⟩
    rintro ⟨c, hc, hnot⟩
    rw [hdigits c hc] at hnot
    cases hnot
  · rintro ⟨⟨hhead, hlength⟩, hdigits⟩
    refine ⟨hhead, hlength, fun c hc => ?_⟩
    by_contra hnot
    exact hdigits ⟨c, hc, (Bool.not_eq_true' _).mpr (eq_false_of_ne_true hnot)⟩

theorem written_iff : (key = "default" ∨ Reads key ∧ codes.timeKey
    (codes.timeOf (headLength key) (bitsOf (key.toList.drop (headLength key)))) = key) ↔
      codes.IsKey key := by
  rw [isKey_iff]
  refine or_congr_right ⟨?_, ?_⟩
  · rintro ⟨hreads, hwritten⟩
    obtain ⟨pre, bits, rfl⟩ : ∃ pre bits, key = spelled pre bits := ⟨_, _, hreads.eq_spelled⟩
    rw [headLength_spelled, drop_spelled, bitsOf_hexDigits] at hwritten
    exact ⟨pre, bits, (timeKey_timeOf codes).mp hwritten, rfl⟩
  · rintro ⟨pre, bits, hcanonical, rfl⟩
    refine ⟨reads_spelled, ?_⟩
    rw [headLength_spelled, drop_spelled, bitsOf_hexDigits]
    exact (timeKey_timeOf codes).mpr hcanonical

/-- **The system accepts the keys.** -/
theorem isSome_time : (codes.time key).isSome = true ↔ codes.IsKey key := by
  rw [← written_iff, reads_iff]
  unfold TimeCodes.time
  dsimp only
  split_ifs with hdefault hhead hdigits hwritten
  · exact iff_of_true rfl (.inl hdefault)
  · exact iff_of_false Bool.false_ne_true fun h => (h.resolve_left hdefault).1.1 hhead
  · exact iff_of_false Bool.false_ne_true fun h => (h.resolve_left hdefault).1.2 hdigits
  · exact iff_of_true rfl (.inr ⟨⟨hhead, hdigits⟩, hwritten⟩)
  · exact iff_of_false Bool.false_ne_true fun h => hwritten (h.resolve_left hdefault).2

/-- **The pack accepts the keys.** -/
theorem validIdentity_iff : codes.validIdentity key = true ↔ codes.IsKey key := by
  rw [← written_iff, reads_iff]
  unfold TimeCodes.validIdentity
  dsimp only
  split_ifs with hdefault hhead hdigits
  · exact iff_of_true rfl (.inl hdefault)
  · exact iff_of_false id fun h => (h.resolve_left hdefault).1.1 hhead
  · exact iff_of_false id fun h => (h.resolve_left hdefault).1.2 hdigits
  · rw [beq_iff_eq]
    exact ⟨fun hwritten => .inr ⟨⟨hhead, hdigits⟩, hwritten⟩,
      fun h => (h.resolve_left hdefault).2⟩

theorem headLength_eq : (if "exact:".toList.isPrefixOf key.toList then 6
    else if "pre:".toList.isPrefixOf key.toList then 4 else 0) = headLength key := by
  unfold headLength
  split_ifs with hexact hpre
  · obtain ⟨rest, hrest⟩ := List.isPrefixOf_iff_prefix.mp hexact
    obtain ⟨rest', hrest'⟩ := List.isPrefixOf_iff_prefix.mp hpre
    exact absurd (List.cons.inj (hrest.trans hrest'.symm)).1 (by decide)
  · rfl
  · rfl
  · rfl

/-- **The database accepts the keys.** -/
theorem identityFault_iff : identityFault key = none ↔ codes.IsKey key := by
  have hany : (key.toList.drop (headLength key)).any (fun c => decide (c ∉ hexAlphabet)) =
      (key.toList.drop (headLength key)).any fun c => !isHexDigit c := by
    refine congrArg (key.toList.drop (headLength key)).any (funext fun c => ?_)
    rw [Bool.eq_iff_iff, decide_eq_true_iff, Bool.not_eq_true', ← isHexDigit_iff,
      Bool.not_eq_true]
  have hreads : ¬(headLength key = 0 ∨ key.length ≠ headLength key + 16 ∨
      (key.toList.drop (headLength key)).any (fun c => !isHexDigit c) = true) ↔ Reads key := by
    rw [reads_iff, ← or_assoc, not_or]
  rw [isKey_iff]
  unfold identityFault
  dsimp only
  rw [headLength_eq, hany]
  split_ifs with hdefault hfault hbits
  · exact iff_of_true rfl (.inl hdefault)
  · refine iff_of_false id fun h => ?_
    obtain ⟨pre, bits, -, rfl⟩ := h.resolve_left hdefault
    exact hreads.mpr reads_spelled hfault
  · refine iff_of_false id fun h => ?_
    obtain ⟨pre, bits, hcanonical, rfl⟩ := h.resolve_left hdefault
    rw [headLength_spelled, drop_spelled, bitsOf_hexDigits] at hbits
    exact canonical_iff.mp hcanonical hbits
  · refine iff_of_true rfl (.inr ?_)
    exact ⟨_, _, canonical_iff.mpr hbits, (hreads.mp hfault).eq_spelled.symm⟩

/-! ## Agreement -/

theorem timeKey_eq_iff {t' : Time} (h : codes.IsFinite t) (h' : codes.IsFinite t') :
    codes.timeKey t = codes.timeKey t' ↔ codes.SameTime t t' := by
  rw [timeKey_finite codes h, timeKey_finite codes h']
  constructor
  · exact fun hsame => spelled_injective hsame
  · rintro ⟨hpre, hvalue⟩
    rw [hpre, hvalue]

theorem time_spelled (h : Canonical bits) :
    codes.time (spelled pre bits) = some (codes.timeOf (headOf pre) bits) := by
  obtain ⟨hhead, hdigits⟩ := (@reads_iff (spelled pre bits)).mp reads_spelled
  have hwritten := (@timeKey_timeOf _ codes pre bits).mpr h
  unfold TimeCodes.time
  dsimp only
  rw [if_neg spelled_ne_default, if_neg hhead, if_neg hdigits, headLength_spelled, drop_spelled,
    bitsOf_hexDigits, if_pos hwritten]

theorem time_timeKey (h : codes.IsFinite t) : ∃ t', codes.time (codes.timeKey t) = some t' ∧
    codes.SameTime t' t ∧ (unsigned (codes.getValue t) = codes.getValue t → t' = t) := by
  have hcanonical := canonical_unsigned h.2
  have hnumeric := @isFinite_timeOf _ codes (codes.isPreTime t) _ hcanonical.finite
  obtain ⟨hvalue, hpre⟩ := timeOf_numeric codes hnumeric.1
  refine ⟨_, (timeKey_finite codes h).symm ▸ time_spelled codes hcanonical, ⟨hpre, ?_⟩, ?_⟩
  · rw [hvalue, hcanonical.unsigned]
  · intro hsign
    rw [hsign]
    conv => rhs; rw [codes.numeric t h.1]
    cases codes.isPreTime t <;> rfl

end Readers

/-- **Standalone time identities agree.**  The key of a finite time is its own, up to the sign of a
zero; the system reads it back as that time; and the system, the pack and the database accept the
same texts, the default key and the keys of the finite times. -/
theorem timeKeys_agree {Time : Type} (codes : TimeCodes Time) :
    (∀ t t', codes.IsFinite t → codes.IsFinite t' →
      (codes.timeKey t = codes.timeKey t' ↔ codes.SameTime t t')) ∧
    (∀ t, codes.IsFinite t → ∃ t', codes.time (codes.timeKey t) = some t' ∧
      codes.SameTime t' t ∧ (unsigned (codes.getValue t) = codes.getValue t → t' = t)) ∧
    ∀ key, ((codes.time key).isSome = true ↔ codes.IsKey key) ∧
      (codes.validIdentity key = true ↔ codes.IsKey key) ∧
      (identityFault key = none ↔ codes.IsKey key) :=
  ⟨fun _ _ h h' => timeKey_eq_iff codes h h', fun _ h => time_timeKey codes h,
    fun _ => ⟨isSome_time codes, validIdentity_iff codes, identityFault_iff codes⟩⟩

/-! ## Times as they are stored -/

/-- A mark and a double; the default time is not a number. -/
def storedTimes : TimeCodes (Bool × BitVec 64) where
  default := (false, 0x7ff8000000000000)
  ofDouble v := (false, v)
  preTime v := (true, v)
  isDefault t := !isFinite t.2 && t.2.extractLsb' 0 52 != 0#52
  isPreTime t := t.1
  getValue t := t.2
  isDefault_default := by decide
  finite_ofDouble v h := by rw [h]; rfl
  finite_preTime v h := by rw [h]; rfl
  numeric_ofDouble _ _ := ⟨rfl, rfl⟩
  numeric_preTime _ _ := ⟨rfl, rfl⟩
  numeric t _ := by
    obtain ⟨pre, v⟩ := t
    cases pre <;> rfl

/-- One half, and zero with its sign. -/
theorem timeKeys_agree_half :
    storedTimes.timeKey (false, 0x3fe0000000000000) = "exact:3fe0000000000000" ∧
      storedTimes.timeKey (true, 0x8000000000000000) = "pre:0000000000000000" ∧
      (storedTimes.IsKey "exact:8000000000000000" ↔
        identityFault "exact:8000000000000000" = none) :=
  ⟨by decide, by decide, ((timeKeys_agree storedTimes).2.2 _).2.2.symm⟩

end RigExec.Standalone
