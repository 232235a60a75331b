/-
# `RigExec.Lib.Hex` — numbers as lowercase hexadecimal digits

`hexDigits k v` are the last `k` digits of `v`, the highest first, and `readHex` reads digits back.
On `k` digits the two are inverse to each other: a number below `hexSpan k` has one text, and a text of
lowercase digits has one number (`readHex_hexDigits`, `hexDigits_readHex`).
-/
import Mathlib.Data.List.Induction
import Mathlib.Data.Nat.Basic

namespace Lib

/-- The digits, by their values. -/
def hexAlphabet : List Char := "0123456789abcdef".toList

/-- The last `k` digits of a number. -/
def hexDigits : Nat → Nat → List Char
  | 0, _ => []
  | k + 1, v => hexDigits k (v / 16) ++ [Nat.digitChar (v % 16)]

/-- How many numbers `k` digits have. -/
def hexSpan : Nat → Nat
  | 0 => 1
  | k + 1 => hexSpan k * 16

/-- A lowercase digit, by its place among the characters. -/
def isHexDigit (c : Char) : Bool :=
  ('0' ≤ c && c ≤ '9') || ('a' ≤ c && c ≤ 'f')

/-- The value of a digit. -/
def hexValue (c : Char) : Nat :=
  if c ≤ '9' then c.toNat - '0'.toNat else c.toNat - 'a'.toNat + 10

/-- One more digit. -/
def readDigit (v : Nat) (c : Char) : Nat := v * 16 + hexValue c

/-- The number of a text of digits. -/
def readHex (digits : List Char) : Nat := digits.foldl readDigit 0

/-! ## Digits -/

theorem hexDigit_spec : ∀ d < 16, Nat.digitChar d ∈ hexAlphabet ∧ isHexDigit (Nat.digitChar d) = true ∧
    hexValue (Nat.digitChar d) = d := by
  decide

theorem hexValue_spec : ∀ n < 103, isHexDigit (Char.ofNat n) = true →
    hexValue (Char.ofNat n) < 16 ∧ Nat.digitChar (hexValue (Char.ofNat n)) = Char.ofNat n := by
  decide

variable {c : Char} {digits : List Char} {k v : Nat}

theorem digitChar_hexValue (h : isHexDigit c = true) :
    hexValue c < 16 ∧ Nat.digitChar (hexValue c) = c := by
  have hbound : c.toNat < 103 := by
    simp only [isHexDigit, Bool.or_eq_true, Bool.and_eq_true, decide_eq_true_eq, Char.le_def,
      UInt32.le_iff_toNat_le] at h
    show c.val.toNat < 103
    rcases h with ⟨-, h⟩ | ⟨-, h⟩
    · exact Nat.lt_of_le_of_lt h (by decide)
    · exact Nat.lt_of_le_of_lt h (by decide)
  have hspec := hexValue_spec c.toNat hbound
  rw [Char.ofNat_toNat] at hspec
  exact hspec h

theorem isHexDigit_iff : isHexDigit c = true ↔ c ∈ hexAlphabet := by
  constructor
  · intro h
    obtain ⟨hlt, heq⟩ := digitChar_hexValue h
    exact heq ▸ (hexDigit_spec _ hlt).1
  · exact List.all_eq_true.mp (by decide : hexAlphabet.all isHexDigit = true) c

/-! ## Texts -/

theorem length_hexDigits (k v : Nat) : (hexDigits k v).length = k := by
  induction k generalizing v with
  | zero => rfl
  | succ k ih => rw [hexDigits, List.length_append, ih, List.length_singleton]

theorem isHexDigit_of_mem_hexDigits (h : c ∈ hexDigits k v) : isHexDigit c = true := by
  induction k generalizing v with
  | zero => exact absurd h List.not_mem_nil
  | succ k ih =>
      rcases List.mem_append.mp h with hfront | hlast
      · exact ih hfront
      · rw [List.mem_singleton.mp hlast]
        exact (hexDigit_spec _ (Nat.mod_lt _ (by decide))).2.1

theorem readHex_append (digits : List Char) (c : Char) :
    readHex (digits ++ [c]) = readHex digits * 16 + hexValue c := by
  rw [readHex, List.foldl_append]
  rfl

theorem readHex_hexDigits (h : v < hexSpan k) : readHex (hexDigits k v) = v := by
  induction k generalizing v with
  | zero =>
      rw [Nat.lt_one_iff.mp h]
      rfl
  | succ k ih =>
      have hquotient : v / 16 < hexSpan k := Nat.div_lt_of_lt_mul (Nat.mul_comm _ 16 ▸ h)
      rw [hexDigits, readHex_append, ih hquotient,
        (hexDigit_spec _ (Nat.mod_lt _ (by decide))).2.2]
      exact Nat.div_add_mod' v 16

theorem readHex_lt (h : ∀ c ∈ digits, isHexDigit c = true) :
    readHex digits < hexSpan digits.length := by
  induction digits using List.reverseRecOn with
  | nil => decide
  | append_singleton digits c ih =>
      have hfront := ih fun d hd => h d (List.mem_append_left _ hd)
      have hlast := (digitChar_hexValue (h c (List.mem_append_right _ List.mem_cons_self))).1
      rw [readHex_append, List.length_append, List.length_singleton, hexSpan]
      omega

theorem hexDigits_readHex (h : ∀ c ∈ digits, isHexDigit c = true) :
    hexDigits digits.length (readHex digits) = digits := by
  induction digits using List.reverseRecOn with
  | nil => rfl
  | append_singleton digits c ih =>
      have hfront := ih fun d hd => h d (List.mem_append_left _ hd)
      obtain ⟨hlt, hlast⟩ := digitChar_hexValue (h c (List.mem_append_right _ List.mem_cons_self))
      rw [List.length_append, List.length_singleton, hexDigits, readHex_append]
      have hquotient : (readHex digits * 16 + hexValue c) / 16 = readHex digits := by omega
      have hremainder : (readHex digits * 16 + hexValue c) % 16 = hexValue c := by omega
      rw [hquotient, hremainder, hfront, hlast]

end Lib
