/-
# `RigExec.Lib.Bytes` — fields of a byte buffer

A buffer is a list of bytes.  A field is the run of bytes at an offset, and a write replaces one
field and leaves every field disjoint from it as it was.  A little-endian number is read back
from the bytes it was written to as its remainder at their width.
-/
import Mathlib.Data.List.Basic
import Mathlib.Data.Nat.Bitwise

namespace Lib

/-- A byte string. -/
abbrev Bytes := List UInt8

/-- The `n` bytes at `off`. -/
def bytesAt (p : Bytes) (off n : Nat) : Bytes :=
  (p.drop off).take n

/-- The buffer with `w` written at `off`. -/
def writeAt (b : Bytes) (off : Nat) (w : Bytes) : Bytes :=
  b.take off ++ w ++ b.drop (off + w.length)

/-- The writes, each an offset and its bytes, one after another. -/
def writeAll (b : Bytes) (writes : List (Nat × Bytes)) : Bytes :=
  writes.foldl (fun b w => writeAt b w.1 w.2) b

/-- Two fields that share no byte. -/
def Apart (v w : Nat × Bytes) : Prop :=
  v.1 + v.2.length ≤ w.1 ∨ w.1 + w.2.length ≤ v.1

/-- The number whose `n` bytes stand at the start, the low byte first. -/
def readLE (p : Bytes) : Nat → Nat
  | 0 => 0
  | n + 1 => readLE p n ||| (p.getD n 0).toNat <<< (8 * n)

/-- The low `n` bytes of `v`, the low byte first. -/
def leBytes (v n : Nat) : Bytes :=
  (List.range n).map fun i => UInt8.ofNat (v >>> (8 * i))

/-! ## Fields -/

section Fields

variable {b w : Bytes} {off : Nat}

@[simp] theorem length_writeAt (h : off + w.length ≤ b.length) :
    (writeAt b off w).length = b.length := by
  simp only [writeAt, List.length_append, List.length_take, List.length_drop]
  omega

theorem getElem?_bytesAt (p : Bytes) (off n i : Nat) :
    (bytesAt p off n)[i]? = if i < n then p[off + i]? else none := by
  simp only [bytesAt, List.getElem?_take, List.getElem?_drop]

theorem getElem?_writeAt (h : off + w.length ≤ b.length) (i : Nat) :
    (writeAt b off w)[i]? =
      if off ≤ i ∧ i < off + w.length then w[i - off]? else b[i]? := by
  have head : (b.take off).length = off := by rw [List.length_take]; omega
  have mid : (b.take off ++ w).length = off + w.length := by rw [List.length_append, head]
  rw [writeAt, List.getElem?_append, mid]
  by_cases before : i < off
  · rw [if_pos (by omega), List.getElem?_append, head, if_pos before, List.getElem?_take,
      if_pos before, if_neg (by omega)]
  · by_cases inside : i < off + w.length
    · rw [if_pos inside, List.getElem?_append, head, if_neg before, if_pos (by omega)]
    · rw [if_neg inside, if_neg (by omega), List.getElem?_drop,
        show off + w.length + (i - (off + w.length)) = i by omega]

theorem bytesAt_writeAt_self (h : off + w.length ≤ b.length) :
    bytesAt (writeAt b off w) off w.length = w := by
  refine List.ext_getElem? fun i => ?_
  rw [getElem?_bytesAt, getElem?_writeAt h]
  by_cases inside : i < w.length
  · rw [if_pos inside, if_pos (by omega), show off + i - off = i by omega]
  · rw [if_neg inside, List.getElem?_eq_none (by omega)]

theorem bytesAt_writeAt_of_le {o n : Nat} (h : off + w.length ≤ b.length) (before : o + n ≤ off) :
    bytesAt (writeAt b off w) o n = bytesAt b o n := by
  refine List.ext_getElem? fun i => ?_
  rw [getElem?_bytesAt, getElem?_bytesAt, getElem?_writeAt h]
  by_cases inside : i < n
  · rw [if_pos inside, if_pos inside, if_neg (by omega)]
  · rw [if_neg inside, if_neg inside]

theorem bytesAt_writeAt_of_ge {o n : Nat} (h : off + w.length ≤ b.length)
    (after : off + w.length ≤ o) :
    bytesAt (writeAt b off w) o n = bytesAt b o n := by
  refine List.ext_getElem? fun i => ?_
  rw [getElem?_bytesAt, getElem?_bytesAt, getElem?_writeAt h,
    if_neg fun inside : off ≤ o + i ∧ o + i < off + w.length => by omega]

/-- A field inside the first `m` bytes is a field of them. -/
theorem bytesAt_take {p : Bytes} {o n m : Nat} (h : o + n ≤ m) :
    bytesAt (p.take m) o n = bytesAt p o n := by
  refine List.ext_getElem? fun i => ?_
  rw [getElem?_bytesAt, getElem?_bytesAt]
  by_cases inside : i < n
  · rw [if_pos inside, if_pos inside, List.getElem?_take, if_pos (by omega)]
  · rw [if_neg inside, if_neg inside]

theorem bytesAt_bytesAt {p : Bytes} {off n o m : Nat} (h : o + m ≤ n) :
    bytesAt (bytesAt p off n) o m = bytesAt p (off + o) m := by
  refine List.ext_getElem? fun i => ?_
  rw [getElem?_bytesAt, getElem?_bytesAt, getElem?_bytesAt, Nat.add_assoc]
  by_cases inside : i < m
  · rw [if_pos inside, if_pos inside, if_pos (by omega)]
  · rw [if_neg inside, if_neg inside]

theorem getD_bytesAt {p : Bytes} {off n i : Nat} (h : i < n) (d : UInt8) :
    (bytesAt p off n).getD i d = p.getD (off + i) d := by
  rw [List.getD_eq_getElem?_getD, List.getD_eq_getElem?_getD, getElem?_bytesAt, if_pos h]

end Fields

/-! ## Several writes -/

section Writes

variable {b : Bytes} {writes : List (Nat × Bytes)}

theorem length_writeAll (fits : ∀ w ∈ writes, w.1 + w.2.length ≤ b.length) :
    (writeAll b writes).length = b.length := by
  induction writes generalizing b with
  | nil => rfl
  | cons w rest ih =>
    have here := fits w List.mem_cons_self
    have kept : (writeAt b w.1 w.2).length = b.length := length_writeAt here
    have later := ih (b := writeAt b w.1 w.2) fun v hv => by
      rw [kept]
      exact fits v (List.mem_cons_of_mem w hv)
    exact later.trans kept

theorem bytesAt_writeAll_of_apart {f : Nat × Bytes}
    (fits : ∀ w ∈ writes, w.1 + w.2.length ≤ b.length) (apart : ∀ w ∈ writes, Apart f w) :
    bytesAt (writeAll b writes) f.1 f.2.length = bytesAt b f.1 f.2.length := by
  induction writes generalizing b with
  | nil => rfl
  | cons w rest ih =>
    have here := fits w List.mem_cons_self
    have later := ih (b := writeAt b w.1 w.2)
      (fun v hv => by
        rw [length_writeAt here]
        exact fits v (List.mem_cons_of_mem w hv))
      (fun v hv => apart v (List.mem_cons_of_mem w hv))
    refine later.trans ?_
    rcases apart w List.mem_cons_self with before | after
    · exact bytesAt_writeAt_of_le here before
    · exact bytesAt_writeAt_of_ge here after

theorem bytesAt_writeAll (fits : ∀ w ∈ writes, w.1 + w.2.length ≤ b.length)
    (apart : writes.Pairwise Apart) {w : Nat × Bytes} (mem : w ∈ writes) :
    bytesAt (writeAll b writes) w.1 w.2.length = w.2 := by
  induction writes generalizing b with
  | nil => cases mem
  | cons v rest ih =>
    have here := fits v List.mem_cons_self
    have fitsRest : ∀ u ∈ rest, u.1 + u.2.length ≤ (writeAt b v.1 v.2).length := by
      intro u hu
      rw [length_writeAt here]
      exact fits u (List.mem_cons_of_mem v hu)
    rw [List.pairwise_cons] at apart
    rcases List.mem_cons.mp mem with rfl | inRest
    · exact (bytesAt_writeAll_of_apart fitsRest apart.1).trans (bytesAt_writeAt_self here)
    · exact ih fitsRest apart.2 inRest

end Writes

/-! ## Little-endian numbers -/

section Numbers

@[simp] theorem length_leBytes (v n : Nat) : (leBytes v n).length = n := by
  rw [leBytes, List.length_map, List.length_range]

theorem readLE_take (p : Bytes) {n m : Nat} (h : n ≤ m) : readLE (p.take m) n = readLE p n := by
  induction n with
  | zero => rfl
  | succ n ih =>
    rw [readLE, readLE, ih (by omega), List.getD_eq_getElem?_getD, List.getD_eq_getElem?_getD,
      List.getElem?_take, if_pos (by omega)]

theorem readLE_drop (p : Bytes) (off n : Nat) :
    readLE (p.drop off) n = readLE (bytesAt p off n) n :=
  (readLE_take (p.drop off) (Nat.le_refl n)).symm

theorem readLE_leBytes (v n : Nat) : readLE (leBytes v n) n = v % 2 ^ (8 * n) := by
  -- the loop has read the low `m` bytes after `m` rounds
  have rounds : ∀ m ≤ n, readLE (leBytes v n) m = v % 2 ^ (8 * m) := by
    intro m hm
    induction m with
    | zero => exact (Nat.mod_one v).symm
    | succ m ih =>
      have byte : (leBytes v n).getD m 0 = UInt8.ofNat (v >>> (8 * m)) := by
        rw [leBytes, List.getD_eq_getElem?_getD, List.getElem?_map,
          List.getElem?_range (by omega)]
        rfl
      rw [readLE, ih (by omega), byte, UInt8.toNat_ofNat', Nat.shiftRight_eq_div_pow, Nat.or_comm,
        ← Nat.shiftLeft_add_eq_or_of_lt (Nat.mod_lt _ (Nat.two_pow_pos _)), Nat.shiftLeft_eq,
        show 8 * (m + 1) = 8 * m + 8 by omega, Nat.pow_add, Nat.mod_mul, Nat.mul_comm, Nat.add_comm]
  exact rounds n (Nat.le_refl n)

end Numbers

end Lib
