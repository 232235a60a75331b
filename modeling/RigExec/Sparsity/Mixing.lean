/-
# `RigExec.Sparsity.Mixing` — what two folds have in common

`_MixWord` loses nothing: for one word it is injective in the hash, and for one
hash in the word (`mixWord_injective_hash`, `mixWord_injective_word`).  A shift
and an exclusive-or can be undone, as can a product with an odd constant.

So two folds that differ in one word, or up to one place, stay apart for as long
as they fold the same.  Collisions of the digest come from folding more words
than one.
-/
import RigExec.Sparsity.Digest

namespace RigExec.Sparsity

/-! ## The steps of a mix -/

theorem xor_ushiftRight_injective {k : Nat} (hk : 64 ≤ 3 * k) {x y : BitVec 64}
    (h : x ^^^ (x >>> k) = y ^^^ (y >>> k)) : x = y := by
  have hback : ∀ z : BitVec 64,
      z = (z ^^^ (z >>> k)) ^^^ ((z ^^^ (z >>> k)) >>> k) ^^^
        ((z ^^^ (z >>> k)) >>> (k + k)) := by
    intro z
    have hzero : z >>> (k + k + k) = 0#64 := BitVec.ushiftRight_eq_zero (by omega)
    rw [BitVec.ushiftRight_xor_distrib, BitVec.ushiftRight_xor_distrib, ← BitVec.shiftRight_add,
      ← BitVec.shiftRight_add, ← Nat.add_assoc, hzero]
    simp [BitVec.xor_assoc]
  rw [hback x, hback y, h]

theorem xor_shiftRight_injective {k : UInt64} (hk : 64 ≤ 3 * (k.toNat % 64)) {x y : UInt64}
    (h : x ^^^ (x >>> k) = y ^^^ (y >>> k)) : x = y := by
  have hbits := congrArg UInt64.toBitVec h
  rw [UInt64.toBitVec_xor, UInt64.toBitVec_xor, UInt64.toBitVec_shiftRight,
    UInt64.toBitVec_shiftRight] at hbits
  exact UInt64.toBitVec_inj.mp (xor_ushiftRight_injective (by simpa using hk) hbits)

theorem mul_injective {c inverse : UInt64} (hinverse : c * inverse = 1) {x y : UInt64}
    (h : x * c = y * c) : x = y := by
  have hback : ∀ z : UInt64, z * c * inverse = z := by
    intro z
    rw [UInt64.mul_assoc, hinverse, UInt64.mul_one]
  rw [← hback x, ← hback y, h]

/-! ## The mix -/

theorem mixWord_injective_hash {word hash hash' : UInt64}
    (h : mixWord hash word = mixWord hash' word) : hash = hash' := by
  have hprime : (1099511628211 : UInt64) * 0xce965057aff6957b = 1 := by decide
  exact (UInt64.xor_left_inj _).mp (mul_injective hprime h)

theorem mixWord_injective_word {hash word word' : UInt64}
    (h : mixWord hash word = mixWord hash word') : word = word' := by
  have hfirst : (0xBF58476D1CE4E5B9 : UInt64) * 0x96de1b173f119089 = 1 := by decide
  have hsecond : (0x94D049BB133111EB : UInt64) * 0x319642b2d24d8ec3 = 1 := by decide
  have hprime : (1099511628211 : UInt64) * 0xce965057aff6957b = 1 := by decide
  have hlast := (UInt64.xor_right_inj _).mp (mul_injective hprime h)
  have hmixed := mul_injective hsecond (xor_shiftRight_injective (by decide) hlast)
  have hshifted := mul_injective hfirst (xor_shiftRight_injective (by decide) hmixed)
  exact (UInt64.add_left_inj _).mp (xor_shiftRight_injective (by decide) hshifted)

/-! ## Runs of bytes -/

theorem foldBytes_of_short {bytes : List UInt8} (hash : UInt64) (hlength : bytes.length < 8)
    (hnonempty : bytes.length ≠ 0) :
    foldBytes hash bytes = mixWord hash (wordOf bytes + bytes.length.toUInt64) := by
  rw [foldBytes, if_pos hlength, if_neg hnonempty]

theorem foldBytes_injective {bytes : List UInt8} {hash hash' : UInt64}
    (h : foldBytes hash bytes = foldBytes hash' bytes) : hash = hash' := by
  induction hash, bytes using foldBytes.induct generalizing hash' with
  | case1 hash bytes hlength hempty =>
      rw [foldBytes, if_pos hlength, if_pos hempty, foldBytes, if_pos hlength, if_pos hempty] at h
      exact h
  | case2 hash bytes hlength hnonempty =>
      rw [foldBytes_of_short hash hlength hnonempty, foldBytes_of_short hash' hlength hnonempty] at h
      exact mixWord_injective_hash h
  | case3 hash bytes hlength ih =>
      have hword : ∀ start, foldBytes start bytes =
          foldBytes (mixWord start (wordOf (bytes.take 8))) (bytes.drop 8) := by
        intro start
        rw [foldBytes, if_neg hlength]
      rw [hword hash, hword hash'] at h
      exact mixWord_injective_hash (ih h)

theorem foldFlag_ne (hash : UInt64) : foldFlag hash false ≠ foldFlag hash true := by
  intro h
  rw [foldFlag, foldFlag, foldBytes_of_short hash (by decide) (by decide),
    foldBytes_of_short hash (by decide) (by decide)] at h
  exact absurd (mixWord_injective_word h) (by decide)

end RigExec.Sparsity
