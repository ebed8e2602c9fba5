/-
# Rounding up to a multiple of a block size

`alignUp x b` is the least multiple of `b` that is not below `x`.  C code rounds
with a mask, `(x + (b - 1)) & ~(b - 1)`, which is the same for a power of two as
long as the sum does not leave the word.
-/
import Mathlib.Algebra.Order.Ring.Int

namespace Wrpc.Align

open BitVec Nat

/-- The least multiple of `b` from `x` on. -/
def alignUp (x b : Nat) : Nat := (x + b - 1) / b * b

variable {x y b : Nat}

theorem dvd_alignUp (x b : Nat) : b ∣ alignUp x b :=
  Nat.dvd_mul_left b _

theorem le_alignUp (x : Nat) (hb : 0 < b) : x ≤ alignUp x b := by
  have h := div_add_mod (x + b - 1) b
  have hm := mod_lt (x + b - 1) hb
  rw [Nat.mul_comm] at h
  unfold alignUp
  omega

theorem alignUp_le (hb : 0 < b) (hy : b ∣ y) (h : x ≤ y) : alignUp x b ≤ y := by
  obtain ⟨q, rfl⟩ := hy
  have hq : (x + b - 1) / b ≤ q := by
    refine le_of_lt_succ ((Nat.div_lt_iff_lt_mul hb).mpr ?_)
    rw [Nat.succ_mul, Nat.mul_comm q b]
    omega
  calc alignUp x b ≤ q * b := Nat.mul_le_mul_right b hq
    _ = b * q := Nat.mul_comm q b

theorem alignUp_add_of_dvd (hb : 0 < b) (hy : b ∣ y) : alignUp (y + x) b = y + alignUp x b := by
  refine Nat.le_antisymm (alignUp_le hb (Nat.dvd_add hy (dvd_alignUp x b))
    (Nat.add_le_add_left (le_alignUp x hb) y)) ?_
  obtain ⟨r, hr⟩ := Nat.exists_eq_add_of_le
    (Nat.le_trans (Nat.le_add_right y x) (le_alignUp (y + x) hb))
  have hdvd : b ∣ r := (Nat.dvd_add_right hy).mp (hr ▸ dvd_alignUp (y + x) b)
  have hxr : x ≤ r := by
    have hle := le_alignUp (y + x) hb
    omega
  rw [hr]
  exact Nat.add_le_add_left (alignUp_le hb hdvd hxr) y

theorem alignUp_mono_dvd {a : Nat} (ha : 0 < a) (hb : 0 < b) (hab : a ∣ b) (x : Nat) :
    alignUp x a ≤ alignUp x b :=
  alignUp_le ha (Nat.dvd_trans hab (dvd_alignUp x b)) (le_alignUp x hb)

theorem toNat_and_not_mask {w : Nat} (x : BitVec w) {k : Nat} (hk : k < w) :
    (x &&& ~~~(BitVec.twoPow w k - 1#w)).toNat = x.toNat / 2 ^ k * 2 ^ k := by
  have hmask : BitVec.twoPow w k - 1#w = BitVec.ofNat w (2 ^ k - 1) := by
    apply eq_of_toNat_eq
    have hpow : 2 ^ k < 2 ^ w := Nat.pow_lt_pow_right (by decide) hk
    have hpos : 0 < 2 ^ k := Nat.two_pow_pos k
    have hone : 1 < 2 ^ w := Nat.lt_of_le_of_lt hpos hpow
    rw [toNat_sub, toNat_twoPow, toNat_ofNat, toNat_ofNat,
      mod_eq_of_lt hpow, mod_eq_of_lt hone,
        mod_eq_of_lt (show 2 ^ k - 1 < 2 ^ w by omega),
      show 2 ^ w - 1 + 2 ^ k = 2 ^ w + (2 ^ k - 1) by omega, add_mod_left,
      mod_eq_of_lt (by omega)]
  have hshift : x &&& ~~~(BitVec.twoPow w k - 1#w) = (x >>> k) <<< k := by
    rw [hmask]
    apply eq_of_getLsbD_eq
    intro j hj
    simp only [getLsbD_and, getLsbD_not, getLsbD_ofNat,
      getLsbD_shiftLeft, getLsbD_ushiftRight, hj, decide_true, Bool.true_and,
      testBit_two_pow_sub_one]
    by_cases hlt : j < k
    · simp [hlt]
    · simp [hlt, Nat.add_sub_cancel' (Nat.le_of_not_lt hlt)]
  rw [hshift, toNat_shiftLeft, toNat_ushiftRight, shiftRight_eq_div_pow,
    Nat.shiftLeft_eq, mod_eq_of_lt]
  exact Nat.lt_of_le_of_lt (div_mul_le_self _ _) x.isLt

end Wrpc.Align
