/-
# Signed C integers

A signed C integer is an `Int` in the range of its type; `i32` and `i64` bring
the mathematical result of an operation back into the range, as two's
complement hardware does.  Congruences modulo a power of two survive the
wrapping, and within the range nothing happens at all: proofs about wrapped code
rest on these two facts.
-/
import Mathlib.Data.Int.ModEq

namespace Wrpc.CInt

open Int

/-- A value stored in an `int` (`int32_t`, `long`). -/
def i32 (x : Int) : Int := Int.bmod x (2 ^ 32)

/-- A value stored in an `int64_t`. -/
def i64 (x : Int) : Int := Int.bmod x (2 ^ 64)

/-- The macro `abs` of `util.h`: negating the least `int` gives it back. -/
def abs32 (x : Int) : Int := if 0 ≤ x then x else i32 (-x)

theorem i32_of_range {x : Int} (h : -2 ^ 31 ≤ x ∧ x < 2 ^ 31) : i32 x = x :=
  bmod_eq_of_le (by omega) (by omega)

theorem i64_of_range {x : Int} (h : -2 ^ 63 ≤ x ∧ x < 2 ^ 63) : i64 x = x :=
  bmod_eq_of_le (by omega) (by omega)

theorem i32_lt (x : Int) : -2 ^ 31 ≤ i32 x ∧ i32 x < 2 ^ 31 := by
  have hlo := @Int.le_bmod x (2 ^ 32) (by decide)
  have hhi := @Int.bmod_lt x (2 ^ 32) (by decide)
  constructor
  · exact hlo
  · exact hhi

theorem i32_modEq {k : Nat} (hk : k ≤ 32) (x : Int) : i32 x ≡ x [ZMOD 2 ^ k] := by
  have h : i32 x ≡ x [ZMOD 2 ^ 32] := bmod_emod
  exact h.of_dvd (pow_dvd_pow 2 hk)

theorem i32_modEq_self (x : Int) : i32 x ≡ x [ZMOD 2 ^ 32] := i32_modEq (by decide) x

theorem i32_congr {x y : Int} (h : x ≡ y [ZMOD 2 ^ 32]) : i32 x = i32 y := by
  have h' : x % (2 ^ 32 : Nat) = y % (2 ^ 32 : Nat) := h
  unfold i32 Int.bmod
  rw [h']

theorem i32_inj_iff {x y : Int} : i32 x = i32 y ↔ x ≡ y [ZMOD 2 ^ 32] :=
  ⟨fun h => (i32_modEq_self x).symm.trans (h ▸ i32_modEq_self y), i32_congr⟩

/-- Quotients of numbers that differ by a multiple of `N` differ by a multiple of `N` only if the
divisor divides that multiple. -/
theorem ediv_modEq_iff {N P : Int} (hP : 0 < P) (hPN : P ≤ N) (x K : Int) :
    (x + N * K) / P ≡ x / P [ZMOD N] ↔ P ∣ K := by
  constructor
  · intro h
    obtain ⟨t, ht⟩ := (Int.modEq_iff_dvd.mp h.symm)
    have hx := emod_add_mul_ediv x P
    have hy := emod_add_mul_ediv (x + N * K) P
    have hx0 := emod_nonneg x hP.ne'
    have hxP := emod_lt_of_pos x hP
    have hy0 := emod_nonneg (x + N * K) hP.ne'
    have hyP := emod_lt_of_pos (x + N * K) hP
    have hq : (x + N * K) / P = x / P + N * t := by omega
    -- the remainders differ by a multiple of N and are both below P
    have hrem : (x + N * K) % P - x % P = N * (K - P * t) := by
      rw [hq, Int.mul_add] at hy
      have hassoc : P * (N * t) =
          N * (P * t) := by rw [← Int.mul_assoc, Int.mul_comm P, Int.mul_assoc]
      rw [Int.mul_sub]
      omega
    have hzero : K - P * t = 0 := by
      rcases Int.lt_trichotomy (K - P * t) 0 with hneg | hzero | hpos
      · have := Int.mul_le_mul_of_nonneg_left (show K - P * t ≤ -1 by omega) (show 0 ≤ N by omega)
        omega
      · exact hzero
      · have := Int.mul_le_mul_of_nonneg_left (show 1 ≤ K - P * t by omega) (show 0 ≤ N by omega)
        omega
    exact ⟨t, by omega⟩
  · rintro ⟨t, rfl⟩
    have hassoc : x + N * (P * t) = x + P * (N * t) := by
      rw [← Int.mul_assoc, Int.mul_comm N, Int.mul_assoc]
    rw [hassoc, add_mul_ediv_left _ _ hP.ne']
    exact Int.modEq_iff_dvd.mpr ⟨-t, by rw [Int.mul_neg]; omega⟩

theorem i32_zero : i32 (0 : Nat) = 0 := by simp [i32]

theorem i32_succ (n : Nat) : i32 (i32 n + 1) = i32 (n + 1 : Nat) :=
  i32_congr ((i32_modEq_self n).add_right 1)

end Wrpc.CInt
