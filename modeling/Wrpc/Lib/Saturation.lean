/-
# Saturated controllers that do not wind up

A controller with integrator `i`, proportional term `t` and scale `p` has the
output `(i + t + q) / p + bias`, cut to `[lo, hi]`.  If its integrator only
moves while the output is inside, or against the side on which it is cut, the
integrator stays in a range that does not depend on how long the error lasts:
the range of the output, scaled, and the largest proportional term.
-/
import Mathlib.Tactic.Linarith

namespace Wrpc.Saturation

/-- `y` cut to `[lo, hi]`. -/
def clampTo (lo hi y : Int) : Int := if y < lo then lo else if hi < y then hi else y

theorem clampTo_of_lt {lo hi y : Int} (h : y < lo) : clampTo lo hi y = lo := if_pos h

theorem clampTo_of_gt {lo hi y : Int} (hle : lo ≤ hi) (h : hi < y) : clampTo lo hi y = hi := by
  rw [clampTo, if_neg (by omega), if_pos h]

theorem clampTo_eq_lo_iff {lo hi y : Int} (h : lo < hi) : lo = clampTo lo hi y ↔ y ≤ lo := by
  unfold clampTo
  split
  · omega
  · split <;> omega

theorem clampTo_eq_hi_iff {lo hi y : Int} (h : lo < hi) : hi = clampTo lo hi y ↔ hi ≤ y := by
  unfold clampTo
  split
  · omega
  · split <;> omega

def bound (lo hi p q T : Int) : Int := (hi - lo + 1) * p + T + q

section

variable {lo hi bias p q t T i : Int}

theorem output_spec (hp : 0 < p) :
    p * ((i + t + q) / p) ≤ i + t + q ∧ i + t + q < p * ((i + t + q) / p) + p := by
  have h := Int.emod_add_mul_ediv (i + t + q) p
  have hnonneg := Int.emod_nonneg (i + t + q) hp.ne'
  have hlt := Int.emod_lt_of_pos (i + t + q) hp
  constructor <;> omega

theorem bound_of_mem (hp : 0 < p) (hq : 0 ≤ q) (hbias : lo ≤ bias ∧ bias ≤ hi)
    (ht : |t| ≤ T) (hlo : lo ≤ (i + t + q) / p + bias) (hhi : (i + t + q) / p + bias ≤ hi) :
    |i| ≤ bound lo hi p q T := by
  obtain ⟨h₁, h₂⟩ := output_spec hp
  have hup := Int.mul_le_mul_of_nonneg_left
    (show (i + t + q) / p ≤ hi - lo by omega) (Int.le_of_lt hp)
  have hdown := Int.mul_le_mul_of_nonneg_left
    (show -(hi - lo) ≤ (i + t + q) / p by omega) (Int.le_of_lt hp)
  rw [abs_le] at ht ⊢
  rw [bound]
  constructor <;> linarith

theorem bound_of_below {i₀ : Int} (hp : 0 < p) (hq : 0 ≤ q) (hbias : lo ≤ bias ∧ bias ≤ hi)
    (ht : |t| ≤ T) (hlt : (i + t + q) / p + bias < lo) (hi₀ : |i₀| ≤ bound lo hi p q T)
    (hup : i₀ < i) : |i| ≤ bound lo hi p q T := by
  obtain ⟨-, h₂⟩ := output_spec (i := i) (t := t) (q := q) hp
  have hneg := Int.mul_le_mul_of_nonneg_left
    (show (i + t + q) / p ≤ -1 by omega) (Int.le_of_lt hp)
  have hrange := Int.mul_nonneg (show 0 ≤ hi - lo + 1 by omega) (Int.le_of_lt hp)
  rw [abs_le] at ht hi₀ ⊢
  rw [bound] at hi₀ ⊢
  constructor <;> linarith

theorem bound_of_above {i₀ : Int} (hp : 0 < p) (hbias : lo ≤ bias ∧ bias ≤ hi)
    (ht : |t| ≤ T) (hgt : hi < (i + t + q) / p + bias) (hi₀ : |i₀| ≤ bound lo hi p q T)
    (hdown : i < i₀) : |i| ≤ bound lo hi p q T := by
  obtain ⟨h₁, -⟩ := output_spec hp
  have hpos := Int.mul_le_mul_of_nonneg_left
    (show 1 ≤ (i + t + q) / p by omega) (Int.le_of_lt hp)
  have hrange := Int.mul_nonneg (show 0 ≤ hi - lo + 1 by omega) (Int.le_of_lt hp)
  rw [abs_le] at ht hi₀ ⊢
  rw [bound] at hi₀ ⊢
  constructor <;> linarith

end

end Wrpc.Saturation
