/-
# The two conversions of a phase shift

`from_picos` exists twice.  The version of ptp-noposix multiplies and divides in 64 signed
bits.  The one for `CONFIG_WRPC_PPSI` divides the magnitude with `__div64_32`; for a
negative value it forms that magnitude with a product of two `int`s, which wraps from
131072 ps on.
-/
import Wrpc.SoftPll.Main

namespace Wrpc.SoftPll

open CInt

/-- `-ps * (1 << HPLL_N)` as a number. -/
def magnitude (ps : Int) : Int := -ps * 2 ^ 14

/-- How often the product wraps in an `int`. -/
def wraps (ps : Int) : Int := (magnitude ps - i32 (magnitude ps)) / 2 ^ 32

/-- The wraps leave no trace behind the division: there are none, or as many as a multiple of the
period.  A product that comes out negative is 2^64 greater as a `uint64_t`. -/
def PicosAgree (period : Nat) (ps : Int) : Prop :=
  0 ≤ ps ∨ (period : Int) ∣ (if 0 ≤ i32 (magnitude ps) then 0 else 2 ^ 32) - wraps ps

instance (period : Nat) (ps : Int) : Decidable (PicosAgree period ps) :=
  inferInstanceAs (Decidable (_ ∨ _))

/-- The build with the other `from_picos`. -/
def Board.withPpsi (b : Board) (ppsi : Bool) : Board := { b with wrpcPpsi := ppsi }

theorem withPpsi_wrpcPpsi (b : Board) (ppsi : Bool) : (b.withPpsi ppsi).wrpcPpsi = ppsi := rfl

section

variable (b : Board) {ps : Int}

theorem fromPicos_ppsi_neg (h : ps < 0) :
    fromPicos (b.withPpsi true) ps = i32 (-(i32 (magnitude ps) % 2 ^ 64 / b.clockPeriodPs)) := by
  have hprod : i32 (i32 (-ps) * 2 ^ 14) = i32 (magnitude ps) :=
    i32_congr ((i32_modEq_self (-ps)).mul_right _)
  rw [fromPicos, withPpsi_wrpcPpsi, if_pos rfl, if_neg (by omega), hprod]
  rfl

theorem fromPicos_plain (hps : -2 ^ 31 ≤ ps ∧ ps < 2 ^ 31) :
    fromPicos (b.withPpsi false) ps = i32 ((ps * 2 ^ 14).tdiv b.clockPeriodPs) := by
  have h64 : i64 (ps * 2 ^ 14) = ps * 2 ^ 14 := i64_of_range (by omega)
  rw [fromPicos, withPpsi_wrpcPpsi, if_neg Bool.false_ne_true, h64]
  rfl

theorem fromPicos_plain_neg (hps : -2 ^ 31 ≤ ps ∧ ps < 2 ^ 31) (h : ps < 0) :
    fromPicos (b.withPpsi false) ps = i32 (-(magnitude ps / b.clockPeriodPs)) := by
  have hneg : ps * 2 ^ 14 = -magnitude ps := by
    rw [magnitude]
    omega
  rw [fromPicos_plain b hps, hneg, Int.neg_tdiv,
    Int.tdiv_eq_ediv_of_nonneg (by rw [magnitude]; omega)]

theorem product_eq (ps : Int) : i32 (magnitude ps) % 2 ^ 64 =
    magnitude ps + 2 ^ 32 * ((if 0 ≤ i32 (magnitude ps) then 0 else 2 ^ 32) - wraps ps) := by
  have hrange := i32_lt (magnitude ps)
  have hdvd : (2 : Int) ^ 32 ∣ magnitude ps - i32 (magnitude ps) :=
    Int.modEq_iff_dvd.mp (i32_modEq_self (magnitude ps))
  have hwraps : 2 ^ 32 * wraps ps = magnitude ps - i32 (magnitude ps) := Int.mul_ediv_cancel' hdvd
  split
  case isTrue h => omega
  case isFalse h => omega

/-- The two builds return the same phase shift, and set the same target, for these values only. -/
theorem fromPicos_agree_iff (b : Board) (hperiod : 0 < b.clockPeriodPs ∧ b.clockPeriodPs < 2 ^ 32)
    (ps : Int) (hps : -2 ^ 31 ≤ ps ∧ ps < 2 ^ 31) :
    (fromPicos (b.withPpsi true) ps = fromPicos (b.withPpsi false) ps ∧
      ∀ m : Main, mpllSetPhaseShift (b.withPpsi true) m ps =
        mpllSetPhaseShift (b.withPpsi false) m ps) ↔ PicosAgree b.clockPeriodPs ps := by
  have hvalue : fromPicos (b.withPpsi true) ps = fromPicos (b.withPpsi false) ps ↔
      PicosAgree b.clockPeriodPs ps := by
    by_cases hneg : 0 ≤ ps
    · have hppsi : fromPicos (b.withPpsi true) ps = i32 (ps * 2 ^ 14 / b.clockPeriodPs) := by
        rw [fromPicos, withPpsi_wrpcPpsi, if_pos rfl, if_pos hneg]
        rfl
      rw [hppsi, fromPicos_plain b hps, Int.tdiv_eq_ediv_of_nonneg (by omega)]
      exact iff_of_true rfl (.inl hneg)
    · rw [fromPicos_ppsi_neg b (by omega), fromPicos_plain_neg b hps (by omega), i32_inj_iff,
        Int.neg_modEq_neg, product_eq, ediv_modEq_iff (by omega) (by omega)]
      exact ⟨.inr, fun h => h.resolve_left hneg⟩
  constructor
  · exact fun h => hvalue.mp h.1
  · intro h
    refine ⟨hvalue.mpr h, fun m => ?_⟩
    rw [mpllSetPhaseShift, mpllSetPhaseShift, phaseTarget, phaseTarget, hvalue.mpr h]
    rfl

/-- One picosecond is converted alike, at both signs. -/
theorem fromPicos_agree_generic :
    (fromPicos (Board.generic.withPpsi true) (-1) = fromPicos (Board.generic.withPpsi false) (-1) ∧
      ∀ m : Main, mpllSetPhaseShift (Board.generic.withPpsi true) m (-1) =
        mpllSetPhaseShift (Board.generic.withPpsi false) m (-1)) :=
  (fromPicos_agree_iff Board.generic (by decide) (-1) (by decide)).mpr (by decide)

/-- The first negative value whose product wraps. -/
theorem fromPicos_differ :
    fromPicos (Board.generic.withPpsi true) (-131072) ≠
      fromPicos (Board.generic.withPpsi false) (-131072) := by
  decide

end

end Wrpc.SoftPll
