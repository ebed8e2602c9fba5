/-
# The auxiliary clock output (`auxclk.c`)

`auxclk_init` programs a high and a low width, in units of two nanoseconds, and
`auxclk_get_settings` computes the frequency and the duty cycle back from them.  The product with
the duty cycle is a `float` one in C: here it is any function that does not exceed its first
argument.
-/
import Mathlib.Algebra.Order.Ring.Int

namespace Wrpc.AuxClk

open Nat

/-- `NS_FACTOR` -/
def nsFactor : Nat := 1000000000

/-- `MAX_FREQ` -/
def maxFreq : Nat := 250000000

/-- `MIN_FREQ` -/
def minFreq : Nat := 1

/-- `CNT_RES` -/
def cntRes : Nat := 2

/-- `struct auxclk_gen` -/
structure AuxclkGen where
  pr : Nat
  dcr : Nat
deriving DecidableEq, Repr

/-- A division of the program; nothing comes back from one by zero. -/
def divide (a b : Nat) : Option Nat := if b = 0 then none else some (a / b)

/-- `auxclk_init`: the registers, and the frequency and duty cycle of the message, if it is
printed. -/
def auxclkInit (product : Nat → Nat → Nat) (freq duty : Nat) :
    Option (AuxclkGen × Option (Nat × Nat)) := do
  let calcFreq := if freq > maxFreq then maxFreq else freq
  let calcFreq := if calcFreq < minFreq then minFreq else calcFreq
  let calcDuty := if ¬(duty > 0 ∧ duty < 100) then 50 else duty
  let periodNs ← divide nsFactor calcFreq
  let hWidth := product (periodNs / cntRes) calcDuty
  let lWidth := periodNs / cntRes - hWidth
  let calcDuty ← divide (hWidth * 100 % 2 ^ 32) (periodNs / cntRes)
  let asked ← divide nsFactor freq
  let told := if asked ≠ periodNs ∨ duty ≠ calcDuty then some (calcFreq, calcDuty) else none
  pure (⟨hWidth, lWidth⟩, told)

/-- `auxclk_get_settings` -/
def auxclkGetSettings (g : AuxclkGen) : Option (Nat × Nat) := do
  let periodNs := (g.pr + g.dcr) % 2 ^ 32 / cntRes
  let freq ← divide nsFactor periodNs
  let duty ← divide (g.pr * 100 % 2 ^ 32) (periodNs / cntRes)
  pure (freq, duty)

/-- The period of the frequency that is configured, in nanoseconds. -/
def period (freq : Nat) : Nat := 1000000000 / max 1 (min freq 250000000)

theorem period_bounds (freq : Nat) : 4 ≤ period freq ∧ period freq ≤ 1000000000 :=
  ⟨(le_div_iff_mul_le (by omega)).mpr (by omega), div_le_self _ _⟩

theorem period_lt_eight (freq : Nat) : period freq < 8 ↔ 125000000 < freq := by
  rw [period, div_lt_iff_lt_mul (by omega)]
  omega

theorem divide_of_ne {a b : Nat} (h : b ≠ 0) : divide a b = some (a / b) := if_neg h

theorem auxclkInit_cases {product : Nat → Nat → Nat}
    (hproduct : ∀ t d, d < 100 → product t d ≤ t) (freq duty : Nat) :
    (freq = 0 ∧ auxclkInit product freq duty = none) ∨
      (freq ≠ 0 ∧ ∃ g told, auxclkInit product freq duty = some (g, told) ∧
        g.pr + g.dcr = period freq / 2) := by
  have hbounds := period_bounds freq
  have hclamped : (if (if freq > maxFreq then maxFreq else freq) < minFreq then minFreq
      else if freq > maxFreq then maxFreq else freq) = max 1 (min freq 250000000) := by
    unfold maxFreq minFreq
    split <;> split at * <;> omega
  have hperiod : divide nsFactor (max 1 (min freq 250000000)) = some (period freq) :=
    divide_of_ne (by omega)
  have hhalf : period freq / cntRes ≠ 0 := by
    unfold cntRes
    omega
  simp only [auxclkInit, hclamped, hperiod, divide_of_ne hhalf, Option.bind_eq_bind,
    Option.bind_some]
  by_cases hfreq : freq = 0
  · refine .inl ⟨hfreq, ?_⟩
    rw [divide, if_pos hfreq]
    rfl
  · refine .inr ⟨hfreq, ?_⟩
    rw [divide_of_ne hfreq]
    refine ⟨_, _, rfl, add_sub_of_le (hproduct _ _ ?_)⟩
    split <;> omega

theorem auxclkGetSettings_cases {g : AuxclkGen} (h : g.pr + g.dcr ≤ 500000000) :
    (g.pr + g.dcr < 4 ∧ auxclkGetSettings g = none) ∨
      (4 ≤ g.pr + g.dcr ∧ auxclkGetSettings g = some (1000000000 / ((g.pr + g.dcr) / 2),
        g.pr * 100 % 2 ^ 32 / ((g.pr + g.dcr) / 4))) := by
  have hquarter : (g.pr + g.dcr) / 2 / 2 = (g.pr + g.dcr) / 4 := Nat.div_div_eq_div_mul _ 2 2
  simp only [auxclkGetSettings, cntRes, Nat.mod_eq_of_lt (show g.pr + g.dcr < 2 ^ 32 by omega),
    hquarter]
  rcases Nat.lt_or_ge (g.pr + g.dcr) 4 with hlt | hge
  · refine .inl ⟨hlt, ?_⟩
    rw [show (g.pr + g.dcr) / 4 = 0 by omega]
    cases divide nsFactor ((g.pr + g.dcr) / 2) <;> rfl
  · refine .inr ⟨hge, ?_⟩
    rw [divide_of_ne (show (g.pr + g.dcr) / 2 ≠ 0 by omega),
      divide_of_ne (show (g.pr + g.dcr) / 4 ≠ 0 by omega)]
    rfl

/-- **What the two functions do**: a frequency of 0 is divided by, everything else gets widths
of half the period.  Reading back divides by zero above 125 MHz, and below gives a frequency
of four times the one programmed, before rounding. -/
theorem auxclk_settings (product : Nat → Nat → Nat)
    (hproduct : ∀ t d, d < 100 → product t d ≤ t) (freq duty : BitVec 32) :
    (auxclkInit product freq.toNat duty.toNat = none ↔ freq = 0) ∧
      ∀ g told, auxclkInit product freq.toNat duty.toNat = some (g, told) →
        g.pr + g.dcr = period freq.toNat / 2 ∧
        (auxclkGetSettings g = none ↔ 125000000 < freq.toNat) ∧
        ∀ f d, auxclkGetSettings g = some (f, d) →
          f = 1000000000 / ((g.pr + g.dcr) / 2) ∧ f ≠ 1000000000 / (2 * (g.pr + g.dcr)) ∧
          d = g.pr * 100 % 2 ^ 32 / ((g.pr + g.dcr) / 4) := by
  rcases auxclkInit_cases hproduct freq.toNat duty.toNat with
    ⟨hzero, hnone⟩ | ⟨hnz, g, told, hinit, hsum⟩
  · refine ⟨⟨fun _ => BitVec.eq_of_toNat_eq hzero, fun _ => hnone⟩, fun g told h => ?_⟩
    cases hnone.symm.trans h
  have hbounds := period_bounds freq.toNat
  have hshort := period_lt_eight freq.toNat
  rw [hinit]
  refine ⟨⟨nofun, fun h => absurd (congrArg BitVec.toNat h) hnz⟩, ?_⟩
  rintro _ _ ⟨⟩
  rcases auxclkGetSettings_cases (g := g) (by omega) with ⟨hlt, hnone⟩ | ⟨hge, hsome⟩
  · rw [hnone]
    exact ⟨hsum, ⟨fun _ => by omega, fun _ => rfl⟩, nofun⟩
  · rw [hsome]
    refine ⟨hsum, ⟨nofun, fun h => by omega⟩, ?_⟩
    rintro _ _ ⟨⟩
    refine ⟨rfl, ?_, rfl⟩
    -- the quotient read back is larger by one at least
    have hone : 1000000000 / (2 * (g.pr + g.dcr)) + 1 ≤ 1000000000 / ((g.pr + g.dcr) / 2) := by
      rw [le_div_iff_mul_le (by omega), succ_mul]
      have hq := div_mul_le_self 1000000000 (2 * (g.pr + g.dcr))
      have hhalf : 1000000000 / (2 * (g.pr + g.dcr)) * ((g.pr + g.dcr) / 2) ≤
          1000000000 / (2 * (g.pr + g.dcr)) * (2 * (g.pr + g.dcr)) / 4 := by
        rw [le_div_iff_mul_le (by omega), mul_assoc]
        exact mul_le_mul_left _ (by omega)
      omega
    omega

/-- The duty product, without the rounding of `float`. -/
def exactProduct (t d : Nat) : Nat := t * d / 100

theorem auxclk_settings_exact :
    ∃ g told, auxclkInit exactProduct 10000000 50 = some (g, told) ∧ g.pr + g.dcr = 50 := by
  have hproduct : ∀ t d, d < 100 → exactProduct t d ≤ t := fun t d h =>
    Nat.div_le_of_le_mul (by rw [Nat.mul_comm]; exact Nat.mul_le_mul_right t (Nat.le_of_lt h))
  exact ⟨⟨25, 25⟩, none, rfl,
    ((auxclk_settings exactProduct hproduct 10000000 50).2 ⟨25, 25⟩ none rfl).1⟩

/-- Ten megahertz with a duty cycle of 50 % come back as forty with 208 %. -/
theorem auxclk_settings_tenMegahertz :
    auxclkInit exactProduct 10000000 50 = some (⟨25, 25⟩, none) ∧
      auxclkGetSettings ⟨25, 25⟩ = some (40000000, 208) ∧
      1000000000 / (2 * (25 + 25)) = 10000000 ∧ 100 * 25 / (25 + 25) = 50 ∧
      auxclkInit exactProduct 0 50 = none ∧ auxclkGetSettings ⟨1, 1⟩ = none := by
  decide

end Wrpc.AuxClk
