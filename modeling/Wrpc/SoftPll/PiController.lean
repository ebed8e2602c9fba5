/-
# The controller of the main PLL

`pi_update` works in 64 bits and narrows the output to an `int` before it is
cut to the range of the DAC.  As long as the narrowing does not change on which
side of the range the output lies, the controller is the saturated controller
of `Wrpc.Lib.Saturation` and does not wind up.

With the gains of the OCXO boards it does: the error before frequency lock is
boosted, and an output past `2^31` comes back at the other end of the range.
-/
import Mathlib.Algebra.Order.Ring.Abs
import Wrpc.Lib.Saturation
import Wrpc.SoftPll.PhaseDetector
import Wrpc.SoftPll.Schedules

namespace Wrpc.SoftPll

open CInt Saturation

/-! ## One sample -/

/-- The output `pi_update` should have before it is cut, over the integers. -/
def Pi.output (pi : Pi) (x : Int) : Int :=
  (pi.integrator + (pi.ki + pi.kp) * x + 2 ^ (pi.shift - 1).toNat) / 2 ^ pi.shift.toNat + pi.bias

/-- The range of the integrator for errors up to `X`. -/
def Pi.windupBound (pi : Pi) (X : Int) : Int :=
  (pi.yMax - pi.yMin + 1) * 2 ^ pi.shift.toNat + |pi.kp| * X + 2 ^ (pi.shift - 1).toNat

structure Pi.SetUp (pi : Pi) : Prop where
  antiWindup : pi.antiWindup ≠ 0
  shift : 1 ≤ pi.shift ∧ pi.shift ≤ 16
  range : 0 ≤ pi.yMin ∧ pi.yMin < pi.bias ∧ pi.bias ≤ pi.yMax ∧ pi.yMax < 2 ^ 30
  kp : |pi.kp| ≤ 2 ^ 20
  ki : |pi.ki| ≤ 2 ^ 20

/-- A sample is answered exactly, and the integrator stays in its range. -/
def Pi.ExactAt (pi : Pi) (X : Int) (pi' : Pi) : Prop :=
  pi'.y = clampTo pi.yMin pi.yMax (pi.output pi'.x) ∧ |pi'.integrator| ≤ pi.windupBound X

/-- The narrowed output lies on the same side of the range as the output itself; or both are cut to
the same value, and the integrator may go where the sample sends it. -/
def Pi.NarrowsAt (pi : Pi) (X x : Int) : Prop :=
  (pi.output x < pi.yMin ∧ i32 (pi.output x) < pi.yMin) ∨
  (pi.yMax < pi.output x ∧ pi.yMax < i32 (pi.output x)) ∨
  (pi.yMin ≤ pi.output x ∧ pi.output x ≤ pi.yMax) ∨
  (clampTo pi.yMin pi.yMax (i32 (pi.output x)) = clampTo pi.yMin pi.yMax (pi.output x) ∧
    |pi.integrator + pi.ki * x| ≤ pi.windupBound X)

instance (pi : Pi) (X x : Int) : Decidable (pi.NarrowsAt X x) :=
  inferInstanceAs (Decidable (_ ∨ _ ∨ _ ∨ _))

section

variable {pi : Pi} {X x : Int}

theorem Pi.SetUp.scale (h : pi.SetUp) : ∃ q : Int, (2 : Int) ^ (pi.shift - 1).toNat = q ∧
    (2 : Int) ^ pi.shift.toNat = 2 * q ∧ 1 ≤ q ∧ q ≤ 2 ^ 15 := by
  obtain ⟨h₁, h₂⟩ := h.shift
  obtain ⟨n, hn⟩ : ∃ n : Nat, pi.shift = n + 1 := ⟨(pi.shift - 1).toNat, by omega⟩
  have hq : (pi.shift - 1).toNat = n := by omega
  have hp : pi.shift.toNat = n + 1 := by omega
  refine ⟨2 ^ n, by rw [hq], by rw [hp, pow_succ, Int.mul_comm], one_le_pow₀ (by decide), ?_⟩
  exact pow_le_pow_right₀ (by decide) (by omega)

theorem abs_mul_le {k K : Int} (hk : |k| ≤ K) (hx : |x| ≤ X) : |k * x| ≤ K * X := by
  rw [abs_mul]
  exact Int.mul_le_mul hk hx (abs_nonneg x) (Int.le_trans (abs_nonneg k) hk)

theorem Pi.SetUp.bounds (h : pi.SetUp) (hx : |x| ≤ X) (hX : X ≤ 2 ^ 31) :
    (0 ≤ pi.windupBound X ∧ pi.windupBound X ≤ 2 ^ 52) ∧ |pi.ki * x| ≤ 2 ^ 51 ∧ |pi.kp *
      x| ≤ 2 ^ 51 := by
  obtain ⟨q, hq, hp, hq₁, hq₂⟩ := h.scale
  obtain ⟨hmin, hbias, hbias', hmax⟩ := h.range
  have hX0 : 0 ≤ X := Int.le_trans (abs_nonneg x) hx
  have hki := abs_mul_le h.ki (Int.le_trans hx hX)
  have hkp := abs_mul_le h.kp (Int.le_trans hx hX)
  have hprop : 0 ≤ |pi.kp| * X ∧ |pi.kp| * X ≤ 2 ^ 20 * 2 ^ 31 :=
    ⟨Int.mul_nonneg (abs_nonneg _) hX0, Int.mul_le_mul h.kp hX hX0 (by decide)⟩
  have hrange : 0 ≤ (pi.yMax - pi.yMin + 1) * (2 * q) ∧
      (pi.yMax - pi.yMin + 1) * (2 * q) ≤ 2 ^ 30 * 2 ^ 16 :=
    ⟨Int.mul_nonneg (by omega) (by omega),
      Int.mul_le_mul (by omega) (by omega) (by omega) (by decide)⟩
  refine ⟨?_, hki, hkp⟩
  rw [Pi.windupBound, hp]
  omega

theorem piOutput_eq (h : pi.SetUp) (hx : |x| ≤ X) (hX : X ≤ 2 ^ 31)
    (hi : |pi.integrator| ≤ pi.windupBound X) :
    i64 (pi.integrator + i64 (pi.ki * x)) = pi.integrator + pi.ki * x ∧
      piOutput pi (pi.integrator + pi.ki * x) x = i32 (pi.output x) := by
  obtain ⟨q, hq, hp, hq₁, hq₂⟩ := h.scale
  obtain ⟨hbound, hki, hkp⟩ := h.bounds hx hX
  rw [abs_le] at hi hki hkp
  have hki64 : i64 (pi.ki * x) = pi.ki * x := i64_of_range (by omega)
  have hkp64 : i64 (x * pi.kp) = pi.kp * x := by
    rw [Int.mul_comm]
    exact i64_of_range (by omega)
  rw [hki64, i64_of_range (x := pi.integrator + pi.ki * x) (by omega)]
  refine ⟨rfl, ?_⟩
  simp only [piOutput, Pi.output, hkp64, hq]
  rw [i32_of_range (x := q) (by omega),
    i64_of_range (x := pi.integrator + pi.ki * x + pi.kp * x) (by omega),
    i64_of_range (x := pi.integrator + pi.ki * x + pi.kp * x + q) (by omega),
    Int.shiftRight_eq_div_pow, Int.add_mul, ← Int.add_assoc pi.integrator]
  push_cast
  rw [hp]

theorem piUpdate_spec (h : pi.SetUp) (hx : |x| ≤ X) (hX : X ≤ 2 ^ 31)
    (hi : |pi.integrator| ≤ pi.windupBound X) :
    (piUpdate pi x).y = clampTo pi.yMin pi.yMax (i32 (pi.output x)) ∧
    (piUpdate pi x).integrator =
      if i32 (pi.output x) < pi.yMin then
        if pi.integrator < pi.integrator + pi.ki * x then pi.integrator + pi.ki * x
          else pi.integrator
      else if pi.yMax < i32 (pi.output x) then
        if pi.integrator + pi.ki * x < pi.integrator then pi.integrator + pi.ki * x
          else pi.integrator
      else pi.integrator + pi.ki * x := by
  obtain ⟨hnew, hout⟩ := piOutput_eq h hx hX hi
  have ha := h.antiWindup
  simp only [piUpdate, hnew, hout, clampTo]
  split
  · simp [ha]
  · split
    · simp [ha]
    · exact ⟨rfl, rfl⟩

theorem Pi.SetUp.windup (h : pi.SetUp) (hx : |x| ≤ X) (hi : |pi.integrator| ≤ pi.windupBound X) :
    (pi.yMin ≤ pi.output x ∧
      pi.output x ≤ pi.yMax → |pi.integrator + pi.ki * x| ≤ pi.windupBound X) ∧
    (pi.output x < pi.yMin → pi.integrator < pi.integrator + pi.ki * x →
      |pi.integrator + pi.ki * x| ≤ pi.windupBound X) ∧
    (pi.yMax < pi.output x → pi.integrator + pi.ki * x < pi.integrator →
      |pi.integrator + pi.ki * x| ≤ pi.windupBound X) := by
  obtain ⟨q, hq, hp, hq₁, hq₂⟩ := h.scale
  obtain ⟨hmin, hbias, hbias', hmax⟩ := h.range
  have hprop : |pi.kp * x| ≤ |pi.kp| * X := abs_mul_le (Int.le_refl _) hx
  have hout : pi.output x = (pi.integrator + pi.ki * x + pi.kp * x + q) / (2 * q) + pi.bias := by
    rw [Pi.output, hp, hq, Int.add_mul, ← Int.add_assoc pi.integrator]
  have hbound : pi.windupBound X = bound pi.yMin pi.yMax (2 * q) q (|pi.kp| * X) := by
    rw [Pi.windupBound, hp, hq]
    rfl
  rw [hbound] at hi
  rw [hout, hbound]
  refine ⟨fun hin => ?_, fun hlt hup => ?_, fun hgt hdown => ?_⟩
  · exact bound_of_mem (by omega) (by omega) ⟨hbias.le, hbias'⟩ hprop hin.1 hin.2
  · exact bound_of_below (by omega) (by omega) ⟨hbias.le, hbias'⟩ hprop hlt hi hup
  · exact bound_of_above (by omega) ⟨hbias.le, hbias'⟩ hprop hgt hi hdown

/-- One sample is answered exactly, with the integrator in its range, if and only if the narrowing
does no harm. -/
theorem piUpdate_exact_iff (h : pi.SetUp) (hx : |x| ≤ X) (hX : X ≤ 2 ^ 31)
    (hi : |pi.integrator| ≤ pi.windupBound X) :
    pi.ExactAt X (piUpdate pi x) ↔ pi.NarrowsAt X x := by
  obtain ⟨hmin, hbias, hbias', hmax⟩ := h.range
  obtain ⟨hy, hint⟩ := piUpdate_spec h hx hX hi
  obtain ⟨hin, hbelow, habove⟩ := h.windup hx hi
  rw [Pi.ExactAt, piUpdate_x, hy, hint, Pi.NarrowsAt]
  by_cases hlow : i32 (pi.output x) < pi.yMin
  · rw [if_pos hlow, clampTo_of_lt hlow]
    constructor
    · rintro ⟨hclamp, -⟩
      -- the exact output is below, or it is the lower limit
      have hle := (clampTo_eq_lo_iff (by omega)).mp hclamp
      omega
    · rintro (⟨hlt, -⟩ | ⟨hgt, hgt'⟩ | ⟨hle, hle'⟩ | ⟨hclamp, hnew⟩)
      · refine ⟨(clampTo_of_lt hlt).symm, ?_⟩
        split
        case isTrue hup => exact hbelow hlt hup
        case isFalse => exact hi
      · omega
      · rw [i32_of_range (by omega)] at hlow
        omega
      · refine ⟨hclamp, ?_⟩
        split
        case isTrue => exact hnew
        case isFalse => exact hi
  rw [if_neg hlow]
  by_cases hhigh : pi.yMax < i32 (pi.output x)
  · rw [if_pos hhigh, clampTo_of_gt (by omega) hhigh]
    constructor
    · rintro ⟨hclamp, -⟩
      have hge := (clampTo_eq_hi_iff (by omega)).mp hclamp
      omega
    · rintro (⟨hlt, hlt'⟩ | ⟨hgt, -⟩ | ⟨hle, hle'⟩ | ⟨hclamp, hnew⟩)
      · exact absurd hlt' hlow
      · refine ⟨(clampTo_of_gt (by omega) hgt).symm, ?_⟩
        split
        case isTrue hdown => exact habove hgt hdown
        case isFalse => exact hi
      · rw [i32_of_range (by omega)] at hhigh
        omega
      · refine ⟨hclamp, ?_⟩
        split
        case isTrue => exact hnew
        case isFalse => exact hi
  · rw [if_neg hhigh]
    constructor
    · exact fun hboth => .inr (.inr (.inr hboth))
    · rintro (⟨-, hlt'⟩ | ⟨-, hgt'⟩ | hmem | hboth)
      · exact absurd hlt' hlow
      · exact absurd hgt' hhigh
      · rw [i32_of_range (by omega)]
        exact ⟨rfl, hin hmem⟩
      · exact hboth

end

/-! ## The controllers that are set up -/

/-- `BOARD_SPLL_DIV_BITS` and `BOARD_SPLL_DAC_BITS`: the default, babywr, and ertm14 and wr2rf. -/
def boardBits : List (Nat × Nat) := [(0, 16), (4, 20), (8, 24)]

/-- The default gains: nodes and the SyncTech daughterboard; the standard and the Safran board; the
other daughterboards. -/
def defaultGains : List (Int × Int) := [(-1100, -30), (1100, 30), (2000, 15)]

/-- A PLL as `mpll_init` leaves it, with the default gains or with the schedule of the eRTM14. -/
structure Configured (b : Board) (m : Main) : Prop where
  bits : (b.divBits, b.dacBits) ∈ boardBits
  yMin : m.pi.yMin = 5 * 2 ^ b.divBits
  yMax : m.pi.yMax = 2 ^ b.dacBits - 5 * 2 ^ b.divBits
  bias : m.pi.bias = 2 ^ (b.dacBits - 1)
  antiWindup : m.pi.antiWindup = 1
  gains : (m.gainSched = none ∧ m.pi.shift = 12 - b.divBits ∧ (m.pi.kp, m.pi.ki) ∈ defaultGains) ∨
    ((b.divBits, b.dacBits) = (8, 24) ∧
      ∃ g, m.gainSched = some g ∧ g.nStages = 1 ∧ g.stages = ocxoStages)

theorem mpllInit_configured {b : Board} {m : Main} {first : Bool}
    (hbits : (b.divBits, b.dacBits) ∈ boardBits)
    (htarget : b.target = .wrNode ∨
      ∃ v, b.target = .wrSwitch v ∧ first = true ∧ v.mainPllKp = 0 ∧ v.mainPllKi = 0)
    (hsched : m.gainSched = none ∨ ((b.divBits, b.dacBits) = (8, 24) ∧
      ∃ g, m.gainSched = some g ∧ g.nStages = 1 ∧ g.stages = ocxoStages)) (idRef idOut : Nat) :
    Configured b (mpllInit b first m idRef idOut) := by
  have hgains : ∀ pi : Pi, ∃ kp ki, (kp, ki) ∈ defaultGains ∧
      mpllInitGains b first pi = { pi with kp := kp, ki := ki } := by
    intro pi
    rcases htarget with hnode | ⟨v, hswitch, hfirst, hkp, hki⟩
    · exact ⟨-1100, -30, by decide, by rw [mpllInitGains, hnode]⟩
    · refine ⟨(switchMainGains v).1, (switchMainGains v).2, ?_, by
        rw [mpllInitGains, hswitch]
        exact if_pos hfirst⟩
      simp only [switchMainGains, hkp, if_true]
      split
      · decide
      · split
        · decide
        · split <;> decide
  obtain ⟨kp, ki, hmem, hpi⟩ := hgains { m.pi with
    yMin := 5 * 2 ^ b.divBits
    yMax := 2 ^ b.dacBits - 5 * 2 ^ b.divBits
    antiWindup := 1
    bias := 2 ^ (b.dacBits - 1)
    shift := 12 - b.divBits }
  have hinit : (mpllInit b first m idRef idOut).pi = piInit { m.pi with
      yMin := 5 * 2 ^ b.divBits
      yMax := 2 ^ b.dacBits - 5 * 2 ^ b.divBits
      antiWindup := 1
      bias := 2 ^ (b.dacBits - 1)
      shift := 12 - b.divBits
      kp := kp
      ki := ki } := by
    rw [mpllInit, hpi]
  refine ⟨hbits, by rw [hinit]; rfl, by rw [hinit]; rfl, by rw [hinit]; rfl, by rw [hinit]; rfl, ?_⟩
  rcases hsched with hnone | ⟨hertm, g, hg, hn, hstages⟩
  · refine .inl ⟨?_, by rw [hinit]; rfl, by rw [hinit]; exact hmem⟩
    simp [mpllInit, hnone]
  · refine .inr ⟨hertm, { g with currentStage := 0, lockedD := false }, ?_, hn, hstages⟩
    simp [mpllInit, hg]

theorem Pi.SameSetUp.trans {pi pi' pi'' : Pi} (h : pi.SameSetUp pi') (h' : pi'.SameSetUp pi'') :
    pi.SameSetUp pi'' :=
  ⟨h'.kp.trans h.kp, h'.ki.trans h.ki, h'.shift.trans h.shift, h'.bias.trans h.bias,
    h'.antiWindup.trans h.antiWindup, h'.yMin.trans h.yMin, h'.yMax.trans h.yMax⟩

theorem Pi.SameSetUp.setUp {pi pi' : Pi} (h : pi.SameSetUp pi') (hs : pi.SetUp) : pi'.SetUp := by
  obtain ⟨h₁, h₂, h₃, h₄, h₅, h₆, h₇⟩ := h
  obtain ⟨ha, hb, hc, hd, he⟩ := hs
  exact ⟨h₅ ▸ ha, h₃ ▸ hb, by rw [h₆, h₄, h₇]; exact hc, h₁ ▸ hd, h₂ ▸ he⟩

theorem Pi.SameSetUp.windupBound {pi pi' : Pi} (h : pi.SameSetUp pi') (X : Int) :
    pi'.windupBound X = pi.windupBound X := by
  rw [Pi.windupBound, Pi.windupBound, h.yMax, h.yMin, h.shift, h.kp]

/-- No schedule, or one with a single stage whose gains are those of the controller. -/
def OneStage (pi : Pi) : Option GainSchedule → Prop
  | none => True
  | some g => g.nStages = 1 ∧ g.currentStage = 0 ∧ pi.HasGains (g.stages 0)

section

variable {b : Board} {m : Main} {pi₀ : Pi}

theorem mpllHandleGainSchedule_pi (h : OneStage m.pi m.gainSched) :
    (mpllHandleGainSchedule m).pi = m.pi ∧ OneStage m.pi (mpllHandleGainSchedule m).gainSched := by
  unfold mpllHandleGainSchedule
  cases hg : m.gainSched with
  | none =>
    exact ⟨rfl, trivial⟩
  | some g =>
    rw [hg] at h
    obtain ⟨hn, hcur, hkp, hki, hshift⟩ := h
    dsimp only
    split
    · -- the stage is entered again
      refine ⟨?_, hn, rfl, hkp, hki, hshift⟩
      simp [enterStage, GainSchedule.stage, ← hkp, ← hki, ← hshift]
    · split
      · rw [if_pos (by omega)]
        exact ⟨rfl, hn, hcur, hkp, hki, hshift⟩
      · exact ⟨rfl, hn, hcur, hkp, hki, hshift⟩

theorem OneStage.of_same {pi pi' : Pi} (h : pi.SameSetUp pi') : ∀ {s : Option GainSchedule},
    OneStage pi s → OneStage pi' s
  | none, _ => trivial
  | some _, ⟨hn, hcur, hkp, hki, hshift⟩ =>
    ⟨hn, hcur, h.kp.trans hkp, h.ki.trans hki, h.shift.trans hshift⟩

theorem control_pi (h : OneStage m.pi m.gainSched) (reverseSpll : Int)
    (tics : BitVec 32) (err : Int) :
    (control reverseSpll tics m err).pi = piUpdate m.pi err ∧
      OneStage (piUpdate m.pi err) (control reverseSpll tics m err).gainSched := by
  have hs := shifted_driven m reverseSpll err
  have hone : OneStage (shifted m reverseSpll err).pi (shifted m reverseSpll err).gainSched := by
    rw [hs.pi, hs.gainSched]
    exact h.of_same (piUpdate_sameSetUp m.pi err)
  rw [← hs.pi]
  unfold control
  dsimp only
  split
  · exact mpllHandleGainSchedule_pi hone
  · exact ⟨rfl, hone⟩

theorem mpllUpdate_pi_pair (h : OneStage m.pi m.gainSched) (reverseSpll : Int) (tics : BitVec 32)
    (r : Regs) {tag : Int} {source : Nat} (he : m.enabled = true)
    (hpair : (takeTag b m tag source).HasPair) :
    OneStage (mpllUpdate b reverseSpll tics m r tag source).main.pi
      (mpllUpdate b reverseSpll tics m r tag source).main.gainSched ∧
    (mpllUpdate b reverseSpll tics m r tag source).main.pi =
      piUpdate m.pi (mpllUpdate b reverseSpll tics m r tag source).main.pi.x := by
  have hsame := (takeTag_sameLoop b m tag source).trans (discardEarly_sameLoop b _)
  have hpi : (detected b tics (takeTag b m tag source)).pi = m.pi := hsame.pi
  have hsched : (detected b tics (takeTag b m tag source)).gainSched = m.gainSched :=
    hsame.gainSched
  have hone : OneStage (detected b tics (takeTag b m tag source)).pi
      (detected b tics (takeTag b m tag source)).gainSched := by
    rw [hpi, hsched]
    exact h
  obtain ⟨hctl, hctl'⟩ := control_pi hone reverseSpll tics
    (pairError (detected b tics (takeTag b m tag source))
      (freqError (detected b tics (takeTag b m tag source))))
  rw [hpi] at hctl hctl'
  simp only [mpllUpdate_of_pair _ _ he _ hpair, processPair, hctl, piUpdate_x]
  exact ⟨hctl', trivial⟩

theorem mpllUpdate_pi_other (reverseSpll : Int) (tics : BitVec 32) (r : Regs) {tag : Int}
    {source : Nat} (hno : ¬(m.enabled = true ∧ (takeTag b m tag source).HasPair)) :
    (mpllUpdate b reverseSpll tics m r tag source).main.pi = m.pi ∧
      (mpllUpdate b reverseSpll tics m r tag source).main.gainSched = m.gainSched := by
  have hsame := takeTag_sameLoop b m tag source
  by_cases he : m.enabled = true
  · rw [mpllUpdate_of_no_pair _ _ he _ fun hp => hno ⟨he, hp⟩]
    exact ⟨hsame.pi, hsame.gainSched⟩
  · rw [mpllUpdate_of_disabled _ _ (Bool.eq_false_iff.mpr he)]
    exact ⟨rfl, rfl⟩

end

/-! ## Runs -/

section

variable (b : Board) (reverseSpll X : Int)

def PiExactAt (o : Observed) (e : MainEvent) : Prop :=
  e.Completes b o.main → o.main.pi.ExactAt X (o.step b reverseSpll e).main.pi

/-- Its error is at most `X`. -/
def ErrorWithin (o : Observed) (e : MainEvent) : Prop :=
  e.Completes b o.main → |(o.step b reverseSpll e).main.pi.x| ≤ X

def PiNarrowsAt (o : Observed) (e : MainEvent) : Prop :=
  e.Completes b o.main → o.main.pi.NarrowsAt X (o.step b reverseSpll e).main.pi.x

end

/-- A running PLL with the controller `pi`. -/
structure PiInv (pi : Pi) (X : Int) (o : Observed) : Prop where
  same : pi.SameSetUp o.main.pi
  stage : OneStage o.main.pi o.main.gainSched
  integrator : |o.main.pi.integrator| ≤ o.main.pi.windupBound X

section

variable {b : Board} {reverseSpll X : Int} {pi : Pi} {o : Observed} {e : MainEvent}

theorem Observed.step_pi (h : OneStage o.main.pi o.main.gainSched) (reverseSpll : Int)
    (e : MainEvent) :
    OneStage (o.step b reverseSpll e).main.pi (o.step b reverseSpll e).main.gainSched ∧
      (e.Completes b o.main →
        (o.step b reverseSpll e).main.pi = piUpdate o.main.pi (o.step b reverseSpll e).main.pi.x) ∧
      (¬e.Completes b o.main → (o.step b reverseSpll e).main.pi = o.main.pi) := by
  cases e with
  | tag tics source value =>
    by_cases hc : (MainEvent.tag tics source value).Completes b o.main
    · obtain ⟨hstage, hpi⟩ := mpllUpdate_pi_pair h reverseSpll tics o.regs hc.1 hc.2
      exact ⟨hstage, fun _ => hpi, fun hno => absurd hc hno⟩
    · obtain ⟨hpi, hsched⟩ := mpllUpdate_pi_other reverseSpll tics o.regs hc
      refine ⟨?_, fun hyes => absurd hyes hc, fun _ => hpi⟩
      simp only [Observed.step, hpi, hsched]
      exact h
  | setTarget target => exact ⟨h, fun hc => hc.elim, fun _ => rfl⟩
  | setPsFreeze freeze => exact ⟨h, fun hc => hc.elim, fun _ => rfl⟩
  | setVcoFreeze freeze => exact ⟨h, fun hc => hc.elim, fun _ => rfl⟩

theorem PiInv.step (h : PiInv pi X o) (he : PiExactAt b reverseSpll X o e) :
    PiInv pi X (o.step b reverseSpll e) := by
  obtain ⟨hstage, hpair, hother⟩ := Observed.step_pi h.stage reverseSpll e
  by_cases hc : e.Completes b o.main
  · have hsame : o.main.pi.SameSetUp (o.step b reverseSpll e).main.pi := by
      rw [hpair hc]
      exact piUpdate_sameSetUp ..
    refine ⟨h.same.trans hsame, hstage, ?_⟩
    rw [hsame.windupBound]
    exact (he hc).2
  · rw [hother hc] at hstage
    exact ⟨by rw [hother hc]; exact h.same, by rw [hother hc]; exact hstage,
      by rw [hother hc]; exact h.integrator⟩

theorem PiInv.exact_iff (h : PiInv pi X o) (hs : pi.SetUp) (hX : X ≤ 2 ^ 31)
    (hx : ErrorWithin b reverseSpll X o e) :
    PiExactAt b reverseSpll X o e ↔ PiNarrowsAt b reverseSpll X o e := by
  obtain ⟨-, hpair, -⟩ := Observed.step_pi h.stage reverseSpll e
  refine imp_congr_right fun hc => ?_
  have hiff := piUpdate_exact_iff (h.same.setUp hs) (hx hc) hX h.integrator
  rw [← hpair hc] at hiff
  exact hiff

theorem Configured.limits {m : Main} (h : Configured b m) :
    (0 ≤ m.pi.yMin ∧ m.pi.yMin < m.pi.bias ∧ m.pi.bias ≤ m.pi.yMax ∧ m.pi.yMax < 2 ^ 30) ∧
      b.divBits ≤ 8 := by
  have hbits := h.bits
  rw [h.yMin, h.yMax, h.bias]
  simp only [boardBits, List.mem_cons, Prod.mk.injEq, List.not_mem_nil, or_false] at hbits
  rcases hbits with ⟨h₁, h₂⟩ | ⟨h₁, h₂⟩ | ⟨h₁, h₂⟩ <;> rw [h₁, h₂] <;> decide

theorem piInit_inv (hs : pi.SetUp) (hX : 0 ≤ X) :
    (piInit pi).SetUp ∧ |(piInit pi).integrator| ≤ (piInit pi).windupBound X := by
  obtain ⟨q, hq, hp, hq₁, -⟩ := hs.scale
  obtain ⟨hmin, hbias, hbias', -⟩ := hs.range
  have hrange := Int.mul_nonneg (show 0 ≤ pi.yMax - pi.yMin + 1 by omega) (show 0 ≤ 2 * q by omega)
  have hprop := Int.mul_nonneg (abs_nonneg pi.kp) hX
  refine ⟨⟨hs.antiWindup, hs.shift, hs.range, hs.kp, hs.ki⟩, ?_⟩
  calc |(piInit pi).integrator| = 0 := abs_zero
    _ ≤ (pi.yMax - pi.yMin + 1) * (2 * q) + |pi.kp| * X + q := by omega
    _ = (piInit pi).windupBound X := by
        rw [← hp, ← hq]
        rfl

theorem Configured.started {m : Main} (h : Configured b m) (tics : BitVec 32) (r : Regs) :
    ∃ pi : Pi, pi.SetUp ∧ (Observed.start b tics m r).main.pi = piInit pi ∧
      OneStage (piInit pi) (Observed.start b tics m r).main.gainSched := by
  obtain ⟨hrange, hdiv⟩ := h.limits
  have haw : m.pi.antiWindup ≠ 0 := by
    rw [h.antiWindup]
    decide
  rcases h.gains with ⟨hnone, hshift, hk⟩ | ⟨hertm, g, hg, hn, hstages⟩
  · have hk' : |m.pi.kp| ≤ 2 ^ 20 ∧ |m.pi.ki| ≤ 2 ^ 20 := by
      simp only [defaultGains, List.mem_cons, Prod.mk.injEq, List.not_mem_nil, or_false] at hk
      rcases hk with ⟨h₁, h₂⟩ | ⟨h₁, h₂⟩ | ⟨h₁, h₂⟩ <;> rw [h₁, h₂] <;> decide
    refine ⟨m.pi, ⟨haw, by omega, hrange, hk'.1, hk'.2⟩, ?_⟩
    simp only [Observed.start, mpllStart, Main.started, hnone]
    trivial
  · refine ⟨{ m.pi with kp := -64000, ki := -80, shift := 8 },
      ⟨haw, (by decide : (1 : Int) ≤ 8 ∧ (8 : Int) ≤ 16), hrange,
        (by decide : |(-64000 : Int)| ≤ 2 ^ 20), (by decide : |(-80 : Int)| ≤ 2 ^ 20)⟩, ?_⟩
    simp only [Observed.start, mpllStart, Main.started, startGainSchedule, hg, hstages]
    exact ⟨rfl, hn, rfl, rfl, rfl, rfl⟩

theorem Configured.start {m : Main} (h : Configured b m) (tics : BitVec 32) (r : Regs)
    (hX : 0 ≤ X) :
    (Observed.start b tics m r).main.pi.SetUp ∧
      PiInv (Observed.start b tics m r).main.pi X (Observed.start b tics m r) := by
  obtain ⟨pi, hs, hpi, hone⟩ := h.started tics r
  obtain ⟨hs', hint⟩ := piInit_inv hs hX
  rw [← hpi] at hs' hint hone
  exact ⟨hs', ⟨rfl, rfl, rfl, rfl, rfl, rfl, rfl⟩, hone, hint⟩

end

/-- For every configuration and every run whose errors are at most `X`: every pair is answered
exactly, with the integrator in its range, if and only if the narrowing to `int` never does harm. -/
theorem piRun_exact_iff (b : Board) (m : Main) (hm : Configured b m) (reverseSpll : Int)
    (tics : BitVec 32) (r : Regs) (X : Int) (hX : 0 ≤ X ∧ X ≤ 2 ^ 31) (es : List MainEvent)
    (herr : Run.Steps (Observed.step b reverseSpll) (ErrorWithin b reverseSpll X)
      (Observed.start b tics m r) es) :
    Run.Steps (Observed.step b reverseSpll) (PiExactAt b reverseSpll X)
      (Observed.start b tics m r) es ↔
      Run.Steps (Observed.step b reverseSpll) (PiNarrowsAt b reverseSpll X)
        (Observed.start b tics m r) es := by
  obtain ⟨hs, hinv⟩ := hm.start tics r hX.1
  exact Run.steps_iff_of_inv (fun o e h => h.step)
    (fun o e h he => h.exact_iff hs hX.2 he) hinv herr

def nodeMain : Main := mpllInit Board.generic true default 0 1

theorem piRun_exact_first_pair :
    Run.Steps (Observed.step Board.generic 1) (PiExactAt Board.generic 1 2000)
      (Observed.start Board.generic 0 nodeMain default) [.tag 0 0 0, .tag 0 1 100] :=
  (piRun_exact_iff Board.generic nodeMain
    (mpllInit_configured (by decide) (.inl rfl) (.inl rfl) 0 1) 1 0 default 2000 (by decide)
    [.tag 0 0 0, .tag 0 1 100]
    ⟨fun hc => absurd hc.2 (by decide), fun _ => by decide, trivial⟩).mpr
    ⟨fun hc => absurd hc.2 (by decide), fun _ => by decide, trivial⟩

def ertm14Board : Board := { Board.generic with divBits := 8, dacBits := 24 }

/-- Its main PLL, with the schedule of `ertm14_spll_setup`. -/
def ertm14Main : Main :=
  mpllInit ertm14Board true { (default : Main) with gainSched := some (.ofStages 1 ocxoStages) } 0 1

/-- The first pair of two tags 500000 apart: the boosted error asks for more than `2^31`, and the
DAC goes to the other end of its range. -/
theorem ertm14_first_pair :
    let o := (Observed.start ertm14Board 0 ertm14Main default).step ertm14Board 1 (.tag 0 0 0)
    let o' := o.step ertm14Board 1 (.tag 0 1 500000)
    Configured ertm14Board ertm14Main ∧ o'.main.pi.x = -10000000 ∧ o'.main.pi.y = o.main.pi.yMin ∧
      clampTo o.main.pi.yMin o.main.pi.yMax (o.main.pi.output o'.main.pi.x) = o.main.pi.yMax :=
  ⟨mpllInit_configured (by decide) (.inl rfl) (.inr ⟨rfl, _, rfl, rfl, rfl⟩) 0
    1, by decide, by decide, by decide⟩

end Wrpc.SoftPll
