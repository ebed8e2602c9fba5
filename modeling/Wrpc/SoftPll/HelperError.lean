/-
# The accumulators of the helper PLL

The error of the helper is its tag, unwrapped by `p_adder`, against a setpoint
that moves on by `2^14` with every tag.  Both accumulators grow; they are brought
back by `10^8` together, and only when both are above `10^8`.

`HelperRun` keeps beside the helper what the tags say: how many there were, the
first, the latest and how often they went down.  From these the accumulators
are known as long as they have not overflowed (`Tracks`): the setpoint and the
unwrapped tag, less the rebases, of which there have been as many as the
smaller of the two allows.  Nothing bounds the larger one, so a reference that
keeps away from the nominal frequency overflows it (`helperRun_exact_iff`).
-/
import Wrpc.Lib.Run
import Wrpc.Lib.Saturation
import Wrpc.SoftPll.Loops

namespace Wrpc.SoftPll

open CInt

/-! ## Runs of the helper -/

structure RefTag where
  tics : BitVec 32
  value : BitVec 22

/-- A helper, and the number of tags since its start, the first and the latest of them, and how many
were smaller than the one before. -/
structure HelperRun where
  helper : Helper
  regs : Regs
  n : Nat
  first : Int
  latest : Int
  wraps : Nat

def HelperRun.step (w : HelperRun) (e : RefTag) : HelperRun :=
  let u := helperUpdate e.tics w.helper w.regs e.value.toNat w.helper.refSrc
  { helper := u.1
    regs := u.2
    n := w.n + 1
    first := if w.n = 0 then e.value.toNat else w.first
    latest := e.value.toNat
    wraps := if w.n ≠ 0 ∧ (e.value.toNat : Int) < w.latest then w.wraps + 1 else w.wraps }

/-- Behind `helper_start`. -/
def HelperRun.start (b : Board) (reverseSpll : Int) (tics : BitVec 32) (h : Helper) (r : Regs) :
    HelperRun :=
  let u := helperStart b reverseSpll tics h r
  { helper := u.1, regs := u.2, n := 0, first := -1, latest := -1, wraps := 0 }

def HelperRun.unwrapped (w : HelperRun) : Int := w.latest + 2 ^ 22 * w.wraps

def HelperRun.expected (w : HelperRun) : Int := w.first + 2 ^ 14 * (w.n - 2 : Nat)

/-- `HELPER_ERROR_CLAMP` -/
def clampError (err : Int) : Int := Saturation.clampTo (-150000) 150000 err

/-! ## What is asked of a tag -/

def FitsInt (x : Int) : Prop := -2 ^ 31 ≤ x ∧ x < 2 ^ 31

instance (x : Int) : Decidable (FitsInt x) := inferInstanceAs (Decidable (_ ∧ _))

/-- An accumulator and its sum with the tag fit an `int`. -/
def AccFits (tag acc : Int) : Prop := FitsInt acc ∧ FitsInt (tag + acc)

instance (tag acc : Int) : Decidable (AccFits tag acc) := inferInstanceAs (Decidable (_ ∧ _))

/-- `p_adder` with the wrap-around of the tag in it. -/
def Helper.adderAt (h : Helper) (tag : Int) : Int := h.pAdder + if tag < h.tagD0 then 2 ^ 22 else 0

def Helper.rebaseAt (h : Helper) (tag : Int) : Int :=
  if 100000000 < tag + h.adderAt tag ∧ 100000000 < h.pSetpoint then 100000000 else 0

/-- Nothing the call stores in an accumulator, and no sum of one with the tag, leaves the range of
`int`. -/
structure HelperFits (h : Helper) (tag : Int) : Prop where
  adder : AccFits tag (h.adderAt tag)
  setpoint : AccFits tag h.pSetpoint
  rebasedAdder : AccFits tag (h.adderAt tag - h.rebaseAt tag)
  nextSetpoint : AccFits tag (h.pSetpoint - h.rebaseAt tag + 2 ^ 14)

/-- The error the controller is given is exact, and nothing overflows; the
first tag has no error. -/
def ErrorExactAt (w : HelperRun) (e : RefTag) : Prop :=
  w.n ≠ 0 → (w.step e).helper.pi.x = clampError ((w.step e).unwrapped - (w.step e).expected) ∧
    HelperFits w.helper e.value.toNat

def HelperRun.rebases (w : HelperRun) : Int := max 0 ((min w.unwrapped w.expected - 1) / 100000000)

/-- The larger of the accumulators is not too far from the smaller. -/
def AccumulatorsBounded (w : HelperRun) (e : RefTag) : Prop :=
  w.n ≠ 0 →
    (w.step e).unwrapped - 100000000 * w.rebases < 2 ^ 31 ∧
    (w.step e).latest + (w.step e).expected - 100000000 * w.rebases < 2 ^ 31 ∧
    (w.step e).latest + (w.step e).expected + 2 ^ 14 - 100000000 * (w.step e).rebases < 2 ^ 31

/-! ## The invariant -/

structure Tracks (w : HelperRun) : Prop where
  pos : 0 < w.n
  first : 0 ≤ w.first ∧ w.first < 2 ^ 22
  latest : 0 ≤ w.latest ∧ w.latest < 2 ^ 22
  tagD0 : w.helper.tagD0 = w.latest
  adder : w.helper.pAdder = w.unwrapped - w.latest - 100000000 * w.rebases
  setpoint : w.helper.pSetpoint = w.first + 2 ^ 14 * (w.n - 1 : Nat) - 100000000 * w.rebases

def HelperInv (w : HelperRun) : Prop :=
  (w.n = 0 ∧ w.wraps = 0 ∧ w.helper.tagD0 = -1 ∧ w.helper.pAdder = 0) ∨ Tracks w

section

variable {w : HelperRun} {e : RefTag}

theorem RefTag.range (e : RefTag) : 0 ≤ (e.value.toNat : Int) ∧ (e.value.toNat : Int) < 2 ^ 22 := by
  omega

theorem Tracks.step_unwrapped (h : Tracks w) : (w.step e).unwrapped =
    e.value.toNat + 2 ^ 22 * w.wraps + if (e.value.toNat : Int) < w.latest then 2 ^ 22 else 0 := by
  have hn : w.n ≠ 0 := Nat.ne_of_gt h.pos
  simp only [HelperRun.unwrapped, HelperRun.step, hn, ne_eq, not_false_eq_true, true_and]
  split
  · omega
  · omega

theorem Tracks.step_expected (h : Tracks w) :
    (w.step e).expected = w.first + 2 ^ 14 * (w.n - 1 : Nat) := by
  have hn : w.n ≠ 0 := Nat.ne_of_gt h.pos
  simp only [HelperRun.expected, HelperRun.step, hn, if_false]
  rfl

/-- The smaller accumulator, and with it the number of rebases, does not go down; it goes up by less
than one rebase. -/
theorem Tracks.step_min (h : Tracks w) :
    (w.unwrapped ≤ (w.step e).unwrapped ∧ (w.step e).unwrapped ≤ w.unwrapped + 2 ^ 22) ∧
      w.expected ≤ (w.step e).expected ∧ (w.step e).expected ≤ w.expected + 2 ^ 14 := by
  have hlatest := h.latest
  rw [h.step_unwrapped, h.step_expected, HelperRun.unwrapped, HelperRun.expected]
  constructor
  · split <;> omega
  · omega

theorem Tracks.rebases_le (h : Tracks w) :
    100000000 * w.rebases ≤ w.unwrapped ∧ 100000000 * w.rebases ≤ w.expected := by
  have hlatest := h.latest
  have hfirst := h.first
  have hu : 0 ≤ w.unwrapped := by
    rw [HelperRun.unwrapped]
    omega
  have he : 0 ≤ w.expected := by
    rw [HelperRun.expected]
    omega
  rw [HelperRun.rebases]
  omega

theorem Tracks.step_rebases (h : Tracks w) : (w.step e).rebases = w.rebases +
    if 100000000 < (w.step e).unwrapped - 100000000 * w.rebases ∧
      100000000 < (w.step e).expected - 100000000 * w.rebases then 1 else 0 := by
  obtain ⟨⟨hu, hu'⟩, hx, hx'⟩ := h.step_min (e := e)
  obtain ⟨hru, hrx⟩ := h.rebases_le
  rw [HelperRun.rebases, HelperRun.rebases] at *
  split <;> omega

theorem Tracks.adderAt (h : Tracks w) : w.helper.adderAt e.value.toNat =
    (w.step e).unwrapped - e.value.toNat - 100000000 * w.rebases := by
  rw [Helper.adderAt, h.tagD0, h.adder, h.step_unwrapped, HelperRun.unwrapped]
  omega

theorem Tracks.setpointAt (h : Tracks w) :
    w.helper.pSetpoint = (w.step e).expected - 100000000 * w.rebases := by
  rw [h.setpoint, h.step_expected]

theorem Tracks.rebaseAt (h : Tracks w) : w.helper.rebaseAt e.value.toNat =
    100000000 * ((w.step e).rebases - w.rebases) := by
  rw [Helper.rebaseAt, h.adderAt, h.setpointAt (e := e), h.step_rebases]
  split <;> omega

theorem Tracks.fits_iff (h : Tracks w) :
    HelperFits w.helper e.value.toNat ↔ AccumulatorsBounded w e := by
  obtain ⟨⟨hu, hu'⟩, hx, hx'⟩ := h.step_min (e := e)
  obtain ⟨hru, hrx⟩ := h.rebases_le
  have hlatest : (w.step e).latest = e.value.toNat := rfl
  have hcount := h.step_rebases (e := e)
  have hadder := h.adderAt (e := e)
  have hsetpoint := h.setpointAt (e := e)
  have hrebase := h.rebaseAt (e := e)
  constructor
  · rintro ⟨⟨-, -, h₁⟩, ⟨-, -, h₂⟩, -, ⟨-, -, h₃⟩⟩ -
    omega
  · intro hb
    obtain ⟨h₁, h₂, h₃⟩ := hb (Nat.ne_of_gt h.pos)
    constructor <;> unfold AccFits FitsInt <;> split at hcount <;> omega

theorem helperUpdate_of_fits {h : Helper} (r : Regs) (hd : 0 ≤ h.tagD0)
    (hf : HelperFits h e.value.toNat) :
    (helperUpdate e.tics h r e.value.toNat h.refSrc).1.tagD0 = e.value.toNat ∧
    (helperUpdate e.tics h r e.value.toNat h.refSrc).1.pAdder =
      h.adderAt e.value.toNat - h.rebaseAt e.value.toNat ∧
    (helperUpdate e.tics h r e.value.toNat h.refSrc).1.pSetpoint =
      h.pSetpoint - h.rebaseAt e.value.toNat + 2 ^ 14 ∧
    (helperUpdate e.tics h r e.value.toNat h.refSrc).1.pi.x =
      clampError (i32 (e.value.toNat + h.adderAt e.value.toNat - h.pSetpoint)) := by
  obtain ⟨⟨hadder, hsum⟩, hsetpoint, hrebased, hnext⟩ := hf
  have hu : helperUnwrap h e.value.toNat = { h with pAdder := h.adderAt e.value.toNat } := by
    rw [Helper.adderAt] at hadder ⊢
    unfold helperUnwrap
    split
    case isTrue hlt =>
      rw [if_pos hlt] at hadder
      rw [i32_of_range hadder]
    case isFalse hge => rw [Int.add_zero]
  have ha : helperAdvance { h with pAdder := h.adderAt e.value.toNat } e.value.toNat =
      { h with
        pAdder := h.adderAt e.value.toNat - h.rebaseAt e.value.toNat
        pSetpoint := h.pSetpoint - h.rebaseAt e.value.toNat + 2 ^ 14
        tagD0 := e.value.toNat } := by
    have hnext' := hnext.1
    rw [Helper.rebaseAt] at hrebased hnext' ⊢
    unfold helperAdvance
    simp only [i32_of_range hsum]
    split
    case isTrue hboth =>
      rw [if_pos hboth] at hrebased hnext'
      have hset : FitsInt (h.pSetpoint - 100000000) := by
        obtain ⟨-, hs⟩ := hsetpoint.1
        unfold FitsInt
        omega
      simp only [i32_of_range hrebased.1, i32_of_range hset, i32_of_range hnext']
    case isFalse hnot =>
      rw [if_neg hnot, Int.sub_zero] at hnext'
      simp only [Int.sub_zero, i32_of_range hnext']
  have hupdate : (helperUpdate e.tics h r e.value.toNat h.refSrc).1 =
      helperControl e.tics (helperAdvance (helperUnwrap h e.value.toNat) e.value.toNat)
        (helperError (helperUnwrap h e.value.toNat) e.value.toNat) := by
    rw [helperUpdate, if_neg (by simp), if_neg (by omega)]
    rfl
  rw [hupdate, hu, ha]
  refine ⟨rfl, rfl, rfl, ?_⟩
  simp only [helperControl, piUpdate_x, helperError, i32_of_range hsum, clampError,
    Saturation.clampTo]
  grind

theorem Tracks.step (h : Tracks w) (hf : HelperFits w.helper e.value.toNat) :
    Tracks (w.step e) ∧
      (w.step e).helper.pi.x = clampError ((w.step e).unwrapped - (w.step e).expected) := by
  have hvalue := e.range
  have hn : w.n ≠ 0 := Nat.ne_of_gt h.pos
  have hd : 0 ≤ w.helper.tagD0 := by
    rw [h.tagD0]
    exact h.latest.1
  obtain ⟨htag, hadder, hsetpoint, hx⟩ := helperUpdate_of_fits w.regs hd hf
  rw [h.rebaseAt, h.adderAt] at hadder
  rw [h.rebaseAt, h.setpointAt (e := e)] at hsetpoint
  rw [h.adderAt, h.setpointAt (e := e)] at hx
  constructor
  · refine ⟨Nat.succ_pos _, ?_, hvalue, htag, ?_, ?_⟩
    · simp only [HelperRun.step, hn, if_false]
      exact h.first
    · refine hadder.trans ?_
      have hlatest : (w.step e).latest = e.value.toNat := rfl
      omega
    · refine hsetpoint.trans ?_
      have hfirst : (w.step e).first = w.first := by
        simp [HelperRun.step, hn]
      have hcount : (w.step e).n = w.n + 1 := rfl
      rw [h.step_expected, hfirst, hcount]
      omega
  · obtain ⟨hu, -⟩ := h.step_min (e := e)
    obtain ⟨hru, hrx⟩ := h.rebases_le
    have hbounded := h.fits_iff.mp hf hn
    have hlatest : (w.step e).latest = e.value.toNat := rfl
    have hexp := (h.step_min (e := e)).2
    have hdiff : (e.value.toNat : Int) +
        ((w.step e).unwrapped - e.value.toNat - 100000000 * w.rebases) -
        ((w.step e).expected - 100000000 * w.rebases) =
        (w.step e).unwrapped - (w.step e).expected := by omega
    rw [hdiff, i32_of_range (by omega)] at hx
    exact hx

theorem helperInv_first (hn : w.n = 0) (hw : w.wraps = 0) (hd : w.helper.tagD0 = -1)
    (ha : w.helper.pAdder = 0) : Tracks (w.step e) := by
  have hvalue := e.range
  have hupdate : (helperUpdate e.tics w.helper w.regs e.value.toNat w.helper.refSrc).1 =
      { w.helper with pSetpoint := e.value.toNat, tagD0 := e.value.toNat } := by
    rw [helperUpdate, if_neg (by simp), if_pos (by omega)]
  have hfirst : (w.step e).first = e.value.toNat := if_pos hn
  have hwraps : (w.step e).wraps = 0 := by
    simp [HelperRun.step, hn, hw]
  have hcount : (w.step e).n = 1 := by
    simp only [HelperRun.step, hn]
  have hlatest : (w.step e).latest = e.value.toNat := rfl
  have hunwrapped : (w.step e).unwrapped = e.value.toNat := by
    rw [HelperRun.unwrapped, hlatest, hwraps]
    omega
  have hrebases : (w.step e).rebases = 0 := by
    rw [HelperRun.rebases, hunwrapped, HelperRun.expected, hfirst, hcount]
    omega
  refine ⟨Nat.succ_pos _, hfirst ▸ hvalue, hvalue, ?_, ?_, ?_⟩
  · simp only [HelperRun.step, hupdate]
  · rw [hrebases, hunwrapped, hlatest]
    simp only [HelperRun.step, hupdate, ha]
    omega
  · rw [hrebases, hfirst, hcount]
    simp only [HelperRun.step, hupdate]
    omega

theorem HelperInv.step (h : HelperInv w) (he : ErrorExactAt w e) : HelperInv (w.step e) := by
  rcases h with ⟨hn, hw, hd, ha⟩ | h
  · exact .inr (helperInv_first hn hw hd ha)
  · exact .inr (h.step (he (Nat.ne_of_gt h.pos)).2).1

theorem HelperInv.exact_iff (h : HelperInv w) : ErrorExactAt w e ↔ AccumulatorsBounded w e := by
  rcases h with ⟨hn, -⟩ | h
  · exact iff_of_true (fun hne => absurd hn hne) fun hne => absurd hn hne
  · constructor
    · intro he
      exact h.fits_iff.mp (he (Nat.ne_of_gt h.pos)).2
    · intro hb _
      have hf := h.fits_iff.mpr hb
      exact ⟨(h.step hf).2, hf⟩

end

/-- The helper's error is exact and its accumulators stay in range, at every tag, if and only if the
unwrapped tag and the setpoint never get too far apart. -/
theorem helperRun_exact_iff (b : Board) (reverseSpll : Int) (tics : BitVec 32)
    (h : Helper) (r : Regs) (es : List RefTag) :
    Run.Steps HelperRun.step ErrorExactAt (HelperRun.start b reverseSpll tics h r) es ↔
      Run.Steps HelperRun.step AccumulatorsBounded (HelperRun.start b reverseSpll tics h r) es :=
  Run.steps_iff_of_inv (I := HelperInv) (fun _ _ hI he => hI.step he) (fun _ _ hI _ => hI.exact_iff)
    (.inl ⟨rfl, rfl, rfl, rfl⟩) (Run.steps_true _ es)

/-- Tags that go down by one, each almost a whole wrap-around after the one before. -/
def fallingTags (n : Nat) : List RefTag :=
    (List.range n).map fun i => ⟨0, BitVec.ofNat 22 (1000 - i)⟩

/-- A reference that fast gets the largest error with the wrong sign. -/
theorem fallingTags_wrong_sign :
    let w := Run.run HelperRun.step (HelperRun.start Board.generic 1 0 default default)
      (fallingTags 516)
    w.helper.pi.x = -150000 ∧ clampError (w.unwrapped - w.expected) = 150000 := by
  decide +kernel

end Wrpc.SoftPll
