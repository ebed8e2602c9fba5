/-
# The loops on a clean tag stream

What the loops are for: when the clocks are right, the tags of the reference
advance by one period at a time and those of a disciplined oscillator are equal
to them.  On such a stream every error is 0, and the lock detectors count up to
their thresholds and stay there.

    helper      10000 reference tags after the first
    main, aux   1049 pairs: 50 for the frequency detector, and the phase
                detector counts its 1000 from the 50th on

A reference that stops moving is late by one more period with every tag; a PLL
whose own oscillator is silent completes no pair and keeps its detectors as
they are.
-/
import Wrpc.SoftPll.Loops
import Wrpc.SoftPll.PhaseDetector

namespace Wrpc.SoftPll

open CInt

/-- A detector that has counted `n` of the `N` good samples it needs. -/
structure Counting (ld : LockDet) (N n : Nat) : Prop where
  lockSamples : ld.lockSamples = N
  threshold : 0 ≤ ld.threshold
  lockCnt : ld.lockCnt = n
  le : n ≤ N
  locked : ld.locked = decide (n = N)

variable {h : Helper} {t : Int} {n : Nat}

theorem Counting.zero {ld : LockDet} {N : Nat} (h : Counting ld N n) :
    Counting (ldUpdate ld 0).1 N (min (n + 1) N) := by
  obtain ⟨hN, ht, hc, hle, hl⟩ := h
  have habs : abs32 0 ≤ ld.threshold := ht
  unfold ldUpdate
  rw [if_pos habs]
  rcases Nat.lt_or_ge n N with hn | hn
  · have hlt : ld.lockCnt < ld.lockSamples := by omega
    rw [Nat.min_eq_left hn]
    simp only [if_pos hlt]
    split
    · refine ⟨hN, ht, ?_, hn, ?_⟩
      · show ld.lockCnt + 1 = (n + 1 : Nat)
        omega
      · exact (decide_eq_true (by omega)).symm
    · refine ⟨hN, ht, ?_, hn, ?_⟩
      · show ld.lockCnt + 1 = (n + 1 : Nat)
        omega
      · rw [hl, decide_eq_false (by omega), decide_eq_false (by omega)]
  · have hnN : n = N := by omega
    subst hnN
    have hge : ¬ld.lockCnt < ld.lockSamples := by omega
    have heq : ld.lockCnt = ld.lockSamples := by omega
    rw [Nat.min_eq_right (by omega)]
    simp only [if_neg hge, if_pos heq]
    exact ⟨hN, ht, hc, hle, (decide_eq_true rfl).symm⟩

structure Losing (ld : LockDet) (n : Nat) : Prop where
  threshold : ld.threshold = 200
  delockSamples : ld.delockSamples = 100
  lockCnt : ld.lockCnt = n
  locked : ld.locked = true

theorem Losing.bad {ld : LockDet} (h : Losing ld (n + 1)) (hn : 100 ≤ n) {y : Int}
    (hy : 200 < abs32 y) :
    if n = 100 then (ldUpdate ld y).1.locked = false else Losing (ldUpdate ld y).1 n := by
  obtain ⟨ht, hd, hc, hl⟩ := h
  have hbad : ¬abs32 y ≤ ld.threshold := by omega
  have hgt : ld.delockSamples < ld.lockCnt := by omega
  unfold ldUpdate
  split
  · next h100 =>
    have hlost : ld.lockCnt - 1 = ld.delockSamples ∧ ld.locked = true := ⟨by omega, hl⟩
    simp only [if_pos hlost]
  · next h100 =>
    have hkept : ¬(ld.lockCnt - 1 = ld.delockSamples ∧ ld.locked = true) := by omega
    simp only [if_neg hkept]
    exact ⟨ht, hd, by show ld.lockCnt - 1 = n; omega, hl⟩

/-! ## The helper -/

/-- The tag one period after `t`. -/
def nextTag (t : Int) : Int := (t + 2 ^ 14) % 2 ^ 22

/-- A helper that has seen tag `t` and expects its `k`-th tag from there on now. -/
structure HelperAt (h : Helper) (t : Int) (k : Int) : Prop where
  tagD0 : h.tagD0 = t
  range : 0 ≤ t ∧ t < 2 ^ 22
  setpoint : h.pSetpoint ≡ t + h.pAdder + k * 2 ^ 14 [ZMOD 2 ^ 32]
  setup : h.ld.threshold = 200 ∧ h.ld.delockSamples = 100

theorem helperUnwrap_pSetpoint (h : Helper) (tag : Int) :
    (helperUnwrap h tag).pSetpoint = h.pSetpoint := by
  unfold helperUnwrap
  split
  · rfl
  · rfl

theorem helperError_at {k : Int} (hat : HelperAt h t k) (tag : Int) {d : Int}
    (hd : tag + (helperUnwrap h tag).pAdder ≡ t + h.pAdder + d [ZMOD 2 ^ 32]) :
    i32 (i32 (tag + (helperUnwrap h tag).pAdder) - (helperUnwrap h tag).pSetpoint)
      = i32 (d - k * 2 ^ 14) := by
  have hset := hat.setpoint
  have hin := i32_modEq_self (tag + (helperUnwrap h tag).pAdder)
  rw [helperUnwrap_pSetpoint]
  refine i32_congr ?_
  unfold Int.ModEq at *
  omega

theorem helperTrack_at {k k' : Int} (hat : HelperAt h t k) (tics : BitVec 32) {tag d : Int}
    (hrange : 0 ≤ tag ∧ tag < 2 ^ 22)
    (hd : tag + (helperUnwrap h tag).pAdder ≡ t + h.pAdder + d [ZMOD 2 ^ 32])
    (hk : k' * 2 ^ 14 = (k + 1) * 2 ^ 14 - d) : HelperAt (helperTrack tics h tag) tag k' := by
  have hadv : (helperAdvance (helperUnwrap h tag) tag).pSetpoint
        - (helperAdvance (helperUnwrap h tag) tag).pAdder
      ≡ h.pSetpoint + 2 ^ 14 - (helperUnwrap h tag).pAdder [ZMOD 2 ^ 32] := by
    have h₁ := i32_modEq_self ((helperUnwrap h tag).pAdder - 100000000)
    have h₂ := i32_modEq_self (h.pSetpoint - 100000000)
    have h₃ := i32_modEq_self (i32 (h.pSetpoint - 100000000) + 2 ^ 14)
    have h₄ := i32_modEq_self (h.pSetpoint + 2 ^ 14)
    unfold helperAdvance Int.ModEq at *
    dsimp only
    rw [helperUnwrap_pSetpoint]
    split
    · dsimp only
      omega
    · rw [helperUnwrap_pSetpoint]
      omega
  have hset := hat.setpoint
  refine ⟨rfl, hrange, ?_, ?_⟩
  · show (helperAdvance (helperUnwrap h tag) tag).pSetpoint
      ≡ tag + (helperAdvance (helperUnwrap h tag) tag).pAdder + k' * 2 ^ 14 [ZMOD 2 ^ 32]
    unfold Int.ModEq at *
    omega
  · rw [helperTrack_ld, (ldUpdate_setup _ _).1, (ldUpdate_setup _ _).2]
    exact hat.setup

theorem nextTag_range (t : Int) : 0 ≤ nextTag t ∧ nextTag t < 2 ^ 22 := by
  unfold nextTag
  omega

theorem HelperAt.unwrap_same {k : Int} (hat : HelperAt h t k) : helperUnwrap h t = h := by
  unfold helperUnwrap
  rw [hat.tagD0, if_neg (by omega)]

theorem helperTrack_next (hat : HelperAt h t 1) (tics : BitVec 32) :
    HelperAt (helperTrack tics h (nextTag t)) (nextTag t) 1 ∧
      (helperTrack tics h (nextTag t)).ld = (ldUpdate h.ld 0).1 := by
  have hd : nextTag t + (helperUnwrap h (nextTag t)).pAdder ≡ t + h.pAdder + 2 ^ 14
      [ZMOD 2 ^ 32] := by
    have hr := hat.range
    have hi := i32_modEq_self (h.pAdder + 2 ^ 22)
    unfold helperUnwrap
    rw [hat.tagD0]
    unfold nextTag Int.ModEq at *
    split
    · dsimp only
      omega
    · omega
  have herr : helperError (helperUnwrap h (nextTag t)) (nextTag t) = 0 := by
    unfold helperError
    rw [helperError_at hat (nextTag t) hd]
    decide
  refine ⟨helperTrack_at hat tics (nextTag_range t) hd (by omega), ?_⟩
  rw [helperTrack_ld, herr]

theorem helperTrack_stuck {k : Nat} (hat : HelperAt h t k) (hk : 1 ≤ k) (hlt : k < 2 ^ 16)
    (tics : BitVec 32) :
    HelperAt (helperTrack tics h t) t (k + 1 : Nat) ∧
      ∃ y, 200 < abs32 y ∧ (helperTrack tics h t).ld = (ldUpdate h.ld y).1 := by
  have hd : t + (helperUnwrap h t).pAdder ≡ t + h.pAdder + 0 [ZMOD 2 ^ 32] := by
    rw [hat.unwrap_same, add_zero]
  refine ⟨helperTrack_at hat tics hat.range hd (by omega), _, ?_, helperTrack_ld tics h t⟩
  have hraw : i32 (i32 (t + (helperUnwrap h t).pAdder) - (helperUnwrap h t).pSetpoint)
      = -(k * 2 ^ 14) := by
    rw [helperError_at hat t hd, i32_of_range (by omega)]
    omega
  have herr : -150000 ≤ helperError (helperUnwrap h t) t ∧
      helperError (helperUnwrap h t) t < -200 := by
    unfold helperError
    simp only [hraw]
    omega
  unfold abs32
  rw [if_neg (by omega), i32_of_range (by omega)]
  omega

theorem HelperAt.update {k : Int} (hat : HelperAt h t k) (tics : BitVec 32) (r : Regs) (v : Int) :
    (helperUpdate tics h r v h.refSrc).1 = helperTrack tics h v := by
  have hpos : ¬h.tagD0 < 0 := by
    rw [hat.tagD0]
    exact Int.not_lt.mpr hat.range.1
  unfold helperUpdate
  simp [if_neg hpos]

/-- The same helper, with `n` good samples of the 10000 it needs. -/
structure HelperOn (h : Helper) (t k : Int) (n : Nat) : Prop extends HelperAt h t k where
  ld : Counting h.ld 10000 n

theorem HelperOn.ref (hon : HelperOn h t 1 n) (tics : BitVec 32) (r : Regs) :
    HelperOn (helperUpdate tics h r (nextTag t) h.refSrc).1 (nextTag t) 1 (min (n + 1) 10000) := by
  obtain ⟨hat, hld⟩ := helperTrack_next hon.toHelperAt tics
  rw [hon.update]
  exact ⟨hat, hld ▸ hon.ld.zero⟩

theorem HelperAt.stuck {k : Nat} (hat : HelperAt h t k) (hk : 1 ≤ k) (hlt : k < 2 ^ 16)
    (hn : Losing h.ld (n + 1)) (h100 : 100 ≤ n) (tics : BitVec 32) (r : Regs) :
    HelperAt (helperUpdate tics h r t h.refSrc).1 t (k + 1 : Nat) ∧
      if n = 100 then (helperUpdate tics h r t h.refSrc).1.ld.locked = false
      else Losing (helperUpdate tics h r t h.refSrc).1.ld n := by
  obtain ⟨hat', y, hy, hld⟩ := helperTrack_stuck hat hk hlt tics
  rw [hat.update]
  refine ⟨hat', ?_⟩
  rw [hld]
  exact hn.bad h100 hy

/-! ## The main and auxiliary PLLs -/

/-- A running PLL that has been given the same tags on both channels, between
two pairs. -/
structure MainOn (m : Main) : Prop where
  enabled : m.enabled = true
  gainSched : m.gainSched = none
  tags : m.tagRef = -1 ∧ m.tagOut = -1
  adders : m.adderRef = m.adderOut
  range : -2 ^ 31 ≤ m.adderOut ∧ m.adderOut < 2 ^ 31
  last : m.tagRefD = m.tagOutD
  raw : m.tagRefRawD = m.tagOutRawD2
  deltas : m.drefDt = m.doutDt
  shift : m.phaseShiftTarget = m.phaseShiftCurrent

/-- The same PLL when the reference tag `v` of the next pair is there. -/
structure HalfOn (m : Main) (v : Int) : Prop where
  enabled : m.enabled = true
  gainSched : m.gainSched = none
  tags : m.tagRef = v ∧ m.tagOut = -1
  nonneg : 0 ≤ v
  adder : m.adderRef
    = if 0 ≤ m.tagOutD ∧ v < m.tagOutD then i32 (m.adderOut + 2 ^ 22) else m.adderOut
  range : -2 ^ 31 ≤ m.adderOut ∧ m.adderOut < 2 ^ 31
  last : m.tagRefD = v
  raw : m.tagRefRawD = v
  delta : m.drefDt = (updateDtagDt m.doutDt v m.tagOutRawD2).1
  shift : m.phaseShiftTarget = m.phaseShiftCurrent

theorem updateDtagDt_snd (dt tag tagD : Int) : (updateDtagDt dt tag tagD).2 = tag := by
  unfold updateDtagDt
  grind

section

variable {b : Board} {m : Main}

variable (reverseSpll : Int) {v : Int} {n source : Nat}

theorem captureRef_eq (hb : b.frac = false) (v : Int) (source : Nat) :
    captureRef b m v source = if source = m.idRef then { m with tagRef := v } else m := by
  unfold captureRef
  rw [hb]
  rfl

theorem captureOut_eq (hb : b.frac = false) (v : Int) (source : Nat) :
    captureOut b m v source = if source = m.idOut then { m with tagOut := v } else m := by
  unfold captureOut
  rw [hb]
  rfl

theorem unwrapOut_of_neg (h : m.tagOut = -1) : unwrapOut m = m := by
  unfold unwrapOut
  rw [if_neg (by omega)]

theorem unwrapRef_again (hlast : m.tagRefD = m.tagRef) (hraw : m.tagRefRawD = m.tagRef) :
    unwrapRef m = m := by
  unfold unwrapRef
  split
  · have hdt : updateDtagDt m.drefDt m.tagRef m.tagRefRawD = (m.drefDt, m.tagRefRawD) := by
      unfold updateDtagDt
      rw [if_pos hraw.symm]
    have hno : ¬(0 ≤ m.tagRefD ∧ m.tagRef < m.tagRefD) := by omega
    simp only [hdt, if_neg hno]
    cases m
    dsimp only at hlast
    subst hlast
    rfl
  · rfl

theorem takeTag_ref (hb : b.frac = false) (hne : m.idRef ≠ m.idOut)
    (hto : m.tagOut = -1) (v : Int) :
    takeTag b m v m.idRef = unwrapRef { m with tagRef := v } := by
  unfold takeTag
  rw [captureRef_eq hb, if_pos rfl, captureOut_eq hb, if_neg hne]
  refine unwrapOut_of_neg ?_
  unfold unwrapRef
  split
  · exact hto
  · exact hto

theorem MainOn.ref (hb : b.frac = false) (h : MainOn m) (hne : m.idRef ≠ m.idOut)
    (reverseSpll : Int) (tics : BitVec 32) (r : Regs) (hv : 0 ≤ v) :
    HalfOn (mpllUpdate b reverseSpll tics m r v m.idRef).main v := by
  have htake := takeTag_ref hb hne h.tags.2 v
  have hunwrap : unwrapRef { m with tagRef := v } = { m with
      tagRef := v
      drefDt := (updateDtagDt m.drefDt v m.tagRefRawD).1
      tagRefRawD := v
      adderRef := if 0 ≤ m.tagRefD ∧ v < m.tagRefD then i32 (m.adderRef + 2 ^ 22) else m.adderRef
      tagRefD := v } := by
    unfold unwrapRef
    rw [if_pos hv]
    simp only [updateDtagDt_snd]
  have hp : ¬(takeTag b m v m.idRef).HasPair := by
    rw [htake, hunwrap]
    rintro ⟨-, ho⟩
    have := h.tags.2
    simp only at ho
    omega
  rw [mpllUpdate_of_no_pair _ _ h.enabled _ hp, htake, hunwrap]
  refine ⟨h.enabled, h.gainSched, ⟨rfl, h.tags.2⟩, hv, ?_, h.range, rfl, rfl, ?_, h.shift⟩
  · rw [h.last, h.adders]
  · rw [h.deltas, h.raw]

/-- A PLL whose output channel is silent: whatever the other channels bring, no
pair is completed. -/
structure Quiet (m : Main) : Prop where
  enabled : m.enabled = true
  tagOut : m.tagOut = -1

theorem Quiet.other (hb : b.frac = false) (h : Quiet m) (hne : source ≠ m.idOut)
    (reverseSpll : Int) (tics : BitVec 32) (r : Regs) (v : Int) :
    m.SameLoop (mpllUpdate b reverseSpll tics m r v source).main ∧
      Quiet (mpllUpdate b reverseSpll tics m r v source).main := by
  have htags := (takeTag_tags m v source hb).2
  rw [if_neg hne, h.tagOut] at htags
  have hp : ¬(takeTag b m v source).HasPair := by
    rintro ⟨-, ho⟩
    omega
  have hsame := takeTag_sameLoop b m v source
  rw [mpllUpdate_of_no_pair _ _ h.enabled _ hp]
  exact ⟨hsame, hsame.enabled.trans h.enabled, htags⟩

structure Paired (m : Main) : Prop where
  adders : m.adderRef = m.adderOut
  range : -2 ^ 31 ≤ m.adderOut ∧ m.adderOut < 2 ^ 31
  tags : m.tagRef = m.tagOut
  last : m.tagRefD = m.tagOutD
  raw : m.tagRefRawD = m.tagOutRawD2
  deltas : m.drefDt = m.doutDt

theorem realign_paired (h : Paired m) : Paired (realign m) := by
  obtain ⟨ha, hr, ht, hl, hw, hd⟩ := h
  have hz : i32 (i32 (m.tagOut + m.adderOut) - i32 (m.tagOut + m.adderOut)) = 0 := by
    rw [sub_self]
    decide
  have hw0 : i32 (m.adderOut - wholePeriods 0) = m.adderOut := by
    have h0 : wholePeriods 0 = 0 := by decide
    rw [h0, sub_zero]
    exact i32_of_range hr
  have hrange := i32_lt (m.adderOut + 100000000)
  unfold realign
  simp only [ht, ha, lt_irrefl, if_false, hz, hw0]
  split
  · exact ⟨rfl, hrange, rfl, hl, hw, hd⟩
  · exact ⟨rfl, hr, rfl, hl, hw, hd⟩

theorem discardEarly_paired (h : Paired m) : Paired (discardEarly b m) := by
  have hcnt : ∀ {m : Main} (n : Int), Paired m → Paired { m with discardEarlyCnt := n } :=
    fun _ ⟨ha, hr, ht, hl, hw, hd⟩ => ⟨ha, hr, ht, hl, hw, hd⟩
  unfold discardEarly
  dsimp only
  split_ifs
  · exact h
  · exact hcnt _ (realign_paired h)
  · exact realign_paired h
  · exact hcnt _ h
  · exact h

theorem rebase_paired (h : Paired m) : Paired (rebase m) := by
  obtain ⟨ha, hr, ht, hl, hw, hd⟩ := h
  unfold rebase
  split
  · exact ⟨by rw [ha], i32_lt _, ht, hl, hw, hd⟩
  · exact ⟨ha, hr, ht, hl, hw, hd⟩

theorem shiftPhase_of_eq (h : m.phaseShiftTarget = m.phaseShiftCurrent) :
    shiftPhase reverseSpll m = m := by
  unfold shiftPhase
  rw [h]
  simp

theorem pairError_paired (h : Paired m) : pairError m (freqError m) = 0 := by
  have hf : freqError m = 0 := by
    unfold freqError
    rw [h.deltas, sub_self]
    decide
  have herr : i32 (i32 (i32 (m.adderRef + m.tagRef) - m.adderOut) - m.tagOut) = i32 0 := by
    have h₁ := i32_modEq_self (m.adderOut + m.tagOut)
    have h₂ := i32_modEq_self (i32 (m.adderOut + m.tagOut) - m.adderOut)
    rw [h.adders, h.tags]
    refine i32_congr ?_
    unfold Int.ModEq at *
    omega
  unfold pairError
  rw [hf, herr, mul_zero]
  split
  · decide
  · decide

theorem control_zero (tics : BitVec 32) (h : Paired m) (he : m.enabled = true)
    (hg : m.gainSched = none) (hs : m.phaseShiftTarget = m.phaseShiftCurrent) :
    MainOn (control reverseSpll tics m 0) ∧ (control reverseSpll tics m 0).freqLd = m.freqLd ∧
      (control reverseSpll tics m 0).phaseLd
        = (if m.freqLd.locked then (ldUpdate m.phaseLd 0).1 else m.phaseLd) ∧
      (control reverseSpll tics m 0).locked
        = (if m.freqLd.locked then (ldUpdate m.phaseLd 0).1.locked else m.locked) := by
  have hc : Paired (controlled m 0) := ⟨h.adders, h.range, rfl, h.last, h.raw, h.deltas⟩
  have hr := rebase_paired hc
  have hsame := rebase_sameLoop (controlled m 0)
  have htags : (rebase (controlled m 0)).tagRef = -1 ∧ (rebase (controlled m 0)).tagOut = -1 := by
    unfold rebase
    split
    · exact ⟨rfl, rfl⟩
    · exact ⟨rfl, rfl⟩
  have hshift : (rebase (controlled m 0)).phaseShiftTarget
      = (rebase (controlled m 0)).phaseShiftCurrent := by
    rw [hsame.target, hsame.current]
    exact hs
  have hfreq : (rebase (controlled m 0)).freqLd = m.freqLd := hsame.freqLd
  have hphase : (rebase (controlled m 0)).phaseLd = m.phaseLd := hsame.phaseLd
  have hlocked : (rebase (controlled m 0)).locked = m.locked := hsame.locked
  have hgs : (rebase (controlled m 0)).gainSched = none := hsame.gainSched.trans hg
  have hen : (rebase (controlled m 0)).enabled = true := hsame.enabled.trans he
  unfold control
  rw [shiftPhase_of_eq reverseSpll hshift]
  dsimp only
  rw [hfreq]
  split
  · refine ⟨?_, ?_, ?_, ?_⟩ <;> simp only [mpllHandleGainSchedule, phaseDetect, hgs]
    · exact ⟨hen, rfl, htags, hr.adders, hr.range, hr.last, hr.raw, hr.deltas, hshift⟩
    · exact hfreq
    · rw [hphase]
    · rw [hphase]
  · exact ⟨⟨hen, hgs, htags, hr.adders, hr.range, hr.last, hr.raw, hr.deltas, hshift⟩,
      hfreq, hphase, hlocked⟩

/-! ### Counting pairs -/

/-- The detectors of a PLL after `n` pairs without error.  The phase detector
only counts once the frequency detector is locked. -/
structure Pairs (m : Main) (n : Nat) : Prop where
  freq : Counting m.freqLd 50 (min n 50)
  phase : Counting m.phaseLd 1000 (min (n - 49) 1000)
  locked : m.locked = m.phaseLd.locked

theorem Pairs.locked_eq (h : Pairs m n) : m.locked = decide (1049 ≤ n) := by
  rw [h.locked, h.phase.locked]
  exact decide_eq_decide.mpr (by omega)

theorem Pairs.of_sameLoop {m' : Main} (h : Pairs m n) (hs : m.SameLoop m') : Pairs m' n :=
  ⟨hs.freqLd ▸ h.freq, hs.phaseLd ▸ h.phase, by rw [hs.locked, hs.phaseLd, h.locked]⟩

theorem processPair_next (hp : Paired m) (he : m.enabled = true) (hg : m.gainSched = none)
    (hs : m.phaseShiftTarget = m.phaseShiftCurrent) (hn : Pairs m n) (reverseSpll : Int)
    (tics : BitVec 32) (r : Regs) :
    MainOn (processPair b reverseSpll tics m r).main ∧
      Pairs (processPair b reverseSpll tics m r).main (n + 1) := by
  have hsame := discardEarly_sameLoop b m
  have hd := @discardEarly_paired b m hp
  have hzero : freqError (discardEarly b m) = 0 := by
    unfold freqError
    rw [hd.deltas, sub_self]
    decide
  have hdet : Paired (detected b tics m) :=
    ⟨hd.adders, hd.range, hd.tags, hd.last, hd.raw, hd.deltas⟩
  have hld : (detected b tics m).freqLd = (ldUpdate m.freqLd 0).1 := by
    show (ldUpdate (discardEarly b m).freqLd (freqError (discardEarly b m))).1 = _
    rw [hzero, hsame.freqLd]
  have hmain : (processPair b reverseSpll tics m r).main =
      control reverseSpll tics (detected b tics m) 0 := by
    unfold processPair
    dsimp only
    rw [pairError_paired hdet]
  obtain ⟨hon, hf', hp', hl'⟩ := control_zero reverseSpll tics hdet (hsame.enabled.trans he)
    (hsame.gainSched.trans hg) ((hsame.target.trans hs).trans hsame.current.symm)
  have hphase' : (detected b tics m).phaseLd = m.phaseLd := hsame.phaseLd
  have hlocked' : (detected b tics m).locked = m.locked := hsame.locked
  have hfreqCount := hn.freq.zero
  rw [hmain]
  rw [hphase', hld] at hp'
  rw [hphase', hlocked', hld] at hl'
  refine ⟨hon, ?_, ?_, ?_⟩
  · rw [hf', hld]
    convert hfreqCount using 1
    omega
  · rw [hp', hfreqCount.locked]
    simp only [decide_eq_true_eq]
    split
    · next hfull =>
      convert hn.phase.zero using 1
      omega
    · next hfull =>
      convert hn.phase using 1
      omega
  · rw [hl', hp']
    split
    · rfl
    · exact hn.locked

theorem takeTag_out (hb : b.frac = false) (h : HalfOn m v) (hne : m.idRef ≠ m.idOut) :
    takeTag b m v m.idOut = unwrapOut { m with tagOut := v } := by
  have hu : unwrapRef { m with tagOut := v } = { m with tagOut := v } :=
    unwrapRef_again (h.last.trans h.tags.1.symm) (h.raw.trans h.tags.1.symm)
  unfold takeTag
  rw [captureRef_eq hb, if_neg (Ne.symm hne), captureOut_eq hb, if_pos rfl, hu]

theorem HalfOn.out (hb : b.frac = false) (h : HalfOn m v) (hne : m.idRef ≠ m.idOut)
    (hn : Pairs m n) (reverseSpll : Int) (tics : BitVec 32) (r : Regs) :
    MainOn (mpllUpdate b reverseSpll tics m r v m.idOut).main ∧
      Pairs (mpllUpdate b reverseSpll tics m r v m.idOut).main (n + 1) := by
  have hsame := takeTag_sameLoop b m v m.idOut
  have hunwrap : unwrapOut { m with tagOut := v } = { m with
      tagOut := v
      doutDt := (updateDtagDt m.doutDt v m.tagOutRawD2).1
      tagOutRawD2 := v
      adderOut := if 0 ≤ m.tagOutD ∧ v < m.tagOutD then i32 (m.adderOut + 2 ^ 22) else m.adderOut
      tagOutD := v } := by
    unfold unwrapOut
    rw [if_pos h.nonneg]
    simp only [updateDtagDt_snd]
  have htake := (takeTag_out hb h hne).trans hunwrap
  have hpaired : Paired (takeTag b m v m.idOut) := by
    rw [htake]
    refine ⟨h.adder, ?_, h.tags.1, h.last, h.raw, h.delta⟩
    split
    · exact i32_lt _
    · exact h.range
  have hp : (takeTag b m v m.idOut).HasPair := by
    rw [htake]
    exact ⟨by rw [h.tags.1]; exact h.nonneg, h.nonneg⟩
  rw [mpllUpdate_of_pair _ _ h.enabled _ hp]
  exact processPair_next hpaired (hsame.enabled.trans h.enabled) (hsame.gainSched.trans h.gainSched)
    ((hsame.target.trans h.shift).trans hsame.current.symm) (hn.of_sameLoop hsame)
      reverseSpll tics r

structure Fresh (m : Main) : Prop where
  gainSched : m.gainSched = none
  deltas : m.drefDt = m.doutDt
  freq : m.freqLd.lockSamples = 50 ∧ 0 ≤ m.freqLd.threshold
  phase : m.phaseLd.lockSamples = 1000 ∧ 0 ≤ m.phaseLd.threshold
  disabled : m.enabled = false

theorem Fresh.start (h : Fresh m) (tics : BitVec 32) :
    MainOn (m.started b tics) ∧ Pairs (m.started b tics) 0 := by
  have hg := h.gainSched
  unfold Main.started startGainSchedule
  simp only [hg]
  have hrange : -2 ^ 31 ≤ (0 : Int) ∧ (0 : Int) < 2 ^ 31 := by decide
  refine ⟨⟨rfl, rfl, ⟨rfl, rfl⟩, rfl, hrange, rfl, rfl, h.deltas, rfl⟩, ?_⟩
  exact ⟨⟨h.freq.1, h.freq.2, rfl, by decide, rfl⟩,
    ⟨h.phase.1, h.phase.2, rfl, by decide, rfl⟩, rfl⟩

theorem MainOn.quiet (h : MainOn m) : Quiet m := ⟨h.enabled, h.tags.2⟩

theorem HalfOn.quiet (h : HalfOn m v) : Quiet m := ⟨h.enabled, h.tags.2⟩

end

end Wrpc.SoftPll
