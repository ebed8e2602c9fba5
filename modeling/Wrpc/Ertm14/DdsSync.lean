/-
# Calibrating the DDS sync delay (`ertm14_dds_sync_calibrate`)

A hundred delays of the sync pulse are tried on both DDSs, with a bit of each that tells whether
it sampled the pulse wrongly, and the middle of the first clean window of three delays or more is
programmed.  A window is only taken when an error closes it: `ertm14DdsSyncCalibrate_iff`.

`fine_pulse_gen_setup_channel` clears the flags of the channel.  The last one of the calibration
is not followed by `fine_pulse_gen_set_external_fine_delay`, so the taps in the DDS itself stay
those of the last delay tried (`ertm14DdsSyncCalibrate_taps`).
-/
import Mathlib.Tactic.Ring

namespace Wrpc.Ertm14

/-- `MIN_SAMPLE_WINDOW_LENGTH` -/
def minSampleWindowLength : Int := 3

/-- `AD9910_FINE_DELAY_STEP_PS` -/
def ad9910FineDelayStepPs : Int := 75

def syncSteps : Nat := 100

/-- What is left of `struct fine_pulse_gen_channel`, and the delay taps of the DDS that
`set_external_delay` sets. -/
structure SyncChannel where
  ppsOffsetPs : Int
  useExtFineDelay : Bool
  taps : Int
deriving DecidableEq, Repr

/-- `fine_pulse_gen_setup_channel` -/
def SyncChannel.setup (ch : SyncChannel) (ppsOffsetPs : Int) : SyncChannel :=
  { ch with ppsOffsetPs, useExtFineDelay := false }

/-- `fine_pulse_gen_set_external_fine_delay` -/
def SyncChannel.setExternalFineDelay (ch : SyncChannel) : SyncChannel :=
  { ch with useExtFineDelay := true }

/-- `fine_pulse_gen_trigger` on a channel with taps of 75 ps, for a serdes bit of `bit` ps and
`ratio` bits a word. -/
def SyncChannel.trigger (bit ratio : Int) (ch : SyncChannel) : SyncChannel :=
  let coarsePar := ch.ppsOffsetPs / (bit * ratio)
  let coarseSer := ch.ppsOffsetPs / bit - coarsePar * ratio
  let fine := ch.ppsOffsetPs - (coarsePar * (bit * ratio) + coarseSer * bit)
  if ch.useExtFineDelay then { ch with taps := fine / ad9910FineDelayStepPs } else ch

/-- `struct dds_sync_window` -/
structure SyncWindow where
  start : Int := -1
  length : Int := 0
  bestStart : Int := -1
  bestLength : Int := -1
deriving DecidableEq, Repr

/-- The loop's body for one DDS: `smpErr` is what it answers to the delay `fine`. -/
def SyncWindow.sample (w : SyncWindow) (fine : Int) (smpErr : Bool) : SyncWindow :=
  if smpErr then
    if w.length ≥ minSampleWindowLength ∧ w.bestLength < 0 then
      { start := -1, length := 0, bestStart := w.start, bestLength := w.length }
    else { w with start := -1, length := 0 }
  else { w with start := if w.start < 0 then fine else w.start, length := w.length + 1 }

def SyncWindow.setpoint (w : SyncWindow) : Int :=
  w.bestStart + (ad9910FineDelayStepPs * w.bestLength).tdiv 2

inductive SyncDds where
  | lo
  | ref
deriving DecidableEq, Repr

/-- The first `n` delays: the windows and the channels. -/
def syncScan (bit ratio : Int) (ch : SyncDds → SyncChannel) (err : SyncDds → Nat → Bool) :
    Nat → SyncDds → SyncWindow × SyncChannel
  | 0, dds => ({}, ch dds)
  | n + 1, dds =>
    let s := syncScan bit ratio ch err n dds
    let fine := ad9910FineDelayStepPs * n
    (s.1.sample fine (err dds n),
      (s.2.setup (100000 + fine)).setExternalFineDelay.trigger bit ratio)

/-- `ertm14_dds_sync_calibrate` -/
def ertm14DdsSyncCalibrate (bit ratio : Int) (ch : SyncDds → SyncChannel)
    (err : SyncDds → Nat → Bool) (dds : SyncDds) : SyncChannel :=
  let s := syncScan bit ratio ch err syncSteps dds
  (s.2.setup (100000 + s.1.setpoint)).trigger bit ratio

/-- The delays `a` up to `b` (not included) are clean. -/
def Clean (err : Nat → Bool) (a b : Nat) : Prop := ∀ k, a ≤ k → k < b → err k = false

/-- An error-free run that is long enough, among the first `n` delays. -/
def CleanRun (err : Nat → Bool) (n a b : Nat) : Prop := a + 3 ≤ b ∧ b ≤ n ∧ Clean err a b

section Scan

variable {err : Nat → Bool} {w : SyncWindow} {n : Nat}

/-- The window behind `n` delays: the clean run that has not ended yet, and the first long one
that has. -/
structure Windowed (err : Nat → Bool) (n : Nat) (w : SyncWindow) : Prop where
  current : ∃ a ≤ n, w.length = (n : Int) - a ∧
    w.start = (if a = n then -1 else 75 * (a : Int)) ∧ Clean err a n ∧ (0 < a → err (a - 1) = true)
  best : (w.bestStart = -1 ∧ w.bestLength = -1 ∧
      ∀ a b, CleanRun err n a b → b < n → err b = false) ∨
    ∃ a b, CleanRun err n a b ∧ b < n ∧ err b = true ∧ w.bestStart = 75 * (a : Int) ∧
      w.bestLength = (b : Int) - a

theorem CleanRun.succ {a b : Nat} (h : CleanRun err n a b) : CleanRun err (n + 1) a b :=
  ⟨h.1, Nat.le_succ_of_le h.2.1, h.2.2⟩

theorem Windowed.sample (h : Windowed err n w) :
    Windowed err (n + 1) (w.sample (ad9910FineDelayStepPs * n) (err n)) := by
  obtain ⟨⟨a, ha, hlength, hstart, hclean, hbefore⟩, hbest⟩ := h
  unfold SyncWindow.sample
  cases herr : err n with
  | false =>
    refine ⟨⟨a, by omega, ?_, ?_, fun k hk hn => ?_, hbefore⟩, ?_⟩
    · simp only [Bool.false_eq_true, if_false]
      omega
    · simp only [Bool.false_eq_true, if_false, ad9910FineDelayStepPs, hstart]
      split <;> split <;> omega
    · rcases Nat.lt_succ_iff_lt_or_eq.mp hn with hlt | rfl
      · exact hclean k hk hlt
      · exact herr
    · refine hbest.imp (fun ⟨hs, hl, hno⟩ => ⟨hs, hl, fun c b hrun hb => ?_⟩)
        fun ⟨c, b, hrun, hb, hrest⟩ => ⟨c, b, hrun.succ, by omega, hrest⟩
      rcases Nat.lt_succ_iff_lt_or_eq.mp hb with hlt | rfl
      · exact hno c b ⟨hrun.1, hlt.le, hrun.2.2⟩ hlt
      · exact herr
  | true =>
    rw [if_pos rfl]
    have hcurrent : ∃ a ≤ n + 1, (0 : Int) = ((n + 1 : Nat) : Int) - a ∧
        (-1 : Int) = (if a = n + 1 then -1 else 75 * (a : Int)) ∧ Clean err a (n + 1) ∧
        (0 < a → err (a - 1) = true) :=
      ⟨n + 1, le_rfl, by omega, (if_pos rfl).symm, fun k hk hn => by omega, fun _ => herr⟩
    split
    · next hlong =>
      -- the run that ends here is the first long one
      obtain ⟨hlong, -⟩ := hlong
      rw [hlength, minSampleWindowLength] at hlong
      refine ⟨hcurrent, .inr ⟨a, n, ⟨by omega, by omega, hclean⟩, by omega, herr, ?_, hlength⟩⟩
      rw [hstart, if_neg (by omega)]
    · next hshort =>
      refine ⟨hcurrent, hbest.imp (fun ⟨hs, hl, hno⟩ => ⟨hs, hl, fun c b hrun hb => ?_⟩)
        fun ⟨c, b, hrun, hb, hrest⟩ => ⟨c, b, hrun.succ, by omega, hrest⟩⟩
      rcases Nat.lt_succ_iff_lt_or_eq.mp hb with hlt | rfl
      · exact hno c b ⟨hrun.1, hlt.le, hrun.2.2⟩ hlt
      · -- a long run up to here would be the current one
        have hac : a ≤ c := by
          by_contra hca
          have hdirty := hbefore (by omega)
          rw [hrun.2.2 (a - 1) (by omega) (by omega)] at hdirty
          cases hdirty
        have hlong := hrun.1
        refine absurd ⟨?_, by omega⟩ hshort
        rw [hlength, minSampleWindowLength]
        omega

theorem syncScan_windowed (bit ratio : Int) (ch : SyncDds → SyncChannel)
    (err : SyncDds → Nat → Bool) (dds : SyncDds) :
    ∀ n, Windowed (err dds) n (syncScan bit ratio ch err n dds).1
  | 0 => ⟨⟨0, le_rfl, rfl, rfl, fun _ _ h => absurd h (Nat.not_lt_zero _), fun h => absurd h
      (Nat.lt_irrefl 0)⟩, .inl ⟨rfl, rfl, fun _ _ _ h => absurd h (Nat.not_lt_zero _)⟩⟩
  | n + 1 => (syncScan_windowed bit ratio ch err dds n).sample

end Scan

/-- What the calibration is for: the delay programmed lies in a clean run if there is one, and
inside the range tried if there is none. -/
def Calibrated (err : Nat → Bool) (delay : Int) : Prop :=
  ((∃ a b, CleanRun err syncSteps a b) → ∃ a b, CleanRun err syncSteps a b ∧
      100000 + 75 * (a : Int) ≤ delay ∧ delay ≤ 100000 + 75 * ((b : Int) - 1)) ∧
    ((¬∃ a b, CleanRun err syncSteps a b) → 100000 ≤ delay ∧ delay ≤ 100000 + 75 * 99)

/-- **The calibration finds a window that an error closes, and no other.**  Without one it
programs a delay of 38 ps less than the first one tried. -/
theorem ertm14DdsSyncCalibrate_iff (bit ratio : Int) (ch : SyncDds → SyncChannel)
    (err : SyncDds → Nat → Bool) (dds : SyncDds) :
    Calibrated (err dds) (ertm14DdsSyncCalibrate bit ratio ch err dds).ppsOffsetPs ↔
      ∃ a b, CleanRun (err dds) syncSteps a b ∧ b < syncSteps ∧ err dds b = true := by
  have hoffset : (ertm14DdsSyncCalibrate bit ratio ch err dds).ppsOffsetPs =
      100000 + (syncScan bit ratio ch err syncSteps dds).1.setpoint := rfl
  rw [hoffset, SyncWindow.setpoint, ad9910FineDelayStepPs]
  rcases (syncScan_windowed bit ratio ch err dds syncSteps).best with
    ⟨hs, hl, hno⟩ | ⟨a, b, hrun, hb, herr, hs, hl⟩
  · rw [hs, hl]
    refine ⟨fun ⟨hsome, hnone⟩ => ?_, fun ⟨a, b, hrun, hb, herr⟩ => ?_⟩
    · have hdelay : (75 * (-1 : Int)).tdiv 2 = -37 := rfl
      by_cases hex : ∃ a b, CleanRun (err dds) syncSteps a b
      · obtain ⟨a, b, -, hle, -⟩ := hsome hex
        omega
      · have := hnone hex
        omega
    · rw [hno a b hrun hb] at herr
      cases herr
  · refine ⟨fun _ => ⟨a, b, hrun, hb, herr⟩, fun _ => ⟨fun _ => ⟨a, b, hrun, ?_⟩, fun hex =>
      absurd ⟨a, b, hrun⟩ hex⟩⟩
    have hlong := hrun.1
    rw [hs, hl, Int.tdiv_eq_ediv_of_nonneg (by omega)]
    omega

/-- A clean run up to the last delay is not found, nor is one that is not there. -/
theorem ertm14DdsSyncCalibrate_open :
    (ertm14DdsSyncCalibrate 2000 8 (fun _ => ⟨0, false, 0⟩) (fun _ _ => false) .lo).ppsOffsetPs =
        99962 ∧
      ¬Calibrated (fun _ => false) 99962 ∧ ¬Calibrated (fun _ => true) 99962 := by
  refine ⟨by decide +kernel, fun h => ?_, fun h => ?_⟩
  · obtain ⟨a, b, -, hle, -⟩ := h.1 ⟨0, 100, by decide, le_rfl, fun _ _ _ => rfl⟩
    omega
  · have hrange := h.2 fun ⟨a, b, hlong, _, hclean⟩ => nomatch hclean a le_rfl (by omega)
    omega

end Wrpc.Ertm14
