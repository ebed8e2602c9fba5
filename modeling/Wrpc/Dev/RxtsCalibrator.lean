/-
# The RX timestamper calibration (`rxts_calibrator.c`)

A slave scans the phase shifter over a little more than a reference clock period and looks for
the two edges of a flip bit, with a deglitcher on each.  The transition phase is what comes out in
the middle, and it is stored as the calibration parameter `t24p` unless the stored one is close.

The comparison with the stored value is unsigned, and its lower bound wraps for a phase below the
threshold: such a phase is written every time (`calibT24pProcess_eq`).
-/
import Wrpc.Storage.CalibrationFile

namespace Wrpc.Rxts

open Storage

/-! ## The calibrator -/

/-- `CAL_SCAN_STEP` -/
def calScanStep : Int := 100

/-- `CAL_DEGLITCH_THRESHOLD` -/
def calDeglitchThreshold : Nat := 5

/-- `CAL_SCAN_RANGE`, for `REF_CLOCK_PERIOD_PS` = `P` -/
def calScanRange (P : Int) : Int := P + 3 * calDeglitchThreshold * calScanStep

/-- `CALIB_RETRIES` -/
def calibRetries : Nat := 1000

/-- `CALIB_T24P_RECALIBRATE_THRESHOLD` -/
def recalibrateThreshold : BitVec 32 := 2000

/-- `DEFAULT_T24P_PHASE_TRANSITION` -/
def defaultTransition : BitVec 32 := 2389

/-- `CAL_PARAM_T24P` -/
def calParamT24p : BitVec 32 := 0x74323470

inductive TdState where
  | waitInactive
  | gotTransition
  | done
deriving DecidableEq, Repr

/-- `struct trans_detect_state`, as `calib_t24p_init` leaves it. -/
structure TransDetect where
  state : TdState := .waitInactive
  sampleCount : Nat := 0
  transPhase : Int := 0
deriving DecidableEq, Repr

/-- `lookup_transition` -/
def lookupTransition (d : TransDetect) (flip : Bool) (phase : Int) (polarity : Bool) :
    TransDetect :=
  match d.state with
  | .waitInactive =>
    let count := if flip ≠ polarity then d.sampleCount + 1 else 0
    if count ≥ calDeglitchThreshold then { d with state := .gotTransition, sampleCount := 0 }
    else { d with sampleCount := count }
  | .gotTransition =>
    if flip ≠ polarity then { d with sampleCount := 0 }
    else if d.sampleCount + 1 ≥ calDeglitchThreshold then
      { state := .done, sampleCount := d.sampleCount + 1,
        transPhase := phase - calDeglitchThreshold * calScanStep }
    else { d with sampleCount := d.sampleCount + 1 }
  | .done => d

structure Calibrator where
  detRising : TransDetect := {}
  detFalling : TransDetect := {}
  calCurPhase : Int := 0
deriving DecidableEq, Repr

def normalize (P phase : Int) : Int := if phase ≥ P then phase % P else phase

/-- The phase between the edges at `rising` and `falling`. -/
def transition (P rising falling : Int) : Int :=
  let ttrans :=
    if falling > rising then falling - P.tdiv 2
    else if falling < rising then falling + P.tdiv 2
    else 0
  let ttrans := (ttrans + rising).tdiv 2
  let ttrans := if ttrans < 0 then ttrans + P else ttrans
  if ttrans ≥ P then ttrans - P else ttrans

/-- `rxts_calibration_update`: the value returned, what is stored to `t24p_value`, and the
statics.  `busy` is the phase shifter's answer and `flip` the pulse's. -/
def rxtsCalibrationUpdate (P : Int) (busy flip : Bool) (c : Calibrator) :
    Int × Option (BitVec 32) × Calibrator :=
  if busy then (0, none, c)
  else
    let rising := lookupTransition c.detRising flip c.calCurPhase true
    let falling := lookupTransition c.detFalling flip c.calCurPhase false
    if c.calCurPhase ≥ calScanRange P then
      if rising.state ≠ .done ∨ falling.state ≠ .done then
        (-1, some defaultTransition, { c with detRising := rising, detFalling := falling })
      else
        let rising := { rising with transPhase := normalize P rising.transPhase }
        let falling := { falling with transPhase := normalize P falling.transPhase }
        (1, some (BitVec.ofInt 32 (transition P rising.transPhase falling.transPhase)),
          { c with detRising := rising, detFalling := falling })
    else (0, none, ⟨rising, falling, c.calCurPhase + calScanStep⟩)

/-! ## Storing the result -/

structure Turn where
  busy : Bool
  flip : Bool
  linkUp : Bool

/-- The loop of `calib_t24p_process`: how the calibration ended and what it measured, or `none` if
it was given up. -/
def calibrationLoop (P : Int) (turn : Nat → Turn) :
    Nat → Nat → Calibrator → Option (Int × Option (BitVec 32))
  | 0, _, _ => none
  | fuel + 1, retries, c =>
    let r := rxtsCalibrationUpdate P (turn retries).busy (turn retries).flip c
    if r.1 ≠ 0 then some (r.1, r.2.1)
    else if retries > calibRetries ∨ (turn retries).linkUp = false then none
    else calibrationLoop P turn fuel (retries + 1) r.2.2

/-- `calib_t24p_process`: the value returned, what `*value` holds behind it, and the store. -/
def calibT24pProcess (P : Int) (d : Device) (o : Order) (turn : Nat → Turn) (c : Calibrator)
    (s : CalStore) : Int × Option (BitVec 32) × CalStore :=
  match calibrationLoop P turn (calibRetries + 2) 0 c with
  | none => (-1, none, s)
  | some (rv, value) =>
    let stored := result (storageGetCalibrationParameter s.cal calParamT24p)
    if rv < 0 then (stored.1, stored.2 <|> value, s)
    else
      let value := value.getD 0
      let prev := stored.2.getD 0
      if stored.1 < 0 ∨ prev < value - recalibrateThreshold ∨ prev > value + recalibrateThreshold
      then (0, some value, (result (d.setAndSave o s calParamT24p value)).2)
      else (0, some prev, s)

/-- **When a measured phase is stored**: unless it is at least the threshold and differs from the
stored one by no more than it. -/
theorem calibT24pProcess_eq (P : Int) (d : Device) (o : Order) (turn : Nat → Turn)
    (c : Calibrator) (s : CalStore) {σ : BitVec 32 → Option (BitVec 32)} (hσ : Holds s.cal σ)
    {value prev : BitVec 32} (hP : P = 8000 ∨ P = 16000) (hvalue : (value.toNat : Int) < P)
    (hprev : (prev.toNat : Int) < P) (hstored : σ calParamT24p = some prev)
    (hloop : calibrationLoop P turn (calibRetries + 2) 0 c = some (1, some value)) :
    calibT24pProcess P d o turn c s =
      if 2000 ≤ value.toNat ∧ |(value.toNat : Int) - prev.toNat| ≤ 2000 then (0, some prev, s)
      else (0, some value, (result (d.setAndSave o s calParamT24p value)).2) := by
  have hclose : (prev < value - recalibrateThreshold ∨ prev > value + recalibrateThreshold) ↔
      ¬(2000 ≤ value.toNat ∧ |(value.toNat : Int) - prev.toNat| ≤ 2000) := by
    rw [recalibrateThreshold, gt_iff_lt, BitVec.lt_def, BitVec.lt_def, BitVec.toNat_sub,
      BitVec.toNat_add, abs_le]
    have : (2000 : BitVec 32).toNat = 2000 := rfl
    omega
  rw [calibT24pProcess, hloop]
  simp only [storageGet_eq hσ, hstored]
  rw [if_neg (by decide)]
  simp only [Option.isSome_some, if_true, Option.getD_some, Int.lt_irrefl, false_or, hclose]
  rw [ite_not]

/-- A flip bit with edges half a period of 8000 ps apart, the rising one at `edge` steps. -/
def square (edge n : Nat) : Turn := ⟨false, decide ((n + 80 - edge) % 80 < 40), true⟩

/-- A store with a `t24p` of `prev`. -/
def storeOf (prev : BitVec 32) : CalStore where
  fs := ⟨true, 0, 0⟩
  mem _ := 0
  cal := { emptyCal with
    paramCount := 1
    params := Function.update emptyCal.params 0 ⟨calParamT24p, prev⟩ }
  calibrationLoaded := true

theorem calibT24pProcess_eq_kept :
    calibT24pProcess 8000 deadDevice .little (square 30) {} (storeOf 3000) =
      (0, some 3000, storeOf 3000) := by
  have hσ : Holds (storeOf 3000).cal (Function.update (fun _ => none) calParamT24p (some 3000)) :=
    (Holds.empty rfl).append (fun _ hi => absurd hi (Nat.not_lt_zero _)) (by decide) 3000
  have hloop : calibrationLoop 8000 (square 30) (calibRetries + 2) 0 {} = some (1, some 2900) := by
    decide +kernel
  rw [calibT24pProcess_eq 8000 deadDevice .little (square 30) {} (storeOf 3000) hσ (.inl rfl)
    (by decide) (by decide) (Function.update_self ..) hloop]
  exact if_pos (by decide)

/-- A phase of 900 ps replaces a stored one of 1000 ps. -/
theorem calibT24pProcess_rewrites :
    let r := calibT24pProcess 8000 deadDevice .little (square 10) {} (storeOf 1000)
    r.2.1 = some 900 ∧
      result (storageGetCalibrationParameter r.2.2.cal calParamT24p) = (0, some 900) := by
  decide +kernel

end Wrpc.Rxts
