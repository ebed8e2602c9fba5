/-
# The main DDMTD PLL

`spll_main.c`: one instance locks the main oscillator to a reference channel,
and one each the auxiliary oscillators.  `mpll_update` takes the DDMTD tags one
at a time; when it has seen a reference and an output tag it processes the pair.

`mpllUpdate` keeps the order of the source, one definition a block:

    captureRef, captureOut      store the tag (with resampling for CONFIG_FRAC_SPLL)
    unwrapRef, unwrapOut        tag deltas and 22-bit wrap-arounds
    discardEarly                realignment of the adders on the tenth pair
    freqDetect, pairError       frequency branch, error fed to the controller
    rebase, shiftPhase          10^8 rebasing, one unit of phase shift
    phaseDetect                 phase lock detector
    mpllHandleGainSchedule      gain stages and the `locked` flag

`spll_log_dac` only reports and is left out.
-/
import Wrpc.SoftPll.Common

namespace Wrpc.SoftPll

open CInt

/-- `spll_gain_schedule_item_t` -/
structure GainStage where
  kp : Int
  ki : Int
  shift : Int
  lockSamples : Int
deriving Inhabited

/-- `spll_gain_schedule_t` -/
structure GainSchedule where
  nStages : Int
  currentStage : Int
  stages : Nat → GainStage
  lockedD : Bool
deriving Inhabited

def GainSchedule.stage (g : GainSchedule) : GainStage := g.stages g.currentStage.toNat

/-- `struct spll_main_state`.  Nothing reads `state`, and `pad` is the hole the
compiler leaves before the 64-bit aligned controller: the two are kept because a
phase tracker may lie over them. -/
structure Main where
  state : Int
  pad : Int
  pi : Pi
  phaseLd : LockDet
  freqLd : LockDet
  gainSched : Option GainSchedule
  divCnt : Int
  divFb : Int
  divRef : Int
  nRef : Int
  nOut : Int
  tagOutRawD : Int
  tagOutRaw : Int
  tagOutInterp : Int
  drefDt : Int
  doutDt : Int
  tagRefRawD : Int
  tagOutRawD2 : Int
  freqPrelockGainBoost : Int
  discardEarlyCnt : Int
  adderRef : Int
  adderOut : Int
  tagRef : Int
  tagRefD : Int
  tagOut : Int
  tagOutD : Int
  locked : Bool
  phaseShiftTarget : Int
  phaseShiftCurrent : Int
  idRef : Nat
  idOut : Nat
  sampleN : Int
  dacIndex : Nat
  enabled : Bool
  psFreeze : Bool
  vcoFreeze : Bool
  lockStartMs : BitVec 32
  lastPhaseLockDurationMs : Int
  lastFreqLockDurationMs : Int
deriving Inhabited

/-! ## Initialisation, start and stop -/

/-- The gains of the switch: the value given at load time, or if that is 0 the
default of the hardware found. -/
def switchMainGains (v : SwitchVars) : Int × Int :=
  let dflt : Int × Int :=
    if v.scbLjdPresent ∧ v.periphId = 5 then (1100, 30)      -- PERIPH_ID_WRS_LJ_SAFRAN
    else if v.ljPeriphType = 2 then (-1100, -30)             -- PERIPH_WRS_FL_SYNCTECH
    else if v.scbLjdPresent then (2000, 15)
    else (1100, 30)
  (if v.mainPllKp = 0 then dflt.1 else v.mainPllKp, if v.mainPllKi = 0 then dflt.2 else v.mainPllKi)

/-- The gains `mpll_init` installs.  On the switch only the first call of all
does so (its `static int init`), here `first`. -/
def mpllInitGains (b : Board) (first : Bool) (pi : Pi) : Pi :=
  match b.target with
  | .wrNode => { pi with kp := -1100, ki := -30 }
  | .wrSwitch v =>
    if first then { pi with kp := (switchMainGains v).1, ki := (switchMainGains v).2 } else pi

/-- What the first `mpll_init` on a switch makes of `reverse_spll`, which starts
as `REVERSE_SPLL_WRS_START_VALUE` (2) unless it was changed at load time. -/
def initReverseSpll (b : Board) (first : Bool) (reverseSpll : Int) : Int :=
  match b.target with
  | .wrNode => reverseSpll
  | .wrSwitch v =>
    if first ∧ reverseSpll = 2 then
      if ¬(v.scbLjdPresent ∧ v.periphId = 5) ∧ v.ljPeriphType = 2 then 1 else 0
    else reverseSpll

/-- `mpll_init` -/
def mpllInit (b : Board) (first : Bool) (m : Main) (idRef idOut : Nat) : Main :=
  let pi := { m.pi with
    yMin := 5 * 2 ^ b.divBits
    yMax := 2 ^ b.dacBits - 5 * 2 ^ b.divBits
    antiWindup := 1
    bias := 2 ^ (b.dacBits - 1)
    shift := 12 - b.divBits }
  { m with
    psFreeze := false
    vcoFreeze := false
    pi := piInit (mpllInitGains b first pi)
    enabled := false
    freqLd := ldInit { m.freqLd with threshold := 50, lockSamples := 50, delockSamples := 20000 }
    freqPrelockGainBoost := b.prelockGainBoost
    phaseLd := ldInit { m.phaseLd with
      threshold := 1200, lockSamples := 1000, delockSamples := 100 }
    idRef := idRef
    idOut := idOut
    dacIndex := idOut - b.nChanRef
    divRef := if b.frac then 0 else m.divRef
    divFb := if b.frac then 0 else m.divFb
    gainSched := m.gainSched.map fun g => { g with currentStage := 0, lockedD := false } }

/-- The gains and lock count of the first stage, if there is a schedule. -/
def startGainSchedule (m : Main) : Main :=
  match m.gainSched with
  | none => m
  | some g =>
    let first := g.stages 0
    { m with
      gainSched := some { g with currentStage := 0, lockedD := false }
      pi := { m.pi with kp := first.kp, ki := first.ki, shift := first.shift }
      phaseLd := { m.phaseLd with lockSamples := first.lockSamples, lockCnt := 0 } }

/-- The state `mpll_start` leaves. -/
def Main.started (b : Board) (tics : BitVec 32) (m : Main) : Main :=
  let m := startGainSchedule { m with
    discardEarlyCnt := 10
    psFreeze := false
    vcoFreeze := false
    adderRef := 0
    adderOut := 0
    tagRef := -1
    tagOut := -1
    tagRefD := -1
    tagOutD := -1
    tagRefRawD := -1
    tagOutRawD2 := -1
    phaseShiftTarget := 0
    phaseShiftCurrent := 0
    sampleN := 0
    enabled := true
    locked := false
    tagOutRawD := if b.frac then -1 else m.tagOutRawD
    tagOutInterp := if b.frac then -1 else m.tagOutInterp
    tagOutRaw := if b.frac then -1 else m.tagOutRaw
    nRef := if b.frac then 0 else m.nRef
    nOut := if b.frac then 0 else m.nOut
    divCnt := if b.frac then 0 else m.divCnt
    lastFreqLockDurationMs := -1
    lastPhaseLockDurationMs := -1 }
  { m with
    pi := piInit m.pi
    phaseLd := ldInit m.phaseLd
    freqLd := ldInit m.freqLd
    lockStartMs := tics }

/-- `mpll_start` -/
def mpllStart (b : Board) (tics : BitVec 32) (m : Main) (r : Regs) : Main × Regs :=
  (m.started b tics, enableTagger b (enableTagger b r m.idRef true) m.idOut true)

/-- `mpll_stop` -/
def mpllStop (b : Board) (m : Main) (r : Regs) : Main × Regs :=
  ({ m with enabled := false }, enableTagger b r m.idOut false)

/-! ## The blocks of `mpll_update` -/

/-- `update_dtag_dt`, on the delta and on the tag it was taken from. -/
def updateDtagDt (dtagDt tag tagD : Int) : Int × Int :=
  if tag = tagD then (dtagDt, tagD)
  else
    let d := i32 (tag - tagD)
    (if d < 0 then i32 (d + 2 ^ 22) else d, tag)

/-- A reference tag is stored, and with it an interpolated output tag that is
still waiting. -/
def captureRef (b : Board) (m : Main) (tag : Int) (source : Nat) : Main :=
  if source = m.idRef then
    let m := { m with tagRef := tag }
    if b.frac then
      let m := { m with nRef := i32 (m.nRef + 1) }
      if 0 ≤ m.tagOutInterp then
        { m with tagOut := m.tagOutInterp, nOut := i32 (m.nOut + 1), tagOutInterp := -1 }
      else m
    else m
  else m

/-- The interpolation between the last two raw output tags, weighted by `f`. -/
def interpolate (m : Main) (f tRaw : Int) : Int :=
  (i32 (i32 (i32 (m.divRef - f) * m.tagOutRawD) + i32 (f * tRaw))).tdiv m.divRef

/-- The fractional branch: `div_fb` raw tags become `div_ref` tags. -/
def resample (m : Main) : Main :=
  let tRaw := if m.tagOutRaw < m.tagOutRawD then i32 (m.tagOutRaw + 2 ^ 22) else m.tagOutRaw
  let w0 := i32 (m.divCnt * m.divFb)
  let w1 := i32 ((m.divCnt + 1) * m.divFb)
  let f0 := w0.tmod m.divRef
  let f1 := w1.tmod m.divRef
  let c0 := w0.tdiv m.divRef
  let c1 := w1.tdiv m.divRef
  let m := { m with tagOut := interpolate m f0 tRaw, nOut := i32 (m.nOut + 1) }
  let m :=
    if c0 = c1 then
      { m with divCnt := i32 (m.divCnt + 1), tagOutInterp := interpolate m f1 tRaw }
    else
      { m with tagOutInterp := -1 }
  let m := { m with divCnt := i32 (m.divCnt + 1) }
  if m.divCnt = m.divRef then { m with divCnt := 0 } else m

def captureOut (b : Board) (m : Main) (tag : Int) (source : Nat) : Main :=
  if source = m.idOut then
    if b.frac then
      let m := { m with tagOutRawD := m.tagOutRaw, tagOutRaw := tag }
      if m.divRef = 0 then { m with tagOut := tag, nOut := i32 (m.nOut + 1) } else resample m
    else { m with tagOut := tag }
  else m

/-- With a reference tag at hand: its delta, and the adder over a wrap-around. -/
def unwrapRef (m : Main) : Main :=
  if 0 ≤ m.tagRef then
    let d := updateDtagDt m.drefDt m.tagRef m.tagRefRawD
    { m with
      drefDt := d.1
      tagRefRawD := d.2
      adderRef :=
        if 0 ≤ m.tagRefD ∧ m.tagRef < m.tagRefD then i32 (m.adderRef + 2 ^ 22) else m.adderRef
      tagRefD := m.tagRef }
  else m

def unwrapOut (m : Main) : Main :=
  if 0 ≤ m.tagOut then
    let d := updateDtagDt m.doutDt m.tagOut m.tagOutRawD2
    { m with
      doutDt := d.1
      tagOutRawD2 := d.2
      adderOut :=
        if 0 ≤ m.tagOutD ∧ m.tagOut < m.tagOutD then i32 (m.adderOut + 2 ^ 22) else m.adderOut
      tagOutD := m.tagOut }
  else m

/-- `(delta >> HPLL_N) << HPLL_N` -/
def wholePeriods (delta : Int) : Int := i32 ((delta / 2 ^ 14) * 2 ^ 14)

/-- On the last of the discarded pairs the adders are brought within one period
of each other and kept non-negative. -/
def realign (m : Main) : Main :=
  let adjRef := i32 (m.tagRef + m.adderRef)
  let adjOut := i32 (m.tagOut + m.adderOut)
  let m :=
    if adjOut < adjRef then
      { m with adderRef := i32 (m.adderRef - wholePeriods (i32 (adjRef - adjOut))) }
    else
      { m with adderOut := i32 (m.adderOut - wholePeriods (i32 (adjOut - adjRef))) }
  if m.adderRef < 0 ∨ m.adderOut < 0 then
    { m with adderRef := i32 (m.adderRef + 100000000), adderOut := i32 (m.adderOut + 100000000) }
  else m

/-- The block on `discard_early_cnt`, which the fractional build leaves out. -/
def discardEarly (b : Board) (m : Main) : Main :=
  if b.frac then m
  else
    let m := if m.discardEarlyCnt = 1 then realign m else m
    if 0 < m.discardEarlyCnt then { m with discardEarlyCnt := m.discardEarlyCnt - 1 } else m

def freqDetect (tics : BitVec 32) (m : Main) (freqError : Int) : Main :=
  let ld := (ldUpdate m.freqLd freqError).1
  { m with
    freqLd := ld
    lastFreqLockDurationMs :=
      if ld.lockChanged ∧ ld.locked then (tics - m.lockStartMs).toInt
      else m.lastFreqLockDurationMs }

/-- `err &= (1 << HPLL_N) - 1`, and the sign bit extended if it is set. -/
def maskErr (err : Int) : Int :=
  let low := err % 2 ^ 14
  if low / 2 ^ 13 % 2 = 1 then low - 2 ^ 14 else low

def pairError (m : Main) (freqError : Int) : Int :=
  if m.freqLd.locked then
    maskErr (i32 (i32 (i32 (m.adderRef + m.tagRef) - m.adderOut) - m.tagOut))
  else i32 (-m.freqPrelockGainBoost * freqError)

/-- The word written to `DAC_MAIN`. -/
def dacMainWord (y : Int) (dacIndex : Nat) : BitVec 32 :=
  (BitVec.ofInt 32 y &&& 0xffffff#32) ||| ((BitVec.ofNat 32 dacIndex &&& 0xf#32) <<< 24)

def rebase (m : Main) : Main :=
  if 200000000 < m.adderRef ∧ 200000000 < m.adderOut then
    { m with adderRef := i32 (m.adderRef - 100000000), adderOut := i32 (m.adderOut - 100000000) }
  else m

/-- The phase shifter: one unit towards the target, while locked and not frozen. -/
def shiftPhase (reverseSpll : Int) (m : Main) : Main :=
  if m.locked ∧ ¬m.psFreeze then
    if m.phaseShiftCurrent < m.phaseShiftTarget then
      { m with
        phaseShiftCurrent := m.phaseShiftCurrent + 1
        adderRef := if reverseSpll = 0 then i32 (m.adderRef + 1) else i32 (m.adderRef - 1) }
    else if m.phaseShiftTarget < m.phaseShiftCurrent then
      { m with
        phaseShiftCurrent := m.phaseShiftCurrent - 1
        adderRef := if reverseSpll = 0 then i32 (m.adderRef - 1) else i32 (m.adderRef + 1) }
    else m
  else m

def phaseDetect (tics : BitVec 32) (m : Main) (err : Int) : Main :=
  let ld := (ldUpdate m.phaseLd err).1
  { m with
    phaseLd := ld
    lastPhaseLockDurationMs :=
      if ld.lockChanged ∧ ld.locked then (tics - m.lockStartMs).toInt
      else m.lastPhaseLockDurationMs }

/-- The `do_update` block: the gains of the stage, and a detector that starts
over. -/
def enterStage (m : Main) (g : GainSchedule) : Main :=
  { m with
    gainSched := some { g with lockedD := false }
    pi := { m.pi with kp := g.stage.kp, ki := g.stage.ki, shift := g.stage.shift }
    phaseLd := { m.phaseLd with
      lockSamples := g.stage.lockSamples
      lockCnt := 0
      lockChanged := false
      locked := false } }

/-- `mpll_handle_gain_schedule` -/
def mpllHandleGainSchedule (m : Main) : Main :=
  match m.gainSched with
  | none => { m with locked := m.phaseLd.locked }
  | some g =>
    if g.lockedD ∧ ¬m.phaseLd.locked then
      enterStage { m with locked := false } { g with currentStage := 0 }
    else if ¬g.lockedD ∧ m.phaseLd.locked then
      if g.currentStage = g.nStages - 1 then
        { m with locked := true, gainSched := some { g with lockedD := true } }
      else enterStage m { g with currentStage := g.currentStage + 1 }
    else { m with gainSched := some { g with lockedD := m.phaseLd.locked } }

/-! ## `mpll_update` -/

/-- What a call of `mpll_update` leaves behind. -/
structure MpllResult where
  main : Main
  regs : Regs
  ret : Int

def takeTag (b : Board) (m : Main) (tag : Int) (source : Nat) : Main :=
  unwrapOut (unwrapRef (captureOut b (captureRef b m tag source) tag source))

/-- The controller has been fed, the tags of the pair are spent. -/
def controlled (m : Main) (err : Int) : Main :=
  { m with pi := piUpdate m.pi err, sampleN := i32 (m.sampleN + 1), tagOut := -1, tagRef := -1 }

def control (reverseSpll : Int) (tics : BitVec 32) (m : Main) (err : Int) : Main :=
  let m := shiftPhase reverseSpll (rebase (controlled m err))
  if m.freqLd.locked then mpllHandleGainSchedule (phaseDetect tics m err) else m

def freqError (m : Main) : Int := i32 (m.doutDt - m.drefDt)

def detected (b : Board) (tics : BitVec 32) (m : Main) : Main :=
  let m := discardEarly b m
  freqDetect tics m (freqError m)

/-- `mpll_update` from the test for a pair on. -/
def processPair (b : Board) (reverseSpll : Int) (tics : BitVec 32) (m : Main) (r : Regs) :
    MpllResult :=
  let d := detected b tics m
  let err := pairError d (freqError d)
  let m := control reverseSpll tics d err
  { main := m
    regs := if d.vcoFreeze then r else
      { r with dacMain := dacMainWord (piUpdate d.pi err).y d.dacIndex }
    ret := if m.freqLd.locked ∧ m.locked then 1 else 0 }

def Main.HasPair (m : Main) : Prop := 0 ≤ m.tagRef ∧ 0 ≤ m.tagOut

instance (m : Main) : Decidable m.HasPair := inferInstanceAs (Decidable (_ ∧ _))

/-- `mpll_update` -/
def mpllUpdate (b : Board) (reverseSpll : Int) (tics : BitVec 32) (m : Main) (r : Regs) (tag : Int)
    (source : Nat) : MpllResult :=
  if ¬m.enabled then ⟨m, r, 1⟩
  else
    let m := takeTag b m tag source
    if m.HasPair then processPair b reverseSpll tics m r else ⟨m, r, 0⟩

/-! ## What `mpll_update` leaves alone -/

/-- Configuration and requests: what only `mpll_init`, `mpll_start`, `mpll_stop`
and the callers of the API write. -/
structure Main.Fixed (m m' : Main) : Prop where
  idRef : m'.idRef = m.idRef
  idOut : m'.idOut = m.idOut
  dacIndex : m'.dacIndex = m.dacIndex
  enabled : m'.enabled = m.enabled
  target : m'.phaseShiftTarget = m.phaseShiftTarget
  psFreeze : m'.psFreeze = m.psFreeze
  vcoFreeze : m'.vcoFreeze = m.vcoFreeze
  yMin : m'.pi.yMin = m.pi.yMin
  yMax : m'.pi.yMax = m.pi.yMax

theorem Main.Fixed.refl (m : Main) : m.Fixed m := ⟨rfl, rfl, rfl, rfl, rfl, rfl, rfl, rfl, rfl⟩

theorem Main.Fixed.trans {m m' m'' : Main} (h : m.Fixed m') (h' : m'.Fixed m'') : m.Fixed m'' :=
  ⟨h'.idRef.trans h.idRef, h'.idOut.trans h.idOut, h'.dacIndex.trans h.dacIndex,
    h'.enabled.trans h.enabled, h'.target.trans h.target, h'.psFreeze.trans h.psFreeze,
    h'.vcoFreeze.trans h.vcoFreeze, h'.yMin.trans h.yMin, h'.yMax.trans h.yMax⟩

structure Main.SameLoop (m m' : Main) : Prop extends m.Fixed m' where
  locked : m'.locked = m.locked
  current : m'.phaseShiftCurrent = m.phaseShiftCurrent
  freqLd : m'.freqLd = m.freqLd
  phaseLd : m'.phaseLd = m.phaseLd
  gainSched : m'.gainSched = m.gainSched
  pi : m'.pi = m.pi

theorem Main.SameLoop.trans {m m' m'' : Main} (h : m.SameLoop m') (h' : m'.SameLoop m'') :
    m.SameLoop m'' :=
  ⟨h.toFixed.trans h'.toFixed, h'.locked.trans h.locked, h'.current.trans h.current,
    h'.freqLd.trans h.freqLd, h'.phaseLd.trans h.phaseLd, h'.gainSched.trans h.gainSched,
    h'.pi.trans h.pi⟩

section Frames

variable (b : Board) (m : Main) (tag : Int) (source : Nat) (tics : BitVec 32) (reverseSpll : Int)

theorem resample_sameLoop : m.SameLoop (resample m) := by
  unfold resample
  grind [Main.SameLoop, Main.Fixed]

theorem captureRef_sameLoop : m.SameLoop (captureRef b m tag source) := by
  unfold captureRef
  grind [Main.SameLoop, Main.Fixed]

theorem captureOut_sameLoop : m.SameLoop (captureOut b m tag source) := by
  have h := resample_sameLoop { m with tagOutRawD := m.tagOutRaw, tagOutRaw := tag }
  unfold captureOut
  grind [Main.SameLoop, Main.Fixed]

theorem unwrapRef_sameLoop : m.SameLoop (unwrapRef m) := by
  unfold unwrapRef
  grind [Main.SameLoop, Main.Fixed]

theorem unwrapOut_sameLoop : m.SameLoop (unwrapOut m) := by
  unfold unwrapOut
  grind [Main.SameLoop, Main.Fixed]

theorem takeTag_sameLoop : m.SameLoop (takeTag b m tag source) :=
  (captureRef_sameLoop b m tag source).trans <|
    (captureOut_sameLoop b _ tag source).trans <|
      (unwrapRef_sameLoop _).trans (unwrapOut_sameLoop _)

theorem discardEarly_sameLoop : m.SameLoop (discardEarly b m) := by
  have h : m.SameLoop (realign m) := by
    unfold realign
    grind [Main.SameLoop, Main.Fixed]
  unfold discardEarly
  grind [Main.SameLoop, Main.Fixed]

theorem detected_fixed : m.Fixed (detected b tics m) := by
  have h := (discardEarly_sameLoop b m).toFixed
  unfold detected freqDetect
  grind [Main.Fixed]

theorem rebase_sameLoop : m.SameLoop (rebase m) := by
  unfold rebase
  grind [Main.SameLoop, Main.Fixed]

/-- The state after the shifter, on which the rest of `control` runs. -/
def shifted (err : Int) : Main := shiftPhase reverseSpll (rebase (controlled m err))

/-- The controller of `m` was fed `err`, and the tags are spent. -/
structure Main.Driven (m : Main) (err : Int) (m' : Main) : Prop extends m.Fixed m' where
  locked : m'.locked = m.locked
  freqLd : m'.freqLd = m.freqLd
  phaseLd : m'.phaseLd = m.phaseLd
  gainSched : m'.gainSched = m.gainSched
  pi : m'.pi = piUpdate m.pi err
  tagRef : m'.tagRef = -1
  tagOut : m'.tagOut = -1

theorem shifted_driven (err : Int) : m.Driven err (shifted m reverseSpll err) := by
  have h := piUpdate_sameSetUp m.pi err
  unfold shifted shiftPhase rebase controlled
  grind [Main.Driven, Main.Fixed, Pi.SameSetUp]

theorem mpllHandleGainSchedule_fixed : m.Fixed (mpllHandleGainSchedule m) := by
  unfold mpllHandleGainSchedule enterStage
  grind [Main.Fixed]

theorem control_fixed (err : Int) : m.Fixed (control reverseSpll tics m err) := by
  have hs := (shifted_driven m reverseSpll err).toFixed
  unfold control
  dsimp only
  split
  · have hp : ∀ m : Main, m.Fixed (phaseDetect tics m err) := fun m =>
      ⟨rfl, rfl, rfl, rfl, rfl, rfl, rfl, rfl, rfl⟩
    exact hs.trans ((hp _).trans (mpllHandleGainSchedule_fixed _))
  · exact hs

section

variable {b m tag source}

theorem mpllUpdate_of_disabled (he : m.enabled = false) (r : Regs) :
    mpllUpdate b reverseSpll tics m r tag source = ⟨m, r, 1⟩ :=
  if_pos (Bool.not_eq_true _ ▸ he)

theorem mpllUpdate_of_no_pair (he : m.enabled = true) (r : Regs)
    (hp : ¬(takeTag b m tag source).HasPair) :
    mpllUpdate b reverseSpll tics m r tag source = ⟨takeTag b m tag source, r, 0⟩ := by
  simp [mpllUpdate, he, if_neg hp]

theorem mpllUpdate_of_pair (he : m.enabled = true) (r : Regs)
    (hp : (takeTag b m tag source).HasPair) : mpllUpdate b reverseSpll tics m r tag source =
      processPair b reverseSpll tics (takeTag b m tag source) r := by
  simp [mpllUpdate, he, if_pos hp]

end

theorem mpllUpdate_fixed (r : Regs) :
    m.Fixed (mpllUpdate b reverseSpll tics m r tag source).main := by
  have ht := (takeTag_sameLoop b m tag source).toFixed
  unfold mpllUpdate
  dsimp only
  split
  · exact .refl m
  · split
    · exact ht.trans ((detected_fixed b _ tics).trans (control_fixed _ tics reverseSpll _))
    · exact ht

theorem mpllUpdate_main_regs (r r' : Regs) : (mpllUpdate b reverseSpll tics m r tag source).main
      = (mpllUpdate b reverseSpll tics m r' tag source).main := by
  unfold mpllUpdate
  dsimp only
  split
  · rfl
  · split
    · rfl
    · rfl

end Frames

/-- `from_picos`.  The version for `CONFIG_WRPC_PPSI` works on the magnitude in
64 unsigned bits; its negation `-ps * (1 << HPLL_N)` is a 32-bit product. -/
def fromPicos (b : Board) (ps : Int) : Int :=
  if b.wrpcPpsi then
    if 0 ≤ ps then i32 (ps * 2 ^ 14 / b.clockPeriodPs)
    else i32 (-(i32 (i32 (-ps) * 2 ^ 14) % 2 ^ 64 / b.clockPeriodPs))
  else i32 ((i64 (ps * 2 ^ 14)).tdiv b.clockPeriodPs)

def phaseTarget (b : Board) (ps : Int) : Int :=
  (fromPicos b ps).tdiv (if b.divideDmtd then 2 else 1)

/-- `mpll_set_phase_shift` -/
def mpllSetPhaseShift (b : Board) (m : Main) (desiredShiftPs : Int) : Main :=
  { m with phaseShiftTarget := phaseTarget b desiredShiftPs }

/-- `mpll_shifter_busy` -/
def mpllShifterBusy (m : Main) : Bool := m.phaseShiftTarget ≠ m.phaseShiftCurrent

end Wrpc.SoftPll
