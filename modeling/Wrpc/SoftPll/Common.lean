/-
# Controllers, lock detectors, registers

The pieces all SoftPLL loops share (`spll_common.c`): the PI controller, the
lock detector, the tagger enables, and the registers they write.  The numbers
of `spll_defs.h` stand in the definitions as they are there: tags have
`TAG_BITS = 22` bits, the helper offset is `2^-HPLL_N` with `HPLL_N = 14`, and
controller gains have `PI_FRACBITS = 12` fractional bits.

A flag that the code keeps in an `int` and only tests or sets to 0 and 1 is a
`Bool`; a counter that hardware or the code lets wrap is a `BitVec 32`; a
channel number is a `Nat`.  The `default` of each structure is its memory after
`memset` to 0.  `spll_debug` and the verbose messages only report and are left
out.
-/
import Wrpc.Lib.CInt

namespace Wrpc.SoftPll

open CInt

/-! ## What the SoftPLL is compiled for -/

/-- The variables of the WR switch that are filled in at load time or by the
probe of the low-jitter daughterboard. -/
structure SwitchVars where
  scbLjdPresent : Bool
  ljPeriphType : Int
  periphId : Int
  mainPllKp : Int
  mainPllKi : Int
  helperPllKp : Int
  helperPllKi : Int

inductive Target
  | wrNode
  | wrSwitch (v : SwitchVars)

/-- Build configuration, `board.h` and the constants read from the `CSR`. -/
structure Board where
  /-- `BOARD_SPLL_DAC_BITS` -/
  dacBits : Nat
  /-- `BOARD_SPLL_DIV_BITS` -/
  divBits : Nat
  /-- `CLOCK_PERIOD_PICOSECONDS` -/
  clockPeriodPs : Nat
  /-- `DIVIDE_DMTD_CLOCKS_BY_2` -/
  divideDmtd : Bool
  /-- `CONFIG_FRAC_SPLL` -/
  frac : Bool
  /-- `CONFIG_WRPC_PPSI`, which selects the `from_picos` in use -/
  wrpcPpsi : Bool
  /-- `MPLL_FREQ_PRELOCK_GAIN_BOOST` -/
  prelockGainBoost : Int
  /-- `TICS_PER_SECOND` -/
  ticsPerSecond : Nat
  /-- `SPLL_CSR_N_REF_R(csr)` -/
  nRef : Nat
  /-- `SPLL_CSR_N_OUT_R(csr)` -/
  nOut : Nat
  /-- `SPLL_ECCR_EXT_SUPPORTED` -/
  extSupported : Bool
  target : Target

/-- The generic WR node with one auxiliary output (`boards/generic`). -/
def Board.generic : Board where
  dacBits := 16
  divBits := 0
  clockPeriodPs := 8000
  divideDmtd := true
  frac := false
  wrpcPpsi := true
  prelockGainBoost := 20
  ticsPerSecond := 1000
  nRef := 1
  nOut := 2
  extSupported := false
  target := .wrNode

/-- `spll_n_chan_ref` -/
def Board.nChanRef (b : Board) : Nat := b.nRef

/-- `spll_n_chan_out`, cut to 3 as `spll_init` and `spll_very_init` do. -/
def Board.nChanOut (b : Board) : Nat := if 3 < b.nOut then 3 else b.nOut

/-- `scb_ljd_present_global`, which only the switch ever sets. -/
def Board.scbLjdPresent (b : Board) : Bool :=
  match b.target with
  | .wrNode => false
  | .wrSwitch v => v.scbLjdPresent

/-! ## The PI controller -/

/-- `spll_pi_t` -/
structure Pi where
  ki : Int
  kp : Int
  shift : Int
  bias : Int
  integrator : Int
  antiWindup : Int
  yMin : Int
  yMax : Int
  x : Int
  y : Int
deriving Inhabited

/-- The output before clamping; `iNew` is the integrator this sample asks for. -/
def piOutput (pi : Pi) (iNew x : Int) : Int :=
  let yPreround := i64 (i64 (iNew + i64 (x * pi.kp)) + i32 (2 ^ (pi.shift - 1).toNat))
  i32 ((yPreround >>> pi.shift.toNat) + pi.bias)

/-- `pi_update`: clamp the output, and let the integrator run only when it does
not push the output further out.  The value it returns is the new `y`. -/
def piUpdate (pi : Pi) (x : Int) : Pi :=
  let iNew := i64 (pi.integrator + i64 (pi.ki * x))
  let y := piOutput pi iNew x
  if y < pi.yMin then
    { pi with
      x := x
      y := pi.yMin
      integrator :=
        if (pi.antiWindup ≠ 0 ∧ pi.integrator < iNew) ∨ pi.antiWindup = 0 then iNew
        else pi.integrator }
  else if pi.yMax < y then
    { pi with
      x := x
      y := pi.yMax
      integrator :=
        if (pi.antiWindup ≠ 0 ∧ iNew < pi.integrator) ∨ pi.antiWindup = 0 then iNew
        else pi.integrator }
  else
    { pi with x := x, y := y, integrator := iNew }

/-- `pi_init` -/
def piInit (pi : Pi) : Pi := { pi with integrator := 0, y := pi.bias }

/-- `spll_lock_det_t` -/
structure LockDet where
  lockCnt : Int
  lockSamples : Int
  delockSamples : Int
  threshold : Int
  locked : Bool
  lockChanged : Bool
deriving Inhabited

/-- `ld_update`, with its return value: 1 locked, 0 not locked, -1 just lost. -/
def ldUpdate (ld : LockDet) (y : Int) : LockDet × Int :=
  if abs32 y ≤ ld.threshold then
    let cnt := if ld.lockCnt < ld.lockSamples then ld.lockCnt + 1 else ld.lockCnt
    if cnt = ld.lockSamples then
      ({ ld with lockCnt := cnt, lockChanged := !ld.locked, locked := true }, 1)
    else
      ({ ld with lockCnt := cnt, lockChanged := false }, if ld.locked then 1 else 0)
  else
    let cnt := if ld.delockSamples < ld.lockCnt then ld.lockCnt - 1 else ld.lockCnt
    if cnt = ld.delockSamples ∧ ld.locked = true then
      ({ ld with lockCnt := 0, lockChanged := ld.locked, locked := false }, -1)
    else
      ({ ld with lockCnt := cnt, lockChanged := false }, if ld.locked then 1 else 0)

/-- `ld_init` -/
def ldInit (ld : LockDet) : LockDet :=
  { ld with locked := false, lockCnt := 0, lockChanged := false }

/-! ## Registers and hardware inputs -/

/-- The registers the SoftPLL writes.  `ECCR` is kept as the two bits software
drives, `OCCR` as its `OUT_LOCK` field; the fields hardware drives are in `Hw`.
`eicEnabled` is the mask behind `EIC_IER`/`EIC_IDR`, `irqOn` the processor's own
interrupt enable. -/
structure Regs where
  ocer : BitVec 32
  rcer : BitVec 32
  extEn : Bool
  extRefPllrst : Bool
  outLock : BitVec 8
  dacHpll : BitVec 32
  dacMain : BitVec 32
  eicEnabled : Bool
  irqOn : Bool
deriving Inhabited

/-- What the code reads from hardware: the tick counter, the enable pins of the
output channels (`OCCR.OUT_EN`), the state of the external reference and of its
aligner, the PPS synchronisation flag, and whether the programming of the
switch's AD9516 succeeds. -/
structure Hw where
  tics : BitVec 32
  outEn : BitVec 8
  extRefLocked : Bool
  extRefStopped : Bool
  alValid : Bool
  alCin : Int
  ppsSync : Bool
  ad9516Ok : Bool
deriving Inhabited

/-- `time_after`: the difference is taken in 32 bits and tested for its sign. -/
def timeAfter (a b : BitVec 32) : Bool := (b - a).msb

/-- `time_after_eq` -/
def timeAfterEq (a b : BitVec 32) : Bool := !(a - b).msb

/-- `spll_enable_tagger` -/
def enableTagger (b : Board) (r : Regs) (channel : Nat) (enable : Bool) : Regs :=
  if b.nChanRef ≤ channel then
    let bit := 1#32 <<< (channel - b.nChanRef)
    { r with ocer := if enable then r.ocer ||| bit else r.ocer &&& ~~~bit }
  else
    let bit := 1#32 <<< channel
    { r with rcer := if enable then r.rcer ||| bit else r.rcer &&& ~~~bit }

/-- `set_channel_status`; a channel number past the field sets nothing. -/
def setChannelStatus (r : Regs) (channel : Nat) (locked : Bool) : Regs :=
  let bit := 1#8 <<< channel
  { r with outLock := if locked then r.outLock ||| bit else r.outLock &&& ~~~bit }

/-- `aux_locking_enabled` -/
def auxLockingEnabled (hw : Hw) (channel : Nat) : Bool := hw.outEn.getLsbD channel

/-! ## Facts about the shared pieces -/

structure Regs.SameButTaggers (r r' : Regs) : Prop where
  extEn : r'.extEn = r.extEn
  extRefPllrst : r'.extRefPllrst = r.extRefPllrst
  outLock : r'.outLock = r.outLock
  dacHpll : r'.dacHpll = r.dacHpll
  dacMain : r'.dacMain = r.dacMain
  eicEnabled : r'.eicEnabled = r.eicEnabled
  irqOn : r'.irqOn = r.irqOn

theorem Regs.SameButTaggers.refl (r : Regs) : r.SameButTaggers r :=
  ⟨rfl, rfl, rfl, rfl, rfl, rfl, rfl⟩

theorem Regs.SameButTaggers.trans {r r' r'' : Regs} (h : r.SameButTaggers r')
    (h' : r'.SameButTaggers r'') : r.SameButTaggers r'' :=
  ⟨h'.extEn.trans h.extEn, h'.extRefPllrst.trans h.extRefPllrst, h'.outLock.trans h.outLock,
    h'.dacHpll.trans h.dacHpll, h'.dacMain.trans h.dacMain, h'.eicEnabled.trans h.eicEnabled,
    h'.irqOn.trans h.irqOn⟩

theorem enableTagger_same (b : Board) (r : Regs) (channel : Nat) (enable : Bool) :
    r.SameButTaggers (enableTagger b r channel enable) := by
  unfold enableTagger
  split
  · exact ⟨rfl, rfl, rfl, rfl, rfl, rfl, rfl⟩
  · exact ⟨rfl, rfl, rfl, rfl, rfl, rfl, rfl⟩

theorem setChannelStatus_getLsbD (r : Regs) (channel : Nat) (locked : Bool) {c : Nat}
    (hc : c < 8) :
    (setChannelStatus r channel locked).outLock.getLsbD c
      = if c = channel then locked else r.outLock.getLsbD c := by
  have hbit : (1#8 <<< channel).getLsbD c = decide (c = channel) := by
    grind
  cases locked with
  | false =>
    simp only [setChannelStatus, Bool.false_eq_true, if_false, BitVec.getLsbD_and,
      BitVec.getLsbD_not, hbit, hc]
    grind
  | true =>
    simp only [setChannelStatus, if_true, BitVec.getLsbD_or, hbit]
    grind

theorem ldUpdate_lockChanged {ld : LockDet} (y : Int) (h : ld.locked = false)
    (h' : (ldUpdate ld y).1.locked = true) : (ldUpdate ld y).1.lockChanged = true := by
  unfold ldUpdate at h' ⊢
  grind

theorem ldUpdate_setup (ld : LockDet) (y : Int) :
    (ldUpdate ld y).1.threshold = ld.threshold ∧
      (ldUpdate ld y).1.delockSamples = ld.delockSamples := by
  unfold ldUpdate
  grind

theorem piUpdate_x (pi : Pi) (x : Int) : (piUpdate pi x).x = x := by
  unfold piUpdate
  grind

structure Pi.SameSetUp (pi pi' : Pi) : Prop where
  kp : pi'.kp = pi.kp
  ki : pi'.ki = pi.ki
  shift : pi'.shift = pi.shift
  bias : pi'.bias = pi.bias
  antiWindup : pi'.antiWindup = pi.antiWindup
  yMin : pi'.yMin = pi.yMin
  yMax : pi'.yMax = pi.yMax

theorem piUpdate_sameSetUp (pi : Pi) (x : Int) : pi.SameSetUp (piUpdate pi x) := by
  unfold piUpdate
  grind [Pi.SameSetUp]

end Wrpc.SoftPll
