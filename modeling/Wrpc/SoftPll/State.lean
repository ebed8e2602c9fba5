/-
# The SoftPLL

`softpll_ng.c` and `spll_external.c`: the state of the whole SoftPLL and
everything that changes it.  Three machines share it:

    sequencing_fsm          once per tag, at interrupt level, before the loops
    spll_update_aux_clock   once per auxiliary output, from the main loop
    external_align_fsm      from the main loop, in grandmaster mode

`State.step` is one atomic event: a tag taken from the FIFO by
`spll_irq_entry`, the end of that interrupt, a call of the API from the main
loop, or a change of the hardware inputs.

The writes to the PPS generator, the statistics for the switch's host and the
debug queue do not come back to the SoftPLL and are left out.
-/
import Wrpc.SoftPll.Loops

namespace Wrpc.SoftPll

open CInt

/-! ## States of the machines -/

/-- `SPLL_MODE_*` -/
inductive Mode
  | disabled
  | grandMaster
  | freeRunningMaster
  | slave
deriving DecidableEq, Inhabited

/-- `SEQ_*`; `unset` is the 0 of the cleared memory before the first `spll_init`. -/
inductive SeqState
  | unset
  | startExt
  | waitExt
  | startHelper
  | waitHelper
  | startMain
  | waitMain
  | disabled
  | ready
  | clearDacs
  | waitClearDacs
deriving DecidableEq, Inhabited

/-- `AUX_*`; `unset` as above. -/
inductive AuxSeq
  | unset
  | disabled
  | lockPll
  | alignPhase
  | slaveReady
  | waitMonitorLock
  | monitorReady
deriving DecidableEq, Inhabited

/-- `SPLL_AUX_MODE_*` -/
inductive AuxMode
  | slave
  | phaseMonitor
deriving DecidableEq, Inhabited

/-- `ALIGN_STATE_*` -/
inductive AlignState
  | extOff
  | waitClkin
  | waitPlock
  | start
  | startMain
  | initCsync
  | waitCsync
  | startAlignment
  | waitSample
  | compensateDelay
  | locked
deriving DecidableEq, Inhabited

/-- `struct spll_external_state`.  Its two pointers always point at the helper
and the main PLL of the same `softpll`. -/
structure External where
  enabled : Bool
  alignState : AlignState
  alignTimer : BitVec 32
  alignTarget : Int
  alignStep : Int
  alignShift : Int
  ppsLatencyPs : Int
deriving Inhabited

/-- `struct spll_aux_state`.  The union is kept as its larger member. -/
structure Aux where
  mode : AuxMode
  seqState : AuxSeq
  divRef : Int
  divFb : Int
  phaseValue : Int
  dmtd : Main
deriving Inhabited

/-- `pll.tracker`: the phase tracker that lies over the first words of `pll.dmtd`, with a 64-bit
integrator aligned to 8 bytes, low word first.  That is the layout on the RISC-V; the big-endian
LM32 has another. -/
def Aux.tracker (a : Aux) : Ptracker where
  enabled := a.dmtd.state
  id := a.dmtd.pad
  nAvg := a.dmtd.pi.ki
  acc := a.dmtd.pi.kp
  avgCount := a.dmtd.pi.shift
  preserveSign := a.dmtd.pi.bias
  phaseVal := i32 a.dmtd.pi.integrator
  ready := a.dmtd.pi.integrator / 2 ^ 32
  dbgChannel := a.dmtd.pi.antiWindup

/-- A store to `pll.tracker`. -/
def Aux.withTracker (a : Aux) (p : Ptracker) : Aux :=
  { a with dmtd := { a.dmtd with
      state := p.enabled
      pad := p.id
      pi := { a.dmtd.pi with
        ki := p.nAvg
        kp := p.acc
        shift := p.avgCount
        bias := p.preserveSign
        integrator := p.ready * 2 ^ 32 + p.phaseVal % 2 ^ 32
        antiWindup := p.dbgChannel } } }

/-- `struct softpll_state`, the variables beside it, the registers and the
hardware inputs.  `alignTimeout` and `oldExtPpsLatencyPs` are the statics of
`external_align_fsm`, `ptrackerTagRef` that of `spll_ptracker.c`, `mpllFirst`
and `helperFirst` the `static int init` of the switch build. -/
structure State where
  mode : Mode
  seqState : SeqState
  dacTimeout : BitVec 32
  delockCount : Int
  irqCount : BitVec 32
  refCount : BitVec 32
  tagCount : BitVec 32
  mpllShiftPs : Int
  helper : Helper
  ext : External
  mpll : Main
  aux : Nat → Aux
  ptrackers : Nat → Ptracker
  ptrackerMask : BitVec 32
  ptrackerTagRef : Int
  reverseSpll : Int
  mpllFirst : Bool
  helperFirst : Bool
  alignTimeout : BitVec 32
  oldExtPpsLatencyPs : Int
  regs : Regs
  hw : Hw
deriving Inhabited

/-- The aux channel with index `i` replaced. -/
def State.setAux (s : State) (i : Nat) (a : Aux) : State :=
  { s with aux := Function.update s.aux i a }

theorem State.setAux_aux (s : State) (i : Nat) (a : Aux) (j : Nat) :
    (s.setAux i a).aux j = if j = i then a else s.aux j :=
  Function.update_apply ..

section

variable (b : Board)

/-! ## The sequencer -/

/-- `start_ptrackers`: the loop touches each tracker once, and the taggers. -/
def startPtrackers (s : State) : State :=
  { s with
    ptrackers := fun i =>
      if i < b.nChanRef ∧ s.ptrackerMask.getLsbD i then (ptrackerStart b (s.ptrackers i) s.regs).1
      else s.ptrackers i
    regs := (List.range b.nChanRef).foldl (fun r i =>
      if s.ptrackerMask.getLsbD i then (ptrackerStart b (s.ptrackers i) r).2 else r) s.regs }

/-- `external_locked` -/
def externalLocked (s : State) : Bool :=
  if ¬s.helper.ld.locked ∨ ¬s.mpll.locked ∨ ¬s.hw.extRefLocked ∨ s.hw.extRefStopped then false
  else
    match s.ext.alignState with
    | .extOff | .waitClkin | .waitPlock | .start | .startMain | .initCsync | .waitCsync => false
    | _ => true

/-- `external_start` -/
def externalStart (s : State) : State :=
  let h := helperStart b s.reverseSpll s.hw.tics s.helper s.regs
  { s with
    helper := h.1
    regs := { h.2 with extEn := true, extRefPllrst := false }
    ext := { s.ext with alignState := .waitClkin, enabled := true } }

/-- The counters at the head of `sequencing_fsm`. -/
def countTag (s : State) (tagSource : Nat) : State :=
  if tagSource = b.nChanRef then { s with tagCount := s.tagCount + 1 }
  else if tagSource = 0 then { s with refCount := s.refCount + 1 }
  else s

/-- The entry into `SEQ_READY`, the same from all three waiting states. -/
def enterReady (s : State) : State :=
  let s := startPtrackers b s
  { s with seqState := .ready, regs := setChannelStatus s.regs s.mpll.idRef true }

/-- `SEQ_CLEAR_DACS` -/
def clearDacs (s : State) : State :=
  let r := { s.regs with
    dacHpll := BitVec.ofInt 32 s.helper.pi.yMax
    dacMain := BitVec.ofInt 32 ((s.mpll.pi.yMax + s.mpll.pi.yMin).tdiv 2) }
  { s with
    regs := enableTagger b r b.nChanRef true
    dacTimeout := s.hw.tics + BitVec.ofNat 32 (b.ticsPerSecond / 20)
    seqState := .waitClearDacs }

/-- The condition on which `SEQ_READY` is left. -/
def delocked (s : State) : Bool :=
  (s.mode = .grandMaster ∧ ¬externalLocked s) ∨ ¬s.helper.ld.locked ∨
    (s.mode = .slave ∧ ¬s.mpll.locked)

/-- The `switch` of `sequencing_fsm`. -/
def sequence (s : State) : State :=
  match s.seqState with
  | .unset | .disabled => s
  | .clearDacs => clearDacs b s
  | .waitClearDacs =>
    if timeAfter s.hw.tics s.dacTimeout then
      { s with seqState := if s.mode = .grandMaster then .startExt else .startHelper }
    else s
  | .startExt =>
    { externalStart b { s with regs := enableTagger b s.regs b.nChanRef false } with
      seqState := .waitExt }
  | .waitExt => if externalLocked s then enterReady b s else s
  | .startHelper =>
    let h := helperStart b s.reverseSpll s.hw.tics s.helper s.regs
    { s with helper := h.1, regs := h.2, seqState := .waitHelper }
  | .waitHelper =>
    if s.helper.ld.locked ∧ s.helper.ld.lockChanged then
      if s.mode = .slave then { s with seqState := .startMain } else enterReady b s
    else s
  | .startMain =>
    let m := mpllStart b s.hw.tics s.mpll s.regs
    { s with mpll := m.1, regs := m.2, seqState := .waitMain }
  | .waitMain => if s.mpll.locked then enterReady b s else s
  | .ready =>
    if delocked s then
      { s with
        delockCount := i32 (s.delockCount + 1)
        seqState := .clearDacs
        regs := setChannelStatus s.regs s.mpll.idRef false }
    else s

/-- `sequencing_fsm`; it does not look at the tag's value. -/
def sequencingFsm (s : State) (tagSource : Nat) : State := sequence b (countTag b s tagSource)

/-! ## The loops -/

/-- `helper_update` on the state. -/
def updateHelper (s : State) (tagValue : Int) (tagSource : Nat) : State :=
  let h := helperUpdate s.hw.tics s.helper s.regs tagValue tagSource
  { s with helper := h.1, regs := h.2 }

/-- `mpll_update` of the main PLL. -/
def updateMain (s : State) (tagValue : Int) (tagSource : Nat) : State :=
  let u := mpllUpdate b s.reverseSpll s.hw.tics s.mpll s.regs tagValue tagSource
  { s with mpll := u.main, regs := u.regs }

/-- `mpll_update` of one auxiliary PLL. -/
def updateAux (s : State) (tagValue : Int) (tagSource i : Nat) : State :=
  let u := mpllUpdate b s.reverseSpll s.hw.tics (s.aux i).dmtd s.regs tagValue tagSource
  { s.setAux i { s.aux i with dmtd := u.main } with regs := u.regs }

def updateAuxes (s : State) (tagValue : Int) (tagSource : Nat) : State :=
  (List.range (b.nChanOut - 1)).foldl (fun s i => updateAux b s tagValue tagSource i) s

/-- `update_ptrackers` for the reference channels; the main channel gives the tag
they are compared with. -/
def updateRefPtrackers (s : State) (tagValue : Int) (tagSource : Nat) : State :=
  if tagSource ≤ b.nChanRef then
    if tagSource = b.nChanRef then { s with ptrackerTagRef := tagValue }
    else
      let p := ptrackerUpdate s.reverseSpll s.ptrackerTagRef (s.ptrackers tagSource) tagValue
      { s with ptrackers := Function.update s.ptrackers tagSource p }
  else s

/-- `update_ptrackers` for the monitored auxiliary channel `i`.  Its tracker is
called with source 0, which is the main channel only if there is no reference
channel. -/
def updateAuxPtracker (s : State) (tagValue : Int) (i : Nat) : State :=
  let a := (s.aux i).withTracker { (s.aux i).tracker with dbgChannel := i }
  if b.nChanRef = 0 then { s.setAux i a with ptrackerTagRef := tagValue }
  else s.setAux i (a.withTracker (ptrackerUpdate s.reverseSpll s.ptrackerTagRef a.tracker tagValue))

/-- `update_ptrackers` -/
def updatePtrackers (s : State) (tagValue : Int) (tagSource : Nat) : State :=
  let s := updateRefPtrackers b s tagValue tagSource
  let i := tagSource - b.nChanRef - 1
  if b.nChanRef < tagSource ∧ i + 1 < b.nChanOut ∧ (s.aux i).mode = .phaseMonitor then
    updateAuxPtracker b s tagValue i
  else s

/-- `update_loops` -/
def updateLoops (s : State) (tagValue : Int) (tagSource : Nat) : State :=
  let s := updateHelper s tagValue tagSource
  if s.helper.ld.locked then
    let s := updateMain b s tagValue tagSource
    if s.seqState = .ready then
      let s := if s.mode = .slave then updateAuxes b s tagValue tagSource else s
      updatePtrackers b s tagValue tagSource
    else s
  else s

/-- One turn of the loop of `spll_irq_entry`. -/
def handleTag (s : State) (tagValue : Int) (tagSource : Nat) : State :=
  updateLoops b (sequencingFsm b s tagSource) tagValue tagSource

/-- `SPLL_TRR_R0_CHAN_ID_R` -/
def tagSourceOf (trr : BitVec 32) : Nat := trr.toNat / 2 ^ 24 % 2 ^ 7

/-- `SPLL_TRR_R0_VALUE_R` -/
def tagValueOf (trr : BitVec 32) : Int := (trr.toNat % 2 ^ 24 : Nat)

/-- `spll_very_init` -/
def spllVeryInit (s : State) : State :=
  { s with
    mode := .disabled
    seqState := .unset
    dacTimeout := 0
    delockCount := 0
    irqCount := 0
    refCount := 0
    tagCount := 0
    mpllShiftPs := 0
    helper := helperVeryInit b s.helperFirst default
    helperFirst := false
    ext := default
    mpll := default
    aux := fun _ => default
    ptrackers := fun _ => default }

/-- `external_init` -/
def externalInit (s : State) : State :=
  let idx := b.nChanRef + b.nChanOut + if b.scbLjdPresent then 1 else 0
  { s with
    helper := helperInit s.helper idx
    mpll := mpllInit b s.mpllFirst s.mpll idx b.nChanRef
    ext := { s.ext with alignState := .extOff, enabled := false } }

/-- `spll_init` up to the grandmaster branch: everything off, the loops
initialised, interrupts disabled. -/
def initLoops (s : State) (mode : Mode) (slaveRefChannel : Nat) : State :=
  { s with
    mode := mode
    delockCount := 0
    refCount := 0
    tagCount := 0
    regs := { s.regs with
      ocer := 0
      rcer := 0
      extEn := false
      extRefPllrst := false
      outLock := 0
      dacHpll := 0
      eicEnabled := false
      irqOn := false }
    seqState := if mode = .disabled then .disabled else .clearDacs
    helper := helperInit s.helper (if mode = .slave then slaveRefChannel else b.nChanRef)
    mpll := mpllInit b s.mpllFirst s.mpll slaveRefChannel b.nChanRef
    reverseSpll := initReverseSpll b s.mpllFirst s.reverseSpll
    mpllFirst := false
    aux := fun i =>
      if i + 1 < b.nChanOut then
        { s.aux i with
          dmtd := mpllInit b false (s.aux i).dmtd slaveRefChannel (b.nChanRef + i + 1)
          seqState := .disabled }
      else s.aux i
    ptrackers := fun i =>
      if i < b.nChanRef then ptrackerInit (s.ptrackers i) i 512 else s.ptrackers i }

/-- The end of `spll_init`: the SoftPLL interrupt and the main tagger on. -/
def enableInterrupts (s : State) : State :=
  { s with regs := { s.regs with ocer := s.regs.ocer ||| 1, eicEnabled := true, irqOn := true } }

/-- `spll_init`.  Without hardware support for it, grandmaster mode ends with the
interrupts still off. -/
def spllInit (s : State) (mode : Mode) (slaveRefChannel : Nat) : State :=
  let s := initLoops b s mode slaveRefChannel
  match mode with
  | .disabled => s
  | .grandMaster => if b.extSupported then enableInterrupts (externalInit b s) else s
  | .freeRunningMaster | .slave => enableInterrupts s

/-! ## Channels and phase shift -/

/-- The PLL of a channel with the channel's frequency ratio installed. -/
def Aux.withRatio (a : Aux) : Main :=
  if b.frac then { a.dmtd with divCnt := 0, divRef := a.divRef, divFb := a.divFb } else a.dmtd

/-- `spll_start_channel`; on success the auxiliary PLL has been started. -/
def spllStartChannel (s : State) (channel : Nat) : Option State :=
  if s.seqState ≠ .ready ∨ channel = 0 then none
  else
    let a := s.aux (channel - 1)
    let u := mpllStart b s.hw.tics (a.withRatio b) s.regs
    some { s.setAux (channel - 1) { a with dmtd := u.1 } with regs := u.2 }

/-- `spll_stop_channel` -/
def spllStopChannel (s : State) (channel : Nat) : State :=
  if channel = 0 then s
  else
    let a := s.aux (channel - 1)
    let u := mpllStop b a.dmtd s.regs
    { s.setAux (channel - 1) { a with dmtd := u.1 } with regs := u.2 }

/-- `set_phase_shift` -/
def setPhaseShift (s : State) (channel : Nat) (valuePicoseconds : Int) : State :=
  let s := { s with mpllShiftPs := valuePicoseconds }
  if channel = 0 then { s with mpll := mpllSetPhaseShift b s.mpll valuePicoseconds }
  else
    let a := s.aux (channel - 1)
    s.setAux (channel - 1) { a with dmtd := mpllSetPhaseShift b a.dmtd valuePicoseconds }

/-- The loop of `spll_set_phase_shift`: only channels that are ready follow. -/
def shiftIfReady (valuePicoseconds : Int) (s : State) (i : Nat) : State :=
  if (s.aux i).seqState = .slaveReady then setPhaseShift b s (i + 1) valuePicoseconds else s

/-- `spll_set_phase_shift`; `none` is `SPLL_ALL_CHANNELS`. -/
def spllSetPhaseShift (s : State) (channel : Option Nat) (valuePicoseconds : Int) : State :=
  match channel with
  | none =>
    (List.range (b.nChanOut - 1)).foldl (shiftIfReady b valuePicoseconds)
      (setPhaseShift b s 0 valuePicoseconds)
  | some channel => setPhaseShift b s channel valuePicoseconds

/-- The channel's lock flag cleared and its machine back to `AUX_DISABLED`. -/
def disableAux (s : State) (ch : Nat) : State :=
  { s.setAux (ch - 1) { s.aux (ch - 1) with seqState := .disabled } with
    regs := setChannelStatus s.regs ch false }

/-- `AUX_MONITOR_READY`, which `AUX_WAIT_MONITOR_LOCK` falls through to. -/
def monitorReady (s : State) (ch : Nat) : State × Bool :=
  if ¬s.mpll.locked then (disableAux s ch, true)
  else
    let a := s.aux (ch - 1)
    (s.setAux (ch - 1) { a with phaseValue := a.tracker.phaseVal }, false)

/-- `AUX_DISABLED` with the main PLL locked and the channel enabled. -/
def enableAux (s : State) (ch : Nat) : State :=
  let a := s.aux (ch - 1)
  match a.mode with
  | .slave =>
    match spllStartChannel b s ch with
    | some s => s.setAux (ch - 1) { s.aux (ch - 1) with seqState := .lockPll }
    | none => s
  | .phaseMonitor =>
    let p := ptrackerStart b (ptrackerInit a.tracker (ch + b.nChanRef) 512) s.regs
    { s.setAux (ch - 1) ({ a with seqState := .waitMonitorLock }.withTracker p.1) with
      regs := p.2 }

/-- `spll_update_aux_clock`, and whether it did something. -/
def spllUpdateAuxClock (s : State) (ch : Nat) : State × Bool :=
  let a := s.aux (ch - 1)
  if a.seqState ≠ .disabled ∧ ¬auxLockingEnabled s.hw ch then
    (disableAux (spllStopChannel b s ch) ch, true)
  else
    match a.seqState with
    | .unset => (s, false)
    | .disabled =>
      if s.mpll.locked ∧ auxLockingEnabled s.hw ch then (enableAux b s ch, true) else (s, false)
    | .waitMonitorLock =>
      if a.tracker.ready ≠ 0 then
        ({ s.setAux (ch - 1)
            { a with seqState := .monitorReady, phaseValue := a.tracker.phaseVal } with
          regs := setChannelStatus s.regs ch true }, true)
      else monitorReady s ch
    | .monitorReady => monitorReady s ch
    | .lockPll =>
      if a.dmtd.phaseLd.locked then
        let s := setPhaseShift b s ch s.mpllShiftPs
        (s.setAux (ch - 1) { s.aux (ch - 1) with seqState := .alignPhase }, true)
      else (s, false)
    | .alignPhase =>
      if ¬mpllShifterBusy a.dmtd then
        ({ s.setAux (ch - 1) { a with seqState := .slaveReady } with
          regs := setChannelStatus s.regs ch true }, true)
      else (s, false)
    | .slaveReady =>
      if ¬s.mpll.locked ∨ ¬a.dmtd.phaseLd.locked then (disableAux s ch, true) else (s, false)

/-! ## Alignment to the external reference -/

/-- The state with the aligner in `a`. -/
def State.align (s : State) (a : AlignState) : State :=
  { s with ext := { s.ext with alignState := a } }

/-- `align_sample(1, &v)`: a sample is acknowledged, and valid if it is away from
the transition of the counter. -/
def alignSample (s : State) : State × Option Int :=
  if s.hw.alValid then
    let ack := { s with hw := { s.hw with alValid := false } }
    if 100 < s.hw.alCin ∧ s.hw.alCin < 10000000 - 100 then (ack, some (s.hw.alCin * 100))
    else (ack, none)
  else (s, none)

/-- `mpll_set_phase_shift(s->main, s->align_shift)` -/
def applyAlignShift (s : State) : State :=
  { s with mpll := mpllSetPhaseShift b s.mpll s.ext.alignShift }

/-- `ext_pps_latency[scb_ljd_present_global]` -/
def ppsLatency : Int := if b.scbLjdPresent then -4500 else 37300

/-- `time_after(timer_get_tics(), timeout + 5*TICS_PER_SECOND)` -/
def alignTimedOut (s : State) : Bool :=
  timeAfter s.hw.tics (s.alignTimeout + BitVec.ofNat 32 (5 * b.ticsPerSecond))

/-- `ALIGN_STATE_WAIT_CLKIN`.  With a daughterboard the reset pulse is over when
the AD9516 has been programmed. -/
def alignWaitClkin (s : State) : State × Bool :=
  if ¬b.scbLjdPresent ∧ ¬s.hw.extRefStopped then
    ({ s.align .waitPlock with regs := { s.regs with extRefPllrst := true } }, true)
  else if b.scbLjdPresent then
    let s := { s with regs := { s.regs with extRefPllrst := false } }
    (if s.hw.ad9516Ok then s.align .waitPlock else s, false)
  else (s, false)

/-- `ALIGN_STATE_WAIT_PLOCK` -/
def alignWaitPlock (s : State) : State :=
  let s := { s with regs := { s.regs with extRefPllrst := false } }
  if s.hw.extRefStopped then s.align .waitClkin
  else if s.hw.extRefLocked then s.align .start
  else s

/-- `ALIGN_STATE_START` -/
def alignStart (s : State) : State × Bool :=
  if s.helper.ld.locked then
    let u := mpllStart b s.hw.tics s.mpll s.regs
    ({ s.align .startMain with mpll := u.1, regs := { u.2 with irqOn := true } }, true)
  else (if alignTimedOut b s then s.align .waitClkin else s, false)

/-- `ALIGN_STATE_START_MAIN` -/
def alignStartMain (s : State) : State × Bool :=
  let s := { s with hw := { s.hw with alValid := false } }
  if s.helper.ld.locked ∧ s.mpll.locked then (s.align .initCsync, true)
  else (if alignTimedOut b s then s.align .waitClkin else s, false)

/-- `ALIGN_STATE_START_ALIGNMENT` -/
def alignStartAlignment (s : State) : State × Bool :=
  match alignSample s with
  | (s, none) => (s, false)
  | (s, some v) =>
    let v := v.tmod 10000000
    let target := if v = 0 ∨ 5000000 ≤ v then 0 else 10000000 - 100
    let step := if v = 0 ∨ 5000000 ≤ v then -100 else 100
    ({ s with ext := { s.ext with
        alignTarget := target, alignStep := step, alignState := .waitSample } }, true)

/-- `ALIGN_STATE_WAIT_SAMPLE` -/
def alignWaitSample (s : State) : State × Bool :=
  if mpllShifterBusy s.mpll then (s, false)
  else
    match alignSample s with
    | (s, none) => (s, false)
    | (s, some v) =>
      if v.tmod 10000000 ≠ s.ext.alignTarget then
        let shift := i32 (s.ext.alignShift + s.ext.alignStep)
        (applyAlignShift b { s with ext := { s.ext with alignShift := shift } }, true)
      else
        let shift := i32 (i32 (s.ext.alignShift + ppsLatency b) + s.ext.ppsLatencyPs)
        let s := { s with
          ext := { s.ext with alignShift := shift, alignState := .compensateDelay }
          oldExtPpsLatencyPs := s.ext.ppsLatencyPs }
        (applyAlignShift b s, true)

/-- `ALIGN_STATE_LOCKED`: a changed latency sends the aligner back to
`ALIGN_STATE_COMPENSATE_DELAY`, also when the lock was just found lost. -/
def alignLocked (s : State) : State × Bool :=
  let lost := !externalLocked s
  let s := if lost then s.align .waitClkin else s
  if s.oldExtPpsLatencyPs ≠ s.ext.ppsLatencyPs then
    let shift := i32 (i32 (s.ext.alignShift - s.oldExtPpsLatencyPs) + s.ext.ppsLatencyPs)
    let s := { s with
      ext := { s.ext with alignShift := shift, alignState := .compensateDelay }
      oldExtPpsLatencyPs := s.ext.ppsLatencyPs }
    (applyAlignShift b s, true)
  else (s, lost)

/-- The `switch` of `external_align_fsm`. -/
def alignSwitch (s : State) : State × Bool :=
  match s.ext.alignState with
  | .extOff => (s, false)
  | .waitClkin => alignWaitClkin b s
  | .waitPlock => (alignWaitPlock s, true)
  | .start => alignStart b s
  | .startMain => alignStartMain b s
  | .initCsync =>
    if s.hw.ppsSync then
      let timer := s.hw.tics + BitVec.ofNat 32 (2 * b.ticsPerSecond)
      ({ s with ext := { s.ext with alignTimer := timer, alignState := .waitCsync } }, true)
    else (s, false)
  | .waitCsync =>
    if timeAfterEq s.hw.tics s.ext.alignTimer then
      ({ s with ext := { s.ext with alignShift := 0, alignState := .startAlignment } }, true)
    else (s, false)
  | .startAlignment => alignStartAlignment s
  | .waitSample => alignWaitSample b s
  | .compensateDelay =>
    if ¬mpllShifterBusy s.mpll then (s.align .locked, true) else (s, false)
  | .locked => alignLocked b s

/-- `external_align_fsm` -/
def externalAlignFsm (s : State) : State × Bool :=
  let u := alignSwitch b s
  (if u.2 then { u.1 with alignTimeout := u.1.hw.tics } else u.1, u.2)

/-! ## The bottom half and the events -/

/-- One turn of the loop of `spll_update`. -/
def auxTurn (u : State × Bool) (ch : Nat) : State × Bool :=
  let v := spllUpdateAuxClock b u.1 ch
  (v.1, u.2 || v.2)

/-- The `switch` at the head of `spll_update`. -/
def alignPoll (s : State) : State × Bool :=
  if s.mode = .grandMaster then externalAlignFsm b s else (s, false)

/-- `spll_update` -/
def spllUpdate (s : State) : State × Bool :=
  (List.range' 1 (b.nChanOut - 1)).foldl (auxTurn b) (alignPoll b s)

inductive Event
  | tag (trr : BitVec 32)
  | irqEnd
  | update
  | setPhaseShift (channel : Option Nat) (valuePicoseconds : Int)
  | init (mode : Mode) (refChannel : Nat)
  | setPsFreeze (freeze : Bool)
  | setVcoFreeze (freeze : Bool)
  | hw (h : Hw)

/-- One event.  A tag is taken from the FIFO only if the SoftPLL interrupt gets
through. -/
def State.step (s : State) : Event → State
  | .tag trr =>
    if s.regs.eicEnabled ∧ s.regs.irqOn then handleTag b s (tagValueOf trr) (tagSourceOf trr)
    else s
  | .irqEnd =>
    if s.regs.eicEnabled ∧ s.regs.irqOn then { s with irqCount := s.irqCount + 1 } else s
  | .update => (spllUpdate b s).1
  | .setPhaseShift channel ps => spllSetPhaseShift b s channel ps
  | .init mode refChannel => spllInit b s mode refChannel
  | .setPsFreeze freeze => { s with mpll := { s.mpll with psFreeze := freeze } }
  | .setVcoFreeze freeze => { s with mpll := { s.mpll with vcoFreeze := freeze } }
  | .hw h => { s with hw := h }

/-- The SoftPLL at reset: cleared memory, nonzero initial values of the statics. -/
def State.boot (reverseSpll : Int) : State :=
  spllVeryInit b { (default : State) with
    ptrackerTagRef := -1
    reverseSpll := reverseSpll
    mpllFirst := true
    helperFirst := true }

end

end Wrpc.SoftPll
