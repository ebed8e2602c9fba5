/-
# The helper PLL and the phase trackers

`spll_helper.c` locks the DDMTD clock to a reference channel with a small
frequency offset; `spll_ptracker.c` averages the phase of a channel against the
main oscillator.  Unlike the main PLL the helper has no enable flag:
`helper_update` acts on every tag of its reference channel, in whatever state
the sequencer is.

The build is one without `CONFIG_IGNORE_HPLL`.
-/
import Wrpc.SoftPll.Main

namespace Wrpc.SoftPll

open CInt

/-! ## The helper PLL -/

/-- `struct spll_helper_state` -/
structure Helper where
  pAdder : Int
  pSetpoint : Int
  tagD0 : Int
  refSrc : Nat
  sampleN : Int
  pi : Pi
  ld : LockDet
  lockStartMs : BitVec 32
  lastLockDurationMs : Int
deriving Inhabited

/-- The gains of the switch, installed by the first call only. -/
def switchHelperGains (v : SwitchVars) : Int × Int :=
  let dflt : Int × Int := if v.ljPeriphType = 2 then (-150, -2) else (150, 2)
  (if v.helperPllKp = 0 then dflt.1 else v.helperPllKp,
    if v.helperPllKi = 0 then dflt.2 else v.helperPllKi)

def helperInitGains (b : Board) (first : Bool) (pi : Pi) : Pi :=
  match b.target with
  | .wrNode => { pi with kp := -150, ki := -2 }
  | .wrSwitch v =>
    if first then { pi with kp := (switchHelperGains v).1, ki := (switchHelperGains v).2 } else pi

/-- `helper_very_init` -/
def helperVeryInit (b : Board) (first : Bool) (h : Helper) : Helper :=
  let pi := helperInitGains b first
    { h.pi with yMin := 5 * 2 ^ b.divBits, yMax := 2 ^ b.dacBits - 5 * 2 ^ b.divBits }
  { h with
    pi := { pi with shift := 12 - b.divBits, antiWindup := 1 }
    ld := { h.ld with threshold := 200, lockSamples := 10000, delockSamples := 100 } }

/-- `helper_init` -/
def helperInit (h : Helper) (refChannel : Nat) : Helper := { h with refSrc := refChannel }

/-- The error of a tag once the wrap-around is in the adder, cut to
`HELPER_ERROR_CLAMP`. -/
def helperError (h : Helper) (tag : Int) : Int :=
  let err := i32 (i32 (tag + h.pAdder) - h.pSetpoint)
  let err := if err < -150000 then -150000 else err
  if 150000 < err then 150000 else err

def helperUnwrap (h : Helper) (tag : Int) : Helper :=
  if tag < h.tagD0 then { h with pAdder := i32 (h.pAdder + 2 ^ 22) } else h

/-- The wrap-around of the setpoint at `HELPER_TAG_WRAPAROUND`, and the setpoint
of the next tag. -/
def helperAdvance (h : Helper) (tag : Int) : Helper :=
  let h :=
    if 100000000 < i32 (tag + h.pAdder) ∧ 100000000 < h.pSetpoint then
      { h with pAdder := i32 (h.pAdder - 100000000), pSetpoint := i32 (h.pSetpoint - 100000000) }
    else h
  { h with pSetpoint := i32 (h.pSetpoint + 2 ^ 14), tagD0 := tag }

def helperControl (tics : BitVec 32) (h : Helper) (err : Int) : Helper :=
  let ld := (ldUpdate h.ld err).1
  { h with
    pi := piUpdate h.pi err
    ld := ld
    lastLockDurationMs :=
      if ld.lockChanged ∧ ld.locked then (tics - h.lockStartMs).toInt else h.lastLockDurationMs }

/-- The helper after a tag of its reference channel that is not the first. -/
def helperTrack (tics : BitVec 32) (h : Helper) (tag : Int) : Helper :=
  let h := helperUnwrap h tag
  helperControl tics (helperAdvance h tag) (helperError h tag)

/-- `helper_update` -/
def helperUpdate (tics : BitVec 32) (h : Helper) (r : Regs) (tag : Int) (source : Nat) :
    Helper × Regs :=
  if source ≠ h.refSrc then (h, r)
  else if h.tagD0 < 0 then ({ h with pSetpoint := tag, tagD0 := tag }, r)
  else
    let h := helperTrack tics h tag
    (h, { r with dacHpll := BitVec.ofInt 32 h.pi.y })

/-- `helper_start` -/
def helperStart (b : Board) (reverseSpll : Int) (tics : BitVec 32) (h : Helper) (r : Regs) :
    Helper × Regs :=
  ({ h with
      pi := piInit { h.pi with bias := if reverseSpll = 0 then h.pi.yMax else h.pi.yMin }
      pSetpoint := 0
      pAdder := 0
      sampleN := 0
      tagD0 := -1
      lastLockDurationMs := -1
      ld := ldInit h.ld
      lockStartMs := tics },
    enableTagger b r h.refSrc true)

/-- `struct spll_ptracker_state` -/
structure Ptracker where
  enabled : Int
  id : Int
  nAvg : Int
  acc : Int
  avgCount : Int
  preserveSign : Int
  phaseVal : Int
  ready : Int
  dbgChannel : Int
deriving Inhabited

/-- `ptracker_init` -/
def ptrackerInit (p : Ptracker) (id : Nat) (numAvgs : Int) : Ptracker :=
  { p with
    id := id
    ready := 0
    nAvg := numAvgs
    acc := 0
    avgCount := 0
    enabled := 0
    dbgChannel := -1 }

/-- `ptracker_start` -/
def ptrackerStart (b : Board) (p : Ptracker) (r : Regs) : Ptracker × Regs :=
  ({ p with preserveSign := 0, enabled := 1, ready := 0, acc := 0, avgCount := 0 },
    enableTagger b (enableTagger b r p.id.toNat true) b.nChanRef true)

/-- `adj_tab`, which has 16 entries. -/
def adjTab (index : Int) : Int :=
  if index = 3 then -2 ^ 14 else if index = 12 then 2 ^ 14 else 0

/-- `ptrackers_update` on the tracker of the tag's channel. -/
def ptrackerUpdate (reverseSpll tagRef : Int) (p : Ptracker) (tag : Int) : Ptracker :=
  if p.enabled = 0 then p
  else
    let delta := if reverseSpll = 0 then (tagRef - tag) % 2 ^ 14 else (tag - tagRef) % 2 ^ 14
    let index := delta / 2 ^ 12
    if p.avgCount = 0 then
      { p with preserveSign := index * 4, acc := delta, avgCount := i32 (p.avgCount + 1) }
    else
      let p := { p with
        acc := i32 (p.acc + (delta + adjTab (index + p.preserveSign)))
        avgCount := i32 (p.avgCount + 1) }
      if p.avgCount = p.nAvg then
        { p with phaseVal := p.acc.tdiv p.nAvg, ready := 1, acc := 0, avgCount := 0 }
      else p

/-! ## What the helper can do -/

def Helper.Drives (h : Helper) (source : Nat) : Prop := source = h.refSrc ∧ 0 ≤ h.tagD0

instance (h : Helper) (source : Nat) : Decidable (h.Drives source) :=
  inferInstanceAs (Decidable (_ ∧ _))

variable (tics : BitVec 32) (h : Helper) (r : Regs) (tag : Int) (source : Nat)

theorem helperUpdate_of_not_drives {h : Helper} {source : Nat} (hd : ¬h.Drives source) :
    (helperUpdate tics h r tag source).2 = r ∧ (helperUpdate tics h r tag source).1.ld = h.ld := by
  unfold helperUpdate
  unfold Helper.Drives at hd
  grind

theorem helperTrack_ld :
    (helperTrack tics h tag).ld = (ldUpdate h.ld (helperError (helperUnwrap h tag) tag)).1 := by
  have hu : (helperUnwrap h tag).ld = h.ld := by
    unfold helperUnwrap
    grind
  have ha : (helperAdvance (helperUnwrap h tag) tag).ld = h.ld := by
    unfold helperAdvance
    grind
  rw [← ha]
  rfl

theorem helperUpdate_lockChanged {h : Helper} (hl : h.ld.locked = false)
    (hl' : (helperUpdate tics h r tag source).1.ld.locked = true) :
    (helperUpdate tics h r tag source).1.ld.lockChanged = true := by
  by_cases hd : h.Drives source
  · have htrack : (helperUpdate tics h r tag source).1 = helperTrack tics h tag := by
      unfold helperUpdate
      unfold Helper.Drives at hd
      grind
    rw [htrack, helperTrack_ld] at hl' ⊢
    exact ldUpdate_lockChanged _ hl hl'
  · rw [(helperUpdate_of_not_drives tics r tag hd).2, hl] at hl'
    cases hl'

theorem helperUpdate_regs :
    ∃ y, (helperUpdate tics h r tag source).2 = { r with dacHpll := y } := by
  unfold helperUpdate
  split
  · exact ⟨r.dacHpll, rfl⟩
  · split
    · exact ⟨r.dacHpll, rfl⟩
    · exact ⟨_, rfl⟩

theorem helperUpdate_yMax : (helperUpdate tics h r tag source).1.pi.yMax = h.pi.yMax := by
  have ha : (helperAdvance (helperUnwrap h tag) tag).pi = h.pi := by
    unfold helperAdvance helperUnwrap
    grind
  have ht : (helperTrack tics h tag).pi.yMax = h.pi.yMax := by
    rw [← ha]
    exact (piUpdate_sameSetUp _ _).yMax
  unfold helperUpdate
  grind

end Wrpc.SoftPll
