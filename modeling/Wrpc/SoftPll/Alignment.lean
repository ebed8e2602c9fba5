/-
# What follows the loss of the external reference

`external_align_fsm` in grandmaster mode, polled while everything it reads changes at
will.  A poll in `ALIGN_STATE_LOCKED` that finds the lock lost should send the machine
through the whole alignment again: the main PLL restarted, the PPS synchronised.

The same poll also looks at the latency of the PPS, and if that was changed it goes back
to `ALIGN_STATE_COMPENSATE_DELAY`, whatever it has found before
(`realigns_iff`).
-/
import Wrpc.Lib.Run
import Wrpc.SoftPll.State

namespace Wrpc.SoftPll

open CInt

/-! ## Polls in a changing environment -/

/-- What may have changed when the machine is polled: the registers, the two PLLs and the latency
asked for by `spll_update_ext_pps_latency_ps`. -/
structure Outside where
  hw : Hw
  regs : Regs
  helper : Helper
  mpll : Main
  ppsLatencyPs : Int

def State.found (s : State) (o : Outside) : State :=
  { s with
    hw := o.hw
    regs := o.regs
    helper := o.helper
    mpll := o.mpll
    ext := { s.ext with ppsLatencyPs := o.ppsLatencyPs } }

/-- The poll restarts the main PLL, in `ALIGN_STATE_START`. -/
def Restarts (s : State) : Prop := s.ext.alignState = .start ∧ s.helper.ld.locked = true

/-- The poll completes the synchronisation, in `ALIGN_STATE_WAIT_CSYNC`. -/
def Synchronises (s : State) : Prop :=
  s.ext.alignState = .waitCsync ∧ timeAfterEq s.hw.tics s.ext.alignTimer = true

instance (s : State) : Decidable (Restarts s) := inferInstanceAs (Decidable (_ ∧ _))

instance (s : State) : Decidable (Synchronises s) := inferInstanceAs (Decidable (_ ∧ _))

/-- The machine, and how far it has come since the lock was lost. -/
structure Realignment where
  st : State
  restarted : Bool
  synchronised : Bool

def Realignment.step (b : Board) (r : Realignment) (o : Outside) : Realignment :=
  let s := r.st.found o
  { st := (externalAlignFsm b s).1
    restarted := r.restarted || Restarts s
    synchronised := r.synchronised || (r.restarted && Synchronises s) }

/-- In `ALIGN_STATE_LOCKED` again only behind a restart and a synchronisation after it. -/
def Realignment.Sound (r : Realignment) : Prop :=
  r.st.ext.alignState = .locked → r.restarted = true ∧ r.synchronised = true

instance (r : Realignment) : Decidable r.Sound := inferInstanceAs (Decidable (_ → _))

def Realignment.ofLoss (b : Board) (s : State) : Realignment :=
  ⟨(externalAlignFsm b s).1, false, false⟩

/-! ## The way through the states -/

def AlignState.Early (a : AlignState) : Prop := a = .waitClkin ∨ a = .waitPlock ∨ a = .start

def AlignState.Middle (a : AlignState) : Prop := a = .startMain ∨ a = .initCsync ∨ a = .waitCsync

section

variable {b : Board} {s : State}

theorem externalAlignFsm_alignState :
    (externalAlignFsm b s).1.ext.alignState = (alignSwitch b s).1.ext.alignState := by
  unfold externalAlignFsm
  dsimp only
  split
  · rfl
  · rfl

theorem alignWaitClkin_early (h : s.ext.alignState = .waitClkin) :
    (alignWaitClkin b s).1.ext.alignState.Early := by
  unfold alignWaitClkin
  split
  · exact .inr (.inl rfl)
  · split
    · dsimp only
      split
      · exact .inr (.inl rfl)
      · exact .inl h
    · exact .inl h

theorem alignWaitPlock_early (h : s.ext.alignState = .waitPlock) :
    (alignWaitPlock s).ext.alignState.Early := by
  unfold alignWaitPlock
  dsimp only
  split
  · exact .inl rfl
  · split
    · exact .inr (.inr rfl)
    · exact .inr (.inl h)

theorem alignStart_next (h : s.ext.alignState = .start) :
    (Restarts s ∧ (alignStart b s).1.ext.alignState = .startMain) ∨
      (alignStart b s).1.ext.alignState.Early := by
  unfold alignStart
  split
  case isTrue hlocked => exact .inl ⟨⟨h, hlocked⟩, rfl⟩
  case isFalse =>
    split
    · exact .inr (.inl rfl)
    · exact .inr (.inr (.inr h))

theorem early_next (h : s.ext.alignState.Early) :
    (Restarts s ∧ (externalAlignFsm b s).1.ext.alignState.Middle) ∨
      (externalAlignFsm b s).1.ext.alignState.Early := by
  rw [externalAlignFsm_alignState]
  rcases h with h | h | h
  · simp only [alignSwitch, h]
    exact .inr (alignWaitClkin_early h)
  · simp only [alignSwitch, h]
    exact .inr (alignWaitPlock_early h)
  · simp only [alignSwitch, h]
    rcases alignStart_next h with ⟨hrestart, hnext⟩ | hearly
    · exact .inl ⟨hrestart, .inl hnext⟩
    · exact .inr hearly

theorem alignStartMain_next (h : s.ext.alignState = .startMain) :
    (alignStartMain b s).1.ext.alignState.Middle ∨ (alignStartMain b s).1.ext.alignState.Early := by
  unfold alignStartMain
  dsimp only
  split
  · exact .inl (.inr (.inl rfl))
  · split
    · exact .inr (.inl rfl)
    · exact .inl (.inl h)

theorem middle_next (h : s.ext.alignState.Middle) :
    Synchronises s ∨ (externalAlignFsm b s).1.ext.alignState.Middle ∨
      (externalAlignFsm b s).1.ext.alignState.Early := by
  rw [externalAlignFsm_alignState]
  rcases h with h | h | h
  · simp only [alignSwitch, h]
    exact .inr (alignStartMain_next h)
  · simp only [alignSwitch, h]
    split
    · exact .inr (.inl (.inr (.inr rfl)))
    · exact .inr (.inl (.inr (.inl h)))
  · simp only [alignSwitch, h]
    split
    case isTrue htime => exact .inl ⟨h, htime⟩
    case isFalse => exact .inr (.inl (.inr (.inr h)))

/-! ## The loss -/

def Realignment.Owing (r : Realignment) : Prop :=
  (r.restarted = true ∧ r.synchronised = true) ∨ r.st.ext.alignState.Early ∨
    (r.restarted = true ∧ r.st.ext.alignState.Middle)

theorem Realignment.Owing.sound {r : Realignment} (h : r.Owing) : r.Sound := by
  intro hlocked
  rcases h with hdone | hearly | ⟨-, hmiddle⟩
  · exact hdone
  · rw [hlocked] at hearly
    rcases hearly with h | h | h <;> cases h
  · rw [hlocked] at hmiddle
    rcases hmiddle with h | h | h <;> cases h

theorem Realignment.Owing.step {r : Realignment} (h : r.Owing) (o : Outside) :
    (r.step b o).Owing := by
  rcases h with ⟨hrestarted, hsync⟩ | hearly | ⟨hrestarted, hmiddle⟩
  · refine .inl ⟨?_, ?_⟩
    · simp [Realignment.step, hrestarted]
    · simp [Realignment.step, hsync]
  · rcases early_next (b := b) (s := r.st.found o) hearly with ⟨hrestart, hnext⟩ | hnext
    · refine .inr (.inr ⟨?_, hnext⟩)
      simp [Realignment.step, hrestart]
    · exact .inr (.inl hnext)
  · have hkept : (r.step b o).restarted = true := by
      simp [Realignment.step, hrestarted]
    rcases middle_next (b := b) (s := r.st.found o) hmiddle with hsync | hnext | hnext
    · refine .inl ⟨hkept, ?_⟩
      simp [Realignment.step, hrestarted, hsync]
    · exact .inr (.inr ⟨hkept, hnext⟩)
    · exact .inr (.inl hnext)

theorem alignLocked_lost (hlost : externalLocked s = false) :
    (alignLocked b s).1.ext.alignState =
      if s.oldExtPpsLatencyPs = s.ext.ppsLatencyPs then .waitClkin else .compensateDelay := by
  unfold alignLocked
  simp only [hlost, Bool.not_false, if_true]
  split
  case isTrue hchanged =>
    rw [if_neg (show ¬s.oldExtPpsLatencyPs = s.ext.ppsLatencyPs from hchanged)]
    rfl
  case isFalse hsame =>
    rw [if_pos (not_not.mp hsame : s.oldExtPpsLatencyPs = s.ext.ppsLatencyPs)]
    rfl

theorem compensateDelay_locks (hstate : s.ext.alignState = .compensateDelay)
    (hidle : mpllShifterBusy s.mpll = false) :
    (externalAlignFsm b s).1.ext.alignState = .locked := by
  rw [externalAlignFsm_alignState, alignSwitch, hstate]
  simp only [hidle, Bool.false_eq_true, not_false_eq_true, if_true]
  rfl

/-- A poll in `ALIGN_STATE_LOCKED` that finds the lock lost is followed by a full realignment,
whatever happens behind it, if and only if the latency has not been changed since it was last
applied. -/
theorem realigns_iff (b : Board) (s : State) (hstate : s.ext.alignState = .locked)
    (hlost : externalLocked s = false) :
    (∀ os : List Outside, Run.Always (Realignment.step b) Realignment.Sound
      (Realignment.ofLoss b s) os) ↔ s.oldExtPpsLatencyPs = s.ext.ppsLatencyPs := by
  have hnext : (Realignment.ofLoss b s).st.ext.alignState =
      if s.oldExtPpsLatencyPs = s.ext.ppsLatencyPs then .waitClkin else .compensateDelay := by
    rw [Realignment.ofLoss, externalAlignFsm_alignState, alignSwitch, hstate]
    exact alignLocked_lost hlost
  constructor
  · intro h
    by_contra hchanged
    rw [if_neg hchanged] at hnext
    -- the shifter is idle at the next poll
    let o : Outside := ⟨default, default, default, default, 0⟩
    have hlocked : ((Realignment.ofLoss b s).step b o).st.ext.alignState = .locked :=
      compensateDelay_locks hnext rfl
    have hsound := (h [o]).last hlocked
    exact Bool.false_ne_true hsound.2
  · intro hsame os
    rw [if_pos hsame] at hnext
    have howing : (Realignment.ofLoss b s).Owing := .inr (.inl (.inl hnext))
    exact Run.always_of_inv (fun r o (h : r.Owing) _ => h.step o) (fun r h => h.sound) howing
      (Run.steps_true _ os)

/-- A grandmaster that is aligned to a reference that has just been unplugged, with the latency
changed since. -/
def unplugged : State :=
  { (default : State) with
    mode := .grandMaster
    ext := { (default : External) with
      enabled := true, alignState := .locked, ppsLatencyPs := 1000 }
    helper := { (default : Helper) with ld := { (default : LockDet) with locked := true } }
    mpll := { (default : Main) with enabled := true, locked := true }
    hw := { (default : Hw) with extRefLocked := true, extRefStopped := true } }

/-- With the latency as it was last applied, two polls leave it waiting for the reference. -/
theorem realigns_unchanged :
    Run.Always (Realignment.step Board.generic) Realignment.Sound
      (Realignment.ofLoss Board.generic { unplugged with oldExtPpsLatencyPs := 1000 })
      [⟨unplugged.hw, unplugged.regs, unplugged.helper, unplugged.mpll, 1000⟩,
        ⟨unplugged.hw, unplugged.regs, unplugged.helper, unplugged.mpll, 1000⟩] :=
  (realigns_iff Board.generic { unplugged with oldExtPpsLatencyPs := 1000 } rfl (by decide)).mpr
    rfl _

/-- The shift by the new latency done, the machine is locked again with no restart. -/
theorem unplugged_locked :
    ¬Run.Always (Realignment.step Board.generic) Realignment.Sound
      (Realignment.ofLoss Board.generic unplugged)
      [⟨unplugged.hw, unplugged.regs, unplugged.helper,
        { unplugged.mpll with
          phaseShiftTarget := phaseTarget Board.generic 1000
          phaseShiftCurrent := phaseTarget Board.generic 1000 }, 1000⟩] := by
  decide

end

end Wrpc.SoftPll
