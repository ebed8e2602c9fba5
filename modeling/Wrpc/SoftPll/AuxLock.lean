/-
# What the lock flag of an aux channel means

The `OUT_LOCK` bit of an auxiliary output is kept by the poll of its machine,
which runs in the main loop and looks at `mpll.locked` and the channel's own
phase detector.  Neither is updated while the helper is unlocked, and the step
from `AUX_ALIGN_PHASE` looks at no lock at all.  So the flag is sound after a
poll exactly when the state it finds is one in which these flags are to be
believed: that is `PollOk`.
-/
import Wrpc.SoftPll.Acquisition

namespace Wrpc.SoftPll

open CInt Board

/-- A slave channel that reports lock is locked, and so is all it depends on. -/
def AuxLockSound (b : Board) (s : State) : Prop :=
  ∀ ch, 1 ≤ ch → ch < b.nChanOut → (s.aux (ch - 1)).mode = .slave →
    s.regs.outLock.getLsbD ch = true →
      s.seqState = .ready ∧ s.helper.ld.locked = true ∧ s.mpll.locked = true ∧
        (s.aux (ch - 1)).dmtd.phaseLd.locked = true

/-- What a poll has to find for the flags to be sound after it: a ready channel
whose two locks look good only while helper and sequencer are good, and a
channel whose alignment is over only while everything is. -/
def PollOk (b : Board) (s : State) : Prop :=
  ∀ ch, 1 ≤ ch → ch < b.nChanOut → (s.aux (ch - 1)).mode = .slave →
    auxLockingEnabled s.hw ch = true →
      ((s.aux (ch - 1)).seqState = .slaveReady → s.mpll.locked = true →
        (s.aux (ch - 1)).dmtd.phaseLd.locked = true →
          s.seqState = .ready ∧ s.helper.ld.locked = true) ∧
      ((s.aux (ch - 1)).seqState = .alignPhase → mpllShifterBusy (s.aux (ch - 1)).dmtd = false →
        s.seqState = .ready ∧ s.helper.ld.locked = true ∧ s.mpll.locked = true ∧
          (s.aux (ch - 1)).dmtd.phaseLd.locked = true)

/-- The SoftPLL is only ever initialised as a slave, of a reference whose number
is not that of an aux output: the sequencer reports its own lock in the bit of
the reference. -/
def SlaveInit (b : Board) : Event → Prop
  | .init mode refChannel => mode = .slave ∧ ¬(1 ≤ refChannel ∧ refChannel < b.nChanOut)
  | _ => True

/-! ## The invariant -/

structure AuxInv (b : Board) (s : State) : Prop where
  mode : s.mode = .slave
  idRef : ¬(1 ≤ s.mpll.idRef ∧ s.mpll.idRef < b.nChanOut)
  channels : ∀ ch, 1 ≤ ch → ch < b.nChanOut → (s.aux (ch - 1)).mode = .slave →
    SlaveOk s ch ∧ FlagOk s ch

variable {b : Board} {s : State}

theorem AuxInv.congr {s' : State} (hI : AuxInv b s) (hmode : s'.mode = s.mode)
    (hid : s'.mpll.idRef = s.mpll.idRef) (hmodes : ∀ i, (s'.aux i).mode = (s.aux i).mode)
    (hseq : ∀ i, (s'.aux i).seqState = (s.aux i).seqState)
    (hbit : ∀ ch, 1 ≤ ch → ch < b.nChanOut →
      s'.regs.outLock.getLsbD ch = s.regs.outLock.getLsbD ch) :
    AuxInv b s' := by
  refine ⟨hmode.trans hI.mode, hid ▸ hI.idRef, ?_⟩
  intro ch hpos hch hslave
  rw [hmodes] at hslave
  obtain ⟨hok, hflag⟩ := hI.channels ch hpos hch hslave
  refine ⟨⟨(hmodes _).trans hslave, ?_⟩, ?_⟩
  · rw [hseq]
    exact hok.states
  · unfold FlagOk
    rw [hbit ch hpos hch, hseq]
    exact hflag

theorem spllInit_auxInv (s : State) {ref : Nat} (href : ¬(1 ≤ ref ∧ ref < b.nChanOut)) :
    AuxInv b (spllInit b s .slave ref) := by
  refine ⟨rfl, href, ?_⟩
  intro ch hpos hch hmode
  have haux : (spllInit b s .slave ref).aux (ch - 1) = { s.aux (ch - 1) with
      dmtd := mpllInit b false (s.aux (ch - 1)).dmtd ref (b.nChanRef + (ch - 1) + 1)
      seqState := .disabled } :=
    if_pos (by omega)
  refine ⟨⟨hmode, Or.inl (by rw [haux])⟩, ?_⟩
  unfold FlagOk
  rw [haux]
  exact BitVec.getLsbD_zero

theorem handleTag_auxInv (hI : AuxInv b s) (tag : Int) (source : Nat) :
    AuxInv b (handleTag b s tag source) := by
  have hs := sequencingFsm_frame (b := b) s source
  have hl := updateLoops_frame (b := b) (sequencingFsm b s source) tag source
  refine hI.congr (hl.mode.trans hs.mode) (hl.mpll.idRef.trans hs.idRef) ?_ ?_ ?_
  · intro i
    exact (hl.auxMode i).trans (by rw [hs.aux])
  · intro i
    exact (hl.auxSeq i).trans (by rw [hs.aux])
  · intro ch hpos hch
    have hout := nChanOut_le b
    have hne : ch ≠ s.mpll.idRef := fun h => hI.idRef (h ▸ ⟨hpos, hch⟩)
    exact (congrArg (BitVec.getLsbD · ch) hl.outLock).trans (hs.outLock ch (by omega) hne)

theorem spllUpdate_auxInv (hI : AuxInv b s) : AuxInv b (spllUpdate b s).1 := by
  have hpoll := spllUpdate_pollFrame (b := b) s
  have hmpll := spllUpdate_slave_mpll (b := b) hI.mode
  refine ⟨hpoll.mode.trans hI.mode, by rw [hmpll]; exact hI.idRef, ?_⟩
  intro ch hpos hch hmode
  rw [spllUpdate_mode] at hmode
  obtain ⟨hok, hflag⟩ := hI.channels ch hpos hch hmode
  have hturn := spllUpdate_slave_turn hI.mode hpos hch hok
  exact ⟨hturn.toSlaveOk, hturn.flag hflag⟩

theorem step_auxInv {e : Event} (hI : AuxInv b s) (he : SlaveInit b e) : AuxInv b (s.step b e) := by
  refine State.step_rule s e (fun _ _ _ => handleTag_auxInv hI _ _) (spllUpdate_auxInv hI) ?_ ?_ ?_
  · intro channel ps
    obtain ⟨_, _, _, h⟩ := spllSetPhaseShift_shifted s channel ps
    rw [h]
    exact hI.congr rfl rfl (fun _ => rfl) (fun _ => rfl) fun _ _ _ => rfl
  · rintro mode ref rfl
    obtain ⟨rfl, href⟩ := he
    exact spllInit_auxInv s href
  · exact fun _ _ _ _ => hI.congr rfl rfl (fun _ => rfl) (fun _ => rfl) fun _ _ _ => rfl

theorem spllUpdate_sound_iff (hI : AuxInv b s) :
    AuxLockSound b (spllUpdate b s).1 ↔ PollOk b s := by
  have hpoll := spllUpdate_pollFrame (b := b) s
  have hmpll := spllUpdate_slave_mpll (b := b) hI.mode
  have hturn : ∀ ch, 1 ≤ ch → ch < b.nChanOut → (s.aux (ch - 1)).mode = .slave →
      SlaveTurn b s (spllUpdate b s).1 ch ∧ FlagOk (spllUpdate b s).1 ch := by
    intro ch hpos hch hmode
    obtain ⟨hok, hflag⟩ := hI.channels ch hpos hch hmode
    have hturn := spllUpdate_slave_turn hI.mode hpos hch hok
    exact ⟨hturn, hturn.flag hflag⟩
  constructor
  · intro hsound ch hpos hch hmode hen
    obtain ⟨hturn, hflag⟩ := hturn ch hpos hch hmode
    -- a confirmed channel reports lock, and the flag is sound by assumption
    have hgood : Confirms s ch → s.seqState = .ready ∧ s.helper.ld.locked = true ∧
        s.mpll.locked = true ∧ (s.aux (ch - 1)).dmtd.phaseLd.locked = true := by
      intro hc
      have hready := hturn.ready.mpr hc
      have hbit : (spllUpdate b s).1.regs.outLock.getLsbD ch = true := by
        rw [hflag, hready]
        rfl
      obtain ⟨hs, hh, hm, ha⟩ := hsound ch hpos hch ((spllUpdate_mode s _).trans hmode) hbit
      rw [hturn.keeps hready] at ha
      exact ⟨hpoll.seqState ▸ hs, hpoll.helper ▸ hh, hmpll ▸ hm, ha⟩
    refine ⟨fun hr hm ha => ?_, fun hr hbusy => hgood ⟨hen, Or.inr ⟨hr, hbusy⟩⟩⟩
    obtain ⟨hs, hh, -⟩ := hgood ⟨hen, Or.inl ⟨hr, hm, ha⟩⟩
    exact ⟨hs, hh⟩
  · intro hok ch hpos hch hmode hbit
    rw [spllUpdate_mode] at hmode
    obtain ⟨hturn, hflag⟩ := hturn ch hpos hch hmode
    have hready : ((spllUpdate b s).1.aux (ch - 1)).seqState = .slaveReady := by
      rw [hflag] at hbit
      exact of_decide_eq_true hbit
    rw [hpoll.seqState, hpoll.helper, hmpll, hturn.keeps hready]
    obtain ⟨hen, ⟨hr, hm, ha⟩ | ⟨hr, hbusy⟩⟩ := hturn.ready.mp hready
    · obtain ⟨hs, hh⟩ := (hok ch hpos hch hmode hen).1 hr hm ha
      exact ⟨hs, hh, hm, ha⟩
    · exact (hok ch hpos hch hmode hen).2 hr hbusy

/-- **The flags of the aux channels are sound after every poll of exactly the runs
whose polls all find a state to be believed**: tags from any channel, phase shift
requests, freezes, changes of the inputs, polls and new initialisations as a
slave, in any order. -/
theorem auxLockRun_sound_iff (b : Board) (s : State) (ref : Nat)
    (href : ¬(1 ≤ ref ∧ ref < b.nChanOut)) (es : List Event) (hes : ∀ e ∈ es, SlaveInit b e) :
    Run.Steps (State.step b) (fun s e => e = .update → AuxLockSound b (s.step b e))
        (spllInit b s .slave ref) es ↔
      Run.Steps (State.step b) (fun s e => e = .update → PollOk b s)
        (spllInit b s .slave ref) es := by
  refine Run.steps_congr (Run.steps_of_inv
    (fun s e hI he => step_auxInv hI he) ?_ (spllInit_auxInv s href) (Run.steps_of_forall hes))
  rintro s e hI -
  refine forall_congr' ?_
  rintro rfl
  exact spllUpdate_sound_iff hI

/-- A slave that locks, with two polls after that: its aux channel reports the lock. -/
theorem auxLockRun_sound_iff_polls :
    (Run.run (State.step generic) (spllInit generic (State.boot generic 1) .slave 0)
        reportEvents).regs.outLock.getLsbD 1 = true ∧
      (Run.Steps (State.step generic) (fun s e => e = .update →
          AuxLockSound generic (s.step generic e))
          (spllInit generic (State.boot generic 1) .slave 0) reportEvents ↔
        Run.Steps (State.step generic) (fun s e => e = .update → PollOk generic s)
          (spllInit generic (State.boot generic 1) .slave 0) reportEvents) := by
  refine ⟨slave_reports.2, auxLockRun_sound_iff generic (State.boot generic 1) 0 (by decide)
    reportEvents ?_⟩
  exact List.forall_mem_append.mpr
    ⟨slaveEvents_forall (fun _ _ => trivial) (fun _ => trivial) trivial, by simp [SlaveInit]⟩

/-! ## The reference stops -/

theorem AuxUp.ref {q : AuxSeq} (h : AuxUp s q) (hh : s.helper.ld.locked = true) (v : Int) :
    AuxUp (handleTag generic s v 0) q ∧
      (handleTag generic s v 0).regs.outLock = s.regs.outLock := by
  have hstill := sequencingFsm_still (b := generic) (.ready h.seqState h.mode hh h.locked) 0
  have hout : (handleTag generic s v 0).regs.outLock = s.regs.outLock := by
    refine (updateLoops_frame _ v 0).outLock.trans ?_
    rw [hstill]
  refine ⟨?_, hout⟩
  cases hl : (handleTag generic s v 0).helper.ld.locked with
  | true =>
    obtain ⟨hserving, rev, tics, r, haux⟩ := h.toServing.tag hh (by decide) hl
    have hne : 0 ≠ (s.aux 0).dmtd.idOut := by
      rw [h.auxIds.2]
      nofun
    obtain ⟨hsame, hquiet⟩ := h.aux.pll.other (b := generic) rfl hne rev tics r v
    refine ⟨hserving, ?_⟩
    rw [haux]
    exact ⟨h.aux.seqState, hquiet, (congrArg LockDet.locked hsame.phaseLd).trans h.aux.locked,
      hsame.target.trans h.aux.target, hsame.current.trans h.aux.current⟩
  | false =>
    have hmpll : (handleTag generic s v 0).mpll = s.mpll := by
      refine (updateLoops_of_unlocked hl).1.trans ?_
      rw [hstill]
    have haux : (handleTag generic s v 0).aux = s.aux := by
      refine (updateLoops_of_unlocked hl).2.trans ?_
      rw [hstill]
    have hs : (handleTag generic s v 0).seqState = .ready := by
      rw [handleTag_seqState, hstill]
      exact h.seqState
    have hen : auxLockingEnabled (handleTag generic s v 0).hw 1 = true := by
      rw [handleTag_hw]
      exact h.enabled
    exact ⟨⟨h.toSlave.tag v 0, hs, hmpll ▸ h.mpll, hmpll ▸ h.locked, hen⟩, haux ▸ h.aux⟩

/-- The aux channel reports lock and the reference stands still at `t`; the
helper has `n` left of its count. -/
structure Fading (s : State) (t : Int) (n : Nat) : Prop extends AuxUp s .slaveReady where
  helper : HelperAt s.helper t (10001 - n : Nat)
  ld : Losing s.helper.ld n
  flag : s.regs.outLock.getLsbD 1 = true

structure Lost (s : State) : Prop extends AuxUp s .slaveReady where
  unlocked : s.helper.ld.locked = false
  flag : s.regs.outLock.getLsbD 1 = true

theorem Fading.tag {t : Int} {n : Nat} (h : Fading s t (n + 1)) (h100 : 100 ≤ n) (hn : n < 10000) :
    if n = 100 then Lost (handleTag generic s t 0) else Fading (handleTag generic s t 0) t n := by
  obtain ⟨hup, hout⟩ := h.toAuxUp.ref h.ld.locked t
  have hflag : (handleTag generic s t 0).regs.outLock.getLsbD 1 = true := by
    rw [hout]
    exact h.flag
  obtain ⟨tics, r, hhelper⟩ := h.toSlaveOn.helper_ref (by rw [h.seqState]; decide) t
  obtain ⟨hat, hld⟩ := h.helper.stuck (by omega) (by omega) h.ld h100 tics r
  rw [← hhelper] at hat hld
  split
  · next hlast =>
    rw [if_pos hlast] at hld
    exact ⟨hup, hld, hflag⟩
  · next hlast =>
    rw [if_neg hlast] at hld
    refine ⟨hup, ?_, hld, hflag⟩
    convert hat using 2
    omega

theorem Fading.run {k n : Nat} (h : Fading s (period k) (100 + (n + 1))) (hn : n < 9900) :
    Lost (Run.run (State.step generic) s (List.replicate (n + 1) (tagEvent 0 (period k)))) := by
  induction n generalizing s with
  | zero =>
    have hlost := h.tag (by decide) (by decide)
    rw [← h.step_tag (by decide)] at hlost
    exact hlost
  | succ n ih =>
    have hfade := Fading.tag (n := 100 + (n + 1)) h (by omega) (by omega)
    rw [if_neg (by omega), ← h.step_tag (by decide)] at hfade
    exact ih hfade (by omega)

theorem Lost.unsound (h : Lost s) : ¬AuxLockSound generic (spllUpdate generic s).1 := by
  have hok : SlaveOk s 1 := ⟨h.auxMode, Or.inr (Or.inr (Or.inr h.aux.seqState))⟩
  have hturn := spllUpdate_slave_turn (b := generic) h.mode (by decide) (by decide) hok
  have hready := hturn.ready.mpr ⟨h.enabled, Or.inl ⟨h.aux.seqState, h.locked, h.aux.locked⟩⟩
  have hflag : FlagOk s 1 := h.flag.trans (decide_eq_true h.aux.seqState).symm
  have hbit := (hturn.flag hflag).trans (decide_eq_true hready)
  intro hsound
  obtain ⟨-, hh, -⟩ := hsound 1 (by decide) (by decide) hturn.mode hbit
  rw [(spllUpdate_loops (b := generic) (s := s)).1, h.unlocked] at hh
  cases hh

theorem Lost.steps_unsound (h : Lost s) :
    ¬Run.Steps (State.step generic) (fun s e => e = .update →
      AuxLockSound generic (s.step generic e)) s [.update] :=
  fun hs => h.unsound (hs.1 rfl)

theorem Following.fading {t : Int} {n : Nat} (h : Following s t (HalfOn · t) n) (hn : 1049 ≤ n) :
    Fading (Run.run (State.step generic) s [.update, .update]) t 10000 := by
  obtain ⟨hup, hflag⟩ := (h.auxUp hn).align.report
  have hhelper : (Run.run (State.step generic) s [.update, .update]).helper = s.helper := by
    have h := (spllUpdate_loops (b := generic) (s := (spllUpdate generic s).1)).1
    exact h.trans (spllUpdate_loops).1
  have hon := h.helper
  rw [← hhelper] at hon
  exact ⟨hup, hon.toHelperAt, ⟨hon.setup.1, hon.setup.2, hon.ld.lockCnt, hon.ld.locked⟩, hflag⟩

/-- The slave has locked and its aux channel reports it; then the reference
stands still. -/
def lossEvents : List Event :=
  slaveEvents ++ [.update, .update] ++ List.replicate 9900 (tagEvent 0 (period 12100))

theorem lossEvents_lost :
    Lost (Run.run (State.step generic) (spllInit generic (State.boot generic 1) .slave 0)
      lossEvents) := by
  have hfade := slave_locks.fading (by decide)
  unfold lossEvents
  simp only [Run.run_append]
  exact hfade.run (by decide)

/-- **The flag outlives the lock**: the helper has lost the reference, the two
flags the poll looks at are stale, and `spll_update` keeps `OUT_LOCK` set. -/
theorem auxLockRun_helper_lost :
    ¬Run.Steps (State.step generic) (fun s e => e = .update →
      AuxLockSound generic (s.step generic e)) (spllInit generic (State.boot generic 1) .slave 0)
        (lossEvents ++ [.update]) := by
  intro h
  exact lossEvents_lost.steps_unsound (Run.steps_append.mp h).2

end Wrpc.SoftPll
