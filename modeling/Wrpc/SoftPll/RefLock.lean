/-
# A slave locks to a channel

The sequencer, the helper and the main PLL on a clean tag stream, from
`spll_init` in slave mode until the main PLL is locked.  The node is the generic
one, with the main oscillator on channel 1; the reference is any other channel
`k`, since nothing but the comparison with its number depends on it.

    Waking        SEQ_CLEAR_DACS to SEQ_START_HELPER, on tags of the main channel
    AcquiringOn   SEQ_WAIT_HELPER, the helper counts reference tags
    StartingOn    SEQ_START_MAIN
    LockingOn     SEQ_WAIT_MAIN, the main PLL counts pairs; SEQ_READY at the last

Each phase is what holds between two tags and a step lemma takes it one tag
further; `Waking.locks` puts the phases together, whatever the SoftPLL did before
`spll_init`.
-/
import Wrpc.SoftPll.Sequencer
import Wrpc.SoftPll.Tracking

namespace Wrpc.SoftPll

open CInt Board List

variable {source : Nat}

/-! ## Tags -/

def tagEvent (source : Nat) (v : Int) : Event := .tag (BitVec.ofNat 32 (source * 2 ^ 24 + v.toNat))

theorem tagEvent_fields (hs : source < 2 ^ 7) {v : Int} (hv : 0 ≤ v ∧ v < 2 ^ 22) :
    tagSourceOf (BitVec.ofNat 32 (source * 2 ^ 24 + v.toNat)) = source ∧
      tagValueOf (BitVec.ofNat 32 (source * 2 ^ 24 + v.toNat)) = v := by
  have hlt : source * 2 ^ 24 + v.toNat < 2 ^ 32 := by omega
  constructor
  · unfold tagSourceOf
    rw [BitVec.toNat_ofNat]
    omega
  · unfold tagValueOf
    rw [BitVec.toNat_ofNat]
    omega

theorem step_tagEvent {b : Board} {s : State} (hon : s.regs.eicEnabled = true ∧ s.regs.irqOn = true)
    (hs : source < 2 ^ 7) {v : Int} (hv : 0 ≤ v ∧ v < 2 ^ 22) :
    s.step b (tagEvent source v) = handleTag b s v source := by
  obtain ⟨hsource, hvalue⟩ := tagEvent_fields hs hv
  simp only [State.step, tagEvent, if_pos hon, hsource, hvalue]

/-- The tag of the `k`-th period. -/
def period (k : Nat) : Int := (k * 2 ^ 14 : Nat) % 2 ^ 22

theorem nextTag_period (k : Nat) : nextTag (period k) = period (k + 1) := by
  unfold nextTag period
  omega

theorem period_range (k : Nat) : 0 ≤ period k ∧ period k < 2 ^ 22 := by
  unfold period
  omega

/-! ## One tag -/

section

variable {b : Board} {s : State} {v : Int} {source : Nat}

inductive Still (s : State) : Prop
  | waitHelper (hs : s.seqState = .waitHelper) (hl : s.helper.ld.locked = false)
  | waitMain (hs : s.seqState = .waitMain) (hl : s.mpll.locked = false)
  | ready (hs : s.seqState = .ready) (hm : s.mode = .slave) (hh : s.helper.ld.locked = true)
      (hl : s.mpll.locked = true)

theorem sequence_still (h : Still s) : sequence b s = s := by
  cases h with
  | waitHelper hs hl => simp [sequence, hs, hl]
  | waitMain hs hl => simp [sequence, hs, hl]
  | ready hs hm hh hl => simp [sequence, hs, delocked, hm, hh, hl]

theorem sequencingFsm_still (h : Still s) (source : Nat) : sequencingFsm b s source = { s with
      tagCount := (countTag b s source).tagCount, refCount := (countTag b s source).refCount } := by
  rw [sequencingFsm_eq]
  refine sequence_still ?_
  cases h with
  | waitHelper hs hl => exact .waitHelper hs hl
  | waitMain hs hl => exact .waitMain hs hl
  | ready hs hm hh hl => exact .ready hs hm hh hl

theorem sequencingFsm_helper (hs : s.seqState ≠ .startExt ∧ s.seqState ≠ .startHelper)
    (source : Nat) :
    (sequencingFsm b s source).helper = s.helper := by
  rw [sequencingFsm_eq]
  unfold sequence enterReady startPtrackers clearDacs
  grind

theorem handleTag_helper (hs : s.seqState ≠ .startExt ∧ s.seqState ≠ .startHelper) (v : Int)
    (source : Nat) :
    ∃ tics r, (handleTag b s v source).helper = (helperUpdate tics s.helper r v source).1 := by
  have h := updateLoops_helper (b := b) (sequencingFsm b s source) v source
  rw [sequencingFsm_helper hs] at h
  exact ⟨_, _, h⟩

theorem handleTag_mpll_of_fresh (h : Fresh (sequencingFsm b s source).mpll) :
    (handleTag b s v source).mpll = (sequencingFsm b s source).mpll := by
  cases hl : (handleTag b s v source).helper.ld.locked with
  | true => exact (updateLoops_mpll hl).trans (by rw [mpllUpdate_of_disabled _ _ h.disabled])
  | false => exact (updateLoops_of_unlocked hl).1

structure State.Aside (s s' : State) : Prop where
  aux : s'.aux = s.aux
  mpllShiftPs : s'.mpllShiftPs = s.mpllShiftPs

theorem State.Aside.trans {s s' s'' : State} (h : s.Aside s') (h' : s'.Aside s'') : s.Aside s'' :=
  ⟨h'.aux.trans h.aux, h'.mpllShiftPs.trans h.mpllShiftPs⟩

theorem handleTag_aside (h : (handleTag b s v source).seqState ≠ .ready) :
    s.Aside (handleTag b s v source) := by
  have hs := sequencingFsm_frame (b := b) s source
  refine ⟨?_, (updateLoops_frame _ v source).mpllShiftPs.trans hs.mpllShiftPs⟩
  have haux := hs.aux
  have hmain := updateMain_frame (b := b)
    (updateHelper (sequencingFsm b s source) v source) v source
  rw [handleTag_seqState] at h
  unfold handleTag updateLoops
  dsimp only
  split
  · split
    case isTrue hready => exact absurd (hmain.seqState.symm.trans hready) h
    case isFalse => exact haux
  · exact haux

end

/-! ## The node -/

/-- A slave of channel `k`. -/
structure SlaveOn (k : Nat) (s : State) : Prop where
  mode : s.mode = .slave
  interrupts : s.regs.eicEnabled = true ∧ s.regs.irqOn = true
  refSrc : s.helper.refSrc = k
  mpllIds : s.mpll.idRef = k ∧ s.mpll.idOut = 1

variable {s : State} {t : Int} {k n : Nat}

theorem SlaveOn.tag (h : SlaveOn k s) (v : Int) (source : Nat) :
    SlaveOn k (handleTag generic s v source) := by
  have hs := sequencingFsm_frame (b := generic) s source
  have hl := updateLoops_frame (b := generic) (sequencingFsm generic s source) v source
  refine ⟨(hl.mode.trans hs.mode).trans h.mode, ⟨?_, ?_⟩, ?_, ⟨?_, ?_⟩⟩
  · exact (hl.eicEnabled.trans hs.eicEnabled).trans h.interrupts.1
  · exact (hl.irqOn.trans hs.irqOn).trans h.interrupts.2
  · rw [handleTag, updateLoops_helper, helperUpdate_refSrc]
    exact hs.refSrc.trans h.refSrc
  · exact (hl.mpll.idRef.trans hs.idRef).trans h.mpllIds.1
  · exact (hl.mpll.idOut.trans hs.idOut).trans h.mpllIds.2

theorem SlaveOn.step_tag (h : SlaveOn k s) (hs : source < 2 ^ 7) (p : Nat) :
    s.step generic (tagEvent source (period p)) = handleTag generic s (period p) source :=
  step_tagEvent h.interrupts hs (period_range p)

theorem SlaveOn.helper_ref (h : SlaveOn k s)
    (hs : s.seqState ≠ .startExt ∧ s.seqState ≠ .startHelper) (v : Int) :
    ∃ tics r, (handleTag generic s v k).helper =
      (helperUpdate tics s.helper r v s.helper.refSrc).1 := by
  rw [h.refSrc]
  exact handleTag_helper hs v k

theorem SlaveOn.helper_other (h : SlaveOn k s)
    (hs : s.seqState ≠ .startExt ∧ s.seqState ≠ .startHelper) (v : Int)
    (hne : source ≠ k) : (handleTag generic s v source).helper = s.helper := by
  obtain ⟨tics, r, hhelper⟩ := handleTag_helper hs v source
  rw [hhelper]
  unfold helperUpdate
  rw [if_pos (by rw [h.refSrc]; exact hne)]

/-- The helper has seen tag `t`, expects its `j`-th tag from there on now and has counted `n`; the
main PLL has not been started. -/
structure WaitingOn (k : Nat) (s : State) (t j : Int) (n : Nat) : Prop extends SlaveOn k s where
  seqState : s.seqState = .waitHelper
  helper : HelperOn s.helper t j n
  mpll : Fresh s.mpll

/-- The helper has counted `n` tags, the last one `t`. -/
structure AcquiringOn (k : Nat) (s : State) (t : Int) (n : Nat) : Prop extends
    WaitingOn k s t 1 n where
  changed : s.helper.ld.locked = true → s.helper.ld.lockChanged = true

theorem handleTag_waitHelper (hseq : s.seqState = .waitHelper) (hl : s.helper.ld.locked = false)
    (hm : Fresh s.mpll) (v : Int) (source : Nat) :
    (handleTag generic s v source).seqState = .waitHelper ∧
      Fresh (handleTag generic s v source).mpll := by
  have hstill := sequencingFsm_still (b := generic) (.waitHelper hseq hl) source
  have hmpll : (sequencingFsm generic s source).mpll = s.mpll := by
    rw [hstill]
  refine ⟨?_, ?_⟩
  · rw [handleTag_seqState, hstill]
    exact hseq
  · rw [handleTag_mpll_of_fresh (by rw [hmpll]; exact hm), hmpll]
    exact hm

theorem AcquiringOn.ref (h : AcquiringOn k s t n) (hn : n < 10000) :
    AcquiringOn k (handleTag generic s (nextTag t) k) (nextTag t) (n + 1) := by
  have hunlocked : s.helper.ld.locked = false := by
    rw [h.helper.ld.locked]
    exact decide_eq_false (by omega)
  obtain ⟨hseq, hmpll⟩ := handleTag_waitHelper h.seqState hunlocked h.mpll (nextTag t) k
  obtain ⟨tics, r, hhelper⟩ := h.helper_ref (by rw [h.seqState]; decide) (nextTag t)
  have hon := h.helper.ref tics r
  rw [Nat.min_eq_left (by omega), ← hhelper] at hon
  refine ⟨⟨h.toSlaveOn.tag _ _, hseq, hon, hmpll⟩, ?_⟩
  rw [hhelper]
  exact helperUpdate_lockChanged _ _ _ _ hunlocked

/-! ## The main PLL starts -/

/-- The helper is locked and has seen tag `t`. -/
structure HeldOn (k : Nat) (s : State) (t : Int) : Prop extends SlaveOn k s where
  helper : HelperOn s.helper t 1 10000

theorem HeldOn.locked (h : HeldOn k s t) : s.helper.ld.locked = true := h.helper.ld.locked

theorem HeldOn.ref (h : HeldOn k s t) (hs : s.seqState ≠ .startExt ∧ s.seqState ≠ .startHelper) :
    HeldOn k (handleTag generic s (nextTag t) k) (nextTag t) := by
  obtain ⟨tics, r, hhelper⟩ := h.helper_ref hs (nextTag t)
  have hon := h.helper.ref tics r
  rw [← hhelper] at hon
  exact ⟨h.toSlaveOn.tag _ _, hon⟩

theorem HeldOn.other (h : HeldOn k s t) (hs : s.seqState ≠ .startExt ∧ s.seqState ≠ .startHelper)
    (v : Int) (hne : source ≠ k) : HeldOn k (handleTag generic s v source) t := by
  refine ⟨h.toSlaveOn.tag _ _, ?_⟩
  rw [h.helper_other hs v hne]
  exact h.helper

structure StartingOn (k : Nat) (s : State) (t : Int) : Prop extends HeldOn k s t where
  seqState : s.seqState = .startMain
  mpll : Fresh s.mpll

theorem AcquiringOn.lock (h : AcquiringOn k s t 10000) :
    StartingOn k (handleTag generic s (nextTag t) k) (nextTag t) := by
  have hheld : HeldOn k s t := ⟨h.toSlaveOn, h.helper⟩
  have hfsm : (sequencingFsm generic s k).seqState = .startMain ∧
      (sequencingFsm generic s k).mpll = s.mpll := by
    rw [sequencingFsm_eq]
    simp [sequence, h.seqState, hheld.locked, h.changed hheld.locked, h.mode]
  refine ⟨hheld.ref (by rw [h.seqState]; decide), ?_, ?_⟩
  · rw [handleTag_seqState, hfsm.1]
  · rw [handleTag_mpll_of_fresh (by rw [hfsm.2]; exact h.mpll), hfsm.2]
    exact h.mpll

/-- The main PLL has counted `n` pairs; `P` says where it is in the next one. -/
structure LockingOn (k : Nat) (s : State) (t : Int) (q : SeqState) (P : Main → Prop) (n : Nat) :
    Prop extends HeldOn k s t where
  seqState : s.seqState = q
  mpll : P s.mpll
  pairs : Pairs s.mpll n

theorem SlaveOn.mpll_ref (h : SlaveOn k s) (hk : k ≠ 1) {v : Int} (hv : 0 ≤ v)
    (hl : (handleTag generic s v k).helper.ld.locked = true)
    (hm : MainOn (sequencingFsm generic s k).mpll) (hp : Pairs (sequencingFsm generic s k).mpll n) :
    HalfOn (handleTag generic s v k).mpll v ∧ Pairs (handleTag generic s v k).mpll n := by
  have hs := sequencingFsm_frame (b := generic) s k
  have hmpll : (handleTag generic s v k).mpll = _ := updateLoops_mpll hl
  rw [hmpll]
  generalize sequencingFsm generic s k = s₁ at hm hp hs
  have hid : s₁.mpll.idRef = k := hs.idRef.trans h.mpllIds.1
  have hne : s₁.mpll.idRef ≠ s₁.mpll.idOut := by
    rw [hid, hs.idOut, h.mpllIds.2]
    exact hk
  rw [← hid]
  have hhalf := hm.ref (b := generic) rfl hne s₁.reverseSpll s₁.hw.tics s₁.regs hv
  refine ⟨hhalf, hp.of_sameLoop ?_⟩
  exact (hm.quiet.other (b := generic) rfl hne s₁.reverseSpll s₁.hw.tics s₁.regs v).1

theorem StartingOn.main (h : StartingOn k s t) (hk : k ≠ 1) :
    LockingOn k (handleTag generic s (nextTag t) k) (nextTag t) .waitMain
      (HalfOn · (nextTag t)) 0 := by
  have hfsm : (sequencingFsm generic s k).seqState = .waitMain ∧
      (sequencingFsm generic s k).mpll = s.mpll.started generic s.hw.tics := by
    rw [sequencingFsm_eq]
    simp [sequence, h.seqState, mpllStart]
  have hheld := h.toHeldOn.ref (by rw [h.seqState]; decide)
  obtain ⟨hon, hpairs⟩ := h.mpll.start s.hw.tics
  rw [← hfsm.2] at hon hpairs
  obtain ⟨hhalf, hpairs'⟩ := h.mpll_ref hk (nextTag_range t).1 hheld.locked hon hpairs
  refine ⟨hheld, ?_, hhalf, hpairs'⟩
  rw [handleTag_seqState, hfsm.1]

theorem LockingOn.out (h : LockingOn k s t .waitMain (HalfOn · t) n) (hk : k ≠ 1) (hn : n < 1049) :
    LockingOn k (handleTag generic s t 1) t .waitMain MainOn (n + 1) := by
  have hunlocked : s.mpll.locked = false := by
    rw [h.pairs.locked_eq]
    exact decide_eq_false (by omega)
  have hstill := sequencingFsm_still (b := generic) (.waitMain h.seqState hunlocked) 1
  have hheld := h.toHeldOn.other (by rw [h.seqState]; decide) t (Ne.symm hk)
  have hmpll : (handleTag generic s t 1).mpll = _ := updateLoops_mpll hheld.locked
  have hne : s.mpll.idRef ≠ s.mpll.idOut := by
    rw [h.mpllIds.1, h.mpllIds.2]
    exact hk
  have hout := h.mpll.out (b := generic) rfl hne h.pairs s.reverseSpll s.hw.tics s.regs
  rw [hstill] at hmpll
  rw [h.mpllIds.2] at hout
  refine ⟨hheld, ?_, ?_, ?_⟩
  · rw [handleTag_seqState, hstill]
    exact h.seqState
  · rw [hmpll]
    exact hout.1
  · rw [hmpll]
    exact hout.2

/-- The reference tag of the next pair.  The sequencer finds the main PLL locked
after the last one. -/
theorem LockingOn.ref (h : LockingOn k s t .waitMain MainOn n) (hk : k ≠ 1) :
    LockingOn k (handleTag generic s (nextTag t) k) (nextTag t)
      (if n < 1049 then .waitMain else .ready) (HalfOn · (nextTag t)) n := by
  have hfsm : (sequencingFsm generic s k).seqState = (if n < 1049 then .waitMain else .ready) ∧
      (sequencingFsm generic s k).mpll = s.mpll := by
    have hl := h.pairs.locked_eq
    rw [sequencingFsm_eq]
    split
    · rw [decide_eq_false (by omega)] at hl
      simp [sequence, h.seqState, hl]
    · rw [decide_eq_true (by omega)] at hl
      simp [sequence, h.seqState, hl, enterReady, startPtrackers]
  have hheld := h.toHeldOn.ref (by rw [h.seqState]; decide)
  obtain ⟨hhalf, hpairs⟩ := h.mpll_ref hk (nextTag_range t).1 hheld.locked
    (hfsm.2 ▸ h.mpll) (hfsm.2 ▸ h.pairs)
  refine ⟨hheld, ?_, hhalf, hpairs⟩
  rw [handleTag_seqState, hfsm.1]

/-! ## Waking up -/

/-- Between `spll_init` and the start of the helper. -/
structure Waking (k : Nat) (s : State) (q : SeqState) : Prop extends SlaveOn k s where
  seqState : s.seqState = q
  samples : s.helper.ld.lockSamples = 10000
  setup : s.helper.ld.threshold = 200 ∧ s.helper.ld.delockSamples = 100
  mpll : Fresh s.mpll

theorem spllInit_waking (k : Nat) (hsamples : s.helper.ld.lockSamples = 10000)
    (hsetup : s.helper.ld.threshold = 200 ∧ s.helper.ld.delockSamples = 100)
    (hsched : s.mpll.gainSched = none) (hdelta : s.mpll.drefDt = s.mpll.doutDt) :
    Waking k (spllInit generic s .slave k) .clearDacs := by
  have hfresh : Fresh (mpllInit generic s.mpllFirst s.mpll k generic.nChanRef) :=
    ⟨by simp [mpllInit, hsched], hdelta, ⟨rfl, (by decide : (0 : Int) ≤ 50)⟩,
      ⟨rfl, (by decide : (0 : Int) ≤ 1200)⟩, rfl⟩
  exact ⟨⟨rfl, ⟨rfl, rfl⟩, rfl, rfl, rfl⟩, rfl, hsamples, hsetup, hfresh⟩

theorem Waking.tag {q q' : SeqState} (h : Waking k s q) (hk : k ≠ 1)
    (hq : q ≠ .startExt ∧ q ≠ .startHelper) (hseq : (sequencingFsm generic s 1).seqState = q')
    (hmpll : (sequencingFsm generic s 1).mpll = s.mpll) (v : Int) :
    Waking k (handleTag generic s v 1) q' := by
  have hhelper := h.helper_other (by rw [h.seqState]; exact hq) v (Ne.symm hk)
  refine ⟨h.toSlaveOn.tag _ _, ?_, ?_, ?_, ?_⟩
  · rw [handleTag_seqState, hseq]
  · rw [hhelper]
    exact h.samples
  · rw [hhelper]
    exact h.setup
  · rw [handleTag_mpll_of_fresh (by rw [hmpll]; exact h.mpll), hmpll]
    exact h.mpll

theorem Waking.clear (h : Waking k s .clearDacs) (hk : k ≠ 1) (v : Int) :
    Waking k (handleTag generic s v 1) .waitClearDacs ∧
      (handleTag generic s v 1).dacTimeout = s.hw.tics + 50 := by
  have hfsm : (sequencingFsm generic s 1).seqState = .waitClearDacs ∧
      (sequencingFsm generic s 1).mpll = s.mpll ∧
      (sequencingFsm generic s 1).dacTimeout = s.hw.tics + 50 := by
    rw [sequencingFsm_eq]
    simp [sequence, h.seqState, clearDacs, generic]
  refine ⟨h.tag hk (by decide) hfsm.1 hfsm.2.1 v, ?_⟩
  exact (updateLoops_frame _ v 1).dacTimeout.trans hfsm.2.2

theorem Waking.wait (h : Waking k s .waitClearDacs) (hk : k ≠ 1)
    (htime : timeAfter s.hw.tics s.dacTimeout = true) (v : Int) :
    Waking k (handleTag generic s v 1) .startHelper := by
  have hfsm : (sequencingFsm generic s 1).seqState = .startHelper ∧
      (sequencingFsm generic s 1).mpll = s.mpll := by
    rw [sequencingFsm_eq]
    simp [sequence, h.seqState, htime, h.mode]
  exact h.tag hk (by decide) hfsm.1 hfsm.2 v

structure Listening (k : Nat) (s : State) : Prop extends Waking k s .waitHelper where
  tagD0 : s.helper.tagD0 = -1
  adder : s.helper.pAdder = 0
  ld : Counting s.helper.ld 10000 0

theorem Waking.start (h : Waking k s .startHelper) (hk : k ≠ 1) (v : Int) :
    Listening k (handleTag generic s v 1) := by
  have hfsm : (sequencingFsm generic s 1).seqState = .waitHelper ∧
      (sequencingFsm generic s 1).mpll = s.mpll ∧ (sequencingFsm generic s 1).helper =
        (helperStart generic s.reverseSpll s.hw.tics s.helper s.regs).1 := by
    rw [sequencingFsm_eq]
    simp [sequence, h.seqState]
  have hhelper : (handleTag generic s v 1).helper =
      (helperStart generic s.reverseSpll s.hw.tics s.helper s.regs).1 := by
    rw [handleTag, updateLoops_helper, hfsm.2.2]
    unfold helperUpdate
    rw [if_pos]
    show (1 : Nat) ≠ s.helper.refSrc
    rw [h.refSrc]
    exact Ne.symm hk
  refine ⟨⟨h.toSlaveOn.tag _ _, ?_, ?_, ?_, ?_⟩, ?_, ?_, ?_⟩
  · rw [handleTag_seqState, hfsm.1]
  · rw [hhelper]
    exact h.samples
  · rw [hhelper]
    exact h.setup
  · rw [handleTag_mpll_of_fresh (by rw [hfsm.2.1]; exact h.mpll), hfsm.2.1]
    exact h.mpll
  · rw [hhelper]
    rfl
  · rw [hhelper]
    rfl
  · rw [hhelper]
    have hthreshold : 0 ≤ s.helper.ld.threshold := by
      rw [h.setup.1]
      decide
    exact ⟨h.samples, hthreshold, rfl, by decide, rfl⟩

theorem Listening.first (h : Listening k s) (ht : 0 ≤ t ∧ t < 2 ^ 22) :
    WaitingOn k (handleTag generic s t k) t 0 0 := by
  obtain ⟨hseq, hmpll⟩ := handleTag_waitHelper h.seqState h.ld.locked h.mpll t k
  obtain ⟨tics, r, hhelper⟩ := h.helper_ref (by rw [h.seqState]; decide) t
  have hfirst : (helperUpdate tics s.helper r t s.helper.refSrc).1 =
      { s.helper with pSetpoint := t, tagD0 := t } := by
    have hneg : s.helper.tagD0 < 0 := by
      rw [h.tagD0]
      decide
    unfold helperUpdate
    rw [if_neg (fun hne => hne rfl), if_pos hneg]
  refine ⟨h.toSlaveOn.tag _ _, hseq, ?_, hmpll⟩
  rw [hhelper, hfirst]
  refine ⟨⟨rfl, ht, ?_, h.setup⟩, h.ld⟩
  rw [h.adder, Int.zero_mul, Int.add_zero, Int.add_zero]

theorem WaitingOn.again (h : WaitingOn k s t 0 0) :
    AcquiringOn k (handleTag generic s t k) t 1 := by
  have hunlocked : s.helper.ld.locked = false := h.helper.ld.locked
  obtain ⟨hseq, hmpll⟩ := handleTag_waitHelper h.seqState hunlocked h.mpll t k
  obtain ⟨tics, r, hhelper⟩ := h.helper_ref (by rw [h.seqState]; decide) t
  have hd : t + (helperUnwrap s.helper t).pAdder ≡ t + s.helper.pAdder + 0 [ZMOD 2 ^ 32] := by
    rw [h.helper.unwrap_same, Int.add_zero]
  have herr : helperError (helperUnwrap s.helper t) t = 0 := by
    unfold helperError
    rw [helperError_at h.helper.toHelperAt t hd]
    decide
  have hcount := h.helper.ld.zero
  rw [h.helper.update] at hhelper
  have hld : (handleTag generic s t k).helper.ld = (ldUpdate s.helper.ld 0).1 := by
    rw [hhelper, helperTrack_ld, herr]
  have hat := helperTrack_at h.helper.toHelperAt tics h.helper.range hd
    (show (1 : Int) * 2 ^ 14 = _ by decide)
  rw [← hhelper] at hat
  rw [← hld] at hcount
  refine ⟨⟨h.toSlaveOn.tag _ _, hseq, ⟨hat, hcount⟩, hmpll⟩, ?_⟩
  rw [hcount.locked]
  nofun

/-! ## The run -/

/-- `n` tags of the reference `k` after that of period `p`. -/
def refTagsOn (k : Nat) : Nat → Nat → List Event
  | _, 0 => []
  | p, n + 1 => tagEvent k (period (p + 1)) :: refTagsOn k (p + 1) n

/-- `n` times the tag of an output for the period at hand and the next tag of the reference. -/
def pairTagsOn (out k : Nat) : Nat → Nat → List Event
  | _, 0 => []
  | p, n + 1 =>
    tagEvent out (period p) :: tagEvent k (period (p + 1)) :: pairTagsOn out k (p + 1) n

/-- The DACs are cleared on tags of the main channel, and 50 ms pass. -/
def wakeEvents : List Event :=
  [tagEvent 1 (period 0), .hw { (default : Hw) with tics := 100 }, tagEvent 1 (period 0)]

theorem Waking.run (h : Waking k s .clearDacs) (hk : k ≠ 1) (htics : s.hw.tics = 0) :
    Waking k (Run.run (State.step generic) s wakeEvents) .startHelper ∧
      s.Aside (Run.run (State.step generic) s wakeEvents) := by
  obtain ⟨hclear, htimeout⟩ := h.clear hk (period 0)
  have haside := handleTag_aside (by rw [hclear.seqState]; nofun)
  rw [← h.step_tag (by decide)] at hclear htimeout haside
  simp only [wakeEvents, Run.run_cons]
  generalize s.step generic (tagEvent 1 (period 0)) = s₁ at hclear htimeout haside
  have hpassed : Waking k (s₁.step generic (.hw { (default : Hw) with tics := 100 }))
      .waitClearDacs :=
    ⟨⟨hclear.mode, hclear.interrupts, hclear.refSrc, hclear.mpllIds⟩, hclear.seqState,
      hclear.samples, hclear.setup, hclear.mpll⟩
  have htime : timeAfter (s₁.step generic (.hw { (default : Hw) with tics := 100 })).hw.tics
      (s₁.step generic (.hw { (default : Hw) with tics := 100 })).dacTimeout = true := by
    show timeAfter 100 s₁.dacTimeout = true
    rw [htimeout, htics]
    decide
  have hwait := hpassed.wait hk htime (period 0)
  have haside' := handleTag_aside (by rw [hwait.seqState]; nofun)
  rw [← hpassed.step_tag (by decide)] at hwait haside'
  exact ⟨hwait, haside'.aux.trans haside.aux, haside'.mpllShiftPs.trans haside.mpllShiftPs⟩

/-- The helper is started, and takes its setpoint from the first reference tag. -/
def primeEvents (k : Nat) : List Event :=
  [tagEvent 1 (period 0), tagEvent k (period 0), tagEvent k (period 0)]

theorem Waking.prime (h : Waking k s .startHelper) (hk : k ≠ 1) (hlt : k < 2 ^ 7) :
    AcquiringOn k (Run.run (State.step generic) s (primeEvents k)) (period 0) 1 ∧
      s.Aside (Run.run (State.step generic) s (primeEvents k)) := by
  have hstart := h.start hk (period 0)
  have haside := handleTag_aside (by rw [hstart.seqState]; nofun)
  rw [← h.step_tag (by decide)] at hstart haside
  have hfirst := hstart.first (period_range 0)
  have haside' := handleTag_aside (by rw [hfirst.seqState]; nofun)
  rw [← hstart.step_tag hlt] at hfirst haside'
  have hagain := hfirst.again
  have haside'' := handleTag_aside (by rw [hagain.seqState]; nofun)
  rw [← hfirst.step_tag hlt] at hagain haside''
  exact ⟨hagain, haside.trans (haside'.trans haside'')⟩

theorem AcquiringOn.run {p i : Nat} (h : AcquiringOn k s (period p) i) (hlt : k < 2 ^ 7)
    (hn : i + n ≤ 10000) :
    AcquiringOn k (Run.run (State.step generic) s (refTagsOn k p n)) (period (p + n)) (i + n) ∧
      s.Aside (Run.run (State.step generic) s (refTagsOn k p n)) := by
  induction n generalizing s p i with
  | zero => exact ⟨h, rfl, rfl⟩
  | succ n ih =>
    have hstep := h.ref (by omega)
    have haside := handleTag_aside (by rw [hstep.seqState]; nofun)
    rw [nextTag_period] at hstep haside
    obtain ⟨hrun, haside'⟩ := ih hstep (by omega)
    rw [← h.step_tag hlt] at hrun haside haside'
    rw [show p + (n + 1) = p + 1 + n by omega, show i + (n + 1) = i + 1 + n by omega]
    exact ⟨hrun, haside.trans haside'⟩

theorem AcquiringOn.start {p : Nat} (h : AcquiringOn k s (period p) 10000) (hk : k ≠ 1)
    (hlt : k < 2 ^ 7) :
    LockingOn k (Run.run (State.step generic) s (refTagsOn k p 2)) (period (p + 2)) .waitMain
        (HalfOn · (period (p + 2))) 0 ∧
      s.Aside (Run.run (State.step generic) s (refTagsOn k p 2)) := by
  have hlock := h.lock
  have haside := handleTag_aside (by rw [hlock.seqState]; nofun)
  rw [nextTag_period] at hlock haside
  have hmain := hlock.main hk
  have haside' := handleTag_aside (by rw [hmain.seqState]; nofun)
  rw [nextTag_period, ← hlock.step_tag hlt, ← h.step_tag hlt] at hmain haside'
  rw [← h.step_tag hlt] at haside
  exact ⟨hmain, haside.trans haside'⟩

theorem LockingOn.run {p i : Nat} (h : LockingOn k s (period p) .waitMain (HalfOn · (period p)) i)
    (hk : k ≠ 1) (hlt : k < 2 ^ 7) (hn : i + n < 1049) :
    LockingOn k (Run.run (State.step generic) s (pairTagsOn 1 k p n)) (period (p + n)) .waitMain
        (HalfOn · (period (p + n))) (i + n) ∧
      s.Aside (Run.run (State.step generic) s (pairTagsOn 1 k p n)) := by
  induction n generalizing s p i with
  | zero => exact ⟨h, rfl, rfl⟩
  | succ n ih =>
    have hout := h.out hk (by omega)
    have haside := handleTag_aside (by rw [hout.seqState]; nofun)
    have href := hout.ref hk
    rw [if_pos (by omega)] at href
    have haside' := handleTag_aside (by rw [href.seqState]; nofun)
    rw [nextTag_period, ← hout.step_tag hlt, ← h.step_tag (by decide)] at href haside'
    rw [← h.step_tag (by decide)] at haside
    obtain ⟨hrun, haside''⟩ := ih href (by omega)
    rw [show p + (n + 1) = p + 1 + n by omega, show i + (n + 1) = i + 1 + n by omega]
    exact ⟨hrun, haside.trans (haside'.trans haside'')⟩

/-- The clean tag stream from there: `n` more tags of the reference for the helper, two to start the
main PLL, and `m` pairs and one more output tag for the main PLL. -/
def lockEvents (k n m : Nat) : List Event :=
  primeEvents k ++ refTagsOn k 0 n ++ refTagsOn k n 2 ++ pairTagsOn 1 k (n + 2) m ++
    [tagEvent 1 (period (n + 2 + m))]

/-- A tag of a clean stream, of an output or the reference. -/
def Heard (out k : Nat) (e : Event) : Prop :=
  ∃ source p, (source = out ∨ source = k) ∧ e = tagEvent source (period p)

theorem refTagsOn_heard (out p : Nat) : ∀ e ∈ refTagsOn k p n, Heard out k e := by
  induction n generalizing p with
  | zero => nofun
  | succ n ih => exact forall_mem_cons.mpr ⟨⟨k, _, .inr rfl, rfl⟩, ih _⟩

theorem pairTagsOn_heard {out : Nat} (p : Nat) : ∀ e ∈ pairTagsOn out k p n, Heard out k e := by
  induction n generalizing p with
  | zero => nofun
  | succ n ih =>
    refine forall_mem_cons.mpr ⟨⟨out, _, .inl rfl, rfl⟩, ?_⟩
    exact forall_mem_cons.mpr ⟨⟨k, _, .inr rfl, rfl⟩, ih _⟩

theorem lockEvents_heard {m : Nat} : ∀ e ∈ lockEvents k n m, Heard 1 k e := by
  have hmain : ∀ p, Heard 1 k (tagEvent 1 (period p)) := fun p => ⟨1, p, .inl rfl, rfl⟩
  have href : ∀ p, Heard 1 k (tagEvent k (period p)) := fun p => ⟨k, p, .inr rfl, rfl⟩
  simp only [lockEvents, primeEvents, forall_mem_append, forall_mem_cons]
  exact ⟨⟨⟨⟨⟨hmain 0, href 0, href 0, forall_mem_nil _⟩, refTagsOn_heard 1 0⟩,
    refTagsOn_heard 1 n⟩, pairTagsOn_heard (n + 2)⟩, hmain _, forall_mem_nil _⟩

theorem Waking.locks (h : Waking k s .startHelper) (hk : k ≠ 1) (hlt : k < 2 ^ 7) {m : Nat}
    (hn : n + 1 = 10000) (hm : m + 1 = 1049) :
    LockingOn k (Run.run (State.step generic) s (lockEvents k n m)) (period (n + 2 + m)) .waitMain
        MainOn 1049 ∧
      s.Aside (Run.run (State.step generic) s (lockEvents k n m)) := by
  obtain ⟨hprime, haside₁⟩ := h.prime hk hlt
  obtain ⟨hacq, haside₂⟩ := hprime.run (n := n) hlt (by omega)
  rw [Nat.zero_add, Nat.add_comm 1 n, hn] at hacq
  obtain ⟨hstart, haside₃⟩ := hacq.start hk hlt
  obtain ⟨hpairs, haside₄⟩ := hstart.run (n := m) hk hlt (by omega)
  have hout := hpairs.out hk (by omega)
  have haside₅ := handleTag_aside (by rw [hout.seqState]; nofun)
  rw [← hpairs.step_tag (by decide), Nat.zero_add, hm] at hout
  rw [← hpairs.step_tag (by decide)] at haside₅
  simp only [lockEvents, Run.run_append]
  exact ⟨hout, haside₁.trans (haside₂.trans (haside₃.trans (haside₄.trans haside₅)))⟩

end Wrpc.SoftPll
