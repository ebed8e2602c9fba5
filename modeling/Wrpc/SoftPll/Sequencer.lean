/-
# The sequencer over whole runs

`sequencing_fsm` runs first on every tag and the loops after it, so a lock
acquired by the loops is seen by the sequencer on the next tag.  `SEQ_WAIT_HELPER`
waits for `locked` together with `lock_changed`, and the detector clears
`lock_changed` on its next sample: if that sample came first, the sequencer
would wait for ever.

## What is proved

`seqRun_sound`, for every mode and every run after `spll_init`:

    a locked helper in SEQ_WAIT_HELPER still has lock_changed set, and the next
    tag leaves the state;
    SEQ_READY is entered only with the helper locked, in slave mode also the
    main PLL, in grandmaster mode also the external reference;
    delock_count is the number of times SEQ_READY was left.

`dacRun_settled` is about the settling time of the DACs.  The loops also run on
the tags handled in `SEQ_CLEAR_DACS` and `SEQ_WAIT_CLEAR_DACS`, and overwrite
what was just written: always when the PLL relocks, and for a free running
master from the first tag on.
-/
import Wrpc.SoftPll.Frames
import Wrpc.Lib.Run

namespace Wrpc.SoftPll

open CInt

variable {b : Board}

/-! ## One turn of the sequencer -/

structure SeqInv (s : State) : Prop where
  waitHelper : s.seqState = .waitHelper → s.helper.ld.locked = true → s.helper.ld.lockChanged = true
  waitMain : s.seqState = .waitMain → s.mpll.locked = true → s.helper.ld.locked = true
  helperMode : s.seqState = .startHelper ∨ s.seqState = .waitHelper → s.mode ≠ .grandMaster
  mainMode : s.seqState = .startMain ∨ s.seqState = .waitMain → s.mode = .slave
  interrupts : s.seqState = .waitHelper → s.regs.eicEnabled = true ∧ s.regs.irqOn = true

/-- What `SEQ_READY` stands for, in each mode. -/
def ReadyOk (s : State) : Prop :=
  s.helper.ld.locked = true ∧ (s.mode = .slave → s.mpll.locked = true) ∧
    (s.mode = .grandMaster → externalLocked s = true)

/-- One turn of the sequencer, from `s` to `s'`, before the loops run. -/
structure SeqTurn (s s' : State) : Prop where
  waitHelper : s'.seqState = .waitHelper → s'.helper.ld.locked = false
  waitMain : s'.seqState = .waitMain → s'.mpll.locked = false
  ready : s.seqState ≠ .ready → s'.seqState = .ready → ReadyOk s
  helperMode : s'.seqState = .startHelper ∨ s'.seqState = .waitHelper → s.mode ≠ .grandMaster
  mainMode : s'.seqState = .startMain ∨ s'.seqState = .waitMain → s.mode = .slave
  leaves : s.seqState = .waitHelper → s.helper.ld.locked = true → s'.seqState ≠ .waitHelper
  delockCount : s'.delockCount =
    if s.seqState = .ready ∧ s'.seqState ≠ .ready then i32 (s.delockCount + 1) else s.delockCount

variable {s : State} {source : Nat}

theorem externalLocked_locks (h : externalLocked s = true) :
    s.helper.ld.locked = true ∧ s.mpll.locked = true := by
  unfold externalLocked at h
  grind

theorem enterReady_turn (hs : s.seqState ≠ .ready) (h : ReadyOk s) : SeqTurn s (enterReady b s) :=
  ⟨nofun, nofun, fun _ _ => h, nofun, nofun, nofun, by rw [if_neg (fun h => hs h.1)]; rfl⟩

theorem sequence_turn (hI : SeqInv s) : SeqTurn s (sequence b s) := by
  cases hs : s.seqState with
  | unset =>
    simp only [sequence, hs]
    constructor <;> simp [hs]
  | startExt =>
    simp only [sequence, hs]
    constructor <;> simp [hs, externalStart]
  | waitExt =>
    simp only [sequence, hs]
    split
    · next h =>
      have hl := externalLocked_locks h
      exact enterReady_turn (by simp [hs]) ⟨hl.1, fun _ => hl.2, fun _ => h⟩
    · constructor <;> simp [hs]
  | startHelper =>
    simp only [sequence, hs]
    have hm := hI.helperMode (Or.inl hs)
    constructor <;> simp [hs, hm, helperStart, ldInit]
  | waitHelper =>
    have hm := hI.helperMode (Or.inr hs)
    have hc := hI.waitHelper hs
    simp only [sequence, hs]
    split
    · next h =>
      split
      · next hslave => constructor <;> simp [hs, hslave]
      · next hslave =>
        exact enterReady_turn (by simp [hs])
          ⟨h.1, fun he => absurd he hslave, fun he => absurd he hm⟩
    · next h =>
      have hl : s.helper.ld.locked = false := by grind
      constructor <;> simp [hs, hl, hm]
  | startMain =>
    have hm := hI.mainMode (Or.inl hs)
    have hl := (started_spec (b := b) s.hw.tics s.mpll).1
    simp only [sequence, hs]
    constructor <;> simp [hs, hm, hl, mpllStart]
  | waitMain =>
    have hm := hI.mainMode (Or.inr hs)
    have hh := hI.waitMain hs
    simp only [sequence, hs]
    split
    · next h =>
      exact enterReady_turn (by simp [hs])
        ⟨hh h, fun _ => h, fun he => absurd (he.symm.trans hm) (by decide)⟩
    · next h => constructor <;> simp_all
  | disabled =>
    simp only [sequence, hs]
    constructor <;> simp [hs]
  | ready =>
    simp only [sequence, hs]
    split
    · constructor <;> simp [hs]
    · constructor <;> simp [hs]
  | clearDacs =>
    simp only [sequence, hs]
    constructor <;> simp [hs, clearDacs]
  | waitClearDacs =>
    simp only [sequence, hs]
    split
    · constructor <;> simp [hs] <;> grind
    · constructor <;> simp [hs]

theorem sequencingFsm_turn (hI : SeqInv s) (source : Nat) :
    SeqTurn s (sequencingFsm b s source) := by
  have hI' : SeqInv (countTag b s source) := by
    rw [countTag_eq]
    exact ⟨hI.waitHelper, hI.waitMain, hI.helperMode, hI.mainMode, hI.interrupts⟩
  have h := sequence_turn (b := b) hI'
  rw [countTag_eq] at h
  rw [sequencingFsm_eq]
  exact ⟨h.waitHelper, h.waitMain, h.ready, h.helperMode, h.mainMode, h.leaves, h.delockCount⟩

/-! ## Events -/

theorem handleTag_seqState (s : State) (tag : Int) (source : Nat) :
    (handleTag b s tag source).seqState = (sequencingFsm b s source).seqState :=
  (updateLoops_frame _ tag source).seqState

theorem handleTag_seqInv (hI : SeqInv s) (hon : s.regs.eicEnabled = true ∧ s.regs.irqOn = true)
    (tag : Int) (source : Nat) : SeqInv (handleTag b s tag source) := by
  have ht := sequencingFsm_turn (b := b) hI source
  have hq := sequencingFsm_frame (b := b) s source
  have hf := updateLoops_frame (b := b) (sequencingFsm b s source) tag source
  refine ⟨?_, ?_, ?_, ?_, ?_⟩
  · intro hs hl
    rw [handleTag_seqState] at hs
    rw [handleTag, updateLoops_helper] at hl ⊢
    exact helperUpdate_lockChanged _ _ _ _ (ht.waitHelper hs) hl
  · intro hs hl
    rw [handleTag_seqState] at hs
    cases hh : (handleTag b s tag source).helper.ld.locked with
    | true => rfl
    | false =>
      rw [handleTag, (updateLoops_of_unlocked hh).1, ht.waitMain hs] at hl
      cases hl
  · intro hs
    rw [handleTag_seqState] at hs
    rw [handleTag, hf.mode, hq.mode]
    exact ht.helperMode hs
  · intro hs
    rw [handleTag_seqState] at hs
    rw [handleTag, hf.mode, hq.mode]
    exact ht.mainMode hs
  · intro _
    rw [handleTag, hf.eicEnabled, hf.irqOn, hq.eicEnabled, hq.irqOn]
    exact hon

theorem State.PollFrame.seqInv {s' : State} (h : s.PollFrame s') (hI : SeqInv s) : SeqInv s' := by
  refine ⟨?_, ?_, ?_, ?_, ?_⟩
  · rw [h.seqState, h.helper]
    exact hI.waitHelper
  · rw [h.seqState, h.helper]
    intro hs hl
    exact hI.waitMain hs (h.locked hl)
  · rw [h.seqState, h.mode]
    exact hI.helperMode
  · rw [h.seqState, h.mode]
    exact hI.mainMode
  · rw [h.seqState, h.eicEnabled]
    intro hs
    exact ⟨(hI.interrupts hs).1, h.irqOn (hI.interrupts hs).2⟩

theorem spllInit_seqState (s : State) (mode : Mode) (ref : Nat) :
    (spllInit b s mode ref).seqState = .disabled ∨
      (spllInit b s mode ref).seqState = .clearDacs := by
  rw [(spllInit_spec s mode ref).2.1, initLoops]
  split
  · exact .inl rfl
  · exact .inr rfl

theorem spllInit_seqInv (s : State) (mode : Mode) (ref : Nat) : SeqInv (spllInit b s mode ref) := by
  constructor <;> rcases spllInit_seqState (b := b) s mode ref with h | h <;> simp [h]

theorem step_seqInv (hI : SeqInv s) (e : Event) : SeqInv (s.step b e) :=
  State.step_rule s e (fun _ _ h => handleTag_seqInv hI h _ _) ((spllUpdate_pollFrame s).seqInv hI)
    (fun channel ps => (spllSetPhaseShift_shifted s channel ps).pollFrame.seqInv hI)
    (fun mode ref _ => spllInit_seqInv s mode ref)
    fun _ _ _ _ => ⟨hI.waitHelper, hI.waitMain, hI.helperMode, hI.mainMode, hI.interrupts⟩

theorem step_seqState {e : Event} (htag : ∀ trr, e ≠ .tag trr)
    (hinit : ∀ mode ref, e ≠ .init mode ref) :
    (s.step b e).seqState = s.seqState ∧ (s.step b e).delockCount = s.delockCount := by
  have hframe : ∀ s', s.PollFrame s' →
      s'.seqState = s.seqState ∧ s'.delockCount = s.delockCount := fun s' h =>
    ⟨h.seqState, h.delockCount⟩
  exact State.step_rule s (P := fun s' => s'.seqState = s.seqState ∧ s'.delockCount = s.delockCount)
    e (fun trr h _ => absurd h (htag trr)) (hframe _ (spllUpdate_pollFrame s))
    (fun channel ps => hframe _ (spllSetPhaseShift_shifted s channel ps).pollFrame)
    (fun mode ref h => absurd h (hinit mode ref)) fun _ _ _ _ => ⟨rfl, rfl⟩

/-! ## Ready, and back -/

/-- The SoftPLL, and how often `SEQ_READY` was left since the last `spll_init`. -/
structure Watched where
  st : State
  exits : Nat

def Watched.step (b : Board) (w : Watched) (e : Event) : Watched :=
  { st := w.st.step b e
    exits :=
      match e with
      | .init _ _ => 0
      | _ =>
        if w.st.seqState = .ready ∧ (w.st.step b e).seqState ≠ .ready then w.exits + 1
        else w.exits }

/-- At every boundary: a helper lock is not lost on the sequencer, and the delock
counter counts. -/
structure SeqSound (w : Watched) : Prop where
  lockSeen : w.st.seqState = .waitHelper → w.st.helper.ld.locked = true →
    w.st.helper.ld.lockChanged = true
  delocks : w.st.delockCount = i32 w.exits

/-- On every step: a locked helper is noticed by the next tag, and `SEQ_READY` is
entered only with the locks its mode asks for. -/
structure SeqStepSound (b : Board) (w : Watched) (e : Event) : Prop where
  leaves : ∀ trr, e = .tag trr → w.st.seqState = .waitHelper → w.st.helper.ld.locked = true →
    (w.step b e).st.seqState ≠ .waitHelper
  ready : w.st.seqState ≠ .ready → (w.step b e).st.seqState = .ready → ReadyOk w.st

theorem step_tag_turn (hI : SeqInv s) (trr : BitVec 32) :
    SeqTurn s (sequencingFsm b s (tagSourceOf trr)) ∧
      ((s.step b (.tag trr)).seqState = (sequencingFsm b s (tagSourceOf trr)).seqState ∧
          (s.step b (.tag trr)).delockCount = (sequencingFsm b s (tagSourceOf trr)).delockCount ∨
        ¬(s.regs.eicEnabled = true ∧ s.regs.irqOn = true) ∧ s.step b (.tag trr) = s) := by
  refine ⟨sequencingFsm_turn hI _, ?_⟩
  have hf := updateLoops_frame (b := b) (sequencingFsm b s (tagSourceOf trr)) (tagValueOf trr)
    (tagSourceOf trr)
  simp only [State.step]
  split
  · exact Or.inl ⟨hf.seqState, hf.delockCount⟩
  · next h => exact Or.inr ⟨h, rfl⟩

theorem watched_delocks {w : Watched} (hI : SeqInv w.st) (hd : w.st.delockCount = i32 w.exits)
    (e : Event) : (w.step b e).st.delockCount = i32 (w.step b e).exits := by
  by_cases hinit : ∃ mode ref, e = .init mode ref
  · obtain ⟨mode, ref, rfl⟩ := hinit
    exact (spllInit_spec w.st mode ref).2.2.trans i32_zero.symm
  · have hexits : (w.step b e).exits
        = if w.st.seqState = .ready ∧ (w.st.step b e).seqState ≠ .ready then w.exits + 1
          else w.exits := by
      cases e with
      | init mode ref => exact absurd ⟨mode, ref, rfl⟩ hinit
      | _ => rfl
    have hcount : (w.st.step b e).delockCount
        = if w.st.seqState = .ready ∧ (w.st.step b e).seqState ≠ .ready
          then i32 (w.st.delockCount + 1) else w.st.delockCount := by
      by_cases htag : ∃ trr, e = .tag trr
      · obtain ⟨trr, rfl⟩ := htag
        obtain ⟨ht, ⟨hs, hc⟩ | ⟨-, hsame⟩⟩ := step_tag_turn hI trr
        · rw [hs, hc]
          exact ht.delockCount
        · rw [hsame, if_neg (fun h => h.2 h.1)]
      · obtain ⟨hs, hc⟩ := step_seqState
          (fun trr h => htag ⟨trr, h⟩) (fun mode ref h => hinit ⟨mode, ref, h⟩)
        rw [hs, hc, if_neg (fun h => h.2 h.1)]
    show (w.st.step b e).delockCount = _
    rw [hexits, hcount, hd]
    split
    · exact i32_succ w.exits
    · rfl

theorem watched_step_sound {w : Watched} (hI : SeqInv w.st) (e : Event) : SeqStepSound b w e := by
  refine ⟨?_, ?_⟩
  · rintro trr rfl hs hl
    obtain ⟨ht, ⟨hs', -⟩ | ⟨hoff, -⟩⟩ := step_tag_turn hI trr
    · show (w.st.step b (.tag trr)).seqState ≠ _
      rw [hs']
      exact ht.leaves hs hl
    · exact absurd (hI.interrupts hs) hoff
  · intro hs hs'
    by_cases htag : ∃ trr, e = .tag trr
    · obtain ⟨trr, rfl⟩ := htag
      obtain ⟨ht, ⟨hst, -⟩ | ⟨-, hsame⟩⟩ := step_tag_turn hI trr
      · exact ht.ready hs (hst.symm.trans hs')
      · exact absurd ((congrArg State.seqState hsame).symm.trans hs') hs
    · by_cases hinit : ∃ mode ref, e = .init mode ref
      · obtain ⟨mode, ref, rfl⟩ := hinit
        rcases spllInit_seqState w.st mode ref with h | h
        · exact absurd (h.symm.trans hs') (by decide)
        · exact absurd (h.symm.trans hs') (by decide)
      · obtain ⟨h, -⟩ := step_seqState
          (fun trr h => htag ⟨trr, h⟩) (fun mode ref h => hinit ⟨mode, ref, h⟩)
        exact absurd (h.symm.trans hs') hs

/-- **The sequencer does not deadlock and is not ready early.**  From any state,
after `spll_init` in any mode, along every run of tags, polls, requests,
hardware changes and further `spll_init`s. -/
theorem seqRun_sound (b : Board) (s : State) (mode : Mode) (ref : Nat) (es : List Event) :
    Run.Always (Watched.step b) SeqSound ⟨spllInit b s mode ref, 0⟩ es ∧
      Run.Steps (Watched.step b) (SeqStepSound b) ⟨spllInit b s mode ref, 0⟩ es := by
  have hstep : ∀ (w : Watched) (e : Event), (SeqInv w.st ∧ w.st.delockCount = i32 w.exits) → True →
      SeqInv (w.step b e).st ∧ (w.step b e).st.delockCount = i32 (w.step b e).exits :=
    fun w e h _ => ⟨step_seqInv h.1 e, watched_delocks h.1 h.2 e⟩
  have hinit : SeqInv (spllInit b s mode ref) ∧
      (spllInit b s mode ref).delockCount = i32 (0 : Nat) :=
    ⟨spllInit_seqInv s mode ref, (spllInit_spec s mode ref).2.2.trans i32_zero.symm⟩
  exact ⟨Run.always_of_inv hstep (fun w h => ⟨h.1.waitHelper, h.2⟩) hinit (Run.steps_true _ es),
    Run.steps_of_inv hstep (fun w e h _ => watched_step_sound h.1 e) hinit (Run.steps_true _ es)⟩

/-! ## Settling of the DACs -/

/-- While the sequencer waits, the DACs have the values `SEQ_CLEAR_DACS` wrote. -/
def DacsSettled (s : State) : Prop :=
  s.seqState = .waitClearDacs →
    s.regs.dacHpll = BitVec.ofInt 32 s.helper.pi.yMax ∧
      s.regs.dacMain = BitVec.ofInt 32 ((s.mpll.pi.yMax + s.mpll.pi.yMin).tdiv 2)

instance : DecidablePred DacsSettled := fun _ => inferInstanceAs (Decidable (_ → _))

/-- A tag of `source` can complete a pair of the PLL. -/
def Main.MayPair (b : Board) (m : Main) (source : Nat) : Prop :=
  (source = m.idRef ∨ 0 ≤ m.tagRef) ∧
    (source = m.idOut ∨ 0 ≤ m.tagOut ∨ (b.frac = true ∧ source = m.idRef ∧ 0 ≤ m.tagOutInterp))

/-- A tag of `source` can reach the DAC through the PLL. -/
def Main.Drives (b : Board) (m : Main) (source : Nat) : Prop :=
  m.enabled = true ∧ m.vcoFreeze = false ∧ m.MayPair b source

/-- The next turn of the sequencer is in `SEQ_WAIT_CLEAR_DACS` when it ends. -/
def Settling (s : State) : Prop :=
  s.seqState = .clearDacs ∨
    (s.seqState = .waitClearDacs ∧ timeAfter s.hw.tics s.dacTimeout = false)

/-- A tag handled while the DACs settle reaches neither DAC: it is not of the
helper's reference channel, unless the helper waits for its first tag, and
cannot complete a pair of an enabled and unfrozen main PLL while the helper is
locked. -/
def SettlesQuietly (b : Board) (s : State) : Event → Prop
  | .tag trr =>
    Settling s →
      ¬s.helper.Drives (tagSourceOf trr) ∧
        ¬(s.helper.ld.locked = true ∧ s.mpll.Drives b (tagSourceOf trr))
  | _ => True

instance (b : Board) (s : State) : DecidablePred (SettlesQuietly b s) := fun e =>
  match e with
  | .tag _ => inferInstanceAs (Decidable (_ ∨ _ → ¬_ ∧ ¬(_ ∧ _ ∧ _ ∧ (_ ∨ _) ∧ (_ ∨ _ ∨ _))))
  | .irqEnd | .update | .setPhaseShift _ _ | .init _ _ | .setPsFreeze _ | .setVcoFreeze _ | .hw _ =>
    isTrue trivial

theorem takeTag_mayPair {m : Main} {tag : Int} (h : (takeTag b m tag source).HasPair) :
    m.MayPair b source := by
  unfold takeTag unwrapOut unwrapRef captureOut captureRef resample Main.HasPair at h
  unfold Main.MayPair
  grind

theorem mpllUpdate_regs_of_not_drives (reverseSpll : Int) (tics : BitVec 32) {m : Main} (r : Regs)
    (tag : Int) (h : ¬m.Drives b source) :
    (mpllUpdate b reverseSpll tics m r tag source).regs = r := by
  unfold mpllUpdate
  dsimp only
  split
  · rfl
  · next he =>
    split
    · next hp =>
      have hf : m.vcoFreeze = true := by
        cases hv : m.vcoFreeze with
        | true => rfl
        | false => exact absurd ⟨by simpa using he, hv, takeTag_mayPair hp⟩ h
      have hd : (detected b tics (takeTag b m tag source)).vcoFreeze = true :=
        ((takeTag_sameLoop b m tag source).toFixed.trans
          (detected_fixed b _ tics)).vcoFreeze.trans hf
      simp [processPair, hd]
    · rfl

theorem sequence_waitClearDacs (h : (sequence b s).seqState = .waitClearDacs) :
    s.seqState = .clearDacs ∨ s.seqState = .waitClearDacs := by
  have hready : (enterReady b s).seqState = .ready := rfl
  unfold sequence at h
  grind

/-- A turn that ends in `SEQ_WAIT_CLEAR_DACS` touches neither loop, and leaves the
DACs as that state wants them. -/
theorem sequence_settling (hD : DacsSettled s) (h : (sequence b s).seqState = .waitClearDacs) :
    Settling s ∧ (sequence b s).helper = s.helper ∧ (sequence b s).mpll = s.mpll ∧
      DacsSettled (sequence b s) := by
  rcases sequence_waitClearDacs h with hs | hs
  · have hr := enableTagger_same b { s.regs with
      dacHpll := BitVec.ofInt 32 s.helper.pi.yMax
      dacMain := BitVec.ofInt 32 ((s.mpll.pi.yMax + s.mpll.pi.yMin).tdiv 2) } b.nChanRef true
    simp only [sequence, hs]
    exact ⟨Or.inl hs, rfl, rfl, fun _ => ⟨hr.dacHpll, hr.dacMain⟩⟩
  · simp only [sequence, hs] at h ⊢
    split at h
    · exact absurd h (by dsimp only; split <;> decide)
    · next ht =>
      rw [if_neg ht]
      exact ⟨Or.inr ⟨hs, by simpa using ht⟩, rfl, rfl, hD⟩

theorem sequencingFsm_settling (hD : DacsSettled s)
    (h : (sequencingFsm b s source).seqState = .waitClearDacs) :
    Settling s ∧ (sequencingFsm b s source).helper = s.helper ∧
      (sequencingFsm b s source).mpll = s.mpll ∧ DacsSettled (sequencingFsm b s source) := by
  rw [sequencingFsm_eq] at h ⊢
  exact sequence_settling (s := { s with
    tagCount := (countTag b s source).tagCount, refCount := (countTag b s source).refCount }) hD h

theorem updateLoops_dacs (tag : Int) (hs : s.seqState = .waitClearDacs)
    (hh : ¬s.helper.Drives source) (hm : ¬(s.helper.ld.locked = true ∧ s.mpll.Drives b source)) :
    (updateLoops b s tag source).regs = s.regs := by
  obtain ⟨hr, hl⟩ := helperUpdate_of_not_drives s.hw.tics s.regs tag hh
  have hregs : (updateHelper s tag source).regs = s.regs := hr
  have hld : (updateHelper s tag source).helper.ld = s.helper.ld := hl
  have hseq : (updateMain b (updateHelper s tag source) tag source).seqState ≠ .ready := by
    show s.seqState ≠ .ready
    rw [hs]
    decide
  unfold updateLoops
  simp only [if_neg hseq]
  split
  · next hlocked =>
    rw [hld] at hlocked
    have hnot : ¬(updateHelper s tag source).mpll.Drives b source := fun h => hm ⟨hlocked, h⟩
    exact (mpllUpdate_regs_of_not_drives _ _ _ tag hnot).trans hregs
  · exact hregs

theorem handleTag_settled (hD : DacsSettled s) {tag : Int}
    (hq : Settling s → ¬s.helper.Drives source ∧
      ¬(s.helper.ld.locked = true ∧ s.mpll.Drives b source)) :
    DacsSettled (handleTag b s tag source) := by
  intro hs
  rw [handleTag_seqState] at hs
  obtain ⟨hset, hhelper, hmpll, hD'⟩ := sequencingFsm_settling hD hs
  obtain ⟨hh, hm⟩ := hq hset
  rw [← hhelper] at hh hm
  rw [← hmpll] at hm
  have hf := updateLoops_frame (b := b) (sequencingFsm b s source) tag source
  have hregs := updateLoops_dacs tag hs hh hm
  unfold handleTag
  rw [hregs, hf.mpll.yMin, hf.mpll.yMax, updateLoops_helper, helperUpdate_yMax]
  exact hD' hs

theorem State.PollFrame.dacsSettled {s' : State} (h : s.PollFrame s') (hD : DacsSettled s) :
    DacsSettled s' := by
  unfold DacsSettled
  rw [h.seqState, h.dacHpll, h.dacMain, h.helper, h.yMin, h.yMax]
  exact hD

theorem spllInit_settled (s : State) (mode : Mode) (ref : Nat) :
    DacsSettled (spllInit b s mode ref) := by
  intro hs
  rcases spllInit_seqState s mode ref with h | h
  · exact absurd (h.symm.trans hs) (by decide)
  · exact absurd (h.symm.trans hs) (by decide)

theorem step_settled {e : Event} (hD : DacsSettled s) (hq : SettlesQuietly b s e) :
    DacsSettled (s.step b e) := by
  refine State.step_rule s e ?_ ((spllUpdate_pollFrame s).dacsSettled hD)
    (fun channel ps => (spllSetPhaseShift_shifted s channel ps).pollFrame.dacsSettled hD)
    (fun mode ref _ => spllInit_settled s mode ref) fun _ _ _ _ => hD
  rintro trr rfl -
  exact handleTag_settled hD hq

/-- **The DACs settle undisturbed** in every run, from any state on after
`spll_init` in any mode and over any number of relocks, in which the tags
handled while they settle reach neither DAC. -/
theorem dacRun_settled (b : Board) (s : State) (mode : Mode) (ref : Nat) (es : List Event)
    (hq : Run.Steps (State.step b) (SettlesQuietly b) (spllInit b s mode ref) es) :
    Run.Always (State.step b) DacsSettled (spllInit b s mode ref) es :=
  Run.always_of_inv (fun _ _ hD h => step_settled hD h) (fun _ h => h)
    (spllInit_settled s mode ref) hq

/-- A slave is started: the tags of the main channel reach neither DAC. -/
theorem dacRun_settled_slave :
    Run.Always (State.step .generic) DacsSettled
      (spllInit .generic (State.boot .generic 1) .slave 0)
        [.tag 0x01000400#32, .tag 0x01000800#32] :=
  dacRun_settled .generic _ .slave 0 _ (by decide)

/-- A free running master locks its helper to the main channel, whose first tag
takes the helper DAC from `y_max` to `y_min`. -/
theorem dacRun_master_overwritten :
    ¬∀ es : List Event, Run.Always (State.step .generic) DacsSettled
      (spllInit .generic (State.boot .generic 1) .freeRunningMaster 0) es := by
  intro h
  have hrun := h [.tag 0x01000400#32]
  revert hrun
  decide

end Wrpc.SoftPll
