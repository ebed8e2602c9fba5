/-
# The machine of a slave aux channel

`spll_update_aux_clock` drives one auxiliary output at a time from the main
loop.  For a channel configured as slave the machine is

    disabled ──▶ lockPll ──▶ alignPhase ──▶ slaveReady
        ◀── OUT_EN cleared, or in slaveReady a lock lost

and the channel's `OUT_LOCK` flag is set exactly in `slaveReady`.  `SlaveTurn`
says everything one poll can do to such a channel; `spllUpdate_turn` says it of
`spll_update`, which polls the channels one after the other without their
disturbing each other.
-/
import Wrpc.SoftPll.Frames

namespace Wrpc.SoftPll

open CInt List

variable {s' : State} {ch' : Nat}

variable {b : Board}

def AuxSeq.IsSlave (q : AuxSeq) : Prop :=
  q = .disabled ∨ q = .lockPll ∨ q = .alignPhase ∨ q = .slaveReady

structure SlaveOk (s : State) (ch : Nat) : Prop where
  mode : (s.aux (ch - 1)).mode = .slave
  states : (s.aux (ch - 1)).seqState.IsSlave

def FlagOk (s : State) (ch : Nat) : Prop :=
  s.regs.outLock.getLsbD ch = decide ((s.aux (ch - 1)).seqState = .slaveReady)

/-- The poll that leaves the channel in `slaveReady`: it was there, and both the
main PLL and its own are locked, or it has finished aligning. -/
def Confirms (s : State) (ch : Nat) : Prop :=
  auxLockingEnabled s.hw ch = true ∧
    (((s.aux (ch - 1)).seqState = .slaveReady ∧ s.mpll.locked = true ∧
        (s.aux (ch - 1)).dmtd.phaseLd.locked = true) ∨
      ((s.aux (ch - 1)).seqState = .alignPhase ∧ mpllShifterBusy (s.aux (ch - 1)).dmtd = false))

structure SlaveTurn (b : Board) (s s' : State) (ch : Nat) : Prop extends SlaveOk s' ch where
  flag : FlagOk s ch → FlagOk s' ch
  ready : (s'.aux (ch - 1)).seqState = .slaveReady ↔ Confirms s ch
  keeps : (s'.aux (ch - 1)).seqState = .slaveReady → (s'.aux (ch - 1)).dmtd = (s.aux (ch - 1)).dmtd
  aligns : (s'.aux (ch - 1)).seqState = .alignPhase →
    ((s.aux (ch - 1)).seqState = .alignPhase ∧ (s'.aux (ch - 1)).dmtd = (s.aux (ch - 1)).dmtd) ∨
      ((s.aux (ch - 1)).seqState = .lockPll ∧ auxLockingEnabled s.hw ch = true ∧
        (s.aux (ch - 1)).dmtd.phaseLd.locked = true ∧
        (s'.aux (ch - 1)).dmtd = mpllSetPhaseShift b (s.aux (ch - 1)).dmtd s.mpllShiftPs)
  locks : (s'.aux (ch - 1)).seqState = .lockPll →
    ((s.aux (ch - 1)).seqState = .lockPll ∧ (s'.aux (ch - 1)).dmtd = (s.aux (ch - 1)).dmtd) ∨
      (s'.aux (ch - 1)).dmtd.phaseLd.locked = false

/-! ## The transitions -/

section

variable {s : State} {ch : Nat}

theorem stay_turn (hok : SlaveOk s ch) (hc : (s.aux (ch - 1)).seqState = .slaveReady ↔
    Confirms s ch) :
    SlaveTurn b s s ch :=
  ⟨hok, id, hc, fun _ => rfl, fun h => Or.inl ⟨h, rfl⟩, fun h => Or.inl ⟨h, rfl⟩⟩

theorem turn_of_aux {a : Aux} (haux : s'.aux (ch - 1) = a) (hmode : a.mode = .slave)
    (hstates : a.seqState = .disabled ∨ a.seqState = .lockPll ∨ a.seqState = .alignPhase)
    (hflag : FlagOk s ch → s'.regs.outLock.getLsbD ch = false) (hc : ¬Confirms s ch)
    (haligns : a.seqState = .alignPhase → (s.aux (ch - 1)).seqState = .lockPll ∧
      auxLockingEnabled s.hw ch = true ∧ (s.aux (ch - 1)).dmtd.phaseLd.locked = true ∧
        a.dmtd = mpllSetPhaseShift b (s.aux (ch - 1)).dmtd s.mpllShiftPs)
    (hlocks : a.seqState = .lockPll → a.dmtd.phaseLd.locked = false) : SlaveTurn b s s' ch := by
  subst haux
  have hne : (s'.aux (ch - 1)).seqState ≠ .slaveReady := by
    rcases hstates with h | h | h <;> rw [h] <;> nofun
  refine ⟨⟨hmode, ?_⟩, ?_, ?_, ?_, fun h => Or.inr (haligns h), fun h => Or.inr (hlocks h)⟩
  · rcases hstates with h | h | h
    · exact Or.inl h
    · exact Or.inr (Or.inl h)
    · exact Or.inr (Or.inr (Or.inl h))
  · intro h
    rw [FlagOk, hflag h, decide_eq_false hne]
  · exact ⟨fun h => absurd h hne, fun h => absurd h hc⟩
  · exact fun h => absurd h hne

theorem disableAux_turn (hlt : ch < 8) (hmode : (s'.aux (ch - 1)).mode = .slave)
    (hc : ¬Confirms s ch) : SlaveTurn b s (disableAux s' ch) ch := by
  have haux : (disableAux s' ch).aux (ch - 1) = { s'.aux (ch - 1) with seqState := .disabled } := by
    show (s'.setAux (ch - 1) _).aux (ch - 1) = _
    rw [State.setAux_aux, if_pos rfl]
  have hflag : (disableAux s' ch).regs.outLock.getLsbD ch = false := by
    show (setChannelStatus s'.regs ch false).outLock.getLsbD ch = false
    rw [setChannelStatus_getLsbD _ _ _ hlt, if_pos rfl]
  exact turn_of_aux haux hmode (Or.inl rfl) (fun _ => hflag) hc nofun nofun

theorem spllStartChannel_spec (h : spllStartChannel b s ch = some s') :
    s'.regs.outLock = s.regs.outLock ∧ s'.aux (ch - 1)
        = { s.aux (ch - 1) with dmtd := ((s.aux (ch - 1)).withRatio b).started b s.hw.tics } := by
  unfold spllStartChannel at h
  split at h
  · cases h
  · cases h
    refine ⟨(mpllStart_same s.hw.tics _ s.regs).outLock, ?_⟩
    rw [State.setAux_aux, if_pos rfl]
    rfl

theorem enableAux_turn (hok : SlaveOk s ch) (hs : (s.aux (ch - 1)).seqState = .disabled)
    (hc : ¬Confirms s ch) : SlaveTurn b s (enableAux b s ch) ch := by
  have hflag : FlagOk s ch → s.regs.outLock.getLsbD ch = false := by
    intro h
    rw [h, hs]
    rfl
  unfold enableAux
  simp only [hok.mode]
  split
  · next s' hstart =>
    obtain ⟨hregs, haux⟩ := spllStartChannel_spec hstart
    refine turn_of_aux (a := { s'.aux (ch - 1) with seqState := .lockPll }) ?_ ?_
      (Or.inr (Or.inl rfl)) ?_ hc nofun ?_
    · rw [State.setAux_aux, if_pos rfl]
    · rw [haux]
      exact hok.mode
    · intro h
      exact (congrArg (BitVec.getLsbD · ch) hregs).trans (hflag h)
    · intro _
      rw [haux]
      exact (started_spec s.hw.tics _).2.2.2.2.2.1
  · refine stay_turn hok ⟨fun h => ?_, fun h => absurd h hc⟩
    rw [hs] at h
    cases h

theorem lockPll_turn (hne : ch ≠ 0) (hok : SlaveOk s ch)
    (hs : (s.aux (ch - 1)).seqState = .lockPll) (hen : auxLockingEnabled s.hw ch = true)
    (hl : (s.aux (ch - 1)).dmtd.phaseLd.locked = true) (hc : ¬Confirms s ch) :
    SlaveTurn b s ((setPhaseShift b s ch s.mpllShiftPs).setAux (ch - 1)
      { (setPhaseShift b s ch s.mpllShiftPs).aux (ch - 1) with seqState := .alignPhase }) ch := by
  have hshift : (setPhaseShift b s ch s.mpllShiftPs).aux (ch - 1)
      = { s.aux (ch - 1) with
          dmtd := mpllSetPhaseShift b (s.aux (ch - 1)).dmtd s.mpllShiftPs } := by
    unfold setPhaseShift
    rw [if_neg hne, State.setAux_aux, if_pos rfl]
  have hflag : FlagOk s ch →
      (setPhaseShift b s ch s.mpllShiftPs).regs.outLock.getLsbD ch = false := by
    intro h
    obtain ⟨_, _, _, hregs⟩ := setPhaseShift_shifted s ch s.mpllShiftPs
    rw [hregs, h, hs]
    rfl
  refine turn_of_aux (a := { s.aux (ch - 1) with
    dmtd := mpllSetPhaseShift b (s.aux (ch - 1)).dmtd s.mpllShiftPs, seqState := .alignPhase }) ?_
    hok.mode (Or.inr (Or.inr rfl)) hflag hc (fun _ => ⟨hs, hen, hl, rfl⟩) nofun
  rw [State.setAux_aux, if_pos rfl, hshift]

theorem alignPhase_turn (hlt : ch < 8) (hok : SlaveOk s ch) (hc : Confirms s ch) :
    SlaveTurn b s { s.setAux (ch - 1) { s.aux (ch - 1) with seqState := .slaveReady } with
      regs := setChannelStatus s.regs ch true } ch := by
  have haux : (s.setAux (ch - 1) { s.aux (ch - 1) with seqState := .slaveReady }).aux (ch - 1)
      = { s.aux (ch - 1) with seqState := .slaveReady } := by
    rw [State.setAux_aux, if_pos rfl]
  have hflag : (setChannelStatus s.regs ch true).outLock.getLsbD ch = true := by
    rw [setChannelStatus_getLsbD _ _ _ hlt, if_pos rfl]
  have hmode := congrArg Aux.mode haux
  have hseq := congrArg Aux.seqState haux
  have hdmtd := congrArg Aux.dmtd haux
  refine ⟨⟨hmode.trans hok.mode, Or.inr (Or.inr (Or.inr hseq))⟩, ?_, ⟨fun _ => hc, fun _ => hseq⟩,
    fun _ => hdmtd, ?_, ?_⟩
  · exact fun _ => hflag.trans (decide_eq_true hseq).symm
  · exact fun h => absurd (hseq.symm.trans h) nofun
  · exact fun h => absurd (hseq.symm.trans h) nofun

theorem spllStopChannel_mode :
    ((spllStopChannel b s ch).aux (ch - 1)).mode = (s.aux (ch - 1)).mode := by
  unfold spllStopChannel
  split
  · rfl
  · rw [State.setAux_aux, if_pos rfl]

/-- **One poll of a slave channel.** -/
theorem spllUpdateAuxClock_turn (hne : ch ≠ 0) (hlt : ch < 8) (hok : SlaveOk s ch) :
    SlaveTurn b s (spllUpdateAuxClock b s ch).1 ch := by
  unfold spllUpdateAuxClock
  dsimp only
  split
  · next hdis =>
    refine disableAux_turn hlt (spllStopChannel_mode.trans hok.mode) ?_
    exact fun h => hdis.2 h.1
  · next hdis =>
    have hen : (s.aux (ch - 1)).seqState ≠ .disabled → auxLockingEnabled s.hw ch = true := by
      intro hs
      by_contra he
      exact hdis ⟨hs, he⟩
    rcases hok.states with hs | hs | hs | hs
    · have hc : ¬Confirms s ch := by
        rintro ⟨-, ⟨h, -⟩ | ⟨h, -⟩⟩ <;> rw [hs] at h <;> cases h
      simp only [hs]
      split
      · exact enableAux_turn hok hs hc
      · refine stay_turn hok ⟨fun h => ?_, fun h => absurd h hc⟩
        rw [hs] at h
        cases h
    · have hc : ¬Confirms s ch := by
        rintro ⟨-, ⟨h, -⟩ | ⟨h, -⟩⟩ <;> rw [hs] at h <;> cases h
      simp only [hs]
      split
      · next hl => exact lockPll_turn hne hok hs (hen (by rw [hs]; nofun)) hl hc
      · refine stay_turn hok ⟨fun h => ?_, fun h => absurd h hc⟩
        rw [hs] at h
        cases h
    · simp only [hs]
      split
      · next hbusy =>
        refine alignPhase_turn hlt hok ⟨hen (by rw [hs]; nofun), Or.inr ⟨hs, ?_⟩⟩
        simpa using hbusy
      · next hbusy =>
        refine stay_turn hok ⟨fun h => ?_, ?_⟩
        · rw [hs] at h
          cases h
        · rintro ⟨-, ⟨h, -⟩ | ⟨-, h⟩⟩
          · rw [hs] at h
            cases h
          · exact absurd (by rw [h]; decide) hbusy
    · simp only [hs]
      split
      · next hlost =>
        refine disableAux_turn hlt hok.mode ?_
        rintro ⟨-, ⟨-, hm, hl⟩ | ⟨h, -⟩⟩
        · rw [hm, hl] at hlost
          simp at hlost
        · rw [hs] at h
          cases h
      · next hkept =>
        refine stay_turn hok ⟨fun _ => ⟨hen (by rw [hs]; nofun), Or.inl ⟨hs, ?_⟩⟩, fun _ => hs⟩
        simpa using hkept

/-! ## The poll of all channels -/

/-- What happens to a channel in a poll depends on nothing that the machines of
other channels write. -/
theorem SlaveOk.congr (hne : ch ≠ ch') (hpos : ch ≠ 0) (hpos' : ch' ≠ 0)
    (hf : s.AuxFrame ch' s') (h : SlaveOk s ch) : SlaveOk s' ch := by
  have haux := hf.aux (ch - 1) (by omega)
  exact ⟨haux ▸ h.mode, haux ▸ h.states⟩

theorem FlagOk.congr (hlt : ch < 8) (hne : ch ≠ ch') (hpos : ch ≠ 0)
    (hpos' : ch' ≠ 0) (hf : s.AuxFrame ch' s') : FlagOk s ch ↔ FlagOk s' ch := by
  unfold FlagOk
  rw [hf.aux (ch - 1) (by omega), hf.outLock ch hlt hne]

theorem SlaveTurn.congr {s₁ : State} (hlt : ch < 8) (hne : ch ≠ ch') (hpos : ch ≠ 0)
    (hpos' : ch' ≠ 0) (hf : s.AuxFrame ch' s₁) (h : SlaveTurn b s₁ s' ch) :
    SlaveTurn b s s' ch := by
  have haux := hf.aux (ch - 1) (by omega)
  have hconf : Confirms s₁ ch ↔ Confirms s ch := by
    unfold Confirms
    rw [hf.hw, hf.mpll, haux]
  refine ⟨h.toSlaveOk, fun hfl => h.flag ((FlagOk.congr hlt hne hpos hpos' hf).mp hfl),
    h.ready.trans hconf, ?_, ?_, ?_⟩
  · rw [← haux]
    exact h.keeps
  · rw [← haux, ← hf.hw, ← hf.mpllShiftPs]
    exact h.aligns
  · rw [← haux]
    exact h.locks

theorem SlaveTurn.after {s₁ : State} (hlt : ch < 8) (hne : ch ≠ ch') (hpos : ch ≠ 0)
    (hpos' : ch' ≠ 0) (h : SlaveTurn b s s₁ ch) (hf : s₁.AuxFrame ch' s') :
    SlaveTurn b s s' ch := by
  have haux := hf.aux (ch - 1) (by omega)
  refine ⟨h.toSlaveOk.congr hne hpos hpos' hf,
    fun hfl => (FlagOk.congr hlt hne hpos hpos' hf).mp (h.flag hfl), ?_, ?_, ?_, ?_⟩ <;> rw [haux]
  · exact h.ready
  · exact h.keeps
  · exact h.aligns
  · exact h.locks

theorem auxTurns_turn (hpos : ch ≠ 0) (hlt : ch < 8) :
    ∀ (chs : List Nat), chs.Nodup → (∀ c ∈ chs, c ≠ 0) → ch ∈ chs →
      ∀ u : State × Bool, SlaveOk u.1 ch → SlaveTurn b u.1 (chs.foldl (auxTurn b) u).1 ch := by
  intro chs
  induction chs with
  | nil => intro _ _ hmem; cases hmem
  | cons c chs ih =>
    intro hnodup hne hmem u hok
    have hc : c ≠ 0 := hne c mem_cons_self
    have hframe := spllUpdateAuxClock_auxFrame (b := b) u.1 hc
    have hrest : ∀ d ∈ chs, d ≠ 0 := fun d hd => hne d (mem_cons_of_mem _ hd)
    obtain ⟨hnotin, hnodup⟩ := nodup_cons.mp hnodup
    by_cases hch : ch = c
    · subst hch
      have hturn : SlaveTurn b u.1 (auxTurn b u ch).1 ch := spllUpdateAuxClock_turn hpos hlt hok
      refine foldlRecOn chs _
        (motive := fun v : State × Bool => SlaveTurn b u.1 v.1 ch) hturn ?_
      intro v hv d hd
      have hdne : ch ≠ d := fun h => hnotin (h ▸ hd)
      exact hv.after hlt hdne hpos (hrest d hd) (spllUpdateAuxClock_auxFrame v.1 (hrest d hd))
    · have hmem' : ch ∈ chs := by
        rcases mem_cons.mp hmem with h | h
        · exact absurd h hch
        · exact h
      have hok' : SlaveOk (auxTurn b u c).1 ch := hok.congr hch hpos hc hframe
      exact (ih hnodup hrest hmem' (auxTurn b u c) hok').congr hlt hch hpos hc hframe

theorem nChanOut_le (b : Board) : b.nChanOut ≤ 3 := by
  unfold Board.nChanOut
  split
  · exact Nat.le_refl 3
  · omega

/-- **`spll_update` gives every slave channel its turn**, after that of the
aligner. -/
theorem spllUpdate_turn (hpos : 1 ≤ ch) (hch : ch < b.nChanOut) (hok : SlaveOk s ch) :
    SlaveTurn b (alignPoll b s).1 (spllUpdate b s).1 ch := by
  have hout := nChanOut_le b
  have halign := alignPoll_alignFrame (b := b) s
  have hok' : SlaveOk (alignPoll b s).1 ch :=
    ⟨halign.aux ▸ hok.mode, halign.aux ▸ hok.states⟩
  refine auxTurns_turn (by omega) (by omega) _ nodup_range' ?_ ?_ (alignPoll b s) hok'
  · intro c hc
    have := mem_range'_1.mp hc
    omega
  · exact mem_range'_1.mpr (by omega)

theorem alignPoll_of_ne (hmode : s.mode ≠ .grandMaster) : alignPoll b s = (s, false) :=
  if_neg hmode

theorem spllUpdate_generic (h : s.mode = .slave) :
    (spllUpdate Board.generic s).1 = (spllUpdateAuxClock Board.generic s 1).1 := by
  unfold spllUpdate
  rw [alignPoll_of_ne (by rw [h]; nofun)]
  rfl

theorem spllUpdate_loops :
    (spllUpdate b s).1.helper = s.helper ∧ (spllUpdate b s).1.mpll = (alignPoll b s).1.mpll := by
  have halign := alignPoll_alignFrame (b := b) s
  refine foldlRecOn _ _ (motive := fun u : State × Bool => u.1.helper = s.helper ∧
    u.1.mpll = (alignPoll b s).1.mpll) ⟨halign.helper, rfl⟩ ?_
  rintro u ⟨hhelper, hmpll⟩ c hc
  have hne : c ≠ 0 := by
    have := mem_range'_1.mp hc
    omega
  have hf := spllUpdateAuxClock_auxFrame (b := b) u.1 hne
  exact ⟨hf.helper.trans hhelper, hf.mpll.trans hmpll⟩

theorem spllUpdate_slave_mpll (hmode : s.mode = .slave) : (spllUpdate b s).1.mpll = s.mpll := by
  rw [(spllUpdate_loops).2, alignPoll_of_ne (by rw [hmode]; nofun)]

theorem spllUpdate_slave_turn (hmode : s.mode = .slave) (hpos : 1 ≤ ch) (hch : ch < b.nChanOut)
    (hok : SlaveOk s ch) : SlaveTurn b s (spllUpdate b s).1 ch := by
  have hturn := spllUpdate_turn hpos hch hok
  rw [alignPoll_of_ne (by rw [hmode]; nofun)] at hturn
  exact hturn

theorem spllUpdate_mode (s : State) (i : Nat) :
    ((spllUpdate b s).1.aux i).mode = (s.aux i).mode := by
  have halign := alignPoll_alignFrame (b := b) s
  refine foldlRecOn _ _ (motive := fun u : State × Bool => (u.1.aux i).mode = (s.aux i).mode)
    (by rw [halign.aux]) ?_
  intro u h c hc
  have hne : c ≠ 0 := by
    have := mem_range'_1.mp hc
    omega
  exact ((spllUpdateAuxClock_auxFrame (b := b) u.1 hne).auxMode i).trans h

end

end Wrpc.SoftPll
