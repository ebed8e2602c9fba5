/-
# Who writes what

The interrupt handler and the bottom half share one state.  This module says
once which part of it each of them can write; the properties of the machines
are then proved from these facts, and from the transitions themselves, without
looking into the loops again.
-/
import Wrpc.SoftPll.State

namespace Wrpc.SoftPll

open CInt List

variable {b : Board}

/-! ## The loops -/

/-- What `update_loops` leaves alone. -/
structure State.LoopFrame (s s' : State) : Prop where
  mode : s'.mode = s.mode
  seqState : s'.seqState = s.seqState
  dacTimeout : s'.dacTimeout = s.dacTimeout
  delockCount : s'.delockCount = s.delockCount
  mpllShiftPs : s'.mpllShiftPs = s.mpllShiftPs
  reverseSpll : s'.reverseSpll = s.reverseSpll
  hw : s'.hw = s.hw
  outLock : s'.regs.outLock = s.regs.outLock
  eicEnabled : s'.regs.eicEnabled = s.regs.eicEnabled
  irqOn : s'.regs.irqOn = s.regs.irqOn
  mpll : s.mpll.Fixed s'.mpll
  auxMode : ∀ i, (s'.aux i).mode = (s.aux i).mode
  auxSeq : ∀ i, (s'.aux i).seqState = (s.aux i).seqState
  aux : ∀ i, (s.aux i).dmtd.Fixed (s'.aux i).dmtd

variable (ps : Int) (tics : BitVec 32) (s : State) (tag : Int) (ch source i : Nat) (a : Aux)

theorem State.LoopFrame.refl (s : State) : s.LoopFrame s :=
  ⟨rfl, rfl, rfl, rfl, rfl, rfl, rfl, rfl, rfl, rfl, .refl _, fun _ => rfl, fun _ => rfl,
    fun _ => .refl _⟩

theorem State.LoopFrame.trans {s s' s'' : State} (h : s.LoopFrame s') (h' : s'.LoopFrame s'') :
    s.LoopFrame s'' :=
  ⟨h'.mode.trans h.mode, h'.seqState.trans h.seqState, h'.dacTimeout.trans h.dacTimeout,
    h'.delockCount.trans h.delockCount, h'.mpllShiftPs.trans h.mpllShiftPs,
    h'.reverseSpll.trans h.reverseSpll, h'.hw.trans h.hw, h'.outLock.trans h.outLock,
    h'.eicEnabled.trans h.eicEnabled, h'.irqOn.trans h.irqOn, h.mpll.trans h'.mpll,
    fun i => (h'.auxMode i).trans (h.auxMode i), fun i => (h'.auxSeq i).trans (h.auxSeq i),
    fun i => (h.aux i).trans (h'.aux i)⟩

structure State.Looped (s s' : State) : Prop extends s.LoopFrame s' where
  ocer : s'.regs.ocer = s.regs.ocer
  rcer : s'.regs.rcer = s.regs.rcer
  trackerId : ∀ k, (s'.ptrackers k).id = (s.ptrackers k).id

theorem State.Looped.refl (s : State) : s.Looped s := ⟨.refl s, rfl, rfl, fun _ => rfl⟩

theorem State.Looped.trans {s s' s'' : State} (h : s.Looped s') (h' : s'.Looped s'') :
    s.Looped s'' :=
  ⟨h.toLoopFrame.trans h'.toLoopFrame, h'.ocer.trans h.ocer, h'.rcer.trans h.rcer,
    fun k => (h'.trackerId k).trans (h.trackerId k)⟩

theorem mpllUpdate_regs (reverseSpll : Int) (tics : BitVec 32) (m : Main) (r : Regs) (tag : Int)
    (source : Nat) :
    ∃ y, (mpllUpdate b reverseSpll tics m r tag source).regs = { r with dacMain := y } := by
  unfold mpllUpdate
  dsimp only
  split
  · exact ⟨r.dacMain, rfl⟩
  · split
    · unfold processPair
      dsimp only
      split
      · exact ⟨r.dacMain, rfl⟩
      · exact ⟨_, rfl⟩
    · exact ⟨r.dacMain, rfl⟩

/-- What the loops write: their own state, with the main PLL's configuration as it was, and
the DACs. -/
theorem looped_own {s : State} {h : Helper} {m : Main} {p : Nat → Ptracker} {t : Int}
    {y z : BitVec 32} (hm : s.mpll.Fixed m) (hp : ∀ k, (p k).id = (s.ptrackers k).id) :
    s.Looped { s with
      helper := h, mpll := m, ptrackers := p, ptrackerTagRef := t
      regs := { s.regs with dacHpll := y, dacMain := z } } :=
  ⟨⟨rfl, rfl, rfl, rfl, rfl, rfl, rfl, rfl, rfl, rfl, hm, fun _ => rfl, fun _ => rfl,
    fun _ => .refl _⟩, rfl, rfl, hp⟩

theorem updateHelper_frame : s.Looped (updateHelper s tag source) := by
  obtain ⟨y, hr⟩ := helperUpdate_regs s.hw.tics s.helper s.regs tag source
  unfold updateHelper
  dsimp only
  rw [hr]
  exact looped_own (.refl _) fun _ => rfl

theorem updateMain_frame : s.Looped (updateMain b s tag source) := by
  obtain ⟨y, hr⟩ := @mpllUpdate_regs b s.reverseSpll s.hw.tics s.mpll s.regs tag source
  unfold updateMain
  dsimp only
  rw [hr]
  exact looped_own (mpllUpdate_fixed ..) fun _ => rfl

theorem setAux_frame (hm : a.mode = (s.aux i).mode) (hs : a.seqState = (s.aux i).seqState)
    (hf : (s.aux i).dmtd.Fixed a.dmtd) : s.Looped (s.setAux i a) := by
  have h : ∀ j, ((s.setAux i a).aux j).mode = (s.aux j).mode ∧
      ((s.setAux i a).aux j).seqState = (s.aux j).seqState ∧
      (s.aux j).dmtd.Fixed ((s.setAux i a).aux j).dmtd := by
    intro j
    rw [State.setAux_aux]
    split
    · next h => rw [h]; exact ⟨hm, hs, hf⟩
    · exact ⟨rfl, rfl, .refl _⟩
  exact ⟨⟨rfl, rfl, rfl, rfl, rfl, rfl, rfl, rfl, rfl, rfl, .refl _, fun j => (h j).1,
    fun j => (h j).2.1, fun j => (h j).2.2⟩, rfl, rfl, fun _ => rfl⟩

theorem updateAux_frame : s.Looped (updateAux b s tag source i) := by
  have hm := mpllUpdate_fixed b (s.aux i).dmtd tag source s.hw.tics s.reverseSpll s.regs
  obtain ⟨y, hr⟩ := @mpllUpdate_regs b s.reverseSpll s.hw.tics (s.aux i).dmtd s.regs tag source
  generalize hu : mpllUpdate b s.reverseSpll s.hw.tics (s.aux i).dmtd s.regs tag source = u at hm hr
  have h := setAux_frame s i { s.aux i with dmtd := u.main } rfl rfl hm
  refine h.trans ?_
  unfold updateAux
  rw [hu]
  dsimp only
  rw [hr]
  exact looped_own (.refl _) fun _ => rfl

theorem updateAuxes_frame : s.Looped (updateAuxes b s tag source) :=
  foldlRecOn _ _ (motive := s.Looped) (.refl s)
    fun s' h i _ => h.trans (updateAux_frame s' tag source i)

theorem updateAuxes_loops :
    (updateAuxes b s tag source).helper = s.helper ∧ (updateAuxes b s tag source).mpll = s.mpll :=
  foldlRecOn _ _ (motive := fun s' : State => s'.helper = s.helper ∧
    s'.mpll = s.mpll) ⟨rfl, rfl⟩ fun _ h _ _ => h

theorem withTracker_fixed (p : Ptracker) : a.dmtd.Fixed (a.withTracker p).dmtd :=
  ⟨rfl, rfl, rfl, rfl, rfl, rfl, rfl, rfl, rfl⟩

theorem ptrackerUpdate_id (reverseSpll tagRef : Int) (p : Ptracker) (tag : Int) :
    (ptrackerUpdate reverseSpll tagRef p tag).id = p.id := by
  unfold ptrackerUpdate
  grind

theorem updateRefPtrackers_frame : s.Looped (updateRefPtrackers b s tag source) := by
  unfold updateRefPtrackers
  split
  · split
    · exact looped_own (.refl _) fun _ => rfl
    · refine looped_own (.refl _) fun k => ?_
      rw [Function.update_apply]
      split
      · next h => rw [ptrackerUpdate_id, h]
      · rfl
  · exact .refl s

theorem updateAuxPtracker_frame : s.Looped (updateAuxPtracker b s tag i) := by
  unfold updateAuxPtracker
  split
  · have h := setAux_frame s i ((s.aux i).withTracker { (s.aux i).tracker with dbgChannel := i })
      rfl rfl (withTracker_fixed _ _)
    exact h.trans (looped_own (.refl _) fun _ => rfl)
  · exact setAux_frame s i _ rfl rfl ((withTracker_fixed _ _).trans (withTracker_fixed _ _))

theorem updatePtrackers_frame : s.Looped (updatePtrackers b s tag source) := by
  unfold updatePtrackers
  dsimp only
  split
  · exact (updateRefPtrackers_frame s tag source).trans (updateAuxPtracker_frame _ tag _)
  · exact updateRefPtrackers_frame s tag source

theorem updateLoops_frame : s.Looped (updateLoops b s tag source) := by
  have hh := updateHelper_frame s tag source
  have hm := hh.trans (updateMain_frame (b := b) _ tag source)
  unfold updateLoops
  dsimp only
  split
  · split
    · split
      · exact hm.trans ((updateAuxes_frame _ tag source).trans (updatePtrackers_frame _ tag source))
      · exact hm.trans (updatePtrackers_frame _ tag source)
    · exact hm
  · exact hh

theorem updatePtrackers_loops :
    (updatePtrackers b s tag source).helper = s.helper ∧
      (updatePtrackers b s tag source).mpll = s.mpll := by
  unfold updatePtrackers updateAuxPtracker updateRefPtrackers
  grind [State.setAux]

theorem helperUpdate_refSrc (h : Helper) (r : Regs) (v : Int) (source : Nat) :
    (helperUpdate tics h r v source).1.refSrc = h.refSrc := by
  unfold helperUpdate helperTrack helperControl helperAdvance helperUnwrap
  grind

theorem updateLoops_helper :
    (updateLoops b s tag source).helper
      = (helperUpdate s.hw.tics s.helper s.regs tag source).1 := by
  unfold updateLoops
  dsimp only
  split
  · split
    · split
      · rw [(updatePtrackers_loops _ tag source).1, (updateAuxes_loops _ tag source).1]
        rfl
      · rw [(updatePtrackers_loops _ tag source).1]
        rfl
    · rfl
  · rfl

theorem updateLoops_of_unlocked {s : State} {tag : Int} {source : Nat}
    (h : (updateLoops b s tag source).helper.ld.locked = false) :
    (updateLoops b s tag source).mpll = s.mpll ∧ (updateLoops b s tag source).aux = s.aux := by
  rw [updateLoops_helper] at h
  have hu : (updateHelper s tag source).helper.ld.locked = false := h
  unfold updateLoops
  simp only [hu]
  exact ⟨rfl, rfl⟩

theorem updateLoops_mpll {s : State} {tag : Int} {source : Nat}
    (h : (updateLoops b s tag source).helper.ld.locked = true) :
    (updateLoops b s tag source).mpll
      = (mpllUpdate b s.reverseSpll s.hw.tics s.mpll s.regs tag source).main := by
  rw [updateLoops_helper] at h
  have hu : (updateHelper s tag source).helper.ld.locked = true := h
  rw [mpllUpdate_main_regs b s.mpll tag source s.hw.tics s.reverseSpll s.regs
    (updateHelper s tag source).regs]
  unfold updateLoops
  simp only [hu, if_true]
  split
  · split
    · rw [(updatePtrackers_loops _ tag source).2, (updateAuxes_loops _ tag source).2]
      rfl
    · rw [(updatePtrackers_loops _ tag source).2]
      rfl
  · rfl

theorem updateAux_aux (j : Nat) :
    (updateAux b s tag source i).aux j
      = if j = i then
          { s.aux i with
            dmtd := (mpllUpdate b s.reverseSpll s.hw.tics (s.aux i).dmtd s.regs tag source).main }
        else s.aux j :=
  State.setAux_aux ..

theorem updateAux_range (n : Nat) :
    s.Looped ((List.range n).foldl (fun s i => updateAux b s tag source i) s) ∧
      ∀ j, ((List.range n).foldl (fun s i => updateAux b s tag source i) s).aux j
        = if j < n then
            { s.aux j with
              dmtd := (mpllUpdate b s.reverseSpll s.hw.tics (s.aux j).dmtd s.regs tag source).main }
          else s.aux j := by
  induction n with
  | zero => exact ⟨.refl s, fun _ => rfl⟩
  | succ n ih =>
    obtain ⟨hframe, haux⟩ := ih
    rw [range_succ, foldl_append]
    simp only [foldl_cons, foldl_nil]
    generalize (List.range n).foldl (fun s i => updateAux b s tag source i) s = s' at hframe haux
    refine ⟨hframe.trans (updateAux_frame s' tag source n), ?_⟩
    intro j
    have hn := haux n
    rw [if_neg (Nat.lt_irrefl n)] at hn
    rw [updateAux_aux, haux j, hn, hframe.reverseSpll, hframe.hw,
      mpllUpdate_main_regs b (s.aux n).dmtd tag source s.hw.tics s.reverseSpll s'.regs s.regs]
    rcases Nat.lt_trichotomy j n with h | h | h
    · rw [if_neg (by omega), if_pos h, if_pos (by omega)]
    · subst h
      rw [if_pos rfl, if_pos (by omega)]
    · rw [if_neg (by omega), if_neg (by omega), if_neg (by omega)]

theorem updatePtrackers_aux {s : State} {i : Nat} (hm : (s.aux i).mode = .slave) (tag : Int)
    (source : Nat) : (updatePtrackers b s tag source).aux i = s.aux i := by
  have href : (updateRefPtrackers b s tag source).aux = s.aux := by
    unfold updateRefPtrackers
    grind
  have hset : ∀ (s : State) (j : Nat) (a : Aux), j ≠ i → (s.setAux j a).aux i = s.aux i := by
    intro s j a hne
    rw [State.setAux_aux, if_neg (Ne.symm hne)]
  unfold updatePtrackers
  dsimp only
  split
  · next h =>
    have hne : source - b.nChanRef - 1 ≠ i := by
      intro he
      rw [he, href, hm] at h
      exact absurd h.2.2 nofun
    unfold updateAuxPtracker
    split
    · exact (hset _ _ _ hne).trans (congrFun href i)
    · exact (hset _ _ _ hne).trans (congrFun href i)
  · exact congrFun href i

theorem updateLoops_aux {s : State} {tag : Int} {source i : Nat}
    (h : (updateLoops b s tag source).helper.ld.locked = true) (hs : s.seqState = .ready)
    (hmode : s.mode = .slave) (hm : (s.aux i).mode = .slave) (hi : i < b.nChanOut - 1) :
    (updateLoops b s tag source).aux i = { s.aux i with
      dmtd := (mpllUpdate b s.reverseSpll s.hw.tics (s.aux i).dmtd s.regs tag source).main } := by
  rw [updateLoops_helper] at h
  have hu : (updateHelper s tag source).helper.ld.locked = true := h
  have hframe := (updateHelper_frame s tag source).trans
    (updateMain_frame (b := b) (updateHelper s tag source) tag source)
  unfold updateLoops
  simp only [hu, if_pos (hframe.seqState.trans hs), if_pos (hframe.mode.trans hmode)]
  obtain ⟨hf, haux⟩ := updateAux_range (b := b)
    (updateMain b (updateHelper s tag source) tag source) tag source (b.nChanOut - 1)
  refine (updatePtrackers_aux ((hf.auxMode i).trans ((hframe.auxMode i).trans hm)) tag source).trans
    ?_
  refine (haux i).trans ?_
  rw [if_pos hi, hframe.reverseSpll, hframe.hw]
  rw [mpllUpdate_main_regs b _ tag source s.hw.tics s.reverseSpll _ s.regs]
  rfl

theorem updateLoops_aux_of_idle {s : State} {tag : Int} {source i : Nat}
    (h : s.seqState ≠ .ready ∨ s.mode ≠ .slave) (hm : (s.aux i).mode = .slave) :
    (updateLoops b s tag source).aux i = s.aux i := by
  have hframe := (updateHelper_frame s tag source).trans
    (updateMain_frame (b := b) (updateHelper s tag source) tag source)
  unfold updateLoops
  dsimp only
  split
  · split
    · next hr =>
      split
      · next hs =>
        rcases h with h | h
        · exact absurd (hframe.seqState.symm.trans hr) h
        · exact absurd (hframe.mode.symm.trans hs) h
      · exact updatePtrackers_aux
          (s := updateMain b (updateHelper s tag source) tag source) hm tag source
    · rfl
  · rfl

/-! ## The auxiliary channels -/

/-- What the machine of aux channel `ch` leaves alone: the loops, the sequencer,
and everything of the other channels. -/
structure State.AuxFrame (ch : Nat) (s s' : State) : Prop where
  mode : s'.mode = s.mode
  seqState : s'.seqState = s.seqState
  dacTimeout : s'.dacTimeout = s.dacTimeout
  delockCount : s'.delockCount = s.delockCount
  mpllShiftPs : s'.mpllShiftPs = s.mpllShiftPs
  helper : s'.helper = s.helper
  mpll : s'.mpll = s.mpll
  hw : s'.hw = s.hw
  dacHpll : s'.regs.dacHpll = s.regs.dacHpll
  dacMain : s'.regs.dacMain = s.regs.dacMain
  eicEnabled : s'.regs.eicEnabled = s.regs.eicEnabled
  irqOn : s'.regs.irqOn = s.regs.irqOn
  outLock : ∀ c, c < 8 → c ≠ ch → s'.regs.outLock.getLsbD c = s.regs.outLock.getLsbD c
  aux : ∀ i, i ≠ ch - 1 → s'.aux i = s.aux i
  auxMode : ∀ i, (s'.aux i).mode = (s.aux i).mode

/-- Two states of a channel that differ in its machine and in the phase it reports or asks for. -/
structure Aux.Same (a a' : Aux) : Prop where
  mode : a'.mode = a.mode
  tracker : a'.tracker = a.tracker
  enabled : a'.dmtd.enabled = a.dmtd.enabled
  idRef : a'.dmtd.idRef = a.dmtd.idRef
  idOut : a'.dmtd.idOut = a.dmtd.idOut

theorem Aux.Same.refl : a.Same a := ⟨rfl, rfl, rfl, rfl, rfl⟩

inductive AuxMove (b : Board) (a a' : Aux) (ch : Nat) (r r' : Regs) : Prop
  | quiet (h : a.Same a') (hr : r' = r ∨ ∃ locked, r' = setChannelStatus r ch locked)
  | stop (h : a' = { a with dmtd := { a.dmtd with enabled := false }, seqState := .disabled })
      (h' : r' = setChannelStatus (enableTagger b r a.dmtd.idOut false) ch false)
  | start (tics : BitVec 32) (hm : a.mode = .slave)
      (h : a' = { a with dmtd := (a.withRatio b).started b tics, seqState := .lockPll })
      (h' : r' = (mpllStart b tics (a.withRatio b) r).2)
  | monitor (hm : a.mode = .phaseMonitor)
      (h : a' = { a with seqState := .waitMonitorLock }.withTracker
        (ptrackerStart b (ptrackerInit a.tracker (ch + b.nChanRef) 512) r).1)
      (h' : r' = (ptrackerStart b (ptrackerInit a.tracker (ch + b.nChanRef) 512) r).2)

/-- A poll of channel `ch` from `s` to `s'` is a move of the channel and the registers. -/
def State.Moves (b : Board) (ch : Nat) (s s' : State) : Prop :=
  ∃ a r, s' = { s.setAux (ch - 1) a with regs := r } ∧ AuxMove b (s.aux (ch - 1)) a ch s.regs r

theorem State.Moves.none : s.Moves b ch s := by
  refine ⟨s.aux (ch - 1), s.regs, ?_, .quiet (.refl _) (.inl rfl)⟩
  unfold State.setAux
  rw [Function.update_eq_self]

theorem State.Moves.setAux (h : (s.aux (ch - 1)).Same a) : s.Moves b ch (s.setAux (ch - 1) a) :=
  ⟨a, s.regs, rfl, .quiet h (.inl rfl)⟩

theorem State.Moves.setStatus (locked : Bool) (h : (s.aux (ch - 1)).Same a) :
    s.Moves b ch { s.setAux (ch - 1) a with regs := setChannelStatus s.regs ch locked } :=
  ⟨a, _, rfl, .quiet h (.inr ⟨locked, rfl⟩)⟩

theorem disableAux_moves : s.Moves b ch (disableAux s ch) :=
  .setStatus s ch _ false ⟨rfl, rfl, rfl, rfl, rfl⟩

theorem monitorReady_moves : s.Moves b ch (monitorReady s ch).1 := by
  unfold monitorReady
  split
  · exact disableAux_moves s ch
  · exact .setAux s ch _ ⟨rfl, rfl, rfl, rfl, rfl⟩

theorem setAux_setAux (a' : Aux) : (s.setAux i a).setAux i a' = s.setAux i a' := by
  unfold State.setAux
  rw [Function.update_idem]

theorem setAux_aux_self : (s.setAux i a).aux i = a :=
  Function.update_self ..

theorem enableAux_moves : s.Moves b ch (enableAux b s ch) := by
  unfold enableAux
  dsimp only
  split
  case h_1 hmode =>
    split
    case h_1 s' hstart =>
      unfold spllStartChannel at hstart
      split at hstart
      · cases hstart
      · cases hstart
        refine ⟨_, _, ?_, .start s.hw.tics hmode rfl rfl⟩
        simp only [State.setAux, Function.update_self, Function.update_idem]
        rfl
    case h_2 => exact .none s ch
  case h_2 hmode => exact ⟨_, _, rfl, .monitor hmode rfl rfl⟩

theorem spllUpdateAuxClock_moves {ch : Nat} (hch : ch ≠ 0) :
    s.Moves b ch (spllUpdateAuxClock b s ch).1 := by
  unfold spllUpdateAuxClock
  dsimp only
  split
  · refine ⟨_, _, ?_, .stop rfl rfl⟩
    simp only [disableAux, spllStopChannel, if_neg hch, State.setAux, Function.update_self,
      Function.update_idem]
    rfl
  · split
    · exact .none s ch
    · split
      · exact enableAux_moves s ch
      · exact .none s ch
    · split
      · exact .setStatus s ch _ true ⟨rfl, rfl, rfl, rfl, rfl⟩
      · exact monitorReady_moves s ch
    · exact monitorReady_moves s ch
    · split
      · simp only [setPhaseShift, if_neg hch, setAux_setAux, setAux_aux_self]
        exact .setAux s ch _ ⟨rfl, rfl, rfl, rfl, rfl⟩
      · exact .none s ch
    · split
      · exact .setStatus s ch _ true ⟨rfl, rfl, rfl, rfl, rfl⟩
      · exact .none s ch
    · split
      · exact disableAux_moves s ch
      · exact .none s ch

theorem mpllStart_same (m : Main) (r : Regs) : r.SameButTaggers (mpllStart b tics m r).2 :=
  (enableTagger_same b r m.idRef true).trans (enableTagger_same b _ m.idOut true)

theorem ptrackerStart_same (p : Ptracker) (r : Regs) :
    r.SameButTaggers (ptrackerStart b p r).2 :=
  (enableTagger_same b r p.id.toNat true).trans (enableTagger_same b _ b.nChanRef true)

theorem AuxMove.regs {a a' : Aux} {r r' : Regs} (h : AuxMove b a a' ch r r') :
    ∃ q, r.SameButTaggers q ∧ (r' = q ∨ ∃ locked, r' = setChannelStatus q ch locked) := by
  cases h with
  | quiet _ hr => exact ⟨r, .refl r, hr⟩
  | stop _ h' => exact ⟨_, enableTagger_same b r _ false, .inr ⟨false, h'⟩⟩
  | start tics _ _ h' => exact ⟨_, mpllStart_same tics _ r, .inl h'⟩
  | monitor _ _ h' => exact ⟨_, ptrackerStart_same _ r, .inl h'⟩

theorem AuxMove.mode {a a' : Aux} {r r' : Regs} (h : AuxMove b a a' ch r r') :
    a'.mode = a.mode := by
  cases h with
  | quiet h _ => exact h.mode
  | stop h _ => rw [h]
  | start _ _ h _ => rw [h]
  | monitor _ h _ => rw [h]; rfl

theorem spllUpdateAuxClock_auxFrame {ch : Nat} (hch : ch ≠ 0) :
    s.AuxFrame ch (spllUpdateAuxClock b s ch).1 := by
  obtain ⟨a, r, hs, hmove⟩ := spllUpdateAuxClock_moves (b := b) s hch
  obtain ⟨q, hq, hr⟩ := hmove.regs
  have haux : ∀ i, i ≠ ch - 1 → (s.setAux (ch - 1) a).aux i = s.aux i := by
    intro i hi
    rw [State.setAux_aux, if_neg hi]
  have hmode : ∀ i, ((s.setAux (ch - 1) a).aux i).mode = (s.aux i).mode := by
    intro i
    by_cases hi : i = ch - 1
    · rw [hi, setAux_aux_self, hmove.mode]
    · rw [haux i hi]
  rw [hs]
  rcases hr with rfl | ⟨locked, rfl⟩
  · exact ⟨rfl, rfl, rfl, rfl, rfl, rfl, rfl, rfl, hq.dacHpll, hq.dacMain, hq.eicEnabled, hq.irqOn,
      fun _ _ _ => by rw [hq.outLock], haux, hmode⟩
  · refine ⟨rfl, rfl, rfl, rfl, rfl, rfl, rfl, rfl, hq.dacHpll, hq.dacMain, hq.eicEnabled, hq.irqOn,
      fun c hc hne => ?_, haux, hmode⟩
    rw [setChannelStatus_getLsbD _ _ _ hc, if_neg hne, hq.outLock]

/-! ## The bottom half -/

/-- What `spll_update` leaves alone, in every mode.  It may restart the main PLL,
which drops its lock. -/
structure State.PollFrame (s s' : State) : Prop where
  mode : s'.mode = s.mode
  seqState : s'.seqState = s.seqState
  dacTimeout : s'.dacTimeout = s.dacTimeout
  delockCount : s'.delockCount = s.delockCount
  helper : s'.helper = s.helper
  dacHpll : s'.regs.dacHpll = s.regs.dacHpll
  dacMain : s'.regs.dacMain = s.regs.dacMain
  eicEnabled : s'.regs.eicEnabled = s.regs.eicEnabled
  irqOn : s.regs.irqOn = true → s'.regs.irqOn = true
  locked : s'.mpll.locked = true → s.mpll.locked = true
  yMin : s'.mpll.pi.yMin = s.mpll.pi.yMin
  yMax : s'.mpll.pi.yMax = s.mpll.pi.yMax

theorem State.PollFrame.trans {s s' s'' : State} (h : s.PollFrame s') (h' : s'.PollFrame s'') :
    s.PollFrame s'' :=
  ⟨h'.mode.trans h.mode, h'.seqState.trans h.seqState, h'.dacTimeout.trans h.dacTimeout,
    h'.delockCount.trans h.delockCount, h'.helper.trans h.helper, h'.dacHpll.trans h.dacHpll,
    h'.dacMain.trans h.dacMain, h'.eicEnabled.trans h.eicEnabled, fun hi => h'.irqOn (h.irqOn hi),
    fun hl => h.locked (h'.locked hl), h'.yMin.trans h.yMin, h'.yMax.trans h.yMax⟩

theorem State.AuxFrame.pollFrame {ch : Nat} {s s' : State} (h : s.AuxFrame ch s') :
    s.PollFrame s' :=
  ⟨h.mode, h.seqState, h.dacTimeout, h.delockCount, h.helper, h.dacHpll, h.dacMain, h.eicEnabled,
    fun hi => h.irqOn.trans hi, fun hl => h.mpll ▸ hl, by rw [h.mpll], by rw [h.mpll]⟩

theorem started_spec (m : Main) :
    (m.started b tics).locked = false ∧ (m.started b tics).phaseShiftTarget = 0 ∧
      (m.started b tics).idRef = m.idRef ∧ (m.started b tics).pi.yMin = m.pi.yMin ∧
      (m.started b tics).pi.yMax = m.pi.yMax ∧ (m.started b tics).phaseLd.locked = false ∧
      (m.started b tics).idOut = m.idOut := by
  unfold Main.started startGainSchedule piInit ldInit
  grind

structure State.AlignFrame (s s' : State) : Prop extends s.PollFrame s' where
  aux : s'.aux = s.aux
  outLock : s'.regs.outLock = s.regs.outLock
  mpllShiftPs : s'.mpllShiftPs = s.mpllShiftPs

theorem State.AlignFrame.trans {s s' s'' : State} (h : s.AlignFrame s') (h' : s'.AlignFrame s'') :
    s.AlignFrame s'' :=
  ⟨h.toPollFrame.trans h'.toPollFrame, h'.aux.trans h.aux, h'.outLock.trans h.outLock,
    h'.mpllShiftPs.trans h.mpllShiftPs⟩

/-- What the aligner writes: its own state, the reset of the reference clock and the target of
the main PLL. -/
def State.Aligned (s s' : State) : Prop :=
  ∃ hw ext old target timeout rst, s' = { s with
    hw := hw, ext := ext, oldExtPpsLatencyPs := old, alignTimeout := timeout
    mpll := { s.mpll with phaseShiftTarget := target }
    regs := { s.regs with extRefPllrst := rst } }

theorem State.Aligned.refl : s.Aligned s := ⟨_, _, _, _, _, _, rfl⟩

theorem State.Aligned.trans {s s' s'' : State} (h : s.Aligned s') (h' : s'.Aligned s'') :
    s.Aligned s'' := by
  obtain ⟨_, _, _, _, _, _, rfl⟩ := h
  obtain ⟨_, _, _, _, _, _, rfl⟩ := h'
  exact ⟨_, _, _, _, _, _, rfl⟩

theorem State.Aligned.alignFrame {s s' : State} (h : s.Aligned s') : s.AlignFrame s' := by
  obtain ⟨_, _, _, _, _, _, rfl⟩ := h
  exact ⟨⟨rfl, rfl, rfl, rfl, rfl, rfl, rfl, rfl, id, id, rfl, rfl⟩, rfl, rfl, rfl⟩

def State.restarted (b : Board) (s : State) : State :=
  let u := mpllStart b s.hw.tics s.mpll s.regs
  { s with mpll := u.1, regs := { u.2 with irqOn := true } }

theorem restarted_alignFrame : s.AlignFrame (s.restarted b) := by
  have hr := mpllStart_same (b := b) s.hw.tics s.mpll s.regs
  obtain ⟨hl, -, -, hmin, hmax, -⟩ := started_spec (b := b) s.hw.tics s.mpll
  exact ⟨⟨rfl, rfl, rfl, rfl, rfl, hr.dacHpll, hr.dacMain, hr.eicEnabled, fun _ => rfl,
    fun h => absurd (hl.symm.trans h) Bool.false_ne_true, hmin, hmax⟩, rfl, hr.outLock, rfl⟩

theorem alignSample_aligned : s.Aligned (alignSample s).1 := by
  unfold alignSample
  split_ifs <;> exact ⟨_, _, _, _, _, _, rfl⟩

theorem alignWaitClkin_aligned : s.Aligned (alignWaitClkin b s).1 := by
  unfold alignWaitClkin
  dsimp only
  split_ifs <;> exact ⟨_, _, _, _, _, _, rfl⟩

theorem alignWaitPlock_aligned : s.Aligned (alignWaitPlock s) := by
  unfold alignWaitPlock
  dsimp only
  split_ifs <;> exact ⟨_, _, _, _, _, _, rfl⟩

theorem alignStartMain_aligned : s.Aligned (alignStartMain b s).1 := by
  unfold alignStartMain
  dsimp only
  split_ifs <;> exact ⟨_, _, _, _, _, _, rfl⟩

theorem alignStartAlignment_aligned : s.Aligned (alignStartAlignment s).1 := by
  have h := alignSample_aligned s
  unfold alignStartAlignment
  split
  · next hs => rw [hs] at h; exact h
  · next hs => rw [hs] at h; exact h.trans ⟨_, _, _, _, _, _, rfl⟩

theorem alignWaitSample_aligned : s.Aligned (alignWaitSample b s).1 := by
  have h := alignSample_aligned s
  unfold alignWaitSample
  split
  · exact .refl s
  · split
    · next hs => rw [hs] at h; exact h
    · next hs =>
      rw [hs] at h
      split_ifs
      · exact h.trans ⟨_, _, _, _, _, _, rfl⟩
      · exact h.trans ⟨_, _, _, _, _, _, rfl⟩

theorem alignLocked_aligned : s.Aligned (alignLocked b s).1 := by
  unfold alignLocked
  dsimp only
  split_ifs <;> exact ⟨_, _, _, _, _, _, rfl⟩

theorem alignSwitch_aligned :
    s.Aligned (alignSwitch b s).1 ∨ (s.restarted b).Aligned (alignSwitch b s).1 := by
  unfold alignSwitch
  split
  · exact .inl (.refl s)
  · exact .inl (alignWaitClkin_aligned s)
  · exact .inl (alignWaitPlock_aligned s)
  · unfold alignStart
    split
    · exact .inr ⟨_, _, _, _, _, _, rfl⟩
    · split
      · exact .inl ⟨_, _, _, _, _, _, rfl⟩
      · exact .inl (.refl s)
  · exact .inl (alignStartMain_aligned s)
  · split_ifs <;> exact .inl ⟨_, _, _, _, _, _, rfl⟩
  · split_ifs <;> exact .inl ⟨_, _, _, _, _, _, rfl⟩
  · exact .inl (alignStartAlignment_aligned s)
  · exact .inl (alignWaitSample_aligned s)
  · split_ifs <;> exact .inl ⟨_, _, _, _, _, _, rfl⟩
  · exact .inl (alignLocked_aligned s)

theorem alignPoll_aligned :
    s.Aligned (alignPoll b s).1 ∨ (s.restarted b).Aligned (alignPoll b s).1 := by
  have hstamp : (alignSwitch b s).1.Aligned (externalAlignFsm b s).1 := by
    unfold externalAlignFsm
    dsimp only
    split
    · exact ⟨_, _, _, _, _, _, rfl⟩
    · exact .refl _
  unfold alignPoll
  split
  · exact (alignSwitch_aligned s).imp (·.trans hstamp) (·.trans hstamp)
  · exact .inl (.refl s)

theorem alignPoll_alignFrame : s.AlignFrame (alignPoll b s).1 := by
  rcases alignPoll_aligned s with h | h
  · exact h.alignFrame
  · exact (restarted_alignFrame s).trans h.alignFrame

theorem spllUpdate_pollFrame : s.PollFrame (spllUpdate b s).1 := by
  refine foldlRecOn _ _ (motive := fun u : State × Bool => s.PollFrame u.1)
    (alignPoll_alignFrame s).toPollFrame ?_
  intro u h ch hch
  have hne : ch ≠ 0 := by
    have := mem_range'_1.mp hch
    omega
  exact h.trans (spllUpdateAuxClock_auxFrame u.1 hne).pollFrame

/-! ## Phase shift requests -/

def State.Shifted (s s' : State) : Prop :=
  ∃ (ps target : Int) (targets : Nat → Int), s' = { s with
    mpllShiftPs := ps
    mpll := { s.mpll with phaseShiftTarget := target }
    aux := fun i => { s.aux i with
      dmtd := { (s.aux i).dmtd with phaseShiftTarget := targets i } } }

theorem State.Shifted.refl : s.Shifted s :=
  ⟨_, _, fun i => (s.aux i).dmtd.phaseShiftTarget, rfl⟩

theorem State.Shifted.trans {s s' s'' : State} (h : s.Shifted s') (h' : s'.Shifted s'') :
    s.Shifted s'' := by
  obtain ⟨_, _, _, rfl⟩ := h
  obtain ⟨ps, target, targets, rfl⟩ := h'
  exact ⟨ps, target, targets, rfl⟩

theorem State.Shifted.pollFrame {s s' : State} (h : s.Shifted s') : s.PollFrame s' := by
  obtain ⟨_, _, _, rfl⟩ := h
  exact ⟨rfl, rfl, rfl, rfl, rfl, rfl, rfl, rfl, id, id, rfl, rfl⟩

theorem State.Shifted.auxSeq {s s' : State} (h : s.Shifted s') (i : Nat) :
    (s'.aux i).seqState = (s.aux i).seqState := by
  obtain ⟨_, _, _, rfl⟩ := h
  rfl

theorem setPhaseShift_shifted (channel : Nat) (ps : Int) :
    s.Shifted (setPhaseShift b s channel ps) := by
  unfold setPhaseShift
  split
  · exact ⟨ps, _, fun i => (s.aux i).dmtd.phaseShiftTarget, rfl⟩
  · refine ⟨ps, s.mpll.phaseShiftTarget, fun i => if i = channel - 1 then phaseTarget b ps
      else (s.aux i).dmtd.phaseShiftTarget, congrArg (fun aux => { s with
        mpllShiftPs := ps, aux := aux }) (funext fun i => ?_)⟩
    show (s.setAux (channel - 1) _).aux i = _
    rw [State.setAux_aux]
    by_cases h : i = channel - 1
    · simp only [h]
      rfl
    · simp [h]

theorem shiftIfReady_shifted : s.Shifted (shiftIfReady b ps s i) := by
  unfold shiftIfReady
  split
  · exact setPhaseShift_shifted s (i + 1) ps
  · exact .refl s

theorem spllSetPhaseShift_shifted (channel : Option Nat) (ps : Int) :
    s.Shifted (spllSetPhaseShift b s channel ps) := by
  cases channel with
  | none =>
    exact foldlRecOn _ _ (motive := s.Shifted) (setPhaseShift_shifted s 0 ps)
      fun s' h i _ => h.trans (shiftIfReady_shifted ps s' i)
  | some channel => exact setPhaseShift_shifted s channel ps

/-- The rule for one event.  But for a tag that is taken, a poll, a phase shift and `spll_init`,
an event only moves the four fields of the last case. -/
theorem State.step_rule {P : State → Prop} (e : Event)
    (htag : ∀ trr, e = .tag trr → s.regs.eicEnabled ∧ s.regs.irqOn →
      P (handleTag b s (tagValueOf trr) (tagSourceOf trr)))
    (hupdate : P (spllUpdate b s).1)
    (hshift : ∀ channel ps, P (spllSetPhaseShift b s channel ps))
    (hinit : ∀ mode ref, e = .init mode ref → P (spllInit b s mode ref))
    (hquiet : ∀ irqCount psFreeze vcoFreeze hw, P { s with
      irqCount, hw, mpll := { s.mpll with psFreeze, vcoFreeze } }) : P (s.step b e) := by
  cases e with
  | tag trr =>
    simp only [State.step]
    split
    · next hon => exact htag trr rfl hon
    · exact hquiet _ _ _ _
  | irqEnd =>
    simp only [State.step]
    split
    · exact hquiet _ _ _ _
    · exact hquiet _ _ _ _
  | update => exact hupdate
  | setPhaseShift channel ps => exact hshift channel ps
  | init mode ref => exact hinit mode ref rfl
  | setPsFreeze freeze => exact hquiet _ _ _ _
  | setVcoFreeze freeze => exact hquiet _ _ _ _
  | hw h => exact hquiet _ _ _ _

/-! ## The sequencer -/

structure State.SeqFrame (s s' : State) : Prop where
  mode : s'.mode = s.mode
  mpllShiftPs : s'.mpllShiftPs = s.mpllShiftPs
  hw : s'.hw = s.hw
  aux : s'.aux = s.aux
  eicEnabled : s'.regs.eicEnabled = s.regs.eicEnabled
  irqOn : s'.regs.irqOn = s.regs.irqOn
  idRef : s'.mpll.idRef = s.mpll.idRef
  idOut : s'.mpll.idOut = s.mpll.idOut
  refSrc : s'.helper.refSrc = s.helper.refSrc
  yMin : s'.mpll.pi.yMin = s.mpll.pi.yMin
  yMax : s'.mpll.pi.yMax = s.mpll.pi.yMax
  helperYMax : s'.helper.pi.yMax = s.helper.pi.yMax
  trackerId : ∀ k, (s'.ptrackers k).id = (s.ptrackers k).id
  outLock : ∀ c, c < 8 → c ≠ s.mpll.idRef → s'.regs.outLock.getLsbD c = s.regs.outLock.getLsbD c

theorem State.SeqFrame.refl : s.SeqFrame s :=
  ⟨rfl, rfl, rfl, rfl, rfl, rfl, rfl, rfl, rfl, rfl, rfl, rfl, fun _ => rfl, fun _ _ _ => rfl⟩

theorem startPtrackers_same : s.regs.SameButTaggers (startPtrackers b s).regs := by
  refine foldlRecOn _ _ (motive := s.regs.SameButTaggers) (.refl _) ?_
  intro r h i _
  split
  · exact h.trans (ptrackerStart_same _ r)
  · exact h

theorem enterReady_frame : s.SeqFrame (enterReady b s) := by
  have h := startPtrackers_same (b := b) s
  refine ⟨rfl, rfl, rfl, rfl, h.eicEnabled, h.irqOn, rfl, rfl, rfl, rfl, rfl, rfl, fun k => ?_,
    fun c hc hne => ?_⟩
  · simp only [enterReady, startPtrackers]
    split
    · rfl
    · rfl
  · show (setChannelStatus (startPtrackers b s).regs s.mpll.idRef true).outLock.getLsbD c = _
    rw [setChannelStatus_getLsbD _ _ _ hc, if_neg hne, h.outLock]

theorem sequence_frame : s.SeqFrame (sequence b s) := by
  unfold sequence
  split
  · exact .refl s
  · exact .refl s
  · have h := enableTagger_same b { s.regs with
      dacHpll := BitVec.ofInt 32 s.helper.pi.yMax
      dacMain := BitVec.ofInt 32 ((s.mpll.pi.yMax + s.mpll.pi.yMin).tdiv 2) } b.nChanRef true
    exact ⟨rfl, rfl, rfl, rfl, h.eicEnabled, h.irqOn, rfl, rfl, rfl, rfl, rfl, rfl, fun _ => rfl,
      fun _ _ _ => congrArg (BitVec.getLsbD · _) h.outLock⟩
  · split
    · exact ⟨rfl, rfl, rfl, rfl, rfl, rfl, rfl, rfl, rfl, rfl, rfl, rfl, fun _ => rfl,
        fun _ _ _ => rfl⟩
    · exact .refl s
  · have h := (enableTagger_same b s.regs b.nChanRef false).trans
      (enableTagger_same b _ s.helper.refSrc true)
    exact ⟨rfl, rfl, rfl, rfl, h.eicEnabled, h.irqOn, rfl, rfl, rfl, rfl, rfl, rfl, fun _ => rfl,
      fun _ _ _ => congrArg (BitVec.getLsbD · _) h.outLock⟩
  · split
    · exact enterReady_frame s
    · exact .refl s
  · have h := enableTagger_same b s.regs s.helper.refSrc true
    exact ⟨rfl, rfl, rfl, rfl, h.eicEnabled, h.irqOn, rfl, rfl, rfl, rfl, rfl, rfl, fun _ => rfl,
      fun _ _ _ => congrArg (BitVec.getLsbD · _) h.outLock⟩
  · split
    · split
      · exact ⟨rfl, rfl, rfl, rfl, rfl, rfl, rfl, rfl, rfl, rfl, rfl, rfl, fun _ => rfl,
          fun _ _ _ => rfl⟩
      · exact enterReady_frame s
    · exact .refl s
  · have h := mpllStart_same (b := b) s.hw.tics s.mpll s.regs
    obtain ⟨-, -, hid, hmin, hmax, -, hout⟩ := started_spec s.hw.tics s.mpll
    exact ⟨rfl, rfl, rfl, rfl, h.eicEnabled, h.irqOn, hid, hout, rfl, hmin, hmax, rfl, fun _ => rfl,
      fun _ _ _ => congrArg (BitVec.getLsbD · _) h.outLock⟩
  · split
    · exact enterReady_frame s
    · exact .refl s
  · split
    · exact ⟨rfl, rfl, rfl, rfl, rfl, rfl, rfl, rfl, rfl, rfl, rfl, rfl, fun _ => rfl,
        fun c hc hne => by rw [setChannelStatus_getLsbD _ _ _ hc, if_neg hne]⟩
    · exact .refl s

theorem countTag_eq :
    countTag b s source = { s with
      tagCount := (countTag b s source).tagCount, refCount := (countTag b s source).refCount } := by
  unfold countTag
  split
  · rfl
  · split
    · rfl
    · rfl

theorem sequencingFsm_eq :
    sequencingFsm b s source = sequence b { s with
      tagCount := (countTag b s source).tagCount, refCount := (countTag b s source).refCount } :=
  congrArg (sequence b) (countTag_eq s source)

theorem sequencingFsm_frame : s.SeqFrame (sequencingFsm b s source) := by
  have h := sequence_frame (b := b) (countTag b s source)
  rw [countTag_eq] at h
  rw [sequencingFsm_eq]
  exact ⟨h.mode, h.mpllShiftPs, h.hw, h.aux, h.eicEnabled, h.irqOn, h.idRef, h.idOut,
    h.refSrc, h.yMin, h.yMax, h.helperYMax, h.trackerId, h.outLock⟩

theorem spllInit_spec (mode : Mode) (ref : Nat) :
    (spllInit b s mode ref).aux = (initLoops b s mode ref).aux ∧
      (spllInit b s mode ref).seqState = (initLoops b s mode ref).seqState ∧
      (spllInit b s mode ref).delockCount = 0 := by
  cases mode with
  | disabled => exact ⟨rfl, rfl, rfl⟩
  | grandMaster =>
    simp only [spllInit]
    split
    · exact ⟨rfl, rfl, rfl⟩
    · exact ⟨rfl, rfl, rfl⟩
  | freeRunningMaster => exact ⟨rfl, rfl, rfl⟩
  | slave => exact ⟨rfl, rfl, rfl⟩

end Wrpc.SoftPll
