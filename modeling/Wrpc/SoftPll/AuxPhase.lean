/-
# Do the aux outputs follow the phase setpoint?

`spll_set_phase_shift(SPLL_ALL_CHANNELS, v)` moves the main PLL and the channels
in `AUX_SLAVE_READY`; a channel that locks later is given `mpll_shift_ps` on its
way from `AUX_LOCK_PLL` to `AUX_ALIGN_PHASE`.  Between that step and
`AUX_SLAVE_READY` a channel is reached by neither, and a restart of the main PLL
puts its target back to 0 without telling anybody.
-/
import Wrpc.SoftPll.Acquisition

namespace Wrpc.SoftPll

open CInt Board

/-- A slave channel that is ready has the target of the main PLL. -/
def TargetsFollow (b : Board) (s : State) : Prop :=
  ∀ ch, 1 ≤ ch → ch < b.nChanOut → (s.aux (ch - 1)).mode = .slave →
    (s.aux (ch - 1)).seqState = .slaveReady →
      (s.aux (ch - 1)).dmtd.phaseShiftTarget = s.mpll.phaseShiftTarget

/-- Phase shifts are requested for all channels at once, and nobody initialises
the SoftPLL again. -/
def OnlyBroadcasts : Event → Prop
  | .setPhaseShift (some _) _ => False
  | .init _ _ => False
  | _ => True

/-- The condition on a step: a poll that ends the alignment of a channel finds it
with the target the main PLL has now, and the main PLL is not restarted while a
channel is ready with another target than 0. -/
def FollowOk (b : Board) (s : State) : Event → Prop
  | .update =>
    ∀ ch, 1 ≤ ch → ch < b.nChanOut → (s.aux (ch - 1)).mode = .slave →
      (s.aux (ch - 1)).seqState = .alignPhase → auxLockingEnabled s.hw ch = true →
        mpllShifterBusy (s.aux (ch - 1)).dmtd = false →
          (s.aux (ch - 1)).dmtd.phaseShiftTarget = s.mpll.phaseShiftTarget
  | .tag _ =>
    s.regs.eicEnabled = true ∧ s.regs.irqOn = true → s.seqState = .startMain →
      ∀ ch, 1 ≤ ch → ch < b.nChanOut → (s.aux (ch - 1)).mode = .slave →
        (s.aux (ch - 1)).seqState = .slaveReady → (s.aux (ch - 1)).dmtd.phaseShiftTarget = 0
  | _ => True

/-! ## The invariant -/

def Aux.Unlocked (a : Aux) : Prop :=
  a.seqState = .disabled ∨ a.seqState = .lockPll ∧ a.dmtd.phaseLd.locked = false

def FollowInv (b : Board) (s : State) : Prop :=
  ∀ ch, 1 ≤ ch → ch < b.nChanOut → (s.aux (ch - 1)).mode = .slave →
    SlaveOk s ch ∧ (s.mode ≠ .slave → (s.aux (ch - 1)).Unlocked)

variable {b : Board} {s : State}

theorem FollowInv.congr {s' : State} (hI : FollowInv b s) (hmode : s'.mode = s.mode)
    (hmodes : ∀ i, (s'.aux i).mode = (s.aux i).mode)
    (hseq : ∀ i, (s'.aux i).seqState = (s.aux i).seqState)
    (hld : ∀ i, s.mode ≠ .slave → (s.aux i).mode = .slave →
      (s'.aux i).dmtd.phaseLd = (s.aux i).dmtd.phaseLd) : FollowInv b s' := by
  intro ch hpos hch hslave
  rw [hmodes] at hslave
  obtain ⟨hok, hidle⟩ := hI ch hpos hch hslave
  refine ⟨⟨(hmodes _).trans hslave, by rw [hseq]; exact hok.states⟩, ?_⟩
  intro hm
  rw [hmode] at hm
  unfold Aux.Unlocked
  rw [hseq, hld _ hm hslave]
  exact hidle hm

theorem spllInit_disabled (s : State) (mode : Mode) (ref : Nat) {ch : Nat} (hpos : 1 ≤ ch)
    (hch : ch < b.nChanOut) : ((spllInit b s mode ref).aux (ch - 1)).seqState = .disabled := by
  have haux : (initLoops b s mode ref).aux (ch - 1) = { s.aux (ch - 1) with
      dmtd := mpllInit b false (s.aux (ch - 1)).dmtd ref (b.nChanRef + (ch - 1) + 1)
      seqState := .disabled } :=
    if_pos (by omega)
  rw [(spllInit_spec s mode ref).1, haux]

theorem spllInit_followInv (s : State) (mode : Mode) (ref : Nat) :
    FollowInv b (spllInit b s mode ref) := by
  intro ch hpos hch hslave
  have hseq := spllInit_disabled s mode ref hpos hch
  exact ⟨⟨hslave, Or.inl hseq⟩, fun _ => Or.inl hseq⟩

theorem handleTag_followInv (hI : FollowInv b s) (tag : Int) (source : Nat) :
    FollowInv b (handleTag b s tag source) := by
  have hs := sequencingFsm_frame (b := b) s source
  have hl := updateLoops_frame (b := b) (sequencingFsm b s source) tag source
  refine hI.congr (hl.mode.trans hs.mode) ?_ ?_ ?_
  · intro i
    exact (hl.auxMode i).trans (by rw [hs.aux])
  · intro i
    exact (hl.auxSeq i).trans (by rw [hs.aux])
  · intro i hm hslave
    have hidle : ((handleTag b s tag source).aux i) = (sequencingFsm b s source).aux i :=
      updateLoops_aux_of_idle (Or.inr (by rw [hs.mode]; exact hm)) (by rw [hs.aux]; exact hslave)
    rw [hidle, hs.aux]

theorem spllUpdate_followInv (hI : FollowInv b s) : FollowInv b (spllUpdate b s).1 := by
  have halign := alignPoll_alignFrame (b := b) s
  have hpoll := spllUpdate_pollFrame (b := b) s
  intro ch hpos hch hslave
  rw [spllUpdate_mode] at hslave
  obtain ⟨hok, hidle⟩ := hI ch hpos hch hslave
  have hturn := spllUpdate_turn hpos hch hok
  refine ⟨hturn.toSlaveOk, ?_⟩
  intro hm
  rw [hpoll.mode] at hm
  -- outside slave mode no transition beyond `lockPll` can be taken
  have hbefore := hidle hm
  rw [← halign.aux] at hbefore
  have hno : ∀ {q : AuxSeq}, ((alignPoll b s).1.aux (ch - 1)).seqState = q →
      q ≠ .alignPhase ∧ q ≠ .slaveReady := by
    rintro q rfl
    rcases hbefore with h | ⟨h, -⟩ <;> rw [h] <;> exact ⟨nofun, nofun⟩
  rcases hturn.states with h | h | h | h
  · exact Or.inl h
  · rcases hturn.locks h with ⟨hlock, hsame⟩ | hun
    · rcases hbefore with hd | ⟨-, hun⟩
      · rw [hd] at hlock
        cases hlock
      · exact Or.inr ⟨h, by rw [hsame]; exact hun⟩
    · exact Or.inr ⟨h, hun⟩
  · rcases hturn.aligns h with ⟨ha, -⟩ | ⟨hlock, -, hlocked, -⟩
    · exact absurd rfl (hno ha).1
    · rcases hbefore with hd | ⟨-, hun⟩
      · rw [hd] at hlock
        cases hlock
      · rw [hun] at hlocked
        cases hlocked
  · obtain ⟨-, ⟨hr, -⟩ | ⟨ha, -⟩⟩ := hturn.ready.mp h
    · exact absurd rfl (hno hr).2
    · exact absurd rfl (hno ha).1

theorem step_followInv {e : Event} (hI : FollowInv b s) (he : OnlyBroadcasts e) :
    FollowInv b (s.step b e) := by
  refine State.step_rule s e (fun _ _ _ => handleTag_followInv hI _ _) (spllUpdate_followInv hI)
    ?_ ?_ ?_
  · intro channel ps
    obtain ⟨_, _, _, h⟩ := spllSetPhaseShift_shifted s channel ps
    rw [h]
    exact hI.congr rfl (fun _ => rfl) (fun _ => rfl) fun _ _ _ => rfl
  · rintro mode ref rfl
    exact he.elim
  · exact fun _ _ _ _ => hI.congr rfl (fun _ => rfl) (fun _ => rfl) fun _ _ _ => rfl

/-! ## What a step does to the targets -/

theorem sequencingFsm_target (s : State) (source : Nat) :
    (sequencingFsm b s source).mpll.phaseShiftTarget
      = if s.seqState = .startMain then 0 else s.mpll.phaseShiftTarget := by
  have hstart := (started_spec (b := b) s.hw.tics s.mpll).2.1
  rw [sequencingFsm_eq]
  unfold sequence enterReady startPtrackers clearDacs externalStart mpllStart
  grind

theorem handleTag_follows_iff (hQ : TargetsFollow b s) (tag : Int) (source : Nat) :
    TargetsFollow b (handleTag b s tag source) ↔
      (s.seqState = .startMain → ∀ ch, 1 ≤ ch → ch < b.nChanOut → (s.aux (ch - 1)).mode = .slave →
        (s.aux (ch - 1)).seqState = .slaveReady → (s.aux (ch - 1)).dmtd.phaseShiftTarget = 0) := by
  have hs := sequencingFsm_frame (b := b) s source
  have hl := updateLoops_frame (b := b) (sequencingFsm b s source) tag source
  have hmodes : ∀ i, ((handleTag b s tag source).aux i).mode = (s.aux i).mode := fun i =>
    (hl.auxMode i).trans (by rw [hs.aux])
  have hseqs : ∀ i, ((handleTag b s tag source).aux i).seqState = (s.aux i).seqState := fun i =>
    (hl.auxSeq i).trans (by rw [hs.aux])
  have hauxs : ∀ i, ((handleTag b s tag source).aux i).dmtd.phaseShiftTarget
      = (s.aux i).dmtd.phaseShiftTarget := fun i => (hl.aux i).target.trans (by rw [hs.aux])
  have hmain : (handleTag b s tag source).mpll.phaseShiftTarget
      = if s.seqState = .startMain then 0 else s.mpll.phaseShiftTarget :=
    hl.mpll.target.trans (sequencingFsm_target s source)
  unfold TargetsFollow
  simp only [hmodes, hseqs, hauxs, hmain]
  by_cases hstart : s.seqState = .startMain
  · simp [hstart]
  · simp only [if_neg hstart]
    exact ⟨fun _ h => absurd h hstart, fun _ => hQ⟩

theorem spllUpdate_follows_iff (hI : FollowInv b s) (hQ : TargetsFollow b s) :
    TargetsFollow b (spllUpdate b s).1 ↔ FollowOk b s .update := by
  by_cases hm : s.mode = .slave
  · have hmpll := spllUpdate_slave_mpll (b := b) hm
    have hturn : ∀ ch, 1 ≤ ch → ch < b.nChanOut → (s.aux (ch - 1)).mode = .slave →
        SlaveTurn b s (spllUpdate b s).1 ch := fun ch hpos hch hslave =>
      spllUpdate_slave_turn hm hpos hch (hI ch hpos hch hslave).1
    constructor
    · intro hfollow ch hpos hch hslave ha hen hbusy
      have h := hturn ch hpos hch hslave
      have hready := h.ready.mpr ⟨hen, Or.inr ⟨ha, hbusy⟩⟩
      have heq := hfollow ch hpos hch h.mode hready
      rw [h.keeps hready, hmpll] at heq
      exact heq
    · intro hok ch hpos hch hslave hready
      rw [spllUpdate_mode] at hslave
      have h := hturn ch hpos hch hslave
      rw [h.keeps hready, hmpll]
      obtain ⟨hen, ⟨hr, -⟩ | ⟨ha, hbusy⟩⟩ := h.ready.mp hready
      · exact hQ ch hpos hch hslave hr
      · exact hok ch hpos hch hslave ha hen hbusy
  · -- outside slave mode there is neither a ready channel nor one that aligns
    have hI' := spllUpdate_followInv hI
    have hmode := (spllUpdate_pollFrame (b := b) s).mode
    constructor
    · intro _ ch hpos hch hslave ha
      rcases (hI ch hpos hch hslave).2 hm with h | ⟨h, -⟩ <;> rw [h] at ha <;> cases ha
    · intro _ ch hpos hch hslave hr
      rcases (hI' ch hpos hch hslave).2 (by rw [hmode]; exact hm) with h | ⟨h, -⟩ <;>
        rw [h] at hr <;>
        cases hr

theorem shiftIfReady_target (v : Int) (s : State) (i j : Nat) :
    ((shiftIfReady b v s i).aux j).dmtd.phaseShiftTarget
      = if j = i ∧ (s.aux i).seqState = .slaveReady then phaseTarget b v
        else (s.aux j).dmtd.phaseShiftTarget := by
  unfold shiftIfReady setPhaseShift
  split
  · next hr =>
    rw [if_neg (Nat.succ_ne_zero i), State.setAux_aux, Nat.add_sub_cancel]
    by_cases hji : j = i
    · rw [if_pos hji, if_pos ⟨hji, hr⟩]
      rfl
    · rw [if_neg hji, if_neg (fun h => hji h.1)]
  · next hr => rw [if_neg (fun h => hr h.2)]

/-- After the broadcast to the first `n` channels those that are ready have the
new target; the main PLL is not touched again. -/
theorem shiftIfReady_range (v : Int) (s : State) (n : Nat) :
    s.Shifted ((List.range n).foldl (shiftIfReady b v) s) ∧
      ((List.range n).foldl (shiftIfReady b v) s).mpll = s.mpll ∧
      ∀ i, i < n → (s.aux i).seqState = .slaveReady →
        (((List.range n).foldl (shiftIfReady b v) s).aux i).dmtd.phaseShiftTarget =
          phaseTarget b v := by
  induction n with
  | zero => exact ⟨.refl s, rfl, nofun⟩
  | succ n ih =>
    obtain ⟨hshifted, hmpll, htargets⟩ := ih
    rw [List.range_succ, List.foldl_append]
    simp only [List.foldl_cons, List.foldl_nil]
    generalize (List.range n).foldl (shiftIfReady b v) s = s' at hshifted hmpll htargets
    refine ⟨hshifted.trans (shiftIfReady_shifted v s' n), ?_, ?_⟩
    · rw [← hmpll]
      unfold shiftIfReady setPhaseShift
      split
      · rfl
      · rfl
    · intro i hi hr
      rw [shiftIfReady_target]
      split
      · rfl
      · next hne =>
        refine htargets i ?_ hr
        rcases Nat.lt_succ_iff_lt_or_eq.mp hi with hlt | heq
        · exact hlt
        · subst heq
          exact absurd ⟨rfl, (hshifted.auxSeq i).trans hr⟩ hne

theorem spllSetPhaseShift_follows (s : State) (v : Int) :
    TargetsFollow b (spllSetPhaseShift b s none v) := by
  intro ch hpos hch _ hready
  obtain ⟨hshifted, hmpll, htargets⟩ :=
    shiftIfReady_range v (setPhaseShift b s 0 v) (b.nChanOut - 1)
  have hmain : (spllSetPhaseShift b s none v).mpll.phaseShiftTarget = phaseTarget b v :=
    congrArg Main.phaseShiftTarget hmpll
  rw [hmain]
  refine htargets (ch - 1) (by omega) ?_
  exact (hshifted.auxSeq (ch - 1)).symm.trans hready

theorem step_follows_iff {e : Event} (hI : FollowInv b s) (he : OnlyBroadcasts e)
    (hQ : TargetsFollow b s) : TargetsFollow b (s.step b e) ↔ FollowOk b s e := by
  cases e with
  | tag trr =>
    simp only [State.step, FollowOk]
    split
    · next hon => rw [handleTag_follows_iff hQ, forall_prop_of_true hon]
    · next hoff => exact ⟨fun _ h => absurd h hoff, fun _ => hQ⟩
  | irqEnd =>
    simp only [State.step, FollowOk, iff_true]
    split
    · exact hQ
    · exact hQ
  | update => exact spllUpdate_follows_iff hI hQ
  | setPhaseShift channel v =>
    cases channel with
    | none => exact ⟨fun _ => trivial, fun _ => spllSetPhaseShift_follows s v⟩
    | some channel => exact he.elim
  | init mode ref => exact he.elim
  | setPsFreeze freeze => exact ⟨fun _ => trivial, fun _ => hQ⟩
  | setVcoFreeze freeze => exact ⟨fun _ => trivial, fun _ => hQ⟩
  | hw h => exact ⟨fun _ => trivial, fun _ => hQ⟩

/-- **The ready channels follow the main PLL in exactly the runs whose steps are
all `FollowOk`**, whatever the mode, the tags and the broadcasts. -/
theorem auxPhaseRun_follows_iff (b : Board) (s : State) (mode : Mode) (ref : Nat) (es : List Event)
    (hes : ∀ e ∈ es, OnlyBroadcasts e) :
    Run.Always (State.step b) (TargetsFollow b) (spllInit b s mode ref) es ↔
      Run.Steps (State.step b) (FollowOk b) (spllInit b s mode ref) es := by
  have hQ : TargetsFollow b (spllInit b s mode ref) := by
    intro ch hpos hch _ hready
    rw [spllInit_disabled s mode ref hpos hch] at hready
    cases hready
  exact Run.always_iff_steps
    (fun _ _ hI he => step_followInv hI he) (fun _ _ hI he hQ => step_follows_iff hI he hQ)
      (spllInit_followInv s mode ref) hQ (Run.steps_of_forall hes)

theorem slaveEvents_onlyBroadcasts : ∀ e ∈ slaveEvents, OnlyBroadcasts e :=
  slaveEvents_forall (fun _ _ => trivial) (fun _ => trivial) trivial

/-- The aux channel of a slave has become ready; then there is a broadcast, and another poll. -/
theorem auxPhaseRun_follows_iff_polls :
    ((Run.run (State.step generic) (spllInit generic (State.boot generic 1) .slave 0)
        reportEvents).aux 0).seqState = .slaveReady ∧
      (Run.Always (State.step generic) (TargetsFollow generic)
          (spllInit generic (State.boot generic 1) .slave 0)
          (reportEvents ++ [.setPhaseShift none 8000, .update]) ↔
        Run.Steps (State.step generic) (FollowOk generic)
          (spllInit generic (State.boot generic 1) .slave 0)
          (reportEvents ++ [.setPhaseShift none 8000, .update])) := by
  refine ⟨slave_reports.1.aux.seqState,
    auxPhaseRun_follows_iff generic (State.boot generic 1) .slave 0 _ ?_⟩
  simp only [reportEvents, List.forall_mem_append]
  exact ⟨⟨slaveEvents_onlyBroadcasts, by simp [OnlyBroadcasts]⟩, by simp [OnlyBroadcasts]⟩

/-! ## A broadcast that is missed -/

theorem spllSetPhaseShift_aligning (h : AuxUp s .alignPhase) (v : Int) :
    spllSetPhaseShift generic s none v
      = { s with mpllShiftPs := v, mpll := mpllSetPhaseShift generic s.mpll v } := by
  have hno : ¬(s.aux 0).seqState = .slaveReady := by
    rw [h.aux.seqState]
    nofun
  exact if_neg hno

theorem AuxUp.missed (h : AuxUp s .alignPhase) :
    ¬TargetsFollow generic (spllUpdate generic (spllSetPhaseShift generic s none 8000)).1 := by
  have hshift := spllSetPhaseShift_aligning h 8000
  generalize spllSetPhaseShift generic s none 8000 = s' at hshift
  have haux : s'.aux = s.aux := by rw [hshift]
  have hmode : s'.mode = .slave := by
    rw [hshift]
    exact h.mode
  have hok : SlaveOk s' 1 := by
    refine ⟨?_, Or.inr (Or.inr (Or.inl ?_))⟩
    · rw [haux]
      exact h.auxMode
    · rw [haux]
      exact h.aux.seqState
  have hconfirms : Confirms s' 1 := by
    refine ⟨?_, Or.inr ?_⟩
    · rw [hshift]
      exact h.enabled
    · unfold mpllShifterBusy
      rw [haux, h.aux.target, h.aux.current]
      exact ⟨h.aux.seqState, rfl⟩
  have hturn := spllUpdate_slave_turn (b := generic) hmode (by decide) (by decide) hok
  have hmpll := spllUpdate_slave_mpll (b := generic) hmode
  have hready := hturn.ready.mpr hconfirms
  intro hfollow
  have heq := hfollow 1 (by decide) (by decide) hturn.mode hready
  rw [hturn.keeps hready, hmpll, haux, h.aux.target, hshift] at heq
  have hne : ¬0 = phaseTarget generic 8000 := by decide
  exact hne heq

theorem AuxUp.not_always (h : AuxUp s .lockPll) :
    ¬Run.Always (State.step generic) (TargetsFollow generic) s
      [.update, .setPhaseShift none 8000, .update] :=
  fun hall => h.align.missed hall.last

/-- A slave locks; its aux channel is polled once and aligns; a phase shift of
8 ns is broadcast; the channel is polled again. -/
def missedEvents : List Event := slaveEvents ++ [.update, .setPhaseShift none 8000, .update]

/-- **A broadcast during alignment is missed**: the channel is ready with the
target 0, the main PLL has that of 8 ns. -/
theorem auxPhaseRun_missed :
    (∀ e ∈ missedEvents, OnlyBroadcasts e) ∧
      ¬Run.Always (State.step generic) (TargetsFollow generic)
        (spllInit generic (State.boot generic 1) .slave 0) missedEvents := by
  constructor
  · refine List.forall_mem_append.mpr ⟨slaveEvents_onlyBroadcasts, ?_⟩
    simp [OnlyBroadcasts]
  · intro hall
    exact (slave_locks.auxUp (by decide)).not_always hall.append

end Wrpc.SoftPll
