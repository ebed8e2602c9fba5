/-
# A slave acquires lock

The whole machine on a clean tag stream: a node in slave mode, followed from
`spll_init` until the PLL of its auxiliary output is locked.  Its channels are
0 (reference), 1 (main) and 2 (aux).

    Ready        SEQ_READY, the aux output is not enabled yet
    Following    SEQ_READY, the aux PLL counts pairs
    AuxUp        the aux PLL is locked

Up to the lock of the main PLL the node is that of `Wrpc.SoftPll.RefLock`.  From there
each phase is what holds between two tags; a step lemma takes it one tag or one pair
further, and `slave_locks` puts the phases together.
-/
import Wrpc.SoftPll.AuxChannels
import Wrpc.SoftPll.RefLock

namespace Wrpc.SoftPll

open CInt Board

/-! ## The node -/

/-- A slave locked to channel 0, with a slave on its auxiliary output and the
phase shift at 0. -/
structure Slave (s : State) : Prop extends SlaveOn 0 s where
  auxMode : (s.aux 0).mode = .slave
  auxIds : (s.aux 0).dmtd.idRef = 0 ∧ (s.aux 0).dmtd.idOut = 2
  shift : s.mpllShiftPs = 0

variable {s : State} {t : Int} {n : Nat}

theorem Slave.tag (h : Slave s) (v : Int) (source : Nat) :
    Slave (handleTag generic s v source) := by
  have hs := sequencingFsm_frame (b := generic) s source
  have hl := updateLoops_frame (b := generic) (sequencingFsm generic s source) v source
  refine ⟨h.toSlaveOn.tag v source, ?_, ⟨?_, ?_⟩, ?_⟩
  · exact ((hl.auxMode 0).trans (by rw [hs.aux])).trans h.auxMode
  · exact ((hl.aux 0).idRef.trans (by rw [hs.aux])).trans h.auxIds.1
  · exact ((hl.aux 0).idOut.trans (by rw [hs.aux])).trans h.auxIds.2
  · exact (hl.mpllShiftPs.trans hs.mpllShiftPs).trans h.shift

theorem Slave.of_auxFrame {s' : State} (h : Slave s) (hf : s.AuxFrame 1 s')
    (hids : (s'.aux 0).dmtd.idRef = 0 ∧ (s'.aux 0).dmtd.idOut = 2) : Slave s' := by
  refine ⟨⟨hf.mode.trans h.mode, ⟨hf.eicEnabled.trans h.interrupts.1, ?_⟩, ?_, ?_⟩,
    (hf.auxMode 0).trans h.auxMode, hids, hf.mpllShiftPs.trans h.shift⟩
  · exact hf.irqOn.trans h.interrupts.2
  · rw [hf.helper]
    exact h.refSrc
  · rw [hf.mpll]
    exact h.mpllIds

structure Unused (a : Aux) : Prop where
  seqState : a.seqState = .disabled
  pll : Fresh a.dmtd

/-- The helper of this node is locked and has seen tag `t`. -/
structure Held (s : State) (t : Int) : Prop extends Slave s, HeldOn 0 s t

structure Ready (s : State) (t : Int) : Prop extends Held s t where
  seqState : s.seqState = .ready
  mpll : HalfOn s.mpll t
  locked : s.mpll.locked = true
  aux : Unused (s.aux 0)

theorem handleTag_aux_of_ready (h : Slave s) {v : Int} {source : Nat}
    (hl : (handleTag generic s v source).helper.ld.locked = true)
    (hs : (sequencingFsm generic s source).seqState = .ready) :
    ∃ reverseSpll tics r, (handleTag generic s v source).aux 0 = { s.aux 0 with
      dmtd := (mpllUpdate generic reverseSpll tics (s.aux 0).dmtd r v source).main } := by
  have hf := sequencingFsm_frame (b := generic) s source
  have hm : ((sequencingFsm generic s source).aux 0).mode = .slave := by
    rw [hf.aux]
    exact h.auxMode
  have haux := updateLoops_aux (b := generic) hl hs (hf.mode.trans h.mode) hm (by decide)
  rw [hf.aux] at haux
  exact ⟨_, _, _, haux⟩

theorem LockingOn.ready (h : LockingOn 0 s t .waitMain MainOn 1049) (hs : Slave s)
    (haux : Unused (s.aux 0)) : Ready (handleTag generic s (nextTag t) 0) (nextTag t) := by
  have hon := h.ref (by decide)
  rw [if_neg (by decide)] at hon
  have hready : (sequencingFsm generic s 0).seqState = .ready := by
    rw [← handleTag_seqState, hon.seqState]
  obtain ⟨_, _, _, hupdate⟩ := handleTag_aux_of_ready hs hon.locked hready
  refine ⟨⟨hs.tag _ _, hon.helper⟩, hon.seqState, hon.mpll, hon.pairs.locked_eq, ?_⟩
  rw [hupdate, mpllUpdate_of_disabled _ _ haux.pll.disabled]
  exact haux

/-! ## The aux PLL locks -/

/-- A ready slave whose aux output is enabled: the main PLL is locked and its oscillator silent. -/
structure Serving (s : State) : Prop extends Slave s where
  seqState : s.seqState = .ready
  mpll : Quiet s.mpll
  locked : s.mpll.locked = true
  enabled : auxLockingEnabled s.hw 1 = true

/-- The PLL of an aux channel has counted `n` pairs; `P` says where it is in the next one. -/
structure Aux.LockingOn (a : Aux) (P : Main → Prop) (n : Nat) : Prop where
  seqState : a.seqState = .lockPll
  pll : P a.dmtd
  pairs : Pairs a.dmtd n
  target : a.dmtd.phaseShiftTarget = 0

/-- `P` and `n` are those of the aux PLL. -/
structure Following (s : State) (t : Int) (P : Main → Prop) (n : Nat) : Prop extends
    Serving s, Held s t where
  aux : (s.aux 0).LockingOn P n

theorem handleTag_hw (s : State) (v : Int) (source : Nat) :
    (handleTag generic s v source).hw = s.hw :=
  (updateLoops_frame _ v source).hw.trans (sequencingFsm_frame s source).hw

theorem Serving.tag (h : Serving s) (hh : s.helper.ld.locked = true) {v : Int} {source : Nat}
    (hne : source ≠ 1) (hl : (handleTag generic s v source).helper.ld.locked = true) :
    Serving (handleTag generic s v source) ∧
      ∃ reverseSpll tics r, (handleTag generic s v source).aux 0 = { s.aux 0 with
        dmtd := (mpllUpdate generic reverseSpll tics (s.aux 0).dmtd r v source).main } := by
  have hstill := sequencingFsm_still (b := generic) (.ready h.seqState h.mode hh h.locked) source
  have hmpll : (handleTag generic s v source).mpll = _ := updateLoops_mpll hl
  rw [hstill] at hmpll
  obtain ⟨hsame, hq⟩ := h.mpll.other (b := generic) rfl (by rw [h.mpllIds.2]; exact hne)
    s.reverseSpll s.hw.tics s.regs v
  rw [← hmpll] at hsame hq
  have hready : (sequencingFsm generic s source).seqState = .ready := by
    rw [hstill]
    exact h.seqState
  refine ⟨⟨h.toSlave.tag v source, ?_, hq, hsame.locked.trans h.locked, ?_⟩,
    handleTag_aux_of_ready h.toSlave hl hready⟩
  · rw [handleTag_seqState, hready]
  · rw [handleTag_hw]
    exact h.enabled

theorem Slave.auxIds_ne (h : Slave s) : (s.aux 0).dmtd.idRef ≠ (s.aux 0).dmtd.idOut := by
  rw [h.auxIds.1, h.auxIds.2]
  nofun

theorem Following.out (h : Following s t (HalfOn · t) n) :
    Following (handleTag generic s t 2) t MainOn (n + 1) := by
  have hheld := h.toHeldOn.other (by rw [h.seqState]; decide) t (by decide : 2 ≠ 0)
  obtain ⟨hserving, rev, tics, r, haux⟩ := h.toServing.tag h.toHeldOn.locked (by decide)
    hheld.locked
  have hout := h.aux.pll.out (b := generic) rfl h.auxIds_ne h.aux.pairs rev tics r
  have hfix := mpllUpdate_fixed generic (s.aux 0).dmtd t 2 tics rev r
  rw [h.auxIds.2] at hout
  refine ⟨hserving, hheld.helper, ?_⟩
  rw [haux]
  exact ⟨h.aux.seqState, hout.1, hout.2, hfix.target.trans h.aux.target⟩

theorem Following.ref (h : Following s t MainOn n) :
    Following (handleTag generic s (nextTag t) 0) (nextTag t) (HalfOn · (nextTag t)) n := by
  have hheld := h.toHeldOn.ref (by rw [h.seqState]; decide)
  obtain ⟨hserving, rev, tics, r, haux⟩ := h.toServing.tag h.toHeldOn.locked (by decide)
    hheld.locked
  have hne := h.auxIds_ne
  have hhalf := h.aux.pll.ref (b := generic) rfl hne rev tics r (nextTag_range t).1
  have hsame := (h.aux.pll.quiet.other (b := generic) rfl hne rev tics r (nextTag t)).1
  rw [h.auxIds.1] at hhalf hsame
  refine ⟨hserving, hheld.helper, ?_⟩
  rw [haux]
  exact ⟨h.aux.seqState, hhalf, h.aux.pairs.of_sameLoop hsame, hsame.target.trans h.aux.target⟩

theorem spllUpdateAuxClock_starts (hs : s.seqState = .ready) (hl : s.mpll.locked = true)
    (hen : auxLockingEnabled s.hw 1 = true) (hm : (s.aux 0).mode = .slave)
    (ha : (s.aux 0).seqState = .disabled) :
    (spllUpdateAuxClock generic s 1).1.aux 0 = { s.aux 0 with
      dmtd := (s.aux 0).dmtd.started generic s.hw.tics, seqState := .lockPll } := by
  have hstart : ∃ s', spllStartChannel generic s 1 = some s' := by
    unfold spllStartChannel
    rw [if_neg (by rw [hs]; simp)]
    exact ⟨_, rfl⟩
  obtain ⟨s', hstart⟩ := hstart
  have haux := (spllStartChannel_spec hstart).2
  have hturn : (spllUpdateAuxClock generic s 1).1
      = s'.setAux 0 { s'.aux 0 with seqState := .lockPll } := by
    simp [spllUpdateAuxClock, enableAux, ha, hl, hen, hm, hstart]
  rw [hturn, State.setAux_aux, if_pos rfl, haux]
  rfl

theorem Serving.of_auxFrame {s' : State} (h : Serving s) (hf : s.AuxFrame 1 s')
    (hids : (s'.aux 0).dmtd.idRef = 0 ∧ (s'.aux 0).dmtd.idOut = 2) : Serving s' := by
  refine ⟨h.toSlave.of_auxFrame hf hids, hf.seqState.trans h.seqState, ?_, ?_, ?_⟩
  · rw [hf.mpll]
    exact h.mpll
  · rw [hf.mpll]
    exact h.locked
  · rw [hf.hw]
    exact h.enabled

theorem Ready.enable (h : Ready s t) (hen : auxLockingEnabled s.hw 1 = true) :
    Following (spllUpdate generic s).1 t MainOn 0 := by
  have haux := spllUpdateAuxClock_starts h.seqState h.locked hen h.auxMode h.aux.seqState
  have hf : s.AuxFrame 1 (spllUpdateAuxClock generic s 1).1 :=
    spllUpdateAuxClock_auxFrame s (by decide)
  have hserving : Serving s := ⟨h.toSlave, h.seqState, h.mpll.quiet, h.locked, hen⟩
  obtain ⟨hon, hpairs⟩ := h.aux.pll.start (b := generic) s.hw.tics
  obtain ⟨-, htarget, href, -, -, -, hout⟩ := started_spec (b := generic) s.hw.tics (s.aux 0).dmtd
  rw [spllUpdate_generic h.mode]
  generalize (spllUpdateAuxClock generic s 1).1 = s' at haux hf
  refine ⟨hserving.of_auxFrame hf ?_, ?_, ?_⟩
  · rw [haux]
    exact ⟨href.trans h.auxIds.1, hout.trans h.auxIds.2⟩
  · rw [hf.helper]
    exact h.helper
  · rw [haux]
    exact ⟨rfl, hon, hpairs, htarget⟩

/-! ## Alignment -/

/-- The PLL of an aux channel is locked and its oscillator silent; its machine is in `q`. -/
structure Aux.Up (a : Aux) (q : AuxSeq) : Prop where
  seqState : a.seqState = q
  pll : Quiet a.dmtd
  locked : a.dmtd.phaseLd.locked = true
  target : a.dmtd.phaseShiftTarget = 0
  current : a.dmtd.phaseShiftCurrent = 0

/-- The main and the aux PLL are locked; the machine of the aux channel is in `q`. -/
structure AuxUp (s : State) (q : AuxSeq) : Prop extends Serving s where
  aux : (s.aux 0).Up q

theorem AuxUp.of_auxFrame {q q' : AuxSeq} {s' : State} (h : AuxUp s q) (hf : s.AuxFrame 1 s')
    (haux : s'.aux 0 = { s.aux 0 with seqState := q' }) : AuxUp s' q' := by
  refine ⟨h.toServing.of_auxFrame hf (by rw [haux]; exact h.auxIds), ?_⟩
  rw [haux]
  exact ⟨rfl, h.aux.pll, h.aux.locked, h.aux.target, h.aux.current⟩

theorem Following.auxUp (h : Following s t (HalfOn · t) n) (hn : 1049 ≤ n) : AuxUp s .lockPll := by
  have hl : (s.aux 0).dmtd.phaseLd.locked = true := by
    rw [← h.aux.pairs.locked, h.aux.pairs.locked_eq]
    exact decide_eq_true hn
  exact ⟨h.toServing, h.aux.seqState, h.aux.pll.quiet, hl, h.aux.target,
    h.aux.pll.shift.symm.trans h.aux.target⟩

theorem AuxUp.align (h : AuxUp s .lockPll) : AuxUp (spllUpdate generic s).1 .alignPhase := by
  have hf : s.AuxFrame 1 (spllUpdateAuxClock generic s 1).1 :=
    spllUpdateAuxClock_auxFrame s (by decide)
  have htarget : mpllSetPhaseShift generic (s.aux 0).dmtd s.mpllShiftPs = (s.aux 0).dmtd := by
    have h0 : phaseTarget generic 0 = (s.aux 0).dmtd.phaseShiftTarget := by
      rw [h.aux.target]
      decide
    unfold mpllSetPhaseShift
    rw [h.shift, h0]
  have haux : (spllUpdateAuxClock generic s 1).1.aux 0 =
      { s.aux 0 with seqState := .alignPhase } := by
    simp [spllUpdateAuxClock, h.aux.seqState, h.enabled, h.aux.locked, setPhaseShift,
      State.setAux, htarget]
  rw [spllUpdate_generic h.mode]
  exact h.of_auxFrame hf haux

theorem AuxUp.report (h : AuxUp s .alignPhase) :
    AuxUp (spllUpdate generic s).1 .slaveReady ∧
      (spllUpdate generic s).1.regs.outLock.getLsbD 1 = true := by
  have hbusy : mpllShifterBusy (s.aux 0).dmtd = false := by
    unfold mpllShifterBusy
    rw [h.aux.target, h.aux.current]
    rfl
  have haux : (spllUpdateAuxClock generic s 1).1.aux 0 =
      { s.aux 0 with seqState := .slaveReady } := by
    simp [spllUpdateAuxClock, h.aux.seqState, h.enabled, hbusy, State.setAux]
  have hregs : (spllUpdateAuxClock generic s 1).1.regs = setChannelStatus s.regs 1 true := by
    simp [spllUpdateAuxClock, h.aux.seqState, h.enabled, hbusy]
  have hf : s.AuxFrame 1 (spllUpdateAuxClock generic s 1).1 :=
    spllUpdateAuxClock_auxFrame s (by decide)
  rw [spllUpdate_generic h.mode]
  refine ⟨h.of_auxFrame hf haux, ?_⟩
  rw [hregs, setChannelStatus_getLsbD _ _ _ (by decide), if_pos rfl]

/-! ## The run -/

theorem Slave.step_tag (h : Slave s) {source : Nat} (hs : source < 2 ^ 7) (k : Nat) :
    s.step generic (tagEvent source (period k)) = handleTag generic s (period k) source :=
  step_tagEvent h.interrupts hs (period_range k)

theorem Following.run {k i : Nat} (h : Following s (period k) (HalfOn · (period k)) i) :
    Following (Run.run (State.step generic) s (pairTagsOn 2 0 k n)) (period (k + n))
      (HalfOn · (period (k + n))) (i + n) := by
  induction n generalizing s k i with
  | zero => exact h
  | succ n ih =>
    have hout := h.out
    have href := hout.ref
    rw [nextTag_period, ← hout.step_tag (by decide), ← h.step_tag (by decide)] at href
    have hrun := ih href
    rw [show k + (n + 1) = k + 1 + n by omega, show i + (n + 1) = i + 1 + n by omega]
    exact hrun

theorem LockingOn.ready_run {k : Nat} (h : LockingOn 0 s (period k) .waitMain MainOn 1049)
    (hs : Slave s) (haux : Unused (s.aux 0)) :
    Ready (Run.run (State.step generic) s [tagEvent 0 (period (k + 1))]) (period (k + 1)) := by
  have hready := h.ready hs haux
  rw [nextTag_period, ← h.step_tag (by decide)] at hready
  exact hready

/-- The aux output is enabled, `spll_update` starts its PLL and the next reference
tag reaches it. -/
def enableEvents (k : Nat) : List Event :=
  [.hw { (default : Hw) with outEn := 2 }, .update, tagEvent 0 (period (k + 1))]

theorem Ready.follow {k : Nat} (h : Ready s (period k)) :
    Following (Run.run (State.step generic) s (enableEvents k)) (period (k + 1))
      (HalfOn · (period (k + 1))) 0 := by
  have hbit : auxLockingEnabled { (default : Hw) with outEn := 2 } 1 = true := by decide
  -- the hardware inputs are no part of being ready
  have hhw : Ready { s with hw := { (default : Hw) with outEn := 2 } } (period k) :=
    ⟨⟨⟨⟨h.mode, h.interrupts, h.refSrc, h.mpllIds⟩, h.auxMode, h.auxIds, h.shift⟩, h.helper⟩,
      h.seqState, h.mpll, h.locked, h.aux⟩
  have hen := hhw.enable hbit
  have href := hen.ref
  rw [nextTag_period, ← hen.step_tag (by decide)] at href
  exact href

/-- The clean tag stream up to the lock of the main PLL, the tag that takes the sequencer to
`SEQ_READY`, and the pairs of the aux PLL. -/
def slaveEvents : List Event :=
  wakeEvents ++ lockEvents 0 9999 1048 ++ [tagEvent 0 (period 11050)] ++ enableEvents 11050 ++
    pairTagsOn 2 0 11051 1049

theorem slaveEvents_forall {P : Event → Prop} (htag : ∀ source p, P (tagEvent source (period p)))
    (hhw : ∀ h, P (.hw h)) (hupdate : P .update) : ∀ e ∈ slaveEvents, P e := by
  have hheard : ∀ {out k : Nat} {e : Event}, Heard out k e → P e := by
    rintro out k e ⟨source, p, -, rfl⟩
    exact htag source p
  simp only [slaveEvents, wakeEvents, enableEvents, List.forall_mem_append, List.forall_mem_cons]
  exact ⟨⟨⟨⟨⟨htag 1 0, hhw _, htag 1 0, List.forall_mem_nil _⟩,
    fun e he => hheard (lockEvents_heard e he)⟩, htag 0 _, List.forall_mem_nil _⟩, hhw _, hupdate,
    htag 0 _, List.forall_mem_nil _⟩, fun e he => hheard (pairTagsOn_heard _ e he)⟩

/-- **A slave on a clean tag stream locks**: helper, main PLL and the PLL of its
aux output. -/
theorem slave_locks :
    Following (Run.run (State.step generic)
      (spllInit generic (State.boot generic 1) .slave 0) slaveEvents) (period 12100)
        (HalfOn · (period 12100)) 1049 := by
  have hwaking := spllInit_waking (s := State.boot generic 1) 0 rfl ⟨rfl, rfl⟩ rfl rfl
  obtain ⟨hwoken, haside⟩ := hwaking.run (by decide) rfl
  obtain ⟨hlocked, haside'⟩ := hwoken.locks (n := 9999) (m := 1048) (by decide) (by decide) rfl rfl
  replace haside := haside.trans haside'
  have haux := congrFun haside.aux 0
  have hslave : Slave _ :=
    ⟨hlocked.toSlaveOn, by rw [haux]; rfl, by rw [haux]; exact ⟨rfl, rfl⟩, haside.mpllShiftPs⟩
  have hunused : Unused ((spllInit generic (State.boot generic 1) .slave 0).aux 0) :=
    ⟨rfl, rfl, rfl, by decide, by decide, rfl⟩
  have hfollow := (hlocked.ready_run hslave (by rw [haux]; exact hunused)).follow.run (n := 1049)
  simp only [slaveEvents, Run.run_append]
  exact hfollow

theorem AuxUp.polls (h : AuxUp s .lockPll) :
    AuxUp (Run.run (State.step generic) s [.update, .update]) .slaveReady ∧
      (Run.run (State.step generic) s [.update, .update]).regs.outLock.getLsbD 1 = true :=
  h.align.report

def reportEvents : List Event := slaveEvents ++ [.update, .update]

/-- Two polls later the aux channel is ready, and says so. -/
theorem slave_reports :
    AuxUp (Run.run (State.step generic) (spllInit generic (State.boot generic 1) .slave 0)
        reportEvents) .slaveReady ∧
      (Run.run (State.step generic) (spllInit generic (State.boot generic 1) .slave 0)
        reportEvents).regs.outLock.getLsbD 1 = true := by
  simp only [reportEvents, Run.run_append]
  exact (slave_locks.auxUp (by decide)).polls

end Wrpc.SoftPll
