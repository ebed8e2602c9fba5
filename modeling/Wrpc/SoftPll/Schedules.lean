/-
# Gain schedules

A board may give the main PLL a schedule of gains (`spll_set_gain_schedule`): each time
the phase detector locks, the next stage is entered, and `mpll.locked` is raised in the
last one.

`GainsSound` says what belongs together: the stage in range, the flag with the last stage
and the detector, the gains with the stage.  Everything that changes the main PLL keeps it
except one: `mpll_init` disables the PLL and clears the detectors but not the flag
(`gainRun_sound_iff`).
-/
import Wrpc.Lib.Run
import Wrpc.SoftPll.State

namespace Wrpc.SoftPll

open CInt

/-- A schedule as the boards fill it in, its other fields in cleared memory. -/
def GainSchedule.ofStages (nStages : Int) (stages : Nat → GainStage) : GainSchedule :=
  ⟨nStages, 0, stages, false⟩

/-- `ertm14_spll_setup` and `wr2rf_spll_setup` (with 8 divider bits). -/
def ocxoStages : Nat → GainStage
  | 0 => ⟨-64000, -80, 8, 30000⟩
  | 1 => ⟨-3000, -5, 8, 10000⟩
  | _ => default

/-- `babywr_spll_setup` -/
def babywrStages : Nat → GainStage
  | 0 => ⟨-1800, -25, 12, 10000⟩
  | 1 => ⟨-3000, -5, 16, 10000⟩
  | _ => default

def boardStages : List GainStage := [ocxoStages 0, ocxoStages 1, babywrStages 0, babywrStages 1]

/-- `spll_set_gain_schedule` -/
def spllSetGainSchedule (s : State) (g : GainSchedule) : State :=
  { s with mpll := { s.mpll with gainSched := some g } }

def Pi.withGains (pi : Pi) (kp ki shift : Int) : Pi :=
    { pi with kp := kp, ki := ki, shift := shift }

def GainSchedule.setGains (g : GainSchedule) (stage : Nat) (kp ki shift : Int) : GainSchedule :=
  { g with
    stages := Function.update g.stages stage ⟨kp, ki, shift, (g.stages stage).lockSamples⟩ }

/-- `spll_set_pi_gain` for `SPLL_LOOP_MAIN` -/
def mpllSetPiGain (m : Main) (schedStage : Nat) (kp ki shift : Int) : Main :=
  match m.gainSched with
  | none => { m with pi := m.pi.withGains kp ki shift }
  | some g =>
    if (schedStage : Int) < g.nStages then
      { m with
        gainSched := some (g.setGains schedStage kp ki shift)
        pi := if g.currentStage = schedStage then m.pi.withGains kp ki shift else m.pi }
    else { m with pi := m.pi.withGains kp ki shift }

inductive GainOp
  | init (mode : Mode) (refChannel : Nat)
  | start
  | update (tag : Int) (source : Nat)
  | setPiGain (schedStage : Nat) (kp ki shift : Int)

def gainStep (b : Board) (s : State) : GainOp → State
  | .init mode refChannel => spllInit b s mode refChannel
  | .start =>
    let u := mpllStart b s.hw.tics s.mpll s.regs
    { s with mpll := u.1, regs := u.2 }
  | .update tag source => updateMain b s tag source
  | .setPiGain schedStage kp ki shift =>
      { s with mpll := mpllSetPiGain s.mpll schedStage kp ki shift }

def GainOp.InRange (nStages : Int) : GainOp → Prop
  | .setPiGain schedStage _ _ _ => (schedStage : Int) < nStages
  | _ => True

instance (nStages : Int) : DecidablePred (GainOp.InRange nStages)
  | .setPiGain schedStage _ _ _ => inferInstanceAs (Decidable ((schedStage : Int) < nStages))
  | .init _ _ | .start | .update _ _ => isTrue trivial

structure Pi.HasGains (pi : Pi) (stage : GainStage) : Prop where
  kp : pi.kp = stage.kp
  ki : pi.ki = stage.ki
  shift : pi.shift = stage.shift

structure GainsSound (m : Main) : Prop where
  scheduled : ∃ g, m.gainSched = some g ∧ 0 ≤ g.currentStage ∧ g.currentStage < g.nStages ∧
    (m.locked = true → m.enabled = true ∧ g.currentStage = g.nStages - 1 ∧
      m.phaseLd.locked = true) ∧
    (m.enabled = true → m.pi.HasGains g.stage)

/-- What holds of the schedule `g` of the PLL `m` in any run. -/
structure Scheduled (nStages : Int) (m : Main) (g : GainSchedule) : Prop where
  installed : m.gainSched = some g
  stages : g.nStages = nStages
  stage : 0 ≤ g.currentStage ∧ g.currentStage < nStages
  gains : m.enabled = true → m.pi.HasGains g.stage
  lockedD : m.enabled = true → g.lockedD = m.phaseLd.locked
  locked : m.enabled = true → m.locked = true →
    g.currentStage = nStages - 1 ∧ m.phaseLd.locked = true

theorem Scheduled.sound_iff {nStages : Int} {m : Main} {g : GainSchedule}
    (h : Scheduled nStages m g) : GainsSound m ↔ (m.locked = true → m.enabled = true) := by
  constructor
  · rintro ⟨g', -, -, -, hlocked, -⟩ hl
    exact (hlocked hl).1
  · intro henabled
    refine ⟨g, h.installed, h.stage.1, h.stages ▸ h.stage.2, fun hl => ?_, h.gains⟩
    have hl' := h.locked (henabled hl) hl
    exact ⟨henabled hl, h.stages ▸ hl'.1, hl'.2⟩

section

variable {b : Board} {nStages : Int} {m m' : Main} {g : GainSchedule}

theorem Scheduled.first (h : Scheduled nStages m g) : (0 : Int) ≤ 0 ∧ 0 < nStages :=
  ⟨Int.le_refl 0, Int.lt_of_le_of_lt h.stage.1 h.stage.2⟩

/-! ## Tags -/

structure Main.SameGains (m m' : Main) : Prop where
  enabled : m'.enabled = m.enabled
  locked : m'.locked = m.locked
  phaseLd : m'.phaseLd = m.phaseLd
  gainSched : m'.gainSched = m.gainSched
  pi : m.pi.SameSetUp m'.pi

theorem Main.SameLoop.sameGains (h : m.SameLoop m') : m.SameGains m' :=
  ⟨h.enabled, h.locked, h.phaseLd, h.gainSched, h.pi ▸ ⟨rfl, rfl, rfl, rfl, rfl, rfl, rfl⟩⟩

theorem Main.Driven.sameGains {err : Int} (h : m.Driven err m') : m.SameGains m' :=
  ⟨h.enabled, h.locked, h.phaseLd, h.gainSched, h.pi ▸ piUpdate_sameSetUp m.pi err⟩

theorem Scheduled.of_same (h : Scheduled nStages m g) (hs : m.SameGains m') :
    Scheduled nStages m' g where
  installed := hs.gainSched.trans h.installed
  stages := h.stages
  stage := h.stage
  gains he := by
    have hg := h.gains (hs.enabled ▸ he)
    exact ⟨hs.pi.kp.trans hg.kp, hs.pi.ki.trans hg.ki, hs.pi.shift.trans hg.shift⟩
  lockedD he := by
    rw [hs.phaseLd]
    exact h.lockedD (hs.enabled ▸ he)
  locked he hl := by
    rw [hs.phaseLd]
    exact h.locked (hs.enabled ▸ he) (hs.locked ▸ hl)

theorem Scheduled.detect (h : Scheduled nStages m g) (he : m.enabled = true) (tics : BitVec 32)
    (err : Int) : ∃ g', Scheduled nStages (mpllHandleGainSchedule (phaseDetect tics m err)) g' := by
  have hlockedD := h.lockedD he
  have hlocked := h.locked he
  have hgains := h.gains he
  have hsched : (phaseDetect tics m err).gainSched = some g := h.installed
  generalize hld : (phaseDetect tics m err).phaseLd.locked = l
  rw [mpllHandleGainSchedule, hsched]
  simp only [hld]
  by_cases hlost : g.lockedD = true ∧ ¬l = true
  · -- lock lost: back to the first stage
    rw [if_pos hlost]
    exact ⟨{ g with currentStage := 0, lockedD := false }, rfl, h.stages, h.first,
      fun _ => ⟨rfl, rfl, rfl⟩, fun _ => rfl, fun _ hl => (nomatch hl)⟩
  rw [if_neg hlost]
  by_cases hacquired : ¬g.lockedD = true ∧ l = true
  · rw [if_pos hacquired]
    by_cases hlast : g.currentStage = g.nStages - 1
    · -- the last stage is locked
      rw [if_pos hlast]
      exact ⟨{ g with lockedD := true }, rfl, h.stages, h.stage,
        fun _ => ⟨hgains.kp, hgains.ki, hgains.shift⟩, fun _ => (hld.trans hacquired.2).symm,
        fun _ _ => ⟨h.stages ▸ hlast, hld.trans hacquired.2⟩⟩
    · -- the next stage; the flag was not up, since the detector was not locked
      rw [if_neg hlast]
      refine ⟨{ g with currentStage := g.currentStage + 1, lockedD := false }, rfl, h.stages, ?_,
        fun _ => ⟨rfl, rfl, rfl⟩, fun _ => rfl, fun _ hl => ?_⟩
      · have hstage := h.stage
        have hstages := h.stages
        exact ⟨(by omega : 0 ≤ g.currentStage + 1), (by omega : g.currentStage + 1 < nStages)⟩
      · have hl' := (hlocked hl).2
        rw [← hlockedD] at hl'
        exact absurd hl' hacquired.1
  · rw [if_neg hacquired]
    have hsame : g.lockedD = l := by
      cases hd : g.lockedD <;> cases hl : l <;> simp_all
    refine ⟨{ g with lockedD := l }, rfl, h.stages, h.stage,
      fun _ => ⟨hgains.kp, hgains.ki, hgains.shift⟩, fun _ => hld.symm, fun _ hl => ?_⟩
    obtain ⟨hstage, hphase⟩ := hlocked hl
    exact ⟨hstage, by rw [hld, ← hsame, hlockedD, hphase]⟩

theorem Scheduled.update (h : Scheduled nStages m g) (reverseSpll : Int)
    (tics : BitVec 32) (r : Regs) (tag : Int) (source : Nat) :
    ∃ g', Scheduled nStages (mpllUpdate b reverseSpll tics m r tag source).main g' := by
  unfold mpllUpdate
  dsimp only
  split
  · exact ⟨g, h⟩
  case isFalse henabled =>
    have htag := takeTag_sameLoop b m tag source
    split
    · -- a pair: controller, shifter, detectors
      have hdet := (htag.trans (discardEarly_sameLoop b _)).sameGains
      have h' : Scheduled nStages (detected b tics (takeTag b m tag source)) g :=
        h.of_same ⟨hdet.enabled, hdet.locked, hdet.phaseLd, hdet.gainSched, hdet.pi⟩
      have he : (detected b tics (takeTag b m tag source)).enabled = true :=
        hdet.enabled.trans (not_not.mp henabled)
      simp only [processPair]
      generalize pairError _ _ = err
      have hctl := shifted_driven (detected b tics (takeTag b m tag source)) reverseSpll err
      simp only [control]
      split
      · exact (h'.of_same hctl.sameGains).detect (hctl.enabled.trans he) tics err
      · exact ⟨g, h'.of_same hctl.sameGains⟩
    · exact ⟨g, h.of_same htag.sameGains⟩

theorem Scheduled.start (h : Scheduled nStages m g) (tics : BitVec 32) :
    ∃ g', Scheduled nStages (m.started b tics) g' ∧ (m.started b tics).locked = false := by
  refine ⟨{ g with currentStage := 0, lockedD := false }, ?_, ?_⟩
  · simp only [Main.started, startGainSchedule, h.installed]
    exact ⟨rfl, h.stages, h.first, fun _ => ⟨rfl, rfl, rfl⟩, fun _ => rfl, fun _ hl => (nomatch hl)⟩
  · simp only [Main.started, startGainSchedule, h.installed]

theorem Scheduled.init (h : Scheduled nStages m g) (first : Bool) (idRef idOut : Nat) :
    ∃ g', Scheduled nStages (mpllInit b first m idRef idOut) g' := by
  refine ⟨{ g with currentStage := 0, lockedD := false }, ?_, h.stages, h.first,
    fun he => (nomatch he), fun he => (nomatch he), fun he => (nomatch he)⟩
  simp [mpllInit, h.installed]

theorem Scheduled.spllInit {s : State} (h : Scheduled nStages s.mpll g) (mode : Mode) (ref : Nat) :
    (∃ g', Scheduled nStages (spllInit b s mode ref).mpll g') ∧
      (spllInit b s mode ref).mpll.locked = s.mpll.locked ∧
      (spllInit b s mode ref).mpll.enabled = false := by
  have honce := h.init (b := b) s.mpllFirst ref b.nChanRef
  cases mode with
  | disabled | freeRunningMaster | slave => exact ⟨honce, rfl, rfl⟩
  | grandMaster =>
    simp only [SoftPll.spllInit]
    split
    · obtain ⟨g', hg'⟩ := honce
      exact ⟨hg'.init (b := b) _ _ _, rfl, rfl⟩
    · exact ⟨honce, rfl, rfl⟩

theorem setGains_stage (h : 0 ≤ g.currentStage) (schedStage : Nat) (kp ki shift : Int) :
    (g.setGains schedStage kp ki shift).stage =
      if g.currentStage = schedStage then ⟨kp, ki, shift, g.stage.lockSamples⟩ else g.stage := by
  simp only [GainSchedule.stage, GainSchedule.setGains, Function.update_apply]
  by_cases hstage : g.currentStage = schedStage
  · have hnat : g.currentStage.toNat = schedStage := by omega
    rw [if_pos hstage, if_pos hnat, hnat]
  · rw [if_neg hstage, if_neg (by omega)]

theorem Scheduled.setPiGain (h : Scheduled nStages m g) {schedStage : Nat}
    (hrange : (schedStage : Int) < nStages) (kp ki shift : Int) :
    (∃ g', Scheduled nStages (mpllSetPiGain m schedStage kp ki shift) g') ∧
      (mpllSetPiGain m schedStage kp ki shift).locked = m.locked ∧
      (mpllSetPiGain m schedStage kp ki shift).enabled = m.enabled := by
  rw [mpllSetPiGain, h.installed]
  simp only
  rw [if_pos (h.stages.symm ▸ hrange)]
  refine ⟨⟨g.setGains schedStage kp ki shift, rfl, h.stages, h.stage, fun he => ?_, h.lockedD,
    h.locked⟩, rfl, rfl⟩
  rw [setGains_stage h.stage.1]
  by_cases hstage : g.currentStage = schedStage
  · rw [if_pos hstage, if_pos hstage]
    exact ⟨rfl, rfl, rfl⟩
  · rw [if_neg hstage, if_neg hstage]
    exact h.gains he

/-! ## Runs -/

def KeepsFlag (s : State) : GainOp → Prop
  | .init _ _ => s.mpll.locked = false
  | _ => True

instance (s : State) : DecidablePred (KeepsFlag s)
  | .init _ _ => inferInstanceAs (Decidable (s.mpll.locked = false))
  | .start | .update _ _ | .setPiGain _ _ _ _ => isTrue trivial

theorem Scheduled.step {s : State} (h : Scheduled nStages s.mpll g) {op : GainOp}
    (hrange : op.InRange nStages) : ∃ g', Scheduled nStages (gainStep b s op).mpll g' := by
  cases op with
  | init mode ref => exact (h.spllInit mode ref).1
  | start =>
    obtain ⟨g', hg', -⟩ := h.start s.hw.tics
    exact ⟨g', hg'⟩
  | update tag source => exact h.update s.reverseSpll s.hw.tics s.regs tag source
  | setPiGain schedStage kp ki shift => exact (h.setPiGain hrange kp ki shift).1

theorem Scheduled.step_sound_iff {s : State} (h : Scheduled nStages s.mpll g) {op : GainOp}
    (hrange : op.InRange nStages) (hsound : GainsSound s.mpll) :
    GainsSound (gainStep b s op).mpll ↔ KeepsFlag s op := by
  obtain ⟨g', hg'⟩ := h.step hrange
  have hflag := h.sound_iff.mp hsound
  rw [hg'.sound_iff]
  cases op with
  | init mode ref =>
    obtain ⟨-, hlocked, henabled⟩ := h.spllInit mode ref
    have hoff : (gainStep b s (.init mode ref)).mpll.enabled = false := henabled
    have hkept : (gainStep b s (.init mode ref)).mpll.locked = s.mpll.locked := hlocked
    rw [hoff, hkept, KeepsFlag, Bool.eq_false_iff]
    exact ⟨fun himp hl => Bool.false_ne_true (himp hl), fun hne hl => absurd hl hne⟩
  | start =>
    obtain ⟨-, -, hlocked⟩ := h.start s.hw.tics
    exact iff_of_true (fun hl => absurd (hlocked.symm.trans hl) Bool.false_ne_true) trivial
  | update tag source =>
    refine iff_of_true (fun hl => ?_) trivial
    have hfixed := mpllUpdate_fixed b s.mpll tag source s.hw.tics s.reverseSpll s.regs
    refine hfixed.enabled.trans ?_
    by_contra hoff
    have hsame : (gainStep b s (.update tag source)).mpll = s.mpll := by
      simp only [gainStep, updateMain, mpllUpdate_of_disabled _ _ (Bool.eq_false_iff.mpr hoff)]
    rw [hsame] at hl
    exact hoff (hflag hl)
  | setPiGain schedStage kp ki shift =>
    obtain ⟨-, hlocked, henabled⟩ := h.setPiGain hrange kp ki shift
    exact iff_of_true (fun hl => henabled.trans (hflag (hlocked.symm.trans hl))) trivial

/-- The SoftPLL behind the set-up of a board with a schedule. -/
def State.scheduled (b : Board) (reverseSpll nStages : Int) (stages : Nat → GainStage) : State :=
  spllSetGainSchedule (State.boot b reverseSpll) (.ofStages nStages stages)

theorem scheduled_inv (reverseSpll : Int) (stages : Nat → GainStage) (hpos : 0 < nStages) :
    Scheduled nStages (State.scheduled b reverseSpll nStages stages).mpll
      (.ofStages nStages stages) :=
  ⟨rfl, rfl, ⟨Int.le_refl 0, hpos⟩, fun he => (nomatch he), fun he => (nomatch he),
    fun he => (nomatch he)⟩

/-- Stage, flag, detector and gains stay consistent along a run if and only if the schedule has a
stage and `spll_init` is never called while the flag is up. -/
theorem gainRun_sound_iff (b : Board) (reverseSpll nStages : Int) (stages : Nat → GainStage)
    (ops : List GainOp) (hops : ∀ op ∈ ops, op.InRange nStages) :
    Run.Always (gainStep b) (fun s => GainsSound s.mpll)
        (State.scheduled b reverseSpll nStages stages) ops ↔
      0 < nStages ∧ Run.Steps (gainStep b) KeepsFlag
        (State.scheduled b reverseSpll nStages stages) ops := by
  by_cases hpos : 0 < nStages
  · have hinv := scheduled_inv (b := b) reverseSpll stages hpos
    have hsound : GainsSound (State.scheduled b reverseSpll nStages stages).mpll :=
      hinv.sound_iff.mpr fun hl => (nomatch hl)
    have hrange : Run.Steps (gainStep b) (fun _ op => op.InRange nStages)
        (State.scheduled b reverseSpll nStages stages) ops := Run.steps_of_forall hops
    rw [Run.always_iff_steps (P := KeepsFlag) (I := fun s => ∃ g, Scheduled nStages s.mpll g)
      (Q := fun s => GainsSound s.mpll) (fun s op ⟨g, hg⟩ hr => hg.step hr)
      (fun s op ⟨g, hg⟩ hr hq => hg.step_sound_iff hr hq) ⟨_, hinv⟩ hsound hrange]
    exact ⟨fun h => ⟨hpos, h⟩, And.right⟩
  · -- there is no stage for the current one to be
    refine iff_of_false (fun h => ?_) fun h => hpos h.1
    obtain ⟨g, hg, hstage⟩ := h.first.scheduled
    cases hg
    exact hpos (Int.lt_of_le_of_lt hstage.1 hstage.2.1)

/-- A start and a new gain for the first stage. -/
theorem gainRun_sound_start : Run.Always (gainStep Board.generic) (fun s => GainsSound s.mpll)
      (State.scheduled Board.generic 1 1 ocxoStages)
      [.init .slave 0, .start, .setPiGain 0 (-2000) (-10) 10] :=
  (gainRun_sound_iff Board.generic 1 1 ocxoStages _ (by decide)).mpr ⟨by decide, by decide⟩

/-- Fifty pairs of tags lock both detectors of a schedule that asks for one sample. -/
def lockingTags : List GainOp := (List.replicate 50 [GainOp.update 0 0, .update 0 1]).flatten

/-- Initialised again, the PLL is off and still says it is locked. -/
theorem gainRun_stale_flag : ¬Run.Always (gainStep Board.generic) (fun s => GainsSound s.mpll)
      (State.scheduled Board.generic 1 1 fun _ => ⟨-1100, -30, 12, 1⟩)
      ([.init .slave 0, .start] ++ lockingTags ++ [.init .slave 0]) := by
  intro h
  obtain ⟨g, -, -, -, hlocked, -⟩ := h.last.scheduled
  have hflag : (Run.run (gainStep Board.generic)
      (State.scheduled Board.generic 1 1 fun _ => ⟨-1100, -30, 12, 1⟩)
      ([.init .slave 0, .start] ++ lockingTags ++ [.init .slave 0])).mpll.locked = true := by
    decide +kernel
  exact absurd (hlocked hflag).1 (by decide +kernel)

end

end Wrpc.SoftPll
