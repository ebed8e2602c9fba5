/-
# The RF outputs of the eRTM15 (`ertm15_rf_distr.c`)

Every output has a switch with two control pins, behind a chain of shift registers for the LO
outputs and one for the REF outputs.  The power monitor borrows the switches of the disabled
outputs, channel by channel; a forced measurement borrows all of them.

The code never reads a switch, so a call is a new state and the settings it makes, in order.  What
the timer and the ADC answer is given with a poll; the powers measured are left out.
-/
import Wrpc.Dev.X595
import Mathlib.Tactic.FinCases

namespace Wrpc.Ertm14

open X595 (Gpio Chain)

inductive RfPath where
  | lo
  | ref
deriving DecidableEq

/-- `ERTM15_RF_OUT_ON` and so on. -/
inductive RfOut where
  | on
  | monitor
  | off
deriving DecidableEq

structure PinMapping where
  path : RfPath
  channel : Nat
  ctrl1 : Fin 24
  ctrl2 : Fin 24
deriving DecidableEq

/-- `rf_switch_sreg_pin_mapping`, without the entry that ends it. -/
def pinMapping : List PinMapping :=
  [⟨.ref, 4, 8 + 5, 8 + 4⟩, ⟨.ref, 5, 8 + 6, 8 + 7⟩, ⟨.ref, 6, 8 + 1, 8 + 0⟩,
    ⟨.ref, 7, 8 + 3, 8 + 2⟩, ⟨.ref, 8, 4, 5⟩, ⟨.ref, 9, 6, 7⟩, ⟨.ref, 10, 16 + 7, 16 + 6⟩,
    ⟨.ref, 11, 2, 3⟩, ⟨.ref, 12, 0, 1⟩, ⟨.lo, 4, 16 + 7, 16 + 6⟩, ⟨.lo, 5, 6, 7⟩, ⟨.lo, 6, 4, 5⟩,
    ⟨.lo, 7, 0, 1⟩, ⟨.lo, 8, 2, 3⟩, ⟨.lo, 9, 8 + 6, 8 + 7⟩, ⟨.lo, 10, 8 + 5, 8 + 4⟩,
    ⟨.lo, 11, 8 + 1, 8 + 0⟩, ⟨.lo, 12, 8 + 3, 8 + 2⟩]

/-- `find_pins_for_channel` -/
def findPinsForChannel (path : RfPath) (channel : Nat) : Option PinMapping :=
  pinMapping.find? fun m => m.channel = channel ∧ m.path = path

/-- The values of CTRL1 and CTRL2. -/
def RfOut.ctrl : RfOut → Bool × Bool
  | .on => (true, false)
  | .monitor => (false, true)
  | .off => (false, false)

/-- The arguments of `rf_switch_set`. -/
structure Setting where
  path : RfPath
  channel : Nat
  out : RfOut

/-- `rf_switch_set`; nobody looks at the -1 for a channel that is not in the table. -/
def rfSwitchSet (g : RfPath → Gpio 24) (s : Setting) : RfPath → Gpio 24 :=
  match findPinsForChannel s.path s.channel with
  | none => g
  | some pins => Function.update g s.path
      (((g s.path).out pins.ctrl1 s.out.ctrl.1).out pins.ctrl2 s.out.ctrl.2)

/-- `PWR_MEAS_STATE_IDLE` and so on. -/
inductive MeasState where
  | idle
  | pickChannel
  | readAdc
  | done
  | start
  | startAdc
  | finish
deriving DecidableEq

/-- `struct ertm15_rf_distribution_device` -/
structure RfDistr where
  enabled : RfPath → BitVec 16
  measState : MeasState
  channel : Nat
  force : Bool

namespace RfDistr

def isEnabled (d : RfDistr) (path : RfPath) (channel : Nat) : Bool :=
  (d.enabled path).getLsbD channel

/-- What an output is set to for its bit in the mask. -/
def wanted (d : RfDistr) (path : RfPath) (channel : Nat) : RfOut :=
  if d.isEnabled path channel then .on else .off

/-- `for (i = ERTM14_RF_OUT_MIN_ID; i <= ERTM14_RF_OUT_MAX_ID; i++)`, REF before LO. -/
def setAll (out : RfPath → Nat → RfOut) : List Setting :=
  (List.range' 4 9).flatMap fun i => [⟨.ref, i, out .ref i⟩, ⟨.lo, i, out .lo i⟩]

/-- The switches of the channel that is being measured. -/
def setMeasured (d : RfDistr) (out : RfOut) (paths : List RfPath) : List Setting :=
  (paths.filter fun p => d.force || !d.isEnabled p d.channel).map fun p => ⟨p, d.channel, out⟩

/-- `ertm15_rf_distr_pwrmon_update` -/
def pwrmonUpdate (d : RfDistr) (tmoExpired adcValid : Bool) : RfDistr × List Setting :=
  match d.measState, tmoExpired, adcValid with
  | .start, _, _ => ({ d with channel := 4, measState := .pickChannel },
      if d.force then setAll fun _ _ => .off else [])
  | .pickChannel, true, _ =>
      ({ d with measState := .startAdc }, d.setMeasured .monitor [.ref, .lo])
  | .startAdc, true, _ => ({ d with measState := .readAdc }, [])
  | .readAdc, _, true =>
      (if d.channel ≥ 12 then { d with measState := .finish }
        else { d with channel := d.channel + 1, measState := .pickChannel },
        d.setMeasured .off [.lo, .ref])
  | .finish, _, _ => ({ d with force := false, measState := .done },
      if d.force then setAll d.wanted else [])
  | _, _, _ => (d, [])

/-- `ertm15_rf_distr_measure_power_restart` -/
def restart (d : RfDistr) (force : Bool) : RfDistr × List Setting :=
  if force then pwrmonUpdate { d with force := true, measState := .start } false false
  else ({ d with measState := .start }, [])

/-- `ertm15_rf_distr_output_enable` -/
def outputEnable (d : RfDistr) (path : RfPath) (channel : Nat) (enabled : Bool) : RfDistr :=
  { d with enabled := Function.update d.enabled path <|
      if enabled then d.enabled path ||| 1#16 <<< channel
      else d.enabled path &&& ~~~(1#16 <<< channel) }

/-- `ertm15_update_rf_switches` -/
def updateRfSwitches (d : RfDistr) : List Setting :=
  pinMapping.map fun m => ⟨m.path, m.channel, d.wanted m.path m.channel⟩

/-- A poll, a new measurement, or the end of `ertm14_apply_config`: some outputs are switched on or
off in the masks, and the masks are applied. -/
inductive Event where
  | poll (tmoExpired adcValid : Bool)
  | restart (force : Bool)
  | configure (outs : List (RfPath × Nat × Bool))

def step (d : RfDistr) : Event → RfDistr × List Setting
  | .poll tmoExpired adcValid => d.pwrmonUpdate tmoExpired adcValid
  | .restart force => d.restart force
  | .configure outs =>
    let d := outs.foldl (fun d o => d.outputEnable o.1 o.2.1 o.2.2) d
    (d, d.updateRfSwitches)

/-- `ertm15_rf_distr_is_pwrmon_idle` -/
def isPwrmonIdle (d : RfDistr) : Bool := d.measState = .done || d.measState = .idle

/-- After the `memset` of `ertm15_rf_distr_init`. -/
def zeroed : RfDistr := ⟨fun _ => 0, .idle, 0, false⟩

/-! ## What a list of settings leaves -/

/-- The switches as somebody sees them who knows nothing of pins. -/
def set (σ : RfPath → Nat → RfOut) (s : Setting) : RfPath → Nat → RfOut :=
  fun path channel => if s.path = path ∧ s.channel = channel then s.out else σ path channel

variable {σ : RfPath → Nat → RfOut} {path : RfPath} {channel : Nat} {out : RfOut}

/-- The control pins of every switch have the values for its setting. -/
def Holds (g : RfPath → Gpio 24) (σ : RfPath → Nat → RfOut) : Prop :=
  ∀ path, ∃ f, (g path).Shows f ∧ ∀ m ∈ pinMapping, m.path = path →
    (f m.ctrl1, f m.ctrl2) = (σ path m.channel).ctrl

theorem pins_apart : ∀ m ∈ pinMapping, m.ctrl1 ≠ m.ctrl2 ∧ ∀ m' ∈ pinMapping, m'.path = m.path →
    m'.channel ≠ m.channel → m'.ctrl1 ≠ m.ctrl1 ∧ m'.ctrl1 ≠ m.ctrl2 ∧ m'.ctrl2 ≠ m.ctrl1 ∧
      m'.ctrl2 ≠ m.ctrl2 := by
  decide

theorem pins_unique : ∀ m ∈ pinMapping, findPinsForChannel m.path m.channel = some m := by
  decide

theorem Holds.set {g : RfPath → Gpio 24} (h : Holds g σ) (s : Setting) :
    Holds (rfSwitchSet g s) (RfDistr.set σ s) := by
  intro path
  obtain ⟨f, hf, hpins⟩ := h path
  cases hfind : findPinsForChannel s.path s.channel with
  | none =>
    refine ⟨f, by simpa only [rfSwitchSet, hfind] using hf, fun m hm hpath => ?_⟩
    have hne : ¬ (s.path = path ∧ s.channel = m.channel) := by
      rintro ⟨rfl, hch⟩
      rw [hch, ← hpath, pins_unique m hm] at hfind
      cases hfind
    rw [RfDistr.set, if_neg hne, hpins m hm hpath]
  | some pins =>
    have hmem := List.mem_of_find?_eq_some hfind
    obtain ⟨hch, hpath⟩ : pins.channel = s.channel ∧ pins.path = s.path := by
      simpa using List.find?_some hfind
    obtain ⟨hdiff, hapart⟩ := pins_apart pins hmem
    simp only [rfSwitchSet, hfind, RfDistr.set]
    by_cases hp : path = s.path
    · subst hp
      rw [Function.update_self]
      refine ⟨_, hf.outAll (by decide) [(pins.ctrl1, s.out.ctrl.1), (pins.ctrl2, s.out.ctrl.2)],
        fun m hm hmp => ?_⟩
      by_cases hmch : s.channel = m.channel
      · obtain rfl : m = pins := by
          rw [hmch, ← hmp, pins_unique m hm] at hfind
          exact Option.some.inj hfind
        simp [X595.levels, hmch, hdiff]
      · obtain ⟨h11, h12, h21, h22⟩ :=
          hapart m hm (hmp.trans hpath.symm) (by rw [hch]; exact Ne.symm hmch)
        simp [X595.levels, hmch, h11, h12, h21, h22, hpins m hm hmp]
    · refine ⟨f, by rwa [Function.update_of_ne hp], fun m hm hmp => ?_⟩
      rw [if_neg (fun h => hp h.1.symm), hpins m hm hmp]

theorem Holds.setAll {l : List Setting} {g : RfPath → Gpio 24} (h : Holds g σ) :
    Holds (l.foldl rfSwitchSet g) (l.foldl RfDistr.set σ) := by
  induction l generalizing g σ with
  | nil => exact h
  | cons s l ih => exact ih (h.set s)

/-! ## Runs -/

/-- `MONITOR` may still stand in a channel that the measurement has not come to, or is at. -/
def toBeMeasured (d : RfDistr) (channel : Nat) : Prop :=
  match d.measState with
  | .start => True
  | .pickChannel | .startAdc | .readAdc => d.channel ≤ channel
  | .idle | .done | .finish => False

/-- Between two calls. -/
structure Sound (d : RfDistr) (σ : RfPath → Nat → RfOut) : Prop where
  busy : d.force = true → d.isPwrmonIdle = false
  shown : d.force = false → ∀ path, ∀ channel ∈ List.range' 4 9,
    σ path channel = d.wanted path channel ∨
      d.isEnabled path channel = false ∧ σ path channel = .monitor ∧ d.toBeMeasured channel

theorem foldl_setAll (f : RfPath → Nat → RfOut) (hch : channel ∈ List.range' 4 9) :
    (setAll f).foldl set σ path channel = f path channel := by
  fin_cases hch <;> cases path <;> rfl

theorem foldl_updateRfSwitches (d : RfDistr) (hch : channel ∈ List.range' 4 9) :
    d.updateRfSwitches.foldl set σ path channel = d.wanted path channel := by
  fin_cases hch <;> cases path <;> rfl

/-- A background measurement sets the switches of disabled outputs only. -/
theorem foldl_setMeasured (d : RfDistr) (hforce : d.force = false) (paths : List RfPath) :
    (d.setMeasured out paths).foldl set σ path channel =
      if path ∈ paths ∧ channel = d.channel ∧ d.isEnabled path channel = false then out
      else σ path channel := by
  induction paths generalizing σ with
  | nil => simp [setMeasured]
  | cons p paths ih =>
    simp only [setMeasured, hforce, Bool.false_or] at ih ⊢
    rw [List.filter_cons]
    split
    · next hp =>
      rw [List.map_cons, List.foldl_cons, ih, set]
      grind
    · next hp =>
      rw [ih]
      grind

variable {d : RfDistr}

/-- A measured channel is switched off again; `MONITOR` is left behind it only. -/
theorem Sound.measured (h : d.Sound σ) (hstate : d.measState = .readAdc) (hforce : d.force = false)
    (path : RfPath) (hch : channel ∈ List.range' 4 9) :
    let σ' := (d.setMeasured .off [.lo, .ref]).foldl set σ
    σ' path channel = d.wanted path channel ∨
      d.isEnabled path channel = false ∧ σ' path channel = .monitor ∧ d.channel < channel := by
  have hshown := h.shown hforce path channel hch
  rw [toBeMeasured, hstate] at hshown
  intro σ'
  rw [show σ' path channel = _ from foldl_setMeasured d hforce _]
  split
  · next hmeas => exact .inl (by simp [wanted, hmeas.2.2])
  · next hmeas =>
    exact hshown.imp_right fun ⟨hen, hmon, hle⟩ =>
      ⟨hen, hmon, Nat.lt_of_le_of_ne hle fun heq =>
        hmeas ⟨by cases path <;> decide, heq.symm, hen⟩⟩

theorem Sound.pwrmonUpdate (h : d.Sound σ) (tmoExpired adcValid : Bool) :
    (d.pwrmonUpdate tmoExpired adcValid).1.Sound
      ((d.pwrmonUpdate tmoExpired adcValid).2.foldl set σ) := by
  have hshown := h.shown
  unfold toBeMeasured at hshown
  unfold RfDistr.pwrmonUpdate
  cases hstate : d.measState with
  | idle | done => exact h
  | start =>
    refine ⟨fun _ => rfl, fun (hforce : d.force = false) path channel hch => ?_⟩
    rw [hstate] at hshown
    dsimp only
    rw [hforce]
    exact (hshown hforce path channel hch).imp_right fun ⟨hen, hmon, _⟩ =>
      ⟨hen, hmon, (List.mem_range'_1.mp hch).1⟩
  | pickChannel =>
    cases tmoExpired with
    | false => exact h
    | true =>
      refine ⟨fun _ => rfl, fun hforce path channel hch => ?_⟩
      rw [hstate] at hshown
      dsimp only
      rw [foldl_setMeasured d hforce _]
      split
      · next hmeas => exact .inr ⟨hmeas.2.2, rfl, Nat.le_of_eq hmeas.2.1.symm⟩
      · exact hshown hforce path channel hch
  | startAdc =>
    cases tmoExpired with
    | false => exact h
    | true =>
      rw [hstate] at hshown
      exact ⟨fun _ => rfl, hshown⟩
  | readAdc =>
    cases adcValid with
    | false => exact h
    | true =>
      -- behind the last channel nothing is left that might show `MONITOR`
      by_cases hlast : d.channel ≥ 12
      · simp only [hlast, if_true]
        refine ⟨fun _ => rfl, fun hforce path channel hch => .inl ?_⟩
        refine (h.measured hstate hforce path hch).resolve_right fun ⟨_, _, hlt⟩ => ?_
        have := (List.mem_range'_1.mp hch).2
        omega
      · simp only [hlast, if_false]
        exact ⟨fun _ => rfl, fun hforce path channel => h.measured hstate hforce path⟩
  | finish =>
    refine ⟨fun hforce => (Bool.false_ne_true hforce).elim, fun _ path channel hch => .inl ?_⟩
    cases hforce : d.force with
    | true => exact foldl_setAll d.wanted hch
    | false =>
      rw [hstate] at hshown
      exact (hshown hforce path channel hch).resolve_right fun h => h.2.2

theorem Sound.step (h : d.Sound σ) (e : Event) : (d.step e).1.Sound ((d.step e).2.foldl set σ) := by
  cases e with
  | poll tmoExpired adcValid => exact h.pwrmonUpdate tmoExpired adcValid
  | restart force =>
    cases force with
    | false =>
      refine ⟨fun _ => rfl, fun hforce path channel hch => ?_⟩
      exact (h.shown hforce path channel hch).imp_right fun ⟨hen, hmon, _⟩ => ⟨hen, hmon, trivial⟩
    | true => exact ⟨fun _ => rfl, fun hforce => (Bool.false_ne_true hforce.symm).elim⟩
  | configure outs =>
    have hsame : (d.step (.configure outs)).1.force = d.force ∧
        (d.step (.configure outs)).1.measState = d.measState := by
      clear h
      simp only [RfDistr.step]
      induction outs generalizing d with
      | nil => exact ⟨rfl, rfl⟩
      | cons o outs ih => exact ih
    -- all switches are set, also those of the channel being measured
    refine ⟨fun hforce => ?_, fun _ path channel hch => .inl (foldl_updateRfSwitches _ hch)⟩
    rw [isPwrmonIdle, hsame.2]
    exact h.busy (hsame.1 ▸ hforce)

theorem Sound.idle (h : d.Sound σ) (hidle : d.isPwrmonIdle = true)
    (hch : channel ∈ List.range' 4 9) : σ path channel = d.wanted path channel := by
  cases hforce : d.force with
  | true => exact absurd ((h.busy hforce).symm.trans hidle) (by decide)
  | false =>
    refine (h.shown hforce path channel hch).resolve_right fun ⟨_, _, hmeas⟩ => ?_
    unfold isPwrmonIdle at hidle
    unfold toBeMeasured at hmeas
    cases hstate : d.measState <;> simp_all

theorem Sound.undisturbed (h : d.Sound σ) (hforce : d.force = false)
    (hen : d.isEnabled path channel = true) (hch : channel ∈ List.range' 4 9) :
    σ path channel = .on := by
  obtain hshown | ⟨hdis, -⟩ := h.shown hforce path channel hch
  · rw [hshown, wanted, if_pos hen]
  · exact absurd (hdis.symm.trans hen) (by decide)

/-- The device with its two chains. -/
abbrev Board := RfDistr × (RfPath → Gpio 24)

/-- `ertm15_rf_distr_init` -/
def init (chips : RfPath → Chain 24) : Board :=
  (zeroed, zeroed.updateRfSwitches.foldl rfSwitchSet fun path => X595.create (chips path))

def boardStep (b : Board) (e : Event) : Board :=
  ((b.1.step e).1, (b.1.step e).2.foldl rfSwitchSet b.2)

theorem run_sound (chips : RfPath → Chain 24) (es : List Event) :
    ∃ σ, Holds (Run.run boardStep (init chips) es).2 σ ∧
      (Run.run boardStep (init chips) es).1.Sound σ := by
  refine (Run.always_of_inv (P := fun _ _ => True)
    (I := fun b : Board => ∃ σ, Holds b.2 σ ∧ b.1.Sound σ) ?_ (fun _ h => h)
      ⟨_, Holds.setAll (σ := fun _ _ => .off) ?_, ?_⟩ (Run.steps_true _ es)).last
  · rintro b e ⟨σ, hg, hd⟩ -
    exact ⟨_, hg.setAll, hd.step e⟩
  · refine fun path => ⟨fun _ => false, X595.shows_create _, fun _ _ _ => rfl⟩
  · exact ⟨nofun, fun _ _ _ hch => .inl (foldl_updateRfSwitches zeroed hch)⟩

/-- **The switches are given back.**  Whatever polls, measurements and configurations there have
been: when the power monitor is idle, the switch of every output is ON or OFF as the masks say; and
but for a forced measurement an output that is enabled is never taken off. -/
theorem rfRun_restored (chips : RfPath → Chain 24) (es : List Event) :
    let b := Run.run boardStep (init chips) es
    ∀ m ∈ pinMapping,
      let outputs := (b.2 m.path).chain.outputs
      let ctrl := (outputs.getLsbD m.ctrl1, outputs.getLsbD m.ctrl2)
      (b.1.isPwrmonIdle = true → ctrl = (b.1.wanted m.path m.channel).ctrl) ∧
        (b.1.force = false → b.1.isEnabled m.path m.channel = true → ctrl = RfOut.on.ctrl) := by
  intro b m hm outputs ctrl
  have hrange : ∀ m ∈ pinMapping, m.channel ∈ List.range' 4 9 := by decide
  obtain ⟨σ, hg, hd⟩ := run_sound chips es
  obtain ⟨f, hf, hpins⟩ := hg m.path
  have hctrl : ctrl = (σ m.path m.channel).ctrl := by
    rw [← hpins m hm rfl, ← hf.outputs, ← hf.outputs]
  rw [hctrl]
  exact ⟨fun hidle => by rw [hd.idle hidle (hrange m hm)],
    fun hforce hen => by rw [hd.undisturbed hforce hen (hrange m hm)]⟩

/-- A LO output is enabled, and a measurement begins: its switch stays where it is. -/
theorem rfRun_restored_enabled :
    let b := Run.run boardStep (init fun _ => ⟨false, false, false, 0, 0⟩)
      [.configure [(.lo, 4, true)], .restart false, .poll true true, .poll true true]
    ((b.2 .lo).chain.outputs.getLsbD 23, (b.2 .lo).chain.outputs.getLsbD 22) = RfOut.on.ctrl :=
  (rfRun_restored _ _ ⟨.lo, 4, 16 + 7, 16 + 6⟩ (by decide)).2 rfl (by decide)

end RfDistr

end Wrpc.Ertm14
