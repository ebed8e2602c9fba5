/-
# "timing up" and "timing down" (`events-ptp.c`)

`wrc_events_ptp_poll` looks at the PTP mode, the state of the PTP state machine and the
state of the servo, and compares them with what they were at the call before.  The
status and the events follow the edges of one variable at a time; what a user of
`wrc_is_timing_up` wants to know is a level (`Level`).

`Seen` is what an
observer remembers of the calls: it holds nothing of the code's own variables.

This is the code of the eRTM14, the one board that polls (`BOARD_USE_EVENTS` is 1 there).
-/
import Wrpc.Lib.Run

namespace Wrpc.EventsPtp

/-- `wrc_ptp_get_mode()`. -/
inductive Mode where
  | master | slave
  | other (mode : Nat)
deriving DecidableEq, Repr

/-- `ppi->state`: `PPS_MASTER`, `PPS_SLAVE` and the others. -/
inductive PtpState where
  | master | slave
  | other (state : Nat)
deriving DecidableEq, Repr

/-- The state of the servo: `WRH_TRACK_PHASE` and the others. -/
inductive ServoState where
  | trackPhase
  | other (state : Nat)
deriving DecidableEq, Repr

inductive Event where
  | ptpModeChanged | timingUp | timingDown
deriving DecidableEq, Repr

/-- The static variables; `none` is the -1 of `wrc_events_ptp_init`. -/
structure State where
  prevPtpMode : Option Mode
  prevPtpState : Option PtpState
  prevServoState : Option ServoState
  prevTimingOk : Bool
deriving DecidableEq, Repr

/-- `wrc_events_ptp_init`. -/
def init : State := ⟨none, none, none, false⟩

/-- The status and the events of a poll, behind the check of the mode. -/
def timing (s : State) (mode : Mode) (state : PtpState) (servo : ServoState) (ok : Bool) :
    Bool × List Event :=
  match mode with
  | .master =>
    if state = .master ∧ s.prevPtpState ≠ some .master then (true, [.timingUp])
    else if state ≠ .master ∧ s.prevPtpState = some .master then (false, [.timingDown])
    else (ok, [])
  | .slave =>
    if state = .slave then
      if servo = .trackPhase ∧ s.prevServoState ≠ some .trackPhase then (true, [.timingUp])
      else if servo ≠ .trackPhase ∧ s.prevServoState = some .trackPhase then
        (false, [.timingDown])
      else (ok, [])
    else if s.prevPtpState = some .slave then (false, [.timingDown])
    else (ok, [])
  | .other _ => (ok, [])

/-- `wrc_events_ptp_poll`: the variables and the events that were posted. -/
def poll (s : State) (mode : Mode) (state : PtpState) (servo : ServoState) : State × List Event :=
  let changed := some mode ≠ s.prevPtpMode
  let r := timing s mode state servo (if changed then false else s.prevTimingOk)
  (⟨some mode, some state, some servo, r.1⟩, (if changed then [.ptpModeChanged] else []) ++ r.2)

/-- `wrc_events_ptp_link_down`. -/
def linkDown (s : State) : State := { s with prevTimingOk := false }

/-- `wrc_is_timing_up`. -/
def isTimingUp (s : State) : Bool := s.prevTimingOk

inductive Call where
  | poll (mode : Mode) (state : PtpState) (servo : ServoState)
  | linkDown
deriving DecidableEq, Repr

def step (s : State) : Call → State
  | .poll mode state servo => (poll s mode state servo).1
  | .linkDown => linkDown s

def posts (s : State) : Call → List Event
  | .poll mode state servo => (poll s mode state servo).2
  | .linkDown => []

def Level (mode : Mode) (state : PtpState) (servo : ServoState) : Prop :=
  (mode = .master ∧ state = .master) ∨
    (mode = .slave ∧ state = .slave ∧ servo = .trackPhase)

instance (mode : Mode) (state : PtpState) (servo : ServoState) :
    Decidable (Level mode state servo) :=
  inferInstanceAs (Decidable (_ ∨ _))

def TruthfulAt (s : State) : Call → Prop
  | .poll mode state servo =>
    isTimingUp (step s (.poll mode state servo)) = true ↔ Level mode state servo
  | .linkDown => True

/-- "Timing up" and "timing down" take turns; `up` says which one is next. -/
def Alternate : Bool → List Event → Prop
  | _, [] => True
  | up, .ptpModeChanged :: es => Alternate up es
  | up, .timingUp :: es => up = true ∧ Alternate false es
  | up, .timingDown :: es => up = false ∧ Alternate true es

/-! ## What an observer sees -/

/-- The values at the last poll, whether the link has gone down since, and whether the last
edge was one upwards. -/
structure Seen where
  last : Option (Mode × PtpState × ServoState)
  wentDown : Bool
  announced : Bool
deriving DecidableEq, Repr

namespace Seen

def start : Seen := ⟨none, false, false⟩

variable (g : Seen) (mode : Mode) (state : PtpState) (servo : ServoState)

/-- The variable that the mode watches has come to the value for "timing up". -/
def Rises : Prop :=
  (mode = .master ∧ state = .master ∧ g.last.map (·.2.1) ≠ some .master) ∨
    (mode = .slave ∧ state = .slave ∧ servo = .trackPhase ∧
      g.last.map (·.2.2) ≠ some .trackPhase)

def Falls : Prop :=
  (mode = .master ∧ state ≠ .master ∧ g.last.map (·.2.1) = some .master) ∨
    (mode = .slave ∧ state = .slave ∧ servo ≠ .trackPhase ∧
      g.last.map (·.2.2) = some .trackPhase) ∨
    (mode = .slave ∧ state ≠ .slave ∧ g.last.map (·.2.1) = some .slave)

instance : Decidable (g.Rises mode state servo) := inferInstanceAs (Decidable (_ ∨ _))

instance : Decidable (g.Falls mode state servo) := inferInstanceAs (Decidable (_ ∨ _))

/-- In this mode timing was up at the last poll, and the link has been up since. -/
def Holds : Prop :=
  g.wentDown = false ∧ ∃ state servo, g.last = some (mode, state, servo) ∧ Level mode state servo

def see : Call → Seen
  | .poll mode state servo =>
    ⟨some (mode, state, servo), false,
      if g.Rises mode state servo then true
      else if g.Falls mode state servo then false else g.announced⟩
  | .linkDown => { g with wentDown := true }

def Steady : Call → Prop
  | .poll mode state servo => Level mode state servo → g.Rises mode state servo ∨ g.Holds mode
  | .linkDown => True

/-- An edge upwards comes when the last one was downwards, and the other way round. -/
def Turns : Call → Prop
  | .poll mode state servo => (g.Rises mode state servo → g.announced = false) ∧
      (g.Falls mode state servo → g.announced = true)
  | .linkDown => True

def Clean (c : Call) : Prop := g.Steady c ∧ g.Turns c

end Seen

/-! ## One call -/

/-- The variables of the code are what the observer has seen, as long as the status is right. -/
structure Follows (s : State) (g : Seen) : Prop where
  mode : s.prevPtpMode = g.last.map (·.1)
  state : s.prevPtpState = g.last.map (·.2.1)
  servo : s.prevServoState = g.last.map (·.2.2)
  ok : s.prevTimingOk = true ↔ ∃ mode, g.Holds mode

section Call

variable {s : State} {g : Seen} {mode : Mode} {state : PtpState} {servo : ServoState}

theorem Seen.not_rises_falls (hr : g.Rises mode state servo) : ¬ g.Falls mode state servo := by
  rcases hr with ⟨hm, hs, hl⟩ | ⟨hm, hs, hv, hl⟩
  · rintro (⟨-, hs', -⟩ | ⟨hm', -⟩ | ⟨hm', -⟩)
    · exact hs' hs
    · exact absurd (hm.symm.trans hm') (by decide)
    · exact absurd (hm.symm.trans hm') (by decide)
  · rintro (⟨hm', -⟩ | ⟨-, -, hv', -⟩ | ⟨-, hs', -⟩)
    · exact absurd (hm.symm.trans hm') (by decide)
    · exact hv' hv
    · exact hs' hs

theorem timing_eq (h : Follows s g) (ok : Bool) :
    timing s mode state servo ok =
      if g.Rises mode state servo then (true, [.timingUp])
      else if g.Falls mode state servo then (false, [.timingDown])
      else (ok, []) := by
  cases mode with
  | master =>
    have hr : g.Rises .master state servo ↔ state = .master ∧ s.prevPtpState ≠ some .master := by
      rw [Seen.Rises, h.state]
      simp
    have hf : g.Falls .master state servo ↔ state ≠ .master ∧ s.prevPtpState = some .master := by
      rw [Seen.Falls, h.state]
      simp
    simp only [timing, hr, hf]
  | slave =>
    have hr : g.Rises .slave state servo ↔
        state = .slave ∧ servo = .trackPhase ∧ s.prevServoState ≠ some .trackPhase := by
      rw [Seen.Rises, h.servo]
      simp
    have hf : g.Falls .slave state servo ↔
        (state = .slave ∧ servo ≠ .trackPhase ∧ s.prevServoState = some .trackPhase) ∨
          (state ≠ .slave ∧ s.prevPtpState = some .slave) := by
      rw [Seen.Falls, h.servo, h.state]
      simp
    rw [timing]
    simp only [hr, hf]
    by_cases hs : state = .slave
    · simp [hs]
    · simp [hs]
  | other n =>
    have hr : ¬ g.Rises (.other n) state servo := by
      rintro (⟨hm, -⟩ | ⟨hm, -⟩) <;> cases hm
    have hf : ¬ g.Falls (.other n) state servo := by
      rintro (⟨hm, -⟩ | ⟨hm, -⟩ | ⟨hm, -⟩) <;> cases hm
    rw [timing, if_neg hr, if_neg hf]

theorem kept_iff (h : Follows s g) :
    (if some mode ≠ s.prevPtpMode then false else s.prevTimingOk) = true ↔ g.Holds mode := by
  have hmode : ∀ {m}, g.Holds m → s.prevPtpMode = some m := by
    rintro m ⟨-, state, servo, hlast, -⟩
    rw [h.mode, hlast]
    rfl
  by_cases hm : some mode = s.prevPtpMode
  · rw [if_neg (not_not.mpr hm), h.ok]
    constructor
    · rintro ⟨m, hholds⟩
      cases hm.trans (hmode hholds)
      exact hholds
    · exact fun hholds => ⟨mode, hholds⟩
  · rw [if_pos hm]
    exact iff_of_false Bool.false_ne_true fun hholds => hm (hmode hholds).symm

theorem Seen.level_of_rises (h : g.Rises mode state servo) : Level mode state servo :=
  h.imp (fun h => ⟨h.1, h.2.1⟩) fun h => ⟨h.1, h.2.1, h.2.2.1⟩

theorem Seen.not_level_of_falls (h : g.Falls mode state servo) : ¬ Level mode state servo := by
  rintro (⟨hm, hs⟩ | ⟨hm, hs, hv⟩)
  · rcases h with ⟨-, hs', -⟩ | ⟨hm', -⟩ | ⟨hm', -⟩
    · exact hs' hs
    · exact absurd (hm.symm.trans hm') (by decide)
    · exact absurd (hm.symm.trans hm') (by decide)
  · rcases h with ⟨hm', -⟩ | ⟨-, -, hv', -⟩ | ⟨-, hs', -⟩
    · exact absurd (hm.symm.trans hm') (by decide)
    · exact hv' hv
    · exact hs' hs

theorem Seen.Holds.level (h : g.Holds mode) (hf : ¬ g.Falls mode state servo) :
    Level mode state servo := by
  obtain ⟨-, state', servo', hlast, hlevel⟩ := h
  rcases hlevel with ⟨rfl, rfl⟩ | ⟨rfl, rfl, rfl⟩
  · refine .inl ⟨rfl, ?_⟩
    by_contra hs
    exact hf (.inl ⟨rfl, hs, by rw [hlast]; rfl⟩)
  · have hs : state = .slave := by
      by_contra hs
      exact hf (.inr (.inr ⟨rfl, hs, by rw [hlast]; rfl⟩))
    refine .inr ⟨rfl, hs, ?_⟩
    by_contra hv
    exact hf (.inr (.inl ⟨rfl, hs, hv, by rw [hlast]; rfl⟩))

theorem truthfulAt_iff (h : Follows s g) (c : Call) : TruthfulAt s c ↔ g.Steady c := by
  cases c with
  | linkDown => exact Iff.rfl
  | poll mode state servo =>
    have hpoll : isTimingUp (step s (.poll mode state servo)) =
        (timing s mode state servo
          (if some mode ≠ s.prevPtpMode then false else s.prevTimingOk)).1 := rfl
    rw [TruthfulAt, hpoll, timing_eq h, Seen.Steady]
    by_cases hr : g.Rises mode state servo
    · rw [if_pos hr]
      exact iff_of_true (iff_of_true rfl (Seen.level_of_rises hr)) fun _ => .inl hr
    rw [if_neg hr]
    by_cases hf : g.Falls mode state servo
    · rw [if_pos hf]
      have hlevel := Seen.not_level_of_falls hf
      exact iff_of_true (iff_of_false Bool.false_ne_true hlevel) fun h => absurd h hlevel
    · rw [if_neg hf, kept_iff h]
      constructor
      · exact fun hiff hlevel => .inr (hiff.mpr hlevel)
      · intro himp
        exact ⟨fun hholds => hholds.level hf, fun hlevel => (himp hlevel).resolve_left hr⟩

theorem Follows.step (h : Follows s g) {c : Call} (ht : TruthfulAt s c) :
    Follows (step s c) (g.see c) := by
  cases c with
  | linkDown =>
    refine ⟨h.mode, h.state, h.servo, iff_of_false Bool.false_ne_true ?_⟩
    rintro ⟨m, hdown, -⟩
    cases hdown
  | poll mode state servo =>
    refine ⟨rfl, rfl, rfl, ht.trans ⟨fun hlevel => ?_, ?_⟩⟩
    · exact ⟨mode, rfl, state, servo, rfl, hlevel⟩
    · rintro ⟨m, -, state', servo', hlast, hlevel⟩
      cases hlast
      exact hlevel

theorem alternate_posts (h : Follows s g) (c : Call) (es : List Event) :
    Alternate (!g.announced) (posts s c ++ es) ↔
      g.Turns c ∧ Alternate (!(g.see c).announced) es := by
  cases c with
  | linkDown => exact (and_iff_right trivial).symm
  | poll mode state servo =>
    have hskip : Alternate (!g.announced) (posts s (.poll mode state servo) ++ es) ↔
        Alternate (!g.announced) ((timing s mode state servo
          (if some mode ≠ s.prevPtpMode then false else s.prevTimingOk)).2 ++ es) := by
      simp only [posts, poll]
      split <;> exact Iff.rfl
    rw [hskip, timing_eq h, Seen.see, Seen.Turns]
    by_cases hr : g.Rises mode state servo
    · have hf := Seen.not_rises_falls hr
      simp [hr, hf, Alternate]
    by_cases hf : g.Falls mode state servo
    · simp [hr, hf, Alternate]
    · simp [hr, hf]

end Call

theorem calls_truthful_iff : ∀ {s : State} {g : Seen} (cs : List Call), Follows s g →
    (Run.Steps step TruthfulAt s cs ∧ Alternate (!g.announced) (Run.emits step posts s cs) ↔
      Run.Steps Seen.see Seen.Clean g cs)
  | _, _, [], _ => ⟨fun _ => trivial, fun _ => ⟨trivial, trivial⟩⟩
  | s, g, c :: cs, h => by
    rw [Run.Steps, Run.Steps, Run.emits, alternate_posts h, Seen.Clean, truthfulAt_iff h]
    have htail := fun hsteady => calls_truthful_iff cs (h.step ((truthfulAt_iff h c).mpr hsteady))
    constructor
    · rintro ⟨⟨hsteady, hrest⟩, hturns, halt⟩
      exact ⟨⟨hsteady, hturns⟩, (htail hsteady).mp ⟨hrest, halt⟩⟩
    · rintro ⟨⟨hsteady, hturns⟩, hrest⟩
      obtain ⟨hsteps, halt⟩ := (htail hsteady).mpr hrest
      exact ⟨⟨hsteady, hsteps⟩, hturns, halt⟩

theorem follows_start : Follows init .start := by
  refine ⟨rfl, rfl, rfl, iff_of_false Bool.false_ne_true ?_⟩
  rintro ⟨m, -, state, servo, hlast, -⟩
  cases hlast

/-- **The status and the events.**  After every poll the status is the level, and the events
take turns from "timing up" on, exactly if every call is clean. -/
theorem poll_truthful_iff (cs : List Call) :
    (Run.Steps step TruthfulAt init cs ∧ Alternate true (Run.emits step posts init cs)) ↔
      Run.Steps Seen.see Seen.Clean .start cs :=
  calls_truthful_iff cs follows_start

/-- The PTP state machine leaves the slave state and comes back while the servo stays where it
is: timing is up, and the status says that it is not. -/
theorem poll_not_truthful :
    Run.run step init [.poll .slave .slave .trackPhase, .poll .slave (.other 0) .trackPhase,
      .poll .slave .slave .trackPhase] =
      ⟨some .slave, some .slave, some .trackPhase, false⟩ ∧
    Level .slave .slave .trackPhase ∧
    ¬ Run.Steps step TruthfulAt init [.poll .slave .slave .trackPhase,
      .poll .slave (.other 0) .trackPhase, .poll .slave .slave .trackPhase] := by
  refine ⟨rfl, by decide, ?_⟩
  rintro ⟨-, -, htruth, -⟩
  exact Bool.false_ne_true (htruth.mpr (by decide))

end Wrpc.EventsPtp
