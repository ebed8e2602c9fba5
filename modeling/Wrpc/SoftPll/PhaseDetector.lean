/-
# The phase error of the main PLL

The error of a pair is `adder_ref + tag_ref - adder_out - tag_out`, masked to 14
bits.  The adders gain `2^22` at every tag wrap-around, lose whole periods when
they are realigned, move by `10^8` when they are rebased (which is no multiple
of the period), and take the phase shift one unit at a time; all of it in
wrapping 32-bit arithmetic.

## What is proved

None of this shows.  Modulo the period the two adders differ by the phase shift
and by nothing else.
-/
import Wrpc.SoftPll.Main
import Wrpc.Lib.Run

namespace Wrpc.SoftPll

open CInt

/-! ## Runs of one PLL -/

/-- What can happen to a started PLL: a 22-bit tag of some channel, a new phase
target, the two freezes. -/
inductive MainEvent
  | tag (tics : BitVec 32) (source : Nat) (value : BitVec 22)
  | setTarget (target : Int)
  | setPsFreeze (freeze : Bool)
  | setVcoFreeze (freeze : Bool)

/-- A PLL with its registers, and the latest tag each of its channels sent. -/
structure Observed where
  main : Main
  regs : Regs
  latestRef : Int
  latestOut : Int

section

variable (b : Board) (reverseSpll : Int)

def Observed.step (o : Observed) : MainEvent → Observed
  | .tag tics source value =>
    let u := mpllUpdate b reverseSpll tics o.main o.regs value.toNat source
    { main := u.main
      regs := u.regs
      latestRef := if source = o.main.idRef then value.toNat else o.latestRef
      latestOut := if source = o.main.idOut then value.toNat else o.latestOut }
  | .setTarget target => { o with main := { o.main with phaseShiftTarget := target } }
  | .setPsFreeze freeze => { o with main := { o.main with psFreeze := freeze } }
  | .setVcoFreeze freeze => { o with main := { o.main with vcoFreeze := freeze } }

/-- A PLL just after `mpll_start`; no tag has been seen. -/
def Observed.start (tics : BitVec 32) (m : Main) (r : Regs) : Observed :=
  let u := mpllStart b tics m r
  { main := u.1, regs := u.2, latestRef := -1, latestOut := -1 }

def MainEvent.Completes (m : Main) : MainEvent → Prop
  | .tag _ source value => m.enabled = true ∧ (takeTag b m value.toNat source).HasPair
  | _ => False

/-- The sign with which the phase shift enters the error. -/
def sigma : Int := if reverseSpll = 0 then 1 else -1

/-- From `o` to `o'` the controller was fed the phase of the latest tags plus the
phase shift, as a number of `[-2^13, 2^13)`. -/
structure ErrorExact (o o' : Observed) : Prop where
  lower : -2 ^ 13 ≤ o'.main.pi.x
  upper : o'.main.pi.x < 2 ^ 13
  modEq : o'.main.pi.x ≡ o'.latestRef - o'.latestOut + sigma reverseSpll * o.main.phaseShiftCurrent
    [ZMOD 2 ^ 14]

/-- From `o` to `o'` the phase shift moved by one unit towards the target, which
takes a pair, a locked PLL and no freeze, or did not move. -/
def ShiftsTowards (o : Observed) (e : MainEvent) (o' : Observed) : Prop :=
  o'.main.phaseShiftCurrent = o.main.phaseShiftCurrent ∨
    (e.Completes b o.main ∧ o.main.locked = true ∧ o.main.psFreeze = false ∧
      ((o.main.phaseShiftCurrent < o.main.phaseShiftTarget ∧
          o'.main.phaseShiftCurrent = o.main.phaseShiftCurrent + 1) ∨
        (o.main.phaseShiftTarget < o.main.phaseShiftCurrent ∧
          o'.main.phaseShiftCurrent = o.main.phaseShiftCurrent - 1)))

end

/-! ## The adders modulo the period -/

def Main.lag (m : Main) : Int := m.adderRef - m.adderOut

variable (b : Board) (m : Main) (tag : Int) (source : Nat)

theorem i32_mod_period (x : Int) : i32 x % 2 ^ 14 = x % 2 ^ 14 :=
  i32_modEq (by decide) x

theorem unwrapRef_lag : (unwrapRef m).lag ≡ m.lag [ZMOD 2 ^ 14] := by
  have hi := i32_mod_period (m.adderRef + 2 ^ 22)
  unfold unwrapRef Main.lag Int.ModEq
  grind

theorem unwrapOut_lag : (unwrapOut m).lag ≡ m.lag [ZMOD 2 ^ 14] := by
  have hi := i32_mod_period (m.adderOut + 2 ^ 22)
  unfold unwrapOut Main.lag Int.ModEq
  grind

theorem captureRef_lag : (captureRef b m tag source).lag = m.lag := by
  unfold captureRef Main.lag
  grind

theorem captureOut_lag : (captureOut b m tag source).lag = m.lag := by
  unfold captureOut resample Main.lag
  grind

theorem takeTag_lag : (takeTag b m tag source).lag ≡ m.lag [ZMOD 2 ^ 14] := by
  have h := (unwrapOut_lag (unwrapRef (captureOut b (captureRef b m tag source) tag source))).trans
    (unwrapRef_lag (captureOut b (captureRef b m tag source) tag source))
  rw [captureOut_lag, captureRef_lag] at h
  exact h

theorem realign_lag : (realign m).lag ≡ m.lag [ZMOD 2 ^ 14] := by
  have hp : ∀ d, wholePeriods d % 2 ^ 14 = 0 := by
    intro d
    have h := i32_mod_period (d / 2 ^ 14 * 2 ^ 14)
    unfold wholePeriods
    omega
  unfold realign Main.lag Int.ModEq
  grind [i32_mod_period]

theorem discardEarly_lag : (discardEarly b m).lag ≡ m.lag [ZMOD 2 ^ 14] := by
  have h := realign_lag m
  unfold discardEarly Main.lag Int.ModEq at *
  grind

theorem rebase_lag : (rebase m).lag ≡ m.lag [ZMOD 2 ^ 14] := by
  have hr := i32_mod_period (m.adderRef - 100000000)
  have ho := i32_mod_period (m.adderOut - 100000000)
  unfold rebase Main.lag Int.ModEq
  split
  · dsimp only
    omega
  · rfl

theorem shiftPhase_lag (reverseSpll : Int) (m : Main) :
    (shiftPhase reverseSpll m).lag - sigma reverseSpll *
      (shiftPhase reverseSpll m).phaseShiftCurrent ≡ m.lag - sigma reverseSpll * m.phaseShiftCurrent
        [ZMOD 2 ^ 14] := by
  have hup := i32_mod_period (m.adderRef + 1)
  have hdn := i32_mod_period (m.adderRef - 1)
  unfold shiftPhase Main.lag Int.ModEq sigma
  split
  · split
    · split <;> (dsimp only; omega)
    · split
      · split <;> (dsimp only; omega)
      · rfl
  · rfl

/-! ## One pair -/

theorem maskErr_spec (err : Int) :
    -2 ^ 13 ≤ maskErr err ∧ maskErr err < 2 ^ 13 ∧ maskErr err ≡ err [ZMOD 2 ^ 14] := by
  unfold maskErr Int.ModEq
  dsimp only
  split
  · omega
  · omega

section

variable {b : Board} (m : Main) (tag : Int) (source : Nat) (tics : BitVec 32) (reverseSpll : Int)

theorem takeTag_tags (hb : b.frac = false) :
    (takeTag b m tag source).tagRef = (if source = m.idRef then tag else m.tagRef) ∧
      (takeTag b m tag source).tagOut = (if source = m.idOut then tag else m.tagOut) := by
  unfold takeTag unwrapOut unwrapRef captureOut captureRef
  grind

structure Main.SamePair (m m' : Main) : Prop where
  tagRef : m'.tagRef = m.tagRef
  tagOut : m'.tagOut = m.tagOut
  current : m'.phaseShiftCurrent = m.phaseShiftCurrent
  locked : m'.locked = m.locked
  lag : m'.lag ≡ m.lag [ZMOD 2 ^ 14]

theorem detected_samePair : m.SamePair (detected b tics m) := by
  have hsame := discardEarly_sameLoop b m
  have htags : (discardEarly b m).tagRef = m.tagRef ∧ (discardEarly b m).tagOut = m.tagOut := by
    unfold discardEarly realign
    grind
  exact ⟨htags.1, htags.2, hsame.current, hsame.locked, discardEarly_lag b m⟩

theorem pairError_modEq (freqErr : Int) (h : m.freqLd.locked = true) :
    pairError m freqErr ≡ m.lag + (m.tagRef - m.tagOut) [ZMOD 2 ^ 14] := by
  have h₁ := i32_mod_period (m.adderRef + m.tagRef)
  have h₂ := i32_mod_period (i32 (m.adderRef + m.tagRef) - m.adderOut)
  have h₃ := i32_mod_period (i32 (i32 (m.adderRef + m.tagRef) - m.adderOut) - m.tagOut)
  have hm := (maskErr_spec (i32 (i32 (i32 (m.adderRef + m.tagRef) - m.adderOut) - m.tagOut))).2.2
  rw [pairError, if_pos h]
  unfold Int.ModEq Main.lag at *
  omega

structure Main.SameShift (m m' : Main) : Prop where
  tagRef : m'.tagRef = m.tagRef
  tagOut : m'.tagOut = m.tagOut
  current : m'.phaseShiftCurrent = m.phaseShiftCurrent
  freqLd : m'.freqLd = m.freqLd
  x : m'.pi.x = m.pi.x
  lag : m'.lag = m.lag

theorem mpllHandleGainSchedule_sameShift : m.SameShift (mpllHandleGainSchedule m) := by
  unfold mpllHandleGainSchedule enterStage
  grind [Main.SameShift, Main.lag]

variable (err : Int)

theorem control_sameShift :
    (shifted m reverseSpll err).SameShift (control reverseSpll tics m err) := by
  unfold control
  dsimp only
  split
  · obtain ⟨h₁, h₂, h₃, h₄, h₅, h₆⟩ :=
      mpllHandleGainSchedule_sameShift (phaseDetect tics (shifted m reverseSpll err) err)
    exact ⟨h₁, h₂, h₃, h₄, h₅, h₆⟩
  · exact ⟨rfl, rfl, rfl, rfl, rfl, rfl⟩

/-- A pair spends its tags, feeds the controller the error it was given, and
moves the adders with the phase shift. -/
theorem control_spec :
    (control reverseSpll tics m err).tagRef = -1 ∧ (control reverseSpll tics m err).tagOut = -1 ∧
      (control reverseSpll tics m err).freqLd = m.freqLd ∧
      (control reverseSpll tics m err).pi.x = err := by
  obtain ⟨hr, ho, -, hf, hx, -⟩ := control_sameShift m tics reverseSpll err
  have hs := shifted_driven m reverseSpll err
  rw [hr, ho, hf, hx, hs.pi]
  exact ⟨hs.tagRef, hs.tagOut, hs.freqLd, piUpdate_x m.pi err⟩

theorem control_lag :
    (control reverseSpll tics m err).lag
        - sigma reverseSpll * (control reverseSpll tics m err).phaseShiftCurrent
      ≡ m.lag - sigma reverseSpll * m.phaseShiftCurrent [ZMOD 2 ^ 14] := by
  have h := control_sameShift m tics reverseSpll err
  have hs := shiftPhase_lag reverseSpll (rebase (controlled m err))
  have hb := rebase_lag (controlled m err)
  have hc : (rebase (controlled m err)).phaseShiftCurrent = m.phaseShiftCurrent :=
    (rebase_sameLoop (controlled m err)).current
  rw [h.lag, h.current]
  rw [hc] at hs
  exact hs.trans (hb.sub_right _)

theorem control_current :
    (control reverseSpll tics m err).phaseShiftCurrent = m.phaseShiftCurrent ∨
      (m.locked = true ∧ m.psFreeze = false ∧
        ((m.phaseShiftCurrent < m.phaseShiftTarget ∧
            (control reverseSpll tics m err).phaseShiftCurrent = m.phaseShiftCurrent + 1) ∨
          (m.phaseShiftTarget < m.phaseShiftCurrent ∧
            (control reverseSpll tics m err).phaseShiftCurrent = m.phaseShiftCurrent - 1))) := by
  have hr := rebase_sameLoop (controlled m err)
  have h₁ : (rebase (controlled m err)).locked = m.locked := hr.locked
  have h₂ : (rebase (controlled m err)).psFreeze = m.psFreeze := hr.psFreeze
  have h₃ : (rebase (controlled m err)).phaseShiftTarget = m.phaseShiftTarget := hr.target
  have h₄ : (rebase (controlled m err)).phaseShiftCurrent = m.phaseShiftCurrent := hr.current
  rw [(control_sameShift m tics reverseSpll err).current, shifted, shiftPhase, h₁, h₂, h₃, h₄]
  grind

end

/-! ## Runs -/

structure PhaseInv (reverseSpll : Int) (o : Observed) : Prop where
  enabled : o.main.enabled = true
  lag : o.main.lag ≡ sigma reverseSpll * o.main.phaseShiftCurrent [ZMOD 2 ^ 14]
  ref : 0 ≤ o.main.tagRef → o.main.tagRef = o.latestRef
  out : 0 ≤ o.main.tagOut → o.main.tagOut = o.latestOut

def PhaseStep (b : Board) (reverseSpll : Int) (o : Observed) (e : MainEvent) : Prop :=
  (e.Completes b o.main → (o.step b reverseSpll e).main.freqLd.locked = true →
    ErrorExact reverseSpll o (o.step b reverseSpll e)) ∧
  ShiftsTowards b o e (o.step b reverseSpll e)

theorem started_phaseInv (reverseSpll : Int) (tics : BitVec 32) (m : Main) (r : Regs) :
    PhaseInv reverseSpll (Observed.start b tics m r) := by
  have h : (m.started b tics).enabled = true ∧ (m.started b tics).adderRef = 0 ∧
      (m.started b tics).adderOut = 0 ∧ (m.started b tics).phaseShiftCurrent = 0 ∧
      (m.started b tics).tagRef = -1 ∧ (m.started b tics).tagOut = -1 := by
    unfold Main.started startGainSchedule
    grind
  obtain ⟨he, hr, ho, hc, htr, hto⟩ := h
  refine ⟨he, ?_, fun h => ?_, fun h => ?_⟩
  · show (m.started b tics).lag ≡ sigma reverseSpll * (m.started b tics).phaseShiftCurrent [ZMOD _]
    rw [Main.lag, hr, ho, hc, mul_zero]
    rfl
  · exact htr
  · exact hto

section

variable {b : Board} {reverseSpll : Int} {o : Observed}

structure TagInv (b : Board) (reverseSpll : Int) (o : Observed) (source : Nat) (value : BitVec 22) :
    Prop where
  lag : (takeTag b o.main value.toNat source).lag
    ≡ sigma reverseSpll * o.main.phaseShiftCurrent [ZMOD 2 ^ 14]
  ref : 0 ≤ (takeTag b o.main value.toNat source).tagRef →
    (takeTag b o.main value.toNat source).tagRef
      = if source = o.main.idRef then (value.toNat : Int) else o.latestRef
  out : 0 ≤ (takeTag b o.main value.toNat source).tagOut →
    (takeTag b o.main value.toNat source).tagOut
      = if source = o.main.idOut then (value.toNat : Int) else o.latestOut

theorem takeTag_inv (hb : b.frac = false) (hI : PhaseInv reverseSpll o) (source : Nat)
    (value : BitVec 22) : TagInv b reverseSpll o source value := by
  obtain ⟨hr, ho⟩ := takeTag_tags o.main value.toNat source hb
  refine ⟨(takeTag_lag b _ _ source).trans hI.lag, ?_, ?_⟩
  · have h := hI.ref
    grind
  · have h := hI.out
    grind

theorem tag_no_pair (hb : b.frac = false) (hI : PhaseInv reverseSpll o) (tics : BitVec 32)
    {source : Nat} {value : BitVec 22} (hp : ¬(takeTag b o.main value.toNat source).HasPair) :
    PhaseInv reverseSpll (o.step b reverseSpll (.tag tics source value)) ∧
      PhaseStep b reverseSpll o (.tag tics source value) := by
  obtain ⟨hlag, href, hout⟩ := takeTag_inv hb hI source value
  have hsame := takeTag_sameLoop b o.main value.toNat source
  have hmain : (o.step b reverseSpll (.tag tics source value)).main
      = takeTag b o.main value.toNat source := by
    simp only [Observed.step, mpllUpdate_of_no_pair _ _ hI.enabled _ hp]
  refine ⟨⟨?_, ?_, ?_, ?_⟩, ?_, Or.inl ?_⟩
  · rw [hmain, hsame.enabled]
    exact hI.enabled
  · rw [hmain, hsame.current]
    exact hlag
  · rw [hmain]
    exact href
  · rw [hmain]
    exact hout
  · intro hc
    exact absurd hc.2 hp
  · rw [hmain]
    exact hsame.current

theorem tag_pair (hb : b.frac = false) (hI : PhaseInv reverseSpll o) (tics : BitVec 32)
    {source : Nat} {value : BitVec 22} (hp : (takeTag b o.main value.toNat source).HasPair) :
    PhaseInv reverseSpll (o.step b reverseSpll (.tag tics source value)) ∧
      PhaseStep b reverseSpll o (.tag tics source value) := by
  obtain ⟨hlag, href, hout⟩ := takeTag_inv hb hI source value
  have hsame := takeTag_sameLoop b o.main value.toNat source
  have hpair := @detected_samePair b (takeTag b o.main value.toNat source) tics
  have hfix := hsame.toFixed.trans (detected_fixed b (takeTag b o.main value.toNat source) tics)
  generalize hd : detected b tics (takeTag b o.main value.toNat source) = d at hpair hfix
  -- `d` is the state in which the error is computed
  have hcur : d.phaseShiftCurrent = o.main.phaseShiftCurrent := hpair.current.trans hsame.current
  have hdlag : d.lag ≡ sigma reverseSpll * d.phaseShiftCurrent [ZMOD 2 ^ 14] := by
    rw [hcur]
    exact hpair.lag.trans hlag
  have hmain : (o.step b reverseSpll (.tag tics source value)).main
      = control reverseSpll tics d (pairError d (freqError d)) := by
    simp only [Observed.step, mpllUpdate_of_pair _ _ hI.enabled _ hp, processPair, hd]
  obtain ⟨htr, hto, hfreq, hx⟩ := control_spec d tics reverseSpll (pairError d (freqError d))
  refine ⟨⟨?_, ?_, ?_, ?_⟩, ?_, ?_⟩
  · rw [hmain, (control_fixed d tics reverseSpll _).enabled, hfix.enabled]
    exact hI.enabled
  · rw [hmain]
    have hc := control_lag d tics reverseSpll (pairError d (freqError d))
    have h0 := hdlag.sub_right (sigma reverseSpll * d.phaseShiftCurrent)
    simpa using (hc.trans h0).add_right (sigma reverseSpll *
      (control reverseSpll tics d (pairError d (freqError d))).phaseShiftCurrent)
  · rw [hmain, htr]
    intro h
    omega
  · rw [hmain, hto]
    intro h
    omega
  · intro _ hlocked
    rw [hmain, hfreq] at hlocked
    have herr := pairError_modEq d (freqError d) hlocked
    have hmask : ∃ e, pairError d (freqError d) = maskErr e :=
      ⟨_, by rw [pairError, if_pos hlocked]⟩
    obtain ⟨e, he⟩ := hmask
    obtain ⟨hlo, hhi, -⟩ := maskErr_spec e
    rw [hpair.tagRef, hpair.tagOut, href hp.1, hout hp.2] at herr
    refine ⟨?_, ?_, ?_⟩
    · rw [hmain, hx, he]
      exact hlo
    · rw [hmain, hx, he]
      exact hhi
    · rw [hmain, hx, ← hcur, add_comm]
      exact herr.trans (hdlag.add_right _)
  · have hc := control_current d tics reverseSpll (pairError d (freqError d))
    rw [hcur, hpair.locked, hsame.locked, hfix.psFreeze, hfix.target] at hc
    unfold ShiftsTowards
    rw [hmain]
    rcases hc with hc | ⟨hl, hf, hm⟩
    · exact Or.inl hc
    · exact Or.inr ⟨⟨hI.enabled, hp⟩, hl, hf, hm⟩

theorem step_phase (hb : b.frac = false) (hI : PhaseInv reverseSpll o) (e : MainEvent) :
    PhaseInv reverseSpll (o.step b reverseSpll e) ∧ PhaseStep b reverseSpll o e := by
  cases e with
  | tag tics source value =>
    by_cases hp : (takeTag b o.main value.toNat source).HasPair
    · exact tag_pair hb hI tics hp
    · exact tag_no_pair hb hI tics hp
  | setTarget | setPsFreeze | setVcoFreeze =>
    exact ⟨⟨hI.enabled, hI.lag, hI.ref, hI.out⟩, fun h => h.elim, Or.inl rfl⟩

end

/-- **The phase detector is exact.**  In every run of a PLL since `mpll_start`,
whatever tags, targets and freezes it is given, every pair processed with a
locked frequency detector feeds the controller the phase of the latest
reference tag against the latest output tag plus the phase shift, in
`[-2^13, 2^13)`; and every step moves the phase shift by at most one unit, only
on a pair, only while locked and not frozen, and never past the target. -/
theorem mpllRun_phase_exact (b : Board) (hb : b.frac = false) (reverseSpll : Int) (tics : BitVec 32)
    (m : Main) (r : Regs) (es : List MainEvent) :
    Run.Steps (Observed.step b reverseSpll) (PhaseStep b reverseSpll)
      (Observed.start b tics m r) es :=
  Run.steps_of_inv (fun _ e hI _ => (step_phase hb hI e).1) (fun _ e hI _ => (step_phase hb hI e).2)
    (started_phaseInv b reverseSpll tics m r) (Run.steps_true _ es)

/-- A PLL on channels 0 and 1 whose frequency detector locks on the first pair. -/
def quickMain : Main :=
  { (default : Main) with
    idOut := 1
    freqLd := { (default : LockDet) with lockSamples := 1, threshold := 50 } }

/-- A reference tag at 5 and an output tag at 7 feed the controller -2. -/
theorem mpllRun_phase_exact_pair :
    Run.Steps (Observed.step .generic 1) (PhaseStep .generic 1)
        (Observed.start .generic 0 quickMain default) [.tag 0 0 5, .tag 0 1 7] ∧
      (Run.run (Observed.step .generic 1) (Observed.start .generic 0 quickMain default)
        [.tag 0 0 5, .tag 0 1 7]).main.pi.x = -2 :=
  ⟨mpllRun_phase_exact .generic rfl 1 0 quickMain default _, by decide⟩

end Wrpc.SoftPll
