/-
# Merging the coarse counters with the DMTD phase

`ptpd_netif_linearize_rx_timestamp` (`net.c`) joins the tick count of the
hardware stamp with the phase measured by the DDMTD.  The rising counter is
unreliable close to its own transition, so within a quarter period of it the
function rebuilds the count from the falling counter.

## What is proved

An event happens `phi` ps into tick `n` of second `S`.  The falling counter is
exact; the rising one may be one tick off, late just after a transition or
early just before one.  `rxTimestamp_exact_iff` says exactly when the function
gives back `(S, n, phi)`:

    read      condition                       why
    exact     always
    late      phi is not P/4 to the ps        at P/4 the function trusts the counter again
    early     phi is not 3P/4 to the ps,      likewise
              and n is not the last tick      the counter has wrapped to 0, one tick is
                                              subtracted from it, and nothing borrows

The last line is a defect of the function: its result is `(S + 1, -1 tick)`,
which is the right instant written with a negative nanosecond count.  The
`nsec >= 1000000000` correction at its end has no counterpart for `nsec < 0`.
-/
import Wrpc.Dev.Minic

namespace Wrpc.Net

open BitVec Nat

/-- `struct wr_timestamp`. -/
structure WrTimestamp where
  sec : BitVec 64
  nsec : Int
  phase : Int
  rawPhase : Int
  rawNsec : Int
  rawAhead : Int
  correct : Bool
deriving DecidableEq, Repr

/-- `if (x < 0) x += period`. -/
def unwrapLow (x period : Int) : Int := if x < 0 then x + period else x

/-- `if (x >= period) x -= period`. -/
def unwrapHigh (x period : Int) : Int := if x ≥ period then x - period else x

/-- `ptpd_netif_linearize_rx_timestamp`. -/
def linearizeRxTimestamp (ts : WrTimestamp)
    (dmtdPhase cntrAhead transitionPoint clockPeriod : Int) :
    WrTimestamp :=
  let nsecR := ts.nsec
  let nsecF := if cntrAhead ≠ 0 then ts.nsec - clockPeriod / 1000 else ts.nsec
  let phaseR := unwrapLow (dmtdPhase - transitionPoint) clockPeriod
  let phaseF := unwrapLow (dmtdPhase - transitionPoint + clockPeriod / 2) clockPeriod
  let phaseF := unwrapHigh phaseF clockPeriod
  let nsecPhase : Int × Int :=
    if phaseR > 3 * clockPeriod / 4 ∨ phaseR < clockPeriod / 4 then
      -- the falling edge is half a cycle later; the rising edge is the reference
      let phase := phaseF + clockPeriod / 2
      if phase ≥ clockPeriod then (nsecF + clockPeriod / 1000, phase - clockPeriod)
      else (nsecF, phase)
    else (nsecR, phaseR)
  if nsecPhase.1 ≥ 1000000000 then
    { ts with rawPhase := dmtdPhase, nsec := nsecPhase.1 - 1000000000,
              phase := nsecPhase.2, sec := ts.sec + 1 }
  else { ts with rawPhase := dmtdPhase, nsec := nsecPhase.1, phase := nsecPhase.2 }

/-- The time stamp `ptpd_netif_recvfrom` returns for a hardware stamp, given
the phase tracker's reading and whether the phase shifter is moving. -/
def recvTimestamp (clk : RefClock) (hwts : HwTimestamp) (rawPhase : Int) (spllBusy : Bool)
    (phaseTransition : Int) : WrTimestamp :=
  let ts : WrTimestamp :=
    { rawNsec := hwts.nsec.toInt
      rawAhead := hwts.ahead.toInt
      rawPhase := rawPhase
      sec := hwts.sec
      nsec := hwts.nsec.toInt
      phase := 0
      correct := decide (hwts.valid ≠ 0) && !spllBusy }
  linearizeRxTimestamp ts rawPhase hwts.ahead.toInt phaseTransition clk.periodPs

/-! ## An event, and what the hardware reads of it -/

inductive CounterRead where
  | exact | late | early
deriving DecidableEq, Repr

/-- An event `phi` ps into tick `n` of second `S`.  The rising counter may
lag within a quarter period after a transition, and lead within a quarter
period before one. -/
structure RxEvent where
  clk : RefClock
  S : BitVec 64
  n : Nat
  hn : n < clk.freqHz
  phi : Nat
  hphi : phi < clk.periodPs
  tp : Nat
  htp : tp < clk.periodPs
  read : CounterRead
  hlate : read = .late → phi ≤ clk.periodPs / 4
  hearly : read = .early → 3 * clk.periodPs / 4 ≤ phi

namespace RxEvent

variable (e : RxEvent)

def rising : Nat :=
  match e.read with
  | .exact => e.n
  | .late => (e.n + e.clk.freqHz - 1) % e.clk.freqHz
  | .early => (e.n + 1) % e.clk.freqHz

def second : BitVec 64 :=
  match e.read with
  | .exact => e.S
  | .late => if e.n = 0 then e.S - 1 else e.S
  | .early => if e.n + 1 = e.clk.freqHz then e.S + 1 else e.S

def falling : Nat :=
  if e.clk.periodPs / 2 ≤ e.phi then e.n else (e.n + e.clk.freqHz - 1) % e.clk.freqHz

/-- The stamp: 4 bits of the falling counter above 28 of the rising one. -/
def rawTs : BitVec 32 := BitVec.ofNat 32 (e.falling % 16 * 2 ^ 28 + e.rising)

def dmtdPhase : Nat := (e.phi + e.tp) % e.clk.periodPs

/-- The time stamp the program computes, from the time `(sec, counterPpsg)` it
read off the PPS generator. -/
def timestamp (sec : BitVec 64) (counterPpsg : Nat) (oobHdr : BitVec 16) (phase : BitVec 32)
    (spllBusy : Bool) : WrTimestamp :=
  recvTimestamp e.clk (minicRxHwts e.clk sec counterPpsg oobHdr e.rawTs phase) e.dmtdPhase
    spllBusy e.tp

def Exact (ts : WrTimestamp) : Prop :=
  (0 ≤ ts.nsec ∧ ts.nsec < 1000000000) ∧ (0 ≤ ts.phase ∧ ts.phase < e.clk.periodPs) ∧
    ts.sec = e.S ∧ ts.nsec = (e.n * (e.clk.periodPs / 1000) : Nat) ∧ ts.phase = e.phi

instance (ts : WrTimestamp) : Decidable (e.Exact ts) := inferInstanceAs (Decidable (_ ∧ _))

/-- The rising counter has not just wrapped while the event is still in the
last tick, and is not off at the very edge of its window. -/
def Sound : Prop :=
  (e.read = .early → e.n + 1 < e.clk.freqHz ∧ e.phi ≠ 3 * e.clk.periodPs / 4) ∧
    (e.read = .late → e.phi ≠ e.clk.periodPs / 4)

instance : Decidable e.Sound := inferInstanceAs (Decidable (_ ∧ _))

theorem rising_lt : e.rising < e.clk.freqHz := by
  have hn := e.hn
  unfold rising
  cases e.read with
  | exact => exact hn
  | late => exact mod_lt _ (by omega)
  | early => exact mod_lt _ (by omega)

theorem freqHz_lt (clk : RefClock) : clk.freqHz < 2 ^ 28 := by
  rcases clk.supported with ⟨-, h⟩ | ⟨-, h⟩ <;> omega

theorem toNat_rawTs : e.rawTs.toNat = e.falling % 16 * 2 ^ 28 + e.rising := by
  have hr := e.rising_lt
  have hf := freqHz_lt e.clk
  rw [rawTs, toNat_ofNat]
  omega

theorem explodeRc_rawTs : explodeRc e.rawTs = e.rising := by
  have hr := e.rising_lt
  have hf := freqHz_lt e.clk
  rw [explodeRc, toNat_and, toNat_rawTs, show (0xfffffff#32).toNat = 2 ^ 28 - 1 from rfl,
    and_two_pow_sub_one_eq_mod]
  omega

theorem explodeFc_rawTs : explodeFc e.rawTs = e.falling % 16 := by
  have hr := e.rising_lt
  have hf := freqHz_lt e.clk
  rw [explodeFc, toNat_and, toNat_ushiftRight, toNat_rawTs,
    show (0xf#32).toNat = 2 ^ 4 - 1 from rfl, and_two_pow_sub_one_eq_mod,
    shiftRight_eq_div_pow]
  omega

def Ahead : Prop :=
  ((e.rising % 16 : Nat) : Int) - (e.falling % 16 : Nat) = 1 ∨
    ((e.rising % 16 : Nat) : Int) - (e.falling % 16 : Nat) = -(fCounterMask : Int)

instance : Decidable e.Ahead := inferInstanceAs (Decidable (_ ∨ _))

theorem hwts_eq {sec : BitVec 64} {ppsg : Nat} {oob : BitVec 16} {phase : BitVec 32}
    (hsec : (minicRxHwts e.clk sec ppsg oob e.rawTs phase).sec = e.second) :
    minicRxHwts e.clk sec ppsg oob e.rawTs phase =
      { sec := e.second
        ahead := if e.Ahead then 1 else 0
        nsec := BitVec.ofNat 32 (e.rising * (e.clk.periodPs / 1000))
        valid := if oob &&& rxoobTsIncorrect ≠ 0 then 0 else 1
        phase := phase } := by
  have h15 : e.rising &&& fCounterMask = e.rising % 16 := and_two_pow_sub_one_eq_mod _ 4
  rw [← hsec]
  simp only [minicRxHwts, explodeRc_rawTs, explodeFc_rawTs, h15, Ahead]
  rfl

end RxEvent

/-! ## The three zones of the phase

`P` is the period.  The DMTD phase `(phi + tp) mod P` unwraps to `phi`, and
half a period later to `(phi + P/2) mod P`. -/

section Zones

variable {P phi tp : Nat} (hP : P = 8000 ∨ P = 16000) (hphi : phi < P) (htp : tp < P)
include hP hphi htp

theorem unwrap_rising : unwrapLow (((phi + tp) % P : Nat) - tp) P = phi := by
  unfold unwrapLow
  rcases hP with rfl | rfl
  · split <;> omega
  · split <;> omega

theorem unwrap_falling :
    unwrapHigh (unwrapLow (((phi + tp) % P : Nat) - tp + (P : Int) / 2) P) P
      = ((phi + P / 2) % P : Nat) := by
  unfold unwrapHigh unwrapLow
  rcases hP with rfl | rfl
  · split <;> split <;> omega
  · split <;> split <;> omega

def settledNsec (P phi : Nat) (nsec nsecF : Int) : Int :=
  if phi < P / 4 then nsecF + (P / 1000 : Nat)
  else if 3 * P / 4 < phi then nsecF
  else nsec

def carried (ts : WrTimestamp) (rawPhase phase nsec : Int) : WrTimestamp :=
  if nsec ≥ 1000000000 then
    { ts with rawPhase := rawPhase, nsec := nsec - 1000000000, phase := phase, sec := ts.sec + 1 }
  else { ts with rawPhase := rawPhase, nsec := nsec, phase := phase }

theorem linearize_zone (ts : WrTimestamp) (ahead : Int) :
    linearizeRxTimestamp ts ((phi + tp) % P : Nat) ahead tp P =
      carried ts ((phi + tp) % P : Nat) phi (settledNsec P phi ts.nsec
        (if ahead ≠ 0 then ts.nsec - (P / 1000 : Nat) else ts.nsec)) := by
  have hT : (P : Int) / 1000 = (P / 1000 : Nat) := by omega
  simp only [linearizeRxTimestamp, unwrap_rising hP hphi htp, unwrap_falling hP hphi htp, hT]
  generalize (if ahead ≠ 0 then ts.nsec - ((P / 1000 : Nat) : Int) else ts.nsec) = nsecF
  unfold settledNsec carried
  by_cases hlow : phi < P / 4
  · have h₁ : (phi : Int) > 3 * P / 4 ∨ (phi : Int) < P / 4 := by omega
    have h₂ : (((phi + P / 2) % P : Nat) : Int) + P / 2 = phi + P := by
      rcases hP with rfl | rfl <;> omega
    have h₃ : (phi : Int) + P ≥ P := by omega
    rw [if_pos h₁, if_pos hlow, h₂, if_pos h₃, Int.add_sub_cancel]
  · by_cases hhigh : 3 * P / 4 < phi
    · have h₁ : (phi : Int) > 3 * P / 4 ∨ (phi : Int) < P / 4 := by omega
      have h₂ : (((phi + P / 2) % P : Nat) : Int) + P / 2 = phi := by
        rcases hP with rfl | rfl <;> omega
      have h₃ : ¬ (phi : Int) ≥ P := by omega
      rw [if_pos h₁, if_neg hlow, if_pos hhigh, h₂, if_neg h₃]
    · have h₁ : ¬ ((phi : Int) > 3 * P / 4 ∨ (phi : Int) < P / 4) := by omega
      rw [if_neg h₁, if_neg hlow, if_neg hhigh]

end Zones

/-! ## Which events are stamped exactly -/

namespace RxEvent

variable (e : RxEvent)

def settled : Int :=
  settledNsec e.clk.periodPs e.phi (e.rising * (e.clk.periodPs / 1000) : Nat)
    (if e.Ahead then (e.rising * (e.clk.periodPs / 1000) : Nat) - (e.clk.periodPs / 1000 : Nat)
      else (e.rising * (e.clk.periodPs / 1000) : Nat))

/-- The settled nanoseconds, carried, are those of the event, and so is the second. -/
def Settles : Prop :=
  if e.settled ≥ 1000000000 then
    e.second + 1 = e.S ∧ e.settled - 1000000000 = (e.n * (e.clk.periodPs / 1000) : Nat)
  else e.second = e.S ∧ e.settled = (e.n * (e.clk.periodPs / 1000) : Nat)

theorem toInt_nsec : (BitVec.ofNat 32 (e.rising * (e.clk.periodPs / 1000))).toInt
    = (e.rising * (e.clk.periodPs / 1000) : Nat) := by
  have hr := e.rising_lt
  have h : e.rising * (e.clk.periodPs / 1000) < 1000000000 := by
    rcases e.clk.supported with ⟨hP, hN⟩ | ⟨hP, hN⟩ <;> rw [hP] <;> omega
  have h32 : (BitVec.ofNat 32 (e.rising * (e.clk.periodPs / 1000))).toNat
      = e.rising * (e.clk.periodPs / 1000) := by
    rw [toNat_ofNat, mod_eq_of_lt (by omega)]
  rw [toInt_eq_toNat_of_lt (by omega), h32]

theorem toInt_ahead : (if e.Ahead then 1 else 0 : BitVec 32).toInt ≠ 0 ↔ e.Ahead := by
  by_cases h : e.Ahead
  · simp [h]
  · simp [h]

theorem exact_iff_eq (ts : WrTimestamp) :
    e.Exact ts ↔ (ts.sec = e.S ∧ ts.nsec = (e.n * (e.clk.periodPs / 1000) : Nat)) ∧
      ts.phase = e.phi := by
  have hn := e.hn
  have hphi := e.hphi
  have hlt : e.n * (e.clk.periodPs / 1000) < 1000000000 := by
    rcases e.clk.supported with ⟨hP, hN⟩ | ⟨hP, hN⟩ <;> rw [hP] <;> omega
  constructor
  · rintro ⟨-, -, hS, hnsec, hphase⟩
    exact ⟨⟨hS, hnsec⟩, hphase⟩
  · rintro ⟨⟨hS, hnsec⟩, hphase⟩
    exact ⟨by omega, by omega, hS, hnsec, hphase⟩

theorem exact_iff {sec : BitVec 64} {ppsg : Nat} {oob : BitVec 16} {phase : BitVec 32}
    {busy : Bool} (hsec : (minicRxHwts e.clk sec ppsg oob e.rawTs phase).sec = e.second) :
    e.Exact (e.timestamp sec ppsg oob phase busy) ↔ e.Settles := by
  have hP : e.clk.periodPs = 8000 ∨ e.clk.periodPs = 16000 :=
    e.clk.supported.imp And.left And.left
  simp only [timestamp, hwts_eq e hsec, recvTimestamp, dmtdPhase,
    linearize_zone hP e.hphi e.htp, toInt_nsec, toInt_ahead]
  change e.Exact (carried _ _ _ e.settled) ↔ _
  unfold carried Settles
  split
  · exact (e.exact_iff_eq _).trans (and_iff_left rfl)
  · exact (e.exact_iff_eq _).trans (and_iff_left rfl)

theorem prevTick_eq {n N : Nat} (h : n < N) :
    (n + N - 1) % N = if n = 0 then N - 1 else n - 1 := by
  split
  · rw [mod_eq_of_lt (by omega)]
    omega
  · rw [show n + N - 1 = (n - 1) + N by omega, add_mod_right, mod_eq_of_lt (by omega)]

theorem nextTick_eq {n N : Nat} (h : n < N) :
    (n + 1) % N = if n + 1 = N then 0 else n + 1 := by
  split
  · simp_all
  · exact mod_eq_of_lt (by omega)

/-- The rising counter is seen ahead when it led, or when it was exact in the
first half of the tick: the number of ticks is a multiple of 16. -/
theorem ahead_iff : e.Ahead ↔
    e.read = .early ∨ e.read = .exact ∧ e.phi < e.clk.periodPs / 2 := by
  have hn := e.hn
  have hearly := e.hearly
  have hN16 : 16 ∣ e.clk.freqHz ∧ 16 < e.clk.freqHz := by
    rcases e.clk.supported with ⟨-, hN⟩ | ⟨-, hN⟩ <;> rw [hN] <;> decide
  unfold Ahead rising falling fCounterMask
  rw [prevTick_eq hn, nextTick_eq hn]
  cases hread : e.read with
  | exact => grind
  | late => grind
  | early => grind

theorem settled_exact (h : e.read = .exact) :
    e.settled = (e.n * (e.clk.periodPs / 1000) : Nat) := by
  simp only [settled, settledNsec, ahead_iff, rising, h]
  grind

theorem settled_late (h : e.read = .late) :
    e.settled = (e.rising * (e.clk.periodPs / 1000) : Nat) +
      if e.phi < e.clk.periodPs / 4 then ((e.clk.periodPs / 1000 : Nat) : Int) else 0 := by
  simp only [settled, settledNsec, ahead_iff, h]
  grind

theorem settled_early (h : e.read = .early) :
    e.settled = (e.rising * (e.clk.periodPs / 1000) : Nat) -
      if 3 * e.clk.periodPs / 4 < e.phi then ((e.clk.periodPs / 1000 : Nat) : Int) else 0 := by
  simp only [settled, settledNsec, ahead_iff, h]
  grind

end RxEvent

/-- A leading counter that wrapped into the next second is not brought back:
the tick taken off makes the nanoseconds negative, and nothing borrows. -/
theorem RxEvent.settles_early_iff (e : RxEvent) (h : e.read = .early) :
    e.Settles ↔ e.n + 1 < e.clk.freqHz ∧ e.phi ≠ 3 * e.clk.periodPs / 4 := by
  have hn := e.hn
  have hphi := e.hearly h
  rw [RxEvent.Settles, e.settled_early h]
  simp only [RxEvent.second, RxEvent.rising, h, nextTick_eq hn]
  rcases e.clk.supported with ⟨hP, hN⟩ | ⟨hP, hN⟩
  · grind
  · grind

theorem RxEvent.settles_late_iff (e : RxEvent) (h : e.read = .late) :
    e.Settles ↔ e.phi ≠ e.clk.periodPs / 4 := by
  have hn := e.hn
  have hphi := e.hlate h
  rw [RxEvent.Settles, e.settled_late h]
  simp only [RxEvent.second, RxEvent.rising, h, prevTick_eq hn]
  rcases e.clk.supported with ⟨hP, hN⟩ | ⟨hP, hN⟩
  · grind
  · grind

/-- The time stamp of an event is exact if and only if the rising counter has
not wrapped ahead of the event's own second, and was not off at the very edge
of its window. -/
theorem rxTimestamp_exact_iff (e : RxEvent) (sec : BitVec 64) (ppsg : Nat) (oob : BitVec 16)
    (phase : BitVec 32) (busy : Bool)
    (hsec : (minicRxHwts e.clk sec ppsg oob e.rawTs phase).sec = e.second) :
    e.Exact (e.timestamp sec ppsg oob phase busy) ↔ e.Sound := by
  rw [e.exact_iff hsec]
  unfold RxEvent.Sound
  cases hread : e.read with
  | exact =>
    have hn := e.hn
    have hlt : ¬ ((e.n * (e.clk.periodPs / 1000) : Nat) : Int) ≥ 1000000000 := by
      rcases e.clk.supported with ⟨hP, hN⟩ | ⟨hP, hN⟩ <;> rw [hP] <;> omega
    rw [RxEvent.Settles, e.settled_exact hread, if_neg hlt, RxEvent.second, hread]
    simp
  | late => simpa using e.settles_late_iff hread
  | early => simpa using e.settles_early_iff hread

def lastTick : RxEvent where
  clk := refClock125
  S := 100
  n := 124999999
  hn := by decide
  phi := 7000
  hphi := by decide
  tp := 0
  htp := by decide
  read := .early
  hlate := by decide
  hearly := by decide

/-- The first tick of second 100, with the rising counter still in second 99. -/
def firstTick : RxEvent where
  clk := refClock125
  S := 100
  n := 0
  hn := by decide
  phi := 1000
  hphi := by decide
  tp := 5000
  htp := by decide
  read := .late
  hlate := by decide
  hearly := by decide

theorem rxTimestamp_firstTick : firstTick.Exact (firstTick.timestamp 100 0 0 0 false) :=
  (rxTimestamp_exact_iff firstTick 100 0 0 0 false (by decide)).mpr (by decide)

/-- The last tick of second 100 comes out as 8 ns before second 101, with
negative nanoseconds. -/
theorem rxTimestamp_lastTick : ¬ ∀ (e : RxEvent) (sec : BitVec 64) (ppsg : Nat) (oob : BitVec 16)
    (phase : BitVec 32) (busy : Bool),
    (minicRxHwts e.clk sec ppsg oob e.rawTs phase).sec = e.second →
      e.Exact (e.timestamp sec ppsg oob phase busy) := by
  intro h
  exact absurd (h lastTick 101 0 0 0 false (by decide)) (by decide)

end Wrpc.Net
