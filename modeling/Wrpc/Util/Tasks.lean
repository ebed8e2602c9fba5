/-
# Periodic tasks (`wrc-tasks.c`)

A task that runs every `period` ticks asks `wrc_task_not_yet` on each turn of the main
loop.  The tick counter has 32 bits and wraps; the polls are modelled with the true
time, of which the function sees the lower half.

The variable behind `lastt` is 0 until the task has run once.  What it holds later is
the time of the first run plus a multiple of the period, and that can be 0 as well:

* as long as it is not, no run comes early (`fired_ge`), whatever the polls;
* when it is, the next poll is taken for a first one (`fired_sentinel`).
-/
import Wrpc.Lib.Run
import Mathlib.Data.Int.GCD
import Mathlib.Data.List.Chain
import Mathlib.Tactic.Ring

namespace Wrpc.Tasks

open List BitVec Nat

/-- `time_after`, on a machine whose `long` has 32 bits. -/
def timeAfter (a b : BitVec 32) : Bool := (b - a).slt 0#32

/-- `time_before` -/
def timeBefore (a b : BitVec 32) : Bool := timeAfter b a

/-- `wrc_task_not_yet`: what it returns, and `*lastt` behind it. -/
def wrcTaskNotYet (lastt period now : BitVec 32) : Bool × BitVec 32 :=
  if lastt = 0 then (false, now)
  else if timeBefore now (lastt + period) then (true, lastt)
  else (false, lastt + period)

/-! ## Polls -/

section Polls

variable (period : BitVec 32)

/-- A poll at time `t` of the unwrapped counter. -/
def poll (lastt : BitVec 32) (t : Nat) : BitVec 32 :=
  (wrcTaskNotYet lastt period (BitVec.ofNat 32 t)).2

def runsAt (lastt : BitVec 32) (t : Nat) : List Nat :=
  if (wrcTaskNotYet lastt period (BitVec.ofNat 32 t)).1 then [] else [t]

/-- The times at which the task runs, from a value of `*lastt` on. -/
def firedFrom (lastt : BitVec 32) (ts : List Nat) : List Nat :=
  Run.emits (poll period) (runsAt period) lastt ts

def fired (ts : List Nat) : List Nat := firedFrom period 0 ts

end Polls

/-- Times at which the main loop may come by: they do not decrease, and two in a row are
less than half the range of the counter apart. -/
def Polls (ts : List Nat) : Prop := ts.IsChain fun t t' => t ≤ t' ∧ t' < t + 2 ^ 31

instance (ts : List Nat) : Decidable (Polls ts) := inferInstanceAs (Decidable (ts.IsChain _))

/-- The `k`-th run is not before `t₀ + (k - 1) * period`. -/
def NeverEarly (period t₀ : Nat) (runs : List Nat) : Prop :=
  ∀ k t, runs[k]? = some t → t₀ + k * period ≤ t

/-! ## One poll -/

variable {period : BitVec 32} {u t : Nat}

theorem ofNat_eq_zero_iff (u : Nat) : BitVec.ofNat 32 u = 0 ↔ 2 ^ 32 ∣ u := by
  rw [← toNat_inj, toNat_ofNat, dvd_iff_mod_eq_zero]
  rfl

theorem timeBefore_of_lt (hperiod : period.toNat < 2 ^ 31) (hle : u ≤ t)
    (hlt : t < u + period.toNat) :
    timeBefore (BitVec.ofNat 32 t) (BitVec.ofNat 32 (u + period.toNat)) = true := by
  rw [timeBefore, timeAfter, slt_zero_eq_msb, msb_eq_decide, decide_eq_true_iff,
    toNat_sub, toNat_ofNat, toNat_ofNat]
  omega

theorem timeBefore_self (a : BitVec 32) : timeBefore a a = false := by
  rw [timeBefore, timeAfter, BitVec.sub_self]
  rfl

theorem wrcTaskNotYet_ofNat (h : ¬2 ^ 32 ∣ u) (t : Nat) :
    wrcTaskNotYet (BitVec.ofNat 32 u) period (BitVec.ofNat 32 t) =
      if timeBefore (BitVec.ofNat 32 t) (BitVec.ofNat 32 (u + period.toNat)) then
        (true, BitVec.ofNat 32 u)
      else (false, BitVec.ofNat 32 (u + period.toNat)) := by
  rw [wrcTaskNotYet, if_neg fun h0 => h ((ofNat_eq_zero_iff u).mp h0), ofNat_add, ofNat_toNat,
    setWidth_eq]

theorem firedFrom_due (h : ¬2 ^ 32 ∣ u) {ts : List Nat}
    (hdue : timeBefore (BitVec.ofNat 32 t) (BitVec.ofNat 32 (u + period.toNat)) = false) :
    firedFrom period (BitVec.ofNat 32 u) (t :: ts) =
      t :: firedFrom period (BitVec.ofNat 32 (u + period.toNat)) ts := by
  rw [firedFrom, Run.emits, poll, runsAt, wrcTaskNotYet_ofNat h, hdue, if_neg Bool.false_ne_true]
  rfl

theorem firedFrom_zero (t : Nat) (ts : List Nat) :
    firedFrom period 0 (t :: ts) = t :: firedFrom period (BitVec.ofNat 32 t) ts := rfl

/-- While `*lastt` is not 0 the runs keep their distance: it falls behind the polls, never
before them. -/
theorem firedFrom_ge (hperiod : period.toNat < 2 ^ 31) :
    ∀ {ts : List Nat} {u : Nat}, (∀ j, ¬2 ^ 32 ∣ u + j * period.toNat) → (∀ t ∈ ts, u ≤ t) →
      ts.Pairwise (· ≤ ·) → NeverEarly period.toNat (u + period.toNat)
        (firedFrom period (BitVec.ofNat 32 u) ts)
  | [], _, _, _, _ => by
    intro k t ht
    cases ht
  | t :: ts, u, hne, hle, hsorted => by
    have hu : ¬2 ^ 32 ∣ u := by simpa using hne 0
    have hrest := List.pairwise_cons.mp hsorted
    cases hbefore : timeBefore (BitVec.ofNat 32 t) (BitVec.ofNat 32 (u + period.toNat)) with
    | true =>
      rw [firedFrom, Run.emits, poll, runsAt, wrcTaskNotYet_ofNat hu, if_pos hbefore]
      exact firedFrom_ge hperiod hne (fun t' ht' => hle t' (mem_cons_of_mem _ ht')) hrest.2
    | false =>
      have hdue : u + period.toNat ≤ t := by
        refine Nat.not_lt.mp fun hlt => ?_
        rw [timeBefore_of_lt hperiod (hle t mem_cons_self) hlt] at hbefore
        cases hbefore
      have hnext : ∀ j, ¬2 ^ 32 ∣ u + period.toNat + j * period.toNat := by
        intro j
        rw [Nat.add_assoc, Nat.add_comm period.toNat, ← Nat.succ_mul]
        exact hne (j + 1)
      have ih := firedFrom_ge hperiod hnext (fun t' ht' => hdue.trans (hrest.1 t' ht')) hrest.2
      rw [firedFrom_due hu hbefore]
      rintro (_ | k) t' ht'
      · cases ht'
        rw [Nat.zero_mul]
        exact hdue
      · rw [Nat.succ_mul, Nat.add_comm (k * _), ← Nat.add_assoc]
        exact ih k t' ht'

/-! ## Runs up to a 0 -/

/-- The `n` times behind `u` at which a run is due. -/
def dueTimes (period : Nat) : Nat → Nat → List Nat
  | 0, _ => []
  | n + 1, u => (u + period) :: dueTimes period n (u + period)

theorem length_dueTimes (p : Nat) : ∀ n u, (dueTimes p n u).length = n
  | 0, _ => rfl
  | n + 1, u => congrArg Nat.succ (length_dueTimes p n (u + p))

theorem add_succ_mul (u p n : Nat) : u + p + n * p = u + (n + 1) * p := by
  rw [Nat.succ_mul, Nat.add_comm (n * p), Nat.add_assoc]

theorem firedFrom_dueTimes {ts : List Nat} : ∀ {n u : Nat},
    (∀ i < n, ¬2 ^ 32 ∣ u + i * period.toNat) →
      firedFrom period (BitVec.ofNat 32 u) (dueTimes period.toNat n u ++ ts) =
        dueTimes period.toNat n u ++
          firedFrom period (BitVec.ofNat 32 (u + n * period.toNat)) ts
  | 0, u, _ => by rw [Nat.zero_mul, Nat.add_zero, dueTimes, nil_append, nil_append]
  | n + 1, u, hne => by
    have hu : ¬2 ^ 32 ∣ u := by simpa using hne 0 n.succ_pos
    have hnext : ∀ i < n, ¬2 ^ 32 ∣ u + period.toNat + i * period.toNat := by
      intro i hi
      rw [add_succ_mul]
      exact hne (i + 1) (succ_lt_succ hi)
    rw [dueTimes, List.cons_append, firedFrom_due hu (timeBefore_self _),
      firedFrom_dueTimes hnext, List.cons_append, add_succ_mul]

theorem polls_dueTimes {p : Nat} (hp : p < 2 ^ 31) : ∀ (n u : Nat),
    Polls (u :: (dueTimes p n u ++ [u + n * p]))
  | 0, u => by
    rw [dueTimes, nil_append, Nat.zero_mul, Nat.add_zero]
    exact List.isChain_cons_cons.mpr
      ⟨⟨Nat.le_refl u, Nat.lt_add_of_pos_right (by decide)⟩, isChain_singleton _⟩
  | n + 1, u => by
    have ih := polls_dueTimes hp n (u + p)
    rw [add_succ_mul] at ih
    exact List.isChain_cons_cons.mpr ⟨⟨Nat.le_add_right u p, Nat.add_lt_add_left hp u⟩, ih⟩

theorem fired_sentinel {n t₀ : Nat} (hne : ∀ i < n, ¬2 ^ 32 ∣ t₀ + i * period.toNat)
    (hzero : 2 ^ 32 ∣ t₀ + n * period.toNat) :
    fired period (t₀ :: (dueTimes period.toNat n t₀ ++ [t₀ + n * period.toNat])) =
      t₀ :: (dueTimes period.toNat n t₀ ++ [t₀ + n * period.toNat]) := by
  rw [fired, firedFrom_zero, firedFrom_dueTimes hne, (ofNat_eq_zero_iff _).mpr hzero,
    firedFrom_zero]
  rfl

/-- A multiple of the period behind `t₀` is 0 modulo the range of the counter exactly if the
common divisor divides `t₀`. -/
theorem exists_dvd_add_mul_iff (p m t₀ : Nat) (hm : 0 < m) :
    (∃ j, m ∣ t₀ + j * p) ↔ p.gcd m ∣ t₀ := by
  constructor
  · rintro ⟨j, hj⟩
    have hsum : p.gcd m ∣ t₀ + j * p := (Nat.gcd_dvd_right p m).trans hj
    exact (Nat.dvd_add_left ((Nat.gcd_dvd_left p m).mul_left j)).mp hsum
  · intro h
    obtain ⟨x, y, hxy⟩ := Int.gcd_dvd_iff.mp (show Int.gcd p m ∣ t₀ from h)
    have hpos : (0 : Int) < m := by exact_mod_cast hm
    have hmod : ((-x % m).toNat : Int) = -x % m :=
      Int.toNat_of_nonneg (Int.emod_nonneg _ (ne_of_gt hpos))
    have hx : -x % m = -x - m * (-x / m) := Int.emod_def _ _
    refine ⟨(-x % m).toNat, ?_⟩
    rw [← Int.natCast_dvd_natCast]
    refine ⟨y - p * (-x / m), ?_⟩
    rw [cast_add, cast_mul, hmod, hx, hxy]
    ring

/-- **Never early.**  A task of a period whose first run is at `t₀` never runs early,
whenever it is polled, exactly if the common divisor of the period and `2 ^ 32` does not
divide `t₀`. -/
theorem notYet_neverEarly_iff (period : BitVec 32) (hne : period ≠ 0)
    (hperiod : period.toNat < 2 ^ 31) (t₀ : Nat) :
    (∀ ts, Polls (t₀ :: ts) → NeverEarly period.toNat t₀ (fired period (t₀ :: ts))) ↔
      ¬period.toNat.gcd (2 ^ 32) ∣ t₀ := by
  rw [← exists_dvd_add_mul_iff _ _ _ (by decide : 0 < 2 ^ 32)]
  constructor
  · -- The first multiple that is 0 is polled twice.
    intro hnever hexists
    obtain ⟨n, hzero, hfirst⟩ : ∃ n, 2 ^ 32 ∣ t₀ + n * period.toNat ∧
        ∀ i < n, ¬2 ^ 32 ∣ t₀ + i * period.toNat :=
      ⟨Nat.find hexists, Nat.find_spec hexists, fun _ hi => Nat.find_min hexists hi⟩
    have hruns := hnever _ (polls_dueTimes hperiod n t₀)
    rw [fired_sentinel hfirst hzero] at hruns
    have hlast := hruns (n + 1) (t₀ + n * period.toNat) (by
      rw [List.getElem?_cons_succ, List.getElem?_append_right (by rw [length_dueTimes]),
        length_dueTimes, Nat.sub_self]
      rfl)
    have hpos : 0 < period.toNat := Nat.pos_of_ne_zero fun h => hne (eq_of_toNat_eq h)
    rw [Nat.succ_mul] at hlast
    omega
  · intro hexists ts hpolls
    have hno : ∀ j, ¬2 ^ 32 ∣ t₀ + j * period.toNat := fun j hj => hexists ⟨j, hj⟩
    have hsorted : (t₀ :: ts).Pairwise (· ≤ ·) :=
      List.isChain_iff_pairwise.mp (hpolls.imp fun _ _ h => h.1)
    have hrest := List.pairwise_cons.mp hsorted
    rintro (_ | k) t ht
    · cases ht
      exact Nat.le_of_eq (by rw [Nat.zero_mul, Nat.add_zero])
    · rw [← add_succ_mul]
      exact firedFrom_ge hperiod hno hrest.1 hrest.2 k t ht

/-- The period of `bootp_poll`, first run at an odd time. -/
theorem notYet_neverEarly_odd :
    Polls [1, 500, 1001, 2000, 2001] ∧
      NeverEarly 1000 1 (fired 1000 [1, 500, 1001, 2000, 2001]) :=
  ⟨by decide, (notYet_neverEarly_iff 1000 (by decide) (by decide) 1).mpr (by decide) _ (by decide)⟩

/-- One second before the counter wraps: the run at the wrap leaves 0 behind, and the next
tick is taken for the first. -/
theorem notYet_early_at_wrap :
    Polls [4294966296, 4294967296, 4294967297] ∧
      ¬NeverEarly 1000 4294966296 (fired 1000 [4294966296, 4294967296, 4294967297]) := by
  have hruns : fired 1000 [4294966296, 4294967296, 4294967297] =
      [4294966296, 4294967296, 4294967297] := by decide
  refine ⟨by decide, fun h => ?_⟩
  have hlast := h 2 4294967297 (by rw [hruns]; rfl)
  omega

end Wrpc.Tasks
