/-
# The delay calibration (`lib/usleep.c`)

`usleep_init` doubles the number of loops until a delay of that many lasts over a timer tick, then
halves the interval it is in.  `verify_lpj` is a parameter: what it returns is up to the processor.
The values it is called with are returned beside the result.
-/
import Mathlib.Algebra.Order.Ring.Nat

namespace Wrpc.Usleep

open Nat

variable (verifyLpj : Nat → Nat)

/-- `while (verify_lpj(lpj) == 0)`, for as many turns as there is fuel. -/
def increase : Nat → Nat → Nat → Option (Nat × Nat × List Nat)
  | 0, _, _ => none
  | fuel + 1, lpj, step =>
    if verifyLpj lpj = 0 then
      (increase fuel (lpj + step) (step * 2)).map fun (l, s, calls) => (l, s, lpj :: calls)
    else some (lpj, step, [lpj])

/-- `while (step)` -/
def search (step lpj : Nat) : Nat × List Nat :=
  if step = 0 then (lpj, [])
  else
    let testLpj := lpj + step
    let lpj := if verifyLpj testLpj = 0 then testLpj else lpj
    let r := search (step / 2) lpj
    (r.1, testLpj :: r.2)
termination_by step
decreasing_by omega

/-- `usleep_init`: the value of `usleep_lpj`, and the calls of `verify_lpj`. -/
def usleepInit (fuel : Nat) : Option (Nat × List Nat) :=
  (increase verifyLpj fuel 1024 1024).map fun (lpj, step, calls) =>
    let r := search verifyLpj (step / 4) (lpj / 2)
    (r.1, calls ++ r.2)

variable {verifyLpj} {L : Nat} (hverify : ∀ n, verifyLpj n = 0 ↔ n < L)

include hverify

theorem increase_spec : ∀ (fuel k : Nat), 2 ^ k < 2 * L → L ≤ 2 ^ (k + fuel) →
    ∃ j calls, increase verifyLpj (fuel + 1) (2 ^ k) (2 ^ k) = some (2 ^ j, 2 ^ j, calls) ∧
      L ≤ 2 ^ j ∧ 2 ^ j < 2 * L ∧ ∀ n ∈ calls, n ≤ 2 * L := by
  intro fuel
  induction fuel with
  | zero =>
    intro k hlt hle
    have hover : ¬verifyLpj (2 ^ k) = 0 := by rw [hverify]; exact hle.not_gt
    exact ⟨k, [2 ^ k], by rw [increase, if_neg hover], hle, hlt, by simpa using hlt.le⟩
  | succ fuel ih =>
    intro k hlt hle
    rw [increase]
    split
    case isTrue hunder =>
      rw [hverify] at hunder
      rw [← two_mul, mul_comm, ← Nat.pow_succ]
      rw [← add_assoc, add_right_comm] at hle
      obtain ⟨j, calls, heq, hj, hj', hcalls⟩ := ih (k + 1) (by rw [Nat.pow_succ]; omega) hle
      rw [heq]
      exact ⟨j, 2 ^ k :: calls, rfl, hj, hj', List.forall_mem_cons.2 ⟨hlt.le, hcalls⟩⟩
    case isFalse hover =>
      rw [hverify] at hover
      exact ⟨k, [2 ^ k], rfl, by omega, hlt, by simpa using hlt.le⟩

theorem search_spec : ∀ (j lpj : Nat), lpj < L → L ≤ lpj + 2 ^ (j + 1) → 2 ^ j ≤ L →
    (search verifyLpj (2 ^ j) lpj).1 = L - 1 ∧
      ∀ n ∈ (search verifyLpj (2 ^ j) lpj).2, n ≤ 2 * L := by
  intro j
  induction j with
  | zero =>
    intro lpj hlt hle hstep
    have htest := hverify (lpj + 1)
    rw [search, if_neg (Nat.two_pow_pos 0).ne']
    simp only [Nat.pow_zero, show 1 / 2 = 0 from rfl, List.forall_mem_cons]
    rw [search, if_pos rfl]
    split <;> exact ⟨by simp only; omega, by omega, fun _ hn => (nomatch hn)⟩
  | succ j ih =>
    intro lpj hlt hle hstep
    have htest := hverify (lpj + 2 ^ (j + 1))
    rw [Nat.pow_succ 2 (j + 1)] at hle
    have hhalf : 2 ^ (j + 1) / 2 = 2 ^ j := by rw [Nat.pow_succ, Nat.mul_div_cancel _ Nat.two_pos]
    rw [search, if_neg (Nat.two_pow_pos _).ne', hhalf]
    simp only [List.forall_mem_cons]
    split
    case isTrue hunder =>
      have := ih (lpj + 2 ^ (j + 1)) (by omega) (by omega) (by omega)
      exact ⟨this.1, by omega, this.2⟩
    case isFalse hover =>
      have := ih lpj hlt (by omega) (by omega)
      exact ⟨this.1, by omega, this.2⟩

/-- **The calibration ends at the last number of loops within a tick**, and never tries twice the
first one beyond it. -/
theorem usleepInit_eq (hlo : 1024 < L) (hhi : L ≤ 2 ^ 29) {fuel : Nat} (hfuel : 20 ≤ fuel) :
    ∃ calls, usleepInit verifyLpj fuel = some (L - 1, calls) ∧ ∀ n ∈ calls, n ≤ 2 * L := by
  obtain ⟨fuel, rfl⟩ : ∃ f, fuel = f + 1 := ⟨fuel - 1, by omega⟩
  have hmax : L ≤ 2 ^ (10 + fuel) := hhi.trans (Nat.pow_le_pow_right Nat.two_pos (by omega))
  obtain ⟨j, calls, heq, hj, hj', hcalls⟩ := increase_spec hverify fuel 10 (by omega) hmax
  obtain ⟨i, rfl⟩ : ∃ i, j = i + 2 := by
    have : 10 < j := (Nat.pow_lt_pow_iff_right Nat.one_lt_two).1 (hlo.trans_le hj)
    exact ⟨j - 2, by omega⟩
  have hfour : 2 ^ (i + 2) = 2 ^ i * 4 := Nat.pow_add ..
  have htwo : 2 ^ (i + 1) = 2 ^ i * 2 := Nat.pow_succ ..
  obtain ⟨hlast, hcalls'⟩ := search_spec hverify i (2 ^ i * 2) (by omega) (by omega) (by omega)
  refine ⟨calls ++ (search verifyLpj (2 ^ i) (2 ^ i * 2)).2, ?_, fun n hn => ?_⟩
  · rw [usleepInit, show increase verifyLpj (fuel + 1) 1024 1024 = _ from heq]
    simp only [Option.map_some, hfour]
    rw [Nat.mul_div_cancel _ (by omega), show 2 ^ i * 4 / 2 = 2 ^ i * 2 by omega, hlast]
  · exact (List.mem_append.1 hn).elim (hcalls n) (hcalls' n)

omit hverify in
theorem usleepInit_eq_spec : ∃ calls,
    usleepInit (fun n => if n < 20800 then 0 else 1) 20 = some (20799, calls) ∧
      ∀ n ∈ calls, n ≤ 2 * 20800 :=
  usleepInit_eq (L := 20800) (fun n => by split <;> omega) (by decide) (by decide) (Nat.le_refl 20)

end Wrpc.Usleep
