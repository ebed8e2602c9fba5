/-
# One's-complement sums

Digits of base `b` are added with end-around carry: a carry out of the digit is added
back in.  This is addition modulo `b - 1`, except that there are two zeroes, 0 and
`b - 1`, and that a sum is 0 only if everything in it is.  `Residue b n x` says that
the digit `x` stands for the number `n` in this sense; there is one such digit only,
and two ways to get at it:

    sum b ws    digit by digit, as the sum is defined
    fold b n    from the ordinary sum, by adding its carries in at the end
-/
import Mathlib.Data.Nat.ModEq

namespace Wrpc.Ones

open Nat

variable {n x : Nat}

def add (b x y : Nat) : Nat := if x + y < b then x + y else x + y + 1 - b

def sum (b : Nat) (ws : List Nat) : Nat := ws.foldl (add b) 0

def fold (b n : Nat) : Nat :=
  let n := n / b + n % b
  (n + n / b) % b

/-- The digit `x` stands for `n`. -/
structure Residue (b n x : Nat) : Prop where
  lt : x < b
  modEq : x ≡ n [MOD b - 1]
  zero : x = 0 ↔ n = 0

variable {b : Nat}

theorem modEq_of_add_mul {k : Nat} (h : n = (b - 1) * k + x) : x ≡ n [MOD b - 1] := by
  rw [h]
  exact (modEq_iff_dvd' (Nat.le_add_left _ _)).mpr ⟨k, by omega⟩

theorem Residue.unique {y : Nat} (hx : Residue b n x) (hy : Residue b n y) : x = y := by
  have hmod : x ≡ y [MOD b - 1] := hx.modEq.trans hy.modEq.symm
  have hzero : x = 0 ↔ y = 0 := hx.zero.trans hy.zero.symm
  have hltx := hx.lt
  have hlty := hy.lt
  -- the two digits can differ by `b - 1` only, and then one of them is 0
  rcases Nat.le_total x y with hle | hle
  · obtain ⟨k, hk⟩ := (modEq_iff_dvd' hle).mp hmod
    match k with
    | 0 => omega
    | k + 1 =>
      rw [mul_succ] at hk
      omega
  · obtain ⟨k, hk⟩ := (modEq_iff_dvd' hle).mp hmod.symm
    match k with
    | 0 => omega
    | k + 1 =>
      rw [mul_succ] at hk
      omega

theorem Residue.eq_top_iff (hb : 1 < b) (h : Residue b n x) : x = b - 1 ↔ b - 1 ∣ n ∧ n ≠ 0 := by
  constructor
  · intro hx
    have hmod := h.modEq
    rw [hx] at hmod
    refine ⟨(modEq_zero_iff_dvd).mp (hmod.symm.trans ?_), fun hn => ?_⟩
    · exact Nat.modEq_zero_iff_dvd.mpr (dvd_refl _)
    · have := h.zero.mpr hn
      omega
  · rintro ⟨hdvd, hne⟩
    apply h.unique
    refine ⟨by omega, ?_, by omega⟩
    exact (Nat.modEq_zero_iff_dvd.mpr (dvd_refl _)).trans (Nat.modEq_zero_iff_dvd.mpr hdvd).symm

/-! ## Sums -/

theorem Residue.add {w : Nat} (h : Residue b n x) (hw : w < b) : Residue b (n + w) (add b x w) := by
  have hlt := h.lt
  have hmod : x + w ≡ n + w [MOD b - 1] := h.modEq.add_right w
  have hzero := h.zero
  unfold Ones.add
  split
  · next hsmall => exact ⟨hsmall, hmod, by omega⟩
  · next hcarry =>
    refine ⟨by omega, ?_, by omega⟩
    exact (modEq_of_add_mul (k := 1) (by omega)).trans hmod

theorem residue_foldl {n x : Nat} : ∀ {ws : List Nat}, Residue b n x → (∀ w ∈ ws, w < b) →
    Residue b (n + ws.sum) (ws.foldl (add b) x)
  | [], h, _ => h
  | w :: ws, h, hws => by
    rw [List.sum_cons, ← Nat.add_assoc]
    exact residue_foldl (h.add (hws w List.mem_cons_self))
      fun v hv => hws v (List.mem_cons_of_mem _ hv)

theorem residue_sum (hb : 1 < b) {ws : List Nat} (hws : ∀ w ∈ ws, w < b) :
    Residue b ws.sum (sum b ws) := by
  have h := residue_foldl ⟨by omega, Nat.ModEq.refl 0, Iff.rfl⟩ hws
  rwa [Nat.zero_add] at h

/-- **A sum is all ones** exactly if the ordinary sum is a multiple of `b - 1` and not 0. -/
theorem sum_eq_top_iff (hb : 1 < b) {ws : List Nat} (hws : ∀ w ∈ ws, w < b) :
    sum b ws = b - 1 ↔ b - 1 ∣ ws.sum ∧ ws.sum ≠ 0 :=
  (residue_sum hb hws).eq_top_iff hb

theorem residue_fold (hb : 1 < b) (hn : n < b * b) : Residue b n (fold b n) := by
  have hq : n / b < b := Nat.div_lt_of_lt_mul hn
  have hr : n % b < b := mod_lt n (by omega)
  have hdiv : n = b * (n / b) + n % b := (div_add_mod n b).symm
  unfold fold
  dsimp only
  generalize n / b = q at *
  generalize n % b = r at *
  have hsplit : b * q = (b - 1) * q + q := by
    rw [← succ_mul]
    congr 1
    omega
  have hmod : q + r ≡ n [MOD b - 1] := modEq_of_add_mul (k := q) (by omega)
  have hzero : q + r = 0 ↔ n = 0 := by
    constructor
    · intro h
      have hq0 : q = 0 := by omega
      rw [hq0, Nat.mul_zero] at hdiv
      omega
    · intro h
      omega
  by_cases hs : q + r < b
  · rw [div_eq_of_lt hs, Nat.add_zero, mod_eq_of_lt hs]
    exact ⟨hs, hmod, hzero⟩
  · have hone : (q + r) / b = 1 := by
      rw [Nat.div_eq_iff (by omega)]
      omega
    have hval : (q + r + 1) % b = q + r + 1 - b := by
      rw [mod_eq_sub_mod (by omega)]
      exact mod_eq_of_lt (by omega)
    rw [hone, hval]
    refine ⟨by omega, ?_, by omega⟩
    exact (modEq_of_add_mul (k := 1) (by omega)).trans hmod

/-- **The complement of a sum** completes it to a multiple of `b - 1`. -/
theorem complement_completes (hb : 1 < b) (hn : n < b * b) :
    b - 1 ∣ n + (b - 1 - fold b n) ∧ n + (b - 1 - fold b n) ≠ 0 := by
  have h := residue_fold hb hn
  have hlt := h.lt
  constructor
  · have hsum : n + (b - 1 - fold b n) ≡ fold b n + (b - 1 - fold b n) [MOD b - 1] :=
      (h.modEq.add_right _).symm
    rw [Nat.add_sub_cancel' (by omega)] at hsum
    exact Nat.modEq_zero_iff_dvd.mp (hsum.trans (Nat.modEq_zero_iff_dvd.mpr (dvd_refl _)))
  · have hzero := h.zero
    omega

theorem modEq_of_fold_eq (hb : 1 < b) {m : Nat} (hn : n < b * b) (hm : m < b * b)
    (h : fold b n = fold b m) : n ≡ m [MOD b - 1] := by
  have h₁ := (residue_fold hb hn).modEq
  have h₂ := (residue_fold hb hm).modEq
  rw [h] at h₁
  exact h₁.symm.trans h₂

end Wrpc.Ones
