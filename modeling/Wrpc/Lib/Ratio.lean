/-
# Counting one clock in periods of another

Two clocks with a rational ratio: `ref` periods of the one last as long as `fb`
periods of the other.  After `j` slow periods `k` fast ones have begun,

    j * ref ≤ k * fb < j * ref + fb,

and with `fb ≤ ref ≤ 2 * fb` each slow period has one fast period or two.  A
counter of `k` modulo `ref` is enough to tell which.
-/
import Mathlib.Tactic.Ring
import Mathlib.Tactic.Linarith

namespace Wrpc.Ratio

structure Slower (ref fb : Int) : Prop where
  pos : 0 < fb
  le : fb ≤ ref
  le_two : ref ≤ 2 * fb

/-- `k` fast periods have begun before the slow period `j`. -/
structure Aligned (ref fb : Int) (j k : Nat) : Prop where
  le : j * ref ≤ k * fb
  lt : k * fb < j * ref + fb

section

variable {ref fb : Int} {j k : Nat}

theorem Aligned.zero (h : Slower ref fb) : Aligned ref fb 0 0 := by
  have := h.pos
  constructor <;> simp only [Nat.cast_zero, Int.zero_mul] <;> omega

theorem Aligned.emod (h : Aligned ref fb j k) (hr : Slower ref fb) :
    k * fb % ref = k * fb - j * ref := by
  have hlt : k * fb - j * ref < ref := by linarith [h.lt, hr.le]
  have hle : 0 ≤ k * fb - j * ref := by linarith [h.le]
  rw [show (k * fb : Int) = (k * fb - j * ref) + j * ref by ring, Int.add_mul_emod_self_right,
    Int.emod_eq_of_lt hle hlt]
  ring

/-- Two fast periods begin in the slow period `j`. -/
def Double (ref fb : Int) (k : Nat) : Prop := k * fb % ref + fb < ref

instance (ref fb : Int) (k : Nat) : Decidable (Double ref fb k) :=
  inferInstanceAs (Decidable (_ < _))

theorem Aligned.double (h : Aligned ref fb j k) (hr : Slower ref fb) (hd : Double ref fb k) :
    Aligned ref fb (j + 1) (k + 2) := by
  rw [Double, h.emod hr] at hd
  constructor
  · push_cast
    linarith [h.le, hr.le_two]
  · push_cast
    linarith

theorem Aligned.single (h : Aligned ref fb j k) (hr : Slower ref fb) (hd : ¬Double ref fb k) :
    Aligned ref fb (j + 1) (k + 1) := by
  rw [Double, h.emod hr] at hd
  constructor
  · push_cast
    linarith
  · push_cast
    linarith [h.lt, hr.le]

theorem Aligned.window {n : Nat} {fb : Nat} (h : Aligned ref fb j k)
    (h' : Aligned ref fb (j + fb) (k + n)) : (n : Int) = ref := by
  obtain ⟨hle, hlt⟩ := h
  obtain ⟨hle', hlt'⟩ := h'
  push_cast at hle' hlt'
  have hlow : (fb : Int) * (ref - n) < fb * 1 := by linarith
  have hhigh : (fb : Int) * (n - ref) < fb * 1 := by linarith
  have h₁ := lt_of_mul_lt_mul_left hlow (Int.natCast_nonneg fb)
  have h₂ := lt_of_mul_lt_mul_left hhigh (Int.natCast_nonneg fb)
  omega

/-! ## The counter -/

theorem count_mul (k : Nat) (ref fb : Int) :
    (k % ref : Int) * fb = k * fb + ref * (-(k / ref) * fb) := by
  have h := Int.emod_add_mul_ediv k ref
  rw [show (k % ref : Int) = k - ref * (k / ref) by omega]
  ring

theorem count_succ_mul (k : Nat) (ref fb : Int) :
    ((k % ref : Int) + 1) * fb = ((k + 1 : Nat) : Int) * fb + ref * (-(k / ref) * fb) := by
  rw [Int.add_mul, count_mul]
  push_cast
  ring

theorem count_succ_emod (k : Nat) (ref fb : Int) :
    ((k % ref : Int) + 1) * fb % ref = ((k + 1 : Nat) : Int) * fb % ref := by
  rw [count_succ_mul, Int.add_mul_emod_self_left]

theorem count_ediv_eq_iff (hr : Slower ref fb) (k : Nat) :
    (k % ref : Int) * fb / ref = ((k % ref : Int) + 1) * fb / ref ↔ Double ref fb k := by
  have hpos : 0 < ref := by linarith [hr.pos, hr.le]
  rw [count_mul, count_succ_mul, Int.add_mul_ediv_left _ _ hpos.ne',
    Int.add_mul_ediv_left _ _ hpos.ne', Double]
  have hsplit := Int.emod_add_mul_ediv (k * fb) ref
  have hnonneg := Int.emod_nonneg (k * fb) hpos.ne'
  have hnext : (((k + 1 : Nat) : Int) * fb) / ref =
      k * fb / ref + (k * fb % ref + fb) / ref := by
    rw [show ((k + 1 : Nat) : Int) * fb = (k * fb % ref + fb) + ref * (k * fb / ref) by
      push_cast
      linarith, Int.add_mul_ediv_left _ _ hpos.ne']
    ring
  rw [hnext]
  constructor
  · intro h
    have hzero : (k * fb % ref + fb) / ref = 0 := by omega
    have hsplit' := Int.emod_add_mul_ediv (k * fb % ref + fb) ref
    have hlt' := Int.emod_lt_of_pos (k * fb % ref + fb) hpos
    rw [hzero, Int.mul_zero] at hsplit'
    linarith
  · intro h
    rw [Int.ediv_eq_zero_of_lt (by linarith [hr.pos]) h]
    omega

theorem Double.emod (hr : Slower ref fb) (hd : Double ref fb k) :
    ((k + 1 : Nat) : Int) * fb % ref = k * fb % ref + fb := by
  have hpos : 0 < ref := by linarith [hr.pos, hr.le]
  have hnonneg := Int.emod_nonneg (k * fb) hpos.ne'
  rw [show ((k + 1 : Nat) : Int) * fb = k * fb + fb by push_cast; ring, ← Int.emod_add_emod]
  exact Int.emod_eq_of_lt (by linarith [hr.pos]) hd

theorem Double.count_lt (hr : Slower ref fb) (hd : Double ref fb k) :
    (k % ref : Int) + 1 < ref := by
  have hpos : 0 < ref := by linarith [hr.pos, hr.le]
  have hlt := Int.emod_lt_of_pos k hpos
  by_contra hlast
  have hcount : (k % ref : Int) + 1 = ref := by omega
  have hzero : ((k + 1 : Nat) : Int) * fb % ref = 0 := by
    rw [← count_succ_emod, hcount, Int.mul_emod_right]
  have hnonneg := Int.emod_nonneg (k * fb) hpos.ne'
  rw [hd.emod hr] at hzero
  linarith [hr.pos]

theorem count_succ (hpos : 0 < ref) (k : Nat) :
    ((k + 1 : Nat) : Int) % ref = if (k % ref : Int) + 1 = ref then 0 else (k % ref : Int) + 1 := by
  have hlt := Int.emod_lt_of_pos k hpos
  have hnonneg := Int.emod_nonneg k hpos.ne'
  rw [show ((k + 1 : Nat) : Int) = k + 1 by push_cast; rfl, ← Int.emod_add_emod]
  split
  case isTrue h => rw [h, Int.emod_self]
  case isFalse h => exact Int.emod_eq_of_lt (by omega) (by omega)

end

end Wrpc.Ratio
