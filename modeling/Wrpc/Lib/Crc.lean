/-
# Shift-register checksums detect a single changed symbol

A checksum register is folded over a list of symbols.  If one symbol's update
is injective in the register and injective in the symbol, then changing one
symbol changes the final register, whatever follows: the difference enters at
the changed symbol and no later update can merge it away.

`lfsrStep poly` is the bitwise step of an MSB-first shift register.  It is
injective exactly because an odd `poly` leaves a trace in bit 0 of the bit
that was shifted out.
-/
import Mathlib.Logic.Function.Iterate

namespace Wrpc.Crc

section Fold

universe u v
variable {ρ : Type u} {α : Type v} {f : ρ → α → ρ}

theorem foldl_injective (hreg : ∀ a, Function.Injective fun r => f r a) :
    ∀ (l : List α), Function.Injective fun r => l.foldl f r
  | [] => fun _ _ h => h
  | a :: l => fun _ _ h => hreg a (foldl_injective hreg l h)

theorem foldl_ne_of_set (hreg : ∀ a, Function.Injective fun r => f r a)
    (hsym : ∀ r, Function.Injective (f r)) :
    ∀ {l : List α} {i : Nat} {a b : α} (r : ρ), l[i]? = some a → b ≠ a →
      (l.set i b).foldl f r ≠ l.foldl f r
  | [], i, _, _, _, h, _ => by simp at h
  | x :: l, 0, a, b, r, h, hb => by
    intro heq
    have hx : x = a := by simpa using h
    have hfr : f r b = f r x := foldl_injective hreg l heq
    exact hb ((hsym r hfr).trans hx)
  | x :: l, i + 1, a, b, r, h, hb => by
    have h' : l[i]? = some a := by simpa using h
    simpa using foldl_ne_of_set hreg hsym (f r x) h' hb

end Fold

variable {w : Nat}

/-- One bit of an MSB-first shift register with feedback `poly`. -/
def lfsrStep (poly x : BitVec w) : BitVec w :=
  if x.msb then (x <<< 1) ^^^ poly else x <<< 1

theorem getLsbD_zero_lfsrStep {poly x : BitVec w} (hp : poly.getLsbD 0 = true) :
    (lfsrStep poly x).getLsbD 0 = x.msb := by
  unfold lfsrStep
  split
  · rename_i hx
    simp [hp, hx]
  · rename_i hx
    simp [Bool.eq_false_iff.mpr hx]

theorem eq_of_shiftLeft_one_eq {x y : BitVec w} (hm : x.msb = y.msb)
    (h : x <<< 1 = y <<< 1) : x = y := by
  apply BitVec.eq_of_getLsbD_eq
  intro i hi
  by_cases htop : i + 1 = w
  · have hx : x.msb = x.getLsbD i := by
      rw [BitVec.msb_eq_getLsbD_last]; congr 1; omega
    have hy : y.msb = y.getLsbD i := by
      rw [BitVec.msb_eq_getLsbD_last]; congr 1; omega
    rw [← hx, ← hy, hm]
  · have := congrArg (fun z : BitVec w => z.getLsbD (i + 1)) h
    have hlt : i + 1 < w := by omega
    simpa only [BitVec.getLsbD_shiftLeft, hlt, decide_true, Bool.true_and,
      Nat.not_lt.mpr (Nat.le_add_left 1 i), decide_false, Bool.not_false,
      Nat.add_sub_cancel] using this

theorem lfsrStep_injective {poly : BitVec w} (hp : poly.getLsbD 0 = true) :
    Function.Injective (lfsrStep poly) := by
  intro x y h
  -- bit 0 of the result says which branch was taken
  have hm : x.msb = y.msb := by
    rw [← getLsbD_zero_lfsrStep hp, ← getLsbD_zero_lfsrStep hp, h]
  refine eq_of_shiftLeft_one_eq hm ?_
  unfold lfsrStep at h
  rw [hm] at h
  split at h
  · exact (BitVec.xor_left_inj poly).mp h
  · exact h

end Wrpc.Crc
