/-
# Fields of a word, put together with shifts and ors

A word is made of fields by `v₁ << s₁ | v₂ << s₂ | …`, a field is replaced by
`(x & ~(mask << s)) | v << s`, and read with `extractLsb'`.  What is read at `s` is what
was put there, and what was put elsewhere is not seen.
-/
import Mathlib.Tactic.Common

namespace Wrpc.BitField

open BitVec

variable {w n k s t : Nat}

/-- `v << s`, in a word of `w` bits. -/
def put (w : Nat) (v : BitVec n) (s : Nat) : BitVec w := v.setWidth w <<< s

/-- `x & ~(mask << s)`, with `n` bits in the mask. -/
def clear (x : BitVec w) (n s : Nat) : BitVec w := x &&& ~~~put w (BitVec.allOnes n) s

theorem getLsbD_put (v : BitVec n) (h : s + n ≤ w) (i : Nat) :
    (put w v s).getLsbD i = (decide (s ≤ i) && v.getLsbD (i - s)) := by
  rw [put, getLsbD_shiftLeft, getLsbD_setWidth]
  by_cases hs : s ≤ i
  · by_cases hn : i - s < n
    · have hw : i < w := by omega
      have hw' : i - s < w := by omega
      simp [hs, hw, hw', Nat.not_lt_of_le hs]
    · rw [getLsbD_of_ge v (i - s) (Nat.le_of_not_lt hn)]
      simp
  · have hlt : i < s := Nat.lt_of_not_le hs
    simp [hs, hlt]

theorem get_put (v : BitVec n) (h : s + n ≤ w) : (put w v s).extractLsb' s n = v := by
  refine eq_of_getLsbD_eq fun i hi => ?_
  rw [getLsbD_extractLsb', getLsbD_put v h]
  simp [hi]

theorem get_put_of_disjoint (v : BitVec n) (h : s + n ≤ w) (hd : t + k ≤ s ∨ s + n ≤ t) :
    (put w v s).extractLsb' t k = 0#k := by
  refine eq_of_getLsbD_eq fun i hi => ?_
  rw [getLsbD_extractLsb', getLsbD_put v h]
  rcases hd with hd | hd
  · have hlt : ¬s ≤ t + i := by omega
    simp [hlt]
  · rw [getLsbD_of_ge v (t + i - s) (by omega)]
    simp

variable (x : BitVec w)

theorem get_clear_of_disjoint (h : s + n ≤ w) (hd : t + k ≤ s ∨ s + n ≤ t)
    (ht : t + k ≤ w) : (clear x n s).extractLsb' t k = x.extractLsb' t k := by
  refine eq_of_getLsbD_eq fun i hi => ?_
  have hw : t + i < w := by omega
  have hout : (decide (s ≤ t + i) && (BitVec.allOnes n).getLsbD (t + i - s)) = false := by
    rcases hd with hd | hd
    · have hlt : ¬s ≤ t + i := by omega
      simp only [hlt, decide_false, Bool.false_and]
    · rw [getLsbD_of_ge _ _ (by omega), Bool.and_false]
  simp only [clear, getLsbD_extractLsb', getLsbD_and, getLsbD_not,
    getLsbD_put _ h, hout, hi, hw, decide_true, Bool.not_false, Bool.and_true, Bool.true_and]

theorem get_extract (h : t + k ≤ n) :
    (x.extractLsb' s n).extractLsb' t k = x.extractLsb' (s + t) k := by
  refine eq_of_getLsbD_eq fun i hi => ?_
  have hn : t + i < n := by omega
  simp [hi, hn, Nat.add_assoc]

theorem append_inj (x x' : BitVec n) (y y' : BitVec k) :
    x ++ y = x' ++ y' ↔ x = x' ∧ y = y' := by
  constructor
  · intro h
    have hhigh := congrArg (BitVec.extractLsb' k n) h
    have hlow := congrArg (BitVec.extractLsb' 0 k) h
    simp only [extractLsb'_append_eq_left] at hhigh
    simp only [extractLsb'_append_eq_right] at hlow
    exact ⟨hhigh, hlow⟩
  · rintro ⟨rfl, rfl⟩
    rfl

theorem clear_or_put (u v : BitVec n) (h : s + n ≤ w)
    (hx : x.extractLsb' s n = 0#n) :
    clear (x ||| put w u s) n s ||| put w v s = x ||| put w v s := by
  refine eq_of_getLsbD_eq fun i hi => ?_
  simp only [clear, getLsbD_or, getLsbD_and, getLsbD_not, getLsbD_put _ h, hi,
    decide_true, Bool.true_and, getLsbD_allOnes]
  by_cases hin : s ≤ i ∧ i - s < n
  · have hbit := congrArg (BitVec.getLsbD · (i - s)) hx
    simp only [getLsbD_extractLsb', hin.2, decide_true, Bool.true_and,
      Nat.add_sub_cancel' hin.1, getLsbD_zero] at hbit
    simp [hin.1, hin.2, hbit]
  · have hu : (decide (s ≤ i) && u.getLsbD (i - s)) = false := by
      by_cases hs : s ≤ i
      · rw [getLsbD_of_ge u _ (by omega), Bool.and_false]
      · simp [hs]
    have hone : (decide (s ≤ i) && decide (i - s < n)) = false := by simpa using hin
    simp [hu, hone]

theorem extract_clear_or_put (v : BitVec n) (h : s + n ≤ k) (hk : k ≤ w) :
    (clear x n s ||| put w v s).extractLsb' 0 k = clear (x.extractLsb' 0 k) n s ||| put k v s := by
  refine eq_of_getLsbD_eq fun i hi => ?_
  have hw : s + n ≤ w := Nat.le_trans h hk
  have hi' : i < w := Nat.lt_of_lt_of_le hi hk
  simp only [clear, getLsbD_extractLsb', getLsbD_or, getLsbD_and,
    getLsbD_not, getLsbD_put _ h, getLsbD_put _ hw, hi, hi', decide_true, Bool.true_and,
    Nat.zero_add]

end Wrpc.BitField
