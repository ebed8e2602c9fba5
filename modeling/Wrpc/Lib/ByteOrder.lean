/-
# `memcmp`, its result in a signed char, and the order of byte strings

`memcmp a b` is the difference of the first bytes in which two strings differ, over
the length of the shorter one.  Its sign, and the lengths where it is zero, are the
lexicographic order (`lt_iff_memcmp`).  `cmp8` is the difference after it went
through a signed char: the sign is lost when the difference does not fit
(`cmp8_of_close` for those that do), but never the difference itself
(`cmp8_eq_zero`).
-/
import Wrpc.Lib.Mem

namespace Wrpc

open List

/-- The difference of the first bytes that differ, over the common length. -/
def memcmp : List Byte → List Byte → Int
  | a :: as, b :: bs => if a = b then memcmp as bs else a.toNat - b.toNat
  | _, _ => 0

def toInt8 (d : Int) : Int := Int.bmod d 256

/-- `memcmp` stored in a signed char. -/
def cmp8 (a b : List Byte) : Int := toInt8 (memcmp a b)

theorem memcmp_nil_left (b : List Byte) : memcmp [] b = 0 := by
  cases b with
  | nil => rfl
  | cons b bs => rfl

theorem memcmp_nil_right (a : List Byte) : memcmp a [] = 0 := by
  cases a with
  | nil => rfl
  | cons a as => rfl

theorem memcmp_cons_same (a : Byte) (as bs : List Byte) :
    memcmp (a :: as) (a :: bs) = memcmp as bs := if_pos rfl

theorem memcmp_cons_ne {a b : Byte} (h : a ≠ b) (as bs : List Byte) :
    memcmp (a :: as) (b :: bs) = a.toNat - b.toNat := if_neg h

theorem toNat_sub_ne {a b : Byte} (h : a ≠ b) : (a.toNat : Int) - b.toNat ≠ 0 := by
  have := BitVec.toNat_inj.not.mpr h
  omega

/-! ## What the difference says -/

theorem memcmp_range : ∀ a b : List Byte, -255 ≤ memcmp a b ∧ memcmp a b ≤ 255
  | [], b => by
    rw [memcmp_nil_left]
    decide
  | a :: as, [] => by
    rw [memcmp_nil_right]
    decide
  | a :: as, b :: bs => by
    by_cases h : a = b
    · rw [h, memcmp_cons_same]
      exact memcmp_range as bs
    · rw [memcmp_cons_ne h]
      omega

theorem memcmp_swap : ∀ a b : List Byte, memcmp b a = -memcmp a b
  | [], b => by rw [memcmp_nil_left, memcmp_nil_right, Int.neg_zero]
  | a :: as, [] => by rw [memcmp_nil_left, memcmp_nil_right, Int.neg_zero]
  | a :: as, b :: bs => by
    by_cases h : a = b
    · rw [h, memcmp_cons_same, memcmp_cons_same]
      exact memcmp_swap as bs
    · rw [memcmp_cons_ne h, memcmp_cons_ne (Ne.symm h)]
      omega

theorem memcmp_append : ∀ p a b : List Byte, memcmp (p ++ a) (p ++ b) = memcmp a b
  | [], _, _ => rfl
  | c :: p, a, b => by
    rw [cons_append, cons_append, memcmp_cons_same]
    exact memcmp_append p a b

theorem memcmp_self_append (p b : List Byte) : memcmp p (p ++ b) = 0 := by
  have h := memcmp_append p [] b
  rwa [append_nil, memcmp_nil_left] at h

theorem memcmp_append_of_ne : ∀ {a b : List Byte}, memcmp a b ≠ 0 → ∀ x y : List Byte,
    memcmp (a ++ x) (b ++ y) = memcmp a b
  | [], b, h, _, _ => absurd (memcmp_nil_left b) h
  | a :: as, [], h, _, _ => absurd (memcmp_nil_right (a :: as)) h
  | a :: as, b :: bs, h, x, y => by
    rw [cons_append, cons_append]
    by_cases hab : a = b
    · subst hab
      rw [memcmp_cons_same] at h
      rw [memcmp_cons_same, memcmp_cons_same, memcmp_append_of_ne h]
    · rw [memcmp_cons_ne hab, memcmp_cons_ne hab]

theorem prefix_of_memcmp : ∀ {a b : List Byte}, memcmp a b = 0 → a.length ≤ b.length → a <+: b
  | [], _, _, _ => nil_prefix
  | a :: as, [], _, h => absurd h (Nat.not_succ_le_zero _)
  | a :: as, b :: bs, h, hlen => by
    by_cases hab : a = b
    · subst hab
      rw [memcmp_cons_same] at h
      exact prefix_cons_inj a |>.mpr (prefix_of_memcmp h (Nat.le_of_succ_le_succ hlen))
    · rw [memcmp_cons_ne hab] at h
      exact absurd h (toNat_sub_ne hab)

variable {a b : List Byte}

theorem memcmp_eq_zero_of_prefixed (h : a <+: b) : memcmp a b = 0 := by
  obtain ⟨t, rfl⟩ := h
  exact memcmp_self_append a t

theorem memcmp_take : ∀ {k : Nat} {a b : List Byte}, a.length ≤ k ∨ b.length ≤ k →
    memcmp (a.take k) (b.take k) = memcmp a b
  | k, [], b, _ => by rw [take_nil, memcmp_nil_left, memcmp_nil_left]
  | k, a :: as, [], _ => by rw [take_nil, memcmp_nil_right, memcmp_nil_right]
  | 0, a :: as, b :: bs, h => by
    rcases h with h | h
    · exact absurd h (Nat.not_succ_le_zero _)
    · exact absurd h (Nat.not_succ_le_zero _)
  | k + 1, a :: as, b :: bs, h => by
    have hk : as.length ≤ k ∨ bs.length ≤ k :=
      h.imp Nat.le_of_succ_le_succ Nat.le_of_succ_le_succ
    rw [take_succ_cons, take_succ_cons]
    by_cases hab : a = b
    · subst hab
      rw [memcmp_cons_same, memcmp_cons_same, memcmp_take hk]
    · rw [memcmp_cons_ne hab, memcmp_cons_ne hab]

theorem memcmp_take_right : ∀ (n : Nat) (a b : List Byte),
    memcmp a (b.take n) = 0 ∨ memcmp a (b.take n) = memcmp a b
  | n, [], b => by
    left
    exact memcmp_nil_left _
  | n, a :: as, [] => by
    right
    rw [take_nil]
  | 0, a :: as, b :: bs => by
    left
    exact memcmp_nil_right _
  | n + 1, a :: as, b :: bs => by
    rw [take_succ_cons]
    by_cases hab : a = b
    · subst hab
      rw [memcmp_cons_same, memcmp_cons_same]
      exact memcmp_take_right n as bs
    · right
      rw [memcmp_cons_ne hab, memcmp_cons_ne hab]

theorem lt_iff_memcmp : ∀ a b : List Byte,
    a < b ↔ memcmp a b < 0 ∨ memcmp a b = 0 ∧ a.length < b.length
  | [], [] => by decide
  | [], b :: bs => by
    exact ⟨fun _ => .inr ⟨rfl, Nat.succ_pos _⟩, fun _ => nil_lt_cons b bs⟩
  | a :: as, [] => by
    refine ⟨fun h => absurd h (not_lt_nil _), ?_⟩
    rintro (h | ⟨-, h⟩)
    · exact absurd h (Int.lt_irrefl 0)
    · exact absurd h (Nat.not_lt_zero _)
  | a :: as, b :: bs => by
    rw [cons_lt_cons_iff]
    by_cases hab : a = b
    · subst hab
      rw [memcmp_cons_same, lt_iff_memcmp as bs, length_cons, length_cons,
        Nat.add_lt_add_iff_right]
      simp
    · rw [memcmp_cons_ne hab, BitVec.lt_def]
      have hne := toNat_sub_ne hab
      constructor
      · rintro (h | ⟨h, -⟩)
        · exact .inl (by omega)
        · exact absurd h hab
      · rintro (h | ⟨h, -⟩)
        · exact .inl (by omega)
        · exact absurd h hne

theorem append_lt_append (p a b : List Byte) : p ++ a < p ++ b ↔ a < b := by
  rw [lt_iff_memcmp, lt_iff_memcmp, memcmp_append, length_append, length_append,
    Nat.add_lt_add_iff_left]

def Close (a b : List Byte) : Prop := -128 ≤ memcmp a b ∧ memcmp a b ≤ 127

instance (a b : List Byte) : Decidable (Close a b) := inferInstanceAs (Decidable (_ ∧ _))

theorem cmp8_of_close (h : Close a b) : cmp8 a b = memcmp a b :=
  Int.bmod_eq_of_le (by have := h.1; omega) (by have := h.2; omega)

theorem cmp8_eq_zero : cmp8 a b = 0 ↔ memcmp a b = 0 := by
  have hrange := memcmp_range a b
  constructor
  · intro h
    have hdvd : ((256 : Nat) : Int) ∣ memcmp a b := Int.dvd_of_bmod_eq_zero h
    omega
  · intro h
    rw [cmp8, h]
    rfl

theorem cmp8_append_of_ne (h : memcmp a b ≠ 0) (x y : List Byte) :
    cmp8 (a ++ x) (b ++ y) = cmp8 a b :=
  congrArg toInt8 (memcmp_append_of_ne h x y)

end Wrpc
