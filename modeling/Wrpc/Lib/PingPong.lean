/-
# Two buffers filled in turn

Samples are stored in blocks of `B`, one block in buffer 0, the next in buffer 1, and so
on: sample `k` goes to slot `k % B` of buffer `k / B % 2`.  Somebody else reads the buffers
while samples go on coming in.

The reader sees the last sample stored in each slot.  `lastWrite_eq_some_iff` says which one
that is by the number of samples stored so far: a slot holds a sample from when it is stored
until the block after the next comes to it.  So a block is read whole if each of its slots is
read in that time (`contents_of_block`), and what all readings together should be is `Faithful`.
-/
import Mathlib.Data.Fin.Basic

namespace Wrpc.PingPong

open Nat

variable {k j : Nat}

/-- The sample last stored in a slot, when `n` have been stored. -/
def lastWrite (B i j : Nat) : Nat → Option Nat
  | 0 => none
  | n + 1 => if n / B % 2 = i ∧ n % B = j then some n else lastWrite B i j n

variable {B : Nat}

theorem same_slot {n : Nat} (hlt : k < n) (hbuf : k / B % 2 = n / B % 2) (hslot : k % B = n % B) :
    k + 2 * B ≤ n := by
  have hk := div_add_mod k B
  have hn := div_add_mod n B
  have hblock : k / B < n / B := by
    refine lt_of_le_of_ne (Nat.div_le_div_right hlt.le) fun heq => ?_
    rw [heq] at hk
    omega
  have hmul : B * (k / B + 2) ≤ B * (n / B) := Nat.mul_le_mul_left B (by omega)
  rw [Nat.mul_add] at hmul
  omega

theorem slot_add (hB : 0 < B) : (k + 2 * B) / B % 2 = k / B % 2 ∧ (k + 2 * B) % B = k % B := by
  rw [Nat.mul_comm, add_mul_div_left _ _ hB, add_mod_right, add_mul_mod_self_left]
  exact ⟨rfl, rfl⟩

/-- **A slot** holds a sample from when it is stored until two blocks later. -/
theorem lastWrite_eq_some_iff {B i : Nat} (hB : 0 < B) : ∀ {n : Nat},
    lastWrite B i j n = some k ↔ (k / B % 2 = i ∧ k % B = j) ∧ k < n ∧ n ≤ k + 2 * B
  | 0 => by simp [lastWrite]
  | n + 1 => by
    rw [lastWrite]
    by_cases hn : n / B % 2 = i ∧ n % B = j
    · rw [if_pos hn, Option.some.injEq]
      constructor
      · rintro rfl
        exact ⟨hn, by omega, by omega⟩
      · rintro ⟨hk, hlt, hle⟩
        by_contra hne
        have := same_slot (show k < n by omega) (hk.1.trans hn.1.symm) (hk.2.trans hn.2.symm)
        omega
    · rw [if_neg hn, lastWrite_eq_some_iff hB]
      refine and_congr_right fun hk => ?_
      have hne : k ≠ n := fun h => hn (h ▸ hk)
      have hnext : k + 2 * B ≠ n := by
        rintro rfl
        obtain ⟨hbuf, hslot⟩ := slot_add hB
        exact hn ⟨hbuf.trans hk.1, hslot.trans hk.2⟩
      omega

variable {α : Type*}

/-- What a slot holds, `init` before anything has been stored. -/
def contents (B : Nat) (init : α) (y : Nat → α) (i j n : Nat) : α :=
  ((lastWrite B i j n).map y).getD init

theorem contents_of_some {i n : Nat} (init : α) (y : Nat → α) (h : lastWrite B i j n = some k) :
    contents B init y i j n = y k := by
  rw [contents, h]
  rfl

/-- Slot `j` of block `m`, read after it has been stored and before the block after the next. -/
theorem contents_of_block {m n : Nat} (init : α) (y : Nat → α) (hj : j < B)
    (hlo : B * m + j < n) (hhi : n ≤ B * (m + 2) + j) :
    contents B init y (m % 2) j n = y (B * m + j) := by
  have hB : 0 < B := by omega
  refine contents_of_some init y ((lastWrite_eq_some_iff hB).mpr ?_)
  rw [mul_add_div hB, div_eq_of_lt hj, Nat.add_zero, mul_add_mod, mod_eq_of_lt hj]
  rw [Nat.mul_add] at hhi
  exact ⟨⟨rfl, rfl⟩, hlo, by omega⟩

/-- `B` consecutive samples. -/
def window (B : Nat) (y : Nat → α) (s : Nat) : List α := (List.range B).map fun j => y (s + j)

/-- Everything that has been read are consecutive samples, each time later ones. -/
def Faithful (B : Nat) (y : Nat → α) (ws : List (List α)) : Prop :=
  ∃ starts : List Nat, starts.Pairwise (· < ·) ∧ ws = starts.map (window B y)

end Wrpc.PingPong
