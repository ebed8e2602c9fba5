/-
# A byte ring laid over an array

A ring of `size` bytes keeps the byte at position `p` in cell `p % size` of an
array.  Positions are never reduced: position `p + size` is another name for
`p`, and a stretch of the ring is a start and a length, whether it crosses the
end of the array or not.

    read size m p len     the `len` bytes from position `p` on
    write size m p bs     the array after `bs` is written from position `p` on

The law that makes a ring a queue is `read_write_append`: what is written just
past a stretch is appended to it, as long as the two together fit.
-/
import Wrpc.Lib.Mem

namespace Wrpc.Ring

/-- The `len` bytes from position `p` on. -/
def read (size : Nat) (m : Mem) (p : Nat) : Nat → List Byte
  | 0 => []
  | len + 1 => m (p % size) :: read size m (p + 1) len

/-- The array after `bs` is written from position `p` on. -/
def write (size : Nat) (m : Mem) (p : Nat) : List Byte → Mem
  | [] => m
  | b :: bs => write size (m.set (p % size) b) (p + 1) bs

variable {size : Nat} {m : Mem}

@[simp] theorem read_length : ∀ (p len : Nat), (read size m p len).length = len
  | _, 0 => rfl
  | p, len + 1 => by simp [read, read_length (p + 1) len]

theorem read_add :
    ∀ (a p b : Nat), read size m p (a + b) = read size m p a ++ read size m (p + a) b
  | 0, p, b => by simp [read]
  | a + 1, p, b => by
    rw [show a + 1 + b = a + b + 1 by omega]
    simp only [read, List.cons_append]
    rw [read_add a (p + 1) b, show p + 1 + a = p + (a + 1) by omega]

theorem read_take :
    ∀ (len k p : Nat), (read size m p len).take k = read size m p (min len k)
  | 0, k, p => by simp [read]
  | len + 1, 0, p => by simp [read]
  | len + 1, k + 1, p => by
    simp [read, read_take len k (p + 1)]

theorem read_congr_mod :
    ∀ {len p q : Nat}, p % size = q % size → read size m p len = read size m q len
  | 0, _, _, _ => rfl
  | len + 1, p, q, h => by
    have hnext : (p + 1) % size = (q + 1) % size := by
      rw [Nat.add_mod p, Nat.add_mod q, h]
    simp only [read, h, read_congr_mod hnext]

theorem read_mod (p len : Nat) : read size m (p % size) len = read size m p len :=
  read_congr_mod (Nat.mod_mod p size)

theorem write_congr_mod :
    ∀ {bs : List Byte} {m : Mem} {p q : Nat}, p % size = q % size →
      write size m p bs = write size m q bs
  | [], _, _, _, _ => rfl
  | b :: bs, m, p, q, h => by
    have hnext : (p + 1) % size = (q + 1) % size := by
      rw [Nat.add_mod p, Nat.add_mod q, h]
    simp only [write, h, write_congr_mod hnext]

theorem write_append :
    ∀ {as bs : List Byte} {m : Mem} {p : Nat},
      write size (write size m p as) (p + as.length) bs = write size m p (as ++ bs)
  | [], _, _, _ => rfl
  | a :: as, bs, m, p => by
    rw [List.length_cons, show p + (as.length + 1) = p + 1 + as.length by omega]
    simp only [List.cons_append, write]
    exact write_append

theorem mod_ne_of_lt_lap {p i j : Nat} (hij : i < j) (hlap : j - i < size) :
    (p + i) % size ≠ (p + j) % size := by
  intro h
  have hzero : (p + j - (p + i)) % size = 0 := Nat.sub_mod_eq_zero_of_mod_eq h.symm
  rw [show p + j - (p + i) = j - i by omega, Nat.mod_eq_of_lt hlap] at hzero
  omega

theorem read_set_other {c : Nat} {b : Byte} :
    ∀ {len p : Nat}, (∀ i, i < len → (p + i) % size ≠ c) →
      read size (m.set c b) p len = read size m p len
  | 0, _, _ => rfl
  | len + 1, p, h => by
    have hhead : m.set c b (p % size) = m (p % size) :=
      Mem.set_other (h 0 (Nat.succ_pos len))
    have htail : read size (m.set c b) (p + 1) len = read size m (p + 1) len :=
      read_set_other fun i hi => by
        rw [show p + 1 + i = p + (i + 1) by omega]
        exact h (i + 1) (Nat.succ_lt_succ hi)
    simp only [read, hhead, htail]

theorem read_set_end {p len : Nat} {b : Byte} (h : len < size) :
    read size (m.set ((p + len) % size) b) p (len + 1) = read size m p len ++ [b] := by
  rw [read_add, read_set_other fun i hi => mod_ne_of_lt_lap hi (by omega)]
  simp [read]

theorem read_write_append :
    ∀ {bs : List Byte} {m : Mem} {p len : Nat}, len + bs.length ≤ size →
      read size (write size m (p + len) bs) p (len + bs.length) = read size m p len ++ bs
  | [], _, _, _, _ => by simp [write]
  | b :: bs, m, p, len, h => by
    rw [List.length_cons] at h
    have hbs : read size (write size (m.set ((p + len) % size) b) (p + (len + 1)) bs) p
        (len + 1 + bs.length) = read size (m.set ((p + len) % size) b) p (len + 1) ++ bs :=
      read_write_append (by omega)
    rw [read_set_end (by omega), List.append_assoc] at hbs
    rw [List.length_cons, show len + (bs.length + 1) = len + 1 + bs.length by omega]
    exact hbs

end Wrpc.Ring
