/-
# C byte arrays as functions from index to byte

A C array is modelled by the function that gives the byte at each index.  The
function is total: an index past the end of the array reads whatever memory
happens to follow it, so a proof that an access stays inside its array is a
proof about the index and is never hidden in the type.

`Mem.read m off len` is the block a `memcpy` of `len` bytes from `m + off`
would see, `Mem.move` the effect of `memmove`, and `Mem.cstr` the string that
starts at an index.
-/
import Mathlib.Algebra.Order.Ring.Int
import Mathlib.Data.List.Basic

namespace Wrpc

open List Nat

abbrev Byte := BitVec 8

instance Byte.lawfulBEq : LawfulBEq Byte := inferInstance

/-- The contents of a byte array, by index. -/
abbrev Mem := Nat → Byte

namespace Mem

/-- One store, `m[i] = b`. -/
def set (m : Mem) (i : Nat) (b : Byte) : Mem := fun j => if j = i then b else m j

/-- The `len` bytes from `off` on. -/
def read (m : Mem) (off : Nat) : Nat → List Byte
  | 0 => []
  | len + 1 => m off :: read m (off + 1) len

/-- `memmove(&m[dst], &m[src], len)`. -/
def move (m : Mem) (dst src len : Nat) : Mem :=
  fun j => if dst ≤ j ∧ j < dst + len then m (j - dst + src) else m j

/-- `memcpy(&m[off], l, |l|)`. -/
def write (m : Mem) (off : Nat) (l : List Byte) : Mem :=
  fun j => if off ≤ j ∧ j < off + l.length then l.getD (j - off) 0 else m j

variable {m : Mem} {l : List Byte} {off i j : Nat}

@[simp] theorem set_same (m : Mem) (i : Nat) (b : Byte) : m.set i b i = b := by
  simp [set]

theorem set_other {b : Byte} (h : j ≠ i) : m.set i b j = m j := by
  simp [set, h]

theorem set_restore (m : Mem) (i : Nat) (b : Byte) : (m.set i b).set i (m i) = m := by
  funext j
  by_cases h : j = i
  · rw [h, set_same]
  · rw [set_other h, set_other h]

@[simp] theorem read_length (m : Mem) : ∀ (off len : Nat), (m.read off len).length = len
  | _, 0 => rfl
  | off, len + 1 => by simp [read, read_length m (off + 1) len]

theorem read_congr {m m' : Mem} :
    ∀ {len off off' : Nat}, (∀ i, i < len → m (off + i) = m' (off' + i)) →
      m.read off len = m'.read off' len
  | 0, _, _, _ => rfl
  | len + 1, off, off', h => by
    have h0 : m off = m' off' := h 0 (succ_pos len)
    have ht : m.read (off + 1) len = m'.read (off' + 1) len :=
      read_congr fun i hi => by
        have := h (i + 1) (succ_lt_succ hi)
        rwa [show off + (i + 1) = off + 1 + i by omega,
          show off' + (i + 1) = off' + 1 + i by omega] at this
    simp only [read, h0, ht]

theorem read_append (m : Mem) :
    ∀ (a off b : Nat), m.read off (a + b) = m.read off a ++ m.read (off + a) b
  | 0, off, b => by simp [read]
  | a + 1, off, b => by
    rw [show a + 1 + b = a + b + 1 by omega]
    simp only [read, cons_append]
    rw [read_append m a (off + 1) b, show off + 1 + a = off + (a + 1) by omega]

theorem read_eq_append_iff {n k : Nat} {a b : List Byte} (hn : a.length = n) :
    m.read off (n + k) = a ++ b ↔ m.read off n = a ∧ m.read (off + n) k = b := by
  rw [read_append]
  constructor
  · intro h
    exact List.append_inj h (by rw [read_length, hn])
  · rintro ⟨ha, hb⟩
    rw [ha, hb]

theorem read_succ (m : Mem) (off len : Nat) :
    m.read off (len + 1) = m.read off len ++ [m (off + len)] := by
  rw [read_append m len off 1]
  rfl

theorem read_set_end (m : Mem) (off len : Nat) (b : Byte) :
    (m.set (off + len) b).read off (len + 1) = m.read off len ++ [b] := by
  rw [read_succ, set_same]
  congr 1
  exact read_congr fun i hi => set_other (by omega)

theorem getD_read (m : Mem) {d : Byte} :
    ∀ {len i : Nat} (off : Nat), i < len → (m.read off len).getD i d = m (off + i)
  | len + 1, 0, off, _ => rfl
  | len + 1, i + 1, off, h => by
    rw [read, getD_cons_succ, getD_read m (off + 1) (lt_of_succ_lt_succ h),
      show off + 1 + i = off + (i + 1) by omega]

theorem eq_of_read {m : Mem} {off len i : Nat} {l : List Byte} (h : m.read off len = l)
    (hi : i < len) : m (off + i) = l.getD i 0 := by
  rw [← h, getD_read m off hi]

theorem read_eq_read_iff {m m' : Mem} {off off' len : Nat} :
    m.read off len = m'.read off' len ↔ ∀ i, i < len → m (off + i) = m' (off' + i) := by
  refine ⟨fun h i hi => ?_, read_congr⟩
  rw [eq_of_read h hi, getD_read m' off' hi]

theorem read_eq_of {m : Mem} :
    ∀ {t : List Byte} {off : Nat}, (∀ i, i < t.length → m (off + i) = t.getD i 0) →
      m.read off t.length = t
  | [], _, _ => rfl
  | b :: t, off, h => by
    have hhead : m off = b := h 0 (succ_pos _)
    have htail : m.read (off + 1) t.length = t := read_eq_of fun i hi => by
      have := h (i + 1) (succ_lt_succ hi)
      rwa [show off + (i + 1) = off + 1 + i by omega] at this
    rw [length_cons, read, hhead, htail]

theorem write_other (h : j < off ∨ off + l.length ≤ j) : m.write off l j = m j :=
  if_neg (by omega)

theorem write_at (h : i < l.length) : m.write off l (off + i) = l.getD i 0 := by
  rw [write, if_pos ⟨Nat.le_add_right _ _, Nat.add_lt_add_left h _⟩, Nat.add_sub_cancel_left]

@[simp] theorem read_write (m : Mem) (off : Nat) (l : List Byte) :
    (m.write off l).read off l.length = l :=
  read_eq_of fun _ hi => write_at hi

theorem write_concat (m : Mem) (off : Nat) (l : List Byte) (b : Byte) :
    m.write off (l ++ [b]) = (m.write off l).set (off + l.length) b := by
  funext j
  simp only [write, set, length_append, length_singleton]
  by_cases hj : j = off + l.length
  · rw [if_pos (by omega), if_pos hj, hj]
    simp
  · rw [if_neg hj]
    by_cases hin : off ≤ j ∧ j < off + l.length
    · rw [if_pos hin, if_pos (by omega), getD_eq_getElem?_getD, getD_eq_getElem?_getD,
        getElem?_append_left (by omega)]
    · rw [if_neg hin, if_neg (by omega)]

theorem write_self (h : m.read off l.length = l) : m.write off l = m := by
  funext j
  rw [write]
  split
  case isTrue hj =>
    have hbyte := eq_of_read h (show j - off < l.length by omega)
    rw [show off + (j - off) = j by omega] at hbyte
    exact hbyte.symm
  case isFalse => rfl

theorem read_set_other {len : Nat} {b : Byte} (h : i < off ∨ off + len ≤ i) :
    (m.set i b).read off len = m.read off len :=
  read_congr fun _ _ => set_other (by omega)

theorem read_set_at (m : Mem) (b : Byte) : ∀ (off len i : Nat),
    (m.set (off + i) b).read off len = (m.read off len).set i b
  | _, 0, _ => rfl
  | off, len + 1, 0 => by
    rw [add_zero, read, read, set_cons_zero, set_same]
    exact congrArg (b :: ·) (read_congr fun _ _ => set_other (by omega))
  | off, len + 1, i + 1 => by
    rw [read, read, set_cons_succ, set_other (by omega)]
    refine congrArg (m off :: ·) ?_
    rw [show off + (i + 1) = off + 1 + i by omega]
    exact read_set_at m b (off + 1) len i

theorem read_write_other {len k : Nat} (h : off + len ≤ k ∨ k + l.length ≤ off) :
    (m.write k l).read off len = m.read off len :=
  read_congr fun _ _ => write_other (by omega)

theorem take_read (m : Mem) : ∀ {k len : Nat} (off : Nat), k ≤ len →
    (m.read off len).take k = m.read off k
  | 0, _, _, _ => take_zero
  | k + 1, len + 1, off, h => by
    rw [read, take_succ_cons, take_read m (off + 1) (le_of_succ_le_succ h), read]

/-- The C string at `i`, of which no more than `fuel` bytes are looked at. -/
def cstr (m : Mem) : Nat → Nat → List Byte
  | 0, _ => []
  | fuel + 1, i => if m i = 0 then [] else m i :: cstr m fuel (i + 1)

theorem read_cstr (m : Mem) : ∀ fuel i : Nat, m.read i (m.cstr fuel i).length = m.cstr fuel i
  | 0, _ => rfl
  | fuel + 1, i => by
    rw [cstr]
    split
    · rfl
    · rw [length_cons, read, read_cstr m fuel (i + 1)]

theorem cstr_of_read {m : Mem} :
    ∀ {t : List Byte} {fuel i : Nat}, m.read i t.length = t → (∀ b ∈ t, b ≠ 0) →
      m (i + t.length) = 0 → t.length < fuel → m.cstr fuel i = t
  | [], fuel + 1, i, _, _, hend, _ => by
    exact if_pos hend
  | b :: t, fuel + 1, i, hread, hnz, hend, hlen => by
    simp only [length_cons, read, List.cons.injEq] at hread
    rw [forall_mem_cons] at hnz
    rw [length_cons] at hend hlen
    rw [cstr, hread.1, if_neg hnz.1, cstr_of_read hread.2 hnz.2
      (by rwa [show i + 1 + t.length = i + (t.length + 1) by omega]) (by omega)]

/-- Two strings are the same if the bytes that are looked at are. -/
theorem cstr_eq_iff {m m' : Mem} : ∀ {fuel i i' : Nat}, m'.cstr fuel i' = m.cstr fuel i ↔
    ∀ k, k < min fuel ((m.cstr fuel i).length + 1) → m' (i' + k) = m (i + k)
  | 0, _, _ => by simp [cstr]
  | fuel + 1, i, i' => by
    rw [cstr, cstr]
    by_cases hend : m i = 0
    · -- an empty string: the terminator is all that is looked at
      have hone : ∀ k, k < min (fuel + 1) 1 ↔ k = 0 := by omega
      rw [if_pos hend]
      simp only [length_nil, zero_add, hone, forall_eq, add_zero, hend]
      split <;> simp_all
    · rw [if_neg hend, length_cons]
      by_cases hsame : m' i' = m i
      · rw [if_neg (by rwa [hsame]), cons.injEq, and_iff_right hsame, cstr_eq_iff]
        refine ⟨fun h k hk => ?_, fun h k hk => ?_⟩
        · cases k with
          | zero => exact hsame
          | succ k =>
            have := h k (by omega)
            rwa [add_right_comm, add_right_comm i] at this
        · have := h (k + 1) (by omega)
          rwa [← add_assoc, ← add_assoc, add_right_comm, add_right_comm i] at this
      · refine iff_of_false (fun h => hsame ?_) fun h => hsame (h 0 (by omega))
        split at h
        · exact absurd h (by simp)
        · exact (cons.inj h).1

theorem cstr_le (m : Mem) : ∀ fuel i : Nat, (m.cstr fuel i).length ≤ fuel
  | 0, _ => Nat.le_refl 0
  | fuel + 1, i => by
    rw [Mem.cstr]
    split
    · exact zero_le _
    · exact succ_le_succ (cstr_le m fuel (i + 1))

/-! ## Arrays that agree on their first bytes

Code that reads only the first bytes cannot tell such arrays apart. -/

/-- The first `n` bytes are the same. -/
def Agree (n : Nat) (m m' : Mem) : Prop := ∀ i, i < n → m i = m' i

theorem Agree.set {n : Nat} {m m' : Mem} (h : Agree n m m') (i : Nat) (b : Byte) :
    Agree n (m.set i b) (m'.set i b) := by
  intro j hj
  by_cases hji : j = i
  · rw [hji, set_same, set_same]
  · rw [set_other hji, set_other hji, h j hj]

theorem Agree.write {n : Nat} {m m' : Mem} (h : Agree n m m') (off : Nat) (l : List Byte) :
    Agree n (m.write off l) (m'.write off l) := by
  intro j hj
  unfold Mem.write
  split
  · rfl
  · exact h j hj

theorem agree_write (m m' : Mem) (l : List Byte) : Agree l.length (m.write 0 l) (m'.write 0 l) := by
  intro j hj
  rw [← zero_add j, write_at hj, write_at hj]

theorem Agree.read {n : Nat} {m m' : Mem} (h : Agree n m m') {len : Nat} (hlen : len ≤ n) :
    m.read 0 len = m'.read 0 len :=
  read_congr fun i hi => h (0 + i) (by omega)

theorem write_set_comm (h : l.length ≤ i) (b : Byte) :
    (m.set i b).write 0 l = (m.write 0 l).set i b := by
  funext j
  by_cases hji : j = i
  · rw [hji, set_same, write_other (.inr (by omega)), set_same]
  · rw [set_other hji]
    by_cases hj : j < l.length
    · rw [← zero_add j, write_at hj, write_at hj]
    · rw [write_other (.inr (by omega)), write_other (.inr (by omega)), set_other hji]

theorem read_insert (m : Mem) {p n : Nat} (c : Byte) (h : p ≤ n) :
    ((m.move (p + 1) p (n - p)).set p c).read 0 (n + 1) = m.read 0 p ++ c :: m.read p (n - p) := by
  rw [show n + 1 = p + (1 + (n - p)) by omega, read_append, read_append]
  have hlow : ((m.move (p + 1) p (n - p)).set p c).read 0 p = m.read 0 p :=
    read_congr fun i hi => by
      rw [set_other (by omega), move, if_neg (by omega)]
  have hgap : ((m.move (p + 1) p (n - p)).set p c).read (0 + p) 1 = [c] := by
    rw [zero_add, read, read, set_same]
  have hhigh : ((m.move (p + 1) p (n - p)).set p c).read (0 + p + 1) (n - p) = m.read p (n - p) :=
    read_congr fun i hi => by
      rw [set_other (by omega), move, if_pos (by omega), show 0 + p + 1 + i - (p + 1) + p =
        p + i by omega]
  rw [hlow, hgap, hhigh]
  rfl

theorem read_delete (m : Mem) {p n k : Nat} (h : p < n) (hk : n - p ≤ k + 1) :
    (m.move p (p + 1) k).read 0 (n - 1) = m.read 0 p ++ m.read (p + 1) (n - 1 - p) := by
  rw [show n - 1 = p + (n - 1 - p) by omega, read_append]
  have hlow : (m.move p (p + 1) k).read 0 p = m.read 0 p :=
    read_congr fun i hi => by rw [move, if_neg (by omega)]
  have hhigh : (m.move p (p + 1) k).read (0 + p) (n - 1 - p) = m.read (p + 1) (n - 1 - p) :=
    read_congr fun i hi => by
      rw [move, if_pos (by omega), show 0 + p + i - p + (p + 1) = p + 1 + i by omega]
  rw [hlow, show p + (n - 1 - p) - p = n - 1 - p by omega, hhigh]

end Mem

end Wrpc
