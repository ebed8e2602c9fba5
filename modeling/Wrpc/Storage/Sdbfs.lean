/-
# Files on a storage chip (`sdbfs.c`, `storage.h`, `spi_flash.c`)

A storage device is an array of bytes behind three operations, `read`, `write`
and `erase`, each of which returns the count it was called with.  What differs
between the chips is in `Chip`.  An EEPROM or FRAM stores each byte it is sent at
its own address, and is erased byte by byte.  A flash can clear bits only, is
erased in sectors, and takes a write as one page program, which stays in the page
of 256 bytes that it is addressed to: behind the last byte of the page the first
one follows (`Wrpc.Dev.SpiFlash`).

No caller of `write` looks at pages.  So a write does what it is meant to do only
if it `Stays` in its page, and that is a condition on where a file starts and how
its contents are cut into writes.  The modules of the files say what it comes to.

A file is the range of the device that `sdbfs_open_id` has found in the
directory; reads, writes and erases are clipped to it.
-/
import Wrpc.Lib.Align
import Wrpc.Lib.Mem
import Mathlib.Data.List.GetD

namespace Wrpc.Storage

open List Nat

variable {data : List Byte} {offset addr : Nat}

def erased : Byte := 0xff

def pageSize : Nat := 256

structure Chip where
  /-- the cell after `new` was written over `old` -/
  prog : Byte → Byte → Byte
  sectorSize : Nat
  /-- writes are page programs -/
  paged : Bool
  prog_erased : ∀ new, prog erased new = new
  prog_ne_erased : ∀ old new, old ≠ erased → new ≠ erased → prog old new ≠ erased
  sectorSize_pos : 0 < sectorSize
  prog_unpaged : paged = false → ∀ old new, prog old new = new
  pages : paged = true → pageSize ∣ sectorSize

def Chip.eeprom : Chip where
  prog _ new := new
  sectorSize := 1
  paged := false
  prog_erased _ := rfl
  prog_ne_erased _ _ _ h := h
  sectorSize_pos := one_pos
  prog_unpaged _ _ _ := rfl
  pages h := Bool.noConfusion h

/-- A chip whose writes clear bits and whose erases work on sectors. -/
def Chip.flash (sectorSize : Nat) (h : 0 < sectorSize ∧ pageSize ∣ sectorSize) : Chip where
  prog old new := old &&& new
  sectorSize := sectorSize
  paged := true
  prog_erased _ := BitVec.allOnes_and
  prog_ne_erased _ _ hold _ h := hold (BitVec.and_eq_allOnes_iff.mp h).1
  sectorSize_pos := h.1
  prog_unpaged h := Bool.noConfusion h
  pages _ := h.2

/-! ## The device -/

/-- The cells as a write of `data` at `addr` is meant to leave them. -/
def Chip.put (c : Chip) (m : Mem) (addr : Nat) (data : List Byte) : Mem := fun j =>
  if addr ≤ j ∧ j < addr + data.length then c.prog (m j) (data.getD (j - addr) 0) else m j

/-- The cells after `data` was written at `addr`. -/
def Chip.store (c : Chip) (m : Mem) (addr : Nat) (data : List Byte) : Mem := fun j =>
  if c.paged then
    let i := (j + pageSize - addr % pageSize) % pageSize
    if j / pageSize = addr / pageSize ∧ i < data.length then
      -- of more than a page, the last byte that is sent for a cell counts
      c.prog (m j) (data.getD (i + (data.length - 1 - i) / pageSize * pageSize) 0)
    else m j
  else c.put m addr data j

/-- A write of `n` bytes does not reach the end of a page. -/
def Chip.Stays (c : Chip) (addr n : Nat) : Prop :=
  c.paged = true → addr % pageSize + n ≤ pageSize

instance (c : Chip) (addr n : Nat) : Decidable (c.Stays addr n) :=
  inferInstanceAs (Decidable (_ → _))

/-- The `write` operation. -/
def Chip.write (c : Chip) (m : Mem) (addr : Nat) (data : List Byte) (count : Int) : Int × Mem :=
  (count, c.store m addr (data.take count.toNat))

/-- The `read` operation. -/
def readDev (m : Mem) (addr : Nat) (count : Int) : Int × List Byte :=
  (count, m.read addr count.toNat)

/-- `spi_flash_erase_sector`: the sector that `addr` lies in. -/
def Chip.eraseSector (c : Chip) (m : Mem) (addr : Nat) : Mem := fun j =>
  if j / c.sectorSize = addr / c.sectorSize then erased else m j

/-- The loop of `spi_flash_erase`. -/
def Chip.eraseSectors (c : Chip) (m : Mem) (addr : Nat) : Nat → Mem
  | 0 => m
  | n + 1 => c.eraseSector (c.eraseSectors m addr n) (addr + n * c.sectorSize)

/-- The `erase` operation: `spi_flash_erase`, and the bytewise erase of the other chips
at sector size 1. -/
def Chip.erase (c : Chip) (m : Mem) (addr : Nat) (count : Int) : Int × Mem :=
  (count, c.eraseSectors m addr ((count.toNat + c.sectorSize - 1) / c.sectorSize))

/-! ## Files -/

/-- An open file: `f_offset` and `f_len`. -/
structure File where
  offset : Nat
  len : Nat
deriving DecidableEq, Repr

/-- The size of a record of the directory, `sizeof(struct sdb_device)`. -/
def recordSize : Nat := 64

/-- What is left of `count` at `offset`; negative past the end. -/
def File.clip (f : File) (offset : Nat) (count : Int) : Int :=
  if offset + count > f.len then f.len - offset else count

/-- `sdbfs_fread`: the value returned and the bytes read. -/
def fread (f : File) (m : Mem) (offset : Nat) (count : Int) : Int × List Byte :=
  readDev m (f.offset + offset) (f.clip offset count)

/-- `sdbfs_fwrite` of the whole of `data`. -/
def fwrite (c : Chip) (f : File) (m : Mem) (offset : Nat) (data : List Byte) : Int × Mem :=
  c.write m (f.offset + offset) data (f.clip offset data.length)

/-- `sdbfs_ferase`. -/
def ferase (c : Chip) (f : File) (m : Mem) (offset : Nat) (count : Int) : Int × Mem :=
  c.erase m (f.offset + offset) (f.clip offset count)

/-! ## What they do -/

section

variable {c : Chip} {f : File} {m : Mem}

theorem put_other {j : Nat} (h : j < addr ∨ addr + data.length ≤ j) :
    c.put m addr data j = m j :=
  if_neg (by omega)

theorem put_at {i : Nat} (h : i < data.length) :
    c.put m addr data (addr + i) = c.prog (m (addr + i)) (data.getD i 0) := by
  rw [Chip.put, if_pos ⟨Nat.le_add_right _ _, Nat.add_lt_add_left h _⟩, Nat.add_sub_cancel_left]

@[simp] theorem put_nil (addr : Nat) : c.put m addr [] = m :=
  funext fun j => put_other (by simp only [length_nil]; omega)

theorem put_append (addr : Nat) (xs ys : List Byte) :
    c.put (c.put m addr xs) (addr + xs.length) ys = c.put m addr (xs ++ ys) := by
  funext j
  rcases Nat.lt_or_ge j addr with hlt | hge
  · rw [put_other (.inl (by omega)), put_other (.inl hlt), put_other (.inl hlt)]
  · obtain ⟨i, rfl⟩ := Nat.exists_eq_add_of_le hge
    rcases Nat.lt_or_ge i xs.length with hx | hx
    · rw [put_other (.inl (by omega)), put_at hx,
        put_at (by rw [length_append]; omega), getD_append _ _ _ _ hx]
    · obtain ⟨k, rfl⟩ := Nat.exists_eq_add_of_le hx
      rcases Nat.lt_or_ge k ys.length with hy | hy
      · rw [← Nat.add_assoc, put_at hy, put_other (.inr (by omega)), Nat.add_assoc,
          put_at (by rw [length_append]; omega),
          getD_append_right _ _ _ _ (Nat.le_add_right _ _), Nat.add_sub_cancel_left]
      · rw [put_other (.inr (by omega)), put_other (.inr (by omega)),
          put_other (.inr (by rw [length_append]; omega))]

theorem put_inj (hc : c.paged = false) {xs ys : List Byte} (hlen : xs.length = ys.length)
    (h : c.put m addr xs = c.put m addr ys) : xs = ys := by
  refine ext_getElem hlen fun i hx hy => ?_
  have hcell := congrFun h (addr + i)
  rw [put_at hx, put_at hy, c.prog_unpaged hc, c.prog_unpaged hc, getD_eq_getElem _ _ hx,
    getD_eq_getElem _ _ hy] at hcell
  exact hcell

theorem read_put (hc : c.paged = false) : (c.put m addr data).read addr data.length = data :=
  Mem.read_eq_of fun _ hi => (put_at hi).trans (c.prog_unpaged hc _ _)

theorem read_put_erased (h : ∀ i < data.length, m (addr + i) = erased) :
    (c.put m addr data).read addr data.length = data :=
  Mem.read_eq_of fun i hi => by rw [put_at hi, h i hi, c.prog_erased]

theorem put_eq_self (hc : c.paged = false) (h : m.read addr data.length = data) :
    c.put m addr data = m := by
  funext j
  rw [Chip.put]
  split
  · rename_i hin
    obtain ⟨i, rfl⟩ := Nat.exists_eq_add_of_le hin.1
    rw [c.prog_unpaged hc, Nat.add_sub_cancel_left, Mem.eq_of_read h (by omega)]
  · rfl

/-- A write that stays in its page does what it is meant to do. -/
theorem store_eq_put (hstays : c.Stays addr data.length) :
    c.store m addr data = c.put m addr data := by
  funext j
  rw [Chip.store]
  split
  · have hpage := hstays ‹_›
    unfold pageSize at hpage ⊢
    dsimp only
    rw [Chip.put]
    by_cases hin : addr ≤ j ∧ j < addr + data.length
    · obtain ⟨i, rfl⟩ := Nat.exists_eq_add_of_le hin.1
      have hi : (addr + i + 256 - addr % 256) % 256 = i := by omega
      have hlast : (data.length - 1 - i) / 256 = 0 := Nat.div_eq_of_lt (by omega)
      rw [hi, if_pos ⟨by omega, by omega⟩, if_pos hin, hlast, Nat.zero_mul, Nat.add_zero,
        Nat.add_sub_cancel_left]
    · rw [if_neg hin, if_neg (by omega)]
  · rfl

/-- Whatever the pages, nothing is written behind the last byte. -/
theorem store_beyond {j : Nat} (h : addr + data.length ≤ j) : c.store m addr data j = m j := by
  rw [Chip.store]
  split
  · refine if_neg fun hin => ?_
    unfold pageSize at hin
    omega
  · exact put_other (.inr h)

/-- Behind the end of the page of `addr` nothing is written. -/
theorem store_next_page {j : Nat} (hpaged : c.paged = true) (h : addr / pageSize < j / pageSize) :
    c.store m addr data j = m j := by
  rw [Chip.store, if_pos hpaged]
  exact if_neg fun hin => ne_of_gt h hin.1

theorem stays_unpaged (h : c.paged = false) (addr n : Nat) : c.Stays addr n :=
  fun hpaged => absurd (h.symm.trans hpaged) Bool.false_ne_true

theorem stays_one (addr : Nat) : c.Stays addr 1 := fun _ => by
  unfold pageSize
  omega

/-- A range of no more bytes than a page, in a file that starts with one. -/
theorem stays_of_dvd {n : Nat} (hdvd : c.paged = true → pageSize ∣ addr)
    (hn : offset + n ≤ pageSize) : c.Stays (addr + offset) n := fun hpaged => by
  have := hdvd hpaged
  unfold pageSize at *
  omega

theorem fread_inside {count : Nat} (h : offset + count ≤ f.len) :
    fread f m offset count = ((count : Int), m.read (f.offset + offset) count) := by
  have hclip : f.clip offset count = count := if_neg (by omega)
  simp [fread, readDev, hclip]

theorem fread_short {count : Nat} (h : f.len < offset + count) :
    (fread f m offset count).1 < count := by
  have hclip : f.clip offset count = f.len - offset := if_pos (by omega)
  simp only [fread, readDev, hclip]
  omega

theorem fwrite_inside (h : offset + data.length ≤ f.len) :
    fwrite c f m offset data = ((data.length : Int), c.store m (f.offset + offset) data) := by
  have hclip : f.clip offset data.length = data.length := if_neg (by omega)
  simp [fwrite, Chip.write, hclip]

theorem fwrite_short (h : f.len < offset + data.length) :
    (fwrite c f m offset data).1 < data.length := by
  have hclip : f.clip offset data.length = f.len - offset := if_pos (by omega)
  simp only [fwrite, Chip.write, hclip]
  omega

theorem fwrite_cut (h : f.len < offset + data.length) :
    (fwrite c f m offset data).2 = c.store m (f.offset + offset) (data.take (f.len - offset)) := by
  have hclip : f.clip offset data.length = f.len - offset := if_pos (by omega)
  have htoNat : ((f.len : Int) - offset).toNat = f.len - offset := by omega
  simp only [fwrite, Chip.write, hclip, htoNat]

theorem eraseSectors_apply (haddr : c.sectorSize ∣ addr) :
    ∀ (n j : Nat), c.eraseSectors m addr n j =
      if addr ≤ j ∧ j < addr + n * c.sectorSize then erased else m j
  | 0, j => (if_neg (by omega)).symm
  | n + 1, j => by
    have hs := c.sectorSize_pos
    have hsector : j / c.sectorSize = (addr + n * c.sectorSize) / c.sectorSize ↔
        addr + n * c.sectorSize ≤ j ∧ j < addr + (n + 1) * c.sectorSize := by
      obtain ⟨q, rfl⟩ := haddr
      rw [Nat.mul_comm c.sectorSize q, ← Nat.add_mul, Nat.mul_div_cancel _ hs,
        show q * c.sectorSize + (n + 1) * c.sectorSize = (q + n + 1) * c.sectorSize by
          rw [← Nat.add_mul, Nat.add_assoc], Nat.div_eq_iff hs]
      have hsucc := Nat.succ_mul (q + n) c.sectorSize
      rw [succ_eq_add_one] at hsucc
      omega
    have hgrow := Nat.succ_mul n c.sectorSize
    rw [succ_eq_add_one] at hgrow
    rw [Chip.eraseSectors, Chip.eraseSector, eraseSectors_apply haddr n j]
    by_cases hin : j / c.sectorSize = (addr + n * c.sectorSize) / c.sectorSize
    · rw [if_pos hin]
      exact (if_pos (by omega)).symm
    · rw [if_neg hin]
      by_cases hold : addr ≤ j ∧ j < addr + n * c.sectorSize
      · rw [if_pos hold]
        exact (if_pos (by omega)).symm
      · rw [if_neg hold]
        exact (if_neg (by omega)).symm

/-- A file that starts on a sector boundary, erased over its whole length: the rounding
goes no further than the sectors it lies in. -/
theorem ferase_whole (halign : c.sectorSize ∣ f.offset) (j : Nat) : (ferase c f m 0 f.len).2 j =
      if f.offset ≤ j ∧ j < f.offset + Align.alignUp f.len c.sectorSize then erased else m j := by
  have hclip : f.clip 0 f.len = f.len := if_neg (by omega)
  rw [ferase, hclip, Nat.add_zero, Chip.erase, Int.toNat_natCast]
  exact eraseSectors_apply halign _ j

end

end Wrpc.Storage
