/-
# Laying out the file system (`storage.c`, `sdbfs.c`)

The file system is a directory of 64-byte records, the first for the directory
itself and one for each file, each with the first and last address of its range.
`storageSdbfsFormat` takes the records of a template, which it changes in place:
it keeps the sizes of the files, moves them one behind the other, each to a block
boundary, and writes the records to the device.

Addresses are 32-bit `int`s on the way and sign-extended to the 64 bits of a
record.  For a layout that ends below 2^31 (`Fits`) the code computes the layout
over the natural numbers (`relocate_eq_place`), and that one keeps the files
apart, also from block-rounded erases.

The records are written over blocks that were erased before, and no record lies
across the end of a page: so they are on the device as they are in the template
(`format_written`), and `sdbfs_open_id` finds the files there (`openId_formatted`).

The verification by reading back, the messages and the mounting that follows are
left out: they change neither the template nor the device.
-/
import Wrpc.Storage.Directory
import Mathlib.Data.Fintype.Basic
import Mathlib.Data.List.Pairwise

namespace Wrpc.Storage

open Align BitVec Nat List

/-! ## The directory -/

/-- `struct sdb_device`: the first 8 bytes (for the directory its magic and number of
records), the range, and the `product`. -/
structure SdbRecord where
  head : Fin 8 → Byte
  addrFirst : BitVec 64
  addrLast : BitVec 64
  product : Fin 40 → Byte
deriving DecidableEq

/-- A record as it is written; the addresses are stored big endian. -/
def SdbRecord.image (r : SdbRecord) : List Byte :=
  List.ofFn r.head ++ Bytes.imageOf .big 8 r.addrFirst.toNat ++
    Bytes.imageOf .big 8 r.addrLast.toNat ++ List.ofFn r.product

/-- The vendor and device id of a file's record. -/
def SdbRecord.id (r : SdbRecord) : SdbId :=
  ⟨(List.ofFn r.product).take 8, ((List.ofFn r.product).drop 8).take 4⟩

/-- A record that `scan_newdir` takes for that of a directory of `n` records. -/
def SdbRecord.IsDirectory (r : SdbRecord) (n : Nat) : Prop :=
  r.product 39 = 0 ∧ (List.ofFn r.head).take 4 = sdbMagic ∧
    Bytes.ofImage .big (((List.ofFn r.head).drop 4).take 2) = n

def SdbRecord.size (r : SdbRecord) : Nat := (r.addrLast - r.addrFirst).toNat + 1

/-- `SDB_ALIGN`, on 32-bit words. -/
def sdbAlign (x blocksize : BitVec 32) : BitVec 32 :=
  (x + (blocksize - 1#32)) &&& ~~~(blocksize - 1#32)

/-- The loop of `storage_sdbfs_format` over the files, from `cur_adr` on. -/
def relocate (blockSize : BitVec 32) : BitVec 32 → List SdbRecord → List SdbRecord
  | _, [] => []
  | curAdr, r :: rs =>
    let size : BitVec 32 := (r.addrLast - r.addrFirst).setWidth 32
    { r with
      addrFirst := curAdr.signExtend 64
      addrLast := (curAdr + size).signExtend 64 } ::
      relocate blockSize (sdbAlign (curAdr + (size + 1#32)) blockSize) rs

structure Template where
  dir : SdbRecord
  files : List SdbRecord
deriving DecidableEq

def Template.records (t : Template) : List SdbRecord := t.dir :: t.files

/-- What `storage_sdbfs_format` makes of the template, for the base address chosen. -/
def Template.format (blockSize baseAddr : BitVec 32) (t : Template) : Template :=
  let curAdr := baseAddr + sdbAlign (BitVec.ofNat 32 (t.records.length * recordSize)) blockSize
  let files := relocate blockSize curAdr t.files
  { dir := { t.dir with
      addrFirst := baseAddr.setWidth 64
      addrLast := (files.getLast?.getD t.dir).addrLast }
    files := files }

/-- `storage_sdbfs_erase` of `n` blocks. -/
def storageSdbfsErase (c : Chip) (blockSize baseAddr : BitVec 32) (n : Nat) (m : Mem) : Mem :=
  (List.range n).foldl
    (fun m i => (c.erase m (baseAddr + BitVec.ofNat 32 i * blockSize).toNat blockSize.toNat).2) m

def writeRecords (c : Chip) (baseAddr : BitVec 32) : List SdbRecord → Nat → Mem → Mem
  | [], _, m => m
  | r :: rs, i, m =>
    writeRecords c baseAddr rs (i + 1)
      (c.write m (baseAddr + BitVec.ofNat 32 (i * recordSize)).toNat r.image recordSize).2

/-- `storage_sdbfs_format`: the template it leaves, and the device. -/
def storageSdbfsFormat (c : Chip) (blockSize baseAddr : BitVec 32) (t : Template) (m : Mem) :
    Template × Mem :=
  let t' := t.format blockSize baseAddr
  (t', writeRecords c baseAddr t'.records 0
    (storageSdbfsErase c blockSize baseAddr t'.records.length m))

/-- `f_offset` and `f_len` from a record, as `sdbfs_scan` and `sdbfs_open_id` compute them:
both are 32-bit `unsigned long`s. -/
def SdbRecord.open (r : SdbRecord) : File :=
  let offset : BitVec 32 := r.addrFirst.setWidth 32
  ⟨offset.toNat, ((r.addrLast + 1#64 - offset.setWidth 64).setWidth 32).toNat⟩

def Template.dirFile (baseAddr : BitVec 32) (t : Template) : File :=
  ⟨baseAddr.toNat, t.records.length * recordSize⟩

def Template.openFiles (t : Template) : List File := t.files.map SdbRecord.open

/-! ## The layout over the natural numbers

The files are apart and aligned for exact sums; that the 32 bits of the code hold these is shown
by itself. -/

def place (b : Nat) : Nat → List Nat → List File
  | _, [] => []
  | start, n :: ns => ⟨start, n⟩ :: place b (alignUp (start + n) b) ns

/-- The layout ends below 2^31, the range of `cur_adr`. -/
def Fits (b : Nat) : Nat → List Nat → Prop
  | _, [] => True
  | start, n :: ns => start + n ≤ 2 ^ 31 ∧ Fits b (alignUp (start + n) b) ns

instance decFits (b : Nat) : ∀ (start : Nat) (ns : List Nat), Decidable (Fits b start ns)
  | _, [] => isTrue trivial
  | start, n :: ns => @instDecidableAnd _ _ _ (decFits b (alignUp (start + n) b) ns)

def firstFile (b base : Nat) (t : Template) : Nat :=
    base + alignUp (t.records.length * recordSize) b

/-- `f` ends before `g` starts. -/
def Before (f g : File) : Prop := f.offset + f.len ≤ g.offset

/-- `f` and `g`, in some order, do not even share a block of size `b`. -/
def Apart (b : Nat) (f g : File) : Prop :=
  f.offset + alignUp f.len b ≤ g.offset ∨ g.offset + alignUp g.len b ≤ f.offset

instance (b : Nat) : Std.Symm (Apart b) := ⟨fun _ _ h => h.symm⟩

section Place

variable {b : Nat}

theorem place_lens (b : Nat) : ∀ (start : Nat) (ns : List Nat),
    (place b start ns).map File.len = ns
  | _, [] => rfl
  | start, n :: ns => congrArg (n :: ·) (place_lens b (alignUp (start + n) b) ns)

theorem place_start (hb : 0 < b) : ∀ {start : Nat} {ns : List Nat}, b ∣ start →
    ∀ f ∈ place b start ns, b ∣ f.offset ∧ start ≤ f.offset
  | _, [], _, f, hf => by cases hf
  | start, n :: ns, hs, f, hf => by
    rcases mem_cons.mp hf with rfl | hf
    · exact ⟨hs, Nat.le_refl start⟩
    · obtain ⟨hdvd, hle⟩ := place_start hb (dvd_alignUp (start + n) b) f hf
      exact ⟨hdvd, Nat.le_trans (Nat.le_trans (Nat.le_add_right start n)
        (le_alignUp (start + n) hb)) hle⟩

theorem place_apart (hb : 0 < b) : ∀ {start : Nat} (ns : List Nat), b ∣ start →
    (place b start ns).Pairwise fun f g => f.offset + alignUp f.len b ≤ g.offset
  | _, [], _ => List.Pairwise.nil
  | start, n :: ns, hs => by
    refine List.Pairwise.cons (fun g hg => ?_) (place_apart hb ns (dvd_alignUp (start + n) b))
    have hle := (place_start hb (dvd_alignUp (start + n) b) g hg).2
    rwa [alignUp_add_of_dvd hb hs] at hle

end Place

/-! ## The code computes it -/

section Words

variable {k : Nat}

theorem toNat_sdbAlign (hk : k < 32) (x : BitVec 32) (hx : x.toNat + 2 ^ k ≤ 2 ^ 32) :
    (sdbAlign x (BitVec.twoPow 32 k)).toNat = alignUp x.toNat (2 ^ k) := by
  have hpow : 2 ^ k < 2 ^ 32 := Nat.pow_lt_pow_right (by decide) hk
  have hpos : 0 < 2 ^ k := Nat.two_pow_pos k
  have hsum : (x + (BitVec.twoPow 32 k - 1#32)).toNat = x.toNat + 2 ^ k - 1 := by
    have hsub : (BitVec.twoPow 32 k - 1#32).toNat = 2 ^ k - 1 := by
      rw [toNat_sub, toNat_twoPow, toNat_ofNat, mod_eq_of_lt hpow]
      omega
    rw [toNat_add, hsub, mod_eq_of_lt (by omega)]
    omega
  rw [sdbAlign, toNat_and_not_mask _ hk, hsum, alignUp]

theorem toNat_signExtend {x : BitVec 32} (hx : x.toNat < 2 ^ 31) :
    (x.signExtend 64).toNat = x.toNat := by
  have hmsb : x.msb = false := BitVec.msb_eq_false_iff_two_mul_lt.mpr (by omega)
  rw [signExtend_eq_setWidth_of_msb_false hmsb, toNat_setWidth,
    mod_eq_of_lt (by omega)]

theorem open_eq {r : SdbRecord} {start n : Nat} (hn : 0 < n) (hfit : start + n ≤ 2 ^ 31)
    (hfirst : r.addrFirst.toNat = start) (hlast : r.addrLast.toNat = start + n - 1) :
    r.open = ⟨start, n⟩ := by
  have hoff : (r.addrFirst.setWidth 32).toNat = start := by
    rw [toNat_setWidth, hfirst, mod_eq_of_lt (by omega)]
  have hlen : ((r.addrLast + 1#64 - (r.addrFirst.setWidth 32).setWidth 64).setWidth 32).toNat =
      n := by
    simp only [toNat_setWidth, toNat_sub, toNat_add, hfirst, hlast,
      toNat_ofNat]
    omega
  simp only [SdbRecord.open, hoff, hlen]

theorem relocate_length (blockSize : BitVec 32) : ∀ (curAdr : BitVec 32) (files : List SdbRecord),
    (relocate blockSize curAdr files).length = files.length
  | _, [] => rfl
  | _, _ :: files => congrArg (· + 1) (relocate_length blockSize _ files)

theorem relocate_turn (hk : k < 32) {curAdr : BitVec 32} {r : SdbRecord}
    (hfit : curAdr.toNat + r.size ≤ 2 ^ 31) (hblock : 2 ^ k ≤ 2 ^ 31) :
    ((curAdr + (r.addrLast - r.addrFirst).setWidth 32).signExtend 64).toNat =
        curAdr.toNat + r.size - 1 ∧
      (sdbAlign (curAdr + ((r.addrLast - r.addrFirst).setWidth 32 + 1#32))
        (BitVec.twoPow 32 k)).toNat =
        alignUp (curAdr.toNat + r.size) (2 ^ k) := by
  have hsize : ((r.addrLast - r.addrFirst).setWidth 32 : BitVec 32).toNat = r.size - 1 := by
    rw [toNat_setWidth, SdbRecord.size, Nat.add_sub_cancel, mod_eq_of_lt]
    unfold SdbRecord.size at hfit
    omega
  have hpos : 0 < r.size := succ_pos _
  constructor
  · have hlast : (curAdr + (r.addrLast - r.addrFirst).setWidth 32).toNat =
        curAdr.toNat + r.size - 1 := by
      rw [toNat_add, hsize, mod_eq_of_lt (by omega)]
      omega
    rw [toNat_signExtend (by omega), hlast]
  · have hnext : (curAdr + ((r.addrLast - r.addrFirst).setWidth 32 + 1#32)).toNat =
        curAdr.toNat + r.size := by
      rw [toNat_add, toNat_add, hsize, toNat_ofNat]
      omega
    rw [toNat_sdbAlign hk _ (by omega), hnext]

/-- The loop lays the files out as `place` does, and a second pass over its result
changes nothing. -/
theorem relocate_eq_place (hk : k < 31) : ∀ (files : List SdbRecord) (curAdr : BitVec 32),
    Fits (2 ^ k) curAdr.toNat (files.map SdbRecord.size) →
    (relocate (BitVec.twoPow 32 k) curAdr files).map SdbRecord.open =
        place (2 ^ k) curAdr.toNat (files.map SdbRecord.size) ∧
      relocate (BitVec.twoPow 32 k) curAdr (relocate (BitVec.twoPow 32 k) curAdr files) =
        relocate (BitVec.twoPow 32 k) curAdr files
  | [], _, _ => ⟨rfl, rfl⟩
  | r :: files, curAdr, hfit => by
    obtain ⟨hhere, hrest⟩ := hfit
    have hblock : 2 ^ k ≤ 2 ^ 31 := Nat.pow_le_pow_right (by decide) (Nat.le_of_lt hk)
    have hpos : 0 < r.size := succ_pos _
    obtain ⟨hlast, hnext⟩ := relocate_turn (lt_succ_of_lt hk) hhere hblock
    have hfirst : (curAdr.signExtend 64).toNat = curAdr.toNat := toNat_signExtend (by omega)
    rw [← hnext] at hrest
    obtain ⟨hplace, hagain⟩ := relocate_eq_place hk files _ hrest
    -- the size is the same when it is computed from the new addresses
    have hsize : ((curAdr + (r.addrLast - r.addrFirst).setWidth 32).signExtend 64 -
        curAdr.signExtend 64).setWidth 32 = (r.addrLast - r.addrFirst).setWidth 32 := by
      apply eq_of_toNat_eq
      rw [toNat_setWidth, toNat_sub, hlast, hfirst, toNat_setWidth,
        show (r.addrLast - r.addrFirst).toNat = r.size - 1 from rfl]
      omega
    constructor
    · simp only [relocate, map_cons, place, hplace, hnext]
      exact congrArg (· :: _) (open_eq hpos hhere hfirst hlast)
    · simp only [relocate, hsize, hagain]

end Words

/-! ## A formatted device -/

section Format

variable {c : Chip} {k : Nat} {baseAddr : BitVec 32} {t : Template}

theorem toNat_firstFile (hk : k < 31)
    (hfirst : firstFile (2 ^ k) baseAddr.toNat t < 2 ^ 31) :
    (baseAddr + sdbAlign (BitVec.ofNat 32 (t.records.length * recordSize))
      (BitVec.twoPow 32 k)).toNat = firstFile (2 ^ k) baseAddr.toNat t := by
  have hblock : 2 ^ k < 2 ^ 31 := Nat.pow_lt_pow_right (by decide) hk
  have hdir : t.records.length * recordSize ≤ alignUp (t.records.length * recordSize) (2 ^ k) :=
    le_alignUp _ (Nat.two_pow_pos k)
  unfold firstFile at hfirst ⊢
  have hlen : (BitVec.ofNat 32 (t.records.length * recordSize)).toNat =
      t.records.length * recordSize := by
    rw [toNat_ofNat, mod_eq_of_lt (by omega)]
  have halign := toNat_sdbAlign (lt_succ_of_lt hk)
    (BitVec.ofNat 32 (t.records.length * recordSize)) (by omega)
  rw [hlen] at halign
  rw [toNat_add, halign, mod_eq_of_lt (by omega)]

section Fitting

variable (hfit : Fits (2 ^ k) (firstFile (2 ^ k) baseAddr.toNat t) (t.files.map SdbRecord.size))

include hfit

theorem block_lt_of_fits (hfiles : t.files ≠ []) :
    k < 31 ∧ firstFile (2 ^ k) baseAddr.toNat t < 2 ^ 31 := by
  obtain ⟨r, rs, hrs⟩ := exists_cons_of_ne_nil hfiles
  rw [hrs] at hfit
  have hend : firstFile (2 ^ k) baseAddr.toNat t + r.size ≤ 2 ^ 31 := hfit.1
  have hpos : 0 < r.size := succ_pos _
  have hdir : 0 < t.records.length * recordSize :=
    Nat.mul_pos (succ_pos _) (by decide)
  have hblock : 2 ^ k ≤ alignUp (t.records.length * recordSize) (2 ^ k) :=
    le_of_dvd (Nat.lt_of_lt_of_le hdir (le_alignUp _ (Nat.two_pow_pos k))) (dvd_alignUp _ _)
  have hlt : 2 ^ k < 2 ^ 31 := by
    unfold firstFile at hend
    omega
  exact ⟨(Nat.pow_lt_pow_iff_right (by decide)).mp hlt, by omega⟩

/-- The files of a formatted device are those of the layout, and formatting again leaves
the template as it is. -/
theorem format_eq_place :
    (t.format (BitVec.twoPow 32 k) baseAddr).openFiles =
        place (2 ^ k) (firstFile (2 ^ k) baseAddr.toNat t) (t.files.map SdbRecord.size) ∧
      (t.format (BitVec.twoPow 32 k) baseAddr).format (BitVec.twoPow 32 k) baseAddr =
        t.format (BitVec.twoPow 32 k) baseAddr := by
  obtain ⟨dir, files⟩ := t
  by_cases hfiles : files = []
  · subst hfiles
    exact ⟨rfl, rfl⟩
  · obtain ⟨hk, hfirst⟩ := block_lt_of_fits hfit hfiles
    have hcur := toNat_firstFile hk hfirst
    rw [← hcur] at hfit
    obtain ⟨hplace, hagain⟩ := relocate_eq_place hk files _ hfit
    rw [← hcur]
    refine ⟨hplace, ?_⟩
    simp only [Template.format, Template.records, length_cons, relocate_length] at hagain ⊢
    rw [hagain]
    -- some file is last, so the directory's old end is not looked at
    have hne : relocate (BitVec.twoPow 32 k) (baseAddr + sdbAlign
        (BitVec.ofNat 32 ((files.length + 1) * recordSize)) (BitVec.twoPow 32 k)) files ≠ [] := by
      intro hnil
      have hzero := congrArg List.length hnil
      rw [relocate_length] at hzero
      exact hfiles (length_eq_zero_iff.mp hzero)
    rw [getLast?_eq_some_getLast hne]
    rfl

theorem format_apart (hbase : 2 ^ k ∣ baseAddr.toNat) :
    (t.dirFile baseAddr :: (t.format (BitVec.twoPow 32 k) baseAddr).openFiles).Pairwise
      fun f g => f.offset + alignUp f.len (2 ^ k) ≤ g.offset := by
  have hstart : 2 ^ k ∣ firstFile (2 ^ k) baseAddr.toNat t := Nat.dvd_add hbase (dvd_alignUp _ _)
  rw [(format_eq_place hfit).1]
  refine List.Pairwise.cons (fun g hg => ?_) (place_apart (Nat.two_pow_pos k) _ hstart)
  exact (place_start (Nat.two_pow_pos k) hstart g hg).2

theorem records_below :
    baseAddr.toNat + (t.records.length - 1) * recordSize < 2 ^ 32 ∧
      (recordSize ≤ 2 ^ k → baseAddr.toNat + 2 ^ k ≤ 2 ^ 32 →
        baseAddr.toNat + t.records.length * recordSize ≤ 2 ^ 32) := by
  have hlt := baseAddr.isLt
  by_cases hfiles : t.files = []
  · simp only [Template.records, hfiles, length_cons, length_nil]
    omega
  · have hfirst := (block_lt_of_fits hfit hfiles).2
    have hdir := le_alignUp (t.records.length * recordSize) (Nat.two_pow_pos k)
    unfold firstFile recordSize at *
    omega

end Fitting

theorem dirFile_format (blockSize : BitVec 32) :
    (t.format blockSize baseAddr).dirFile baseAddr = t.dirFile baseAddr := by
  simp [Template.dirFile, Template.records, Template.format, relocate_length]

/-! ### What is on the device

The records are written one behind the other, so all the writes together are one (`put_append`),
and it is enough that the cells take what is written: those of an EEPROM always do, those of a flash
because they are erased. -/

theorem length_image (r : SdbRecord) : r.image.length = recordSize := by
  simp [SdbRecord.image, recordSize]

theorem length_images (rs : List SdbRecord) :
    (rs.flatMap SdbRecord.image).length = rs.length * recordSize := by
  simp [length_flatMap, length_image]

theorem records_format (blockSize : BitVec 32) :
    (t.format blockSize baseAddr).records.length = t.records.length := by
  simp [Template.records, Template.format, relocate_length]

theorem writeRecords_eq (hpage : c.paged = true → pageSize ∣ baseAddr.toNat) :
    ∀ (rs : List SdbRecord) (i : Nat) (m : Mem),
      baseAddr.toNat + (i + rs.length - 1) * recordSize < 2 ^ 32 →
      writeRecords c baseAddr rs i m =
        c.put m (baseAddr.toNat + i * recordSize) (rs.flatMap SdbRecord.image)
  | [], _, _, _ => (put_nil _).symm
  | r :: rs, i, m, hlt => by
    rw [length_cons] at hlt
    have hnext : baseAddr.toNat + (i + 1 + rs.length - 1) * recordSize < 2 ^ 32 := by
      unfold recordSize at *
      omega
    have haddr : (baseAddr + BitVec.ofNat 32 (i * recordSize)).toNat =
        baseAddr.toNat + i * recordSize := by
      rw [toNat_add, toNat_ofNat]
      unfold recordSize at *
      omega
    have hstays : c.Stays (baseAddr.toNat + i * recordSize) r.image.length := fun hpaged => by
      have := hpage hpaged
      rw [length_image]
      unfold pageSize recordSize at *
      omega
    have htake : r.image.take (recordSize : Int).toNat = r.image :=
      take_of_length_le (Nat.le_of_eq (length_image r))
    rw [writeRecords, writeRecords_eq hpage rs (i + 1) _ hnext, Chip.write, haddr, htake,
      store_eq_put hstays, flatMap_cons, ← put_append, length_image, Nat.add_mul,
      Nat.one_mul, Nat.add_assoc]

theorem eraseSectors_erased {addr j : Nat} {m : Mem} (h : m j = erased) :
    ∀ n, c.eraseSectors m addr n j = erased
  | 0 => h
  | n + 1 => by
    rw [Chip.eraseSectors, Chip.eraseSector]
    split
    · rfl
    · exact eraseSectors_erased h n

theorem storageSdbfsErase_succ (blockSize : BitVec 32) (n : Nat) (m : Mem) :
    storageSdbfsErase c blockSize baseAddr (n + 1) m =
      (c.erase (storageSdbfsErase c blockSize baseAddr n m)
        (baseAddr + BitVec.ofNat 32 n * blockSize).toNat blockSize.toNat).2 := by
  simp only [storageSdbfsErase, range_succ, foldl_append, foldl_cons,
    foldl_nil]

/-- The blocks that are erased, as far as their addresses do not wrap. -/
theorem storageSdbfsErase_erased (hk : k < 32) (hchip : c.sectorSize ∣ 2 ^ k)
    (hbase : 2 ^ k ∣ baseAddr.toNat) (m : Mem) {j : Nat} (hj : baseAddr.toNat ≤ j)
    (hlt : j < 2 ^ 32) : ∀ n, j < baseAddr.toNat + n * 2 ^ k →
      storageSdbfsErase c (BitVec.twoPow 32 k) baseAddr n m j = erased
  | 0, h => by omega
  | n + 1, h => by
    rw [storageSdbfsErase_succ]
    by_cases hin : j < baseAddr.toNat + n * 2 ^ k
    · exact eraseSectors_erased (storageSdbfsErase_erased hk hchip hbase m hj hlt n hin) _
    · have hblock : (BitVec.twoPow 32 k).toNat = 2 ^ k := by
        rw [toNat_twoPow, mod_eq_of_lt (Nat.pow_lt_pow_right (by decide) hk)]
      have hmul : n * 2 ^ k < 2 ^ 32 := by omega
      have hn : n < 2 ^ 32 :=
        Nat.lt_of_le_of_lt (Nat.le_mul_of_pos_right n (Nat.two_pow_pos k)) hmul
      have haddr : (baseAddr + BitVec.ofNat 32 n * BitVec.twoPow 32 k).toNat =
          baseAddr.toNat + n * 2 ^ k := by
        rw [toNat_add, toNat_mul, hblock, toNat_ofNat, mod_eq_of_lt hn, mod_eq_of_lt hmul,
          mod_eq_of_lt (by omega)]
      have hdvd : c.sectorSize ∣ baseAddr.toNat + n * 2 ^ k :=
        Nat.dvd_add (Nat.dvd_trans hchip hbase) (Nat.dvd_trans hchip (Nat.dvd_mul_left _ _))
      have hround := le_alignUp (2 ^ k) c.sectorSize_pos
      unfold alignUp at hround
      rw [Chip.erase, haddr, hblock, Int.toNat_natCast]
      rw [Nat.add_mul, Nat.one_mul] at h
      exact (eraseSectors_apply hdvd _ j).trans (if_pos ⟨by omega, by omega⟩)

/-- The records are on the device. -/
theorem read_written (hk : k < 32) (hchip : c.sectorSize ∣ 2 ^ k) (hbase : 2 ^ k ∣ baseAddr.toNat)
    {rs : List SdbRecord} (hbelow : baseAddr.toNat + (rs.length - 1) * recordSize < 2 ^ 32)
    (hwithin : recordSize ≤ 2 ^ k → baseAddr.toNat + 2 ^ k ≤ 2 ^ 32 →
      baseAddr.toNat + rs.length * recordSize ≤ 2 ^ 32) (m : Mem) :
    (writeRecords c baseAddr rs 0
      (storageSdbfsErase c (BitVec.twoPow 32 k) baseAddr rs.length m)).read
        baseAddr.toNat (rs.length * recordSize) = rs.flatMap SdbRecord.image := by
  have hpages (hpaged : c.paged = true) : pageSize ∣ 2 ^ k := Nat.dvd_trans (c.pages hpaged) hchip
  rw [writeRecords_eq (fun hpaged => Nat.dvd_trans (hpages hpaged) hbase) rs 0 _
    (by rwa [Nat.zero_add]), Nat.zero_mul, Nat.add_zero, ← length_images]
  cases hpaged : c.paged with
  | false => exact read_put hpaged
  | true =>
    -- a block is not smaller than a record, so the records lie in the blocks that were erased
    have hblock : recordSize ≤ 2 ^ k :=
      Nat.le_trans (by decide) (le_of_dvd (Nat.two_pow_pos k) (hpages hpaged))
    have hmul := Nat.mul_le_mul_left rs.length hblock
    have hroom : baseAddr.toNat + 2 ^ k ≤ 2 ^ 32 := by
      have hlt := baseAddr.isLt
      obtain ⟨q, hq⟩ := hbase
      obtain ⟨s, hs⟩ := Nat.pow_dvd_pow 2 (Nat.le_of_lt hk)
      rw [hq, hs] at hlt ⊢
      rw [← Nat.mul_succ]
      exact Nat.mul_le_mul_left _ (Nat.lt_of_mul_lt_mul_left hlt)
    have hend := hwithin hblock hroom
    refine read_put_erased fun i hi => ?_
    rw [length_images] at hi
    exact storageSdbfsErase_erased hk hchip hbase m (Nat.le_add_right _ _) (by omega) _ (by omega)

/-- The directory of a formatted device, whatever was on it. -/
theorem format_written (hk : k < 32) (hchip : c.sectorSize ∣ 2 ^ k)
    (hbase : 2 ^ k ∣ baseAddr.toNat)
    (hfit : Fits (2 ^ k) (firstFile (2 ^ k) baseAddr.toNat t) (t.files.map SdbRecord.size)) :
    let t' := t.format (BitVec.twoPow 32 k) baseAddr
    ∀ t₀ : Template, t₀.format (BitVec.twoPow 32 k) baseAddr = t' → ∀ m,
      (storageSdbfsFormat c (BitVec.twoPow 32 k) baseAddr t₀ m).2.read baseAddr.toNat
        (t.records.length * recordSize) = t'.records.flatMap SdbRecord.image := by
  intro t' t₀ ht₀ m
  have hrecords : t'.records.length = t.records.length := records_format _
  have hlimits := records_below hfit
  rw [← hrecords] at hlimits ⊢
  have hdev : (storageSdbfsFormat c (BitVec.twoPow 32 k) baseAddr t₀ m).2 =
      writeRecords c baseAddr t'.records 0
        (storageSdbfsErase c (BitVec.twoPow 32 k) baseAddr t'.records.length m) := by
    rw [← ht₀]
    rfl
  rw [hdev]
  exact read_written hk hchip hbase hlimits.1 hlimits.2 m

section Directory

variable {dev : Mem} {this : Nat}

/-- A part of a record, by its place. -/
theorem read_field {r : SdbRecord} (h : dev.read this recordSize = r.image) {off len : Nat}
    (hin : off + len ≤ recordSize) :
    dev.read (this + off) len = (r.image.drop off).take len := by
  rw [← h]
  obtain ⟨rest, hrest⟩ := Nat.exists_eq_add_of_le hin
  rw [hrest, Nat.add_assoc, Mem.read_append, drop_left' (Mem.read_length ..), Mem.read_append,
    take_left' (Mem.read_length ..)]

theorem fileOf_image {r : SdbRecord} (h : dev.read this recordSize = r.image) :
    fileOf dev this = r.open := by
  have hfirst : dev.read (this + 0x08) 8 = Bytes.imageOf .big 8 r.addrFirst.toNat := by
    rw [read_field h (by decide)]
    simp [SdbRecord.image, drop_append]
  have hlast : dev.read (this + 0x10) 8 = Bytes.imageOf .big 8 r.addrLast.toNat := by
    rw [read_field h (by decide)]
    simp [SdbRecord.image]
  have hlt := r.addrFirst.isLt
  have hlt' := r.addrLast.isLt
  rw [fileOf, hfirst, hlast, Bytes.ofImage_imageOf .big hlt, Bytes.ofImage_imageOf .big hlt']
  simp only [SdbRecord.open, toNat_setWidth, toNat_sub, toNat_add, toNat_ofNat, File.mk.injEq,
    true_and]
  omega

theorem findRecord_images (id : SdbId) : ∀ (rs : List SdbRecord) (this : Nat),
    dev.read this (rs.length * recordSize) = rs.flatMap SdbRecord.image →
      (findRecord dev id rs.length this).1 = (rs.find? fun r => r.id = id).map SdbRecord.open
  | [], _, _ => rfl
  | r :: rs, this, h => by
    rw [length_cons, Nat.add_mul, Nat.one_mul, Nat.add_comm, flatMap_cons,
      Mem.read_eq_append_iff (length_image r)] at h
    have hvid : dev.read (this + 0x18) 8 = r.id.vid := by
      rw [read_field h.1 (by decide)]
      simp [SdbRecord.image, SdbRecord.id, drop_append]
    have hdid : dev.read (this + 0x20) 4 = r.id.did := by
      rw [read_field h.1 (by decide)]
      simp [SdbRecord.image, SdbRecord.id, drop_append]
    rw [length_cons, findRecord, hvid, hdid, find?_cons]
    by_cases hid : r.id = id
    · rw [if_pos (by rw [hid]; exact ⟨rfl, rfl⟩), fileOf_image h.1]
      simp [hid]
    · rw [if_neg fun hsame => hid (by cases id; cases hr : r.id; simp_all),
        findRecord_images id rs _ h.2]
      simp [hid]

theorem scanNewdir_image {r : SdbRecord} {n : Nat} (h : dev.read this recordSize = r.image)
    (hdir : r.IsDirectory (n + 1)) : scanNewdir dev this = some n := by
  obtain ⟨htype, hmagic, hcount⟩ := hdir
  have hlast : dev (this + 0x3f) = 0 := by
    have hbyte : dev.read (this + 0x3f) 1 = _ := read_field h (by decide)
    rw [show (r.image.drop 0x3f).take 1 = [r.product 39] by
      simp [SdbRecord.image, drop_append, drop_eq_getElem_cons]] at hbyte
    rw [← htype]
    exact (List.cons.inj hbyte).1
  have hfour : dev.read this 4 = sdbMagic := by
    rw [← hmagic]
    have : dev.read (this + 0) 4 = _ := read_field h (by decide)
    rw [Nat.add_zero] at this
    rw [this]
    simp [SdbRecord.image]
  have htwo : dev.read (this + 4) 2 = ((List.ofFn r.head).drop 4).take 2 := by
    rw [read_field h (by decide)]
    simp [SdbRecord.image]
  have hlt : n + 1 < 256 ^ 2 := by
    have := Bytes.ofImage_lt .big (((List.ofFn r.head).drop 4).take 2)
    rw [hcount] at this
    simpa using this
  have hleft : (n + 1 + 4294967295) % 4294967296 = n := by omega
  rw [scanNewdir, if_neg (not_not.2 hlast), if_neg (not_not.2 hfour), htwo, hcount, hleft]

end Directory

/-- `storage_sdbfs_format` with a block size `2^k`, on a device whose erase units divide the
block size, at a multiple of the block size, with a layout that ends below 2^31: directory and
files lie apart and in order, files start on block boundaries and keep their sizes; the records
are on the device, where `sdbfs_open_id` finds the files; formatting again writes the same
records; and a file that is erased as a whole takes nothing with it. -/
theorem storageSdbfsFormat_isolates (c : Chip) (hk : k < 31) (hchip : c.sectorSize ∣ 2 ^ k)
    (hbase : 2 ^ k ∣ baseAddr.toNat)
    (hfit : Fits (2 ^ k) (firstFile (2 ^ k) baseAddr.toNat t) (t.files.map SdbRecord.size))
    (m : Mem) :
    let r := storageSdbfsFormat c (BitVec.twoPow 32 k) baseAddr t m
    let t' := r.1
    let dir := t'.dirFile baseAddr
    (dir :: t'.openFiles).Pairwise Before ∧
      (∀ f ∈ t'.openFiles, 2 ^ k ∣ f.offset) ∧
      t'.openFiles.map File.len = t.files.map SdbRecord.size ∧
      r.2.read dir.offset dir.len = t'.records.flatMap SdbRecord.image ∧
      (t.dir.IsDirectory t.records.length → ∀ fs : Sdbfs, fs.mounted = true →
        fs.entrypoint = dir.offset → ∀ id,
          (openId r.2 fs id).1 = (t'.files.find? fun r => r.id = id).map SdbRecord.open) ∧
      (∀ m', let r' := storageSdbfsFormat c (BitVec.twoPow 32 k) baseAddr t' m'
        r'.1 = t' ∧ r'.2.read dir.offset dir.len = r.2.read dir.offset dir.len) ∧
      ∀ f ∈ t'.openFiles, ∀ g ∈ dir :: t'.openFiles, g ≠ f →
        ∀ (d : Mem) (x : Nat), g.offset ≤ x → x < g.offset + g.len →
          (ferase c f d 0 f.len).2 x = d x := by
  intro r t' dir
  have hb : 0 < 2 ^ k := Nat.two_pow_pos k
  have happart := format_apart hfit hbase
  rw [← dirFile_format (BitVec.twoPow 32 k)] at happart
  have hstart : 2 ^ k ∣ firstFile (2 ^ k) baseAddr.toNat t := Nat.dvd_add hbase (dvd_alignUp _ _)
  obtain ⟨hplace, hagain⟩ := format_eq_place hfit
  have halign : ∀ f ∈ t'.openFiles, 2 ^ k ∣ f.offset := by
    intro f hf
    change f ∈ (t.format (BitVec.twoPow 32 k) baseAddr).openFiles at hf
    rw [hplace] at hf
    exact (place_start hb hstart f hf).1
  have hdir : dir = ⟨baseAddr.toNat, t.records.length * recordSize⟩ := dirFile_format _
  have hwritten : r.2.read dir.offset dir.len = t'.records.flatMap SdbRecord.image := by
    rw [hdir]
    exact format_written (Nat.lt_succ_of_lt hk) hchip hbase hfit t rfl m
  refine ⟨?_, halign, ?_, hwritten, fun hvalid fs hmounted hentry id => ?_,
    fun m' => ⟨hagain, ?_⟩, ?_⟩
  · refine happart.imp fun {f g} h => ?_
    exact Nat.le_trans (Nat.add_le_add_left (le_alignUp f.len hb) f.offset) h
  · change (t.format (BitVec.twoPow 32 k) baseAddr).openFiles.map File.len = _
    rw [hplace, place_lens]
  · -- the first record says how many follow, and those are the files
    have hfiles : t'.files.length = t.files.length := relocate_length ..
    rw [← hentry, hdir, show t.records.length * recordSize =
        recordSize + t'.files.length * recordSize by
      rw [hfiles, Template.records, length_cons, Nat.add_mul, Nat.one_mul, Nat.add_comm],
      Template.records, flatMap_cons, Mem.read_eq_append_iff (length_image _)] at hwritten
    have hscan : scanNewdir r.2 fs.entrypoint = some t'.files.length := by
      rw [hfiles]
      exact scanNewdir_image hwritten.1 hvalid
    rw [openId, hmounted, if_neg (by decide), hscan]
    exact findRecord_images id _ _ hwritten.2
  · rw [hwritten, hdir]
    exact format_written (Nat.lt_succ_of_lt hk) hchip hbase hfit t' hagain m'
  · intro f hf g hg hne d x hlo hhi
    rw [ferase_whole (Nat.dvd_trans hchip (halign f hf))]
    have hround := alignUp_mono_dvd c.sectorSize_pos hb hchip f.len
    have hlen : g.len ≤ alignUp g.len (2 ^ k) := le_alignUp g.len hb
    have hor : (t'.dirFile baseAddr :: t'.openFiles).Pairwise (Apart (2 ^ k)) :=
      happart.imp fun h => Or.inl h
    refine if_neg fun hx => ?_
    rcases hor.forall hg (mem_cons_of_mem _ hf) hne with hgf | hfg
    · omega
    · omega

/-- A template record of a file with `n + 1` bytes. -/
def SdbRecord.blank (n : Nat) : SdbRecord :=
  ⟨fun _ => 0, 0, BitVec.ofNat 64 n, fun _ => 0⟩

/-- Four files behind an FPGA bitstream, on a flash with sectors of 64 KiB. -/
theorem storageSdbfsFormat_isolates_flash :
    let t : Template := ⟨.blank 0, [.blank 5, .blank 255, .blank 70000, .blank 255]⟩
    let t' := (storageSdbfsFormat (Chip.flash (2 ^ 16) (by decide)) (BitVec.twoPow 32 16) 0x170000
      t (fun _ => 0)).1
    t'.openFiles.map File.len = [6, 256, 70001, 256] ∧
      (t'.dirFile 0x170000 :: t'.openFiles).Pairwise Before :=
  have h := @storageSdbfsFormat_isolates 16 0x170000
    ⟨.blank 0, [.blank 5, .blank 255, .blank 70000, .blank 255]⟩
    (Chip.flash (2 ^ 16) (by decide)) (by decide) (by decide) (by decide) (by decide) (fun _ => 0)
  ⟨h.2.2.1, h.1⟩

/-- A template file of 2^32 bytes, which no 32-bit `f_len` can describe: `size` becomes -1, and
the file gets no byte. -/
theorem storageSdbfsFormat_huge :
    let t : Template := ⟨.blank 0, [.blank (2 ^ 32 - 1)]⟩
    let t' := (storageSdbfsFormat Chip.eeprom (BitVec.twoPow 32 0) 0 t (fun _ => 0)).1
    t.files.map SdbRecord.size = [2 ^ 32] ∧ t'.openFiles = [⟨128, 0⟩] ∧
      t'.openFiles.map File.len ≠ t.files.map SdbRecord.size := by
  decide

end Format

end Wrpc.Storage
