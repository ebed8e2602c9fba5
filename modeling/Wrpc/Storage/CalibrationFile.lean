/-
# The calibration file (`storage-cal.c`)

The table of calibration parameters is saved as one record with a checksum, all its words in
network order.  `calibration_map` is what the table is for: a finite map, kept by the calls and
restored by `storage_load_calibration`.

The number of entries is a word of the record like the others.  `storage_load_calibration` sums
up that many entries before it knows whether the record is good, and does not compare the number
with the size of the table.
-/
import Wrpc.Storage.Calibration
import Wrpc.Storage.Directory
import Wrpc.Storage.SfpMap
import Mathlib.Tactic.IntervalCases

namespace Wrpc.Storage

open List Bytes Nat

/-- `SDB_VENDOR` and `SDB_DEV_CALIB` -/
def sdbDevCalib : SdbId := ⟨sdbVendor, [0x63, 0x61, 0x6c, 0x69]⟩

/-- `sizeof(wrc_cal_data_t)` -/
def calSize : Nat := 108

def CalData.words (cal : CalData) : List (BitVec 32) :=
  [cal.magic, cal.paramCount, cal.checksum] ++
    (List.range calMaxParams).flatMap fun i => [(cal.params i).id, (cal.params i).value]

/-- The record in the memory of a machine of byte order `o`. -/
def CalData.image (o : Order) (cal : CalData) : List Byte :=
  cal.words.flatMap fun w => imageOf o 4 w.toNat

/-- Word number `k` of a record in memory. -/
def wordAt (o : Order) (bytes : List Byte) (k : Nat) : BitVec 32 :=
  BitVec.ofNat 32 (ofImage o ((bytes.drop (4 * k)).take 4))

/-- The bytes are copied over the record; what lies behind it stays. -/
def CalData.copy (o : Order) (cal : CalData) (bytes : List Byte) : CalData where
  magic := wordAt o bytes 0
  paramCount := wordAt o bytes 1
  checksum := wordAt o bytes 2
  params i :=
    if i < calMaxParams then ⟨wordAt o bytes (3 + 2 * i), wordAt o bytes (4 + 2 * i)⟩
    else cal.params i

/-- `ntohl_mem` (and `htonl_mem`) over the record. -/
def CalData.ntohlMem (o : Order) (cal : CalData) : CalData where
  magic := hton o 4 cal.magic
  paramCount := hton o 4 cal.paramCount
  checksum := hton o 4 cal.checksum
  params i :=
    if i < calMaxParams then ⟨hton o 4 (cal.params i).id, hton o 4 (cal.params i).value⟩
    else cal.params i

/-- The device and the statics `cal_data` and `calibration_loaded`. -/
structure CalStore where
  fs : Sdbfs
  mem : Mem
  cal : CalData
  calibrationLoaded : Bool

/-- `storage_load_calibration` -/
def storageLoadCalibration (o : Order) (s : CalStore) : Uses (Int × CalStore) :=
  let r := openId s.mem s.fs sdbDevCalib
  let failed (cal : CalData) : Int × CalStore :=
    (-1, { s with fs := r.2, cal := { cal with paramCount := 0 } })
  match r.1 with
  | none => pure (failed s.cal)
  | some f =>
    let rd := fread f s.mem 0 calSize
    if rd.1 ≠ calSize then pure (failed s.cal)
    else
      let cal := (s.cal.copy o rd.2).ntohlMem o
      if cal.magic ≠ calFileMagic then pure (failed cal)
      else do
        let cksum ← calcChecksum cal
        if cal.checksum ≠ cksum then pure (failed cal)
        else pure (0, { s with fs := r.2, cal := cal, calibrationLoaded := true })

/-- What `write` and `erase` of a device return, and the cells behind them. -/
structure Device where
  write : Mem → Nat → List Byte → Int → Int × Mem
  erase : Mem → Nat → Int → Int × Mem

/-- `sdbfs_fwrite` -/
def Device.fwrite (d : Device) (f : File) (m : Mem) (offset : Nat) (data : List Byte) : Int × Mem :=
  d.write m (f.offset + offset) data (f.clip offset data.length)

/-- `sdbfs_ferase` -/
def Device.ferase (d : Device) (f : File) (m : Mem) (offset : Nat) (count : Int) : Int × Mem :=
  d.erase m (f.offset + offset) (f.clip offset count)

/-- `storage_save_calibration`.  The value returned does not tell whether the record was
written. -/
def Device.saveCalibration (d : Device) (o : Order) (s : CalStore) : Uses (Int × CalStore) :=
  let r := openId s.mem s.fs sdbDevCalib
  match r.1 with
  | none => pure (-1, { s with fs := r.2 })
  | some f => do
    let cal := { s.cal with magic := calFileMagic }
    let cksum ← calcChecksum cal
    let cal := { cal with checksum := cksum }
    let m := (d.ferase f s.mem 0 f.len).2
    -- a short write skips a message, and `ret` is 0 either way
    let m := (d.fwrite f m 0 ((cal.ntohlMem o).image o)).2
    pure (0, { s with fs := r.2, mem := m, cal := cal })

/-- A chip as a device; its operations do not fail. -/
def Chip.device (c : Chip) : Device := ⟨c.write, c.erase⟩

/-- `storage_save_calibration` on a chip. -/
def storageSaveCalibration (c : Chip) (o : Order) (s : CalStore) : Uses (Int × CalStore) :=
  c.device.saveCalibration o s

section Record

variable {o : Order}

theorem image_length (cal : CalData) : (cal.image o).length = calSize := by
  rw [CalData.image, length_flatMap]
  simp only [imageOf_length, map_const', sum_replicate_nat]
  rfl

theorem wordAt_flatMap : ∀ (ws : List (BitVec 32)) {k : Nat}, k < ws.length →
    wordAt o (ws.flatMap fun w => imageOf o 4 w.toNat) k = ws.getD k 0
  | w :: ws, 0, _ => by
    have hfirst : (imageOf o 4 w.toNat ++
        ws.flatMap fun w => imageOf o 4 w.toNat).take 4 = imageOf o 4 w.toNat :=
      take_left' (imageOf_length o 4 w.toNat)
    rw [wordAt, flatMap_cons, drop_zero, hfirst]
    exact ofNat_ofImage o 4 w
  | w :: ws, k + 1, hk => by
    have hrest : (imageOf o 4 w.toNat ++
        ws.flatMap fun w => imageOf o 4 w.toNat).drop (4 + 4 * k) =
          (ws.flatMap fun w => imageOf o 4 w.toNat).drop (4 * k) := by
      rw [← drop_drop, drop_left' (imageOf_length o 4 w.toNat)]
    rw [wordAt, flatMap_cons, mul_succ, add_comm, hrest]
    exact wordAt_flatMap ws (lt_of_succ_lt_succ hk)

theorem copy_image (cal old : CalData) :
    old.copy o (cal.image o) =
      { cal with params := fun i => if i < calMaxParams then cal.params i else old.params i } := by
  have hword : ∀ k < 27, wordAt o (cal.image o) k = cal.words.getD k 0 :=
    fun k hk => wordAt_flatMap cal.words hk
  have hparam : ∀ i < calMaxParams,
      (⟨wordAt o (cal.image o) (3 + 2 * i), wordAt o (cal.image o) (4 + 2 * i)⟩ : CalParam) =
        cal.params i := by
    intro i hi
    unfold calMaxParams at hi
    rw [hword _ (by omega), hword _ (by omega)]
    interval_cases i <;> rfl
  ext1
  · exact hword 0 (by decide)
  · exact hword 1 (by decide)
  · exact hword 2 (by decide)
  · funext i
    rw [CalData.copy]
    by_cases hi : i < calMaxParams
    · simp only [hparam i hi]
    · simp only [if_neg hi]

theorem ntohlMem_copy_image (cal old : CalData) :
    (old.copy o ((cal.ntohlMem o).image o)).ntohlMem o =
      { cal with params := fun i => if i < calMaxParams then cal.params i else old.params i } := by
  rw [copy_image]
  ext1
  · exact hton_hton o 4 cal.magic
  · exact hton_hton o 4 cal.paramCount
  · exact hton_hton o 4 cal.checksum
  · funext i
    simp only [CalData.ntohlMem]
    by_cases hi : i < calMaxParams
    · simp only [if_pos hi, hton_hton o 4 (cal.params i).id, hton_hton o 4 (cal.params i).value]
    · simp only [if_neg hi]

theorem hton_wordAt {m : Mem} {off n k : Nat} (h : 4 * k + 4 ≤ n) :
    (hton o 4 (wordAt o (m.read off n) k)).toNat = ofImage .big (m.read (off + 4 * k) 4) := by
  obtain ⟨r, rfl⟩ : ∃ r, n = 4 * k + (4 + r) := ⟨n - (4 * k + 4), by omega⟩
  have hbytes : ((m.read off (4 * k + (4 + r))).drop (4 * k)).take 4 = m.read (off + 4 * k) 4 := by
    rw [Mem.read_append, drop_left' (Mem.read_length _ _ _), Mem.read_append,
      take_left' (Mem.read_length _ _ _)]
  rw [wordAt, hbytes]
  exact toNat_hton_ofImage o (Mem.read_length _ _ _)

end Record

/-! ## Saving and loading -/

section File

variable {c : Chip} {o : Order} {s : CalStore} {f : File}

def stored (o : Order) (s : CalStore) (f : File) : CalData :=
  (s.cal.copy o (s.mem.read f.offset calSize)).ntohlMem o

def Readable (s : CalStore) (f : File) : Prop :=
  (openId s.mem s.fs sdbDevCalib).1 = some f ∧ calSize ≤ f.len

theorem storageLoad_unread (h : ∀ f, ¬ Readable s f) :
    storageLoadCalibration o s = pure (-1, { s with
      fs := (openId s.mem s.fs sdbDevCalib).2, cal := { s.cal with paramCount := 0 } }) := by
  rw [storageLoadCalibration]
  cases hopen : (openId s.mem s.fs sdbDevCalib).1 with
  | none => rfl
  | some f =>
    have hlen : f.len < 0 + calSize := by
      have := h f
      rw [Readable, hopen] at this
      simpa using this
    have hshort : (fread f s.mem 0 calSize).1 ≠ calSize := Int.ne_of_lt (fread_short hlen)
    simp only [if_pos hshort]

theorem Readable.fread_eq (h : Readable s f) :
    fread f s.mem 0 calSize = ((calSize : Int), s.mem.read f.offset calSize) := by
  have hin : 0 + calSize ≤ f.len := by
    rw [zero_add]
    exact h.2
  exact fread_inside hin

theorem storageLoad_other (h : Readable s f) (hmagic : (stored o s f).magic ≠ calFileMagic) :
    storageLoadCalibration o s = pure (-1, { s with
      fs := (openId s.mem s.fs sdbDevCalib).2, cal := { stored o s f with paramCount := 0 } }) := by
  rw [storageLoadCalibration]
  simp only [h.1, h.fread_eq]
  exact if_pos hmagic

theorem storageLoad_record (h : Readable s f) (hmagic : (stored o s f).magic = calFileMagic) :
    let r := storageLoadCalibration o s
    let sum := calcChecksum (stored o s f)
    let fs := (openId s.mem s.fs sdbDevCalib).2
    indices r = indices sum ∧
      result r =
        if (stored o s f).checksum = result sum then
          (0, { s with fs := fs, cal := stored o s f, calibrationLoaded := true })
        else (-1, { s with fs := fs, cal := { stored o s f with paramCount := 0 } }) := by
  intro r sum fs
  have hr : r = sum >>= fun cksum =>
      if (stored o s f).checksum ≠ cksum then
        pure (-1, { s with fs := fs, cal := { stored o s f with paramCount := 0 } })
      else pure (0, { s with fs := fs, cal := stored o s f, calibrationLoaded := true }) := by
    rw [show r = storageLoadCalibration o s from rfl, storageLoadCalibration]
    simp only [h.1, h.fread_eq]
    exact if_neg (not_not.mpr hmagic)
  rw [hr, indices_bind, result_bind]
  by_cases hsum : (stored o s f).checksum = result sum
  · rw [if_neg (not_not.mpr hsum), if_pos hsum]
    exact ⟨append_nil _, rfl⟩
  · rw [if_pos hsum, if_neg hsum]
    exact ⟨append_nil _, rfl⟩

theorem indices_checksumLoop (cal : CalData) : ∀ (left i : Nat) (cksum : BitVec 32),
    indices (checksumLoop cal left i cksum) = List.range' i left
  | 0, _, _ => rfl
  | left + 1, i, cksum => by
    rw [checksumLoop, indices_bind, indices_checksumLoop cal left (i + 1)]
    rfl

theorem indices_calcChecksum (cal : CalData) :
    indices (calcChecksum cal) = List.range cal.paramCount.toNat := by
  rw [calcChecksum, indices_checksumLoop, range_eq_range']

theorem checksumLoop_congr {cal cal' : CalData} : ∀ {left i : Nat} {cksum : BitVec 32},
    (∀ j, i ≤ j → j < i + left → cal'.params j = cal.params j) →
      result (checksumLoop cal' left i cksum) = result (checksumLoop cal left i cksum)
  | 0, _, _, _ => rfl
  | left + 1, i, cksum, h => by
    rw [checksumLoop, result_bind, result_param,
      h i (Nat.le_refl i) (by omega)]
    exact checksumLoop_congr fun j hj hlt => h j (by omega) (by omega)

theorem stored_magic (s : CalStore) (f : File) :
    (stored o s f).magic.toNat = ofImage .big (s.mem.read f.offset 4) :=
  hton_wordAt (by decide)

theorem stored_paramCount (s : CalStore) (f : File) :
    (stored o s f).paramCount.toNat = ofImage .big (s.mem.read (f.offset + 4) 4) :=
  hton_wordAt (by decide)

/-- Loading stays inside the table, succeeds only with a table of at most `calMaxParams` entries,
and leaves one that no later call goes beyond, if and only if no record with the magic number
claims more entries than that.  The checksum is of no help: it is computed over the entries the
record claims. -/
theorem load_inside_iff (o : Order) (s : CalStore) :
    (let r := storageLoadCalibration o s
     (∀ i ∈ indices r, i < calMaxParams) ∧
      ((result r).1 = 0 → (result r).2.cal.paramCount.toNat ≤ calMaxParams) ∧
      ∀ ops, ∀ i ∈ usedBy (result r).2.cal ops, i < calMaxParams) ↔
      ∀ f, (openId s.mem s.fs sdbDevCalib).1 = some f → calSize ≤ f.len →
        ofImage .big (s.mem.read f.offset 4) = calFileMagic.toNat →
        ofImage .big (s.mem.read (f.offset + 4) 4) ≤ calMaxParams := by
  have hmagic : ∀ f, ofImage .big (s.mem.read f.offset 4) = calFileMagic.toNat ↔
      (stored o s f).magic = calFileMagic := by
    intro f
    rw [← stored_magic, BitVec.toNat_inj]
  constructor
  · rintro ⟨hinside, -, -⟩ f hopen hlen hm
    -- the loop of the checksum goes over all the entries that the record claims
    rw [(storageLoad_record ⟨hopen, hlen⟩ ((hmagic f).mp hm)).1, indices_calcChecksum] at hinside
    rw [← stored_paramCount]
    by_contra hmany
    exact Nat.lt_irrefl _ (hinside calMaxParams (List.mem_range.mpr (Nat.lt_of_not_le hmany)))
  · intro h r
    have hzero : (0 : BitVec 32).toNat ≤ calMaxParams := Nat.zero_le _
    suffices hle : (∀ i ∈ indices r, i < calMaxParams) ∧
        (result r).2.cal.paramCount.toNat ≤ calMaxParams from
      ⟨hle.1, fun _ => hle.2, usedBy_inside hle.2⟩
    by_cases hread : ∃ f, Readable s f
    · obtain ⟨f, hf⟩ := hread
      by_cases hm : (stored o s f).magic = calFileMagic
      · have hle : (stored o s f).paramCount.toNat ≤ calMaxParams := by
          rw [stored_paramCount]
          exact h f hf.1 hf.2 ((hmagic f).mpr hm)
        obtain ⟨hindices, hresult⟩ := storageLoad_record hf hm
        rw [hindices, hresult, indices_calcChecksum]
        constructor
        · intro i hi
          exact lt_of_lt_of_le (List.mem_range.mp hi) hle
        · split
          · exact hle
          · exact hzero
      · rw [show r = storageLoadCalibration o s from rfl, storageLoad_other hf hm]
        exact ⟨forall_mem_nil _, hzero⟩
    · rw [show r = storageLoadCalibration o s from rfl,
        storageLoad_unread (not_exists.mp hread)]
      exact ⟨forall_mem_nil _, hzero⟩

/-- A device of 256 bytes: a directory with the calibration file, 128 bytes from 128 on, and
`record` in it. -/
def calDevice (record : List Byte) : Mem :=
  let directory : List Byte := sdbMagic ++ [0, 2] ++ List.replicate 58 0 ++ List.replicate 8 0 ++
    [0, 0, 0, 0, 0, 0, 0, 128, 0, 0, 0, 0, 0, 0, 0, 255] ++ sdbVendor ++ sdbDevCalib.did ++
    List.replicate 28 0
  fun j => (directory ++ record).getD j 0

def emptyCal : CalData := ⟨0, 0, 0, fun _ => ⟨0, 0⟩⟩

/-- A record of thirteen entries whose checksum is right, with zeros behind the table. -/
def thirteen : CalStore where
  fs := ⟨true, 0, 0⟩
  mem := calDevice [0xca, 0xfe, 0xba, 0xbe, 0, 0, 0, 13, 0xca, 0xfe, 0xba, 0xcb]
  cal := emptyCal
  calibrationLoaded := false

/-- The table is read past its end, and so it is by later calls: the record is taken. -/
theorem load_past_table :
    let r := storageLoadCalibration .big thirteen
    12 ∈ indices r ∧ (result r).1 = 0 ∧ (result r).2.cal.paramCount = 13 ∧
      12 ∈ indices (calOp (result r).2.cal (.remove 0)) := by
  decide +kernel

/-! ### The map is restored -/

/-- A calibration file with room for the record, in a good directory: erasing the file erases the
cells of the record, and neither the erase nor the record reaches the directory.  On a flash the
file starts with a page, so that the record lies in one. -/
structure CalFile (c : Chip) (s : CalStore) (f : File) : Prop where
  found : (openId s.mem s.fs sdbDevCalib).1 = some f
  len : calSize ≤ f.len
  page : c.paged = true → pageSize ∣ f.offset
  erase : ∀ j < calSize, (ferase c f s.mem 0 f.len).2 (f.offset + j) = erased
  apart : ∃ n, scanNewdir s.mem s.fs.entrypoint = some n ∧
    ∀ j, s.fs.entrypoint ≤ j → j < s.fs.entrypoint + (n + 1) * recordSize →
      (ferase c f s.mem 0 f.len).2 j = s.mem j ∧ (j < f.offset ∨ f.offset + calSize ≤ j)

/-- What is saved: the table with its magic number and checksum. -/
def sealed (cal : CalData) : CalData :=
  { cal with
    magic := calFileMagic
    checksum := result (calcChecksum { cal with magic := calFileMagic }) }

theorem storageSave_eq (h : CalFile c s f) :
    result (storageSaveCalibration c o s) =
      (0, { s with
        fs := (openId s.mem s.fs sdbDevCalib).2
        mem := c.put (ferase c f s.mem 0 f.len).2 f.offset (((sealed s.cal).ntohlMem o).image o)
        cal := sealed s.cal }) := by
  have hwrite : (fwrite c f (ferase c f s.mem 0 f.len).2 0
      (((sealed s.cal).ntohlMem o).image o)).2 = c.put (ferase c f s.mem 0 f.len).2 f.offset
        (((sealed s.cal).ntohlMem o).image o) := by
    have hstays : c.Stays (f.offset + 0) (((sealed s.cal).ntohlMem o).image o).length :=
      stays_of_dvd h.page (by rw [image_length]; decide)
    rw [fwrite_inside (by rw [image_length]; exact h.len), store_eq_put hstays]
    rfl
  rw [storageSaveCalibration, Device.saveCalibration]
  simp only [h.found]
  exact congrArg (fun m => ((0 : Int), ({ s with
    fs := (openId s.mem s.fs sdbDevCalib).2, mem := m, cal := sealed s.cal } : CalStore))) hwrite

theorem readable_saved (h : CalFile c s f) {s' : CalStore}
    (hmem : s'.mem = (result (storageSaveCalibration c o s)).2.mem)
    (hmounted : s'.fs.mounted = s.fs.mounted) (hentry : s'.fs.entrypoint = s.fs.entrypoint) :
    Readable s' f ∧ s'.mem.read f.offset calSize = ((sealed s.cal).ntohlMem o).image o := by
  rw [storageSave_eq h] at hmem
  dsimp only at hmem
  have hlen := image_length (o := o) ((sealed s.cal).ntohlMem o)
  obtain ⟨n, hdir, hapart⟩ := h.apart
  refine ⟨⟨?_, h.len⟩, ?_⟩
  · rw [hmem, ← h.found]
    refine openId_congr hdir (fun j hj hlt => ?_) hmounted hentry
    obtain ⟨hsame, hout⟩ := hapart j hj hlt
    rw [put_other (by rw [hlen]; exact hout), hsame]
  · rw [hmem, ← hlen]
    exact read_put_erased fun i hi => h.erase i (by rwa [hlen] at hi)

theorem Holds.congr {cal cal' : CalData} {σ : BitVec 32 → Option (BitVec 32)} (h : Holds cal σ)
    (hcount : cal'.paramCount = cal.paramCount)
    (hparams : ∀ i < cal.paramCount.toNat, cal'.params i = cal.params i) : Holds cal' σ where
  le := hcount ▸ h.le
  distinct i hi j hj hid := by
    rw [hcount] at hi hj
    rw [hparams i hi, hparams j hj] at hid
    exact h.distinct i hi j hj hid
  value id v := by
    rw [h.value, hcount]
    refine exists_congr fun i => and_congr_right fun hi => ?_
    rw [hparams i hi]

theorem load_saved (h : CalFile c s f) {σ : BitVec 32 → Option (BitVec 32)} (hσ : Holds s.cal σ)
    {s' : CalStore} (hmem : s'.mem = (result (storageSaveCalibration c o s)).2.mem)
    (hmounted : s'.fs.mounted = s.fs.mounted) (hentry : s'.fs.entrypoint = s.fs.entrypoint) :
    (result (storageLoadCalibration o s')).1 = 0 ∧
      Holds (result (storageLoadCalibration o s')).2.cal σ := by
  obtain ⟨hread, hbytes⟩ := readable_saved h hmem hmounted hentry
  have hstored : stored o s' f =
      { sealed s.cal with
        params := fun i => if i < calMaxParams then s.cal.params i else s'.cal.params i } := by
    rw [stored, hbytes, ntohlMem_copy_image]
    rfl
  have hparams : ∀ i < s.cal.paramCount.toNat, (stored o s' f).params i = s.cal.params i := by
    intro i hi
    rw [hstored]
    exact if_pos (lt_of_lt_of_le hi hσ.le)
  have hcount : (stored o s' f).paramCount = s.cal.paramCount := by
    rw [hstored]
    rfl
  have hmagic : (stored o s' f).magic = calFileMagic := by
    rw [hstored]
    rfl
  have hsum : (stored o s' f).checksum = result (calcChecksum (stored o s' f)) := by
    have hchecksum : (stored o s' f).checksum =
        result (calcChecksum { s.cal with magic := calFileMagic }) := by
      rw [hstored]
      rfl
    rw [hchecksum, calcChecksum, calcChecksum, hcount, hmagic]
    refine (checksumLoop_congr fun j _ hj => ?_).symm
    rw [zero_add] at hj
    exact hparams j hj
  rw [(storageLoad_record hread hmagic).2, if_pos hsum]
  exact ⟨rfl, hσ.congr hcount hparams⟩

/-- The calibration parameters are a finite map of at most `calMaxParams` ids, whatever the calls:
the entries have different ids, `get` returns what was set last and not removed since, and `set`
fails, with nothing changed, for a new id in a full table only.  What is saved to a file that can
hold it is the same map when it is loaded, whatever is in RAM by then. -/
theorem calibration_map (cal₀ : CalData) (ops : List CalOp) :
    let start := { cal₀ with paramCount := 0 }
    let cal := Run.run calStep start ops
    let n := cal.paramCount.toNat
    (∀ i < n, ∀ j < n, (cal.params i).id = (cal.params j).id → i = j) ∧ n ≤ calMaxParams ∧
      (∀ id, result (storageGetCalibrationParameter cal id) =
        match lastSet (history start ops) id with
        | some v => (0, some v)
        | none => (-1, none)) ∧
      (∀ id val,
        let r := result (storageSetCalibrationParameter cal id val)
        (r.1 ≠ 0 ↔ (∀ i < n, (cal.params i).id ≠ id) ∧ n = calMaxParams) ∧
          (r.1 ≠ 0 → r = (-1, cal))) ∧
      ∀ (c : Chip) (o : Order) (s : CalStore) (f : File), s.cal = cal → CalFile c s f →
        let saved := result (storageSaveCalibration c o s)
        saved.1 = 0 ∧ ∀ s' : CalStore, s'.mem = saved.2.mem →
          s'.fs.mounted = s.fs.mounted → s'.fs.entrypoint = s.fs.entrypoint →
          let loaded := result (storageLoadCalibration o s')
          loaded.1 = 0 ∧ ∀ id, result (storageGetCalibrationParameter loaded.2.cal id) =
            result (storageGetCalibrationParameter cal id) := by
  intro start cal n
  have hσ : Holds cal (lastSet (history start ops)) := calRun_holds (Holds.empty rfl) ops
  refine ⟨hσ.distinct, hσ.le, fun id => ?_, fun id val => ?_, fun c o s f hcal hf => ?_⟩
  · rw [storageGet_eq hσ]
    cases lastSet (history start ops) id with
    | some v => rfl
    | none => rfl
  · intro r
    rcases storageSet_cases hσ id val with ⟨hnew, hfull, hr⟩ | ⟨hroom, hret, -⟩
    · have hfail : r = (-1, cal) := hr
      have hneg : (-1 : Int) ≠ 0 := by decide
      rw [hfail]
      exact ⟨⟨fun _ => ⟨hnew, hfull⟩, fun _ => hneg⟩, fun _ => rfl⟩
    · exact ⟨⟨fun hne => absurd hret hne, fun hfull => absurd hfull hroom⟩,
        fun hne => absurd hret hne⟩
  · intro saved
    refine ⟨congrArg Prod.fst (storageSave_eq hf), fun s' hmem hmounted hentry => ?_⟩
    obtain ⟨hret, hloaded⟩ := load_saved hf (hcal ▸ hσ) hmem hmounted hentry
    exact ⟨hret, fun id => by rw [storageGet_eq hloaded, storageGet_eq hσ]⟩

def twoSets : List CalOp := [.set 7 1, .set 7 2]

def savedStore : CalStore where
  fs := ⟨true, 0, 0⟩
  mem := calDevice []
  cal := Run.run calStep emptyCal twoSets
  calibrationLoaded := false

/-- On an EEPROM, the second value comes back after a boot. -/
theorem calibration_map_eeprom :
    let saved := (result (storageSaveCalibration .eeprom .little savedStore)).2
    let booted : CalStore := ⟨⟨true, 0, 0⟩, saved.mem, emptyCal, false⟩
    result (storageGetCalibrationParameter
      (result (storageLoadCalibration .little booted)).2.cal 7) = (0, some 2) := by
  intro saved booted
  have hfile : CalFile .eeprom savedStore ⟨128, 128⟩ := {
    found := by decide +kernel
    len := by decide
    page := nofun
    erase := by
      intro j hj
      have hlt : j < 128 := lt_trans hj (by decide)
      rw [ferase_whole (one_dvd _)]
      exact if_pos ⟨Nat.le_add_right _ _, Nat.add_lt_add_left hlt _⟩
    apart := by
      refine ⟨1, by decide +kernel, fun j _ hj => ?_⟩
      have hlt : j < 128 := hj
      rw [ferase_whole (one_dvd _)]
      exact ⟨if_neg (fun h => Nat.not_le_of_lt hlt h.1), .inl hlt⟩ }
  obtain ⟨-, -, hget, -, hsave⟩ := calibration_map emptyCal twoSets
  obtain ⟨-, hload⟩ := hsave .eeprom .little savedStore ⟨128, 128⟩ rfl hfile
  obtain ⟨-, hsame⟩ := hload booted rfl rfl rfl
  rw [hsame]
  decide +kernel

/-! ### Devices that fail -/

/-- `storage_set_calibration_parameter_and_save` -/
def Device.setAndSave (d : Device) (o : Order) (s : CalStore) (id val : BitVec 32) :
    Uses (Int × CalStore) := do
  let r ← storageSetCalibrationParameter s.cal id val
  if r.1 ≠ 0 then pure (r.1, { s with cal := r.2 })
  else d.saveCalibration o { s with cal := r.2 }

/-- The file can hold the record, and the device has taken all of it. -/
def Device.Takes (d : Device) (o : Order) (s : CalStore) (f : File) : Prop :=
  calSize ≤ f.len ∧ (d.fwrite f (d.ferase f s.mem 0 f.len).2 0
    (((sealed s.cal).ntohlMem o).image o)).1 = calSize

/-- The complete record was written to the calibration file. -/
def Device.Written (d : Device) (o : Order) (s : CalStore) : Prop :=
  ∃ f, (openId s.mem s.fs sdbDevCalib).1 = some f ∧ d.Takes o s f

theorem saveCalibration_told (d : Device) (s : CalStore) :
    ((result (d.saveCalibration o s)).1 = 0 → d.Written o s) ↔
      ∀ f, (openId s.mem s.fs sdbDevCalib).1 = some f → d.Takes o s f := by
  rw [Device.saveCalibration, Device.Written]
  cases hopen : (openId s.mem s.fs sdbDevCalib).1 with
  | none =>
    refine ⟨fun _ f hf => (Option.some_ne_none f hf.symm).elim, fun _ hret => ?_⟩
    exact absurd hret (by decide : (-1 : Int) ≠ 0)
  | some f =>
    constructor
    · intro h f' hf
      obtain ⟨g, hg, htakes⟩ := h rfl
      rwa [← Option.some.inj (hg.symm.trans hf)]
    · intro h _
      exact ⟨f, rfl, h f rfl⟩

/-- Saving returns 0 whenever the file was found.  So it tells whether the record was written only
on a device that takes it. -/
theorem save_told_iff (d : Device) (o : Order) (s : CalStore) :
    (((result (d.saveCalibration o s)).1 = 0 → d.Written o s) ↔
      ∀ f, (openId s.mem s.fs sdbDevCalib).1 = some f → d.Takes o s f) ∧
    ∀ id val,
      let r := result (storageSetCalibrationParameter s.cal id val)
      let s' := { s with cal := r.2 }
      ((result (d.setAndSave o s id val)).1 = 0 → d.Written o s') ↔
        (r.1 = 0 → ∀ f, (openId s.mem s.fs sdbDevCalib).1 = some f → d.Takes o s' f) := by
  refine ⟨saveCalibration_told d s, fun id val => ?_⟩
  intro r s'
  have hr : result (d.setAndSave o s id val) =
      if r.1 = 0 then result (d.saveCalibration o s') else (r.1, s') := by
    rw [Device.setAndSave, result_bind]
    by_cases hret : r.1 = 0
    · rw [if_pos hret, if_neg (not_not.mpr hret)]
    · rw [if_neg hret, if_pos hret, result_pure]
  rw [hr]
  by_cases hret : r.1 = 0
  · rw [if_pos hret, saveCalibration_told d s']
    exact ⟨fun h _ => h, fun h => h hret⟩
  · rw [if_neg hret]
    exact ⟨fun _ h => absurd h hret, fun _ h => absurd h hret⟩

def deadDevice : Device := ⟨fun m _ _ _ => (-1, m), fun m _ _ => (-1, m)⟩

theorem save_untold :
    (result (deadDevice.saveCalibration .little savedStore)).1 = 0 ∧
      (result (deadDevice.setAndSave .little savedStore 7 3)).1 = 0 ∧
      ∀ s, ¬ deadDevice.Written .little s := by
  refine ⟨by decide +kernel, by decide +kernel, ?_⟩
  rintro s ⟨f, -, -, hret⟩
  exact absurd hret (by decide : (-1 : Int) ≠ calSize)

end File

end Wrpc.Storage
