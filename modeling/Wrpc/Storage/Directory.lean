/-
# Opening a file (`sdbfs.c`)

The directory is an array of records of 64 bytes from the entry point on, an interconnect
record with the number of records first.  A file is found by its vendor and device id, and the
scan starts over with every `sdbfs_open_id`.

`sdbfs_open_id` does not look at the result of `scan_newdir`.  If the first record has gone bad
since the device was mounted, the scan goes on from there with the count that the last one has
left.  So the file that is found is always the same (`openId_again`), but it need not be found
again.
-/
import Wrpc.Lib.Bytes
import Wrpc.Storage.Sdbfs

namespace Wrpc.Storage

open Nat

/-- `struct sdbfs`, as far as it outlives a call; `dev` is set if the device was mounted. -/
structure Sdbfs where
  mounted : Bool
  entrypoint : Nat
  nleft : Nat
deriving DecidableEq, Repr

/-- `SDB_MAGIC` and `SDB_VENDOR`, in the order of the device. -/
def sdbMagic : List Byte := [0x53, 0x44, 0x42, 0x2d]
def sdbVendor : List Byte := [0x46, 0x69, 0x6c, 0x65, 0x44, 0x61, 0x74, 0x61]

/-- The `vid` and `did` that `sdbfs_open_id` is called with. -/
structure SdbId where
  vid : List Byte
  did : List Byte
deriving DecidableEq, Repr

/-- `scan_newdir`: the number of records to come.  `nleft` is an `int`, and counts down to 0. -/
def scanNewdir (m : Mem) (this : Nat) : Option Nat :=
  if m (this + 0x3f) ≠ 0 then none
  else if m.read this 4 ≠ sdbMagic then none
  else some ((Bytes.ofImage .big (m.read (this + 4) 2) + 4294967295) % 4294967296)

/-- `f_offset` and `f_len` of the record at `this`; an `unsigned long` has 32 bits. -/
def fileOf (m : Mem) (this : Nat) : File :=
  let first := Bytes.ofImage .big (m.read (this + 0x08) 8) % 4294967296
  let last := Bytes.ofImage .big (m.read (this + 0x10) 8)
  ⟨first, (last + 1 + (4294967296 - first)) % 4294967296⟩

/-- The loop of `sdbfs_open_id`: the file, and what is left of `nleft`. -/
def findRecord (m : Mem) (id : SdbId) : Nat → Nat → Option File × Nat
  | 0, _ => (none, 0)
  | nleft + 1, this =>
    if m.read (this + 0x18) 8 = id.vid ∧ m.read (this + 0x20) 4 = id.did then
      (some (fileOf m this), nleft)
    else findRecord m id nleft (this + recordSize)

/-- `sdbfs_open_id` -/
def openId (m : Mem) (fs : Sdbfs) (id : SdbId) : Option File × Sdbfs :=
  if fs.mounted = false then (none, fs)
  else
    let r := match scanNewdir m fs.entrypoint with
      | none => findRecord m id fs.nleft fs.entrypoint
      | some nleft => findRecord m id nleft (fs.entrypoint + recordSize)
    (r.1, { fs with nleft := r.2 })

section

variable {m : Mem} {id : SdbId}

theorem findRecord_again {f : File} : ∀ {n this : Nat}, (findRecord m id n this).1 = some f →
    ∀ n', (findRecord m id n' this).1 = some f ∨ (findRecord m id n' this).1 = none
  | _, _, _, 0 => .inr rfl
  | n + 1, this, h, n' + 1 => by
    rw [findRecord] at h ⊢
    by_cases hid : m.read (this + 0x18) 8 = id.vid ∧ m.read (this + 0x20) 4 = id.did
    · rw [if_pos hid] at h ⊢
      exact .inl h
    · rw [if_neg hid] at h ⊢
      exact findRecord_again h n'

theorem openId_again {fs fs' : Sdbfs} {f : File} (h : (openId m fs id).1 = some f)
    (hmounted : fs'.mounted = fs.mounted) (hentry : fs'.entrypoint = fs.entrypoint) :
    (openId m fs' id).1 = some f ∨ (openId m fs' id).1 = none := by
  rw [openId] at h ⊢
  rw [hmounted, hentry]
  by_cases hdev : fs.mounted = false
  · rw [if_pos hdev] at h
    cases h
  · rw [if_neg hdev] at h ⊢
    cases hdir : scanNewdir m fs.entrypoint with
    | none =>
      simp only [hdir] at h ⊢
      exact findRecord_again h fs'.nleft
    | some nleft =>
      simp only [hdir] at h ⊢
      exact .inl h

theorem findRecord_congr {m' : Mem} : ∀ {n this : Nat},
    (∀ j, this ≤ j → j < this + n * recordSize → m' j = m j) →
      findRecord m' id n this = findRecord m id n this
  | 0, _, _ => rfl
  | n + 1, this, h => by
    have hsize : recordSize = 64 := rfl
    rw [hsize] at h
    have hread : ∀ off len, off + len ≤ 64 → m'.read (this + off) len = m.read (this + off) len :=
      fun off len hin => Mem.read_congr fun i hi => h _ (by omega) (by omega)
    have hfile : fileOf m' this = fileOf m this := by
      rw [fileOf, fileOf, hread 0x08 8 (by decide), hread 0x10 8 (by decide)]
    have hrest : findRecord m' id n (this + recordSize) = findRecord m id n (this + recordSize) :=
      findRecord_congr fun j hj hlt => by
        rw [hsize] at hj hlt
        exact h j (by omega) (by omega)
    rw [findRecord, findRecord, hread 0x18 8 (by decide), hread 0x20 4 (by decide), hfile, hrest]

theorem openId_congr {m' : Mem} {fs fs' : Sdbfs} {n : Nat}
    (hdir : scanNewdir m fs.entrypoint = some n)
    (hsame : ∀ j, fs.entrypoint ≤ j → j < fs.entrypoint + (n + 1) * recordSize → m' j = m j)
    (hmounted : fs'.mounted = fs.mounted) (hentry : fs'.entrypoint = fs.entrypoint) :
    (openId m' fs' id).1 = (openId m fs id).1 := by
  have hsize : recordSize = 64 := rfl
  rw [hsize] at hsame
  have hread : ∀ off len, off + len ≤ 64 →
      m'.read (fs.entrypoint + off) len = m.read (fs.entrypoint + off) len :=
    fun off len hin => Mem.read_congr fun i hi => hsame _ (by omega) (by omega)
  have hdir' : scanNewdir m' fs.entrypoint = some n := by
    rw [← hdir, scanNewdir, scanNewdir, hsame _ (by omega) (by omega), hread 4 2 (by decide),
      show m'.read fs.entrypoint 4 = m.read fs.entrypoint 4 from hread 0 4 (by decide)]
  have hrest : findRecord m' id n (fs.entrypoint + recordSize) =
      findRecord m id n (fs.entrypoint + recordSize) :=
    findRecord_congr fun j hj hlt => by
      rw [hsize] at hj hlt
      exact hsame j (by omega) (by omega)
  rw [openId, openId, hmounted, hentry, hdir, hdir']
  by_cases hdev : fs.mounted = false
  · rw [if_pos hdev, if_pos hdev]
  · rw [if_neg hdev, if_neg hdev]
    simp only [hrest]

theorem openId_mounted (fs : Sdbfs) : (openId m fs id).2.mounted = fs.mounted := by
  rw [openId]
  split <;> rfl

theorem openId_entrypoint (fs : Sdbfs) : (openId m fs id).2.entrypoint = fs.entrypoint := by
  rw [openId]
  split <;> rfl

/-- `fs` after `n` calls. -/
def reopen (m : Mem) (id : SdbId) (fs : Sdbfs) : Nat → Sdbfs
  | 0 => fs
  | n + 1 => (openId m (reopen m id fs n) id).2

theorem reopen_same (fs : Sdbfs) : ∀ n, (reopen m id fs n).mounted = fs.mounted ∧
    (reopen m id fs n).entrypoint = fs.entrypoint
  | 0 => ⟨rfl, rfl⟩
  | n + 1 => by
    obtain ⟨hmounted, hentry⟩ := reopen_same fs n
    exact ⟨(openId_mounted _).trans hmounted, (openId_entrypoint _).trans hentry⟩

/-- What the call with number `n` finds. -/
def opened (m : Mem) (id : SdbId) (fs : Sdbfs) (n : Nat) : Option File :=
  (openId m (reopen m id fs n) id).1

theorem opened_again {fs : Sdbfs} {f : File} (h : opened m id fs 0 = some f) (n : Nat) :
    opened m id fs n = some f ∨ opened m id fs n = none :=
  openId_again h (reopen_same fs n).1 (reopen_same fs n).2

/-! ## How far the scan goes -/

/-- The record of the file with the ids `id`. -/
abbrev IsFile (m : Mem) (id : SdbId) (this : Nat) : Prop :=
  m.read (this + 0x18) 8 = id.vid ∧ m.read (this + 0x20) 4 = id.did

/-- The records that the loop of `sdbfs_open_id` reads. -/
def findReads (m : Mem) (id : SdbId) : Nat → Nat → List Nat
  | 0, _ => []
  | nleft + 1, this =>
    this :: if IsFile m id this then [] else findReads m id nleft (this + recordSize)

/-- The records that `sdbfs_open_id` reads, the one of `scan_newdir` first. -/
def openReads (m : Mem) (fs : Sdbfs) (id : SdbId) : List Nat :=
  if fs.mounted = false then []
  else
    fs.entrypoint :: match scanNewdir m fs.entrypoint with
      | none => findReads m id fs.nleft fs.entrypoint
      | some nleft => findReads m id nleft (fs.entrypoint + recordSize)

/-- `sdb_records` of a valid interconnect record. -/
def sdbRecords (m : Mem) (this : Nat) : Option Nat :=
  if m (this + 0x3f) = 0 ∧ m.read this 4 = sdbMagic then
    some (Bytes.ofImage .big (m.read (this + 4) 2))
  else none

theorem scanNewdir_eq (this : Nat) :
    scanNewdir m this = (sdbRecords m this).map fun r => (r + 4294967295) % 4294967296 := by
  rw [scanNewdir, sdbRecords]
  by_cases htype : m (this + 0x3f) = 0
  · by_cases hmagic : m.read this 4 = sdbMagic
    · rw [if_neg (not_not.mpr htype), if_neg (not_not.mpr hmagic), if_pos ⟨htype, hmagic⟩]
      rfl
    · rw [if_neg (not_not.mpr htype), if_pos hmagic, if_neg (fun h => hmagic h.2)]
      rfl
  · rw [if_pos htype, if_neg (fun h => htype h.1)]
    rfl

theorem sdbRecords_lt {this r : Nat} (h : sdbRecords m this = some r) : r < 65536 := by
  rw [sdbRecords] at h
  split at h
  · cases h
    have hlt := Bytes.ofImage_lt .big (m.read (this + 4) 2)
    rwa [Mem.read_length] at hlt
  · cases h

theorem findReads_length (m : Mem) (id : SdbId) :
    ∀ n this : Nat, (findReads m id n this).length ≤ n
  | 0, _ => Nat.le_refl 0
  | n + 1, this => by
    have hrest := findReads_length m id n (this + recordSize)
    rw [findReads, List.length_cons]
    split
    · exact succ_le_succ (zero_le n)
    · exact succ_le_succ hrest

theorem findReads_ne_nil {n : Nat} (h : n ≠ 0) (this : Nat) : findReads m id n this ≠ [] := by
  obtain ⟨k, rfl⟩ := exists_eq_succ_of_ne_zero h
  exact List.cons_ne_nil _ _

theorem findRecord_isFile : ∀ {n this : Nat}, (findRecord m id n this).1.isSome →
    ∃ i < n, IsFile m id (this + i * recordSize)
  | n + 1, this, h => by
    rw [findRecord] at h
    by_cases hid : IsFile m id this
    · exact ⟨0, succ_pos n, by rwa [zero_mul, add_zero]⟩
    · rw [if_neg hid] at h
      obtain ⟨i, hi, hfile⟩ := findRecord_isFile h
      refine ⟨i + 1, succ_lt_succ hi, ?_⟩
      rwa [add_mul, one_mul, add_comm (i * recordSize), ← add_assoc]

/-- `sdbfs_open_id` reads no more records than the directory says it has, and finds a file only
there, unless the directory says that it has none, or is not valid and an earlier scan has left
some to be read. -/
theorem openId_bounded_iff (m : Mem) (fs : Sdbfs) (id : SdbId) :
    ((openReads m fs id).length ≤ max 1 ((sdbRecords m fs.entrypoint).getD 1) ∧
      ((openId m fs id).1.isSome → ∃ r, sdbRecords m fs.entrypoint = some r ∧
        ∃ i, 1 ≤ i ∧ i < r ∧ IsFile m id (fs.entrypoint + i * recordSize))) ↔
    (fs.mounted = true → sdbRecords m fs.entrypoint ≠ some 0 ∧
      (sdbRecords m fs.entrypoint = none → fs.nleft = 0)) := by
  rw [openReads, openId, scanNewdir_eq]
  cases hdev : fs.mounted with
  | false => simp
  | true =>
    simp only [Bool.true_eq_false, if_false, List.length_cons, forall_true_left]
    cases hdir : sdbRecords m fs.entrypoint with
    | none =>
      by_cases hleft : fs.nleft = 0
      · simp [hleft, findReads, findRecord]
      · simp [hleft, findReads_ne_nil hleft fs.entrypoint]
    | some r =>
      have hlt := sdbRecords_lt hdir
      cases r with
      | zero =>
        simp [findReads_ne_nil (by decide : 4294967295 ≠ 0) (fs.entrypoint + recordSize)]
      | succ r =>
        -- the count of the records behind the first one does not wrap
        have hmod : (r + 1 + 4294967295) % 4294967296 = r := by omega
        have hreads := findReads_length m id r (fs.entrypoint + recordSize)
        simp only [Option.map_some, hmod, Option.getD_some]
        refine ⟨fun _ => ⟨by simp, nofun⟩, fun _ => ⟨by omega, fun hsome => ?_⟩⟩
        obtain ⟨i, hi, hfile⟩ := findRecord_isFile hsome
        refine ⟨r + 1, rfl, i + 1, succ_pos i, succ_lt_succ hi, ?_⟩
        rwa [add_mul, one_mul, add_comm (i * recordSize), ← add_assoc]

/-- The record of a file where the directory should be is found by a scan that an earlier one has
left one record. -/
theorem openId_stale :
    let m : Mem := fun j => (List.replicate 0x18 0 ++ sdbVendor ++ [1, 2, 3, 4]).getD j 0
    sdbRecords m 0 = none ∧ (openId m ⟨true, 0, 1⟩ ⟨sdbVendor, [1, 2, 3, 4]⟩).1 = some ⟨0, 1⟩ ∧
      openReads m ⟨true, 0, 1⟩ ⟨sdbVendor, [1, 2, 3, 4]⟩ = [0, 0] := by
  decide +kernel

end

end Wrpc.Storage
