/-
# The EEPROM of a 1-Wire bus (`w1-eeprom.c`, `storage-w1.c`)

The EEPROM is the device of family 0x43.  It is written through a scratchpad of
one page of 32 bytes, so `w1_write_eeprom` splits what it is given at the pages.
-/
import Wrpc.Dev.W1

namespace Wrpc.W1

open List

/-! ## Which device it is -/

/-- `w1_class`. -/
def w1Class (rom : Rom) : Byte := rom.setWidth 8

/-- `w1_find_eeprom_device`: the index in `bus->devs` of what is returned.  It is `devs + 1`
whichever entry `i` has been found. -/
def w1FindEepromDevice (bus : W1Bus) : Option Nat :=
  ((range maxDevices).find? fun i => w1Class (bus.devs i) = 0x43).map fun _ => 1

/-- `storage_w1eeprom_create`: what it returns, and `dev->priv`. -/
def storageW1eepromCreate (bus : W1Bus) : Int × Option Nat :=
  match w1FindEepromDevice bus with
  | none => (-1, none)
  | some d => (0, some d)

/-- Entry `i` of the table is one of an EEPROM. -/
def IsEeprom (bus : W1Bus) (i : Nat) : Prop := i < maxDevices ∧ w1Class (bus.devs i) = 0x43

/-- The storage is created exactly when the table has an EEPROM, but on the second device
of the table whichever it is. -/
theorem storageW1eepromCreate_iff (bus : W1Bus) :
    ((storageW1eepromCreate bus).1 = 0 ↔ ∃ i, IsEeprom bus i) ∧
    (((storageW1eepromCreate bus).1 = 0 → ∃ d, (storageW1eepromCreate bus).2 = some d ∧
      IsEeprom bus d) ↔ ((∃ i, IsEeprom bus i) → IsEeprom bus 1)) := by
  rw [storageW1eepromCreate, w1FindEepromDevice]
  cases hfind : (range maxDevices).find? fun i => w1Class (bus.devs i) = 0x43 with
  | none =>
    have hno : ¬∃ i, IsEeprom bus i := by
      rintro ⟨i, hi, hclass⟩
      simpa [hclass] using find?_eq_none.mp hfind i (mem_range.mpr hi)
    simp [hno]
  | some i =>
    have hyes : ∃ i, IsEeprom bus i :=
      ⟨i, mem_range.mp (mem_of_find?_eq_some hfind), by simpa using find?_some hfind⟩
    simp [hyes]

/-- A bus with nothing but an EEPROM: the storage is the empty second entry of the table. -/
theorem storageW1eepromCreate_alone :
    let bus := (w1ScanBus ⟨⟨[0x1d00000012345643], [], .off⟩, fun _ => 0⟩).2
    w1Class (bus.devs 0) = 0x43 ∧ storageW1eepromCreate bus = (0, some 1) ∧
      bus.devs 1 = 0 := by
  decide +kernel

/-! ## Pages -/

/-- What a bus master does with the device: `w1_match_rom`, `w1_write_byte` and
`w1_read_byte`, on whatever state the bus has. -/
structure Master (σ : Type) where
  matchRom : σ → σ
  writeByte : σ → Byte → σ
  readByte : σ → Byte × σ

variable {σ : Type}

/-- `LSB_ADDR`. -/
def lsbAddr (offset : Nat) : Byte := BitVec.ofNat 8 offset

/-- `MSB_ADDR`. -/
def msbAddr (offset : Nat) : Byte := BitVec.ofNat 8 (offset / 256)

/-- The loop that compares the scratchpad with the buffer. -/
def readsBack (w : Master σ) : σ → List Byte → Bool × σ
  | s, [] => (true, s)
  | s, b :: buffer =>
    let j := w.readByte s
    if j.1 ≠ b then (false, j.2) else readsBack w j.2 buffer

/-- `w1_write_page`. -/
def w1WritePage (w : Master σ) (s : σ) (offset : Nat) (buffer : List Byte) : Int × σ :=
  -- write scratchpad
  let s := [0x0f, lsbAddr offset, msbAddr offset].foldl w.writeByte (w.matchRom s)
  let s := buffer.foldl w.writeByte s
  -- read it back
  let lsb := w.readByte (w.writeByte (w.matchRom s) 0xaa)
  if lsb.1 ≠ lsbAddr offset then (-1, lsb.2)
  else
    let msb := w.readByte lsb.2
    if msb.1 ≠ msbAddr offset then (-2, msb.2)
    else
      let es := w.readByte msb.2
      let r := readsBack w es.2 buffer
      if r.1 = false then (-3, r.2)
      -- copy scratchpad
      else (buffer.length, [0x55, lsbAddr offset, msbAddr offset, es.1].foldl w.writeByte
        (w.matchRom r.2))

/-- `w1_erase_page`: as `w1_write_page`, with 0xff for each byte of the buffer. -/
def w1ErasePage (w : Master σ) (s : σ) (offset blen : Nat) : Int × σ :=
  w1WritePage w s offset (replicate blen 0xff)

abbrev PageOp (σ : Type) := σ → Nat → List Byte → Int × σ

/-- The `while` loop over the whole pages and the leading part of the last one, with fuel. -/
def pageLoop (op : PageOp σ) : Nat → σ → Int → Nat → List Byte → Int × σ
  | 0, s, ret, _, _ => (ret, s)
  | fuel + 1, s, ret, offset, buffer =>
    if buffer = [] then (ret, s)
    else
      let i := op s offset (buffer.take 32)
      if i.1 < 0 then i else pageLoop op fuel i.2 (ret + i.1) (offset + 32) (buffer.drop 32)

/-- What `w1_write_eeprom` and `w1_erase_eeprom` have in common: `blen` is the length of
the buffer. -/
def splitPages (op : PageOp σ) (s : σ) (offset : Nat) (buffer : List Byte) : Int × σ :=
  let page := offset / 32
  let endpage := (offset + buffer.length - 1) / 32
  if offset % 32 ≠ 0 then
    -- trailing part of first page
    let i := if endpage ≠ page then 32 - offset % 32 else buffer.length
    let ret := op s offset (buffer.take i)
    if ret.1 < 0 then ret
    else pageLoop op buffer.length ret.2 ret.1 (offset + i) (buffer.drop i)
  else pageLoop op buffer.length s 0 offset buffer

/-- `w1_write_eeprom`. -/
def w1WriteEeprom (w : Master σ) : PageOp σ := splitPages (w1WritePage w)

/-- `w1_erase_eeprom`. -/
def w1EraseEeprom (w : Master σ) (s : σ) (offset blen : Nat) : Int × σ :=
  splitPages (fun s offset buffer => w1ErasePage w s offset buffer.length) s offset
    (replicate blen 0xff)

/-- The page operations one after the other up to the first that fails; `total` if all
succeed. -/
def inOrder (op : PageOp σ) (total : Int) : List (Nat × List Byte) → σ → Int × σ
  | [], s => (total, s)
  | p :: pages, s =>
    let i := op s p.1 p.2
    if i.1 < 0 then i else inOrder op total pages i.2

/-- Operations in single pages, in order and disjoint, that together are the buffer. -/
structure IsSplit (offset : Nat) (buffer : List Byte) (pages : List (Nat × List Byte)) :
    Prop where
  inPage : ∀ p ∈ pages, p.1 % 32 + p.2.length ≤ 32
  ordered : pages.Pairwise fun p q => p.1 + p.2.length ≤ q.1
  covers : ∀ a, (∃ p ∈ pages, p.1 ≤ a ∧ a < p.1 + p.2.length) ↔
    offset ≤ a ∧ a < offset + buffer.length
  bytes : ∀ p ∈ pages, offset ≤ p.1 ∧ p.2 = (buffer.drop (p.1 - offset)).take p.2.length

theorem IsSplit.nil (offset : Nat) : IsSplit offset [] [] :=
  ⟨by simp, .nil, by simp, by simp⟩

theorem IsSplit.cons {offset : Nat} {b rest : List Byte} {pages : List (Nat × List Byte)}
    (hb : offset % 32 + b.length ≤ 32) (h : IsSplit (offset + b.length) rest pages) :
    IsSplit offset (b ++ rest) ((offset, b) :: pages) where
  inPage := forall_mem_cons.mpr ⟨hb, h.inPage⟩
  ordered := pairwise_cons.mpr ⟨fun q hq => (h.bytes q hq).1, h.ordered⟩
  covers a := by
    rw [exists_mem_cons_iff, h.covers, length_append]
    dsimp only
    omega
  bytes := by
    refine forall_mem_cons.mpr ⟨⟨le_rfl, by simp⟩, fun p hp => ?_⟩
    obtain ⟨hle, hbytes⟩ := h.bytes p hp
    refine ⟨by omega, ?_⟩
    rw [drop_append, drop_eq_nil_of_le (by omega), nil_append, Nat.sub_sub]
    exact hbytes

/-- The call had the result `r`, with page operations that split the buffer. -/
def PageSplits (op : PageOp σ) (total : Int) (offset : Nat) (buffer : List Byte) (s : σ)
    (r : Int × σ) : Prop :=
  ∃ pages, IsSplit offset buffer pages ∧ r = inOrder op total pages s

def PageOp.Sound (op : PageOp σ) : Prop :=
  ∀ s offset b, ¬(op s offset b).1 < 0 → (op s offset b).1 = b.length

variable {op : PageOp σ} {total : Int} {offset : Nat} {s : σ}

theorem PageSplits.cons (hop : op.Sound) {b rest : List Byte} {f : Int → Int × σ}
    (hb : offset % 32 + b.length ≤ 32)
    (h : PageSplits op total (offset + b.length) rest (op s offset b).2 (f b.length)) :
    PageSplits op total offset (b ++ rest) s
      (if (op s offset b).1 < 0 then op s offset b else f (op s offset b).1) := by
  obtain ⟨pages, hsplit, hr⟩ := h
  refine ⟨(offset, b) :: pages, hsplit.cons hb, ?_⟩
  rw [inOrder]
  split
  · rfl
  · rename_i hneg
    rw [hop s offset b hneg, hr]

/-- The loop splits what is left of the buffer.  Behind a short last piece its `offset` is
not where the piece ends, but then nothing is left. -/
theorem pageLoop_splits (hop : op.Sound) : ∀ n offset offset' (buffer : List Byte) s ret,
    buffer.length ≤ n → (buffer ≠ [] → offset' = offset ∧ offset % 32 = 0) →
    total = ret + buffer.length →
    PageSplits op total offset buffer s (pageLoop op n s ret offset' buffer)
  | n, offset, _, [], s, ret, _, _, htotal =>
    ⟨[], .nil offset, by cases n <;> simp [pageLoop, inOrder, htotal]⟩
  | n + 1, offset, offset', b :: buffer, s, ret, hn, hoff, htotal => by
    obtain ⟨rfl, hoff⟩ := hoff (cons_ne_nil b buffer)
    rw [pageLoop, if_neg (cons_ne_nil b buffer)]
    generalize b :: buffer = buffer at hn htotal
    have hlen := length_take (i := 32) (l := buffer)
    have hrest := length_drop (i := 32) (l := buffer)
    have htail := pageLoop_splits hop n (offset' + (buffer.take 32).length) (offset' + 32)
      (buffer.drop 32) (op s offset' (buffer.take 32)).2 (ret + (buffer.take 32).length)
      (by omega) (fun hne => have := length_pos_iff.mpr hne; by omega) (by omega)
    have h := PageSplits.cons hop (f := fun i => pageLoop op n _ (ret + i) (offset' + 32) _)
      (by omega) htail
    rwa [take_append_drop] at h

theorem splitPages_splits (hop : op.Sound) (s : σ) (offset : Nat) (buffer : List Byte) :
    PageSplits op buffer.length offset buffer s (splitPages op s offset buffer) := by
  rw [splitPages]
  split
  · generalize hi : (if (offset + buffer.length - 1) / 32 ≠ offset / 32 then 32 - offset % 32
      else buffer.length) = i
    have hlen := length_take (i := i) (l := buffer)
    have hrest := length_drop (i := i) (l := buffer)
    -- the piece ends at the page, or it is the whole buffer
    have hle : i ≤ buffer.length ∧ (offset % 32 + i = 32 ∨
        offset % 32 + i ≤ 32 ∧ i = buffer.length) := by
      split at hi <;> omega
    have htail := pageLoop_splits hop buffer.length
      (offset + (buffer.take i).length) (offset + i) (buffer.drop i)
      (op s offset (buffer.take i)).2 (buffer.take i).length (by omega)
      (fun hne => have := length_pos_iff.mpr hne; by omega)
      (show (buffer.length : Int) = _ by omega)
    have h := PageSplits.cons hop (f := fun ret => pageLoop op _ _ ret (offset + i) _)
      (by omega) htail
    rwa [take_append_drop] at h
  · rename_i hoff
    exact pageLoop_splits hop _ _ _ _ _ _ le_rfl (fun _ => ⟨rfl, not_not.mp hoff⟩) (by simp)

theorem w1WritePage_sound (w : Master σ) : PageOp.Sound (w1WritePage w) := by
  intro s offset b hneg
  simp only [w1WritePage] at hneg ⊢
  grind

/-- Both functions split at the pages, for every bus and device. -/
theorem w1Eeprom_splits (w : Master σ) (s : σ) (offset : Nat) :
    (∀ buffer, PageSplits (w1WritePage w) buffer.length offset buffer s
      (w1WriteEeprom w s offset buffer)) ∧
    ∀ blen : Nat, PageSplits (fun s offset b => w1ErasePage w s offset b.length) blen offset
      (replicate blen 0xff) s (w1EraseEeprom w s offset blen) := by
  refine ⟨splitPages_splits (w1WritePage_sound w) s offset, fun blen => ?_⟩
  have hop : PageOp.Sound fun s offset b => w1ErasePage w s offset b.length := by
    intro s offset b hneg
    have h := w1WritePage_sound w s offset (replicate b.length 0xff) hneg
    rwa [length_replicate] at h
  have h := splitPages_splits hop s offset (replicate blen 0xff)
  rwa [length_replicate] at h

end Wrpc.W1
