/-
# Writing to a SPI flash (`spi_flash.c`)

The chip takes a command in the bytes it is sent while it is selected.  A page
program stays in the page of 256 bytes it is addressed to: behind the last byte
of the page the first one follows.  `spi_flash_write` sends all of its buffer in
one such command.  The wait for its end is left out.
-/
import Wrpc.Lib.Mem
import Mathlib.Data.List.GetD

namespace Wrpc.SpiFlash

open List BitVec

structure Flash where
  mem : Mem
  wel : Bool

/-- A page program of at most 256 bytes: each cell of the page keeps the bits that are set
in the byte sent for it. -/
def pageProgram (m : Mem) (addr : Nat) (data : List Byte) : Mem := fun a =>
  if a / 256 = addr / 256 then m a &&& data.getD ((a + 256 - addr % 256) % 256) 0xff else m a

def addrOf (bytes : List Byte) : Nat := bytes.foldl (fun a b => 256 * a + b.toNat) 0

/-- A page program command with an address of `n` bytes. -/
def Flash.program (c : Flash) (n : Nat) (sent : List Byte) : Flash :=
  ⟨if c.wel then pageProgram c.mem (addrOf (sent.take n)) (sent.drop n) else c.mem, false⟩

/-- The chip while it is selected: `cmd` and `sent` are written, then `count` bytes read. -/
def Flash.select (c : Flash) (cmd : Byte) (sent : List Byte) (count : Nat) :
    List Byte × Flash :=
  if cmd = 0x06 then ([], { c with wel := true })
  else if cmd = 0x02 then ([], c.program 3 sent)
  else if cmd = 0x12 then ([], c.program 4 sent)
  else if cmd = 0x0b then (c.mem.read (addrOf (sent.take 3)) count, c)
  else if cmd = 0x0c then (c.mem.read (addrOf (sent.take 4)) count, c)
  else ([], c)

/-- `struct spi_flash_device`. -/
structure SpiFlashDevice where
  use4byteAddr : Bool

/-- `spi_flash_write_addr`. -/
def SpiFlashDevice.writeAddr (dev : SpiFlashDevice) (addr : BitVec 32) : List Byte :=
  let low : List Byte := [(addr >>> 16).setWidth 8, (addr >>> 8).setWidth 8, addr.setWidth 8]
  if dev.use4byteAddr then (addr >>> 24).setWidth 8 :: low else low

/-- `spi_flash_write`. -/
def spiFlashWrite (dev : SpiFlashDevice) (c : Flash) (addr : BitVec 32) (buf : List Byte) : Flash :=
  let c := (c.select 0x06 [] 0).2
  (c.select (if dev.use4byteAddr then 0x12 else 0x02) (dev.writeAddr addr ++ buf) 0).2

/-- `spi_flash_read`: the bytes put into the buffer. -/
def spiFlashRead (dev : SpiFlashDevice) (c : Flash) (addr : BitVec 32) (count : Nat) :
    List Byte :=
  (c.select (if dev.use4byteAddr then 0x0c else 0x0b) (dev.writeAddr addr ++ [0]) count).1

def SpiFlashDevice.reach (dev : SpiFlashDevice) : Nat :=
  if dev.use4byteAddr then 2 ^ 32 else 2 ^ 24

variable {dev : SpiFlashDevice} {addr : BitVec 32}

theorem addrOf_writeAddr (h : addr.toNat < dev.reach) :
    addrOf (dev.writeAddr addr) = addr.toNat := by
  rw [SpiFlashDevice.reach] at h
  cases huse : dev.use4byteAddr <;>
    simp [huse, addrOf, SpiFlashDevice.writeAddr, Nat.shiftRight_eq_div_pow] at h ⊢ <;> omega

theorem spiFlashWrite_mem (c : Flash) (buf : List Byte) (h : addr.toNat < dev.reach) :
    (spiFlashWrite dev c addr buf).mem = pageProgram c.mem addr.toNat buf := by
  rw [← addrOf_writeAddr h]
  cases huse : dev.use4byteAddr <;>
    simp [huse, spiFlashWrite, Flash.select, Flash.program, SpiFlashDevice.writeAddr]

theorem spiFlashRead_eq (c : Flash) (count : Nat) (h : addr.toNat < dev.reach) :
    spiFlashRead dev c addr count = c.mem.read addr.toNat count := by
  rw [← addrOf_writeAddr h]
  cases huse : dev.use4byteAddr <;>
    simp [huse, spiFlashRead, Flash.select, SpiFlashDevice.writeAddr]

/-- What is written can be read back, and nothing else is changed, exactly if the bytes
behind the end of the page are those of erased cells. -/
theorem spiFlashWrite_stores_iff (dev : SpiFlashDevice) (c : Flash) (addr : BitVec 32)
    (buf : List Byte) (hpos : 0 < buf.length) (hcount : buf.length ≤ 256)
    (hdev : addr.toNat + buf.length ≤ dev.reach)
    (herased : ∀ i < buf.length, c.mem (addr.toNat + i) = 0xff) :
    (spiFlashRead dev (spiFlashWrite dev c addr buf) addr buf.length = buf ∧
      ∀ a, a < addr.toNat ∨ addr.toNat + buf.length ≤ a →
        (spiFlashWrite dev c addr buf).mem a = c.mem a) ↔
    ∀ i, 256 - addr.toNat % 256 ≤ i → i < buf.length → buf.getD i 0 = 0xff := by
  rw [spiFlashRead_eq _ _ (by omega), spiFlashWrite_mem _ _ (by omega)]
  generalize addr.toNat = addr at *
  constructor
  · -- a byte behind the page is still that of an erased cell
    intro ⟨hread, _⟩ i hpage hi
    rw [← hread, Mem.getD_read _ addr hi, pageProgram, if_neg (by omega), herased i hi]
  · intro h
    have hget : ∀ i < buf.length, buf.getD i 0xff = buf.getD i 0 := fun i hi => by
      rw [getD_eq_getElem _ _ hi, getD_eq_getElem _ _ hi]
    refine ⟨Mem.read_eq_of fun i hi => ?_, fun a ha => ?_⟩
    · rw [pageProgram, herased i hi]
      split
      · rw [show (addr + i + 256 - addr % 256) % 256 = i by omega, hget i hi]
        exact allOnes_and
      · exact (h i (by omega) hi).symm
    · rw [pageProgram]
      split
      · -- no byte was sent for the cell, or one from behind the page
        have hff : buf.getD ((a + 256 - addr % 256) % 256) 0xff = 0xff := by
          by_cases hi : (a + 256 - addr % 256) % 256 < buf.length
          · rw [hget _ hi, h _ (by omega) hi]
          · exact getD_eq_default _ _ (not_lt.mp hi)
        rw [hff]
        exact and_allOnes
      · rfl

theorem spiFlashWrite_stores_page :
    spiFlashRead ⟨false⟩ (spiFlashWrite ⟨false⟩ ⟨fun _ => 0xff, false⟩ 0xfe [1, 2])
      0xfe 2 = [1, 2] :=
  ((spiFlashWrite_stores_iff ⟨false⟩ ⟨fun _ => 0xff, false⟩ 0xfe [1, 2] (by decide) (by decide)
    (by decide) (fun _ _ => rfl)).mpr (by decide)).1

/-- Two bytes at the end of a page: the second one goes to the page's first cell. -/
theorem spiFlashWrite_wraps :
    let c := spiFlashWrite ⟨false⟩ ⟨fun _ => 0xff, false⟩ 0xff [1, 2]
    spiFlashRead ⟨false⟩ c 0xff 2 = [1, 0xff] ∧ c.mem 0 = 2 := by
  decide

end Wrpc.SpiFlash
