/-
# Enumerating the devices of a 1-Wire bus (`w1.c`)

Every device has a 64-bit ROM code.  After the SEARCH ROM command the devices
send their code bit by bit, least significant first: all devices still selected
send the bit, then its complement, and what is read is the AND of what they
send; then the master writes a bit, and the devices whose own bit is another one
fall silent.  `scanOne` goes once through the 64 bits, following `rom` where the
devices disagree, and `w1ScanBus` calls it until no disagreement is left or the
table of `maxDevices` entries is full.

The wire is modelled as far as a search uses it: a reset, the command byte, and
the three time slots of each bit.
-/
import Wrpc.Lib.Mem

namespace Wrpc.W1

abbrev Rom := BitVec 64

/-- `W1_MAX_DEVICES`. -/
def maxDevices : Nat := 8

/-! ## The wire -/

inductive Phase where
  | command (n : Nat) (byte : Byte)
  | bit (k : Nat)
  | complement (k : Nat)
  | direction (k : Nat)
  | off
deriving DecidableEq, Repr

/-- The bus: the devices on it, and those still selected since the last reset. -/
structure Wire where
  present : List Rom
  selected : List Rom
  phase : Phase
deriving DecidableEq, Repr

/-- `w1_reset`: 1 if some device answers. -/
def w1Reset (w : Wire) : Int × Wire :=
  (if w.present = [] then 0 else 1, ⟨w.present, w.present, .command 0 0⟩)

/-- `w1_read_bit`; nobody pulls an unused slot low. -/
def w1ReadBit (w : Wire) : Bool × Wire :=
  match w.phase with
  | .bit k => (w.selected.all (·.getLsbD k), ⟨w.present, w.selected, .complement k⟩)
  | .complement k => (w.selected.all (!·.getLsbD k), ⟨w.present, w.selected, .direction k⟩)
  | _ => (true, w)

/-- `w1_write_bit`. -/
def w1WriteBit (w : Wire) (bit : Bool) : Wire :=
  match w.phase with
  | .command n byte =>
    let byte := if bit then byte ||| BitVec.twoPow 8 n else byte
    ⟨w.present, w.selected,
      if n < 7 then .command (n + 1) byte else if byte = 0xf0 then .bit 0 else .off⟩
  | .direction k =>
    ⟨w.present, w.selected.filter (·.getLsbD k == bit), if k < 63 then .bit (k + 1) else .off⟩
  | _ => w

/-- `w1_write_byte`. -/
def w1WriteByte (w : Wire) (byte : Byte) : Wire :=
  (List.range 8).foldl (fun w i => w1WriteBit w (byte.getLsbD i)) w

/-! ## One search -/

/-- `enum __bits`. -/
inductive Bits where
  | b0 | b1 | both
deriving DecidableEq, Repr

/-- `__get_dibit`; `select` is an `int`. -/
def getDibit (w : Wire) (select : BitVec 32) : Bits × Wire :=
  let a := w1ReadBit w
  let b := w1ReadBit a.2
  if a.1 ≠ b.1 then (if a.1 then .b1 else .b0, w1WriteBit b.2 a.1)
  else (.both, w1WriteBit b.2 (select != 0))

/-- What a search reads and writes: the wire, `*rom` and `*cmask`. -/
structure Scan where
  wire : Wire
  rom : Rom
  cmask : BitVec 64

/-- The body of the bit loop of `__w1_scan_one`. -/
def scanBit (mask : BitVec 64) (s : Scan) : Scan :=
  -- the 64-bit value is assigned to an `int`
  let select : BitVec 32 := (s.rom &&& mask).setWidth 32
  let r := getDibit s.wire select
  match r.1 with
  | .b1 => ⟨r.2, s.rom ||| mask, s.cmask⟩
  | .b0 => ⟨r.2, s.rom, s.cmask⟩
  | .both => ⟨r.2, s.rom, if select = 0 then s.cmask ||| mask else s.cmask⟩

/-- `for (mask = 1; mask; mask <<= 1)`, with fuel. -/
def scanBits : Nat → BitVec 64 → Scan → Scan
  | 0, _, s => s
  | fuel + 1, mask, s =>
    if mask = 0 then s else scanBits fuel (mask <<< 1) (scanBit mask s)

/-- `__w1_scan_one`. -/
def scanOne (s : Scan) : Int × Scan :=
  let r := w1Reset s.wire
  if r.1 ≠ 1 then (-1, { s with wire := r.2 })
  else (0, scanBits 65 1 ⟨w1WriteByte r.2 0xf0, s.rom, 0⟩)

/-! ## The whole bus -/

/-- `struct w1_bus`: the ROM codes of its `devs`, and the wire it drives. -/
structure W1Bus where
  wire : Wire
  devs : Nat → Rom

/-- The loop of `w1_scan_bus` over the masks, highest first, with fuel: the mask
it stops at and the `rom` it leaves. -/
def resolve (cmask : BitVec 64) : Nat → BitVec 64 → Rom → BitVec 64 × Rom
  | 0, mask, rom => (mask, rom)
  | fuel + 1, mask, rom =>
    if mask = 0 then (mask, rom)
    else
      let mask := if mask &&& BitVec.twoPow 64 62 ≠ 0 then BitVec.twoPow 64 62 else mask
      if cmask &&& mask ≠ 0 then (mask, rom)
      else resolve cmask fuel (mask >>> 1) (rom &&& ~~~mask)

/-- The call of `__w1_scan_one` for entry `i`, on `d->rom`, and what it leaves in the
table; `true` if the search failed. -/
def scanEntry (bus : W1Bus) (i : Nat) (rom : Rom) (cmask : BitVec 64) :
    Bool × W1Bus × BitVec 64 :=
  let r := scanOne ⟨bus.wire, rom, cmask⟩
  (r.1 != 0, ⟨r.2.wire, Function.update bus.devs i r.2.rom⟩, r.2.cmask)

/-- The loop of `w1_scan_bus` at entry `i`, with `left` entries to go. -/
def scanFrom : Nat → Nat → BitVec 64 → W1Bus → Nat × W1Bus
  | 0, i, _, bus => (i, bus)
  | left + 1, i, cmask, bus =>
    if i = 0 then
      let r := scanEntry bus i (bus.devs i) cmask
      if r.1 then (i, r.2.1) else scanFrom left (i + 1) r.2.2 r.2.1
    else
      let m := resolve cmask 65 (BitVec.twoPow 64 63) (bus.devs (i - 1))
      if m.1 = 0 then (i, ⟨bus.wire, Function.update bus.devs i m.2⟩)
      else
        let r := scanEntry bus i (m.2 ||| m.1) (cmask &&& ~~~m.1)
        if r.1 then (i, r.2.1) else scanFrom left (i + 1) r.2.2 r.2.1

/-- `w1_scan_bus`. -/
def w1ScanBus (bus : W1Bus) : Nat × W1Bus := scanFrom maxDevices 0 0 bus

/-- The first `n` entries of the table. -/
def W1Bus.found (bus : W1Bus) (n : Nat) : List Rom := (List.range n).map bus.devs

end Wrpc.W1
