/-
# The UART bootloader of the eRTM14 (`uart-bootloader/boot.c`)

A command travels as

    0x55 0xaa  command  len_hi len_lo  payload …  crc_hi crc_lo

and is collected in `rxbuf`, a global array of 272 bytes.  `bootTurn` is one turn
of the `for (;;)` of `boot_fsm`: `readHeader`, `readBody`, `execute`.

RAM is one byte array; `rxbuf` lies in it at an address given by the linker, so a
frame that is too long writes on into whatever follows, and a command that writes
to RAM may write over the frame it is reading.  The scalar globals are fields of
their own.  The flash chip is the list of the operations it was given.

A read that finds no byte within `UART_TIMEOUT` is a `none` in `rx`, and when `rx`
has run out the line stays silent.

A wrong CRC is answered, and the command executed all the same.
-/
import Wrpc.Ertm14.UartLink
import Wrpc.Lib.Bytes
import Wrpc.Lib.Run

namespace Wrpc.Bootloader

open Ertm14 (crc16 crcBytes)

/-- `RX_BUF_SIZE`. -/
def rxBufSize : Nat := 256 + 16

/-- What the linker and the board fix: the address of `rxbuf` and the id of the
flash chip. -/
structure Target where
  rxbuf : Nat
  flashId : BitVec 32

inductive FlashOp where
  | eraseSector (addr : BitVec 32)
  | write (addr : BitVec 32) (data : List Byte)
deriving DecidableEq, Repr

/-- Where the processor is: in the loop, back in `boot_main`, or in the program
that `CMD_GO` has called. -/
inductive Flow where
  | running | returned | jumped (addr : BitVec 32)
deriving DecidableEq, Repr

structure Boot where
  rx : List (Option Byte)
  tx : List Byte
  timeoutHit : Bool
  bootWait : Bool
  ram : Mem
  flash : List FlashOp
  origResetVector : BitVec 32
  origResetInsn : BitVec 32
  flow : Flow

/-- `suart_read_blocking` -/
def suartReadBlocking (s : Boot) : Byte × Boot :=
  match s.rx with
  | some b :: rx => (b, { s with rx := rx })
  | none :: rx => (0, { s with rx := rx, timeoutHit := true })
  | [] => (0, { s with timeoutHit := true })

/-- `rxbuf[pos] = c` -/
def store (t : Target) (s : Boot) (pos : Nat) (c : Byte) : Boot :=
  { s with ram := s.ram.set (t.rxbuf + pos) c }

/-- `rxbuf[pos++] = suart_read_blocking()`, `n` times. -/
def readInto (t : Target) : Nat → Nat → Boot → Boot
  | 0, _, s => s
  | n + 1, pos, s =>
    readInto t n (pos + 1) (store t (suartReadBlocking s).2 pos (suartReadBlocking s).1)

/-- The bytes `send_reply` puts on the line. -/
def replyBytes (code : Byte) (data : List Byte) : List Byte :=
  let head := [0x55, 0xaa, code, BitVec.ofNat 8 (data.length >>> 8), BitVec.ofNat 8 data.length]
    ++ data
  head ++ crcBytes (crc16 head)

/-- `send_reply` -/
def sendReply (s : Boot) (code : Byte) (data : List Byte) : Boot :=
  { s with tx := s.tx ++ replyBytes code data }

def rspOk : Byte := 1
def rspBadCrc : Byte := 4
def rspHello : Byte := 5

/-! ## Commands -/

def unpackBe32 (m : Mem) (p : Nat) : BitVec 32 := m p ++ m (p + 1) ++ m (p + 2) ++ m (p + 3)

def packBe32 (val : BitVec 32) : List Byte := Bytes.imageOf .big 4 val.toNat

/-- The address of the payload, `rxbuf + 5`. -/
def Target.payload (t : Target) : Nat := t.rxbuf + 5

/-- `on_cmd_init` -/
def onCmdInit (s : Boot) : Boot := sendReply { s with bootWait := false } rspOk []

/-- `on_cmd_erase_sector` -/
def onCmdEraseSector (t : Target) (s : Boot) : Boot :=
  sendReply { s with flash := s.flash ++ [.eraseSector (unpackBe32 s.ram t.payload)] } rspOk []

/-- `on_cmd_write_page`; a length below 4 starts a page program without data. -/
def onCmdWritePage (t : Target) (s : Boot) (len : Nat) : Boot :=
  sendReply { s with
    flash := s.flash ++
      [.write (unpackBe32 s.ram t.payload) (s.ram.read (t.payload + 4) (len - 4))] } rspOk []

/-- `on_cmd_get_flash_id`; the id is sent as it lies in memory. -/
def onCmdGetFlashId (t : Target) (s : Boot) : Boot :=
  sendReply s rspOk (Bytes.imageOf .little 4 t.flashId.toNat)

/-- `decode_reset_jump_target`: the target of a RISC-V `jal` at `pc`. -/
def decodeResetJumpTarget (pc insn : BitVec 32) : BitVec 32 :=
  let dImmJ : BitVec 32 := if insn &&& (1 <<< 31) ≠ 0 then 0xfff00000 else 0
  pc + (dImmJ ||| (((insn >>> 12) &&& 0xff) <<< 12) ||| (((insn >>> 20) &&& 0x1) <<< 11)
    ||| (((insn >>> 25) &&& 0x3f) <<< 5) ||| (((insn >>> 21) &&& 0xf) <<< 1))

/-- One byte of `on_cmd_write_ram`.  The first four addresses hold the reset
instruction, which is kept aside. -/
def writeRamByte (addr : BitVec 32) (c : Byte) (s : Boot) : Boot :=
  let v := c.zeroExtend 32
  if addr = 0 then { s with origResetInsn := v }
  else if addr = 1 then { s with origResetInsn := s.origResetInsn ||| (v <<< 8) }
  else if addr = 2 then { s with origResetInsn := s.origResetInsn ||| (v <<< 16) }
  else if addr = 3 then
    let insn := s.origResetInsn ||| (v <<< 24)
    { s with origResetInsn := insn, origResetVector := decodeResetJumpTarget 0 insn }
  else { s with ram := s.ram.set addr.toNat c }

/-- The loop of `on_cmd_write_ram`; the payload is read as it is by then. -/
def writeRamLoop (t : Target) (base : BitVec 32) (n : Nat) (s : Boot) : Boot :=
  (List.range n).foldl
    (fun s i => writeRamByte (base + BitVec.ofNat 32 i) (s.ram (t.payload + i + 4)) s) s

/-- The reply of `on_cmd_write_ram` and `on_cmd_go`. -/
def resetReply (base : BitVec 32) (s : Boot) : Boot :=
  sendReply s rspOk (packBe32 s.origResetInsn ++ packBe32 s.origResetVector ++ packBe32 base)

/-- `on_cmd_write_ram` -/
def onCmdWriteRam (t : Target) (s : Boot) (len : Nat) : Boot :=
  let base := unpackBe32 s.ram t.payload
  resetReply base (writeRamLoop t base (len - 4) s)

/-- `on_cmd_go` -/
def onCmdGo (t : Target) (s : Boot) : Boot :=
  { resetReply (unpackBe32 s.ram t.payload) s with flow := .jumped s.origResetVector }

/-- The commands `CMD_INIT` to `CMD_EXIT`. -/
inductive Command where
  | init | eraseSector | writePage | writeRam | go | getFlashId | exit
deriving DecidableEq, Repr

def Command.ofByte (c : Byte) : Option Command :=
  match c.toNat with
  | 1 => some .init
  | 2 => some .eraseSector
  | 3 => some .writePage
  | 4 => some .writeRam
  | 5 => some .go
  | 6 => some .getFlashId
  | 7 => some .exit
  | _ => none

/-- The `switch` on the command byte. -/
def dispatch (t : Target) (command : Byte) (len : Nat) (s : Boot) : Boot :=
  match Command.ofByte command with
  | some .init => onCmdInit s
  | some .eraseSector => onCmdEraseSector t s
  | some .writePage => onCmdWritePage t s len
  | some .writeRam => onCmdWriteRam t s len
  | some .go => onCmdGo t s
  | some .exit => { s with flow := .returned }
  | some .getFlashId => onCmdGetFlashId t s
  | none => s

/-! ## The loop -/

structure Header where
  command : Byte
  len : Nat
deriving DecidableEq, Repr

/-- The two sync bytes; `false` where the source says `continue`, `break` or
`return`.  `late` is `timer_get_tics() > t_exit`. -/
def readSync (t : Target) (late : Bool) (s : Boot) : Boot × Bool :=
  if s.bootWait ∧ late then ({ s with flow := .returned }, false)
  else
    let r := suartReadBlocking { s with timeoutHit := false }
    let s := r.2
    if s.timeoutHit ∧ s.bootWait then ({ s with flow := .returned }, false)
    else if r.1 ≠ 0x55 then (s, false)
    else
      let r := suartReadBlocking (store t s 0 r.1)
      let s := r.2
      if r.1 ≠ 0xaa ∨ s.timeoutHit then (s, false) else (store t s 1 r.1, true)

def readHeader (t : Target) (late : Bool) (s : Boot) : Boot × Option Header :=
  match readSync t late s with
  | (s, false) => (s, none)
  | (s, true) =>
    let command := (suartReadBlocking s).1
    let s := readInto t 3 2 s
    let len := (s.ram (t.rxbuf + 3)).toNat <<< 8 ||| (s.ram (t.rxbuf + 4)).toNat
    if s.timeoutHit then (s, none) else (s, some ⟨command, len⟩)

/-- The payload and the two CRC bytes; `none` after a timeout. -/
def readBody (t : Target) (len : Nat) (s : Boot) : Boot × Option (BitVec 16) :=
  let s := readInto t len 5 s
  let hi := suartReadBlocking s
  let lo := suartReadBlocking hi.2
  if lo.2.timeoutHit then (lo.2, none)
  else (lo.2, some ((hi.1.zeroExtend 16 <<< 8) ||| lo.1.zeroExtend 16))

/-- The CRC over the frame in `rxbuf`. -/
def frameCrc (t : Target) (len : Nat) (s : Boot) : BitVec 16 := crc16 (s.ram.read t.rxbuf (len + 5))

def execute (t : Target) (h : Header) (crc : BitVec 16) (s : Boot) : Boot :=
  -- the source has no `continue` after the reply
  dispatch t h.command h.len (if crc ≠ frameCrc t h.len s then sendReply s rspBadCrc [] else s)

/-- One turn of the loop of `boot_fsm`. -/
def bootTurn (t : Target) (s : Boot) (late : Bool) : Boot :=
  if s.flow ≠ .running then s
  else
    match readHeader t late s with
    | (s, none) => s
    | (s, some h) =>
      match readBody t h.len s with
      | (s, none) => s
      | (s, some crc) => execute t h crc s

/-- `boot_fsm` up to its loop; `bootBoardId` is `"e14wrpc5"`. -/
def bootStart (s : Boot) : Boot :=
  sendReply { s with bootWait := true, flow := .running } rspHello
    [0x65, 0x31, 0x34, 0x77, 0x72, 0x70, 0x63, 0x35]

/-! ## What a turn may touch -/

/-- RAM outside `rxbuf`, the flash, the saved reset vector and `boot_wait` are as
they were. -/
structure Untouched (t : Target) (s s' : Boot) : Prop where
  ram : ∀ a, a < t.rxbuf ∨ t.rxbuf + rxBufSize ≤ a → s'.ram a = s.ram a
  flash : s'.flash = s.flash
  vector : s'.origResetVector = s.origResetVector
  insn : s'.origResetInsn = s.origResetInsn
  wait : s'.bootWait = s.bootWait

structure Receiving (t : Target) (s s' : Boot) : Prop extends Untouched t s s' where
  tx : s'.tx = s.tx
  flow : s'.flow = s.flow

variable {t : Target} {late : Bool} {s s₁ : Boot}

theorem Untouched.trans {t : Target} {s₁ s₂ s₃ : Boot} (h : Untouched t s₁ s₂)
    (h' : Untouched t s₂ s₃) : Untouched t s₁ s₃ where
  ram a ha := (h'.ram a ha).trans (h.ram a ha)
  flash := h'.flash.trans h.flash
  vector := h'.vector.trans h.vector
  insn := h'.insn.trans h.insn
  wait := h'.wait.trans h.wait

theorem Receiving.refl (t : Target) (s : Boot) : Receiving t s s :=
  ⟨⟨fun _ _ => rfl, rfl, rfl, rfl, rfl⟩, rfl, rfl⟩

theorem Receiving.trans {t : Target} {s₁ s₂ s₃ : Boot} (h : Receiving t s₁ s₂)
    (h' : Receiving t s₂ s₃) : Receiving t s₁ s₃ where
  toUntouched := h.toUntouched.trans h'.toUntouched
  tx := h'.tx.trans h.tx
  flow := h'.flow.trans h.flow

theorem suartReadBlocking_receiving (t : Target) (s : Boot) :
    Receiving t s (suartReadBlocking s).2 := by
  unfold suartReadBlocking
  split <;> exact ⟨⟨fun _ _ => rfl, rfl, rfl, rfl, rfl⟩, rfl, rfl⟩

theorem store_receiving (t : Target) (s : Boot) {pos : Nat} (hpos : pos < rxBufSize) (c : Byte) :
    Receiving t s (store t s pos c) := by
  refine ⟨⟨fun a ha => ?_, rfl, rfl, rfl, rfl⟩, rfl, rfl⟩
  apply Mem.set_other
  rintro rfl
  rcases ha with ha | ha
  · exact absurd ha (Nat.not_lt.mpr (Nat.le_add_right _ _))
  · exact absurd (Nat.le_of_add_le_add_left ha) (Nat.not_le.mpr hpos)

theorem readInto_receiving (t : Target) : ∀ (n pos : Nat) (s : Boot), pos + n ≤ rxBufSize →
    Receiving t s (readInto t n pos s)
  | 0, _, s, _ => Receiving.refl t s
  | n + 1, pos, s, h => by
    have hpos : pos < rxBufSize := Nat.lt_of_lt_of_le (Nat.lt_add_of_pos_right n.succ_pos) h
    have hrest : pos + 1 + n ≤ rxBufSize := by rwa [Nat.add_right_comm]
    exact ((suartReadBlocking_receiving t s).trans (store_receiving t _ hpos _)).trans
      (readInto_receiving t n (pos + 1) _ hrest)

/-- Waiting for the sync bytes moves nothing but the receive side, and may end the
loop as long as no command has been received. -/
theorem readSync_spec (t : Target) (late : Bool) (s : Boot) :
    Untouched t s (readSync t late s).1 ∧ (readSync t late s).1.tx = s.tx ∧
      ((readSync t late s).1.flow = s.flow ∨
        (readSync t late s).2 = false ∧ s.bootWait = true ∧
          (readSync t late s).1.flow = .returned) := by
  have hclear : Receiving t s { s with timeoutHit := false } :=
    ⟨⟨fun _ _ => rfl, rfl, rfl, rfl, rfl⟩, rfl, rfl⟩
  have hfirst := hclear.trans (suartReadBlocking_receiving t _)
  have hsecond := fun c => (hfirst.trans (store_receiving t _ (by decide : 0 < rxBufSize) c)).trans
    (suartReadBlocking_receiving t _)
  have hthird := fun c c' => (hsecond c).trans
    (store_receiving t _ (by decide : 1 < rxBufSize) c')
  unfold readSync
  split
  · next hlate =>
    exact ⟨⟨fun _ _ => rfl, rfl, rfl, rfl, rfl⟩, rfl, .inr ⟨rfl, hlate.1, rfl⟩⟩
  · dsimp only
    split
    · next hto =>
      refine ⟨⟨hfirst.ram, hfirst.flash, hfirst.vector, hfirst.insn, hfirst.wait⟩, hfirst.tx,
        .inr ⟨rfl, ?_, rfl⟩⟩
      rw [← hfirst.wait]
      exact hto.2
    · split
      · exact ⟨hfirst.toUntouched, hfirst.tx, .inl hfirst.flow⟩
      · split
        · exact ⟨(hsecond _).toUntouched, (hsecond _).tx, .inl (hsecond _).flow⟩
        · exact ⟨(hthird _ _).toUntouched, (hthird _ _).tx, .inl (hthird _ _).flow⟩

theorem readHeader_spec (t : Target) (late : Bool) (s : Boot) :
    Untouched t s (readHeader t late s).1 ∧ (readHeader t late s).1.tx = s.tx ∧
      ((readHeader t late s).1.flow = s.flow ∨
        (readHeader t late s).2 = none ∧ s.bootWait = true ∧
          (readHeader t late s).1.flow = .returned) := by
  obtain ⟨hsync, htx, hflow⟩ := readSync_spec t late s
  unfold readHeader
  split
  · next s₁ heq =>
    rw [heq] at hsync htx hflow
    exact ⟨hsync, htx, hflow.imp_right fun h => ⟨rfl, h.2⟩⟩
  · next s₁ heq =>
    rw [heq] at hsync htx hflow
    have hflow₁ : s₁.flow = s.flow := hflow.resolve_right fun h => Bool.noConfusion h.1
    have hread := readInto_receiving t 3 2 s₁ (by decide)
    dsimp only
    split <;>
      exact ⟨hsync.trans hread.toUntouched, hread.tx.trans htx, .inl (hread.flow.trans hflow₁)⟩

theorem readBody_receiving (t : Target) {len : Nat} (hlen : 5 + len ≤ rxBufSize) (s : Boot) :
    Receiving t s (readBody t len s).1 := by
  have h := ((readInto_receiving t len 5 s hlen).trans (suartReadBlocking_receiving t _)).trans
    (suartReadBlocking_receiving t _)
  unfold readBody
  dsimp only
  split <;> exact h

theorem sendReply_tx_ne (s : Boot) (code : Byte) (data : List Byte) :
    (sendReply s code data).tx ≠ s.tx := by
  intro h
  have hnil := List.append_right_eq_self.mp h
  cases hnil

theorem writeRamByte_tx (addr : BitVec 32) (c : Byte) (s : Boot) :
    (writeRamByte addr c s).tx = s.tx := by
  unfold writeRamByte
  repeat' split
  all_goals rfl

theorem writeRamLoop_tx (t : Target) (base : BitVec 32) (n : Nat) (s : Boot) :
    (writeRamLoop t base n s).tx = s.tx := by
  unfold writeRamLoop
  induction n with
  | zero => rfl
  | succ n ih =>
    rw [List.range_succ, List.foldl_append, List.foldl_cons, List.foldl_nil, writeRamByte_tx, ih]

theorem dispatch_noticed {command : Byte} {c : Command} (h : Command.ofByte command = some c)
    (len : Nat) (hrun : s.flow = .running) :
    (dispatch t command len s).tx ≠ s.tx ∨ (dispatch t command len s).flow ≠ s.flow := by
  unfold dispatch
  rw [h]
  cases c with
  | init => exact .inl (sendReply_tx_ne { s with bootWait := false } _ _)
  | eraseSector =>
    exact .inl (sendReply_tx_ne { s with
      flash := s.flash ++ [.eraseSector (unpackBe32 s.ram t.payload)] } _ _)
  | writePage =>
    exact .inl (sendReply_tx_ne { s with
      flash := s.flash ++
        [.write (unpackBe32 s.ram t.payload) (s.ram.read (t.payload + 4) (len - 4))] } _ _)
  | writeRam =>
    left
    rw [← writeRamLoop_tx t (unpackBe32 s.ram t.payload) (len - 4) s]
    exact sendReply_tx_ne _ _ _
  | go => exact .inl (sendReply_tx_ne s _ _)
  | getFlashId => exact .inl (sendReply_tx_ne s _ _)
  | exit =>
    right
    rw [hrun]
    exact Flow.noConfusion

/-! ## The frame of a turn -/

/-- The complete frame a turn receives: its header, its CRC and the state when it
is complete. -/
def received (t : Target) (s : Boot) (late : Bool) : Option (Header × BitVec 16 × Boot) :=
  if s.flow ≠ .running then none
  else
    match readHeader t late s with
    | (_, none) => none
    | (s, some h) => (readBody t h.len s).2.map fun crc => (h, crc, (readBody t h.len s).1)

theorem suartReadBlocking_some (h : (suartReadBlocking s).2.timeoutHit = false) :
    s.timeoutHit = false ∧ s.rx = some (suartReadBlocking s).1 :: (suartReadBlocking s).2.rx := by
  unfold suartReadBlocking at h ⊢
  split
  · next hrx =>
    rw [hrx] at h
    exact ⟨h, hrx⟩
  · next hrx =>
    rw [hrx] at h
    cases h
  · next hrx =>
    rw [hrx] at h
    cases h

theorem suartReadBlocking_ram (s : Boot) : (suartReadBlocking s).2.ram = s.ram := by
  unfold suartReadBlocking
  split <;> rfl

/-- A block that was read without a timeout lies in the buffer, and what was there
before it still does. -/
theorem readInto_bytes (t : Target) : ∀ (n pos : Nat) (s : Boot),
    (readInto t n pos s).timeoutHit = false → ∃ bs : List Byte, bs.length = n ∧
      s.timeoutHit = false ∧ s.rx = bs.map some ++ (readInto t n pos s).rx ∧
      (∀ l, s.ram.read t.rxbuf pos = l → (readInto t n pos s).ram.read t.rxbuf (pos + n) = l ++ bs)
  | 0, pos, s, h => ⟨[], rfl, h, rfl, fun l hl => by rw [List.append_nil]; exact hl⟩
  | n + 1, pos, s, h => by
    obtain ⟨bs, hlen, hto, hrx, hram⟩ := readInto_bytes t n (pos + 1)
      (store t (suartReadBlocking s).2 pos (suartReadBlocking s).1) h
    obtain ⟨hto', hrx'⟩ := suartReadBlocking_some hto
    refine ⟨(suartReadBlocking s).1 :: bs, by rw [List.length_cons, hlen], hto', ?_, ?_⟩
    · rw [hrx']
      exact congrArg _ hrx
    · intro l hl
      have hstore : (store t (suartReadBlocking s).2 pos (suartReadBlocking s).1).ram.read t.rxbuf
          (pos + 1) = l ++ [(suartReadBlocking s).1] := by
        rw [store, Mem.read_set_end, suartReadBlocking_ram, hl]
      have := hram _ hstore
      rwa [List.append_assoc, Nat.add_assoc, Nat.add_comm 1 n] at this

/-- The five bytes in front of a payload of `hi * 256 + lo` bytes. -/
def headerBytes (command hi lo : Byte) : List Byte := [0x55, 0xaa, command, hi, lo]

theorem readSync_bytes (hread : readSync t late s = (s₁, true)) (hto : s₁.timeoutHit = false) :
    s.rx = some 0x55 :: some 0xaa :: s₁.rx ∧ s₁.ram.read t.rxbuf 2 = [0x55, 0xaa] := by
  unfold readSync at hread
  dsimp only at hread
  split at hread
  · cases hread
  · split at hread
    · cases hread
    · split at hread
      · cases hread
      · next h55 =>
        split at hread
        · cases hread
        · next haa =>
          cases hread
          rw [not_not] at h55
          rw [not_or, not_not] at haa
          obtain ⟨hto₁, hrx₁⟩ := suartReadBlocking_some hto
          obtain ⟨-, hrx₀⟩ := suartReadBlocking_some hto₁
          rw [haa.1] at hrx₁
          rw [h55] at hrx₀
          constructor
          · exact hrx₀.trans (congrArg _ hrx₁)
          · rw [store, Mem.read_set_end, haa.1, suartReadBlocking_ram, h55]
            exact congrArg (· ++ [0xaa]) (Mem.read_set_end _ _ 0 _)

theorem readHeader_bytes {h : Header} (hread : readHeader t late s = (s₁, some h)) :
    s₁.timeoutHit = false ∧ ∃ hi lo : Byte, h.len = hi.toNat <<< 8 ||| lo.toNat ∧
      s.rx = (headerBytes h.command hi lo).map some ++ s₁.rx ∧
      s₁.ram.read t.rxbuf 5 = headerBytes h.command hi lo := by
  unfold readHeader at hread
  split at hread
  · cases hread
  · next s₀ hsync =>
    dsimp only at hread
    split at hread
    · cases hread
    · next hto =>
      cases hread
      have hto' := eq_false_of_ne_true hto
      obtain ⟨bs, hlen, hto₀, hrx, hram⟩ := readInto_bytes t 3 2 s₀ hto'
      obtain ⟨a, hi, lo, rfl⟩ := List.length_eq_three.mp hlen
      obtain ⟨hrx₀, hram₀⟩ := readSync_bytes hsync hto₀
      have hall := hram _ hram₀
      have ha : (suartReadBlocking s₀).1 = a := by
        rw [suartReadBlocking, hrx]
        rfl
      refine ⟨hto', hi, lo, ?_, ?_, ?_⟩
      · have h3 : (readInto t 3 2 s₀).ram (t.rxbuf + 3) = hi := congrArg (·.getD 3 0) hall
        have h4 : (readInto t 3 2 s₀).ram (t.rxbuf + 4) = lo := congrArg (·.getD 4 0) hall
        rw [h3, h4]
      · rw [hrx₀, hrx, ha]
        rfl
      · rw [ha]
        exact hall

/-! ## Turns that let nothing through -/

/-- What a turn may do without a frame whose CRC fits: nothing, or, after a frame
with a wrong CRC, the bad-CRC reply.  Only a timeout before the first command ends
the loop. -/
def Sound (t : Target) (s : Boot) (late : Bool) : Prop :=
  match received t s late with
  | none =>
    Untouched t s (bootTurn t s late) ∧ (bootTurn t s late).tx = s.tx ∧
      ((bootTurn t s late).flow = s.flow ∨
        s.bootWait = true ∧ (bootTurn t s late).flow = .returned)
  | some (h, crc, s₁) =>
    crc ≠ frameCrc t h.len s₁ →
      Untouched t s (bootTurn t s late) ∧ (bootTurn t s late).flow = s.flow ∧
        (bootTurn t s late).tx = s.tx ++ replyBytes rspBadCrc []

/-- A header that is read announces no more than `rxbuf` has room for. -/
def Fits (t : Target) (s : Boot) (late : Bool) : Prop :=
  ∀ h ∈ (readHeader t late s).2, 5 + h.len ≤ rxBufSize

def BadCrcIdle (t : Target) (s : Boot) (late : Bool) : Prop :=
  ∀ f ∈ received t s late, f.2.1 ≠ frameCrc t f.1.len f.2.2 → Command.ofByte f.1.command = none

theorem bootTurn_cases (hrun : s.flow = .running) (hfits : Fits t s late) :
    (received t s late = none ∧ Untouched t s (bootTurn t s late) ∧
        (bootTurn t s late).tx = s.tx ∧ ((bootTurn t s late).flow = s.flow ∨
          s.bootWait = true ∧ (bootTurn t s late).flow = .returned)) ∨
      ∃ h crc s₁, received t s late = some (h, crc, s₁) ∧ Receiving t s s₁ ∧
        bootTurn t s late = execute t h crc s₁ := by
  obtain ⟨hsame, htx, hflow⟩ := readHeader_spec t late s
  have hidle : ¬s.flow ≠ .running := not_not.mpr hrun
  unfold received bootTurn
  rw [if_neg hidle, if_neg hidle]
  unfold Fits at hfits
  cases hhead : readHeader t late s with
  | mk s₀ o =>
    rw [hhead] at hsame htx hflow hfits
    cases o with
    | none => exact .inl ⟨rfl, hsame, htx, hflow.imp_right And.right⟩
    | some h =>
      have hflow₀ : s₀.flow = s.flow := hflow.resolve_right fun h => nomatch h.1
      have hbody := readBody_receiving t (hfits h rfl) s₀
      have hall : Receiving t s (readBody t h.len s₀).1 :=
        ⟨hsame.trans hbody.toUntouched, hbody.tx.trans htx, hbody.flow.trans hflow₀⟩
      cases hb : readBody t h.len s₀ with
      | mk s₁ c =>
        rw [hb] at hall
        cases c with
        | none =>
          left
          dsimp only
          rw [hb]
          exact ⟨rfl, hall.toUntouched, hall.tx, .inl hall.flow⟩
        | some crc =>
          right
          refine ⟨h, crc, s₁, ?_, hall, ?_⟩
          · dsimp only
            rw [hb]
            rfl
          · dsimp only
            rw [hb]

theorem bootTurn_of_stopped (h : s.flow ≠ .running) (late : Bool) :
    bootTurn t s late = s ∧ received t s late = none :=
  ⟨if_pos h, if_pos h⟩

/-- **A turn is sound exactly when a frame with a wrong CRC holds no command.** -/
theorem sound_iff (hfits : Fits t s late) : Sound t s late ↔ BadCrcIdle t s late := by
  unfold Sound BadCrcIdle
  by_cases hrun : s.flow = .running
  · rcases bootTurn_cases hrun hfits with ⟨hnone, hidle⟩ | ⟨h, crc, s₁, hsome, hrecv, hturn⟩
    · rw [hnone]
      exact ⟨fun _ f hf => (nomatch hf), fun _ => hidle⟩
    · rw [hsome, hturn]
      unfold execute
      constructor
      · intro hsound f hf hcrc
        cases hf
        obtain ⟨-, hflow, htx⟩ := hsound hcrc
        rw [if_pos hcrc] at hflow htx
        cases hcmd : Command.ofByte h.command with
        | none => rfl
        | some c =>
          have hrun₁ : (sendReply s₁ rspBadCrc []).flow = .running := hrecv.flow.trans hrun
          rcases dispatch_noticed hcmd h.len hrun₁ with hne | hne
          · refine absurd (htx.trans ?_) hne
            rw [← hrecv.tx]
            rfl
          · refine absurd (hflow.trans ?_) hne
            rw [← hrecv.flow]
            rfl
      · intro hidle hcrc
        have hcmd := hidle _ rfl hcrc
        have hdisp : dispatch t h.command h.len (sendReply s₁ rspBadCrc []) =
            sendReply s₁ rspBadCrc [] := by
          unfold dispatch
          rw [hcmd]
        rw [if_pos hcrc, hdisp]
        refine ⟨⟨hrecv.ram, hrecv.flash, hrecv.vector, hrecv.insn, hrecv.wait⟩, hrecv.flow, ?_⟩
        rw [← hrecv.tx]
        rfl
  · obtain ⟨hturn, hnone⟩ := bootTurn_of_stopped hrun late
    rw [hnone, hturn]
    exact ⟨fun _ f hf => (nomatch hf),
      fun _ => ⟨(Receiving.refl t s).toUntouched, rfl, .inl rfl⟩⟩

/-- **Command integrity of the bootloader.**  On every stream, from any state in
which `boot_fsm` is entered, in every run whose headers announce no more than the
buffer holds: commands take effect with a matching CRC only, and a wrong CRC causes
the bad-CRC reply only, in exactly the runs whose frames with a wrong CRC hold none
of the seven commands. -/
theorem bootFsm_sound_iff {t : Target} {s : Boot} {lates : List Bool}
    (hfits : Run.Steps (bootTurn t) (Fits t) (bootStart s) lates) :
    Run.Steps (bootTurn t) (Sound t) (bootStart s) lates ↔
      Run.Steps (bootTurn t) (BadCrcIdle t) (bootStart s) lates :=
  Run.steps_congr (hfits.mono fun _ _ h => sound_iff h)

def booting (rx : List Byte) : Boot :=
  ⟨rx.map some, [], false, false, fun _ => 0, [], 0, 0, .running⟩

/-- A board with `rxbuf` at `0x10000`. -/
def sampleTarget : Target := ⟨0x10000, 0x1840ef⟩

/-- `CMD_INIT` without payload, and its CRC. -/
def initFrame : List Byte := headerBytes 1 0 0 ++ crcBytes (crc16 (headerBytes 1 0 0))

/-- A good command: it fits, and is executed. -/
theorem bootFsm_sound_init :
    (bootTurn sampleTarget (bootStart (booting initFrame)) false).bootWait = false ∧
      Run.Steps (bootTurn sampleTarget) (Sound sampleTarget) (bootStart (booting initFrame))
        [false] := by
  have hfits : Run.Steps (bootTurn sampleTarget) (Fits sampleTarget) (bootStart (booting initFrame))
      [false] := by
    refine ⟨fun h hh => ?_, trivial⟩
    cases hh
    decide
  refine ⟨rfl, (bootFsm_sound_iff hfits).mpr ⟨fun f hf hcrc => ?_, trivial⟩⟩
  cases hf
  exact absurd (by decide +kernel) hcrc

/-- `CMD_ERASE_SECTOR` of the sector at `0x10000`, and a CRC of 0. -/
def badEraseFrame : List Byte := headerBytes 2 0 4 ++ [0, 1, 0, 0] ++ [0, 0]

/-- The CRC is wrong and the sector is erased. -/
theorem bootFsm_bad_erase : ∃ h crc s₁,
    received sampleTarget (bootStart (booting badEraseFrame)) false = some (h, crc, s₁) ∧
      crc ≠ frameCrc sampleTarget h.len s₁ ∧
      (bootTurn sampleTarget (bootStart (booting badEraseFrame)) false).flash
        = [.eraseSector 0x10000] := by
  refine ⟨⟨2, 4⟩, 0, _, rfl, ?_, ?_⟩
  · decide +kernel
  · decide +kernel

end Wrpc.Bootloader
