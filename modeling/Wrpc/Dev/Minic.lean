/-
# Receiving a frame from the Mini-NIC (`minic.c`)

The Mini-NIC hands frames over through a FIFO of typed 16-bit words: a status
word, the header and the payload as data words (a payload of odd length ends in
a byte-select word), and three out-of-band words.  `minicRxFrame` reads words up
to the status word of the next frame, or until the FIFO is empty.

The out-of-band words hold a time stamp, two counters packed in one word: 28 bits
of a counter running on the rising edge of the reference clock and the low 4 bits
of one running on the falling edge.  `minicRxHwts` is the part of the function
that turns this word and the time read from the PPS generator into a
`struct hw_timestamp`.
-/
import Wrpc.Lib.Mem

namespace Wrpc

open BitVec

/-- `REF_CLOCK_PERIOD_PS` and `REF_CLOCK_FREQ_HZ`, as the boards define them. -/
structure RefClock where
  periodPs : Nat
  freqHz : Nat
  supported : (periodPs = 8000 ∧ freqHz = 125000000) ∨ (periodPs = 16000 ∧ freqHz = 62500000)

def refClock125 : RefClock := ⟨8000, 125000000, .inl ⟨rfl, rfl⟩⟩

/-- `struct hw_timestamp`. -/
structure HwTimestamp where
  valid : BitVec 8
  ahead : BitVec 32
  sec : BitVec 64
  nsec : BitVec 32
  phase : BitVec 32
deriving DecidableEq, Repr

/-- `F_COUNTER_MASK`. -/
def fCounterMask : Nat := 15

/-- `RXOOB_TS_INCORRECT`. -/
def rxoobTsIncorrect : BitVec 16 := 1#16 <<< 11

/-- `EXPLODE_WR_TIMESTAMP`, the rising edge counter. -/
def explodeRc (raw : BitVec 32) : Nat := (raw &&& 0xfffffff#32).toNat

/-- `EXPLODE_WR_TIMESTAMP`, the falling edge counter. -/
def explodeFc (raw : BitVec 32) : Nat := ((raw >>> 28) &&& 0xf#32).toNat

/-- The time stamp `minic_rx_frame` builds when the out-of-band words are
there.  `sec` and `counterPpsg` come from `shw_pps_gen_get_time`; `phase` is
the field the function does not write. -/
def minicRxHwts (clk : RefClock) (sec : BitVec 64) (counterPpsg : Nat) (oobHdr : BitVec 16)
    (rawTs phase : BitVec 32) : HwTimestamp :=
  let counterR := explodeRc rawTs
  let counterF := explodeFc rawTs
  -- the frame was stamped before the second ended, the time read after
  let sec := if counterR > 3 * clk.freqHz / 4 ∧ counterPpsg < 250000000 then sec - 1 else sec
  let cntrDiff : Int := ((counterR &&& fCounterMask : Nat) : Int) - counterF
  { sec := sec
    ahead := if cntrDiff = 1 ∨ cntrDiff = -(fCounterMask : Int) then 1 else 0
    nsec := BitVec.ofNat 32 (counterR * (clk.periodPs / 1000))
    valid := if oobHdr &&& rxoobTsIncorrect ≠ 0 then 0 else 1
    phase := phase }

/-! ## The FIFO -/

/-- The type of a FIFO word, `WRF_DATA` to `WRF_BYTESEL`. -/
inductive Wrf where
  | data | oob | status | bytesel
deriving DecidableEq, Repr

structure FifoWord where
  type : Wrf
  data : BitVec 16
deriving DecidableEq, Repr

/-- `RX_STATUS_ERROR` -/
def rxStatusError (d : BitVec 16) : Bool := d.getLsbD 1

/-- `ETH_HEADER_SIZE` -/
def ethHeaderSize : Nat := 14

/-- `ptr16[size >> 1] = htons(data)` -/
def putWord (m : Mem) (size : Nat) (data : BitVec 16) : Mem :=
  (m.set (2 * (size / 2)) ((data >>> 8).setWidth 8)).set (2 * (size / 2) + 1) (data.setWidth 8)

theorem append_high (a b : Byte) : ((a ++ b : BitVec 16) >>> 8).setWidth 8 = a := by
  apply eq_of_toNat_eq
  have hb := b.isLt
  simp only [toNat_setWidth, toNat_ushiftRight, toNat_append]
  rw [← Nat.shiftLeft_add_eq_or_of_lt hb, Nat.shiftRight_eq_div_pow, Nat.shiftLeft_eq]
  omega

theorem append_low (a b : Byte) : (a ++ b : BitVec 16).setWidth 8 = b := by
  apply eq_of_toNat_eq
  have hb := b.isLt
  simp only [toNat_setWidth, toNat_append]
  rw [← Nat.shiftLeft_add_eq_or_of_lt hb, Nat.shiftLeft_eq]
  omega

/-- The locals of `minic_rx_frame` and the two buffers it writes. -/
structure RxLocals where
  hdr : Mem
  payload : Mem
  hdrSize : Nat
  payloadSize : Nat
  oobCnt : Nat
  oobHdr : BitVec 16
  rawTs : BitVec 32
  gotRxError : Bool

def rxOob (s : RxLocals) (data : BitVec 16) : RxLocals :=
  let s' := { s with oobCnt := (s.oobCnt + 1) % 2 ^ 32 }
  if s.oobCnt = 0 then { s' with oobHdr := data }
  else if s.oobCnt = 1 then { s' with rawTs := data.zeroExtend 32 <<< 16 }
  else if s.oobCnt = 2 then { s' with rawTs := s.rawTs ||| data.zeroExtend 32 }
  else s'

def rxWord (bufSize : Nat) (s : RxLocals) (w : FifoWord) : RxLocals :=
  if w.type = .data ∧ s.hdrSize < ethHeaderSize then
    { s with hdr := putWord s.hdr s.hdrSize w.data, hdrSize := s.hdrSize + 2 }
  else if w.type ≠ .status ∧ bufSize < s.payloadSize then
    -- meant for the rest of the payload; the out-of-band words come here too
    { s with payloadSize := (s.payloadSize + 2) % 2 ^ 32 }
  else
    match w.type with
    | .data =>
      { s with
        payload := putWord s.payload s.payloadSize w.data
        payloadSize := (s.payloadSize + 2) % 2 ^ 32 }
    | .bytesel =>
      { s with
        payload := putWord s.payload s.payloadSize w.data
        payloadSize := (s.payloadSize + 1) % 2 ^ 32 }
    | .oob => rxOob s w.data
    | .status => s

/-- The `while (1)` of `minic_rx_frame`: what it has collected, and the words left
in the FIFO. -/
def rxLoop (bufSize : Nat) : RxLocals → List FifoWord → RxLocals × List FifoWord
  | s, [] => (s, [])
  | s, w :: fifo =>
    -- a status word behind a header belongs to the next frame, or reports an error
    if w.type = .status ∧ 0 < s.hdrSize then
      ({ s with gotRxError := rxStatusError w.data }, fifo)
    else rxLoop bufSize (rxWord bufSize s w) fifo

/-- `struct wr_minic`, as far as the function uses it, and its FIFO. -/
structure Nic where
  fifo : List FifoWord
  rxErrors : BitVec 32
  rxCount : BitVec 32

/-- What a caller passes in: two buffers, the size of the second, the time stamp to
be filled in, and the time the PPS generator shows. -/
structure RxCall where
  hdr : Mem
  payload : Mem
  bufSize : Nat
  hwts : HwTimestamp
  sec : BitVec 64
  counterPpsg : Nat

def RxCall.start (c : RxCall) : RxLocals := ⟨c.hdr, c.payload, 0, 0, 0, rxoobTsIncorrect, 0, false⟩

structure RxResult where
  ret : Int
  hdr : Mem
  payload : Mem
  hwts : HwTimestamp

/-- `minic_rx_frame`, with a supported `ver_supported`. -/
def minicRxFrame (clk : RefClock) (nic : Nic) (c : RxCall) : RxResult × Nic :=
  if nic.fifo = [] then (⟨0, c.hdr, c.payload, c.hwts⟩, nic)
  else
    let r := rxLoop c.bufSize c.start nic.fifo
    let s := r.1
    let hwts :=
      if s.oobCnt = 0 ∨ 3 < s.oobCnt then { c.hwts with valid := 0 }
      else minicRxHwts clk c.sec c.counterPpsg s.oobHdr s.rawTs c.hwts.phase
    if s.gotRxError then
      (⟨-1, s.hdr, s.payload, hwts⟩, { nic with fifo := r.2, rxErrors := nic.rxErrors + 1 })
    else
      (⟨(if c.bufSize < s.payloadSize then c.bufSize else s.payloadSize : Nat), s.hdr,
        s.payload, hwts⟩, { nic with fifo := r.2, rxCount := nic.rxCount + 1 })

def rxCalls (clk : RefClock) : Nic → List RxCall → List RxResult × Nic
  | nic, [] => ([], nic)
  | nic, c :: calls =>
    let r := minicRxFrame clk nic c
    let rs := rxCalls clk r.2 calls
    (r.1 :: rs.1, rs.2)

end Wrpc
