/-
# The framing of the instruction UART (`iuart.c`)

A message travels as

    ESC START size payload ESC END checksum

with every `ESC` inside the payload doubled, and neither the size nor the
checksum escaped.  `iuart_parse_raw_byte` keeps its state in eight static
variables; they are the fields of `Parser`, together with the buffer and the
two counters it writes through its pointer arguments.
-/
import Wrpc.Lib.Mem
import Wrpc.Lib.Run

namespace Wrpc.Iuart

/-- `ESC_CHAR_VAL`. -/
def escChar : Byte := 0x24

/-- `START_MASK_EN`. -/
def startMask : Byte := 0xf0

/-- `START_INSN_CHAR_VAL`. -/
def startInsn : Byte := 0xf0

/-- `END_CHAR_VAL`. -/
def endChar : Byte := 0x45

/-- `MAX_SIZE`. -/
def maxSize : Nat := 128

/-- `iuart_send_escaped`, on the bytes sent so far and the checksum. -/
def sendEscaped (st : List Byte × BitVec 32) (ch : Byte) : List Byte × BitVec 32 :=
  let st := if ch = escChar then (st.1 ++ [escChar], st.2 + escChar.zeroExtend 32) else st
  (st.1 ++ [ch], st.2 + ch.zeroExtend 32)

/-- `iuart_send_message`: the bytes it sends. -/
def sendMessage (payload : List Byte) : List Byte :=
  let length := BitVec.ofNat 8 payload.length
  let csum := escChar.zeroExtend 32 + startInsn.zeroExtend 32 + escChar.zeroExtend 32 +
    endChar.zeroExtend 32 + length.zeroExtend 32
  let st := payload.foldl sendEscaped ([escChar, startInsn, length], csum)
  st.1 ++ [escChar, endChar, st.2.truncate 8]

/-! ## Parsing -/

/-- The static variables of `iuart_parse_raw_byte`, and what its pointer
arguments point to. -/
structure Parser where
  ridx : Nat
  bidx : Nat
  ending : Bool
  cmdsize : Nat
  csum : BitVec 32
  pchar : Byte
  schar : Byte
  nesc : Nat
  rxbuf : Mem
  noc : Nat
  csize : Nat

def Parser.init (rxbuf : Mem) (noc csize : Nat) : Parser where
  ridx := 0
  bidx := 0
  ending := false
  cmdsize := 0
  csum := 0
  pchar := ~~~escChar
  schar := ~~~startMask
  nesc := 0
  rxbuf := rxbuf
  noc := noc
  csize := csize

/-- `iuart_rxd_start`. -/
def rxdStart (rxbyte pchar : Byte) : Bool :=
  pchar = escChar ∧ rxbyte &&& startMask = startMask

/-- `iuart_rxd_end`. -/
def rxdEnd (rxbyte pchar : Byte) : Bool :=
  pchar = escChar ∧ rxbyte = endChar

/-- An `unsigned` incremented. -/
def incr (x : Nat) : Nat := (x + 1) % 4294967296

/-- The byte is past the size, also when the size is `ESC_CHAR_VAL` sent twice. -/
def Parser.isPayload (s : Parser) : Bool :=
  let sizeIsEscChar := if s.ridx = 3 ∧ s.nesc = 2 then 1 else 0
  s.ridx > 2 + sizeIsEscChar

/-- The end of `iuart_parse_raw_byte`, for a byte that is the size or data. -/
def storeByte (s : Parser) (rxbyte : Byte) : Parser :=
  let cmdsize := if s.ridx = 2 then rxbyte.toNat else s.cmdsize
  let rxbuf := if s.isPayload then s.rxbuf.set s.bidx rxbyte else s.rxbuf
  let bidx := if s.isPayload then s.bidx + 1 else s.bidx
  if bidx ≥ maxSize then
    { s with cmdsize := cmdsize, rxbuf := rxbuf, ending := false, ridx := 0, bidx := 0,
             pchar := ~~~escChar, schar := ~~~startMask, noc := 0 }
  else
    { s with cmdsize := cmdsize, rxbuf := rxbuf, bidx := bidx,
             csum := s.csum + rxbyte.zeroExtend 32, ridx := incr s.ridx, csize := cmdsize,
             noc := bidx, pchar := if rxbyte = escChar then ~~~escChar else s.pchar }

/-- `iuart_parse_raw_byte`. -/
def parseRawByte (s : Parser) (rxbyte : Byte) : Byte × Parser :=
  let s := { s with nesc := if rxbyte = escChar then (s.nesc + 1) % 256 else 0 }
  if rxdStart rxbyte s.pchar then
    (0, { s with ridx := 2, bidx := 0, ending := false, schar := rxbyte, pchar := rxbyte,
                 csum := escChar.zeroExtend 32 + rxbyte.zeroExtend 32 })
  else if rxdEnd rxbyte s.pchar then
    (0, { s with ridx := incr s.ridx, ending := true, csum := s.csum + rxbyte.zeroExtend 32,
                 pchar := rxbyte })
  else if s.ending then
    let s' := { s with ending := false, ridx := 0, pchar := ~~~escChar, schar := ~~~startMask,
                       csum := 0 }
    if rxbyte = s.csum.truncate 8 then (s.schar, { s' with noc := s.bidx })
    else (0, { s' with noc := 0 })
  else if s.nesc % 2 = 1 then
    (0, { s with pchar := rxbyte, csum := s.csum + rxbyte.zeroExtend 32, ridx := incr s.ridx })
  else (0, storeByte s rxbyte)

/-- A non-zero return, with the buffer and the counters at that moment. -/
structure Delivery where
  code : Byte
  data : List Byte
  noc : Nat
  csize : Nat
deriving DecidableEq, Repr

def step (s : Parser) (rxbyte : Byte) : Parser := (parseRawByte s rxbyte).2

def delivery (s : Parser) (rxbyte : Byte) : List Delivery :=
  let r := parseRawByte s rxbyte
  if r.1 ≠ 0 then [⟨r.1, r.2.rxbuf.read 0 r.2.noc, r.2.noc, r.2.csize⟩] else []

/-- What is delivered while the bytes of each message arrive, one list a message. -/
def perMessage : Parser → List (List Byte) → List (List Delivery)
  | _, [] => []
  | s, m :: ms =>
    Run.emits step delivery s (sendMessage m) ::
      perMessage (Run.run step s (sendMessage m)) ms

def delivered (m : List Byte) : Delivery := ⟨startInsn, m, m.length, m.length⟩

end Wrpc.Iuart
