/-
# The framed control link (`common-uart-link.c`)

A packet travels as

    0x55 0xaa  ptype  len_hi len_lo  payload …  crc_hi crc_lo

with a CRC-16/XMODEM over everything before the two CRC bytes.  `uartLinkSend`
lays the frame out in a buffer and pushes it through `send_byte`; `recvFsm` is
the receiver, one call per poll, eight states.

Left out: the `extra_verbose` traces and the time stamps `link->ts` and
`link->rx_last_tics`, which influence no state transition.
-/
import Wrpc.Lib.Crc
import Wrpc.Lib.Mem

namespace Wrpc.Ertm14

/-- `UART_LINK_MAX_PAYLOAD`. -/
def maxPayload : Nat := 512

def crcXmodemUpdate (crc : BitVec 16) (data : Byte) : BitVec 16 :=
  (Crc.lfsrStep 0x1021#16)^[8] (crc ^^^ (data.zeroExtend 16 <<< 8))

def crc16 (buf : List Byte) : BitVec 16 := buf.foldl crcXmodemUpdate 0

/-! ## Sending -/

/-- `struct uart_packet`; `length` is a `uint16_t`, `payload` an array of
`maxPayload` bytes. -/
structure UartPacket where
  ptype : Byte
  length : Nat
  payload : Mem

def UartPacket.data (pkt : UartPacket) : List Byte := pkt.payload.read 0 pkt.length

/-- The first `length + 5` bytes of `buf`: what the CRC covers. -/
def sendHead (pkt : UartPacket) : List Byte :=
  [0x55, 0xaa, pkt.ptype, BitVec.ofNat 8 (pkt.length >>> 8), BitVec.ofNat 8 pkt.length]
    ++ pkt.data

def crcBytes (crc : BitVec 16) : List Byte := [(crc >>> 8).setWidth 8, crc.setWidth 8]

/-- `buf[0 .. length + 7)`. -/
def sendBuf (pkt : UartPacket) : List Byte :=
  sendHead pkt ++ crcBytes (crc16 (sendHead pkt))

/-- The byte loop of `uart_link_send`: `res i` is what the `i`-th call of
`send_byte` returns, and the first negative result ends the loop. -/
def sendLoop (res : Nat → Int) : Nat → List Byte → List Byte × Int
  | _, [] => ([], 0)
  | i, b :: bs =>
    if res i < 0 then ([], res i)
    else (b :: (sendLoop res (i + 1) bs).1, (sendLoop res (i + 1) bs).2)

/-- The bytes accepted by the UART, and the value returned. -/
def uartLinkSend (res : Nat → Int) (pkt : UartPacket) : List Byte × Int :=
  sendLoop res 0 (sendBuf pkt)

/-! ## Receiving -/

inductive LinkState where
  | idle | sync | ptype | len0 | len1 | payload | crc0 | crc1
deriving DecidableEq, Repr

inductive RxFsm where
  | packetError | needData | gotPacket
deriving DecidableEq, Repr

/-- The receiver's part of `struct uart_link`. -/
structure UartLink where
  state : LinkState
  rxCount : Nat
  rxCrc : BitVec 16
  checkCrc : BitVec 16
  rxPacket : UartPacket

/-- `uart_link_reset`. -/
def uartLinkReset (link : UartLink) : UartLink := { link with state := .idle }

/-- The switch of `recv_fsm` on a byte that was received. -/
def recvByte (link : UartLink) (rxByte : Byte) : RxFsm × UartLink :=
  match link.state with
  | .idle =>
    if rxByte = 0x55 then
      (.needData, { link with state := .sync, checkCrc := crcXmodemUpdate 0 0x55 })
    else (.needData, link)
  | .sync =>
    if rxByte = 0xaa then
      (.needData, { link with
        state := .ptype, checkCrc := crcXmodemUpdate link.checkCrc 0xaa })
    else if rxByte = 0x55 then (.needData, { link with state := .sync })
    else (.needData, { link with state := .idle })
  | .ptype =>
    (.needData, { link with
      rxPacket := { link.rxPacket with ptype := rxByte }
      checkCrc := crcXmodemUpdate link.checkCrc rxByte
      state := .len0 })
  | .len0 =>
    (.needData, { link with
      rxPacket := { link.rxPacket with length := rxByte.toNat <<< 8 }
      checkCrc := crcXmodemUpdate link.checkCrc rxByte
      state := .len1 })
  | .len1 =>
    let length := link.rxPacket.length ||| rxByte.toNat
    (.needData, { link with
      rxPacket := { link.rxPacket with length := length }
      checkCrc := crcXmodemUpdate link.checkCrc rxByte
      rxCount := 0
      state := if length = 0 then .crc0 else .payload })
  | .payload =>
    -- the comparison precedes the increment: the last byte is number `length - 1`
    let state := if (link.rxCount : Int) = link.rxPacket.length - 1 then .crc0 else link.state
    let checkCrc := crcXmodemUpdate link.checkCrc rxByte
    if link.rxCount < maxPayload then
      (.needData, { link with
        state := state, checkCrc := checkCrc
        rxPacket := { link.rxPacket with
          payload := link.rxPacket.payload.set link.rxCount rxByte }
        rxCount := link.rxCount + 1 })
    else (.needData, { link with state := state, checkCrc := checkCrc })
  | .crc0 =>
    (.needData, { link with rxCrc := rxByte.zeroExtend 16 <<< 8, state := .crc1 })
  | .crc1 =>
    let rxCrc := link.rxCrc ||| rxByte.zeroExtend 16
    let link := { link with rxCrc := rxCrc, state := .idle }
    if link.rxCount ≠ link.rxPacket.length then (.packetError, link)
    else if link.rxCrc ≠ link.checkCrc then (.packetError, link)
    else (.gotPacket, link)

/-- `recv_fsm`; `none` is a `recv_byte` that had nothing to deliver. -/
def recvFsm (link : UartLink) : Option Byte → RxFsm × UartLink
  | none => (.needData, link)
  | some rxByte => recvByte link rxByte

/-! ## What a poller sees -/

/-- A packet as its receiver reads it through `*pkt`. -/
structure Received where
  ptype : Byte
  length : Nat
  data : List Byte
deriving DecidableEq, Repr

def UartPacket.received (pkt : UartPacket) : Received := ⟨pkt.ptype, pkt.length, pkt.data⟩

/-- The end of a packet: delivered, or reported as damaged. -/
inductive Outcome where
  | got (r : Received)
  | error
deriving DecidableEq, Repr

def outcome (ret : RxFsm) (link : UartLink) : List Outcome :=
  match ret with
  | .needData => []
  | .gotPacket => [.got link.rxPacket.received]
  | .packetError => [.error]

def outcomes : UartLink → List (Option Byte) → List Outcome
  | _, [] => []
  | link, b :: bs =>
    outcome (recvFsm link b).1 (recvFsm link b).2 ++ outcomes (recvFsm link b).2 bs

def feed : UartLink → List (Option Byte) → UartLink
  | link, [] => link
  | link, b :: bs => feed (recvFsm link b).2 bs

end Wrpc.Ertm14
