/-
# Sockets and their receive queues (`net.c`)

A socket's queue is a ring of bytes with two 16-bit cursors.  `netif_poll`
copies each accepted frame in as one record, field after field,

    size (2)   hw_timestamp (24)   wr_ethhdr (14)   payload (size)

and `ptpd_netif_recvfrom` copies the oldest record out, field after field.
Sockets live at addresses; the table `socks` holds pointers to them.  The
16-bit cursors are numbers with the wrap written out.
-/
import Wrpc.Lib.Bytes
import Wrpc.Net.Linearize

namespace Wrpc.Net

open Bytes

/-- Assignment to a `uint16_t`. -/
def u16 (x : Nat) : Nat := x % 65536

/-- `struct wr_ethhdr`.  The type field is kept as the number it spells in
network order. -/
structure EthHdr where
  dstmac : BitVec 48
  srcmac : BitVec 48
  ethtype : BitVec 16
deriving DecidableEq, Repr

def EthHdr.image (h : EthHdr) : List Byte :=
  imageOf .big 6 h.dstmac.toNat ++ imageOf .big 6 h.srcmac.toNat ++
    imageOf .big 2 h.ethtype.toNat

def EthHdr.ofImage (bs : List Byte) : EthHdr where
  dstmac := BitVec.ofNat 48 (Bytes.ofImage .big (bs.take 6))
  srcmac := BitVec.ofNat 48 (Bytes.ofImage .big ((bs.drop 6).take 6))
  ethtype := BitVec.ofNat 16 (Bytes.ofImage .big (bs.drop 12))

/-- The image of a `struct hw_timestamp`; `pad` are the three bytes the
compiler leaves after `valid`. -/
def hwtsImage (o : Order) (t : HwTimestamp) (pad : BitVec 24) : List Byte :=
  imageOf o 1 t.valid.toNat ++ imageOf o 3 pad.toNat ++
    imageOf o 4 t.ahead.toNat ++ imageOf o 8 t.sec.toNat ++
    imageOf o 4 t.nsec.toNat ++ imageOf o 4 t.phase.toNat

def hwtsOfImage (o : Order) (bs : List Byte) : HwTimestamp where
  valid := BitVec.ofNat 8 (Bytes.ofImage o (bs.take 1))
  ahead := BitVec.ofNat 32 (Bytes.ofImage o ((bs.drop 4).take 4))
  sec := BitVec.ofNat 64 (Bytes.ofImage o ((bs.drop 8).take 8))
  nsec := BitVec.ofNat 32 (Bytes.ofImage o ((bs.drop 16).take 4))
  phase := BitVec.ofNat 32 (Bytes.ofImage o (bs.drop 20))

/-- `struct sockq`. -/
structure Sockq where
  head : Nat
  tail : Nat
  avail : Nat
  size : Nat
  n : Nat
  buff : Mem

namespace Sockq

/-- The copying loop of `wrap_copy_in`, `i` bytes. -/
def copyInLoop : Nat → Sockq → List Byte × Sockq
  | 0, q => ([], q)
  | i + 1, q =>
    let tail := u16 (q.tail + 1)
    let r := copyInLoop i { q with tail := if tail = q.size then 0 else tail }
    (q.buff q.tail :: r.1, r.2)

/-- `while (q->tail > q->size) q->tail -= q->size`.  Each turn takes at least
one off when the queue has a size, so `tail` turns are enough. -/
def skipLoop (size : Nat) : Nat → Nat → Nat
  | 0, tail => tail
  | fuel + 1, tail => if tail > size then skipLoop size fuel (tail - size) else tail

/-- `wrap_copy_in`: the bytes copied out, and the queue. -/
def wrapCopyIn (q : Sockq) (len buflen : Nat) : List Byte × Sockq :=
  let buflen := if buflen = 0 then len else buflen
  let r := copyInLoop (min len buflen) q
  if len > buflen then
    let tail := u16 (r.2.tail + (len - buflen))
    (r.1, { r.2 with tail := skipLoop r.2.size tail tail })
  else r

/-- `wrap_copy_out`. -/
def wrapCopyOut : Sockq → List Byte → Sockq
  | q, [] => q
  | q, b :: bs =>
    let head := u16 (q.head + 1)
    wrapCopyOut { q with buff := q.buff.set q.head b,
                         head := if head = q.size then 0 else head } bs

/-- `q->avail += wrap_copy_in(dst, q, len, buflen)`. -/
def takeOut (q : Sockq) (len buflen : Nat) : List Byte × Sockq :=
  let r := q.wrapCopyIn len buflen
  (r.1, { r.2 with avail := u16 (r.2.avail + len) })

/-- `q->avail -= wrap_copy_out(q, src, len)`. -/
def putIn (q : Sockq) (bs : List Byte) : Sockq :=
  let q' := q.wrapCopyOut bs
  { q' with avail := u16 (q'.avail + 65536 - u16 bs.length) }

end Sockq

/-- What `ptpd_netif_recvfrom` copies out of the queue. -/
structure Fetched where
  size : Nat
  hwts : HwTimestamp
  hdr : EthHdr
  data : List Byte
deriving DecidableEq, Repr

/-- The part of `ptpd_netif_recvfrom` that works on the queue. -/
def Sockq.fetch (o : Order) (q : Sockq) (dataLength : Nat) : Option Fetched × Sockq :=
  if q.n = 0 then (none, q)
  else
    let q := { q with n := u16 (q.n + 65535) }
    let size := q.takeOut 2 0
    let hwts := size.2.takeOut 24 0
    let hdr := hwts.2.takeOut 14 0
    let data := hdr.2.takeOut (Bytes.ofImage o size.1) dataLength
    (some { size := Bytes.ofImage o size.1
            hwts := hwtsOfImage o hwts.1
            hdr := EthHdr.ofImage hdr.1
            data := data.1 }, data.2)

theorem Sockq.copyInLoop_length : ∀ (i : Nat) (q : Sockq), (copyInLoop i q).1.length = i
  | 0, _ => rfl
  | i + 1, _ => congrArg Nat.succ (copyInLoop_length i _)

theorem Sockq.takeOut_length (q : Sockq) (len : Nat) {buflen : Nat} (hne : buflen ≠ 0) :
    (q.takeOut len buflen).1.length = min len buflen := by
  unfold Sockq.takeOut Sockq.wrapCopyIn
  dsimp only
  rw [if_neg hne]
  split
  · exact copyInLoop_length _ _
  · exact copyInLoop_length _ _

theorem Sockq.fetch_data_length {o : Order} {q : Sockq} {dataLength : Nat} {f : Fetched}
    (hne : dataLength ≠ 0) (h : (q.fetch o dataLength).1 = some f) :
    f.data.length = min f.size dataLength := by
  unfold Sockq.fetch at h
  split at h
  · cases h
  · rw [← Option.some.inj h]
    exact Sockq.takeOut_length _ _ hne

/-- Storing a frame: the last lines of `netif_poll`. -/
def Sockq.store (o : Order) (q : Sockq) (hwts : HwTimestamp) (pad : BitVec 24) (hdr : EthHdr)
    (payload : List Byte) : Sockq :=
  let q := q.putIn (imageOf o 2 (u16 payload.length))
  let q := q.putIn (hwtsImage o hwts pad)
  let q := q.putIn hdr.image
  let q := q.putIn (payload.take (u16 payload.length))
  { q with n := u16 (q.n + 1) }

/-- `struct wrpc_socket`; of the bind address, the fields frames are matched
against. -/
structure Socket where
  ethertype : BitVec 16
  udpport : BitVec 16
  nif : Nat
  queue : Sockq

/-- The file's state: the static table `socks`, the sockets, and
`wrc_vlan_number`. -/
structure NetState where
  socks : List (Option Nat)
  sock : Nat → Socket
  vlan : Nat

namespace NetState

/-- The socket at `addr` gets a new queue. -/
def setQueue (s : NetState) (addr : Nat) (q : Sockq) : NetState :=
  { s with sock := Function.update s.sock addr { s.sock addr with queue := q } }

def claimSlot (addr : Nat) : List (Option Nat) → Option (List (Option Nat))
  | [] => none
  | none :: rest => some (some addr :: rest)
  | some a :: rest => (claimSlot addr rest).map (some a :: ·)

/-- `ptpd_netif_create_socket`; `bindType` is the bind address's type field
when there is an address, `udp` whether the socket is `PTPD_SOCK_UDP`. -/
def createSocket (s : NetState) (addr len : Nat) (bindType : Option (BitVec 16)) (udp : Bool)
    (udpport : BitVec 16) (nif : Nat) : NetState :=
  match claimSlot addr s.socks with
  | none => s
  | some socks =>
    { s with
      socks := socks
      sock := Function.update s.sock addr
        { ethertype := if udp then 0x0800 else bindType.getD 0
          udpport := if udp then udpport else 0
          nif := nif
          queue := { head := 0, tail := 0, avail := u16 len, size := u16 len, n := 0,
                     buff := (s.sock addr).queue.buff } } }

/-- `ptpd_netif_close_socket`. -/
def closeSocket (s : NetState) (addr : Nat) : NetState :=
  { s with socks := s.socks.map fun p => if p = some addr then none else p }

end NetState

/-! ## Receiving a frame -/

/-- What `minic_rx_frame` leaves for `netif_poll` when there is a frame.  A
frame on the wire has at least 46 bytes after its header. -/
structure RxFrame where
  hdr : EthHdr
  buffer : Mem
  recvd : Nat
  hrecvd : 46 ≤ recvd
  hwts : HwTimestamp
  pad : BitVec 24

def minimalFrame : RxFrame where
  hdr := { dstmac := 0x011b19000000, srcmac := 0x080030aabbcc, ethtype := 0x88f7 }
  buffer := fun i => BitVec.ofNat 8 i
  recvd := 46
  hrecvd := Nat.le_refl 46
  hwts := { valid := 1, ahead := 0, sec := 1, nsec := 8, phase := 0 }
  pad := 0

structure Untagged where
  tag : BitVec 16
  hdr : EthHdr
  payload : Mem
  recvd : Nat

def RxFrame.untag (rx : RxFrame) : Untagged :=
  if rx.hdr.ethtype = 0x8100 then
    { tag := rx.buffer 0 ++ rx.buffer 1
      hdr := { rx.hdr with ethtype := rx.buffer 2 ++ rx.buffer 3 }
      payload := fun i => rx.buffer (i + 4)
      recvd := rx.recvd - 4 }
  else { tag := 0, hdr := rx.hdr, payload := rx.buffer, recvd := rx.recvd }

/-- The UDP port of an IPv4 packet without options, 0 for anything else. -/
def Untagged.port (u : Untagged) : BitVec 16 :=
  if u.payload 0 = 0x45 ∧ u.payload 9 = 17 then u.payload 22 ++ u.payload 23 else 0

namespace NetState

/-- The loop over `socks`: the last raw and the last UDP socket that match. -/
def matchSocks (s : NetState) (nif : Nat) (ethtype port : BitVec 16) :
    List (Option Nat) → Option Nat × Option Nat → Option Nat × Option Nat
  | [], found => found
  | none :: rest, found => matchSocks s nif ethtype port rest found
  | some a :: rest, (raws, udps) =>
    if (s.sock a).nif ≠ nif then matchSocks s nif ethtype port rest (raws, udps)
    else if ethtype ≠ (s.sock a).ethertype then matchSocks s nif ethtype port rest (raws, udps)
    else
      matchSocks s nif ethtype port rest
        (if port = 0 ∧ (s.sock a).udpport = 0 then some a else raws,
          if port ≠ 0 ∧ (s.sock a).udpport = port then some a else udps)

def demux (s : NetState) (nif : Nat) (u : Untagged) : Option Nat :=
  let found := matchSocks s nif u.hdr.ethtype u.port s.socks (none, none)
  found.2.orElse fun _ => found.1

/-- `netif_poll`, given what `minic_rx_frame` returned. -/
def netifPoll (o : Order) (s : NetState) (nif : Nat) : Option RxFrame → Nat × NetState
  | none => (0, s)
  | some rx =>
    let u := rx.untag
    if u.tag.toNat % 4096 ≠ s.vlan then (0, s)
    else
      match s.demux nif u with
      | none => (1, s)
      | some a =>
        let q := (s.sock a).queue
        let qRequired := 14 + u.recvd + 24 + 2
        if q.avail < qRequired then (1, s)
        else (1, s.setQueue a (q.store o rx.hwts rx.pad u.hdr (u.payload.read 0 u.recvd)))

/-- The effect of `ptpd_netif_recvfrom` on the sockets, and what it copied out. -/
def recvfrom (o : Order) (s : NetState) (addr dataLength : Nat) : Option Fetched × NetState :=
  let r := (s.sock addr).queue.fetch o dataLength
  (r.1, s.setQueue addr r.2)

end NetState

/-- A call into `net.c`. -/
inductive NetEvent where
  | create (addr len : Nat) (bindType : Option (BitVec 16)) (udp : Bool) (udpport : BitVec 16)
      (nif : Nat)
  | close (addr : Nat)
  | poll (nif : Nat) (rx : Option RxFrame)
  | recv (addr dataLength : Nat)

def NetState.step (o : Order) (s : NetState) : NetEvent → NetState
  | .create addr len bindType udp udpport nif => s.createSocket addr len bindType udp udpport nif
  | .close addr => s.closeSocket addr
  | .poll nif rx => (s.netifPoll o nif rx).2
  | .recv addr dataLength => (s.recvfrom o addr dataLength).2

/-- Boot: the table is empty and the statically allocated sockets are zero. -/
def NetState.boot (vlan : Nat) : NetState where
  socks := List.replicate 12 none
  sock := fun _ =>
    { ethertype := 0, udpport := 0, nif := 0,
      queue := { head := 0, tail := 0, avail := 0, size := 0, n := 0, buff := fun _ => 0 } }
  vlan := vlan

end Wrpc.Net
