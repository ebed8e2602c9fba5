/-
# Building UDP packets (`udp.c`)

`fill_udp` completes the headers of a packet whose payload is in place.  It first
builds the pseudo header of UDP in the last 12 bytes of the space of the IP header,
right in front of the UDP header, so that one call of `ipv4_checksum` covers both, and
then overwrites it with the IP header:

    0         8          12         16      17        18        20       28
    |         | saddr    | daddr    | 0     | 0x11    | length  | UDP    | payload
    | IP                 | saddr    | daddr                     | UDP    | payload

An odd payload is filled up with a 0 for that call; the byte that stood there is put
back.
-/
import Wrpc.Net.Ipv4

namespace Wrpc.Net

open Mem

/-- `struct wr_udp_addr`, all fields in network order. -/
structure UdpAddr where
  saddr : InAddr
  daddr : InAddr
  sport : Byte × Byte
  dport : Byte × Byte
deriving DecidableEq

/-- The address of a reply: source and destination of the packet, exchanged. -/
def replyAddr (buf : Mem) : UdpAddr where
  daddr := inAddrAt buf 12
  saddr := inAddrAt buf 16
  dport := (buf 20, buf 21)
  sport := (buf 22, buf 23)

/-- The first part: the pseudo header and the UDP header, with a checksum of 0. -/
def fillUdpHeader (buf : Mem) (len : Nat) (uaddr : UdpAddr) : Mem :=
  let buf := buf.write 8 uaddr.saddr.bytes
  let buf := buf.write 12 uaddr.daddr.bytes
  let buf := buf.set 16 0
  let buf := buf.set 17 0x11
  let buf := buf.set 18 (hi8 (len - 20))
  let buf := buf.set 19 (lo8 (len - 20))
  let buf := buf.write 20 [uaddr.sport.1, uaddr.sport.2]
  let buf := buf.write 22 [uaddr.dport.1, uaddr.dport.2]
  let buf := buf.set 24 (hi8 (len - 20))
  let buf := buf.set 25 (lo8 (len - 20))
  let buf := buf.set 26 0
  buf.set 27 0

/-- The checksum over the pseudo header and the packet, and the buffer it leaves. -/
def fillUdpChecksum (buf : Mem) (len : Nat) : Nat × Mem :=
  -- pad, in case the payload is odd, but we can avoid the if
  let oddb := buf len
  let buf := buf.set len 0
  let sum := ipv4Checksum buf 8 ((len + 1 - 8) / 2)
  let buf := buf.set len oddb
  let sum := if sum = 0 then 0xffff else sum
  (sum, buf)

def fillIpHeader (buf : Mem) (len : Nat) (uaddr : UdpAddr) : Mem :=
  let buf := fillIp buf len 17 uaddr.saddr uaddr.daddr
  storeChecksum buf 10 0 10

/-- `fill_udp`; without `uaddr` the packet is a reply. -/
def fillUdp (buf : Mem) (len : Nat) (uaddr : Option UdpAddr) : Mem :=
  let uaddr := uaddr.getD (replyAddr buf)
  let buf := fillUdpHeader buf len uaddr
  let r := fillUdpChecksum buf len
  let buf := r.2.set 26 (hi8 r.1)
  let buf := buf.set 27 (lo8 r.1)
  fillIpHeader buf len uaddr

/-! ## What they leave in the buffer -/

section Buffer

variable (m : Mem) (len : Nat) (a : UdpAddr)

def udpHeaderBytes (c : Nat) : List Byte :=
  [a.sport.1, a.sport.2, a.dport.1, a.dport.2, hi8 (len - 20), lo8 (len - 20), hi8 c, lo8 c]

def pseudoHeader : List Byte :=
  a.saddr.bytes ++ a.daddr.bytes ++ [0, 0x11, hi8 (len - 20), lo8 (len - 20)]

theorem fillUdpHeader_read :
    (fillUdpHeader m len a).read 8 20 = pseudoHeader len a ++ udpHeaderBytes len a 0 := rfl

theorem fillUdpHeader_other {i : Nat} (h : 28 ≤ i) : fillUdpHeader m len a i = m i := by
  simp (disch := first | omega | (right; simp only [List.length_cons, List.length_nil]; omega))
    only [fillUdpHeader, InAddr.bytes, set_other, write_other]

theorem fillIpHeader_other {i : Nat} (h : 20 ≤ i) : fillIpHeader m len a i = m i := by
  rw [fillIpHeader, storeChecksum_other (by omega) (by omega), fillIp_other h]

theorem fillUdpChecksum_read (hlen : 28 ≤ len) :
    ((fillUdpHeader m len a).set len 0).read 8 (len - 8) =
      pseudoHeader len a ++ udpHeaderBytes len a 0 ++ m.read 28 (len - 28) := by
  have hsplit : len - 8 = 20 + (len - 28) := by omega
  rw [Mem.read_set_other (.inr (by omega)), hsplit, read_append, fillUdpHeader_read]
  congr 1
  exact read_congr fun i _ => fillUdpHeader_other m len a (by omega)

theorem fillUdpChecksum_sum (hlen : 28 ≤ len) (hmax : len ≤ 1500) :
    sumShorts ((fillUdpHeader m len a).set len 0) 8 ((len + 1 - 8) / 2) =
      (words (pseudoHeader len a ++ udpHeaderBytes len a 0 ++ m.read 28 (len - 28))).sum := by
  have hshorts : (len + 1 - 8) / 2 = (len - 8 + 1) / 2 := by omega
  have hpad : ((fillUdpHeader m len a).set len 0) (8 + (len - 8)) = 0 := by
    rw [Nat.add_sub_cancel' (by omega), set_same]
  rw [← fillUdpChecksum_read m len a hlen, hshorts, sumShorts_read _ _ (by omega), hpad]
  exact congrArg (_ + ·) (ite_self 0)

end Buffer

/-- **The buffer after `fill_udp`**: the two headers and nothing else, with the UDP
checksum in place. -/
theorem fillUdp_eq (m : Mem) (len : Nat) (uaddr : Option UdpAddr) :
    ∃ (a : UdpAddr) (c : Nat), a = uaddr.getD (replyAddr m) ∧
      c = (fillUdpChecksum (fillUdpHeader m len a) len).1 ∧
      fillUdp m len uaddr =
        fillIpHeader (((fillUdpHeader m len a).set 26 (hi8 c)).set 27 (lo8 c)) len a := by
  refine ⟨_, _, rfl, rfl, ?_⟩
  unfold fillUdp
  dsimp only
  rw [show (fillUdpChecksum (fillUdpHeader m len (uaddr.getD (replyAddr m))) len).2 =
    fillUdpHeader m len (uaddr.getD (replyAddr m)) from set_restore _ _ _]

theorem fillUdpChecksum_fst (m : Mem) (len : Nat) :
    0 < (fillUdpChecksum m len).1 ∧ (fillUdpChecksum m len).1 < 65536 ∧
      ((fillUdpChecksum m len).1 = ipv4Checksum (m.set len 0) 8 ((len + 1 - 8) / 2) ∨
        ipv4Checksum (m.set len 0) 8 ((len + 1 - 8) / 2) = 0 ∧
          (fillUdpChecksum m len).1 = 0xffff) := by
  have hlt := ipv4Checksum_lt (m.set len 0) 8 ((len + 1 - 8) / 2)
  unfold fillUdpChecksum
  dsimp only
  split
  · next hzero => exact ⟨by decide, by decide, .inr ⟨hzero, rfl⟩⟩
  · next hne => exact ⟨Nat.pos_of_ne_zero hne, hlt, .inl rfl⟩

def packetAddr (m : Mem) : UdpAddr :=
  ⟨inAddrAt m 12, inAddrAt m 16, (m 20, m 21), (m 22, m 23)⟩

def UdpAddr.swap (a : UdpAddr) : UdpAddr := ⟨a.daddr, a.saddr, a.dport, a.sport⟩

theorem fillUdp_other (m : Mem) (len : Nat) (uaddr : Option UdpAddr) {i : Nat} (hi : 28 ≤ i) :
    fillUdp m len uaddr i = m i := by
  obtain ⟨a, c, -, -, heq⟩ := fillUdp_eq m len uaddr
  rw [heq, fillIpHeader_other _ _ _ (by omega), set_other (by omega), set_other (by omega),
    fillUdpHeader_other _ _ _ hi]

theorem packetAddr_fillUdp (m : Mem) (len : Nat) (uaddr : Option UdpAddr) :
    packetAddr (fillUdp m len uaddr) = uaddr.getD (packetAddr m).swap := by
  obtain ⟨a, c, ha, -, heq⟩ := fillUdp_eq m len uaddr
  have hreply : replyAddr m = (packetAddr m).swap := rfl
  rw [heq, ← hreply, ← ha]
  rfl

/-- What a receiver checks: the pseudo header it builds from the IP header and the length
field of UDP, and the UDP packet. -/
def udpCheckBytes (m : Mem) (len : Nat) : List Byte :=
  m.read 12 4 ++ m.read 16 4 ++ [0, 0x11] ++ m.read 24 2 ++ m.read 20 (len - 20)

/-- **UDP packets are built right**, for every payload: both checksums verify, a UDP
checksum is never sent as 0, the length fields are the length, the addresses and ports
are the given ones or those of the packet exchanged, and no byte behind the headers
changes. -/
theorem fillUdp_valid (m : Mem) (len : Nat) (uaddr : Option UdpAddr) (hlen : 28 ≤ len)
    (hmax : len ≤ 1500) :
    Verifies ((fillUdp m len uaddr).read 0 20) ∧
    Verifies (udpCheckBytes (fillUdp m len uaddr) len) ∧ wordAt (fillUdp m len uaddr) 26 ≠ 0 ∧
    wordAt (fillUdp m len uaddr) 2 = len ∧ wordAt (fillUdp m len uaddr) 24 = len - 20 ∧
    packetAddr (fillUdp m len uaddr) = uaddr.getD (packetAddr m).swap ∧
    ∀ i, 28 ≤ i → fillUdp m len uaddr i = m i := by
  obtain ⟨a, c, -, hc, heq⟩ := fillUdp_eq m len uaddr
  obtain ⟨hpos, hlt, hsum⟩ := fillUdpChecksum_fst (fillUdpHeader m len a) len
  rw [← hc] at hpos hlt hsum
  have hword : ∀ {n}, n < 65536 → 256 * (hi8 n).toNat + (lo8 n).toNat = n := word_stored
  have hrest : ∀ i, 28 ≤ i → fillUdp m len uaddr i = m i := fun i hi => fillUdp_other m len uaddr hi
  -- the packet a receiver checks is the one the checksum was computed over
  have hcheck : udpCheckBytes (fillUdp m len uaddr) len =
      pseudoHeader len a ++ udpHeaderBytes len a c ++ m.read 28 (len - 28) := by
    have hsplit : len - 20 = 8 + (len - 28) := by omega
    have hpay : (fillUdp m len uaddr).read 28 (len - 28) = m.read 28 (len - 28) :=
      read_congr fun i _ => hrest _ (by omega)
    rw [udpCheckBytes, hsplit, read_append, hpay, heq]
    rfl
  refine ⟨by rw [heq]; exact storeChecksum_ip rfl rfl, ?_, ?_, ?_, ?_,
    packetAddr_fillUdp m len uaddr, hrest⟩
  · rw [hcheck]
    refine checksum_verifies ((fillUdpHeader m len a).set len 0) 8 ((len + 1 - 8) / 2) ?_ hsum
    rw [fillUdpChecksum_sum m len a hlen hmax]
    have hfront : (pseudoHeader len a ++ [a.sport.1, a.sport.2, a.dport.1, a.dport.2,
        hi8 (len - 20), lo8 (len - 20)]).length % 2 = 0 := by simp [pseudoHeader, InAddr.bytes]
    exact words_sum_field hfront hlt (m.read 28 (len - 28))
  · rw [heq]
    change 256 * (hi8 c).toNat + (lo8 c).toNat ≠ 0
    rw [hword hlt]
    exact hpos.ne'
  · exact hword (by omega)
  · rw [heq]
    exact hword (by omega)

theorem fillUdp_valid_odd :
    Verifies (udpCheckBytes (fillUdp (fun i => BitVec.ofNat 8 i) 29 none) 29) ∧
      fillUdp (fun i => BitVec.ofNat 8 i) 29 none 29 = 29 := by
  have h := fillUdp_valid (fun i => BitVec.ofNat 8 i) 29 none (by decide) (by decide)
  exact ⟨h.2.1, h.2.2.2.2.2.2 29 (by decide)⟩

end Wrpc.Net
