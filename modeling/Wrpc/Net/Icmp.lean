/-
# Answering echo requests (`icmp.c`, `ipv4.c`)

`process_icmp` turns an echo request into the reply where it stands, in the receive
buffer of `icmp_poll`.  A body of more than 64 bytes is cut.  The length is that of the
IP header; nothing compares it with the number of bytes received.

## What is proved

For a request of 28 to 88 bytes that has been received completely the reply is the
request with addresses exchanged, and its IP header verifies.  The ICMP checksum covers
whole words: behind a body of odd length it takes in one byte more, which
`process_icmp` does not clear.
-/
import Wrpc.Net.Ipv4
import Wrpc.Net.Sendto

namespace Wrpc.Net

open Mem

/-- `process_icmp`: the length of the reply, 0 for none, and the buffer. -/
def processIcmp (myIP : InAddr) (buf : Mem) : Int × Mem :=
  -- is it IP targetting us?
  if buf 0 ≠ 0x45 ∨ inAddrAt buf 16 ≠ myIP then (0, buf)
  else
    let iplen := wordAt buf 2
    -- an ICMP ECHO request?
    if buf 9 ≠ 0x01 ∨ buf 20 ≠ 0x08 then (0, buf)
    else
      let hisBodyLen : Int := iplen - 24
      let hisBodyLen := if hisBodyLen > 64 then 64 else hisBodyLen
      let hisIP := inAddrAt buf 12
      let buf := fillIp buf (hisBodyLen + 24).toNat 1 myIP hisIP
      let buf := buf.set 20 0
      let buf := buf.set 21 0
      let buf := buf.set 22 0
      let buf := buf.set 23 0
      let buf := storeChecksum buf 22 20 ((hisBodyLen + 4 + 1).tdiv 2).toNat
      let buf := storeChecksum buf 10 0 10
      (24 + hisBodyLen, buf)

/-- What `icmp_poll` does with a record; `stk` is the memory of its buffer before. -/
def icmpAnswer (ip : IpState) (stk : Mem) (f : Fetched) : Option Answer :=
  if min f.size 128 = 0 then none
  else if ip.status = .training then none
  else
    let buf := stk.write 0 f.data
    if checkDestIp ip.myIP buf = false then none
    else
      let r := processIcmp ip.myIP buf
      if r.1 > 0 then some ⟨f.hdr.srcmac, r.2, r.1.toNat⟩ else none

/-- `icmp_poll`: what it sends, and the sockets. -/
def icmpPoll (o : Order) (net : NetState) (sock : Nat) (ip : IpState) (stk : Mem) :
    Option Answer × NetState :=
  let r := net.recvfrom o sock 128
  (r.1.bind (icmpAnswer ip stk), r.2)

/-! ## The reply in the buffer -/

structure EchoRequest (myIP : InAddr) (buf : Mem) : Prop where
  version : buf 0 = 0x45
  dest : inAddrAt buf 16 = myIP
  protocol : buf 9 = 0x01
  type : buf 20 = 0x08

def replyLength (buf : Mem) : Nat := min (wordAt buf 2) 88

def echoReply (myIP : InAddr) (buf : Mem) : Mem :=
  ((((fillIp buf (replyLength buf) 1 myIP (inAddrAt buf 12)).set 20 0).set 21 0).set 22 0).set 23 0

variable {myIP : InAddr}

/-- **A request** is answered by the reply and its two checksums. -/
theorem processIcmp_request {buf : Mem} (h : EchoRequest myIP buf) :
    processIcmp myIP buf = ((replyLength buf : Int),
      storeChecksum (storeChecksum (echoReply myIP buf) 22 20 ((replyLength buf - 19) / 2))
        10 0 10) := by
  have hbody : (if (wordAt buf 2 : Int) - 24 > 64 then 64 else (wordAt buf 2 : Int) - 24) =
      (replyLength buf : Int) - 24 := by
    unfold replyLength
    split
    · omega
    · omega
  have hlen : ((replyLength buf : Int) - 24 + 24).toNat = replyLength buf := by omega
  have hshorts : (((replyLength buf : Int) - 24 + 4 + 1).tdiv 2).toNat =
      (replyLength buf - 19) / 2 := by
    generalize replyLength buf = n
    by_cases hn : 19 ≤ n
    · rw [Int.tdiv_eq_ediv_of_nonneg (by omega)]
      omega
    · have hneg : (n : Int) - 24 + 4 + 1 = -((19 - n : Nat) : Int) := by omega
      rw [hneg, Int.neg_tdiv, Int.tdiv_eq_ediv_of_nonneg (by omega)]
      omega
  have hret : 24 + ((replyLength buf : Int) - 24) = replyLength buf := by omega
  rw [processIcmp, if_neg (by rw [not_or, not_not, not_not]; exact ⟨h.version, h.dest⟩)]
  dsimp only
  rw [if_neg (by rw [not_or, not_not, not_not]; exact ⟨h.protocol, h.type⟩), hbody, hlen, hshorts,
    hret]
  rfl

theorem echoReply_other {buf : Mem} {i : Nat} (h : 24 ≤ i) :
    echoReply myIP buf i = buf i := by
  rw [echoReply, set_other (by omega), set_other (by omega), set_other (by omega),
    set_other (by omega), fillIp_other (by omega)]

def strayByte (buf : Mem) (len : Nat) : Nat := if len % 2 = 1 then (buf len).toNat else 0

/-- **The ICMP checksum** verifies exactly if no stray byte has gone into it. -/
theorem icmpChecksum_verifies_iff (m : Mem) {len : Nat} (hlo : 24 ≤ len) (hhi : len < 65536)
    (h₂₂ : m 22 = 0) (h₂₃ : m 23 = 0) :
    Verifies ((storeChecksum m 22 20 ((len - 19) / 2)).read 20 (len - 20)) ↔
      strayByte m len = 0 := by
  obtain ⟨k, rfl⟩ := Nat.exists_eq_add_of_le hlo
  have hshorts : (24 + k - 19) / 2 = (4 + k + 1) / 2 := by omega
  have hpacket : 24 + k - 20 = 4 + k := by omega
  have hzero : m.read 20 (4 + k) = [m 20, m 21] ++ m 22 :: m 23 :: m.read 24 k := by
    rw [read_append]
    rfl
  rw [h₂₂, h₂₃] at hzero
  have hlt := ipv4Checksum_lt m 20 ((4 + k + 1) / 2)
  rw [hshorts, hpacket]
  refine checksum_verifies_iff m 20 ((4 + k + 1) / 2) (words (m.read 20 (4 + k))).sum ?_ ?_ ?_
  · rw [sumShorts_read m 20 (by omega), strayByte]
    congr 1
    have hodd : (4 + k) % 2 = (24 + k) % 2 := by omega
    rw [hodd, ← Nat.add_assoc]
  · have hstored : (storeChecksum m 22 20 ((4 + k + 1) / 2)).read 20 (4 + k) = [m 20, m 21] ++
        hi8 (ipv4Checksum m 20 ((4 + k + 1) / 2)) :: lo8 (ipv4Checksum m 20 ((4 + k + 1) / 2)) ::
          m.read 24 k := by
      rw [read_append]
      have hrest : (storeChecksum m 22 20 ((4 + k + 1) / 2)).read (20 + 4) k = m.read 24 k :=
        read_congr fun i _ => storeChecksum_other (by omega) (by omega)
      rw [hrest]
      rfl
    rw [hstored, hzero, words_sum_field (by simp) hlt]
  · unfold strayByte
    split
    · omega
    · omega

/-! ## The reply that is sent -/

/-- What a reply to the request in `buf` has to be. -/
structure WellFormedReply (buf : Mem) (ans : Answer) : Prop where
  length : ans.dataLength = wordAt buf 2
  ipLength : wordAt ans.data 2 = wordAt buf 2
  ipChecksum : Verifies (ans.data.read 0 20)
  icmpChecksum : Verifies (ans.data.read 20 (ans.dataLength - 20))
  source : inAddrAt ans.data 12 = inAddrAt buf 16
  dest : inAddrAt ans.data 16 = inAddrAt buf 12
  type : ans.data 20 = 0 ∧ ans.data 21 = 0
  /-- identifier, sequence number and data -/
  body : ans.data.read 24 (ans.dataLength - 24) = buf.read 24 (wordAt buf 2 - 24)

theorem icmpAnswer_request {ip : IpState} {stk : Mem} {f : Fetched} (hlen : 0 < min f.size 128)
    (hip : ip.status ≠ .training) (hreq : EchoRequest ip.myIP (stk.write 0 f.data))
    (hpos : 0 < replyLength (stk.write 0 f.data)) :
    icmpAnswer ip stk f = some ⟨f.hdr.srcmac, (processIcmp ip.myIP (stk.write 0 f.data)).2,
      replyLength (stk.write 0 f.data)⟩ := by
  have hdest : checkDestIp ip.myIP (stk.write 0 f.data) = true := decide_eq_true hreq.dest
  have hret : (processIcmp ip.myIP (stk.write 0 f.data)).1 = replyLength (stk.write 0 f.data) := by
    rw [processIcmp_request hreq]
  unfold icmpAnswer
  dsimp only
  rw [if_neg (Nat.ne_of_gt hlen), if_neg hip, if_neg (by rw [hdest]; decide), hret,
    if_pos (by omega), Int.toNat_natCast]

theorem wellFormedReply_iff {buf : Mem} (hreq : EchoRequest myIP buf)
    (hlo : 28 ≤ wordAt buf 2) (hhi : wordAt buf 2 ≤ 88) (mac : BitVec 48) :
    WellFormedReply buf ⟨mac, (processIcmp myIP buf).2, replyLength buf⟩ ↔
      wordAt buf 2 % 2 = 0 ∨ buf (wordAt buf 2) = 0 := by
  have hlen : replyLength buf = wordAt buf 2 := Nat.min_eq_left hhi
  have hstray : strayByte (echoReply myIP buf) (wordAt buf 2) = 0 ↔
      wordAt buf 2 % 2 = 0 ∨ buf (wordAt buf 2) = 0 := by
    unfold strayByte
    rw [echoReply_other (by omega)]
    split
    · next hodd =>
      have heven : ¬wordAt buf 2 % 2 = 0 := by omega
      rw [or_iff_right heven]
      exact ⟨fun h => BitVec.eq_of_toNat_eq h, fun h => congrArg BitVec.toNat h⟩
    · next hodd => exact ⟨fun _ => .inl (by omega), fun _ => rfl⟩
  have hicmp := icmpChecksum_verifies_iff (echoReply myIP buf)
    (show 24 ≤ wordAt buf 2 by omega) (by omega) rfl rfl
  rw [processIcmp_request hreq, hlen]
  dsimp only
  -- the IP checksum is stored outside the ICMP message
  have hread : ∀ off n, 20 ≤ off →
      (storeChecksum (storeChecksum (echoReply myIP buf) 22 20 ((wordAt buf 2 - 19) / 2))
        10 0 10).read off n =
      (storeChecksum (echoReply myIP buf) 22 20 ((wordAt buf 2 - 19) / 2)).read off n :=
    fun off n hoff => read_congr fun i _ => storeChecksum_other (by omega) (by omega)
  constructor
  · intro h
    have hverify := h.icmpChecksum
    rw [hread 20 _ (Nat.le_refl 20)] at hverify
    exact hstray.mp (hicmp.mp hverify)
  · intro h
    refine ⟨rfl, ?_, storeChecksum_ip rfl rfl, ?_, ?_, rfl, ⟨rfl, rfl⟩, ?_⟩
    · have hstored := word_stored (show replyLength buf < 65536 by omega)
      rw [hlen] at hstored
      nth_rewrite 3 [← hstored]
      rw [← hlen]
      rfl
    · rw [hread 20 _ (Nat.le_refl 20)]
      exact hicmp.mpr (hstray.mpr h)
    · exact hreq.dest.symm
    · rw [hread 24 _ (by decide)]
      refine read_congr fun i _ => ?_
      rw [storeChecksum_other (by omega) (by omega), echoReply_other (by omega)]

/-- **The reply of `icmp_poll`** to a request that has been received completely is well
formed exactly if its length is even, or the byte behind it in the buffer is 0. -/
theorem icmpPoll_reply_iff {o : Order} {net : NetState} {sock : Nat} {ip : IpState} {stk : Mem}
    {f : Fetched} (hrecv : (net.recvfrom o sock 128).1 = some f) (hip : ip.status ≠ .training)
    (hreq : EchoRequest ip.myIP (stk.write 0 f.data)) (hlo : 28 ≤ wordAt (stk.write 0 f.data) 2)
    (hhi : wordAt (stk.write 0 f.data) 2 ≤ 88)
    (hall : wordAt (stk.write 0 f.data) 2 ≤ f.data.length) :
    (∃ ans, (icmpPoll o net sock ip stk).1 = some ans ∧
      WellFormedReply (stk.write 0 f.data) ans) ↔
    wordAt (stk.write 0 f.data) 2 % 2 = 0 ∨
      stk.write 0 f.data (wordAt (stk.write 0 f.data) 2) = 0 := by
  have hlen : f.data.length = min f.size 128 := Sockq.fetch_data_length (by decide) hrecv
  have hpos : 0 < replyLength (stk.write 0 f.data) := by
    unfold replyLength
    omega
  have hans := icmpAnswer_request (by omega) hip hreq hpos
  rw [icmpPoll, hrecv, Option.bind_some, hans,
    ← wellFormedReply_iff hreq hlo hhi f.hdr.srcmac]
  constructor
  · rintro ⟨ans, hsome, hwell⟩
    cases hsome
    exact hwell
  · intro hwell
    exact ⟨_, rfl, hwell⟩

/-- A request of `len` bytes from 10.0.0.1 to 10.0.0.2 in a frame of 46; its body and what
stands behind it are all `fill`. -/
def pingFrame (len fill : Byte) : RxFrame :=
  { minimalFrame with
    hdr := { dstmac := 0x080030000002, srcmac := 0x080030000001, ethtype := 0x0800 }
    buffer := fun i =>
      [0x45, 0, 0, len, 0, 0, 0, 0, 64, 1, 0, 0, 10, 0, 0, 1, 10, 0, 0, 2, 8, 0].getD i fill }

def pingNet (len fill : Byte) : NetState :=
  (((NetState.boot 0).createSocket 0 128 (some 0x0800) false 0 0).netifPoll .little 0
    (some (pingFrame len fill))).2

def pingIp : IpState := ⟨.okStatic, ⟨10, 0, 0, 2⟩⟩

/-- What `ptpd_netif_recvfrom` gives of it. -/
def pingFetched (len fill : Byte) : Fetched :=
  ⟨46, (pingFrame len fill).hwts, (pingFrame len fill).hdr, (pingFrame len fill).buffer.read 0 46⟩

def zeroStack : Mem := fun _ => 0

/-- A request of 28 bytes gets a well-formed reply. -/
theorem icmpPoll_reply_even :
    ∃ ans, (icmpPoll .little (pingNet 28 0xff) 0 pingIp zeroStack).1 = some ans ∧
      WellFormedReply (zeroStack.write 0 (pingFetched 28 0xff).data) ans := by
  have hrecv : ((pingNet 28 0xff).recvfrom .little 0 128).1 = some (pingFetched 28 0xff) := by
    decide +kernel
  have hreq : EchoRequest pingIp.myIP (zeroStack.write 0 (pingFetched 28 0xff).data) :=
    ⟨by decide, by decide, by decide, by decide⟩
  have hip : pingIp.status ≠ .training := by decide
  exact (icmpPoll_reply_iff hrecv hip hreq (by decide) (by decide) (by decide)).mpr
    (.inl (by decide))

/-- A request of 29 bytes, in a frame whose padding is not 0: the ICMP checksum of the
reply is wrong. -/
theorem icmpPoll_reply_odd :
    ((icmpPoll .little (pingNet 29 0xff) 0 pingIp zeroStack).1.map fun ans =>
      (ans.dataLength, decide (Verifies (ans.data.read 20 9)))) = some (29, false) := by
  decide +kernel

end Wrpc.Net
