/-
# What the replies of `icmp_poll` and `rdate_poll` depend on

Both functions receive into a buffer on the stack, build the reply in it and send it.
The buffer, and the memory behind it, is an argument here: two calls that receive the
same record may find different contents in it.

`icmp_poll` takes the length of the reply from the IP header and not from what it
received, and `minic_tx_frame` fills a short frame up with what stands behind it in
memory.  The reply of `rdate_poll` is always filled up: 32 bytes are received and
answered, and at least 42 are sent, 10 of them from behind the buffer.
-/
import Wrpc.Net.Icmp
import Wrpc.Net.Udp

namespace Wrpc.Net

open Mem Option Nat

variable {stk : Mem} {ip : IpState} {f : Fetched}

/-- What `rdate_poll` does with a record; `secs` is the time, and `stk` the memory of its
buffer before. -/
def rdateAnswer (ip : IpState) (secs : BitVec 64) (stk : Mem) (f : Fetched) : Option Answer :=
  if min f.size 32 = 0 then none
  else
    let buf := stk.write 0 f.data
    if checkDestIp ip.myIP buf = false then none
    else
      -- the magic number is 1900 to 1970 in seconds
      let result : BitVec 32 := (secs + 2208988800).setWidth 32
      let buf := buf.write 28 (Bytes.imageOf .big 4 result.toNat)
      some ⟨f.hdr.srcmac, fillUdp buf 32 none, 32⟩

/-- `rdate_poll`: what it sends, and the sockets. -/
def rdatePoll (o : Order) (net : NetState) (sock : Nat) (ip : IpState) (secs : BitVec 64)
    (stk : Mem) : Option Answer × NetState :=
  let r := net.recvfrom o sock 32
  (r.1.bind (rdateAnswer ip secs stk), r.2)

/-! ## What `process_icmp` depends on -/

section Agree

variable {n : Nat} {m m' : Mem}

theorem sumShorts_congr (h : Mem.Agree n m m') {off : Nat} : ∀ {shorts : Nat},
    off + 2 * shorts ≤ n → sumShorts m off shorts = sumShorts m' off shorts
  | 0, _ => rfl
  | i + 1, hle => by
    rw [sumShorts, sumShorts, sumShorts_congr h (by omega), wordAt, wordAt, h _ (by omega),
      h _ (by omega)]

theorem agree_storeChecksum (h : Mem.Agree n m m') (field : Nat) {off shorts : Nat}
    (hle : off + 2 * shorts ≤ n) :
    Mem.Agree n (storeChecksum m field off shorts) (storeChecksum m' field off shorts) := by
  unfold storeChecksum ipv4Checksum
  rw [sumShorts_congr h hle]
  exact (h.set _ _).set _ _

theorem agree_fillIp (h : Mem.Agree n m m') (len : Nat) (proto : Byte) (saddr daddr : InAddr) :
    Mem.Agree n (fillIp m len proto saddr daddr) (fillIp m' len proto saddr daddr) := by
  refine Mem.Agree.write (Mem.Agree.write ?_ _ _) _ _
  iterate 12 refine Mem.Agree.set ?_ _ _
  exact h

theorem inAddrAt_congr (h : Mem.Agree n m m') {off : Nat} (hle : off + 4 ≤ n) :
    inAddrAt m off = inAddrAt m' off := by
  rw [inAddrAt, inAddrAt, h _ (by omega), h _ (by omega), h _ (by omega), h _ (by omega)]

theorem EchoRequest.congr {myIP : InAddr} (h : Mem.Agree n m m') (hn : 21 ≤ n)
    (hreq : EchoRequest myIP m) : EchoRequest myIP m' where
  version := h 0 (by omega) ▸ hreq.version
  dest := inAddrAt_congr h (show 16 + 4 ≤ n by omega) ▸ hreq.dest
  protocol := h 9 (by omega) ▸ hreq.protocol
  type := h 20 (by omega) ▸ hreq.type

theorem replyLength_congr (h : Mem.Agree n m m') (hn : 4 ≤ n) : replyLength m = replyLength m' := by
  rw [replyLength, replyLength, wordAt, wordAt, h 2 (by omega), h 3 (by omega)]

/-- **The reply depends on the bytes of the request**, and on one more if their number is
odd. -/
theorem agree_processIcmp {myIP : InAddr} (h : Mem.Agree n m m') (hreq : EchoRequest myIP m)
    (hn : 24 ≤ n) (hlen : replyLength m + replyLength m % 2 ≤ n) :
    Mem.Agree n (processIcmp myIP m).2 (processIcmp myIP m').2 := by
  rw [processIcmp_request hreq, processIcmp_request (hreq.congr h (by omega)),
    ← replyLength_congr h (by omega)]
  refine agree_storeChecksum (agree_storeChecksum ?_ 22 (by omega)) 10 (by omega)
  unfold echoReply
  rw [← replyLength_congr h (by omega), ← inAddrAt_congr h (show 12 + 4 ≤ n by omega)]
  exact ((((agree_fillIp h _ _ _ _).set _ _).set _ _).set _ _).set _ _

end Agree

/-! ## When they answer -/

/-- `icmp_poll` answers. -/
structure IcmpAnswers (ip : IpState) (stk : Mem) (f : Fetched) : Prop where
  received : 0 < min f.size 128
  status : ip.status ≠ .training
  request : EchoRequest ip.myIP (stk.write 0 f.data)
  length : 0 < replyLength (stk.write 0 f.data)

theorem icmpAnswer_of_answers (h : IcmpAnswers ip stk f) :
    icmpAnswer ip stk f = some ⟨f.hdr.srcmac, (processIcmp ip.myIP (stk.write 0 f.data)).2,
      replyLength (stk.write 0 f.data)⟩ :=
  icmpAnswer_request h.received h.status h.request h.length

theorem icmpAnswer_of_not (h : ¬IcmpAnswers ip stk f) : icmpAnswer ip stk f = none := by
  unfold icmpAnswer
  split
  · rfl
  · next hrecv =>
    split
    · rfl
    · next hstatus =>
      dsimp only
      split
      · rfl
      · by_cases hreq : EchoRequest ip.myIP (stk.write 0 f.data)
        · rw [processIcmp_request hreq]
          refine if_neg fun hpos => h ⟨Nat.pos_of_ne_zero hrecv, hstatus, hreq, ?_⟩
          exact Int.natCast_pos.mp hpos
        · -- one of the four tests of `process_icmp` fails
          have hzero : (processIcmp ip.myIP (stk.write 0 f.data)).1 = 0 := by
            unfold processIcmp
            split
            · rfl
            · next hfirst =>
              rw [not_or, not_not, not_not] at hfirst
              split
              · rfl
              · next hsecond =>
                rw [not_or, not_not, not_not] at hsecond
                exact absurd ⟨hfirst.1, hfirst.2, hsecond.1, hsecond.2⟩ hreq
          rw [hzero]
          exact if_neg (by decide)

/-- `rdate_poll` answers. -/
structure RdateAnswers (ip : IpState) (stk : Mem) (f : Fetched) : Prop where
  received : 0 < min f.size 32
  dest : inAddrAt (stk.write 0 f.data) 16 = ip.myIP

theorem rdateAnswer_of_answers (secs : BitVec 64) (h : RdateAnswers ip stk f) :
    ∃ a, rdateAnswer ip secs stk f = some a ∧ a.mac = f.hdr.srcmac ∧ a.dataLength = 32 ∧
      ∀ i, 32 ≤ i → a.data i = stk.write 0 f.data i := by
  have hdest : checkDestIp ip.myIP (stk.write 0 f.data) = true := decide_eq_true h.dest
  unfold rdateAnswer
  rw [if_neg (ne_of_gt h.received), if_neg (by rw [hdest]; decide)]
  refine ⟨_, rfl, rfl, rfl, fun i hi => ?_⟩
  dsimp only
  rw [fillUdp_other _ _ _ (by omega), write_other (.inr (by rw [Bytes.imageOf_length]; omega))]

theorem rdateAnswer_of_not {secs : BitVec 64}
    (h : ¬RdateAnswers ip stk f) : rdateAnswer ip secs stk f = none := by
  unfold rdateAnswer
  split
  · rfl
  · next hrecv =>
    refine if_pos (decide_eq_false fun hdest => h ⟨Nat.pos_of_ne_zero hrecv, ?_⟩)
    exact hdest

/-! ## What they send -/

def Fetched.mem (f : Fetched) : Mem := fun i => f.data.getD i 0

theorem Fetched.agree_mem (f : Fetched) (stk : Mem) :
    Mem.Agree f.data.length (stk.write 0 f.data) f.mem := by
  intro i hi
  rw [← zero_add i, write_at hi, zero_add]
  rfl

theorem txSize_bounds (env : SendEnv) {n : Nat} (hn : n ≤ 88) :
    42 ≤ txSize env.headerSize n ∧ n ≤ txSize env.headerSize n := by
  unfold txSize SendEnv.headerSize
  split
  · split
    · omega
    · omega
  · split
    · omega
    · omega

theorem replyLength_le (m : Mem) : replyLength m ≤ 88 := min_le_right _ _

section Icmp

variable {myIP : InAddr} {buf : Mem}

theorem processIcmp_other (hreq : EchoRequest myIP buf) {i : Nat} (hi : 24 ≤ i) :
    (processIcmp myIP buf).2 i = buf i := by
  rw [processIcmp_request hreq]
  dsimp only
  rw [storeChecksum_other (by omega) (by omega), storeChecksum_other (by omega) (by omega),
    echoReply_other hi]

theorem processIcmp_checksum (hreq : EchoRequest myIP buf) : wordAt (processIcmp myIP buf).2 22 =
      ipv4Checksum (echoReply myIP buf) 20 ((replyLength buf - 19) / 2) := by
  rw [processIcmp_request hreq, ← wordAt_storeChecksum (echoReply myIP buf) 22]
  -- the checksum of the IP header goes to another place
  have hother : ∀ (m : Mem) i, 22 ≤ i → storeChecksum m 10 0 10 i = m i :=
    fun m i hi => storeChecksum_other (by omega) (by omega)
  dsimp only
  rw [wordAt, wordAt, hother _ 22 (by decide), hother _ (22 + 1) (by decide)]

/-- **The byte behind an odd packet shows in its checksum.** -/
theorem stray_of_checksum (hreq : EchoRequest myIP buf) {b : Byte}
    (hlo : 24 ≤ replyLength buf) (hodd : replyLength buf % 2 = 1)
    (h : wordAt (processIcmp myIP buf).2 22 =
      wordAt (processIcmp myIP (buf.set (replyLength buf) b)).2 22) :
    buf (replyLength buf) = b := by
  generalize hn : replyLength buf = n at *
  have hmax : n ≤ 88 := hn ▸ replyLength_le buf
  have hagree : Mem.Agree n buf (buf.set n b) := fun i hi => (set_other (by omega)).symm
  have hreq' := hreq.congr hagree (by omega)
  have hn' : replyLength (buf.set n b) = n := by rw [← replyLength_congr hagree (by omega), hn]
  rw [processIcmp_checksum hreq, processIcmp_checksum hreq', hn, hn'] at h
  have hmod := ipv4Checksum_modEq h
  -- both sums run over the packet and the byte behind it
  have hshorts : (n - 19) / 2 = (n - 20 + 1) / 2 := by omega
  have hodd' : (n - 20) % 2 = 1 := by omega
  have hend : 20 + (n - 20) = n := by omega
  have hsame : (echoReply myIP buf).read 20 (n - 20) =
      (echoReply myIP (buf.set n b)).read 20 (n - 20) := by
    have hreply : Mem.Agree n (echoReply myIP buf) (echoReply myIP (buf.set n b)) := by
      unfold echoReply
      rw [hn, hn', ← inAddrAt_congr hagree (show 12 + 4 ≤ n by omega)]
      exact ((((agree_fillIp hagree _ _ _ _).set _ _).set _ _).set _ _).set _ _
    exact read_congr fun i _ => hreply _ (by omega)
  rw [hshorts, sumShorts_read _ _ (by omega), sumShorts_read _ _ (by omega), if_pos hodd',
    if_pos hodd', hend, hsame, echoReply_other (by omega), echoReply_other (by omega),
    set_same] at hmod
  have hbytes : (buf n).toNat ≡ b.toNat [MOD 65535] := Nat.ModEq.add_left_cancel' _ hmod
  apply BitVec.eq_of_toNat_eq
  rwa [Nat.ModEq, mod_eq_of_lt (by omega), mod_eq_of_lt (by omega)] at hbytes

end Icmp

structure Covered (env : SendEnv) (f : Fetched) : Prop where
  sent : txSize env.headerSize (replyLength f.mem) ≤ f.data.length
  stray : replyLength f.mem % 2 = 1 → replyLength f.mem < f.data.length

variable {ip : IpState} {env : SendEnv} {f : Fetched}

theorem icmp_frames_eq_iff (henv : env.ethertype = 0x0800) {stk' junk junk' : Mem}
    (h : IcmpAnswers ip stk f) (h' : IcmpAnswers ip stk' f)
    (hlen : replyLength (stk'.write 0 f.data) = replyLength (stk.write 0 f.data)) :
    (icmpAnswer ip stk f).map (sentFrame env junk) =
        (icmpAnswer ip stk' f).map (sentFrame env junk') ↔
      (processIcmp ip.myIP (stk.write 0 f.data)).2.read 0
          (txSize env.headerSize (replyLength (stk.write 0 f.data))) =
        (processIcmp ip.myIP (stk'.write 0 f.data)).2.read 0
          (txSize env.headerSize (replyLength (stk.write 0 f.data))) := by
  rw [icmpAnswer_of_answers h, icmpAnswer_of_answers h', map_some, map_some,
    Option.some.injEq, sentFrame_eq env henv, sentFrame_eq env henv, hlen]
  exact List.append_right_inj _

/-- Once the header of a request has been received, the stack has no say in whether it is
answered. -/
theorem IcmpAnswers.congr (h : IcmpAnswers ip stk f) (hlen : 21 ≤ f.data.length)
    (stk' : Mem) : IcmpAnswers ip stk' f where
  received := h.received
  status := h.status
  request := h.request.congr (agree_write stk stk' f.data) hlen
  length := replyLength_congr (agree_write stk stk' f.data) (show 4 ≤ _ by omega) ▸ h.length

def IcmpNoLeak (ip : IpState) (env : SendEnv) (f : Fetched) : Prop :=
  ∀ stk stk' junk junk', (icmpAnswer ip stk f).map (sentFrame env junk) =
    (icmpAnswer ip stk' f).map (sentFrame env junk')

/-- The header has been received: if the type of the message has not, another stack makes
it something else. -/
theorem IcmpNoLeak.header (hno : IcmpNoLeak ip env f) (hans : IcmpAnswers ip stk f) :
    21 ≤ f.data.length := by
  by_contra hshort
  have hnot : ¬IcmpAnswers ip (stk.set 20 0) f := by
    intro h
    have htype := h.request.type
    rw [write_set_comm (by omega), set_same] at htype
    exact absurd htype (by decide)
  have heq := hno stk (stk.set 20 0) stk stk
  rw [icmpAnswer_of_answers hans, icmpAnswer_of_not hnot] at heq
  cases heq

theorem IcmpNoLeak.byte (henv : env.ethertype = 0x0800) (hno : IcmpNoLeak ip env f)
    (hans : IcmpAnswers ip stk f) {j : Nat} (hj : f.data.length ≤ j) (b : Byte) {i : Nat}
    (hi : i < txSize env.headerSize (replyLength f.mem)) :
    (processIcmp ip.myIP (stk.write 0 f.data)).2 i =
      (processIcmp ip.myIP ((stk.write 0 f.data).set j b)).2 i := by
  have hlen := hno.header hans
  have hmem : replyLength (stk.write 0 f.data) = replyLength f.mem :=
    replyLength_congr (f.agree_mem stk) (by omega)
  have hsame := (icmp_frames_eq_iff henv hans (hans.congr hlen (stk.set j b))
    (replyLength_congr (agree_write _ _ f.data) (show 4 ≤ _ by omega))).mp
      (hno stk (stk.set j b) stk stk)
  rw [hmem, write_set_comm hj] at hsame
  have hbyte := congrArg (fun l => l.getD i 0) hsame
  rwa [getD_read _ _ hi, getD_read _ _ hi, zero_add] at hbyte

theorem IcmpNoLeak.sent (henv : env.ethertype = 0x0800) (hno : IcmpNoLeak ip env f)
    (hans : IcmpAnswers ip stk f) :
    txSize env.headerSize (replyLength f.mem) ≤ f.data.length := by
  by_contra hlong
  have hmin := (txSize_bounds env (replyLength_le f.mem)).1
  generalize hk : max f.data.length 24 = k
  have hj : f.data.length ≤ k := hk ▸ le_max_left _ _
  have hother : 24 ≤ k := hk ▸ le_max_right _ _
  have hbyte := hno.byte henv hans hj (stk.write 0 f.data k + 1) (show k < _ by omega)
  have hreq := (hans.congr (hno.header hans) (stk.set k (stk.write 0 f.data k + 1))).request
  rw [write_set_comm hj] at hreq
  rw [processIcmp_other hans.request hother, processIcmp_other hreq hother, set_same] at hbyte
  exact absurd hbyte (by simp)

theorem IcmpNoLeak.covered (henv : env.ethertype = 0x0800) (hno : IcmpNoLeak ip env f)
    (hans : IcmpAnswers ip stk f) : Covered env f := by
  have hlen := hno.header hans
  have hsent := hno.sent henv hans
  have hmem : replyLength (stk.write 0 f.data) = replyLength f.mem :=
    replyLength_congr (f.agree_mem stk) (by omega)
  obtain ⟨hmin, hself⟩ := txSize_bounds env (replyLength_le f.mem)
  refine ⟨hsent, fun hodd => ?_⟩
  by_contra hge
  have hn : replyLength f.mem = f.data.length := by omega
  -- the byte behind an odd packet is in the checksum
  have hword : wordAt (processIcmp ip.myIP (stk.write 0 f.data)).2 22 =
      wordAt (processIcmp ip.myIP ((stk.write 0 f.data).set (replyLength (stk.write 0 f.data))
        (stk.write 0 f.data (replyLength (stk.write 0 f.data)) + 1))).2 22 := by
    rw [hmem, wordAt, wordAt, hno.byte henv hans hn.ge _ (show 22 < _ by omega),
      hno.byte henv hans hn.ge _ (show 22 + 1 < _ by omega)]
  have hb := stray_of_checksum hans.request (by omega) (by rwa [hmem]) hword
  exact absurd hb (by simp)

/-- **The replies of `icmp_poll` do not depend on the stack** exactly if no stack makes it
answer, or all that is sent has been received. -/
theorem icmp_noLeak_iff (henv : env.ethertype = 0x0800) :
    (∀ stk stk' junk junk', (icmpAnswer ip stk f).map (sentFrame env junk) =
      (icmpAnswer ip stk' f).map (sentFrame env junk')) ↔
    ((∃ stk, IcmpAnswers ip stk f) → Covered env f) := by
  constructor
  · rintro hno ⟨stk, hans⟩
    exact IcmpNoLeak.covered henv hno hans
  · intro hcov stk stk' junk junk'
    by_cases hany : ∃ stk, IcmpAnswers ip stk f
    · obtain ⟨stk₀, h₀⟩ := hany
      obtain ⟨hsent, hstray⟩ := hcov ⟨stk₀, h₀⟩
      obtain ⟨hmin, hself⟩ := txSize_bounds env (replyLength_le f.mem)
      have hmem : replyLength (stk.write 0 f.data) = replyLength f.mem :=
        replyLength_congr (f.agree_mem stk) (by omega)
      have hans := h₀.congr (by omega) stk
      refine (icmp_frames_eq_iff henv hans (h₀.congr (by omega) stk')
        (replyLength_congr (agree_write _ _ f.data) (show 4 ≤ _ by omega))).mpr ?_
      rw [hmem]
      refine Mem.Agree.read ?_ hsent
      exact agree_processIcmp (agree_write stk stk' f.data) hans.request (by omega)
        (by rw [hmem]; omega)
    · rw [not_exists] at hany
      rw [icmpAnswer_of_not (hany stk), icmpAnswer_of_not (hany stk'), map_none, map_none]

/-- **The replies of `rdate_poll` depend on the stack** whenever there may be one: the
32 bytes of the buffer are all that can have been received. -/
theorem rdate_noLeak_iff {secs : BitVec 64} (henv : env.ethertype = 0x0800)
    (hlen : f.data.length ≤ 32) :
    (∀ stk stk' junk junk', (rdateAnswer ip secs stk f).map (sentFrame env junk) =
      (rdateAnswer ip secs stk' f).map (sentFrame env junk')) ↔
    ¬∃ stk, RdateAnswers ip stk f := by
  constructor
  · rintro hno ⟨stk, hans⟩
    -- the byte behind the buffer is sent, and has no part in the decision
    have hset : ∀ b, (stk.set 32 b).write 0 f.data = (stk.write 0 f.data).set 32 b :=
      fun b => write_set_comm hlen b
    have hans' : RdateAnswers ip (stk.set 32 (stk 32 + 1)) f := by
      refine ⟨hans.received, ?_⟩
      rw [hset, ← hans.dest]
      exact inAddrAt_congr (n := 32) (fun i hi => set_other (by omega)) (by decide)
    obtain ⟨a, ha, hmac, hdl, hdata⟩ := rdateAnswer_of_answers secs hans
    obtain ⟨a', ha', hmac', hdl', hdata'⟩ := rdateAnswer_of_answers secs hans'
    have heq := hno stk (stk.set 32 (stk 32 + 1)) stk stk
    rw [ha, ha', map_some, map_some, Option.some.injEq, sentFrame_eq env henv,
      sentFrame_eq env henv, hmac, hmac', hdl, hdl'] at heq
    have hread := (List.append_right_inj _).mp heq
    have hlt : 32 < txSize env.headerSize 32 := by
      have := (txSize_bounds env (show 32 ≤ 88 by decide)).1
      omega
    have hbyte := congrArg (fun l => l.getD 32 0) hread
    rw [getD_read _ _ hlt, getD_read _ _ hlt, zero_add, hdata 32 (Nat.le_refl 32),
      hdata' 32 (Nat.le_refl 32), hset, set_same, write_other (.inr (by omega))] at hbyte
    exact absurd hbyte (by simp)
  · intro hno stk stk' junk junk'
    rw [not_exists] at hno
    rw [rdateAnswer_of_not (hno stk), rdateAnswer_of_not (hno stk'), map_none, map_none]

def pollFrame (env : SendEnv) (junk : Mem) (r : Option Answer × NetState) : Option (List Byte) :=
  r.1.map (sentFrame env junk)

/-- **Replies leak no memory** exactly if `icmp_poll` has nothing it might answer, or has
received all that it sends, and `rdate_poll` has nothing it might answer. -/
theorem replies_noLeak_iff (o : Order) (net : NetState) (icmpSock rdateSock : Nat) (ip : IpState)
    (secs : BitVec 64) (env : SendEnv) (henv : env.ethertype = 0x0800) :
    (∀ stk stk' junk junk', pollFrame env junk (icmpPoll o net icmpSock ip stk) =
        pollFrame env junk' (icmpPoll o net icmpSock ip stk') ∧
      pollFrame env junk (rdatePoll o net rdateSock ip secs stk) =
        pollFrame env junk' (rdatePoll o net rdateSock ip secs stk')) ↔
    (∀ f, (net.recvfrom o icmpSock 128).1 = some f →
      (∃ stk, IcmpAnswers ip stk f) → Covered env f) ∧
    ∀ f, (net.recvfrom o rdateSock 32).1 = some f → ¬∃ stk, RdateAnswers ip stk f := by
  have hicmp : (∀ stk stk' junk junk', pollFrame env junk (icmpPoll o net icmpSock ip stk) =
      pollFrame env junk' (icmpPoll o net icmpSock ip stk')) ↔
      ∀ f, (net.recvfrom o icmpSock 128).1 = some f →
        (∃ stk, IcmpAnswers ip stk f) → Covered env f := by
    cases hrecv : (net.recvfrom o icmpSock 128).1 with
    | none => simp [pollFrame, icmpPoll, hrecv]
    | some f =>
      simp only [pollFrame, icmpPoll, hrecv, bind_some, Option.some.injEq, forall_eq']
      exact icmp_noLeak_iff henv
  have hrdate : (∀ stk stk' junk junk', pollFrame env junk (rdatePoll o net rdateSock ip secs stk) =
        pollFrame env junk' (rdatePoll o net rdateSock ip secs stk')) ↔
      ∀ f, (net.recvfrom o rdateSock 32).1 = some f → ¬∃ stk, RdateAnswers ip stk f := by
    cases hrecv : (net.recvfrom o rdateSock 32).1 with
    | none => simp [pollFrame, rdatePoll, hrecv]
    | some f =>
      have hlen : f.data.length ≤ 32 := by
        rw [Sockq.fetch_data_length (by decide) hrecv]
        exact min_le_right _ _
      simp only [pollFrame, rdatePoll, hrecv, bind_some, Option.some.injEq, forall_eq']
      exact rdate_noLeak_iff henv hlen
  rw [← hicmp, ← hrdate]
  constructor
  · intro h
    exact ⟨fun a b c d => (h a b c d).1, fun a b c d => (h a b c d).2⟩
  · rintro ⟨h₁, h₂⟩ a b c d
    exact ⟨h₁ a b c d, h₂ a b c d⟩

def plainEnv : SendEnv := ⟨0x080030000002, 0, 0, 0x0800⟩

/-- A request of 46 bytes in a frame of 46 is answered with what was received. -/
theorem replies_noLeak_full : Covered plainEnv (pingFetched 46 0xff) ∧ ∀ stk stk' junk junk' : Mem,
      pollFrame plainEnv junk (icmpPoll .little (pingNet 46 0xff) 0 pingIp stk) =
        pollFrame plainEnv junk' (icmpPoll .little (pingNet 46 0xff) 0 pingIp stk') ∧
      pollFrame plainEnv junk (rdatePoll .little (pingNet 46 0xff) 1 pingIp 0 stk) =
        pollFrame plainEnv junk' (rdatePoll .little (pingNet 46 0xff) 1 pingIp 0 stk') := by
  have hcov : Covered plainEnv (pingFetched 46 0xff) := ⟨by decide, by decide⟩
  have hrecv : ((pingNet 46 0xff).recvfrom .little 0 128).1 = some (pingFetched 46 0xff) := by
    decide +kernel
  refine ⟨hcov, (replies_noLeak_iff .little (pingNet 46 0xff) 0 1 pingIp 0 plainEnv rfl).mpr
    ⟨?_, ?_⟩⟩
  · intro f hf _
    rw [hrecv] at hf
    cases hf
    exact hcov
  · intro f hf
    cases hf

/-- A request that claims 88 bytes, in a frame of 46: the other 42 bytes of the reply are
those of the stack. -/
theorem replies_leak :
    pollFrame plainEnv zeroStack (icmpPoll .little (pingNet 88 0xff) 0 pingIp fun _ => 1) ≠
      pollFrame plainEnv zeroStack (icmpPoll .little (pingNet 88 0xff) 0 pingIp fun _ => 2) := by
  decide +kernel

end Wrpc.Net
