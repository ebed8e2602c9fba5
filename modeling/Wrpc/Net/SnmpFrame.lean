/-
# Requests and responses as messages

A message is what stands on the wire, with its four size fields (`Message.bytes`).
`matchHeader` accepts the community "public" only; `snmpFixSize` stores at the places
where the sizes are for a community of six bytes, wherever they are in the message at
hand.
-/
import Wrpc.Net.Snmp

namespace Wrpc.Snmp

open List Mem

/-! ## Messages -/

variable {m : Mem} {setEnabled : Bool} {h q : Nat}

theorem toNat_ofNat_of_lt {n : Nat} (h : n < 256) : (BitVec.ofNat 8 n).toNat = n := by
  rw [BitVec.toNat_ofNat, Nat.mod_eq_of_lt h]

/-- A message with one variable binding.  `value` is the value with its type and length. -/
structure Message where
  version : Byte
  community : List Byte
  pdu : Byte
  reqid : List Byte
  error : Byte
  index : Byte
  oid : List Byte
  value : List Byte

namespace Message

variable (msg : Message)

/-- Where the request-id, the last of the header and the OID stand. -/
def reqidAt : Nat := 11 + msg.community.length
def bindAt : Nat := msg.reqidAt + msg.reqid.length
def oidAt : Nat := msg.bindAt + 12
def valueAt : Nat := msg.oidAt + msg.oid.length

def size : Nat := msg.valueAt + msg.value.length

/-- A size field at index `i`: all that is behind it. -/
def sizeField (i : Nat) : Byte := BitVec.ofInt 8 (msg.size - 1 - i)

def versionPart : List Byte :=
  [0x30, msg.sizeField 1, 0x02, 0x01, msg.version, 0x04, BitVec.ofNat 8 msg.community.length]

def pduPart : List Byte :=
  [msg.pdu, msg.sizeField (8 + msg.community.length), 0x02, BitVec.ofNat 8 msg.reqid.length]

def bindPart : List Byte :=
  [0x02, 0x01, msg.error, 0x02, 0x01, msg.index, 0x30, msg.sizeField (msg.bindAt + 7),
    0x30, msg.sizeField (msg.bindAt + 9), 0x06, BitVec.ofNat 8 msg.oid.length]

def bytes : List Byte :=
  msg.versionPart ++ (msg.community ++ (msg.pduPart ++ (msg.reqid ++
    (msg.bindPart ++ (msg.oid ++ msg.value)))))

def Holds (m : Mem) : Prop := m.read 0 msg.size = msg.bytes

structure Lies (m : Mem) : Prop where
  versionPart : m.read 0 7 = msg.versionPart
  community : m.read 7 msg.community.length = msg.community
  pduPart : m.read (7 + msg.community.length) 4 = msg.pduPart
  reqid : m.read msg.reqidAt msg.reqid.length = msg.reqid
  bindPart : m.read msg.bindAt 12 = msg.bindPart
  oid : m.read msg.oidAt msg.oid.length = msg.oid
  value : m.read msg.valueAt msg.value.length = msg.value

theorem holds_iff (m : Mem) : msg.Holds m ↔ msg.Lies m := by
  have hsize : msg.size = 7 + (msg.community.length + (4 + (msg.reqid.length + (12 +
      (msg.oid.length + msg.value.length))))) := by
    simp only [size, valueAt, oidAt, bindAt, reqidAt]
    omega
  have hreqid : 0 + 7 + msg.community.length + 4 = msg.reqidAt := by
    rw [reqidAt]
    omega
  have hversion : msg.versionPart.length = 7 := rfl
  have hpdu : msg.pduPart.length = 4 := rfl
  have hbind : msg.bindPart.length = 12 := rfl
  rw [Holds, bytes, hsize, read_eq_append_iff hversion, read_eq_append_iff rfl,
    read_eq_append_iff hpdu, read_eq_append_iff rfl, read_eq_append_iff hbind,
    read_eq_append_iff rfl, hreqid]
  exact ⟨fun h => ⟨h.1, h.2.1, h.2.2.1, h.2.2.2.1, h.2.2.2.2.1, h.2.2.2.2.2.1, h.2.2.2.2.2.2⟩,
    fun h => ⟨h.versionPart, h.community, h.pduPart, h.reqid, h.bindPart, h.oid, h.value⟩⟩

theorem Lies.lengths {msg : Message} {m : Mem} (h : msg.Lies m) (hn : msg.community.length < 256)
    (hq : msg.reqid.length < 256) (hk : msg.oid.length < 256) :
    (m 6).toNat = msg.community.length ∧
      (m (10 + msg.community.length)).toNat = msg.reqid.length ∧
      (m (msg.bindAt + 11)).toNat = msg.oid.length := by
  have hversion := eq_of_read h.versionPart (show 6 < 7 by decide)
  have hpdu := eq_of_read h.pduPart (show 3 < 4 by decide)
  have hbind := eq_of_read h.bindPart (show 11 < 12 by decide)
  rw [show 7 + msg.community.length + 3 = 10 + msg.community.length by omega] at hpdu
  refine ⟨?_, ?_, ?_⟩
  · exact (congrArg BitVec.toNat hversion).trans (toNat_ofNat_of_lt hn)
  · exact (congrArg BitVec.toNat hpdu).trans (toNat_ofNat_of_lt hq)
  · exact (congrArg BitVec.toNat hbind).trans (toNat_ofNat_of_lt hk)

theorem Lies.sizes {msg : Message} {m : Mem} (h : msg.Lies m) :
    m (8 + msg.community.length) = msg.sizeField (8 + msg.community.length) ∧
      m (msg.bindAt + 7) = msg.sizeField (msg.bindAt + 7) ∧
      m (msg.bindAt + 9) = msg.sizeField (msg.bindAt + 9) := by
  have hpdu := eq_of_read h.pduPart (show 1 < 4 by decide)
  rw [show 7 + msg.community.length + 1 = 8 + msg.community.length by omega] at hpdu
  exact ⟨hpdu, eq_of_read h.bindPart (show 7 < 12 by decide),
    eq_of_read h.bindPart (show 9 < 12 by decide)⟩

theorem sizeField_congr {msg msg' : Message} (h : msg.size = msg'.size) :
    msg.sizeField = msg'.sizeField := by
  funext i
  rw [sizeField, sizeField, h]

theorem bytes_length : msg.bytes.length = msg.size := by
  simp only [bytes, versionPart, pduPart, bindPart, size, valueAt, oidAt, bindAt, reqidAt,
    length_append, length_cons, length_nil]
  omega

def buffer : Mem := fun i => msg.bytes.getD i 0

theorem holds_buffer : msg.Holds msg.buffer := by
  rw [Holds, ← bytes_length]
  exact read_eq_of fun i _ => by rw [Nat.zero_add, buffer]

end Message

def Sends (resp : Nat × Mem) (msg : Message) : Prop := resp.1 = msg.size ∧ msg.Holds resp.2

/-! ## The header of a request -/

theorem matchHeader_lits {setEnabled : Bool} {m : Mem} (fs : List Field) {version : Byte}
    {mode : Option Mode} : ∀ {vs : List Byte} {h : Nat}, m.read h vs.length = vs →
      matchHeader setEnabled m (vs.map .lit ++ fs) h version mode =
        matchHeader setEnabled m fs (h + vs.length) version mode
  | [], _, _ => rfl
  | v :: vs, h, hm => by
    rw [length_cons, Mem.read, List.cons.injEq] at hm
    rw [map_cons, cons_append, matchHeader, if_neg fun hne => hne hm.1,
      matchHeader_lits fs hm.2, length_cons, Nat.add_assoc, Nat.add_comm 1]

theorem matchHeader_lits_none {setEnabled : Bool} {m : Mem} (fs : List Field) {version : Byte}
    {mode : Option Mode} : ∀ {vs : List Byte} {h : Nat}, m.read h vs.length ≠ vs →
      matchHeader setEnabled m (vs.map .lit ++ fs) h version mode = none
  | [], _, hm => absurd rfl hm
  | v :: vs, h, hm => by
    rw [map_cons, cons_append, matchHeader]
    by_cases hv : m h = v
    · rw [if_neg fun hne => hne hv]
      refine matchHeader_lits_none fs fun hvs => hm ?_
      rw [length_cons, Mem.read, hv, hvs]
    · exact if_pos hv

theorem matchHeader_version {s version n : Byte}
    (hm : m.read h 7 = [0x30, s, 0x02, 0x01, version, 0x04, n]) (fs : List Field) (v : Byte)
    (mode : Option Mode) :
    matchHeader setEnabled m ([.lit 0x30, .size, .lit 0x02, .lit 0x01, .version, .lit 0x04,
      .lit 0x06] ++ fs) h v mode =
      if version.toNat ≤ versionMax ∧ n = 6 then matchHeader setEnabled m fs (h + 7) version mode
      else none := by
  simp only [Mem.read, List.cons.injEq] at hm
  simp only [cons_append, nil_append, matchHeader, hm, ne_eq, not_true_eq_false, if_false]
  by_cases hver : version.toNat ≤ versionMax
  · rw [if_neg (Nat.not_lt.mpr hver)]
    by_cases hn : n = 6
    · rw [if_neg fun hne => hne hn, if_pos ⟨hver, hn⟩]
    · rw [if_pos hn, if_neg fun h => hn h.2]
  · rw [if_pos (Nat.not_le.mp hver), if_neg fun h => hver h.1]

theorem modeOf_getNext {pdu : Byte} (h : modeOf setEnabled pdu = some .getNext) :
    pdu = snmpGetNext := by
  rw [modeOf] at h
  by_contra hnext
  split at h
  · cases h
  · split at h
    · cases h
    · cases h

theorem matchHeader_pdu {pdu s q : Byte} (hm : m.read h 4 = [pdu, s, 0x02, q]) (fs : List Field)
    (v : Byte) (mode : Option Mode) :
    matchHeader setEnabled m ([.pdu, .size, .lit 0x02, .reqSize] ++ fs) h v mode =
      (modeOf setEnabled pdu).bind fun mode =>
        matchHeader setEnabled m fs (h + 4 + q.toNat) v (some mode) := by
  simp only [Mem.read, List.cons.injEq] at hm
  simp only [cons_append, nil_append, matchHeader, hm, ne_eq, not_true_eq_false, if_false]
  cases modeOf setEnabled pdu with
  | none => rfl
  | some mode =>
    refine congrArg (fun i => matchHeader setEnabled m fs i v (some mode)) ?_
    omega

theorem matchHeader_bind {error index s s' n : Byte}
    (hm : m.read h 12 = [0x02, 0x01, error, 0x02, 0x01, index, 0x30, s, 0x30, s', 0x06, n])
    (version : Byte) (mode : Option Mode) :
    matchHeader setEnabled m [.lit 0x02, .lit 0x01, .error, .lit 0x02, .lit 0x01, .errorIndex,
      .lit 0x30, .size, .lit 0x30, .size, .lit 0x06] h version mode =
      some (h + 11, version, mode) := by
  simp only [Mem.read, List.cons.injEq] at hm
  simp [matchHeader, hm]

section Request

variable {req : Message} {m : Mem} {setEnabled : Bool}

theorem matchHeader_public (setEnabled : Bool) (hm : req.Lies m) (hpub : req.community = publicName)
    (hver : req.version.toNat ≤ versionMax) (hid : req.reqid.length < 256) :
    matchHeader setEnabled m matchArray 0 0 none =
      (modeOf setEnabled req.pdu).map fun mode => (req.bindAt + 11, req.version, some mode) := by
  have hlen : req.community.length = 6 := by
    rw [hpub]
    rfl
  have hcommunity : m.read 7 publicName.length = publicName := by
    rw [← hpub]
    exact hm.community
  have hpdu := hm.pduPart
  rw [hlen] at hpdu
  have hat : 7 + 6 + 4 + (BitVec.ofNat 8 req.reqid.length).toNat = req.bindAt := by
    rw [BitVec.toNat_ofNat, Nat.mod_eq_of_lt hid, Message.bindAt, Message.reqidAt, hlen]
  rw [matchArray, append_assoc]
  refine (matchHeader_version hm.versionPart _ 0 none).trans ?_
  rw [if_pos ⟨hver, by rw [hlen]; rfl⟩, matchHeader_lits _ hcommunity]
  refine (matchHeader_pdu hpdu _ _ none).trans ?_
  rw [hat]
  cases modeOf setEnabled req.pdu with
  | none => rfl
  | some mode => exact matchHeader_bind hm.bindPart _ _

theorem matchHeader_other (hm : req.Lies m) (hlen : req.community.length < 256)
    (hother : req.community ≠ publicName) :
    matchHeader setEnabled m matchArray 0 0 none = none := by
  rw [matchArray, append_assoc]
  refine (matchHeader_version hm.versionPart _ 0 none).trans ?_
  by_cases h : req.version.toNat ≤ versionMax ∧ BitVec.ofNat 8 req.community.length = 6
  · have hsix : req.community.length = 6 := by
      have hnat := congrArg BitVec.toNat h.2
      rwa [BitVec.toNat_ofNat, Nat.mod_eq_of_lt hlen] at hnat
    rw [if_pos h]
    refine matchHeader_lits_none _ fun hread => hother ?_
    have hcommunity := hm.community
    rw [hsix] at hcommunity
    exact hcommunity.symm.trans hread
  · exact if_neg h

end Request

structure Message.Drafted (msg : Message) (m : Mem) : Prop where
  versionPart : ∃ s, m.read 0 7 =
    [0x30, s, 0x02, 0x01, msg.version, 0x04, BitVec.ofNat 8 msg.community.length]
  community : m.read 7 msg.community.length = msg.community
  pduPart : ∃ pdu s, m.read (7 + msg.community.length) 4 =
    [pdu, s, 0x02, BitVec.ofNat 8 msg.reqid.length]
  reqid : m.read msg.reqidAt msg.reqid.length = msg.reqid
  bindPart : ∃ s s', m.read msg.bindAt 12 = [0x02, 0x01, msg.error, 0x02, 0x01, msg.index, 0x30, s,
    0x30, s', 0x06, BitVec.ofNat 8 msg.oid.length]
  oid : m.read msg.oidAt msg.oid.length = msg.oid
  value : m.read msg.valueAt msg.value.length = msg.value

theorem snmpFixSize_eq (size : Nat) (m : Mem) (hq : (m 16).toNat = q) :
    snmpFixSize size m =
      ((((m.set 1 (BitVec.ofInt 8 (size - 1 - (1 : Nat)))).set 13 snmpGetResponse).set 14
        (BitVec.ofInt 8 (size - 1 - (14 : Nat)))).set (24 + q)
        (BitVec.ofInt 8 (size - 1 - (24 + q : Nat)))).set (26 + q)
        (BitVec.ofInt 8 (size - 1 - (26 + q : Nat))) := by
  have h24 : 16 + q + 1 + 1 + 1 + 1 + 1 + 1 + 1 + 1 = 24 + q := by omega
  have h26 : 24 + q + 1 + 1 = 26 + q := by omega
  have h16 : ((m.set 1 (BitVec.ofInt 8 (size - 1 - (1 : Nat)))).set 13 snmpGetResponse).set 14
      (BitVec.ofInt 8 (size - 1 - (14 : Nat))) 16 = m 16 := by
    rw [set_other (by decide), set_other (by decide), set_other (by decide)]
  simp only [snmpFixSize, matchArray, publicName, map_cons, map_nil, cons_append,
    nil_append, fixLoop, Nat.zero_add, Nat.reduceAdd, h16, hq, h24, h26]

theorem snmpFixSize_other {size i : Nat} (hq : (m 16).toNat = q)
    (h : i ≠ 1 ∧ i ≠ 13 ∧ i ≠ 14 ∧ i ≠ 24 + q ∧ i ≠ 26 + q) : snmpFixSize size m i = m i := by
  obtain ⟨h1, h13, h14, h24, h26⟩ := h
  rw [snmpFixSize_eq size m hq, set_other h26, set_other h24, set_other h14, set_other h13,
    set_other h1]

theorem Message.Drafted.fixed {msg : Message} (h : msg.Drafted m)
    (hsix : msg.community.length = 6) (hpdu : msg.pdu = snmpGetResponse)
    (hid : msg.reqid.length < 256) : msg.Lies (snmpFixSize msg.size m) := by
  obtain ⟨s₁, hversion⟩ := h.versionPart
  obtain ⟨pdu, s₂, hpduPart⟩ := h.pduPart
  obtain ⟨s₃, s₄, hbind⟩ := h.bindPart
  have hq : (m 16).toNat = msg.reqid.length := by
    have hbyte := eq_of_read hpduPart (show 3 < 4 by decide)
    rw [hsix] at hbyte
    rw [← toNat_ofNat_of_lt hid]
    exact congrArg BitVec.toNat hbyte
  have hreqidAt : msg.reqidAt = 17 := by rw [reqidAt, hsix]
  have hbindAt : msg.bindAt = 17 + msg.reqid.length := by rw [bindAt, hreqidAt]
  have hoidAt : msg.oidAt = 29 + msg.reqid.length := by
    rw [oidAt, hbindAt]
    omega
  have hvalueAt : msg.valueAt = 29 + msg.reqid.length + msg.oid.length := by rw [valueAt, hoidAt]
  have hread : ∀ {off len},
      (1 < off ∧ off + len ≤ 13 ∨ 14 < off ∧ off + len ≤ 24 + msg.reqid.length ∨
      26 + msg.reqid.length < off) → (snmpFixSize msg.size m).read off len = m.read off len :=
    fun h => read_congr fun i hi => snmpFixSize_other hq (by omega)
  constructor
  · exact (read_set_at m _ 0 7 1).trans (congrArg (List.set · 1 _) hversion)
  · exact (hread (by omega)).trans h.community
  · rw [hsix] at hpduPart ⊢
    rw [snmpFixSize_eq msg.size m hq, Mem.read_set_other (by omega), Mem.read_set_other (by omega)]
    refine (read_set_at _ _ 13 4 1).trans ?_
    refine (congrArg (List.set · 1 _) (read_set_at _ _ 13 4 0)).trans ?_
    rw [Mem.read_set_other (by omega), hpduPart, Message.pduPart, hsix, hpdu]
    rfl
  · exact (hread (by omega)).trans h.reqid
  · have h24 : 24 + msg.reqid.length = msg.bindAt + 7 := by omega
    have h26 : 26 + msg.reqid.length = msg.bindAt + 9 := by omega
    rw [snmpFixSize_eq msg.size m hq, h24, h26, read_set_at, read_set_at,
      Mem.read_set_other (by omega), Mem.read_set_other (by omega),
        Mem.read_set_other (by omega), hbind]
    rfl
  · exact (hread (by omega)).trans h.oid
  · exact (hread (by omega)).trans h.value

theorem Message.Lies.rebound {req : Message} {m' : Mem} (h : req.Lies m) (pdu : Byte)
    {oid value : List Byte} (hkept : ∀ j < req.bindAt + 11, m' j = m j)
    (hlen : m' (req.bindAt + 11) = BitVec.ofNat 8 oid.length)
    (hoid : m'.read req.oidAt oid.length = oid)
    (hvalue : m'.read (req.oidAt + oid.length) value.length = value) :
    { req with pdu := pdu, oid := oid, value := value : Message }.Drafted m' := by
  have hread : ∀ off len, off + len ≤ req.bindAt + 11 → m'.read off len = m.read off len :=
    fun off len hle => read_congr fun i hi => hkept _ (by omega)
  have hat : req.bindAt = 11 + req.community.length + req.reqid.length := rfl
  have hbind : m'.read req.bindAt 12 = req.bindPart.set 11 (BitVec.ofNat 8 oid.length) := by
    rw [← h.bindPart, ← read_set_at]
    refine read_congr fun i hi => ?_
    by_cases hi' : i = 11
    · rw [hi', set_same, hlen]
    · rw [set_other (by omega), hkept _ (by omega)]
  exact ⟨⟨_, (hread 0 7 (by omega)).trans h.versionPart⟩,
    (hread 7 req.community.length (by omega)).trans h.community,
    ⟨_, _, (hread (7 + req.community.length) 4 (by omega)).trans h.pduPart⟩,
    (hread req.reqidAt req.reqid.length (by rw [hat, reqidAt]; omega)).trans h.reqid,
    ⟨_, _, hbind⟩, hoid, hvalue⟩

/-- What `snmp_prepare_error` stores before the sizes, for a community, a request-id and an OID
of `n`, `q` and `k` bytes. -/
def prepared (error : Int) (n q k : Nat) (m : Mem) : Mem :=
  ((((m.set (7 + n) snmpGetResponse).set (13 + n + q) (BitVec.ofInt 8 error)).set
    (16 + n + q) 1).set (23 + n + q + k) asnNull).set (24 + n + q + k) 0

variable (error : Int)

theorem prepared_other {n q k i : Nat} (h : i ≠ 7 + n ∧ i ≠ 13 + n + q ∧
    i ≠ 16 + n + q ∧ i ≠ 23 + n + q + k ∧ i ≠ 24 + n + q + k) : prepared error n q k m i = m i := by
  obtain ⟨h7, h13, h16, h23, h24⟩ := h
  rw [prepared, set_other h24, set_other h23, set_other h16, set_other h13,
    set_other h7]

theorem prepared_read_other {n q k off len : Nat} (h : ∀ i, off ≤ i → i < off + len →
      i ≠ 7 + n ∧ i ≠ 13 + n + q ∧ i ≠ 16 + n + q ∧ i ≠ 23 + n + q + k ∧ i ≠ 24 + n + q + k) :
    (prepared error n q k m).read off len = m.read off len :=
  read_congr fun i hi => prepared_other error (h (off + i) (by omega) (by omega))

theorem snmpPrepareError_eq {n k : Nat} (hn : min (m 6).toNat maxCommunityLen = n)
    (hq : min (m (10 + n)).toNat maxReqidLen = q) (hk : min (m (22 + n + q)).toNat maxOidLen = k) :
    snmpPrepareError error m =
      (25 + n + q + k, snmpFixSize (25 + n + q + k) (prepared error n q k m)) := by
  have hat : (m.set (7 + n) snmpGetResponse) (10 + n) = m (10 + n) := set_other (by omega)
  have hoid : (((m.set (7 + n) snmpGetResponse).set (13 + (n + q)) (BitVec.ofInt 8 error)).set
      (16 + (n + q)) 1) (22 + (n + q)) = m (22 + n + q) := by
    rw [set_other (by omega), set_other (by omega), set_other (by omega), Nat.add_assoc]
  have hsize : 22 + (n + q + k) + 2 + 1 = 25 + n + q + k := by omega
  simp only [snmpPrepareError, hn, hat, hq, hoid, hk, hsize]
  have h13 : 13 + (n + q) = 13 + n + q := by omega
  have h16 : 16 + (n + q) = 16 + n + q := by omega
  have h23 : 22 + (n + q + k) + 1 = 23 + n + q + k := by omega
  have h24 : 22 + (n + q + k) + 2 = 24 + n + q + k := by omega
  rw [h13, h16, h23, h24, prepared]

theorem snmpPrepareError_status (hsix : (m 6).toNat = 6) (hq : (m 16).toNat = q)
    (hq4 : q ≤ maxReqidLen) : (snmpPrepareError error m).2 (19 + q) = BitVec.ofInt 8 error := by
  rw [maxReqidLen] at hq4
  rw [snmpPrepareError_eq error (n := 6) (q := q) (by rw [hsix]; rfl)
    (by rw [hq, maxReqidLen]; omega) rfl]
  have h16 : (prepared error 6 q (min (m (22 + 6 + q)).toNat maxOidLen) m 16).toNat = q := by
    rw [prepared_other error (by omega), hq]
  change snmpFixSize _ _ (19 + q) = _
  rw [snmpFixSize_other h16 (by omega), prepared,
    set_other (by omega), set_other (by omega), set_other (by omega),
    show 19 + q = 13 + 6 + q by omega, set_same]

end Wrpc.Snmp
