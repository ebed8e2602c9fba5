/-
# What an error response repeats of the request

An error response is made of the request in place: PDU, error status and index, a NULL
for the value, and the sizes.  It repeats community, request-id and OID (`Echoes`)
unless one of four things happens, and exactly then (`echoes_iff`):

* the community has more than 32 bytes or the OID more than 40;
* the community has not six bytes, and the sizes are stored at the wrong places, or one
  of them had to be stored at all;
* a GETNEXT has written the OIDs it tried over the requested one.
-/
import Wrpc.Net.SnmpWalk
import Wrpc.Net.SnmpTouch

namespace Wrpc.Snmp

open List Mem BitVec

/-! ## Requests and their error responses -/

def IsTlv (value : List Byte) : Prop :=
  ∃ type data, data.length < 128 ∧ value = type :: BitVec.ofNat 8 data.length :: data

theorem IsTlv.length_ge {value : List Byte} (h : IsTlv value) : 2 ≤ value.length := by
  obtain ⟨type, data, -, hv⟩ := h
  rw [hv, length_cons, length_cons]
  omega

/-- A request of version 1 or 2c with all lengths in one byte. -/
structure WellFormed (req : Message) : Prop where
  version : req.version.toNat ≤ versionMax
  pdu : req.pdu = snmpGet ∨ req.pdu = snmpGetNext ∨ req.pdu = snmpSet
  reqid : 1 ≤ req.reqid.length ∧ req.reqid.length ≤ maxReqidLen
  error : req.error = 0
  index : req.index = 0
  value : IsTlv req.value
  size : req.size ≤ 129

def errorOf (a : Agent) (m : Mem) : Option Int :=
  match matchHeader a.setEnabled m matchArray 0 0 none with
  | some (h, version, some mode) =>
    match limbLoop version h mode a.limbs m with
    | .found _ _ => none
    | .failed error _ => some error
  | _ => some errGenErr

/-- What is sent back is an error response with the community, request-id and OID of the
request. -/
def Echoes (req : Message) (resp : Nat × Mem) : Prop :=
  ∃ msg, Sends resp msg ∧ msg.pdu = snmpGetResponse ∧ msg.error ≠ 0 ∧ IsTlv msg.value ∧
    msg.community = req.community ∧ msg.reqid = req.reqid ∧ msg.oid = req.oid

def Message.errorResponse (req : Message) (error : Int) : Message :=
  { req with
    pdu := snmpGetResponse, error := BitVec.ofInt 8 error, index := 1, value := [asnNull, 0] }

section Prepared

variable {req : Message} {m : Mem}

theorem Message.size_eq (msg : Message) : msg.size =
    23 + msg.community.length + msg.reqid.length + msg.oid.length + msg.value.length := by
  simp only [Message.size, Message.valueAt, Message.oidAt, Message.bindAt, Message.reqidAt]
  omega

theorem Message.offsets (msg : Message) : msg.reqidAt = 11 + msg.community.length ∧
    msg.bindAt = 11 + msg.community.length + msg.reqid.length ∧
    msg.oidAt = msg.bindAt + 12 ∧ msg.valueAt = msg.oidAt + msg.oid.length := ⟨rfl, rfl, rfl, rfl⟩

theorem Message.bindAt_congr {msg : Message} (hcommunity : msg.community = req.community)
    (hreqid : msg.reqid = req.reqid) : msg.bindAt = req.bindAt := by
  rw [Message.bindAt, Message.reqidAt, hcommunity, hreqid]
  rfl

theorem prepared_parts (error : Int) (hm : req.Lies m) :
    let P := prepared error req.community.length req.reqid.length req.oid.length m
    P.read 0 7 = req.versionPart ∧ P.read 7 req.community.length = req.community ∧
      P.read (7 + req.community.length) 4 = req.pduPart.set 0 snmpGetResponse ∧
      P.read req.reqidAt req.reqid.length = req.reqid ∧
      P.read req.bindAt 12 = (req.bindPart.set 2 (BitVec.ofInt 8 error)).set 5 1 ∧
      P.read req.oidAt req.oid.length = req.oid ∧ P.read req.valueAt 2 = [asnNull, 0] := by
  have hat := req.offsets
  refine ⟨?_, ?_, ?_, ?_, ?_, ?_, ?_⟩
  · rw [prepared_read_other error (by omega), hm.versionPart]
  · rw [prepared_read_other error (by omega), hm.community]
  · rw [prepared, Mem.read_set_other (by omega), Mem.read_set_other (by omega),
      Mem.read_set_other (by omega), Mem.read_set_other (by omega), ← hm.pduPart]
    exact read_set_at m _ (7 + req.community.length) 4 0
  · rw [prepared_read_other error (by omega), hm.reqid]
  · have h13 : 13 + req.community.length + req.reqid.length = req.bindAt + 2 := by omega
    have h16 : 16 + req.community.length + req.reqid.length = req.bindAt + 5 := by omega
    rw [prepared, Mem.read_set_other (by omega), Mem.read_set_other (by omega), h13, h16,
      read_set_at, read_set_at, Mem.read_set_other (by omega), hm.bindPart]
  · rw [prepared_read_other error (by omega), hm.oid]
  · have h23 : 23 + req.community.length + req.reqid.length + req.oid.length = req.valueAt := by
      omega
    have h24 : 24 + req.community.length + req.reqid.length + req.oid.length = req.valueAt + 1 := by
      omega
    rw [prepared, h24, h23]
    change [Mem.set _ (req.valueAt + 1) 0 req.valueAt,
      Mem.set _ (req.valueAt + 1) 0 (req.valueAt + 1)] = [asnNull, 0]
    rw [set_same, set_other (by omega), set_same]

theorem prepared_drafted (error : Int) (hm : req.Lies m) : (req.errorResponse error).Drafted
    (prepared error req.community.length req.reqid.length req.oid.length m) := by
  obtain ⟨hversion, hcommunity, hpdu, hreqid, hbind, hoid, hvalue⟩ := prepared_parts error hm
  exact ⟨⟨_, hversion⟩, hcommunity, ⟨_, _, hpdu⟩, hreqid, ⟨_, _, hbind⟩, hoid, hvalue⟩

theorem prepared_lies (error : Int) (hm : req.Lies m) (hvalue : req.value.length = 2) :
    (req.errorResponse error).Lies
      (prepared error req.community.length req.reqid.length req.oid.length m) := by
  have hsize : req.size = (req.errorResponse error).size := by
    rw [Message.size_eq, Message.size_eq, hvalue]
    rfl
  have hfield := Message.sizeField_congr hsize
  obtain ⟨hversion, hcommunity, hpdu, hreqid, hbind, hoid, hnull⟩ := prepared_parts error hm
  refine ⟨?_, hcommunity, ?_, hreqid, ?_, hoid, hnull⟩
  · rw [hversion, Message.versionPart, hfield]
    rfl
  · refine hpdu.trans ?_
    rw [Message.pduPart, hfield]
    rfl
  · refine hbind.trans ?_
    rw [Message.bindPart, hfield]
    rfl

end Prepared

section SixBytes

variable {req : Message} {m m' : Mem} {error : Int}

theorem Message.Lies.kept (hm : req.Lies m) (hkept : ∀ j < req.bindAt + 11, m' j = m j)
    (hoid : OidAt (req.bindAt + 11) m' req.oid) (hlen : req.oid.length < 256) :
    { req with value := m'.read req.valueAt req.value.length : Message }.Lies m' := by
  have hfield : { req with value := m'.read req.valueAt req.value.length : Message }.sizeField =
      req.sizeField :=
    Message.sizeField_congr (by rw [Message.size_eq, Message.size_eq, Mem.read_length])
  have hread : ∀ off len, off + len ≤ req.bindAt + 11 → m'.read off len = m.read off len :=
    fun off len hle => read_congr fun i hi => hkept _ (by omega)
  have hat := req.offsets
  refine ⟨?_, (hread 7 req.community.length (by omega)).trans hm.community, ?_,
    (hread req.reqidAt req.reqid.length (by omega)).trans hm.reqid, ?_,
    hoid.bytes, by rw [Mem.read_length]; rfl⟩
  · rw [Message.versionPart, hfield]
    exact (hread 0 7 (by omega)).trans hm.versionPart
  · rw [Message.pduPart, hfield]
    exact (hread (7 + req.community.length) 4 (by omega)).trans hm.pduPart
  · rw [Message.bindPart, hfield]
    refine Eq.trans (read_congr fun i hi => ?_) hm.bindPart
    by_cases hi' : i = 11
    · subst hi'
      refine eq_of_toNat_eq (hoid.len.trans ?_)
      have hbyte := eq_of_read hm.bindPart (show 11 < 12 by decide)
      exact ((congrArg BitVec.toNat hbyte).trans (toNat_ofNat_of_lt hlen)).symm
    · exact hkept (req.bindAt + i) (by omega)

theorem WellFormed.lengths (hreq : WellFormed req) : req.community.length < 128 ∧
    req.reqid.length < 128 ∧ req.oid.length < 128 := by
  have hsize := hreq.size
  rw [Message.size_eq] at hsize
  omega

theorem respond_kept {q k : Nat} {size : Nat} {j : Nat} (hq : (m' 16).toNat = q) (hj : 28 + q ≤ j)
    (hjk : j < 29 + q + k) : snmpFixSize size (prepared error 6 q k m') j = m' j := by
  have hq' : (prepared error 6 q k m' 16).toNat = q := by
    rw [prepared_other error (by omega), hq]
  rw [snmpFixSize_other hq' (by omega), prepared_other error (by omega)]

theorem echoes_six_iff (hreq : WellFormed req) (hsix : req.community.length = 6) (hm : req.Lies m)
    (hkept : ∀ j < req.bindAt + 11, m' j = m j) (herr : BitVec.ofInt 8 error ≠ 0) :
    Echoes req (snmpPrepareError error m') ↔
      req.oid.length ≤ maxOidLen ∧ OidAt (req.bindAt + 11) m' req.oid := by
  have hlens := hreq.lengths
  have hid := hreq.reqid
  rw [maxReqidLen] at hid
  have hbindAt : req.bindAt = 17 + req.reqid.length := by
    rw [Message.bindAt, Message.reqidAt, hsix]
  obtain ⟨h6, h16, -⟩ := hm.lengths (by omega) (by omega) (by omega)
  rw [hsix] at h6 h16
  have hn : min (m' 6).toNat maxCommunityLen = 6 := by
    rw [hkept 6 (by omega), h6]
    rfl
  have hq16 : (m' 16).toNat = req.reqid.length := by
    rw [hkept 16 (by omega)]
    exact h16
  have hq : min (m' (10 + 6)).toNat maxReqidLen = req.reqid.length := by
    rw [hq16, maxReqidLen]
    omega
  have hbyte : 22 + 6 + req.reqid.length = req.bindAt + 11 := by omega
  constructor
  · rintro ⟨msg, ⟨hsize, hsent⟩, hpdu, -, htlv, hcommunity, hreqid, hoid⟩
    rw [snmpPrepareError_eq error hn hq rfl, hbyte] at hsize hsent
    have hl := (Message.holds_iff _ _).mp hsent
    have hmat := Message.bindAt_congr hcommunity hreqid
    generalize hk : min (m' (req.bindAt + 11)).toNat maxOidLen = k at hsize hsent hl
    -- the length of the OID is where it was
    have hlen : (m' (req.bindAt + 11)).toNat = req.oid.length := by
      have h := (hl.lengths (by rw [hcommunity]; omega) (by rw [hreqid]; omega)
        (by rw [hoid]; omega)).2.2
      rw [hmat, hoid] at h
      rw [← h]
      exact congrArg BitVec.toNat (respond_kept hq16 (by omega) (by omega)).symm
    have hge := htlv.length_ge
    rw [maxOidLen] at hk
    rw [Message.size_eq, hcommunity, hreqid, hoid] at hsize
    refine ⟨by rw [maxOidLen]; omega, hlen, ?_⟩
    have hmoid : msg.oidAt = req.bindAt + 11 + 1 := by
      rw [Message.oidAt, hmat]
    rw [← hoid]
    refine Eq.trans (read_congr fun i hi => ?_) hl.oid
    rw [hoid] at hi
    rw [hmoid]
    exact (respond_kept hq16 (by omega) (by omega)).symm
  · rintro ⟨hle, hoid⟩
    have hlies := hm.kept hkept hoid (by omega)
    have hk : min (m' (22 + 6 + req.reqid.length)).toNat maxOidLen = req.oid.length := by
      rw [hbyte, hoid.len]
      exact Nat.min_eq_left hle
    have hdraft := prepared_drafted error hlies
    have hfixed := hdraft.fixed hsix rfl (show req.reqid.length < 256 by omega)
    have hsize : 25 + 6 + req.reqid.length + req.oid.length = (req.errorResponse error).size := by
      rw [Message.size_eq]
      change _ = 23 + req.community.length + req.reqid.length + req.oid.length + 2
      omega
    rw [hsix] at hfixed
    rw [snmpPrepareError_eq error hn hq hk, hsize]
    exact ⟨_, ⟨rfl, (Message.holds_iff _ _).mpr hfixed⟩, rfl, herr, ⟨asnNull, [], by decide, rfl⟩,
      rfl, rfl, rfl⟩

end SixBytes

/-! ## Another community -/

/-- What `snmp_fix_size` stores into a message behind its first size. -/
def Message.stores (msg : Message) : List (Nat × Byte) :=
  let x := (msg.buffer 16).toNat
  [(13, snmpGetResponse), (14, msg.sizeField 14), (24 + x, msg.sizeField (24 + x)),
    (26 + x, msg.sizeField (26 + x))]

/-- A store into an error response that leaves its OID and all around it as it is: it is
behind the message, stores what is there, or goes to the error index, to the type of the
NULL or, with another error, to the error status. -/
def Message.Harmless (msg : Message) (i : Nat) (b : Byte) : Prop :=
  msg.size ≤ i ∨ msg.buffer i = b ∨ i = msg.bindAt + 5 ∨ i = msg.valueAt ∨
    (i = msg.bindAt + 2 ∧ b ≠ 0)

instance (msg : Message) (i : Nat) (b : Byte) : Decidable (msg.Harmless i b) :=
  inferInstanceAs (Decidable (_ ∨ _))

section Other

variable {req msg : Message} {m : Mem} {error : Int}

theorem Message.Lies.altered (h : msg.Lies m) (version error index : Byte) {value : List Byte}
    (hvalue : value.length = msg.value.length) :
    { msg with version := version, error := error, index := index, value := value : Message }.Lies
      ((((m.set 4 version).set (msg.bindAt + 2) error).set (msg.bindAt + 5) index).write msg.valueAt
        value) := by
  have hfield : { msg with version := version, error := error, index := index, value := value :
      Message }.sizeField = msg.sizeField :=
    Message.sizeField_congr (by rw [Message.size_eq, Message.size_eq, hvalue])
  have hat := msg.offsets
  have hother : ∀ off len, (4 < off ∧ off + len ≤ msg.bindAt + 2) ∨
      (msg.bindAt + 5 < off ∧ off + len ≤ msg.valueAt) →
      ((((m.set 4 version).set (msg.bindAt + 2) error).set (msg.bindAt + 5) index).write msg.valueAt
        value).read off len = m.read off len := by
    intro off len hlen
    rw [read_write_other (by omega), Mem.read_set_other (by omega),
      Mem.read_set_other (by omega), Mem.read_set_other (by omega)]
  constructor
  · rw [read_write_other (by omega), Mem.read_set_other (by omega),
      Mem.read_set_other (by omega), Message.versionPart, hfield]
    refine (read_set_at m _ 0 7 4).trans ?_
    rw [h.versionPart]
    rfl
  · exact (hother 7 msg.community.length (by omega)).trans h.community
  · rw [Message.pduPart, hfield]
    exact (hother (7 + msg.community.length) 4 (by omega)).trans h.pduPart
  · exact (hother msg.reqidAt msg.reqid.length (by omega)).trans h.reqid
  · rw [Message.bindPart, hfield]
    change Mem.read _ msg.bindAt 12 = _
    rw [read_write_other (by omega), read_set_at, read_set_at,
      Mem.read_set_other (by omega), h.bindPart]
    rfl
  · exact (hother msg.oidAt msg.oid.length (by omega)).trans h.oid
  · exact read_write _ msg.valueAt value

theorem Message.Lies.buffer_eq (h : msg.Lies m) {i : Nat} (hi : i < msg.size) :
    msg.buffer i = m i := by
  have hread : m.read 0 msg.size = msg.bytes := (Message.holds_iff _ _).mpr h
  rw [Message.buffer, ← hread, getD_read m 0 hi, Nat.zero_add]

theorem Message.lies_of_buffer_eq (h : ∀ i < msg.size, m i = msg.buffer i) : msg.Lies m := by
  refine (Message.holds_iff _ _).mp ?_
  rw [Message.Holds, ← Message.bytes_length]
  refine read_eq_of fun i hi => ?_
  rw [Nat.zero_add]
  exact h i (by rwa [Message.bytes_length] at hi)

theorem fixed_cases (size : Nat) (m : Mem) {i : Nat} (hi : i ≠ 1) :
    (i = 13 ∧ snmpFixSize size m i = snmpGetResponse) ∨
      ((i = 14 ∨ i = 24 + (m 16).toNat ∨ i = 26 + (m 16).toNat) ∧
        snmpFixSize size m i = BitVec.ofInt 8 (size - 1 - i)) ∨
      ((i ≠ 13 ∧ i ≠ 14 ∧ i ≠ 24 + (m 16).toNat ∧ i ≠ 26 + (m 16).toNat) ∧
        snmpFixSize size m i = m i) := by
  rw [snmpFixSize_eq size m rfl]
  by_cases h26 : i = 26 + (m 16).toNat
  · subst h26
    exact .inr (.inl ⟨.inr (.inr rfl), set_same _ _ _⟩)
  rw [set_other h26]
  by_cases h24 : i = 24 + (m 16).toNat
  · subst h24
    exact .inr (.inl ⟨.inr (.inl rfl), set_same _ _ _⟩)
  rw [set_other h24]
  by_cases h14 : i = 14
  · subst h14
    exact .inr (.inl ⟨.inl rfl, set_same _ _ _⟩)
  rw [set_other h14]
  by_cases h13 : i = 13
  · subst h13
    exact .inl ⟨rfl, set_same _ _ _⟩
  rw [set_other h13, set_other hi]
  exact .inr (.inr ⟨⟨h13, h14, h24, h26⟩, rfl⟩)

theorem prepared_cases (error : Int) {n q k i : Nat} (m : Mem) (hi : i ≠ 7 + n) :
    prepared error n q k m i = m i ∨ prepared error n q k m i = BitVec.ofInt 8 error ∨
      prepared error n q k m i = 1 ∨ prepared error n q k m i = asnNull ∨
      prepared error n q k m i = 0 := by
  simp only [prepared, Mem.set]
  split
  · exact .inr (.inr (.inr (.inr rfl)))
  split
  · exact .inr (.inr (.inr (.inl rfl)))
  split
  · exact .inr (.inr (.inl rfl))
  split
  · exact .inr (.inl rfl)
  · exact .inl rfl

theorem ofInt_size_ne {size i : Nat} (hlow : i ≤ size + 92) (hhigh : size ≤ i + 162) :
    BitVec.ofInt 8 (size - 1 - i) ≠ snmpGetResponse := by
  intro h
  have hnat := congrArg BitVec.toNat h
  rw [toNat_ofInt] at hnat
  change _ = 162 at hnat
  omega

theorem not_echoes_long (hreq : WellFormed req) (hm : req.Lies m)
    (hlong : maxCommunityLen < req.community.length) :
    ¬ Echoes req (snmpPrepareError errGenErr m) := by
  rintro ⟨msg, ⟨-, hsent⟩, hpdu, -, -, hcommunity, -, -⟩
  have hl := (Message.holds_iff _ _).mp hsent
  have hlens := hreq.lengths
  have hbyte : (snmpPrepareError errGenErr m).2 (7 + req.community.length) = snmpGetResponse := by
    have h := eq_of_read hl.pduPart (show 0 < 4 by decide)
    rw [hcommunity] at h
    rw [← hpdu]
    exact h
  have hold : m (7 + req.community.length) = req.pdu :=
    eq_of_read hm.pduPart (show 0 < 4 by decide)
  obtain ⟨h6, -, -⟩ := hm.lengths (by omega) (by omega) (by omega)
  have hn : min (m 6).toNat maxCommunityLen = 32 := by
    rw [h6]
    exact Nat.min_eq_right (Nat.le_of_lt hlong)
  rw [snmpPrepareError_eq errGenErr hn rfl rfl] at hbyte
  have hq := Nat.min_le_right (m (10 + 32)).toNat maxReqidLen
  generalize min (m (10 + 32)).toNat maxReqidLen = q at hbyte hq
  have hk := Nat.min_le_right (m (22 + 32 + q)).toNat maxOidLen
  generalize min (m (22 + 32 + q)).toNat maxOidLen = k at hbyte hk
  rw [maxReqidLen] at hq
  rw [maxOidLen] at hk
  dsimp only at hbyte
  rcases fixed_cases (25 + 32 + q + k) (prepared errGenErr 32 q k m)
      (show 7 + req.community.length ≠ 1 by omega) with ⟨h13, -⟩ | ⟨-, hfix⟩ | ⟨-, hfix⟩
  · omega
  · exact ofInt_size_ne (by omega) (by omega) (hfix.symm.trans hbyte)
  · rw [hbyte] at hfix
    rcases prepared_cases errGenErr m
        (show 7 + req.community.length ≠ 7 + 32 by omega) with h | h | h | h | h
    · rw [h, hold] at hfix
      rcases hreq.pdu with hp | hp | hp <;> exact absurd (hfix.trans hp) (by decide)
    all_goals exact absurd (hfix.trans h) (by decide)

/-- A message and an error response with the same community, request-id and OID differ in
five bytes at most, and the NULL keeps its length. -/
theorem errorResponse_agrees (error : Int) (hl : msg.Lies m) (hpdu : msg.pdu = snmpGetResponse)
    (hcommunity : msg.community = req.community) (hreqid : msg.reqid = req.reqid)
    (hoid : msg.oid = req.oid) (htlv : IsTlv msg.value) (hlen : msg.value.length = 2) :
    ∀ i < (req.errorResponse error).size, i ≠ 4 → i ≠ req.bindAt + 2 → i ≠ req.bindAt + 5 →
      i ≠ req.valueAt → (req.errorResponse error).buffer i = m i := by
  intro i hi h4 herror hindex hvalue
  obtain ⟨type, data, -, hv⟩ := htlv
  have hdata : data = [] := by
    rw [hv] at hlen
    exact eq_nil_of_length_eq_zero (Nat.succ.inj (Nat.succ.inj hlen))
  subst hdata
  have hE : { msg with
      version := req.version, error := BitVec.ofInt 8 error, index := 1, value := [asnNull, 0]
      : Message } = req.errorResponse error := by
    rw [Message.errorResponse, hpdu, hcommunity, hreqid, hoid]
  have hbindAt := Message.bindAt_congr hcommunity hreqid
  have hvalueAt : msg.valueAt = req.valueAt := by
    rw [Message.valueAt, Message.oidAt, hbindAt, hoid]
    rfl
  have halt := hl.altered req.version (BitVec.ofInt 8 error) 1
    (show [asnNull, 0].length = msg.value.length from hlen.symm)
  rw [hE, hbindAt, hvalueAt] at halt
  rw [halt.buffer_eq hi]
  by_cases hlast : i = req.valueAt + 1
  · have hbyte := eq_of_read hl.value (show 1 < msg.value.length by omega)
    rw [hv, hvalueAt] at hbyte
    rw [hlast, write_at (show 1 < [asnNull, 0].length by decide), hbyte]
    rfl
  · rw [write_other, set_other hindex, set_other herror, set_other h4]
    change i < req.valueAt ∨ req.valueAt + 2 ≤ i
    omega

theorem fixed_of_ne {size : Nat} {m : Mem} {i : Nat} {b : Byte} (hi : 1 < i)
    (hfix : snmpFixSize size m i = b) (hne : m i ≠ b) (hpdu : b ≠ snmpGetResponse) :
    i = 14 ∨ i = 24 + (m 16).toNat ∨ i = 26 + (m 16).toNat := by
  rcases fixed_cases size m (show i ≠ 1 by omega) with ⟨-, h⟩ | ⟨h, -⟩ | ⟨-, h⟩
  · exact absurd (hfix.symm.trans h) hpdu
  · exact h
  · exact absurd (h.symm.trans hfix) hne

theorem sizeField_ne {E : Message} (hlt : E.size < req.size)
    (hle : req.size ≤ E.size + 255) (i : Nat) :
    req.sizeField i ≠ E.sizeField i := by
  intro h
  have hnat := congrArg BitVec.toNat h
  rw [Message.sizeField, Message.sizeField, toNat_ofInt, toNat_ofInt] at hnat
  omega

theorem errorResponse_size (req : Message) (error : Int) : (req.errorResponse error).size =
    25 + req.community.length + req.reqid.length + req.oid.length := by
  rw [Message.size_eq]
  change 23 + req.community.length + req.reqid.length + req.oid.length + 2 = _
  omega

/-- Unless the community has six bytes, the three sizes behind it are not all where
`snmp_fix_size` stores, so they have to be right before. -/
theorem value_length_of_agrees (hreq : WellFormed req) (hm : req.Lies m)
    (hsix : req.community.length ≠ 6)
    (hagrees : ∀ i < (req.errorResponse error).size, i ≠ 4 → i ≠ req.bindAt + 2 →
      i ≠ req.bindAt + 5 →
      i ≠ req.valueAt → (req.errorResponse error).buffer i =
        snmpFixSize (req.errorResponse error).size
          (prepared error req.community.length req.reqid.length req.oid.length m) i) :
    req.value.length = 2 := by
  by_contra hne
  have hge := hreq.value.length_ge
  have hle := hreq.size
  have hsize := errorResponse_size req error
  have hsize' := req.size_eq
  have hat := req.offsets
  have hfield : ∀ i, req.sizeField i ≠ (req.errorResponse error).sizeField i :=
    sizeField_ne (by omega) (by omega)
  have hnew := ((Message.holds_iff _ _).mp (req.errorResponse error).holds_buffer).sizes
  have hold := hm.sizes
  have hkept : ∀ i, i = 8 + req.community.length ∨ i = req.bindAt + 7 ∨ i = req.bindAt + 9 →
      prepared error req.community.length req.reqid.length req.oid.length m i = m i := by
    intro i hi
    exact prepared_other error (by omega)
  generalize prepared error req.community.length req.reqid.length req.oid.length m =
    P at hagrees hkept
  have hstored : ∀ i, i = 8 + req.community.length ∨ i = req.bindAt + 7 ∨ i = req.bindAt + 9 →
      (req.errorResponse error).buffer i = (req.errorResponse error).sizeField i →
      m i = req.sizeField i → i = 14 ∨ i = 24 + (P 16).toNat ∨ i = 26 + (P 16).toNat := by
    intro i hi hbuffer hmi
    refine fixed_of_ne (by omega) ((hagrees i (by omega) (by omega) (by omega) (by omega)
      (by omega)).symm.trans hbuffer) ?_ (ofInt_size_ne (by omega) (by omega))
    rw [hkept i hi, hmi]
    exact hfield i
  have h8 := hstored _ (.inl rfl) hnew.1 hold.1
  have h9 := hstored _ (.inr (.inr rfl)) hnew.2.2 hold.2.2
  omega

theorem fixed_stores (h16 : m 16 = msg.buffer 16) :
    (∀ s ∈ msg.stores, 13 ≤ s.1 ∧ snmpFixSize msg.size m s.1 = s.2) ∧
      ∀ i, i ≠ 1 → (∃ s ∈ msg.stores, s.1 = i) ∨ snmpFixSize msg.size m i = m i := by
  have hx : (m 16).toNat = (msg.buffer 16).toNat := congrArg _ h16
  constructor
  · intro s hs
    rw [snmpFixSize_eq _ _ hx]
    simp only [Message.stores, mem_cons, not_mem_nil, or_false] at hs
    rcases hs with rfl | rfl | rfl | rfl
    · refine ⟨Nat.le_refl _, ?_⟩
      rw [set_other (by omega), set_other (by omega),
        set_other (by omega), set_same]
    · refine ⟨Nat.le_succ _, ?_⟩
      rw [set_other (by omega), set_other (by omega)]
      rfl
    · refine ⟨by omega, ?_⟩
      rw [set_other (by omega), set_same]
      rfl
    · refine ⟨by omega, ?_⟩
      rw [set_same]
      rfl
  · intro i hi
    rcases fixed_cases msg.size m hi with ⟨h, -⟩ | ⟨h, -⟩ | ⟨-, h⟩
    · exact .inl ⟨_, .head _, h.symm⟩
    · rw [hx] at h
      rcases h with h | h | h
      · exact .inl ⟨_, .tail _ (.head _), h.symm⟩
      · exact .inl ⟨_, .tail _ (.tail _ (.head _)), h.symm⟩
      · exact .inl ⟨_, .tail _ (.tail _ (.tail _ (.head _))), h.symm⟩
    · exact .inr h

theorem errorResponse_altered (herror : BitVec.ofInt 8 error ≠ 0)
    (hm : ∀ i < (req.errorResponse error).size, m i = (req.errorResponse error).buffer i ∨
      i = req.bindAt + 5 ∨ i = req.valueAt ∨ (i = req.bindAt + 2 ∧ m i ≠ 0)) :
    Echoes req ((req.errorResponse error).size, m) := by
  have hsize := errorResponse_size req error
  have hat := req.offsets
  have hlies := (Message.holds_iff _ _).mp (req.errorResponse error).holds_buffer
  have hlast : (req.errorResponse error).buffer (req.valueAt + 1) = 0 :=
    eq_of_read hlies.value (show 1 < 2 by decide)
  have hstatus : (req.errorResponse error).buffer (req.bindAt + 2) = BitVec.ofInt 8 error :=
    eq_of_read hlies.bindPart (show 2 < 12 by decide)
  have hlen : [m req.valueAt, 0].length = 2 := rfl
  refine ⟨{ req with
    pdu := snmpGetResponse, error := m (req.bindAt + 2), index := m (req.bindAt + 5),
    value := [m req.valueAt, 0] }, ⟨rfl, (Message.holds_iff _ _).mpr ?_⟩, rfl, ?_,
    ⟨_, [], by decide, rfl⟩, rfl, rfl, rfl⟩
  · have halt := hlies.altered req.version (m (req.bindAt + 2)) (m (req.bindAt + 5)) hlen
    refine Message.lies_of_buffer_eq fun i hi => ?_
    have hi' : i < (req.errorResponse error).size := hi
    refine Eq.trans ?_ (halt.buffer_eq hi).symm
    change m i = ((((req.errorResponse error).buffer.set 4 req.version).set (req.bindAt + 2)
      (m (req.bindAt + 2))).set (req.bindAt + 5) (m (req.bindAt + 5))).write req.valueAt
      [m req.valueAt, 0] i
    by_cases hv : i = req.valueAt
    · rw [hv]
      exact (write_at (show 0 < [m req.valueAt, 0].length by omega)).symm
    by_cases h5 : i = req.bindAt + 5
    · rw [write_other (show i < req.valueAt ∨ req.valueAt + 2 ≤ i by omega), h5, set_same]
    by_cases h2 : i = req.bindAt + 2
    · rw [write_other (show i < req.valueAt ∨ req.valueAt + 2 ≤ i by omega), set_other h5, h2,
        set_same]
    have hbyte := (hm i hi').resolve_right fun h => by omega
    by_cases hv' : i = req.valueAt + 1
    · rw [hv'] at hbyte ⊢
      rw [write_at (show 1 < [m req.valueAt, 0].length by omega)]
      exact hbyte.trans hlast
    rw [write_other (show i < req.valueAt ∨ req.valueAt + 2 ≤ i by omega), set_other h5,
      set_other h2]
    by_cases h4 : i = 4
    · rw [h4] at hbyte ⊢
      exact hbyte
    · rwa [set_other h4]
  · rcases hm (req.bindAt + 2) (by omega) with h | h | h | ⟨-, h⟩
    · rw [h, hstatus]
      exact herror
    · omega
    · omega
    · exact h

theorem snmpPrepareError_request (error : Int) (hreq : WellFormed req) (hm : req.Lies m)
    (hn : req.community.length ≤ maxCommunityLen) :
    snmpPrepareError error m =
      (25 + req.community.length + req.reqid.length + min req.oid.length maxOidLen,
        snmpFixSize (25 + req.community.length + req.reqid.length + min req.oid.length maxOidLen)
          (prepared error req.community.length req.reqid.length
            (min req.oid.length maxOidLen) m)) := by
  have hlens := hreq.lengths
  have hid := hreq.reqid
  have hat := req.offsets
  obtain ⟨h6, h10, h11⟩ := hm.lengths (by omega) (by omega) (by omega)
  refine snmpPrepareError_eq error ?_ ?_ ?_
  · rw [h6]
    exact Nat.min_eq_left hn
  · rw [h10]
    exact Nat.min_eq_left hid.2
  · rw [show 22 + req.community.length + req.reqid.length = req.bindAt + 11 by omega, h11]

def sentError (req : Message) (m : Mem) : Mem :=
  snmpFixSize (req.errorResponse errGenErr).size
    (prepared errGenErr req.community.length req.reqid.length req.oid.length m)

theorem prepared_size (hm : req.Lies m) (h2 : req.value.length = 2) :
    prepared errGenErr req.community.length req.reqid.length req.oid.length m 16 =
      (req.errorResponse errGenErr).buffer 16 := by
  have hsize := errorResponse_size req errGenErr
  exact ((prepared_lies errGenErr hm h2).buffer_eq (by omega)).symm

theorem harmless_of_echoes (hreq : WellFormed req) (hm : req.Lies m)
    (hsix : req.community.length ≠ 6)
    (h : Echoes req ((req.errorResponse errGenErr).size, sentError req m)) :
    req.value.length = 2 ∧ ∀ s ∈ (req.errorResponse errGenErr).stores,
      (req.errorResponse errGenErr).Harmless s.1 s.2 := by
  obtain ⟨msg, ⟨hlen, hsent⟩, hpdu, herror, htlv, hcommunity, hreqid, hoid⟩ := h
  have hsize := errorResponse_size req errGenErr
  have hl := (Message.holds_iff _ _).mp hsent
  have h2 : msg.value.length = 2 := by
    rw [Message.size_eq msg, hcommunity, hreqid, hoid] at hlen
    omega
  have hagrees := errorResponse_agrees errGenErr hl hpdu hcommunity hreqid hoid htlv h2
  have hvalue := value_length_of_agrees hreq hm hsix hagrees
  refine ⟨hvalue, fun s hs => ?_⟩
  obtain ⟨hge, hstored⟩ := (fixed_stores (prepared_size hm hvalue)).1 s hs
  by_cases hle : (req.errorResponse errGenErr).size ≤ s.1
  · exact .inl hle
  by_cases h5 : s.1 = req.bindAt + 5
  · exact .inr (.inr (.inl h5))
  by_cases hv : s.1 = req.valueAt
  · exact .inr (.inr (.inr (.inl hv)))
  by_cases he : s.1 = req.bindAt + 2
  · refine .inr (.inr (.inr (.inr ⟨he, ?_⟩)))
    have hbyte : sentError req m (msg.bindAt + 2) = msg.error :=
      eq_of_read hl.bindPart (show 2 < 12 by decide)
    rw [Message.bindAt_congr hcommunity hreqid, ← he, sentError, hstored] at hbyte
    rw [hbyte]
    exact herror
  · exact .inr (.inl ((hagrees s.1 (Nat.not_le.mp hle) (by omega) he h5 hv).trans hstored))

theorem echoes_of_harmless (hm : req.Lies m) (hvalue : req.value.length = 2)
    (hharmless : ∀ s ∈ (req.errorResponse errGenErr).stores,
      (req.errorResponse errGenErr).Harmless s.1 s.2) :
    Echoes req ((req.errorResponse errGenErr).size, sentError req m) := by
  have hlies := prepared_lies errGenErr hm hvalue
  obtain ⟨hstored, hother⟩ := fixed_stores (prepared_size hm hvalue)
  refine errorResponse_altered (by decide) fun i hi => ?_
  by_cases h1 : i = 1
  · left
    rw [h1, sentError, snmpFixSize_eq _ _ rfl, set_other (by omega), set_other (by omega)]
    rfl
  rcases hother i h1 with ⟨s, hs, hsi⟩ | h
  · have hsb := (hstored s hs).2
    rw [hsi] at hsb
    rcases hharmless s hs with h | h | h | h | ⟨h, hb⟩
    · omega
    · left
      rw [sentError, hsb, ← h, hsi]
    · exact .inr (.inl (hsi.symm.trans h))
    · exact .inr (.inr (.inl (hsi.symm.trans h)))
    · exact .inr (.inr (.inr ⟨hsi.symm.trans h, by rwa [sentError, hsb]⟩))
  · left
    rw [sentError, h, hlies.buffer_eq hi]

/-- With another length than six, nothing may be left for `snmp_fix_size` to do, and what
it does has to be harmless. -/
theorem echoes_other_iff (hreq : WellFormed req) (hm : req.Lies m)
    (hsix : req.community.length ≠ 6) :
    Echoes req (snmpPrepareError errGenErr m) ↔
      req.community.length ≤ maxCommunityLen ∧ req.oid.length ≤ maxOidLen ∧ req.value.length = 2 ∧
        ∀ s ∈ (req.errorResponse errGenErr).stores,
          (req.errorResponse errGenErr).Harmless s.1 s.2 := by
  by_cases hn : req.community.length ≤ maxCommunityLen
  case neg =>
    exact iff_of_false (not_echoes_long hreq hm (Nat.not_le.mp hn)) fun h => hn h.1
  have hresp := snmpPrepareError_request errGenErr hreq hm hn
  -- the response has the length of the OID
  by_cases hk : req.oid.length ≤ maxOidLen
  case neg =>
    refine iff_of_false ?_ fun h => hk h.2.1
    rintro ⟨msg, ⟨hlen, -⟩, -, -, htlv, hcommunity, hreqid, hoid⟩
    have hge := htlv.length_ge
    rw [hresp] at hlen
    rw [Message.size_eq, hcommunity, hreqid, hoid] at hlen
    omega
  rw [Nat.min_eq_left hk, ← errorResponse_size req errGenErr] at hresp
  rw [hresp]
  constructor
  · intro h
    exact ⟨hn, hk, harmless_of_echoes hreq hm hsix h⟩
  · rintro ⟨-, -, hvalue, hharmless⟩
    exact echoes_of_harmless hm hvalue hharmless

end Other

/-! ## All requests -/

structure Repeated (limbs : List Limb) (req : Message) : Prop where
  community : req.community.length ≤ maxCommunityLen
  oid : req.oid.length ≤ maxOidLen
  sizes : req.community.length = 6 ∨ (req.value.length = 2 ∧
    ∀ s ∈ (req.errorResponse errGenErr).stores, (req.errorResponse errGenErr).Harmless s.1 s.2)
  next : req.community = publicName → req.pdu = snmpGetNext → ∀ l ∈ limbs, Untouched req.oid l

section Agent

variable {a : Agent} {req : Message} {m : Mem}

theorem echoes_kept_iff (hreq : WellFormed req) (hm : req.Lies m) (hsix : req.community.length = 6)
    (hnext : req.community = publicName → req.pdu ≠ snmpGetNext) {m' : Mem} {error : Int}
    (herr : BitVec.ofInt 8 error ≠ 0)
    (hkept : ∀ j < req.bindAt + 12 + req.oid.length, m' j = m j) :
    Echoes req (snmpPrepareError error m') ↔ Repeated a.limbs req := by
  have hlens := hreq.lengths
  have hoid : OidAt (req.bindAt + 11) m' req.oid := by
    constructor
    · rw [hkept _ (by omega)]
      exact (hm.lengths (by omega) (by omega) (by omega)).2.2
    · exact (read_congr fun i hi => hkept _ (by omega)).trans hm.oid
  rw [echoes_six_iff hreq hsix hm (fun j hj => hkept j (by omega)) herr]
  constructor
  · rintro ⟨hle, -⟩
    exact ⟨by rw [hsix]; decide, hle, .inl hsix, fun hpub hpdu => absurd hpdu (hnext hpub)⟩
  · intro h
    exact ⟨h.oid, hoid⟩

theorem echoes_public_iff (hlimbs : WellOrdered a.limbs) (hserved : Served req.version a.limbs)
    (hreq : WellFormed req) (hm : req.Lies m) (hpub : req.community = publicName)
    (herr : errorOf a m ≠ none) : Echoes req (snmpRespond a m) ↔ Repeated a.limbs req := by
  have hlens := hreq.lengths
  have hsix : req.community.length = 6 := by
    rw [hpub]
    rfl
  have hlen := (hm.lengths (by omega) (by omega) (by omega)).2.2
  have hheader := matchHeader_public a.setEnabled hm hpub hreq.version (by omega)
  rw [errorOf, hheader] at herr
  rw [snmpRespond, hheader]
  cases hmode : modeOf a.setEnabled req.pdu with
  | none =>
    -- a SET where there are none
    refine echoes_kept_iff hreq hm hsix (fun _ hpdu => ?_) (by decide) fun _ _ => rfl
    rw [hpdu] at hmode
    cases hmode
  | some mode =>
    rw [hmode] at herr
    simp only [Option.map_some] at herr ⊢
    by_cases hnext : mode = .getNext
    · have hpdu := modeOf_getNext (hnext ▸ hmode)
      rw [hnext] at herr ⊢
      have hoid : OidAt (req.bindAt + 11) m req.oid := ⟨hlen, hm.oid⟩
      have hfin := limbLoop_answer req.version hoid hlimbs.ahead hlimbs.func
      cases hans : answer req.version req.oid a.limbs with
      | some o =>
        rw [hans] at hfin
        obtain ⟨m', hout, -⟩ := hfin
        rw [hout] at herr
        exact absurd rfl herr
      | none =>
        rw [hans] at hfin
        obtain ⟨m₁, hout₁, hkept⟩ := hfin
        obtain ⟨m', hout, htouched⟩ := limbLoop_touched hoid hlimbs hserved hans
        obtain rfl : m₁ = m' := (Outcome.failed.inj (hout₁.symm.trans hout)).2
        simp only [hout]
        rw [echoes_six_iff hreq hsix hm hkept (by decide), htouched]
        constructor
        · rintro ⟨hle, huntouched⟩
          exact ⟨by rw [hsix]; decide, hle, .inl hsix, fun _ _ => huntouched⟩
        · intro h
          exact ⟨h.oid, h.next hpub hpdu⟩
    · cases hout : limbLoop req.version (req.bindAt + 11) mode a.limbs m with
      | found size m' =>
        rw [hout] at herr
        exact absurd rfl herr
      | failed error m' =>
        have hsettles := limbLoop_settles (b := req.bindAt + 11) (m := m) req.version hnext
          fun l hl => ⟨(hlimbs.length l hl).2, hlimbs.func l hl⟩
        rw [hout] at hsettles
        obtain ⟨herror, hkept⟩ := hsettles
        refine echoes_kept_iff hreq hm hsix (fun _ hpdu => ?_) ?_ fun j hj => hkept j (by omega)
        · rw [hpdu] at hmode
          exact hnext (Option.some.inj hmode).symm
        · rcases herror with rfl | rfl | rfl <;> decide

theorem echoes_stranger_iff (hreq : WellFormed req) (hm : req.Lies m)
    (hother : req.community ≠ publicName) :
    Echoes req (snmpRespond a m) ↔ Repeated a.limbs req := by
  have hlens := hreq.lengths
  rw [snmpRespond, matchHeader_other hm (by omega) hother]
  by_cases hsix : req.community.length = 6
  · exact echoes_kept_iff hreq hm hsix (fun hpub _ => hother hpub) (by decide) fun _ _ => rfl
  · refine (echoes_other_iff hreq hm hsix).trans ?_
    constructor
    · rintro ⟨hn, hk, hvalue, hharmless⟩
      exact ⟨hn, hk, .inr ⟨hvalue, hharmless⟩, fun hpub => absurd hpub hother⟩
    · intro h
      have hsizes := h.sizes.resolve_left hsix
      exact ⟨h.community, h.oid, hsizes.1, hsizes.2⟩

end Agent

section Arrays

variable (cfg : Config) (env : Env) (version : Byte)

theorem groupLimb_served {oid : List Byte} {fields : List (List Byte × Asn × Option Nat)}
    (h : ∃ f ∈ fields, f.2.1 ≠ .counter64) : (groupLimb cfg env oid fields).objs version ≠ [] := by
  obtain ⟨f, hf, hasn⟩ := h
  have hobj : (⟨oid ++ f.1, tlv f.2.1 (env.var (oid ++ f.1))⟩ : Obj) ∈
      (groupLimb cfg env oid fields).objs version := by
    refine List.mem_flatMap.mpr ⟨_, mem_map_of_mem hf, ?_⟩
    have havail : available version f.2.1 = true := by
      rw [available, beq_eq_false_iff_ne.mpr hasn]
      rfl
    rw [Twig.objs, field, if_pos havail]
    exact mem_singleton_self _
  exact ne_nil_of_mem hobj

theorem limbArray_served : Served version (limbArray cfg env) := by
  have hgroup : ∀ {oid : List Byte} {fields : List (List Byte × Asn × Option Nat)},
      (∃ f ∈ fields, f.2.1 ≠ .counter64) → ∀ twigs,
      (groupLimb cfg env oid fields).func = .group twigs →
        (groupLimb cfg env oid fields).objs version ≠ [] :=
    fun h _ _ => groupLimb_served cfg env version h
  refine forall_mem_limbArray cfg env ?_ ?_ ?_ ?_
  · exact ⟨hgroup (by decide), hgroup (by decide), fun _ h => (nomatch h), hgroup (by decide),
      hgroup (by decide), hgroup (by decide)⟩
  · exact ⟨hgroup (by decide), fun _ h => nomatch h⟩
  · exact ⟨hgroup (by decide), hgroup (by decide), hgroup (by decide), hgroup (by decide),
      hgroup (by decide)⟩
  · exact ⟨fun _ h => (nomatch h), fun _ h => nomatch h⟩

end Arrays

/-- **Error responses.**  A request that is answered with an error finds its community,
request-id and OID in the response exactly if it is `Repeated`. -/
theorem error_echoes (cfg : Config) (env : Env) (req : Message) (m : Mem) (hreq : WellFormed req)
    (hm : req.Holds m) (herr : errorOf (agent cfg env) m ≠ none) :
    Echoes req (snmpRespond (agent cfg env) m) ↔ Repeated (limbArray cfg env) req := by
  have hlies := (Message.holds_iff _ _).mp hm
  by_cases hpub : req.community = publicName
  · exact echoes_public_iff (limbArray_wellOrdered cfg env)
      (limbArray_served cfg env req.version) hreq hlies hpub herr
  · exact echoes_stranger_iff hreq hlies hpub

def lastObject : Message :=
  ⟨0, publicName, snmpGetNext, [1], 0, 0, enterprise ++ [1, 7, 5, 0], [5, 0]⟩

theorem lastObject_wellFormed : WellFormed lastObject :=
  ⟨by decide, .inr (.inl rfl), by decide, rfl, rfl, ⟨5, [], by decide, rfl⟩, by decide⟩

theorem lastObject_error :
    errorOf (agent bareConfig idleEnv) lastObject.buffer = some errNoSuchName := by
  decide +kernel

theorem error_echoes_lastObject :
    Echoes lastObject (snmpRespond (agent bareConfig idleEnv) lastObject.buffer) ↔
      Repeated (limbArray bareConfig idleEnv) lastObject :=
  error_echoes bareConfig idleEnv lastObject lastObject.buffer lastObject_wellFormed
    lastObject.holds_buffer (by rw [lastObject_error]; exact Option.some_ne_none _)

/-- The table of SFPs has tried its first cell: its OID is in the response. -/
theorem lastObject_not_echoed : WellFormed lastObject ∧ lastObject.Holds lastObject.buffer ∧
    errorOf (agent bareConfig idleEnv) lastObject.buffer = some errNoSuchName ∧
    (snmpRespond (agent bareConfig idleEnv) lastObject.buffer).2.read lastObject.oidAt 11 =
      enterprise ++ [1, 8, 1, 2] ∧
    ¬ Echoes lastObject (snmpRespond (agent bareConfig idleEnv) lastObject.buffer) := by
  have hread : (snmpRespond (agent bareConfig idleEnv) lastObject.buffer).2.read
      lastObject.oidAt 11 =
      enterprise ++ [1, 8, 1, 2] := by
    decide +kernel
  refine ⟨lastObject_wellFormed, lastObject.holds_buffer, lastObject_error, hread, ?_⟩
  rintro ⟨msg, ⟨-, hsent⟩, -, -, -, hcommunity, hreqid, hoid⟩
  have hl := ((Message.holds_iff _ _).mp hsent).oid
  rw [Message.oidAt, Message.bindAt, Message.reqidAt, hcommunity, hreqid, hoid] at hl
  exact absurd (hl.symm.trans hread) (by decide)

end Wrpc.Snmp
