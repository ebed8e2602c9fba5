/-
# The length fields of a response (`snmp.c`)

A response is built over its request: the OID may have become another one, the value behind it
is new, and `snmp_fix_size` then goes over the header once more and stores the four sizes.  It
finds them by the size of the request-id, so they are right if the header is still where it was.

A GETNEXT is answered with an object of the agent (`snmpRespond_answers`), a GET or a SET with
the OID as it stands and a value behind it (`limbLoop_settles`).  Either way the response is the
request with another OID and value, and short enough for sizes of one byte.
-/
import Wrpc.Net.SnmpTouch
import Wrpc.Net.SnmpWalk

namespace Wrpc.Snmp

open List

variable {version : Byte}

/-! ## The response -/

theorem tlv_length_le (asn : Asn) (p : Mem) : (tlv asn p).length ≤ 33 := by
  rw [tlv_length]
  cases asn with
  | octetStr =>
    have hstr : (p.cstr maxStrLen 0).length ≤ maxStrLen := Mem.cstr_le p maxStrLen 0
    exact Nat.add_le_add_right hstr 2
  | counter64 => simp only [asnData, Mem.read_length]; decide
  | integer | ipAddress | counter | unsigned | timeticks =>
    simp only [asnData, Mem.read_length]; decide

theorem value_of_mem_objects {limbs : List Limb} {o : Obj} (h : o ∈ objects version limbs) :
    ∃ asn p, o.value = tlv asn p := by
  obtain ⟨⟨limb, func⟩, -, hol⟩ := mem_flatMap.mp h
  cases func with
  | group twigs =>
    obtain ⟨t, -, ht⟩ := mem_flatMap.mp hol
    rw [Twig.objs] at ht
    split at ht
    · rw [mem_singleton.mp ht]
      exact ⟨_, _, rfl⟩
    · cases ht
  | table twigs table =>
    obtain ⟨c, -, hc⟩ := mem_flatMap.mp hol
    obtain ⟨i, -, rfl⟩ := mem_map.mp hc
    exact ⟨_, _, rfl⟩
  | auxDiag bank =>
    obtain ⟨i, -, rfl⟩ := mem_map.mp hol
    exact ⟨_, _, rfl⟩

theorem oid_length_le_of_mem {limbs : List Limb} (hlimbs : WellOrdered limbs) {o : Obj}
    (h : o ∈ objects version limbs) : o.oid.length ≤ maxOidLen + 2 := by
  obtain ⟨l, hl, hol⟩ := mem_flatMap.mp h
  obtain ⟨tw, htw, hoid⟩ := oid_of_mem_objs (hlimbs.func l hl) hol
  rw [hoid, length_append, htw]
  exact Nat.add_le_add_right (hlimbs.length l hl).2 2

/-- A request that gets past the header, if SETs are compiled in. -/
structure IsRequest (req : Message) : Prop where
  version : req.version.toNat ≤ versionMax
  community : req.community = publicName
  pdu : req.pdu = snmpGet ∨ req.pdu = snmpGetNext ∨ req.pdu = snmpSet
  reqid : 1 ≤ req.reqid.length ∧ req.reqid.length ≤ maxReqidLen
  error : req.error = 0
  oid : req.oid.length < 256

section Response

variable {req : Message} {m : Mem}

theorem IsRequest.six (hreq : IsRequest req) : req.community.length = 6 := by
  rw [hreq.community]
  rfl

theorem IsRequest.bindAt_eq (hreq : IsRequest req) : req.bindAt = 17 + req.reqid.length := by
  rw [Message.bindAt, Message.reqidAt, hreq.six]

theorem IsRequest.status_ne_zero (hreq : IsRequest req) (hm : req.Lies m) {error : Int}
    (herror : BitVec.ofInt 8 error ≠ 0) {m' : Mem} (hkept : ∀ j < req.bindAt, m' j = m j) :
    (snmpPrepareError error m').2 (req.bindAt + 2) ≠ 0 := by
  have hat := hreq.bindAt_eq
  have hid := hreq.reqid.2
  rw [maxReqidLen] at hid
  have hlengths := hm.lengths (by rw [hreq.six]; decide) (by omega) hreq.oid
  rw [hreq.six] at hlengths
  rw [hat, show 17 + req.reqid.length + 2 = 19 + req.reqid.length by omega,
    snmpPrepareError_status error (by rw [hkept 6 (by omega)]; exact hlengths.1)
      (by rw [hkept 16 (by omega)]; exact hlengths.2.1) hreq.reqid.2]
  exact herror

theorem snmpRespond_sends {a : Agent} (hlimbs : WellOrdered a.limbs) (hreq : IsRequest req)
    (hm : req.Lies m) (hok : (snmpRespond a m).2 (req.bindAt + 2) = 0) :
    ∃ oid value : List Byte, oid.length ≤ maxOidLen + 2 ∧ value.length ≤ 33 ∧
      Sends (snmpRespond a m)
        { req with pdu := snmpGetResponse, oid := oid, value := value } := by
  have hid := hreq.reqid.2
  rw [maxReqidLen] at hid
  have hheader := matchHeader_public a.setEnabled hm hreq.community hreq.version (by omega)
  cases hmode : modeOf a.setEnabled req.pdu with
  | none =>
    -- a SET where they are not compiled in
    rw [hmode, Option.map_none] at hheader
    rw [snmpRespond, hheader] at hok
    exact absurd hok (hreq.status_ne_zero hm (by decide) fun _ _ => rfl)
  | some mode =>
    rw [hmode, Option.map_some] at hheader
    by_cases hnext : mode = .getNext
    · have hanswer := snmpRespond_answers hlimbs ⟨hreq.version, hreq.community,
        modeOf_getNext (hnext ▸ hmode), hreq.reqid, hreq.error, hreq.oid⟩ hm
      cases hobj : answer req.version req.oid a.limbs with
      | none =>
        rw [hobj, Answered, hok] at hanswer
        exact absurd hanswer (by decide)
      | some o =>
        have ho := answer_mem hlimbs.func hobj
        obtain ⟨asn, p, hvalue⟩ := value_of_mem_objects ho
        rw [hobj] at hanswer
        refine ⟨o.oid, o.value, oid_length_le_of_mem hlimbs ho, ?_, hanswer⟩
        rw [hvalue]
        exact tlv_length_le asn p
    · have hlen : (m (req.bindAt + 11)).toNat = req.oid.length :=
        (hm.lengths (by rw [hreq.six]; decide) (by omega) hreq.oid).2.2
      have hsettles := limbLoop_settles (b := req.bindAt + 11) (m := m) req.version hnext
        fun l hl => ⟨(hlimbs.length l hl).2, hlimbs.func l hl⟩
      rw [snmpRespond, hheader] at hok ⊢
      cases hout : limbLoop req.version (req.bindAt + 11) mode a.limbs m with
      | failed error m' =>
        simp only [hout] at hok
        rw [hout] at hsettles
        obtain ⟨herror, hkept⟩ := hsettles
        refine absurd hok (hreq.status_ne_zero hm ?_ fun j hj => hkept j (by omega))
        rcases herror with rfl | rfl | rfl <;> decide
      | found size m' =>
        rw [hout, Settles, hlen] at hsettles
        obtain ⟨hle, asn, p, hsize, hvalue, hkept⟩ := hsettles
        refine ⟨req.oid, tlv asn p, hle, tlv_length_le asn p, ?_⟩
        have hoid : m'.read req.oidAt req.oid.length = req.oid :=
          (Mem.read_congr fun i hi => hkept _ (by rw [Message.oidAt]; omega)).trans hm.oid
        have hbyte : m' (req.bindAt + 11) = BitVec.ofNat 8 req.oid.length := by
          rw [hkept _ (by omega), ← hlen, BitVec.ofNat_toNat, BitVec.setWidth_eq]
        have hdraft := hm.rebound snmpGetResponse (fun j hj => hkept j (by omega)) hbyte hoid
          hvalue
        have hfixed := hdraft.fixed hreq.six rfl (show req.reqid.length < 256 by omega)
        simp only [hout, hsize]
        exact ⟨rfl, (Message.holds_iff _ _).mpr hfixed⟩

variable {msg : Message}

theorem Message.sizeField_eq (hshort : msg.size < 130) {i : Nat} (hi : 1 ≤ i)
    (hin : i < msg.size) :
    msg.size = i + 1 + (msg.sizeField i).toNat ∧ (msg.sizeField i).toNat < 128 := by
  have hfield : (msg.sizeField i).toNat = msg.size - 1 - i := by
    rw [sizeField, BitVec.toNat_ofInt]
    omega
  omega

theorem Sends.sizes {r : Nat × Mem} (h : Sends r msg)
    (hsix : msg.community.length = 6) (hshort : msg.size < 130) :
    ∀ i ∈ [1, 14, msg.bindAt + 7, msg.bindAt + 9],
      r.1 = i + 1 + (r.2 i).toNat ∧ (r.2 i).toNat < 128 := by
  have hl := (Message.holds_iff _ _).mp h.2
  have hat : msg.bindAt = 17 + msg.reqid.length := by
    rw [Message.bindAt, Message.reqidAt, hsix]
  have hsize : msg.size = msg.bindAt + 12 + msg.oid.length + msg.value.length := rfl
  have hfield : ∀ i, 1 ≤ i → i < msg.size → r.2 i = msg.sizeField i →
      r.1 = i + 1 + (r.2 i).toNat ∧ (r.2 i).toNat < 128 := by
    intro i hi hin heq
    rw [h.1, heq]
    exact Message.sizeField_eq hshort hi hin
  obtain ⟨hpdu, hseven, hnine⟩ := hl.sizes
  rw [hsix] at hpdu
  simp only [forall_mem_cons, not_mem_nil, false_imp_iff, implies_true, and_true]
  exact ⟨hfield 1 (by omega) (by omega) (Mem.eq_of_read hl.versionPart (show 1 < 7 by decide)),
    hfield 14 (by omega) (by omega) hpdu, hfield _ (by omega) (by omega) hseven,
    hfield _ (by omega) (by omega) hnine⟩

theorem Message.Lies.fields (h : msg.Lies m) (hsix : msg.community.length = 6) :
    m.read 15 (2 + (msg.reqid.length + 6)) = [0x02, BitVec.ofNat 8 msg.reqid.length] ++
      (msg.reqid ++ [0x02, 0x01, msg.error, 0x02, 0x01, msg.index]) := by
  have hpdu := h.pduPart
  have hreqid := h.reqid
  have hbind := h.bindPart
  have hat : msg.bindAt = 17 + msg.reqid.length := by
    rw [bindAt, reqidAt, hsix]
  rw [reqidAt, hsix] at hreqid
  rw [hsix, Message.pduPart] at hpdu
  rw [hat, Message.bindPart] at hbind
  have htwo : ([0x02, BitVec.ofNat 8 msg.reqid.length] : List Byte).length = 2 := rfl
  rw [Mem.read_eq_append_iff htwo, Mem.read_eq_append_iff rfl]
  refine ⟨?_, hreqid, ?_⟩
  · exact congrArg (List.drop 2) hpdu
  · rw [← Mem.take_read m _ (show 6 ≤ 12 by decide), hbind]
    rfl

/-- In a response without an error each of the four sizes is the number of bytes behind it and
takes one byte, the response is as long as the first of them says, and the request-id and the
error fields stand where they stood. -/
theorem response_sizes (cfg : Config) (env : Env) (req : Message) (hreq : IsRequest req) (m : Mem)
    (hm : req.Holds m) (hok : (snmpRespond (agent cfg env) m).2 (req.bindAt + 2) = 0) :
    let r := snmpRespond (agent cfg env) m
    (∀ i ∈ [1, 14, req.bindAt + 7, req.bindAt + 9],
      r.1 = i + 1 + (r.2 i).toNat ∧ (r.2 i).toNat < 128) ∧
      r.1 = 2 + (r.2 1).toNat ∧
      r.2.read 15 (2 + (req.reqid.length + 6)) = m.read 15 (2 + (req.reqid.length + 6)) := by
  intro r
  have hl := (Message.holds_iff _ _).mp hm
  obtain ⟨oid, value, hoid, hvalue, hsends⟩ :=
    snmpRespond_sends (limbArray_wellOrdered cfg env) hreq hl hok
  have hshort : { req with pdu := snmpGetResponse, oid := oid, value := value : Message }.size
      < 130 := by
    have hid := hreq.reqid.2
    have hat := hreq.bindAt_eq
    rw [maxReqidLen] at hid
    rw [maxOidLen] at hoid
    change req.bindAt + 12 + oid.length + value.length < 130
    omega
  have hsizes := hsends.sizes hreq.six hshort
  have hfields := ((Message.holds_iff _ _).mp hsends.2).fields hreq.six
  exact ⟨hsizes, (hsizes 1 mem_cons_self).1, hfields.trans (hl.fields hreq.six).symm⟩

def getVersion : Message :=
  ⟨1, publicName, snmpGet, [1, 2], 0, 0, enterprise ++ [1, 1, 1, 0], [5, 0]⟩

theorem response_sizes_get :
    let r := snmpRespond (agent bareConfig idleEnv) getVersion.buffer
    r.1 = 44 ∧ (r.2 1).toNat = 42 ∧ (r.2 14).toNat < 128 := by
  intro r
  have hreq : IsRequest getVersion :=
    ⟨by decide, rfl, .inl rfl, by decide, rfl, by decide⟩
  have hok : r.2 (getVersion.bindAt + 2) = 0 := by decide +kernel
  have h := response_sizes bareConfig idleEnv getVersion hreq _ getVersion.holds_buffer hok
  have hsize : r.1 = 44 := by decide +kernel
  refine ⟨hsize, ?_, (h.1 14 (by decide)).2⟩
  have hfirst : r.1 = 2 + (r.2 1).toNat := h.2.1
  omega

end Response

end Wrpc.Snmp
