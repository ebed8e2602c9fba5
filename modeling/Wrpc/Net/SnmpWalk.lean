/-
# GETNEXT, from the request to the response

A GETNEXT is answered with the object that `answer` says (`snmpRespond_answers`), so it
is answered right exactly if the request is judged right (`getNext_order`).  That is not
so for every request: a byte of the request that exceeds the one of a limb by 129 or more
compares less in a signed char, and the search stops too early; a column of the registers
without a row, or column 0, is taken for another.  A walk makes no such request, and
visits every object once.
-/
import Wrpc.Net.SnmpFrame
import Wrpc.Net.SnmpOrder

namespace Wrpc.Snmp

open List

/-! ## The response to a GETNEXT -/

structure IsGetNext (req : Message) : Prop where
  version : req.version.toNat ≤ versionMax
  community : req.community = publicName
  pdu : req.pdu = snmpGetNext
  reqid : 1 ≤ req.reqid.length ∧ req.reqid.length ≤ maxReqidLen
  error : req.error = 0
  oid : req.oid.length < 256

/-- What is answered: an object, or the error status for "no such name". -/
def Answered (req : Message) (resp : Nat × Mem) : Option Obj → Prop
  | some o => Sends resp { req with pdu := snmpGetResponse, oid := o.oid, value := o.value }
  | none => resp.2 (req.bindAt + 2) = BitVec.ofInt 8 errNoSuchName

section GetNext

variable {req : Message} {m : Mem} {resp : Nat × Mem}

theorem IsGetNext.bindAt_eq (hreq : IsGetNext req) : req.bindAt = 17 + req.reqid.length := by
  rw [Message.bindAt, Message.reqidAt, hreq.community]
  rfl

theorem IsGetNext.lengths (hreq : IsGetNext req) (hm : req.Lies m) :
    (m 6).toNat = 6 ∧ (m 16).toNat = req.reqid.length ∧
      (m (req.bindAt + 11)).toNat = req.oid.length := by
  have hsix : req.community.length = 6 := by
    rw [hreq.community]
    rfl
  have hid := hreq.reqid.2
  rw [maxReqidLen] at hid
  have h := hm.lengths (by omega) (by omega) hreq.oid
  rw [hsix] at h
  exact h

/-- **A GETNEXT is answered with what the search finds.** -/
theorem snmpRespond_answers {a : Agent} (hlimbs : WellOrdered a.limbs) (hreq : IsGetNext req)
    (hm : req.Lies m) :
    Answered req (snmpRespond a m) (answer req.version req.oid a.limbs) := by
  have hid := hreq.reqid.2
  rw [maxReqidLen] at hid
  have hmode : modeOf a.setEnabled req.pdu = some .getNext := by
    rw [hreq.pdu]
    rfl
  have hheader := matchHeader_public a.setEnabled hm hreq.community hreq.version
    (by omega)
  rw [hmode, Option.map_some] at hheader
  have hfin := limbLoop_answer req.version ⟨(hreq.lengths hm).2.2, hm.oid⟩ hlimbs.ahead
    hlimbs.func
  rw [snmpRespond, hheader]
  cases hans : answer req.version req.oid a.limbs with
  | none =>
    rw [hans] at hfin
    obtain ⟨m', hout, hkept⟩ := hfin
    have hbind := hreq.bindAt_eq
    have hlengths := hreq.lengths hm
    simp only [hout]
    rw [Answered, hbind, show 17 + req.reqid.length + 2 = 19 + req.reqid.length by omega]
    refine snmpPrepareError_status _ ?_ ?_ hreq.reqid.2
    · rw [hkept 6 (by omega)]
      exact hlengths.1
    · rw [hkept 16 (by omega)]
      exact hlengths.2.1
  | some o =>
    rw [hans] at hfin
    obtain ⟨m', hout, hlen, hoid, hvalue, hkept⟩ := hfin
    simp only [hout]
    have hdraft := hm.rebound snmpGetResponse hkept hlen hoid hvalue
    have hfixed := hdraft.fixed (by rw [hreq.community]; rfl) rfl
      (show req.reqid.length < 256 by omega)
    exact ⟨rfl, (Message.holds_iff _ _).mpr hfixed⟩

theorem Answered.unique (hreq : IsGetNext req) {x y : Option Obj}
    (hx : ∀ o ∈ x, o.oid.length < 256) (hy : ∀ o ∈ y, o.oid.length < 256)
    (h : Answered req resp x) (h' : Answered req resp y) : x = y := by
  have hstatus : ∀ o, Answered req resp (some o) → ¬ Answered req resp none := by
    intro o ho hnone
    have hzero : resp.2 (req.bindAt + 2) = 0 := by
      rw [← hreq.error]
      exact Mem.eq_of_read ((Message.holds_iff _ _).mp ho.2).bindPart (show 2 < 12 by decide)
    rw [Answered, hzero] at hnone
    exact absurd hnone (by decide)
  cases x with
  | none =>
    cases y with
    | none => rfl
    | some o' => exact absurd h (hstatus o' h')
  | some o =>
    cases y with
    | none => exact absurd h' (hstatus o h)
    | some o' =>
      have hl := (Message.holds_iff _ _).mp h.2
      have hl' := (Message.holds_iff _ _).mp h'.2
      have hlen : o.oid.length = o'.oid.length := by
        have hbytes := hl.bindPart.symm.trans hl'.bindPart
        have hbyte : BitVec.ofNat 8 o.oid.length = BitVec.ofNat 8 o'.oid.length :=
          congrArg (List.getD · 11 0) hbytes
        rw [← toNat_ofNat_of_lt (hx o rfl), hbyte, toNat_ofNat_of_lt (hy o' rfl)]
      have hoid : o.oid = o'.oid := by
        refine hl.oid.symm.trans (Eq.trans ?_ hl'.oid)
        exact congrArg (Mem.read resp.2 _) hlen
      have hsize : req.oidAt + o.oid.length + o.value.length =
          req.oidAt + o'.oid.length + o'.value.length := h.1.symm.trans h'.1
      have hvalue : o.value = o'.value := by
        refine hl.value.symm.trans (Eq.trans ?_ hl'.value)
        have hat : req.oidAt + o.oid.length = req.oidAt + o'.oid.length := by rw [hlen]
        have hvlen : o.value.length = o'.value.length := by omega
        exact congrArg₂ (Mem.read resp.2) hat hvlen
      cases o
      cases o'
      simp only [Obj.mk.injEq, Option.some.injEq]
      exact ⟨hoid, hvalue⟩

theorem oid_length_of_mem {limbs : List Limb} (hlimbs : WellOrdered limbs)
    {version : Byte} {o : Obj} (ho : o ∈ objects version limbs) : o.oid.length < 256 := by
  obtain ⟨l, hl, hol⟩ := List.mem_flatMap.mp ho
  obtain ⟨tw, htw, hoid⟩ := oid_of_mem_objs (hlimbs.func l hl) hol
  have hle := (hlimbs.length l hl).2
  rw [maxOidLen] at hle
  rw [hoid, length_append, htw]
  omega

def Right (a : Agent) (req : Message) (m : Mem) : Prop :=
  ∃ x, Least (objects req.version a.limbs) req.oid x ∧ Answered req (snmpRespond a m) x

theorem right_iff {a : Agent} (hlimbs : WellOrdered a.limbs) (hreq : IsGetNext req)
    (hm : req.Holds m) : Right a req m ↔ Judges req.version a.limbs req.oid := by
  have hanswered := snmpRespond_answers hlimbs hreq ((Message.holds_iff _ _).mp hm)
  have hasc : Ascends (objects req.version a.limbs) := objects_ascend hlimbs.ahead hlimbs.func
  rw [← answer_eq_iff hlimbs.ahead hlimbs.func]
  constructor
  · rintro ⟨x, hleast, hx⟩
    have hfind := hasc.least_iff.mp hleast
    rw [hfind]
    refine hanswered.unique hreq (fun o ho => ?_) (fun o ho => ?_) hx
    · exact oid_length_of_mem hlimbs (answer_mem hlimbs.func ho)
    · exact oid_length_of_mem hlimbs (List.mem_of_find?_eq_some (hfind.trans ho))
  · intro heq
    refine ⟨_, hasc.least_iff.mpr rfl, ?_⟩
    rw [← heq]
    exact hanswered

end GetNext

/-- The objects that a manager is given who asks for `r` and then for the OID of each answer,
up to the error. -/
inductive Walks (a : Agent) (req : Message) : List Byte → List Obj → Prop
  | done {r : List Byte} : (∀ m, { req with oid := r : Message }.Holds m →
      Answered { req with oid := r } (snmpRespond a m) none) → Walks a req r []
  | step {r : List Byte} {o : Obj} {os : List Obj} :
      (∀ m, { req with oid := r : Message }.Holds m →
        Answered { req with oid := r } (snmpRespond a m) (some o)) →
      Walks a req o.oid os → Walks a req r (o :: os)

section Walk

variable {a : Agent} {req : Message}

theorem walks_from (hlimbs : WellOrdered a.limbs) (hreq : IsGetNext req) :
    ∀ (os as : List Obj) (r : List Byte), objects req.version a.limbs = as ++ os →
      Judges req.version a.limbs r → r.length < 256 →
      (objects req.version a.limbs).find? (behind r) = os.head? → Walks a req r os
  | os, as, r, hobjs, hjudges, hlen, hfind => by
    have hreq' : IsGetNext { req with oid := r } :=
      ⟨hreq.version, hreq.community, hreq.pdu, hreq.reqid, hreq.error, hlen⟩
    have hans : ∀ m, { req with oid := r : Message }.Holds m →
        Answered { req with oid := r } (snmpRespond a m) os.head? := by
      intro m hm
      have h := snmpRespond_answers hlimbs hreq' ((Message.holds_iff _ _).mp hm)
      rwa [(answer_eq_iff hlimbs.ahead hlimbs.func).mpr hjudges, hfind] at h
    cases os with
    | nil => exact .done hans
    | cons o os =>
      have ho : o ∈ objects req.version a.limbs := by
        rw [hobjs]
        exact mem_append_right as mem_cons_self
      have hasc : Ascends (objects req.version a.limbs) :=
        objects_ascend hlimbs.ahead hlimbs.func
      refine .step hans (walks_from hlimbs hreq os (as ++ [o]) o.oid ?_
        (judges_of_object hlimbs.ahead hlimbs.func ho) (oid_length_of_mem hlimbs ho) ?_)
      · rw [hobjs, append_assoc]
        rfl
      · -- nothing up to `o` is behind it, and all the rest is
        rw [hobjs] at hasc ⊢
        have hbefore : ∀ o' ∈ as, ¬ o.oid < o'.oid := fun o' ho' hlt =>
          List.lt_irrefl _ (List.lt_trans hlt
            ((List.pairwise_append.mp hasc).2.2 o' ho' o mem_cons_self))
        have hafter := List.pairwise_cons.mp hasc.append.2
        rw [List.find?_append, find?_none_behind hbefore, Option.none_or,
          List.find?_cons_of_neg (by rw [behind_iff]; exact List.lt_irrefl _)]
        exact find?_all_behind hafter.2 hafter.1

end Walk

theorem enterprise_above (cfg : Config) (env : Env) :
    ∀ l ∈ limbArray cfg env, enterprise <+: l.oid := by
  have hplain : ∀ a ∈ plainOids, enterprise <+: a := by decide
  have haux : ∀ a ∈ auxOids env, enterprise <+: a := by
    intro a ha
    rcases List.mem_pair.mp ha with rfl | rfl
    · exact prefix_append _ _
    · exact prefix_append _ _
  intro l hl
  have hmem := (limbArray_sublist cfg env).subset (mem_map_of_mem hl)
  exact (List.mem_append.mp hmem).elim (hplain _) (haux _)

/-- **GETNEXT.**  Every request is answered right exactly if it is judged right, and a walk from
the root (or from any node above the limbs) visits all objects once, in ascending order. -/
theorem getNext_order (cfg : Config) (env : Env) (req : Message) (hreq : IsGetNext req) :
    (∀ m, req.Holds m → (Right (agent cfg env) req m ↔
      Judges req.version (limbArray cfg env) req.oid)) ∧
    (∀ r, r <+: enterprise →
      Walks (agent cfg env) req r (objects req.version (limbArray cfg env))) ∧
    Ascends (objects req.version (limbArray cfg env)) := by
  have hlimbs : WellOrdered (agent cfg env).limbs := limbArray_wellOrdered cfg env
  have hasc : Ascends (objects req.version (agent cfg env).limbs) :=
    objects_ascend hlimbs.ahead hlimbs.func
  refine ⟨fun m hm => right_iff hlimbs hreq hm, fun r hr => ?_, hasc⟩
  have hpre : ∀ l ∈ limbArray cfg env, r <+: l.oid := fun l hl =>
    hr.trans (enterprise_above cfg env l hl)
  have hbehind : ∀ o ∈ objects req.version (limbArray cfg env), r < o.oid := by
    intro o ho
    obtain ⟨l, hl, hol⟩ := List.mem_flatMap.mp ho
    obtain ⟨tw, htw, hoid⟩ := oid_of_mem_objs (hlimbs.func l hl) hol
    obtain ⟨y, hy⟩ := hpre l hl
    rw [hoid, ← hy, append_assoc, lt_iff_memcmp, memcmp_self_append, length_append,
      length_append, htw]
    exact .inr ⟨rfl, by omega⟩
  refine walks_from hlimbs hreq _ [] r rfl (judges_of_prefixed hlimbs.func hpre) ?_
    (find?_all_behind hasc hbehind)
  exact Nat.lt_of_le_of_lt hr.length_le (by decide)

/-! ### A request past the end -/

def bareConfig : Config := ⟨false, false, false, false, false, false, false⟩

def idleEnv : Env := ⟨fun _ _ => 0, 0, 0, 0, 0, 0, 0⟩

/-- A GETNEXT for an OID of one byte that is behind all objects. -/
def pastEnd : Message := ⟨0, publicName, snmpGetNext, [1], 0, 0, [255], [5, 0]⟩

theorem pastEnd_isGetNext : IsGetNext pastEnd :=
  ⟨by decide, rfl, rfl, by decide, rfl, by decide⟩

theorem getNext_order_pastEnd :
    Right (agent bareConfig idleEnv) pastEnd pastEnd.buffer ↔
      Judges 0 (limbArray bareConfig idleEnv) [255] :=
  (getNext_order bareConfig idleEnv pastEnd pastEnd_isGetNext).1 _ pastEnd.holds_buffer

/-- 0x2b - 255 is 44 in a signed char: the first object is answered. -/
theorem getNext_pastEnd_answered : IsGetNext pastEnd ∧ pastEnd.Holds pastEnd.buffer ∧
    Least (objects pastEnd.version (limbArray bareConfig idleEnv)) pastEnd.oid none ∧
    Answered pastEnd (snmpRespond (agent bareConfig idleEnv) pastEnd.buffer)
      (some ⟨enterprise ++ [1, 1, 1, 0], [4, 0]⟩) := by
  refine ⟨pastEnd_isGetNext, pastEnd.holds_buffer, ?_, ?_⟩
  · have hall : ∀ o ∈ objects 0 (limbArray bareConfig idleEnv), ¬ [255] < o.oid := by
      decide +kernel
    exact hall
  · have hlimbs : WellOrdered (agent bareConfig idleEnv).limbs := limbArray_wellOrdered _ _
    exact snmpRespond_answers hlimbs pastEnd_isGetNext
      ((Message.holds_iff _ _).mp pastEnd.holds_buffer)

end Wrpc.Snmp
