/-
# The objects of the agent

`limbArray` is `oid_limb_array` with the arrays of twigs, for every configuration,
over what the getters find (`Env`).  Above it stands what a manager may see:
`Limb.objs` are the objects of a limb that have a value, with their full OIDs, in
the order of the arrays.

Everything the search relies on is in `WellOrdered`: limbs and twigs ascend, no one
is the beginning of another, and neighbours are near enough for a signed char.
-/
import Wrpc.Net.Snmp

namespace Wrpc.Snmp

open List

/-! ## The arrays of the source -/

structure Config where
  snmpSet : Bool
  tempSensors : Bool
  snmpInit : Bool
  snmpSdb : Bool
  snmpNetconsole : Bool
  snmpCmd : Bool
  snmpAuxDiag : Bool
deriving DecidableEq, Repr

/-- What the getters find: the value of a scalar or cell by its OID, the number of sensors and
of readable SFP records, and what `diag_read_info` has read. -/
structure Env where
  var : List Byte → Mem
  tempRows : Nat
  sfpRows : Nat
  auxId : Byte
  auxVer : Byte
  roRegs : BitVec 16
  rwRegs : BitVec 16

/-- `.1.3.6.1.4.1.96.101`. -/
def enterprise : List Byte := [0x2b, 6, 1, 4, 1, 96, 101]

section Arrays

variable (cfg : Config) (env : Env)

/-- `OID_FIELD_VAR` and `OID_FIELD_STRUCT` of a group: `set` is the size of the variable if
the entry has a setter. -/
def field (limb oid : List Byte) (asn : Asn) (set : Option Nat) : Twig where
  oid := oid
  asn := asn
  p := env.var (limb ++ oid)
  set := if cfg.snmpSet then set else none

def groupLimb (oid : List Byte) (fields : List (List Byte × Asn × Option Nat)) : Limb where
  oid := oid
  func := .group (fields.map fun f => field cfg env oid f.1 f.2.1 f.2.2)

def tableLimb (oid : List Byte) (rows : Nat) (columns : List (Byte × Asn)) : Limb where
  oid := oid
  func := .table (columns.map fun c => { oid := [c.1], asn := c.2 })
    ⟨rows, columns.map Prod.fst, fun col row => env.var (oid ++ [col, row])⟩

def auxLimb (oid : List Byte) (regs : BitVec 16) (set : Bool) : Limb where
  oid := oid
  func := .auxDiag ⟨regs.toNat, set, fun col =>
    if col = 2 then fun i => (regs.setWidth 32).extractLsb' (8 * (3 - i)) 8
    else env.var (oid ++ [col, 1])⟩

def wrpcVersionGroup : Limb := groupLimb cfg env (enterprise ++ [1, 1])
  [([1, 0], .octetStr, none), ([2, 0], .octetStr, none), ([3, 0], .octetStr, none),
    ([4, 0], .octetStr, none)]

def wrpcTimeGroup : Limb := groupLimb cfg env (enterprise ++ [1, 2])
  [([1, 0], .counter64, none), ([2, 0], .octetStr, none), ([3, 0], .timeticks, none)]

def wrpcTemperatureTable : Limb := tableLimb env (enterprise ++ [1, 3, 1]) env.tempRows
  [(2, .octetStr), (3, .octetStr)]

def wrpcSpllStatusGroup : Limb := groupLimb cfg env (enterprise ++ [1, 4])
  [([1, 0], .integer, none), ([2, 0], .counter, none), ([3, 0], .integer, none),
    ([4, 0], .integer, none), ([5, 0], .counter, none), ([6, 0], .counter, none),
    ([7, 0], .integer, none), ([8, 0], .integer, none), ([9, 0], .counter, none)]

def wrpcPtpGroup : Limb := groupLimb cfg env (enterprise ++ [1, 5])
  [([5, 0], .integer, none), ([8, 0], .integer, none), ([9, 0], .integer, none),
    ([10, 0], .counter64, none), ([12, 0], .counter, none), ([13, 0], .counter64, none),
    ([14, 0], .integer, none), ([15, 0], .integer, none), ([16, 0], .integer, none),
    ([17, 0], .integer, none), ([18, 0], .counter, none), ([19, 0], .counter, none),
    ([20, 0], .counter, none), ([22, 0], .counter64, none), ([23, 0], .counter, none),
    ([24, 0], .counter, none), ([27, 0], .counter64, none)]

def wrpcPtpConfigGroup : Limb := groupLimb cfg env (enterprise ++ [1, 6])
  [([1, 0], .integer, some 4), ([2, 0], .integer, some 4), ([3, 0], .octetStr, some 16),
    ([4, 0], .integer, some 4), ([5, 0], .integer, some 4), ([6, 0], .integer, some 8)]

def wrpcPortGroup : Limb := groupLimb cfg env (enterprise ++ [1, 7])
  [([1, 0], .integer, none), ([2, 0], .octetStr, none), ([3, 0], .integer, none),
    ([4, 0], .counter, none), ([5, 0], .counter, none)]

def wrpcSfpTable : Limb := tableLimb env (enterprise ++ [1, 8, 1]) env.sfpRows
  [(2, .octetStr), (3, .integer), (4, .integer), (5, .integer)]

def wrpcInitScriptConfigGroup : Limb := groupLimb cfg env (enterprise ++ [1, 9])
  [([1, 0], .integer, some 4), ([2, 0], .octetStr, some 32)]

def wrpcSdbGroup : Limb := groupLimb cfg env (enterprise ++ [1, 10])
  [([1, 0], .integer, some 4), ([2, 0], .integer, some 4), ([3, 0], .integer, some 4),
    ([4, 0], .integer, some 4)]

def wrpcNetconsoleGetGroup : Limb := groupLimb cfg env (enterprise ++ [1, 11, 1])
  [([1, 0], .integer, none), ([2, 0], .octetStr, none), ([3, 0], .ipAddress, none),
    ([4, 0], .integer, none)]

def wrpcNetconsoleSetGroup : Limb := groupLimb cfg env (enterprise ++ [1, 11, 2])
  [([1, 0], .integer, some 4)]

def wrpcShellCmdGroup : Limb := groupLimb cfg env (enterprise ++ [1, 12])
  [([1, 0], .integer, some 4), ([2, 0], .octetStr, some 81), ([3, 0], .integer, some 4),
    ([4, 0], .integer, some 4)]

def wrpcAuxRoTable : Limb :=
  auxLimb env (enterprise ++ [2, env.auxId, env.auxVer, 1, 1]) env.roRegs false

def wrpcAuxRwTable : Limb :=
  auxLimb env (enterprise ++ [2, env.auxId, env.auxVer, 2, 1]) env.rwRegs cfg.snmpSet

def optional (c : Bool) (l : Limb) : List Limb := if c then [l] else []

def firstLimbs : List Limb :=
  [wrpcVersionGroup cfg env, wrpcTimeGroup cfg env] ++
    optional cfg.tempSensors (wrpcTemperatureTable env) ++
    [wrpcSpllStatusGroup cfg env, wrpcPtpGroup cfg env, wrpcPtpConfigGroup cfg env]

def lastGroups : List Limb :=
  optional (cfg.snmpInit && cfg.snmpSet) (wrpcInitScriptConfigGroup cfg env) ++
    optional (cfg.snmpSdb && cfg.snmpSet) (wrpcSdbGroup cfg env) ++
    optional cfg.snmpNetconsole (wrpcNetconsoleGetGroup cfg env) ++
    optional (cfg.snmpNetconsole && cfg.snmpSet) (wrpcNetconsoleSetGroup cfg env) ++
    optional (cfg.snmpCmd && cfg.snmpSet) (wrpcShellCmdGroup cfg env)

def auxLimbs : List Limb :=
  if cfg.snmpAuxDiag then [wrpcAuxRoTable env, wrpcAuxRwTable cfg env] else []

/-- `oid_limb_array`. -/
def limbArray : List Limb :=
  firstLimbs cfg env ++
    ([wrpcPortGroup cfg env, wrpcSfpTable env] ++ (lastGroups cfg env ++ auxLimbs cfg env))

def agent : Agent := ⟨limbArray cfg env, cfg.snmpSet⟩

end Arrays

/-! ## Objects with a value -/

/-- An object as it is answered: OID, and type, length and bytes of the value. -/
structure Obj where
  oid : List Byte
  value : List Byte

def asnData (asn : Asn) (p : Mem) : List Byte :=
  match asn with
  | .octetStr => p.cstr maxStrLen 0
  | .counter64 => p.read 0 8
  | .integer | .counter | .unsigned | .timeticks | .ipAddress => p.read 0 4

def tlv (asn : Asn) (p : Mem) : List Byte :=
  asn.code :: BitVec.ofNat 8 (asnData asn p).length :: asnData asn p

def available (version : Byte) (asn : Asn) : Bool := !(asn == .counter64 && version == 0)

def Twig.objs (version : Byte) (limb : List Byte) (t : Twig) : List Obj :=
  if available version t.asn then [⟨limb ++ t.oid, tlv t.asn t.p⟩] else []

def Table.column (t : Table) (limb : List Byte) (col : Byte) (asn : Asn) : List Obj :=
  (List.range (min t.rows 255)).map fun i =>
    ⟨limb ++ [col, BitVec.ofNat 8 (i + 1)], tlv asn (t.cell col (BitVec.ofNat 8 (i + 1)))⟩

def AuxDiag.cells (bank : AuxDiag) (limb : List Byte) : List Obj :=
  (List.range (min (bank.regs + 1) 254)).map fun i =>
    ⟨limb ++ [BitVec.ofNat 8 (i + 2), 1], tlv .unsigned (bank.word (BitVec.ofNat 8 (i + 2)))⟩

def Limb.objs (version : Byte) (l : Limb) : List Obj :=
  match l.func with
  | .group twigs => twigs.flatMap (Twig.objs version l.oid)
  | .table twigs t => twigs.flatMap fun c => t.column l.oid (c.oid.headD 0) c.asn
  | .auxDiag bank => bank.cells l.oid

def objects (version : Byte) (limbs : List Limb) : List Obj := limbs.flatMap (Limb.objs version)

/-- The string `b` comes behind `a`, by a difference that a signed char can hold. -/
def Ahead (a b : List Byte) : Prop := 0 < memcmp b a ∧ memcmp b a ≤ 127

instance (a b : List Byte) : Decidable (Ahead a b) := inferInstanceAs (Decidable (_ ∧ _))

def Handler.WellOrdered : Handler → Prop
  | .group twigs => (∀ t ∈ twigs, t.oid.length = 2) ∧ (twigs.map Twig.oid).Pairwise Ahead
  | .table twigs t => (∀ c ∈ twigs, ∃ col ∈ t.cols, c.oid = [col] ∧ c.asn ≠ .counter64) ∧
      (twigs.map Twig.oid).Pairwise Ahead
  | .auxDiag _ => True

structure WellOrdered (limbs : List Limb) : Prop where
  ahead : (limbs.map Limb.oid).Pairwise Ahead
  length : ∀ l ∈ limbs, 2 ≤ l.oid.length ∧ l.oid.length ≤ maxOidLen
  func : ∀ l ∈ limbs, l.func.WellOrdered

/-! ### The arrays of the source are in order -/

section Arrays

variable (cfg : Config) (env : Env)

theorem groupLimb_wellOrdered {oid : List Byte} {fields : List (List Byte × Asn × Option Nat)}
    (hlen : ∀ f ∈ fields, f.1.length = 2) (hahead : (fields.map Prod.fst).Pairwise Ahead) :
    (groupLimb cfg env oid fields).func.WellOrdered := by
  constructor
  · intro t ht
    obtain ⟨f, hf, rfl⟩ := List.mem_map.mp ht
    exact hlen f hf
  · rw [map_map]
    exact hahead

theorem tableLimb_wellOrdered {oid : List Byte} {rows : Nat} {columns : List (Byte × Asn)}
    (hasn : ∀ c ∈ columns, c.2 ≠ .counter64)
    (hahead : (columns.map fun c => [c.1]).Pairwise Ahead) :
    (tableLimb env oid rows columns).func.WellOrdered := by
  constructor
  · intro t ht
    obtain ⟨c, hc, rfl⟩ := List.mem_map.mp ht
    exact ⟨c.1, mem_map_of_mem hc, rfl, hasn c hc⟩
  · rw [map_map]
    exact hahead

theorem forall_mem_limbArray {P : Limb → Prop}
    (hfirst : P (wrpcVersionGroup cfg env) ∧ P (wrpcTimeGroup cfg env) ∧
      P (wrpcTemperatureTable env) ∧ P (wrpcSpllStatusGroup cfg env) ∧ P (wrpcPtpGroup cfg env) ∧
      P (wrpcPtpConfigGroup cfg env))
    (hmid : P (wrpcPortGroup cfg env) ∧ P (wrpcSfpTable env))
    (hlast : P (wrpcInitScriptConfigGroup cfg env) ∧ P (wrpcSdbGroup cfg env) ∧
      P (wrpcNetconsoleGetGroup cfg env) ∧ P (wrpcNetconsoleSetGroup cfg env) ∧
      P (wrpcShellCmdGroup cfg env))
    (haux : P (wrpcAuxRoTable env) ∧ P (wrpcAuxRwTable cfg env)) :
    ∀ l ∈ limbArray cfg env, P l := by
  have hopt : ∀ {c : Bool} {l : Limb}, P l → ∀ l' ∈ optional c l, P l' := by
    intro c l h l' hl'
    cases c with
    | false => cases hl'
    | true => exact List.mem_singleton.mp hl' ▸ h
  have hauxs : ∀ l ∈ auxLimbs cfg env, P l := by
    intro l hl
    cases haux' : cfg.snmpAuxDiag with
    | false =>
      rw [auxLimbs, haux'] at hl
      cases hl
    | true =>
      rw [auxLimbs, haux'] at hl
      exact List.forall_mem_cons.mpr ⟨haux.1, List.forall_mem_singleton.mpr haux.2⟩ l hl
  simp only [limbArray, firstLimbs, lastGroups, forall_mem_append, forall_mem_cons,
    not_mem_nil, false_imp_iff, implies_true, and_true]
  exact ⟨⟨⟨⟨hfirst.1, hfirst.2.1⟩, hopt hfirst.2.2.1⟩, hfirst.2.2.2⟩, hmid,
    ⟨⟨⟨⟨hopt hlast.1, hopt hlast.2.1⟩, hopt hlast.2.2.1⟩, hopt hlast.2.2.2.1⟩,
      hopt hlast.2.2.2.2⟩, hauxs⟩

def plainOids : List (List Byte) :=
  [[1, 1], [1, 2], [1, 3, 1], [1, 4], [1, 5], [1, 6], [1, 7], [1, 8, 1], [1, 9], [1, 10],
    [1, 11, 1], [1, 11, 2], [1, 12]].map (enterprise ++ ·)

def auxOids : List (List Byte) :=
  [enterprise ++ [2, env.auxId, env.auxVer, 1, 1], enterprise ++ [2, env.auxId, env.auxVer, 2, 1]]

theorem optional_sublist (c : Bool) (l : Limb) : ((optional c l).map Limb.oid).Sublist [l.oid] := by
  cases c with
  | false => exact nil_sublist _
  | true => exact List.Sublist.refl _

theorem limbArray_sublist :
    ((limbArray cfg env).map Limb.oid).Sublist (plainOids ++ auxOids env) := by
  have hfirst : ((firstLimbs cfg env).map Limb.oid).Sublist
      ([[1, 1], [1, 2], [1, 3, 1], [1, 4], [1, 5], [1, 6]].map (enterprise ++ ·)) := by
    simp only [firstLimbs, map_append]
    exact ((List.Sublist.refl _).append (optional_sublist _ _)).append (List.Sublist.refl _)
  have hlast : ((lastGroups cfg env).map Limb.oid).Sublist
      ([[1, 9], [1, 10], [1, 11, 1], [1, 11, 2], [1, 12]].map (enterprise ++ ·)) := by
    simp only [lastGroups, map_append]
    exact ((((optional_sublist _ _).append (optional_sublist _ _)).append
      (optional_sublist _ _)).append (optional_sublist _ _)).append (optional_sublist _ _)
  have haux : ((auxLimbs cfg env).map Limb.oid).Sublist (auxOids env) := by
    rw [auxLimbs]
    split
    · exact List.Sublist.refl _
    · exact nil_sublist _
  simp only [limbArray, map_append]
  exact hfirst.append ((List.Sublist.refl _).append (hlast.append haux))

theorem oids_ahead : (plainOids ++ auxOids env).Pairwise Ahead := by
  rw [pairwise_append]
  refine ⟨by decide, ?_, ?_⟩
  · refine List.pairwise_pair.mpr ?_
    rw [Ahead, memcmp_append]
    simp only [memcmp_cons_same]
    decide
  · -- a 2 behind the enterprise is ahead of no 1
    have hone : ∀ a ∈ plainOids, ∃ x, a = enterprise ++ 1 :: x := by
      intro a ha
      obtain ⟨y, hy, rfl⟩ := List.mem_map.mp ha
      have hhead : ∀ y ∈ [[1, 1], [1, 2], [1, 3, 1], [1, 4], [1, 5], [1, 6], [1, 7], [1, 8, 1],
          [1, 9], [1, 10], [1, 11, 1], [1, 11, 2], [1, 12]], y = (1 : Byte) :: y.tail := by decide
      exact ⟨y.tail, congrArg (enterprise ++ ·) (hhead y hy)⟩
    have htwo : ∀ b ∈ auxOids env, ∃ x, b = enterprise ++ 2 :: x := by
      intro b hb
      rcases List.mem_pair.mp hb with rfl | rfl
      · exact ⟨_, rfl⟩
      · exact ⟨_, rfl⟩
    intro a ha b hb
    obtain ⟨x, rfl⟩ := hone a ha
    obtain ⟨y, rfl⟩ := htwo b hb
    rw [Ahead, memcmp_append, memcmp_cons_ne (by decide)]
    decide

theorem limbArray_wellOrdered : WellOrdered (limbArray cfg env) where
  ahead := (oids_ahead env).sublist (limbArray_sublist cfg env)
  length := by
    have hplain : ∀ a ∈ plainOids, 2 ≤ a.length ∧ a.length ≤ maxOidLen := by decide
    have haux : ∀ a ∈ auxOids env, 2 ≤ a.length ∧ a.length ≤ maxOidLen := by
      intro a ha
      rcases List.mem_pair.mp ha with rfl | rfl
      · exact ⟨Nat.le_add_left 2 10, Nat.le_add_right 12 28⟩
      · exact ⟨Nat.le_add_left 2 10, Nat.le_add_right 12 28⟩
    intro l hl
    have hmem := (limbArray_sublist cfg env).subset (mem_map_of_mem hl)
    exact (List.mem_append.mp hmem).elim (hplain _) (haux _)
  func := by
    refine forall_mem_limbArray cfg env ⟨?_, ?_, ?_, ?_, ?_, ?_⟩ ⟨?_, ?_⟩ ⟨?_, ?_, ?_, ?_, ?_⟩
      ⟨trivial, trivial⟩
    all_goals first
      | exact groupLimb_wellOrdered cfg env (by decide) (by decide)
      | exact tableLimb_wellOrdered env (by decide) (by decide)

end Arrays

end Wrpc.Snmp
