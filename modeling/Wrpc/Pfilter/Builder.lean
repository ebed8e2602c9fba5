/-
# The two rule sets of `tools/pfilter-builder.c`

The builder runs at build time: a program is a sequence of calls of `pfilter_nop`,
`pfilter_cmp`, `pfilter_logic2` and `pfilter_logic3`, each of which checks its arguments and
appends a word to `code_buf`; `pfilter_output` appends FIN and writes each word as five
bytes, high byte first.  A failed check ends the builder with an error.

Read back by the processor, a word is the instruction that the call stands for
(`decode_emit`).
-/
import Wrpc.Lib.BitField
import Wrpc.Pfilter.Machine

namespace Wrpc.Pfilter

open BitField BitVec

/-- A call of one of the emitters.  The registers are counted from `R_ZERO`, so that the
upper bound `R_C7` of `check_reg_range` is in the type. -/
inductive Stmt where
  | nop
  | cmp (offset : BitVec 6) (value mask : BitVec 16) (op : Op) (rd : Reg)
  | logic2 (rd ra : Reg) (op : Op) (rb : Reg)
  | logic3 (rd ra : Reg) (op : Op) (rb : Reg) (op2 : Op) (rc : Reg)
deriving DecidableEq, Repr

inductive Error where
  | microcodeTooBig (maxSize : Nat)
  | offsetBiggerThanPc
  | registerOutOfRange (name : String) (minval maxval : Nat)
deriving DecidableEq, Repr

/-- `PFILTER_MAX_CODE_SIZE`. -/
def maxCodeSize : Nat := 32

def checkSize (codePos : Nat) : Except Error Unit :=
  if codePos = maxCodeSize - 1 then .error (.microcodeTooBig maxCodeSize) else .ok ()

def checkRegRange (val : Reg) (minval maxval : Nat) (name : String) : Except Error Unit :=
  if val.toNat < minval ∨ maxval < val.toNat then
    .error (.registerOutOfRange name minval maxval)
  else .ok ()

/-- `PF_MODE_LOGIC`. -/
def modeLogic : BitVec 64 := put 64 1#1 34

def maskBit (mask : BitVec 16) (k : Nat) : BitVec 1 := BitVec.ofBool (mask.getLsbD (4 * k))

def emit : Stmt → BitVec 64
  | .nop => modeLogic
  | .cmp offset value mask op rd =>
    put 64 offset 7 ||| put 64 (maskBit mask 0) 29 ||| put 64 (maskBit mask 1) 30 |||
      put 64 (maskBit mask 2) 31 ||| put 64 (maskBit mask 3) 32 ||| put 64 op.code 0 |||
      put 64 rd 3 ||| put 64 value 13
  | .logic2 rd ra op rb =>
    put 64 ra 8 ||| put 64 rb 13 ||| put 64 (rd.extractLsb' 0 4) 3 |||
      put 64 (rd.extractLsb' 4 1) 7 ||| put 64 op.code 0 ||| modeLogic ||| put 64 3#3 23
  | .logic3 rd ra op rb op2 rc =>
    put 64 ra 8 ||| put 64 rb 13 ||| put 64 rc 18 ||| put 64 (rd.extractLsb' 0 4) 3 |||
      put 64 (rd.extractLsb' 4 1) 7 ||| put 64 op.code 0 ||| modeLogic ||| put 64 op2.code 23

/-- The checks of a call at `code_pos`, in their order. -/
def check (codePos : Nat) : Stmt → Except Error Unit
  | .nop => checkSize codePos
  | .cmp offset _ _ _ rd => do
    checkSize codePos
    if codePos < offset.toNat then .error .offsetBiggerThanPc
    checkRegRange rd 1 15 "ra/rd"
  | .logic2 rd ra _ rb => do
    checkSize codePos
    checkRegRange ra 0 31 "ra"
    checkRegRange rb 0 31 "rb"
    checkRegRange rd 1 31 "rd"
  | .logic3 rd ra _ rb _ rc => do
    checkSize codePos
    checkRegRange ra 0 31 "ra"
    checkRegRange rb 0 31 "rb"
    checkRegRange rc 0 31 "rc"
    checkRegRange rd 1 31 "rd"

/-- `1ULL << 35`. -/
def finWord : BitVec 64 := put 64 1#1 35

/-- The calls from `code_pos` on, and the FIN of `pfilter_output`. -/
def assembleFrom : Nat → List Stmt → Except Error (List (BitVec 64))
  | _, [] => .ok [finWord]
  | codePos, s :: ss => do
    check codePos s
    let words ← assembleFrom (codePos + 1) ss
    return emit s :: words

def wordBytes (x : BitVec 64) : List (BitVec 8) :=
  [x.extractLsb' 32 8, x.extractLsb' 24 8, x.extractLsb' 16 8, x.extractLsb' 8 8,
    x.extractLsb' 0 8]

def pfilterOutput (words : List (BitVec 64)) : List (BitVec 8) := words.flatMap wordBytes

/-- The array that a build of the program includes; a failed build has none. -/
def built (ss : List Stmt) : List (BitVec 8) :=
  match assembleFrom 0 ss with
  | .ok words => pfilterOutput words
  | .error _ => []

/-! ## What a word means to the processor -/

def Stmt.instr : Stmt → Instr
  | .nop => .logic rZero rZero .and rZero .and rZero
  | .cmp offset value mask op rd => .cmp offset value mask op rd
  | .logic2 rd ra op rb => .logic rd ra op rb .mov rZero
  | .logic3 rd ra op rb op2 rc => .logic rd ra op rb op2 rc

def Stmt.Granular : Stmt → Prop
  | .cmp _ _ mask _ _ =>
    nibbles (maskBit mask 0) (maskBit mask 1) (maskBit mask 2) (maskBit mask 3) = mask
  | _ => True

instance : ∀ s : Stmt, Decidable s.Granular
  | .cmp .. => inferInstanceAs (Decidable (_ = _))
  | .nop | .logic2 .. | .logic3 .. => inferInstanceAs (Decidable True)

theorem checkRegRange_ok {val : Reg} {minval maxval : Nat} {name : String}
    (h : checkRegRange val minval maxval name = .ok ()) :
    minval ≤ val.toNat ∧ val.toNat ≤ maxval := by
  unfold checkRegRange at h
  split at h
  · cases h
  · omega

theorem check_cmp_rd {codePos : Nat} {offset : BitVec 6} {value mask : BitVec 16} {op : Op}
    {rd : Reg} (h : check codePos (.cmp offset value mask op rd) = .ok ()) : rd.toNat ≤ 15 := by
  simp only [check, bind, Except.bind] at h
  split at h
  · cases h
  · split at h
    · cases h
    · exact (checkRegRange_ok h).2

theorem rd_setWidth {rd : Reg} (h : rd.toNat ≤ 15) : (rd.setWidth 4).setWidth 5 = rd := by
  apply eq_of_toNat_eq
  simp only [toNat_setWidth]
  omega

theorem put_rd {rd : Reg} (h : rd.toNat ≤ 15) : put 64 rd 3 = put 64 (rd.setWidth 4) 3 := by
  have hw : rd.setWidth 64 = (rd.setWidth 4).setWidth 64 := by
    apply eq_of_toNat_eq
    simp only [toNat_setWidth]
    omega
  rw [put, put, hw]

theorem rd_append (rd : Reg) : rd.extractLsb' 4 1 ++ rd.extractLsb' 0 4 = rd := by
  rw [extractLsb'_append_extractLsb'_eq_extractLsb' (by decide : 4 = 0 + 4)]
  exact extractLsb'_eq_self

theorem decode_emit {codePos : Nat} : ∀ (s : Stmt), check codePos s = .ok () → s.Granular →
    decode ((emit s).extractLsb' 0 36) = s.instr
  | .nop, _, _ => by decide
  | .cmp offset value mask op rd, hc, hg => by
    have hrd := check_cmp_rd hc
    simp (disch := omega) only [decode, emit, put_rd hrd, get_extract, extractLsb'_or,
      get_put, get_put_of_disjoint, or_zero, zero_or, Nat.zero_add,
      Op.ofCode_code, rd_setWidth hrd]
    rw [show nibbles _ _ _ _ = mask from hg]
    rfl
  | .logic2 rd ra op rb, _, _ => by
    simp (disch := omega) only [decode, emit, modeLogic, get_extract, extractLsb'_or,
      get_put, get_put_of_disjoint, or_zero, zero_or, Nat.zero_add,
      Op.ofCode_code, rd_append]
    rfl
  | .logic3 rd ra op rb op2 rc, _, _ => by
    simp (disch := omega) only [decode, emit, modeLogic, get_extract, extractLsb'_or,
      get_put, get_put_of_disjoint, or_zero, zero_or, Nat.zero_add,
      Op.ofCode_code, rd_append]
    rfl

theorem assembleFrom_ok : ∀ {codePos : Nat} {ss : List Stmt} {words : List (BitVec 64)},
    assembleFrom codePos ss = .ok words →
      words = ss.map emit ++ [finWord] ∧
        ∀ (k : Nat) (s : Stmt), ss[k]? = some s → check (codePos + k) s = .ok ()
  | _, [], _, h => by
    cases h
    exact ⟨rfl, fun k s hk => by cases hk⟩
  | codePos, s :: ss, words, h => by
    simp only [assembleFrom, bind, Except.bind] at h
    split at h
    · cases h
    case h_2 u hs =>
      split at h
      · cases h
      case h_2 rest hrest =>
        obtain ⟨hwords, hall⟩ := assembleFrom_ok hrest
        cases h
        refine ⟨by rw [hwords]; rfl, fun k s' hk => ?_⟩
        cases k with
        | zero =>
          cases hk
          exact hs
        | succ k =>
          have hnext := hall k s' hk
          rwa [Nat.add_right_comm] at hnext

/-! ## The rule sets -/

section Registers

def frameBroadcast : Reg := 1

/-- The station's own address, or one of the multicasts that it accepts. -/
def frameMacOk : Reg := 2

def frameMacPtp : Reg := 3
def frameOurVlan : Reg := 4
def frameTypeIpv4 : Reg := 5
def frameTypePtp2 : Reg := 6
def frameTypeArp : Reg := 7
def frameIcmp : Reg := 8
def frameUdp : Reg := 9
def portUdpHost : Reg := 10
def portUdpEtherbone : Reg := 11
def rTmp : Reg := 12
def frameIpOk : Reg := 14
def frameForCpu : Reg := 15

end Registers

/-- The calls that both programs begin with: three sets of comparisons over the destination
address, the first of them with the address of three words that is given. -/
def addressRules (a₀ a₁ a₂ : BitVec 16) : List Stmt :=
  [.nop,
    .cmp 0 a₀ 0xffff .mov frameMacOk,
    .cmp 1 a₁ 0xffff .and frameMacOk,
    .cmp 2 a₂ 0xffff .and frameMacOk,
    .cmp 0 0xffff 0xffff .mov frameBroadcast,
    .cmp 1 0xffff 0xffff .and frameBroadcast,
    .cmp 2 0xffff 0xffff .and frameBroadcast,
    -- PTP over UDP: 01:00:5e:00:01:81 end to end, 01:00:5e:00:00:6b peer to peer
    .cmp 0 0x0100 0xffff .mov frameMacPtp,
    .cmp 1 0x5e00 0xffff .and frameMacPtp,
    .cmp 2 0x0181 0xffff .mov rTmp,
    .cmp 2 0x006b 0xffff .or rTmp,
    .logic3 frameMacOk frameMacPtp .and rTmp .or frameMacOk]

/-- What `pfilter_init_novlan` goes on with. -/
def novlanRules (latencyEthtype : BitVec 16) : List Stmt :=
  [.cmp 6 0x8100 0xffff .mov rTmp,
    .logic2 rDrop rTmp .mov rZero,
    .cmp 6 0x88f7 0xffff .mov frameTypePtp2,
    .cmp 6 latencyEthtype 0xffff .or frameTypePtp2,
    .cmp 6 0x0800 0xffff .mov frameTypeIpv4,
    .cmp 6 0x0806 0xffff .mov frameTypeArp,
    .logic3 frameIpOk frameBroadcast .or frameMacOk .and frameTypeIpv4,
    .cmp 11 0x0001 0x00ff .mov frameIcmp,
    .cmp 11 0x0011 0x00ff .mov frameUdp,
    .logic2 frameUdp frameUdp .and frameIpOk,
    .logic2 frameForCpu frameTypeArp .or frameTypePtp2,
    .logic3 frameForCpu frameIpOk .and frameIcmp .or frameForCpu,
    -- the UDP ports, at a fixed place: 14 + 20 + 2 bytes
    .cmp 18 0x0000 0xff00 .mov portUdpHost,
    .cmp 18 0x0100 0xff00 .or portUdpHost,
    .logic3 (rClass 0) frameUdp .and portUdpHost .or frameForCpu,
    .cmp 18 0xebd0 0xffff .mov portUdpEtherbone,
    .logic2 (rClass 7) frameUdp .and portUdpEtherbone,
    .logic2 (rClass 6) frameUdp .nand portUdpEtherbone]

/-- `pfilter_init_novlan`, with `CONFIG_LATENCY_ETHTYPE`; the fake address 12:34:56:78:9a:bc
stands for the station's. -/
def initNovlan (latencyEthtype : BitVec 16) : List Stmt :=
  addressRules 0x1234 0x5678 0x9abc ++ novlanRules latencyEthtype

/-- The build-time configuration that the filter reads; of an `int` the emitter keeps 16
bits. -/
structure Config where
  latencyEthtype : BitVec 16
  vlan1ForClass7 : BitVec 16
  vlan2ForClass7 : BitVec 16
  vlanForClass6 : BitVec 16
deriving DecidableEq, Repr

/-- The defaults of `Kconfig`, for a build with VLANs. -/
def Config.default : Config where
  latencyEthtype := 291
  vlan1ForClass7 := 20
  vlan2ForClass7 := 30
  vlanForClass6 := 100

/-- What `pfilter_init_vlan` goes on with, for the station's own VLAN. -/
def vlanRules (c : Config) (ourVlan : BitVec 16) : List Stmt :=
  [.cmp 6 0x8100 0xffff .mov rTmp,
    .logic2 rDrop rTmp .not rZero,
    .cmp 7 ourVlan 0x0fff .mov frameOurVlan,
    .cmp 8 0x88f7 0xffff .mov frameTypePtp2,
    .cmp 8 c.latencyEthtype 0xffff .or frameTypePtp2,
    .cmp 8 0x0800 0xffff .mov frameTypeIpv4,
    .cmp 8 0x0806 0xffff .mov frameTypeArp,
    .logic3 frameForCpu frameMacOk .or frameBroadcast .or frameTypePtp2,
    .logic2 (rClass 0) frameForCpu .and frameOurVlan,
    .logic2 rTmp frameMacOk .or frameBroadcast,
    .cmp 7 c.vlan1ForClass7 0x0fff .mov frameOurVlan,
    .cmp 7 c.vlan2ForClass7 0x0fff .or frameOurVlan,
    .logic2 (rClass 7) rTmp .and frameOurVlan,
    .cmp 7 c.vlanForClass6 0x0fff .mov frameOurVlan,
    .logic2 (rClass 6) rTmp .and frameOurVlan]

/-- `pfilter_init_vlan`; the fake VLAN number 0xaaa stands for the one set at run time. -/
def initVlan (c : Config) : List Stmt :=
  addressRules 0x1234 0x5678 0x9abc ++ vlanRules c 0x0aaa

theorem assemble_initNovlan (latencyEthtype : BitVec 16) :
    assembleFrom 0 (initNovlan latencyEthtype) =
      .ok ((initNovlan latencyEthtype).map emit ++ [finWord]) := rfl

theorem assemble_initVlan (c : Config) :
    assembleFrom 0 (initVlan c) = .ok ((initVlan c).map emit ++ [finWord]) := rfl

end Wrpc.Pfilter
