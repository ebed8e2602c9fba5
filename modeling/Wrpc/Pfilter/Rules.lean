/-
# What the two rule sets do with a frame

For every frame, station address and configuration: when the frame is dropped, and which of
the classes 0 (CPU), 6 and 7 (fabric) it gets, once `ep_pfilter_init_default` has loaded the
rules.  The registers before the program do not matter, every register is written before it
is read.

Two places where the rules are not what one expects:

* without a VLAN the UDP port is the word at byte 36.  In an IPv4 header with options the
  port stands elsewhere, and the frame is classified by what it has at byte 36;
* with one, a fabric VLAN that is configured as 0xaaa is the placeholder of the station's
  own VLAN, and is replaced by it.
-/
import Mathlib.Data.Fin.VecNotation
import Wrpc.Pfilter.Endpoint

namespace Wrpc.Pfilter

open BitField

/-! ## Frames -/

def broadcast : Mac := fun _ => 0xff

def ptpEndToEnd : Mac := ![0x01, 0x00, 0x5e, 0x00, 0x01, 0x81]

def ptpPeerToPeer : Mac := ![0x01, 0x00, 0x5e, 0x00, 0x00, 0x6b]

namespace Frame

variable (f : Frame)

def DestinedTo (a : Mac) : Prop := ∀ k : Fin 6, f.byte k = a k

instance (a : Mac) : Decidable (f.DestinedTo a) := inferInstanceAs (Decidable (∀ _, _))

def MacOk (mac : Mac) : Prop :=
  f.DestinedTo mac ∨ f.DestinedTo ptpEndToEnd ∨ f.DestinedTo ptpPeerToPeer

instance (mac : Mac) : Decidable (f.MacOk mac) := inferInstanceAs (Decidable (_ ∨ _))

def Addressed (mac : Mac) : Prop := f.DestinedTo broadcast ∨ f.MacOk mac

instance (mac : Mac) : Decidable (f.Addressed mac) := inferInstanceAs (Decidable (_ ∨ _))

def ethertype : BitVec 16 := f.word 6

def vlan : BitVec 16 := f.word 7 &&& 0x0fff

def innerEthertype : BitVec 16 := f.word 8

def IpOk (mac : Mac) : Prop := f.Addressed mac ∧ f.ethertype = 0x0800

instance (mac : Mac) : Decidable (f.IpOk mac) := inferInstanceAs (Decidable (_ ∧ _))

/-- The length of the IPv4 header, in units of four bytes. -/
def ihl : BitVec 4 := (f.byte 14).extractLsb' 0 4

def protocol : BitVec 8 := f.byte 23

/-- The destination port, in the UDP header that follows the IPv4 header. -/
def udpDstPort : BitVec 16 :=
  f.byte (14 + 4 * f.ihl.toNat + 2) ++ f.byte (14 + 4 * f.ihl.toNat + 3)

def portWord : BitVec 16 := f.word 18

theorem udpDstPort_of_ihl (h : f.ihl = 5) : f.udpDstPort = f.portWord := by
  rw [udpDstPort, h]
  rfl

theorem destinedTo_iff (a : Mac) :
    f.DestinedTo a ↔
      f.word 0 = macWord a 1 ∧ f.word 1 = macWord a 2 ∧ f.word 2 = macWord a 3 := by
  have hword (k : Nat) (i : Nat) : f.word k = macWord a i ↔
      f.byte (2 * k) = a (Fin.ofNat 6 (2 * (i - 1))) ∧
        f.byte (2 * k + 1) = a (Fin.ofNat 6 (2 * (i - 1) + 1)) := append_inj ..
  rw [hword, hword, hword]
  constructor
  · intro h
    exact ⟨⟨h 0, h 1⟩, ⟨h 2, h 3⟩, h 4, h 5⟩
  · rintro ⟨⟨h₀, h₁⟩, ⟨h₂, h₃⟩, h₄, h₅⟩ k
    match k with
    | 0 => exact h₀
    | 1 => exact h₁
    | 2 => exact h₂
    | 3 => exact h₃
    | 4 => exact h₄
    | 5 => exact h₅

theorem word_low (k : Nat) (b : BitVec 8) :
    f.word k &&& 0x00ff = 0#8 ++ b ↔ f.byte (2 * k + 1) = b := by
  rw [word, show (0x00ff : BitVec 16) = 0#8 ++ BitVec.allOnes 8 by decide, BitVec.and_append,
    append_inj, BitVec.and_zero, BitVec.and_allOnes]
  exact and_iff_right rfl

theorem word_high (k : Nat) (b : BitVec 8) :
    f.word k &&& 0xff00 = b ++ 0#8 ↔ f.byte (2 * k) = b := by
  rw [word, show (0xff00 : BitVec 16) = BitVec.allOnes 8 ++ 0#8 by decide, BitVec.and_append,
    append_inj, BitVec.and_zero, BitVec.and_allOnes]
  exact and_iff_left rfl

theorem portWord_lt : f.portWord.toNat < 512 ↔ f.byte 36 = 0 ∨ f.byte 36 = 1 := by
  have hport : f.portWord.toNat = (f.byte 36).toNat * 256 + (f.byte 37).toNat := by
    rw [portWord, word, BitVec.toNat_append, ← Nat.shiftLeft_add_eq_or_of_lt (f.byte 37).isLt,
      Nat.shiftLeft_eq]
  have hzero : f.byte 36 = 0 ↔ (f.byte 36).toNat = 0 := BitVec.toNat_inj.symm
  have hone : f.byte 36 = 1 ↔ (f.byte 36).toNat = 1 := BitVec.toNat_inj.symm
  rw [hport, hzero, hone]
  omega

end Frame

theorem and_ffff (x : BitVec 16) : x &&& 0xffff = x := BitVec.and_allOnes

section Address

variable (mac : Mac) (f : Frame) (r : Regs)

theorem addressRegs_broadcast :
    addressRegs mac f r frameBroadcast = true ↔ f.DestinedTo broadcast := by
  have hrun : addressRegs mac f r frameBroadcast =
      (f.word 2 &&& 0xffff == 0xffff &&
        (f.word 1 &&& 0xffff == 0xffff && f.word 0 &&& 0xffff == 0xffff)) := rfl
  rw [hrun, f.destinedTo_iff]
  simp only [and_ffff, Bool.and_eq_true, beq_iff_eq]
  constructor
  · rintro ⟨h₂, h₁, h₀⟩
    exact ⟨h₀, h₁, h₂⟩
  · rintro ⟨h₀, h₁, h₂⟩
    exact ⟨h₂, h₁, h₀⟩

theorem destinedTo_ptpEndToEnd : f.DestinedTo ptpEndToEnd ↔
    f.word 0 = 0x0100 ∧ f.word 1 = 0x5e00 ∧ f.word 2 = 0x0181 := f.destinedTo_iff _

theorem destinedTo_ptpPeerToPeer : f.DestinedTo ptpPeerToPeer ↔
    f.word 0 = 0x0100 ∧ f.word 1 = 0x5e00 ∧ f.word 2 = 0x006b := f.destinedTo_iff _

theorem addressRegs_macOk : addressRegs mac f r frameMacOk = true ↔ f.MacOk mac := by
  have hrun : addressRegs mac f r frameMacOk =
      ((f.word 1 &&& 0xffff == 0x5e00 && f.word 0 &&& 0xffff == 0x0100 &&
          (f.word 2 &&& 0xffff == 0x006b || f.word 2 &&& 0xffff == 0x0181)) ||
        (f.word 2 &&& 0xffff == macWord mac 3 &&
          (f.word 1 &&& 0xffff == macWord mac 2 && f.word 0 &&& 0xffff == macWord mac 1))) := rfl
  rw [hrun, Frame.MacOk, f.destinedTo_iff mac, destinedTo_ptpEndToEnd, destinedTo_ptpPeerToPeer]
  simp only [and_ffff, Bool.or_eq_true, Bool.and_eq_true, beq_iff_eq]
  constructor
  · rintro (⟨⟨h₁, h₀⟩, hp2p | he2e⟩ | ⟨h₂, h₁, h₀⟩)
    · exact .inr (.inr ⟨h₀, h₁, hp2p⟩)
    · exact .inr (.inl ⟨h₀, h₁, he2e⟩)
    · exact .inl ⟨h₀, h₁, h₂⟩
  · rintro (⟨h₀, h₁, h₂⟩ | ⟨h₀, h₁, he2e⟩ | ⟨h₀, h₁, hp2p⟩)
    · exact .inr ⟨h₂, h₁, h₀⟩
    · exact .inl ⟨⟨h₁, h₀⟩, .inr he2e⟩
    · exact .inl ⟨⟨h₁, h₀⟩, .inl hp2p⟩

end Address

/-! ## Untagged -/

/-- The filter of a station without a VLAN drops the tagged frames and classifies the others;
`port` is where the UDP port is read. -/
structure Untagged (port : Frame → BitVec 16) (latencyEthtype : BitVec 16) (mac : Mac) (f : Frame)
    (r : Regs) : Prop where
  drop : r rDrop = true ↔ f.ethertype = 0x8100
  cpu : f.ethertype ≠ 0x8100 → (r (rClass 0) = true ↔
    f.ethertype = 0x0806 ∨ f.ethertype = 0x88f7 ∨ f.ethertype = latencyEthtype ∨
      (f.IpOk mac ∧ (f.protocol = 1 ∨ (f.protocol = 17 ∧ (port f).toNat < 512))))
  etherbone : f.ethertype ≠ 0x8100 →
    (r (rClass 7) = true ↔ f.IpOk mac ∧ f.protocol = 17 ∧ port f = 0xebd0)
  fabric : f.ethertype ≠ 0x8100 → (r (rClass 6) = true ↔ ¬r (rClass 7) = true)

section Novlan

variable (latencyEthtype : BitVec 16) (mac : Mac) (f : Frame) (r : Regs)

def novlanRegs : Regs :=
  exec f.word ((novlanRules latencyEthtype).map Stmt.instr) (addressRegs mac f r)

/-- `FRAME_IP_OK`. -/
def ipOkBit : Bool :=
  (addressRegs mac f r frameBroadcast || addressRegs mac f r frameMacOk) &&
    f.word 6 &&& 0xffff == 0x0800

def etherboneBit : Bool :=
  ((f.word 11 &&& 0x00ff == 0#8 ++ 17#8) && ipOkBit mac f r) && f.word 18 &&& 0xffff == 0xebd0

theorem ipOkBit_iff : ipOkBit mac f r = true ↔ f.IpOk mac := by
  rw [ipOkBit, Bool.and_eq_true, Bool.or_eq_true, addressRegs_broadcast, addressRegs_macOk,
    beq_iff_eq, and_ffff]
  rfl

theorem protocol_iff (b : BitVec 8) : f.word 11 &&& 0x00ff = 0#8 ++ b ↔ f.protocol = b :=
  f.word_low 11 b

theorem hostPort_iff :
    (f.word 18 &&& 0xff00 == 0x0100 || f.word 18 &&& 0xff00 == 0x0000) = true ↔
      f.portWord.toNat < 512 := by
  have hone : f.word 18 &&& 0xff00 = 0x0100 ↔ f.byte 36 = 1 := f.word_high 18 1
  have hzero : f.word 18 &&& 0xff00 = 0x0000 ↔ f.byte 36 = 0 := f.word_high 18 0
  rw [Bool.or_eq_true, beq_iff_eq, beq_iff_eq, hone, hzero, f.portWord_lt]
  exact or_comm

theorem novlanRegs_drop :
    novlanRegs latencyEthtype mac f r rDrop = true ↔ f.ethertype = 0x8100 := by
  have hrun : novlanRegs latencyEthtype mac f r rDrop = (f.word 6 &&& 0xffff == 0x8100) := rfl
  rw [hrun, beq_iff_eq, and_ffff]
  rfl

theorem novlanRegs_cpu : novlanRegs latencyEthtype mac f r (rClass 0) = true ↔
    f.ethertype = 0x0806 ∨ f.ethertype = 0x88f7 ∨ f.ethertype = latencyEthtype ∨
      (f.IpOk mac ∧ (f.protocol = 1 ∨ (f.protocol = 17 ∧ f.portWord.toNat < 512))) := by
  have hrun : novlanRegs latencyEthtype mac f r (rClass 0) =
      (((f.word 11 &&& 0x00ff == 0#8 ++ 17#8) && ipOkBit mac f r) &&
          (f.word 18 &&& 0xff00 == 0x0100 || f.word 18 &&& 0xff00 == 0x0000) ||
        (ipOkBit mac f r && (f.word 11 &&& 0x00ff == 0#8 ++ 1#8) ||
          (f.word 6 &&& 0xffff == 0x0806 ||
            (f.word 6 &&& 0xffff == latencyEthtype || f.word 6 &&& 0xffff == 0x88f7)))) := rfl
  rw [hrun, Bool.or_eq_true, Bool.and_eq_true, hostPort_iff]
  simp only [Bool.or_eq_true, Bool.and_eq_true, protocol_iff, ipOkBit_iff, beq_iff_eq, and_ffff]
  constructor
  · rintro (⟨⟨hudp, hip⟩, hport⟩ | ⟨hip, hicmp⟩ | harp | hlatency | hptp)
    · exact .inr (.inr (.inr ⟨hip, .inr ⟨hudp, hport⟩⟩))
    · exact .inr (.inr (.inr ⟨hip, .inl hicmp⟩))
    · exact .inl harp
    · exact .inr (.inr (.inl hlatency))
    · exact .inr (.inl hptp)
  · rintro (harp | hptp | hlatency | ⟨hip, hicmp | ⟨hudp, hport⟩⟩)
    · exact .inr (.inr (.inl harp))
    · exact .inr (.inr (.inr (.inr hptp)))
    · exact .inr (.inr (.inr (.inl hlatency)))
    · exact .inr (.inl ⟨hip, hicmp⟩)
    · exact .inl ⟨⟨hudp, hip⟩, hport⟩

theorem novlanRegs_etherbone : novlanRegs latencyEthtype mac f r (rClass 7) = true ↔
    f.IpOk mac ∧ f.protocol = 17 ∧ f.portWord = 0xebd0 := by
  have hrun : novlanRegs latencyEthtype mac f r (rClass 7) = etherboneBit mac f r := rfl
  rw [hrun, etherboneBit]
  simp only [Bool.and_eq_true, protocol_iff, ipOkBit_iff, beq_iff_eq, and_ffff]
  constructor
  · rintro ⟨⟨hudp, hip⟩, hport⟩
    exact ⟨hip, hudp, hport⟩
  · rintro ⟨hip, hudp, hport⟩
    exact ⟨⟨hudp, hip⟩, hport⟩

theorem novlanRegs_fabric : novlanRegs latencyEthtype mac f r (rClass 6) = true ↔
    ¬novlanRegs latencyEthtype mac f r (rClass 7) = true := by
  have hrun₆ : novlanRegs latencyEthtype mac f r (rClass 6) = !etherboneBit mac f r := rfl
  have hrun₇ : novlanRegs latencyEthtype mac f r (rClass 7) = etherboneBit mac f r := rfl
  rw [hrun₆, hrun₇, Bool.not_eq_true, Bool.not_eq_true']

theorem novlanRegs_untagged :
    Untagged Frame.portWord latencyEthtype mac f (novlanRegs latencyEthtype mac f r) where
  drop := novlanRegs_drop latencyEthtype mac f r
  cpu := fun _ => novlanRegs_cpu latencyEthtype mac f r
  etherbone := fun _ => novlanRegs_etherbone latencyEthtype mac f r
  fabric := fun _ => novlanRegs_fabric latencyEthtype mac f r

end Novlan

theorem Untagged.congr {port port' : Frame → BitVec 16} {latencyEthtype : BitVec 16} {mac : Mac}
    {f : Frame} {r : Regs} (h : Untagged port latencyEthtype mac f r) (hport : port' f = port f) :
    Untagged port' latencyEthtype mac f r where
  drop := h.drop
  cpu := by
    rw [hport]
    exact h.cpu
  etherbone := by
    rw [hport]
    exact h.etherbone
  fabric := h.fabric

/-- Without a VLAN, for every frame: the filter does what it is for, with the word at byte 36
as the UDP port; and that word is the port in a frame whose IPv4 header has no options. -/
theorem untagged_filter (c : Config) (mac : Mac) (e : Endpoint) (f : Frame) (r : Regs) :
    Untagged Frame.portWord c.latencyEthtype mac f ((initDefault c mac 0 e).classify f r) ∧
      (f.ihl = 5 →
        Untagged Frame.udpDstPort c.latencyEthtype mac f
          ((initDefault c mac 0 e).classify f r)) := by
  have huntagged : Untagged Frame.portWord c.latencyEthtype mac f
      ((initDefault c mac 0 e).classify f r) := by
    rw [classify_novlan]
    exact novlanRegs_untagged c.latencyEthtype mac f r
  exact ⟨huntagged, fun hihl => huntagged.congr (f.udpDstPort_of_ihl hihl)⟩

/-- A broadcast to UDP port 68, as a DHCP server sends it. -/
def dhcpFrame : Frame where
  bytes :=
    [0xff, 0xff, 0xff, 0xff, 0xff, 0xff, 0x02, 0x00, 0x00, 0x00, 0x00, 0x01, 0x08, 0x00,
      0x45, 0x00, 0x00, 0x2e, 0x00, 0x00, 0x00, 0x00, 0x40, 0x11, 0x00, 0x00,
      0xc0, 0xa8, 0x00, 0x01, 0xff, 0xff, 0xff, 0xff,
      0x00, 0x43, 0x00, 0x44, 0x00, 0x1a, 0x00, 0x00] ++ List.replicate 18 0
  long := by decide

theorem untagged_filter_dhcp :
    (initDefault Config.default (fun _ => 0x02) 0 ⟨0, fun _ => 0, false⟩).classify dhcpFrame
      (fun _ => false) (rClass 0) = true :=
  ((untagged_filter Config.default (fun _ => 0x02) ⟨0, fun _ => 0, false⟩ dhcpFrame
    fun _ => false).2 (by decide)).cpu (by decide) |>.2 (by decide)

/-- A broadcast to UDP port 68, with four bytes of options in the IPv4 header. -/
def optionsFrame : Frame where
  bytes :=
    [0xff, 0xff, 0xff, 0xff, 0xff, 0xff, 0x02, 0x00, 0x00, 0x00, 0x00, 0x01, 0x08, 0x00,
      0x46, 0x00, 0x00, 0x2e, 0x00, 0x00, 0x00, 0x00, 0x40, 0x11, 0x00, 0x00,
      0xc0, 0xa8, 0x00, 0x01, 0xff, 0xff, 0xff, 0xff, 0x94, 0x04, 0x14, 0x00,
      0x00, 0x43, 0x00, 0x44, 0x00, 0x16, 0x00, 0x00] ++ List.replicate 14 0
  long := by decide

/-- It is a frame for the CPU that does not get there. -/
theorem optionsFrame_missed :
    ¬Untagged Frame.udpDstPort Config.default.latencyEthtype (fun _ => 0x02) optionsFrame
      ((initDefault Config.default (fun _ => 0x02) 0 ⟨0, fun _ => 0, false⟩).classify
        optionsFrame fun _ => false) := by
  intro h
  have hcpu := (h.cpu (by decide)).2 (by decide)
  rw [classify_novlan] at hcpu
  exact absurd ((novlanRegs_cpu _ _ optionsFrame _).1 hcpu) (by decide)

/-! ## Tagged -/

/-- A VLAN number of the station: 0 is none, and 4095 is reserved. -/
structure VlanNumber where
  number : BitVec 16
  pos : 1 ≤ number.toNat
  le : number.toNat ≤ 4094
deriving DecidableEq

theorem VlanNumber.ne_zero (v : VlanNumber) : v.number ≠ 0 := by
  intro h
  have hpos := v.pos
  rw [h] at hpos
  exact absurd hpos (by decide)

/-- The filter of a station in a VLAN drops the untagged frames and classifies the others. -/
structure Tagged (c : Config) (mac : Mac) (vlan : BitVec 16) (f : Frame) (r : Regs) : Prop where
  drop : r rDrop = true ↔ f.ethertype ≠ 0x8100
  cpu : f.ethertype = 0x8100 → (r (rClass 0) = true ↔
    f.vlan = vlan ∧ (f.innerEthertype = 0x88f7 ∨ f.innerEthertype = c.latencyEthtype ∨
      f.Addressed mac))
  class7 : f.ethertype = 0x8100 → (r (rClass 7) = true ↔
    (f.vlan = c.vlan1ForClass7 ∨ f.vlan = c.vlan2ForClass7) ∧ f.Addressed mac)
  class6 : f.ethertype = 0x8100 →
    (r (rClass 6) = true ↔ f.vlan = c.vlanForClass6 ∧ f.Addressed mac)

section Vlan

variable (c : Config) (vlan : BitVec 16) (mac : Mac) (f : Frame) (r : Regs)

def vlanRegs : Regs :=
  exec f.word ((vlanRules c vlan).map Stmt.instr) (addressRegs mac f r)

/-- The second use of `R_TMP`. -/
def addressedBit : Bool :=
  addressRegs mac f r frameMacOk || addressRegs mac f r frameBroadcast

theorem addressedBit_iff : addressedBit mac f r = true ↔ f.Addressed mac := by
  rw [addressedBit, Bool.or_eq_true, addressRegs_broadcast, addressRegs_macOk]
  exact or_comm

theorem vlanRegs_drop : vlanRegs c vlan mac f r rDrop = true ↔ f.ethertype ≠ 0x8100 := by
  have hrun : vlanRegs c vlan mac f r rDrop = !(f.word 6 &&& 0xffff == 0x8100) := rfl
  rw [hrun, Bool.not_eq_true', beq_eq_false_iff_ne, and_ffff]
  rfl

theorem vlanRegs_cpu : vlanRegs c vlan mac f r (rClass 0) = true ↔
    f.vlan = vlan ∧ (f.innerEthertype = 0x88f7 ∨ f.innerEthertype = c.latencyEthtype ∨
      f.Addressed mac) := by
  have hrun : vlanRegs c vlan mac f r (rClass 0) =
      ((addressedBit mac f r ||
          (f.word 8 &&& 0xffff == c.latencyEthtype || f.word 8 &&& 0xffff == 0x88f7)) &&
        f.vlan == vlan) := rfl
  rw [hrun]
  simp only [Bool.or_eq_true, Bool.and_eq_true, addressedBit_iff, beq_iff_eq, and_ffff]
  constructor
  · rintro ⟨haddr | hlatency | hptp, hvlan⟩
    · exact ⟨hvlan, .inr (.inr haddr)⟩
    · exact ⟨hvlan, .inr (.inl hlatency)⟩
    · exact ⟨hvlan, .inl hptp⟩
  · rintro ⟨hvlan, hptp | hlatency | haddr⟩
    · exact ⟨.inr (.inr hptp), hvlan⟩
    · exact ⟨.inr (.inl hlatency), hvlan⟩
    · exact ⟨.inl haddr, hvlan⟩

theorem vlanRegs_class7 : vlanRegs c vlan mac f r (rClass 7) = true ↔
    (f.vlan = c.vlan1ForClass7 ∨ f.vlan = c.vlan2ForClass7) ∧ f.Addressed mac := by
  have hrun : vlanRegs c vlan mac f r (rClass 7) =
      (addressedBit mac f r &&
        (f.vlan == c.vlan2ForClass7 || f.vlan == c.vlan1ForClass7)) := rfl
  rw [hrun, Bool.and_eq_true, Bool.or_eq_true, addressedBit_iff, beq_iff_eq, beq_iff_eq, or_comm]
  exact and_comm

theorem vlanRegs_class6 : vlanRegs c vlan mac f r (rClass 6) = true ↔
    f.vlan = c.vlanForClass6 ∧ f.Addressed mac := by
  have hrun : vlanRegs c vlan mac f r (rClass 6) =
      (addressedBit mac f r && f.vlan == c.vlanForClass6) := rfl
  rw [hrun, Bool.and_eq_true, addressedBit_iff, beq_iff_eq]
  exact and_comm

theorem vlanRegs_tagged : Tagged c mac vlan f (vlanRegs c vlan mac f r) where
  drop := vlanRegs_drop c vlan mac f r
  cpu := fun _ => vlanRegs_cpu c vlan mac f r
  class7 := fun _ => vlanRegs_class7 c vlan mac f r
  class6 := fun _ => vlanRegs_class6 c vlan mac f r

end Vlan

theorem classify_tagged (c : Config) (mac : Mac) (v : VlanNumber) (e : Endpoint) (f : Frame)
    (r : Regs) :
    Tagged (c.patch v.number) mac v.number f ((initDefault c mac v.number e).classify f r) := by
  rw [classify_vlan c mac v.ne_zero]
  exact vlanRegs_tagged (c.patch v.number) v.number mac f r

/-- No fabric VLAN is the placeholder, or the placeholder is the station's VLAN. -/
def Config.Unpatched (c : Config) (vlan : BitVec 16) : Prop :=
  vlan = 0x0aaa ∨
    (c.vlan1ForClass7 ≠ 0x0aaa ∧ c.vlan2ForClass7 ≠ 0x0aaa ∧ c.vlanForClass6 ≠ 0x0aaa)

instance (c : Config) (vlan : BitVec 16) : Decidable (c.Unpatched vlan) :=
  inferInstanceAs (Decidable (_ ∨ _))

theorem patchedVlan_eq {vlan v : BitVec 16} (h : vlan = 0x0aaa ∨ v ≠ 0x0aaa) :
    patchedVlan vlan v = v := by
  unfold patchedVlan
  split
  case isTrue hv => exact (h.resolve_right fun hne => hne hv).trans hv.symm
  case isFalse => rfl

theorem patchedVlan_ne {vlan : BitVec 16} (h : vlan ≠ 0x0aaa) (v : BitVec 16) :
    patchedVlan vlan v ≠ 0x0aaa := by
  unfold patchedVlan
  split
  case isTrue => exact h
  case isFalse hv => exact hv

theorem Config.patch_eq {c : Config} {vlan : BitVec 16} (h : c.Unpatched vlan) :
    c.patch vlan = c := by
  have h₁ := patchedVlan_eq (h.imp_right fun hne => hne.1)
  have h₂ := patchedVlan_eq (h.imp_right fun hne => hne.2.1)
  have h₆ := patchedVlan_eq (h.imp_right fun hne => hne.2.2)
  rw [Config.patch, h₁, h₂, h₆]

def fakeVlanFrame : Frame where
  bytes :=
    [0xff, 0xff, 0xff, 0xff, 0xff, 0xff, 0x02, 0x00, 0x00, 0x00, 0x00, 0x01, 0x81, 0x00,
      0x0a, 0xaa, 0x08, 0x00] ++ List.replicate 42 0
  long := by decide

theorem fakeVlanFrame_tagged : fakeVlanFrame.ethertype = 0x8100 := by decide

theorem fakeVlanFrame_vlan : fakeVlanFrame.vlan = 0x0aaa := by decide

theorem fakeVlanFrame_addressed (mac : Mac) : fakeVlanFrame.Addressed mac := .inl (by decide)

/-- The filter of a station in a VLAN does what its configuration says, for every frame,
exactly if no fabric VLAN is taken for the placeholder of the station's. -/
theorem tagged_filter_iff (c : Config) (mac : Mac) (v : VlanNumber) (e : Endpoint) :
    (∀ (f : Frame) (r : Regs),
        Tagged c mac v.number f ((initDefault c mac v.number e).classify f r)) ↔
      c.Unpatched v.number := by
  constructor
  · intro h
    by_contra hnot
    obtain ⟨hv, hfake⟩ := not_or.1 hnot
    -- the frame of the placeholder's VLAN is in none of the patched ones
    have hspec := h fakeVlanFrame fun _ => false
    have hcode := classify_tagged c mac v e fakeVlanFrame fun _ => false
    have hclass7 (hset : 0x0aaa = c.vlan1ForClass7 ∨ 0x0aaa = c.vlan2ForClass7) : False := by
      have hreg := (hspec.class7 fakeVlanFrame_tagged).2
        ⟨by rwa [fakeVlanFrame_vlan], fakeVlanFrame_addressed mac⟩
      have hvlan := ((hcode.class7 fakeVlanFrame_tagged).1 hreg).1
      rcases hvlan with hp | hp
      · exact patchedVlan_ne hv _ hp.symm
      · exact patchedVlan_ne hv _ hp.symm
    have hclass6 (hset : c.vlanForClass6 = 0x0aaa) : False := by
      have hreg := (hspec.class6 fakeVlanFrame_tagged).2
        ⟨fakeVlanFrame_vlan.trans hset.symm, fakeVlanFrame_addressed mac⟩
      have hvlan := ((hcode.class6 fakeVlanFrame_tagged).1 hreg).1
      exact patchedVlan_ne hv _ (hvlan.symm.trans fakeVlanFrame_vlan)
    exact hfake ⟨fun h₁ => hclass7 (.inl h₁.symm), fun h₂ => hclass7 (.inr h₂.symm), hclass6⟩
  · intro h f r
    have hcode := classify_tagged c mac v e f r
    rwa [Config.patch_eq h] at hcode

/-- With the fabric VLAN 2730 for class 7 and the station in VLAN 10, a broadcast in VLAN 2730
does not get to class 7. -/
theorem fakeVlanFrame_missed :
    ¬Tagged { Config.default with vlan1ForClass7 := 2730 } (fun _ => 0x02) 10 fakeVlanFrame
      ((initDefault { Config.default with vlan1ForClass7 := 2730 } (fun _ => 0x02) 10
        ⟨0, fun _ => 0, false⟩).classify fakeVlanFrame fun _ => false) := by
  intro h
  have hset := (h.class7 fakeVlanFrame_tagged).2 (by decide)
  rw [classify_vlan _ _ (by decide)] at hset
  exact absurd ((vlanRegs_class7 _ _ _ fakeVlanFrame _).1 hset) (by decide)

end Wrpc.Pfilter
