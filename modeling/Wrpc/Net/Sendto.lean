/-
# Sending from a socket (`ptpd_netif_sendto` of `net.c`)

The function puts an Ethernet header in front of the caller's data and hands both to
`minic_tx_frame`.  The header is a local variable with room for a VLAN tag; without
VLAN its last four bytes are neither set nor sent.  `sentFrame_eq` is what goes out.
-/
import Wrpc.Dev.MinicTx
import Wrpc.Net.Sockq

namespace Wrpc.Net

/-- What the header is made of, besides the destination: our own MAC address,
`wrc_vlan_number`, and the priority and ethertype of the socket. -/
structure SendEnv where
  mac : BitVec 48
  vlan : Nat
  prio : Nat
  ethertype : BitVec 16

/-- The arguments of `ptpd_netif_sendto`: the MAC address of `to`, `data`, `data_length`. -/
structure Answer where
  mac : BitVec 48
  data : Mem
  dataLength : Nat

def SendEnv.header (env : SendEnv) (dst : BitVec 48) : List Byte :=
  if env.vlan ≠ 0 then
    EthHdr.image ⟨dst, env.mac, 0x8100⟩ ++
      Bytes.imageOf .big 2 (u16 (env.vlan ||| env.prio <<< 13)) ++
      Bytes.imageOf .big 2 env.ethertype.toNat
  else EthHdr.image ⟨dst, env.mac, env.ethertype⟩

/-- `ptpd_netif_sendto`: the bytes on the wire; `junk` is the memory of the header
before. -/
def sentFrame (env : SendEnv) (junk : Mem) (a : Answer) : List Byte :=
  wireBytes (txWords (junk.write 0 (env.header a.mac)) a.data a.dataLength true)

def SendEnv.headerSize (env : SendEnv) : Nat := if env.vlan ≠ 0 then 18 else 14

variable (env : SendEnv)

theorem SendEnv.header_length (dst : BitVec 48) :
    (env.header dst).length = env.headerSize := by
  unfold SendEnv.header SendEnv.headerSize
  split
  · simp [EthHdr.image]
  · simp [EthHdr.image]

theorem type_bytes (m : Mem) (dst src : BitVec 48) (type : BitVec 16) (rest : List Byte) :
    m.write 0 (EthHdr.image ⟨dst, src, type⟩ ++ rest) 12 = BitVec.ofNat 8 (type.toNat / 256) ∧
      m.write 0 (EthHdr.image ⟨dst, src, type⟩ ++ rest) 13 = BitVec.ofNat 8 type.toNat := by
  have hlen : 14 ≤ (EthHdr.image ⟨dst, src, type⟩ ++ rest).length := by
    simp only [List.length_append, EthHdr.image, Bytes.imageOf_length]
    omega
  have h12 : m.write 0 (EthHdr.image ⟨dst, src, type⟩ ++ rest) (0 + 12) =
      (EthHdr.image ⟨dst, src, type⟩ ++ rest).getD 12 0 := Mem.write_at (by omega)
  have h13 : m.write 0 (EthHdr.image ⟨dst, src, type⟩ ++ rest) (0 + 13) =
      (EthHdr.image ⟨dst, src, type⟩ ++ rest).getD 13 0 := Mem.write_at (by omega)
  exact ⟨h12, h13⟩

theorem SendEnv.txHeaderSize_eq (h : env.ethertype = 0x0800) (dst : BitVec 48)
    (junk : Mem) : txHeaderSize (junk.write 0 (env.header dst)) = env.headerSize := by
  unfold txHeaderSize SendEnv.header SendEnv.headerSize
  by_cases hvlan : env.vlan ≠ 0
  · rw [if_pos hvlan, if_pos hvlan, List.append_assoc]
    obtain ⟨h12, h13⟩ := type_bytes junk dst env.mac 0x8100 (Bytes.imageOf .big 2
      (u16 (env.vlan ||| env.prio <<< 13)) ++ Bytes.imageOf .big 2 env.ethertype.toNat)
    refine if_pos ⟨?_, ?_⟩
    · rw [h12]
      decide
    · rw [h13]
      decide
  · rw [if_neg hvlan, if_neg hvlan, h]
    refine if_neg fun hbytes => ?_
    have h12 := (type_bytes junk dst env.mac 0x0800 []).1
    rw [List.append_nil] at h12
    rw [h12] at hbytes
    exact absurd hbytes.1 (by decide)

/-- **What is sent** is the header, the data, and the padding behind the data. -/
theorem sentFrame_eq (h : env.ethertype = 0x0800) (junk : Mem) (a : Answer) :
    sentFrame env junk a =
      env.header a.mac ++ a.data.read 0 (txSize env.headerSize a.dataLength) := by
  rw [sentFrame, wireBytes_txWords, env.txHeaderSize_eq h]
  congr 1
  rw [← env.header_length a.mac, Mem.read_write]

end Wrpc.Net
