/-
# The configuration of the eRTM14 on the wire

The host library (`libertm.c`) and the firmware (`ertm14/board.c`) exchange `struct
ertm14_board_state` as it lies in memory, with its words in network order.  Each side has
converters of its own, written field by field.

They are inverse to each other on all fields but two: the host converts the latency and
the timeout of the streamers, the firmware does not.
-/
import Wrpc.Lib.Bytes

namespace Wrpc.Ertm14

/-! ## The structure -/

/-- `struct ertm14_dds_state`; an `int` is its bits. -/
@[ext] structure DdsState where
  ftw : BitVec 32
  outState : Fin 13 → Byte
  outPower : Fin 13 → BitVec 32
  ampPower : BitVec 32
  amplFactor : BitVec 32
  syncSource : BitVec 32
  syncCount : BitVec 32
  syncState : Byte

/-- `struct ertm14_board_state`. -/
@[ext] structure BoardState where
  valid : BitVec 32
  ref : DdsState
  lo : DdsState
  clkaFreqHz : Fin 16 → BitVec 32
  clkbFreqHz : Fin 16 → BitVec 32
  clkaEnableMask : BitVec 32
  clkbEnableMask : BitVec 32
  clkaSyncState : Fin 16 → Byte
  clkbSyncState : Fin 16 → Byte
  streamersLatencyCycles : BitVec 32
  streamersTimeoutCycles : BitVec 32

/-- `ERTM_COMMON_RF_OUT_MIN_ID` and `ERTM_COMMON_CLKAB_OUT_MIN_ID`; the arrays end with the
last channel. -/
def outMinId : Nat := 4

/-- A loop over the channels that assigns `new` to each of them. -/
def overChannels {n : Nat} {α : Type} (old new : Fin n → α) : Fin n → α :=
  fun i => if outMinId ≤ i then new i else old i

/-- `htonl` and `ntohl`, on a little endian machine. -/
def htonl (x : BitVec 32) : BitVec 32 := Bytes.swap 4 x
def ntohl (x : BitVec 32) : BitVec 32 := Bytes.swap 4 x

@[simp] theorem ntohl_htonl (x : BitVec 32) : ntohl (htonl x) = x := Bytes.swap_swap 4 x

@[simp] theorem ntohl_ntohl (x : BitVec 32) : ntohl (ntohl x) = x := Bytes.swap_swap 4 x

/-- `dds_to_host_order` -/
def ddsToHostOrder (dds host : DdsState) : DdsState where
  ftw := ntohl dds.ftw
  ampPower := ntohl dds.ampPower
  amplFactor := ntohl dds.amplFactor
  syncSource := ntohl dds.syncSource
  syncCount := ntohl dds.syncCount
  syncState := dds.syncState
  outPower := overChannels host.outPower fun i => ntohl (dds.outPower i)
  outState := overChannels host.outState dds.outState

/-- `dds_to_network_order` -/
def ddsToNetworkOrder (host dds : DdsState) : DdsState where
  ftw := htonl host.ftw
  ampPower := htonl host.ampPower
  amplFactor := htonl host.amplFactor
  syncSource := ntohl host.syncSource
  syncCount := ntohl host.syncCount
  syncState := host.syncState
  outPower := overChannels dds.outPower fun i => htonl (host.outPower i)
  outState := overChannels dds.outState host.outState

/-- `board_state_to_network_order` -/
def boardStateToNetworkOrder (host board : BoardState) : BoardState where
  valid := board.valid
  ref := ddsToNetworkOrder host.ref board.ref
  lo := ddsToNetworkOrder host.lo board.lo
  clkaEnableMask := htonl host.clkaEnableMask
  clkbEnableMask := htonl host.clkbEnableMask
  streamersLatencyCycles := htonl host.streamersLatencyCycles
  streamersTimeoutCycles := htonl host.streamersTimeoutCycles
  clkaFreqHz := overChannels board.clkaFreqHz fun i => htonl (host.clkaFreqHz i)
  clkbFreqHz := overChannels board.clkbFreqHz fun i => htonl (host.clkbFreqHz i)
  clkaSyncState := overChannels board.clkaSyncState host.clkaSyncState
  clkbSyncState := overChannels board.clkbSyncState host.clkbSyncState

/-- `board_state_to_host_order` -/
def boardStateToHostOrder (board host : BoardState) : BoardState where
  valid := host.valid
  ref := ddsToHostOrder board.ref host.ref
  lo := ddsToHostOrder board.lo host.lo
  clkaEnableMask := ntohl board.clkaEnableMask
  clkbEnableMask := ntohl board.clkbEnableMask
  streamersLatencyCycles := ntohl board.streamersLatencyCycles
  streamersTimeoutCycles := ntohl board.streamersTimeoutCycles
  clkaFreqHz := overChannels host.clkaFreqHz fun i => ntohl (board.clkaFreqHz i)
  clkbFreqHz := overChannels host.clkbFreqHz fun i => ntohl (board.clkbFreqHz i)
  clkaSyncState := overChannels host.clkaSyncState board.clkaSyncState
  clkbSyncState := overChannels host.clkbSyncState board.clkbSyncState

/-- The `convert` of a call with `hton`. -/
def converter : Bool → BitVec 32 → BitVec 32
  | true => htonl
  | false => ntohl

/-- `dds_state_order` -/
def ddsStateOrder (dds : DdsState) (hton : Bool) : DdsState :=
  { dds with
    ftw := converter hton dds.ftw
    ampPower := converter hton dds.ampPower
    amplFactor := converter hton dds.amplFactor
    syncSource := converter hton dds.syncSource
    syncCount := converter hton dds.syncCount
    outPower := overChannels dds.outPower fun i => converter hton (dds.outPower i) }

/-- `board_state_to_no` -/
def boardStateToNo (s : BoardState) (hton : Bool) : BoardState :=
  { s with
    clkaEnableMask := converter hton s.clkaEnableMask
    clkbEnableMask := converter hton s.clkbEnableMask
    clkaFreqHz := overChannels s.clkaFreqHz fun i => converter hton (s.clkaFreqHz i)
    clkbFreqHz := overChannels s.clkbFreqHz fun i => converter hton (s.clkbFreqHz i)
    ref := ddsStateOrder s.ref hton
    lo := ddsStateOrder s.lo hton }

/-- `get_board_config`, with `ertm14_current_state`. -/
def getBoardConfig (current : BoardState) : BoardState := boardStateToNo current true

/-! ## There and back -/

structure SameDds (a b : DdsState) : Prop where
  ftw : a.ftw = b.ftw
  outState : ∀ i, outMinId ≤ i.val → a.outState i = b.outState i
  outPower : ∀ i, outMinId ≤ i.val → a.outPower i = b.outPower i
  ampPower : a.ampPower = b.ampPower
  amplFactor : a.amplFactor = b.amplFactor
  syncSource : a.syncSource = b.syncSource
  syncCount : a.syncCount = b.syncCount
  syncState : a.syncState = b.syncState

/-- The fields of a configuration that the host converts are equal, the latency and the timeout
of the streamers aside. -/
structure SameOutputs (a b : BoardState) : Prop where
  ref : SameDds a.ref b.ref
  lo : SameDds a.lo b.lo
  clkaFreqHz : ∀ i, outMinId ≤ i.val → a.clkaFreqHz i = b.clkaFreqHz i
  clkbFreqHz : ∀ i, outMinId ≤ i.val → a.clkbFreqHz i = b.clkbFreqHz i
  clkaEnableMask : a.clkaEnableMask = b.clkaEnableMask
  clkbEnableMask : a.clkbEnableMask = b.clkbEnableMask
  clkaSyncState : ∀ i, outMinId ≤ i.val → a.clkaSyncState i = b.clkaSyncState i
  clkbSyncState : ∀ i, outMinId ≤ i.val → a.clkbSyncState i = b.clkbSyncState i

structure SameConfig (a b : BoardState) : Prop extends SameOutputs a b where
  streamersLatencyCycles : a.streamersLatencyCycles = b.streamersLatencyCycles
  streamersTimeoutCycles : a.streamersTimeoutCycles = b.streamersTimeoutCycles

section Channels

variable {n : Nat} {α : Type}

theorem overChannels_of_le {old new : Fin n → α} {i : Fin n} (h : outMinId ≤ i.val) :
    overChannels old new i = new i :=
  if_pos h

theorem overChannels_self {old new : Fin n → α} (h : ∀ i, outMinId ≤ i.val → new i = old i) :
    overChannels old new = old := by
  funext i
  by_cases hi : outMinId ≤ i.val
  · exact (if_pos hi).trans (h i hi)
  · exact if_neg hi

theorem overChannels_through {f g : α → α} (h : ∀ x, g (f x) = x) (a old : Fin n → α) {i : Fin n}
    (hi : outMinId ≤ i.val) :
    overChannels old (fun i => g (overChannels a (fun i => f (a i)) i)) i = a i := by
  rw [overChannels_of_le hi, overChannels_of_le hi, h]

theorem overChannels_back {f g : α → α} (h : ∀ x, g (f x) = x) (a : Fin n → α) :
    overChannels (overChannels a fun i => f (a i))
      (fun i => g (overChannels a (fun i => f (a i)) i)) = a := by
  funext i
  by_cases hi : outMinId ≤ i.val
  · exact overChannels_through h a _ hi
  · exact (if_neg hi).trans (if_neg hi)

end Channels

theorem dds_host_firmware (dds : DdsState) :
    ddsStateOrder (ddsToNetworkOrder dds dds) false = dds := by
  ext1
  case ftw => exact ntohl_htonl dds.ftw
  case outState => exact overChannels_self fun _ _ => rfl
  case outPower => exact overChannels_back ntohl_htonl dds.outPower
  case ampPower => exact ntohl_htonl dds.ampPower
  case amplFactor => exact ntohl_htonl dds.amplFactor
  case syncSource => exact ntohl_ntohl dds.syncSource
  case syncCount => exact ntohl_ntohl dds.syncCount
  case syncState => rfl

theorem dds_firmware_host (dds host : DdsState) :
    SameDds (ddsToHostOrder (ddsStateOrder dds true) host) dds where
  ftw := ntohl_htonl dds.ftw
  outState _ hi := overChannels_of_le hi
  outPower _ hi := overChannels_through ntohl_htonl dds.outPower host.outPower hi
  ampPower := ntohl_htonl dds.ampPower
  amplFactor := ntohl_htonl dds.amplFactor
  syncSource := ntohl_htonl dds.syncSource
  syncCount := ntohl_htonl dds.syncCount
  syncState := rfl

/-- From the host to the firmware the streamers' fields arrive swapped, all others as they
were sent. -/
theorem config_host_firmware (s : BoardState) :
    boardStateToNo (boardStateToNetworkOrder s s) false =
      { s with streamersLatencyCycles := htonl s.streamersLatencyCycles,
               streamersTimeoutCycles := htonl s.streamersTimeoutCycles } := by
  ext1
  case valid => rfl
  case ref => exact dds_host_firmware s.ref
  case lo => exact dds_host_firmware s.lo
  case clkaFreqHz => exact overChannels_back ntohl_htonl s.clkaFreqHz
  case clkbFreqHz => exact overChannels_back ntohl_htonl s.clkbFreqHz
  case clkaEnableMask => exact ntohl_htonl s.clkaEnableMask
  case clkbEnableMask => exact ntohl_htonl s.clkbEnableMask
  case clkaSyncState => exact overChannels_self fun _ _ => rfl
  case clkbSyncState => exact overChannels_self fun _ _ => rfl
  case streamersLatencyCycles => rfl
  case streamersTimeoutCycles => rfl

theorem config_firmware_host (s host : BoardState) :
    SameOutputs (boardStateToHostOrder (getBoardConfig s) host) s where
  ref := dds_firmware_host s.ref host.ref
  lo := dds_firmware_host s.lo host.lo
  clkaFreqHz _ hi := overChannels_through ntohl_htonl s.clkaFreqHz host.clkaFreqHz hi
  clkbFreqHz _ hi := overChannels_through ntohl_htonl s.clkbFreqHz host.clkbFreqHz hi
  clkaEnableMask := ntohl_htonl s.clkaEnableMask
  clkbEnableMask := ntohl_htonl s.clkbEnableMask
  clkaSyncState _ hi := overChannels_of_le hi
  clkbSyncState _ hi := overChannels_of_le hi

def Palindromic (s : BoardState) : Prop :=
  Bytes.swap 4 s.streamersLatencyCycles = s.streamersLatencyCycles ∧
    Bytes.swap 4 s.streamersTimeoutCycles = s.streamersTimeoutCycles

/-- **The configuration on the wire.**  It arrives as it was sent, in either direction, exactly if
the latency and the timeout of the streamers are palindromic. -/
theorem config_round_trip (s host : BoardState) :
    (boardStateToNo (boardStateToNetworkOrder s s) false = s ↔ Palindromic s) ∧
      (SameConfig (boardStateToHostOrder (getBoardConfig s) host) s ↔ Palindromic s) := by
  constructor
  · rw [config_host_firmware]
    constructor
    · intro h
      exact ⟨congrArg BoardState.streamersLatencyCycles h,
        congrArg BoardState.streamersTimeoutCycles h⟩
    · rintro ⟨hlatency, htimeout⟩
      obtain ⟨valid, ref, lo, clka, clkb, maska, maskb, synca, syncb, latency, timeout⟩ := s
      simp only [BoardState.mk.injEq, true_and]
      exact ⟨hlatency, htimeout⟩
  · constructor
    · intro h
      exact ⟨h.streamersLatencyCycles, h.streamersTimeoutCycles⟩
    · rintro ⟨hlatency, htimeout⟩
      exact ⟨config_firmware_host s host, hlatency, htimeout⟩

/-- A configuration with all fields zero but those of the streamers. -/
def BoardState.streamers (latency timeout : BitVec 32) : BoardState :=
  let dds : DdsState := ⟨0, fun _ => 0, fun _ => 0, 0, 0, 0, 0, 0⟩
  ⟨0, dds, dds, fun _ => 0, fun _ => 0, 0, 0, fun _ => 0, fun _ => 0, latency, timeout⟩

/-- The defaults, 1000 and 10000 cycles, arrive as 3892510720 and 270991360. -/
theorem config_defaults_swapped :
    (boardStateToNo (boardStateToNetworkOrder (.streamers 1000 10000) (.streamers 1000 10000))
      false).streamersLatencyCycles = 3892510720 ∧
    (boardStateToHostOrder (getBoardConfig (.streamers 1000 10000))
      (.streamers 1000 10000)).streamersTimeoutCycles = 270991360 := by
  decide

end Wrpc.Ertm14
