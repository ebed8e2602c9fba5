/-
# The host library of the eRTM14 (`libertm.c`)

A getter fetches the configuration of the board over the UART, keeps it in the handle and
returns a field of it; a setter changes the handle's copy and, in immediate mode, sends the
change and commits it.  What happens on the line is given from outside: `Exchange` is all
that one request and its answer may be, with the answer of any device.

The status of the exchanges is dropped on the way (`update_board_config` and
`commit_config` are `void`), and the enable state is taken from the handle before the fetch.
-/
import Wrpc.Ertm14.BoardState

namespace Wrpc.Ertm14

/-! ## The handle -/

def errBadConnector : Int := -1
def errChOutOfRange : Int := -2
def errUartLinkSend : Int := -4
def errUartLinkRecv : Int := -5
def errBadHandle : Int := -6
def errUartProto : Int := -8
def errBadClkabFreq : Int := -9

inductive LibMode where
  | deferred | immediate | optimized | simulated
deriving DecidableEq, Repr

/-- The `state` of a `struct ertm_status`, as far as it is used here. -/
structure Handle where
  boardState : BoardState
  nextState : BoardState
  commitMask : BoardState
  mode : LibMode

/-- `enum ertm_connector`; any other value of the parameter is `invalid`. -/
inductive Connector where
  | clka | clkb | lo | ref | invalid
deriving DecidableEq, Repr

/-- `out_of_range` -/
def outOfRange (connector : Connector) (channel : Int) : Int :=
  match connector with
  | .clka | .clkb => if channel < outMinId ∨ 15 < channel then errChOutOfRange else 0
  | .lo | .ref => if channel < outMinId ∨ 12 < channel then errChOutOfRange else 0
  | .invalid => errBadConnector

/-- `bad_inputs`; `none` is a null pointer. -/
def badInputs (handle : Option Handle) (connector : Connector) (channel : Int) : Int :=
  match handle with
  | none => -errBadHandle
  | some _ => outOfRange connector channel

/-- "channel param is irrelevant for lo/ref" -/
def dropChannel (connector : Connector) (channel : Int) : Int :=
  match connector with
  | .lo | .ref => outMinId
  | .clka | .clkb | .invalid => channel

def clkIndex (channel : Int) : Fin 16 := Fin.ofNat 16 channel.toNat
def rfIndex (channel : Int) : Fin 13 := Fin.ofNat 13 channel.toNat

/-! ## The line -/

/-- `ERTM14_UART_PTYPE_SNMP_RESP` -/
def ptypeSnmpResp : Nat := 103

/-- What `uart_link_send` and `uart_link_recv` return, and the type and payload of the packet
that was received. -/
structure Exchange where
  sent : Int
  received : Int
  ptype : Nat
  answer : BoardState

/-- `ertm_proto_cycle_unlocked` and `ertm_proto_cycle`, with an operation that there is. -/
def protoCycle (x : Exchange) : Int :=
  if x.sent < 0 then errUartLinkSend
  else if x.received ≤ 0 then errUartLinkRecv
  else if x.ptype ≠ ptypeSnmpResp then errUartProto
  else 0

/-- `ertm_get_board_config` -/
def ertmGetBoardConfig (x : Exchange) (bs : BoardState) : Int × BoardState :=
  if protoCycle x < 0 then (protoCycle x, bs) else (0, boardStateToHostOrder x.answer bs)

/-- `update_board_config` -/
def updateBoardConfig (x : Exchange) (bs : BoardState) : BoardState := (ertmGetBoardConfig x bs).2

/-- `clean_config` -/
def cleanConfig : BoardState := .streamers 0 0

/-- The end of `ertm_init`: `fake` are the values of `ertm_status_init`, overridden by what the
board answers. -/
def ertmInit (fake : BoardState) (x : Exchange) : Handle where
  boardState := updateBoardConfig x fake
  nextState := cleanConfig
  commitMask := cleanConfig
  mode := .immediate

/-- What `freg`, `ssreg` and `enable` stand for. -/
def freqOf (connector : Connector) (channel : Int) (bs : BoardState) : BitVec 32 :=
  match connector with
  | .clka => bs.clkaFreqHz (clkIndex channel)
  | .clkb => bs.clkbFreqHz (clkIndex channel)
  | .lo => bs.lo.ftw
  | .ref | .invalid => bs.ref.ftw

def syncOf (connector : Connector) (channel : Int) (bs : BoardState) : Byte :=
  match connector with
  | .clka => bs.clkaSyncState (clkIndex channel)
  | .clkb => bs.clkbSyncState (clkIndex channel)
  | .lo => bs.lo.syncState
  | .ref | .invalid => bs.ref.syncState

/-- `ERTM15_RF_OUT_ON` and `ERTM15_RF_OUT_OFF` -/
def rfOutOn : Byte := 0
def rfOutOff : Byte := 2

def enableOf (connector : Connector) (channel : Int) (bs : BoardState) : Bool :=
  match connector with
  | .clka => bs.clkaEnableMask.getLsbD channel.toNat
  | .clkb => bs.clkbEnableMask.getLsbD channel.toNat
  | .lo => bs.lo.outState (rfIndex channel) != rfOutOff
  | .ref | .invalid => bs.ref.outState (rfIndex channel) != rfOutOff

/-- The three values of `ertm_get_freq_sync_out_state`. -/
structure Values where
  freq : BitVec 32
  syncState : Byte
  outState : Bool

/-- `ertm_get_freq_sync_out_state`: the value returned, what it has stored, and the handle. -/
def ertmGetFreqSyncOutState (handle : Option Handle) (x : Exchange) (connector : Connector)
    (channel : Int) : Int × Option Values × Option Handle :=
  let err := badInputs handle connector channel
  match handle with
  | none => (err, none, none)
  | some h =>
    if err ≠ 0 then (err, none, handle)
    else
      -- the flag is a copy, the other two are pointers
      let enable := enableOf connector channel h.boardState
      let bs := updateBoardConfig x h.boardState
      (0, some ⟨freqOf connector channel bs, syncOf connector channel bs, enable⟩,
        some { h with boardState := bs })

/-- `ertm_get_freq` -/
def ertmGetFreq (handle : Option Handle) (x : Exchange) (connector : Connector) (channel : Int) :
    Int × Option (BitVec 32) :=
  let r := ertmGetFreqSyncOutState handle x connector (dropChannel connector channel)
  (r.1, r.2.1.map Values.freq)

/-- `ertm_get_sync_state` -/
def ertmGetSyncState (handle : Option Handle) (x : Exchange) (connector : Connector)
    (channel : Int) : Int × Option Byte :=
  let r := ertmGetFreqSyncOutState handle x connector (dropChannel connector channel)
  (r.1, r.2.1.map Values.syncState)

/-- `ertm_get_enable_state` -/
def ertmGetEnableState (handle : Option Handle) (x : Exchange) (connector : Connector)
    (channel : Int) : Int × Option Bool :=
  let r := ertmGetFreqSyncOutState handle x connector channel
  (r.1, r.2.1.map Values.outState)

/-- `if (mask) dst = src` -/
def updateWord (dst src mask : BitVec 32) : BitVec 32 := if mask ≠ 0 then src else dst

/-- `update_dds_state` -/
def updateDdsState (dst src mask : DdsState) : DdsState :=
  { dst with
    ftw := updateWord dst.ftw src.ftw mask.ftw
    ampPower := updateWord dst.ampPower src.ampPower mask.ampPower
    amplFactor := updateWord dst.amplFactor src.amplFactor mask.amplFactor
    syncSource := updateWord dst.syncSource src.syncSource mask.syncSource
    syncCount := updateWord dst.syncCount src.syncCount mask.syncCount
    outState := overChannels dst.outState fun i =>
      if mask.outState i ≠ 0 then src.outState i else dst.outState i
    outPower := overChannels dst.outPower fun i =>
      updateWord (dst.outPower i) (src.outPower i) (mask.outPower i) }

/-- `if (mask) update_bits(&dst, src, mask)` -/
def updateBits (dst src mask : BitVec 32) : BitVec 32 :=
  if mask ≠ 0 then (dst &&& ~~~mask) ||| (src &&& mask) else dst

/-- `update_config` -/
def updateConfig (dst src mask : BoardState) : BoardState :=
  { dst with
    ref := updateDdsState dst.ref src.ref mask.ref
    lo := updateDdsState dst.lo src.lo mask.lo
    valid := updateWord dst.valid src.valid mask.valid
    clkaEnableMask := updateBits dst.clkaEnableMask src.clkaEnableMask mask.clkaEnableMask
    clkbEnableMask := updateBits dst.clkbEnableMask src.clkbEnableMask mask.clkbEnableMask
    streamersLatencyCycles := updateWord dst.streamersLatencyCycles src.streamersLatencyCycles
      mask.streamersLatencyCycles
    streamersTimeoutCycles := updateWord dst.streamersTimeoutCycles src.streamersTimeoutCycles
      mask.streamersTimeoutCycles
    clkaFreqHz := overChannels dst.clkaFreqHz fun i =>
      updateWord (dst.clkaFreqHz i) (src.clkaFreqHz i) (mask.clkaFreqHz i)
    clkbFreqHz := overChannels dst.clkbFreqHz fun i =>
      updateWord (dst.clkbFreqHz i) (src.clkbFreqHz i) (mask.clkbFreqHz i) }

inductive Request where
  | setBoardConfig (config : BoardState)
  | commitBoardConfig (mask : BoardState)

/-- The payload of `set_board_config` and of `commit_board_config`. -/
def setPayload (config : BoardState) : BoardState :=
  let bstmp := { config with valid := 1 }
  boardStateToNetworkOrder bstmp bstmp

def commitPayload (mask : BoardState) : BoardState := boardStateToNetworkOrder mask mask

/-- `commit_config`: the handle, and the requests with the status of each. -/
def commitConfig (h : Handle) (x y : Exchange) : Handle × List (Request × Int) :=
  match h.mode with
  | .deferred | .optimized => (h, [])
  | .simulated =>
    ({ h with
      boardState := updateConfig h.boardState h.nextState h.commitMask
      nextState := cleanConfig
      commitMask := cleanConfig }, [])
  | .immediate =>
    ({ h with
      boardState := updateConfig h.boardState h.nextState h.commitMask
      nextState := cleanConfig
      commitMask := cleanConfig },
      [(.setBoardConfig (setPayload h.nextState), protoCycle x),
        (.commitBoardConfig (commitPayload h.commitMask), protoCycle y)])

def commitIfImmediate (h : Handle) (x y : Exchange) : Handle × List (Request × Int) :=
  if h.mode = .immediate then commitConfig h x y else (h, [])

/-- `clkab_freq_table` -/
def clkabFreqTable : List (BitVec 32) := [1000000000, 500000000, 250000000, 125000000, 62500000]

/-- `valid_clkab_freq`, for the connectors that it is asked for. -/
def validFreq (connector : Connector) (freq : BitVec 32) : Bool :=
  match connector with
  | .clka | .clkb => clkabFreqTable.contains freq
  | .lo | .ref | .invalid => true

/-- The assignments of `ertm_set_freq` to `next` and `mask`. -/
def assignFreq (connector : Connector) (channel : Int) (value : BitVec 32) (bs : BoardState) :
    BoardState :=
  match connector with
  | .clka => { bs with clkaFreqHz := Function.update bs.clkaFreqHz (clkIndex channel) value }
  | .clkb => { bs with clkbFreqHz := Function.update bs.clkbFreqHz (clkIndex channel) value }
  | .lo => { bs with lo := { bs.lo with ftw := value } }
  | .ref => { bs with ref := { bs.ref with ftw := value } }
  | .invalid => bs

/-- `ertm_set_freq`: the value returned, the handle, and the requests; `x` and `y` are the two
exchanges of a commit. -/
def ertmSetFreq (handle : Option Handle) (x y : Exchange) (connector : Connector) (channel : Int)
    (freq : BitVec 32) : Int × Option Handle × List (Request × Int) :=
  let channel := dropChannel connector channel
  let err := badInputs handle connector channel
  match handle with
  | none => (err, none, [])
  | some h =>
    if err ≠ 0 then (err, handle, [])
    else if validFreq connector freq = false then (errBadClkabFreq, handle, [])
    else
      let r := commitIfImmediate { h with
        nextState := assignFreq connector channel freq h.nextState
        commitMask := assignFreq connector channel 1 h.commitMask } x y
      (0, some r.1, r.2)

/-- `set_bit` -/
def setBit (word : BitVec 32) (bit : Nat) (value : Bool) : BitVec 32 :=
  (word &&& ~~~(1#32 <<< bit)) ||| (if value then 1#32 <<< bit else 0)

/-- The assignments of `ertm_channel_enable`: a bit of a word, or a byte. -/
def assignEnable (connector : Connector) (channel : Int) (bit : Bool) (state : Byte)
    (bs : BoardState) : BoardState :=
  match connector with
  | .clka => { bs with clkaEnableMask := setBit bs.clkaEnableMask channel.toNat bit }
  | .clkb => { bs with clkbEnableMask := setBit bs.clkbEnableMask channel.toNat bit }
  | .lo => { bs with
      lo := { bs.lo with outState := Function.update bs.lo.outState (rfIndex channel) state } }
  | .ref => { bs with
      ref := { bs.ref with outState := Function.update bs.ref.outState (rfIndex channel) state } }
  | .invalid => bs

/-- `ertm_channel_enable` -/
def ertmChannelEnable (handle : Option Handle) (x y : Exchange) (connector : Connector)
    (channel : Int) (enable : Bool) : Int × Option Handle × List (Request × Int) :=
  let err := badInputs handle connector channel
  match handle with
  | none => (err, none, [])
  | some h =>
    if err ≠ 0 then (err, handle, [])
    else
      let r := commitIfImmediate { h with
        nextState := assignEnable connector channel enable (if enable then rfOutOn else rfOutOff)
          h.nextState
        commitMask := assignEnable connector channel true 1 h.commitMask } x y
      (0, some r.1, r.2)

/-! ## Honest answers -/

def Exchange.Succeeds (x : Exchange) : Prop := protoCycle x = 0

/-- The configuration that an exchange has fetched, in host order. -/
def Exchange.config (x : Exchange) : BoardState := boardStateToHostOrder x.answer x.answer

/-- A getter returns 0 only with the field of the configuration fetched in the same call. -/
def HonestGet {α : Type} (r : Int × Option α) (x : Exchange) (field : BoardState → α) : Prop :=
  r.1 = 0 → x.Succeeds ∧ r.2 = some (field x.config)

/-- A configuration was sent and committed, and both exchanges were carried through. -/
def Committed (requests : List (Request × Int)) : Prop :=
  ∃ config mask, requests = [(.setBoardConfig config, 0), (.commitBoardConfig mask, 0)]

/-- In immediate mode a setter returns 0 only if it has committed. -/
def HonestSet (handle : Option Handle) (r : Int × Option Handle × List (Request × Int)) : Prop :=
  (∀ h ∈ handle, h.mode = .immediate) → r.1 = 0 → Committed r.2.2

theorem updateBoardConfig_of_succeeds {x : Exchange} (h : x.Succeeds) (bs : BoardState) :
    updateBoardConfig x bs = boardStateToHostOrder x.answer bs := by
  have hle : ¬protoCycle x < 0 := Int.not_lt.mpr (Int.le_of_eq h.symm)
  rw [updateBoardConfig, ertmGetBoardConfig, if_neg hle]

theorem overChannels_congr {n : Nat} {α : Type} (old old' new : Fin n → α) {i : Fin n}
    (hi : outMinId ≤ i.val) : overChannels old new i = overChannels old' new i :=
  (overChannels_of_le hi).trans (overChannels_of_le hi).symm

theorem toHostOrder_sameDds (dds host host' : DdsState) :
    SameDds (ddsToHostOrder dds host) (ddsToHostOrder dds host') where
  ftw := rfl
  outState _ hi := overChannels_congr host.outState host'.outState _ hi
  outPower _ hi := overChannels_congr host.outPower host'.outPower
    (fun i => ntohl (dds.outPower i)) hi
  ampPower := rfl
  amplFactor := rfl
  syncSource := rfl
  syncCount := rfl
  syncState := rfl

theorem toHostOrder_sameOutputs (board host host' : BoardState) :
    SameOutputs (boardStateToHostOrder board host) (boardStateToHostOrder board host') where
  ref := toHostOrder_sameDds board.ref host.ref host'.ref
  lo := toHostOrder_sameDds board.lo host.lo host'.lo
  clkaFreqHz _ hi := overChannels_congr host.clkaFreqHz host'.clkaFreqHz
    (fun i => ntohl (board.clkaFreqHz i)) hi
  clkbFreqHz _ hi := overChannels_congr host.clkbFreqHz host'.clkbFreqHz
    (fun i => ntohl (board.clkbFreqHz i)) hi
  clkaEnableMask := rfl
  clkbEnableMask := rfl
  clkaSyncState _ hi := overChannels_congr host.clkaSyncState host'.clkaSyncState _ hi
  clkbSyncState _ hi := overChannels_congr host.clkbSyncState host'.clkbSyncState _ hi

section Fields

variable {connector : Connector} {channel : Int}

theorem channel_of_outOfRange (h : outOfRange connector channel = 0) :
    connector ≠ .invalid ∧ outMinId ≤ channel ∧ channel ≤ 15 := by
  cases connector with
  | clka | clkb | lo | ref =>
    rw [outOfRange] at h
    split at h
    case isTrue => exact absurd h (by decide)
    case isFalse hrange =>
      refine ⟨Connector.noConfusion, ?_, ?_⟩ <;> omega
  | invalid => exact absurd h (by rw [outOfRange]; decide)

theorem clkIndex_le (h : outOfRange connector channel = 0) : outMinId ≤ (clkIndex channel).val := by
  obtain ⟨_, hmin, hmax⟩ := channel_of_outOfRange h
  have hmod : (clkIndex channel).val = channel.toNat % 16 := rfl
  omega

variable {a b : BoardState}

theorem freqOf_congr (h : outOfRange connector channel = 0) (hab : SameOutputs a b) :
    freqOf connector channel a = freqOf connector channel b := by
  cases connector with
  | clka => exact hab.clkaFreqHz _ (clkIndex_le h)
  | clkb => exact hab.clkbFreqHz _ (clkIndex_le h)
  | lo => exact hab.lo.ftw
  | ref | invalid => exact hab.ref.ftw

theorem syncOf_congr (h : outOfRange connector channel = 0) (hab : SameOutputs a b) :
    syncOf connector channel a = syncOf connector channel b := by
  cases connector with
  | clka => exact hab.clkaSyncState _ (clkIndex_le h)
  | clkb => exact hab.clkbSyncState _ (clkIndex_le h)
  | lo => exact hab.lo.syncState
  | ref | invalid => exact hab.ref.syncState

end Fields

section Honest

variable {handle : Option Handle} {x y : Exchange} {connector : Connector} {channel : Int}

theorem getFreqSyncOutState_accepted {h : Handle} (hok : badInputs (some h) connector channel = 0) :
    ertmGetFreqSyncOutState (some h) x connector channel =
      (0, some ⟨freqOf connector channel (updateBoardConfig x h.boardState),
        syncOf connector channel (updateBoardConfig x h.boardState),
        enableOf connector channel h.boardState⟩,
        some { h with boardState := updateBoardConfig x h.boardState }) := by
  exact if_neg (not_not.mpr hok)

theorem getFreqSyncOutState_refused (hbad : badInputs handle connector channel ≠ 0) :
    (ertmGetFreqSyncOutState handle x connector channel).1 =
      badInputs handle connector channel := by
  cases handle with
  | none => rfl
  | some h =>
    rw [ertmGetFreqSyncOutState]
    simp only [if_pos hbad]

/-- A getter that returns the field `value` of the common one is honest, inputs that are refused
aside, exactly if the exchange succeeds and `value` was then `field` of what it has fetched. -/
theorem honestGet_iff {α : Type} (value : Values → α) (field : BoardState → α) :
    HonestGet ((ertmGetFreqSyncOutState handle x connector channel).1,
        (ertmGetFreqSyncOutState handle x connector channel).2.1.map value) x field ↔
      badInputs handle connector channel ≠ 0 ∨ x.Succeeds ∧ ∀ h ∈ handle,
        value ⟨freqOf connector channel (updateBoardConfig x h.boardState),
          syncOf connector channel (updateBoardConfig x h.boardState),
          enableOf connector channel h.boardState⟩ = field x.config := by
  by_cases hbad : badInputs handle connector channel = 0
  · cases handle with
    | none => exact absurd hbad (by rw [badInputs]; decide)
    | some h =>
      rw [getFreqSyncOutState_accepted hbad, HonestGet]
      simp [hbad]
  · rw [HonestGet, getFreqSyncOutState_refused hbad]
    simp [hbad]

theorem honestGet_fetched_iff {α : Type} {value : Values → α} {field : BoardState → α}
    (hvalue : ∀ bs enable, value ⟨freqOf connector channel bs, syncOf connector channel bs, enable⟩
      = field bs)
    (hfield : outOfRange connector channel = 0 → ∀ a b, SameOutputs a b → field a = field b) :
    HonestGet ((ertmGetFreqSyncOutState handle x connector channel).1,
        (ertmGetFreqSyncOutState handle x connector channel).2.1.map value) x field ↔
      badInputs handle connector channel ≠ 0 ∨ x.Succeeds := by
  rw [honestGet_iff]
  constructor
  · rintro (hbad | ⟨hx, _⟩)
    · exact .inl hbad
    · exact .inr hx
  · rintro (hbad | hx)
    · exact .inl hbad
    · by_cases hok : badInputs handle connector channel = 0
      · refine .inr ⟨hx, fun h hh => ?_⟩
        subst hh
        rw [hvalue, updateBoardConfig_of_succeeds hx]
        exact hfield hok _ _ (toHostOrder_sameOutputs _ _ _)
      · exact .inl hok

theorem committed_iff {h : Handle} (hmode : h.mode = .immediate) :
    Committed (commitIfImmediate h x y).2 ↔ x.Succeeds ∧ y.Succeeds := by
  rw [commitIfImmediate, if_pos hmode, commitConfig, hmode]
  constructor
  · rintro ⟨config, mask, h⟩
    simp only [List.cons.injEq, Prod.mk.injEq, and_true] at h
    exact ⟨h.1.2, h.2.2⟩
  · rintro ⟨hx, hy⟩
    refine ⟨setPayload h.nextState, commitPayload h.commitMask, ?_⟩
    simp only [show protoCycle x = 0 from hx, show protoCycle y = 0 from hy]

def Immediate (handle : Option Handle) : Prop := ∀ h ∈ handle, h.mode = .immediate

theorem honestSet_accepted_iff {h next : Handle} (hmode : next.mode = h.mode) :
    HonestSet (some h) (0, some (commitIfImmediate next x y).1, (commitIfImmediate next x y).2) ↔
      ¬Immediate (some h) ∨ x.Succeeds ∧ y.Succeeds := by
  rw [HonestSet, Immediate]
  by_cases himm : h.mode = .immediate
  · rw [committed_iff (hmode.trans himm)]
    simp [himm]
  · simp [himm]

theorem honestSet_refused {r : Int × Option Handle × List (Request × Int)} (h : r.1 ≠ 0) :
    HonestSet handle r :=
  fun _ hr => absurd hr h

theorem honest_setFreq_iff (freq : BitVec 32) :
    HonestSet handle (ertmSetFreq handle x y connector channel freq) ↔
      badInputs handle connector (dropChannel connector channel) ≠ 0 ∨
        validFreq connector freq = false ∨ ¬Immediate handle ∨ x.Succeeds ∧ y.Succeeds := by
  cases handle with
  | none =>
    have hbad : badInputs none connector (dropChannel connector channel) ≠ 0 := by
      rw [badInputs]
      decide
    exact iff_of_true (honestSet_refused hbad) (.inl hbad)
  | some h =>
    rw [ertmSetFreq]
    by_cases hbad : badInputs (some h) connector (dropChannel connector channel) = 0
    · by_cases hfreq : validFreq connector freq = false
      · simp only [hbad, hfreq, ne_eq, not_true_eq_false, false_or, true_or,
          iff_true]
        exact honestSet_refused (show errBadClkabFreq ≠ 0 by decide)
      · simp only [hbad, hfreq, ne_eq, not_true_eq_false, false_or, Bool.true_eq_false]
        exact honestSet_accepted_iff rfl
    · simp only [hbad, ne_eq, not_false_eq_true, true_or, iff_true]
      exact honestSet_refused hbad

theorem honest_channelEnable_iff (enable : Bool) :
    HonestSet handle (ertmChannelEnable handle x y connector channel enable) ↔
      badInputs handle connector channel ≠ 0 ∨ ¬Immediate handle ∨ x.Succeeds ∧ y.Succeeds := by
  cases handle with
  | none =>
    have hbad : badInputs none connector channel ≠ 0 := by
      rw [badInputs]
      decide
    exact iff_of_true (honestSet_refused hbad) (.inl hbad)
  | some h =>
    rw [ertmChannelEnable]
    by_cases hbad : badInputs (some h) connector channel = 0
    · simp only [hbad, ne_eq, not_true_eq_false, false_or]
      exact honestSet_accepted_iff rfl
    · simp only [hbad, ne_eq, not_false_eq_true, true_or, iff_true]
      exact honestSet_refused hbad

end Honest

/-- **What a returned 0 is worth.**  The frequency and the synchronization state are those of the
board exactly if the exchange succeeds; the enable state if moreover the handle had it already;
a setting in immediate mode is committed exactly if both exchanges succeed.  None of the
functions says which of it has happened. -/
theorem library_honest_iff (handle : Option Handle) (x y : Exchange) (connector : Connector)
    (channel : Int) (freq : BitVec 32) (enable : Bool) :
    (HonestGet (ertmGetFreq handle x connector channel) x
        (freqOf connector (dropChannel connector channel)) ↔
      badInputs handle connector (dropChannel connector channel) ≠ 0 ∨ x.Succeeds) ∧
    (HonestGet (ertmGetSyncState handle x connector channel) x
        (syncOf connector (dropChannel connector channel)) ↔
      badInputs handle connector (dropChannel connector channel) ≠ 0 ∨ x.Succeeds) ∧
    (HonestGet (ertmGetEnableState handle x connector channel) x (enableOf connector channel) ↔
      badInputs handle connector channel ≠ 0 ∨ x.Succeeds ∧ ∀ h ∈ handle,
        enableOf connector channel h.boardState = enableOf connector channel x.config) ∧
    (HonestSet handle (ertmSetFreq handle x y connector channel freq) ↔
      badInputs handle connector (dropChannel connector channel) ≠ 0 ∨
        validFreq connector freq = false ∨ ¬Immediate handle ∨ x.Succeeds ∧ y.Succeeds) ∧
    (HonestSet handle (ertmChannelEnable handle x y connector channel enable) ↔
      badInputs handle connector channel ≠ 0 ∨ ¬Immediate handle ∨ x.Succeeds ∧ y.Succeeds) := by
  refine ⟨?freq, ?sync, ?enable, honest_setFreq_iff freq, honest_channelEnable_iff enable⟩
  case freq =>
    exact honestGet_fetched_iff (fun _ _ => rfl) fun hrange _ _ hab => freqOf_congr hrange hab
  case sync =>
    exact honestGet_fetched_iff (fun _ _ => rfl) fun hrange _ _ hab => syncOf_congr hrange hab
  case enable => exact honestGet_iff Values.outState (enableOf connector channel)

/-- A board with CLKA 4 enabled and running at 125 MHz, in network order. -/
def clka4Answer : BoardState :=
  boardStateToNetworkOrder { cleanConfig with
    clkaEnableMask := 16
    clkaFreqHz := fun _ => 125000000 } cleanConfig

def answered : Exchange := ⟨0, 1, ptypeSnmpResp, clka4Answer⟩
def unplugged : Exchange := ⟨0, 0, 0, cleanConfig⟩

/-- With the board unplugged after `ertm_init` the old frequency is returned as the present one and
a new one is accepted; and a channel enabled by others since then is reported disabled. -/
theorem library_false_success :
    ertmGetFreq (some (ertmInit cleanConfig answered)) unplugged .clka 4 = (0, some 125000000) ∧
      (ertmSetFreq (some (ertmInit cleanConfig answered)) unplugged unplugged .clka 4
        500000000).1 = 0 ∧
      protoCycle unplugged = errUartLinkRecv ∧
      ertmGetEnableState (some (ertmInit cleanConfig ⟨0, 1, ptypeSnmpResp, cleanConfig⟩)) answered
        .clka 4 = (0, some false) ∧
      enableOf .clka 4 answered.config = true := by
  decide

end Wrpc.Ertm14
