/-
# Sending a frame through the Mini-NIC (`minic.c`)

`minic_tx_frame` writes a frame to the transmit FIFO as it receives one: a status
word, the header and the payload as data words, and a byte-select word for the last
byte of an odd payload.  Two out-of-band words ask for the time of sending.

A frame is never shorter than 60 bytes: the payload is made longer by as much as is
missing, and the bytes are read from behind the caller's payload.  `wireBytes` is
what goes out on the wire, and `wireBytes_txWords` says which bytes of the caller's
memory these are.
-/
import Wrpc.Dev.Minic

namespace Wrpc

open List

/-- `TX_OOB` -/
def txOob : BitVec 16 := 0x1000

/-- `WRPC_FID` -/
def wrpcFid : BitVec 16 := 0

/-- `htons(ptr[i])` -/
def getWord (m : Mem) (i : Nat) : BitVec 16 := m (2 * i) ++ m (2 * i + 1)

/-- `hsize`: the size of the header, with or without a VLAN tag. -/
def txHeaderSize (hdr : Mem) : Nat := if hdr 12 = 0x81 ∧ hdr 13 = 0x00 then 18 else 14

def txSize (hsize size : Nat) : Nat := if (size + hsize) % 2 ^ 32 < 60 then 60 - hsize else size

/-- The words written to the FIFO; `stamp` says whether a time stamp is wanted. -/
def txWords (hdr payload : Mem) (size : Nat) (stamp : Bool) : List FifoWord :=
  let hsize := txHeaderSize hdr
  let size := txSize hsize size
  ⟨.status, 0⟩ ::
    ((List.range (hsize / 2)).map (fun i => ⟨.data, getWord hdr i⟩) ++
      (List.range (size / 2)).map (fun i => ⟨.data, getWord payload i⟩) ++
      (if size % 2 = 1 then [⟨.bytesel, getWord payload (size / 2)⟩] else []) ++
      (if stamp then [⟨.oob, txOob⟩, ⟨.oob, wrpcFid⟩] else []))

/-- What a caller passes in (`hwts` may be `NULL`), and what the hardware shows: whether
the time stamp became available, the two stamp registers and the time the PPS generator
gives. -/
structure TxCall where
  hdr : Mem
  payload : Mem
  size : Nat
  hwts : Option HwTimestamp
  tsReady : Bool
  tsr0 : BitVec 32
  tsr1 : BitVec 32
  sec : BitVec 64
  nsec : Nat

/-- The time stamp of a frame that was sent; `phase` is not written. -/
def minicTxHwts (clk : RefClock) (sec : BitVec 64) (nsec : Nat) (tsValid : Bool)
    (rawTs phase : BitVec 32) : HwTimestamp :=
  let counterR := explodeRc rawTs
  let sec := if counterR > 3 * clk.freqHz / 4 ∧ nsec < 250000000 then sec - 1 else sec
  { valid := if tsValid then 1 else 0
    sec := sec
    ahead := 0
    nsec := BitVec.ofNat 32 (counterR * (clk.periodPs / 1000))
    phase := phase }

structure TxResult where
  ret : Nat
  words : List FifoWord
  hwts : Option HwTimestamp

/-- `minic_tx_frame`, with a supported `ver_supported`; the second component is
`tx_count`, which counts frames with a time stamp only. -/
def minicTxFrame (clk : RefClock) (txCount : BitVec 32) (c : TxCall) : TxResult × BitVec 32 :=
  let words := txWords c.hdr c.payload c.size c.hwts.isSome
  let ret := txSize (txHeaderSize c.hdr) c.size
  match c.hwts with
  | none => (⟨ret, words, none⟩, txCount)
  | some hwts =>
    let tsValid := c.tsReady && c.tsr0.getLsbD 0
    (⟨ret, words, some (minicTxHwts clk c.sec c.nsec tsValid c.tsr1 hwts.phase)⟩, txCount + 1)

/-- The bytes of a FIFO word on the wire: a byte-select word has one. -/
def FifoWord.bytes (w : FifoWord) : List Byte :=
  match w.type with
  | .data => [(w.data >>> 8).setWidth 8, w.data.setWidth 8]
  | .bytesel => [(w.data >>> 8).setWidth 8]
  | .oob => []
  | .status => []

def wireBytes (ws : List FifoWord) : List Byte := ws.flatMap FifoWord.bytes

theorem wireBytes_dataWords (m : Mem) (n : Nat) :
    wireBytes ((List.range n).map fun i => ⟨.data, getWord m i⟩) = m.read 0 (2 * n) := by
  induction n with
  | zero => rfl
  | succ n ih =>
    have hlast : m.read (2 * n) 2 = [m (2 * n), m (2 * n + 1)] := rfl
    rw [wireBytes] at ih ⊢
    rw [range_succ, map_append, flatMap_append, ih, Nat.mul_succ, Mem.read_append,
      Nat.zero_add, hlast, map_singleton, flatMap_singleton]
    simp only [FifoWord.bytes, getWord, append_high, append_low]

theorem txHeaderSize_even (hdr : Mem) : 2 * (txHeaderSize hdr / 2) = txHeaderSize hdr := by
  unfold txHeaderSize
  split
  · rfl
  · rfl

/-- **A frame on the wire** is the header and the payload, followed by what stands
behind the payload when that is needed to fill the frame. -/
theorem wireBytes_txWords (hdr payload : Mem) (size : Nat) (stamp : Bool) :
    wireBytes (txWords hdr payload size stamp) =
      hdr.read 0 (txHeaderSize hdr) ++ payload.read 0 (txSize (txHeaderSize hdr) size) := by
  unfold txWords
  dsimp only
  generalize txSize (txHeaderSize hdr) size = n
  have hoob : wireBytes (if stamp then [⟨.oob, txOob⟩, ⟨.oob, wrpcFid⟩] else []) = [] := by
    cases stamp with
    | false => rfl
    | true => rfl
  have hlast : payload.read 0 (2 * (n / 2)) ++
      wireBytes (if n % 2 = 1 then [⟨.bytesel, getWord payload (n / 2)⟩] else []) =
        payload.read 0 n := by
    by_cases hodd : n % 2 = 1
    · have hn : n = 2 * (n / 2) + 1 := by omega
      rw [if_pos hodd]
      nth_rewrite 3 [hn]
      rw [Mem.read_append, Nat.zero_add]
      simp only [wireBytes, flatMap_singleton, FifoWord.bytes, getWord, append_high, Mem.read]
    · have hn : 2 * (n / 2) = n := by omega
      rw [if_neg hodd, hn]
      exact append_nil _
  have hhdr := wireBytes_dataWords hdr (txHeaderSize hdr / 2)
  have hpay := wireBytes_dataWords payload (n / 2)
  rw [txHeaderSize_even] at hhdr
  rw [wireBytes] at hhdr hpay hoob hlast ⊢
  rw [flatMap_cons, flatMap_append, flatMap_append, flatMap_append, hhdr, hpay,
    hoob, append_assoc, append_assoc, append_nil, hlast]
  rfl

end Wrpc
