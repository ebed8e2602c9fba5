/-
# Where `minic_rx_frame` stores

`minic_rx_frame` stores 16-bit words through two pointers.  Here the stores of a
call are listed beside its loop, with the index of their first byte:

    rxStore     the store one FIFO word causes, if any
    rxStores    the stores of a call, in order; applied to the caller's buffers they
                give the buffers the call leaves (`rxLoop_stores`)

The header pointer stays within the 14 bytes of the header, whatever the FIFO holds.
The payload pointer does not: a word is kept out of the buffer by
`payload_size > buf_size`, so the word that finds `payload_size` equal to `buf_size`
is still stored, right behind the buffer.
-/
import Wrpc.Dev.MinicFrames

namespace Wrpc

open List Option

/-! ## The stores of a call -/

inductive RxStore where
  | header (index : Nat) (data : BitVec 16)
  | payload (index : Nat) (data : BitVec 16)
deriving DecidableEq, Repr

def RxStore.Inside (bufSize : Nat) : RxStore → Prop
  | .header i _ => i + 2 ≤ ethHeaderSize
  | .payload i _ => i + 2 ≤ bufSize

instance (bufSize : Nat) : DecidablePred (RxStore.Inside bufSize)
  | .header i _ => inferInstanceAs (Decidable (i + 2 ≤ ethHeaderSize))
  | .payload i _ => inferInstanceAs (Decidable (i + 2 ≤ bufSize))

def RxStore.apply (b : Mem × Mem) : RxStore → Mem × Mem
  | .header i d => (putWord b.1 i d, b.2)
  | .payload i d => (b.1, putWord b.2 i d)

def ForPayload (s : RxLocals) (w : FifoWord) : Prop :=
  w.type = .bytesel ∨ w.type = .data ∧ ethHeaderSize ≤ s.hdrSize

instance (s : RxLocals) (w : FifoWord) : Decidable (ForPayload s w) := by
  unfold ForPayload
  infer_instance

def rxStore (bufSize : Nat) (s : RxLocals) (w : FifoWord) : Option RxStore :=
  if w.type = .data ∧ s.hdrSize < ethHeaderSize then some (.header (2 * (s.hdrSize / 2)) w.data)
  else if w.type ≠ .status ∧ bufSize < s.payloadSize then none
  else if ForPayload s w then some (.payload (2 * (s.payloadSize / 2)) w.data)
  else none

def rxStores (bufSize : Nat) : RxLocals → List FifoWord → List RxStore
  | _, [] => []
  | s, w :: fifo =>
    if w.type = .status ∧ 0 < s.hdrSize then []
    else (rxStore bufSize s w).toList ++ rxStores bufSize (rxWord bufSize s w) fifo

theorem putWord_index (m : Mem) (n : Nat) (d : BitVec 16) :
    putWord m (2 * (n / 2)) d = putWord m n d := by
  rw [putWord, putWord, Nat.mul_div_cancel_left _ (by decide : 0 < 2)]

/-- **The stores listed are the stores made**, a word at a time. -/
theorem rxWord_buffers (bufSize : Nat) (s : RxLocals) (w : FifoWord) :
    ((rxWord bufSize s w).hdr, (rxWord bufSize s w).payload) =
      (rxStore bufSize s w).toList.foldl RxStore.apply (s.hdr, s.payload) := by
  obtain ⟨type, data⟩ := w
  unfold rxWord rxStore
  split
  · simp [RxStore.apply, putWord_index]
  · next hhdr =>
    split
    · rfl
    · cases type with
      | data =>
        have hfor : ForPayload s ⟨.data, data⟩ :=
          Or.inr ⟨rfl, Nat.le_of_not_lt fun h => hhdr ⟨rfl, h⟩⟩
        rw [if_pos hfor]
        simp [RxStore.apply, putWord_index]
      | bytesel =>
        have hfor : ForPayload s ⟨.bytesel, data⟩ := Or.inl rfl
        rw [if_pos hfor]
        simp [RxStore.apply, putWord_index]
      | oob =>
        unfold rxOob
        dsimp only
        split
        · rfl
        · split
          · rfl
          · split
            · rfl
            · rfl
      | status =>
        rfl

theorem rxLoop_stores (bufSize : Nat) : ∀ (s : RxLocals) (fifo : List FifoWord),
    ((rxLoop bufSize s fifo).1.hdr, (rxLoop bufSize s fifo).1.payload) =
      (rxStores bufSize s fifo).foldl RxStore.apply (s.hdr, s.payload)
  | _, [] => rfl
  | s, w :: fifo => by
    rw [rxLoop, rxStores]
    split
    · rfl
    · rw [foldl_append, ← rxWord_buffers, rxLoop_stores bufSize _ fifo]

/-! ## Where they go -/

/-- The payload has filled the buffer to the last byte, and one more word comes. -/
def Overruns (bufSize : Nat) (s : RxLocals) (w : FifoWord) : Prop :=
  s.payloadSize = bufSize ∧ ForPayload s w

instance (bufSize : Nat) (s : RxLocals) (w : FifoWord) : Decidable (Overruns bufSize s w) := by
  unfold Overruns
  infer_instance

def NoOverrun (bufSize : Nat) : RxLocals → List FifoWord → Prop
  | _, [] => True
  | s, w :: fifo =>
    if w.type = .status ∧ 0 < s.hdrSize then True
    else ¬Overruns bufSize s w ∧ NoOverrun bufSize (rxWord bufSize s w) fifo

instance decNoOverrun (bufSize : Nat) :
    ∀ (s : RxLocals) (fifo : List FifoWord), Decidable (NoOverrun bufSize s fifo)
  | _, [] => isTrue trivial
  | s, w :: fifo =>
    haveI := decNoOverrun bufSize (rxWord bufSize s w) fifo
    inferInstanceAs (Decidable (if w.type = .status ∧ 0 < s.hdrSize then True
      else ¬Overruns bufSize s w ∧ NoOverrun bufSize (rxWord bufSize s w) fifo))

def HdrInRange (s : RxLocals) : Prop := s.hdrSize % 2 = 0 ∧ s.hdrSize ≤ ethHeaderSize

theorem rxOob_hdrSize (s : RxLocals) (d : BitVec 16) : (rxOob s d).hdrSize = s.hdrSize := by
  unfold rxOob
  split
  · rfl
  · split
    · rfl
    · split
      · rfl
      · rfl

theorem HdrInRange.rxWord {s : RxLocals} (h : HdrInRange s) (bufSize : Nat) (w : FifoWord) :
    HdrInRange (rxWord bufSize s w) := by
  obtain ⟨heven, hle⟩ := h
  unfold Wrpc.rxWord
  split
  · next hhdr =>
    have hlt := hhdr.2
    unfold ethHeaderSize at hlt hle
    constructor
    · change (s.hdrSize + 2) % 2 = 0
      omega
    · change s.hdrSize + 2 ≤ 14
      omega
  · split
    · exact ⟨heven, hle⟩
    · cases w.type with
      | data => exact ⟨heven, hle⟩
      | bytesel => exact ⟨heven, hle⟩
      | status => exact ⟨heven, hle⟩
      | oob =>
        unfold HdrInRange
        rw [rxOob_hdrSize]
        exact ⟨heven, hle⟩

/-- **One word**: its store leaves the buffers exactly if it overruns. -/
theorem rxStore_inside_iff {bufSize : Nat} (heven : bufSize % 2 = 0) {s : RxLocals}
    (h : HdrInRange s) (w : FifoWord) :
    (∀ st ∈ (rxStore bufSize s w).toList, st.Inside bufSize) ↔ ¬Overruns bufSize s w := by
  obtain ⟨hhdrEven, hle⟩ := h
  unfold rxStore Overruns
  split
  · next hhdr =>
    have hnot : ¬ForPayload s w := by
      rintro (hb | ⟨-, hfull⟩)
      · rw [hhdr.1] at hb
        cases hb
      · exact absurd hfull (Nat.not_le.mpr hhdr.2)
    have hinside : 2 * (s.hdrSize / 2) + 2 ≤ ethHeaderSize := by
      have hlt := hhdr.2
      unfold ethHeaderSize at hlt ⊢
      omega
    simp [RxStore.Inside, hinside, hnot]
  · split
    · next hskip =>
      have hne : s.payloadSize ≠ bufSize := Nat.ne_of_gt hskip.2
      simp [hne]
    · next hskip =>
      split
      · next hfor =>
        have htype : w.type ≠ .status := by
          rcases hfor with hb | ⟨hd, -⟩
          · rw [hb]
            decide
          · rw [hd]
            decide
        have hfits : s.payloadSize ≤ bufSize := Nat.le_of_not_lt fun h => hskip ⟨htype, h⟩
        -- an even buffer has room for a word unless it is full
        have hroom : 2 * (s.payloadSize / 2) + 2 ≤ bufSize ↔ ¬s.payloadSize = bufSize := by
          omega
        simp [RxStore.Inside, hroom, hfor]
      · next hfor =>
        simp [hfor]

theorem rxStores_inside {bufSize : Nat} (heven : bufSize % 2 = 0) :
    ∀ {s : RxLocals} (fifo : List FifoWord), HdrInRange s →
      ((∀ st ∈ rxStores bufSize s fifo, st.Inside bufSize) ↔ NoOverrun bufSize s fifo)
  | _, [], _ => by simp [rxStores, NoOverrun]
  | s, w :: fifo, h => by
    rw [rxStores, NoOverrun]
    split
    · simp
    · rw [forall_mem_append, rxStore_inside_iff heven h,
        rxStores_inside heven fifo (h.rxWord bufSize w)]

/-- **The stores of a call stay inside the header and the caller's buffer** exactly if
no word for the payload comes when the buffer has just been filled. -/
theorem rxStores_inside_iff (c : RxCall) (heven : c.bufSize % 2 = 0) (fifo : List FifoWord) :
    (∀ st ∈ rxStores c.bufSize c.start fifo, st.Inside c.bufSize) ↔
      NoOverrun c.bufSize c.start fifo :=
  rxStores_inside heven fifo ⟨rfl, Nat.zero_le _⟩

/-- A call with buffers of zeroes and `bufSize` bytes for the payload. -/
def zeroCall (bufSize : Nat) : RxCall := ⟨fun _ => 0, fun _ => 0, bufSize, ⟨0, 0, 0, 0, 0⟩, 0, 0⟩

/-- `n` data words behind a status word. -/
def plainFifo (n : Nat) : List FifoWord := ⟨.status, 0⟩ :: List.replicate n ⟨.data, 0x1234⟩

/-- 46 bytes of payload in the buffer of `netif_poll`. -/
theorem rxStores_inside_short :
    NoOverrun 480 (zeroCall 480).start (plainFifo 30) ∧
      ∀ st ∈ rxStores 480 (zeroCall 480).start (plainFifo 30), st.Inside 480 :=
  ⟨by decide, (rxStores_inside_iff (zeroCall 480) rfl (plainFifo 30)).mpr (by decide)⟩

/-- 482 bytes of payload: the last word is stored behind the buffer of `netif_poll`. -/
theorem rxStores_outside :
    .payload 480 0x1234 ∈ rxStores 480 (zeroCall 480).start (plainFifo 248) := by
  decide +kernel

theorem rxStores_inside_next {bufSize : Nat} : ∀ {s : RxLocals} (fifo : List FifoWord),
    HdrInRange s → ∀ st ∈ rxStores bufSize s fifo, st.Inside (bufSize + 2)
  | _, [], _, _, hmem => nomatch hmem
  | s, w :: fifo, h, st, hmem => by
    rw [rxStores] at hmem
    split at hmem
    · cases hmem
    · rcases mem_append.mp hmem with hmem | hmem
      · unfold rxStore at hmem
        split at hmem
        · next hhdr =>
          cases mem_singleton.mp hmem
          obtain ⟨hhdrEven, hle⟩ := h
          have hlt := hhdr.2
          unfold ethHeaderSize at hlt
          unfold RxStore.Inside ethHeaderSize
          omega
        · split at hmem
          · cases hmem
          · next hroom =>
            split at hmem
            · next hpayload =>
              cases mem_singleton.mp hmem
              have hstatus : w.type ≠ .status := by
                rcases hpayload with h | ⟨h, -⟩ <;> rw [h] <;> decide
              have := not_and.mp hroom hstatus
              unfold RxStore.Inside
              omega
            · cases hmem
      · exact rxStores_inside_next fifo (h.rxWord bufSize w) st hmem

theorem putWord_outside (m : Mem) {i k : Nat} (d : BitVec 16) (h : i + 2 ≤ k) :
    putWord m i d k = m k := by
  unfold putWord Mem.set
  rw [if_neg (by omega), if_neg (by omega)]

theorem foldl_apply_outside {n : Nat} : ∀ {stores : List RxStore} {b : Mem × Mem},
    (∀ st ∈ stores, st.Inside n) → ∀ j,
      (stores.foldl RxStore.apply b).1 (ethHeaderSize + j) = b.1 (ethHeaderSize + j) ∧
        (stores.foldl RxStore.apply b).2 (n + j) = b.2 (n + j)
  | [], _, _, _ => ⟨rfl, rfl⟩
  | st :: stores, b, h, j => by
    have hst := h st mem_cons_self
    obtain ⟨hhdr, hpayload⟩ := foldl_apply_outside (b := RxStore.apply b st)
      (fun x hx => h x (mem_cons_of_mem st hx)) j
    rw [foldl_cons, hhdr, hpayload]
    cases st with
    | header i d => exact ⟨putWord_outside b.1 d (Nat.le_add_right_of_le hst), rfl⟩
    | payload i d => exact ⟨rfl, putWord_outside b.2 d (Nat.le_add_right_of_le hst)⟩

/-- **A frame spoils two bytes at most**: whatever is in the FIFO, nothing behind the header is
changed, and nothing behind the buffer but the two bytes next to it. -/
theorem minicRxFrame_outside (clk : RefClock) (nic : Nic) (c : RxCall) (j : Nat) :
    (minicRxFrame clk nic c).1.hdr (ethHeaderSize + j) = c.hdr (ethHeaderSize + j) ∧
      (minicRxFrame clk nic c).1.payload (c.bufSize + 2 + j) = c.payload (c.bufSize + 2 + j) := by
  have hinside : ∀ st ∈ rxStores c.bufSize c.start nic.fifo, st.Inside (c.bufSize + 2) :=
    rxStores_inside_next nic.fifo ⟨rfl, Nat.zero_le _⟩
  have hframe := foldl_apply_outside (b := (c.start.hdr, c.start.payload)) hinside j
  rw [← rxLoop_stores] at hframe
  unfold minicRxFrame
  split
  · exact ⟨rfl, rfl⟩
  · dsimp only
    split
    · exact hframe
    · exact hframe

end Wrpc
