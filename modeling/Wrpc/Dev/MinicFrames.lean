/-
# The FIFO of the Mini-NIC, frame by frame

A FIFO that holds complete frames is read by one call of `minic_rx_frame` a frame.
The call that reads a frame also reads the status word of the next one, so the FIFO
is, between two calls, a list of frames whose first has lost its status word.

The words of a frame other than its status are run through `rxWord`, so a call is a
fold over them: the header, the payload and the out-of-band words are one lemma each
(`collect_header`, `collect_payload`, `collect_oob`).

A payload longer than the buffer is counted, and not stored, once the count is past
the size of the buffer.  The out-of-band words of such a frame are counted in the
same way, so its time stamp is lost (`Delivered.hwts`, `Delivered.lost`).
-/
import Wrpc.Dev.Minic

namespace Wrpc

open List BitVec Nat

variable {ws rest : List FifoWord}

variable {bufSize : Nat} {s : RxLocals}

/-! ## Frames in the FIFO -/

/-- Bytes as data words; an odd one out goes in a byte-select word. -/
def dataWords (pad : Byte) : List Byte → List FifoWord
  | [] => []
  | [a] => [⟨.bytesel, a ++ pad⟩]
  | a :: b :: l => ⟨.data, a ++ b⟩ :: dataWords pad l

structure FifoFrame where
  status : BitVec 16
  header : List Byte
  payload : List Byte
  /-- the unused half of a byte-select word -/
  pad : Byte
  oobHdr : BitVec 16
  rawTs : BitVec 32
  noError : rxStatusError status = false
  headerLength : header.length = ethHeaderSize

def FifoFrame.oob (f : FifoFrame) : List FifoWord :=
  [⟨.oob, f.oobHdr⟩, ⟨.oob, (f.rawTs >>> 16).setWidth 16⟩, ⟨.oob, f.rawTs.setWidth 16⟩]

def FifoFrame.body (f : FifoFrame) : List FifoWord :=
  dataWords f.pad f.header ++ (dataWords f.pad f.payload ++ f.oob)

def FifoFrame.words (f : FifoFrame) : List FifoWord := ⟨.status, f.status⟩ :: f.body

def FifoFrame.hwts (f : FifoFrame) (clk : RefClock) (c : RxCall) : HwTimestamp :=
  minicRxHwts clk c.sec c.counterPpsg f.oobHdr f.rawTs c.hwts.phase

theorem putWord_append (m : Mem) {n : Nat} (heven : n % 2 = 0) (a b : Byte) :
    putWord m n (a ++ b) = (m.set n a).set (n + 1) b := by
  have hn : 2 * (n / 2) = n := by omega
  rw [putWord, hn, append_high, append_low]

theorem read_putWord {m : Mem} {p : List Byte} (heven : p.length % 2 = 0)
    (hp : m.read 0 p.length = p) (a b : Byte) :
    (putWord m p.length (a ++ b)).read 0 (p.length + 2) = p ++ [a, b] := by
  have h₁ := Mem.read_set_end m 0 p.length a
  have h₂ := Mem.read_set_end (m.set p.length a) 0 (p.length + 1) b
  rw [zero_add] at h₁ h₂
  rw [putWord_append m heven, h₂, h₁, hp, List.append_assoc]
  rfl

theorem rawTs_join (r : BitVec 32) :
    ((r >>> 16).setWidth 16).zeroExtend 32 <<< 16 ||| (r.setWidth 16).zeroExtend 32 = r := by
  apply eq_of_getLsbD_eq
  intro i hi
  by_cases h : i < 16
  · simp [h, hi]
  · simp [h, hi, show i - 16 < 16 by omega, show 16 + (i - 16) = i by omega]

theorem dataWords_type (pad : Byte) : ∀ (l : List Byte), ∀ w ∈ dataWords pad l, w.type ≠ .status
  | [], _, h => nomatch h
  | [a], w, h => by
    rw [mem_singleton.mp h]
    exact fun h => nomatch h
  | a :: b :: l, w, h => by
    rcases mem_cons.mp h with rfl | h
    · exact fun h => nomatch h
    · exact dataWords_type pad l w h

variable (f : FifoFrame)

theorem FifoFrame.body_type : ∀ w ∈ f.body, w.type ≠ .status := by
  intro w hw
  rcases mem_append.mp hw with hw | hw
  · exact dataWords_type _ _ w hw
  · rcases mem_append.mp hw with hw | hw
    · exact dataWords_type _ _ w hw
    · rcases mem_cons.mp hw with rfl | hw
      · exact fun h => nomatch h
      · rcases mem_cons.mp hw with rfl | hw
        · exact fun h => nomatch h
        · rw [mem_singleton.mp hw]
          exact fun h => nomatch h

theorem rxLoop_append :
    ∀ {ws : List FifoWord} {s : RxLocals} (rest : List FifoWord), (∀ w ∈ ws, w.type ≠ .status) →
      rxLoop bufSize s (ws ++ rest) = rxLoop bufSize (ws.foldl (rxWord bufSize) s) rest
  | [], _, _, _ => rfl
  | w :: ws, s, rest, h => by
    rw [List.cons_append, rxLoop, if_neg fun hs => h w mem_cons_self hs.1]
    exact rxLoop_append rest fun v hv => h v (mem_cons_of_mem _ hv)

theorem rxWord_header (h : s.hdrSize < ethHeaderSize) (d : BitVec 16) :
    rxWord bufSize s ⟨.data, d⟩ =
      { s with hdr := putWord s.hdr s.hdrSize d, hdrSize := s.hdrSize + 2 } :=
  if_pos ⟨rfl, h⟩

theorem collect_header (bufSize : Nat) (pad : Byte) : ∀ {l p : List Byte} (s : RxLocals),
    p.length + l.length = ethHeaderSize → p.length % 2 = 0 → s.hdrSize = p.length →
      s.hdr.read 0 p.length = p → ∃ hdr : Mem, hdr.read 0 ethHeaderSize = p ++ l ∧
          (dataWords pad l).foldl (rxWord bufSize) s =
            { s with hdr := hdr, hdrSize := ethHeaderSize }
  | [], p, s, hlen, _, hsize, hread => by
    have hp : p.length = ethHeaderSize := hlen
    refine ⟨s.hdr, ?_, ?_⟩
    · rw [← hp, hread, append_nil]
    · rw [← hp, ← hsize]
      rfl
  | [a], p, s, hlen, heven, _, _ => by
    have hodd : ethHeaderSize % 2 = 0 := rfl
    rw [length_singleton] at hlen
    omega
  | a :: b :: l, p, s, hlen, heven, hsize, hread => by
    have hlen' : (p ++ [a, b]).length + l.length = ethHeaderSize := by
      rw [length_append, ← hlen, length_cons]
      exact add_right_comm p.length 2 l.length
    have heven' : (p ++ [a, b]).length % 2 = 0 := by
      rw [length_append]
      exact (add_mod_right _ 2).trans heven
    have hlt : s.hdrSize < ethHeaderSize := by
      rw [hsize, ← hlen]
      exact Nat.lt_add_of_pos_right (Nat.succ_pos _)
    have hread' : (putWord s.hdr s.hdrSize (a ++ b)).read 0 (p ++ [a, b]).length =
        p ++ [a, b] := by
      rw [hsize, length_append]
      exact read_putWord heven hread a b
    have hsize' : s.hdrSize + 2 = (p ++ [a, b]).length := by
      rw [hsize, length_append]
      rfl
    obtain ⟨hdr, hhdr, hfold⟩ := collect_header bufSize pad
      { s with hdr := putWord s.hdr s.hdrSize (a ++ b), hdrSize := s.hdrSize + 2 } hlen'
        heven' hsize' hread'
    refine ⟨hdr, by rw [hhdr, List.append_assoc]; rfl, ?_⟩
    rw [dataWords, foldl_cons, rxWord_header hlt, hfold]

/-! ## Payload -/

/-- The payload bytes `p` have gone by: the first `bufSize` are stored, and the count
is exact as long as it does not pass the size of the buffer; past it a byte-select
word counts for two. -/
structure PayloadAt (bufSize : Nat) (s : RxLocals) (p : List Byte) : Prop where
  header : s.hdrSize = ethHeaderSize
  stored : s.payload.read 0 (min p.length bufSize) = p.take bufSize
  fits : p.length ≤ bufSize → s.payloadSize = p.length
  beyond : bufSize < p.length → bufSize < s.payloadSize ∧ s.payloadSize ≤ p.length + p.length % 2

def Countable (bufSize n : Nat) : Prop := n < 2 ^ 32 ∧ (bufSize < n → n + 8 ≤ 2 ^ 32)

theorem rxWord_store (hhdr : s.hdrSize = ethHeaderSize)
    (hfits : s.payloadSize ≤ bufSize) (d : BitVec 16) :
    rxWord bufSize s ⟨.data, d⟩ = { s with
        payload := putWord s.payload s.payloadSize d
        payloadSize := (s.payloadSize + 2) % 2 ^ 32 } ∧
      rxWord bufSize s ⟨.bytesel, d⟩ = { s with
        payload := putWord s.payload s.payloadSize d
        payloadSize := (s.payloadSize + 1) % 2 ^ 32 } ∧
      rxWord bufSize s ⟨.oob, d⟩ = rxOob s d := by
  have hfull : ¬s.hdrSize < ethHeaderSize := by
    rw [hhdr]
    exact lt_irrefl _
  have hbuf : ¬bufSize < s.payloadSize := not_lt.mpr hfits
  unfold rxWord
  simp [hfull, hbuf]

theorem rxWord_skip (hhdr : s.hdrSize = ethHeaderSize)
    (hover : bufSize < s.payloadSize) {w : FifoWord} (hw : w.type ≠ .status) :
    rxWord bufSize s w = { s with payloadSize := (s.payloadSize + 2) % 2 ^ 32 } := by
  have hfull : ¬s.hdrSize < ethHeaderSize := by
    rw [hhdr]
    exact lt_irrefl _
  unfold rxWord
  rw [if_neg fun h => hfull h.2, if_pos ⟨hw, hover⟩]

/-- Two bytes stored behind `p` leave the first `bufSize` bytes right, whether one or
both of them count. -/
theorem read_store (bufSize : Nat) {m : Mem} {p : List Byte} (heven : p.length % 2 = 0)
    (hread : m.read 0 p.length = p) (a b : Byte) {l : List Byte} (hl : l <+: [a, b]) :
    (putWord m p.length (a ++ b)).read 0 (min (p ++ l).length bufSize) = (p ++ l).take bufSize := by
  obtain ⟨r, hr⟩ := hl
  have hlen : l.length + r.length = 2 := by
    rw [← length_append, hr]
    rfl
  have hall := read_putWord heven hread a b
  have hsplit : p.length + 2 = min (p ++ l).length bufSize +
      (p.length + 2 - min (p ++ l).length bufSize) := by
    rw [length_append]
    omega
  rw [hsplit, Mem.read_append] at hall
  have htake := congrArg (List.take (min (p ++ l).length bufSize)) hall
  rw [take_left' (Mem.read_length _ _ _), ← hr, ← List.append_assoc,
    take_append_of_le_length (min_le_left _ _)] at htake
  rw [htake, take_eq_take_iff]
  omega

theorem PayloadAt.step {n : Nat} {p : List Byte} (h : PayloadAt bufSize s p)
    (heven : p.length % 2 = 0) {a b : Byte} {l : List Byte} (hl : l <+: [a, b])
    (hpos : 0 < l.length) (hcount : Countable bufSize n) (hn : (p ++ l).length ≤ n) {w : FifoWord}
    (hw : w.type ≠ .status) (hstore : s.payloadSize ≤ bufSize → rxWord bufSize s w = { s with
      payload := putWord s.payload s.payloadSize (a ++ b)
      payloadSize := (s.payloadSize + l.length) % 2 ^ 32 }) :
    ∃ (payload : Mem) (size : Nat),
      rxWord bufSize s w = { s with payload := payload, payloadSize := size } ∧
        PayloadAt bufSize { s with payload := payload, payloadSize := size } (p ++ l) := by
  have happ : (p ++ l).length = p.length + l.length := length_append
  obtain ⟨hlt, hover⟩ := hcount
  rw [happ] at hn
  by_cases hle : p.length ≤ bufSize
  · have hsize := h.fits hle
    have hread : s.payload.read 0 p.length = p := by
      have := h.stored
      rwa [min_eq_left hle, take_of_length_le hle] at this
    have hmod : (p.length + l.length) % 2 ^ 32 = (p ++ l).length := by
      rw [happ, Nat.mod_eq_of_lt (lt_of_le_of_lt hn hlt)]
    rw [hsize, hmod] at hstore
    refine ⟨_, _, hstore hle, h.header, read_store bufSize heven hread a b hl, fun _ => rfl, ?_⟩
    exact fun hbig => ⟨hbig, le_add_right _ _⟩
  · have hbig := Nat.lt_of_not_le hle
    obtain ⟨hsize, hsize'⟩ := h.beyond hbig
    have hmod : (s.payloadSize + 2) % 2 ^ 32 = s.payloadSize + 2 := Nat.mod_eq_of_lt (by omega)
    refine ⟨s.payload, s.payloadSize + 2, ?_, h.header, ?_, ?_, ?_⟩
    · rw [rxWord_skip h.header hsize hw, hmod]
    · rw [take_append_of_le_length (Nat.le_of_lt hbig), ← h.stored,
        Nat.min_eq_right (Nat.le_of_lt hbig), Nat.min_eq_right (by omega)]
    · intro hno
      omega
    · intro _
      show bufSize < s.payloadSize + 2 ∧ s.payloadSize + 2 ≤ _
      omega

theorem collect_payload (pad : Byte) : ∀ {l p : List Byte} (s : RxLocals),
    Countable bufSize (p ++ l).length → p.length % 2 = 0 → PayloadAt bufSize s p →
      ∃ (payload : Mem) (size : Nat), (dataWords pad l).foldl (rxWord bufSize) s =
            { s with payload := payload, payloadSize := size } ∧
          PayloadAt bufSize { s with payload := payload, payloadSize := size } (p ++ l)
  | [], p, s, _, _, h => by
    rw [append_nil]
    exact ⟨s.payload, s.payloadSize, rfl, h⟩
  | [a], p, s, hcount, heven, h => by
    have hl : [a] <+: [a, pad] := ⟨[pad], rfl⟩
    have hw : (FifoWord.mk .bytesel (a ++ pad)).type ≠ .status := fun h => nomatch h
    exact h.step heven hl one_pos hcount (Nat.le_refl _) hw
      fun hfits => (rxWord_store h.header hfits _).2.1
  | a :: b :: l, p, s, hcount, heven, h => by
    have happ : p ++ a :: b :: l = p ++ [a, b] ++ l := by
      rw [List.append_assoc]
      rfl
    have heven' : (p ++ [a, b]).length % 2 = 0 := by
      rw [length_append]
      exact (add_mod_right _ 2).trans heven
    rw [happ] at hcount ⊢
    have hn : (p ++ [a, b]).length ≤ (p ++ [a, b] ++ l).length :=
      (prefix_append _ l).length_le
    have hw : (FifoWord.mk .data (a ++ b)).type ≠ .status := fun h => nomatch h
    obtain ⟨payload, size, hword, hat⟩ :=
      h.step heven (prefix_refl [a, b]) Nat.two_pos hcount hn hw fun hfits =>
        (rxWord_store h.header hfits _).1
    obtain ⟨payload', size', hfold, hat'⟩ := collect_payload pad
      { s with payload := payload, payloadSize := size } hcount heven' hat
    refine ⟨payload', size', ?_, hat'⟩
    rw [dataWords, foldl_cons, hword, hfold]

theorem collect_oob (hfits : s.payloadSize ≤ bufSize) (hcnt : s.oobCnt = 0) :
    f.oob.foldl (rxWord bufSize) s =
      { s with oobCnt := 3, oobHdr := f.oobHdr, rawTs := f.rawTs } := by
  have hbuf : ¬bufSize < s.payloadSize := not_lt.mpr hfits
  have hjoin := rawTs_join f.rawTs
  simp [FifoFrame.oob, rxWord, rxOob, hbuf, hcnt, hjoin]

theorem collect_oob_over
    (hhdr : s.hdrSize = ethHeaderSize) (hover : bufSize < s.payloadSize)
    (hroom : s.payloadSize + 6 < 2 ^ 32) :
    f.oob.foldl (rxWord bufSize) s = { s with payloadSize := s.payloadSize + 6 } := by
  have hskip : ∀ (k : Nat) (d : BitVec 16), k + 2 ≤ 6 →
      rxWord bufSize { s with payloadSize := s.payloadSize + k } ⟨.oob, d⟩ =
        { s with payloadSize := s.payloadSize + (k + 2) } := by
    intro k d hk
    have hmod : (s.payloadSize + k + 2) % 2 ^ 32 = s.payloadSize + (k + 2) :=
      Nat.mod_eq_of_lt (by omega)
    have hlt : bufSize < s.payloadSize + k := Nat.lt_add_right k hover
    have hword : (FifoWord.mk .oob d).type ≠ .status := fun h => nomatch h
    have hskip := @rxWord_skip bufSize { s with payloadSize := s.payloadSize + k } hhdr hlt _ hword
    rwa [hmod] at hskip
  have hfirst := hskip 0 f.oobHdr (by decide)
  rw [add_zero] at hfirst
  rw [FifoFrame.oob, foldl_cons, foldl_cons, foldl_cons, foldl_nil, hfirst,
    hskip 2 _ (by decide), hskip 4 _ (by decide)]

/-! ## One call -/

/-- What a call gives back for the frame `f`.  The time stamp is the frame's own as
long as its payload fits in the buffer, and is not filled in otherwise. -/
structure Delivered (clk : RefClock) (f : FifoFrame) (c : RxCall) (r : RxResult) : Prop where
  ret : r.ret = (min f.payload.length c.bufSize : Nat)
  header : r.hdr.read 0 ethHeaderSize = f.header
  payload : r.payload.read 0 (min f.payload.length c.bufSize) = f.payload.take c.bufSize
  hwts : f.payload.length ≤ c.bufSize → r.hwts = f.hwts clk c
  lost : c.bufSize < f.payload.length → r.hwts = { c.hwts with valid := 0 }

inductive Ends : List FifoWord → List FifoWord → Prop
  | empty : Ends [] []
  | next (status : BitVec 16) (noError : rxStatusError status = false) (rest : List FifoWord) :
      Ends (⟨.status, status⟩ :: rest) rest

theorem rxLoop_ends (h : Ends ws rest)
    (hhdr : s.hdrSize = ethHeaderSize) (herr : s.gotRxError = false) :
    rxLoop bufSize s ws = (s, rest) := by
  cases h with
  | empty => rfl
  | next status noError =>
    rw [rxLoop, if_pos ⟨rfl, by rw [hhdr]; decide⟩, noError, ← herr]

/-- **One frame goes through the loop**, its own status word in front of it or not. -/
theorem rxLoop_frame (c : RxCall) (hends : Ends ws rest)
    (hcount : Countable c.bufSize f.payload.length) :
    ∃ s : RxLocals, rxLoop c.bufSize c.start (f.body ++ ws) = (s, rest) ∧ s.gotRxError = false ∧
      s.hdr.read 0 ethHeaderSize = f.header ∧
      s.payload.read 0 (min f.payload.length c.bufSize) = f.payload.take c.bufSize ∧
      (f.payload.length ≤ c.bufSize →
        s.payloadSize = f.payload.length ∧ s.oobCnt = 3 ∧ s.oobHdr = f.oobHdr ∧ s.rawTs = f.rawTs) ∧
      (c.bufSize < f.payload.length → c.bufSize < s.payloadSize ∧ s.oobCnt = 0) := by
  have hlen : ([] : List Byte).length + f.header.length = ethHeaderSize :=
    (zero_add _).trans f.headerLength
  obtain ⟨hdr, hhdr, hfold⟩ := collect_header c.bufSize f.pad c.start hlen rfl rfl rfl
  have hat : PayloadAt c.bufSize
      ⟨hdr, c.payload, ethHeaderSize, 0, 0, rxoobTsIncorrect, 0, false⟩ [] := by
    refine ⟨rfl, ?_, fun _ => rfl, fun h => nomatch h⟩
    rw [take_nil]
    rfl
  obtain ⟨payload, size, hfold', hat'⟩ := collect_payload f.pad _ hcount rfl hat
  have hwords : f.body.foldl (rxWord c.bufSize) c.start = f.oob.foldl (rxWord c.bufSize)
      ⟨hdr, payload, ethHeaderSize, size, 0, rxoobTsIncorrect, 0, false⟩ := by
    rw [FifoFrame.body, foldl_append, hfold, foldl_append]
    exact congrArg (foldl (rxWord c.bufSize) · f.oob) hfold'
  rw [rxLoop_append ws f.body_type, hwords]
  by_cases hle : f.payload.length ≤ c.bufSize
  · have hsize : size = f.payload.length := hat'.fits hle
    rw [collect_oob f (by rw [← hsize] at hle; exact hle) rfl]
    refine ⟨_, rxLoop_ends hends rfl rfl, rfl, hhdr, hat'.stored, fun _ =>
      ⟨hsize, rfl, rfl, rfl⟩, ?_⟩
    exact fun hbig => absurd hle (not_le.mpr hbig)
  · have hbig := Nat.lt_of_not_le hle
    have hroom := hcount.2 hbig
    obtain ⟨hsize, hsize'⟩ : c.bufSize < size ∧ size ≤ f.payload.length + f.payload.length % 2 :=
      hat'.beyond hbig
    rw [collect_oob_over f rfl hsize (show size + 6 < 2 ^ 32 by omega)]
    refine ⟨_, rxLoop_ends hends rfl rfl, rfl, hhdr, hat'.stored, ?_, ?_⟩
    · exact fun h => absurd h hle
    · exact fun _ => ⟨Nat.lt_add_right 6 hsize, rfl⟩

theorem FifoFrame.body_ne_nil (ws : List FifoWord) : f.body ++ ws ≠ [] := by
  intro h
  have hoob : (⟨.oob, f.oobHdr⟩ : FifoWord) ∈ f.body ++ ws :=
    mem_append_left _ (mem_append_right _ (mem_append_right _ mem_cons_self))
  rw [h] at hoob
  cases hoob

theorem minicRxFrame_frame (clk : RefClock) {nic : Nic} (f : FifoFrame) (c : RxCall)
    (hends : Ends ws rest) (hcount : Countable c.bufSize f.payload.length)
    (hfifo : nic.fifo = f.words ++ ws ∨ nic.fifo = f.body ++ ws) :
    Delivered clk f c (minicRxFrame clk nic c).1 ∧
      (minicRxFrame clk nic c).2 = { nic with fifo := rest, rxCount := nic.rxCount + 1 } := by
  obtain ⟨s, hloop, herr, hhdr, hpay, hfits, hover⟩ := rxLoop_frame f c hends hcount
  have hne : nic.fifo ≠ [] := by
    rcases hfifo with h | h
    · rw [h]
      exact cons_ne_nil _ _
    · rw [h]
      exact f.body_ne_nil ws
  -- the frame's own status word comes before any header byte and is ignored
  have hall : rxLoop c.bufSize c.start nic.fifo = (s, rest) := by
    rcases hfifo with h | h
    · rw [h, ← hloop]
      rfl
    · rw [h, hloop]
  have hret : (if c.bufSize < s.payloadSize then c.bufSize else s.payloadSize) =
      min f.payload.length c.bufSize := by
    by_cases hle : f.payload.length ≤ c.bufSize
    · rw [(hfits hle).1, if_neg (not_lt.mpr hle), min_eq_left hle]
    · have hbig := Nat.lt_of_not_le hle
      rw [if_pos (hover hbig).1, Nat.min_eq_right (Nat.le_of_lt hbig)]
  have hcall : minicRxFrame clk nic c =
      (⟨(min f.payload.length c.bufSize : Nat), s.hdr, s.payload,
        if s.oobCnt = 0 ∨ 3 < s.oobCnt then { c.hwts with valid := 0 }
        else minicRxHwts clk c.sec c.counterPpsg s.oobHdr s.rawTs c.hwts.phase⟩,
        { nic with fifo := rest, rxCount := nic.rxCount + 1 }) := by
    unfold minicRxFrame
    rw [if_neg hne, hall]
    dsimp only
    rw [herr, hret]
    rfl
  rw [hcall]
  refine ⟨⟨rfl, hhdr, hpay, fun hle => ?_, fun hbig => ?_⟩, rfl⟩
  · obtain ⟨-, hcnt, hoob, hraw⟩ := hfits hle
    rw [hcnt, hoob, hraw]
    rfl
  · rw [if_pos (.inl (hover hbig).2)]

/-! ## Call after call -/

def pendingWords : List FifoFrame → List FifoWord
  | [] => []
  | f :: fs => f.body ++ fs.flatMap FifoFrame.words

theorem ends_frames : ∀ fs : List FifoFrame, Ends (fs.flatMap FifoFrame.words) (pendingWords fs)
  | [] => .empty
  | f :: fs => .next f.status f.noError (f.body ++ fs.flatMap FifoFrame.words)

theorem rxCalls_pending (clk : RefClock) :
    ∀ {frames : List FifoFrame} {calls : List RxCall} {nic : Nic}, calls.length = frames.length →
    (∀ fc ∈ frames.zip calls, Countable fc.2.bufSize fc.1.payload.length) →
    (nic.fifo = frames.flatMap FifoFrame.words ∨ nic.fifo = pendingWords frames) →
      List.Forall₂ (fun fc r => Delivered clk fc.1 fc.2 r) (frames.zip calls)
        (rxCalls clk nic calls).1 ∧
        (rxCalls clk nic calls).2.fifo = []
  | [], [], nic, _, _, hfifo => by
    refine ⟨.nil, ?_⟩
    rcases hfifo with h | h <;> exact h
  | f :: frames, c :: calls, nic, hlen, hcount, hfifo => by
    have hf := hcount (f, c) mem_cons_self
    obtain ⟨hdel, hnic⟩ := minicRxFrame_frame clk f c (ends_frames frames) hf hfifo
    have hnext : (minicRxFrame clk nic c).2.fifo = pendingWords frames := by rw [hnic]
    obtain ⟨hrest, hempty⟩ := rxCalls_pending clk (Nat.succ.inj hlen)
      (fun fc hfc => hcount fc (mem_cons_of_mem _ hfc)) (.inr hnext)
    exact ⟨.cons hdel hrest, hempty⟩

/-- **Frames come out one by one**, in order: a call for each frame returns that
frame's header, its payload up to the size of the buffer, and the count of what was
stored; the time stamp is the frame's own exactly as long as the payload fits. -/
theorem rxCalls_delivers (clk : RefClock) {frames : List FifoFrame}
    {calls : List RxCall} {nic : Nic} (hfifo : nic.fifo = frames.flatMap FifoFrame.words)
    (hlen : calls.length = frames.length)
    (hcount : ∀ fc ∈ frames.zip calls, Countable fc.2.bufSize fc.1.payload.length) :
    List.Forall₂ (fun fc r => Delivered clk fc.1 fc.2 r) (frames.zip calls)
      (rxCalls clk nic calls).1 ∧
      (rxCalls clk nic calls).2.fifo = [] :=
  rxCalls_pending clk hlen hcount (.inl hfifo)

def sampleFifoFrame : FifoFrame where
  status := 0
  header := [0xff, 0xff, 0xff, 0xff, 0xff, 0xff, 1, 2, 3, 4, 5, 6, 0x88, 0xf7]
  payload := [10, 11, 12, 13, 14]
  pad := 0
  oobHdr := 0
  rawTs := 100
  noError := rfl
  headerLength := rfl

/-- A call with a buffer of `bufSize` bytes. -/
def sampleCall (bufSize : Nat) : RxCall :=
  ⟨fun _ => 0, fun _ => 0, bufSize, ⟨0, 0, 0, 0, 0⟩, 7, 0⟩

def sampleNic : Nic := ⟨sampleFifoFrame.words ++ (sampleFifoFrame.words ++ []), 0, 0⟩

theorem rxCalls_delivers_two : List.Forall₂ (fun fc r => Delivered refClock125 fc.1 fc.2 r)
        ([sampleFifoFrame, sampleFifoFrame].zip [sampleCall 8, sampleCall 8])
        (rxCalls refClock125 sampleNic [sampleCall 8, sampleCall 8]).1 ∧
      (rxCalls refClock125 sampleNic [sampleCall 8, sampleCall 8]).2.fifo = [] := by
  apply rxCalls_delivers refClock125 rfl rfl
  intro fc hfc
  rcases mem_cons.mp hfc with rfl | hfc
  · exact ⟨by decide, fun h => absurd h (by decide)⟩
  · rcases mem_cons.mp hfc with rfl | hfc
    · exact ⟨by decide, fun h => absurd h (by decide)⟩
    · cases hfc

/-- With room for four of the five bytes the stamp of the frame is lost. -/
theorem rxCalls_stamp_lost : (sampleFifoFrame.hwts refClock125 (sampleCall 4)).valid = 1 ∧
      (sampleFifoFrame.hwts refClock125 (sampleCall 4)).nsec = 800 ∧
      (minicRxFrame refClock125 sampleNic (sampleCall 4)).1.ret = 4 ∧
      (minicRxFrame refClock125 sampleNic (sampleCall 4)).1.hwts = ⟨0, 0, 0, 0, 0⟩ := by
  decide

end Wrpc
