/-
# What the control link delivers

Everything rests on one lemma, `outcomes_frame`: on any byte string that has
the *shape* of a frame — the two sync bytes, a type, a length `n`, `n` bytes
of data, two more bytes — an idle receiver reports exactly one packet end and
is idle again, and the report is a delivery precisely when the last two bytes
are the CRC of what precedes them.

A frame that was sent has its shape and its CRC, so it is delivered.  A frame
with one damaged type, payload or CRC byte still has its shape — the length
bytes are intact — and no longer its CRC, because one changed symbol always
changes a shift-register checksum (`Crc.foldl_ne_of_set`).
-/
import Wrpc.Ertm14.UartLink
import Mathlib.Data.List.ReduceOption

namespace Wrpc.Ertm14

open List BitVec

/-! ## The CRC step loses nothing -/

variable {link : UartLink} {pkt : UartPacket} {i : Nat} {d : List Byte}

theorem lfsrSteps_injective : Function.Injective (Crc.lfsrStep 0x1021#16)^[8] :=
  (Crc.lfsrStep_injective (by decide)).iterate 8

theorem crcXmodemUpdate_injective_crc (data : Byte) :
    Function.Injective fun crc => crcXmodemUpdate crc data := by
  intro x y h
  exact (xor_left_inj _).mp (lfsrSteps_injective h)

theorem shiftLeft_eight_injective :
    Function.Injective fun d : Byte => (d.zeroExtend 16 <<< 8 : BitVec 16) := by
  intro x y h
  apply eq_of_getLsbD_eq
  intro i hi
  have hbit := congrArg (fun z : BitVec 16 => z.getLsbD (i + 8)) h
  have hlt : i + 8 < 16 := by omega
  simpa only [getLsbD_shiftLeft, hlt, decide_true, Bool.true_and,
    Nat.not_lt.mpr (Nat.le_add_left 8 i), decide_false, Bool.not_false,
    Nat.add_sub_cancel, truncate_eq_setWidth, getLsbD_setWidth,
    show i < 16 by omega] using hbit

theorem crcXmodemUpdate_injective_data (crc : BitVec 16) :
    Function.Injective (crcXmodemUpdate crc) := by
  intro x y h
  exact shiftLeft_eight_injective ((xor_right_inj _).mp (lfsrSteps_injective h))

def joinCrc (hi lo : Byte) : BitVec 16 := (hi.zeroExtend 16 <<< 8) ||| lo.zeroExtend 16

theorem getLsbD_joinCrc (hi lo : Byte) (i : Nat) :
    (joinCrc hi lo).getLsbD i
      = if i < 8 then lo.getLsbD i else hi.getLsbD (i - 8) := by
  unfold joinCrc
  by_cases h8 : i < 8
  · simp [h8, show i < 16 by omega]
  · by_cases h16 : i < 16
    · simp [h8, h16, getLsbD_of_ge lo i (by omega)]
    · simp [h8, h16, getLsbD_of_ge hi (i - 8) (by omega),
        getLsbD_of_ge lo i (by omega)]

theorem joinCrc_crcBytes (crc : BitVec 16) :
    joinCrc ((crc >>> 8).setWidth 8) (crc.setWidth 8) = crc := by
  apply eq_of_getLsbD_eq
  intro i hi
  rw [getLsbD_joinCrc]
  by_cases h8 : i < 8
  · simp [h8]
  · simp [h8, show i - 8 < 8 by omega, show 8 + (i - 8) = i by omega]

theorem joinCrc_inj {hi lo hi' lo' : Byte} (h : joinCrc hi lo = joinCrc hi' lo') :
    hi = hi' ∧ lo = lo' := by
  have hbit : ∀ i, (joinCrc hi lo).getLsbD i = (joinCrc hi' lo').getLsbD i := by
    intro i; rw [h]
  simp only [getLsbD_joinCrc] at hbit
  constructor
  · apply eq_of_getLsbD_eq
    intro i _
    have := hbit (i + 8)
    rwa [if_neg (by omega), if_neg (by omega), Nat.add_sub_cancel] at this
  · apply eq_of_getLsbD_eq
    intro i hi8
    have := hbit i
    rwa [if_pos hi8, if_pos hi8] at this

theorem feed_append (link : UartLink) (a b : List (Option Byte)) :
    feed link (a ++ b) = feed (feed link a) b := by
  induction a generalizing link with
  | nil => rfl
  | cons x a ih => exact ih _

theorem outcomes_append (link : UartLink) (a b : List (Option Byte)) :
    outcomes link (a ++ b) = outcomes link a ++ outcomes (feed link a) b := by
  induction a generalizing link with
  | nil => rfl
  | cons x a ih => simp [outcomes, feed, ih]

theorem outcomes_reduceOption (link : UartLink) (polls : List (Option Byte)) :
    outcomes link polls = outcomes link (polls.reduceOption.map some)
      ∧ feed link polls = feed link (polls.reduceOption.map some) := by
  induction polls generalizing link with
  | nil => exact ⟨rfl, rfl⟩
  | cons x polls ih =>
    cases x with
    | none =>
      exact ih link
    | some b =>
      obtain ⟨ho, hf⟩ := ih (recvFsm link (some b)).2
      exact ⟨by simp [outcomes, ho], hf⟩

/-! ## One frame -/

/-- The link `k` bytes into a payload of `n`, with CRC `c`. -/
structure InPayload (link : UartLink) (t : Byte) (n k : Nat) (c : BitVec 16) : Prop where
  state : link.state = .payload
  rxCount : link.rxCount = k
  ptype : link.rxPacket.ptype = t
  length : link.rxPacket.length = n
  checkCrc : link.checkCrc = c

/-- The link about to read the first CRC byte of a packet with data `d`. -/
structure AtCrc (link : UartLink) (t : Byte) (d : List Byte) (c : BitVec 16) : Prop where
  state : link.state = .crc0
  rxCount : link.rxCount = d.length
  ptype : link.rxPacket.ptype = t
  length : link.rxPacket.length = d.length
  data : link.rxPacket.payload.read 0 d.length = d
  checkCrc : link.checkCrc = c

/-- The payload loop: the remaining bytes are stored behind the ones already
there, run through the CRC, and the last of them leaves the state. -/
theorem feed_payload {t : Byte} {n : Nat} (hn : n ≤ maxPayload) :
    ∀ {l d : List Byte} {link : UartLink} {c : BitVec 16},
      l ≠ [] → d.length + l.length = n → InPayload link t n d.length c →
      link.rxPacket.payload.read 0 d.length = d →
      outcomes link (l.map some) = [] ∧
        AtCrc (feed link (l.map some)) t (d ++ l) (l.foldl crcXmodemUpdate c)
  | b :: l, d, link, c, _, hlen, hp, hd => by
    obtain ⟨hs, hk, ht, hl, hc⟩ := hp
    have hlt : d.length < maxPayload := by
      simp only [length_cons] at hlen; omega
    have hread : (link.rxPacket.payload.set d.length b).read 0 (d ++ [b]).length = d ++ [b] := by
      have := Mem.read_set_end link.rxPacket.payload 0 d.length b
      rw [Nat.zero_add, hd] at this
      simpa using this
    cases l with
    | nil =>
      -- the last byte: the comparison with `length - 1` succeeds
      have hlast : (d.length : Int) = (n : Int) - 1 := by
        simp only [length_cons, length_nil] at hlen; omega
      have hn' : n = (d ++ [b]).length := by simpa using hlen.symm
      refine ⟨?_, ?_, ?_, ?_, ?_, ?_, ?_⟩ <;>
        simp only [List.map, outcomes, feed, recvFsm, recvByte, hs, hk, hl, hlast, hlt,
          if_true, outcome, append_nil, ht, hc, List.foldl]
      · simp
      · exact hn'
      · exact hread
    | cons b' l =>
      have hmore : ¬ (d.length : Int) = (n : Int) - 1 := by
        simp only [length_cons] at hlen; omega
      have hstep : recvFsm link (some b) =
          (.needData, { link with
            checkCrc := crcXmodemUpdate c b
            rxPacket := { link.rxPacket with
              payload := link.rxPacket.payload.set d.length b }
            rxCount := d.length + 1 }) := by
        simp [recvFsm, recvByte, hs, hk, hl, hmore, hlt, hc]
      have hlen' : (d ++ [b]).length + (b' :: l).length = n := by
        simp only [length_append, length_cons, length_nil] at hlen ⊢; omega
      have hp' : InPayload (recvFsm link (some b)).2 t n (d ++ [b]).length
          (crcXmodemUpdate c b) := by
        rw [hstep]; exact ⟨hs, by simp, ht, hl, rfl⟩
      have hread' : (recvFsm link (some b)).2.rxPacket.payload.read 0 (d ++ [b]).length
          = d ++ [b] := by
        rw [hstep]; exact hread
      have ih := feed_payload hn (cons_ne_nil b' l) hlen' hp' hread'
      rw [List.append_assoc] at ih
      refine ⟨?_, ih.2⟩
      rw [map_cons, outcomes, ih.1, hstep]
      rfl

/-- The five header bytes of a frame with `n` bytes of data. -/
def frameHead (t : Byte) (n : Nat) : List Byte :=
  [0x55, 0xaa, t, BitVec.ofNat 8 (n >>> 8), BitVec.ofNat 8 n]

theorem length_bytes {n : Nat} (hn : n < 65536) :
    (BitVec.ofNat 8 (n >>> 8)).toNat <<< 8 ||| (BitVec.ofNat 8 n).toNat = n := by
  have hhi : (BitVec.ofNat 8 (n >>> 8)).toNat = n / 256 := by
    rw [toNat_ofNat, Nat.shiftRight_eq_div_pow]; omega
  have hlo : (BitVec.ofNat 8 n).toNat = n % 256 := toNat_ofNat ..
  rw [hhi, hlo, ← Nat.shiftLeft_add_eq_or_of_lt (show n % 256 < 2 ^ 8 by omega),
    Nat.shiftLeft_eq]
  omega

/-- The header of a frame whose data is `d`: the receiver is at the CRC when
`d` is empty, and at its first byte otherwise. -/
theorem feed_head (hidle : link.state = .idle) (t : Byte) {n : Nat} (hn : n < 65536) :
    outcomes link ((frameHead t n).map some) = [] ∧
      (feed link ((frameHead t n).map some)) =
        { state := if n = 0 then .crc0 else .payload
          rxCount := 0
          rxCrc := link.rxCrc
          checkCrc := crc16 (frameHead t n)
          rxPacket := ⟨t, n, link.rxPacket.payload⟩ } := by
  have hlen := length_bytes hn
  constructor
  · simp [frameHead, outcomes, recvFsm, recvByte, hidle, outcome]
  · simp only [frameHead, List.map, feed, recvFsm, recvByte, hidle, if_true, hlen, crc16,
      List.foldl]

theorem feed_body (hidle : link.state = .idle) (t : Byte) (hd : d.length ≤ maxPayload) :
    outcomes link ((frameHead t d.length ++ d).map some) = [] ∧
      AtCrc (feed link ((frameHead t d.length ++ d).map some)) t d
        (crc16 (frameHead t d.length ++ d)) := by
  have hn : d.length < 65536 := Nat.lt_of_le_of_lt hd (by decide)
  obtain ⟨hout, hfeed⟩ := feed_head hidle t hn
  rw [map_append, outcomes_append, feed_append, hout, hfeed]
  cases d with
  | nil => exact ⟨rfl, rfl, rfl, rfl, rfl, rfl, by rw [append_nil]; rfl⟩
  | cons b d =>
    have hp : InPayload ⟨.payload, 0, link.rxCrc, crc16 (frameHead t (b :: d).length),
        ⟨t, (b :: d).length, link.rxPacket.payload⟩⟩ t (b :: d).length ([] : List Byte).length
        (crc16 (frameHead t (b :: d).length)) := ⟨rfl, rfl, rfl, rfl, rfl⟩
    have := feed_payload hd (cons_ne_nil b d) (Nat.zero_add _) hp rfl
    simpa [crc16, foldl_append] using this

/-- **One frame, one packet end.**  On anything shaped like a frame the idle
receiver reports once, delivers exactly when the CRC fits, and is idle again. -/
theorem outcomes_frame (hidle : link.state = .idle) (t : Byte) (hd : d.length ≤ maxPayload)
    (c₁ c₂ : Byte) :
    outcomes link ((frameHead t d.length ++ d ++ [c₁, c₂]).map some)
        = (if joinCrc c₁ c₂ = crc16 (frameHead t d.length ++ d)
            then [.got ⟨t, d.length, d⟩] else [.error]) ∧
      (feed link ((frameHead t d.length ++ d ++ [c₁, c₂]).map some)).state = .idle := by
  obtain ⟨hout, hs, hk, ht, hl, hdata, hc⟩ := feed_body hidle t hd
  rw [map_append, outcomes_append, feed_append, hout]
  generalize feed link ((frameHead t d.length ++ d).map some) = at' at *
  by_cases hcrc : joinCrc c₁ c₂ = crc16 (frameHead t d.length ++ d)
  · have hcrc' := hcrc
    unfold joinCrc at hcrc'
    simp [outcomes, feed, recvFsm, recvByte, hs, hk, hl, hc, hcrc, hcrc', outcome,
      UartPacket.received, UartPacket.data, ht, hdata]
  · have hcrc' := hcrc
    unfold joinCrc at hcrc'
    simp [outcomes, feed, recvFsm, recvByte, hs, hk, hl, hc, hcrc, hcrc', outcome]

/-! ## Frames that were sent -/

theorem data_length (pkt : UartPacket) : pkt.data.length = pkt.length :=
  Mem.read_length ..

theorem sendHead_eq (pkt : UartPacket) :
    sendHead pkt = frameHead pkt.ptype pkt.data.length ++ pkt.data := by
  rw [data_length]; rfl

theorem sendHead_length (pkt : UartPacket) : (sendHead pkt).length = pkt.length + 5 := by
  simp [sendHead, data_length]

theorem sendLoop_ok {res : Nat → Int} (hres : ∀ i, 0 ≤ res i) :
    ∀ (i : Nat) (l : List Byte), sendLoop res i l = (l, 0)
  | _, [] => rfl
  | i, b :: l => by
    rw [sendLoop, if_neg (Int.not_lt.mpr (hres i)), sendLoop_ok hres (i + 1) l]

theorem uartLinkSend_ok {res : Nat → Int} (hres : ∀ i, 0 ≤ res i) (pkt : UartPacket) :
    uartLinkSend res pkt = (sendBuf pkt, 0) :=
  sendLoop_ok hres 0 _

theorem outcomes_sendBuf (hidle : link.state = .idle) (hlen : pkt.length ≤ maxPayload) :
    outcomes link ((sendBuf pkt).map some) = [.got pkt.received] ∧
      (feed link ((sendBuf pkt).map some)).state = .idle := by
  have hd : pkt.data.length ≤ maxPayload := by rw [data_length]; exact hlen
  obtain ⟨hout, hst⟩ := outcomes_frame hidle pkt.ptype hd
    ((crc16 (sendHead pkt) >>> 8).setWidth 8) ((crc16 (sendHead pkt)).setWidth 8)
  rw [← sendHead_eq, joinCrc_crcBytes, if_pos rfl, data_length] at hout
  rw [← sendHead_eq] at hst
  exact ⟨hout, hst⟩

theorem outcomes_sendBufs : ∀ {pkts : List UartPacket} {link : UartLink},
    link.state = .idle → (∀ p ∈ pkts, p.length ≤ maxPayload) →
      outcomes link ((pkts.flatMap sendBuf).map some) = (pkts.map fun p => .got p.received) ∧
        (feed link ((pkts.flatMap sendBuf).map some)).state = .idle
  | [], _, hidle, _ => ⟨rfl, hidle⟩
  | p :: pkts, link, hidle, hlen => by
    obtain ⟨hout, hst⟩ := outcomes_sendBuf hidle (hlen p mem_cons_self)
    obtain ⟨hrest, hst'⟩ := outcomes_sendBufs hst fun q hq => hlen q (mem_cons_of_mem _ hq)
    rw [flatMap_cons, map_append, outcomes_append, feed_append, hout, hrest]
    exact ⟨rfl, hst'⟩

theorem outcomes_damaged_head (hidle : link.state = .idle) {a b : Byte} (hi : i < pkt.length + 5)
    (ha : (sendBuf pkt)[i]? = some a) (hb : b ≠ a) {t : Byte} (hd : d.length ≤ maxPayload)
    (hshape : (sendHead pkt).set i b = frameHead t d.length ++ d) :
    outcomes link (((sendBuf pkt).set i b).map some) = [.error] := by
  have ha' : (sendHead pkt)[i]? = some a := by
    rwa [sendBuf, List.getElem?_append_left (by rw [sendHead_length]; exact hi)] at ha
  have hne : crc16 (sendHead pkt) ≠ crc16 (frameHead t d.length ++ d) := by
    rw [← hshape]; exact (Crc.foldl_ne_of_set crcXmodemUpdate_injective_crc
      crcXmodemUpdate_injective_data 0 ha' hb).symm
  obtain ⟨hout, -⟩ := outcomes_frame hidle t hd
    ((crc16 (sendHead pkt) >>> 8).setWidth 8) ((crc16 (sendHead pkt)).setWidth 8)
  rw [joinCrc_crcBytes, if_neg hne] at hout
  rw [sendBuf, set_append_left _ _ (by rw [sendHead_length]; exact hi), hshape]
  exact hout

theorem outcomes_damaged_crc (hidle : link.state = .idle) (hlen : pkt.length ≤ maxPayload)
    {c₁ c₂ : Byte} (hne : joinCrc c₁ c₂ ≠ crc16 (sendHead pkt)) :
    outcomes link ((sendHead pkt ++ [c₁, c₂]).map some) = [.error] := by
  have hd : pkt.data.length ≤ maxPayload := by rw [data_length]; exact hlen
  obtain ⟨hout, -⟩ := outcomes_frame hidle pkt.ptype hd c₁ c₂
  rw [← sendHead_eq, if_neg hne] at hout
  exact hout

/-- The positions of the type byte, the payload bytes and the two CRC bytes. -/
def Guarded (pkt : UartPacket) (i : Nat) : Prop := i = 2 ∨ (5 ≤ i ∧ i < pkt.length + 7)

theorem outcomes_damaged (hidle : link.state = .idle) (hlen : pkt.length ≤ maxPayload)
    {a b : Byte} (hi : Guarded pkt i) (ha : (sendBuf pkt)[i]? = some a) (hb : b ≠ a) :
    outcomes link (((sendBuf pkt).set i b).map some) = [.error] := by
  have hd : pkt.data.length ≤ maxPayload := by rw [data_length]; exact hlen
  rcases hi with rfl | ⟨h5, h7⟩
  · exact outcomes_damaged_head hidle (by omega) ha hb hd (by rw [data_length]; rfl)
  · obtain ⟨k, rfl⟩ := Nat.exists_eq_add_of_le' h5
    by_cases hk : k < pkt.length
    · exact outcomes_damaged_head (d := pkt.data.set k b) hidle (by omega) ha hb
        (by rw [length_set]; exact hd) (by rw [length_set, data_length]; rfl)
    -- the CRC bytes themselves
    · have hsplit : (sendBuf pkt).set (k + 5) b
          = sendHead pkt ++ (crcBytes (crc16 (sendHead pkt))).set (k - pkt.length) b := by
        rw [sendBuf, set_append_right _ _ (by rw [sendHead_length]; omega),
          sendHead_length, show k + 5 - (pkt.length + 5) = k - pkt.length by omega]
      have hat : (crcBytes (crc16 (sendHead pkt)))[k - pkt.length]? = some a := by
        rw [← ha, sendBuf, List.getElem?_append_right (by rw [sendHead_length]; omega),
          sendHead_length, show k + 5 - (pkt.length + 5) = k - pkt.length by omega]
      rw [hsplit]
      have hcase : k - pkt.length = 0 ∨ k - pkt.length = 1 := by omega
      rcases hcase with h0 | h1
      · rw [h0] at hat ⊢
        have haEq : (crc16 (sendHead pkt) >>> 8).setWidth 8 = a := by simpa [crcBytes] using hat
        refine outcomes_damaged_crc hidle hlen fun h => hb ?_
        rw [← joinCrc_crcBytes (crc16 (sendHead pkt))] at h
        exact (joinCrc_inj h).1.trans haEq
      · rw [h1] at hat ⊢
        have haEq : (crc16 (sendHead pkt)).setWidth 8 = a := by simpa [crcBytes] using hat
        refine outcomes_damaged_crc hidle hlen fun h => hb ?_
        rw [← joinCrc_crcBytes (crc16 (sendHead pkt))] at h
        exact (joinCrc_inj h).2.trans haEq

/-- **Round trip and integrity.**  Whatever polls find no byte in between, the
frames of any packets come out as those packets, in order and nothing else;
and a frame with one damaged type, payload or CRC byte comes out as one error. -/
theorem uartLink_roundTrip {res : Nat → Int} (hres : ∀ i, 0 ≤ res i) {link : UartLink}
    (hidle : link.state = .idle) :
    (∀ (pkts : List UartPacket) (polls : List (Option Byte)),
      (∀ p ∈ pkts, p.length ≤ maxPayload) →
      polls.reduceOption = (pkts.flatMap fun p => (uartLinkSend res p).1) →
      outcomes link polls = pkts.map fun p => .got p.received) ∧
    (∀ (pkt : UartPacket) (i : Nat) (a b : Byte) (polls : List (Option Byte)),
      pkt.length ≤ maxPayload → Guarded pkt i → (uartLinkSend res pkt).1[i]? = some a → b ≠ a →
      polls.reduceOption = (uartLinkSend res pkt).1.set i b →
      outcomes link polls = [.error]) := by
  simp only [uartLinkSend_ok hres]
  constructor
  · intro pkts polls hlen hpolls
    rw [(outcomes_reduceOption link polls).1, hpolls]
    exact (outcomes_sendBufs hidle hlen).1
  · intro pkt i a b polls hlen hi ha hb hpolls
    rw [(outcomes_reduceOption link polls).1, hpolls]
    exact outcomes_damaged hidle hlen hi ha hb

def linkAfterReset : UartLink := ⟨.idle, 0, 0, 0, ⟨0, 0, fun _ => 0⟩⟩

/-- A two-byte packet of type 7, polled once too often on the way. -/
def samplePacket : UartPacket := ⟨7, 2, fun i => if i = 0 then 0x55 else 0xaa⟩

theorem uartLink_roundTrip_sample :
    outcomes linkAfterReset (none :: (sendBuf samplePacket).map some)
        = [.got samplePacket.received] ∧
      outcomes linkAfterReset (((sendBuf samplePacket).set 5 0x56).map some) = [.error] := by
  have hres : ∀ i : Nat, (0 : Int) ≤ (fun _ => 0 : Nat → Int) i := fun _ => Int.le_refl 0
  obtain ⟨hrt, hint⟩ := uartLink_roundTrip hres (show linkAfterReset.state = .idle from rfl)
  simp only [uartLinkSend_ok hres] at hrt hint
  constructor
  · exact hrt [samplePacket] _ (by decide) (by simp [List.reduceOption])
  · exact hint samplePacket 5 0x55 0x56 _ (by decide) (Or.inr (by decide)) rfl (by decide)
      (by simp [List.reduceOption])

end Wrpc.Ertm14
