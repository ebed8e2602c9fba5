/-
# How the receiver gets out of a damaged frame

A frame whose header announces `L` bytes of payload is left again after `L`
payload and two CRC bytes.  The state `payload` is left by an equality test
between the byte counter and `L - 1`, and the counter stops at the size of the
payload buffer.  So there are two cases and nothing in between:

    L ≤ 513    `Pending`: a countdown, one byte a step, to the state `idle`
    L ≥ 514    `Stuck`: the state `payload` for ever, no packet end reported

Being idle is half of the way back.  The other half is to find the start of the
next frame, which an idle receiver does as long as the bytes it skips hold no
sync pair (`Framed`): from then on every frame is delivered.
-/
import Wrpc.Ertm14.UartLinkRoundTrip
import Mathlib.Data.List.Chain

namespace Wrpc.Ertm14

open List Nat

/-- `n` more bytes end the frame. -/
inductive Pending (link : UartLink) : Nat → Prop
  | payload (m : Nat) (state : link.state = .payload)
      (count : link.rxCount + m + 1 = link.rxPacket.length)
      (fits : link.rxPacket.length ≤ maxPayload + 1) : Pending link (m + 3)
  | crc0 (state : link.state = .crc0) : Pending link 2
  | crc1 (state : link.state = .crc1) : Pending link 1
  | idle (state : link.state = .idle) : Pending link 0

variable {link : UartLink}

theorem Pending.step {n : Nat} (h : Pending link (n + 1)) (b : Byte) :
    Pending (recvByte link b).2 n := by
  cases h with
  | payload m hs hcount hfits =>
    cases m with
    | zero =>
      have hlast : (link.rxCount : Int) = link.rxPacket.length - 1 := by omega
      apply Pending.crc0
      simp only [recvByte, hs, if_pos hlast]
      split <;> rfl
    | succ m =>
      -- the counter still runs: it is below `length - 1 ≤ maxPayload`
      have hmore : ¬(link.rxCount : Int) = link.rxPacket.length - 1 := by omega
      have hlt : link.rxCount < maxPayload := by omega
      have hstep : (recvByte link b).2 = { link with
          checkCrc := crcXmodemUpdate link.checkCrc b
          rxPacket := { link.rxPacket with
            payload := link.rxPacket.payload.set link.rxCount b }
          rxCount := link.rxCount + 1 } := by
        simp only [recvByte, hs, if_neg hmore, if_pos hlt]
      rw [hstep]
      exact .payload m hs (by rw [← hcount]; exact add_right_comm _ 1 (m + 1)) hfits
  | crc0 hs =>
    apply Pending.crc1
    simp only [recvByte, hs]
  | crc1 hs =>
    apply Pending.idle
    simp only [recvByte, hs]
    split <;> [rfl; split <;> rfl]

theorem Pending.idle_after {bs : List Byte} (h : Pending link bs.length) :
    (feed link (bs.map some)).state = .idle := by
  induction bs generalizing link with
  | nil => cases h with | idle hs => exact hs
  | cons b bs ih => exact ih (h.step b)

structure Stuck (link : UartLink) : Prop where
  state : link.state = .payload
  count : link.rxCount ≤ maxPayload
  length : maxPayload + 1 < link.rxPacket.length

theorem Stuck.step (h : Stuck link) (b : Byte) :
    (recvByte link b).1 = .needData ∧ Stuck (recvByte link b).2 := by
  obtain ⟨hs, hcount, hlen⟩ := h
  have hmore : ¬(link.rxCount : Int) = link.rxPacket.length - 1 := by omega
  simp only [recvByte, hs, if_neg hmore]
  split
  · next hlt => exact ⟨rfl, rfl, hlt, hlen⟩
  · exact ⟨rfl, rfl, hcount, hlen⟩

theorem Stuck.forever (h : Stuck link) (polls : List (Option Byte)) :
    outcomes link polls = [] ∧ Stuck (feed link polls) := by
  induction polls generalizing link with
  | nil => exact ⟨rfl, h⟩
  | cons x polls ih =>
    cases x with
    | none => exact ih h
    | some b =>
      obtain ⟨hneed, hstuck⟩ := h.step b
      obtain ⟨hout, hfeed⟩ := ih hstuck
      refine ⟨?_, hfeed⟩
      rw [outcomes, recvFsm, hneed, hout]
      rfl

structure HeaderRead (link : UartLink) : Prop where
  count : link.rxCount = 0
  state : link.state = if link.rxPacket.length = 0 then .crc0 else .payload

theorem HeaderRead.pending (h : HeaderRead link) (hfits : link.rxPacket.length ≤ maxPayload + 1) :
    Pending link (link.rxPacket.length + 2) := by
  obtain ⟨hcount, hstate⟩ := h
  cases hlen : link.rxPacket.length with
  | zero =>
    rw [hlen, if_pos rfl] at hstate
    exact .crc0 hstate
  | succ m =>
    rw [hlen, if_neg (succ_ne_zero m)] at hstate
    exact .payload m hstate (by rw [hcount, hlen, zero_add]) hfits

theorem HeaderRead.stuck (h : HeaderRead link) (hlong : maxPayload + 1 < link.rxPacket.length) :
    Stuck link := by
  refine ⟨?_, by rw [h.count]; exact Nat.zero_le _, hlong⟩
  rw [h.state, if_neg (Nat.ne_zero_of_lt hlong)]

/-! ## Finding the next frame -/

inductive Listening (link : UartLink) : Prop
  | idle (state : link.state = .idle)
  | sync (state : link.state = .sync) (crc : link.checkCrc = crcXmodemUpdate 0 0x55)

/-- `a b` is not the pair that starts a frame. -/
def NotSync (a b : Byte) : Prop := ¬(a = 0x55 ∧ b = 0xaa)

instance (a b : Byte) : Decidable (NotSync a b) := inferInstanceAs (Decidable ¬_)

/-- The bytes of a frame hold the sync pair at their start only. -/
def Framed (pkt : UartPacket) : Prop :=
  pkt.length ≤ maxPayload ∧ (sendBuf pkt).tail.IsChain NotSync

instance (pkt : UartPacket) : Decidable (Framed pkt) := inferInstanceAs (Decidable (_ ∧ _))

theorem Listening.recvFsm_sync (h : Listening link) :
    recvFsm link (some 0x55) = recvFsm (uartLinkReset link) (some 0x55) := by
  cases h with
  | idle hs =>
    have hreset : uartLinkReset link = link := by
      rw [uartLinkReset, ← hs]
    rw [hreset]
  | sync hs hcrc =>
    simp only [recvFsm, recvByte, uartLinkReset, hs, if_true, ← hcrc]
    rfl

theorem Listening.skip : ∀ {bs : List Byte} {link : UartLink}, Listening link →
    bs.IsChain NotSync → (link.state = .sync → bs.head? ≠ some 0xaa) →
      Listening (feed link (bs.map some)) ∧ outcomes link (bs.map some) = []
  | [], _, h, _, _ => ⟨h, rfl⟩
  | b :: bs, link, h, hbs, hhead => by
    have hne : link.state = .sync → b ≠ 0xaa := fun hs hb => hhead hs (congrArg some hb)
    have hstep : (recvFsm link (some b)).1 = .needData ∧ Listening (recvFsm link (some b)).2 ∧
        ((recvFsm link (some b)).2.state = .sync → b = 0x55) := by
      cases h with
      | idle hs =>
        simp only [recvFsm, recvByte, hs]
        split
        · next hb => exact ⟨rfl, .sync rfl rfl, fun _ => hb⟩
        · exact ⟨rfl, .idle hs, fun hs' => by rw [hs] at hs'; cases hs'⟩
      | sync hs hcrc =>
        simp only [recvFsm, recvByte, hs, if_neg (hne hs)]
        split
        · next hb => exact ⟨rfl, .sync rfl hcrc, fun _ => hb⟩
        · exact ⟨rfl, .idle rfl, fun hs' => by cases hs'⟩
    obtain ⟨hneed, hlisten, hsync⟩ := hstep
    have hhead' : (recvFsm link (some b)).2.state = .sync → bs.head? ≠ some 0xaa := by
      intro hs haa
      cases bs with
      | nil => cases haa
      | cons c bs =>
        cases haa
        exact (List.isChain_cons_cons.mp hbs).1 ⟨hsync hs, rfl⟩
    obtain ⟨hfeed, hout⟩ := Listening.skip hlisten (isChain_of_isChain_cons hbs) hhead'
    refine ⟨hfeed, ?_⟩
    rw [map_cons, outcomes, hneed, hout]
    rfl

theorem Listening.sendBufs (h : Listening link) {pkts : List UartPacket}
    (hlen : ∀ p ∈ pkts, p.length ≤ maxPayload) :
    Listening (feed link ((pkts.flatMap sendBuf).map some)) ∧
      outcomes link ((pkts.flatMap sendBuf).map some) = pkts.map fun p => .got p.received := by
  cases pkts with
  | nil => exact ⟨h, rfl⟩
  | cons p pkts =>
    have hreset : (uartLinkReset link).state = .idle := rfl
    obtain ⟨hout, hidle⟩ := outcomes_sendBufs hreset hlen
    have hcons : ((p :: pkts).flatMap sendBuf).map some =
        some 0x55 :: (((p :: pkts).flatMap sendBuf).tail).map some := rfl
    rw [hcons] at hout hidle ⊢
    rw [outcomes, feed, h.recvFsm_sync]
    exact ⟨.idle hidle, hout⟩

theorem listening_of_drop : ∀ {pkts : List UartPacket} {link : UartLink} {k : Nat},
    link.state = .idle → (∀ p ∈ pkts, Framed p) →
      Listening (feed link (((pkts.flatMap sendBuf).drop k).map some))
  | [], _, k, h, _ => by
    rw [flatMap_nil, drop_nil]
    exact .idle h
  | p :: pkts, link, 0, h, hp =>
    (Listening.sendBufs (.idle h) fun q hq => (hp q hq).1).1
  | p :: pkts, link, k + 1, h, hp => by
    have hrest : ∀ q ∈ pkts, Framed q := fun q hq => hp q (mem_cons_of_mem _ hq)
    rw [flatMap_cons, drop_append]
    by_cases hk : k + 1 ≤ (sendBuf p).length
    · -- the rest of a frame is skipped, and the frames after it are received
      rw [Nat.sub_eq_zero_of_le hk, drop_zero, map_append, feed_append]
      have hclean : ((sendBuf p).drop (k + 1)).IsChain NotSync := by
        exact (hp p mem_cons_self).2.drop k
      have hskip := Listening.skip (.idle h) hclean fun hs => by rw [h] at hs; cases hs
      exact (Listening.sendBufs hskip.1 fun q hq => (hrest q hq).1).1
    · rw [drop_eq_nil_of_le (Nat.le_of_not_le hk), nil_append]
      exact listening_of_drop h hrest

/-! ## Resynchronisation -/

/-- The receiver is idle after at most `L + 2` further bytes, whatever they are
and whatever polls come in between. -/
def Resyncs (link : UartLink) : Prop :=
  ∀ polls : List (Option Byte), link.rxPacket.length + 2 ≤ polls.reduceOption.length →
    ∃ n, (polls.take n).reduceOption.length ≤ link.rxPacket.length + 2 ∧
      (feed link (polls.take n)).state = .idle

/-- Of the packets sent from here on, all that begin after `L + 2` bytes are
delivered. -/
def Recovers (link : UartLink) : Prop :=
  ∀ (early later : List UartPacket) (polls : List (Option Byte)),
    (∀ p ∈ early ++ later, Framed p) →
    link.rxPacket.length + 2 ≤ (early.flatMap sendBuf).length →
    polls.reduceOption = (early ++ later).flatMap sendBuf →
      ∃ first, outcomes link polls = first ++ later.map fun p => .got p.received

theorem reduceOption_map_some (bs : List Byte) : (bs.map some).reduceOption = bs := by
  rw [List.reduceOption, filterMap_map]
  exact filterMap_some

theorem exists_take_reduceOption : ∀ {polls : List (Option Byte)} {n : Nat},
    n ≤ polls.reduceOption.length →
      ∃ k, (polls.take k).reduceOption.length = n
  | _, 0, _ => ⟨0, rfl⟩
  | [], _ + 1, h => absurd h (not_succ_le_zero _)
  | none :: polls, n + 1, h => by
    obtain ⟨k, hk⟩ : ∃ k, (polls.take k).reduceOption.length = n + 1 :=
      exists_take_reduceOption h
    exact ⟨k + 1, hk⟩
  | some b :: polls, n + 1, h => by
    obtain ⟨k, hk⟩ := exists_take_reduceOption (le_of_succ_le_succ h)
    refine ⟨k + 1, ?_⟩
    rw [take_succ_cons, reduceOption_cons_of_some, length_cons, hk]

theorem HeaderRead.resyncs (h : HeaderRead link) (hfits : link.rxPacket.length ≤ maxPayload + 1) :
    Resyncs link := by
  intro polls hbytes
  obtain ⟨k, hk⟩ := exists_take_reduceOption hbytes
  refine ⟨k, le_of_eq hk, ?_⟩
  rw [(outcomes_reduceOption link _).2]
  apply Pending.idle_after
  rw [hk]
  exact h.pending hfits

theorem HeaderRead.recovers (h : HeaderRead link) (hfits : link.rxPacket.length ≤ maxPayload + 1) :
    Recovers link := by
  intro early later polls hframed hlong hpolls
  have hearly : ∀ p ∈ early, Framed p := fun p hp => hframed p (mem_append_left _ hp)
  have hlater : ∀ p ∈ later, p.length ≤ maxPayload :=
    fun p hp => (hframed p (mem_append_right _ hp)).1
  rw [(outcomes_reduceOption link polls).1, hpolls, flatMap_append, map_append,
    outcomes_append]
  -- the frame ends somewhere in the early packets, and the rest of them is noise
  have hlisten : Listening (feed link ((early.flatMap sendBuf).map some)) := by
    have hidle : (feed link
        (((early.flatMap sendBuf).take (link.rxPacket.length + 2)).map some)).state = .idle := by
      apply Pending.idle_after
      rw [length_take, min_eq_left hlong]
      exact h.pending hfits
    rw [← take_append_drop (link.rxPacket.length + 2) (early.flatMap sendBuf), map_append,
      feed_append]
    exact listening_of_drop hidle hearly
  exact ⟨_, congrArg _ (hlisten.sendBufs hlater).2⟩

theorem HeaderRead.not_resyncs (h : HeaderRead link)
    (hlong : maxPayload + 1 < link.rxPacket.length) : ¬Resyncs link := by
  intro hsync
  obtain ⟨n, -, hidle⟩ := hsync ((List.replicate (link.rxPacket.length + 2) 0).map some)
    (by rw [reduceOption_map_some, length_replicate])
  have hstuck := ((h.stuck hlong).forever
    (((List.replicate (link.rxPacket.length + 2) 0).map some).take n)).2.state
  rw [hidle] at hstuck
  cases hstuck

def emptyPacket : UartPacket := ⟨0, 0, fun _ => 0⟩

theorem emptyPacket_framed : Framed emptyPacket := by decide +kernel

theorem HeaderRead.not_recovers (h : HeaderRead link)
    (hlong : maxPayload + 1 < link.rxPacket.length) : ¬Recovers link := by
  intro hrec
  have hlen : ∀ n, ((List.replicate n emptyPacket).flatMap sendBuf).length = 7 * n := by
    intro n
    induction n with
    | zero => rfl
    | succ n ih =>
      rw [replicate_succ, flatMap_cons, length_append, ih, mul_succ,
        add_comm]
      rfl
  obtain ⟨first, hout⟩ := hrec (List.replicate (link.rxPacket.length + 2) emptyPacket) [emptyPacket]
    ((((List.replicate (link.rxPacket.length + 2) emptyPacket) ++ [emptyPacket]).flatMap
      sendBuf).map some)
    (by
      intro p hp
      rcases List.mem_append.mp hp with hp | hp
      · rw [eq_of_mem_replicate hp]
        exact emptyPacket_framed
      · rw [List.mem_singleton.mp hp]
        exact emptyPacket_framed)
    (by rw [hlen]; omega)
    (reduceOption_map_some _)
  rw [((h.stuck hlong).forever _).1] at hout
  exact append_ne_nil_of_right_ne_nil first (cons_ne_nil _ _) hout.symm

/-- **The receiver resynchronises exactly after the frames whose announced length
its counter can reach.**  `pre` and `b` are any stream up to and including the
header of a frame, from any state of the link. -/
theorem recvFsm_resyncs_iff {link : UartLink} {pre : List (Option Byte)}
    (hpre : (feed link pre).state = .len1) (b : Byte) :
    (Resyncs (feed link (pre ++ [some b])) ↔
        (feed link (pre ++ [some b])).rxPacket.length ≤ maxPayload + 1) ∧
      (Recovers (feed link (pre ++ [some b])) ↔
        (feed link (pre ++ [some b])).rxPacket.length ≤ maxPayload + 1) := by
  have h : HeaderRead (feed link (pre ++ [some b])) := by
    rw [feed_append]
    change HeaderRead (recvByte (feed link pre) b).2
    constructor <;> simp only [recvByte, hpre]
  refine ⟨⟨fun hsync => ?_, h.resyncs⟩, ⟨fun hrec => ?_, h.recovers⟩⟩
  · by_contra hlong
    exact h.not_resyncs (Nat.lt_of_not_le hlong) hsync
  · by_contra hlong
    exact h.not_recovers (Nat.lt_of_not_le hlong) hrec

/-- The bytes `55 aa 00 hi` of a header. -/
def headerStart (hi : Byte) : List (Option Byte) := [some 0x55, some 0xaa, some 0, some hi]

/-- The longest length that is left again: 513 bytes, one more than the buffer. -/
theorem recvFsm_resyncs_513 :
    (feed linkAfterReset (headerStart 2 ++ [some 1])).rxPacket.length = 513 ∧
      Resyncs (feed linkAfterReset (headerStart 2 ++ [some 1])) := by
  have hlen : (feed linkAfterReset (headerStart 2 ++ [some 1])).rxPacket.length = 513 := rfl
  have hpre : (feed linkAfterReset (headerStart 2)).state = .len1 := rfl
  refine ⟨hlen, (recvFsm_resyncs_iff hpre 1).1.mpr ?_⟩
  decide

/-- One byte more and the receiver reads payload for ever. -/
theorem recvFsm_stuck_514 :
    (feed linkAfterReset (headerStart 2 ++ [some 2])).rxPacket.length = 514 ∧
      ∀ polls, (feed linkAfterReset (headerStart 2 ++ [some 2] ++ polls)).state = .payload ∧
        outcomes (feed linkAfterReset (headerStart 2 ++ [some 2])) polls = [] := by
  refine ⟨rfl, fun polls => ?_⟩
  have hstuck : Stuck (feed linkAfterReset (headerStart 2 ++ [some 2])) :=
    ⟨rfl, by decide, by decide⟩
  exact ⟨(hstuck.forever polls).2.state, (hstuck.forever polls).1⟩

end Wrpc.Ertm14
