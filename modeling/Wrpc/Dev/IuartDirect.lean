/-
# The direct-access frames of the instruction UART (`iuart.c`)

The five senders make frames as `iuart_send_message` does, with start characters of their own.
`iuart_da_cpl` sends one start character and counts another, so the parser refuses every frame of
it.

The size is not escaped.  A size of 36 is the escape character: the parser takes it for the first
half of an escape and keeps it as the previous character until an escaped byte resolves it, and so
takes an end or start character among the bytes in between for the end or the start of a packet.
`Escapes` says on the bytes of such a frame when it gets through.
-/
import Wrpc.Dev.IuartRoundTrip

namespace Wrpc.Iuart

open List

/-- A frame with start character `start`; `counted` is the one in the checksum. -/
def directFrame (start counted : Byte) (size : Option Nat) (data : List Byte) : List Byte :=
  let csum := escChar.zeroExtend 32 + counted.zeroExtend 32 + escChar.zeroExtend 32 +
    endChar.zeroExtend 32 + (size.map (BitVec.ofNat 32)).getD 0
  let st := data.foldl sendEscaped
    ([escChar, start] ++ (size.map (BitVec.ofNat 8)).toList, csum)
  st.1 ++ [escChar, endChar, st.2.truncate 8]

/-- `(uint8_t)(word >> (i * 8))`, for `i` from 0 to 3 -/
def wordBytes (word : BitVec 32) : List Byte :=
  (List.range 4).map fun i => (word >>> (i * 8)).truncate 8

/-- `iuart_da_write_ctrl` -/
def daWriteCtrl (val : Byte) : List Byte := directFrame 0xf4 0xf4 none [val]

/-- `iuart_da_read_ctrl` -/
def daReadCtrl : List Byte := directFrame 0xf5 0xf5 none []

/-- `iuart_da_write` -/
def daWrite (buf : List Byte) (addr : BitVec 32) : List Byte :=
  directFrame 0xf1 0xf1 (some buf.length) (wordBytes addr ++ buf)

/-- `iuart_da_read` -/
def daRead (addr : BitVec 32) (size : Nat) : List Byte :=
  directFrame 0xf2 0xf2 (some size) (wordBytes addr)

/-- `iuart_da_cpl`, which sends `START_READ_CHAR_VAL` and counts `START_CPL_CHAR_VAL`. -/
def daCpl (cpldata : BitVec 32) : List Byte := directFrame 0xf2 0xf3 (some 4) (wordBytes cpldata)

/-- What the parser returns for the bytes of a frame, when it is not 0. -/
def recognised (s : Parser) (frame : List Byte) : List Byte :=
  (Run.emits step delivery s frame).map Delivery.code

/-- One packet with this start character, at the last byte of the frame. -/
def RecognisedAs (s : Parser) (frame : List Byte) (start : Byte) : Prop :=
  recognised s frame.dropLast = [] ∧ recognised s frame = [start]

/-- Bytes while the size, an escape character, is the previous character: the first that is escaped
resolves it, and a start character makes a packet of the rest, whose checksum is right if what is
left out sums up to 0. -/
def Passes (start : Byte) : Byte → List Byte → Prop
  | _, [] => True
  | sum, b :: data =>
    if b = escChar then True
    else if b &&& startMask = startMask then b = start ∧ sum = escChar
    else b ≠ endChar ∧ Passes start (sum + b) data

/-- The bytes behind a size of 36, with the checksum so far.  Escaped bytes directly behind it go on
with the escape, and it must not be all of them. -/
def Escapes (start : Byte) : Byte → List Byte → Prop
  | _, [] => False
  | sum, b :: data =>
    if b = escChar then Escapes start (sum + escChar + escChar) data else Passes start
      sum (b :: data)

instance decidablePasses (start : Byte) : ∀ sum data, Decidable (Passes start sum data)
  | _, [] => isTrue trivial
  | sum, b :: data =>
    have := decidablePasses start (sum + b) data
    inferInstanceAs (Decidable (if b = escChar then True
      else if b &&& startMask = startMask then b = start ∧ sum = escChar
      else b ≠ endChar ∧ Passes start (sum + b) data))

instance decidableEscapes (start : Byte) : ∀ sum data, Decidable (Escapes start sum data)
  | _, [] => isFalse id
  | sum, b :: data =>
    have := decidableEscapes start (sum + escChar + escChar) data
    inferInstanceAs (Decidable (if b = escChar then Escapes start (sum + escChar + escChar) data
      else Passes start sum (b :: data)))

/-! ## Inside a frame

`Reading` is all that recognition depends on; what is stored does not matter. -/

/-- Inside a frame, with `n` bytes at most in the buffer. -/
structure Reading (s : Parser) (start : Byte) (sum : BitVec 32) (n : Nat) : Prop where
  ending : s.ending = false
  pchar : s.pchar ≠ escChar
  nesc : s.nesc % 2 = 0
  schar : s.schar = start
  csum : s.csum = sum
  bidx : s.bidx ≤ n

section

variable {s : Parser} {start b : Byte} {sum : BitVec 32} {n : Nat}

theorem reading_storeByte (he : s.ending = false) (hp : b = escChar ∨ s.pchar ≠ escChar)
    (hn : s.nesc % 2 = 0) (hs : s.schar = start) (hsum : s.csum = sum) (hbidx : s.bidx ≤ n)
    (hroom : n + 1 < maxSize) :
    Reading (storeByte s b) start (sum + b.zeroExtend 32) (n + 1) := by
  have hnext : (if s.isPayload then s.bidx + 1 else s.bidx) ≤ n + 1 := by split <;> omega
  unfold storeByte
  rw [if_neg (by omega)]
  refine ⟨he, ?_, hn, hs, by rw [hsum], hnext⟩
  simp only
  split
  · decide
  · exact hp.resolve_left (by assumption)

theorem Reading.escaped (h : Reading s start sum n) (b : Byte) (hroom : n + 1 < maxSize) :
    ∃ s', Silent s (escaped b) s' ∧ Reading s' start (sum + escapedSum b) (n + 1) := by
  obtain ⟨hend, hpchar, hnesc, hschar, hcsum, hbidx⟩ := h
  refine ⟨_, silent_escaped hend hpchar hnesc b, ?_⟩
  unfold readied escapedSum
  split
  case isTrue hb =>
    rw [hb, ← BitVec.add_assoc, ← hcsum]
    exact reading_storeByte hend (.inl rfl) (by simp only [counted, opened]; omega) hschar rfl
      hbidx hroom
  case isFalse => exact reading_storeByte hend (.inr hpchar) rfl hschar hcsum hbidx hroom

theorem Reading.payload : ∀ {m : List Byte} {s : Parser} {sum : BitVec 32} {n : Nat},
    Reading s start sum n → n + m.length < maxSize →
    ∃ s', Silent s (m.flatMap Iuart.escaped) s' ∧
      Reading s' start (sum + (m.map escapedSum).sum) (n + m.length)
  | [], s, _, _, h, _ => ⟨s, silent_nil s, by simpa using h⟩
  | b :: m, s, sum, n, h, hroom => by
    rw [length_cons] at hroom ⊢
    obtain ⟨s₁, hs₁, h₁⟩ := h.escaped b (by omega)
    obtain ⟨s₂, hs₂, h₂⟩ := h₁.payload (m := m) (by omega)
    refine ⟨s₂, hs₁.append hs₂, ?_⟩
    rw [map_cons, sum_cons, ← BitVec.add_assoc, Nat.add_comm m.length, ← Nat.add_assoc]
    exact h₂

theorem start_ne {x : Byte} (hstart : start &&& startMask = startMask)
    (hx : x &&& startMask ≠ startMask) : start ≠ x := by
  rintro rfl
  exact hx hstart

theorem reading_start (rxbuf : Mem) (noc csize : Nat) (hstart : start &&& startMask = startMask) :
    ∃ s', Silent (Parser.init rxbuf noc csize) [escChar, start] s' ∧
      Reading s' start (escChar.zeroExtend 32 + start.zeroExtend 32) 0 := by
  have hne : start ≠ escChar := start_ne hstart (by decide)
  have hopen := parse_esc_open (s := Parser.init rxbuf noc csize) rfl rfl
  have hparse : parseRawByte (opened (Parser.init rxbuf noc csize)) start =
      (0, { opened (Parser.init rxbuf noc csize) with
        nesc := 0, ridx := 2, bidx := 0, ending := false, schar := start, pchar := start,
        csum := escChar.zeroExtend 32 + start.zeroExtend 32 }) := by
    simp [parseRawByte, opened, rxdStart, hstart, hne]
  exact ⟨_, silent_cons hopen (silent_cons hparse (silent_nil _)),
    rfl, hne, rfl, rfl, rfl, Nat.le_refl 0⟩

/-- The bytes of a frame from its data on. -/
def dataStream (data : List Byte) (c : Byte) : List Byte :=
  data.flatMap escaped ++ [escChar, endChar, c]

/-- The checksum at the end of a frame, with `sum` up to its data. -/
def closingByte (sum : BitVec 32) (data : List Byte) : Byte :=
  (sum + (data.map escapedSum).sum + escChar.zeroExtend 32 + endChar.zeroExtend 32).truncate 8

theorem closingByte_cons (sum : BitVec 32) (b : Byte) (data : List Byte) :
    closingByte sum (b :: data) = closingByte (sum + escapedSum b) data := by
  rw [closingByte, closingByte, map_cons, sum_cons, ← BitVec.add_assoc]

theorem closingByte_plain (hb : b ≠ escChar) (data : List Byte) :
    closingByte sum (b :: data) = closingByte (sum + b.zeroExtend 32) data := by
  rw [closingByte_cons, escapedSum, if_neg hb]

theorem dataStream_ne_nil (data : List Byte) (c : Byte) : dataStream data c ≠ [] := by
  simp [dataStream]

theorem dataStream_cons (b : Byte) (data : List Byte) (c : Byte) :
    dataStream (b :: data) c = escaped b ++ dataStream data c := by
  simp [dataStream]

theorem Silent.recognisedAs_append {s' : Parser} {as bs : List Byte} {code : Byte}
    (h : Silent s as s') (hbs : bs ≠ []) :
    RecognisedAs s (as ++ bs) code ↔ RecognisedAs s' bs code := by
  rw [RecognisedAs, RecognisedAs, dropLast_append_of_ne_nil hbs]
  simp only [recognised, h.emits_append]

theorem RecognisedAs.tail {bs : List Byte} {code : Byte} (h : RecognisedAs s (b :: bs) code)
    (hbs : bs ≠ []) : RecognisedAs (step s b) bs code := by
  obtain ⟨hbefore, hall⟩ := h
  rw [dropLast_cons_of_ne_nil hbs] at hbefore
  simp only [recognised, Run.emits, map_append, append_eq_nil_iff] at hbefore hall
  rw [hbefore.1, nil_append] at hall
  exact ⟨hbefore.2, hall⟩

theorem not_recognisedAs_of_unended {code : Byte} (h : s.ending = false) :
    ¬RecognisedAs s [b] code := by
  rintro ⟨-, hlast⟩
  have hnone : delivery s b = [] := eq_nil_iff_forall_not_mem.2 (not_mem_delivery h b)
  simp [recognised, Run.emits, hnone] at hlast

/-- The byte behind an end character is compared with the checksum, and no packet is open then. -/
theorem parse_closing (s : Parser) (csum : BitVec 32) (c : Byte) :
    parseRawByte (closing s csum) c =
      let s' := { closing s csum with
        ridx := 0, ending := false, csum := 0, pchar := ~~~escChar, schar := ~~~startMask,
        nesc := if c = escChar then 1 else 0 }
      if c = csum.truncate 8 then (s.schar, { s' with noc := s.bidx })
      else (0, { s' with noc := 0 }) := by
  simp only [parseRawByte, rxdStart, rxdEnd, closing, show ¬endChar = escChar by decide, false_and,
    decide_false, Bool.false_eq_true, if_false, if_true]
  rfl

theorem trailer_iff (hend : s.ending = false) (hnesc : s.nesc % 2 = 0) (hschar : s.schar = start)
    (hcsum : s.csum = sum) (hstart : start ≠ 0) (c code : Byte) :
    RecognisedAs s [escChar, endChar, c] code ↔
      code = start ∧ c = (sum + escChar.zeroExtend 32 + endChar.zeroExtend 32).truncate 8 := by
  have hsil := silent_end hend hnesc
  rw [hcsum] at hsil
  rw [show [escChar, endChar, c] = [escChar, endChar] ++ [c] from rfl,
    hsil.recognisedAs_append (by simp)]
  simp only [RecognisedAs, recognised, dropLast_singleton, Run.emits, delivery, parse_closing,
    append_nil, map_nil, true_and]
  by_cases hc : c = (sum + escChar.zeroExtend 32 + endChar.zeroExtend 32).truncate 8
  · simp only [if_pos hc, opened, hschar, hstart, ne_eq, not_false_eq_true, if_true,
      map_cons, map_nil, and_iff_left hc]
    exact singleton_inj.trans eq_comm
  · simp only [hc, and_false, iff_false]
    simp

/-- Inside a frame as it should be, the code and the checksum decide. -/
theorem Reading.frame_iff (h : Reading s start sum n) (hstart : start ≠ 0) {m : List Byte}
    (hroom : n + m.length < maxSize) (c code : Byte) :
    RecognisedAs s (dataStream m c) code ↔ code = start ∧ c = closingByte sum m := by
  obtain ⟨s', hs', h'⟩ := h.payload hroom
  rw [dataStream, hs'.recognisedAs_append (by simp)]
  exact trailer_iff h'.ending h'.nesc h'.schar h'.csum hstart c code

/-! ## Behind a size of 36 -/

/-- The escape character is still the previous one. -/
structure Stuck (s : Parser) (start : Byte) (sum : BitVec 32) (n : Nat) : Prop where
  ending : s.ending = false
  pchar : s.pchar = escChar
  schar : s.schar = start
  csum : s.csum = sum
  bidx : s.bidx ≤ n

theorem Reading.stuck (h : Reading s start sum n) :
    Silent s [escChar] (opened s) ∧
      Stuck (opened s) start (sum + escChar.zeroExtend 32) n ∧ (opened s).nesc % 2 = 1 := by
  have hnesc := h.nesc
  refine ⟨silent_cons (parse_esc_open h.ending h.nesc) (silent_nil _),
    ⟨h.ending, rfl, h.schar, by rw [← h.csum]; rfl, h.bidx⟩, ?_⟩
  simp only [opened]
  omega

theorem Stuck.plain (h : Stuck s start sum n) (hb : b ≠ escChar)
    (hstart : ¬b &&& startMask = startMask) (hend : b ≠ endChar) (hroom : n + 1 < maxSize) :
    ∃ s', Silent s [b] s' ∧ Stuck s' start (sum + b.zeroExtend 32) (n + 1) ∧ s'.nesc % 2 = 0 := by
  obtain ⟨hending, hpchar, hschar, hcsum, hbidx⟩ := h
  have hparse : parseRawByte s b = (0, storeByte { s with nesc := 0 } b) := by
    simp [parseRawByte, rxdStart, rxdEnd, hstart, hend, hending, hb]
  refine ⟨_, silent_cons hparse (silent_nil _), ?_⟩
  have hnext : (if ({ s with nesc := 0 } : Parser).isPayload then s.bidx + 1 else s.bidx) ≤ n +
      1 := by
    split <;> omega
  unfold storeByte
  rw [if_neg (by dsimp only at hnext ⊢; omega)]
  exact ⟨⟨hending, (if_neg hb).trans hpchar, hschar, by rw [← hcsum], hnext⟩, rfl⟩

theorem Stuck.restart (h : Stuck s start sum n) (hb : b &&& startMask = startMask) :
    ∃ s', Silent s [b] s' ∧ Reading s' b (escChar.zeroExtend 32 + b.zeroExtend 32) 0 := by
  have hne : b ≠ escChar := start_ne hb (by decide)
  have hparse : parseRawByte s b = (0, { s with
      nesc := 0, ridx := 2, bidx := 0, ending := false, schar := b, pchar := b,
      csum := escChar.zeroExtend 32 + b.zeroExtend 32 }) := by
    simp [parseRawByte, rxdStart, hb, hne, h.pchar]
  exact ⟨_, silent_cons hparse (silent_nil _), rfl, hne, rfl, rfl, rfl, Nat.le_refl 0⟩

theorem Stuck.pair (h : Stuck s start sum n) (hroom : n + 1 < maxSize) :
    ∃ s', Silent s (escaped escChar) s' ∧
      (s.nesc % 2 = 0 → Reading s' start (sum + escapedSum escChar) (n + 1)) ∧
      (s.nesc % 2 = 1 → Stuck s' start (sum + escapedSum escChar) (n + 1) ∧ s'.nesc % 2 = 1) := by
  obtain ⟨hending, hpchar, hschar, rfl, hbidx⟩ := h
  have hsum : s.csum + escapedSum escChar =
      s.csum + escChar.zeroExtend 32 + escChar.zeroExtend 32 := by
    rw [BitVec.add_assoc]
    rfl
  rw [hsum]
  rcases Nat.mod_two_eq_zero_or_one s.nesc with heven | hodd
  · have hclose := parse_esc_close (s := opened s) hending (by simp only [opened]; omega)
    refine ⟨_, silent_cons (parse_esc_open hending heven) (silent_cons hclose (silent_nil _)),
      fun _ => ?_, fun hodd => absurd (heven.symm.trans hodd) (by decide)⟩
    exact reading_storeByte hending (.inl rfl) (by simp only [counted, opened]; omega) hschar rfl
      hbidx hroom
  · have hread : Reading (storeByte (counted s) escChar) start (s.csum + escChar.zeroExtend 32)
        (n + 1) :=
      reading_storeByte hending (.inl rfl) (by simp only [counted]; omega) hschar rfl hbidx hroom
    obtain ⟨hsil, hstuck, hodd'⟩ := hread.stuck
    exact ⟨_, silent_cons (parse_esc_close hending hodd) hsil,
      fun heven => absurd (heven.symm.trans hodd) (by decide), fun _ => ⟨hstuck, hodd'⟩⟩

/-- An end character ends the packet: the next byte is compared with the checksum, and then no
packet is open. -/
theorem Stuck.ended (h : Stuck s start sum n) (hstart : start &&& startMask = startMask)
    {data : List Byte} (hroom : n + data.length + 1 < maxSize) (c : Byte) :
    ¬RecognisedAs s (endChar :: dataStream data c) start := by
  intro hrec
  have hstep : step s endChar = closing s (sum + endChar.zeroExtend 32) := by
    obtain ⟨hending, hpchar, hschar, rfl, hbidx⟩ := h
    simp [step, parseRawByte, closing, rxdStart, rxdEnd, hpchar, escChar, endChar, startMask]
  have hnone : start ≠ ~~~startMask := start_ne hstart (by decide)
  replace hrec := hrec.tail (dataStream_ne_nil _ _)
  rw [hstep] at hrec
  generalize hs₁ : closing s (sum + endChar.zeroExtend 32) = s₁ at hrec
  have hafter (x : Byte) : (step s₁ x).ending = false ∧ (step s₁ x).pchar = ~~~escChar ∧
      (step s₁ x).schar = ~~~startMask ∧ (step s₁ x).csum = 0 ∧ (step s₁ x).bidx ≤ n ∧
      (step s₁ x).nesc = if x = escChar then 1 else 0 := by
    rw [← hs₁, step, parse_closing]
    by_cases hx : x = (sum + endChar.zeroExtend 32).truncate 8
    · rw [if_pos hx]
      exact ⟨rfl, rfl, rfl, rfl, h.bidx, rfl⟩
    · rw [if_neg hx]
      exact ⟨rfl, rfl, rfl, rfl, h.bidx, rfl⟩
  cases data with
  | nil =>
    -- the end of the frame is taken for data
    obtain ⟨hending, hpchar, -⟩ := hafter escChar
    have hpne : (step s₁ escChar).pchar ≠ escChar := by rw [hpchar]; decide
    replace hrec := (hrec.tail (by simp)).tail (by simp)
    rw [step, parse_plain hpne hending (by decide)] at hrec
    exact not_recognisedAs_of_unended
      (storeByte_quiet (s := { step s₁ escChar with nesc := 0 }) hending (.inr hpne)).1 hrec
  | cons b data =>
    rw [length_cons] at hroom
    rw [dataStream_cons] at hrec
    by_cases hb : b = escChar
    · obtain ⟨hending, hpchar, hschar, hcsum, hbidx, hnesc⟩ := hafter escChar
      rw [if_pos rfl] at hnesc
      rw [hb, show escaped escChar = [escChar, escChar] from rfl, cons_append, cons_append,
        nil_append] at hrec
      replace hrec := (hrec.tail (by simp)).tail (dataStream_ne_nil _ _)
      rw [step, parse_esc_close hending (by rw [hnesc])] at hrec
      have hread := reading_storeByte (s := counted (step s₁ escChar)) hending (.inl rfl)
        (by simp only [counted, hnesc]) hschar rfl hbidx (by omega)
      exact hnone ((hread.frame_iff (by decide) (by omega) c start).1 hrec).1
    · obtain ⟨hending, hpchar, hschar, hcsum, hbidx, hnesc⟩ := hafter b
      rw [if_neg hb] at hnesc
      rw [escaped, if_neg hb, cons_append, nil_append] at hrec
      replace hrec := hrec.tail (dataStream_ne_nil _ _)
      have hread : Reading (step s₁ b) (~~~startMask) 0 n :=
        ⟨hending, by rw [hpchar]; decide, by rw [hnesc], hschar, hcsum, hbidx⟩
      exact hnone ((hread.frame_iff (by decide) (by omega) c start).1 hrec).1

theorem truncate_add_byte (x : BitVec 32) (b : Byte) :
    (x + b.zeroExtend 32).truncate 8 = x.truncate 8 + b := by
  simp only [BitVec.truncate_eq_setWidth, BitVec.setWidth_add _ _ (by decide : 8 ≤ 32),
    BitVec.setWidth_setWidth_of_le _ (by decide : 8 ≤ 32), BitVec.setWidth_eq]

theorem checksum_cancel (x y z w : BitVec 32) :
    (x + y + z + w).truncate 8 = (escChar.zeroExtend 32 + y + z + w).truncate 8 ↔
      x.truncate 8 = escChar := by
  simp only [BitVec.truncate_eq_setWidth, BitVec.setWidth_add _ _ (by decide : 8 ≤ 32)]
  rw [BitVec.add_left_inj, BitVec.add_left_inj, BitVec.add_left_inj]
  rfl

/-- A byte that is not escaped, when it is known what happens to those behind it. -/
theorem Stuck.byte_iff (h : Stuck s start sum n) (hstart : start &&& startMask = startMask)
    (hb : b ≠ escChar) {data : List Byte} (hroom : n + data.length + 1 < maxSize) {c : Byte}
    (hc : c = closingByte sum (b :: data))
    (hrest : ∀ s', Stuck s' start (sum + b.zeroExtend 32) (n + 1) → s'.nesc % 2 = 0 →
      (RecognisedAs s' (dataStream data c) start ↔ Passes start (sum.truncate 8 + b) data)) :
    RecognisedAs s (dataStream (b :: data) c) start ↔
      Passes start (sum.truncate 8) (b :: data) := by
  rw [dataStream_cons, escaped, if_neg hb, Passes, if_neg hb]
  by_cases hstarts : b &&& startMask = startMask
  · obtain ⟨s', hsil, hread⟩ := h.restart hstarts
    rw [if_pos hstarts, hsil.recognisedAs_append (dataStream_ne_nil _ _),
      hread.frame_iff (start_ne hstarts (by decide)) (by omega), hc, closingByte_plain hb,
      closingByte, closingByte, BitVec.add_assoc _ (escChar.zeroExtend 32),
      BitVec.add_assoc _ (escChar.zeroExtend 32), checksum_cancel, eq_comm (a := start)]
  rw [if_neg hstarts]
  by_cases hends : b = endChar
  · subst hends
    exact iff_of_false (h.ended hstart hroom c) fun hp => hp.1 rfl
  · obtain ⟨s', hsil, hstuck, heven⟩ := h.plain hb hstarts hends (by omega)
    rw [hsil.recognisedAs_append (dataStream_ne_nil _ _), hrest s' hstuck heven,
      and_iff_right hends]

theorem Stuck.passes_iff (hstart : start &&& startMask = startMask) :
    ∀ {data : List Byte} {s : Parser} {sum : BitVec 32} {n : Nat} {c : Byte},
      Stuck s start sum n → s.nesc % 2 = 0 → n + data.length < maxSize →
      c = closingByte sum data →
      (RecognisedAs s (dataStream data c) start ↔ Passes start (sum.truncate 8) data)
  | [], s, sum, n, c, h, hn, _, hc => by
    rw [dataStream, flatMap_nil, nil_append,
      trailer_iff h.ending hn h.schar h.csum (start_ne hstart (by decide))]
    exact iff_of_true ⟨rfl, by simpa [closingByte] using hc⟩ trivial
  | b :: data, s, sum, n, c, h, hn, hroom, hc => by
    rw [length_cons] at hroom
    by_cases hb : b = escChar
    · subst hb
      obtain ⟨s', hsil, hread, -⟩ := h.pair (by omega)
      rw [dataStream_cons, hsil.recognisedAs_append (dataStream_ne_nil _ _),
        (hread hn).frame_iff (start_ne hstart (by decide)) (by omega), Passes, if_pos rfl]
      rw [closingByte_cons] at hc
      exact iff_of_true ⟨rfl, hc⟩ trivial
    · refine h.byte_iff hstart hb (by omega) hc fun s' hs' hn' => ?_
      rw [closingByte_plain hb] at hc
      rw [Stuck.passes_iff hstart hs' hn' (by omega) hc, truncate_add_byte]

theorem Stuck.escapes_iff (hstart : start &&& startMask = startMask) :
    ∀ {data : List Byte} {s : Parser} {sum : BitVec 32} {n : Nat} {c : Byte},
      Stuck s start sum n → s.nesc % 2 = 1 → n + data.length + 1 < maxSize →
      c = closingByte sum data →
      (RecognisedAs s (dataStream data c) start ↔ Escapes start (sum.truncate 8) data)
  | [], s, sum, n, c, h, hn, hroom, _ => by
    -- the escape of the end character is the second half of another one
    refine iff_of_false (fun hrec => ?_) id
    have hread := reading_storeByte (s := counted s) (b := escChar) h.ending (.inl rfl)
      (by simp only [counted]; omega) h.schar rfl h.bidx (by simpa using hroom)
    replace hrec := hrec.tail (by simp)
    rw [step, parse_esc_close h.ending hn] at hrec
    replace hrec := hrec.tail (by simp)
    rw [step, parse_plain hread.pchar hread.ending (by decide)] at hrec
    exact not_recognisedAs_of_unended (storeByte_quiet
      (s := { storeByte (counted s) escChar with nesc := 0 }) hread.ending (.inr hread.pchar)).1
        hrec
  | b :: data, s, sum, n, c, h, hn, hroom, hc => by
    rw [length_cons] at hroom
    by_cases hb : b = escChar
    · subst hb
      obtain ⟨s', hsil, -, hstuck⟩ := h.pair (by omega)
      obtain ⟨hstuck, hodd⟩ := hstuck hn
      rw [closingByte_cons] at hc
      rw [dataStream_cons, hsil.recognisedAs_append (dataStream_ne_nil _ _),
        Stuck.escapes_iff hstart hstuck hodd (by omega) hc, Escapes, if_pos rfl, escapedSum,
        if_pos rfl, ← BitVec.add_assoc, truncate_add_byte, truncate_add_byte]
    · rw [h.byte_iff hstart hb (by omega) hc fun s' hs' hn' => ?_, Escapes, if_neg hb]
      rw [closingByte_plain hb] at hc
      rw [Stuck.passes_iff hstart hs' hn' (by omega) hc, truncate_add_byte]

end

/-! ## The five senders -/

theorem directFrame_eq (start counted : Byte) {size : Option Nat} (data : List Byte)
    (hsize : ∀ n ∈ size, n ≤ 120 ∧ n ≠ 36) :
    directFrame start counted size data = [escChar, start] ++
      dataStream ((size.map (BitVec.ofNat 8)).toList ++ data)
        (closingByte (escChar.zeroExtend 32 + counted.zeroExtend 32)
          ((size.map (BitVec.ofNat 8)).toList ++ data)) := by
  cases size with
  | none =>
    simp only [directFrame, foldl_sendEscaped, Option.map_none, Option.getD_none,
      Option.toList_none, append_nil, nil_append, dataStream, closingByte, append_assoc]
    congr 5
    ac_rfl
  | some n =>
    obtain ⟨hle, hne⟩ := hsize n rfl
    have hnat : (BitVec.ofNat 8 n).toNat = n := by rw [BitVec.toNat_ofNat]; omega
    have hesc : BitVec.ofNat 8 n ≠ escChar := fun h => hne (by rw [← hnat, h]; rfl)
    have hwide : (BitVec.ofNat 8 n).zeroExtend 32 = BitVec.ofNat 32 n := by
      apply BitVec.eq_of_toNat_eq
      simp
      omega
    simp only [directFrame, foldl_sendEscaped, Option.map_some, Option.getD_some,
      Option.toList_some, cons_append, nil_append, flatMap_cons, map_cons, sum_cons, escaped,
      escapedSum, if_neg hesc, hwide, dataStream, closingByte]
    congr 7
    ac_rfl

theorem directFrame_recognised (rxbuf : Mem) (noc csize : Nat) {start counted : Byte}
    {size : Option Nat} {data : List Byte} (hstart : start &&& startMask = startMask)
    (hsize : ∀ n ∈ size, n ≤ 120 ∧ n ≠ 36) (hdata : data.length ≤ 124) (code : Byte) :
    RecognisedAs (Parser.init rxbuf noc csize) (directFrame start counted size data) code ↔
      code = start ∧ counted = start := by
  obtain ⟨s₁, hs₁, h₁⟩ := reading_start rxbuf noc csize hstart
  have hne : start ≠ 0 := start_ne hstart (by decide)
  rw [directFrame_eq start counted data hsize,
    hs₁.recognisedAs_append (dataStream_ne_nil _ _), h₁.frame_iff hne (by
      rw [length_append, maxSize]
      cases size <;> simp <;> omega)]
  refine and_congr_right fun _ => ?_
  simp [closingByte, BitVec.setWidth_add, BitVec.add_assoc]

theorem directFrame_size36 (rxbuf : Mem) (noc csize : Nat) {start : Byte} {data : List Byte}
    (hstart : start &&& startMask = startMask) (hdata : data.length ≤ 124) :
    RecognisedAs (Parser.init rxbuf noc csize) (directFrame start start (some 36) data) start ↔
      Escapes start (escChar + start + escChar) data := by
  obtain ⟨s₁, hs₁, h₁⟩ := reading_start rxbuf noc csize hstart
  obtain ⟨hsize, hstuck, hodd⟩ := h₁.stuck
  have hframe : directFrame start start (some 36) data = [escChar, start] ++ [escChar] ++
      dataStream data (closingByte (escChar.zeroExtend 32 + start.zeroExtend 32 +
        escChar.zeroExtend 32) data) := by
    simp only [directFrame, foldl_sendEscaped, Option.map_some, Option.getD_some,
      Option.toList_some, dataStream, closingByte, cons_append, nil_append]
    congr 7
    rw [show (36#32 : BitVec 32) = escChar.zeroExtend 32 from rfl]
    ac_rfl
  rw [hframe, (hs₁.append hsize).recognisedAs_append (dataStream_ne_nil _ _),
    hstuck.escapes_iff hstart hodd (by rw [maxSize]; omega) rfl, truncate_add_byte,
    truncate_add_byte]
  rfl

theorem directFrame_sized (rxbuf : Mem) (noc csize : Nat) {start : Byte} {data : List Byte}
    (hstart : start &&& startMask = startMask) (hdata : data.length ≤ 124) {size : Nat}
    (hsize : size ≤ 120) :
    RecognisedAs (Parser.init rxbuf noc csize) (directFrame start start (some size) data) start ↔
      (size = 36 → Escapes start (escChar + start + escChar) data) := by
  by_cases h : size = 36
  · rw [h, directFrame_size36 rxbuf noc csize hstart hdata, forall_prop_of_true rfl]
  · refine iff_of_true ?_ fun h' => absurd h' h
    exact (directFrame_recognised rxbuf noc csize hstart (by simp; omega) hdata _).2 ⟨rfl, rfl⟩

/-- **The direct-access frames.**  The two for the control register are always recognised, those of
`iuart_da_write` and `iuart_da_read` unless the size is 36 and the bytes behind it do not get
through, those of `iuart_da_cpl` never. -/
theorem direct_recognised_iff (rxbuf : Mem) (noc csize : Nat) (val : Byte)
    (addr cpldata : BitVec 32) (buf : List Byte) (size : Nat) (hbuf : buf.length ≤ 120)
    (hsize : size ≤ 120) :
    let R := RecognisedAs (Parser.init rxbuf noc csize)
    R (daWriteCtrl val) 0xf4 ∧ R daReadCtrl 0xf5 ∧
      (R (daWrite buf addr) 0xf1 ↔
        (buf.length = 36 → Escapes 0xf1 (escChar + 0xf1 + escChar) (wordBytes addr ++ buf))) ∧
      (R (daRead addr size) 0xf2 ↔
        (size = 36 → Escapes 0xf2 (escChar + 0xf2 + escChar) (wordBytes addr))) ∧
      ∀ code, ¬R (daCpl cpldata) code := by
  have hlength (word : BitVec 32) : (wordBytes word).length = 4 := by simp [wordBytes]
  refine ⟨?_, ?_, ?_, ?_, fun code hcode => ?_⟩
  · exact (directFrame_recognised rxbuf noc csize (by decide) (by simp) (by simp) _).2 ⟨rfl, rfl⟩
  · exact (directFrame_recognised rxbuf noc csize (by decide) (by simp) (by simp) _).2 ⟨rfl, rfl⟩
  · refine directFrame_sized rxbuf noc csize (by decide) ?_ hbuf
    rw [length_append, hlength]
    omega
  · exact directFrame_sized rxbuf noc csize (by decide) (by rw [hlength]; omega) hsize
  · have := (directFrame_recognised rxbuf noc csize (by decide) (by simp) (by rw [hlength]; omega)
      code).1 hcode
    exact absurd this.2 (by decide)

/-- A write whose bytes are all special, and a read of 36 bytes that is recognised all the same. -/
theorem direct_recognised_iff_special :
    RecognisedAs (Parser.init (fun _ => 0) 0 0) (daWrite [0x24, 0x45, 0xf0] 0x24#32) 0xf1 ∧
      RecognisedAs (Parser.init (fun _ => 0) 0 0) (daRead 0x1000#32 36) 0xf2 :=
  let h := direct_recognised_iff (fun _ => 0) 0 0 0
  ⟨(h 0x24#32 0 [0x24, 0x45, 0xf0] 4 (by decide) (by decide)).2.2.1.2 (by decide),
    (h 0x1000#32 0 [] 36 (by decide) (by decide)).2.2.2.1.2 (by decide)⟩

/-- A completion is refused, and so is a read of 36 bytes at an address that begins with the end
character. -/
theorem direct_refused : recognised (Parser.init (fun _ => 0) 0 0) (daCpl 0) = [] ∧
      recognised (Parser.init (fun _ => 0) 0 0) (daRead 0x45#32 36) = [] := by
  decide

end Wrpc.Iuart
