/-
# Which messages survive the instruction UART

Two bytes of a frame are sent unescaped, and the parser counts escapes across
everything, so two values of these bytes break it:

    size 0x24       the size byte is taken for an escape: the size is never stashed, and the
                    first payload byte may be read as a start or an end
    checksum 0x24   the escape count is odd when the next frame starts: its own `ESC` is
                    taken for the second of a pair, and its `START` is missed

The proof of "only if" needs a parser in disorder: `Garbled` says what it can
no longer deliver, and survives any payload.
-/
import Mathlib.Data.BitVec
import Wrpc.Dev.Iuart

namespace Wrpc.Iuart

open List Run

/-! ## The bytes of a message -/

def escaped (ch : Byte) : List Byte := if ch = escChar then [escChar, escChar] else [ch]

def escapedSum (ch : Byte) : BitVec 32 :=
  if ch = escChar then escChar.zeroExtend 32 + escChar.zeroExtend 32 else ch.zeroExtend 32

def checksumOf (m : List Byte) : BitVec 32 :=
  escChar.zeroExtend 32 + startInsn.zeroExtend 32 + (BitVec.ofNat 8 m.length).zeroExtend 32 +
    (m.map escapedSum).sum + escChar.zeroExtend 32 + endChar.zeroExtend 32

def checksum (m : List Byte) : Byte := (checksumOf m).truncate 8

variable {s : Parser} {m : List Byte} {b : Byte} {len k n : Nat}

theorem sendEscaped_eq (st : List Byte × BitVec 32) (ch : Byte) :
    sendEscaped st ch = (st.1 ++ escaped ch, st.2 + escapedSum ch) := by
  unfold sendEscaped escaped escapedSum
  by_cases h : ch = escChar
  · simp [h, BitVec.add_assoc]
  · simp [h]

theorem foldl_sendEscaped :
    ∀ (m : List Byte) (st : List Byte × BitVec 32),
      m.foldl sendEscaped st = (st.1 ++ m.flatMap escaped, st.2 + (m.map escapedSum).sum)
  | [], st => by simp
  | ch :: m, st => by
    rw [foldl_cons, foldl_sendEscaped m, sendEscaped_eq]
    simp [BitVec.add_assoc]

theorem sendMessage_eq (m : List Byte) :
    sendMessage m = [escChar, startInsn, BitVec.ofNat 8 m.length] ++ m.flatMap escaped ++
      [escChar, endChar, checksum m] := by
  simp only [sendMessage, foldl_sendEscaped, checksum, checksumOf]
  congr 5
  ac_rfl

/-! ## One byte -/

section Steps

variable {s : Parser}

theorem parse_plain {b : Byte} (hp : s.pchar ≠ escChar) (he : s.ending = false)
    (hb : b ≠ escChar) : parseRawByte s b = (0, storeByte { s with nesc := 0 } b) := by
  simp [parseRawByte, rxdStart, rxdEnd, hp, he, hb]

def counted (s : Parser) : Parser := { s with nesc := (s.nesc + 1) % 256 }

/-- The parser after an `ESC` that opens an escape. -/
def opened (s : Parser) : Parser :=
  { s with nesc := (s.nesc + 1) % 256, pchar := escChar,
           csum := s.csum + escChar.zeroExtend 32, ridx := incr s.ridx }

theorem parse_esc (he : s.ending = false) :
    parseRawByte s escChar =
      if (s.nesc + 1) % 256 % 2 = 1 then (0, opened s)
      else (0, storeByte (counted s) escChar) := by
  have hstart : rxdStart escChar s.pchar = false := by simp [rxdStart, escChar, startMask]
  have hend : rxdEnd escChar s.pchar = false := by simp [rxdEnd, escChar, endChar]
  simp [parseRawByte, hstart, hend, he, opened, counted]

theorem parse_esc_open (he : s.ending = false) (hn : s.nesc % 2 = 0) :
    parseRawByte s escChar = (0, opened s) := by
  rw [parse_esc he, if_pos (by omega)]

theorem parse_esc_close (he : s.ending = false) (hn : s.nesc % 2 = 1) :
    parseRawByte s escChar = (0, storeByte (counted s) escChar) := by
  rw [parse_esc he, if_neg (by omega)]

theorem storeByte_data {b : Byte} (hr : 3 ≤ s.ridx) (hsize : s.ridx = 3 → s.nesc ≠ 2)
    (hroom : s.bidx + 1 < maxSize) :
    storeByte s b =
      { s with rxbuf := s.rxbuf.set s.bidx b, bidx := s.bidx + 1,
               csum := s.csum + b.zeroExtend 32, ridx := incr s.ridx, csize := s.cmdsize,
               noc := s.bidx + 1, pchar := if b = escChar then ~~~escChar else s.pchar } := by
  have hsz : ¬ (s.ridx = 3 ∧ s.nesc = 2) := fun h => hsize h.1 h.2
  have hge : ¬ s.bidx + 1 ≥ maxSize := by omega
  have h2 : ¬ s.ridx = 2 := by omega
  have hpay : s.isPayload = true := by
    simp only [Parser.isPayload, if_neg hsz, decide_eq_true_eq]
    omega
  simp [storeByte, hpay, if_neg h2, if_neg hge]

end Steps

/-! ## A message in good order -/

/-- Between messages, `nesc` escapes in a row having gone by. -/
structure Resting (s : Parser) (nesc : Nat) : Prop where
  ending : s.ending = false
  pchar : s.pchar ≠ escChar
  schar : s.schar ≠ startInsn
  cmdsize : s.cmdsize ≠ 36
  nesc : s.nesc = nesc

theorem resting_init (rxbuf : Mem) (noc csize : Nat) : Resting (Parser.init rxbuf noc csize) 0 where
  ending := rfl
  pchar := by simp [Parser.init]
  schar := by simp [Parser.init, startMask, startInsn]
  cmdsize := by simp [Parser.init]
  nesc := rfl

/-- Inside a message of `len` bytes, `pre` of which have arrived. -/
structure Inside (s : Parser) (len : Nat) (pre : List Byte) : Prop where
  ending : s.ending = false
  pchar : s.pchar ≠ escChar
  nesc : s.nesc % 2 = 0
  schar : s.schar = startInsn
  cmdsize : s.cmdsize = len
  csize : s.csize = len
  bidx : s.bidx = pre.length
  data : s.rxbuf.read 0 pre.length = pre
  csum : s.csum = escChar.zeroExtend 32 + startInsn.zeroExtend 32 +
    (BitVec.ofNat 8 len).zeroExtend 32 + (pre.map escapedSum).sum
  ridx_ge : 3 ≤ s.ridx
  ridx_le : s.ridx ≤ 3 + 2 * pre.length

/-- `s'` is the parser after the bytes `bs`, which deliver nothing. -/
def Silent (s : Parser) (bs : List Byte) (s' : Parser) : Prop :=
  Run.run step s bs = s' ∧ Run.emits step delivery s bs = []

theorem Silent.run_append {s s' : Parser} {as : List Byte} (h : Silent s as s') (bs : List Byte) :
    Run.run step s (as ++ bs) = Run.run step s' bs := by
  rw [Run.run_append, h.1]

theorem Silent.emits_append {s s' : Parser} {as : List Byte} (h : Silent s as s')
    (bs : List Byte) :
    Run.emits step delivery s (as ++ bs) = Run.emits step delivery s' bs := by
  rw [Run.emits_append, h.1, h.2, nil_append]

theorem Silent.append {s' s'' : Parser} {as bs : List Byte} (h : Silent s as s')
    (h' : Silent s' bs s'') : Silent s (as ++ bs) s'' :=
  ⟨(h.run_append bs).trans h'.1, (h.emits_append bs).trans h'.2⟩

theorem silent_nil (s : Parser) : Silent s [] s := ⟨rfl, rfl⟩

theorem silent_cons {s' s'' : Parser} {bs : List Byte} (h : parseRawByte s b = (0, s'))
    (h' : Silent s' bs s'') : Silent s (b :: bs) s'' := by
  have hs : step s b = s' := by rw [step, h]
  have hd : delivery s b = [] := by simp [delivery, h]
  refine ⟨?_, ?_⟩
  · rw [run_cons, hs, h'.1]
  · rw [Run.emits, hd, hs, h'.2, append_nil]

def readied (s : Parser) (b : Byte) : Parser :=
  if b = escChar then counted (opened s) else { s with nesc := 0 }

theorem silent_escaped (he : s.ending = false) (hp : s.pchar ≠ escChar) (hn : s.nesc % 2 = 0)
    (b : Byte) : Silent s (escaped b) (storeByte (readied s b) b) := by
  unfold escaped readied
  split
  case isTrue hb =>
    have hclose := parse_esc_close (s := opened s) he (by simp only [opened]; omega)
    rw [hb]
    exact silent_cons (parse_esc_open he hn) (silent_cons hclose (silent_nil _))
  case isFalse hb => exact silent_cons (parse_plain hp he hb) (silent_nil _)

/-- The last byte of a payload byte's escape is stored; `x` is what the escape
has added to the checksum before. -/
theorem inside_storeByte {pre : List Byte} {x : BitVec 32} (he : s.ending = false)
    (hn : s.nesc % 2 = 0) (hs : s.schar = startInsn) (hc : s.cmdsize = len)
    (hbidx : s.bidx = pre.length) (hdata : s.rxbuf.read 0 pre.length = pre)
    (hcsum : s.csum = escChar.zeroExtend 32 + startInsn.zeroExtend 32 +
      (BitVec.ofNat 8 len).zeroExtend 32 + (pre.map escapedSum).sum + x)
    (hx : x + b.zeroExtend 32 = escapedSum b) (hp : b = escChar ∨ s.pchar ≠ escChar)
    (hr : 3 ≤ s.ridx) (hsize : s.ridx = 3 → s.nesc ≠ 2) (hr' : s.ridx ≤ 4 + 2 * pre.length)
    (hroom : pre.length + 1 < maxSize) : Inside (storeByte s b) len (pre ++ [b]) := by
  have hmax : maxSize = 128 := rfl
  have hincr : incr s.ridx = s.ridx + 1 := Nat.mod_eq_of_lt (by omega)
  have hread := Mem.read_set_end s.rxbuf 0 pre.length b
  rw [Nat.zero_add, hdata] at hread
  rw [storeByte_data hr hsize (by rw [hbidx]; exact hroom)]
  constructor
  case ending => exact he
  case pchar =>
    show (if b = escChar then ~~~escChar else s.pchar) ≠ escChar
    split
    · decide
    · next hb => exact hp.resolve_left hb
  case nesc => exact hn
  case schar => exact hs
  case cmdsize => exact hc
  case csize => exact hc
  case bidx => simp only [length_append, length_singleton, hbidx]
  case data =>
    simp only [length_append, hbidx]
    exact hread
  case csum =>
    simp only [map_append, sum_append, map_singleton,
      sum_singleton, ← hx, hcsum]
    ac_rfl
  case ridx_ge =>
    simp only [hincr]
    omega
  case ridx_le =>
    simp only [length_append, length_singleton]
    omega

theorem Inside.escaped {s : Parser} {len : Nat} {pre : List Byte} (h : Inside s len pre) (b : Byte)
    (hroom : pre.length + 1 < maxSize) :
    ∃ s', Silent s (escaped b) s' ∧ Inside s' len (pre ++ [b]) := by
  obtain ⟨hend, hpchar, hnesc, hschar, hcmd, hcsize, hbidx, hdata, hcsum, hrge, hrle⟩ := h
  refine ⟨_, silent_escaped hend hpchar hnesc b, ?_⟩
  unfold readied
  split
  case isTrue hb =>
    subst hb
    have hincr : incr s.ridx = s.ridx + 1 := by
      have hmax : maxSize = 128 := rfl
      exact Nat.mod_eq_of_lt (by omega)
    refine inside_storeByte (s := counted (opened s)) (x := escChar.zeroExtend 32) hend ?_ hschar
      hcmd hbidx hdata ?_ (by simp [escapedSum]) (.inl rfl) ?_ ?_ ?_ hroom
    · simp only [counted, opened]
      omega
    · simp only [counted, opened, hcsum]
    · simp only [counted, opened]
      omega
    · simp only [counted, opened]
      omega
    · simp only [counted, opened]
      omega
  case isFalse hb =>
    refine inside_storeByte (s := { s with nesc := 0 }) (x := 0#32) hend rfl hschar hcmd hbidx hdata
      ?_ ?_ (.inr hpchar) hrge (fun _ => by simp) ?_ hroom
    · simp [hcsum]
    · rw [BitVec.zero_add, escapedSum, if_neg hb]
    · simp only
      omega

theorem Inside.payload {len : Nat} :
    ∀ {m : List Byte} {s : Parser} {pre : List Byte}, Inside s len pre →
      pre.length + m.length < maxSize →
      ∃ s', Silent s (m.flatMap Iuart.escaped) s' ∧ Inside s' len (pre ++ m)
  | [], s, pre, h, _ => ⟨s, silent_nil s, by rwa [append_nil]⟩
  | b :: m, s, pre, h, hroom => by
    rw [length_cons] at hroom
    obtain ⟨s₁, hs₁, h₁⟩ := h.escaped b (by omega)
    obtain ⟨s₂, hs₂, h₂⟩ := h₁.payload (m := m) (by rw [length_append]; simp; omega)
    refine ⟨s₂, hs₁.append hs₂, ?_⟩
    rwa [append_assoc] at h₂

def started (s : Parser) : Parser :=
  { s with nesc := 0, ridx := 2, bidx := 0, ending := false, schar := startInsn,
           pchar := startInsn, csum := escChar.zeroExtend 32 + startInsn.zeroExtend 32 }

theorem Resting.start (h : Resting s 0) : Silent s [escChar, startInsn] (started (opened s)) := by
  have hopen := parse_esc_open h.ending (by rw [h.nesc])
  have hstart : parseRawByte (opened s) startInsn = (0, started (opened s)) := by
    simp [parseRawByte, opened, started, rxdStart, escChar, startInsn, startMask]
  exact silent_cons hopen (silent_cons hstart (silent_nil _))

theorem inside_of_size (s : Parser) (hlen : len < maxSize) (hesc : len ≠ 36) :
    ∃ s', Silent (started s) [BitVec.ofNat 8 len] s' ∧ Inside s' len [] := by
  have hmax : maxSize = 128 := rfl
  have hnat : (BitVec.ofNat 8 len).toNat = len := by
    rw [BitVec.toNat_ofNat]
    omega
  have hne : BitVec.ofNat 8 len ≠ escChar := fun h => hesc (by rw [← hnat, h]; rfl)
  have hp : (started s).pchar ≠ escChar := by simp [started, startInsn, escChar]
  have hstore : storeByte (started s) (BitVec.ofNat 8 len) =
      { started s with cmdsize := len, csize := len, ridx := 3, noc := 0,
                       csum := (started s).csum + (BitVec.ofNat 8 len).zeroExtend 32 } := by
    simp [storeByte, Parser.isPayload, started, hnat, hne, maxSize, incr]
  refine ⟨_, silent_cons (parse_plain hp rfl hne) (silent_nil _), ?_⟩
  show Inside (storeByte (started s) _) len []
  rw [hstore]
  constructor
  case pchar => exact hp
  case csum => exact (BitVec.add_zero _).symm
  all_goals simp [started, Mem.read]

def closing (s : Parser) (csum : BitVec 32) : Parser :=
  { s with nesc := 0, ridx := incr s.ridx, ending := true, csum := csum, pchar := endChar }

theorem silent_end (he : s.ending = false) (hn : s.nesc % 2 = 0) :
    Silent s [escChar, endChar] (closing (opened s)
      (s.csum + escChar.zeroExtend 32 + endChar.zeroExtend 32)) := by
  have hclosing : parseRawByte (opened s) endChar = (0, closing (opened s)
      (s.csum + escChar.zeroExtend 32 + endChar.zeroExtend 32)) := by
    simp [parseRawByte, opened, closing, rxdStart, rxdEnd, escChar, endChar, startMask]
  exact silent_cons (parse_esc_open he hn) (silent_cons hclosing (silent_nil _))

/-- The end of a message: it is delivered, and the escape count is odd when the
checksum byte is `ESC`. -/
theorem Inside.trailer (h : Inside s m.length m) (hlen : m.length ≠ 36) :
    Run.emits step delivery s [escChar, endChar, checksum m] = [delivered m] ∧
      Resting (Run.run step s [escChar, endChar, checksum m])
        (if checksum m = escChar then 1 else 0) := by
  obtain ⟨hend, hpchar, hnesc, hschar, hcmd, hcsize, hbidx, hdata, hcsum, hrge, hrle⟩ := h
  have hsil := silent_end hend hnesc
  rw [show s.csum + escChar.zeroExtend 32 + endChar.zeroExtend 32 = checksumOf m by
    rw [hcsum, checksumOf]] at hsil
  have hlast : parseRawByte (closing (opened s) (checksumOf m)) (checksum m) =
      (startInsn, { closing (opened s) (checksumOf m) with
        nesc := if checksum m = escChar then 1 else 0, ending := false, ridx := 0,
        pchar := ~~~escChar, schar := ~~~startMask, csum := 0, noc := m.length }) := by
    have hpe : ¬ endChar = escChar := by decide
    simp [parseRawByte, closing, opened, checksum, hschar, hbidx]
    rfl
  have hsplit : [escChar, endChar, checksum m] = [escChar, endChar] ++ [checksum m] := rfl
  constructor
  · rw [hsplit, hsil.emits_append]
    simp only [Run.emits, delivery, hlast, append_nil]
    rw [if_pos (by decide)]
    simp only [closing, opened, hdata, hcsize, delivered]
  · rw [hsplit, hsil.run_append, run_cons, step, hlast]
    constructor
    case cmdsize =>
      show s.cmdsize ≠ 36
      rw [hcmd]
      exact hlen
    case pchar =>
      show ~~~escChar ≠ escChar
      decide
    case schar =>
      show ~~~startMask ≠ startInsn
      decide
    all_goals rfl

theorem Resting.message (h : Resting s 0) (hlen : m.length < maxSize) (hesc : m.length ≠ 36) :
    Run.emits step delivery s (sendMessage m) = [delivered m] ∧
      Resting (Run.run step s (sendMessage m)) (if checksum m = escChar then 1 else 0) := by
  obtain ⟨s₁, hsize, hin⟩ := inside_of_size (opened s) hlen hesc
  obtain ⟨s₂, hpay, hin⟩ := hin.payload (by simpa using hlen)
  have hsil : Silent s ([escChar, startInsn, BitVec.ofNat 8 m.length] ++ m.flatMap escaped) s₂ :=
    (h.start.append hsize).append hpay
  rw [sendMessage_eq, hsil.emits_append, hsil.run_append]
  exact hin.trailer hesc

/-! ## A parser in disorder -/

theorem of_mem_delivery {d : Delivery} (h : d ∈ delivery s b) :
    s.ending = true ∧ d.code = s.schar ∧ d.noc = s.bidx ∧ d.csize = s.csize := by
  simp only [delivery, parseRawByte] at h
  generalize (if b = escChar then (s.nesc + 1) % 256 else 0) = nesc at h
  split at h
  · simp at h
  · split at h
    · simp at h
    · split at h
      · next hend =>
        split at h
        · simp only [mem_ite_nil_right, mem_singleton] at h
          rw [h.2]
          exact ⟨hend, rfl, rfl, rfl⟩
        · simp at h
      · split at h
        · simp at h
        · simp at h

/-- The parser cannot deliver a message of `len` bytes any more, with `n`
payload bytes and `k` bytes of any kind to come before the end: it has lost the
start, or the size, or there are too few bytes left. -/
def Garbled (len : Nat) (s : Parser) (n k : Nat) : Prop :=
  s.schar ≠ startInsn ∨
    (s.cmdsize ≠ len ∧ (s.bidx < len ∨ s.csize ≠ len) ∧ 3 ≤ s.ridx ∧ s.ridx + k < 4294967296) ∨
    s.bidx + n < len

theorem Garbled.not_delivered (h : Garbled m.length s n k) (b : Byte) :
    delivered m ∉ delivery s b := by
  intro hd
  obtain ⟨-, hcode, hnoc, hcsize⟩ := of_mem_delivery hd
  simp only [delivered] at hcode hnoc hcsize
  rcases h with h | ⟨-, h, -⟩ | h
  · exact h hcode.symm
  · omega
  · omega

theorem Garbled.mono {n' k' : Nat} (h : Garbled len s n k) (hn : n' ≤ n) (hk : k' ≤ k) :
    Garbled len s n' k' := by
  rcases h with h | ⟨h₁, h₂, h₃, h₄⟩ | h
  · exact .inl h
  · exact .inr (.inl ⟨h₁, h₂, h₃, by omega⟩)
  · exact .inr (.inr (by omega))

theorem Garbled.opened (h : Garbled len s n (k + 1)) : Garbled len (opened s) n k := by
  rcases h with h | ⟨h₁, h₂, h₃, h₄⟩ | h
  · exact .inl h
  · have hincr : incr s.ridx = s.ridx + 1 := Nat.mod_eq_of_lt (by omega)
    refine .inr (.inl ⟨h₁, h₂, ?_, ?_⟩)
    · show 3 ≤ incr s.ridx
      omega
    · show incr s.ridx + k < _
      omega
  · exact .inr (.inr h)

theorem storeByte_cases (s : Parser) (b : Byte) :
    (storeByte s b).schar = ~~~startMask ∨
      (storeByte s b).schar = s.schar ∧ (storeByte s b).bidx ≤ s.bidx + 1 ∧
        (storeByte s b).ridx = incr s.ridx ∧
        (storeByte s b).csize = (storeByte s b).cmdsize ∧
        (s.ridx ≠ 2 → (storeByte s b).cmdsize = s.cmdsize) := by
  have hbidx : (if s.isPayload then s.bidx + 1 else s.bidx) ≤ s.bidx + 1 := by
    split <;> omega
  by_cases hover : (if s.isPayload then s.bidx + 1 else s.bidx) ≥ maxSize
  · exact .inl (by simp only [storeByte, if_pos hover])
  · simp only [storeByte, if_neg hover]
    exact .inr ⟨trivial, hbidx, trivial, trivial, fun h => if_neg h⟩

theorem Garbled.store (h : Garbled len s (n + 1) (k + 1)) (b : Byte) :
    Garbled len (storeByte s b) n k := by
  rcases storeByte_cases s b with hs | ⟨hs, hbidx, hridx, hcsize, hcmd⟩
  · refine .inl ?_
    rw [hs]
    decide
  · rcases h with h | ⟨h₁, h₂, h₃, h₄⟩ | h
    · exact .inl (by rwa [hs])
    · have hincr : incr s.ridx = s.ridx + 1 := Nat.mod_eq_of_lt (by omega)
      have hne : (storeByte s b).cmdsize ≠ len := by rwa [hcmd (by omega)]
      exact .inr (.inl ⟨hne, .inr (by rwa [hcsize]), by omega, by omega⟩)
    · exact .inr (.inr (by omega))

theorem notStartMask_ne : (~~~startMask : Byte) ≠ startInsn := by decide

theorem Garbled.plain (h : Garbled len s (n + 1) (k + 1)) (hn : n < len) (hb : b ≠ escChar) :
    Garbled len (step s b) n k := by
  simp only [step, parseRawByte]
  split
  · exact .inr (.inr (by simpa using hn))
  · split
    · exact (h.opened).mono (Nat.le_succ n) (Nat.le_refl k)
    · split
      · split
        · exact .inl notStartMask_ne
        · exact .inl notStartMask_ne
      · exact Garbled.store (s := { s with nesc := 0 }) h b

theorem storeByte_quiet (he : s.ending = false) (hp : b = escChar ∨ s.pchar ≠ escChar) :
    (storeByte s b).ending = false ∧ (storeByte s b).pchar ≠ escChar ∧
      (storeByte s b).nesc = s.nesc := by
  have hnot : (~~~escChar : Byte) ≠ escChar := by decide
  by_cases hover : (if s.isPayload then s.bidx + 1 else s.bidx) ≥ maxSize
  · simp only [storeByte, if_pos hover]
    exact ⟨trivial, hnot, trivial⟩
  · simp only [storeByte, if_neg hover]
    refine ⟨he, ?_, trivial⟩
    split
    · exact hnot
    · next hb => exact hp.resolve_left hb

theorem step_esc_of_ending (he : s.ending = true) :
    (step s escChar).ending = false ∧ (step s escChar).schar = ~~~startMask ∧
      (step s escChar).pchar ≠ escChar := by
  have hstart : rxdStart escChar s.pchar = false := by simp [rxdStart, escChar, startMask]
  have hend : rxdEnd escChar s.pchar = false := by simp [rxdEnd, escChar, endChar]
  have hnot : (~~~escChar : Byte) ≠ escChar := by decide
  simp only [step, parseRawByte, hstart, hend, he, if_true, Bool.false_eq_true, if_false]
  split
  · exact ⟨rfl, rfl, hnot⟩
  · exact ⟨rfl, rfl, hnot⟩

theorem step_esc_ending (s : Parser) : (step s escChar).ending = false := by
  cases he : s.ending with
  | true => exact (step_esc_of_ending he).1
  | false =>
    rw [step, parse_esc he]
    split
    · exact he
    · exact (storeByte_quiet (s := counted s) he (.inl rfl)).1

theorem Garbled.pair (h : Garbled len s (n + 1) (k + 2)) :
    Garbled len (step (step s escChar) escChar) n k := by
  cases he : s.ending with
  | true =>
    obtain ⟨he₁, hs₁, -⟩ := step_esc_of_ending he
    have h₁ : Garbled len (step s escChar) (n + 1) (k + 1) :=
      .inl (by rw [hs₁]; exact notStartMask_ne)
    rw [step, parse_esc he₁]
    split
    · exact h₁.opened.mono (Nat.le_succ n) (Nat.le_refl k)
    · exact Garbled.store (s := counted (step s escChar)) h₁ escChar
  | false =>
    by_cases hn : s.nesc % 2 = 0
    · have h₁ : step s escChar = Iuart.opened s := by rw [step, parse_esc_open he hn]
      have hodd : (Iuart.opened s).nesc % 2 = 1 := by
        simp only [Iuart.opened]
        omega
      rw [h₁, step, parse_esc_close (s := Iuart.opened s) he hodd]
      exact Garbled.store (s := counted (Iuart.opened s)) h.opened escChar
    · have h₁ : step s escChar = storeByte (counted s) escChar := by
        rw [step, parse_esc_close he (by omega)]
      have hg : Garbled len (step s escChar) n (k + 1) := by
        rw [h₁]
        exact Garbled.store (s := counted s) h escChar
      have heven : (step s escChar).nesc % 2 = 0 := by
        rw [h₁, (storeByte_quiet (s := counted s) he (.inl rfl)).2.2]
        show (s.nesc + 1) % 256 % 2 = 0
        omega
      rw [step, parse_esc_open (step_esc_ending s) heven]
      exact hg.opened

theorem Garbled.payload {m : List Byte} :
    ∀ {p : List Byte} {s : Parser} {k : Nat}, Garbled m.length s p.length (2 * p.length + k) →
      p.length ≤ m.length →
      delivered m ∉ Run.emits step delivery s (p.flatMap escaped) ∧
        Garbled m.length (Run.run step s (p.flatMap escaped)) 0 k
  | [], s, k, h, _ => ⟨not_mem_nil, by simpa using h⟩
  | b :: p, s, k, h, hle => by
    rw [length_cons] at h hle
    by_cases hb : b = escChar
    · have hp : (b :: p).flatMap escaped = escChar :: escChar :: p.flatMap escaped := by
        simp [escaped, hb]
      have h₂ := (h.mono (Nat.le_refl _) (by omega)).pair (k := 2 * p.length + k)
      obtain ⟨hrest, hend⟩ := h₂.payload (by omega)
      have hsecond : delivered m ∉ delivery (step s escChar) escChar := fun hd => by
        have := (of_mem_delivery hd).1
        rw [step_esc_ending] at this
        exact absurd this (by decide)
      rw [hp]
      simp only [Run.emits, mem_append, not_or]
      exact ⟨⟨h.not_delivered _, hsecond, hrest⟩, hend⟩
    · have hp : (b :: p).flatMap escaped = b :: p.flatMap escaped := by
        simp [escaped, hb]
      have h₁ := (h.mono (Nat.le_refl _) (by omega)).plain (k := 2 * p.length + k) (by omega) hb
      obtain ⟨hrest, hend⟩ := h₁.payload (by omega)
      rw [hp]
      simp only [Run.emits, mem_append, not_or]
      exact ⟨⟨h.not_delivered _, hrest⟩, hend⟩

theorem not_mem_delivery (he : s.ending = false) (b : Byte) (d : Delivery) : d ∉ delivery s b := by
  intro hd
  have := (of_mem_delivery hd).1
  rw [he] at this
  exact absurd this (by decide)

theorem step_esc_pchar (s : Parser) :
    (step s escChar).pchar ≠ escChar ∨ step s escChar = opened s := by
  cases he : s.ending with
  | true => exact .inl (step_esc_of_ending he).2.2
  | false =>
    rw [step, parse_esc he]
    split
    · exact .inr rfl
    · exact .inl (storeByte_quiet (s := counted s) he (.inl rfl)).2.1

theorem Garbled.trailer (h : Garbled m.length s 0 (k + 2)) (c : Byte) :
    delivered m ∉ Run.emits step delivery s [escChar, endChar, c] := by
  have hne : endChar ≠ escChar := by decide
  have hlast : delivered m ∉ delivery (step (step s escChar) endChar) c := by
    rcases step_esc_pchar s with hp | hopen
    · refine not_mem_delivery ?_ c _
      rw [step, parse_plain hp (step_esc_ending s) hne]
      exact (storeByte_quiet (s := { step s escChar with nesc := 0 }) (step_esc_ending s)
        (.inr hp)).1
    · have hend : step (Iuart.opened s) endChar
          = closing (Iuart.opened s) (s.csum + escChar.zeroExtend 32 + endChar.zeroExtend 32) := by
        simp [step, parseRawByte, Iuart.opened, closing, rxdStart, rxdEnd, escChar, endChar,
          startMask]
      have hclosing : Garbled m.length (closing (Iuart.opened s)
          (s.csum + escChar.zeroExtend 32 + endChar.zeroExtend 32)) 0 k := h.opened.opened
      rw [hopen]
      exact hclosing.not_delivered c
  simp only [Run.emits, mem_append, not_mem_nil, or_false, not_or]
  exact ⟨h.not_delivered _, not_mem_delivery (step_esc_ending s) _ _, hlast⟩

structure Lost (s : Parser) : Prop where
  ending : s.ending = false
  pchar : s.pchar ≠ escChar
  schar : s.schar ≠ startInsn

theorem Lost.storeByte (he : s.ending = false) (hs : s.schar ≠ startInsn)
    (hp : b = escChar ∨ s.pchar ≠ escChar) : Lost (storeByte s b) := by
  obtain ⟨he', hp', -⟩ := storeByte_quiet he hp
  refine ⟨he', hp', ?_⟩
  rcases storeByte_cases s b with h | ⟨h, -⟩
  · rw [h]
    exact notStartMask_ne
  · rwa [h]

theorem Lost.plain (h : Lost s) (hb : b ≠ escChar) :
    ∃ s', Silent s [b] s' ∧ Lost s' ∧ s'.nesc % 2 = 0 := by
  refine ⟨_, silent_cons (parse_plain h.pchar h.ending hb) (silent_nil _),
    Lost.storeByte h.ending h.schar (.inr h.pchar), ?_⟩
  rw [(storeByte_quiet (s := { s with nesc := 0 }) h.ending (.inr h.pchar)).2.2]
  rfl

theorem Silent.garbled {s' : Parser} {head : List Byte} (h : Silent s head s')
    (hg : Garbled m.length s' m.length (2 * m.length + 2)) (c : Byte) :
    delivered m ∉ Run.emits step delivery s
      (head ++ m.flatMap escaped ++ [escChar, endChar, c]) := by
  obtain ⟨hpay, hend⟩ := hg.payload (Nat.le_refl _)
  rw [append_assoc, h.emits_append, Run.emits_append, mem_append, not_or]
  exact ⟨hpay, hend.trailer c⟩

theorem Resting.message_esc (h : Resting s 0) (hlen : m.length = 36) :
    delivered m ∉ Run.emits step delivery s (sendMessage m) := by
  have hsize : BitVec.ofNat 8 m.length = escChar := by
    rw [hlen]
    rfl
  have hopen := parse_esc_open (s := started (opened s)) rfl rfl
  have hsil := h.start.append (silent_cons hopen (silent_nil _))
  rw [sendMessage_eq, hsize]
  refine hsil.garbled (.inr (.inl ⟨?_, .inl ?_, ?_, ?_⟩)) _
  · rw [hlen]
    exact h.cmdsize
  · rw [hlen]
    show 0 < 36
    decide
  · show 3 ≤ incr 2
    decide
  · rw [hlen]
    show incr 2 + (2 * 36 + 2) < 4294967296
    decide

theorem Resting.message_stuck (h : Resting s 1) (m : List Byte) :
    delivered m ∉ Run.emits step delivery s (sendMessage m) := by
  have hclose := parse_esc_close h.ending (by rw [h.nesc])
  have hlost : Lost (Iuart.storeByte (counted s) escChar) :=
    Lost.storeByte h.ending h.schar (.inl rfl)
  obtain ⟨s₁, hs₁, h₁, hn₁⟩ := hlost.plain (show startInsn ≠ escChar by decide)
  have hhead : Silent s [escChar, startInsn] s₁ := silent_cons hclose hs₁
  by_cases hsize : BitVec.ofNat 8 m.length = escChar
  · have hsil := hhead.append (silent_cons (parse_esc_open h₁.ending hn₁) (silent_nil _))
    rw [sendMessage_eq, hsize]
    exact hsil.garbled (.inl h₁.schar) _
  · obtain ⟨s₂, hs₂, h₂, -⟩ := h₁.plain hsize
    rw [sendMessage_eq]
    exact (hhead.append hs₂).garbled (.inl h₂.schar) _

/-! ## Whole sequences -/

/-- No length is `ESC`, and no checksum is except that of the last message. -/
def Transparent (ms : List (List Byte)) : Prop :=
  (∀ m ∈ ms, m.length ≠ 36) ∧ ∀ m ∈ ms.dropLast, checksum m ≠ escChar

instance (ms : List (List Byte)) : Decidable (Transparent ms) :=
  inferInstanceAs (Decidable (_ ∧ _))

theorem transparent_cons {m' : List Byte} {ms : List (List Byte)} :
    Transparent (m :: m' :: ms) ↔
      m.length ≠ 36 ∧ checksum m ≠ escChar ∧ Transparent (m' :: ms) := by
  simp only [Transparent, dropLast_cons_cons, forall_mem_cons]
  constructor
  · rintro ⟨⟨h₁, h₂⟩, h₃, h₄⟩
    exact ⟨h₁, h₃, h₂, h₄⟩
  · rintro ⟨h₁, h₃, h₂, h₄⟩
    exact ⟨⟨h₁, h₂⟩, h₃, h₄⟩

theorem perMessage_ne {ms : List (List Byte)}
    (h : delivered m ∉ Run.emits step delivery s (sendMessage m)) :
    perMessage s (m :: ms) ≠ (m :: ms).map fun m => [delivered m] := by
  intro heq
  simp only [perMessage, map_cons, cons.injEq] at heq
  exact h (by rw [heq.1]; exact mem_singleton_self _)

theorem Resting.perMessage_iff :
    ∀ {ms : List (List Byte)} {s : Parser}, Resting s 0 → (∀ m ∈ ms, m.length < maxSize) →
      (perMessage s ms = ms.map (fun m => [delivered m]) ↔ Transparent ms)
  | [], s, _, _ => by simp [perMessage, Transparent]
  | m :: ms, s, h, hlen => by
    rw [forall_mem_cons] at hlen
    by_cases hesc : m.length = 36
    · refine iff_of_false (perMessage_ne (h.message_esc hesc)) ?_
      exact fun ht => ht.1 m mem_cons_self hesc
    · obtain ⟨hemit, hrest⟩ := h.message hlen.1 hesc
      have hhead : perMessage s (m :: ms) = (m :: ms).map (fun m => [delivered m]) ↔
          perMessage (Run.run step s (sendMessage m)) ms = ms.map fun m => [delivered m] := by
        simp [perMessage, hemit]
      rw [hhead]
      cases ms with
      | nil => simp [perMessage, Transparent, hesc]
      | cons m' ms =>
        rw [transparent_cons]
        by_cases hsum : checksum m = escChar
        · rw [if_pos hsum] at hrest
          exact iff_of_false (perMessage_ne (hrest.message_stuck m')) fun ht => ht.2.1 hsum
        · rw [if_neg hsum] at hrest
          rw [hrest.perMessage_iff hlen.2]
          exact ⟨fun ht => ⟨hesc, hsum, ht⟩, fun ht => ht.2.2⟩

/-- Messages of up to 127 bytes, sent one after the other to a parser in its
initial state, are each delivered exactly once, whole and with the right
counts, if and only if no length is 0x24 and no checksum but the last is. -/
theorem perMessage_eq_iff (rxbuf : Mem) (noc csize : Nat) (ms : List (List Byte))
    (hlen : ∀ m ∈ ms, m.length ≤ 127) :
    perMessage (Parser.init rxbuf noc csize) ms = ms.map (fun m => [delivered m]) ↔
      Transparent ms :=
  (resting_init rxbuf noc csize).perMessage_iff fun m hm => Nat.lt_succ_of_le (hlen m hm)

/-- A message whose every byte is an escape goes through. -/
theorem perMessage_eq_escapes :
    perMessage (Parser.init (fun _ => 0) 0 0) [[0x24, 0x24], [0x45]]
      = [[delivered [0x24, 0x24]], [delivered [0x45]]] :=
  (perMessage_eq_iff (fun _ => 0) 0 0 [[0x24, 0x24], [0x45]] (by decide)).mpr (by decide)

/-- 36 zero bytes come out with a stale size. -/
theorem perMessage_ne_size : ¬ ∀ (rxbuf : Mem) (noc csize : Nat) (ms : List (List Byte)),
    (∀ m ∈ ms, m.length ≤ 127) →
      perMessage (Parser.init rxbuf noc csize) ms = ms.map fun m => [delivered m] := by
  intro h
  exact absurd (h (fun _ => 0) 0 0 [replicate 36 0] (by decide)) (by decide +kernel)

end Wrpc.Iuart
