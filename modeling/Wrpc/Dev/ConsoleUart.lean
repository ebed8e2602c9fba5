/-
# The escaped console channel

The console of the eRTM14 shares its UART with a binary channel.  On the wire

    0x1b 'B'     switch to binary
    0x1b 'T'     switch to text
    0x1b 0x1b    the byte 0x1b

The host (`linux-uart-link.c`) switches to binary with three times the first code and then
sends bytes; the target (`console-uart.c`) decodes with a state of its own, one byte a call
of `con_rx_internal`.

`decode` is what the calls return for the bytes on the wire (`callN_eq`).  All three codes
return before the assignment that would make the state idle again, so the decoder stays in
the middle of an escape: `transparent_iff` says which byte sequences come through.
-/
import Wrpc.Lib.Mem
import Mathlib.Data.List.Chain

namespace Wrpc.Console

open List

/-- `CON_ESCAPE_CODE`, `CON_SWITCH_BINARY_CODE` and `CON_SWITCH_TEXT_CODE`. -/
def esc : Byte := 0x1b
def switchBinary : Byte := 0x42
def switchText : Byte := 0x54

/-- What `uart_link_send_byte` puts on the wire. -/
def sendByte (b : Byte) : List Byte := if b = esc then [esc, b] else [b]

/-- What `uart_link_set_binary` puts on the wire. -/
def setBinary : List Byte := [esc, switchBinary, esc, switchBinary, esc, switchBinary]

def sendBytes (data : List Byte) : List Byte := data.flatMap sendByte

/-! ## The target -/

/-- `priv->state`. -/
inductive RxState where
  | idle | escPending | escFlush
deriving DecidableEq, Repr

/-- The console: at each read of the UART the byte that is there, if any, the private data,
the two mode flags, and the calls of `mode_switch_hook`. -/
structure Con where
  rx : List (Option Byte)
  state : RxState
  prevChar : Byte
  binary : Bool
  tty : Bool
  switches : List Bool

/-- `suart_read_byte`; `none` is its -1. -/
def suartReadByte (c : Con) : Option Byte × Con :=
  match c.rx with
  | [] => (none, c)
  | r :: rx => (r, { c with rx := rx })

def afterEscape (c : Con) (rxChar : Byte) : Option Byte × Con :=
  if rxChar = esc then (some esc, c)
  else if rxChar = switchText then
    (none, { c with binary := false, tty := true, switches := c.switches ++ [false] })
  else if rxChar = switchBinary then
    (none, { c with tty := false, binary := true, switches := c.switches ++ [true] })
  else (none, { c with state := .escFlush, prevChar := rxChar })

/-- `con_rx_internal`; `none` is a negative value. -/
def conRxInternal (c : Con) : Option Byte × Con :=
  match c.state with
  | .escFlush => (some c.prevChar, { c with state := .idle })
  | .idle =>
    match suartReadByte c with
    | (none, c) => (none, c)
    | (some b, c) => if b = esc then (none, { c with state := .escPending }) else (some b, c)
  | .escPending =>
    match suartReadByte c with
    | (none, c) => (none, c)
    | (some b, c) => afterEscape c b

/-- The bytes that `n` calls return, and the console after them. -/
def callN : Nat → Con → List Byte × Con
  | 0, c => ([], c)
  | n + 1, c =>
    let r := conRxInternal c
    let rest := callN n r.2
    (r.1.toList ++ rest.1, rest.2)

/-! ## What the decoder makes of the wire -/

/-- The bytes returned; `pending` says whether an escape is open. -/
def decode : Bool → List Byte → List Byte
  | _, [] => []
  | false, b :: bs => if b = esc then decode true bs else b :: decode false bs
  | true, b :: bs =>
    if b = esc then esc :: decode true bs
    else if b = switchText ∨ b = switchBinary then decode true bs
    else b :: decode false bs

/-- The mode switches; `true` is binary. -/
def modeSwitches : Bool → List Byte → List Bool
  | _, [] => []
  | false, b :: bs => modeSwitches (decide (b = esc)) bs
  | true, b :: bs =>
    if b = esc then modeSwitches true bs
    else if b = switchText then false :: modeSwitches true bs
    else if b = switchBinary then true :: modeSwitches true bs
    else modeSwitches false bs

namespace Con

variable (c : Con)

def wire : List Byte := c.rx.reduceOption

def pending : Bool := decide (c.state = .escPending)

def flushed : List Byte := if c.state = .escFlush then [c.prevChar] else []

def work : Nat := 2 * c.rx.length + c.flushed.length

def output : List Byte := c.flushed ++ decode c.pending c.wire

def allSwitches : List Bool := c.switches ++ modeSwitches c.pending c.wire

end Con

section Call

variable {c : Con}

theorem afterEscape_spec {r : Con} (hstate : r.state = .escPending) (b : Byte) :
    decode true (b :: r.wire) = (afterEscape r b).1.toList ++ (afterEscape r b).2.output ∧
      r.switches ++ modeSwitches true (b :: r.wire) = (afterEscape r b).2.allSwitches ∧
      (afterEscape r b).2.work ≤ 2 * r.rx.length + 1 := by
  obtain ⟨rx, state, prevChar, binary, tty, switches⟩ := r
  cases hstate
  simp only [afterEscape, decode, modeSwitches]
  by_cases hesc : b = esc
  · simp only [hesc, if_true]
    exact ⟨rfl, rfl, Nat.le_succ _⟩
  by_cases htext : b = switchText
  · subst htext
    refine ⟨rfl, ?_, Nat.le_succ _⟩
    exact (append_assoc switches [false] _).symm
  by_cases hbin : b = switchBinary
  · subst hbin
    refine ⟨rfl, ?_, Nat.le_succ _⟩
    exact (append_assoc switches [true] _).symm
  · simp only [hesc, htext, hbin, if_false, or_self]
    exact ⟨rfl, rfl, Nat.le_refl _⟩

theorem conRxInternal_spec (c : Con) :
    c.output = (conRxInternal c).1.toList ++ (conRxInternal c).2.output ∧
      c.allSwitches = (conRxInternal c).2.allSwitches ∧
      ((conRxInternal c).2.work < c.work ∨ c.work = 0 ∧ conRxInternal c = (none, c)) := by
  obtain ⟨rx, state, prevChar, binary, tty, switches⟩ := c
  cases state with
  | escFlush => exact ⟨rfl, rfl, .inl (Nat.lt_succ_self _)⟩
  | idle =>
    cases rx with
    | nil => exact ⟨rfl, rfl, .inr ⟨rfl, rfl⟩⟩
    | cons r rx =>
      have hwork : 2 * rx.length < 2 * (rx.length + 1) := by omega
      cases r with
      | none => exact ⟨rfl, rfl, .inl hwork⟩
      | some b =>
        by_cases hesc : b = esc
        · subst hesc
          exact ⟨rfl, rfl, .inl hwork⟩
        · have hwire : Con.wire ⟨some b :: rx, .idle, prevChar, binary, tty, switches⟩ =
              b :: rx.reduceOption := rfl
          simp only [conRxInternal, suartReadByte, hesc, if_false, Con.output,
            Con.allSwitches, hwire]
          refine ⟨?_, ?_, .inl hwork⟩
          · exact if_neg hesc
          · exact congrArg (fun p => switches ++ modeSwitches p rx.reduceOption)
              (decide_eq_false hesc)
  | escPending =>
    cases rx with
    | nil => exact ⟨rfl, rfl, .inr ⟨rfl, rfl⟩⟩
    | cons r rx =>
      cases r with
      | none => exact ⟨rfl, rfl, .inl (show 2 * rx.length < 2 * (rx.length + 1) by omega)⟩
      | some b =>
        obtain ⟨hout, hswitch, hwork⟩ := afterEscape_spec
          (r := ⟨rx, .escPending, prevChar, binary, tty, switches⟩) rfl b
        refine ⟨hout, hswitch, .inl (Nat.lt_of_le_of_lt hwork ?_)⟩
        change 2 * rx.length + 1 < 2 * (rx.length + 1)
        omega

/-- **The calls.**  From `work` calls on they have returned `output` and switched as often as
they ever will. -/
theorem callN_eq : ∀ {n : Nat} {c : Con}, c.work ≤ n →
    (callN n c).1 = c.output ∧ (callN n c).2.switches = c.allSwitches
  | 0, c, h => by
    have hrx : c.rx = [] := eq_nil_of_length_eq_zero (by rw [Con.work] at h; omega)
    have hflush : c.flushed = [] := eq_nil_of_length_eq_zero (by rw [Con.work] at h; omega)
    rw [Con.output, Con.allSwitches, Con.wire, hrx, hflush]
    cases c.pending with
    | false => exact ⟨rfl, (append_nil _).symm⟩
    | true => exact ⟨rfl, (append_nil _).symm⟩
  | n + 1, c, h => by
    obtain ⟨hout, hswitch, hwork⟩ := conRxInternal_spec c
    have hle : (conRxInternal c).2.work ≤ n := by
      rcases hwork with hlt | ⟨hzero, hcall⟩
      · omega
      · rw [hcall, hzero]
        exact Nat.zero_le n
    obtain ⟨ih, ih'⟩ := callN_eq hle
    rw [callN, hout, hswitch]
    exact ⟨congrArg _ ih, ih'⟩

end Call

/-! ## Which byte sequences come through -/

/-- All calls together return `data`, and the mode stays. -/
def Transparent (c : Con) (data : List Byte) : Prop :=
  ∃ n, ∀ k, n ≤ k → (callN k c).1 = data ∧ (callN k c).2.switches = c.switches

/-- What may follow a byte: behind an escape no escape and no letter of a code. -/
def Safe (a b : Byte) : Prop := a = esc → b ≠ esc ∧ b ≠ switchBinary ∧ b ≠ switchText

instance : DecidableRel Safe := fun _ _ => inferInstanceAs (Decidable (_ → _))

theorem transparent_iff_output (c : Con) (data : List Byte) :
    Transparent c data ↔ c.output = data ∧ modeSwitches c.pending c.wire = [] := by
  have hswitch : c.allSwitches = c.switches ↔ modeSwitches c.pending c.wire = [] :=
    append_right_eq_self
  rw [← hswitch]
  constructor
  · rintro ⟨n, h⟩
    obtain ⟨hout, hall⟩ := callN_eq (Nat.le_max_right n c.work)
    obtain ⟨hdata, hkept⟩ := h _ (Nat.le_max_left n c.work)
    exact ⟨hout.symm.trans hdata, hall.symm.trans hkept⟩
  · rintro ⟨hout, hall⟩
    refine ⟨c.work, fun k hk => ?_⟩
    obtain ⟨hout', hall'⟩ := callN_eq hk
    exact ⟨hout'.trans hout, hall'.trans hall⟩

section Data

variable (b : Byte)

theorem decode_pending (bs : List Byte) :
    decode true (sendByte b ++ bs) =
      if b = esc then esc :: esc :: decode true bs
      else if b = switchText ∨ b = switchBinary then decode true bs else b :: decode false bs := by
  by_cases hesc : b = esc
  · subst hesc
    rfl
  · rw [sendByte, if_neg hesc, if_neg hesc, singleton_append, decode, if_neg hesc]

theorem decode_idle (bs : List Byte) :
    decode false (sendByte b ++ bs) = b :: decode (decide (b = esc)) bs := by
  by_cases hesc : b = esc
  · subst hesc
    rfl
  · rw [sendByte, if_neg hesc, singleton_append, decode, if_neg hesc, decide_eq_false hesc]

theorem modeSwitches_pending (bs : List Byte) :
    modeSwitches true (sendByte b ++ bs) =
      if b = esc then modeSwitches true bs
      else if b = switchText then false :: modeSwitches true bs
      else if b = switchBinary then true :: modeSwitches true bs else modeSwitches false bs := by
  by_cases hesc : b = esc
  · subst hesc
    rfl
  · rw [sendByte, if_neg hesc, if_neg hesc, singleton_append, modeSwitches, if_neg hesc]

theorem modeSwitches_idle (bs : List Byte) :
    modeSwitches false (sendByte b ++ bs) = modeSwitches (decide (b = esc)) bs := by
  by_cases hesc : b = esc
  · subst hesc
    rfl
  · rw [sendByte, if_neg hesc, singleton_append, modeSwitches]

theorem length_le_decode : ∀ (pending : Bool) (data : List Byte),
    modeSwitches pending (sendBytes data) = [] →
      data.length ≤ (decode pending (sendBytes data)).length
  | _, [], _ => Nat.zero_le _
  | false, b :: bs, h => by
    rw [sendBytes, flatMap_cons, modeSwitches_idle] at h
    rw [sendBytes, flatMap_cons, decode_idle]
    exact Nat.succ_le_succ (length_le_decode _ bs h)
  | true, b :: bs, h => by
    rw [sendBytes, flatMap_cons, modeSwitches_pending] at h
    rw [sendBytes, flatMap_cons, decode_pending]
    by_cases hesc : b = esc
    · rw [if_pos hesc] at h ⊢
      have := length_le_decode true bs h
      exact Nat.le_succ_of_le (Nat.succ_le_succ this)
    rw [if_neg hesc] at h ⊢
    by_cases htext : b = switchText
    · rw [if_pos htext] at h
      cases h
    rw [if_neg htext] at h
    by_cases hbin : b = switchBinary
    · rw [if_pos hbin] at h
      cases h
    rw [if_neg hbin] at h
    rw [if_neg (not_or.mpr ⟨htext, hbin⟩)]
    exact Nat.succ_le_succ (length_le_decode false bs h)

theorem decode_eq_iff : ∀ (pending : Bool) (data : List Byte),
    (decode pending (sendBytes data) = data ∧ modeSwitches pending (sendBytes data) = []) ↔
      List.IsChain Safe (if pending then esc :: data else data)
  | false, [] => iff_of_true ⟨rfl, rfl⟩ .nil
  | true, [] => iff_of_true ⟨rfl, rfl⟩ (.singleton _)
  | false, b :: bs => by
    rw [sendBytes, flatMap_cons, decode_idle, modeSwitches_idle, cons.injEq,
      and_iff_right rfl]
    refine (decode_eq_iff _ bs).trans ?_
    rw [if_neg Bool.false_ne_true]
    by_cases hesc : b = esc
    · rw [decide_eq_true hesc, if_pos rfl, hesc]
    · rw [decide_eq_false hesc, if_neg Bool.false_ne_true, isChain_cons]
      exact (and_iff_right fun _ _ h => absurd h hesc).symm
  | true, b :: bs => by
    rw [sendBytes, flatMap_cons, decode_pending, modeSwitches_pending, if_pos rfl,
      isChain_cons_cons]
    by_cases hesc : b = esc
    · rw [if_pos hesc, if_pos hesc]
      refine iff_of_false ?_ fun h => (h.1 rfl).1 hesc
      rintro ⟨hout, hswitch⟩
      have hle := length_le_decode true bs hswitch
      have hlen := congrArg length hout
      rw [length_cons, length_cons, length_cons] at hlen
      rw [sendBytes] at hle
      omega
    rw [if_neg hesc, if_neg hesc]
    by_cases htext : b = switchText
    · rw [if_pos htext]
      exact iff_of_false (fun h => cons_ne_nil _ _ h.2) fun h => (h.1 rfl).2.2 htext
    rw [if_neg htext]
    by_cases hbin : b = switchBinary
    · rw [if_pos hbin]
      exact iff_of_false (fun h => cons_ne_nil _ _ h.2) fun h => (h.1 rfl).2.1 hbin
    rw [if_neg hbin, if_neg (not_or.mpr ⟨htext, hbin⟩), cons.injEq, and_iff_right rfl]
    refine (decode_eq_iff false bs).trans ?_
    have hsafe : Safe esc b := fun _ => ⟨hesc, hbin, htext⟩
    rw [if_neg Bool.false_ne_true, and_iff_right hsafe, isChain_cons]
    exact (and_iff_right fun _ _ h => absurd h hesc).symm

/-- Behind open escapes that were handed out the data never follows: as many escapes as it
begins with, twice as many come out. -/
theorem replicate_esc_ne (data : List Byte) : ∀ k,
    replicate (k + 1) esc ++ decode true (sendBytes data) ≠ data := by
  induction data with
  | nil => exact fun k h => cons_ne_nil _ _ h
  | cons b bs ih =>
    intro k h
    rw [replicate_succ, cons_append, cons.injEq] at h
    obtain ⟨rfl, htail⟩ := h
    refine ih (k + 1) (Eq.trans ?_ htail)
    rw [replicate_succ', replicate_succ', append_assoc, append_assoc]
    rfl

end Data

/-- **The channel.**  Data comes through exactly if no escape in it is followed by an escape or by
a letter of a code, where an escape that is still open counts as one more byte before the data.
`uart_link_set_binary` leaves an escape open and makes the target return two escapes that nobody
has sent, so that behind it no data comes through: what is returned is never the data. -/
theorem channel_transparent (c : Con) (data : List Byte) (hstate : c.state ≠ .escFlush) :
    (c.wire = sendBytes data →
      (Transparent c data ↔ List.IsChain Safe (if c.pending then esc :: data else data))) ∧
      (c.state = .idle → c.wire = setBinary ++ sendBytes data → ¬ Transparent c data ∧
        ∃ n, ∀ k, n ≤ k → (callN k c).1 = esc :: esc :: decode true (sendBytes data) ∧
          (callN k c).1 ≠ data ∧ (callN k c).2.switches = c.switches ++ ([true, true, true] ++
            modeSwitches true (sendBytes data))) := by
  have hflush : c.flushed = [] := if_neg hstate
  refine ⟨fun hwire => ?_, fun hidle hwire => ?_⟩
  · rw [transparent_iff_output, Con.output, hflush, hwire, nil_append]
    exact decode_eq_iff c.pending data
  · have hpending : c.pending = false := by
      rw [Con.pending, hidle]
      rfl
    have hout : c.output = esc :: esc :: decode true (sendBytes data) := by
      rw [Con.output, hflush, hpending, hwire]
      rfl
    have hne : esc :: esc :: decode true (sendBytes data) ≠ data := replicate_esc_ne data 1
    refine ⟨fun h => ?_, c.work, fun k hk => ?_⟩
    · rw [transparent_iff_output, hout] at h
      exact hne h.1
    · obtain ⟨hcalls, hswitches⟩ := callN_eq hk
      have hall := hcalls.trans hout
      refine ⟨hall, hall ▸ hne, hswitches.trans ?_⟩
      rw [Con.allSwitches, hpending, hwire]
      rfl

/-- The console after `console_uart_init`, with bytes on the wire. -/
def Con.fresh (wire : List Byte) : Con := ⟨wire.map some, .idle, 0, false, true, []⟩

theorem channel_transparent_plain :
    Transparent (.fresh (sendBytes [0x41, esc, 0x41])) [0x41, esc, 0x41] ↔
      List.IsChain Safe [0x41, esc, 0x41] :=
  (channel_transparent (.fresh (sendBytes [0x41, esc, 0x41])) [0x41, esc, 0x41] (by decide)).1 rfl

/-- One letter behind `uart_link_set_binary`: three bytes are returned. -/
theorem channel_setBinary :
    (callN 20 (.fresh (setBinary ++ sendBytes [0x41]))).1 = [esc, esc, 0x41] ∧
      ¬ Transparent (.fresh (setBinary ++ sendBytes [0x41])) [0x41] := by
  refine ⟨by decide, fun h => ?_⟩
  rw [transparent_iff_output] at h
  exact absurd h.1 (by decide)

end Wrpc.Console
