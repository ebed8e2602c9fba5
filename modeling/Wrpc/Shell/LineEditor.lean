/-
# The shell edits the line the user types

The purpose of the console task: a line with a cursor in it, which keys change
and Enter executes.  `Line` is that line, cut in two at the cursor, so a cursor
outside the line cannot be written down.  `Edits s l` says that the shell's
buffer, position and length hold the line `l`.

## What is proved

Every key keeps `Edits`, every `memmove` stays inside the buffer, and Enter
executes the line (`editRun_faithful`), in the runs where nobody else writes
the shell's variables at the wrong moment:

    shell_exec         overwrites `cmd_buf` and `cmd_len` but not `cmd_pos`; it may not run
                       while a line is edited or waits to be executed, and its command may
                       not be shorter than the position left over from the last line
    a command that     sets `cmd_len` (to 0, for a UI) and leaves `cmd_pos`; the position
    uses the shell     must not be past the new length
-/
import Wrpc.Lib.Run
import Wrpc.Shell.Shell

namespace Wrpc.Shell

open List Mem

/-! ## The specification -/

/-- A line with a cursor: what is before it, nearest first, and what is after. -/
structure Line where
  before : List Byte
  after : List Byte
deriving DecidableEq, Repr

namespace Line

def text (l : Line) : List Byte := l.before.reverse ++ l.after

def press (l : Line) : Key → Line
  | .left =>
    match l.before with
    | [] => l
    | c :: before => ⟨before, c :: l.after⟩
  | .right =>
    match l.after with
    | [] => l
    | c :: after => ⟨c :: l.before, after⟩
  | .delete => ⟨l.before, l.after.tail⟩
  | .backspace => ⟨l.before.tail, l.after⟩
  | .char c => if l.text.length < maxLineLen then ⟨c :: l.before, l.after⟩ else l
  | .enter => l
  | .tab => l
  | .unknown => l

def step (l : Line) (s : State) : ShellEvent → Line
  | .poll c _ =>
    match s.mode, c with
    | .prompt, _ => ⟨[], []⟩
    | .input, some c =>
      let k := pressed s.currentKey c
      if k &&& 0xff ≠ 0 then l.press (keyOf k) else l
    | _, _ => l
  | .exec _ => l

end Line

/-- A `memmove` inside the buffer. -/
def Move.Inside (v : Move) : Prop :=
  0 ≤ v.len ∧ (0 ≤ v.dst ∧ v.dst + v.len ≤ maxLineLen + 1) ∧
    (0 ≤ v.src ∧ v.src + v.len ≤ maxLineLen + 1)

def State.InBounds (s : State) : Prop :=
  0 ≤ s.cmdPos ∧ s.cmdPos ≤ s.cmdLen ∧ s.cmdLen ≤ maxLineLen

instance (s : State) : Decidable s.InBounds := inferInstanceAs (Decidable (_ ∧ _))

structure Edits (s : State) (l : Line) : Prop where
  pos_eq : s.cmdPos = l.before.length
  len_eq : s.cmdLen = l.text.length
  text_eq : s.cmdBuf.read 0 l.text.length = l.text
  nonzero : ∀ b ∈ l.text, b ≠ 0
  len_le : l.text.length ≤ maxLineLen

/-! ## Keys -/

namespace Line

@[simp] theorem text_length (l : Line) : l.text.length = l.before.length + l.after.length := by
  simp [text]

end Line

variable {s : State} {l : Line}

theorem Edits.read_before (h : Edits s l) : s.cmdBuf.read 0 l.before.length = l.before.reverse ∧
      s.cmdBuf.read l.before.length l.after.length = l.after := by
  have hread := h.text_eq
  rw [Line.text_length, read_append, Nat.zero_add] at hread
  exact List.append_inj hread (by simp)

theorem sizeT_eq {n : Nat} (h : n ≤ maxLineLen) : ((n : Int) % 4294967296).toNat = n := by
  have : maxLineLen = 80 := rfl
  omega

theorem Edits.insert {s : State} {l : Line} (h : Edits s l) {c : Byte} (hc : c ≠ 0) :
    Edits (Shell.insert s c) (l.press (.char c)) := by
  obtain ⟨hb, ha⟩ := h.read_before
  obtain ⟨hpos, hlen, htext, hnz, hle⟩ := id h
  rw [Line.text_length] at hlen hle
  by_cases hfull : l.text.length < maxLineLen
  · have hroom : ¬ s.cmdLen ≥ maxLineLen := by
      rw [Line.text_length] at hfull
      omega
    have hmove : (insertMove s).apply s.cmdBuf
        = s.cmdBuf.move (l.before.length + 1) l.before.length l.after.length := by
      have hdiff : s.cmdLen - s.cmdPos = (l.after.length : Int) := by omega
      simp only [Move.apply, insertMove, hdiff,
        sizeT_eq (show l.after.length ≤ maxLineLen by omega)]
      rw [hpos]
      rfl
    have hbuf : ((if s.cmdPos ≠ s.cmdLen then (insertMove s).apply s.cmdBuf else s.cmdBuf).set
        s.cmdPos.toNat c).read 0 (l.before.length + l.after.length + 1)
        = l.before.reverse ++ c :: l.after := by
      have hins := s.cmdBuf.read_insert c (Nat.le_add_right l.before.length l.after.length)
      rw [Nat.add_sub_cancel_left, hb, ha] at hins
      rw [hpos]
      split
      · rw [hmove]
        exact hins
      · next heq =>
        have hnil : l.after = [] := eq_nil_of_length_eq_zero (by omega)
        have hend := s.cmdBuf.read_set_end 0 l.before.length c
        rw [Nat.zero_add, hb] at hend
        rw [hnil]
        exact hend
    have htext' : (⟨c :: l.before, l.after⟩ : Line).text = l.before.reverse ++ c :: l.after := by
      simp [Line.text]
    simp only [Shell.insert, if_neg hroom, Line.press, if_pos hfull]
    constructor
    case pos_eq =>
      simp only [length_cons]
      omega
    case len_eq =>
      simp only [Line.text_length, length_cons]
      omega
    case text_eq =>
      rw [htext', ← hbuf, Mem.read_length]
    case nonzero =>
      intro b hb'
      simp only [Line.text, mem_append, mem_reverse] at hnz
      simp only [htext', mem_append, mem_reverse, mem_cons] at hb'
      rcases hb' with hb' | hb' | hb'
      · exact hnz b (.inl hb')
      · exact hb' ▸ hc
      · exact hnz b (.inr hb')
    case len_le =>
      rw [Line.text_length] at hfull ⊢
      simp only [length_cons]
      omega
  · have hroom : s.cmdLen ≥ maxLineLen := by
      rw [Line.text_length] at hfull
      omega
    simp only [Shell.insert, if_pos hroom, Line.press, if_neg hfull]
    exact h

theorem Edits.delete {s : State} {l : Line} (h : Edits s l) (before after : List Byte) (c : Byte)
    (hl : l.text = before.reverse ++ c :: after) :
    Edits { Shell.delete s before.length with cmdPos := before.length } ⟨before, after⟩ := by
  obtain ⟨hpos, hlen, htext, hnz, hle⟩ := h
  have hn : l.text.length = before.length + (after.length + 1) := by
    rw [hl]
    simp
  rw [hn] at hlen hle
  rw [hn, read_append, Nat.zero_add, hl] at htext
  obtain ⟨hb, ha⟩ := List.append_inj htext (by simp)
  have ha' : s.cmdBuf.read (before.length + 1) after.length = after := by
    rw [Mem.read, List.cons.injEq] at ha
    exact ha.2
  have hmove : (deleteMove s before.length).apply s.cmdBuf
      = s.cmdBuf.move before.length (before.length + 1) (after.length + 1) := by
    have hdiff : s.cmdLen - (before.length : Int) = ((after.length + 1 : Nat) : Int) := by omega
    simp only [Move.apply, deleteMove, hdiff,
      sizeT_eq (show after.length + 1 ≤ maxLineLen by omega)]
    rfl
  have hread := s.cmdBuf.read_delete (k := after.length + 1)
    (show before.length < before.length + (after.length + 1) by omega) (by omega)
  rw [show before.length + (after.length + 1) - 1 = before.length + after.length by omega,
    Nat.add_sub_cancel_left, hb, ha', ← hmove] at hread
  constructor
  case pos_eq => rfl
  case len_eq =>
    simp only [Shell.delete, Line.text_length]
    omega
  case text_eq =>
    rw [Line.text_length]
    exact hread
  case nonzero =>
    intro b hb'
    refine hnz b ?_
    rw [hl]
    simp only [Line.text, mem_append, mem_cons] at hb' ⊢
    rcases hb' with hb' | hb'
    · exact .inl hb'
    · exact .inr (.inr hb')
  case len_le =>
    rw [Line.text_length]
    show before.length + after.length ≤ maxLineLen
    omega

theorem Edits.moved (h : Edits s l) (l' : Line) (htext : l'.text = l.text) :
    Edits { s with cmdPos := l'.before.length } l' where
  pos_eq := rfl
  len_eq := by rw [htext]; exact h.len_eq
  text_eq := by rw [htext]; exact h.text_eq
  nonzero := by rw [htext]; exact h.nonzero
  len_le := by rw [htext]; exact h.len_le

theorem Edits.handleKey {s : State} {l : Line} (h : Edits s l) {k : Key}
    (hk : ∀ c, k = .char c → c ≠ 0) : Edits (handleKey s k) (l.press k) := by
  have hpos := h.pos_eq
  have hlen := h.len_eq
  obtain ⟨before, after⟩ := l
  simp only [Line.text_length] at hpos hlen
  cases k with
  | left =>
    cases before with
    | nil => simpa [Shell.handleKey, Line.press, hpos] using h
    | cons c before =>
      rw [length_cons] at hpos
      have hmoved := h.moved ⟨before, c :: after⟩ (by simp [Line.text])
      rw [Shell.handleKey, if_pos (by omega), show s.cmdPos - 1 = before.length by omega]
      exact hmoved
  | right =>
    cases after with
    | nil => simpa [Shell.handleKey, Line.press, hpos, hlen] using h
    | cons c after =>
      rw [length_cons] at hlen
      have hmoved := h.moved ⟨c :: before, after⟩ (by simp [Line.text])
      rw [Shell.handleKey, if_pos (by omega), hpos]
      exact hmoved
  | enter => exact ⟨h.pos_eq, h.len_eq, h.text_eq, h.nonzero, h.len_le⟩
  | delete =>
    cases after with
    | nil => simpa [Shell.handleKey, Line.press, hpos, hlen] using h
    | cons c after =>
      rw [length_cons] at hlen
      have hdel := h.delete before after c (by simp [Line.text])
      rw [Shell.handleKey, if_pos (by omega), hpos]
      rw [← hpos] at hdel ⊢
      exact hdel
  | backspace =>
    cases before with
    | nil => simpa [Shell.handleKey, Line.press, hpos] using h
    | cons c before =>
      rw [length_cons] at hpos
      have hdel := h.delete before after c (by simp [Line.text])
      rw [Shell.handleKey, if_pos (by omega), show s.cmdPos - 1 = before.length by omega]
      exact hdel
  | tab => exact h
  | char c => exact h.insert (hk c rfl)
  | unknown => exact h

theorem Edits.keyMoves_inside (h : Edits s l) (k : Key) : ∀ v ∈ keyMoves s k, v.Inside := by
  have hpos := h.pos_eq
  have hlen := h.len_eq
  have hle := h.len_le
  rw [Line.text_length] at hlen hle
  intro v hv
  cases k with
  | delete | backspace =>
    simp only [keyMoves, mem_ite_nil_right, mem_singleton] at hv
    obtain ⟨hne, rfl⟩ := hv
    simp only [Move.Inside, deleteMove]
    omega
  | char c =>
    simp only [keyMoves, mem_ite_nil_left, mem_ite_nil_right, mem_singleton] at hv
    obtain ⟨hroom, hne, rfl⟩ := hv
    simp only [Move.Inside, insertMove]
    omega
  | left | right | enter | tab | unknown => exact absurd hv not_mem_nil

theorem keyOf_char {k : BitVec 16} (h : k &&& 0xff ≠ 0) {c : Byte} (hc : keyOf k = .char c) :
    c ≠ 0 := by
  have hmask : (k &&& 0xff).toNat = k.toNat % 256 := by
    exact Nat.and_two_pow_sub_one_eq_mod k.toNat 8
  have hlow : k.truncate 8 ≠ 0 := by
    intro hz
    have hz' := congrArg BitVec.toNat hz
    exact h (BitVec.eq_of_toNat_eq (hmask.trans hz'))
  simp only [keyOf] at hc
  split_ifs at hc
  rw [← Key.char.inj hc]
  exact hlow

theorem Edits.cstr_eq (h : Edits s l) :
    (s.cmdBuf.set s.cmdLen.toNat 0).cstr scanLen 0 = l.text := by
  have hle := h.len_le
  rw [h.len_eq, Int.toNat_natCast]
  refine cstr_of_read ?_ h.nonzero ?_ (Nat.lt_succ_of_le hle)
  · rw [read_congr fun i hi => set_other (by omega)]
    exact h.text_eq
  · rw [Nat.zero_add, set_same]

theorem skipSpaces_zero {i : Nat} :
    ∀ {fuel : Nat} {buf : Mem} {j : Nat}, buf i = 0 → (skipSpaces fuel buf j).1 i = 0
  | 0, _, _, h => h
  | fuel + 1, buf, j, h => by
    rw [skipSpaces]
    split
    · refine skipSpaces_zero ?_
      by_cases hij : i = j
      · rw [hij, set_same]
      · rw [set_other hij, h]
    · exact h

theorem splitArgs_zero {i : Nat} :
    ∀ {n : Nat} {buf : Mem} {j : Nat}, buf i = 0 → (splitArgs n buf j).2 i = 0
  | 0, _, _, h => h
  | n + 1, buf, j, h => by
    have hskip : (skipSpaces scanLen buf j).1 i = 0 := skipSpaces_zero h
    simp only [splitArgs]
    split
    · exact hskip
    · split
      · exact hskip
      · exact splitArgs_zero hskip

theorem Move.apply_last {v : Move} (hdst : 0 ≤ v.dst) (hlen : 0 ≤ v.len)
    (h : v.dst + v.len ≤ maxLineLen) (buf : Mem) : v.apply buf maxLineLen = buf maxLineLen :=
  if_neg (by omega)

theorem Edits.last (h : Edits s l) (hlast : s.cmdBuf maxLineLen = 0) (k : Key) :
    (Shell.handleKey s k).cmdBuf maxLineLen = 0 := by
  have hpos := h.pos_eq
  have hlen := h.len_eq
  have hle := h.len_le
  rw [Line.text_length] at hlen hle
  cases k with
  | delete | backspace =>
    simp only [Shell.handleKey]
    split
    · refine (Move.apply_last ?_ ?_ ?_ _).trans hlast <;> simp only [deleteMove] <;> omega
    · exact hlast
  | char c =>
    simp only [Shell.handleKey, Shell.insert]
    split
    · exact hlast
    · show Mem.set _ s.cmdPos.toNat c maxLineLen = 0
      rw [set_other (by omega)]
      split
      · refine (Move.apply_last ?_ ?_ ?_ _).trans hlast <;> simp only [insertMove] <;> omega
      · exact hlast
  | left | right =>
    simp only [Shell.handleKey]
    split <;> exact hlast
  | enter | tab | unknown => exact hlast

def CmdEffect.Fits (f : CmdEffect) (pos : Int) : Prop :=
  if f.activatesUi then pos = 0
  else
    match f.scratch with
    | .none => True
    | .some (_, len) => pos ≤ len ∧ len ≤ maxLineLen

structure Orderly (s : State) : Prop where
  bounds : s.InBounds
  last : s.cmdBuf maxLineLen = 0

theorem Orderly.apply {s : State} (h : Orderly s) {f : CmdEffect} (hf : f.Fits s.cmdPos) :
    Orderly (f.apply s) := by
  obtain ⟨⟨h₀, h₁, h₂⟩, hlast⟩ := h
  obtain ⟨scratch, ui⟩ := f
  cases ui with
  | true =>
    have hpos : s.cmdPos = 0 := hf
    cases scratch with
    | none => exact ⟨⟨h₀, Int.le_of_eq hpos, Int.natCast_nonneg _⟩, hlast⟩
    | some v => exact ⟨⟨h₀, Int.le_of_eq hpos, Int.natCast_nonneg _⟩, hlast⟩
  | false =>
    cases scratch with
    | none => exact ⟨⟨h₀, h₁, h₂⟩, hlast⟩
    | some v =>
      have hlen : s.cmdPos ≤ v.2 ∧ v.2 ≤ maxLineLen := hf
      exact ⟨⟨h₀, hlen⟩, hlast⟩

theorem Orderly.execLine (h : Orderly s)
    (hf : (lineEffect cmds s.cmdBuf).Fits s.cmdPos) : Orderly (shellExecLine cmds s) :=
  Orderly.apply (s := { s with cmdBuf := (splitArgs maxArgs s.cmdBuf 0).2 })
    ⟨h.bounds, splitArgs_zero h.last⟩ hf

/-! ## Whole runs -/

abbrev EditPair := State × Line

variable {cmds : Commands} {c : EditPair}

def editStep (cmds : Commands) (c : EditPair) (e : ShellEvent) : EditPair :=
  (c.1.step cmds e, c.2.step c.1 e)

def editInit : EditPair := (State.init, ⟨[], []⟩)

def EventOk (cmds : Commands) (c : EditPair) : ShellEvent → Prop
  | .poll _ _ =>
    c.1.mode = .exec → (lineEffect cmds (c.1.cmdBuf.set c.1.cmdLen.toNat 0)).Fits c.1.cmdPos
  | .exec cmd =>
    (c.1.mode = .prompt ∨ c.1.mode = .execUi) ∧ c.1.cmdPos ≤ (min cmd.val.length maxLineLen : Nat) ∧
      (lineEffect cmds (strncpy c.1.cmdBuf cmd.val maxLineLen)).Fits c.1.cmdPos

/-- The call moves bytes only inside the buffer, and an Enter executes the
line as typed. -/
def Faithful (c : EditPair) (e : ShellEvent) : Prop :=
  (∀ v ∈ c.1.moves e, v.Inside) ∧ ∀ t ∈ c.1.entered e, t = c.2.text

structure EditInv (c : EditPair) : Prop where
  orderly : Orderly c.1
  edits : c.1.mode = .input ∨ c.1.mode = .exec → Edits c.1 c.2

theorem Edits.inBounds (h : Edits s l) : s.InBounds := by
  have hpos := h.pos_eq
  have hlen := h.len_eq
  have hle := h.len_le
  rw [Line.text_length] at hlen hle
  unfold State.InBounds
  omega

theorem edits_empty (hpos : s.cmdPos = 0) (hlen : s.cmdLen = 0) : Edits s ⟨[], []⟩ where
  pos_eq := hpos
  len_eq := hlen
  text_eq := rfl
  nonzero := fun _ h => absurd h not_mem_nil
  len_le := Nat.zero_le _

theorem EditInv.key (h : EditInv (s, l)) (hm : s.mode = .input) {k : BitVec 16}
    (hk : k &&& 0xff ≠ 0) :
    EditInv ({ Shell.handleKey s (keyOf k) with currentKey := 0 }, l.press (keyOf k)) := by
  have he : Edits s l := h.edits (.inl hm)
  have hkey : Edits (Shell.handleKey s (keyOf k)) (l.press (keyOf k)) :=
    he.handleKey fun c hc => keyOf_char hk hc
  refine ⟨⟨hkey.inBounds, he.last h.orderly.last (keyOf k)⟩, fun _ => ?_⟩
  exact ⟨hkey.pos_eq, hkey.len_eq, hkey.text_eq, hkey.nonzero, hkey.len_le⟩

theorem Orderly.terminate (h : Orderly s) :
    Orderly { s with cmdBuf := s.cmdBuf.set s.cmdLen.toNat 0 } := by
  refine ⟨h.bounds, ?_⟩
  show s.cmdBuf.set s.cmdLen.toNat 0 maxLineLen = 0
  by_cases hlen : maxLineLen = s.cmdLen.toNat
  · rw [← hlen, set_same]
  · rw [set_other hlen]
    exact h.last

theorem Orderly.withMode (h : Orderly s) (m : Mode) : Orderly { s with mode := m } :=
  ⟨h.bounds, h.last⟩

theorem Orderly.cleared (h : Orderly s) : Orderly { s with cmdBuf := s.cmdBuf.set 0 0 } := by
  refine ⟨h.bounds, ?_⟩
  exact h.last

theorem Orderly.editInv (h : Orderly s) (l : Line) (hm : s.mode = .prompt ∨ s.mode = .execUi) :
    EditInv (s, l) := by
  refine ⟨h, fun hmode => ?_⟩
  rcases hm with hm | hm <;> simp [hm] at hmode

theorem EditInv.poll {ch : Option Byte} {ui : Bool}
    (h : EditInv c) (hok : EventOk cmds c (.poll ch ui)) :
    EditInv (editStep cmds c (.poll ch ui)) := by
  obtain ⟨s, l⟩ := c
  cases hm : s.mode with
  | prompt =>
    simp only [editStep, State.step, shellInteractive, Line.step, hm]
    have hbounds : (0 : Int) ≤ 0 ∧ (0 : Int) ≤ 0 ∧ (0 : Int) ≤ maxLineLen := by decide
    exact ⟨⟨hbounds, h.orderly.last⟩, fun _ => edits_empty rfl rfl⟩
  | input =>
    cases ch with
    | none => simpa only [editStep, State.step, shellInteractive, Line.step, hm] using h
    | some b =>
      simp only [editStep, State.step, shellInteractive, Line.step, hm]
      by_cases hk : pressed s.currentKey b &&& 0xff ≠ 0
      · rw [if_pos hk, if_pos hk]
        exact h.key hm hk
      · rw [if_neg hk, if_neg hk]
        have he : Edits s l := h.edits (.inl hm)
        exact ⟨⟨h.orderly.bounds, h.orderly.last⟩,
          fun _ => ⟨he.pos_eq, he.len_eq, he.text_eq, he.nonzero, he.len_le⟩⟩
  | exec =>
    simp only [editStep, State.step, shellInteractive, Line.step, hm]
    have hline := h.orderly.terminate.execLine (hok hm)
    simp only [hm] at hline
    split
    · next hui => exact hline.editInv l (.inr hui)
    · exact (hline.withMode .prompt).editInv l (.inl rfl)
  | execUi =>
    simp only [editStep, State.step, shellInteractive, Line.step, hm]
    split
    · exact (h.orderly.terminate.withMode .prompt).editInv l (.inl rfl)
    · exact h

theorem cstr_strncpy {buf : Mem} (hlast : buf maxLineLen = 0) (cmd : CString) :
    (strncpy buf cmd.val maxLineLen).cstr scanLen 0 = cmd.val.take maxLineLen := by
  have hlen : (cmd.val.take maxLineLen).length ≤ maxLineLen := length_take_le _ _
  have hlen' : (cmd.val.take maxLineLen).length = min maxLineLen cmd.val.length :=
    length_take
  refine cstr_of_read ?_ ?_ ?_ (Nat.lt_succ_of_le hlen)
  · refine read_eq_of fun i hi => ?_
    rw [Nat.zero_add, strncpy, if_pos (by omega)]
    simp only [List.getD_eq_getElem?_getD, List.getElem?_take_of_lt (show i < maxLineLen by omega)]
  · exact fun b hb => cmd.property b (mem_of_mem_take hb)
  · rw [strncpy, hlen']
    split
    · rw [List.getD_eq_getElem?_getD, List.getElem?_eq_none (by omega)]
      rfl
    · rw [show min maxLineLen cmd.val.length = maxLineLen by omega]
      exact hlast

theorem shellExecLine_mode (cmds : Commands) (s : State) :
    (shellExecLine cmds s).mode = s.mode ∨ (shellExecLine cmds s).mode = .execUi := by
  rw [shellExecLine]
  obtain ⟨scratch, ui⟩ := lineEffect cmds s.cmdBuf
  cases ui with
  | true => exact .inr rfl
  | false =>
    cases scratch with
    | none => exact .inl rfl
    | some v => exact .inl rfl

theorem EditInv.exec {cmd : CString} (h : EditInv c)
    (hok : EventOk cmds c (.exec cmd)) : EditInv (editStep cmds c (.exec cmd)) := by
  obtain ⟨s, l⟩ := c
  obtain ⟨hmode, hpos, hfits⟩ := hok
  simp only [editStep, State.step, shellExec, cstr_strncpy h.orderly.last]
  have hstart : Orderly { s with
      cmdBuf := strncpy s.cmdBuf cmd.val maxLineLen
      cmdLen := (cmd.val.take maxLineLen).length } := by
    refine ⟨⟨h.orderly.bounds.1, ?_, ?_⟩, ?_⟩
    · rw [length_take, Nat.min_comm]
      exact hpos
    · exact Int.ofNat_le.mpr (length_take_le _ _)
    · exact h.orderly.last
  refine (hstart.execLine hfits).cleared.editInv l ?_
  · rcases shellExecLine_mode cmds _ with hm | hm
    · rcases hmode with hmode | hmode
      · exact .inl (hm.trans hmode)
      · exact .inr (hm.trans hmode)
    · exact .inr hm

theorem editInv_step {e : ShellEvent} (h : EditInv c)
    (hok : EventOk cmds c e) : EditInv (editStep cmds c e) := by
  cases e with
  | poll ch ui => exact h.poll hok
  | exec cmd => exact h.exec hok

theorem EditInv.faithful (h : EditInv c) (e : ShellEvent) : Faithful c e := by
  constructor
  · intro v hv
    cases e with
    | exec cmd => exact absurd hv not_mem_nil
    | poll ch ui =>
      cases ch with
      | none => exact absurd hv not_mem_nil
      | some b =>
        simp only [State.moves, mem_ite_nil_right] at hv
        exact (h.edits (.inl hv.1.1)).keyMoves_inside _ v hv.2
  · intro t ht
    cases e with
    | exec cmd => exact absurd ht (Option.not_mem_none t)
    | poll ch ui =>
      simp only [State.entered] at ht
      split at ht
      · next hm =>
        rw [Option.mem_some_iff] at ht
        rw [← ht]
        exact (h.edits (.inr hm)).cstr_eq
      · exact absurd ht (Option.not_mem_none t)

theorem editInv_init : EditInv editInit := by
  refine Orderly.editInv ⟨?_, rfl⟩ _ (.inl rfl)
  exact ⟨Int.le_refl 0, Int.le_refl 0, by decide⟩

/-- In every run whose calls come at good moments, the position stays in the
line and the line in the buffer, every `memmove` stays inside the buffer, and
Enter executes the line as it was typed. -/
theorem editRun_faithful (cmds : Commands) (es : List ShellEvent)
    (hok : Run.Steps (editStep cmds) (EventOk cmds) editInit es) :
    Run.Always (editStep cmds) (fun c => c.1.InBounds) editInit es ∧
      Run.Steps (editStep cmds) Faithful editInit es := by
  constructor
  · exact Run.always_of_inv (fun c e hI hp => editInv_step hI hp) (fun c hI => hI.orderly.bounds)
      editInv_init hok
  · exact Run.steps_of_inv (fun c e hI hp => editInv_step hI hp) (fun c e hI _ => hI.faithful e)
      editInv_init hok

instance (f : CmdEffect) (pos : Int) : Decidable (f.Fits pos) :=
  match f with
  | ⟨_, true⟩ => inferInstanceAs (Decidable (pos = 0))
  | ⟨.none, false⟩ => isTrue trivial
  | ⟨.some (_, len), false⟩ => inferInstanceAs (Decidable (pos ≤ len ∧ len ≤ maxLineLen))

instance decEventOk (cmds : Commands) (c : EditPair) : DecidablePred (EventOk cmds c)
  | .poll _ _ => inferInstanceAs (Decidable (_ → _))
  | .exec _ => inferInstanceAs (Decidable (_ ∧ _))

def plainCommands : Commands := fun _ => .none

/-- The line `ab` is typed, its cursor moved left, `c` inserted, and entered. -/
def typedRun : List ShellEvent :=
  [.poll none true, .poll (some 0x61) true, .poll (some 0x62) true, .poll (some 27) true,
    .poll (some 0x5b) true, .poll (some 68) true, .poll (some 0x63) true, .poll (some 13) true,
    .poll none true]

theorem editRun_faithful_typed :
    Run.Always (editStep plainCommands) (fun c => c.1.InBounds) editInit typedRun ∧
      Run.Steps (editStep plainCommands) Faithful editInit typedRun :=
  editRun_faithful plainCommands typedRun (by decide +kernel)

/-- Another task runs `ps` while three letters are on the line. -/
def interruptedRun : List ShellEvent :=
  [.poll none true, .poll (some 0x61) true, .poll (some 0x62) true, .poll (some 0x63) true,
    .exec ⟨[0x70, 0x73], by decide⟩]

/-- The position is then past the length. -/
theorem editRun_interrupted : ¬ ∀ (cmds : Commands) (es : List ShellEvent),
    Run.Always (editStep cmds) (fun c => c.1.InBounds) editInit es ∧
      Run.Steps (editStep cmds) Faithful editInit es := by
  intro h
  exact absurd (h plainCommands interruptedRun).1.last (by decide +kernel)

end Wrpc.Shell
