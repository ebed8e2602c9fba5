/-
# The interactive shell (`shell.c`)

One static line buffer, cursor and length serve two callers: the console task,
which edits a line key by key in `shell_interactive`, and any task that has a
command string to run, through `shell_exec`.

Commands are a parameter: the ones that matter here are those that reach back
into the shell's own variables (`shell_activate_ui_command`, and `init`, whose
sub-commands use the line buffer and its length as scratch space).
-/
import Wrpc.Lib.Mem

namespace Wrpc.Shell

/-- `SH_MAX_LINE_LEN`. -/
def maxLineLen : Nat := 80

/-- `SH_MAX_ARGS`. -/
def maxArgs : Nat := 8

/-- The values of `state`. -/
inductive Mode where
  | prompt | input | exec | execUi
deriving DecidableEq, Repr

structure State where
  cmdBuf : Mem
  cmdPos : Int
  cmdLen : Int
  mode : Mode
  currentKey : BitVec 16
  uiCallback : Bool

/-! ## Editing -/

/-- The arguments of a `memmove` inside `cmd_buf`, as indices. -/
structure Move where
  dst : Int
  src : Int
  len : Int
deriving DecidableEq, Repr

/-- `memmove`.  The length becomes a `size_t`, of 32 bits. -/
def Move.apply (v : Move) (buf : Mem) : Mem :=
  buf.move v.dst.toNat v.src.toNat (v.len % 4294967296).toNat

/-- The `memmove` of `insert`. -/
def insertMove (s : State) : Move := ⟨s.cmdPos + 1, s.cmdPos, s.cmdLen - s.cmdPos⟩

/-- The `memmove` of `delete`. -/
def deleteMove (s : State) (pos : Int) : Move := ⟨pos, pos + 1, s.cmdLen - pos⟩

/-- `insert`. -/
def insert (s : State) (c : Byte) : State :=
  if s.cmdLen ≥ maxLineLen then s
  else
    let buf := if s.cmdPos ≠ s.cmdLen then (insertMove s).apply s.cmdBuf else s.cmdBuf
    { s with cmdBuf := buf.set s.cmdPos.toNat c, cmdPos := s.cmdPos + 1, cmdLen := s.cmdLen + 1 }

/-- `delete`. -/
def delete (s : State) (pos : Int) : State :=
  { s with cmdBuf := (deleteMove s pos).apply s.cmdBuf, cmdLen := s.cmdLen - 1 }

/-- The cases of the switch on `current_key`. -/
inductive Key where
  | left | right | enter | delete | backspace | tab
  | char (c : Byte)
  | unknown
deriving DecidableEq, Repr

/-- `ESCAPE_FLAG`. -/
def escapeFlag : BitVec 16 := 0x100

/-- The case a value of `current_key` takes. -/
def keyOf (k : BitVec 16) : Key :=
  if k = escapeFlag ||| 68 then .left
  else if k = escapeFlag ||| 67 then .right
  else if k = 13 ∨ k = 10 then .enter
  else if k = 126 then .delete
  else if k = 127 then .backspace
  else if k = 9 then .tab
  else if k &&& escapeFlag = 0 then .char (k.truncate 8)
  else .unknown

/-- How a console byte changes `current_key`. -/
def pressed (k : BitVec 16) (c : Byte) : BitVec 16 :=
  if c = 27 ∨ (k &&& escapeFlag ≠ 0 ∧ c = 0x5b) then escapeFlag else k ||| c.zeroExtend 16

/-- The switch on `current_key`. -/
def handleKey (s : State) : Key → State
  | .left => if s.cmdPos > 0 then { s with cmdPos := s.cmdPos - 1 } else s
  | .right => if s.cmdPos < s.cmdLen then { s with cmdPos := s.cmdPos + 1 } else s
  | .enter => { s with mode := .exec }
  | .delete => if s.cmdPos ≠ s.cmdLen then delete s s.cmdPos else s
  | .backspace =>
    if s.cmdPos > 0 then { delete s (s.cmdPos - 1) with cmdPos := s.cmdPos - 1 } else s
  | .tab => s
  | .char c => insert s c
  | .unknown => s

/-- The `memmove`s a key causes. -/
def keyMoves (s : State) : Key → List Move
  | .delete => if s.cmdPos ≠ s.cmdLen then [deleteMove s s.cmdPos] else []
  | .backspace => if s.cmdPos > 0 then [deleteMove s (s.cmdPos - 1)] else []
  | .char _ =>
    if s.cmdLen ≥ maxLineLen then [] else if s.cmdPos ≠ s.cmdLen then [insertMove s] else []
  | _ => []

/-! ## Running a line -/

/-- How many bytes of `cmd_buf` are scanned at most: the buffer has one more
than `SH_MAX_LINE_LEN`, and its last one is a NUL. -/
def scanLen : Nat := maxLineLen + 1

/-- `while (cmd_buf[i] == ' ') cmd_buf[i++] = 0`. -/
def skipSpaces : Nat → Mem → Nat → Mem × Nat
  | 0, buf, i => (buf, i)
  | fuel + 1, buf, i =>
    if buf i = 0x20 then skipSpaces fuel (buf.set i 0) (i + 1) else (buf, i)

/-- `while (cmd_buf[i] != ' ' && cmd_buf[i]) i++`. -/
def skipArg : Nat → Mem → Nat → Nat
  | 0, _, i => i
  | fuel + 1, buf, i => if buf i ≠ 0x20 ∧ buf i ≠ 0 then skipArg fuel buf (i + 1) else i

/-- The loop of `_shell_exec`: where the arguments start, and the buffer with
the blanks before them cut out. -/
def splitArgs : Nat → Mem → Nat → List Nat × Mem
  | 0, buf, _ => ([], buf)
  | n + 1, buf, i =>
    let r := skipSpaces scanLen buf i
    if r.1 r.2 = 0 then ([], r.1)
    else
      let j := skipArg scanLen r.1 r.2
      if r.1 j = 0 then ([r.2], r.1)
      else
        let rest := splitArgs n r.1 j
        (r.2 :: rest.1, rest.2)

structure CmdEffect where
  /-- `cmd_buf` (its first `SH_MAX_LINE_LEN` bytes) and `cmd_len` used as scratch space. -/
  scratch : Option (Mem × Int)
  /-- `shell_activate_ui_command` called. -/
  activatesUi : Bool

def CmdEffect.none : CmdEffect := ⟨Option.none, false⟩

def CmdEffect.apply (f : CmdEffect) (s : State) : State :=
  let s := match f.scratch with
    | .none => s
    | .some (buf, len) =>
      { s with cmdBuf := fun i => if i < maxLineLen then buf i else s.cmdBuf i, cmdLen := len }
  if f.activatesUi then { s with uiCallback := true, mode := .execUi, cmdLen := 0 } else s

/-- The command table: what the command with these arguments does. -/
abbrev Commands := List (List Byte) → CmdEffect

/-- The command on the line: none when it is empty or a comment. -/
def lineEffect (cmds : Commands) (buf : Mem) : CmdEffect :=
  let r := splitArgs maxArgs buf 0
  match r.1 with
  | [] => .none
  | arg :: _ => if r.2 arg = 0x23 then .none else cmds (r.1.map (r.2.cstr scanLen))

/-- `_shell_exec`. -/
def shellExecLine (cmds : Commands) (s : State) : State :=
  (lineEffect cmds s.cmdBuf).apply { s with cmdBuf := (splitArgs maxArgs s.cmdBuf 0).2 }

/-- `strncpy(dst, src, n)`. -/
def strncpy (dst : Mem) (src : List Byte) (n : Nat) : Mem :=
  fun i => if i < n then src.getD i 0 else dst i

/-- `shell_exec`, with a command that is not `cmd_buf` itself. -/
def shellExec (cmds : Commands) (s : State) (cmd : List Byte) : State :=
  let buf := strncpy s.cmdBuf cmd maxLineLen
  let s := shellExecLine cmds { s with cmdBuf := buf, cmdLen := (buf.cstr scanLen 0).length }
  { s with cmdBuf := s.cmdBuf.set 0 0 }

/-- `shell_interactive`, given what `console_getc` returned and whether the UI
callback, if it is called, wants to go on. -/
def shellInteractive (cmds : Commands) (s : State) (c : Option Byte) (uiAlive : Bool) : State :=
  match s.mode with
  | .prompt => { s with cmdPos := 0, cmdLen := 0, mode := .input }
  | .input =>
    match c with
    | none => s
    | some c =>
      let k := pressed s.currentKey c
      if k &&& 0xff ≠ 0 then { handleKey s (keyOf k) with currentKey := 0 }
      else { s with currentKey := k }
  | .exec =>
    let s := shellExecLine cmds { s with cmdBuf := s.cmdBuf.set s.cmdLen.toNat 0 }
    if s.mode = .execUi then s else { s with mode := .prompt }
  | .execUi =>
    if !s.uiCallback || !uiAlive || c = some 27 || c = some 0x71 then
      { s with cmdBuf := s.cmdBuf.set s.cmdLen.toNat 0, mode := .prompt }
    else s

/-! ## Runs -/

abbrev CString := { t : List Byte // ∀ b ∈ t, b ≠ 0 }

inductive ShellEvent where
  | poll (c : Option Byte) (uiAlive : Bool)
  | exec (cmd : CString)

def State.step (cmds : Commands) (s : State) : ShellEvent → State
  | .poll c uiAlive => shellInteractive cmds s c uiAlive
  | .exec cmd => shellExec cmds s cmd.val

/-- The `memmove`s of a call. -/
def State.moves (s : State) : ShellEvent → List Move
  | .poll (some c) _ =>
    if s.mode = .input ∧ pressed s.currentKey c &&& 0xff ≠ 0 then
      keyMoves s (keyOf (pressed s.currentKey c))
    else []
  | _ => []

def State.entered (s : State) : ShellEvent → Option (List Byte)
  | .poll _ _ =>
    if s.mode = .exec then some ((s.cmdBuf.set s.cmdLen.toNat 0).cstr scanLen 0) else none
  | .exec _ => none

/-- `shell_init`, over the zeroed statics. -/
def State.init : State where
  cmdBuf := fun _ => 0
  cmdPos := 0
  cmdLen := 0
  mode := .prompt
  currentKey := 0
  uiCallback := false

end Wrpc.Shell
