/-
# The packet filter of the endpoint

The classifier of the WR endpoint is a processor with 32 one-bit registers and a program
memory of 64 words of 36 bits (the comment at the head of `tools/pfilter-builder.c`).  The
program has no jumps: it runs once for each frame, up to FIN, and what counts at the end is
the drop register and the eight class registers.

A program may compare the word at `offset` only from the address `offset` on, since the
words arrive while it runs; that is the builder's check, so an instruction here sees the
whole frame.
-/
import Mathlib.Logic.Function.Basic

namespace Wrpc.Pfilter

/-! ## Operations and registers -/

/-- `pfilter_op_t`. -/
inductive Op where
  | and | nand | or | nor | xor | xnor | mov | not
deriving DecidableEq, Repr

/-- The number of an operation in `dev/endpoint.h`. -/
def Op.code : Op → BitVec 3
  | .and => 0
  | .or => 1
  | .xor => 2
  | .mov => 3
  | .nand => 4
  | .nor => 5
  | .xnor => 6
  | .not => 7

def Op.ofCode (c : BitVec 3) : Op :=
  match c.toNat with
  | 0 => .and
  | 1 => .or
  | 2 => .xor
  | 3 => .mov
  | 4 => .nand
  | 5 => .nor
  | 6 => .xnor
  | _ => .not

@[simp] theorem Op.ofCode_code (op : Op) : Op.ofCode op.code = op := by
  cases op <;> rfl

/-- `a op b`; MOV and NOT take the first operand and ignore the second. -/
def Op.apply : Op → Bool → Bool → Bool
  | .and, a, b => a && b
  | .nand, a, b => !(a && b)
  | .or, a, b => a || b
  | .nor, a, b => !(a || b)
  | .xor, a, b => a ^^ b
  | .xnor, a, b => !(a ^^ b)
  | .mov, a, _ => a
  | .not, a, _ => !a

/-- The number of a register, `r - R_ZERO` in the builder. -/
abbrev Reg := BitVec 5

abbrev Regs := Reg → Bool

def rZero : Reg := 0

def rDrop : Reg := 23

/-- `R_CLASS(x)`. -/
def rClass (x : Fin 8) : Reg := 24 + BitVec.ofNat 5 x.val

/-! ## Instructions -/

inductive Instr where
  | cmp (offset : BitVec 6) (value mask : BitVec 16) (op : Op) (rd : Reg)
  | logic (rd ra : Reg) (op : Op) (rb : Reg) (op2 : Op) (rc : Reg)
  | fin
deriving DecidableEq, Repr

/-- A comparison's mask is a bit for each nibble, the lowest first. -/
def nibbles (m₀ m₁ m₂ m₃ : BitVec 1) : BitVec 16 :=
  m₃.signExtend 4 ++ m₂.signExtend 4 ++ m₁.signExtend 4 ++ m₀.signExtend 4

def decode (x : BitVec 36) : Instr :=
  if x.extractLsb' 35 1 = 1 then .fin
  else if x.extractLsb' 34 1 = 1 then
    .logic (x.extractLsb' 7 1 ++ x.extractLsb' 3 4) (x.extractLsb' 8 5)
      (.ofCode (x.extractLsb' 0 3)) (x.extractLsb' 13 5) (.ofCode (x.extractLsb' 23 3))
      (x.extractLsb' 18 5)
  else
    .cmp (x.extractLsb' 7 6) (x.extractLsb' 13 16)
      (nibbles (x.extractLsb' 29 1) (x.extractLsb' 30 1) (x.extractLsb' 31 1)
        (x.extractLsb' 32 1))
      (.ofCode (x.extractLsb' 0 3)) ((x.extractLsb' 3 4).setWidth 5)

/-- What one instruction does on a frame whose 16-bit words are `word`. -/
def step (word : Nat → BitVec 16) : Instr → Regs → Regs
  | .cmp offset value mask op rd, r =>
    Function.update r rd (op.apply (word offset.toNat &&& mask == value) (r rd))
  | .logic rd ra op rb op2 rc, r =>
    Function.update r rd (op2.apply (op.apply (r ra) (r rb)) (r rc))
  | .fin, r => r

def exec (word : Nat → BitVec 16) : List Instr → Regs → Regs
  | [], r => r
  | .fin :: _, r => r
  | i :: is, r => exec word is (step word i r)

theorem exec_append (word : Nat → BitVec 16) : ∀ (is js : List Instr) (r : Regs),
    .fin ∉ is → exec word (is ++ js) r = exec word js (exec word is r)
  | [], _, _, _ => rfl
  | .fin :: _, _, _, h => absurd List.mem_cons_self h
  | .cmp .. :: is, js, _, h => exec_append word is js _ fun hm => h (List.mem_cons_of_mem _ hm)
  | .logic .. :: is, js, _, h => exec_append word is js _ fun hm => h (List.mem_cons_of_mem _ hm)

theorem exec_fin (word : Nat → BitVec 16) (is js : List Instr) (r : Regs) (h : .fin ∉ is) :
    exec word (is ++ .fin :: js) r = exec word is r := by
  rw [exec_append word is _ r h]
  rfl

/-- An Ethernet frame as the filter gets it, of at least 60 bytes. -/
structure Frame where
  bytes : List (BitVec 8)
  long : 60 ≤ bytes.length
deriving DecidableEq

namespace Frame

variable (f : Frame)

def byte (k : Nat) : BitVec 8 := f.bytes.getD k 0

/-- The `k`-th 16-bit word, in network order. -/
def word (k : Nat) : BitVec 16 := f.byte (2 * k) ++ f.byte (2 * k + 1)

end Frame

end Wrpc.Pfilter
