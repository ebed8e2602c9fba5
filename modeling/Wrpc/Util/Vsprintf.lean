/-
# The formatted output of `pp_printf` (`vsprintf-full.c`)

The configurations of all boards print with this implementation, only that of the SNMP
tests with `vsprintf-xint.c`.  `ppVsprintf` reads the format as the C code does: flags,
width, precision and qualifier of a directive one after the other, then the conversion.
`number` pads in up to four places, of which at most one is at work for a given set of
flags.

The arguments are those of a 32-bit machine: `int` and `long` have 32 bits, `long long`
has 64.  Where the arguments do not fit the format, 0 or the empty string is printed.
-/
import Wrpc.Lib.Mem

namespace Wrpc.Printf

open List BitVec

/-- The bits `ZEROPAD`, `SIGN`, `PLUS`, `SPACE`, `LEFT`, `SMALL` and `SPECIAL`. -/
structure Flags where
  zeropad : Bool := false
  sign : Bool := false
  plus : Bool := false
  space : Bool := false
  left : Bool := false
  small : Bool := false
  special : Bool := false
deriving DecidableEq, Repr

/-- `digits[d] | locase` -/
def digitOf (small : Bool) (d : Nat) : Char :=
  (if small then "0123456789abcdef" else "0123456789ABCDEF").toList.getD d '0'

/-- The `do` loop of `number`; `tmp` is what it has so far, the last digit at its end.  A
64-bit number has at most 64 digits. -/
def digitLoop (small : Bool) (base : Nat) : Nat → Nat → List Char → List Char
  | 0, _, tmp => tmp
  | fuel + 1, num, tmp =>
    let tmp := digitOf small (num % base) :: tmp
    if num / base ≠ 0 then digitLoop small base fuel (num / base) tmp else tmp

/-- `while (--size >= 0) *buf++ = c`, with `size` behind it. -/
def pad (c : Char) (size : Int) : List Char × Int :=
  (List.replicate size.toNat c, min (size - 1) (-1))

/-- The sign character, the absolute value, and the width that is left. -/
def signOf (type : Flags) (num : BitVec 64) (size : Int) : List Char × BitVec 64 × Int :=
  if type.sign then
    if num.slt 0#64 then (['-'], -num, size - 1)
    else if type.plus then (['+'], num, size - 1)
    else if type.space then ([' '], num, size - 1)
    else ([], num, size)
  else ([], num, size)

/-- `number` -/
def number (num : BitVec 64) (base : Nat) (size precision : Int) (type : Flags) : List Char :=
  let zeropad := type.zeropad && !type.left
  let needPfx := type.special && base != 10
  let (sign, num, size) := signOf type num size
  let size := if needPfx then (if base = 16 then size - 2 else size - 1) else size
  let tmp := if num = 0 then ['0'] else digitLoop type.small base 64 num.toNat []
  let precision := max (tmp.length : Int) precision
  let size := size - precision
  let (lead, size) := if !zeropad && !type.left then pad ' ' size else ([], size)
  let pfx := if needPfx then
      (if base = 16 then ['0', if type.small then 'x' else 'X'] else ['0']) else []
  let (fill, size) := if !type.left then pad (if zeropad then '0' else ' ') size else ([], size)
  let more := List.replicate (precision - tmp.length).toNat '0'
  lead ++ sign ++ pfx ++ fill ++ more ++ tmp ++ (pad ' ' size).1

/-- `string`: a precision of -1 is none. -/
def string (s : List Char) (fieldWidth precision : Int) (flags : Flags) : List Char :=
  let s := if precision < 0 then s else s.take precision.toNat
  let fill := List.replicate (fieldWidth - s.length).toNat ' '
  if flags.left then s ++ fill else fill ++ s

/-! ## Directives -/

inductive Arg where
  | int (v : BitVec 32)
  | longLong (v : BitVec 64)
  | str (s : List Char)

/-- `va_arg(args, int)` -/
def nextInt : List Arg → BitVec 32 × List Arg
  | .int v :: args => (v, args)
  | args => (0, args.tail)

/-- `va_arg(args, unsigned long long)` -/
def nextLongLong : List Arg → BitVec 64 × List Arg
  | .longLong v :: args => (v, args)
  | args => (0, args.tail)

/-- `va_arg(args, char *)` -/
def nextStr : List Arg → List Char × List Arg
  | .str s :: args => (s, args)
  | args => ([], args.tail)

/-- The flags, from `repeat` on. -/
def readFlags : List Char → Flags → Flags × List Char
  | '-' :: fmt, f => readFlags fmt { f with left := true }
  | '+' :: fmt, f => readFlags fmt { f with plus := true }
  | ' ' :: fmt, f => readFlags fmt { f with space := true }
  | '#' :: fmt, f => readFlags fmt { f with special := true }
  | '0' :: fmt, f => readFlags fmt { f with zeropad := true }
  | fmt, f => (f, fmt)

def isDigit (c : Char) : Bool := '0' ≤ c && c ≤ '9'

/-- `skip_atoi` -/
def skipAtoi : List Char → Int → Int × List Char
  | [], i => (i, [])
  | c :: fmt, i => if isDigit c then skipAtoi fmt (i * 10 + (c.toNat - '0'.toNat))
        else (i, c :: fmt)

/-- The field width; one given as an argument may ask for the left side. -/
def readWidth (fmt : List Char) (f : Flags) (args : List Arg) :
    Int × Flags × List Char × List Arg :=
  match fmt with
  | '*' :: fmt =>
    let (w, args) := nextInt args
    if w.toInt < 0 then (-w.toInt, { f with left := true }, fmt, args)
    else (w.toInt, f, fmt, args)
  | c :: fmt =>
    if isDigit c then
      let (w, fmt) := skipAtoi (c :: fmt) 0
      (w, f, fmt, args)
    else (-1, f, c :: fmt, args)
  | [] => (-1, f, [], args)

def readPrecision (fmt : List Char) (args : List Arg) : Int × List Char × List Arg :=
  match fmt with
  | '.' :: '*' :: fmt =>
    let (p, args) := nextInt args
    (max p.toInt 0, fmt, args)
  | '.' :: fmt =>
    if (fmt.head?.map isDigit).getD false then
      let (p, fmt) := skipAtoi fmt 0
      (p, fmt, args)
    else (0, fmt, args)
  | fmt => (-1, fmt, args)

/-- `qualifier`: `long` is `l`, `Z`, `z` and `t`. -/
inductive Qualifier where
  | none | short | long | longLong
deriving DecidableEq, Repr

/-- The qualifier; those that are unsigned come with a `false`. -/
def readQualifier : List Char → Qualifier × Bool × List Char
  | 'h' :: fmt => (.short, true, fmt)
  | 'l' :: 'l' :: fmt => (.longLong, true, fmt)
  | 'l' :: fmt => (.long, true, fmt)
  | 'L' :: fmt => (.longLong, true, fmt)
  | 'Z' :: fmt => (.long, false, fmt)
  | 'z' :: fmt => (.long, false, fmt)
  | 't' :: fmt => (.long, false, fmt)
  | fmt => (.none, true, fmt)

def fetchNumber (q : Qualifier) (signed : Bool) (args : List Arg) : BitVec 64 × List Arg :=
  match q with
  | .longLong => nextLongLong args
  | .short =>
    let (v, args) := nextInt args
    let v := v.setWidth 16
    (if signed then v.signExtend 64 else v.setWidth 64, args)
  | .long | .none =>
    let (v, args) := nextInt args
    (if signed then v.signExtend 64 else v.setWidth 64, args)

/-- Base and flags of an integer conversion, and the width `p` sets. -/
def conversion (c : Char) (f : Flags) (width : Int) : Option (Nat × Flags × Int) :=
  match c with
  | 'o' => some (8, f, width)
  | 'p' => some (16, { f with zeropad := true, small := true }, 8)
  | 'x' => some (16, { f with small := true }, width)
  | 'X' => some (16, f, width)
  | 'd' => some (10, { f with sign := true }, width)
  | 'i' => some (10, { f with sign := true }, width)
  | 'u' => some (10, f, width)
  | _ => none

/-- One directive, the format standing behind `%`: what is printed, and the format and the
arguments behind it.  `n` stores the count through its argument and prints nothing. -/
def directive (fmt : List Char) (args : List Arg) : List Char × List Char × List Arg :=
  let (f, fmt) := readFlags fmt {}
  let (width, f, fmt, args) := readWidth fmt f args
  let (precision, fmt, args) := readPrecision fmt args
  let (q, signed, fmt) := readQualifier fmt
  match fmt with
  | [] => (['%'], [], args)
  | 'c' :: fmt =>
    let (v, args) := nextInt args
    let fill := List.replicate (width - 1).toNat ' '
    let c := Char.ofNat (v.toNat % 256)
    (if f.left then c :: fill else fill ++ [c], fmt, args)
  | 's' :: fmt =>
    let (s, args) := nextStr args
    (string s width precision f, fmt, args)
  | 'n' :: fmt => ([], fmt, args.tail)
  | '%' :: fmt => (['%'], fmt, args)
  | c :: fmt =>
    match conversion c f width with
    | none => (['%', c], fmt, args)
    | some (base, f, width) =>
      let (num, args) := fetchNumber q (f.sign && signed) args
      (number num base width precision f, fmt, args)

/-- The loop of `pp_vsprintf`; a turn takes at least one character of the format. -/
def vsprintfLoop : Nat → List Char → List Arg → List Char
  | 0, _, _ => []
  | _ + 1, [], _ => []
  | fuel + 1, '%' :: fmt, args =>
    let (out, fmt, args) := directive fmt args
    out ++ vsprintfLoop fuel fmt args
  | fuel + 1, c :: fmt, args => c :: vsprintfLoop fuel fmt args

/-- `pp_vsprintf`, and so `sprintf`: the text that is written, without the 0 behind it. -/
def sprintf (fmt : String) (args : List Arg) : List Char :=
  vsprintfLoop fmt.toList.length fmt.toList args

theorem string_plain (s : List Char) : string s (-1) (-1) {} = s := by
  have hfill : ((-1 : Int) - s.length).toNat = 0 := by omega
  simp [string, hfill]

/-! ## Texts in memory -/

def ascii (s : List Char) : List Byte := s.map fun c => BitVec.ofNat 8 c.toNat

/-- What `sprintf` leaves at `off`. -/
def store (m : Mem) (off : Nat) (s : List Char) : Mem := m.write off (ascii s ++ [0])

def Plain (s : List Char) : Prop := ∀ c ∈ s, 0 < c.toNat ∧ c.toNat < 256

instance (s : List Char) : Decidable (Plain s) :=
  List.decidableBAll (fun c : Char => 0 < c.toNat ∧ c.toNat < 256) s

theorem Plain.append {s t : List Char} (hs : Plain s) (ht : Plain t) : Plain (s ++ t) := by
  intro c hc
  exact (List.mem_append.mp hc).elim (hs c) (ht c)

theorem plain_cons {c : Char} {s : List Char} (hc : 0 < c.toNat ∧ c.toNat < 256) (hs : Plain s) :
    Plain (c :: s) := by
  intro d hd
  rcases List.mem_cons.mp hd with rfl | hd
  · exact hc
  · exact hs d hd

theorem ascii_length (s : List Char) : (ascii s).length = s.length := length_map _

theorem cstr_store {s : List Char} (hs : Plain s) {fuel : Nat} (hfuel : s.length < fuel) (m : Mem)
    (off : Nat) : (store m off s).cstr fuel off = ascii s := by
  have hread : (store m off s).read off ((ascii s).length + 1) = ascii s ++ [0] := by
    have hwrite := Mem.read_write m off (ascii s ++ [0])
    rwa [length_append] at hwrite
  rw [Mem.read_eq_append_iff rfl] at hread
  refine Mem.cstr_of_read hread.1 (fun b hb => ?_) (List.cons.inj hread.2).1
    (by rwa [ascii_length])
  obtain ⟨c, hc, rfl⟩ := List.mem_map.mp hb
  intro hzero
  have hnat := congrArg BitVec.toNat hzero
  rw [toNat_ofNat, Nat.mod_eq_of_lt (hs c hc).2] at hnat
  exact absurd hnat (Nat.ne_of_gt (hs c hc).1)

/-! ## Decimal numbers -/

theorem digitOf_lt_ten : ∀ (small : Bool) (d : Nat), d < 10 → digitOf small d = d.digitChar := by
  decide

theorem digitLoop_ten (small : Bool) : ∀ (fuel num : Nat) (tmp : List Char), num < 10 ^ fuel →
    0 < fuel → digitLoop small 10 fuel num tmp = Nat.toDigits 10 num ++ tmp
  | fuel + 1, num, tmp, hnum, _ => by
    have hdigit := digitOf_lt_ten small _ (Nat.mod_lt num (show 0 < 10 by decide))
    by_cases hlt : num < 10
    · rw [digitLoop, if_neg (by omega), hdigit, Nat.toDigits_of_lt_base hlt,
        Nat.mod_eq_of_lt hlt]
      rfl
    · have hrest : num / 10 < 10 ^ fuel := by
        omega
      have hfuel : 0 < fuel := by
        refine Nat.pos_of_ne_zero fun h => ?_
        rw [h] at hrest
        omega
      rw [digitLoop, if_pos (by omega), hdigit, digitLoop_ten small fuel _ _ hrest hfuel,
        Nat.toDigits_of_base_le (by decide) (Nat.not_lt.mp hlt), List.append_assoc]
      rfl

/-- A number of at least `width` characters, filled with `c` from the left. -/
def decimal (c : Char) (width n : Nat) : List Char := (Nat.toDigits 10 n).leftpad width c

theorem plain_toDigits (n : Nat) : Plain (Nat.toDigits 10 n) := by
  intro c hc
  have hdigit := Nat.isDigit_of_mem_toDigits (by decide) (by decide) hc
  rw [Char.isDigit, Bool.and_eq_true, decide_eq_true_eq, decide_eq_true_eq] at hdigit
  have hlow : 48 ≤ c.toNat := UInt32.le_iff_toNat_le.mp hdigit.1
  have hhigh : c.toNat ≤ 57 := UInt32.le_iff_toNat_le.mp hdigit.2
  omega

theorem replicate_append_eq_leftpad (c : Char) (size : Int) (tmp : List Char) :
    List.replicate (size - tmp.length).toNat c ++ tmp = tmp.leftpad size.toNat c := by
  congr 2
  omega

theorem number_decimal {n : Nat} (hn : n < 2 ^ 63) (size : Int) (z : Bool) :
    number (BitVec.ofNat 64 n) 10 size (-1) { sign := true, zeropad := z } =
      decimal (if z then '0' else ' ') size.toNat n := by
  have hnat : (BitVec.ofNat 64 n).toNat = n := by
    rw [toNat_ofNat]
    omega
  have hslt : (BitVec.ofNat 64 n).slt 0#64 = false := by
    rw [slt_zero_eq_msb, msb_eq_decide, hnat, decide_eq_false_iff_not]
    omega
  have htmp : (if BitVec.ofNat 64 n = 0 then ['0']
      else digitLoop false 10 64 (BitVec.ofNat 64 n).toNat []) = Nat.toDigits 10 n := by
    split
    · next h0 =>
      rw [← hnat, h0]
      rfl
    · rw [hnat, digitLoop_ten false 64 n [] (by omega) (by decide), append_nil]
  have hmax : max ((Nat.toDigits 10 n).length : Int) (-1) = (Nat.toDigits 10 n).length :=
    max_eq_left (by omega)
  have hsign : signOf { sign := true, zeropad := z } (BitVec.ofNat 64 n) size =
      ([], BitVec.ofNat 64 n, size) := by
    simp [signOf, hslt]
  simp only [number, hsign, htmp, hmax, Bool.false_and, Bool.false_eq_true, if_false,
    Bool.not_false, Bool.and_true, if_true, Int.sub_self, Int.toNat_zero, List.replicate_zero,
    append_nil]
  have hneg : ∀ a : Int, (min a (-1)).toNat = 0 := by omega
  cases z with
  | true =>
    simp only [Bool.not_true, Bool.false_eq_true, if_false, if_true, pad, hneg,
      List.replicate_zero, append_nil, nil_append]
    exact replicate_append_eq_leftpad '0' size _
  | false =>
    simp only [Bool.not_false, Bool.false_eq_true, if_false, if_true, pad, hneg,
      List.replicate_zero, append_nil]
    exact replicate_append_eq_leftpad ' ' size _

/-- What `%d` prints with a width. -/
def printInt (zeropad : Bool) (width : Int) (v : BitVec 32) : List Char :=
  number (v.signExtend 64) 10 width (-1) { sign := true, zeropad := zeropad }

theorem printInt_ofNat {n : Nat} (hn : n < 2 ^ 31) (zeropad : Bool) (width : Int) :
    printInt zeropad width (BitVec.ofNat 32 n) =
      decimal (if zeropad then '0' else ' ') width.toNat n := by
  have hext : (BitVec.ofNat 32 n).signExtend 64 = BitVec.ofNat 64 n := by
    have hmsb : (BitVec.ofNat 32 n).msb = false := by
      rw [msb_eq_decide, toNat_ofNat, decide_eq_false_iff_not]
      omega
    apply eq_of_toNat_eq
    rw [BitVec.toNat_signExtend, hmsb, if_neg Bool.false_ne_true, Nat.add_zero,
      toNat_setWidth, toNat_ofNat, toNat_ofNat]
    omega
  rw [printInt, hext, number_decimal (by omega)]

theorem plain_decimal {c : Char} (hc : 0 < c.toNat ∧ c.toNat < 256) (width n : Nat) :
    Plain (decimal c width n) := by
  refine Plain.append (fun d hd => ?_) (plain_toDigits n)
  rw [eq_of_mem_replicate hd]
  exact hc

theorem decimal_length_le {c : Char} {width n k : Nat} (hk : 0 < k) (hn : n < 10 ^ k) :
    (decimal c width n).length ≤ max width k := by
  have hlen := (Nat.length_toDigits_le_iff (by decide : 1 < 10) hk).mpr hn
  rw [decimal, length_leftpad]
  omega

end Wrpc.Printf
