/-
# Times as text (`tools/time_lib.c`)

`timeIntervalToString` and `timeToString` split a fixed-point time into nanoseconds and picoseconds
and print the two.  The picoseconds are rounded on their own, so that a fraction just below a
nanosecond becomes 1000 of them, and the sign of an interval is printed with the nanoseconds, which
have none when they are 0.

A text is right if it reads back, as a decimal number, to the value it was printed for.  What it
reads back to is computed for every value, the wrong texts included, so that the conditions are
exact.
-/
import Mathlib.Tactic.Linarith
import Wrpc.Lib.CInt
import Wrpc.Util.Vsprintf

namespace Wrpc.TimeText

open Printf CInt List Nat

/-- `%0*d` of the host's `sprintf`. -/
def printed (width : Nat) (v : Int) : List Char :=
  if v < 0 then '-' :: decimal '0' (width - 1) v.natAbs else decimal '0' width v.natAbs

/-- The picoseconds of a time: what is left of a nanosecond, rounded. -/
def picosOf (time : Int) : Int := (time % 2 ^ 16 * 1000 + 2 ^ 15) / 2 ^ 16

/-- `timeIntervalToString` -/
def timeIntervalToString (time : Int) : List Char :=
  let (sign, time) : Int × Int := if time < 0 ∧ time ≠ -2 ^ 63 then (-1, -time) else (1, time)
  let nanos := time / 2 ^ 16
  printed 0 (sign * nanos) ++ '.' :: printed 3 (picosOf time)

/-- `struct pp_time` -/
structure PpTime where
  secs : Int
  scaledNsecs : Int

/-- `timeToString`; `is_incorrect` is ppsi's. -/
def timeToString (isIncorrect : PpTime → Bool) (time : PpTime) : List Char :=
  if isIncorrect time then "--Incorrect--".toList
  else
    let (sign, scaledNsecs, secs) := if time.scaledNsecs < 0 ∨ time.secs < 0 then
      ('-', i64 (-time.scaledNsecs), i64 (-time.secs)) else ('+', time.scaledNsecs, time.secs)
    sign :: printed 0 secs ++
      '.' :: (printed 9 (scaledNsecs / 2 ^ 16) ++ printed 3 (picosOf scaledNsecs))

/-! ## Reading a decimal number -/

/-- Digits, a point and digits: the number in units of the last digit, and the digits behind the
point. -/
def readDigits (text : List Char) : Option (Nat × Nat) :=
  let whole := text.takeWhile Char.isDigit
  match text.dropWhile Char.isDigit with
  | '.' :: fraction =>
    if whole ≠ [] ∧ fraction.all Char.isDigit then
      some (ofDigitChars 10 (whole ++ fraction) 0, fraction.length)
    else none
  | _ => none

def readDecimal : List Char → Option (Int × Nat)
  | '-' :: text => (readDigits text).map fun (n, k) => (-n, k)
  | '+' :: text => (readDigits text).map fun (n, k) => (n, k)
  | text => (readDigits text).map fun (n, k) => (n, k)

/-- A text of `k` digits that denotes `n`. -/
structure Digits (text : List Char) (k n : Nat) : Prop where
  isDigit : ∀ c ∈ text, c.isDigit = true
  length : text.length = k
  value : ∀ init, ofDigitChars 10 text init = 10 ^ k * init + n

theorem decimal_digits (width n : Nat) :
    Digits (decimal '0' width n) (decimal '0' width n).length n := by
  refine ⟨fun c hc => ?_, rfl, fun init => ?_⟩
  · rcases mem_append.1 hc with hc | hc
    · rw [eq_of_mem_replicate hc]
      rfl
    · exact isDigit_of_mem_toDigits (by decide) (by decide) hc
  · rw [ofDigitChars_eq_ofDigitChars_zero]
    congr 1
    rw [decimal, leftpad, ofDigitChars_append, ofDigitChars_replicate_zero,
      mul_zero, ofDigitChars_ten_toDigits]

theorem printed_digits {width : Nat} {v : Int} (hwidth : 0 < width) (hnonneg : 0 ≤ v)
    (hlt : v < (10 ^ width : Nat)) : Digits (printed width v) width v.natAbs := by
  have hlen := (length_toDigits_le_iff (by decide : 1 < 10) hwidth).mpr
    (show v.natAbs < 10 ^ width by omega)
  have hlength : (decimal '0' width v.natAbs).length = width := by
    rw [decimal, length_leftpad]
    omega
  have hdigits := decimal_digits width v.natAbs
  rw [hlength] at hdigits
  rwa [printed, if_neg (by omega)]

theorem Digits.append {text text' : List Char} {k k' n n' : Nat} (h : Digits text k n)
    (h' : Digits text' k' n') : Digits (text ++ text') (k + k') (10 ^ k' * n + n') := by
  refine ⟨fun c hc => ?_, ?_, fun init => ?_⟩
  · exact (mem_append.1 hc).elim (h.isDigit c) (h'.isDigit c)
  · rw [length_append, h.length, h'.length]
  · rw [ofDigitChars_append, h.value, h'.value, mul_add, ← mul_assoc, ← pow_add,
      add_comm k', add_assoc]

theorem decimal_ne_nil (n : Nat) : decimal '0' 0 n ≠ [] := by
  simp [decimal, leftpad, toDigits_ne_nil]

theorem Digits.read {fraction : List Char} {k frac : Nat} (h : Digits fraction k frac)
    (whole : Nat) :
    readDigits (decimal '0' 0 whole ++ '.' :: fraction) = some (10 ^ k * whole + frac, k) := by
  have hwhole := decimal_digits 0 whole
  rw [readDigits, takeWhile_append_of_pos hwhole.isDigit,
    dropWhile_append_of_pos hwhole.isDigit]
  simp only [takeWhile_cons, dropWhile_cons, show Char.isDigit '.' = false from rfl,
    Bool.false_eq_true, if_false, append_nil]
  rw [if_pos ⟨decimal_ne_nil whole, all_eq_true.2 h.isDigit⟩, ofDigitChars_append, h.value,
    hwhole.value, h.length, mul_zero, zero_add]

theorem Digits.read_printed {fraction : List Char} {k frac : Nat} (h : Digits fraction k frac)
    (v : Int) : readDecimal (printed 0 v ++ '.' :: fraction) =
      some (if v < 0 then -(10 ^ k * v.natAbs + frac : Int) else 10 ^ k * v.natAbs + frac, k) := by
  have hread := h.read v.natAbs
  unfold printed
  split
  · rw [cons_append, readDecimal, hread]
    simp
  · -- the first digit is not a sign
    obtain ⟨c, cs, hcs⟩ := exists_cons_of_ne_nil (decimal_ne_nil v.natAbs)
    have hc : c.isDigit = true :=
      (decimal_digits 0 v.natAbs).isDigit c (hcs ▸ mem_cons_self ..)
    rw [hcs, cons_append] at hread ⊢
    unfold readDecimal
    split
    case h_1 heq => exact absurd hc (by rw [(List.cons.inj heq).1]; decide)
    case h_2 heq => exact absurd hc (by rw [(List.cons.inj heq).1]; decide)
    case h_3 => rw [hread]; simp

/-! ## The two texts

The picoseconds take three digits or, from 65504/65536 of a nanosecond on, four; the number that a
text reads back to is the same sum in both cases. -/

/-- A text with `k` digits behind the point denotes a number of picoseconds, given in units of
`2 ^ -16`, to half a picosecond. -/
def Denotes (text : List Char) (k : Nat) (value : Int) : Prop :=
  ∃ n, readDecimal text = some (n, k) ∧ |2 ^ 16 * n - value| ≤ 2 ^ 15

theorem denotes_iff_of_read {text : List Char} {k k' : Nat} {n value : Int}
    (h : readDecimal text = some (n, k)) :
    Denotes text k' value ↔ k = k' ∧ |2 ^ 16 * n - value| ≤ 2 ^ 15 := by
  rw [Denotes, h]
  constructor
  · rintro ⟨n', heq, hn⟩
    cases heq
    exact ⟨rfl, hn⟩
  · rintro ⟨rfl, hn⟩
    exact ⟨n, rfl, hn⟩

def picosDigits (time : Int) : Nat := if time % 2 ^ 16 < 65504 then 3 else 4

theorem picosOf_digits (time : Int) :
    Digits (printed 3 (picosOf time)) (picosDigits time) (picosOf time).natAbs := by
  unfold picosDigits
  split
  case isTrue h =>
    have hrange : 0 ≤ picosOf time ∧ picosOf time < 1000 := by
      unfold picosOf
      omega
    exact printed_digits (by decide) hrange.1 hrange.2
  case isFalse h =>
    have hthousand : picosOf time = 1000 := by
      unfold picosOf
      omega
    rw [hthousand]
    exact decimal_digits 3 1000

theorem timeIntervalToString_denotes_iff {time : Int} (hlo : -2 ^ 63 < time) :
    Denotes (timeIntervalToString time) 3 (1000 * time) ↔
      |time| % 2 ^ 16 < 65504 ∧ (0 ≤ time ∨ 2 ^ 16 ≤ |time| ∨ |time| ≤ 32) := by
  by_cases hneg : time < 0
  · have hread := (picosOf_digits (-time)).read_printed (-1 * (-time / 2 ^ 16))
    rw [timeIntervalToString, if_pos ⟨hneg, by omega⟩, denotes_iff_of_read (hread :),
      abs_of_neg hneg]
    have hsmall : -time ≤ 32 → -time / 2 ^ 16 = 0 ∧
        (-time % 2 ^ 16 * 1000 + 2 ^ 15) / 2 ^ 16 = 0 := by omega
    unfold picosOf picosDigits
    split
    case isFalse h => exact iff_of_false (fun h => absurd h.1 (by decide)) fun h' => h h'.1
    case isTrue h =>
      rw [abs_le]
      split <;> omega
  · have hread := (picosOf_digits time).read_printed (1 * (time / 2 ^ 16))
    rw [timeIntervalToString, if_neg (by tauto), denotes_iff_of_read (hread :),
      abs_of_nonneg (show 0 ≤ time by omega)]
    unfold picosOf picosDigits
    split
    case isFalse h => exact iff_of_false (fun h => absurd h.1 (by decide)) fun h' => h h'.1
    case isTrue h =>
      rw [abs_le]
      split <;> omega

theorem readDigits_time {scaledNsecs : Int} (secs : Int) (hsecs : 0 ≤ secs)
    (hnonneg : 0 ≤ scaledNsecs) (hlt : scaledNsecs < 10 ^ 9 * 2 ^ 16) :
    ∃ n : Nat, readDigits (printed 0 secs ++ '.' :: (printed 9 (scaledNsecs / 2 ^ 16) ++
        printed 3 (picosOf scaledNsecs))) = some (n, 9 + picosDigits scaledNsecs) ∧
      (picosDigits scaledNsecs = 3 →
        |2 ^ 16 * (n : Int) - (2 ^ 16 * 10 ^ 12 * secs + 1000 * scaledNsecs)| ≤ 2 ^ 15) := by
  have hnanos : Digits (printed 9 (scaledNsecs / 2 ^ 16)) 9 (scaledNsecs / 2 ^ 16).natAbs :=
    printed_digits (by decide) (by omega) (by omega)
  have hread := (hnanos.append (picosOf_digits scaledNsecs)).read secs.natAbs
  refine ⟨_, by rw [printed, if_neg (by omega), (hread :)], fun hthree => ?_⟩
  rw [hthree]
  unfold picosOf
  rw [abs_le]
  omega

theorem timeToString_denotes_iff {isIncorrect : PpTime → Bool} {time : PpTime}
    (hcorrect : isIncorrect time = false) (hlo : -2 ^ 63 ≤ time.secs) (hhi : time.secs < 2 ^ 63)
    (hsame : 0 ≤ time.secs ∧ 0 ≤ time.scaledNsecs ∨ time.secs ≤ 0 ∧ time.scaledNsecs ≤ 0)
    (hsecond : |time.scaledNsecs| < 10 ^ 9 * 2 ^ 16) :
    Denotes (timeToString isIncorrect time) 12
        (2 ^ 16 * 10 ^ 12 * time.secs + 1000 * time.scaledNsecs) ↔
      |time.scaledNsecs| % 2 ^ 16 < 65504 ∧ time.secs ≠ -2 ^ 63 := by
  have hdigits (x : Int) : 9 + picosDigits x = 12 ↔ x % 2 ^ 16 < 65504 := by
    unfold picosDigits
    split <;> simp_all
  have hthree {x : Int} (h : x % 2 ^ 16 < 65504) : picosDigits x = 3 := if_pos h
  rw [timeToString, hcorrect, if_neg Bool.false_ne_true]
  by_cases hmin : time.secs = -2 ^ 63
  · -- the seconds stay negative, and the second sign is no digit
    refine iff_of_false ?_ fun h => h.2 hmin
    rw [if_pos (.inr (by omega)), hmin, show i64 (-(-2 ^ 63)) = -2 ^ 63 by decide]
    rintro ⟨n, hread, -⟩
    cases hread
  by_cases hneg : time.scaledNsecs < 0 ∨ time.secs < 0
  · rw [abs_of_nonpos (by omega)] at hsecond ⊢
    obtain ⟨n, hread, hn⟩ := readDigits_time (-time.secs) (by omega) (by omega) hsecond
    rw [if_pos hneg, i64_of_range (by omega), i64_of_range (by omega),
      denotes_iff_of_read (n := -n) (by simp only [cons_append, readDecimal, hread]; rfl),
      hdigits]
    refine ⟨fun h => ⟨h.1, hmin⟩, fun h => ⟨h.1, ?_⟩⟩
    have := hn (hthree h.1)
    rw [abs_le] at this ⊢
    omega
  · rw [abs_of_nonneg (by omega)] at hsecond ⊢
    obtain ⟨n, hread, hn⟩ := readDigits_time time.secs (by omega) (by omega) hsecond
    rw [if_neg hneg,
      denotes_iff_of_read (n := n) (by simp only [cons_append, readDecimal, hread]; rfl),
      hdigits]
    exact ⟨fun h => ⟨h.1, hmin⟩, fun h => ⟨h.1, hn (hthree h.1)⟩⟩

/-- **Printed times denote the value** exactly where a fraction does not round up to a nanosecond,
an interval does not lose its sign and the seconds can be negated. -/
theorem timeText_denotes_iff (interval : Int) (isIncorrect : PpTime → Bool) (time : PpTime) :
    (-2 ^ 63 < interval ∧ interval < 2 ^ 63 →
      (Denotes (timeIntervalToString interval) 3 (1000 * interval) ↔
        |interval| % 2 ^ 16 < 65504 ∧ (0 ≤ interval ∨ 2 ^ 16 ≤ |interval| ∨ |interval| ≤ 32))) ∧
    (isIncorrect time = false → -2 ^ 63 ≤ time.secs ∧ time.secs < 2 ^ 63 →
      (0 ≤ time.secs ∧ 0 ≤ time.scaledNsecs ∨ time.secs ≤ 0 ∧ time.scaledNsecs ≤ 0) →
      |time.scaledNsecs| < 10 ^ 9 * 2 ^ 16 →
      (Denotes (timeToString isIncorrect time) 12
          (2 ^ 16 * 10 ^ 12 * time.secs + 1000 * time.scaledNsecs) ↔
        |time.scaledNsecs| % 2 ^ 16 < 65504 ∧ time.secs ≠ -2 ^ 63)) :=
  ⟨fun hrange => timeIntervalToString_denotes_iff hrange.1,
    fun hcorrect hrange hsame hsecond =>
      timeToString_denotes_iff hcorrect hrange.1 hrange.2 hsame hsecond⟩

/-- Minus one and a half nanoseconds; minus two seconds and a quarter of a nanosecond. -/
theorem timeText_denotes_iff_negative :
    Denotes (timeIntervalToString (-98304)) 3 (1000 * -98304) ∧
      Denotes (timeToString (fun _ => false) ⟨-2, -16384⟩) 12
        (2 ^ 16 * 10 ^ 12 * -2 + 1000 * -16384) :=
  let h := timeText_denotes_iff (-98304) (fun _ => false) ⟨-2, -16384⟩
  ⟨(h.1 (by decide)).2 (by decide),
    (h.2 rfl (by decide) (by decide) (by decide)).2 (by decide)⟩

/-- Half a nanosecond before 0 loses its sign, and just below a nanosecond there are four digits
behind the point. -/
theorem timeText_wrong : timeIntervalToString (-2 ^ 15) = "0.500".toList ∧
    timeIntervalToString 65535 = "0.1000".toList ∧
    timeToString (fun _ => false) ⟨1, 65535⟩ = "+1.0000000001000".toList ∧
    timeToString (fun _ => false) ⟨-2 ^ 63, 0⟩ = "--9223372036854775808.000000000000".toList ∧
    ¬Denotes "0.500".toList 3 (1000 * -2 ^ 15) ∧ ¬Denotes "0.1000".toList 3 (1000 * 65535) := by
  refine ⟨by decide, by decide, by decide, by decide, ?_, ?_⟩
  · rintro ⟨n, hread, hn⟩
    obtain rfl : n = 500 := by injection hread with h; injection h with h; exact h.symm
    exact absurd hn (by decide)
  · rintro ⟨n, hread, hn⟩
    injection hread with h
    injection h with h h'
    exact absurd h' (by decide)

end Wrpc.TimeText
