/-
# The words of a command line

`_shell_exec` cuts the line up in place: an argument is terminated by the NUL that
replaces the first blank behind it, when the loop comes to skip the blanks.  After the
last argument there is room for the loop does not come there, so that this one
keeps all of the line that is left, blanks included.

`splitWords` says the same of the text of the line, and `splitArgs_words` that it is the same.
-/
import Wrpc.Shell.LineEditor

namespace Wrpc.Shell

open List

def blank : Byte := 0x20

/-- The arguments of a line, at most `n` of them; the last one is not cut off. -/
def splitWords : Nat → List Byte → List (List Byte)
  | 0, _ => []
  | n + 1, text =>
    let rest := text.dropWhile (· = blank)
    if rest = [] then []
    else if n = 0 then [rest]
    else rest.takeWhile (· ≠ blank) :: splitWords n (rest.dropWhile (· ≠ blank))

/-- The C string at `i`. -/
def StringAt (buf : Mem) : Nat → List Byte → Prop
  | i, [] => buf i = 0
  | i, b :: text => buf i = b ∧ b ≠ 0 ∧ StringAt buf (i + 1) text

namespace StringAt

variable {buf : Mem}

theorem cstr : ∀ {text : List Byte} {fuel i : Nat}, StringAt buf i text → text.length < fuel →
    buf.cstr fuel i = text
  | [], fuel + 1, i, h, _ => if_pos h
  | b :: text, fuel + 1, i, ⟨hb, hnz, h⟩, hfuel => by
    rw [Mem.cstr, hb, if_neg hnz, cstr h (Nat.lt_of_succ_lt_succ hfuel)]

theorem congr {buf' : Mem} : ∀ {text : List Byte} {i : Nat}, StringAt buf i text →
    (∀ j, i ≤ j → j ≤ i + text.length → buf' j = buf j) → StringAt buf' i text
  | [], i, h, heq => (heq i (Nat.le_refl i) (Nat.le_refl i)).trans h
  | b :: text, i, ⟨hb, hnz, h⟩, heq => by
    rw [length_cons] at heq
    refine ⟨(heq i (Nat.le_refl i) (by omega)).trans hb, hnz, h.congr fun j hij hj => ?_⟩
    exact heq j (by omega) (by omega)

theorem cut {buf' : Mem} : ∀ {a b : List Byte} {i : Nat}, StringAt buf i (a ++ b) →
    (∀ j, i ≤ j → j < i + a.length → buf' j = buf j) → buf' (i + a.length) = 0 →
    StringAt buf' i a
  | [], _, _, _, _, hend => hend
  | x :: a, b, i, ⟨hx, hnz, h⟩, heq, hend => by
    rw [length_cons] at heq hend
    refine ⟨(heq i (Nat.le_refl i) (by omega)).trans hx, hnz, h.cut (fun j hij hj => ?_) ?_⟩
    · exact heq j (by omega) (by omega)
    · rwa [show i + 1 + a.length = i + (a.length + 1) by omega]

end StringAt

theorem skipSpaces_string : ∀ {text : List Byte} {fuel : Nat} {buf : Mem} {i : Nat},
    StringAt buf i text → text.length < fuel →
    let r := skipSpaces fuel buf i
    StringAt r.1 r.2 (text.dropWhile (· = blank)) ∧ i ≤ r.2 ∧
      (∀ j, j < i ∨ r.2 ≤ j → r.1 j = buf j) ∧ (buf i = blank → r.1 i = 0)
  | [], fuel + 1, buf, i, h, _ => by
    have hne : ¬buf i = 0x20 := by
      rw [show buf i = 0 from h]
      decide
    simp only [skipSpaces, if_neg hne]
    exact ⟨h, Nat.le_refl i, fun _ _ => trivial, fun hblank => absurd hblank hne⟩
  | b :: text, fuel + 1, buf, i, ⟨hb, hnz, h⟩, hfuel => by
    by_cases hblank : b = blank
    · have hcell : buf i = 0x20 := hb.trans hblank
      have htail : StringAt (buf.set i 0) (i + 1) text :=
        h.congr fun j hij _ => Mem.set_other (by omega)
      obtain ⟨hstring, hle, hframe, -⟩ :=
        skipSpaces_string htail (Nat.lt_of_succ_lt_succ hfuel)
      simp only [skipSpaces, if_pos hcell]
      rw [dropWhile_cons_of_pos (by simpa using hblank)]
      refine ⟨hstring, by omega, fun j hj => ?_, fun _ => ?_⟩
      · rw [hframe j (by omega), Mem.set_other (by omega)]
      · rw [hframe i (by omega), Mem.set_same]
    · have hne : ¬buf i = 0x20 := hb ▸ hblank
      simp only [skipSpaces, if_neg hne]
      rw [dropWhile_cons_of_neg (by simpa using hblank)]
      exact ⟨⟨hb, hnz, h⟩, Nat.le_refl i, fun _ _ => trivial, fun h => absurd h hne⟩

theorem skipArg_string : ∀ {text : List Byte} {fuel : Nat} {buf : Mem} {i : Nat},
    StringAt buf i text → text.length < fuel →
    skipArg fuel buf i = i + (text.takeWhile (· ≠ blank)).length ∧
      StringAt buf (skipArg fuel buf i) (text.dropWhile (· ≠ blank))
  | [], fuel + 1, buf, i, h, _ => by
    have hstop : ¬(buf i ≠ 0x20 ∧ buf i ≠ 0) := fun hne => hne.2 h
    rw [skipArg, if_neg hstop]
    exact ⟨rfl, h⟩
  | b :: text, fuel + 1, buf, i, ⟨hb, hnz, h⟩, hfuel => by
    by_cases hblank : b = blank
    · have hstop : ¬(buf i ≠ 0x20 ∧ buf i ≠ 0) := fun hne => hne.1 (hb.trans hblank)
      rw [skipArg, if_neg hstop, takeWhile_cons_of_neg (by simpa using hblank),
        dropWhile_cons_of_neg (by simpa using hblank)]
      exact ⟨rfl, hb, hnz, h⟩
    · have hgo : buf i ≠ 0x20 ∧ buf i ≠ 0 := by
        rw [hb]
        exact ⟨hblank, hnz⟩
      obtain ⟨heq, hstring⟩ := skipArg_string h (Nat.lt_of_succ_lt_succ hfuel)
      rw [skipArg, if_pos hgo, takeWhile_cons_of_pos (by simpa using hblank),
        dropWhile_cons_of_pos (by simpa using hblank), length_cons]
      exact ⟨by rw [heq]; omega, hstring⟩

theorem splitArgs_blank {n i : Nat} {text : List Byte} {buf : Mem} (h : StringAt buf i text)
    (hlen : text.length < scanLen) (hblank : buf i = blank) :
    (splitArgs (n + 1) buf i).2 i = 0 := by
  have hzero : (skipSpaces scanLen buf i).1 i = 0 := (skipSpaces_string h hlen).2.2.2 hblank
  simp only [splitArgs]
  split
  · exact hzero
  · split
    · exact hzero
    · exact splitArgs_zero hzero

theorem splitWords_nil : ∀ n : Nat, splitWords n [] = []
  | 0 => rfl
  | _ + 1 => rfl

theorem head_afterArg : ∀ {text : List Byte} {c : Byte} {rest : List Byte},
    text.dropWhile (· ≠ blank) = c :: rest → c = blank
  | b :: text, c, rest, h => by
    by_cases hb : b = blank
    · rw [dropWhile_cons_of_neg (by simpa using hb)] at h
      rw [← (List.cons.inj h).1, hb]
    · rw [dropWhile_cons_of_pos (by simpa using hb)] at h
      exact head_afterArg h

theorem length_dropWhile_le (p : Byte → Bool) (text : List Byte) :
    (text.dropWhile p).length ≤ text.length :=
  (dropWhile_sublist p).length_le

/-- **The arguments.**  The strings at the pointers of `_shell_exec`, in the buffer as the loop
has left it, are the words of the line; nothing before the line is changed. -/
theorem splitArgs_words : ∀ {n : Nat} {text : List Byte} {buf : Mem} {i : Nat},
    StringAt buf i text → text.length < scanLen →
    (splitArgs n buf i).1.map ((splitArgs n buf i).2.cstr scanLen) = splitWords n text ∧
      ∀ j, j < i → (splitArgs n buf i).2 j = buf j
  | 0, _, _, _, _, _ => ⟨rfl, fun _ _ => rfl⟩
  | n + 1, text, buf, i, h, hlen => by
    obtain ⟨hrest, hle, hframe, -⟩ := skipSpaces_string h hlen
    have hlen' := Nat.lt_of_le_of_lt (length_dropWhile_le (· = blank) text) hlen
    simp only [splitArgs, splitWords]
    generalize skipSpaces scanLen buf i = r at hrest hle hframe ⊢
    generalize text.dropWhile (· = blank) = rest at hrest hlen' ⊢
    have hbefore : ∀ j, j < i → r.1 j = buf j := fun j hj => hframe j (.inl hj)
    cases rest with
    | nil =>
      have hend : r.1 r.2 = 0 := hrest
      rw [if_pos hend, if_pos rfl]
      exact ⟨rfl, hbefore⟩
    | cons b rest =>
      have hb : ¬r.1 r.2 = 0 := hrest.1 ▸ hrest.2.1
      obtain ⟨hj, hafter⟩ := skipArg_string hrest hlen'
      have hlen'' := Nat.lt_of_le_of_lt (length_dropWhile_le (· ≠ blank) (b :: rest)) hlen'
      have hparts : (b :: rest).takeWhile (· ≠ blank) ++ (b :: rest).dropWhile (· ≠ blank) =
        b :: rest := takeWhile_append_dropWhile
      rw [if_neg hb, if_neg (cons_ne_nil b rest)]
      generalize skipArg scanLen r.1 r.2 = j at hj hafter ⊢
      generalize hword : (b :: rest).takeWhile (· ≠ blank) = word at hj hparts ⊢
      cases hdrop : (b :: rest).dropWhile (· ≠ blank) with
      | nil =>
        rw [hdrop] at hafter hparts
        have hend : r.1 j = 0 := hafter
        rw [append_nil] at hparts
        rw [if_pos hend, hparts, splitWords_nil, ite_self]
        exact ⟨congrArg (fun w => [w]) (hrest.cstr hlen'), hbefore⟩
      | cons c after =>
        rw [hdrop] at hafter hparts hlen''
        have hc : ¬r.1 j = 0 := hafter.1 ▸ hafter.2.1
        rw [if_neg hc]
        cases n with
        | zero => exact ⟨congrArg (fun w => [w]) (hrest.cstr hlen'), hbefore⟩
        | succ n =>
          obtain ⟨hwords, hkept⟩ := splitArgs_words hafter hlen''
          have hzero : (splitArgs (n + 1) r.1 j).2 j = 0 :=
            splitArgs_blank hafter hlen'' (hafter.1.trans (head_afterArg hdrop))
          have hfirst : StringAt (splitArgs (n + 1) r.1 j).2 r.2 word := by
            rw [← hparts] at hrest
            rw [hj] at hkept hzero ⊢
            exact hrest.cut (fun k _ hk => hkept k hk) hzero
          have hshort : word.length < scanLen := by
            rw [← hparts, length_append] at hlen'
            omega
          rw [if_neg (Nat.succ_ne_zero n), map_cons, hwords, hfirst.cstr hshort]
          refine ⟨rfl, fun k hk => ?_⟩
          rw [hkept k (by omega), hbefore k hk]

/-- **`_shell_exec` runs the command of the line**, with the words of the line as its arguments,
unless there are none or the first one begins with `#`. -/
theorem lineEffect_words (cmds : Commands) {buf : Mem} {text : List Byte} (h : StringAt buf 0 text)
    (hlen : text.length < scanLen) : lineEffect cmds buf =
      match splitWords maxArgs text with
      | [] => .none
      | word :: words => if word.head? = some 0x23 then .none else cmds (word :: words) := by
  rw [lineEffect, ← (splitArgs_words h hlen).1]
  cases hargs : (splitArgs maxArgs buf 0).1 with
  | nil => rfl
  | cons arg args =>
    have hhead : ((splitArgs maxArgs buf 0).2.cstr scanLen arg).head? = some 0x23 ↔
        (splitArgs maxArgs buf 0).2 arg = 0x23 := by
      rw [scanLen, Mem.cstr]
      split
      · next hzero => simp [hzero]
      · simp
    simp only [map_cons, hhead]

/-- A blank and a word. -/
theorem lineEffect_words_one :
    lineEffect (fun args => ⟨.none, args = [[0x76]]⟩) (fun i => [0x20, 0x76].getD i 0) =
      ⟨.none, true⟩ := by
  have h : StringAt (fun i => [0x20, 0x76].getD i 0) 0 [0x20, 0x76] :=
    ⟨rfl, by decide, rfl, by decide, rfl⟩
  exact lineEffect_words _ h (by decide)

end Wrpc.Shell
