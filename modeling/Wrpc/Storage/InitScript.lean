/-
# The boot script (`storage-init.c`)

The init file holds a two-byte size, which nobody reads back, and the text of the
script: shell commands, each ended by a newline, up to the first erased byte.
`storageInitAdd` finds the end of the text and writes a command there;
`storageInitReadcmd` is called by the shell at boot, first with `next` 0 and then
with 1 until it returns no command.

A call of `storageInitAdd` that finds more than 256 bytes of text takes the file for
damaged and writes over its beginning, without erasing it.  And on a flash a word that
lies across the end of a page is not written as a whole.  The first word that meets with
either spoils the script for good: from then on there is less text before the first erased
cell than was written, however many commands follow (`Spoiled`).  That makes the condition
for a script to be read back an exact one (`addAll_replays_iff`).
-/
import Wrpc.Lib.Bytes
import Wrpc.Storage.Sdbfs

namespace Wrpc.Storage

open List Nat Bytes

def newline : Byte := 0x0a
def space : Byte := 0x20

/-- The scan of `storage_init_add` for the end of the text.  `used` is a `uint16_t`:
after 65536 turns the scan would start over, and never end. -/
def countUsed (f : File) (m : Mem) : Nat → Nat → Option Nat
  | 0, _ => none
  | fuel + 1, used =>
    let r := fread f m (2 + used) 1
    if r.1 = 1 then
      if r.2.headD 0 = 0xff then some used else countUsed f m fuel ((used + 1) % 65536)
    else some used

/-- The loop over `args[1]`, `args[2]`, …; `false` where it leaves to `out`. -/
def addWords (c : Chip) (f : File) : List (List Byte) → Nat → Mem → Bool × Nat × Mem
  | [], used, m => (true, used, m)
  | w :: ws, used, m =>
    let r := fwrite c f m (2 + used) w
    if r.1 ≠ w.length then (false, used, r.2)
    else
      let used := (used + w.length) % 65536
      let separator := if ws = [] then newline else space
      let r := fwrite c f r.2 (2 + used) [separator]
      if r.1 ≠ 1 then (false, used, r.2)
      else addWords c f ws ((used + 1) % 65536) r.2

/-- `storage_init_add` of the words after `args[0]`, on a machine of byte order `o`;
`none` if it does not return. -/
def storageInitAdd (c : Chip) (o : Order) (f : File) (m : Mem) (words : List (List Byte)) :
    Option (Int × Mem) :=
  match countUsed f m 65536 0 with
  | none => none
  | some used =>
    let used := if used > 256 then 0 else used
    let r := addWords c f words used m
    if r.1 = false then some (-1, r.2.2)
    else
      let w := fwrite c f r.2.2 0 (imageOf o 2 r.2.1)
      if w.1 ≠ 2 then some (-1, w.2)
      else if (fread f w.2 0 2).1 ≠ 2 then some (-1, w.2)
      else some (0, w.2)

/-- What a call of `storage_init_readcmd` returns, with what it has left in `buf`. -/
structure Reply where
  ret : Int
  data : List Byte
deriving DecidableEq, Repr

def Reply.ofLine (l : List Byte) : Reply := ⟨l.length, l⟩

/-- The loop of `storage_init_readcmd`: the value returned, `ptr` and `buf`. -/
def readcmdLoop (f : File) (m : Mem) (bufsize : Nat) : Nat → Nat → Nat → Mem → Int × Nat × Mem
  | 0, _, ptr, buf => (-1, ptr, buf)
  | fuel + 1, i, ptr, buf =>
    if i > bufsize then (-1, ptr, buf)
    else
      let r := fread f m ptr 1
      let ptr := (ptr + 1) % 65536
      if r.1 ≠ 1 then (-1, ptr, buf)
      else
        let buf := buf.set i (r.2.headD 0)
        if buf i = 0xff then (i, ptr, buf)
        else if buf i = newline then (i + 1, ptr, buf)
        else readcmdLoop f m bufsize fuel (i + 1) ptr buf

/-- `storage_init_readcmd`; `i` stays below `bufsize + 2`. -/
def storageInitReadcmd (f : File) (m : Mem) (bufsize : Nat) (next : Bool) (ptr : Nat) (buf : Mem) :
    Int × Nat × Mem :=
  readcmdLoop f m bufsize (bufsize + 2) 0 (if next then ptr else 2) buf

/-- The replies to `n` calls, one after the other. -/
def readCalls (f : File) (m : Mem) (bufsize : Nat) : Nat → Bool → Nat → Mem → List Reply
  | 0, _, _, _ => []
  | n + 1, next, ptr, buf =>
    let r := storageInitReadcmd f m bufsize next ptr buf
    ⟨r.1, r.2.2.read 0 r.1.toNat⟩ :: readCalls f m bufsize n true r.2.1 r.2.2

/-! ## Commands and scripts -/

/-- The text of a command: its words, joined by spaces, with a newline. -/
def line : List (List Byte) → List Byte
  | [] => []
  | w :: ws => w ++ (if ws = [] then newline else space) :: line ws

structure Command where
  words : List (List Byte)
  ne_nil : words ≠ []
  word_ne_nil : ∀ w ∈ words, w ≠ []
  clean : ∀ w ∈ words, ∀ b ∈ w, b ≠ newline ∧ b ≠ erased
  short : (words.map List.length).sum ≤ 80

def Command.line (cmd : Command) : List Byte := Storage.line cmd.words

variable {j : Nat} {cmd : Command}

/-- Call after call; `none` as soon as one does not return 0. -/
def addAll (c : Chip) (o : Order) (f : File) : List Command → Mem → Option Mem
  | [], m => some m
  | cmd :: cmds, m =>
    match storageInitAdd c o f m cmd.words with
    | none => none
    | some r => if r.1 = 0 then addAll c o f cmds r.2 else none

/-- The words of a script that starts at `addr`, each with a blank or a newline behind it, stay in
their pages. -/
def WordsStay (c : Chip) : Nat → List (List Byte) → Prop
  | _, [] => True
  | addr, w :: ws => c.Stays addr w.length ∧ WordsStay c (addr + w.length + 1) ws

instance decidableWordsStay (c : Chip) : ∀ addr ws, Decidable (WordsStay c addr ws)
  | _, [] => isTrue trivial
  | addr, w :: ws =>
    have := decidableWordsStay c (addr + w.length + 1) ws
    inferInstanceAs (Decidable (c.Stays addr w.length ∧ WordsStay c (addr + w.length + 1) ws))

/-- The reader gives back the lines, in order and each once, and then no more. -/
def Replays (f : File) (m : Mem) (bufsize : Nat) (lines : List (List Byte)) : Prop :=
  ∀ (ptr : Nat) (buf : Mem), ∃ last ≤ 0, readCalls f m bufsize (lines.length + 1) false ptr buf =
      lines.map Reply.ofLine ++ [⟨last, []⟩]

/-- The text of the file: up to the first erased byte it is `text`, and from there on
everything is erased. -/
structure HoldsText (f : File) (m : Mem) (text : List Byte) : Prop where
  fits : text = [] ∨ 2 + text.length ≤ f.len
  cell : ∀ j, 2 + j < f.len → m (f.offset + (2 + j)) = text.getD j erased
  clean : ∀ b ∈ text, b ≠ erased

/-! ## Lines -/

section Lines

variable {ws : List (List Byte)}

theorem line_length : ∀ ws : List (List Byte),
    (line ws).length = (ws.map List.length).sum + ws.length
  | [] => rfl
  | w :: ws => by
    simp only [line, length_append, length_cons, line_length ws, map_cons, sum_cons]
    omega

theorem line_clean : ∀ {ws : List (List Byte)}, (∀ w ∈ ws, ∀ b ∈ w, b ≠ newline ∧ b ≠ erased) →
    ∀ b ∈ line ws, b ≠ erased
  | [], _, b, hb => by cases hb
  | w :: ws, h, b, hb => by
    rw [forall_mem_cons] at h
    rw [line, mem_append, mem_cons] at hb
    rcases hb with hw | rfl | hl
    · exact (h.1 b hw).2
    · split <;> decide
    · exact line_clean h.2 b hl

theorem line_body : ∀ {ws : List (List Byte)}, ws ≠ [] →
    (∀ w ∈ ws, ∀ b ∈ w, b ≠ newline ∧ b ≠ erased) →
    ∃ body, line ws = body ++ [newline] ∧ ∀ b ∈ body, b ≠ newline
  | [], h, _ => absurd rfl h
  | [w], _, h => ⟨w, rfl, fun b hb => (h w mem_cons_self b hb).1⟩
  | w :: w' :: ws, _, h => by
    rw [forall_mem_cons] at h
    obtain ⟨body, hline, hbody⟩ := line_body (cons_ne_nil w' ws) h.2
    refine ⟨w ++ space :: body, ?_, fun b hb => ?_⟩
    · rw [line, hline]
      simp
    · rw [mem_append, mem_cons] at hb
      rcases hb with hw | rfl | hb
      · exact (h.1 b hw).1
      · decide
      · exact hbody b hb

theorem length_le_sum : ∀ {ws : List (List Byte)}, (∀ w ∈ ws, w ≠ []) →
    ws.length ≤ (ws.map List.length).sum
  | [], _ => zero_le _
  | w :: ws, h => by
    rw [forall_mem_cons] at h
    have hw := List.length_pos_iff.mpr h.1
    have ht := length_le_sum h.2
    simp only [length_cons, map_cons, sum_cons]
    omega

theorem Command.line_pos (cmd : Command) : 0 < cmd.line.length := by
  obtain ⟨body, hline, -⟩ := line_body cmd.ne_nil cmd.clean
  rw [Command.line, hline]
  simp

theorem Command.line_le (cmd : Command) : cmd.line.length ≤ 160 := by
  have hsum := cmd.short
  have hwords := length_le_sum cmd.word_ne_nil
  rw [Command.line, line_length]
  omega

end Lines

/-! ## What a call of `storage_init_add` does -/

section Add

variable {c : Chip} {o : Order} {f : File} {m : Mem} {text : List Byte}

theorem fread_cell (hj : 2 + j < f.len) :
    fread f m (2 + j) 1 = (1, [m (f.offset + (2 + j))]) := by
  have hr : fread f m (2 + j) (1 : Nat) =
      (((1 : Nat) : Int), m.read (f.offset + (2 + j)) 1) := fread_inside hj
  exact hr

theorem HoldsText.fread_at (h : HoldsText f m text) (hj : 2 + j < f.len) :
    fread f m (2 + j) 1 = (1, [text.getD j erased]) := by
  rw [fread_cell hj, h.cell j hj]

theorem fread_end (hj : ¬ 2 + j < f.len) : (fread f m (2 + j) 1).1 ≠ 1 := by
  have hs : (fread f m (2 + j) (1 : Nat)).1 < (1 : Nat) := fread_short (by omega)
  exact Int.ne_of_lt hs

theorem getD_ne_erased (hclean : ∀ b ∈ text, b ≠ erased) :
    text.getD j erased ≠ erased ↔ j < text.length := by
  constructor
  · intro hne
    by_contra hge
    exact hne (getD_eq_default _ _ (Nat.le_of_not_lt hge))
  · intro hj
    rw [getD_eq_getElem _ _ hj]
    exact hclean _ (getElem_mem hj)

theorem HoldsText.head_of_drop (h : HoldsText f m text) {b : Byte} {rest : List Byte}
    (hdrop : text.drop j = b :: rest) :
    j < text.length ∧ text.getD j erased = b ∧ 2 + j < f.len := by
  have hj : j < text.length := by
    by_contra hge
    rw [drop_eq_nil_of_le (Nat.le_of_not_lt hge)] at hdrop
    cases hdrop
  have hget : text.getD j erased = b := by
    rw [getD_eq_getElem _ _ hj]
    rw [drop_eq_getElem_cons hj] at hdrop
    exact (List.cons.inj hdrop).1
  refine ⟨hj, hget, ?_⟩
  rcases h.fits with hnil | hfit
  · rw [hnil] at hj
    exact absurd hj (not_lt_zero j)
  · omega

theorem countUsed_eq (h : HoldsText f m text) (hlen : text.length < 65536) :
    ∀ (fuel j : Nat), j ≤ text.length → text.length < j + fuel →
      countUsed f m fuel j = some text.length
  | 0, j, hj, hf => by omega
  | fuel + 1, j, hj, hf => by
    rw [countUsed]
    by_cases hin : 2 + j < f.len
    · simp only [h.fread_at hin, if_true, headD_cons]
      rcases lt_or_eq_of_le hj with hlt | rfl
      · have hne : text.getD j erased ≠ 0xff := (getD_ne_erased h.clean).mpr hlt
        rw [if_neg hne, Nat.mod_eq_of_lt (by omega)]
        exact countUsed_eq h hlen fuel (j + 1) hlt (by omega)
      · have heq : text.getD text.length erased = 0xff :=
          getD_eq_default _ _ (Nat.le_refl _)
        rw [if_pos heq]
    · simp only [fread_end hin]
      rcases h.fits with hnil | hfit
      · rw [hnil] at hj ⊢
        rw [le_zero.mp hj]
        rfl
      · exact congrArg some (by omega)

theorem line_cons (w : List Byte) (ws : List (List Byte)) :
    line (w :: ws) = (w ++ [if ws = [] then newline else space]) ++ line ws := by
  rw [line, append_assoc, singleton_append]

theorem line_cons_length (w : List Byte) (ws : List (List Byte)) :
    (line (w :: ws)).length = w.length + 1 + (line ws).length := by
  rw [line_cons, length_append, length_append, length_singleton]

/-- The writes of `addWords` from `addr` on, if the file has room for them. -/
def storeWords (c : Chip) : Nat → List (List Byte) → Mem → Mem
  | _, [], m => m
  | addr, w :: ws, m =>
    storeWords c (addr + w.length + 1) ws
      (c.store (c.store m addr w) (addr + w.length) [if ws = [] then newline else space])

theorem addWords_turn {w : List Byte} {ws : List (List Byte)} {used : Nat}
    (hfit : 2 + used + (w.length + 1) ≤ f.len) (hwrap : used + w.length + 1 < 65536) :
    addWords c f (w :: ws) used m = addWords c f ws (used + w.length + 1)
      (c.store (c.store m (f.offset + (2 + used)) w) (f.offset + (2 + used) + w.length)
        [if ws = [] then newline else space]) := by
  have hmod : (used + w.length) % 65536 = used + w.length := Nat.mod_eq_of_lt (by omega)
  have hsep : fwrite c f (c.store m (f.offset + (2 + used)) w) (2 + (used + w.length))
      [if ws = [] then newline else space] = _ :=
    fwrite_inside (by rw [length_singleton]; omega)
  rw [addWords, fwrite_inside (by omega : 2 + used + w.length ≤ f.len)]
  simp only [ne_eq, not_true_eq_false, if_false, hmod, hsep, length_singleton,
    Int.natCast_one, Nat.mod_eq_of_lt hwrap]
  rw [show f.offset + (2 + (used + w.length)) = f.offset + (2 + used) + w.length by omega]

theorem addWords_fit : ∀ (ws : List (List Byte)) (used : Nat) (m : Mem),
    used + (line ws).length < 65536 → 2 + used + (line ws).length ≤ f.len →
    addWords c f ws used m =
      (true, used + (line ws).length, storeWords c (f.offset + (2 + used)) ws m)
  | [], _, _, _, _ => rfl
  | w :: ws, used, m, hwrap, hfit => by
    rw [line_cons_length] at hwrap hfit ⊢
    rw [addWords_turn (by omega) (by omega), addWords_fit ws _ _ (by omega) (by omega), storeWords]
    have hused : used + w.length + 1 + (line ws).length =
      used + (w.length + 1 + (line ws).length) := by omega
    have hnext : f.offset + (2 + (used + w.length + 1)) =
        f.offset + (2 + used) + w.length + 1 := by omega
    rw [hused, hnext]

/-- A command that does not fit: on a chip without pages it is written up to the end of the
file. -/
theorem addWords_cut : ∀ (ws : List (List Byte)) (used : Nat) (m : Mem),
    used + (line ws).length < 65536 ∨ f.len ≤ 65537 → f.len < 2 + used + (line ws).length →
    ws ≠ [] ∨ 2 + used ≤ f.len →
    (addWords c f ws used m).1 = false ∧ (c.paged = false → (addWords c f ws used m).2.2 =
      c.put m (f.offset + (2 + used)) ((line ws).take (f.len - (2 + used))))
  | [], used, m, _, hcut, hne => by
    rw [line, length_nil] at hcut
    exact absurd hne (by simp only [ne_eq, not_true_eq_false, false_or]; omega)
  | w :: ws, used, m, hwrap, hcut, _ => by
    have hll := line_cons_length w ws
    by_cases hfit : 2 + used + (w.length + 1) ≤ f.len
    · rw [addWords_turn hfit (by omega)]
      obtain ⟨hret, hmem⟩ := addWords_cut ws (used + w.length + 1)
        (c.store (c.store m (f.offset + (2 + used)) w) (f.offset + (2 + used) + w.length)
          [if ws = [] then newline else space])
        (by omega) (by omega) (.inr (by omega))
      refine ⟨hret, fun hc => (hmem hc).trans ?_⟩
      have hlen : (w ++ [if ws = [] then newline else space]).length = w.length + 1 := by
        rw [length_append, length_singleton]
      have htake : (w ++ [if ws = [] then newline else space]).take (f.len - (2 + used)) =
          w ++ [if ws = [] then newline else space] :=
        take_of_length_le (by rw [hlen]; omega)
      have hnext : f.offset + (2 + (used + w.length + 1)) =
        f.offset + (2 + used) + (w.length + 1) := by omega
      have hroom : f.len - (2 + (used + w.length + 1)) = f.len - (2 + used) - (w.length + 1) := by
        omega
      rw [line_cons, take_append, htake, ← put_append _ (w ++ _), ← put_append _ w, hlen, hnext,
        hroom, store_eq_put (stays_unpaged hc _ _), store_eq_put (stays_unpaged hc _ _)]
    · -- the turn ends with the first of its two writes that does not fit
      rw [addWords]
      by_cases hw : 2 + used + w.length ≤ f.len
      · have hmod : (used + w.length) % 65536 = used + w.length := Nat.mod_eq_of_lt (by omega)
        have hsep : f.len < 2 + (used + w.length) +
            [if ws = [] then newline else space].length := by
          rw [length_singleton]
          omega
        have hne : (fwrite c f (c.store m (f.offset + (2 + used)) w) (2 + (used + w.length))
            [if ws = [] then newline else space]).1 ≠ 1 := Int.ne_of_lt (fwrite_short hsep)
        simp only [fwrite_inside hw, ne_eq, not_true_eq_false, if_false, hmod, hne,
          not_false_eq_true, if_true, fwrite_cut hsep, true_and]
        intro hc
        rw [show f.len - (2 + (used + w.length)) = 0 by omega, take_zero,
          store_eq_put (stays_unpaged hc _ _), put_nil, store_eq_put (stays_unpaged hc _ _), line,
          take_left' (by omega)]
      · have hcut' : f.len < 2 + used + w.length := by omega
        have hne : (fwrite c f m (2 + used) w).1 ≠ w.length := Int.ne_of_lt (fwrite_short hcut')
        simp only [ne_eq, hne, not_false_eq_true, if_true, fwrite_cut hcut', true_and]
        intro hc
        rw [line, take_append_of_le_length (by omega), store_eq_put (stays_unpaged hc _ _)]

theorem addWords_ok (ws : List (List Byte)) (used : Nat) (m : Mem)
    (hwrap : used + (line ws).length < 65536) (hok : (addWords c f ws used m).1 = true)
    (hne : ws ≠ []) :
    addWords c f ws used m =
        (true, used + (line ws).length, storeWords c (f.offset + (2 + used)) ws m) ∧
      2 + used + (line ws).length ≤ f.len := by
  by_cases hfit : 2 + used + (line ws).length ≤ f.len
  · exact ⟨addWords_fit ws used m hwrap hfit, hfit⟩
  · have hcut := (addWords_cut (c := c) (f := f) ws used m (.inl hwrap) (by omega) (.inl hne)).1
    rw [hcut] at hok
    cases hok

/-! ### Words and pages

A word that does not stay in its page leaves the first cell of the next page as it was.  A command
is shorter than a page, so nothing that follows in it comes round to that cell. -/

theorem wordsStay_unpaged (hc : c.paged = false) : ∀ (ws : List (List Byte)) (addr : Nat),
    WordsStay c addr ws
  | [], _ => trivial
  | _ :: ws, _ => ⟨stays_unpaged hc _ _, wordsStay_unpaged hc ws _⟩

theorem wordsStay_of_le : ∀ {ws : List (List Byte)} {addr : Nat},
    addr % pageSize + (line ws).length ≤ pageSize → WordsStay c addr ws
  | [], _, _ => trivial
  | w :: ws, addr, h => by
    rw [line_cons_length] at h
    have hnext : ws = [] ∨ (addr + w.length + 1) % pageSize + (line ws).length ≤ pageSize := by
      cases ws with
      | nil => exact .inl rfl
      | cons w' ws =>
        rw [line_cons_length] at h ⊢
        unfold pageSize at *
        omega
    refine ⟨fun _ => by omega, ?_⟩
    rcases hnext with rfl | hnext
    · trivial
    · exact wordsStay_of_le hnext

theorem wordsStay_append {ws' : List (List Byte)} : ∀ {ws : List (List Byte)} {addr : Nat},
    WordsStay c addr (ws ++ ws') ↔
      WordsStay c addr ws ∧ WordsStay c (addr + (ws.map length).sum + ws.length) ws'
  | [], _ => by simp [WordsStay]
  | w :: ws, addr => by
    rw [cons_append, WordsStay, WordsStay, wordsStay_append, map_cons, sum_cons, length_cons,
      and_assoc, show addr + w.length + 1 + (ws.map length).sum + ws.length =
        addr + (w.length + (ws.map length).sum) + (ws.length + 1) by omega]

theorem storeWords_stay : ∀ {ws : List (List Byte)} {addr : Nat} {m : Mem},
    WordsStay c addr ws → storeWords c addr ws m = c.put m addr (line ws)
  | [], _, _, _ => (put_nil _).symm
  | w :: ws, addr, m, ⟨hw, hws⟩ => by
    rw [storeWords, storeWords_stay hws, store_eq_put hw, store_eq_put (stays_one _), put_append,
      line_cons, ← put_append _ (w ++ _), length_append, length_singleton, ← add_assoc]

theorem storeWords_beyond : ∀ {ws : List (List Byte)} {addr : Nat} {m : Mem} {i : Nat},
    addr + (line ws).length ≤ i → storeWords c addr ws m i = m i
  | [], _, _, _, _ => rfl
  | w :: ws, addr, m, i, h => by
    rw [line_cons_length] at h
    rw [storeWords, storeWords_beyond (by omega), store_beyond (by rw [length_singleton]; omega),
      store_beyond (by omega)]

theorem storeWords_gap : ∀ {ws : List (List Byte)} {addr : Nat} {m : Mem},
    ¬WordsStay c addr ws → (line ws).length ≤ pageSize →
    ∃ q < (line ws).length, storeWords c addr ws m (addr + q) = m (addr + q)
  | [], _, _, h, _ => absurd trivial h
  | w :: ws, addr, m, h, hlen => by
    rw [line_cons_length] at hlen ⊢
    by_cases hw : c.Stays addr w.length
    · have hws : ¬WordsStay c (addr + w.length + 1) ws := fun hws => h ⟨hw, hws⟩
      obtain ⟨q, hq, hcell⟩ := storeWords_gap
        (m := c.store (c.store m addr w) (addr + w.length) [if ws = [] then newline else space])
        hws (by omega)
      refine ⟨w.length + 1 + q, by omega, ?_⟩
      rw [storeWords, show addr + (w.length + 1 + q) = addr + w.length + 1 + q by omega, hcell,
        store_beyond (by rw [length_singleton]; omega), store_beyond (by omega)]
    · obtain ⟨hpaged, hcross⟩ := Classical.not_imp.1 hw
      unfold pageSize at hcross hlen
      refine ⟨256 - addr % 256, by omega, ?_⟩
      have hpage : addr / pageSize < (addr + (256 - addr % 256)) / pageSize := by
        unfold pageSize
        omega
      have hrest : WordsStay c (addr + w.length + 1) ws := by
        cases ws with
        | nil => trivial
        | cons w' ws =>
          refine wordsStay_of_le ?_
          rw [line_cons_length] at hlen ⊢
          unfold pageSize
          omega
      rw [storeWords, storeWords_stay hrest, put_other (.inl (by omega)),
        store_eq_put (stays_one _), put_other (.inl (by omega)), store_next_page hpaged hpage]

theorem countUsed_total (hf : f.len ≤ 65537) : ∀ (fuel used : Nat), used + fuel = 65535 →
    ∃ n, countUsed f m (fuel + 1) used = some n
  | fuel, used, hsum => by
    rw [countUsed]
    by_cases hin : 2 + used < f.len
    · cases fuel with
      | zero => omega
      | succ fuel =>
        rw [Nat.mod_eq_of_lt (show used + 1 < 65536 by omega)]
        obtain ⟨n, hn⟩ := countUsed_total hf fuel (used + 1) (by omega)
        split
        · split
          · exact ⟨used, rfl⟩
          · exact ⟨n, hn⟩
        · exact ⟨used, rfl⟩
    · rw [if_neg (fread_end hin)]
      exact ⟨used, rfl⟩

/-- Where a call starts to write, and how much room it has there. -/
def start (f : File) (m : Mem) : Nat :=
  match countUsed f m 65536 0 with
  | none => 0
  | some used => if used > 256 then 0 else used

def room (f : File) (m : Mem) : Nat := f.len - (2 + start f m)

theorem storageInitAdd_eq (hf : f.len ≤ 65537) (words : List (List Byte)) :
    storageInitAdd c o f m words = let r := addWords c f words (start f m) m
      if r.1 = false then some (-1, r.2.2)
      else
        let w := fwrite c f r.2.2 0 (imageOf o 2 r.2.1)
        if w.1 ≠ 2 then some (-1, w.2)
        else if (fread f w.2 0 2).1 ≠ 2 then some (-1, w.2)
        else some (0, w.2) := by
  obtain ⟨n, hn⟩ := countUsed_total hf 65535 0 (by omega)
  rw [storageInitAdd, start, hn]

/-! ### A chip without pages

The words are stored as one line, and only the end of the file cuts it. -/

section Unpaged

variable {words : List (List Byte)} (hc : c.paged = false) (hf : f.len ≤ 65537) (hne : words ≠ [])

include hc hf hne

theorem storageInitAdd_cut (hcut : room f m < (line words).length) :
    storageInitAdd c o f m words =
      some (-1, c.put m (f.offset + (2 + start f m)) ((line words).take (room f m))) := by
  rw [room] at hcut
  obtain ⟨hret, hmem⟩ := addWords_cut (c := c) (f := f) words (start f m) m (.inr hf) (by omega)
    (.inl hne)
  rw [storageInitAdd_eq hf]
  simp [hret, hmem hc, room]

/-- A command that fits: its text, and the size of the script. -/
theorem storageInitAdd_fits (hfit : (line words).length ≤ room f m) :
    storageInitAdd c o f m words =
      some (0, c.put (c.put m (f.offset + (2 + start f m)) (line words)) f.offset
        (imageOf o 2 (start f m + (line words).length))) := by
  have hpos : 0 < (line words).length := by
    obtain ⟨w, ws, rfl⟩ := exists_cons_of_ne_nil hne
    rw [line_cons_length]
    omega
  rw [room] at hfit
  have hsize : 0 + (imageOf o 2 (start f m + (line words).length)).length ≤ f.len := by
    rw [imageOf_length]
    omega
  have hread : ∀ m' : Mem, (fread f m' 0 (2 : Nat)).1 = 2 := by
    intro m'
    rw [fread_inside (by omega)]
    rfl
  rw [storageInitAdd_eq hf, addWords_fit words (start f m) m (by omega) (by omega)]
  simp only [Bool.true_eq_false, if_false, fwrite_inside hsize, imageOf_length,
    store_eq_put (stays_unpaged hc _ _), storeWords_stay (wordsStay_unpaged hc _ _)]
  exact (if_neg (by decide)).trans (if_neg (not_not.2 (hread _)))

theorem storageInitAdd_cell {i : Nat} (hi : i < (line words).length) (hroom : i < room f m) :
    ∃ ret m', storageInitAdd c o f m words = some (ret, m') ∧
      m' (f.offset + (2 + start f m) + i) = (line words).getD i 0 := by
  by_cases hcut : room f m < (line words).length
  · refine ⟨_, _, storageInitAdd_cut hc hf hne hcut, ?_⟩
    rw [put_at (by rw [length_take]; omega), c.prog_unpaged hc]
    simp only [List.getD_eq_getElem?_getD, List.getElem?_take_of_lt hroom]
  · refine ⟨_, _, storageInitAdd_fits hc hf hne (Nat.le_of_not_lt hcut), ?_⟩
    rw [put_other (.inr (by rw [imageOf_length]; omega)), put_at hi, c.prog_unpaged hc]

/-- When a call leaves the chip as it is. -/
theorem storageInitAdd_same_iff :
    (storageInitAdd c o f m words).map Prod.snd = some m ↔
      m.read (f.offset + (2 + start f m)) ((line words).take (room f m)).length =
          (line words).take (room f m) ∧
        ((line words).length ≤ room f m →
          m.read f.offset 2 = imageOf o 2 (start f m + (line words).length)) := by
  by_cases hcut : room f m < (line words).length
  · rw [storageInitAdd_cut hc hf hne hcut, Option.map_some, Option.some_inj,
      and_iff_left fun h => absurd hcut (Nat.not_lt_of_le h)]
    refine ⟨fun h => ?_, put_eq_self hc⟩
    replace h : c.put m _ _ = m := h
    exact (congrArg (Mem.read · _ _) h).symm.trans (read_put hc)
  · have hfit := Nat.le_of_not_lt hcut
    rw [storageInitAdd_fits hc hf hne hfit, Option.map_some, Option.some_inj,
      take_of_length_le hfit]
    generalize hn : imageOf o 2 (start f m + (line words).length) = size
    have hsize : size.length = 2 := by rw [← hn, imageOf_length]
    constructor
    · intro h
      replace h : c.put (c.put m _ (line words)) f.offset size = m := h
      constructor
      · refine (congrArg (Mem.read · _ _) h).symm.trans ?_
        refine Eq.trans (Mem.read_congr fun i _ => put_other (.inr ?_)) (read_put hc)
        rw [hsize]
        omega
      · intro _
        rw [← hsize]
        exact (congrArg (Mem.read · _ _) h).symm.trans (read_put hc)
    · rintro ⟨htext, htwo⟩
      rw [put_eq_self hc htext, put_eq_self hc (by rw [hsize]; exact htwo hfit)]

end Unpaged

/-! ### Where a call writes -/

def writeAt (used : Nat) : Nat := if used > 256 then 0 else used

theorem writeAt_le (used : Nat) : writeAt used ≤ 256 ∧ writeAt used ≤ used := by
  unfold writeAt
  split <;> omega

/-! ### A spoiled script

Counting and reading both stop at a missing byte, so a spoiled script stays spoiled. -/

/-- No byte of the script is at `j`. -/
def Blank (f : File) (m : Mem) (j : Nat) : Prop :=
  2 + j < f.len → m (f.offset + (2 + j)) = erased

/-- Of `n` bytes that were written, one is missing, and none lies behind them. -/
structure Spoiled (f : File) (m : Mem) (n : Nat) : Prop where
  gap : ∃ q < n, Blank f m q
  rest : ∀ j, n ≤ j → Blank f m j
  limit : ∀ j, 416 ≤ j → Blank f m j

theorem Spoiled.gap_le {n : Nat} (h : Spoiled f m n) : ∃ q < n, q ≤ 416 ∧ Blank f m q := by
  obtain ⟨q, hq, hblank⟩ := h.gap
  by_cases hle : q ≤ 416
  · exact ⟨q, hq, hle, hblank⟩
  · exact ⟨416, by omega, Nat.le_refl _, h.limit 416 (Nat.le_refl _)⟩

theorem HoldsText.blank (h : HoldsText f m text) {j : Nat} (hj : text.length ≤ j) :
    Blank f m j := fun hin => by
  rw [h.cell j hin]
  exact getD_eq_default _ _ hj

theorem countUsed_le {q : Nat} (hblank : Blank f m q) (hlen : q < 65535) :
    ∀ (fuel j : Nat), j ≤ q → q < j + fuel → ∃ used ≤ q, countUsed f m fuel j = some used
  | 0, j, hj, hf => by omega
  | fuel + 1, j, hj, hf => by
    rw [countUsed]
    by_cases hin : 2 + j < f.len
    · simp only [fread_cell hin, if_true, headD_cons]
      by_cases hend : m (f.offset + (2 + j)) = 0xff
      · exact ⟨j, hj, if_pos hend⟩
      · have hlt : j < q := by
          refine lt_of_le_of_ne hj ?_
          rintro rfl
          exact hend (hblank hin)
        rw [if_neg hend, Nat.mod_eq_of_lt (by omega)]
        exact countUsed_le hblank hlen fuel (j + 1) hlt (by omega)
    · simp only [fread_end hin]
      exact ⟨j, hj, rfl⟩

/-- What is blank behind the words stays blank. -/
theorem blank_add {m' : Mem} {used j : Nat}
    (hcell : ∀ j, m' (f.offset + (2 + j)) =
      storeWords c (f.offset + (2 + used)) cmd.words m (f.offset + (2 + j)))
    (hj : used + cmd.line.length ≤ j) (h : Blank f m j) : Blank f m' j := fun hin => by
  have hbeyond : f.offset + (2 + used) + (line cmd.words).length ≤ f.offset + (2 + j) := by
    rw [Command.line] at hj
    omega
  rw [hcell, storeWords_beyond hbeyond, h hin]

section Added

variable {m' : Mem} (hadd : storageInitAdd c o f m cmd.words = some (0, m'))

include hadd

/-- A call that returns 0 has written its words at `writeAt`, and touched nothing else of
the text. -/
theorem storageInitAdd_cells {used : Nat} (hused : countUsed f m 65536 0 = some used) :
    2 + writeAt used + cmd.line.length ≤ f.len ∧ ∀ j, m' (f.offset + (2 + j)) =
        storeWords c (f.offset + (2 + writeAt used)) cmd.words m (f.offset + (2 + j)) := by
  have hpos := (writeAt_le used).1
  have hline := cmd.line_le
  rw [storageInitAdd, hused] at hadd
  simp only [show (if used > 256 then 0 else used) = writeAt used from rfl] at hadd
  cases hok : (addWords c f cmd.words (writeAt used) m).1 with
  | false => simp [hok] at hadd
  | true =>
    obtain ⟨heq, hfit⟩ := addWords_ok cmd.words (writeAt used) m
      (lt_of_le_of_lt (Nat.add_le_add hpos hline) (by omega)) hok cmd.ne_nil
    refine ⟨hfit, fun j => ?_⟩
    rw [heq] at hadd
    simp only [Bool.true_eq_false, if_false] at hadd
    split at hadd
    · cases hadd
    · split at hadd
      · cases hadd
      · -- the size field lies in front of the text
        have hm := (Prod.mk.inj (Option.some.inj hadd)).2
        rw [← hm, fwrite_inside (by rw [imageOf_length]; omega)]
        exact store_beyond (by rw [imageOf_length]; omega)

/-- A command whose words stay in their pages is appended to up to 256 bytes of text. -/
theorem storageInitAdd_append (h : HoldsText f m text) (hlen : text.length ≤ 256)
    (hstay : WordsStay c (f.offset + (2 + text.length)) cmd.words) :
    HoldsText f m' (text ++ cmd.line) := by
  have hused := countUsed_eq h (by omega) 65536 0 (zero_le _) (by omega)
  obtain ⟨hfit, hcell⟩ := storageInitAdd_cells hadd hused
  have hw : writeAt text.length = text.length := if_neg (by omega)
  rw [hw] at hfit hcell
  rw [storeWords_stay hstay, ← Command.line] at hcell
  refine ⟨.inr (by rw [length_append]; omega), fun j hj => ?_, fun b hb => ?_⟩
  · rw [hcell j]
    rcases lt_or_ge j text.length with hlt | hge
    · rw [put_other (.inl (by omega)), h.cell j hj, getD_append _ _ _ _ hlt]
    · obtain ⟨i, rfl⟩ := Nat.exists_eq_add_of_le hge
      rw [getD_append_right _ _ _ _ hge, Nat.add_sub_cancel_left]
      have hold : m (f.offset + (2 + (text.length + i))) = erased := by
        rw [h.cell _ hj]
        exact getD_eq_default _ _ hge
      rw [show f.offset + (2 + (text.length + i)) = f.offset + (2 + text.length) + i by omega]
        at hold ⊢
      rcases lt_or_ge i cmd.line.length with hi | hi
      · rw [put_at hi, hold, c.prog_erased, getD_eq_getElem _ _ hi]
        exact (getD_eq_getElem _ _ hi).symm
      · rw [put_other (.inr (Nat.add_le_add_left hi _)), hold]
        exact (getD_eq_default _ _ hi).symm
  · rcases List.mem_append.mp hb with ht | hl
    · exact h.clean b ht
    · exact line_clean cmd.clean b hl

/-- A call that writes before the end of what was written leaves a script that is spoiled. -/
theorem spoiled_add {used n : Nat} (hused : countUsed f m 65536 0 = some used)
    (hbefore : writeAt used < n)
    (hrest : ∀ j, n ≤ j → Blank f m j) (hlimit : ∀ j, 416 ≤ j → Blank f m j) :
    Spoiled f m' (n + cmd.line.length) := by
  have hcell := (storageInitAdd_cells hadd hused).2
  have hpos := cmd.line_pos
  have hline := cmd.line_le
  have hwrite := (writeAt_le used).1
  refine ⟨⟨max n (writeAt used + cmd.line.length), by omega, ?_⟩, fun j hj => ?_, fun j hj => ?_⟩
  · exact blank_add hcell (le_max_right ..) (hrest _ (le_max_left ..))
  · exact blank_add hcell (by omega) (hrest j (by omega))
  · exact blank_add hcell (by omega) (hlimit j hj)

theorem Spoiled.add {n : Nat} (h : Spoiled f m n) :
    Spoiled f m' (n + cmd.line.length) := by
  obtain ⟨q, hq, hle, hblank⟩ := h.gap_le
  obtain ⟨used, hused, hcount⟩ := countUsed_le hblank (by omega) 65536 0 (zero_le _) (by omega)
  have hwrite := (writeAt_le used).2
  exact spoiled_add hadd hcount (by omega) h.rest h.limit

theorem HoldsText.spoiled_restart (h : HoldsText f m text) (hlen : 256 < text.length)
    (hmax : text.length ≤ 416) :
    Spoiled f m' (text.length + cmd.line.length) := by
  have hused := countUsed_eq h (by omega) 65536 0 (zero_le _) (by omega)
  have hw : writeAt text.length = 0 := if_pos hlen
  exact spoiled_add hadd hused (by omega) (fun j hj => h.blank hj) fun j hj => h.blank (by omega)

theorem HoldsText.spoiled_gap (h : HoldsText f m text) (hlen : text.length ≤ 256)
    (hcross : ¬WordsStay c (f.offset + (2 + text.length)) cmd.words) :
    Spoiled f m' (text.length + cmd.line.length) := by
  have hused := countUsed_eq h (by omega) 65536 0 (zero_le _) (by omega)
  obtain ⟨-, hcell⟩ := storageInitAdd_cells hadd hused
  have hw : writeAt text.length = text.length := if_neg (by omega)
  have hline := cmd.line_le
  rw [hw] at hcell
  obtain ⟨q, hq, hkept⟩ := storeWords_gap (m := m) hcross
    (le_trans hline (by decide : 160 ≤ pageSize))
  refine ⟨⟨text.length + q, Nat.add_lt_add_left hq _, fun hin => ?_⟩, fun j hj => ?_,
    fun j hj => ?_⟩
  · rw [hcell, show f.offset + (2 + (text.length + q)) = f.offset + (2 + text.length) + q by omega,
      hkept, show f.offset + (2 + text.length) + q = f.offset + (2 + (text.length + q)) by omega]
    exact h.blank (le_add_right _ _) hin
  · exact blank_add hcell hj (h.blank (by omega))
  · exact blank_add hcell (by omega) (h.blank (by omega))

end Added

end Add

/-! ## What a call of `storage_init_readcmd` does -/

section Read

variable {f : File} {m : Mem} {text : List Byte} (bufsize : Nat)

theorem readcmdLoop_turn (h : HoldsText f m text) {fuel i : Nat} {buf : Mem} (hi : i ≤ bufsize)
    (hj : 2 + j < f.len) (hptr : j < 65533) :
    readcmdLoop f m bufsize (fuel + 1) i (2 + j) buf =
      if text.getD j erased = 0xff then ((i : Int), 2 + j + 1, buf.set i (text.getD j erased))
      else if text.getD j erased = newline then
        ((i : Int) + 1, 2 + j + 1, buf.set i (text.getD j erased))
      else readcmdLoop f m bufsize fuel (i + 1) (2 + j + 1) (buf.set i (text.getD j erased)) := by
  rw [readcmdLoop, if_neg (Nat.not_lt_of_le hi), h.fread_at hj,
    Nat.mod_eq_of_lt (show 2 + j + 1 < 65536 by omega)]
  simp

theorem readcmdLoop_line (h : HoldsText f m text) (hlen : text.length ≤ 416) :
    ∀ (body rest : List Byte) (fuel i j : Nat) (buf : Mem), (∀ b ∈ body, b ≠ newline) →
      text.drop j = body ++ newline :: rest → i + body.length ≤ bufsize → body.length < fuel →
      ∃ buf', readcmdLoop f m bufsize fuel i (2 + j) buf =
          ((i : Int) + body.length + 1, 2 + (j + body.length + 1), buf') ∧
        buf'.read 0 (i + body.length + 1) = buf.read 0 i ++ (body ++ [newline])
  | body, rest, 0, i, j, buf, _, _, _, hf => absurd hf (not_lt_zero _)
  | [], rest, fuel + 1, i, j, buf, _, hdrop, hi, _ => by
    obtain ⟨hj, hget, hin⟩ := h.head_of_drop hdrop
    refine ⟨buf.set i newline, ?_, ?_⟩
    · rw [readcmdLoop_turn bufsize h (le_of_add_right_le hi) hin (by omega), hget,
        if_neg (by decide)]
      simp [add_assoc]
    · have hset := Mem.read_set_end buf 0 i newline
      rw [zero_add] at hset
      exact hset
  | b :: body, rest, fuel + 1, i, j, buf, hnl, hdrop, hi, hf => by
    rw [forall_mem_cons] at hnl
    rw [length_cons] at hi hf
    obtain ⟨hj, hget, hin⟩ := h.head_of_drop hdrop
    have hb : b ≠ 0xff := by
      have hne := (getD_ne_erased h.clean).mpr hj
      rwa [hget] at hne
    have hdrop' : text.drop (j + 1) = body ++ newline :: rest := by
      rw [← drop_drop, hdrop]
      rfl
    obtain ⟨buf', heq, hread⟩ := readcmdLoop_line h hlen body rest fuel (i + 1) (j + 1)
      (buf.set i b) hnl.2 hdrop' (by omega) (by omega)
    refine ⟨buf', ?_, ?_⟩
    · rw [readcmdLoop_turn bufsize h (by omega) hin (by omega), hget, if_neg hb, if_neg hnl.1,
        show 2 + j + 1 = 2 + (j + 1) by omega, heq]
      simp only [length_cons, Prod.mk.injEq, and_true]
      exact ⟨by omega, by omega⟩
    · have hset := Mem.read_set_end buf 0 i b
      rw [zero_add] at hset
      rw [length_cons, show i + (body.length + 1) + 1 = i + 1 + body.length + 1 by omega,
        hread, hset]
      simp

/-- A call returns -1, or has filled the first bytes of its buffer. -/
theorem readcmdLoop_le : ∀ (fuel i ptr : Nat) (buf : Mem),
    (readcmdLoop f m bufsize fuel i ptr buf).1 ≤ bufsize + 1
  | 0, _, _, _ => Int.le_trans (by decide : (-1 : Int) ≤ 0) (Int.natCast_nonneg (bufsize + 1))
  | fuel + 1, i, ptr, buf => by
    have hnext := readcmdLoop_le fuel (i + 1)
    rw [readcmdLoop]
    dsimp only
    split_ifs
    all_goals try exact hnext _ _
    all_goals dsimp only; omega

theorem readCalls_le : ∀ (n : Nat) (next : Bool) (ptr : Nat) (buf : Mem),
    ∀ r ∈ readCalls f m bufsize n next ptr buf, r.ret ≤ bufsize + 1
  | 0, _, _, _, _, hr => absurd hr not_mem_nil
  | n + 1, _, _, _, r, hr => by
    rcases mem_cons.1 hr with rfl | hr
    · exact readcmdLoop_le bufsize ..
    · exact readCalls_le n _ _ _ r hr

theorem readcmdLoop_blank (hblank : Blank f m j) (fuel : Nat) (buf : Mem) :
    (readcmdLoop f m bufsize (fuel + 1) 0 (2 + j) buf).1 ≤ 0 := by
  rw [readcmdLoop, if_neg (not_lt_zero _)]
  by_cases hin : 2 + j < f.len
  · simp [fread_cell hin, hblank hin, erased, Mem.set_same]
  · simp [fread_end hin]

theorem readCalls_lines (h : HoldsText f m text) (hlen : text.length ≤ 416) :
    ∀ (cmds : List Command) (j : Nat) (next : Bool) (ptr : Nat) (buf : Mem),
      (if next then ptr else 2) = 2 + j → j ≤ text.length →
      text.drop j = (cmds.map Command.line).flatten →
      (∀ cmd ∈ cmds, cmd.line.length ≤ bufsize + 1) →
      ∃ last ≤ 0, readCalls f m bufsize (cmds.length + 1) next ptr buf =
        (cmds.map Command.line).map Reply.ofLine ++ [⟨last, []⟩]
  | [], j, next, ptr, buf, hptr, hj, hdrop, _ => by
    have hend : text.length ≤ j := List.drop_eq_nil_iff.mp hdrop
    have hret := readcmdLoop_blank bufsize (h.blank hend) (bufsize + 1) buf
    refine ⟨_, hret, ?_⟩
    rw [readCalls, storageInitReadcmd, hptr, Int.toNat_of_nonpos hret]
    rfl
  | cmd :: cmds, j, next, ptr, buf, hptr, hj, hdrop, hfit => by
    rw [forall_mem_cons] at hfit
    obtain ⟨body, hline, hbody⟩ := line_body cmd.ne_nil cmd.clean
    have hcmd : cmd.line = body ++ [newline] := hline
    have hbl : cmd.line.length = body.length + 1 := by rw [hcmd, length_append]; rfl
    rw [map_cons, flatten_cons] at hdrop
    have hdrop₀ : text.drop j = body ++ newline :: (cmds.map Command.line).flatten := by
      rw [hdrop, hcmd, append_assoc, singleton_append]
    obtain ⟨buf', heq, hread⟩ :=
      readcmdLoop_line bufsize h hlen body _ (bufsize + 2) 0 j buf hbody hdrop₀
        (by omega) (by omega)
    have hdrop' : text.drop (j + body.length + 1) = (cmds.map Command.line).flatten := by
      rw [add_assoc, ← drop_drop, hdrop, ← hbl, drop_left]
    have hj' : j + body.length + 1 ≤ text.length := by
      have hl := congrArg List.length hdrop₀
      simp only [length_drop, length_append, length_cons] at hl
      omega
    obtain ⟨last, hlast, hrest⟩ := readCalls_lines h hlen cmds (j + body.length + 1) true
      (2 + (j + body.length + 1)) buf' rfl hj' hdrop' hfit.2
    refine ⟨last, hlast, ?_⟩
    have hnat : ((0 : Nat) : Int) + body.length + 1 = (cmd.line.length : Int) := by omega
    rw [length_cons, readCalls, storageInitReadcmd, hptr, heq, hrest, hnat,
      Int.toNat_natCast, show cmd.line.length = 0 + body.length + 1 by omega, hread, ← hcmd]
    simp [Reply.ofLine, Mem.read, hbl]

/-- A call that starts before a blank cell: it fails, returns a text without a newline, or ends
before the cell. -/
theorem readcmdLoop_stops {q : Nat} (hblank : Blank f m q) (hq : q ≤ 416) :
    ∀ (fuel i j : Nat) (buf : Mem), j ≤ q → let r := readcmdLoop f m bufsize fuel i (2 + j) buf
      (∀ k < i, r.2.2 k = buf k) ∧ (r.1 = -1 ∨
        (∃ k : Nat, r.1 = i + k ∧ ∀ a < k, r.2.2 (i + a) ≠ newline) ∨
        ∃ k : Nat, r.1 = i + k + 1 ∧ r.2.1 = 2 + (j + k + 1) ∧ j + k < q)
  | 0, _, _, _, _ => ⟨fun _ _ => rfl, .inl rfl⟩
  | fuel + 1, i, j, buf, hj => by
    rw [readcmdLoop]
    by_cases hi : i > bufsize
    · rw [if_pos hi]
      exact ⟨fun _ _ => rfl, .inl rfl⟩
    rw [if_neg hi]
    by_cases hin : 2 + j < f.len
    · have hkeep : ∀ k < i, buf.set i (m (f.offset + (2 + j))) k = buf k :=
        fun k hk => Mem.set_other (Nat.ne_of_lt hk)
      simp only [fread_cell hin, ne_eq, not_true_eq_false, if_false, headD_cons, Mem.set_same,
        Nat.mod_eq_of_lt (show 2 + j + 1 < 65536 by omega)]
      by_cases hend : m (f.offset + (2 + j)) = 0xff
      · rw [if_pos hend]
        exact ⟨hkeep, .inr (.inl ⟨0, by simp, fun a ha => absurd ha (not_lt_zero a)⟩)⟩
      · have hlt : j < q := by
          refine lt_of_le_of_ne hj ?_
          rintro rfl
          exact hend (hblank hin)
        rw [if_neg hend]
        by_cases hnl : m (f.offset + (2 + j)) = newline
        · rw [if_pos hnl]
          exact ⟨hkeep, .inr (.inr ⟨0, by simp, rfl, hlt⟩)⟩
        · rw [if_neg hnl, show 2 + j + 1 = 2 + (j + 1) by omega]
          obtain ⟨hkept, hret⟩ := readcmdLoop_stops hblank hq fuel (i + 1) (j + 1)
            (buf.set i (m (f.offset + (2 + j)))) hlt
          refine ⟨fun k hk => (hkept k (by omega)).trans (hkeep k hk), ?_⟩
          rcases hret with hfail | ⟨k, hk, hplain⟩ | ⟨k, hk, hptr, hbefore⟩
          · exact .inl hfail
          · refine .inr (.inl ⟨k + 1, by rw [hk]; omega, fun a ha => ?_⟩)
            cases a with
            | zero =>
              have hfirst := hkept i (lt_succ_self i)
              rw [Mem.set_same] at hfirst
              exact fun hsame => hnl (hfirst.symm.trans hsame)
            | succ a =>
              rw [show i + (a + 1) = i + 1 + a by omega]
              exact hplain a (by omega)
          · exact .inr (.inr ⟨k + 1, by rw [hk]; omega, by rw [hptr]; omega, by omega⟩)
    · rw [if_pos (fread_end hin)]
      exact ⟨fun _ _ => rfl, .inl rfl⟩

theorem readCalls_blank {q : Nat} (hblank : Blank f m q) (hq : q ≤ 416) :
    ∀ (cmds : List Command) (n j : Nat) (rest : List Reply) (next : Bool) (ptr : Nat) (buf : Mem),
      (if next then ptr else 2) = 2 + j → j ≤ q → q < j + (cmds.map Command.line).flatten.length →
      readCalls f m bufsize (cmds.length + n) next ptr buf ≠
        (cmds.map Command.line).map Reply.ofLine ++ rest
  | [], _, j, _, _, _, _, _, hj, hlt => by
    rw [map_nil, flatten_nil, length_nil] at hlt
    omega
  | cmd :: cmds, n, j, rest, next, ptr, buf, hptr, hj, hlt => by
    intro heq
    obtain ⟨body, hline, -⟩ := line_body cmd.ne_nil cmd.clean
    have hcmd : cmd.line = body ++ [newline] := hline
    rw [length_cons, add_right_comm, readCalls, storageInitReadcmd, hptr] at heq
    obtain ⟨hhead, htail⟩ := List.cons.inj heq
    have hret := congrArg Reply.ret hhead
    have hdata := congrArg Reply.data hhead
    simp only [Reply.ofLine] at hret hdata
    have hbl : cmd.line.length = body.length + 1 := by
      rw [hcmd, length_append, length_singleton]
    obtain ⟨-, hfail | ⟨k, hk, hplain⟩ | ⟨k, hk, hptr', hbefore⟩⟩ :=
      readcmdLoop_stops bufsize hblank hq (bufsize + 2) 0 j buf hj
    · omega
    · -- the last byte of the line is a newline
      have hkl : k = cmd.line.length := by omega
      refine hplain body.length (by omega) ?_
      rw [hret, Int.toNat_natCast] at hdata
      rw [Mem.eq_of_read hdata (by omega), hcmd]
      simp
    · rw [map_cons, flatten_cons, length_append] at hlt
      exact readCalls_blank hblank hq cmds n (j + k + 1) rest true _ _ hptr' (by omega) (by omega)
        htail

theorem Spoiled.not_replays {n : Nat} (h : Spoiled f m n) {cmds : List Command}
    (hn : n = (cmds.map Command.line).flatten.length) :
    ¬Replays f m bufsize (cmds.map Command.line) := by
  intro hreplay
  obtain ⟨q, hq, hle, hblank⟩ := h.gap_le
  obtain ⟨last, -, heq⟩ := hreplay 0 fun _ => 0
  rw [length_map] at heq
  exact readCalls_blank bufsize hblank hle cmds 1 0 _ false 0 _ rfl (zero_le _) (by omega) heq

end Read

/-! ## Command after command -/

section Script

variable {c : Chip} {o : Order} {f : File}

/-- The lines of the commands, one behind the other. -/
def script (cmds : List Command) : List Byte := (cmds.map Command.line).flatten

/-- Every command but the last finds at most 256 bytes, and the words stay in their pages. -/
def Appends (c : Chip) (f : File) (cmds : List Command) : Prop :=
  (script cmds.dropLast).length ≤ 256 ∧ WordsStay c (f.offset + 2) (cmds.flatMap Command.words)

/-- The text is the script, or the script is spoiled. -/
def Kept (c : Chip) (f : File) (cmds : List Command) (m : Mem) : Prop :=
  (Appends c f cmds ∧ (script cmds).length ≤ 416 ∧ HoldsText f m (script cmds)) ∨
    (¬Appends c f cmds ∧ Spoiled f m (script cmds).length)

theorem script_concat (cmds : List Command) (cmd : Command) :
    script (cmds ++ [cmd]) = script cmds ++ cmd.line := by
  simp [script]

theorem script_length : ∀ cmds : List Command, (script cmds).length =
    ((cmds.flatMap Command.words).map length).sum + (cmds.flatMap Command.words).length
  | [] => rfl
  | cmd :: cmds => by
    have := script_length cmds
    rw [script] at this ⊢
    rw [map_cons, flatten_cons, length_append, this, Command.line, line_length, flatMap_cons,
      map_append, sum_append_nat, length_append]
    omega

theorem appends_concat {cmds : List Command} {cmd : Command} :
    Appends c f (cmds ++ [cmd]) ↔ (script cmds).length ≤ 256 ∧
      WordsStay c (f.offset + 2) (cmds.flatMap Command.words) ∧
      WordsStay c (f.offset + (2 + (script cmds).length)) cmd.words := by
  rw [Appends, dropLast_concat, flatMap_append, flatMap_singleton, wordsStay_append,
    add_assoc (f.offset + 2), ← script_length, add_assoc]

theorem script_dropLast_le (cmds : List Command) :
    (script cmds.dropLast).length ≤ (script cmds).length := by
  rcases eq_nil_or_concat cmds with rfl | ⟨cmds, cmd, rfl⟩
  · exact Nat.le_refl _
  · rw [concat_eq_append, dropLast_concat, script_concat, length_append]
    exact le_add_right _ _

theorem Kept.add {cmds : List Command} {cmd : Command} {m m' : Mem} (h : Kept c f cmds m)
    (hadd : storageInitAdd c o f m cmd.words = some (0, m')) : Kept c f (cmds ++ [cmd]) m' := by
  have hline := cmd.line_le
  rw [Kept, appends_concat, script_concat, length_append]
  rcases h with ⟨happ, hlen, htext⟩ | ⟨happ, hspoiled⟩
  · by_cases hshort : (script cmds).length ≤ 256
    · by_cases hstay : WordsStay c (f.offset + (2 + (script cmds).length)) cmd.words
      · exact .inl ⟨⟨hshort, happ.2, hstay⟩, by omega,
          storageInitAdd_append hadd htext hshort hstay⟩
      · exact .inr ⟨fun h => hstay h.2.2, htext.spoiled_gap hadd hshort hstay⟩
    · exact .inr ⟨fun h => hshort h.1, htext.spoiled_restart hadd (by omega) hlen⟩
  · refine .inr ⟨fun h => happ ⟨?_, h.2.1⟩, hspoiled.add hadd⟩
    exact le_trans (script_dropLast_le cmds) h.1

theorem addAll_kept : ∀ (cmds done : List Command) (m m' : Mem), Kept c f done m →
    addAll c o f cmds m = some m' → Kept c f (done ++ cmds) m'
  | [], done, m, m', h, hadd => by
    cases hadd
    rwa [append_nil]
  | cmd :: cmds, done, m, m', h, hadd => by
    rw [addAll] at hadd
    split at hadd
    · cases hadd
    · rename_i r hr
      split at hadd
      · rename_i hzero
        obtain ⟨ret, m₁⟩ := r
        subst hzero
        have hall := addAll_kept cmds (done ++ [cmd]) m₁ m' (h.add hr) hadd
        rwa [append_assoc] at hall
      · cases hadd

/-- **The boot script** after any calls of `storage_init_add` that all return 0, starting from an
erased file: the reader gives back the commands exactly if each fits its buffer, the commands
before the last have at most 256 bytes, and, on a flash, no word lies across the end of a page. -/
theorem addAll_replays_iff {m m' : Mem} (hblank : ∀ j < f.len, m (f.offset + j) = erased)
    (cmds : List Command) (hadd : addAll c o f cmds m = some m') (bufsize : Nat) :
    Replays f m' bufsize (cmds.map Command.line) ↔ (∀ cmd ∈ cmds, cmd.line.length ≤ bufsize + 1) ∧
        (cmds.dropLast.map Command.line).flatten.length ≤ 256 ∧
        WordsStay c (f.offset + 2) (cmds.flatMap Command.words) := by
  have h₀ : HoldsText f m [] := ⟨.inl rfl, fun j hj => hblank _ hj, fun b hb => by cases hb⟩
  have hstart : Kept c f [] m := .inl ⟨⟨zero_le _, trivial⟩, zero_le _, h₀⟩
  rcases addAll_kept cmds [] m m' hstart hadd with ⟨happ, hlen, h⟩ | ⟨happ, hspoiled⟩
  · rw [nil_append] at happ hlen h
    refine Iff.trans ?_ (and_iff_left happ).symm
    constructor
    · intro hreplay
      obtain ⟨last, -, heq⟩ := hreplay 0 (fun _ => 0)
      intro cmd hcmd
      have hle := readCalls_le bufsize _ false 0 _ (Reply.ofLine cmd.line) (by
        rw [heq]
        exact mem_append_left _ (mem_map_of_mem (mem_map_of_mem hcmd)))
      simp only [Reply.ofLine] at hle
      omega
    · intro hfit ptr buf
      have hcalls := readCalls_lines bufsize h hlen cmds 0 false ptr buf rfl (zero_le _)
        drop_zero hfit
      rw [length_map]
      exact hcalls
  · rw [nil_append] at happ hspoiled
    exact iff_of_false (hspoiled.not_replays bufsize rfl) fun h => happ h.2

/-- The command `ptp stop`. -/
def ptpStop : Command where
  words := [[0x70, 0x74, 0x70], [0x73, 0x74, 0x6f, 0x70]]
  ne_nil := by decide
  word_ne_nil := by decide
  clean := by decide
  short := by decide

def longCommand : Command where
  words := [List.replicate 80 0x78]
  ne_nil := by decide
  word_ne_nil := by decide
  clean := by decide
  short := by decide

/-- Two commands in a small file on a flash. -/
theorem addAll_replays_two :
    ∃ m', addAll (.flash 4096 (by decide)) .little ⟨0, 92⟩ [longCommand, ptpStop]
        (fun _ => erased) = some m' ∧
      Replays ⟨0, 92⟩ m' 80 [longCommand.line, ptpStop.line] := by
  have hsome : (addAll (.flash 4096 (by decide)) .little ⟨0, 92⟩ [longCommand, ptpStop]
      (fun _ => erased)).isSome = true := by decide +kernel
  obtain ⟨m', hm⟩ := Option.isSome_iff_exists.mp hsome
  refine ⟨m', hm, (addAll_replays_iff (fun _ _ => rfl) [longCommand, ptpStop] hm 80).mpr ?_⟩
  decide

/-- The fourth of four long commands lies across the end of the first page. -/
example : WordsStay (.flash 4096 (by decide)) 2 (List.replicate 3 longCommand.words).flatten ∧
    ¬WordsStay (.flash 4096 (by decide)) 2 (List.replicate 4 longCommand.words).flatten := by
  decide

/-- A fifth command finds 324 bytes, and is written over the first one: the reader starts
with it. -/
theorem addAll_overwrites : ∃ m', addAll Chip.eeprom .little ⟨0, 4096⟩
        [longCommand, longCommand, longCommand, longCommand, ptpStop] (fun _ => erased) = some m' ∧
      ¬ Replays ⟨0, 4096⟩ m' 80 ([longCommand, longCommand, longCommand, longCommand,
        ptpStop].map Command.line) := by
  have hfirst : (addAll Chip.eeprom .little ⟨0, 4096⟩
      [longCommand, longCommand, longCommand, longCommand, ptpStop] (fun _ => erased)).map
        (fun m' => (readCalls ⟨0, 4096⟩ m' 80 6 false 0 (fun _ => 0)).head?) =
      some (some (Reply.ofLine ptpStop.line)) := by decide +kernel
  obtain ⟨m', hm, hread⟩ := Option.map_eq_some_iff.mp hfirst
  refine ⟨m', hm, fun hreplay => ?_⟩
  obtain ⟨last, -, heq⟩ := hreplay 0 (fun _ => 0)
  have hhead := congrArg List.head? heq
  rw [show ([longCommand, longCommand, longCommand, longCommand, ptpStop].map
    Command.line).length + 1 = 6 from rfl, hread] at hhead
  have hret : (ptpStop.line.length : Int) = longCommand.line.length :=
    congrArg Reply.ret (Option.some.inj hhead)
  exact absurd hret (by decide)

end Script

end Wrpc.Storage
