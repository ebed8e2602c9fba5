/-
# The boot script, written through SNMP and through the shell

`wrpcInitScriptConfigGroup` has a line and an "apply" object: a SET of the line stores it,
and a SET of the other to `writeToFlash` passes it to `storage_init_add`, as one argument.
The shell passes the words of `init add …`, from an array with a NULL behind them.

The array of the agent ends with a pointer to an empty string, where `storage_init_add`
looks for a NULL.
-/
import Wrpc.Net.Snmp
import Wrpc.Shell.Words
import Wrpc.Storage.InitScript

namespace Wrpc.SnmpScript

open List

open Storage (Chip File fwrite ferase storageInitAdd newline space)
open Shell (splitWords maxArgs)

/-! ## The objects -/

/-- `sizeof(init_script_line)` -/
def scriptLineSize : Nat := 32

def writeToFlash : Nat := 1
def eraseFlash : Nat := 50
def applySuccessful : Nat := 100
def applyFailed : Nat := 200
def applyFailedEmptyLine : Nat := 201

/-- What the compiler has made of the variables that are not the script's. -/
structure Layout where
  /-- `init_script_config_apply_status` lies directly behind `init_script_line` -/
  adjacent : Bool
  /-- the uninitialised `args[0]` -/
  first : Option (List Byte)
  /-- the strings that are pointed to from behind `args`, up to the first NULL -/
  behind : List (List Byte)

/-- `set_p` of the line: `set_value` of an octet string. -/
def setLine (scriptLine value : List Byte) : Int × List Byte :=
  if value.length > scriptLineSize then (-Snmp.errBadValue, scriptLine)
  else (value.length + 2, value)

/-- The string at `init_script_line`.  The NUL of a line that fills the array is behind it,
where by now the status may have been stored. -/
def scriptString (o : Order) (p : Layout) (scriptLine : List Byte) : List Byte :=
  if scriptLine.length = scriptLineSize ∧ p.adjacent then
    scriptLine ++ (Bytes.imageOf o 4 writeToFlash).takeWhile (· ≠ 0)
  else scriptLine

/-- The array `args` of `set_init_script_config`; `none` is a NULL. -/
def scriptArgs (o : Order) (p : Layout) (scriptLine : List Byte) : List (Option (List Byte)) :=
  [p.first, some (scriptString o p scriptLine), some []]

/-- What `storage_init_add` finds from a pointer on: the strings of the array up to a NULL, or
those behind it as well. -/
def readArgs : List (Option (List Byte)) → List (List Byte) → List (List Byte)
  | [], behind => behind
  | none :: _, _ => []
  | some w :: args, behind => w :: readArgs args behind

/-- The array that is passed to `storage_init_add`, if it is called. -/
def passedArgs (o : Order) (p : Layout) (scriptLine : List Byte) :
    Option (List (Option (List Byte))) :=
  if scriptLine = [] then none else some (scriptArgs o p scriptLine)

/-- `storage_init_erase` -/
def storageInitErase (c : Chip) (f : File) (m : Mem) : Int × Mem :=
  let r := ferase c f m 0 f.len
  (if r.1 = f.len ∨ r.1 = 1 then 0 else -1, r.2)

/-- `set_init_script_config` with the value `mode`: the status and the device, or `none` if it
does not return. -/
def setInitScriptConfig (c : Chip) (o : Order) (f : File) (p : Layout) (scriptLine : List Byte)
    (mode : Nat) (m : Mem) : Option (Nat × Mem) :=
  if mode = writeToFlash then
    match passedArgs o p scriptLine with
    | none => some (applyFailedEmptyLine, m)
    | some args =>
      -- `args[0]` is ignored
      (storageInitAdd c o f m (readArgs (args.drop 1) p.behind)).map fun r =>
        (if r.1 < 0 then applyFailed else applySuccessful, r.2)
  else if mode = eraseFlash then
    let r := storageInitErase c f m
    some (if r.1 < 0 then applyFailed else applySuccessful, r.2)
  else some (applyFailed, m)

def snmpAdd (c : Chip) (o : Order) (f : File) (p : Layout) (scriptLine value : List Byte)
    (m : Mem) : Option Mem :=
  (setInitScriptConfig c o f p (setLine scriptLine value).2 writeToFlash m).map Prod.snd

/-! ## The shell -/

/-- The bytes of `init add `. -/
def initAdd : List Byte := [0x69, 0x6e, 0x69, 0x74, 0x20, 0x61, 0x64, 0x64, 0x20]

/-- The arguments of `init add` that `storage_init_add` looks at. -/
def shellWords (value : List Byte) : List (List Byte) :=
  (splitWords maxArgs (initAdd ++ value)).drop 2

/-- The device after `cmd_init`, which does nothing without a word. -/
def shellAdd (c : Chip) (o : Order) (f : File) (value : List Byte) (m : Mem) : Option Mem :=
  if shellWords value = [] then some m
  else (storageInitAdd c o f m (shellWords value)).map Prod.snd

/-! ## The two texts -/

/-- A line that may be written: 1 to 80 printable characters. -/
structure ScriptLine where
  text : List Byte
  ne_nil : text ≠ []
  length_le : text.length ≤ 80
  printable : ∀ b ∈ text, 0x20 ≤ b ∧ b < 0x7f

section Texts

variable {o : Order} {p : Layout} {c : Chip} {f : File} {m : Mem}

theorem scriptString_cases (o : Order) (p : Layout) (scriptLine : List Byte) :
    scriptString o p scriptLine = scriptLine ∨ scriptString o p scriptLine = scriptLine ++ [1] := by
  rw [scriptString]
  split
  · cases o with
    | little => exact .inr (congrArg (scriptLine ++ ·) (by decide))
    | big => exact .inl ((congrArg (scriptLine ++ ·) (by decide)).trans (append_nil _))
  · exact .inl rfl

theorem agent_text (scriptLine : List Byte) :
    ∃ b rest, b ≠ newline ∧
      Storage.line (readArgs ((scriptArgs o p scriptLine).drop 1) p.behind) =
        scriptLine ++ b :: rest := by
  have hline : Storage.line (readArgs ((scriptArgs o p scriptLine).drop 1) p.behind) =
      scriptString o p scriptLine ++ space :: (if p.behind = [] then newline else space) ::
        Storage.line p.behind := rfl
  rcases scriptString_cases o p scriptLine with hs | hs
  · exact ⟨space, _, by decide, by rw [hline, hs]⟩
  · exact ⟨1, _, by decide, by rw [hline, hs, append_assoc]; rfl⟩

theorem splitWords_blank (n : Nat) (text : List Byte) :
    splitWords n (Shell.blank :: text) = splitWords n text := by
  cases n with
  | zero => rfl
  | succ n => rfl

theorem line_splitWords_length : ∀ (n : Nat) (text : List Byte),
    (Storage.line (splitWords n text)).length ≤ text.length + 1
  | 0, text => Nat.zero_le _
  | n + 1, text => by
    have hrest := Shell.length_dropWhile_le (· = Shell.blank) text
    simp only [splitWords]
    generalize text.dropWhile (· = Shell.blank) = rest at hrest ⊢
    split
    · exact Nat.zero_le _
    · split
      · rw [Storage.line_length]
        simp only [map_cons, map_nil, sum_cons, sum_nil, length_cons,
          length_nil]
        omega
      · have hparts : (rest.takeWhile (· ≠ Shell.blank)).length +
            (rest.dropWhile (· ≠ Shell.blank)).length = rest.length := by
          rw [← length_append, takeWhile_append_dropWhile]
        rw [Storage.line, length_append, length_cons]
        cases hafter : rest.dropWhile (· ≠ Shell.blank) with
        | nil =>
          rw [Shell.splitWords_nil, Storage.line, length_nil]
          omega
        | cons b after =>
          rw [hafter, length_cons] at hparts
          rw [Shell.head_afterArg hafter, splitWords_blank]
          have hrec := line_splitWords_length n after
          omega

theorem line_ends : ∀ {words : List (List Byte)}, words ≠ [] →
    ∃ body, Storage.line words = body ++ [newline]
  | [], h => absurd rfl h
  | [w], _ => ⟨w, rfl⟩
  | w :: w' :: words, _ => by
    obtain ⟨body, hbody⟩ := line_ends (cons_ne_nil w' words)
    refine ⟨w ++ space :: body, ?_⟩
    rw [Storage.line, hbody, if_neg (cons_ne_nil w' words), append_assoc,
      cons_append]

end Texts

/-! ## The agent against the shell -/

/-- The agent leaves the device as the shell does, and the array that it passes to
`storage_init_add`, if it does, has a NULL. -/
def AsShell (c : Chip) (o : Order) (f : File) (p : Layout) (scriptLine : List Byte)
    (line : ScriptLine) (m : Mem) : Prop :=
  snmpAdd c o f p scriptLine line.text m = shellAdd c o f line.text m ∧
    ∀ args ∈ passedArgs o p (setLine scriptLine line.text).2, none ∈ args.drop 1

section AsShell

variable {c : Chip} {o : Order} {f : File} {p : Layout} {scriptLine : List Byte}
  {line : ScriptLine} {m : Mem}

theorem setLine_accepted (h : line.text.length ≤ scriptLineSize) :
    (setLine scriptLine line.text).2 = line.text := by
  rw [setLine, if_neg (Nat.not_lt_of_le h)]

theorem passedArgs_unterminated {script : List Byte} (hne : script ≠ []) :
    ¬∀ args ∈ passedArgs o p script, none ∈ args.drop 1 := by
  intro h
  have hnull := h (scriptArgs o p script) (if_neg hne)
  simp only [scriptArgs, drop_succ_cons, drop_zero, mem_cons, reduceCtorEq,
    not_mem_nil, or_self] at hnull

theorem asShell_iff : AsShell c o f p scriptLine line m ↔
    scriptLineSize < line.text.length ∧ scriptLine = [] ∧
      shellAdd c o f line.text m = some m := by
  rw [AsShell]
  by_cases hlong : scriptLineSize < line.text.length
  · rw [snmpAdd, setLine, if_pos hlong]
    by_cases hempty : scriptLine = []
    · subst hempty
      constructor
      · intro h
        exact ⟨hlong, rfl, h.1.symm⟩
      · rintro ⟨-, -, h⟩
        exact ⟨h.symm, fun args hargs => (nomatch hargs)⟩
    · refine iff_of_false (fun h => passedArgs_unterminated hempty h.2) fun h => hempty h.2.1
  · rw [setLine_accepted (Nat.le_of_not_lt hlong)]
    exact iff_of_false (fun h => passedArgs_unterminated line.ne_nil h.2) fun h => hlong h.1

theorem snmpAdd_accepted (h : line.text.length ≤ scriptLineSize) :
    snmpAdd c o f p scriptLine line.text m = (storageInitAdd c o f m
      (readArgs ((scriptArgs o p line.text).drop 1) p.behind)).map Prod.snd := by
  rw [snmpAdd, setLine_accepted h, setInitScriptConfig, if_pos rfl, passedArgs,
    if_neg line.ne_nil, Option.map_map]
  rfl

theorem agent_no_newline {text : List Byte} {b : Byte} {rest : List Byte}
    (htext : ∀ x ∈ text, (0x20 : Byte) ≤ x ∧ x < 0x7f) (hb : b ≠ newline) {i : Nat}
    (hi : i ≤ text.length) : (text ++ b :: rest).getD i 0 ≠ newline := by
  rcases Nat.lt_or_eq_of_le hi with hlt | rfl
  · rw [getD_append _ _ _ _ hlt, getD_eq_getElem _ _ hlt]
    intro heq
    have hprint := (htext _ (getElem_mem hlt)).1
    rw [heq] at hprint
    exact absurd hprint (by decide)
  · rw [getD_append_right _ _ _ _ (Nat.le_refl _), Nat.sub_self]
    exact hb

theorem sameBytes_iff (hc : c.paged = false) (hf : f.len ≤ 65537)
    (hwords : shellWords line.text ≠ []) (hlen : line.text.length ≤ scriptLineSize) :
    snmpAdd c o f p scriptLine line.text m = shellAdd c o f line.text m ↔
      Storage.room f m < (Storage.line (shellWords line.text)).length ∧
        line.text.take (Storage.room f m) =
          (Storage.line (shellWords line.text)).take (Storage.room f m) := by
  obtain ⟨b, rest, hb, htext⟩ := agent_text line.text
  obtain ⟨body, hbody⟩ := line_ends hwords
  have hshort : (Storage.line (shellWords line.text)).length ≤ line.text.length + 1 :=
    line_splitWords_length 6 line.text
  have hargs : readArgs ((scriptArgs o p line.text).drop 1) p.behind ≠ [] := cons_ne_nil _ _
  have hlonger : line.text.length + 1 ≤
      (Storage.line (readArgs ((scriptArgs o p line.text).drop 1) p.behind)).length := by
    rw [htext, length_append, length_cons]
    omega
  rw [snmpAdd_accepted hlen, shellAdd, if_neg hwords]
  by_cases hroom : Storage.room f m < (Storage.line (shellWords line.text)).length
  · -- neither fits: both write up to the end of the file
    rw [Storage.storageInitAdd_cut hc hf hargs (by omega),
      Storage.storageInitAdd_cut hc hf hwords hroom, htext, take_append_of_le_length (by omega)]
    simp only [Option.map_some, Option.some.injEq, hroom, true_and]
    constructor
    · intro h
      refine Storage.put_inj hc ?_ h
      rw [length_take, length_take]
      omega
    · intro h
      rw [h]
  · -- the newline of the shell is in the file
    refine iff_of_false (fun h => ?_) fun h => hroom h.1
    have hbl : (Storage.line (shellWords line.text)).length = body.length + 1 := by
      rw [hbody, length_append, length_singleton]
    obtain ⟨_, m₁, hadd₁, hcell₁⟩ := Storage.storageInitAdd_cell (o := o) (m := m) hc hf hargs
      (i := body.length) (by omega) (by omega)
    obtain ⟨_, m₂, hadd₂, hcell₂⟩ := Storage.storageInitAdd_cell (o := o) (m := m) hc hf hwords
      (i := body.length) (by omega) (by omega)
    rw [hadd₁, hadd₂] at h
    have hm : m₁ = m₂ := Option.some.inj h
    rw [hm, hcell₂, htext, hbody,
      getD_append_right _ _ _ _ (Nat.le_refl _), Nat.sub_self] at hcell₁
    exact agent_no_newline line.printable hb (by omega) hcell₁.symm

theorem shellAdd_same_iff (hc : c.paged = false) (hf : f.len ≤ 65537) (value : List Byte) :
    shellAdd c o f value m = some m ↔ shellWords value = [] ∨
      (m.read (f.offset + (2 + Storage.start f m))
          ((Storage.line (shellWords value)).take (Storage.room f m)).length =
          (Storage.line (shellWords value)).take (Storage.room f m) ∧
        ((Storage.line (shellWords value)).length ≤ Storage.room f m → m.read f.offset 2 =
          Bytes.imageOf o 2 (Storage.start f m + (Storage.line (shellWords value)).length))) := by
  rw [shellAdd]
  by_cases hwords : shellWords value = []
  · rw [if_pos hwords]
    exact iff_of_true rfl (.inl hwords)
  · rw [if_neg hwords, Storage.storageInitAdd_same_iff hc hf hwords]
    exact (or_iff_right hwords).symm

end AsShell

/-- **The agent and the shell.**  They agree, with an array that has its NULL, exactly if the agent
writes nothing at all, because it has refused the line and has no older one, and neither does
the shell.  On a chip without pages the shell leaves the device as it is if the line has no word,
or if what it would write, as far as the file has room for it, is there already.  A line that the
agent accepts leaves the same bytes exactly if the file ends before the line differs from its words
joined by blanks. -/
theorem snmp_asShell_iff (c : Chip) (o : Order) (f : File) (p : Layout) (scriptLine : List Byte)
    (line : ScriptLine) (m : Mem) :
    (AsShell c o f p scriptLine line m ↔ scriptLineSize < line.text.length ∧ scriptLine = [] ∧
      shellAdd c o f line.text m = some m) ∧
    (c.paged = false → f.len ≤ 65537 →
      let script := Storage.line (shellWords line.text)
      (shellAdd c o f line.text m = some m ↔ shellWords line.text = [] ∨
        (m.read (f.offset + (2 + Storage.start f m)) (script.take (Storage.room f m)).length =
            script.take (Storage.room f m) ∧
          (script.length ≤ Storage.room f m →
            m.read f.offset 2 = Bytes.imageOf o 2 (Storage.start f m + script.length)))) ∧
      (shellWords line.text ≠ [] → line.text.length ≤ scriptLineSize →
        (snmpAdd c o f p scriptLine line.text m = shellAdd c o f line.text m ↔
          Storage.room f m < script.length ∧
            line.text.take (Storage.room f m) = script.take (Storage.room f m)))) :=
  ⟨asShell_iff, fun hc hf => ⟨shellAdd_same_iff hc hf line.text, sameBytes_iff hc hf⟩⟩

/-- The line `ptp`, a small file that is erased, and a NULL behind the array. -/
def ptpLine : ScriptLine := ⟨[0x70, 0x74, 0x70], by decide, by decide, by decide⟩
def erasedFile : File := ⟨0, 12⟩
def erasedMem : Mem := fun _ => Storage.erased
def luckyLayout : Layout := ⟨false, none, []⟩

theorem snmp_asShell_ptp :
    ¬AsShell .eeprom .little erasedFile luckyLayout [] ptpLine erasedMem ∧
      snmpAdd .eeprom .little erasedFile luckyLayout [] ptpLine.text erasedMem ≠
        shellAdd .eeprom .little erasedFile ptpLine.text erasedMem := by
  obtain ⟨hagree, hbytes⟩ := snmp_asShell_iff .eeprom .little erasedFile luckyLayout [] ptpLine
    erasedMem
  constructor
  · intro h
    exact absurd (hagree.mp h).1 (by decide)
  · intro h
    have hroom := (((hbytes rfl (by decide)).2 (by decide) (by decide)).mp h).1
    exact absurd hroom (by decide +kernel)

/-- The script is `ptp` and a blank, of five bytes; through the shell it is `ptp`, of four. -/
theorem ptp_scripts_differ :
    (snmpAdd .eeprom .little erasedFile luckyLayout [] ptpLine.text erasedMem).map (·.read 0 8) =
      some [0x05, 0x00, 0x70, 0x74, 0x70, 0x20, 0x0a, 0xff] ∧
    (shellAdd .eeprom .little erasedFile ptpLine.text erasedMem).map (·.read 0 8) =
      some [0x04, 0x00, 0x70, 0x74, 0x70, 0x0a, 0xff, 0xff] ∧
    passedArgs .little luckyLayout (setLine [] ptpLine.text).2 =
      some [none, some [0x70, 0x74, 0x70], some []] := by
  decide +kernel

end Wrpc.SnmpScript
