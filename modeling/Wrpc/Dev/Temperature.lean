/-
# The list of temperature sensors (`temperature.c`)

Sensors come in groups: an array that ends with a sensor without a name, and a table of
at most four such arrays.  `wrc_temp_getnext` has only a pointer to go on, so at the end
of an array it searches the table for the group it is in and takes the one behind it.

A pointer is an array and an index into it; an array is named by any type with
decidable equality.  What the code reads outside its tables is given as well: the group
that follows the table in memory.  Such reads are faults, and are kept beside the result:
the walk always ends with one, unless there is no group at all (`walk_safe_iff`).
-/
import Wrpc.Util.Vsprintf

namespace Wrpc.Temp

open List BitVec

/-- `struct wrc_temp_sensor` -/
structure Sensor where
  name : List Char
  t : BitVec 32

/-- `WRC_MAX_TEMPERATURES` -/
def maxTemperatures : Nat := 4

inductive Fault where
  /-- the list pointer of a group that is not registered is followed -/
  | null
  /-- a group behind the end of the table is read -/
  | pastTable
deriving DecidableEq, Repr

/-- The arrays, up to their last sensor with a name, and the list pointer found behind the
table. -/
structure Memory (L : Type) where
  sensors : L → List Sensor
  behind : Option L

section Code

variable {L : Type} [DecidableEq L] (mem : Memory L)

/-- `wrc_temp_register`: the table, or `none` if it is full. -/
def wrcTempRegister (new : L) : List (Option L) → Option (List (Option L))
  | [] => none
  | some l :: table => (wrcTempRegister new table).map (some l :: ·)
  | none :: table => some (some new :: table)

/-- `temp_sensors` before the first registration. -/
def emptyTable : List (Option L) := List.replicate maxTemperatures none

def registerAll : List L → List (Option L) → Option (List (Option L))
  | [], table => some table
  | l :: gs, table => (wrcTempRegister l table).bind (registerAll gs)

/-- The group behind the one that was found: `!tmp->t->name` looks at its first sensor.
With a null pointer both branches return NULL. -/
def nextGroup : Option L → Option (L × Nat) × List Fault
  | none => (none, [.null])
  | some l => if mem.sensors l = [] then (none, []) else (some (l, 0), [])

/-- `tmp++`, with the rest of the table behind the group that was found. -/
def behindGroup : List (Option L) → Option (L × Nat) × List Fault
  | [] => ((nextGroup mem mem.behind).1, .pastTable :: (nextGroup mem mem.behind).2)
  | slot :: _ => nextGroup mem slot

/-- The search for the group of `pt`, along the rest of the table. -/
def searchGroup (pt : L × Nat) : List (Option L) → Option (L × Nat) × List Fault
  | [] => (none, [])
  | none :: _ => (none, [.null])
  | some l :: table =>
    if pt.1 = l ∧ pt.2 < (mem.sensors l).length then behindGroup mem table
    else searchGroup pt table

/-- `wrc_temp_getnext`, with the faults on its way. -/
def wrcTempGetnext (table : List (Option L)) : Option (L × Nat) → Option (L × Nat) × List Fault
  | none => ((table.headD none).map (·, 0), [])
  | some pt =>
    if pt.2 + 1 < (mem.sensors pt.1).length then (some (pt.1, pt.2 + 1), [])
    else searchGroup mem pt table

/-- The loop `for (p = wrc_temp_getnext(NULL); p; p = wrc_temp_getnext(p))` from a value of
`p` on: the sensors it visits and the faults on the way, or `none` if it takes more turns. -/
def walkFrom (table : List (Option L)) : Nat → Option (L × Nat) →
    Option (List (L × Nat) × List Fault)
  | _, none => some ([], [])
  | 0, some _ => none
  | turns + 1, some pt =>
    let r := wrcTempGetnext mem table (some pt)
    (walkFrom table turns r.1).map fun w => (pt :: w.1, r.2 ++ w.2)

def walk (table : List (Option L)) (turns : Nat) : Option (List (L × Nat) × List Fault) :=
  let r := wrcTempGetnext mem table none
  (walkFrom mem table turns r.1).map fun w => (w.1, r.2 ++ w.2)

/-- The sensors of an array from index `i` on. -/
def pointersFrom (l : L) (i : Nat) : List (L × Nat) :=
  (List.range' i ((mem.sensors l).length - i)).map (l, ·)

def pointers (gs : List L) : List (L × Nat) := gs.flatMap fun l => pointersFrom mem l 0

end Code

variable {L : Type}

/-- A table with these groups and `k` free places. -/
def tableOf (gs : List L) (k : Nat) : List (Option L) := gs.map some ++ List.replicate k none

theorem wrcTempRegister_tableOf (new : L) (k : Nat) : ∀ gs : List L,
    wrcTempRegister new (tableOf gs k) = match k with
      | 0 => none
      | k + 1 => some (tableOf (gs ++ [new]) k)
  | [] => by cases k <;> rfl
  | l :: gs => by
    have ih := wrcTempRegister_tableOf new k gs
    change (wrcTempRegister new (tableOf gs k)).map (some l :: ·) = _
    rw [ih]
    cases k <;> rfl

theorem registerAll_tableOf : ∀ {gs pre : List L} {k : Nat} {table : List (Option L)},
    registerAll gs (tableOf pre k) = some table →
      gs.length ≤ k ∧ table = tableOf (pre ++ gs) (k - gs.length)
  | [], pre, k, table, h => by
    cases h
    rw [append_nil]
    exact ⟨Nat.zero_le k, rfl⟩
  | l :: gs, pre, k, table, h => by
    rw [registerAll, wrcTempRegister_tableOf] at h
    cases k with
    | zero => cases h
    | succ k =>
      have hrest : registerAll gs (tableOf (pre ++ [l]) k) = some table := h
      obtain ⟨hle, htable⟩ := registerAll_tableOf hrest
      refine ⟨Nat.succ_le_succ hle, ?_⟩
      rw [htable, List.append_assoc, length_cons, Nat.add_sub_add_right]
      rfl

/-! ## The end of the walk -/

section Walk

variable [DecidableEq L] {mem : Memory L} {gs : List L} {k : Nat}

/-- `pt` is a sensor of one of the groups. -/
def Registered (mem : Memory L) (gs : List L) (pt : L × Nat) : Prop :=
  pt.1 ∈ gs ∧ pt.2 < (mem.sensors pt.1).length

theorem searchGroup_registered (hpos : ∀ l ∈ gs, mem.sensors l ≠ []) {pt : L × Nat} :
    ∀ {rest : List L}, (∀ l ∈ rest, l ∈ gs) → Registered mem rest pt →
      (∃ q, Registered mem gs q ∧ searchGroup mem pt (tableOf rest k) = (some q, [])) ∨
        (searchGroup mem pt (tableOf rest k)).2 ≠ []
  | [], _, h => absurd h.1 not_mem_nil
  | l :: rest, hsub, h => by
    change (∃ q, Registered mem gs q ∧ searchGroup mem pt (some l :: tableOf rest k) = _) ∨
      (searchGroup mem pt (some l :: tableOf rest k)).2 ≠ []
    rw [searchGroup]
    by_cases hl : pt.1 = l
    · rw [if_pos ⟨hl, hl ▸ h.2⟩]
      cases rest with
      | nil =>
        right
        cases k with
        | zero => exact cons_ne_nil _ _
        | succ k => exact cons_ne_nil _ _
      | cons l' rest =>
        have hmem : l' ∈ gs := hsub l' (by simp)
        left
        refine ⟨(l', 0), ⟨hmem, length_pos_iff.mpr (hpos l' hmem)⟩, ?_⟩
        exact if_neg (hpos l' hmem)
    · rw [if_neg fun hfound => hl hfound.1]
      refine searchGroup_registered hpos (fun l' hl' => hsub l' (mem_cons_of_mem _ hl')) ?_
      exact ⟨(mem_cons.mp h.1).resolve_left hl, h.2⟩

theorem wrcTempGetnext_registered (hpos : ∀ l ∈ gs, mem.sensors l ≠ []) {pt : L × Nat}
    (h : Registered mem gs pt) :
    (∃ q, Registered mem gs q ∧ wrcTempGetnext mem (tableOf gs k) (some pt) = (some q, [])) ∨
      (wrcTempGetnext mem (tableOf gs k) (some pt)).2 ≠ [] := by
  rw [wrcTempGetnext]
  split
  · next hlt => exact .inl ⟨(pt.1, pt.2 + 1), ⟨h.1, hlt⟩, rfl⟩
  · exact searchGroup_registered hpos (fun _ hl => hl) h

theorem walkFrom_faults (hpos : ∀ l ∈ gs, mem.sensors l ≠ []) :
    ∀ {turns : Nat} {pt : L × Nat} {w : List (L × Nat) × List Fault}, Registered mem gs pt →
      walkFrom mem (tableOf gs k) turns (some pt) = some w → w.2 ≠ []
  | 0, _, _, _, hwalk => by cases hwalk
  | turns + 1, pt, w, h, hwalk => by
    rw [walkFrom, Option.map_eq_some_iff] at hwalk
    obtain ⟨w', hwalk', rfl⟩ := hwalk
    rcases wrcTempGetnext_registered hpos h with ⟨q, hq, hnext⟩ | hfault
    · rw [hnext] at hwalk'
      have ih := walkFrom_faults hpos hq hwalk'
      intro hnil
      exact ih (append_eq_nil_iff.mp hnil).2
    · intro hnil
      exact hfault (append_eq_nil_iff.mp hnil).1

/-- **The walk is complete and safe** (it visits every sensor of every registered group once,
in order, returns NULL and follows no pointer it should not) exactly if no group is
registered. -/
theorem walk_safe_iff {table : List (Option L)} (hreg : registerAll gs emptyTable = some table)
    (hpos : ∀ l ∈ gs, mem.sensors l ≠ []) :
    (∃ turns, walk mem table turns = some (pointers mem gs, [])) ↔ gs = [] := by
  obtain ⟨-, rfl⟩ := 
    registerAll_tableOf (show registerAll gs (tableOf [] maxTemperatures) = some table from hreg)
  constructor
  · rintro ⟨turns, hwalk⟩
    cases gs with
    | nil => rfl
    | cons l gs =>
      rw [walk, Option.map_eq_some_iff] at hwalk
      obtain ⟨w, hwalk', hw⟩ := hwalk
      have hfirst : Registered mem (l :: gs) (l, 0) :=
        ⟨mem_cons_self, length_pos_iff.mpr (hpos l mem_cons_self)⟩
      exact absurd (congrArg Prod.snd hw) (walkFrom_faults hpos hfirst hwalk')
  · rintro rfl
    exact ⟨0, rfl⟩

theorem walk_safe_none : ∃ turns, walk (⟨fun _ => [], none⟩ : Memory Nat) emptyTable turns =
    some (pointers ⟨fun _ => [], none⟩ [], []) :=
  (walk_safe_iff (show registerAll [] emptyTable = some emptyTable from rfl)
    (forall_mem_nil _)).mpr rfl

/-- One group with one sensor, and a full table of them: the walk ends by following a null
pointer, and by reading behind the table. -/
theorem walk_unsafe :
    (∃ table, registerAll [0] emptyTable = some table ∧
      (walk (⟨fun _ => [⟨['p', 'c', 'b'], 0⟩], none⟩ : Memory Nat) table 1).map Prod.snd =
        some [.null]) ∧
    (∃ table, registerAll [0, 1, 2, 3] emptyTable = some table ∧
      (walk (⟨fun _ => [⟨['p', 'c', 'b'], 0⟩], none⟩ : Memory Nat) table 4).map Prod.snd =
        some [.pastTable, .null]) :=
  ⟨⟨_, rfl, rfl⟩, ⟨_, rfl, rfl⟩⟩

end Walk

open Printf

/-- `TEMP_INVALID` -/
def tempInvalid : BitVec 32 := 0x80000000

/-- `"%d.%04d"` of the two halves of a 16.16 number. -/
def fixedText (t : BitVec 32) : List Char :=
  sprintf "%d.%04d" [.int (t.sshiftRight 16), .int (((t &&& 0xffff) * 10 * 1000).sshiftRight 16)]

/-- What `wrc_temp_format` prints for a value. -/
def tempNumber (t : BitVec 32) : List Char :=
  if t = tempInvalid then sprintf "INVALID" []
  else if t.slt 0#32 then sprintf "-" [] ++ fixedText (-t)
  else fixedText t

/-- The loop of `wrc_temp_format` over the sensors; `l` characters are in the buffer. -/
def formatLoop (len : Int) : List Sensor → Nat → Nat → List Char
  | [], _, _ => []
  | p :: ps, i, l =>
    if len < l + 16 then sprintf " ENOSPC" []
    else
      let out := sprintf "%s%s:" [.str (if i ≠ 0 then [' '] else []), .str p.name] ++
        tempNumber p.t
      out ++ formatLoop len ps (i + 1) (l + out.length)

/-- `wrc_temp_format`, over the sensors that `wrc_temp_getnext` gives. -/
def wrcTempFormat (len : Int) (ps : List Sensor) : List Char := formatLoop len ps 0 0

/-- What is printed for a sensor with `i` before it. -/
def entry (i : Nat) (p : Sensor) : List Char :=
  (if i ≠ 0 then [' '] else []) ++ p.name ++ ':' :: tempNumber p.t

/-- What is printed for sensors with `i` before them. -/
def entries : Nat → List Sensor → List Char
  | _, [] => []
  | i, p :: ps => entry i p ++ entries (i + 1) ps

theorem formatLoop_cons {len : Int} {l : Nat} (hroom : (l : Int) + 16 ≤ len) (i : Nat) (p : Sensor)
    (ps : List Sensor) : formatLoop len (p :: ps) i l =
      entry i p ++ formatLoop len ps (i + 1) (l + (entry i p).length) := by
  have hrun : ∀ a b : List Char, sprintf "%s%s:" [.str a, .str b] =
      Printf.string a (-1) (-1) {} ++ (Printf.string b (-1) (-1) {} ++ [':']) := fun _ _ => rfl
  have hentry : sprintf "%s%s:" [.str (if i ≠ 0 then [' '] else []), .str p.name] ++
      tempNumber p.t = entry i p := by
    rw [hrun, string_plain, string_plain, entry]
    simp
  rw [formatLoop, if_neg (Int.not_lt.mpr hroom), hentry]

theorem formatLoop_append (len : Int) (p : Sensor) (post : List Sensor) :
    ∀ (pre : List Sensor) (i l : Nat), (l : Int) + (entries i pre).length + 16 ≤ len →
      ∃ after, formatLoop len (pre ++ p :: post) i l =
        entries i pre ++ (entry (i + pre.length) p ++ after)
  | [], i, l, hroom => by
    refine ⟨_, (formatLoop_cons ?_ i p post)⟩
    omega
  | q :: pre, i, l, hroom => by
    rw [entries, length_append] at hroom
    obtain ⟨after, hafter⟩ := formatLoop_append len p post pre (i + 1) (l + (entry i q).length)
      (by omega)
    have hfirst : (l : Int) + 16 ≤ len := by omega
    refine ⟨after, ?_⟩
    rw [List.cons_append, formatLoop_cons hfirst, hafter, entries, List.append_assoc,
      length_cons, Nat.add_assoc i, Nat.add_comm 1]

variable {t : BitVec 32}

theorem fixedText_eq (ht : t.toNat < 2 ^ 31) :
    fixedText t = decimal ' ' 0 (t.toNat / 65536) ++ '.' ::
      decimal '0' 4 (t.toNat % 65536 * 10000 / 65536) := by
  have hand : (t &&& 0xffff).toNat = t.toNat % 65536 := by
    exact Nat.and_two_pow_sub_one_eq_mod t.toNat 16
  have hfrac : ((t &&& 0xffff) * 10 * 1000).toNat = t.toNat % 65536 * 10000 := by
    rw [toNat_mul, toNat_mul, hand]
    change t.toNat % 65536 * 10 % 4294967296 * 1000 % 4294967296 = _
    omega
  have hshift : ∀ {v : BitVec 32}, v.toNat < 2 ^ 31 →
      v.sshiftRight 16 = BitVec.ofNat 32 (v.toNat / 65536) := by
    intro v hv
    have hmsb : v.msb = false := by
      rw [msb_eq_decide, decide_eq_false_iff_not]
      omega
    apply eq_of_toNat_eq
    rw [sshiftRight_eq_of_msb_false hmsb, toNat_ushiftRight,
      Nat.shiftRight_eq_div_pow, toNat_ofNat]
    omega
  have hrun : ∀ a b : BitVec 32, sprintf "%d.%04d" [.int a, .int b] =
      printInt false (-1) a ++ '.' :: (printInt true 4 b ++ []) := fun _ _ => rfl
  rw [fixedText, hrun, append_nil, hshift ht, hshift (by rw [hfrac]; omega), hfrac,
    printInt_ofNat (by omega), printInt_ofNat (by omega)]
  rfl

theorem plain_fixedText (ht : t.toNat < 2 ^ 31) : Plain (fixedText t) := by
  rw [fixedText_eq ht]
  exact (plain_decimal (by decide) _ _).append
    (plain_cons (by decide) (plain_decimal (by decide) _ _))

theorem fixedText_length (ht : t.toNat < 2 ^ 31) : (fixedText t).length ≤ 10 := by
  rw [fixedText_eq ht, length_append, length_cons]
  have hint : (decimal ' ' 0 (t.toNat / 65536)).length ≤ max 0 5 :=
    decimal_length_le (by decide) (by omega)
  have hfrac : (decimal '0' 4 (t.toNat % 65536 * 10000 / 65536)).length ≤ max 4 4 :=
    decimal_length_le (by decide) (by omega)
  omega

theorem toNat_neg_lt (hinvalid : t ≠ tempInvalid) (hneg : t.slt 0#32 = true) :
    (-t).toNat < 2 ^ 31 := by
  rw [slt_zero_eq_msb, msb_eq_decide, decide_eq_true_iff] at hneg
  have hne : t.toNat ≠ 2 ^ 31 := fun h => hinvalid (eq_of_toNat_eq h)
  rw [toNat_neg]
  omega

theorem toNat_lt_of_nonneg (hpos : t.slt 0#32 = false) : t.toNat < 2 ^ 31 := by
  rw [slt_zero_eq_msb, msb_eq_decide, decide_eq_false_iff_not] at hpos
  omega

end Wrpc.Temp
