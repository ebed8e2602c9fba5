/-
# GETNEXT in the buffer and on lists

The functions of the limbs write the OID they try over the requested one before they
know whether it has a value, so later comparisons see a changed buffer.  Here the
search is taken out of the buffer: `Handler.next` and `answer` say on lists which
object is answered, `twigFunc_first`, `twigFunc_within` and `limbLoop_answer` that the
code answers this object and leaves the header alone.

Once a limb has been entered, its OID stands in the buffer, every limb behind it
compares greater, and the first object there is taken (`limbLoop_past`).
-/
import Wrpc.Lib.OrderedScan
import Wrpc.Net.SnmpMib

namespace Wrpc.Snmp

open List Mem Nat

variable {m : Mem} {tw : List Byte} {row : Byte} {e : Nat} {g : Int × Mem} {l : Limb}

variable {version : Byte}

theorem tlv_length (asn : Asn) (p : Mem) : (tlv asn p).length = (asnData asn p).length + 2 := rfl

theorem read_tlv {off : Nat} {asn : Asn} {p : Mem} (htype : m off = asn.code)
    (hlen : m (off + 1) = BitVec.ofNat 8 (asnData asn p).length)
    (hdata : m.read (off + 2) (asnData asn p).length = asnData asn p) :
    m.read off (tlv asn p).length = tlv asn p := by
  rw [tlv_length, Mem.read, Mem.read, htype, hlen]
  exact congrArg (fun l => asn.code :: BitVec.ofNat 8 (asnData asn p).length :: l) hdata

theorem getValue_available {asn : Asn} (h : available version asn = true) (p : Mem) (off : Nat)
    (m : Mem) : ∃ m', getValue version asn p off m = (((tlv asn p).length : Int), m') ∧
      m'.read off (tlv asn p).length = tlv asn p ∧ ∀ j < off, m' j = m j := by
  -- four and eight bytes: the data first, then the length
  have hfixed : ∀ (n : Nat) (data : List Byte), data.length = n → asnData asn p = data →
      let m' := ((m.set off asn.code).write (off + 2) data).set (off + 1) (BitVec.ofNat 8 n)
      m'.read off (tlv asn p).length = tlv asn p ∧ ∀ j < off, m' j = m j := by
    rintro _ data rfl hdata
    refine ⟨read_tlv ?_ ?_ ?_, fun j hj => ?_⟩
    · rw [set_other (by omega), write_other (by omega), set_same]
    · rw [set_same, hdata]
    · rw [hdata, Mem.read_set_other (by omega), read_write]
    · rw [set_other (by omega), write_other (by omega), set_other (by omega)]
  have hstring : asn = .octetStr →
      let len := (p.cstr maxStrLen 0).length
      let m' := ((m.set off asn.code).set (off + 1) (BitVec.ofNat 8 len)).write (off + 2)
        (p.read 0 (len + 1))
      m'.read off (tlv asn p).length = tlv asn p ∧ ∀ j < off, m' j = m j := by
    rintro rfl
    have hread : (p.read 0 ((p.cstr maxStrLen 0).length + 1)).take (p.cstr maxStrLen 0).length =
        p.cstr maxStrLen 0 := by
      rw [take_read _ _ (le_succ _)]
      exact read_cstr p maxStrLen 0
    refine ⟨read_tlv ?_ ?_ ?_, fun j hj => ?_⟩
    · rw [write_other (by omega), set_other (by omega), set_same]
    · rw [write_other (by omega), set_same]
      rfl
    · change Mem.read _ _ (p.cstr maxStrLen 0).length = p.cstr maxStrLen 0
      rw [← take_read _ _ (le_succ _)]
      have hw := read_write ((m.set off Asn.octetStr.code).set (off + 1)
        (BitVec.ofNat 8 (p.cstr maxStrLen 0).length)) (off + 2)
        (p.read 0 ((p.cstr maxStrLen 0).length + 1))
      rw [Mem.read_length] at hw
      rw [hw, hread]
    · rw [write_other (by omega), set_other (by omega), set_other (by omega)]
  cases asn with
  | counter64 =>
    have hv : ¬ version = 0 := by
      rintro rfl
      exact absurd h (by decide)
    refine ⟨_, ?_, hfixed 8 (p.read 0 8) (Mem.read_length _ _ _) rfl⟩
    simp only [getValue, hv]
    rfl
  | octetStr =>
    refine ⟨_, Prod.ext ?_ rfl, hstring rfl⟩
    change (2 + ((p.cstr maxStrLen 0).length : Int)) = ((p.cstr maxStrLen 0).length + 2 : Nat)
    omega
  | integer | ipAddress | counter | unsigned | timeticks =>
    exact ⟨_, rfl, hfixed 4 (p.read 0 4) (Mem.read_length _ _ _) rfl⟩

theorem getValue_unavailable {asn : Asn} (h : available version asn = false) (p : Mem) (off : Nat)
    (m : Mem) : getValue version asn p off m = (0, m.set off asn.code) := by
  have hboth : asn = .counter64 ∧ version = 0 := by simpa [available] using h
  obtain ⟨rfl, rfl⟩ := hboth
  rfl

/-- The bytes before `e` other than the length at `b` are as they were. -/
def Kept (b e : Nat) (m m' : Mem) : Prop := ∀ j, j < e → j ≠ b → m' j = m j

theorem Kept.trans {b : Nat} {m' m'' : Mem} (h : Kept b e m m') (h' : Kept b e m' m'') :
    Kept b e m m'' := fun j hj hb => (h' j hj hb).trans (h j hj hb)

def Answers (b : Nat) (limb : List Byte) (m : Mem) (r : Int × Mem) : Option Obj → Prop
  | none => r.1 = 0 ∧ Kept b (b + 1 + limb.length) m r.2
  | some o => ∃ twig, o.oid = limb ++ twig ∧ r.1 = (twig.length + o.value.length : Nat) ∧
      0 < r.1 ∧ r.2 b = BitVec.ofNat 8 twig.length ∧
      r.2.read (b + 1 + limb.length) twig.length = twig ∧
      r.2.read (b + 1 + limb.length + twig.length) o.value.length = o.value ∧
      Kept b (b + 1 + limb.length) m r.2

theorem answers_some {b : Nat} {limb twig value : List Byte} {m' : Mem} {n : Int}
    (hn : n = (twig.length + value.length : Nat)) (hpos : 0 < value.length)
    (hlen : m' b = BitVec.ofNat 8 twig.length)
    (htwig : m'.read (b + 1 + limb.length) twig.length = twig)
    (hvalue : m'.read (b + 1 + limb.length + twig.length) value.length = value)
    (hkept : Kept b (b + 1 + limb.length) m m') :
    Answers b limb m (n, m') (some ⟨limb ++ twig, value⟩) :=
  ⟨twig, rfl, hn, by change 0 < n; omega, hlen, htwig, hvalue, hkept⟩

theorem Answers.mono {b : Nat} {limb : List Byte} {m' : Mem} {r : Int × Mem} {o : Option Obj}
    (hkept : Kept b (b + 1 + limb.length) m m') (h : Answers b limb m' r o) :
    Answers b limb m r o := by
  cases o with
  | none => exact ⟨h.1, hkept.trans h.2⟩
  | some o =>
    obtain ⟨twig, hoid, hret, hpos, hlen, htwig, hvalue, hk⟩ := h
    exact ⟨twig, hoid, hret, hpos, hlen, htwig, hvalue, hkept.trans hk⟩

section Group

variable {b : Nat} {limb : List Byte} {twigLen : Int}

/-- A twig is tried: its OID and the length go into the buffer, and its value behind it. -/
def tryTwig (b e : Nat) (t : Twig) (m : Mem) : Mem :=
  (m.write e t.oid).set b (BitVec.ofNat 8 t.oid.length)

theorem tryTwig_kept (e : Nat) (t : Twig) (m : Mem) : Kept b e m (tryTwig b e t m) := by
  intro j hj hb
  rw [tryTwig, set_other hb, write_other (.inl hj)]

def tried (version : Byte) (b e : Nat) (twigLen : Int) (first : Bool) (t : Twig) (ts : List Twig)
    (m : Mem) : Int × Mem :=
  let g := getValue version t.asn t.p (e + t.oid.length) (tryTwig b e t m)
  if g.1 = 0 then groupLoop version b e twigLen .getNext first ts g.2
  else (g.1 + t.oid.length, g.2)

theorem groupLoop_getNext (e : Nat) (first : Bool) (t : Twig) (ts : List Twig) (m : Mem) {k : Nat}
    (hk : (min twigLen t.oid.length).toNat = k) {cmp : Int}
    (hcmp : cmp8 (t.oid.take k) (m.read e k) = cmp) :
    groupLoop version b e twigLen .getNext first (t :: ts) m =
      if first = true ∨ 0 < cmp ∨ (cmp = 0 ∧ k ≠ t.oid.length) then
        tried version b e twigLen first t ts m
      else groupLoop version b e twigLen .getNext first ts m := by
  have hmode : ¬ (Mode.getNext ≠ Mode.getNext ∧ twigLen ≠ t.oid.length) := fun h => h.1 rfl
  have hset : ¬ Mode.getNext = Mode.set := by decide
  cases first with
  | true =>
    rfl
  | false =>
    simp only [groupLoop, hk, hcmp, Bool.false_eq_true, true_and, or_false,
      false_or, if_false, if_neg hmode]
    by_cases hpass : cmp = 0 ∧ k = t.oid.length
    · rw [if_pos hpass, if_neg (by omega)]
    · rw [if_neg hpass]
      by_cases htry : cmp = 0 ∨ 0 < cmp
      · have hdo : 0 < cmp ∨ cmp = 0 ∧ k ≠ t.oid.length := by omega
        rw [if_pos htry, if_pos hdo]
        rfl
      · rw [if_neg htry, if_neg (by omega), if_neg (by omega)]

/-- The search stops at a twig that compares greater, or that the request is a proper
beginning of. -/
def twigStops (tw : List Byte) (t : Twig) : Bool :=
  decide (0 < cmp8 t.oid tw ∨ (memcmp t.oid tw = 0 ∧ tw.length < t.oid.length))

theorem groupLoop_step {t : Twig} (ts : List Twig)
    (htw : m.read e tw.length = tw) (hlen : t.oid.length = 2) :
    groupLoop version b e tw.length .getNext false (t :: ts) m =
      if twigStops tw t then tried version b e tw.length false t ts m
      else groupLoop version b e tw.length .getNext false ts m := by
  have hk : (min (tw.length : Int) t.oid.length).toNat = min tw.length 2 := by
    omega
  have hcmp : cmp8 (t.oid.take (min tw.length 2)) (m.read e (min tw.length 2)) =
      cmp8 t.oid tw := by
    rw [← take_read _ _ (min_le_left tw.length 2), htw]
    exact congrArg toInt8 (memcmp_take (by rw [hlen]; omega))
  rw [groupLoop_getNext e false t ts m hk hcmp]
  simp only [twigStops, decide_eq_true_iff, ← cmp8_eq_zero, Bool.false_eq_true, false_or]
  refine if_congr ?_ rfl rfl
  omega

theorem tried_answers {t : Twig} {ts : List Twig} {first : Bool}
    (hnext : ∀ m', m'.read (b + 1 + limb.length) t.oid.length = t.oid → Answers b limb m'
      (groupLoop version b (b + 1 + limb.length) twigLen .getNext first ts m')
      (ts.flatMap (Twig.objs version limb)).head?) :
    Answers b limb m (tried version b (b + 1 + limb.length) twigLen first t ts m)
      ((t :: ts).flatMap (Twig.objs version limb)).head? := by
  have hkept := tryTwig_kept (b := b) (b + 1 + limb.length) t m
  have hoid : (tryTwig b (b + 1 + limb.length) t m).read (b + 1 + limb.length) t.oid.length =
      t.oid := by
    rw [tryTwig, Mem.read_set_other (by omega), read_write]
  rw [tried]
  cases hav : available version t.asn with
  | true =>
    obtain ⟨m', hget, hvalue, hframe⟩ := getValue_available hav t.p
      (b + 1 + limb.length + t.oid.length) (tryTwig b (b + 1 + limb.length) t m)
    have hne : ¬ (((tlv t.asn t.p).length : Int) = 0) := by
      rw [tlv_length]
      omega
    simp only [hget, flatMap_cons, Twig.objs, hav]
    refine answers_some (by omega) (succ_pos _) ?_ ?_ hvalue ?_
    · rw [hframe b (by omega), tryTwig, set_same]
    · exact (read_congr fun i hi => hframe _ (by omega)).trans hoid
    · exact hkept.trans fun j hj _ => hframe j (by omega)
  | false =>
    simp only [getValue_unavailable hav, flatMap_cons, Twig.objs, hav]
    refine Answers.mono (hkept.trans fun j hj _ => set_other (by omega)) (hnext _ ?_)
    rw [Mem.read_set_other (by omega)]
    exact hoid

theorem groupLoop_first : ∀ (ts : List Twig) (m : Mem), Answers b limb m
    (groupLoop version b (b + 1 + limb.length) twigLen .getNext true ts m)
    (ts.flatMap (Twig.objs version limb)).head?
  | [], _ => ⟨rfl, fun _ _ _ => rfl⟩
  | t :: ts, m => by
    exact tried_answers fun m' _ => groupLoop_first ts m'

theorem cmp8_read {n : Nat} {t u : List Byte} (hu : m.read e (min n t.length) = u)
    (hlen : t.length = 2) : cmp8 (t.take (min n 2)) (m.read e (min n 2)) = cmp8 t u := by
  rw [hlen] at hu
  have hulen : u.length ≤ min n 2 := le_of_eq (by rw [← hu, Mem.read_length])
  have h := memcmp_take (k := min n 2) (a := t) (.inr hulen)
  rw [take_of_length_le hulen] at h
  rw [hu, cmp8, h, cmp8]

theorem groupLoop_past {n : Nat} : ∀ (ts : List Twig) (m : Mem) (u : List Byte),
    m.read (b + 1 + limb.length) u.length = u → u.length = 2 →
    (∀ t ∈ ts, t.oid.length = 2) → (u :: ts.map Twig.oid).Pairwise Ahead →
    Answers b limb m (groupLoop version b (b + 1 + limb.length) n .getNext false ts m)
      (ts.flatMap (Twig.objs version limb)).head?
  | [], _, _, _, _, _, _ => ⟨rfl, fun _ _ _ => rfl⟩
  | t :: ts, m, u, hu, hulen, hlen, hahead => by
    rw [forall_mem_cons] at hlen
    rw [pairwise_cons] at hahead
    have hut : Ahead u t.oid := hahead.1 _ mem_cons_self
    have hk : (min (n : Int) t.oid.length).toNat = min n 2 := by
      omega
    have hread : m.read (b + 1 + limb.length) (min n t.oid.length) = u.take (min n 2) := by
      rw [hulen] at hu
      rw [← hu, take_read _ _ (min_le_right n 2), hlen.1]
    rw [groupLoop_getNext _ false t ts m hk (cmp8_read hread hlen.1), if_pos]
    · exact tried_answers fun m' hm' => groupLoop_past ts m' t.oid hm' hlen.1 hlen.2 hahead.2
    -- over one byte the twigs may agree, over both they do not
    rcases memcmp_take_right (min n 2) t.oid u with h | h
    · refine .inr (.inr ⟨cmp8_eq_zero.mpr h, fun htwo => ?_⟩)
      rw [hlen.1] at htwo
      rw [htwo, take_of_length_le (le_of_eq hulen)] at h
      exact absurd hut.1 (by omega)
    · refine .inr (.inl ?_)
      rw [cmp8, h, ← cmp8, cmp8_of_close ⟨by have := hut.1; omega, hut.2⟩]
      exact hut.1

theorem groupLoop_scan : ∀ (ts : List Twig) (m : Mem),
    m.read (b + 1 + limb.length) tw.length = tw → (∀ t ∈ ts, t.oid.length = 2) →
    (ts.map Twig.oid).Pairwise Ahead →
    Answers b limb m
      (groupLoop version b (b + 1 + limb.length) tw.length .getNext false ts m)
      (scanned (Twig.objs version limb) (twigStops tw) ts []).head?
  | [], _, _, _, _ => ⟨rfl, fun _ _ _ => rfl⟩
  | t :: ts, m, htw, hlen, hahead => by
    rw [forall_mem_cons] at hlen
    rw [groupLoop_step ts htw hlen.1, scanned]
    split
    · rw [append_nil]
      exact tried_answers fun m' hm' => groupLoop_past ts m' t.oid hm' hlen.1 hlen.2 hahead
    · exact groupLoop_scan ts m htw hlen.2 (List.pairwise_cons.mp hahead).2

end Group

section Table

variable {b : Nat} {limb : List Byte} {table : Table}

def Table.cellObj (table : Table) (limb : List Byte) (t : Twig) (row : Byte) : Option Obj :=
  if 1 ≤ row.toNat ∧ row.toNat ≤ table.rows then
    some ⟨limb ++ (t.oid ++ [row]), tlv t.asn (table.cell (t.oid.headD 0) row)⟩
  else none

def Table.cells (table : Table) (limb : List Byte) (ts : List Twig) : List Obj :=
  ts.flatMap fun c => table.column limb (c.oid.headD 0) c.asn

def Table.IsColumn (table : Table) (t : Twig) : Prop :=
  ∃ col ∈ table.cols, t.oid = [col] ∧ t.asn ≠ .counter64

variable {t : Twig} {ts : List Twig} {m : Mem} {first : Bool}

theorem Table.IsColumn.length (ht : table.IsColumn t) : t.oid.length = 1 := by
  obtain ⟨col, -, hoid, -⟩ := ht
  rw [hoid]
  rfl

theorem available_of_ne {asn : Asn} (h : asn ≠ .counter64) : available version asn = true := by
  simp [available, h]

theorem head?_cells (ts : List Twig) (ht : table.IsColumn t) :
    (table.cells limb (t :: ts)).head? = table.cellObj limb t firstRow := by
  obtain ⟨col, -, hoid, -⟩ := ht
  cases hrows : table.rows with
  | zero =>
    have hnone : ∀ c : Twig, table.column limb (c.oid.headD 0) c.asn = [] := by
      intro c
      rw [Table.column, hrows]
      rfl
    rw [Table.cells, List.flatMap_eq_nil_iff.mpr fun c _ => hnone c, Table.cellObj, hrows, if_neg]
    · rfl
    · decide
  | succ n =>
    have hmin : min (n + 1) 255 = min n 254 + 1 := by omega
    rw [Table.cells, flatMap_cons, Table.column, hrows, hmin, range_succ_eq_map, Table.cellObj,
      hrows, hoid, if_pos]
    · rfl
    · exact ⟨Nat.le_refl 1, le_add_left 1 n⟩

theorem getCell_none (hrow : m (e + 1) = row)
    (h : table.cellObj limb t row = none) (asn : Asn) (off : Nat) :
    getCell version table asn e off m = (0, m) := by
  simp only [getCell, hrow]
  rw [if_neg]
  intro hin
  rw [Table.cellObj, if_pos ⟨hin.1, hin.2.1⟩] at h
  cases h

theorem cell_answers {col : Byte} {asn : Asn} (hav : available version asn = true) (p : Mem)
    (hcol : m (b + 1 + limb.length) = col) (hrow : m (b + 1 + limb.length + 1) = row) :
    ∃ m' n, getValue version asn p (b + 1 + limb.length + 2) m = (n, m') ∧ ¬n ≤ 0 ∧
      Answers b limb m (n + 2, m'.set b 2) (some ⟨limb ++ [col, row], tlv asn p⟩) := by
  obtain ⟨m', hget, hvalue, hframe⟩ := getValue_available hav p (b + 1 + limb.length + 2) m
  have hpos := tlv_length asn p
  refine ⟨m', _, hget, by omega, answers_some (by simp; omega) (by omega) (set_same _ _ _) ?_ ?_ ?_⟩
  · rw [Mem.read_set_other (by omega)]
    change [m' (b + 1 + limb.length), m' (b + 1 + limb.length + 1)] = [col, row]
    rw [hframe _ (by omega), hframe _ (by omega), hcol, hrow]
  · rw [Mem.read_set_other (by omega)]
    exact hvalue
  · intro j hj hb
    exact (set_other hb).trans (hframe j (by omega))

theorem tableDone_answers (ht : table.IsColumn t)
    (hoid : m.read (b + 1 + limb.length) t.oid.length = t.oid)
    (hrow : m (b + 1 + limb.length + 1) = row) :
    Answers b limb m (tableDone b true first t (getCell version table t.asn (b + 1 + limb.length)
      (b + 1 + limb.length + t.oid.length + 1) m)) (table.cellObj limb t row) := by
  obtain ⟨col, hcol, hcoloid, hasn⟩ := ht
  rw [hcoloid] at hoid
  have hfirst : m (b + 1 + limb.length) = col := (List.cons.inj hoid).1
  by_cases hin : 1 ≤ row.toNat ∧ row.toNat ≤ table.rows
  · obtain ⟨m', n, hget, hpos, hans⟩ := cell_answers (available_of_ne hasn) (table.cell col row)
      hfirst hrow
    have hcell : getCell version table t.asn (b + 1 + limb.length)
        (b + 1 + limb.length + [col].length + 1) m = (n, m') := by
      simp only [getCell, hrow, hfirst]
      rw [if_pos ⟨hin.1, hin.2, hcol⟩]
      exact hget
    rw [Table.cellObj, if_pos hin, hcoloid, hcell, tableDone, if_neg hpos, hcoloid]
    exact hans
  · have hnone : table.cellObj limb t row = none := if_neg hin
    rw [hnone, getCell_none hrow hnone]
    exact ⟨rfl, fun _ _ _ => rfl⟩

def tryColumn (e : Nat) (t : Twig) (m : Mem) : Mem :=
  (m.write e t.oid).set (e + t.oid.length) firstRow

theorem tryColumn_before {j : Nat} (hj : j < e) (t : Twig) (m : Mem) : tryColumn e t m j = m j := by
  rw [tryColumn, set_other (by omega), write_other (.inl hj)]

theorem tryColumn_row (ht : table.IsColumn t) (m : Mem) : tryColumn e t m (e + 1) = firstRow := by
  rw [tryColumn, ht.length, set_same]

theorem tryColumn_answers (ht : table.IsColumn t) :
    Answers b limb m (tableDone b true first t (getCell version table t.asn (b + 1 + limb.length)
      (b + 1 + limb.length + t.oid.length + 1) (tryColumn (b + 1 + limb.length) t m)))
      (table.cellObj limb t firstRow) := by
  refine Answers.mono (fun j hj _ => tryColumn_before hj t m)
    (tableDone_answers ht ?_ (tryColumn_row ht m))
  rw [tryColumn, Mem.read_set_other (by omega), read_write]

theorem funcTable_enter (t : Twig) (ts : List Twig) (m : Mem) :
    funcTable version b limb.length .getNext true (t :: ts) table m =
      tableDone b true true t (getCell version table t.asn (b + 1 + limb.length)
        (b + 1 + limb.length + t.oid.length + 1) (tryColumn (b + 1 + limb.length) t m)) := by
  simp [funcTable, tableFound, tableLoop, tryColumn]

theorem funcTable_first (hts : ∀ t ∈ ts, table.IsColumn t) (m : Mem) :
    Answers b limb m (funcTable version b limb.length .getNext true ts table m)
      (table.cells limb ts).head? := by
  cases ts with
  | nil => exact ⟨rfl, fun _ _ _ => rfl⟩
  | cons t ts =>
    have ht := hts t mem_cons_self
    rw [funcTable_enter, head?_cells ts ht]
    exact tryColumn_answers ht

/-- The search stops at a column that compares greater, or that is all there is of the
request. -/
def columnStops (tw : List Byte) (t : Twig) : Bool :=
  decide (0 < cmp8 t.oid tw ∨ (memcmp t.oid tw = 0 ∧ tw.length < 2))

/-- The cell a request for something behind the limb is answered with: in the column of the
request the next row. -/
def Table.next (table : Table) (limb tw : List Byte) : List Twig → Option Obj
  | [] => none
  | t :: ts =>
    if columnStops tw t then (table.cells limb (t :: ts)).head?
    else if memcmp t.oid tw = 0 then
      (table.cellObj limb t (tw.getD 1 0 + 1)).or (table.cells limb ts).head?
    else table.next limb tw ts

theorem tableDone_zero {next : Bool} : (tableDone b next first t g).1 = 0 ↔ g.1 = 0 := by
  rw [tableDone]
  split
  · exact Iff.rfl
  · omega

theorem tableFound_row {m₀ : Mem} (ht : table.IsColumn t)
    (hts : ∀ t ∈ ts, table.IsColumn t) (hoid : m.read (b + 1 + limb.length) t.oid.length = t.oid)
    (hrow : m (b + 1 + limb.length + 1) = row) :
    Answers b limb m
      (tableFound version b (b + 1 + limb.length) true false table m₀ (some (t, ts, true, m)))
      ((table.cellObj limb t (row + 1)).or (table.cells limb ts).head?) := by
  have hlen := ht.length
  have hkept : Kept b (b + 1 + limb.length) m (m.set (b + 1 + limb.length + 1) (row + 1)) :=
    fun j hj _ => set_other (by omega)
  have hdone : Answers b limb (m.set (b + 1 + limb.length + 1) (row + 1))
      (tableDone b true false t (getCell version table t.asn (b + 1 + limb.length)
        (b + 1 + limb.length + t.oid.length + 1) (m.set (b + 1 + limb.length + 1) (row + 1))))
      (table.cellObj limb t (row + 1)) :=
    tableDone_answers ht ((Mem.read_set_other (by omega)).trans hoid) (set_same _ _ _)
  simp only [tableFound, if_true, hrow, and_true]
  cases hcell : table.cellObj limb t (row + 1) with
  | some o =>
    rw [hcell] at hdone
    have hne := mt tableDone_zero.mpr (Int.ne_of_gt (hdone.choose_spec.2.2.1))
    rw [if_neg hne]
    exact hdone.mono hkept
  | none =>
    rw [hcell] at hdone
    have hzero := tableDone_zero.mp hdone.1
    rw [tableDone, if_pos (Int.le_of_eq hzero)] at hdone
    have hkept' := hkept.trans hdone.2
    rw [if_pos hzero]
    cases ts with
    | nil => exact ⟨rfl, hkept'⟩
    | cons t' ts =>
      rw [head?_cells ts (hts t' mem_cons_self)]
      exact (tryColumn_answers (hts t' mem_cons_self)).mono hkept'

theorem tableLoop_getNext (ts : List Twig) (hpos : 0 < tw.length)
    (htw : m.read e tw.length = tw) (hlen : t.oid.length = 1) :
    tableLoop e tw.length true false (t :: ts) m =
      if columnStops tw t then some (t, ts, false, tryColumn e t m)
      else if memcmp t.oid tw = 0 then some (t, ts, true, m)
      else tableLoop e tw.length true false ts m := by
  have hk : (min (tw.length : Int) t.oid.length).toNat = 1 := by
    omega
  have hcmp : cmp8 (t.oid.take 1) (m.read e 1) = cmp8 t.oid tw := by
    rw [← take_read m e (show 1 ≤ tw.length from hpos), htw]
    exact congrArg toInt8 (memcmp_take (.inl (le_of_eq hlen)))
  rw [tableLoop]
  simp only [hk, hcmp, columnStops, decide_eq_true_iff, ← cmp8_eq_zero,
    Bool.false_eq_true, true_and, false_or]
  by_cases hstop : 0 < cmp8 t.oid tw ∨ cmp8 t.oid tw = 0 ∧ tw.length < 2
  · rw [if_pos hstop, if_pos (by omega)]
    rfl
  · rw [if_neg hstop, if_neg (by omega)]
    by_cases hzero : cmp8 t.oid tw = 0
    · rw [if_pos hzero, if_pos ⟨hzero, by omega⟩]
    · rw [if_neg hzero, if_neg fun h => hzero h.1]

theorem funcTable_below (hlen : (m b).toNat = limb.length + tw.length) :
    funcTable version b limb.length .getNext false ts table m =
      tableFound version b (b + 1 + limb.length) true false table m
        (tableLoop (b + 1 + limb.length) tw.length true false ts m) := by
  have htwigLen : (((m b).toNat : Int) - limb.length) = tw.length := by omega
  rw [funcTable, htwigLen]
  rfl

theorem funcTable_within (hne : tw ≠ []) (hlen : (m b).toNat = limb.length + tw.length)
    (htw : m.read (b + 1 + limb.length) tw.length = tw) (hts : ∀ t ∈ ts, table.IsColumn t) :
    Answers b limb m (funcTable version b limb.length .getNext false ts table m)
      (table.next limb tw ts) := by
  have hpos : 0 < tw.length := List.length_pos_iff.mpr hne
  rw [funcTable_below hlen]
  induction ts with
  | nil => exact ⟨rfl, fun _ _ _ => rfl⟩
  | cons t ts ih =>
    rw [forall_mem_cons] at hts
    obtain ⟨ht, hts⟩ := hts
    have hone := ht.length
    rw [tableLoop_getNext ts hpos htw hone, Table.next]
    cases hstop : columnStops tw t with
    | true =>
      rw [if_pos rfl, head?_cells ts ht]
      simp only [tableFound, Bool.false_eq_true, and_false]
      exact tryColumn_answers ht
    | false =>
      by_cases hzero : memcmp t.oid tw = 0
      · have htwo : 1 < tw.length := by
          simp only [columnStops, decide_eq_false_iff_not] at hstop
          omega
        have hrow : m (b + 1 + limb.length + 1) = tw.getD 1 0 := by
          have h := getD_read m (d := 0) (b + 1 + limb.length) htwo
          rw [htw] at h
          exact h.symm
        have hoid : m.read (b + 1 + limb.length) t.oid.length = t.oid := by
          rw [← take_read m _ (show t.oid.length ≤ tw.length by omega), htw]
          exact (List.prefix_iff_eq_take.mp (prefix_of_memcmp hzero (by omega))).symm
        rw [if_pos hzero, if_pos hzero]
        exact tableFound_row ht hts hoid hrow
      · rw [if_neg hzero, if_neg hzero]
        exact ih hts

end Table

/-! ### Registers of the FPGA -/

section AuxDiag

variable {b : Nat} {limb : List Byte} {bank : AuxDiag}

def AuxDiag.cellObj (bank : AuxDiag) (limb : List Byte) (col : Byte) : Option Obj :=
  if 2 ≤ col.toNat ∧ col.toNat < bank.regs + dataColShift then
    some ⟨limb ++ [col, 1], tlv .unsigned (bank.word col)⟩
  else none

theorem head?_auxCells (bank : AuxDiag) (limb : List Byte) :
    (bank.cells limb).head? = bank.cellObj limb firstCol := by
  have hmin : min (bank.regs + 1) 254 = min bank.regs 253 + 1 := by omega
  rw [AuxDiag.cells, hmin, range_succ_eq_map, AuxDiag.cellObj, if_pos]
  · rfl
  · exact ⟨Nat.le_refl 2, lt_of_lt_of_le (lt_succ_self 2) (le_add_left 3 bank.regs)⟩

/-- The end of `func_aux_diag` for a GETNEXT. -/
def auxDone (b : Nat) (g : Int × Mem) : Int × Mem :=
  if g.1 ≤ 0 then g else (g.1 + 2, g.2.set b 2)

theorem auxDone_zero : (auxDone b g).1 = 0 ↔ g.1 = 0 := by
  rw [auxDone]
  split
  · exact Iff.rfl
  · omega

theorem auxDone_of_zero (h : g.1 = 0) : auxDone b g = g := if_pos (Int.le_of_eq h)

theorem dataAuxDiag_none {off : Nat} {col : Byte} (hcol : m e = col)
    (hrow : m (e + 1) = row) (h : (if row = 1 then bank.cellObj limb col else none) = none) :
    dataAuxDiag version bank false e off m = (0, m) := by
  simp only [dataAuxDiag, hrow, hcol]
  by_cases hone : row = 1
  · rw [if_pos hone] at h
    rw [if_neg fun hne => hne hone, if_pos]
    by_contra hin
    rw [AuxDiag.cellObj, if_pos (by omega)] at h
    cases h
  · rw [if_pos hone]

theorem auxDone_answers (version : Byte) (bank : AuxDiag) {col : Byte}
    (hcol : m (b + 1 + limb.length) = col) (hrow : m (b + 1 + limb.length + 1) = row) :
    Answers b limb m
      (auxDone b (dataAuxDiag version bank false (b + 1 + limb.length) (b + 1 + limb.length + 2) m))
      (if row = 1 then bank.cellObj limb col else none) := by
  by_cases hin : row = 1 ∧ 2 ≤ col.toNat ∧ col.toNat < bank.regs + dataColShift
  · obtain ⟨hone, hin⟩ := hin
    rw [hone] at hrow
    obtain ⟨m', n, hget, hpos, hans⟩ := cell_answers
      (available_of_ne nofun : available version .unsigned = true) (bank.word col) hcol hrow
    have hdata : dataAuxDiag version bank false (b + 1 + limb.length) (b + 1 + limb.length + 2) m =
        (n, m') := by
      simp only [dataAuxDiag, hrow, hcol, ne_eq, not_true_eq_false, if_false]
      rw [if_neg (by omega)]
      exact hget
    rw [if_pos hone, AuxDiag.cellObj, if_pos hin, hdata, auxDone, if_neg hpos]
    exact hans
  · have hnone : (if row = 1 then bank.cellObj limb col else none) = none := by
      by_cases hone : row = 1
      · rw [if_pos hone, AuxDiag.cellObj, if_neg fun h => hin ⟨hone, h⟩]
      · rw [if_neg hone]
    rw [dataAuxDiag_none hcol hrow hnone, hnone]
    exact ⟨rfl, fun _ _ _ => rfl⟩

/-- The register a request for something behind the limb is answered with.  With less than a
column and row it is the first one, whatever the column. -/
def AuxDiag.next (bank : AuxDiag) (limb : List Byte) : List Byte → Option Obj
  | col :: row :: _ =>
    (if row + 1 = 1 then bank.cellObj limb col else none).or (bank.cellObj limb (col + 1))
  | _ => (bank.cells limb).head?

theorem funcAuxDiag_fill {first : Bool}
    (hfill : first = true ∨ ((m b).toNat : Int) - limb.length < 2) :
    Answers b limb m (funcAuxDiag version b limb.length .getNext first bank m)
      (bank.cells limb).head? := by
  have hcall : funcAuxDiag version b limb.length .getNext first bank m =
      auxDone b (dataAuxDiag version bank false (b + 1 + limb.length) (b + 1 + limb.length + 2)
        ((m.set (b + 1 + limb.length) firstCol).set (b + 1 + limb.length + 1) firstRow)) := by
    simp only [funcAuxDiag, auxDone, decide_true, true_and, hfill, if_true, not_true_eq_false,
      and_false, if_false, reduceCtorEq, false_and, decide_false, true_or]
  have hkept : Kept b (b + 1 + limb.length) m
      ((m.set (b + 1 + limb.length) firstCol).set (b + 1 + limb.length + 1) firstRow) := by
    intro j hj _
    rw [set_other (by omega), set_other (by omega)]
  rw [hcall, head?_auxCells]
  refine Answers.mono hkept ?_
  have hdone : bank.cellObj limb firstCol =
      if firstRow = 1 then bank.cellObj limb firstCol else none := rfl
  rw [hdone]
  refine auxDone_answers version bank ?_ (set_same _ _ _)
  rw [set_other (by omega), set_same]

theorem funcAuxDiag_row (hlen : limb.length + 2 ≤ (m b).toNat)
    (hrow : m (b + 1 + limb.length + 1) = row) :
    funcAuxDiag version b limb.length .getNext false bank m =
      let g := dataAuxDiag version bank false (b + 1 + limb.length) (b + 1 + limb.length + 2)
        (m.set (b + 1 + limb.length + 1) (row + 1))
      auxDone b (if g.1 = 0 then
        dataAuxDiag version bank false (b + 1 + limb.length) (b + 1 + limb.length + 2)
          ((g.2.set (b + 1 + limb.length) (g.2 (b + 1 + limb.length) + 1)).set
            (b + 1 + limb.length + 1) firstRow)
        else g) := by
  have hnofill : ¬ (((m b).toNat : Int) - limb.length < 2) := by omega
  simp [funcAuxDiag, auxDone, hnofill, hrow]

theorem funcAuxDiag_within (hlen : (m b).toNat = limb.length + tw.length)
    (htw : m.read (b + 1 + limb.length) tw.length = tw) :
    Answers b limb m (funcAuxDiag version b limb.length .getNext false bank m)
      (bank.next limb tw) := by
  match tw with
  | [] => exact funcAuxDiag_fill (.inr (by simp at hlen; omega))
  | [_] => exact funcAuxDiag_fill (.inr (by simp at hlen; omega))
  | col :: row :: rest =>
    have hcol : m (b + 1 + limb.length) = col := (List.cons.inj htw).1
    have hrow : m (b + 1 + limb.length + 1) = row := (List.cons.inj (List.cons.inj htw).2).1
    rw [length_cons, length_cons] at hlen
    have hcol' : m.set (b + 1 + limb.length + 1) (row + 1) (b + 1 + limb.length) = col := by
      rw [set_other (by omega), hcol]
    have hkept : Kept b (b + 1 + limb.length) m
        (m.set (b + 1 + limb.length + 1) (row + 1)) := fun j hj _ => set_other (by omega)
    rw [funcAuxDiag_row (by omega) hrow, AuxDiag.next]
    cases hcell : (if row + 1 = 1 then bank.cellObj limb col else none) with
    | some o =>
      have hdone := auxDone_answers version bank hcol' (set_same _ _ _)
      rw [hcell] at hdone
      have hne := mt auxDone_zero.mpr (Int.ne_of_gt hdone.choose_spec.2.2.1)
      simp only [hne]
      exact hdone.mono hkept
    | none =>
      simp only [dataAuxDiag_none hcol' (set_same _ _ _) hcell, hcol']
      refine Answers.mono (hkept.trans fun j hj _ => ?_)
        (auxDone_answers version bank ?_ (set_same _ _ firstRow))
      · rw [set_other (by omega), set_other (by omega)]
      · rw [set_other (by omega), set_same]

end AuxDiag

/-- The object behind `tw` in a limb that is answered, if any. -/
def Handler.next (version : Byte) (limb tw : List Byte) : Handler → Option Obj
  | .group twigs => (scanned (Twig.objs version limb) (twigStops tw) twigs []).head?
  | .table twigs t => t.next limb tw twigs
  | .auxDiag bank => bank.next limb tw

theorem twigFunc_first (hl : l.func.WellOrdered) (b : Nat) (m : Mem) :
    Answers b l.oid m (twigFunc version b l.oid.length .getNext true l.func m)
      (l.objs version).head? := by
  obtain ⟨limb, func⟩ := l
  cases func with
  | group twigs => exact groupLoop_first twigs m
  | table twigs t => exact funcTable_first hl.1 m
  | auxDiag bank => exact funcAuxDiag_fill (.inl rfl)

theorem twigFunc_within (version : Byte) (hl : l.func.WellOrdered) {b : Nat} (hne : tw ≠ [])
    (hlen : (m b).toNat = l.oid.length + tw.length)
    (htw : m.read (b + 1 + l.oid.length) tw.length = tw) :
    Answers b l.oid m (twigFunc version b l.oid.length .getNext false l.func m)
      (l.func.next version l.oid tw) := by
  obtain ⟨limb, func⟩ := l
  cases func with
  | group twigs =>
    have htwigLen : ((m b).toNat : Int) - limb.length = tw.length := by
      rw [hlen]
      change ((limb.length + tw.length : Nat) : Int) - limb.length = tw.length
      omega
    change Answers b limb m (groupLoop version b (b + 1 + limb.length)
      ((m b).toNat - limb.length) .getNext false twigs m) _
    rw [htwigLen]
    exact groupLoop_scan twigs m htw hl.1 hl.2
  | table twigs t => exact funcTable_within hne hlen htw hl.1
  | auxDiag bank => exact funcAuxDiag_within hlen htw

section Limbs

variable {b : Nat}

/-- The OID `r` stands behind its length. -/
structure OidAt (b : Nat) (m : Mem) (r : List Byte) : Prop where
  len : (m b).toNat = r.length
  bytes : m.read (b + 1) r.length = r

/-- The search stops at a limb that compares greater, or that the request is a beginning of. -/
def limbStops (r : List Byte) (l : Limb) : Bool :=
  decide (0 < cmp8 l.oid r ∨ (memcmp l.oid r = 0 ∧ r.length ≤ l.oid.length))

/-- The object that a GETNEXT of `r` is answered with, if any. -/
def answer (version : Byte) (r : List Byte) : List Limb → Option Obj
  | [] => none
  | l :: ls =>
    if limbStops r l then (objects version (l :: ls)).head?
    else if memcmp l.oid r = 0 then
      (l.func.next version l.oid (r.drop l.oid.length)).or (objects version ls).head?
    else answer version r ls

def Finishes (b : Nat) (m : Mem) (out : Outcome) : Option Obj → Prop
  | none => ∃ m', out = .failed errNoSuchName m' ∧ ∀ j < b, m' j = m j
  | some o => ∃ m', out = .found (b + 1 + o.oid.length + o.value.length) m' ∧
      m' b = BitVec.ofNat 8 o.oid.length ∧ m'.read (b + 1) o.oid.length = o.oid ∧
      m'.read (b + 1 + o.oid.length) o.value.length = o.value ∧ ∀ j < b, m' j = m j

theorem Finishes.mono {m' : Mem} {out : Outcome} {o : Option Obj} (hm : ∀ j < b, m' j = m j)
    (h : Finishes b m' out o) : Finishes b m out o := by
  cases o with
  | none =>
    obtain ⟨m'', hout, hframe⟩ := h
    exact ⟨m'', hout, fun j hj => (hframe j hj).trans (hm j hj)⟩
  | some o =>
    obtain ⟨m'', hout, hlen, hoid, hvalue, hframe⟩ := h
    exact ⟨m'', hout, hlen, hoid, hvalue, fun j hj => (hframe j hj).trans (hm j hj)⟩

def enterLimb (version : Byte) (b : Nat) (first : Bool) (l : Limb) (ls : List Limb) (m : Mem) :
    Outcome :=
  let r := twigFunc version b l.oid.length .getNext first l.func (m.write (b + 1) l.oid)
  if 0 < r.1 then
    .found (b + 1 + l.oid.length + r.1.toNat) (r.2.set b (r.2 b + BitVec.ofNat 8 l.oid.length))
  else if r.1 = 0 then limbLoop version b .getNext ls r.2
  else .failed (-r.1) r.2

theorem limbLoop_getNext (l : Limb) (ls : List Limb) (m : Mem) {k : Nat}
    (hk : min l.oid.length (m b).toNat = k) {cmp : Int}
    (hcmp : cmp8 (l.oid.take k) (m.read (b + 1) k) = cmp) :
    limbLoop version b .getNext (l :: ls) m =
      if 0 < cmp ∨ ((m b).toNat ≤ l.oid.length ∧ cmp = 0) then enterLimb version b true l ls m
      else if cmp = 0 then enterLimb version b false l ls m
      else limbLoop version b .getNext ls m := by
  have hmode : ¬ (Mode.getNext ≠ Mode.getNext ∧ (m b).toNat < l.oid.length) := fun h => h.1 rfl
  by_cases hfirst : 0 < cmp ∨ ((m b).toNat ≤ l.oid.length ∧ cmp = 0)
  · simp [limbLoop, hk, hcmp, hfirst, enterLimb]
  · simp only [limbLoop, hk, hcmp, hfirst, and_false, decide_false, Bool.false_eq_true, if_false,
      or_false, if_neg hmode]
    by_cases hzero : cmp = 0
    · have hall : l.oid.length = k := by omega
      rw [if_pos ⟨hall, hzero⟩, if_pos hzero, ← hall]
      rfl
    · rw [if_neg fun h => hzero h.2, if_neg hzero, if_neg (by omega)]

theorem enterLimb_finishes {first : Bool} {ls : List Limb} {o : Option Obj}
    (hans : Answers b l.oid (m.write (b + 1) l.oid)
      (twigFunc version b l.oid.length .getNext first l.func (m.write (b + 1) l.oid)) o)
    (hnext : ∀ m', m'.read (b + 1) l.oid.length = l.oid →
      Finishes b m' (limbLoop version b .getNext ls m') (objects version ls).head?) :
    Finishes b m (enterLimb version b first l ls m) (o.or (objects version ls).head?) := by
  have hwrite : ∀ j < b, m.write (b + 1) l.oid j = m j := fun j hj => write_other (by omega)
  rw [enterLimb]
  cases o with
  | none =>
    obtain ⟨hzero, hkept⟩ := hans
    simp only [hzero]
    refine Finishes.mono (fun j hj => ?_) (hnext _ ?_)
    · exact (hkept j (by omega) (by omega)).trans (hwrite j hj)
    · exact (read_congr fun i hi => hkept _ (by omega) (by omega)).trans
        (read_write m (b + 1) l.oid)
  | some o =>
    obtain ⟨twig, hoid, hret, hpos, hlen, htwig, hvalue, hkept⟩ := hans
    have hsize : b + 1 + l.oid.length + (twig.length + o.value.length : Nat) =
        b + 1 + o.oid.length + o.value.length := by
      rw [hoid, length_append]
      omega
    have hlimb : (twigFunc version b l.oid.length .getNext first l.func
        (m.write (b + 1) l.oid)).2.read (b + 1) l.oid.length = l.oid :=
      (read_congr fun i hi => hkept _ (by omega) (by omega)).trans
        (read_write m (b + 1) l.oid)
    simp only [hpos, if_true]
    refine ⟨_, by rw [hret, Int.toNat_natCast, hsize], ?_, ?_, ?_, fun j hj => ?_⟩
    · rw [set_same, hlen, hoid, length_append, ← BitVec.ofNat_add, add_comm]
    · rw [Mem.read_set_other (by omega), hoid, length_append, read_append, hlimb, htwig]
    · rw [Mem.read_set_other (by omega), hoid, length_append, ← add_assoc]
      exact hvalue
    · rw [set_other (by omega)]
      exact (hkept j (by omega) (by omega)).trans (hwrite j hj)

theorem head?_objects_cons (l : Limb) (ls : List Limb) : (objects version (l :: ls)).head? =
    (l.objs version).head?.or (objects version ls).head? := by
  rw [objects, flatMap_cons, List.head?_append]
  rfl

theorem cmp8_limb (l : Limb) (m : Mem) : cmp8 (l.oid.take (min l.oid.length (m b).toNat))
      (m.read (b + 1) (min l.oid.length (m b).toNat)) =
      cmp8 l.oid (m.read (b + 1) (m b).toNat) := by
  rw [← take_read m (b + 1) (min_le_right l.oid.length (m b).toNat)]
  refine congrArg toInt8 (memcmp_take ?_)
  rw [Mem.read_length]
  omega

theorem limbLoop_step {r : List Byte} (hm : OidAt b m r) (l : Limb) (ls : List Limb) :
    limbLoop version b .getNext (l :: ls) m =
      if limbStops r l then enterLimb version b true l ls m
      else if memcmp l.oid r = 0 then enterLimb version b false l ls m
      else limbLoop version b .getNext ls m := by
  rw [limbLoop_getNext l ls m rfl (cmp8_limb l m), hm.len, hm.bytes]
  simp only [limbStops, decide_eq_true_iff, ← cmp8_eq_zero]
  refine if_congr ?_ rfl rfl
  omega

theorem below_of_equal {r : List Byte} (hstop : limbStops r l = false)
    (hzero : memcmp l.oid r = 0) : ∃ tw, tw ≠ [] ∧ r = l.oid ++ tw := by
  simp only [limbStops, decide_eq_false_iff_not] at hstop
  have hshort : l.oid.length < r.length := by omega
  obtain ⟨tw, rfl⟩ := prefix_of_memcmp hzero (le_of_lt hshort)
  refine ⟨tw, ?_, rfl⟩
  rintro rfl
  simp at hshort

theorem limbLoop_ahead (ls : List Limb) {u : List Byte}
    (hu : m.read (b + 1) u.length = u) (hul : Ahead u l.oid) :
    limbLoop version b .getNext (l :: ls) m = enterLimb version b true l ls m := by
  have hclose : cmp8 l.oid u = memcmp l.oid u :=
    cmp8_of_close ⟨by have := hul.1; omega, hul.2⟩
  rw [limbLoop_getNext l ls m rfl (cmp8_limb l m), if_pos]
  -- what is compared with is a part of `u`, or begins with it
  by_cases hlong : u.length ≤ (m b).toNat
  · have hsplit : m.read (b + 1) (m b).toNat =
        u ++ m.read (b + 1 + u.length) ((m b).toNat - u.length) := by
      have h := read_append m u.length (b + 1) ((m b).toNat - u.length)
      rwa [hu, Nat.add_sub_cancel' hlong] at h
    have hne : memcmp l.oid u ≠ 0 := Int.ne_of_gt hul.1
    have happ := cmp8_append_of_ne hne [] (m.read (b + 1 + u.length) ((m b).toNat - u.length))
    rw [append_nil] at happ
    rw [hsplit, happ, hclose]
    exact .inl hul.1
  · have htake : m.read (b + 1) (m b).toNat = u.take (m b).toNat := by
      rw [← hu, take_read m (b + 1) (by omega)]
    rw [htake]
    rcases memcmp_take_right (m b).toNat l.oid u with h | h
    · refine .inr ⟨?_, cmp8_eq_zero.mpr h⟩
      by_contra hshort
      have hpre : l.oid <+: u.take (m b).toNat := prefix_of_memcmp h (by
        rw [length_take]
        omega)
      have hzero := memcmp_eq_zero_of_prefixed (hpre.trans ( take_prefix _ _))
      exact absurd hul.1 (by omega)
    · rw [cmp8, h, ← cmp8, hclose]
      exact .inl hul.1

theorem limbLoop_past : ∀ (ls : List Limb) (m : Mem) (u : List Byte),
    m.read (b + 1) u.length = u → (u :: ls.map Limb.oid).Pairwise Ahead →
    (∀ l ∈ ls, l.func.WellOrdered) →
    Finishes b m (limbLoop version b .getNext ls m) (objects version ls).head?
  | [], m, _, _, _, _ => ⟨m, rfl, fun _ _ => rfl⟩
  | l :: ls, m, u, hu, hahead, hfunc => by
    rw [pairwise_cons] at hahead
    rw [forall_mem_cons] at hfunc
    rw [limbLoop_ahead ls hu (hahead.1 _ mem_cons_self), head?_objects_cons]
    exact enterLimb_finishes (twigFunc_first hfunc.1 b _) fun m' hm' =>
      limbLoop_past ls m' l.oid hm' hahead.2 hfunc.2

/-- **GETNEXT answers `answer`.** -/
theorem limbLoop_answer (version : Byte) {r : List Byte} (hm : OidAt b m r) :
    ∀ {ls : List Limb}, (ls.map Limb.oid).Pairwise Ahead → (∀ l ∈ ls, l.func.WellOrdered) →
    Finishes b m (limbLoop version b .getNext ls m) (answer version r ls)
  | [], _, _ => ⟨m, rfl, fun _ _ => rfl⟩
  | l :: ls, hahead, hfunc => by
    rw [forall_mem_cons] at hfunc
    have hlater : ∀ m', m'.read (b + 1) l.oid.length = l.oid →
        Finishes b m' (limbLoop version b .getNext ls m') (objects version ls).head? :=
      fun m' hm' => limbLoop_past ls m' l.oid hm' hahead hfunc.2
    rw [limbLoop_step hm, answer]
    cases hstop : limbStops r l with
    | true =>
      rw [head?_objects_cons]
      exact enterLimb_finishes (twigFunc_first hfunc.1 b _) hlater
    | false =>
      by_cases hzero : memcmp l.oid r = 0
      · obtain ⟨tw, hne, rfl⟩ := below_of_equal hstop hzero
        rw [if_pos hzero, if_pos hzero, drop_left]
        refine enterLimb_finishes (twigFunc_within version hfunc.1 hne ?_ ?_) hlater
        · rw [write_other (by omega), hm.len, length_append]
        · have hbytes := hm.bytes
          rw [length_append, read_append] at hbytes
          rw [read_write_other (by omega)]
          exact (List.append_inj hbytes (Mem.read_length _ _ _)).2
      · rw [if_neg hzero, if_neg hzero]
        exact limbLoop_answer version hm (List.pairwise_cons.mp hahead).2 hfunc.2

end Limbs

end Wrpc.Snmp
