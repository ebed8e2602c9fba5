/-
# Which object GETNEXT has to answer, and when it does

The objects of the agent ascend (`objects_ascend`), so the one to answer is the first
of them behind the request (`Least`).  `answer_eq_iff` says for which requests the
search finds it, over any arrays in order.

A request for something below a limb always finds its limb.  There a group or a table
has to judge its twigs, and in the registers two kinds of requests go wrong.  Any other
request is right exactly if the limbs are judged: those with objects are behind the
request exactly if a comparison at them or before them has stopped the search.
-/
import Wrpc.Net.SnmpSearch

namespace Wrpc.Snmp

open List BitVec Option

variable {col row : Byte} {rest tw : List Byte} {tail : List Obj} {ts : List Twig}

variable {version : Byte}

/-! ## The first object behind a request -/

def Least (objs : List Obj) (r : List Byte) : Option Obj → Prop
  | none => ∀ o ∈ objs, ¬ r < o.oid
  | some o => o ∈ objs ∧ r < o.oid ∧ ∀ o' ∈ objs, r < o'.oid → o.oid ≤ o'.oid

def Ascends (objs : List Obj) : Prop := objs.Pairwise fun a b => a.oid < b.oid

def behind (r : List Byte) (o : Obj) : Bool := decide (r < o.oid)

variable {limb r tw : List Byte} {o : Obj} {objs : List Obj} {l : Limb} {table : Table}

theorem behind_iff : behind r o = true ↔ r < o.oid := decide_eq_true_iff

theorem not_behind_iff : behind r o = false ↔ ¬ r < o.oid :=
  decide_eq_false_iff_not

theorem Ascends.mono (h : Ascends objs) (r : List Byte) :
    objs.Pairwise fun a b => behind r a = true → behind r b = true := by
  refine h.imp fun {a b} hab ha => ?_
  rw [behind_iff] at ha ⊢
  exact List.lt_trans ha hab

theorem Ascends.nodup (h : Ascends objs) : objs.Nodup := by
  refine h.imp fun {a b} hab heq => ?_
  rw [heq] at hab
  exact List.lt_irrefl _ hab

theorem Ascends.least_iff (h : Ascends objs) {x : Option Obj} :
    Least objs r x ↔ objs.find? (behind r) = x := by
  cases x with
  | none =>
    rw [List.find?_eq_none]
    simp only [Least, behind_iff]
  | some o =>
    rw [List.find?_eq_some_iff_append]
    constructor
    · rintro ⟨hmem, hlt, hleast⟩
      obtain ⟨as, bs, rfl⟩ := append_of_mem hmem
      refine ⟨behind_iff.mpr hlt, as, bs, rfl, fun a ha => ?_⟩
      have hao : a.oid < o.oid := (List.pairwise_append.mp h).2.2 a ha o mem_cons_self
      rw [Bool.not_eq_true', not_behind_iff]
      exact fun hra => hleast a (mem_append_left _ ha) hra hao
    · rintro ⟨hlt, as, bs, rfl, has⟩
      refine ⟨mem_append_right as mem_cons_self, behind_iff.mp hlt, ?_⟩
      intro o' ho' hlt'
      rcases List.mem_append.mp ho' with ho' | ho'
      · have := has o' ho'
        rw [Bool.not_eq_true', not_behind_iff] at this
        exact absurd hlt' this
      · rcases List.mem_cons.mp ho' with rfl | ho'
        · exact List.lt_irrefl _
        · have hlt'' : o.oid < o'.oid :=
            (List.pairwise_cons.mp (List.pairwise_append.mp h).2.1).1 o' ho'
          exact fun h' => List.lt_irrefl _ (List.lt_trans hlt'' h')

/-! ## The objects ascend -/

theorem lt_of_ahead {a b : List Byte} (h : Ahead a b) (x y : List Byte) : a ++ x < b ++ y := by
  have hneg : memcmp a b < 0 := by
    rw [memcmp_swap]
    exact Int.neg_neg_of_pos h.1
  refine (lt_iff_memcmp _ _).mpr (.inl ?_)
  rw [memcmp_append_of_ne (Int.ne_of_lt hneg)]
  exact hneg

theorem mem_twigObjs {t : Twig} : o ∈ t.objs version limb ↔ available version t.asn = true ∧
      o = ⟨limb ++ t.oid, tlv t.asn t.p⟩ := by
  rw [Twig.objs]
  split
  case isTrue h => simp [h]
  case isFalse h => simp [h]

theorem mem_column {asn : Asn} :
    o ∈ table.column limb col asn ↔ ∃ row : Byte, 1 ≤ row.toNat ∧ row.toNat ≤ table.rows ∧
      o = ⟨limb ++ [col, row], tlv asn (table.cell col row)⟩ := by
  rw [Table.column, List.mem_map]
  constructor
  · rintro ⟨i, hi, rfl⟩
    rw [mem_range] at hi
    have hrow : (BitVec.ofNat 8 (i + 1)).toNat = i + 1 := by
      rw [toNat_ofNat]
      omega
    exact ⟨BitVec.ofNat 8 (i + 1), by omega, by omega, rfl⟩
  · rintro ⟨row, hpos, hrows, rfl⟩
    have hrow : BitVec.ofNat 8 (row.toNat - 1 + 1) = row := by
      rw [Nat.sub_add_cancel hpos, ofNat_toNat, setWidth_eq]
    refine ⟨row.toNat - 1, ?_, by rw [hrow]⟩
    rw [mem_range]
    omega

theorem mem_auxCells {bank : AuxDiag} :
    o ∈ bank.cells limb ↔ ∃ col, bank.cellObj limb col = some o := by
  rw [AuxDiag.cells, List.mem_map]
  constructor
  · rintro ⟨i, hi, rfl⟩
    rw [mem_range] at hi
    have hcol : (BitVec.ofNat 8 (i + 2)).toNat = i + 2 := by
      rw [toNat_ofNat]
      omega
    refine ⟨BitVec.ofNat 8 (i + 2), ?_⟩
    rw [AuxDiag.cellObj, if_pos]
    rw [dataColShift]
    omega
  · rintro ⟨col, hcell⟩
    rw [AuxDiag.cellObj] at hcell
    split at hcell
    case isTrue hin =>
      have hcol : BitVec.ofNat 8 (col.toNat - 2 + 2) = col := by
        rw [Nat.sub_add_cancel hin.1, ofNat_toNat, setWidth_eq]
      refine ⟨col.toNat - 2, ?_, ?_⟩
      · rw [mem_range]
        rw [dataColShift] at hin
        omega
      · rw [hcol]
        exact Option.some.inj hcell
    case isFalse => cases hcell

theorem oid_of_mem_objs (hl : l.func.WellOrdered) (ho : o ∈ l.objs version) :
    ∃ tw, tw.length = 2 ∧ o.oid = l.oid ++ tw := by
  obtain ⟨limb, func⟩ := l
  cases func with
  | group twigs =>
    obtain ⟨t, ht, hot⟩ := List.mem_flatMap.mp ho
    obtain ⟨-, rfl⟩ := mem_twigObjs.mp hot
    exact ⟨t.oid, hl.1 t ht, rfl⟩
  | table twigs t =>
    obtain ⟨c, -, hoc⟩ := List.mem_flatMap.mp ho
    obtain ⟨row, -, -, rfl⟩ := mem_column.mp hoc
    exact ⟨_, rfl, rfl⟩
  | auxDiag bank =>
    obtain ⟨i, -, rfl⟩ := List.mem_map.mp ho
    exact ⟨_, rfl, rfl⟩

theorem twigs_ascend (h : (ts.map Twig.oid).Pairwise Ahead) :
    Ascends (ts.flatMap (Twig.objs version limb)) := by
  refine List.pairwise_flatMap.mpr ⟨fun t _ => ?_, ?_⟩
  · rw [Twig.objs]
    split
    · exact pairwise_singleton _ _
    · exact List.Pairwise.nil
  · refine (List.pairwise_map.mp h).imp fun {s t} hst a ha b hb => ?_
    obtain ⟨-, rfl⟩ := mem_twigObjs.mp ha
    obtain ⟨-, rfl⟩ := mem_twigObjs.mp hb
    have hlt := lt_of_ahead hst [] []
    rw [append_nil, append_nil] at hlt
    exact (append_lt_append limb _ _).mpr hlt

theorem ofNat_lt_ofNat {i j : Nat} (hlt : i < j) (hj : j < 256) :
    BitVec.ofNat 8 i < BitVec.ofNat 8 j := by
  rw [lt_def, toNat_ofNat, toNat_ofNat]
  omega

theorem column_ascends (table : Table) (limb : List Byte) (col : Byte) (asn : Asn) :
    Ascends (table.column limb col asn) := by
  rw [Ascends, Table.column, pairwise_map]
  refine List.pairwise_lt_range.imp_of_mem fun {i j} _ hj hlt => ?_
  rw [mem_range] at hj
  rw [append_lt_append, cons_lt_cons_iff, cons_lt_cons_iff]
  exact .inr ⟨rfl, .inl (ofNat_lt_ofNat (by omega) (by omega))⟩

theorem columns_ascend (hts : ∀ t ∈ ts, table.IsColumn t)
    (h : (ts.map Twig.oid).Pairwise Ahead) : Ascends (table.cells limb ts) := by
  refine List.pairwise_flatMap.mpr ⟨fun t _ => column_ascends table limb _ _, ?_⟩
  refine (List.pairwise_map.mp h).imp_of_mem fun {s t} hs ht hst a ha b hb => ?_
  obtain ⟨_, -, -, rfl⟩ := mem_column.mp ha
  obtain ⟨_, -, -, rfl⟩ := mem_column.mp hb
  obtain ⟨c, -, hc, -⟩ := hts s hs
  obtain ⟨d, -, hd, -⟩ := hts t ht
  rw [hc, hd] at hst ⊢
  exact (append_lt_append limb _ _).mpr (lt_of_ahead hst [_] [_])

theorem auxCells_ascend (bank : AuxDiag) (limb : List Byte) : Ascends (bank.cells limb) := by
  rw [Ascends, AuxDiag.cells, pairwise_map]
  refine List.pairwise_lt_range.imp_of_mem fun {i j} _ hj hlt => ?_
  rw [mem_range] at hj
  rw [append_lt_append, cons_lt_cons_iff]
  exact .inl (ofNat_lt_ofNat (by omega) (by omega))

theorem objs_ascend (hl : l.func.WellOrdered) : Ascends (l.objs version) := by
  obtain ⟨limb, func⟩ := l
  cases func with
  | group twigs => exact twigs_ascend hl.2
  | table twigs t => exact columns_ascend hl.1 hl.2
  | auxDiag bank => exact auxCells_ascend bank limb

theorem objects_ascend {limbs : List Limb} (hahead : (limbs.map Limb.oid).Pairwise Ahead)
    (hfunc : ∀ l ∈ limbs, l.func.WellOrdered) : Ascends (objects version limbs) := by
  refine List.pairwise_flatMap.mpr ⟨fun l hl => objs_ascend (hfunc l hl), ?_⟩
  refine (List.pairwise_map.mp hahead).imp_of_mem fun {l l'} hl hl' hll a ha b hb => ?_
  obtain ⟨x, -, hx⟩ := oid_of_mem_objs (hfunc l hl) ha
  obtain ⟨y, -, hy⟩ := oid_of_mem_objs (hfunc l' hl') hb
  rw [hx, hy]
  exact lt_of_ahead hll x y

theorem find?_all_behind (hasc : Ascends objs) (h : ∀ o ∈ objs, r < o.oid) :
    objs.find? (behind r) = objs.head? :=
  ((head?_eq_find?_iff (hasc.mono r)).mpr fun o ho => behind_iff.mpr (h o ho)).symm

theorem find?_none_behind (h : ∀ o ∈ objs, ¬ r < o.oid) : objs.find? (behind r) = none :=
  List.find?_eq_none.mpr fun o ho hb => h o ho (behind_iff.mp hb)

theorem Ascends.append {as bs : List Obj} (h : Ascends (as ++ bs)) : Ascends as ∧ Ascends bs :=
  ⟨(List.pairwise_append.mp h).1, (List.pairwise_append.mp h).2.1⟩

theorem scanned_or_iff {α : Type} {objs : α → List Obj} (stop : α → Bool) {es : List α}
    (htail : ∀ o ∈ tail, r < o.oid) (hasc : Ascends (es.flatMap objs ++ tail))
    (hside : ∀ e ∈ es, (∀ o ∈ objs e, r < o.oid) ∨ ∀ o ∈ objs e, ¬ r < o.oid) :
    (scanned objs stop es []).head?.or tail.head? =
        ((es.flatMap objs).find? (behind r)).or tail.head? ↔
      Judged objs stop (behind r) es := by
  have hside' : ∀ e ∈ es, (∀ o ∈ objs e, behind r o = true) ∨ ∀ o ∈ objs e, behind r o = false := by
    intro e he
    simp only [behind_iff, not_behind_iff]
    exact hside e he
  have h : (scanned objs stop es tail).head? = (es.flatMap objs ++ tail).find? (behind r) ↔
      Judged objs stop (behind r) es :=
    head?_scanned_iff (fun o ho => behind_iff.mpr (htail o ho)) hside' (hasc.mono r) hasc.nodup
  rwa [scanned_append, List.head?_append, List.find?_append,
    find?_all_behind hasc.append.2 htail] at h

/-- When the function of a limb answers the right object for something below the limb. -/
def Handler.Judges (version : Byte) (limb tw : List Byte) : Handler → Prop
  | .group twigs => Judged (Twig.objs version limb) (twigStops tw) (behind (limb ++ tw)) twigs
  | .table twigs t => (∃ c ∈ twigs, c.oid <+: tw) ∨
      Judged (fun c => t.column limb (c.oid.headD 0) c.asn) (columnStops tw)
        (behind (limb ++ tw)) twigs
  | .auxDiag _ => match tw with
      | [col] => col.toNat ≤ 2
      | col :: _ :: _ => col ≠ 0
      | [] => True

section Table

variable {table : Table} {limb tw : List Byte}

theorem cell_lt_iff {row' : Byte} :
    limb ++ col :: row :: rest < limb ++ [col, row'] ↔ row.toNat < row'.toNat := by
  rw [append_lt_append, cons_lt_cons_iff, cons_lt_cons_iff, lt_def, lt_def]
  simp [not_lt_nil]

theorem find?_column {t : Twig} (hoid : t.oid = [col]) :
    (table.column limb col t.asn).find? (behind (limb ++ col :: row :: rest)) =
      table.cellObj limb t (row + 1) := by
  have hrow : (row + 1).toNat = (row.toNat + 1) % 256 := toNat_add row 1
  refine (column_ascends table limb col t.asn).least_iff.mp ?_
  rw [Table.cellObj, hoid]
  split
  case isTrue hin =>
    refine ⟨mem_column.mpr ⟨row + 1, hin.1, hin.2, rfl⟩, cell_lt_iff.mpr (by omega), ?_⟩
    intro o ho hlt
    obtain ⟨row', -, -, rfl⟩ := mem_column.mp ho
    rw [cell_lt_iff] at hlt
    exact mt cell_lt_iff.mp (by omega)
  case isFalse hout =>
    intro o ho hlt
    obtain ⟨row', -, hle, rfl⟩ := mem_column.mp ho
    rw [cell_lt_iff] at hlt
    omega

theorem tableNext_scanned : ∀ {ts : List Twig}, (∀ c ∈ ts, memcmp c.oid tw ≠ 0) →
    table.next limb tw ts = (scanned (fun c => table.column limb (c.oid.headD 0) c.asn)
      (columnStops tw) ts []).head?
  | [], _ => rfl
  | c :: ts, h => by
    rw [forall_mem_cons] at h
    rw [Table.next, scanned, if_neg h.1, tableNext_scanned h.2, append_nil]
    split
    · rfl
    · rfl

theorem tableNext_append {zs : List Twig} : ∀ {xs : List Twig}, (∀ c ∈ xs, cmp8 c.oid tw < 0) →
    table.next limb tw (xs ++ zs) = table.next limb tw zs
  | [], _ => rfl
  | c :: xs, h => by
    rw [forall_mem_cons] at h
    have hne : memcmp c.oid tw ≠ 0 := mt cmp8_eq_zero.mpr (Int.ne_of_lt h.1)
    have hpass : ¬ columnStops tw c = true := by
      rw [columnStops, decide_eq_true_iff]
      rintro (hpos | ⟨hzero, -⟩)
      · exact Int.lt_irrefl 0 (Int.lt_trans hpos h.1)
      · exact hne hzero
    rw [List.cons_append, Table.next, if_neg hpass, if_neg hne]
    exact tableNext_append h.2

theorem cmp8_of_ahead {a b : List Byte} (h : Ahead a b) (y : List Byte) : cmp8 a (b ++ y) < 0 := by
  have hswap : memcmp a b = -memcmp b a := memcmp_swap b a
  have hne : memcmp a b ≠ 0 := by
    have := h.1
    omega
  have happ := cmp8_append_of_ne hne [] y
  rw [append_nil] at happ
  rw [happ, cmp8_of_close ⟨by have := h.2; omega, by have := h.1; omega⟩]
  have := h.1
  omega

theorem tableNext_column {xs ys : List Twig} {t : Twig}
    (hcols : ∀ c ∈ xs ++ t :: ys, table.IsColumn c)
    (hahead : ((xs ++ t :: ys).map Twig.oid).Pairwise Ahead) (hoid : t.oid = [col]) :
    table.next limb (col :: rest) (xs ++ t :: ys) =
      (table.cells limb (xs ++ t :: ys)).find? (behind (limb ++ col :: rest)) := by
  have hasc : Ascends (table.cells limb (xs ++ t :: ys)) := columns_ascend hcols hahead
  rw [map_append, map_cons, pairwise_append, pairwise_cons, hoid] at hahead
  have hx : ∀ c ∈ xs, Ahead c.oid [col] := fun c hc =>
    hahead.2.2 _ (List.mem_map_of_mem hc) _ mem_cons_self
  have hy : ∀ c ∈ ys, Ahead [col] c.oid := fun c hc => hahead.2.1.1 _ (List.mem_map_of_mem hc)
  have hhead : ∀ c ∈ xs ++ t :: ys, c.oid = [c.oid.headD 0] := by
    intro c hc
    obtain ⟨d, -, hd, -⟩ := hcols c hc
    rw [hd]
    rfl
  have hpassed : ∀ c ∈ xs, cmp8 c.oid (col :: rest) < 0 := fun c hc =>
    cmp8_of_ahead (hx c hc) rest
  rw [tableNext_append hpassed]
  rw [Table.cells, flatMap_append, ← Table.cells, ← Table.cells] at hasc ⊢
  have hbefore : ∀ o ∈ table.cells limb xs, ¬ limb ++ col :: rest < o.oid := by
    intro o ho hlt
    obtain ⟨c, hc, hoc⟩ := List.mem_flatMap.mp ho
    obtain ⟨row, -, -, rfl⟩ := mem_column.mp hoc
    have hlt' := lt_of_ahead (hx c hc) [row] rest
    rw [hhead c (mem_append_left _ hc)] at hlt'
    exact List.lt_irrefl _ (List.lt_trans ((append_lt_append limb _ _).mpr hlt') hlt)
  have hafter : ∀ o ∈ table.cells limb ys, limb ++ col :: rest < o.oid := by
    intro o ho
    obtain ⟨c, hc, hoc⟩ := List.mem_flatMap.mp ho
    obtain ⟨row, -, -, rfl⟩ := mem_column.mp hoc
    have hlt' := lt_of_ahead (hy c hc) rest [row]
    rw [hhead c (mem_append_right _ (mem_cons_of_mem _ hc))] at hlt'
    exact (append_lt_append limb _ _).mpr hlt'
  have hcons : table.cells limb (t :: ys) = table.column limb col t.asn ++ table.cells limb ys := by
    rw [Table.cells, flatMap_cons, hoid]
    rfl
  rw [List.find?_append, find?_none_behind hbefore, Table.next]
  have hzero : memcmp t.oid (col :: rest) = 0 := by
    rw [hoid]
    exact memcmp_self_append [col] rest
  cases rest with
  | nil =>
    have hstop : columnStops [col] t = true := decide_eq_true (.inr ⟨hzero, Nat.lt_succ_self 1⟩)
    rw [if_pos hstop]
    refine (find?_all_behind hasc.append.2 fun o ho => ?_).symm
    rw [hcons, mem_append] at ho
    rcases ho with ho | ho
    · obtain ⟨row, -, -, rfl⟩ := mem_column.mp ho
      rw [append_lt_append, cons_lt_cons_iff]
      exact .inr ⟨rfl, nil_lt_cons _ _⟩
    · exact hafter o ho
  | cons row rest =>
    have hpass : ¬ columnStops (col :: row :: rest) t = true := by
      rw [columnStops, decide_eq_true_iff]
      rintro (hpos | ⟨-, hlen⟩)
      · rw [cmp8_eq_zero.mpr hzero] at hpos
        exact Int.lt_irrefl 0 hpos
      · rw [length_cons, length_cons] at hlen
        omega
    rw [hcons] at hasc
    rw [if_neg hpass, if_pos hzero, hcons, List.find?_append, find?_column hoid,
      find?_all_behind hasc.append.2.append.2 hafter]
    rfl

theorem tableNext_or_iff (hcols : ∀ c ∈ ts, table.IsColumn c)
    (hahead : (ts.map Twig.oid).Pairwise Ahead) (hne : tw ≠ [])
    (htail : ∀ o ∈ tail, limb ++ tw < o.oid) (hasc : Ascends (table.cells limb ts ++ tail)) :
    (table.next limb tw ts).or tail.head? =
        ((table.cells limb ts).find? (behind (limb ++ tw))).or tail.head? ↔
      (Handler.table ts table).Judges version limb tw := by
  obtain ⟨col, rest, rfl⟩ := exists_cons_of_ne_nil hne
  by_cases hcol : ∃ c ∈ ts, c.oid <+: col :: rest
  · obtain ⟨c, hc, hpre⟩ := hcol
    obtain ⟨xs, ys, rfl⟩ := append_of_mem hc
    obtain ⟨d, -, hd, -⟩ := hcols c hc
    have hoid : c.oid = [col] := by
      rw [hd, cons_prefix_cons] at hpre
      rw [hd, hpre.1]
    rw [tableNext_column hcols hahead hoid]
    exact ⟨fun _ => .inl ⟨c, hc, hpre⟩, fun _ => rfl⟩
  · have hother : ∀ c ∈ ts, ∃ d, c.oid = [d] ∧ d ≠ col := by
      intro c hc
      obtain ⟨d, -, hd, -⟩ := hcols c hc
      refine ⟨d, hd, ?_⟩
      rintro rfl
      exact hcol ⟨c, hc, hd ▸ prefix_append [d] rest⟩
    have hmemcmp : ∀ c ∈ ts, memcmp c.oid (col :: rest) ≠ 0 := by
      intro c hc
      obtain ⟨d, hd, hdc⟩ := hother c hc
      rw [hd, memcmp_cons_ne hdc]
      exact toNat_sub_ne hdc
    have hside : ∀ c ∈ ts, (∀ o ∈ table.column limb (c.oid.headD 0) c.asn,
        limb ++ col :: rest < o.oid) ∨ ∀ o ∈ table.column limb (c.oid.headD 0) c.asn,
        ¬ limb ++ col :: rest < o.oid := by
      intro c hc
      obtain ⟨d, hd, hdc⟩ := hother c hc
      have hlt : ∀ o ∈ table.column limb (c.oid.headD 0) c.asn,
          (limb ++ col :: rest < o.oid ↔ col < d) := by
        intro o ho
        obtain ⟨row, -, -, rfl⟩ := mem_column.mp ho
        rw [append_lt_append, cons_lt_cons_iff, hd]
        simp [Ne.symm hdc]
      by_cases hcd : col < d
      · exact .inl fun o ho => (hlt o ho).mpr hcd
      · exact .inr fun o ho => mt (hlt o ho).mp hcd
    rw [tableNext_scanned hmemcmp, Handler.Judges, or_iff_right hcol]
    exact scanned_or_iff _ htail hasc hside

end Table

/-! ### Registers of the FPGA -/

section AuxDiag

variable {bank : AuxDiag} {limb tw : List Byte}

theorem register_lt_iff {col' : Byte} : limb ++ col :: row :: rest < limb ++ [col', 1] ↔
      col.toNat < col'.toNat ∨ col = col' ∧ row = 0 := by
  have hrow : row < 1 ↔ row = 0 := by
    rw [← toNat_inj]
    change row.toNat < 1 ↔ row.toNat = 0
    omega
  rw [append_lt_append, cons_lt_cons_iff, cons_lt_cons_iff, lt_def]
  simp [not_lt_nil]

theorem register_le {col' : Byte} (h : col.toNat ≤ col'.toNat) :
    limb ++ [col, 1] ≤ limb ++ [col', 1] := by
  refine mt register_lt_iff.mp ?_
  rintro (hlt | ⟨-, hrow⟩)
  · omega
  · exact absurd hrow (by decide)

theorem auxCellObj_eq_some {o : Obj} : bank.cellObj limb col = some o ↔
    (2 ≤ col.toNat ∧ col.toNat < bank.regs + 3) ∧
      o = ⟨limb ++ [col, 1], tlv .unsigned (bank.word col)⟩ := by
  rw [AuxDiag.cellObj, dataColShift]
  split
  case isTrue h => simp [h, eq_comm]
  case isFalse h => simp [h]

theorem auxCellObj_eq_none :
    bank.cellObj limb col = none ↔ ¬ (2 ≤ col.toNat ∧ col.toNat < bank.regs + 3) := by
  rw [AuxDiag.cellObj, dataColShift]
  split
  case isTrue h => simp [h]
  case isFalse h => simp [h]

theorem auxNext_least (hcol : col ≠ 0) :
    Least (bank.cells limb) (limb ++ col :: row :: rest) (bank.next limb (col :: row :: rest)) := by
  have hpos : col.toNat ≠ 0 := fun h => hcol (eq_of_toNat_eq h)
  have hsucc : (col + 1).toNat = (col.toNat + 1) % 256 := toNat_add col 1
  have hzero : row + 1 = 1 ↔ row = 0 := by
    constructor
    · intro h
      simpa using h
    · rintro rfl
      rfl
  rw [AuxDiag.next]
  cases hcell : (if row + 1 = 1 then bank.cellObj limb col else none) with
  | some o =>
    have hrow : row = 0 := by
      by_contra hrow
      rw [if_neg (mt hzero.mp hrow)] at hcell
      cases hcell
    rw [if_pos (hzero.mpr hrow)] at hcell
    obtain ⟨-, rfl⟩ := auxCellObj_eq_some.mp hcell
    refine ⟨mem_auxCells.mpr ⟨col, hcell⟩, register_lt_iff.mpr (.inr ⟨rfl, hrow⟩), ?_⟩
    intro o ho hlt
    obtain ⟨col', hcol'⟩ := mem_auxCells.mp ho
    obtain ⟨-, rfl⟩ := auxCellObj_eq_some.mp hcol'
    rcases register_lt_iff.mp hlt with h | ⟨h, -⟩
    · exact register_le (Nat.le_of_lt h)
    · exact register_le (Nat.le_of_eq (congrArg BitVec.toNat h))
  | none =>
    -- no register is in the column of the request and behind it
    have hcolumn : ∀ o, bank.cellObj limb col = some o → row ≠ 0 := by
      intro o ho hrow
      rw [if_pos (hzero.mpr hrow), ho] at hcell
      cases hcell
    have hbehind : ∀ col' o, bank.cellObj limb col' = some o →
        limb ++ col :: row :: rest < o.oid → col.toNat + 1 ≤ col'.toNat := by
      intro col' o ho hlt
      obtain ⟨-, rfl⟩ := auxCellObj_eq_some.mp ho
      rcases register_lt_iff.mp hlt with h | ⟨rfl, h⟩
      · exact h
      · exact absurd h (hcolumn _ ho)
    cases hnext : bank.cellObj limb (col + 1) with
    | some o =>
      obtain ⟨hin, rfl⟩ := auxCellObj_eq_some.mp hnext
      refine ⟨mem_auxCells.mpr ⟨_, hnext⟩, register_lt_iff.mpr (.inl (by omega)), ?_⟩
      intro o ho hlt
      obtain ⟨col', hcol'⟩ := mem_auxCells.mp ho
      have hle := hbehind col' o hcol' hlt
      obtain ⟨-, rfl⟩ := auxCellObj_eq_some.mp hcol'
      exact register_le (by omega)
    | none =>
      rw [auxCellObj_eq_none] at hnext
      intro o ho hlt
      obtain ⟨col', hcol'⟩ := mem_auxCells.mp ho
      have hle := hbehind col' o hcol' hlt
      obtain ⟨hin, -⟩ := auxCellObj_eq_some.mp hcol'
      omega

theorem auxNext_or_iff (hne : tw ≠ []) (htail : ∀ o ∈ tail, limb ++ tw < o.oid)
    (hasc : Ascends (bank.cells limb ++ tail)) :
    (bank.next limb tw).or tail.head? =
        ((bank.cells limb).find? (behind (limb ++ tw))).or tail.head? ↔
      (Handler.auxDiag bank).Judges version limb tw := by
  obtain ⟨o, ho⟩ : ∃ o, bank.cellObj limb firstCol = some o :=
    ⟨_, auxCellObj_eq_some.mpr ⟨⟨Nat.le_refl 2, by change 2 < bank.regs + 3; omega⟩, rfl⟩⟩
  have hoid : o.oid = limb ++ [2, 1] := by
    rw [(auxCellObj_eq_some.mp ho).2]
    rfl
  match tw with
  | [] => exact absurd rfl hne
  | [col] =>
    have hlt : ∀ {col' : Byte}, limb ++ [col] < limb ++ [col', 1] ↔ col.toNat ≤ col'.toNat := by
      intro col'
      rw [append_lt_append, cons_lt_cons_iff, lt_def, ← toNat_inj]
      simp only [nil_lt_cons, and_true]
      omega
    rw [AuxDiag.next, head?_auxCells, ho]
    · constructor
      · intro heq
        have hbehind : limb ++ [col] < o.oid := by
          rcases Option.or_eq_some_iff.mp heq.symm with h | ⟨-, h⟩
          · exact behind_iff.mp (List.find?_some h)
          · exact htail o (List.mem_of_mem_head? h)
        rw [hoid] at hbehind
        exact hlt.mp hbehind
      · intro hcol
        have hall : ∀ o ∈ bank.cells limb, limb ++ [col] < o.oid := by
          intro o ho
          obtain ⟨col', hcol'⟩ := mem_auxCells.mp ho
          obtain ⟨hin, rfl⟩ := auxCellObj_eq_some.mp hcol'
          exact hlt.mpr (Nat.le_trans hcol hin.1)
        rw [find?_all_behind hasc.append.1 hall, head?_auxCells, ho, some_or]
    · intro col' row rest h
      cases h
  | col :: row :: rest =>
    by_cases hcol : col = 0
    · refine iff_of_false (fun heq => ?_) fun h => h hcol
      subst hcol
      have hnext : bank.next limb (0 :: row :: rest) = none := by
        have hnone : ∀ col : Byte, col.toNat < 2 → bank.cellObj limb col = none := by
          intro col h
          rw [auxCellObj_eq_none]
          omega
        rw [AuxDiag.next, hnone 0 (by decide), ite_self]
        rfl
      have hall : ∀ o ∈ bank.cells limb, limb ++ 0 :: row :: rest < o.oid := by
        intro o ho
        obtain ⟨col', hcol'⟩ := mem_auxCells.mp ho
        obtain ⟨hin, rfl⟩ := auxCellObj_eq_some.mp hcol'
        exact register_lt_iff.mpr (.inl (Nat.lt_of_lt_of_le (by decide) hin.1))
      rw [hnext, find?_all_behind hasc.append.1 hall, head?_auxCells, ho] at heq
      have hmem : o ∈ bank.cells limb := mem_auxCells.mpr ⟨_, ho⟩
      exact (List.nodup_append.mp hasc.nodup).2.2 o hmem o (List.mem_of_mem_head? heq) rfl
    · rw [(hasc.append.1).least_iff.mp (auxNext_least hcol)]
      exact iff_of_true rfl hcol

end AuxDiag

/-- When the function of a limb answers the right object, with the objects of later limbs
behind. -/
theorem next_or_iff (hl : l.func.WellOrdered) (hne : tw ≠ [])
    (htail : ∀ o ∈ tail, l.oid ++ tw < o.oid) (hasc : Ascends (l.objs version ++ tail)) :
    (l.func.next version l.oid tw).or tail.head? =
        ((l.objs version).find? (behind (l.oid ++ tw))).or tail.head? ↔
      l.func.Judges version l.oid tw := by
  obtain ⟨limb, func⟩ := l
  cases func with
  | group twigs =>
    refine scanned_or_iff _ htail hasc fun t _ => ?_
    rw [Twig.objs]
    split
    · simp only [mem_singleton, forall_eq]
      exact em _
    · exact .inl fun o ho => absurd ho not_mem_nil
  | table twigs t => exact tableNext_or_iff hl.1 hl.2 hne htail hasc
  | auxDiag bank => exact auxNext_or_iff hne htail hasc

theorem cellObj_mem {t : Twig} (ht : table.IsColumn t)
    (h : table.cellObj limb t row = some o) : o ∈ table.column limb (t.oid.headD 0) t.asn := by
  obtain ⟨col, -, hoid, -⟩ := ht
  rw [Table.cellObj, hoid] at h
  split at h
  case isTrue hin =>
    rw [hoid]
    exact mem_column.mpr ⟨row, hin.1, hin.2, (Option.some.inj h).symm⟩
  case isFalse => cases h

theorem tableNext_mem {table : Table} {limb : List Byte} {o : Obj} : ∀ {ts : List Twig},
    (∀ t ∈ ts, table.IsColumn t) → table.next limb tw ts = some o → o ∈ table.cells limb ts
  | [], _, h => by cases h
  | t :: ts, hts, h => by
    rw [forall_mem_cons] at hts
    rw [Table.next] at h
    split at h
    · exact List.mem_of_mem_head? h
    split at h
    · rcases Option.or_eq_some_iff.mp h with h | ⟨-, h⟩
      · exact mem_append_left _ (cellObj_mem hts.1 h)
      · exact mem_append_right _ (List.mem_of_mem_head? h)
    · exact mem_append_right _ (tableNext_mem hts.2 h)

theorem auxNext_mem {bank : AuxDiag} (h : bank.next limb tw = some o) : o ∈ bank.cells limb := by
  match tw with
  | [] => exact List.mem_of_mem_head? h
  | [_] => exact List.mem_of_mem_head? h
  | col :: row :: _ =>
    rcases Option.or_eq_some_iff.mp h with h | ⟨-, h⟩
    · split at h
      · exact mem_auxCells.mpr ⟨_, h⟩
      · cases h
    · exact mem_auxCells.mpr ⟨_, h⟩

theorem next_mem (hl : l.func.WellOrdered) (h : l.func.next version l.oid tw = some o) :
    o ∈ l.objs version := by
  obtain ⟨limb, func⟩ := l
  cases func with
  | group twigs =>
    have hmem := (scanned_suffix (Twig.objs version limb) (twigStops tw) twigs []).subset
      (List.mem_of_mem_head? h)
    rw [append_nil] at hmem
    exact hmem
  | table twigs t => exact tableNext_mem hl.1 h
  | auxDiag bank => exact auxNext_mem h

theorem answer_mem {r : List Byte} {o : Obj} : ∀ {limbs : List Limb},
    (∀ l ∈ limbs, l.func.WellOrdered) → answer version r limbs = some o → o ∈ objects version limbs
  | [], _, h => by cases h
  | l :: ls, hfunc, h => by
    rw [forall_mem_cons] at hfunc
    rw [answer] at h
    split at h
    · exact List.mem_of_mem_head? h
    split at h
    · rcases Option.or_eq_some_iff.mp h with h | ⟨-, h⟩
      · exact mem_append_left _ (next_mem hfunc.1 h)
      · exact mem_append_right _ (List.mem_of_mem_head? h)
    · exact mem_append_right _ (answer_mem hfunc.2 h)

section Limbs

variable {r : List Byte}

def Judges (version : Byte) (limbs : List Limb) (r : List Byte) : Prop :=
  (∀ l ∈ limbs, ∀ tw, tw ≠ [] → r = l.oid ++ tw → l.func.Judges version l.oid tw) ∧
  ((∀ l ∈ limbs, ∀ tw, r = l.oid ++ tw → tw = []) →
    Judged (Limb.objs version) (limbStops r) (behind r) limbs)

variable {limbs : List Limb} {l : Limb}

theorem prefix_of_not_below (h : ∀ tw, r = l.oid ++ tw → tw = []) (hzero : memcmp l.oid r = 0) :
    r <+: l.oid := by
  by_cases hlen : l.oid.length ≤ r.length
  · obtain ⟨tw, rfl⟩ := prefix_of_memcmp hzero hlen
    rw [h tw rfl]
    exact ⟨[], by rw [append_nil, append_nil]⟩
  · refine prefix_of_memcmp ?_ (by omega)
    rw [memcmp_swap, hzero, Int.neg_zero]

theorem answer_eq_scanned : ∀ {limbs : List Limb}, (∀ l ∈ limbs, ∀ tw, r = l.oid ++ tw → tw = []) →
    answer version r limbs = (scanned (Limb.objs version) (limbStops r) limbs []).head?
  | [], _ => rfl
  | l :: ls, h => by
    rw [forall_mem_cons] at h
    rw [answer, scanned, append_nil]
    cases hstop : limbStops r l with
    | true => rfl
    | false =>
      have hne : memcmp l.oid r ≠ 0 := by
        intro hzero
        have hlen := (prefix_of_not_below h.1 hzero).length_le
        rw [limbStops, decide_eq_false_iff_not] at hstop
        exact hstop (.inr ⟨hzero, hlen⟩)
      rw [if_neg hne, answer_eq_scanned h.2]
      rfl

theorem objs_side (hl : l.func.WellOrdered) (h : ∀ tw, r = l.oid ++ tw → tw = []) :
    (∀ o ∈ l.objs version, r < o.oid) ∨ ∀ o ∈ l.objs version, ¬ r < o.oid := by
  by_cases hzero : memcmp l.oid r = 0
  · left
    intro o ho
    obtain ⟨x, hx, hoid⟩ := oid_of_mem_objs hl ho
    obtain ⟨y, hy⟩ := prefix_of_not_below h hzero
    rw [hoid, ← hy, List.append_assoc, lt_iff_memcmp, memcmp_self_append, length_append,
      length_append]
    exact .inr ⟨rfl, by omega⟩
  · have hne : memcmp r l.oid ≠ 0 := by
      rw [memcmp_swap]
      omega
    have hlt : ∀ o ∈ l.objs version, (r < o.oid ↔ memcmp r l.oid < 0) := by
      intro o ho
      obtain ⟨x, -, hoid⟩ := oid_of_mem_objs hl ho
      have happ := memcmp_append_of_ne hne [] x
      rw [append_nil] at happ
      rw [hoid, lt_iff_memcmp]
      omega
    by_cases hneg : memcmp r l.oid < 0
    · exact .inl fun o ho => (hlt o ho).mpr hneg
    · exact .inr fun o ho => mt (hlt o ho).mp hneg

theorem answer_below {l : Limb} {ys : List Limb} (hne : tw ≠ []) :
    ∀ {xs : List Limb}, (∀ e ∈ xs, Ahead e.oid l.oid) →
      answer version (l.oid ++ tw) (xs ++ l :: ys) =
        (l.func.next version l.oid tw).or (objects version ys).head?
  | [], _ => by
    have hzero : memcmp l.oid (l.oid ++ tw) = 0 := memcmp_self_append _ _
    have hpass : ¬ limbStops (l.oid ++ tw) l = true := by
      rw [limbStops, decide_eq_true_iff, cmp8_eq_zero.mpr hzero, length_append]
      have := List.length_pos_iff.mpr hne
      omega
    rw [nil_append, answer, if_neg hpass, if_pos hzero, drop_left]
  | e :: xs, h => by
    rw [forall_mem_cons] at h
    have hneg : cmp8 e.oid (l.oid ++ tw) < 0 := cmp8_of_ahead h.1 tw
    have hcmp : memcmp e.oid (l.oid ++ tw) ≠ 0 := mt cmp8_eq_zero.mpr (Int.ne_of_lt hneg)
    have hpass : ¬ limbStops (l.oid ++ tw) e = true := by
      rw [limbStops, decide_eq_true_iff]
      rintro (hpos | ⟨hzero, -⟩)
      · exact Int.lt_irrefl 0 (Int.lt_trans hpos hneg)
      · exact hcmp hzero
    rw [List.cons_append, answer, if_neg hpass, if_neg hcmp]
    exact answer_below hne h.2

theorem not_below_both {a b : List Byte} (h : Ahead a b) (ha : a <+: r) (hb : b <+: r) : False := by
  have hzero : memcmp b a = 0 := by
    rcases prefix_or_prefix_of_prefix ha hb with hpre | hpre
    · rw [memcmp_swap, memcmp_eq_zero_of_prefixed hpre, Int.neg_zero]
    · exact memcmp_eq_zero_of_prefixed hpre
  exact absurd h.1 (by omega)

theorem judges_below_iff {xs ys : List Limb}
    (hahead : ((xs ++ l :: ys).map Limb.oid).Pairwise Ahead) (hne : tw ≠ []) :
    Judges version (xs ++ l :: ys) (l.oid ++ tw) ↔ l.func.Judges version l.oid tw := by
  have hl : l ∈ xs ++ l :: ys := mem_append_right xs mem_cons_self
  rw [map_append, map_cons, pairwise_append, pairwise_cons] at hahead
  constructor
  · exact fun h => h.1 l hl tw hne rfl
  · intro h
    refine ⟨fun l' hl' tw' hne' hr => ?_, fun hno => absurd (hno l hl tw rfl) hne⟩
    have hpre : l.oid <+: l.oid ++ tw := prefix_append _ _
    have hpre' : l'.oid <+: l.oid ++ tw := ⟨tw', hr.symm⟩
    rcases List.mem_append.mp hl' with hl' | hl'
    · exact (not_below_both (hahead.2.2 _ (List.mem_map_of_mem hl') _ mem_cons_self)
        hpre' hpre).elim
    rcases List.mem_cons.mp hl' with rfl | hl'
    · exact append_cancel_left hr ▸ h
    · exact (not_below_both (hahead.2.1.1 _ (List.mem_map_of_mem hl')) hpre hpre').elim

/-- **When GETNEXT answers the first object behind the request.** -/
theorem answer_eq_iff (hahead : (limbs.map Limb.oid).Pairwise Ahead)
    (hfunc : ∀ l ∈ limbs, l.func.WellOrdered) :
    answer version r limbs = (objects version limbs).find? (behind r) ↔ Judges version limbs r := by
  have hasc : Ascends (objects version limbs) := objects_ascend hahead hfunc
  by_cases hbelow : ∀ l ∈ limbs, ∀ tw, r = l.oid ++ tw → tw = []
  · have htail : ∀ o ∈ ([] : List Obj), r < o.oid := fun o ho => absurd ho not_mem_nil
    have hscan := scanned_or_iff (limbStops r) htail (by rw [append_nil]; exact hasc)
      fun l hl => objs_side (hfunc l hl) (hbelow l hl)
    rw [List.head?_nil, or_none, or_none] at hscan
    rw [answer_eq_scanned hbelow, objects, hscan]
    constructor
    · exact fun h => ⟨fun l hl tw hne hr => absurd (hbelow l hl tw hr) hne, fun _ => h⟩
    · exact fun h => h.2 hbelow
  · simp only [not_forall] at hbelow
    obtain ⟨l, hl, tw, hr, hne⟩ := hbelow
    subst hr
    obtain ⟨xs, ys, rfl⟩ := append_of_mem hl
    have hpair := hahead
    rw [map_append, map_cons, pairwise_append, pairwise_cons] at hpair
    have hx : ∀ e ∈ xs, Ahead e.oid l.oid := fun e he =>
      hpair.2.2 _ (List.mem_map_of_mem he) _ mem_cons_self
    have hy : ∀ e ∈ ys, Ahead l.oid e.oid := fun e he => hpair.2.1.1 _ (List.mem_map_of_mem he)
    rw [objects, flatMap_append, flatMap_cons, ← objects, ← objects] at hasc ⊢
    have hbefore : ∀ o ∈ objects version xs, ¬ l.oid ++ tw < o.oid := by
      intro o ho hlt
      obtain ⟨e, he, hoe⟩ := List.mem_flatMap.mp ho
      obtain ⟨x, -, hoid⟩ := oid_of_mem_objs (hfunc e (mem_append_left _ he)) hoe
      rw [hoid] at hlt
      exact List.lt_irrefl _ (List.lt_trans (lt_of_ahead (hx e he) x tw) hlt)
    have hafter : ∀ o ∈ objects version ys, l.oid ++ tw < o.oid := by
      intro o ho
      obtain ⟨e, he, hoe⟩ := List.mem_flatMap.mp ho
      obtain ⟨x, -, hoid⟩ := oid_of_mem_objs
        (hfunc e (mem_append_right _ (mem_cons_of_mem _ he))) hoe
      rw [hoid]
      exact lt_of_ahead (hy e he) tw x
    rw [answer_below hne hx, List.find?_append, find?_none_behind hbefore, none_or,
      List.find?_append, find?_all_behind hasc.append.2.append.2 hafter,
      next_or_iff (hfunc l hl) hne hafter hasc.append.2]
    exact (judges_below_iff hahead hne).symm

theorem judges_of_prefixed (hfunc : ∀ l ∈ limbs, l.func.WellOrdered)
    (h : ∀ l ∈ limbs, r <+: l.oid) : Judges version limbs r := by
  constructor
  · rintro l hl tw hne rfl
    have hle := (h l hl).length_le
    rw [length_append] at hle
    have := List.length_pos_iff.mpr hne
    omega
  · intro _
    refine judged_of_stop_iff (fun _ => True) (fun l hl => ?_) (fun l hl _ => ?_)
      (pairwise_of_forall fun _ _ _ => trivial)
    · have hzero : memcmp l.oid r = 0 := by
        rw [memcmp_swap, memcmp_eq_zero_of_prefixed (h l hl), Int.neg_zero]
      rw [limbStops, decide_eq_true_iff, iff_true]
      exact .inr ⟨hzero, (h l hl).length_le⟩
    · rw [iff_true]
      intro o ho
      obtain ⟨x, hx, hoid⟩ := oid_of_mem_objs (hfunc l hl) ho
      obtain ⟨y, hy⟩ := h l hl
      rw [behind_iff, hoid, ← hy, List.append_assoc, lt_iff_memcmp, memcmp_self_append,
        length_append, length_append]
      exact .inr ⟨rfl, by omega⟩

theorem judged_twig {limb : List Byte} {t : Twig} (ht : t ∈ ts)
    (hlen : ∀ t ∈ ts, t.oid.length = 2) (hahead : (ts.map Twig.oid).Pairwise Ahead) :
    Judged (Twig.objs version limb) (twigStops t.oid) (behind (limb ++ t.oid)) ts := by
  have hlt : ∀ {a b : List Byte}, Ahead a b → a < b := fun {a b} h => by
    have := lt_of_ahead h [] []
    rwa [append_nil, append_nil] at this
  refine judged_of_stop_iff (fun e => t.oid < e.oid) (fun e he => ?_) (fun e _ hne => ?_) ?_
  · rw [twigStops, decide_eq_true_iff, hlen t ht, hlen e he]
    obtain ⟨xs, ys, rfl⟩ := append_of_mem ht
    rw [map_append, map_cons, pairwise_append, pairwise_cons] at hahead
    rcases List.mem_append.mp he with he | he
    · have h : Ahead e.oid t.oid := hahead.2.2 _ (List.mem_map_of_mem he) _ mem_cons_self
      have hneg := cmp8_of_ahead h []
      rw [append_nil] at hneg
      have hno : ¬ t.oid < e.oid := fun h' => List.lt_irrefl _ (List.lt_trans (hlt h) h')
      exact iff_of_false (by omega) hno
    rcases List.mem_cons.mp he with rfl | he
    · have hzero : cmp8 e.oid e.oid = 0 := by
        have := memcmp_self_append e.oid []
        rw [append_nil] at this
        exact cmp8_eq_zero.mpr this
      exact iff_of_false (by omega) (List.lt_irrefl _)
    · have h : Ahead t.oid e.oid := hahead.2.1.1 _ (List.mem_map_of_mem he)
      rw [cmp8_of_close ⟨by have := h.1; omega, h.2⟩]
      exact iff_of_true (.inl h.1) (hlt h)
  · have hav : available version e.asn = true := by
      by_contra hav
      rw [Twig.objs, if_neg hav] at hne
      exact hne rfl
    rw [Twig.objs, if_pos hav]
    simp [behind_iff, append_lt_append]
  · exact (List.pairwise_map.mp hahead).imp fun {a b} hab h => List.lt_trans h (hlt hab)

theorem judges_twig (hl : l.func.WellOrdered) {o : Obj} (ho : o ∈ l.objs version)
    (hoid : o.oid = l.oid ++ tw) : l.func.Judges version l.oid tw := by
  obtain ⟨limb, func⟩ := l
  cases func with
  | group twigs =>
    obtain ⟨t, ht, hot⟩ := List.mem_flatMap.mp ho
    obtain ⟨-, rfl⟩ := mem_twigObjs.mp hot
    rw [← append_cancel_left hoid]
    exact judged_twig ht hl.1 hl.2
  | table twigs t =>
    obtain ⟨c, hc, hoc⟩ := List.mem_flatMap.mp ho
    obtain ⟨row, -, -, rfl⟩ := mem_column.mp hoc
    obtain ⟨col, -, hcol, -⟩ := hl.1 c hc
    refine .inl ⟨c, hc, ?_⟩
    rw [← append_cancel_left hoid, hcol]
    exact prefix_append [col] [row]
  | auxDiag bank =>
    obtain ⟨col, hcell⟩ := mem_auxCells.mp ho
    obtain ⟨hin, rfl⟩ := auxCellObj_eq_some.mp hcell
    rw [← append_cancel_left hoid]
    rintro rfl
    exact absurd hin.1 (by decide)

theorem judges_of_object (hahead : (limbs.map Limb.oid).Pairwise Ahead)
    (hfunc : ∀ l ∈ limbs, l.func.WellOrdered) {o : Obj} (ho : o ∈ objects version limbs) :
    Judges version limbs o.oid := by
  obtain ⟨l, hl, hol⟩ := List.mem_flatMap.mp ho
  obtain ⟨tw, htw, hoid⟩ := oid_of_mem_objs (hfunc l hl) hol
  obtain ⟨xs, ys, rfl⟩ := append_of_mem hl
  have hne : tw ≠ [] := ne_nil_of_length_pos (by rw [htw]; exact Nat.succ_pos 1)
  rw [hoid, judges_below_iff hahead hne]
  exact judges_twig (hfunc l hl) hol hoid

end Limbs

end Wrpc.Snmp
