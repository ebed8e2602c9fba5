/-
# What a search that fails leaves of the requested OID

A GET or a SET changes nothing up to the end of the OID (`limbLoop_settles`).  A GETNEXT writes the
OIDs it tries over the requested one, and when none has a value it leaves the last of them;
`limbLoop_touched` says for which requests the OID is still there in the end.
-/
import Wrpc.Net.SnmpOrder

namespace Wrpc.Snmp

open List Mem Int

variable {col : Byte} {e : Nat}

variable {version : Byte} {b : Nat}

/-! ## GET and SET -/

variable {m : Mem} {r : Int × Mem} {mode : Mode} {n off : Nat}

/-- A value was stored at `off`, with nothing changed before. -/
def Stored (off : Nat) (m : Mem) (r : Int × Mem) : Prop :=
  ∃ asn p, r.1 = ((tlv asn p).length : Int) ∧
    r.2.read off (tlv asn p).length = tlv asn p ∧ ∀ j < off, r.2 j = m j

/-- The answer of a limb's function, for a rest of the OID of `n` bytes. -/
def Granted (n off : Nat) (m : Mem) (r : Int × Mem) : Prop :=
  n = 2 ∧ ∃ g, r = (g.1 + (n : Int), g.2) ∧ Stored off m g

/-- What a function has returned that has found nothing: no answer or an error, and nothing
changed before `off`. -/
def Refused (off : Nat) (m : Mem) (r : Int × Mem) : Prop :=
  (r.1 = 0 ∨ r.1 = -errBadValue ∨ r.1 = -errReadOnly) ∧ ∀ j < off, r.2 j = m j

theorem Stored.pos (h : Stored off m r) : 0 < r.1 := by
  obtain ⟨asn, p, hret, -⟩ := h
  rw [hret, tlv_length]
  omega

theorem Granted.pos (h : Granted n off m r) : 0 < r.1 := by
  obtain ⟨-, g, rfl, hg⟩ := h
  have := hg.pos
  omega

theorem Refused.le_zero (h : Refused off m r) : r.1 ≤ 0 := by
  rcases h.1 with h | h | h
  · exact le_of_eq h
  · rw [h]
    decide
  · rw [h]
    decide

theorem refused_same {ret : Int} (h : ret = 0 ∨ ret = -errBadValue ∨ ret = -errReadOnly) :
    Refused off m (ret, m) :=
  ⟨h, fun _ _ => rfl⟩

theorem settled_mono {m' : Mem} (hm : ∀ j < off, m' j = m j)
    (h : Granted n off m' r ∨ Refused off m' r) : Granted n off m r ∨ Refused off m r := by
  rcases h with ⟨hn, g, hr, asn, p, hret, hvalue, hkept⟩ | ⟨hret, hkept⟩
  · exact .inl ⟨hn, g, hr, asn, p, hret, hvalue, fun j hj => (hkept j hj).trans (hm j hj)⟩
  · exact .inr ⟨hret, fun j hj => (hkept j hj).trans (hm j hj)⟩

theorem getValue_settled (version : Byte) (asn : Asn) (p : Mem) (off : Nat) (m : Mem) :
    Stored off m (getValue version asn p off m) ∨ ((getValue version asn p off m).1 = 0 ∧
        ∀ j < off, (getValue version asn p off m).2 j = m j) := by
  cases hav : available version asn with
  | true =>
    obtain ⟨m', hget, hvalue, hkept⟩ := getValue_available hav p off m
    rw [hget]
    exact .inl ⟨asn, p, rfl, hvalue, hkept⟩
  | false =>
    rw [getValue_unavailable hav]
    exact .inr ⟨rfl, fun j hj => set_other (by omega)⟩

theorem setValue_refused (asn : Asn) (size off : Nat) (m : Mem) :
    setValue asn size off m = -errBadValue ∨ 0 ≤ setValue asn size off m := by
  simp only [setValue]
  split
  · exact .inl rfl
  · cases asn with
    | integer | unsigned | octetStr | ipAddress =>
      dsimp only
      split
      · exact .inl rfl
      · exact .inr (by omega)
    | counter | timeticks | counter64 => exact .inr (Int.le_refl 0)

theorem setTwig_refused (t : Twig) (off : Nat) (m : Mem) :
    setTwig t off m = -errReadOnly ∨ setTwig t off m = -errBadValue ∨ 0 ≤ setTwig t off m := by
  rw [setTwig]
  cases t.set with
  | none => exact .inl rfl
  | some size => exact .inr (setValue_refused t.asn size off m)

theorem groupLoop_settled (hmode : mode ≠ .getNext) :
    ∀ {ts : List Twig} {m : Mem}, (∀ t ∈ ts, t.oid.length = 2) →
      Granted n (e + n) m (groupLoop version b e n mode false ts m) ∨
        Refused (e + n) m (groupLoop version b e n mode false ts m)
  | [], _, _ => .inr (refused_same (.inl rfl))
  | t :: ts, m, hts => by
    rw [forall_mem_cons] at hts
    rw [groupLoop]
    by_cases hlen : (n : Int) = t.oid.length
    · have hn : n = t.oid.length := ofNat_inj.mp hlen
      rw [if_neg fun h => h.2 hlen]
      simp only [Bool.false_eq_true, if_false, hmode, false_and, and_false]
      have hret : ∀ ret : Int, ret = (if mode = .set then setTwig t (e + t.oid.length) m else 0) →
          ret = -errReadOnly ∨ ret = -errBadValue ∨ 0 ≤ ret := by
        rintro ret rfl
        split
        · exact setTwig_refused t _ m
        · exact .inr (.inr (Int.le_refl 0))
      generalize (if mode = .set then setTwig t (e + t.oid.length) m else 0) = ret at hret
      replace hret := hret ret rfl
      split
      · -- the twig is found: the setter first, then the getter
        by_cases hneg : ret < 0
        · rw [if_pos hneg]
          exact .inr (refused_same (by omega))
        · rw [if_neg hneg]
          rcases getValue_settled version t.asn t.p (e + t.oid.length) m with hg | ⟨hzero, hkept⟩
          · rw [if_neg (ne_of_gt hg.pos), hn]
            exact .inl ⟨hts.1, _, rfl, hg⟩
          · rw [if_pos hzero]
            rw [← hn] at hkept ⊢
            exact settled_mono hkept (groupLoop_settled hmode hts.2)
      · split
        · exact .inr (refused_same (.inl rfl))
        · exact groupLoop_settled hmode hts.2
    · rw [if_pos ⟨hmode, hlen⟩]
      exact groupLoop_settled hmode hts.2

/-- Without GETNEXT the loop over the columns changes nothing, and finds a column one byte
shorter than the rest of the OID. -/
theorem tableLoop_get : ∀ (ts : List Twig) (m : Mem), tableLoop e n false false ts m = none ∨
      ∃ t ∈ ts, ∃ ts', tableLoop e n false false ts m = some (t, ts', false, m) ∧
        n = t.oid.length + 1
  | [], _ => .inl rfl
  | t :: ts, m => by
    rw [tableLoop]
    simp only [Bool.false_eq_true, false_and, or_false, if_false]
    split
    case isTrue h => exact .inr ⟨t, mem_cons_self, ts, rfl, by omega⟩
    case isFalse =>
      refine (tableLoop_get ts m).imp id ?_
      rintro ⟨t', ht', hloop⟩
      exact ⟨t', mem_cons_of_mem t ht', hloop⟩

theorem getCell_settled (version : Byte) (table : Table) (asn : Asn) (e off : Nat) (m : Mem) :
    Stored off m (getCell version table asn e off m) ∨ ((getCell version table asn e off m).1 = 0 ∧
        ∀ j < off, (getCell version table asn e off m).2 j = m j) := by
  rw [getCell]
  split
  · exact getValue_settled version asn _ off m
  · exact .inr ⟨rfl, fun _ _ => rfl⟩

theorem funcTable_settled (hmode : mode ≠ .getNext) {k : Nat} (hn : (m b).toNat = k + n)
    {ts : List Twig} (hts : ∀ t ∈ ts, t.oid.length = 1) (table : Table) :
    Granted n (b + 1 + k + n) m (funcTable version b k mode false ts table m) ∨
      Refused (b + 1 + k + n) m (funcTable version b k mode false ts table m) := by
  have htwigLen : ((m b).toNat : Int) - k = n := by omega
  simp only [funcTable, htwigLen, hmode, decide_false]
  split
  · exact .inr (refused_same (.inr (.inr rfl)))
  · rcases tableLoop_get ts m with h | ⟨t, ht, ts', h, hlen⟩
    · rw [h]
      exact .inr (refused_same (.inl rfl))
    · have hoff : b + 1 + k + t.oid.length + 1 = b + 1 + k + n := by omega
      rw [h]
      simp only [tableFound, Bool.false_eq_true, if_false, and_false, tableDone, hoff]
      rcases getCell_settled version table t.asn (b + 1 + k) (b + 1 + k + n) m with
        hg | ⟨hzero, hkept⟩
      · rw [if_neg (not_le.mpr hg.pos)]
        rw [hts t ht] at hlen ⊢
        subst hlen
        exact .inl ⟨rfl, _, rfl, hg⟩
      · rw [if_pos (le_of_eq hzero)]
        exact .inr ⟨.inl hzero, hkept⟩

theorem dataAuxDiag_settled (version : Byte) (bank : AuxDiag) (set : Bool) (e off : Nat) (m : Mem) :
    Stored off m (dataAuxDiag version bank set e off m) ∨
      Refused off m (dataAuxDiag version bank set e off m) := by
  simp only [dataAuxDiag]
  split
  · exact .inr (refused_same (.inl rfl))
  split
  · exact .inr (refused_same (.inl rfl))
  split
  · exact .inr (refused_same (.inr (.inr rfl)))
  by_cases hset : set = true ∧ setValue .unsigned 0 off m ≤ 0
  · rw [if_pos hset.1, if_pos hset.2]
    refine .inr (refused_same ?_)
    rcases setValue_refused .unsigned 0 off m with h | h
    · exact .inr (.inl h)
    · exact .inl (le_antisymm hset.2 h)
  · have hgo : ¬ (if set = true then setValue .unsigned 0 off m else 1) ≤ 0 := by
      split
      case isTrue h => exact fun hle => hset ⟨h, hle⟩
      case isFalse => decide
    rw [if_neg hgo]
    rcases getValue_settled version .unsigned (bank.word (m e)) off m with h | h
    · exact .inl h
    · exact .inr ⟨.inl h.1, h.2⟩

theorem funcAuxDiag_settled (hmode : mode ≠ .getNext) {k : Nat} (hn : (m b).toNat = k + n)
    (bank : AuxDiag) :
    Granted n (b + 1 + k + n) m (funcAuxDiag version b k mode false bank m) ∨
      Refused (b + 1 + k + n) m (funcAuxDiag version b k mode false bank m) := by
  have htwigLen : ((m b).toNat : Int) - k = n := by omega
  simp only [funcAuxDiag, hmode, decide_false, Bool.false_eq_true, false_and, or_self,
    if_false, not_false_eq_true, true_and, and_false]
  split
  · exact .inr (refused_same (.inl rfl))
  case isFalse hlen =>
    obtain rfl : n = 2 := by omega
    split
    · exact .inr (refused_same (.inr (.inr rfl)))
    · rcases dataAuxDiag_settled version bank (decide (mode = .set)) (b + 1 + k) (b + 1 + k + 2) m
        with hg | href
      · rw [if_neg (not_le.mpr hg.pos)]
        exact .inl ⟨rfl, _, rfl, hg⟩
      · rw [if_pos href.le_zero]
        exact .inr href

theorem twigFunc_settled (version : Byte) (hmode : mode ≠ .getNext) {k : Nat}
    (hn : (m b).toNat = k + n) {func : Handler} (hfunc : func.WellOrdered) :
    Granted n (b + 1 + k + n) m (twigFunc version b k mode false func m) ∨
      Refused (b + 1 + k + n) m (twigFunc version b k mode false func m) := by
  cases func with
  | group twigs =>
    have htwigLen : ((m b).toNat : Int) - k = n := by omega
    rw [twigFunc, funcGroup, htwigLen]
    exact groupLoop_settled hmode hfunc.1
  | table twigs t =>
    refine funcTable_settled hmode hn (fun c hc => ?_) t
    obtain ⟨col, -, hoid, -⟩ := hfunc.1 c hc
    rw [hoid]
    rfl
  | auxDiag bank => exact funcAuxDiag_settled hmode hn bank

/-- What a GET or a SET leaves: the OID as it is, and a value behind it or an error. -/
def Settles (b : Nat) (m : Mem) : Outcome → Prop
  | .failed error m' =>
    (error = errNoSuchName ∨ error = errBadValue ∨ error = errReadOnly) ∧
      ∀ j < b + 1 + (m b).toNat, m' j = m j
  | .found size m' =>
    (m b).toNat ≤ maxOidLen + 2 ∧ ∃ asn p, size = b + 1 + (m b).toNat + (tlv asn p).length ∧
      m'.read (b + 1 + (m b).toNat) (tlv asn p).length = tlv asn p ∧
      ∀ j < b + 1 + (m b).toNat, m' j = m j

theorem Settles.mono {m' : Mem} {out : Outcome} (hm : ∀ j < b + 1 + (m b).toNat, m' j = m j)
    (h : Settles b m' out) : Settles b m out := by
  have hb := hm b (by omega)
  cases out with
  | failed error m'' =>
    rw [Settles, hb] at h
    exact ⟨h.1, fun j hj => (h.2 j hj).trans (hm j hj)⟩
  | found size m'' =>
    rw [Settles, hb] at h
    obtain ⟨hle, asn, p, hsize, hvalue, hkept⟩ := h
    exact ⟨hle, asn, p, hsize, hvalue, fun j hj => (hkept j hj).trans (hm j hj)⟩

/-- **A GET or a SET leaves the OID alone.** -/
theorem limbLoop_settles (version : Byte) (hmode : mode ≠ .getNext) :
    ∀ {ls : List Limb} {m : Mem}, (∀ l ∈ ls, l.oid.length ≤ maxOidLen ∧ l.func.WellOrdered) →
      Settles b m (limbLoop version b mode ls m)
  | [], m, _ => ⟨.inl rfl, fun _ _ => rfl⟩
  | l :: ls, m, hls => by
    rw [forall_mem_cons] at hls
    simp only [limbLoop, hmode, false_and, decide_false, Bool.false_eq_true, if_false, or_false]
    split
    · exact limbLoop_settles version hmode hls.2
    split
    case isTrue hlen hmatch =>
      have hk : min l.oid.length (m b).toNat = l.oid.length := hmatch.1.symm
      obtain ⟨n, hn⟩ : ∃ n, (m b).toNat = l.oid.length + n := ⟨(m b).toNat - l.oid.length, by omega⟩
      have hend : b + 1 + l.oid.length + n = b + 1 + (m b).toNat := by omega
      rw [hk]
      have hfunc := twigFunc_settled version hmode hn hls.1.2
      rw [hend] at hfunc
      rcases hfunc with hgranted | ⟨herr, hkept⟩
      · rw [if_pos hgranted.pos]
        obtain ⟨htwo, g, hg, asn, p, hret, hvalue, hkept⟩ := hgranted
        rw [hg]
        refine ⟨by have := hls.1.1; omega, asn, p, ?_, hvalue, hkept⟩
        omega
      rcases herr with hzero | herr
      · rw [if_neg (by omega), if_pos hzero]
        exact (limbLoop_settles version hmode hls.2).mono hkept
      · have hneg : (twigFunc version b l.oid.length mode false l.func m).1 < 0 := by
          rcases herr with herr | herr
          · rw [herr]
            decide
          · rw [herr]
            decide
        rw [if_neg (by omega), if_neg (by omega)]
        refine ⟨.inr ?_, hkept⟩
        rcases herr with herr | herr
        · exact .inl (by rw [herr]; rfl)
        · exact .inr (by rw [herr]; rfl)
    case isFalse =>
      split
      · exact ⟨.inl rfl, fun _ _ => rfl⟩
      · exact limbLoop_settles version hmode hls.2

/-- Below a limb: which requests a function that finds nothing leaves as they are. -/
def Handler.Untouched (tw : List Byte) : Handler → Prop
  | .group twigs => ∀ t ∈ twigs, twigStops tw t = false
  | .table twigs _ => (∀ c ∈ twigs, cmp8 c.oid tw < 0) ∨ ∃ c ∈ twigs, c.oid = tw
  | .auxDiag _ => False

/-- A limb is passed over, or begins with the request, or leaves the request as it is. -/
def Untouched (r : List Byte) (l : Limb) : Prop :=
  cmp8 l.oid r < 0 ∨ r <+: l.oid ∨ ∃ tw, tw ≠ [] ∧ r = l.oid ++ tw ∧ l.func.Untouched tw

section Group

variable {limb tw : List Byte}

theorem groupLoop_passed : ∀ {ts : List Twig} {m : Mem},
    m.read e tw.length = tw → (∀ t ∈ ts, t.oid.length = 2) →
    (∀ t ∈ ts, twigStops tw t = false) →
    groupLoop version b e tw.length .getNext false ts m = (0, m)
  | [], _, _, _, _ => rfl
  | t :: ts, m, htw, hlen, hpass => by
    rw [forall_mem_cons] at hlen hpass
    rw [groupLoop_step ts htw hlen.1, hpass.1]
    exact groupLoop_passed htw hlen.2 hpass.2

theorem tried_length (hbe : b < e) {n : Int} {t : Twig} {ts : List Twig} {m : Mem}
    (hlen : t.oid.length = 2) (hnone : available version t.asn = false)
    (hnext : ∀ m' : Mem, m' b = 2 → (groupLoop version b e n .getNext false ts m').2 b = 2) :
    (tried version b e n false t ts m).2 b = 2 := by
  simp only [tried, getValue_unavailable hnone]
  refine hnext _ ?_
  rw [set_other (by omega), tryTwig, set_same, hlen]
  rfl

theorem groupLoop_length (hbe : b < e) {n : Int} : ∀ {ts : List Twig} {m : Mem},
    (∀ t ∈ ts, t.oid.length = 2) → (∀ t ∈ ts, available version t.asn = false) → m b = 2 →
    (groupLoop version b e n .getNext false ts m).2 b = 2
  | [], _, _, _, hm => hm
  | t :: ts, m, hlen, hnone, hm => by
    rw [forall_mem_cons] at hlen hnone
    rw [groupLoop_getNext _ false t ts m rfl rfl]
    split
    · exact tried_length hbe hlen.1 hnone.1 fun m' => groupLoop_length hbe hlen.2 hnone.2
    · exact groupLoop_length hbe hlen.2 hnone.2 hm

theorem groupLoop_tried (version : Byte) (limb : List Byte) (hbe : b < e) :
    ∀ {ts : List Twig} {m : Mem}, m.read e tw.length = tw → (∀ t ∈ ts, t.oid.length = 2) →
      (∃ t ∈ ts, twigStops tw t = true) →
    (scanned (Twig.objs version limb) (twigStops tw) ts []).head? = none →
    (groupLoop version b e tw.length .getNext false ts m).2 b = 2
  | [], _, _, _, hstop, _ => by
    obtain ⟨t, ht, -⟩ := hstop
    cases ht
  | t :: ts, m, htw, hlen, hstop, hnone => by
    rw [forall_mem_cons] at hlen
    rw [groupLoop_step ts htw hlen.1]
    rw [scanned] at hnone
    split
    case isTrue ht =>
      rw [if_pos ht, append_nil, List.head?_eq_none_iff, flatMap_eq_nil_iff] at hnone
      have hun : ∀ t' ∈ t :: ts, available version t'.asn = false := by
        intro t' ht'
        have hnil := hnone t' ht'
        rw [Twig.objs] at hnil
        split at hnil
        · cases hnil
        · exact Bool.not_eq_true _ ▸ ‹_›
      rw [forall_mem_cons] at hun
      exact tried_length hbe hlen.1 hun.1 fun m' => groupLoop_length hbe hlen.2 hun.2
    case isFalse ht =>
      have hstop' : ∃ t ∈ ts, twigStops tw t = true := by
        obtain ⟨t', ht', hs⟩ := hstop
        rcases List.mem_cons.mp ht' with rfl | ht'
        · exact absurd hs ht
        · exact ⟨t', ht', hs⟩
      rw [if_neg ht] at hnone
      exact groupLoop_tried version limb hbe htw hlen.2 hstop' hnone

end Group

section Table

variable {table : Table} {limb tw : List Byte}

variable {t : Twig} {ts : List Twig} {e : Nat} {rest : List Byte} {m : Mem}

theorem tryColumn_col (hoid : t.oid = [col]) (m : Mem) : tryColumn e t m e = col := by
  rw [tryColumn, hoid, set_other (by simp)]
  exact write_at (i := 0) (l := [col]) (Nat.succ_pos 0)

theorem tryColumn_none (version : Byte) (first : Bool) (ht : table.IsColumn t)
    (h : table.cellObj limb t firstRow = none) (off : Nat) :
    tableDone b true first t (getCell version table t.asn e off (tryColumn e t m)) =
      (0, tryColumn e t m) := by
  rw [getCell_none (tryColumn_row ht m) h]
  rfl

theorem funcTable_first_kept (version : Byte) (b : Nat) (hts : ∀ t ∈ ts, table.IsColumn t)
    (hnone : table.cells limb ts = []) (m : Mem) :
    (funcTable version b limb.length .getNext true ts table m).1 = 0 ∧ ∀ j < b + 1 + limb.length,
        (funcTable version b limb.length .getNext true ts table m).2 j = m j := by
  cases ts with
  | nil => exact ⟨rfl, fun _ _ => rfl⟩
  | cons t ts =>
    have ht := hts t mem_cons_self
    have hcell : table.cellObj limb t firstRow = none := by
      rw [← head?_cells ts ht, hnone]
      rfl
    rw [funcTable_enter, tryColumn_none version true ht hcell]
    exact ⟨rfl, fun j hj => tryColumn_before hj t m⟩

theorem byte_succ_ne (x : Byte) : x + 1 ≠ x := by
  intro h
  have hnat := congrArg BitVec.toNat h
  change (x.toNat + 1) % 256 = x.toNat at hnat
  omega

theorem tableFound_row_touched {m₀ : Mem} {row : Byte} (hoid : t.oid = [col])
    (hts : ∀ t ∈ ts, table.IsColumn t) (hahead : ∀ c ∈ ts, Ahead t.oid c.oid)
    (hrow : m (e + 1) = row) (hcell : table.cellObj limb t (row + 1) = none)
    (hcells : (table.cells limb ts).head? = none) {r : Int × Mem}
    (hr : tableFound version b e true false table m₀ (some (t, ts, true, m)) = r) :
    r.2 e ≠ col ∨ r.2 (e + 1) ≠ row := by
  have hget : ∀ off, getCell version table t.asn e off (m.set (e + 1) (row + 1)) =
      (0, m.set (e + 1) (row + 1)) := getCell_none (set_same _ _ _) hcell t.asn
  simp only [tableFound, if_true, hrow, hget] at hr
  cases ts with
  | nil =>
    right
    rw [← hr]
    change m.set (e + 1) (row + 1) (e + 1) ≠ row
    rw [set_same]
    exact byte_succ_ne row
  | cons t' ts =>
    have ht' := hts t' mem_cons_self
    have hfirst : table.cellObj limb t' firstRow = none := by
      rw [← head?_cells ts ht', hcells]
    have hdone := tryColumn_none (b := b) (e := e) (m := m.set (e + 1) (row + 1))
      version false ht' hfirst (e + t'.oid.length + 1)
    obtain ⟨col', -, hoid', -⟩ := ht'
    have hcol : col' ≠ col := by
      rintro rfl
      have hself := (hahead t' mem_cons_self).1
      rw [hoid, hoid', memcmp_cons_same] at hself
      exact lt_irrefl 0 hself
    left
    rw [← hr]
    change (tableDone b true false t' (getCell version table t'.asn e (e + t'.oid.length + 1)
      (tryColumn e t' (m.set (e + 1) (row + 1))))).2 e ≠ col
    rw [hdone]
    change tryColumn e t' (m.set (e + 1) (row + 1)) e ≠ col
    rw [tryColumn_col hoid']
    exact hcol

theorem col_of_memcmp {c : Byte} (hoid : t.oid = [col]) (hzero : memcmp t.oid (c :: rest) = 0) :
    col = c := by
  by_contra hcol
  rw [hoid, memcmp_cons_ne hcol] at hzero
  exact toNat_sub_ne hcol hzero

/-- What is left of a request after a column without cells: only a request of the column
itself, and of none that is behind it, is as it was. -/
theorem tryColumn_touched_iff {c : Byte} (hoid : t.oid = [col])
    (hahead : ∀ c ∈ ts, Ahead t.oid c.oid) (hb : b < e) (hstop : columnStops (c :: rest) t = true) :
    (tryColumn e t m b = m b ∧ (tryColumn e t m).read e (c :: rest).length = c :: rest) ↔
      (Handler.table (t :: ts) table).Untouched (c :: rest) := by
  rw [columnStops, decide_eq_true_iff] at hstop
  by_cases hzero : memcmp t.oid (c :: rest) = 0
  · -- the column alone was requested, and stands there again
    have hnil : rest = [] := by
      rcases hstop with h | ⟨-, h⟩
      · rw [cmp8_eq_zero.mpr hzero] at h
        exact absurd h (lt_irrefl 0)
      · exact List.length_eq_zero_iff.mp (by rw [length_cons] at h; omega)
    have hcol := col_of_memcmp hoid hzero
    subst hnil hcol
    refine iff_of_true ⟨tryColumn_before hb t m, ?_⟩ (.inr ⟨t, mem_cons_self, hoid⟩)
    change [tryColumn e t m e] = [col]
    rw [tryColumn_col hoid]
  · have hcmp : 0 < cmp8 t.oid (c :: rest) := hstop.resolve_right fun h => hzero h.1
    refine iff_of_false (fun h => ?_) ?_
    · have hcol : col = c := (tryColumn_col hoid m).symm.trans (List.cons.inj h.2).1
      rw [hoid, hcol] at hzero
      exact hzero (memcmp_self_append [c] rest)
    · rintro (hall | ⟨c', hc', hoid'⟩)
      · exact lt_irrefl 0 (lt_trans hcmp (hall t mem_cons_self))
      · rcases List.mem_cons.mp hc' with rfl | hc'
        · rw [hoid'] at hzero
          exact hzero (by simpa using memcmp_self_append (c :: rest) [])
        · have hneg := cmp8_of_ahead (hahead c' hc') []
          rw [append_nil, hoid'] at hneg
          exact lt_irrefl 0 (lt_trans hcmp hneg)

theorem not_untouched_row {row : Byte} (hts : ∀ c ∈ t :: ts, table.IsColumn c)
    (hzero : memcmp t.oid (col :: row :: rest) = 0) :
    ¬ (Handler.table (t :: ts) table).Untouched (col :: row :: rest) := by
  rintro (hall | ⟨c', hc', hoid'⟩)
  · have hneg := hall t mem_cons_self
    rw [cmp8_eq_zero.mpr hzero] at hneg
    exact lt_irrefl 0 hneg
  · obtain ⟨col', -, hcol', -⟩ := hts c' hc'
    rw [hcol'] at hoid'
    cases hoid'

theorem funcTable_touched (hne : tw ≠ []) (hlen : (m b).toNat = limb.length + tw.length)
    (htw : m.read (b + 1 + limb.length) tw.length = tw) (hts : ∀ t ∈ ts, table.IsColumn t)
    (hahead : (ts.map Twig.oid).Pairwise Ahead) (hnone : table.next limb tw ts = none)
    {r : Int × Mem} (hr : funcTable version b limb.length .getNext false ts table m = r) :
    (r.2 b = m b ∧ r.2.read (b + 1 + limb.length) tw.length = tw) ↔
      (Handler.table ts table).Untouched tw := by
  obtain ⟨c, rest, rfl⟩ := exists_cons_of_ne_nil hne
  have hpos : 0 < (c :: rest).length := Nat.succ_pos _
  rw [funcTable_below hlen] at hr
  induction ts with
  | nil =>
    subst hr
    exact iff_of_true ⟨rfl, htw⟩ (.inl fun c hc => absurd hc not_mem_nil)
  | cons t ts ih =>
    rw [forall_mem_cons] at hts
    rw [map_cons, pairwise_cons] at hahead
    have hahead' : ∀ c ∈ ts, Ahead t.oid c.oid := fun c hc =>
      hahead.1 _ (mem_map_of_mem hc)
    obtain ⟨col, -, hoid, -⟩ := hts.1
    rw [tableLoop_getNext ts hpos htw hts.1.length] at hr
    rw [Table.next] at hnone
    cases hstop : columnStops (c :: rest) t with
    | true =>
      rw [if_pos hstop, head?_cells ts hts.1] at hnone
      have hdone := tryColumn_none (b := b) (e := b + 1 + limb.length) (m := m) version false
        hts.1 hnone (b + 1 + limb.length + t.oid.length + 1)
      rw [hstop, if_pos rfl] at hr
      simp only [tableFound, Bool.false_eq_true, if_false, and_false, hdone] at hr
      subst hr
      exact tryColumn_touched_iff hoid hahead' (by omega) hstop
    | false =>
      rw [if_neg (by rw [hstop]; exact Bool.false_ne_true)] at hnone
      rw [hstop] at hr
      rw [columnStops, decide_eq_false_iff_not] at hstop
      by_cases hzero : memcmp t.oid (c :: rest) = 0
      · have htwo : 1 < (c :: rest).length := by
          by_contra hlt
          exact hstop (.inr ⟨hzero, by omega⟩)
        obtain ⟨row, rest', rfl⟩ := exists_cons_of_ne_nil (l := rest) (by
          rintro rfl
          exact absurd htwo (Nat.lt_irrefl 1))
        have hrow : m (b + 1 + limb.length + 1) = row := (List.cons.inj (List.cons.inj htw).2).1
        have hcol := col_of_memcmp hoid hzero
        subst hcol
        rw [if_pos hzero, Option.or_eq_none_iff] at hnone
        rw [if_pos hzero] at hr
        have htouch := tableFound_row_touched hoid hts.2 hahead' hrow hnone.1 hnone.2 hr
        refine iff_of_false (fun h => ?_) (not_untouched_row (List.forall_mem_cons.mpr hts) hzero)
        have hbytes := List.cons.inj h.2
        rcases htouch with hc | hr
        · exact hc hbytes.1
        · exact hr (List.cons.inj hbytes.2).1
      · rw [if_neg hzero] at hnone hr
        have hneg : cmp8 t.oid (c :: rest) < 0 := by
          have := mt cmp8_eq_zero.mp hzero
          omega
        refine (ih hts.2 hahead.2 hr hnone).trans (or_congr ?_ ?_)
        · rw [forall_mem_cons]
          exact ⟨fun h => ⟨hneg, h⟩, fun h => h.2⟩
        · rw [exists_mem_cons_iff]
          refine ⟨.inr, fun h => h.resolve_left fun heq => ?_⟩
          rw [heq] at hzero
          exact hzero (by simpa using memcmp_self_append (c :: rest) [])

end Table

theorem funcAuxDiag_touched {bank : AuxDiag} {limb tw : List Byte}
    (hlen : (m b).toNat = limb.length + tw.length)
    (htw : m.read (b + 1 + limb.length) tw.length = tw) (hnone : bank.next limb tw = none) :
    (funcAuxDiag version b limb.length .getNext false bank m).2.read
      (b + 1 + limb.length) tw.length ≠ tw := by
  have hcells : (bank.cells limb).head? ≠ none := by
    rw [head?_auxCells, ne_eq, auxCellObj_eq_none, not_not]
    exact ⟨Nat.le_refl 2, by change 2 < bank.regs + 3; omega⟩
  match tw with
  | [] => exact absurd hnone hcells
  | [_] => exact absurd hnone hcells
  | col :: row :: rest =>
    have hcol : m (b + 1 + limb.length) = col := (List.cons.inj htw).1
    have hrow : m (b + 1 + limb.length + 1) = row := (List.cons.inj (List.cons.inj htw).2).1
    rw [length_cons, length_cons] at hlen
    have hcol' : m.set (b + 1 + limb.length + 1) (row + 1) (b + 1 + limb.length) = col := by
      rw [set_other (by omega), hcol]
    rw [AuxDiag.next, Option.or_eq_none_iff] at hnone
    have hnext : (if firstRow = 1 then bank.cellObj limb (col + 1) else none) = none := hnone.2
    rw [funcAuxDiag_row (by omega) hrow]
    simp only [dataAuxDiag_none hcol' (set_same _ _ _) hnone.1, if_true, hcol']
    rw [dataAuxDiag_none (by rw [set_other (by omega), set_same])
      (set_same _ _ _) hnext, auxDone_of_zero rfl]
    intro h
    have hbyte := (List.cons.inj h).1
    dsimp only at hbyte
    rw [set_other (by omega), set_same] at hbyte
    exact byte_succ_ne col hbyte

theorem twigFunc_touched {l : Limb} (hl : l.func.WellOrdered) (hlimb : 2 ≤ l.oid.length)
    {tw : List Byte} (hne : tw ≠ []) (hlen : (m b).toNat = l.oid.length + tw.length)
    (htw : m.read (b + 1 + l.oid.length) tw.length = tw)
    (hnone : l.func.next version l.oid tw = none)
    (hr : twigFunc version b l.oid.length .getNext false l.func m = r) :
    (r.2 b = m b ∧ r.2.read (b + 1 + l.oid.length) tw.length = tw) ↔ l.func.Untouched tw := by
  obtain ⟨limb, func⟩ := l
  cases func with
  | group twigs =>
    have htwigLen : ((m b).toNat : Int) - limb.length = tw.length := by
      rw [hlen]
      change ((limb.length + tw.length : Nat) : Int) - limb.length = tw.length
      omega
    have hgroup : groupLoop version b (b + 1 + limb.length) tw.length .getNext false
        twigs m = r := by
      rw [← htwigLen]
      exact hr
    by_cases hpass : ∀ t ∈ twigs, twigStops tw t = false
    · rw [groupLoop_passed htw hl.1 hpass] at hgroup
      subst hgroup
      exact iff_of_true ⟨rfl, htw⟩ hpass
    · refine iff_of_false (fun h => ?_) hpass
      simp only [not_forall, Bool.not_eq_false] at hpass
      obtain ⟨t, ht, hstop⟩ := hpass
      have htwo := groupLoop_tried version limb (b := b) (by omega) htw hl.1
        ⟨t, ht, hstop⟩ hnone
      rw [hgroup, h.1] at htwo
      rw [htwo] at hlen
      have := List.length_pos_iff.mpr hne
      change 2 = limb.length + tw.length at hlen
      change 2 ≤ limb.length at hlimb
      omega
  | table twigs t => exact funcTable_touched hne hlen htw hl.1 hl.2 hnone hr
  | auxDiag bank =>
    refine iff_of_false (fun h => ?_) id
    subst hr
    exact funcAuxDiag_touched hlen htw hnone h.2

section Limbs

variable {r : List Byte}

def Served (version : Byte) (limbs : List Limb) : Prop :=
  ∀ l ∈ limbs, ∀ twigs, l.func = .group twigs → l.objs version ≠ []

variable {l : Limb} {m : Mem} {tw x : List Byte}

theorem enterLimb_empty (hl : l.func.WellOrdered)
    (hserved : ∀ twigs, l.func = .group twigs → l.objs version ≠ []) (hnone : l.objs version = [])
    (ls : List Limb) (m : Mem) :
    ∃ m', enterLimb version b true l ls m = limbLoop version b .getNext ls m' ∧
      m' b = m b ∧ m'.read (b + 1) l.oid.length = l.oid := by
  obtain ⟨limb, func⟩ := l
  cases func with
  | group twigs => exact absurd hnone (hserved twigs rfl)
  | table twigs t =>
    obtain ⟨hzero, hkept⟩ : _ ∧ ∀ j < b + 1 + limb.length, _ :=
      funcTable_first_kept version b hl.1 hnone (m.write (b + 1) limb)
    refine ⟨(funcTable version b limb.length .getNext true twigs t (m.write (b + 1) limb)).2,
      ?_, ?_, ?_⟩
    · simp [enterLimb, twigFunc, hzero]
    · exact (hkept b (by omega)).trans (write_other (by omega))
    · change Mem.read _ (b + 1) limb.length = limb
      exact (read_congr fun i hi => hkept _ (by omega)).trans (read_write m (b + 1) limb)
  | auxDiag bank =>
    have hhead := head?_auxCells bank limb
    have hcells : bank.cells limb = [] := hnone
    rw [hcells, List.head?_nil, eq_comm, auxCellObj_eq_none] at hhead
    exact absurd ⟨Nat.le_refl 2, by change 2 < bank.regs + 3; omega⟩ hhead

/-- Behind a limb that was entered all limbs without objects are entered, and the last of them
leaves its OID. -/
theorem limbLoop_empty : ∀ {ls : List Limb} {m : Mem} {u : List Byte},
    m.read (b + 1) u.length = u → (u :: ls.map Limb.oid).Pairwise Ahead →
    (∀ l ∈ ls, l.func.WellOrdered) → Served version ls → objects version ls = [] →
    ∃ m', limbLoop version b .getNext ls m = .failed errNoSuchName m' ∧ m' b = m b ∧
      (ls = [] → m' = m) ∧
      m'.read (b + 1) ((ls.map Limb.oid).getLastD u).length = (ls.map Limb.oid).getLastD u
  | [], m, u, hu, _, _, _, _ => ⟨m, rfl, rfl, fun _ => rfl, hu⟩
  | l :: ls, m, u, hu, hahead, hfunc, hserved, hnone => by
    rw [pairwise_cons] at hahead
    rw [forall_mem_cons] at hfunc
    rw [Served, forall_mem_cons] at hserved
    rw [objects, flatMap_cons, append_eq_nil_iff] at hnone
    obtain ⟨m₁, henter, hb₁, hread₁⟩ := enterLimb_empty hfunc.1 hserved.1 hnone.1 ls m
    obtain ⟨m₂, hloop, hb₂, -, hread₂⟩ := limbLoop_empty hread₁ hahead.2 hfunc.2 hserved.2 hnone.2
    refine ⟨m₂, ?_, hb₂.trans hb₁, fun h => absurd h (cons_ne_nil _ _), ?_⟩
    · rw [limbLoop_ahead ls hu (hahead.1 _ mem_cons_self), henter, hloop]
    · rw [map_cons, getLastD_cons]
      exact hread₂

theorem memcmp_reads (m : Mem) (off n k : Nat) : memcmp (m.read off n) (m.read off k) = 0 := by
  rcases Nat.le_total n k with h | h
  · rw [← take_read m off h]
    exact memcmp_eq_zero_of_prefixed ( take_prefix _ _)
  · rw [← take_read m off h, memcmp_swap, memcmp_eq_zero_of_prefixed ( take_prefix _ _)]
    rfl

theorem oidAt_of_last {u : List Byte} (hlen : (m b).toNat = r.length)
    (hu : m.read (b + 1) u.length = u) : (OidAt b m r → memcmp u r = 0) ∧
      (r <+: u → OidAt b m r) := by
  constructor
  · intro h
    rw [← hu, ← h.bytes]
    exact memcmp_reads m _ _ _
  · intro hpre
    refine ⟨hlen, ?_⟩
    rw [← take_read m (b + 1) hpre.length_le, hu]
    exact (List.prefix_iff_eq_take.mp hpre).symm

theorem prefixed_between {y z : List Byte} (hxy : Ahead x y) (hyz : Ahead y z) (hx : r <+: x)
    (hz : r <+: z) : r <+: y := by
  obtain ⟨x', rfl⟩ := hx
  obtain ⟨z', rfl⟩ := hz
  by_cases hzero : memcmp y r = 0
  · by_cases hlen : y.length ≤ r.length
    · have hpre := (prefix_of_memcmp hzero hlen).trans (prefix_append r x')
      exact absurd hxy.1 (by rw [memcmp_eq_zero_of_prefixed hpre]; exact lt_irrefl 0)
    · refine prefix_of_memcmp ?_ (by omega)
      rw [memcmp_swap, hzero]
      rfl
  · have h := memcmp_append_of_ne hzero []
    rw [append_nil] at h
    have hxy' := hxy.1
    have hyz' := hyz.1
    rw [h x'] at hxy'
    rw [memcmp_swap, h z'] at hyz'
    omega

theorem not_untouched_of_ahead (h : Ahead x l.oid) : ¬ Untouched (x ++ tw) l := by
  have hne : memcmp l.oid x ≠ 0 := ne_of_gt h.1
  have happ : memcmp l.oid (x ++ tw) = memcmp l.oid x := by
    have := memcmp_append_of_ne hne [] tw
    rwa [append_nil] at this
  have hcmp : cmp8 l.oid (x ++ tw) = memcmp l.oid x := by
    rw [cmp8_of_close ⟨by rw [happ]; have := h.1; omega, by rw [happ]; exact h.2⟩, happ]
  rintro (hneg | hpre | ⟨tw', -, heq, -⟩)
  · rw [hcmp] at hneg
    exact lt_irrefl 0 (lt_trans h.1 hneg)
  · have hzero := memcmp_eq_zero_of_prefixed hpre
    rw [memcmp_swap] at hzero
    omega
  · have hzero := memcmp_self_append l.oid tw'
    rw [← heq, happ] at hzero
    exact hne hzero

theorem untouched_of_stops (hstop : limbStops r l = true) : Untouched r l ↔ r <+: l.oid := by
  rw [limbStops, decide_eq_true_iff, ← cmp8_eq_zero] at hstop
  refine ⟨?_, fun h => .inr (.inl h)⟩
  rintro (hneg | hpre | ⟨tw, hne, rfl, -⟩)
  · omega
  · exact hpre
  · have hzero := cmp8_eq_zero.mpr (memcmp_self_append l.oid tw)
    have := List.length_pos_iff.mpr hne
    rw [length_append] at hstop
    omega

theorem prefixed_of_untouched (hxl : Ahead x l.oid) (hx : r <+: x) (h : Untouched r l) :
    r <+: l.oid := by
  obtain ⟨y, rfl⟩ := hx
  rcases h with hneg | hpre | ⟨tw, -, rfl, -⟩
  · have hne : memcmp l.oid r ≠ 0 := mt cmp8_eq_zero.mpr (ne_of_lt hneg)
    have happ := memcmp_append_of_ne hne [] y
    rw [append_nil] at happ
    have hpos := hxl.1
    have hle := hxl.2
    rw [happ] at hpos hle
    rw [cmp8_of_close ⟨by omega, hle⟩] at hneg
    omega
  · exact hpre
  · have hzero := memcmp_self_append l.oid (tw ++ y)
    rw [← append_assoc] at hzero
    exact absurd hxl.1 (by rw [hzero]; exact lt_irrefl 0)

theorem prefixed_of_stops {z : List Byte} (hstop : limbStops r l = true) (hlz : Ahead l.oid z)
    (hzero : memcmp z r = 0) : r <+: l.oid ∧ r <+: z := by
  have hl : r <+: l.oid := by
    rw [limbStops, decide_eq_true_iff] at hstop
    rcases hstop with hpos | ⟨hcmp, hlen⟩
    · by_cases hlen : z.length ≤ r.length
      · obtain ⟨y, rfl⟩ := prefix_of_memcmp hzero hlen
        exact absurd (cmp8_of_ahead hlz y) (by omega)
      · obtain ⟨y, rfl⟩ := prefix_of_memcmp
          (by rw [memcmp_swap, hzero]; rfl) (by omega)
        have hne : memcmp l.oid r ≠ 0 := mt cmp8_eq_zero.mpr (ne_of_gt hpos)
        have happ := memcmp_append_of_ne hne [] y
        rw [append_nil] at happ
        have h₁ := hlz.1
        have h₂ := hlz.2
        rw [memcmp_swap] at h₁ h₂
        rw [cmp8_of_close ⟨by omega, by omega⟩] at hpos
        omega
    · exact prefix_of_memcmp (by rw [memcmp_swap, hcmp]; rfl) hlen
  refine ⟨hl, ?_⟩
  by_cases hlen : r.length ≤ z.length
  · exact prefix_of_memcmp (by rw [memcmp_swap, hzero]; rfl) hlen
  · have hpre := (prefix_of_memcmp hzero (by omega)).trans hl
    exact absurd hlz.1 (by rw [memcmp_eq_zero_of_prefixed hpre]; exact lt_irrefl 0)

theorem stopped_untouched_iff {ls : List Limb} (hstop : limbStops r l = true)
    (hahead : ((l :: ls).map Limb.oid).Pairwise Ahead) (hlen : (m b).toNat = r.length)
    (hlast : m.read (b + 1) ((ls.map Limb.oid).getLastD l.oid).length =
      (ls.map Limb.oid).getLastD l.oid) :
    OidAt b m r ↔ ∀ x ∈ l :: ls, Untouched r x := by
  obtain ⟨hzero, hpre⟩ := oidAt_of_last hlen hlast
  rw [map_cons, pairwise_cons] at hahead
  rw [forall_mem_cons, untouched_of_stops hstop]
  rcases eq_nil_or_concat ls with rfl | ⟨ls, z, rfl⟩
  · constructor
    · intro h
      have hcmp : memcmp l.oid r = 0 := hzero h
      rw [limbStops, decide_eq_true_iff, cmp8_eq_zero.mpr hcmp] at hstop
      refine ⟨prefix_of_memcmp ?_ (by omega), fun x hx => absurd hx not_mem_nil⟩
      rw [memcmp_swap, hcmp]
      rfl
    · exact fun h => hpre h.1
  · rw [concat_eq_append] at hahead hzero hpre ⊢
    have hz : ((ls ++ [z]).map Limb.oid).getLastD l.oid = z.oid := by
      rw [map_append, List.getLastD_eq_getLast?, map_singleton, List.getLast?_concat]
      rfl
    rw [hz] at hzero hpre
    have hlz : Ahead l.oid z.oid := hahead.1 _ (mem_map_of_mem
      (mem_append_right ls (mem_singleton_self z)))
    constructor
    · intro h
      obtain ⟨hl, hr⟩ := prefixed_of_stops hstop hlz (hzero h)
      refine ⟨hl, fun x hx => .inr (.inl ?_)⟩
      rcases List.mem_append.mp hx with hx' | hx'
      · have hxz : Ahead x.oid z.oid := by
          have h := hahead.2
          rw [map_append, pairwise_append] at h
          exact h.2.2 _ (mem_map_of_mem hx') _ (mem_singleton_self _)
        exact prefixed_between (hahead.1 _ (mem_map_of_mem hx)) hxz hl hr
      · rw [List.mem_singleton.mp hx']
        exact hr
    · rintro ⟨hl, hls⟩
      have hzu := hls z (mem_append_right ls (mem_singleton_self z))
      exact hpre (prefixed_of_untouched hlz hl hzu)

theorem untouched_below_iff (hne : tw ≠ []) : Untouched (l.oid ++ tw) l ↔ l.func.Untouched tw := by
  refine ⟨?_, fun h => .inr (.inr ⟨tw, hne, rfl, h⟩)⟩
  rintro (hneg | hpre | ⟨tw', -, heq, h⟩)
  · rw [cmp8_eq_zero.mpr (memcmp_self_append l.oid tw)] at hneg
    exact absurd hneg (lt_irrefl 0)
  · have hle := hpre.length_le
    have := List.length_pos_iff.mpr hne
    rw [length_append] at hle
    omega
  · rw [append_cancel_left heq]
    exact h

theorem below_touched {ls : List Limb} (hne : tw ≠ []) (hm : OidAt b m (l.oid ++ tw))
    (hlimbs : WellOrdered (l :: ls)) (hserved : Served version ls)
    (hnext : l.func.next version l.oid tw = none) (hobjs : objects version ls = []) :
    ∃ m', enterLimb version b false l ls m = .failed errNoSuchName m' ∧
      (OidAt b m' (l.oid ++ tw) ↔ ∀ x ∈ l :: ls, Untouched (l.oid ++ tw) x) := by
  have hfunc := List.forall_mem_cons.mp hlimbs.func
  have hahead := List.pairwise_cons.mp hlimbs.ahead
  have hbytes := hm.bytes
  rw [length_append, read_eq_append_iff rfl] at hbytes
  have hlen : (m b).toNat = l.oid.length + tw.length := by rw [hm.len, length_append]
  have hans := twigFunc_within version hfunc.1 hne hlen hbytes.2
  have htouch := twigFunc_touched hfunc.1 (hlimbs.length l mem_cons_self).1 hne hlen hbytes.2
    hnext rfl
  rw [hnext] at hans
  rw [enterLimb, write_self hbytes.1]
  generalize twigFunc version b l.oid.length .getNext false l.func m = res at hans htouch
  obtain ⟨hzero, hkept⟩ := hans
  have hread : res.2.read (b + 1) l.oid.length = l.oid :=
    (read_congr fun i hi => hkept _ (by omega) (by omega)).trans hbytes.1
  simp only [hzero]
  cases ls with
  | nil =>
    refine ⟨res.2, rfl, ?_⟩
    rw [forall_mem_singleton, untouched_below_iff hne, ← htouch]
    constructor
    · intro h
      have hbytes' := h.bytes
      rw [length_append, read_eq_append_iff rfl] at hbytes'
      exact ⟨BitVec.eq_of_toNat_eq (h.len.trans hm.len.symm), hbytes'.2⟩
    · rintro ⟨hb, htw⟩
      refine ⟨by rw [hb, hm.len], ?_⟩
      rw [length_append, read_eq_append_iff rfl]
      exact ⟨hread, htw⟩
  | cons x ls =>
    obtain ⟨m', hloop, -, -, hlast⟩ := limbLoop_empty hread hlimbs.ahead hfunc.2 hserved hobjs
    refine ⟨m', hloop, ?_⟩
    have hx := hahead.1 _ (mem_map_of_mem mem_cons_self)
    refine iff_of_false (fun h => ?_) fun h =>
      not_untouched_of_ahead hx (h x (mem_cons_of_mem _ mem_cons_self))
    have hz : Ahead l.oid (((x :: ls).map Limb.oid).getLastD l.oid) := by
      rw [map_cons, getLastD_cons]
      exact hahead.1 _ (getLastD_mem_cons ..)
    have hagree := (oidAt_of_last h.len hlast).1 h
    have happ := memcmp_append_of_ne (ne_of_gt hz.1) [] tw
    rw [append_nil, hagree] at happ
    exact ne_of_lt hz.1 happ

/-- **What a GETNEXT that finds nothing leaves of the request.** -/
theorem limbLoop_touched {m : Mem} (hm : OidAt b m r) : ∀ {ls : List Limb},
    WellOrdered ls → Served version ls → answer version r ls = none →
    ∃ m', limbLoop version b .getNext ls m = .failed errNoSuchName m' ∧
      (OidAt b m' r ↔ ∀ l ∈ ls, Untouched r l)
  | [], _, _, _ => ⟨m, rfl, iff_of_true hm fun l hl => absurd hl not_mem_nil⟩
  | l :: ls, hlimbs, hserved, hnone => by
    have hfunc := List.forall_mem_cons.mp hlimbs.func
    have hserved' := List.forall_mem_cons.mp hserved
    have hlater : WellOrdered ls :=
      ⟨(List.pairwise_cons.mp hlimbs.ahead).2,
        fun l hl => hlimbs.length l (mem_cons_of_mem _ hl), hfunc.2⟩
    rw [answer] at hnone
    rw [limbLoop_step hm]
    cases hstop : limbStops r l with
    | true =>
      rw [if_pos hstop, List.head?_eq_none_iff, objects, flatMap_cons, append_eq_nil_iff] at hnone
      obtain ⟨m₁, henter, hb₁, hread₁⟩ :=
        enterLimb_empty hfunc.1 hserved'.1 hnone.1 ls m
      obtain ⟨m₂, hloop, hb₂, -, hread₂⟩ := limbLoop_empty hread₁ hlimbs.ahead hfunc.2
        hserved'.2 hnone.2
      refine ⟨m₂, by rw [if_pos rfl, henter, hloop], ?_⟩
      exact stopped_untouched_iff hstop hlimbs.ahead (by rw [hb₂, hb₁, hm.len]) hread₂
    | false =>
      rw [if_neg (by rw [hstop]; exact Bool.false_ne_true)] at hnone
      by_cases hzero : memcmp l.oid r = 0
      · obtain ⟨tw, hne, rfl⟩ := below_of_equal hstop hzero
        rw [if_pos hzero, drop_left, Option.or_eq_none_iff, List.head?_eq_none_iff] at hnone
        rw [if_pos hzero]
        exact below_touched hne hm hlimbs hserved'.2 hnone.1 hnone.2
      · rw [if_neg hzero] at hnone ⊢
        have hneg : cmp8 l.oid r < 0 := by
          rw [limbStops, decide_eq_false_iff_not] at hstop
          have := mt cmp8_eq_zero.mp hzero
          omega
        obtain ⟨m', hloop, hiff⟩ := limbLoop_touched hm hlater hserved'.2 hnone
        refine ⟨m', hloop, hiff.trans ?_⟩
        rw [forall_mem_cons]
        exact ⟨fun h => ⟨.inl hneg, h⟩, fun h => h.2⟩

end Limbs

end Wrpc.Snmp
