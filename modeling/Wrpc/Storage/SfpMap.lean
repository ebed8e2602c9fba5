/-
# The database of transceivers is a bounded map

The abstract database is `BMap PartNumber SfpParams sfpsMax`, at most four part
numbers with their parameters in the order of first insertion.  `HoldsSfp` says
which records lie in the file, `sfpEntry_get` and `sfpEntry_add` what one call of
`sfp_entry` does with them, and `storageAddSfp_refines` that a call of
`storage_get_sfp(SFP_ADD)` is a `put`: also when it reads all records, erases the
file and adds them again.
-/
import Wrpc.Lib.BoundedMap
import Wrpc.Storage.Sfp
import Mathlib.Data.List.TakeWhile

namespace Wrpc.Storage

open List Bytes Nat

variable {s : SfpDb}

/-! ## Entries and their records -/

/-- A part number of 16 bytes, none of them 0x00 or 0xff. -/
abbrev PartNumber := { pn : Fin 16 → Byte // ∀ i, pn i ≠ 0 ∧ pn i ≠ 0xff }

structure SfpParams where
  alpha : BitVec 64
  dTx : BitVec 32
  dRx : BitVec 32
deriving DecidableEq, Repr

abbrev SfpEntry := PartNumber × SfpParams

/-- An entry as a caller passes it, with anything in `chksum`. -/
def toInfo (e : SfpEntry) (chksum : Byte) : SfpInfo := ⟨e.1.1, e.2.alpha, e.2.dTx, e.2.dRx, chksum⟩

def recordBody (e : SfpEntry) : List Byte :=
  List.ofFn e.1.1 ++ (Bytes.imageOf .big 8 e.2.alpha.toNat ++
    (Bytes.imageOf .big 4 e.2.dTx.toNat ++ Bytes.imageOf .big 4 e.2.dRx.toNat))

def record (e : SfpEntry) : List Byte := recordBody e ++ [checksum (recordBody e)]

theorem recordBody_length (e : SfpEntry) : (recordBody e).length = 32 := by
  simp [recordBody]

theorem record_length (e : SfpEntry) : (record e).length = sfpSize := by
  rfl

section Record

variable (o : Order)

theorem imageOf_hton (n : Nat) (x : BitVec (8 * n)) :
    Bytes.imageOf o n (hton o n x).toNat = Bytes.imageOf .big n x.toNat := by
  cases o with
  | big => rfl
  | little => exact imageOf_swap n x

theorem hton_hton (n : Nat) (x : BitVec (8 * n)) : hton o n (hton o n x) = x := by
  cases o with
  | big => rfl
  | little => exact Bytes.swap_swap n x

theorem toNat_hton_ofImage {n : Nat} {bytes : List Byte} (hlen : bytes.length = n) :
    (hton o n (BitVec.ofNat (8 * n) (Bytes.ofImage o bytes))).toNat = Bytes.ofImage .big bytes := by
  have hlt : ∀ l : List Byte, l.length = n → Bytes.ofLittle l < 2 ^ (8 * n) := by
    intro l hl
    rw [pow_mul, ← hl]
    exact ofLittle_lt l
  have hbig : Bytes.ofImage .big bytes < 2 ^ (8 * n) :=
    hlt bytes.reverse (by rw [length_reverse, hlen])
  cases o with
  | big => rw [hton, BitVec.toNat_ofNat, mod_eq_of_lt hbig]
  | little =>
    have hback : Bytes.imageOf .little n (Bytes.ofImage .little bytes) = bytes := by
      rw [← hlen]
      exact littleOf_ofLittle bytes
    have hword : (BitVec.ofNat (8 * n) (Bytes.ofImage .little bytes)).toNat =
        Bytes.ofImage .little bytes := by
      exact mod_eq_of_lt (hlt bytes hlen)
    rw [hton, hword, hback, BitVec.toNat_ofNat, mod_eq_of_lt hbig]

theorem SfpInfo.hton_hton (s : SfpInfo) : (s.hton o).hton o = s := by
  obtain ⟨pn, alpha, dTx, dRx, chksum⟩ := s
  simp only [SfpInfo.hton, Storage.hton_hton o 8 alpha, Storage.hton_hton o 4 dTx,
    Storage.hton_hton o 4 dRx]

theorem ofBytes_image (s : SfpInfo) : SfpInfo.ofBytes o (s.image o) = s := by
  obtain ⟨pn, alpha, dTx, dRx, chksum⟩ := s
  have halpha := ofNat_ofImage o 8 alpha
  have hdTx := ofNat_ofImage o 4 dTx
  have hdRx := ofNat_ofImage o 4 dRx
  simp only [SfpInfo.ofBytes, SfpInfo.image, SfpInfo.mk.injEq]
  refine ⟨funext fun i => ?_, ?_, ?_, ?_, ?_⟩
  · rw [getD_append _ _ _ _ (by simp), getD_eq_getElem _ _ (by simp), List.getElem_ofFn]
  · simpa [drop_append] using halpha
  · simpa [drop_append] using hdTx
  · simpa [drop_append] using hdRx
  · simp

theorem image_toInfo (e : SfpEntry) (chksum : Byte) :
    ((toInfo e chksum).hton o).image o = recordBody e ++ [chksum] := by
  have halpha := imageOf_hton o 8 e.2.alpha
  have hdTx := imageOf_hton o 4 e.2.dTx
  have hdRx := imageOf_hton o 4 e.2.dRx
  simp [SfpInfo.image, SfpInfo.hton, toInfo, halpha, hdTx, hdRx, recordBody]

theorem checksum_append (e : SfpEntry) (b : Byte) :
    checksum (recordBody e ++ [b]) = checksum (recordBody e) := by
  rw [checksum, checksum, take_append_of_le_length (le_of_eq (recordBody_length e).symm)]

theorem ofBytes_record (e : SfpEntry) :
    SfpInfo.ofBytes o (record e) = (toInfo e (checksum (recordBody e))).hton o := by
  rw [record, ← image_toInfo o, ofBytes_image]

end Record

theorem sfpValid_hton (o : Order) (e : SfpEntry) (chksum : Byte) :
    sfpValid ((toInfo e chksum).hton o) = true := by
  rw [sfpValid, all_eq_true]
  intro b hb
  obtain ⟨i, rfl⟩ := (mem_ofFn' _ _).mp hb
  have hne : e.1.1 i ≠ 0xff := (e.1.2 i).2
  simpa [SfpInfo.hton, toInfo] using hne

theorem sfpValid_erased (o : Order) {bytes : List Byte} (h : bytes.getD 0 0 = erased) :
    sfpValid (SfpInfo.ofBytes o bytes) = false := by
  rw [sfpValid, all_eq_false]
  refine ⟨bytes.getD 0 0, (mem_ofFn' _ _).mpr ⟨0, rfl⟩, ?_⟩
  rw [h]
  decide

theorem strncmpEq_toInfo (e e' : SfpEntry) (chksum chksum' : Byte) :
    strncmpEq (List.ofFn (toInfo e chksum).pn) (List.ofFn (toInfo e' chksum').pn) =
      decide (e.1 = e'.1) := by
  have hnz : ∀ (e : SfpEntry), ∀ a ∈ List.ofFn e.1.1, a ≠ 0 := by
    intro e a ha
    obtain ⟨i, rfl⟩ := (mem_ofFn' _ _).mp ha
    exact (e.1.2 i).1
  rw [Bool.eq_iff_iff, decide_eq_true_iff]
  rw [strncmpEq_string (by simp),
    List.takeWhile_eq_self_iff.mpr fun a ha => by simpa using hnz e a ha,
    List.takeWhile_eq_self_iff.mpr fun b hb => by simpa using hnz e' b hb, ofFn_inj]
  exact Subtype.ext_iff.symm

/-- The file holds the records of `es`, and is erased behind them. -/
structure HoldsSfp (f : File) (m : Mem) (es : List SfpEntry) : Prop where
  record : ∀ (i : Nat) (hi : i < es.length),
    m.read (f.offset + (1 + i * sfpSize)) sfpSize = record es[i]
  rest : ∀ j, es.length * sfpSize ≤ j → 1 + j < f.len → m (f.offset + (1 + j)) = erased

/-- A file with room for `sfpsMax` records, on a chip whose erase erases it.  On a flash it starts
with a page, so that no record lies across the end of one. -/
structure SfpFile (c : Chip) (f : File) : Prop where
  len : 1 + sfpsMax * sfpSize ≤ f.len
  page : c.paged = true → pageSize ∣ f.offset
  erase : ∀ m : Mem, ∀ j < f.len, (ferase c f m 0 f.len).2 (f.offset + j) = erased

theorem SfpFile.of_dvd {c : Chip} {f : File} (hlen : 1 + sfpsMax * sfpSize ≤ f.len)
    (halign : c.sectorSize ∣ f.offset) : SfpFile c f where
  len := hlen
  page hpaged := dvd_trans (c.pages hpaged) halign
  erase m j hj := by
    have hround := Align.le_alignUp f.len c.sectorSize_pos
    rw [ferase_whole halign, if_pos ⟨le_add_right _ _, by omega⟩]

section File

variable {c : Chip} {o : Order} {f : File} {m : Mem} {es : List SfpEntry} (hf : SfpFile c f)

include hf

theorem fread_record {i : Nat} (hi : i < sfpsMax) :
    fread f m (1 + i * sfpSize) sfpSize =
      ((sfpSize : Int), m.read (f.offset + (1 + i * sfpSize)) sfpSize) := by
  have hlen := hf.len
  unfold sfpsMax sfpSize at *
  exact fread_inside (by omega)

theorem countSfps_eq (h : HoldsSfp f m es) (hes : es.length ≤ sfpsMax) :
    ∀ (fuel n : Nat), n ≤ es.length → es.length < n + fuel → countSfps o f m fuel n = es.length
  | 0, n, hn, hfuel => by omega
  | fuel + 1, n, hn, hfuel => by
    rw [countSfps]
    rcases Nat.lt_or_eq_of_le hn with hlt | rfl
    · rw [fread_record hf (Nat.lt_of_lt_of_le hlt hes)]
      simp only [h.record n hlt, ofBytes_record, sfpValid_hton]
      exact countSfps_eq h hes fuel (n + 1) hlt (by omega)
    · by_cases hin : 1 + es.length * sfpSize + sfpSize ≤ f.len
      · rw [fread_inside hin]
        have hfirst : (m.read (f.offset + (1 + es.length * sfpSize)) sfpSize).getD 0 0 =
            erased := by
          exact h.rest _ (Nat.le_refl _) (by unfold sfpSize at *; omega)
        simp [sfpValid_erased o hfirst]
      · have hshort : (fread f m (1 + es.length * sfpSize) sfpSize).1 ≠ sfpSize :=
          Int.ne_of_lt (fread_short (by omega))
        simp [hshort]

theorem length_lt_fuel (hes : es.length ≤ sfpsMax) :
    es.length < 0 + (f.len + 1) := by
  have hlen := hf.len
  unfold sfpsMax sfpSize at *
  omega

def Counted (s : SfpDb) (es : List SfpEntry) (pos : Nat) : Prop := pos = 0 ∨ s.sfpcount = es.length

theorem count_zero (o : Order) (h : HoldsSfp f m es)
    (hes : es.length ≤ sfpsMax) : countSfps o f m (f.len + 1) 0 = es.length :=
  countSfps_eq hf h hes (f.len + 1) 0 (zero_le _) (length_lt_fuel hf hes)

theorem count_eq (h : HoldsSfp f s.mem es)
    (hes : es.length ≤ sfpsMax) {pos : Nat} (hpos : Counted s es pos) :
    (if pos = 0 then countSfps o f s.mem (f.len + 1) 0 else s.sfpcount) = es.length := by
  split
  · exact count_zero hf o h hes
  · rcases hpos with hz | hs
    · contradiction
    · exact hs

theorem sfpEntry_get (h : HoldsSfp f s.mem es)
    (hes : es.length ≤ sfpsMax) {pos : Nat} (hpos : Counted s es pos) (hlt : pos < es.length)
    (sfp : SfpInfo) :
    sfpEntry c o f s sfp .get pos =
      ((es.length : Int), toInfo es[pos] (checksum (recordBody es[pos])), ⟨s.mem, es.length⟩) := by
  have hmax : ¬ pos ≥ sfpsMax := Nat.not_le_of_lt (Nat.lt_of_lt_of_le hlt hes)
  have hne : ¬ (pos = 0 ∧ es.length = 0) := by omega
  rw [sfpEntry, if_neg hmax]
  simp only [count_eq hf h hes hpos, hne, if_false, fread_record hf (Nat.lt_of_not_le hmax),
    ne_eq, not_true_eq_false, h.record pos hlt, ofBytes_record, SfpInfo.hton_hton]
  have hsum : checksum (record es[pos]) = checksum (recordBody es[pos]) := checksum_append _ _
  rw [if_neg]
  exact not_not.mpr rfl

theorem sfpEntry_get_empty (h : HoldsSfp f s.mem [])
    (sfp : SfpInfo) : sfpEntry c o f s sfp .get 0 = (0, sfp, ⟨s.mem, 0⟩) := by
  have hcount := count_zero hf o h (zero_le _)
  rw [sfpEntry, if_neg (by decide)]
  simp [hcount]

theorem sfpEntry_add_full (h : HoldsSfp f s.mem es)
    (hes : es.length = sfpsMax) (sfp : SfpInfo) :
    sfpEntry c o f s sfp .add 0 = (retDbFull, sfp, ⟨s.mem, es.length⟩) := by
  rw [sfpEntry, if_neg (by decide)]
  simp [count_zero hf o h (le_of_eq hes), hes]

theorem sfpEntry_add (h : HoldsSfp f s.mem es)
    (hes : es.length < sfpsMax) (e : SfpEntry) (chksum : Byte) :
    ∃ m', sfpEntry c o f s (toInfo e chksum) .add 0 =
        (((es.length + 1 : Nat) : Int), toInfo e chksum, ⟨m', es.length + 1⟩) ∧
      HoldsSfp f m' (es ++ [e]) := by
  have hlen := hf.len
  have hroom : 1 + es.length * sfpSize + sfpSize ≤ f.len := by
    unfold sfpsMax sfpSize at *
    omega
  -- the bytes written are the record of the entry
  have hbytes : SfpInfo.image o { (toInfo e chksum).hton o with
      chksum := checksum (((toInfo e chksum).hton o).image o) } = record e := by
    rw [image_toInfo]
    exact image_toInfo o e (checksum (recordBody e))
  have hwrite : fwrite c f s.mem (1 + es.length * sfpSize) (record e) =
      ((sfpSize : Int), c.put s.mem (f.offset + (1 + es.length * sfpSize)) (record e)) := by
    have hw := fwrite_inside (c := c) (f := f) (m := s.mem)
      (by rw [record_length]; exact hroom : 1 + es.length * sfpSize + (record e).length ≤ f.len)
    have hstays : c.Stays (f.offset + (1 + es.length * sfpSize)) (record e).length :=
      stays_of_dvd hf.page (by rw [record_length]; unfold sfpsMax sfpSize pageSize at *; omega)
    rwa [record_length, store_eq_put hstays] at hw
  refine ⟨c.put s.mem (f.offset + (1 + es.length * sfpSize)) (record e), ?_, ?_, ?_⟩
  · rw [sfpEntry, if_neg (by decide)]
    simp [count_zero hf o h (Nat.le_of_lt hes), Nat.ne_of_lt hes, hbytes, hwrite]
  · intro i hi
    rw [length_append] at hi
    rcases Nat.lt_or_eq_of_le (Nat.le_of_lt_succ hi) with hlt | rfl
    · rw [getElem_append_left hlt, ← h.record i hlt]
      refine Mem.read_congr fun j hj => put_other (.inl ?_)
      unfold sfpSize at *
      omega
    · rw [getElem_append_right (Nat.le_refl _)]
      simp only [Nat.sub_self]
      have hcells : ∀ j < (record e).length,
          s.mem (f.offset + (1 + es.length * sfpSize) + j) = erased := by
        intro j hj
        rw [record_length] at hj
        rw [show f.offset + (1 + es.length * sfpSize) + j =
          f.offset + (1 + (es.length * sfpSize + j)) by omega]
        exact h.rest _ (le_add_right _ _) (by omega)
      have hall := read_put_erased (c := c) hcells
      rwa [record_length] at hall
  · intro j hj hin
    rw [length_append, length_singleton] at hj
    rw [put_other (.inr (by rw [record_length]; unfold sfpSize at *; omega))]
    exact h.rest j (by unfold sfpSize at *; omega) hin

end File

section Calls

variable {c : Chip} {o : Order} {f : File} {es : List SfpEntry} (hf : SfpFile c f)

include hf

theorem matchLoop_eq {m : Mem} (h : HoldsSfp f m es)
    (hes : es.length ≤ sfpsMax) (pn : PartNumber) (params : SfpParams) (chksum : Byte) :
    ∀ (fuel i : Nat) (s : SfpDb) (dbsfp : SfpInfo), s.mem = m → Counted s es i → i < es.length →
      es.length - i < fuel →
      matchLoop c o f (toInfo (pn, params) chksum) fuel i (if i = 0 then 1 else es.length) dbsfp s =
        match (es.drop i).find? (·.1 = pn) with
        | some e => (1, toInfo (pn, e.2) chksum, ⟨m, es.length⟩)
        | none => (0, toInfo (pn, params) chksum, ⟨m, es.length⟩)
  | 0, i, s, dbsfp, _, _, _, hfuel => by omega
  | fuel + 1, i, s, dbsfp, hm, hcount, hi, hfuel => by
    obtain ⟨mem, count⟩ := s
    subst hm
    have hgo : (i : Int) < if i = 0 then 1 else (es.length : Int) := by
      split <;> omega
    have hpos : ¬ ((es.length : Int) ≤ 0) := by omega
    rw [matchLoop, if_pos hgo]
    simp only [sfpEntry_get hf h hes hcount hi, hpos, strncmpEq_toInfo]
    rw [drop_eq_getElem_cons hi, List.find?_cons]
    by_cases heq : es[i].1 = pn
    · simp only [heq]
      rfl
    · simp only [heq, decide_false, Bool.false_eq_true, if_false]
      by_cases hlast : i + 1 < es.length
      · have hnext := matchLoop_eq h hes pn params chksum fuel (i + 1) ⟨mem, es.length⟩
          (toInfo es[i] (checksum (recordBody es[i]))) rfl (.inr rfl) hlast (by omega)
        exact hnext
      · -- the loop ends at the count
        rw [drop_eq_nil_of_le (Nat.le_of_not_lt hlast)]
        cases fuel with
        | zero => rfl
        | succ fuel =>
          rw [matchLoop, if_neg (by omega)]
          rfl

theorem storageMatchSfp_eq (h : HoldsSfp f s.mem es)
    (hes : es.length ≤ sfpsMax) (pn : PartNumber) (params : SfpParams) (chksum : Byte)
    (dbsfp : SfpInfo) :
    storageMatchSfp c o f s (toInfo (pn, params) chksum) dbsfp = match es.find? (·.1 = pn) with
      | some e => (1, toInfo (pn, e.2) chksum, ⟨s.mem, es.length⟩)
      | none => (0, toInfo (pn, params) chksum, ⟨s.mem, es.length⟩) := by
  cases es with
  | nil =>
    rw [storageMatchSfp, matchLoop]
    simp only [sfpEntry_get_empty hf h]
    rfl
  | cons e es =>
    have hfuel : (e :: es).length - 0 < sfpsMax + 1 := by omega
    exact matchLoop_eq hf h hes pn params chksum (sfpsMax + 1) 0 s dbsfp rfl (.inl rfl)
      (succ_pos _) hfuel

/-- The records an update reads, with the new parameters where the part number matches. -/
def updated (pn : PartNumber) (params : SfpParams) (e : SfpEntry) : SfpInfo :=
  toInfo (e.1, if e.1 = pn then params else e.2) (checksum (recordBody e))

theorem readLoop_eq {m : Mem} (h : HoldsSfp f m es)
    (hes : es.length ≤ sfpsMax) (pn : PartNumber) (params : SfpParams) (chksum : Byte)
    (garbage : SfpInfo) :
    ∀ (fuel i : Nat) (s : SfpDb) (acc : List SfpInfo), s.mem = m → Counted s es i →
      i < es.length → es.length - i < fuel →
      readLoop c o f (toInfo (pn, params) chksum) fuel i (if i = 0 then 1 else es.length) acc
          garbage s =
        (.inr (acc ++ (es.drop i).map (updated pn params)), ⟨m, es.length⟩)
  | 0, i, s, acc, _, _, _, hfuel => by omega
  | fuel + 1, i, s, acc, hm, hcount, hi, hfuel => by
    obtain ⟨mem, count⟩ := s
    subst hm
    have hgo : (i : Int) < if i = 0 then 1 else (es.length : Int) := by
      split <;> omega
    have hpos : ¬ ((es.length : Int) ≤ 0) := by omega
    have hentry : (if decide (es[i].1 = pn) = true then
        { toInfo es[i] (checksum (recordBody es[i])) with
          dTx := params.dTx, dRx := params.dRx, alpha := params.alpha }
        else toInfo es[i] (checksum (recordBody es[i]))) = updated pn params es[i] := by
      by_cases heq : es[i].1 = pn
      · rw [if_pos (decide_eq_true heq), updated, if_pos heq]
        rfl
      · rw [if_neg (by simpa using heq), updated, if_neg heq]
    rw [readLoop, if_pos hgo]
    simp only [sfpEntry_get hf h hes hcount hi, hpos, if_false, strncmpEq_toInfo]
    rw [drop_eq_getElem_cons hi, map_cons, ← hentry]
    by_cases hlast : i + 1 < es.length
    · have hnext := readLoop_eq h hes pn params chksum garbage fuel (i + 1) ⟨mem, es.length⟩
        (acc ++ [updated pn params es[i]]) rfl (.inr rfl) hlast (by omega)
      rw [append_assoc, ← hentry] at hnext
      exact hnext
    · rw [drop_eq_nil_of_le (Nat.le_of_not_lt hlast)]
      cases fuel with
      | zero => rfl
      | succ fuel =>
        rw [readLoop, if_neg (by omega)]
        rfl

theorem addLoop_eq : ∀ (rest : List (SfpEntry × Byte)) (es : List SfpEntry)
    (s : SfpDb), HoldsSfp f s.mem es → es.length + rest.length ≤ sfpsMax → rest ≠ [] →
    ∃ m', addLoop c o f (rest.map fun e => toInfo e.1 e.2) es.length s =
        (((es.length + rest.length : Nat) : Int), ⟨m', es.length + rest.length⟩) ∧
      HoldsSfp f m' (es ++ rest.map Prod.fst)
  | [], _, _, _, _, hne => absurd rfl hne
  | e :: rest, es, s, h, hlen, _ => by
    rw [length_cons] at hlen
    obtain ⟨m₁, hadd, h₁⟩ := sfpEntry_add (o := o) hf h (by omega) e.1 e.2
    have hpos : ¬ (((es.length + 1 : Nat) : Int) < 0) := by omega
    rw [map_cons, addLoop]
    simp only [hadd, hpos, if_false]
    cases rest with
    | nil => exact ⟨m₁, rfl, h₁⟩
    | cons e' rest =>
      have hes₁ : (es ++ [e.1]).length = es.length + 1 := by simp
      obtain ⟨m', hrun, h'⟩ := addLoop_eq (e' :: rest) (es ++ [e.1])
        ⟨m₁, es.length + 1⟩ h₁ (by rw [hes₁]; omega) (cons_ne_nil _ _)
      rw [hes₁] at hrun
      refine ⟨m', ?_, ?_⟩
      · rw [hrun, show es.length + 1 + (e' :: rest).length =
          es.length + (e :: e' :: rest).length by simp only [length_cons]; omega]
      · rwa [append_assoc] at h'

theorem storageSfpdbErase_eq (s : SfpDb) :
    ∃ m', storageSfpdbErase c f s = (0, ⟨m', s.sfpcount⟩) ∧ HoldsSfp f m' [] := by
  refine ⟨(ferase c f s.mem 0 f.len).2, ?_, ⟨fun i hi => absurd hi (not_lt_zero i), ?_⟩⟩
  · have hret : (ferase c f s.mem 0 f.len).1 = f.len := if_neg (by omega)
    simp [storageSfpdbErase, hret]
  · exact fun j _ hj => hf.erase s.mem (1 + j) hj

omit hf in
theorem storageUpdateSfp_of_read {s₁ s₂ : SfpDb} {sfp garbage : SfpInfo} {entries : List SfpInfo}
    (hread : readLoop c o f sfp (sfpsMax + 1) 0 1 [] garbage s = (.inr entries, s₁))
    (herase : storageSfpdbErase c f s₁ = (0, s₂)) :
    storageUpdateSfp c o f s sfp garbage = addLoop c o f entries 0 s₂ := by
  have herr : ¬ (0 : Int) = retI2cErr := by decide
  rw [storageUpdateSfp, hread, rewriteSfps]
  simp [herase, herr]

theorem storageUpdateSfp_eq (h : HoldsSfp f s.mem es)
    (hes : es.length ≤ sfpsMax) (hne : es ≠ []) (pn : PartNumber) (params : SfpParams)
    (chksum : Byte) (garbage : SfpInfo) :
    ∃ m', storageUpdateSfp c o f s (toInfo (pn, params) chksum) garbage =
        ((es.length : Int), ⟨m', es.length⟩) ∧
      HoldsSfp f m' (BMap.replaced es pn params) := by
  have hpos : 0 < es.length := List.length_pos_iff.mpr hne
  have hread := readLoop_eq (o := o) hf h hes pn params chksum garbage (sfpsMax + 1) 0 s [] rfl
    (.inl rfl) hpos (by omega)
  obtain ⟨m₁, herase, h₁⟩ := storageSfpdbErase_eq hf ⟨s.mem, es.length⟩
  -- the entries as the last loop gets them
  have hinfo : es.map (updated pn params) =
      (es.map fun e => (((e.1, if e.1 = pn then params else e.2) : SfpEntry),
        checksum (recordBody e))).map (fun e => toInfo e.1 e.2) := by
    rw [map_map]
    rfl
  obtain ⟨m', hadd, h'⟩ := addLoop_eq (o := o) hf
    (es.map fun e => (((e.1, if e.1 = pn then params else e.2) : SfpEntry),
      checksum (recordBody e))) [] ⟨m₁, es.length⟩ h₁ (by simpa using hes) (by simpa using hne)
  simp only [length_nil, zero_add, length_map, ← hinfo] at hadd
  rw [map_map] at h'
  exact ⟨m', (storageUpdateSfp_of_read hread herase).trans hadd, h'⟩

section Put

variable {s : SfpDb} {b : BMap PartNumber SfpParams sfpsMax}
  (h : HoldsSfp f s.mem b.entries) {pn : PartNumber} (params : SfpParams) (chksum : Byte)
  (garbage : SfpInfo)

include h

theorem storageAddSfp_old (hold : pn ∈ b.keys) :
    ∃ m', storageAddSfp c o f s (toInfo (pn, params) chksum) garbage =
        ((b.entries.length : Int), ⟨m', b.entries.length⟩) ∧
      HoldsSfp f m' (BMap.replaced b.entries pn params) := by
  obtain ⟨e, hfind⟩ := BMap.find?_of_mem_keys hold
  have hmatch := storageMatchSfp_eq (o := o) hf h b.le_cap pn params chksum garbage
  rw [hfind] at hmatch
  obtain ⟨m', hupd, h'⟩ := storageUpdateSfp_eq (o := o) hf (s := ⟨s.mem, b.entries.length⟩)
    h b.le_cap (ne_nil_of_mem (List.mem_of_find?_eq_some hfind)) pn params chksum garbage
  refine ⟨m', ?_, h'⟩
  rw [storageAddSfp, hmatch]
  exact hupd

theorem storageAddSfp_new (hnew : pn ∉ b.keys) :
    storageAddSfp c o f s (toInfo (pn, params) chksum) garbage =
      ((sfpEntry c o f ⟨s.mem, b.entries.length⟩ (toInfo (pn, params) chksum) .add 0).1,
        (sfpEntry c o f ⟨s.mem, b.entries.length⟩ (toInfo (pn, params) chksum) .add 0).2.2) := by
  have hmatch := storageMatchSfp_eq (o := o) hf h b.le_cap pn params chksum garbage
  rw [BMap.find?_of_not_mem_keys hnew] at hmatch
  rw [storageAddSfp, hmatch]
  rfl

theorem storageAddSfp_room (hnew : pn ∉ b.keys) (hroom : b.entries.length < sfpsMax) :
    ∃ m', storageAddSfp c o f s (toInfo (pn, params) chksum) garbage =
        (((b.entries.length + 1 : Nat) : Int), ⟨m', b.entries.length + 1⟩) ∧
      HoldsSfp f m' (b.entries ++ [(pn, params)]) := by
  obtain ⟨m', hadd, h'⟩ := sfpEntry_add (o := o) hf (s := ⟨s.mem, b.entries.length⟩) h
    hroom (pn, params) chksum
  refine ⟨m', ?_, h'⟩
  rw [storageAddSfp_new hf h params chksum garbage hnew, hadd]

theorem storageAddSfp_full (hnew : pn ∉ b.keys) (hfull : b.entries.length = sfpsMax) :
    storageAddSfp c o f s (toInfo (pn, params) chksum) garbage =
      (retDbFull, ⟨s.mem, b.entries.length⟩) := by
  rw [storageAddSfp_new hf h params chksum garbage hnew,
    sfpEntry_add_full (o := o) hf (s := ⟨s.mem, b.entries.length⟩) h hfull]

/-- **A call of `storage_get_sfp(SFP_ADD)` is a `put`.** -/
theorem storageAddSfp_refines (pn : PartNumber) :
    HoldsSfp f (storageAddSfp c o f s (toInfo (pn, params) chksum) garbage).2.mem
      (b.put pn params).entries := by
  by_cases hold : pn ∈ b.keys
  · obtain ⟨m', hcall, h'⟩ := storageAddSfp_old hf h params chksum garbage hold
    rw [hcall, BMap.put_old hold]
    exact h'
  · by_cases hroom : b.entries.length < sfpsMax
    · obtain ⟨m', hcall, h'⟩ := storageAddSfp_room hf h params chksum garbage hold hroom
      rw [hcall, BMap.put_new hold hroom]
      exact h'
    · have hfull := Nat.le_antisymm b.le_cap (Nat.le_of_not_lt hroom)
      rw [storageAddSfp_full hf h params chksum garbage hold hfull, BMap.put_full hold hroom]
      exact h

end Put

end Calls

/-! ## Call after call -/

/-- A call: the entry, what its `chksum` holds, and what the locals of the callee hold. -/
structure SfpCall where
  entry : SfpEntry
  chksum : Byte
  garbage : SfpInfo

/-- `storage_get_sfp(SFP_ADD)` with the arguments of a call. -/
def SfpCall.exec (c : Chip) (o : Order) (f : File) (s : SfpDb) (call : SfpCall) : Int × SfpDb :=
  storageAddSfp c o f s (toInfo call.entry call.chksum) call.garbage

def addSfps (c : Chip) (o : Order) (f : File) (s : SfpDb) (calls : List SfpCall) : SfpDb :=
  calls.foldl (fun s call => (call.exec c o f s).2) s

def sfpMap (calls : List SfpCall) : BMap PartNumber SfpParams sfpsMax :=
  BMap.putAll (calls.map SfpCall.entry)

section Run

variable {c : Chip} {o : Order} {f : File} {s : SfpDb}

theorem addSfps_holds (hf : SfpFile c f) (hblank : ∀ j < f.len, s.mem (f.offset + j) = erased)
    (calls : List SfpCall) : HoldsSfp f (addSfps c o f s calls).mem (sfpMap calls).entries := by
  induction calls using List.reverseRecOn with
  | nil => exact ⟨fun i hi => absurd hi (not_lt_zero i), fun _ _ hj => hblank _ hj⟩
  | append_singleton calls call ih =>
    rw [addSfps, foldl_append, sfpMap, map_append, map_singleton, BMap.putAll_concat]
    exact storageAddSfp_refines hf ih call.entry.2 call.chksum call.garbage call.entry.1

/-- **The SFP database is a bounded map.**  After any calls of `storage_get_sfp(SFP_ADD)` on an
erased file, the file holds the records of the first four part numbers in the order of their
first insertion.  Another call replaces the parameters of a part number that is there, or
appends a record, or returns that the database is full and changes nothing.
`storage_match_sfp` finds the parameters added last, or nothing if the part number is not
there. -/
theorem addSfps_refines (hf : SfpFile c f) (hblank : ∀ j < f.len, s.mem (f.offset + j) = erased)
    (calls : List SfpCall) :
    let db := addSfps c o f s calls
    let b := sfpMap calls
    HoldsSfp f db.mem b.entries ∧
      b.keys = (BMap.firsts (calls.map fun call => call.entry.1)).take sfpsMax ∧
      (∀ pn ∈ b.keys, pn ∈ calls.map fun call => call.entry.1) ∧
      (∀ call : SfpCall, let r := call.exec c o f db
        (call.entry.1 ∈ b.keys → r.1 = b.entries.length ∧
          HoldsSfp f r.2.mem (BMap.replaced b.entries call.entry.1 call.entry.2)) ∧
        (call.entry.1 ∉ b.keys → b.entries.length < sfpsMax → r.1 = b.entries.length + 1 ∧
          HoldsSfp f r.2.mem (b.entries ++ [call.entry])) ∧
        (call.entry.1 ∉ b.keys → b.entries.length = sfpsMax → r.1 = retDbFull ∧ r.2.mem = db.mem)) ∧
      ∀ (pn : PartNumber) (params : SfpParams) (chksum : Byte) (dbsfp : SfpInfo),
        let r := storageMatchSfp c o f db (toInfo (pn, params) chksum) dbsfp
        r.2.2.mem = db.mem ∧
        (pn ∈ b.keys → ∃ found, BMap.lastPut (calls.map SfpCall.entry) pn = some found ∧
          r.1 = 1 ∧ r.2.1 = toInfo (pn, found) chksum) ∧
        (pn ∉ b.keys → r.1 = 0 ∧ r.2.1 = toInfo (pn, params) chksum) := by
  intro db b
  have h : HoldsSfp f db.mem b.entries := addSfps_holds hf hblank calls
  have hkeys : b.keys = _ := BMap.keys_putAll (calls.map SfpCall.entry)
  rw [map_map] at hkeys
  refine ⟨h, hkeys, fun pn hpn => ?_,
    fun call => ⟨fun hold => ?_, fun hnew hroom => ?_, fun hnew hfull => ?_⟩,
    fun pn params chksum dbsfp => ?_⟩
  · have hput := BMap.mem_of_mem_keys_putAll (calls.map SfpCall.entry) pn hpn
    rwa [map_map] at hput
  · obtain ⟨m', hcall, h'⟩ := storageAddSfp_old hf h call.entry.2 call.chksum
      call.garbage hold
    rw [SfpCall.exec, hcall]
    exact ⟨rfl, h'⟩
  · obtain ⟨m', hcall, h'⟩ := storageAddSfp_room hf h call.entry.2 call.chksum
      call.garbage hnew hroom
    rw [SfpCall.exec, hcall]
    exact ⟨rfl, h'⟩
  · rw [SfpCall.exec, storageAddSfp_full hf h call.entry.2 call.chksum call.garbage hnew hfull]
    exact ⟨rfl, rfl⟩
  · have hmatch := storageMatchSfp_eq (o := o) hf h b.le_cap pn params chksum dbsfp
    by_cases hold : pn ∈ b.keys
    · obtain ⟨e, hfind⟩ := BMap.find?_of_mem_keys hold
      have hlast : BMap.lastPut (calls.map SfpCall.entry) pn = some e.2 := by
        rw [← BMap.find_putAll _ pn hold]
        exact congrArg (Option.map Prod.snd) hfind
      rw [hfind] at hmatch
      rw [hmatch]
      exact ⟨rfl, fun _ => ⟨e.2, hlast, rfl, rfl⟩, fun hnew => absurd hold hnew⟩
    · rw [BMap.find?_of_not_mem_keys hold] at hmatch
      rw [hmatch]
      exact ⟨rfl, fun hold' => absurd hold' hold, fun _ => ⟨rfl, rfl⟩⟩

def pnA : PartNumber := ⟨fun _ => 0x41, by decide⟩

def blankInfo : SfpInfo := ⟨fun _ => 0, 0, 0, 0, 0⟩

def callsA : List SfpCall := [⟨(pnA, ⟨1, 2, 3⟩), 0, blankInfo⟩, ⟨(pnA, ⟨4, 5, 6⟩), 0, blankInfo⟩]

/-- On a flash of 64 KiB sectors the second call for a part number tells what is found. -/
theorem addSfps_refines_flash : (storageMatchSfp (.flash (2 ^ 16) (by decide)) .little ⟨2 ^ 16, 256⟩
      (addSfps (.flash (2 ^ 16) (by decide)) .little ⟨2 ^ 16, 256⟩ ⟨fun _ => erased, 0⟩ callsA)
      (toInfo (pnA, ⟨0, 0, 0⟩) 0) blankInfo).2.1 = toInfo (pnA, ⟨4, 5, 6⟩) 0 := by
  have hf : SfpFile (.flash (2 ^ 16) (by decide)) ⟨2 ^ 16, 256⟩ :=
    .of_dvd (by decide) (dvd_refl _)
  obtain ⟨-, -, -, -, hmatch⟩ := addSfps_refines (o := .little) (s := ⟨fun _ => erased, 0⟩) hf
    (fun _ _ => rfl) callsA
  have hkey : pnA ∈ (sfpMap callsA).keys := by decide
  obtain ⟨found, hfound, -, hr⟩ := (hmatch pnA ⟨0, 0, 0⟩ 0 blankInfo).2.1 hkey
  have hlast : BMap.lastPut (callsA.map SfpCall.entry) pnA = some ⟨4, 5, 6⟩ := by decide
  rw [hr, Option.some.inj (hfound.symm.trans hlast)]

end Run

end Wrpc.Storage
