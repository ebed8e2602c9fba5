/-
# What a SET leaves in the variables (`snmp.c`)

`set_value` copies the value of a request into the variable of an object, behind a check of its
type and length.  The variables lie in one memory here, so that a store behind the end of one is
a store into the next.

An integer is taken from one to four bytes, in network order.  The bytes that are missing are
taken as zeros, whatever the sign (`setVar_integer`), so a SET and a GET agree for some numbers
only (`setVar_get_iff`).

Whether a SET leaves the other objects alone (`setVar_frame_iff`) is a question of two strings.  The
string that is set gets its terminator even where it fills the variable.  And `get_value` does not
look at `data_size`: a string that fills its variable is read on into the next one, up to 31 bytes,
so that a SET of that one changes it.
-/
import Wrpc.Net.SnmpSearch
import Wrpc.Storage.SfpMap

namespace Wrpc.Snmp

open BitVec Bytes Mem List Nat

open Storage (hton)

/-- The number that some bytes are in two's complement, the most significant first. -/
def berValue (bytes : List Byte) : Int :=
  Int.bmod (Bytes.ofImage .big bytes) (256 ^ bytes.length)

def berLen (v : Int) : Nat :=
  if -2 ^ 7 ≤ v ∧ v < 2 ^ 7 then 1
  else if -2 ^ 15 ≤ v ∧ v < 2 ^ 15 then 2
  else if -2 ^ 23 ≤ v ∧ v < 2 ^ 23 then 3
  else 4

def berInt (v : BitVec 32) : List Byte :=
  Bytes.imageOf .big (berLen v.toInt) (v.toInt % 256 ^ berLen v.toInt).toNat

theorem berLen_le (v : Int) : berLen v ≤ 4 := by
  unfold berLen
  split_ifs <;> decide

theorem ofImage_berInt (v : BitVec 32) :
    (Bytes.ofImage .big (berInt v) : Int) = v.toInt % 256 ^ berLen v.toInt := by
  have hpos : (0 : Int) < 256 ^ berLen v.toInt := Int.pow_pos (by decide)
  have hlt : (v.toInt % 256 ^ berLen v.toInt).toNat < 256 ^ berLen v.toInt := by
    have := Int.emod_lt_of_pos v.toInt hpos
    rw [Int.toNat_lt (Int.emod_nonneg _ hpos.ne')]
    exact_mod_cast this
  rw [berInt, ofImage_imageOf .big hlt, Int.toNat_of_nonneg (Int.emod_nonneg _ hpos.ne')]

/-- The variable of an object: its type, `data_size`, and where it lies. -/
structure Var where
  asn : Asn
  dataSize : Nat
  p : Nat
deriving DecidableEq, Repr

/-- `set_value` for a request at `off`, with the variables in `vars`; `set_p` and `set_pp` call
it with the address. -/
def setVar (o : Order) (x : Var) (off : Nat) (m vars : Mem) : Int × Mem :=
  let len := (m (off + 1)).toNat
  let data := m.read (off + 2) len
  if m off ≠ x.asn.code then (-errBadValue, vars)
  else match x.asn with
    | .unsigned | .integer =>
      if 4 < len then (-errBadValue, vars)
      else
        let tmp := BitVec.ofNat 32 (Bytes.ofImage o (data ++ List.replicate (4 - len) 0))
        let tmp := hton o 4 tmp >>> ((4 - len) * 8)
        (len + 2, vars.write x.p (Bytes.imageOf o 4 tmp.toNat))
    | .octetStr =>
      if x.dataSize < len then (-errBadValue, vars)
      else (len + 2, (vars.write x.p data).set (x.p + len) 0)
    | .ipAddress =>
      if len ≠ 4 then (-errBadValue, vars) else (len + 2, vars.write x.p data)
    | .counter | .timeticks | .counter64 => (0, vars)

/-- A number of `n` bytes, as `*(uint32_t *)p` reads it. -/
def Var.word (o : Order) (x : Var) (vars : Mem) (n : Nat) : BitVec (8 * n) :=
  BitVec.ofNat (8 * n) (Bytes.ofImage o (vars.read x.p n))

/-- What `get_value` copies into the answer: numbers in network order, the rest as it is. -/
def Var.wire (o : Order) (x : Var) (vars : Mem) : Mem :=
  let number (n : Nat) : Mem := fun j =>
    (Bytes.imageOf o n (hton o n (x.word o vars n)).toNat).getD j 0
  match x.asn with
  | .integer | .counter | .unsigned | .timeticks => number 4
  | .counter64 => number 8
  | .octetStr | .ipAddress => fun j => vars (x.p + j)

/-- `get_p` and `get_pp`. -/
def getVar (o : Order) (version : Byte) (x : Var) (vars : Mem) (off : Nat) (m : Mem) : Int × Mem :=
  getValue version x.asn (x.wire o vars) off m

/-! ## A SET and a GET of an integer -/

section Integer

variable {o : Order} {x : Var} {off : Nat} {m : Mem}

theorem toNat_shifted {data : List Byte} (hlen : data.length ≤ 4) :
    (hton o 4 (BitVec.ofNat 32 (Bytes.ofImage o (data ++ List.replicate (4 - data.length) 0))) >>>
      ((4 - data.length) * 8)).toNat = Bytes.ofImage .big data := by
  have hbytes : (data ++ List.replicate (4 - data.length) 0).length = 4 := by
    rw [length_append, length_replicate]
    omega
  have hword := Storage.toNat_hton_ofImage o hbytes
  rw [toNat_ushiftRight, shiftRight_eq_div_pow]
  have hpow : 2 ^ ((4 - data.length) * 8) = 256 ^ (4 - data.length) := by
    rw [Nat.mul_comm, Nat.pow_mul]
  rw [hpow]
  refine Nat.div_eq_of_eq_mul_right (Nat.pow_pos (by decide)) ?_
  rw [← ofImage_big_append_zeros]
  exact hword

theorem setVar_integer (hasn : x.asn = .integer) {data : List Byte} (hlen : data.length ≤ 4)
    (hreq : m.read off (data.length + 2) = x.asn.code :: BitVec.ofNat 8 data.length :: data)
    (vars : Mem) :
    setVar o x off m vars =
      ((data.length : Int) + 2, vars.write x.p (Bytes.imageOf o 4 (Bytes.ofImage .big data))) := by
  obtain ⟨hcode, hrest⟩ := List.cons.inj hreq
  obtain ⟨hbyte, hdata⟩ := List.cons.inj hrest
  have hsize : (m (off + 1)).toNat = data.length := by
    rw [hbyte, toNat_ofNat]
    exact mod_eq_of_lt (by omega)
  have hdata' : m.read (off + 2) data.length = data := hdata
  rw [setVar]
  simp only [hcode, ne_eq, not_true_eq_false, if_false, hasn, hsize, hdata', toNat_shifted hlen,
    if_neg (not_lt.mpr hlen)]

theorem word_write {n : Nat} (hn : n < 2 ^ 32) (vars : Mem) :
    x.word o (vars.write x.p (Bytes.imageOf o 4 n)) 4 = BitVec.ofNat 32 n := by
  have hread : (vars.write x.p (Bytes.imageOf o 4 n)).read x.p 4 = Bytes.imageOf o 4 n := by
    have hwrite := read_write vars x.p (Bytes.imageOf o 4 n)
    rwa [imageOf_length] at hwrite
  rw [Var.word, hread, ofImage_imageOf o hn]

theorem getVar_integer (hasn : x.asn = .integer) (version : Byte) (vars : Mem) (off : Nat)
    (m : Mem) :
    berValue ((getVar o version x vars off m).2.read (off + 2) 4) = (x.word o vars 4).toInt := by
  have hav : available version .integer = true := rfl
  obtain ⟨m', hget, hvalue, -⟩ := getValue_available hav (x.wire o vars) off m
  have hdata : asnData .integer (x.wire o vars) =
      Bytes.imageOf .big 4 (x.word o vars 4).toNat := by
    have hnumber : (x.wire o vars).read 0 4 =
        Bytes.imageOf o 4 (hton o 4 (x.word o vars 4)).toNat := by
      have hbytes : (x.wire o vars).read 0
          (Bytes.imageOf o 4 (hton o 4 (x.word o vars 4)).toNat).length =
            Bytes.imageOf o 4 (hton o 4 (x.word o vars 4)).toNat :=
        read_eq_of fun i _ => by simp [Var.wire, hasn]
      rwa [imageOf_length] at hbytes
    rw [asnData, hnumber, Storage.imageOf_hton]
  have hfour : m'.read (off + 2) 4 = Bytes.imageOf .big 4 (x.word o vars 4).toNat := by
    rw [tlv, hdata, length_cons, length_cons, imageOf_length] at hvalue
    exact (List.cons.inj (List.cons.inj hvalue).2).2
  rw [getVar, hasn, hget]
  rw [hfour, berValue, imageOf_length, ofImage_imageOf .big (x.word o vars 4).isLt,
    toInt_eq_toNat_bmod]
  rfl

/-- The bytes of an encoding, without a sign, are the number again if it is not negative, or if
none of the four bytes is left out. -/
theorem toInt_ofImage_berInt (v : BitVec 32) :
    BitVec.ofNat 32 (Bytes.ofImage .big (berInt v)) = v ↔ 0 ≤ v.toInt ∨ v.toInt < -2 ^ 23 := by
  have hlow := le_toInt v
  have hhigh := toInt_lt (x := v)
  have hbytes := ofImage_berInt v
  rw [← toInt_inj, toInt_ofNat', hbytes, Int.bmod_def]
  unfold berLen
  split_ifs <;> omega

/-- A number that is set is stored and read back, if and only if it is not negative or needs all
four bytes. -/
theorem setVar_get_iff (o : Order) (version : Byte) (x : Var) (hasn : x.asn = .integer)
    (v : BitVec 32) (off off' : Nat) (m m' vars : Mem)
    (hreq : m.read off ((berInt v).length + 2) =
      x.asn.code :: BitVec.ofNat 8 (berInt v).length :: berInt v) :
    let r := setVar o x off m vars
    r.1 = (berInt v).length + 2 ∧
      (x.word o r.2 4 = v ∧
          berValue ((getVar o version x r.2 off' m').2.read (off' + 2) 4) = v.toInt ↔
        0 ≤ v.toInt ∨ v.toInt < -2 ^ 23) := by
  intro r
  have hlen : (berInt v).length ≤ 4 := by
    rw [berInt, imageOf_length]
    exact berLen_le v.toInt
  have hlt : Bytes.ofImage .big (berInt v) < 2 ^ 32 :=
    lt_of_lt_of_le (ofImage_lt .big _)
      (Nat.pow_le_pow_right (by decide) hlen : 256 ^ (berInt v).length ≤ 256 ^ 4)
  have hr : r = _ := setVar_integer hasn hlen hreq vars
  refine ⟨congrArg Prod.fst hr, ?_⟩
  have hword : x.word o r.2 4 = BitVec.ofNat 32 (Bytes.ofImage .big (berInt v)) := by
    rw [hr]
    exact word_write hlt vars
  rw [getVar_integer hasn, ← toInt_ofImage_berInt, hword]
  exact ⟨fun h => h.1, fun h => ⟨h, congrArg BitVec.toInt h⟩⟩

/-- A request with `data` for an integer. -/
def intRequest (data : List Byte) : Mem := fun j =>
  (Asn.integer.code :: BitVec.ofNat 8 data.length :: data).getD j 0

def anInteger : Var := ⟨.integer, 4, 0⟩

theorem setVar_get_small :
    anInteger.word .big (setVar .big anInteger 0 (intRequest [5]) fun _ => 0).2 4 = 5 := by
  have h := setVar_get_iff .big 1 anInteger rfl 5 0 0 (intRequest [5]) (fun _ => 0) (fun _ => 0)
    (by decide +kernel)
  exact (h.2.mpr (.inl (by decide))).1

/-- A SET of -1 stores 255. -/
theorem setVar_minusOne :
    berInt (-1) = [0xff] ∧
      anInteger.word .big (setVar .big anInteger 0 (intRequest [0xff]) fun _ => 0).2 4 = 255 := by
  decide +kernel

end Integer

/-- The bytes of a variable: four of a number or an address, `data_size` of a string. -/
def Var.width (x : Var) : Nat :=
  match x.asn with
  | .octetStr => x.dataSize
  | .counter64 => 8
  | .integer | .counter | .unsigned | .timeticks | .ipAddress => 4

/-- The answer to a GET: type, length and value. -/
def Var.answer (o : Order) (version : Byte) (x : Var) (vars : Mem) (off : Nat) (m : Mem) :
    List Byte :=
  let r := getVar o version x vars off m
  r.2.read off r.1.toNat

/-- The bytes that a GET looks at: of a string those before the terminator and the terminator, not
more than 31. -/
def Var.reads (x : Var) (vars : Mem) : Nat :=
  match x.asn with
  | .octetStr => min maxStrLen ((vars.cstr maxStrLen x.p).length + 1)
  | .counter64 => 8
  | .integer | .counter | .unsigned | .timeticks | .ipAddress => 4

/-- The bytes that `set_value` stores in the variable. -/
def Var.stored (o : Order) (x : Var) (off : Nat) (m : Mem) : List Byte :=
  let data := m.read (off + 2) (m (off + 1)).toNat
  match x.asn with
  | .octetStr => data ++ [0]
  | .integer | .unsigned => Bytes.imageOf o 4 (Bytes.ofImage .big data)
  | .ipAddress | .counter | .timeticks | .counter64 => data

def Var.Apart (x y : Var) : Prop := x.p + x.width ≤ y.p ∨ y.p + y.width ≤ x.p
deriving Decidable

section Answer

variable {o : Order} {x : Var} {vars vars' : Mem}

theorem number_inj {n : Nat} {a b : List Byte} (ha : a.length = n) (hb : b.length = n)
    (h : Bytes.imageOf .big n (BitVec.ofNat (8 * n) (Bytes.ofImage o a)).toNat =
      Bytes.imageOf .big n (BitVec.ofNat (8 * n) (Bytes.ofImage o b)).toNat) : a = b := by
  have hword (l : List Byte) (hl : l.length = n) :
      (BitVec.ofNat (8 * n) (Bytes.ofImage o l)).toNat = Bytes.ofImage o l ∧
        Bytes.ofImage o l < 256 ^ n := by
    have hlt := ofImage_lt o l
    rw [hl] at hlt
    refine ⟨?_, hlt⟩
    rw [toNat_ofNat, Nat.pow_mul]
    exact mod_eq_of_lt hlt
  rw [(hword a ha).1, (hword b hb).1] at h
  have hvalue := congrArg (Bytes.ofImage .big) h
  rw [ofImage_imageOf .big (hword a ha).2, ofImage_imageOf .big (hword b hb).2] at hvalue
  rw [← imageOf_ofImage o a, ← imageOf_ofImage o b, ha, hb, hvalue]

theorem cstr_shift (m : Mem) (p : Nat) :
    ∀ fuel i, Mem.cstr (fun j => m (p + j)) fuel i = m.cstr fuel (p + i)
  | 0, _ => rfl
  | fuel + 1, i => by rw [Mem.cstr, Mem.cstr, cstr_shift m p fuel, ← add_assoc]

/-- A GET returns the same if and only if the bytes it looks at are the same. -/
theorem asnData_wire_eq_iff :
    asnData x.asn (x.wire o vars') = asnData x.asn (x.wire o vars) ↔
      ∀ i, i < x.reads vars → vars' (x.p + i) = vars (x.p + i) := by
  -- a number is what its bytes are, in one order or the other
  have hnumber (n : Nat) (v : Mem) : Mem.read (fun j =>
        (Bytes.imageOf o n (hton o n (x.word o v n)).toNat).getD j 0) 0 n =
          Bytes.imageOf .big n (x.word o v n).toNat := by
    have hread := @read_eq_of (fun j =>
        (Bytes.imageOf o n (hton o n (x.word o v n)).toNat).getD j 0)
      (Bytes.imageOf o n (hton o n (x.word o v n)).toNat) 0 fun i _ => by rw [zero_add]
    rw [imageOf_length] at hread
    rw [hread, Storage.imageOf_hton]
  have hsame (n : Nat) : Bytes.imageOf .big n (x.word o vars' n).toNat =
      Bytes.imageOf .big n (x.word o vars n).toNat ↔
        ∀ i, i < n → vars' (x.p + i) = vars (x.p + i) := by
    rw [← read_eq_read_iff]
    refine ⟨fun h => number_inj (read_length ..) (read_length ..) h, fun h => ?_⟩
    rw [Var.word, Var.word, h]
  cases hasn : x.asn <;> simp only [asnData, Var.wire, Var.reads, hasn]
  case octetStr =>
    rw [cstr_shift, cstr_shift, cstr_eq_iff]
    simp only [add_zero]
  case ipAddress =>
    rw [read_eq_read_iff]
    simp only [zero_add]
  case counter64 => rw [hnumber, hnumber, hsame]
  case integer | counter | unsigned | timeticks => rw [hnumber, hnumber, hsame]

theorem getVar_answer {version : Byte} (h : available version x.asn = true) (off : Nat)
    (m : Mem) : x.answer o version vars off m = tlv x.asn (x.wire o vars) := by
  obtain ⟨m', hget, hvalue, -⟩ := getValue_available h (x.wire o vars) off m
  rw [Var.answer, getVar, hget]
  exact hvalue

theorem getVar_answer_iff :
    (∀ version off m, x.answer o version vars' off m = x.answer o version vars off m) ↔
      ∀ i, i < x.reads vars → vars' (x.p + i) = vars (x.p + i) := by
  rw [← asnData_wire_eq_iff (o := o)]
  constructor
  · intro h
    have hav : available 1 x.asn = true := by cases x.asn <;> rfl
    have := h 1 0 fun _ => 0
    rw [getVar_answer hav, getVar_answer hav, tlv, tlv] at this
    exact (List.cons.inj (List.cons.inj this).2).2
  · intro h version off m
    cases hav : available version x.asn with
    | true => rw [getVar_answer hav, getVar_answer hav, tlv, tlv, h]
    | false =>
      rw [Var.answer, Var.answer, getVar, getVar, getValue_unavailable hav,
        getValue_unavailable hav]

/-- Only a string is read beyond its variable. -/
theorem reads_le_width (h : x.asn ≠ .octetStr) : x.reads vars ≤ x.width := by
  unfold Var.reads Var.width
  split <;> simp_all

end Answer

section Frame

variable {o : Order} {x : Var} {off : Nat} {m vars : Mem}

/-- What an accepted value is stored with, and how many bytes that are: all of the variable, or up
to one more than it has. -/
theorem setVar_stores (h : 0 < (setVar o x off m vars).1) :
    (setVar o x off m vars).2 = vars.write x.p (x.stored o off m) ∧
      ((x.asn = .octetStr ∧ x.width = x.dataSize ∧ (m (off + 1)).toNat ≤ x.dataSize ∧
        (x.stored o off m).length = (m (off + 1)).toNat + 1 ∧
        (x.stored o off m).getD (m (off + 1)).toNat 0 = 0) ∨
      (x.asn ≠ .octetStr ∧ (x.stored o off m).length = x.width)) := by
  have hbad : ¬ 0 < -errBadValue := by decide
  obtain ⟨asn, dataSize, p⟩ := x
  by_cases hcode : m off ≠ asn.code
  · simp only [setVar, if_pos hcode] at h
    exact absurd h hbad
  cases asn <;> simp only [setVar, if_neg hcode, Var.width, Var.stored] at h ⊢
  case integer | unsigned =>
    by_cases hlen : 4 < (m (off + 1)).toNat
    · rw [if_pos hlen] at h
      exact absurd h hbad
    · rw [if_neg hlen]
      have hshift := @toNat_shifted o (m.read (off + 2) (m (off + 1)).toNat)
        (by rw [read_length]; omega)
      rw [read_length] at hshift
      exact ⟨by rw [hshift], .inr ⟨Asn.noConfusion, imageOf_length _ _ _⟩⟩
  case octetStr =>
    by_cases hlen : dataSize < (m (off + 1)).toNat
    · rw [if_pos hlen] at h
      exact absurd h hbad
    · rw [if_neg hlen, write_concat, length_append, read_length]
      refine ⟨rfl, .inl ⟨trivial, trivial, Nat.le_of_not_lt hlen, rfl, ?_⟩⟩
      simp [getD]
  case ipAddress =>
    by_cases hlen : (m (off + 1)).toNat ≠ 4
    · rw [if_pos hlen] at h
      exact absurd h hbad
    · rw [if_neg hlen]
      exact ⟨rfl, .inr ⟨Asn.noConfusion, (read_length _ _ _).trans (not_not.mp hlen)⟩⟩
  case counter | timeticks | counter64 => exact absurd h (Int.lt_irrefl 0)

/-- The bytes outside the variable are kept, unless it is a string that fills it: then the byte
behind it becomes 0. -/
theorem setVar_outside_iff (h : 0 < (setVar o x off m vars).1) :
    (∀ j, j < x.p ∨ x.p + x.width ≤ j → (setVar o x off m vars).2 j = vars j) ↔
      ¬ (x.asn = .octetStr ∧ (m (off + 1)).toNat = x.dataSize ∧
        vars (x.p + x.dataSize) ≠ 0) := by
  obtain ⟨hstore, ⟨hasn, hwidth, hle, hlen, hend⟩ | ⟨hasn, hlen⟩⟩ := setVar_stores h
  · rw [hstore, hwidth]
    constructor
    · rintro hframe ⟨-, hfull, hne⟩
      have hbehind := hframe (x.p + x.dataSize) (.inr (Nat.le_refl _))
      rw [write_at (by omega), ← hfull, hend, hfull] at hbehind
      exact hne hbehind.symm
    · intro hnot j hj
      by_cases hin : x.p ≤ j ∧ j < x.p + (x.stored o off m).length
      · -- the terminator lies outside only if the string fills the variable
        have hfull : (m (off + 1)).toNat = x.dataSize := by omega
        have hzero : vars (x.p + x.dataSize) = 0 := by
          by_contra hne
          exact hnot ⟨hasn, hfull, hne⟩
        obtain rfl : j = x.p + x.dataSize := by omega
        rw [write_at (by omega), ← hfull, hend, hfull, hzero]
      · exact write_other (by omega)
  · rw [hstore]
    refine ⟨fun _ hbad => hasn hbad.1, fun _ j hj => ?_⟩
    exact write_other (by rwa [hlen])

/-- **What a SET leaves alone.**  Nothing outside its variable changes, and a GET of each of the
other objects returns what it did, if and only if the value is not a string that fills the variable
with a byte behind it that is not 0, and no other string is read into a byte of the variable that
gets another value. -/
theorem setVar_frame_iff (o : Order) (x : Var) (off : Nat) (m vars : Mem) (others : List Var)
    (hothers : ∀ y ∈ others, x.Apart y) (h : 0 < (setVar o x off m vars).1) :
    (let vars' := (setVar o x off m vars).2
     (∀ j, j < x.p ∨ x.p + x.width ≤ j → vars' j = vars j) ∧
      ∀ y ∈ others, ∀ version off' m',
        y.answer o version vars' off' m' = y.answer o version vars off' m') ↔
      ¬ (x.asn = .octetStr ∧ (m (off + 1)).toNat = x.dataSize ∧
        vars (x.p + x.dataSize) ≠ 0) ∧
      ∀ y ∈ others, y.asn = .octetStr → ∀ i, i < min x.width (x.stored o off m).length →
        y.p ≤ x.p + i → x.p + i < y.p + y.reads vars →
          (x.stored o off m).getD i 0 = vars (x.p + i) := by
  have hstore := (setVar_stores h).1
  rw [← setVar_outside_iff h]
  refine and_congr_right fun hout => forall₂_congr fun y hy => ?_
  rw [getVar_answer_iff]
  constructor
  · intro hsame hasn i hi hlow hhigh
    have := hsame (x.p + i - y.p) (by omega)
    rwa [show y.p + (x.p + i - y.p) = x.p + i by omega, hstore,
      write_at (by omega)] at this
  · intro hsame i hi
    by_cases hin : x.p ≤ y.p + i ∧ y.p + i < x.p + x.width
    · -- only a string is read in there, and it begins before the variable
      have hasn : y.asn = .octetStr := by
        by_contra hasn
        have : y.reads vars ≤ y.width := reads_le_width hasn
        rcases hothers y hy with hapart | hapart <;> omega
      obtain ⟨k, hk⟩ : ∃ k, y.p + i = x.p + k := ⟨y.p + i - x.p, by omega⟩
      rw [hk, hstore]
      by_cases hlen : k < (x.stored o off m).length
      · rw [write_at hlen]
        exact hsame hasn k (by omega) (by omega) (by omega)
      · exact write_other (by omega)
    · exact hout _ (by omega)

/-! `snmp_ptp_config` is a `struct s_sfpinfo`: the part number, and `alpha` right behind it. -/

def ptpConfigSfpPn : Var := ⟨.octetStr, 16, 0⟩
def ptpConfigAlpha : Var := ⟨.integer, 8, 16⟩

/-- A request with a part number of `n` letters. -/
def pnRequest (n : Nat) : Mem := fun j =>
  (Asn.octetStr.code :: BitVec.ofNat 8 n :: List.replicate n 0x41).getD j 0

/-- A part number that does not fill its field, and a SET of either. -/
theorem setVar_frame_short :
    let vars : Mem := fun j => if j = 3 then 0 else 0xff
    let alphaAnswer (vars : Mem) := ptpConfigAlpha.answer .big 1 vars 0 fun _ => 0
    let pnAnswer (vars : Mem) := ptpConfigSfpPn.answer .big 1 vars 0 fun _ => 0
    alphaAnswer (setVar .big ptpConfigSfpPn 0 (pnRequest 15) vars).2 = alphaAnswer vars ∧
      pnAnswer (setVar .big ptpConfigAlpha 0 (intRequest [5]) vars).2 = pnAnswer vars := by
  intro vars alphaAnswer pnAnswer
  have hpn := setVar_frame_iff .big ptpConfigSfpPn 0 (pnRequest 15) vars [ptpConfigAlpha]
    (by decide) (by decide +kernel)
  have halpha := setVar_frame_iff .big ptpConfigAlpha 0 (intRequest [5]) vars [ptpConfigSfpPn]
    (by decide) (by decide +kernel)
  exact ⟨(hpn.2 (by decide +kernel)).2 _ (by simp) _ _ _,
    (halpha.2 (by decide +kernel)).2 _ (by simp) _ _ _⟩

/-- A part number of sixteen letters changes `alpha`. -/
theorem setVar_frame_full :
    let vars : Mem := fun _ => 0xff
    let alphaAnswer (vars : Mem) := ptpConfigAlpha.answer .big 1 vars 0 fun _ => 0
    let r := setVar .big ptpConfigSfpPn 0 (pnRequest 16) vars
    0 < r.1 ∧ alphaAnswer vars = [2, 4, 0xff, 0xff, 0xff, 0xff] ∧
      alphaAnswer r.2 = [2, 4, 0, 0xff, 0xff, 0xff] := by
  decide +kernel

end Frame

end Wrpc.Snmp
