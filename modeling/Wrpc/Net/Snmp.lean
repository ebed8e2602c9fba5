/-
# The SNMP agent (`snmp.c`)

The agent builds its answer in the buffer of the request.  `snmpRespond` matches
the header against `matchArray`, walks the array of limbs and hands the rest of the
OID to the limb's function: `funcGroup` for scalars, `funcTable` for tables of rows
and columns, `funcAuxDiag` for the registers of the FPGA.  They compare with the
result of `memcmp` in an `int8_t`, write the OID they found over the requested one,
and return the number of bytes they have added, 0 for "not here", or an error.

What a getter finds is a parameter of the object (`Twig.p`, `Table.cell`,
`AuxDiag.word`): the memory its value is taken from, numbers in network order.  A
variable that a SET has changed is read after the change.
-/
import Wrpc.Lib.ByteOrder

namespace Wrpc.Snmp

inductive Asn where
  | integer | octetStr | ipAddress | counter | unsigned | timeticks | counter64
deriving DecidableEq, Repr

def Asn.code : Asn → Byte
  | .integer => 0x02
  | .octetStr => 0x04
  | .ipAddress => 0x40
  | .counter => 0x41
  | .unsigned => 0x42
  | .timeticks => 0x43
  | .counter64 => 0x46

def asnNull : Byte := 0x05

def errNoSuchName : Int := 2
def errBadValue : Int := 3
def errReadOnly : Int := 4
def errGenErr : Int := 5

/-- `MAX_OCTET_STR_LEN - 1`. -/
def maxStrLen : Nat := 31

/-- `get_value`: the value at `p` behind the OID, at `off`. -/
def getValue (version : Byte) (asn : Asn) (p : Mem) (off : Nat) (m : Mem) : Int × Mem :=
  let m := m.set off asn.code
  match asn with
  | .counter64 =>
    if version = 0 then (0, m)
    else (10, (m.write (off + 2) (p.read 0 8)).set (off + 1) 8)
  | .octetStr =>
    let len := (p.cstr maxStrLen 0).length
    (2 + len, (m.set (off + 1) (BitVec.ofNat 8 len)).write (off + 2) (p.read 0 (len + 1)))
  | .integer | .counter | .unsigned | .timeticks | .ipAddress =>
    (6, (m.write (off + 2) (p.read 0 4)).set (off + 1) 4)

/-- What `set_value` returns for the value at `off`. -/
def setValue (asn : Asn) (dataSize off : Nat) (m : Mem) : Int :=
  let len := (m (off + 1)).toNat
  if m off ≠ asn.code then -errBadValue
  else match asn with
    | .unsigned | .integer => if 4 < len then -errBadValue else len + 2
    | .octetStr => if dataSize < len then -errBadValue else len + 2
    | .ipAddress => if len ≠ 4 then -errBadValue else len + 2
    | .counter | .timeticks | .counter64 => 0

/-- `struct snmp_oid`: the OID behind the limb, the type, what the getter finds, and for an
object with a setter the size of its variable. -/
structure Twig where
  oid : List Byte
  asn : Asn
  p : Mem := fun _ => 0
  set : Option Nat := none

/-- What `get_temp` and `get_sfp` look at: the number of rows, the columns they know and the
value in a column and row. -/
structure Table where
  rows : Nat
  cols : List Byte
  cell : Byte → Byte → Mem

/-- A bank of `data_aux_diag`: the number of registers, whether there is a setter, and the
values (in column 2 the number of registers). -/
structure AuxDiag where
  regs : Nat
  set : Bool
  word : Byte → Mem

/-- A `twig_func` with its `obj_array`. -/
inductive Handler where
  | group (twigs : List Twig)
  | table (twigs : List Twig) (t : Table)
  | auxDiag (bank : AuxDiag)

/-- `struct snmp_oid_limb`. -/
structure Limb where
  oid : List Byte
  func : Handler

/-- `MASK_GET`, `MASK_GET_NEXT` and `MASK_SET`. -/
inductive Mode where
  | get | getNext | set
deriving DecidableEq, Repr

def setTwig (t : Twig) (off : Nat) (m : Mem) : Int :=
  match t.set with
  | none => -errReadOnly
  | some size => setValue t.asn size off m

/-- The loop of `func_group` over the twigs; `b` is the index of the OID's length, `e` that of
the byte behind the limb. -/
def groupLoop (version : Byte) (b e : Nat) (twigLen : Int) (mode : Mode) (first : Bool) :
    List Twig → Mem → Int × Mem
  | [], m => (0, m)
  | t :: ts, m =>
    if mode ≠ .getNext ∧ twigLen ≠ t.oid.length then
      groupLoop version b e twigLen mode first ts m
    else
      let k := if first then t.oid.length else (min twigLen t.oid.length).toNat
      let cmp := if first then 0 else cmp8 (t.oid.take k) (m.read e k)
      if first = false ∧ cmp = 0 ∧ mode = .getNext ∧ k = t.oid.length then
        groupLoop version b e twigLen mode first ts m
      else if cmp = 0 ∨ (mode = .getNext ∧ 0 < cmp) ∨ first = true then
        let m :=
          if mode = .getNext then (m.write e t.oid).set b (BitVec.ofNat 8 t.oid.length) else m
        let ret := if mode = .set then setTwig t (e + t.oid.length) m else 0
        if ret < 0 then (ret, m)
        else
          let g := getValue version t.asn t.p (e + t.oid.length) m
          if g.1 = 0 then groupLoop version b e twigLen mode first ts g.2
          else (g.1 + t.oid.length, g.2)
      else if 0 < cmp then (0, m)
      else groupLoop version b e twigLen mode first ts m

/-- `func_group`. -/
def funcGroup (version : Byte) (b matched : Nat) (mode : Mode) (first : Bool) (twigs : List Twig)
    (m : Mem) : Int × Mem :=
  groupLoop version b (b + 1 + matched) ((m b).toNat - matched) mode first twigs m

/-- `TABLE_FIRST_ROW`. -/
def firstRow : Byte := 1

/-- `TABLE_FIRST_COL`. -/
def firstCol : Byte := 2

/-- `get_temp` and `get_sfp`: the cell whose column and row stand at `e`. -/
def getCell (version : Byte) (t : Table) (asn : Asn) (e off : Nat) (m : Mem) : Int × Mem :=
  let row := m (e + 1)
  let col := m e
  if 1 ≤ row.toNat ∧ row.toNat ≤ t.rows ∧ col ∈ t.cols then
    getValue version asn (t.cell col row) off m
  else (0, m)

/-- The loop of `func_table` over the columns: the column to use with those behind it,
whether the row is still to be increased, and the buffer. -/
def tableLoop (e : Nat) (twigLen : Int) (next first : Bool) :
    List Twig → Mem → Option (Twig × List Twig × Bool × Mem)
  | [], _ => none
  | t :: ts, m =>
    let k := (min twigLen t.oid.length).toNat
    let cmp := cmp8 (t.oid.take k) (m.read e k)
    if first = true ∨ (next = true ∧ cmp = 0 ∧ twigLen < t.oid.length + 1) ∨
        (next = true ∧ 0 < cmp) then
      some (t, ts, false, (m.write e t.oid).set (e + t.oid.length) firstRow)
    else if cmp = 0 ∧ (twigLen = t.oid.length + 1 ∨
        (next = true ∧ t.oid.length + 1 < twigLen)) then
      some (t, ts, next, m)
    else tableLoop e twigLen next first ts m

/-- The end of `func_table`: what a getter returned for the column `t`. -/
def tableDone (b : Nat) (next first : Bool) (t : Twig) (g : Int × Mem) : Int × Mem :=
  if g.1 ≤ 0 then g
  else (g.1 + (t.oid.length + 1),
    if next = true ∨ first = true then g.2.set b (BitVec.ofNat 8 (t.oid.length + 1)) else g.2)

/-- What `func_table` does with the column its loop has found. -/
def tableFound (version : Byte) (b e : Nat) (next first : Bool) (table : Table) (m : Mem) :
    Option (Twig × List Twig × Bool × Mem) → Int × Mem
  | none => (0, m)
  | some (t, ts, increase, m) =>
    let m := if increase then m.set (e + 1) (m (e + 1) + 1) else m
    let g := getCell version table t.asn e (e + t.oid.length + 1) m
    if g.1 = 0 ∧ increase = true then
      match ts with
      | [] => (0, g.2)
      | t' :: _ =>
        let m := (g.2.write e t'.oid).set (e + t'.oid.length) firstRow
        tableDone b next first t' (getCell version table t'.asn e (e + t'.oid.length + 1) m)
    else tableDone b next first t g

/-- `func_table`. -/
def funcTable (version : Byte) (b matched : Nat) (mode : Mode) (first : Bool) (twigs : List Twig)
    (table : Table) (m : Mem) : Int × Mem :=
  let e := b + 1 + matched
  let next := decide (mode = .getNext)
  if mode = .set then (-errReadOnly, m)
  else tableFound version b e next first table m
    (tableLoop e ((m b).toNat - matched) next first twigs m)

/-! ## Registers of the FPGA -/

/-- `AUX_DIAG_DATA_COL_SHIFT`. -/
def dataColShift : Nat := 3

/-- `data_aux_diag`, with the column and row at `e`.  A register that is there can be read
and written. -/
def dataAuxDiag (version : Byte) (bank : AuxDiag) (set : Bool) (e off : Nat) (m : Mem) :
    Int × Mem :=
  let row := m (e + 1)
  let col := m e
  if row ≠ 1 then (0, m)
  else if col.toNat < 2 ∨ bank.regs + dataColShift ≤ col.toNat then (0, m)
  else if set = true ∧ col.toNat = 2 then (-errReadOnly, m)
  else
    let ret := if set = true then setValue .unsigned 0 off m else 1
    if ret ≤ 0 then (ret, m) else getValue version .unsigned (bank.word col) off m

/-- `func_aux_diag`. -/
def funcAuxDiag (version : Byte) (b matched : Nat) (mode : Mode) (first : Bool) (bank : AuxDiag)
    (m : Mem) : Int × Mem :=
  let e := b + 1 + matched
  let twigLen : Int := (m b).toNat - matched
  let next := decide (mode = .getNext)
  let fill := first = true ∨ (next = true ∧ twigLen < 2)
  let m := if fill then (m.set e firstCol).set (e + 1) firstRow else m
  let increase := next = true ∧ ¬fill
  if next = false ∧ ¬fill ∧ twigLen ≠ 2 then (0, m)
  else
    let m := if increase then m.set (e + 1) (m (e + 1) + 1) else m
    if mode = .set ∧ bank.set = false then (-errReadOnly, m)
    else
      let g := dataAuxDiag version bank (decide (mode = .set)) e (e + 2) m
      let g :=
        if g.1 = 0 ∧ increase then
          dataAuxDiag version bank false e (e + 2)
            ((g.2.set e (g.2 e + 1)).set (e + 1) firstRow)
        else g
      if g.1 ≤ 0 then g
      else (g.1 + 2, if next = true ∨ first = true then g.2.set b 2 else g.2)

/-- The call of a limb's `twig_func`. -/
def twigFunc (version : Byte) (b matched : Nat) (mode : Mode) (first : Bool) (func : Handler)
    (m : Mem) : Int × Mem :=
  match func with
  | .group twigs => funcGroup version b matched mode first twigs m
  | .table twigs t => funcTable version b matched mode first twigs t m
  | .auxDiag bank => funcAuxDiag version b matched mode first bank m

/-- How the search ends: with the size of the answer, or with an error status. -/
inductive Outcome where
  | found (size : Nat) (m : Mem)
  | failed (error : Int) (m : Mem)

/-- The loop of `snmp_respond` over the limbs; `b` is the index of the OID's length. -/
def limbLoop (version : Byte) (b : Nat) (mode : Mode) : List Limb → Mem → Outcome
  | [], m => .failed errNoSuchName m
  | l :: ls, m =>
    let k := min l.oid.length (m b).toNat
    if mode ≠ .getNext ∧ (m b).toNat < l.oid.length then limbLoop version b mode ls m
    else
      let cmp := cmp8 (l.oid.take k) (m.read (b + 1) k)
      let first := decide (mode = .getNext ∧
        (0 < cmp ∨ ((m b).toNat ≤ l.oid.length ∧ cmp = 0)))
      let matched := if first then l.oid.length else k
      if (l.oid.length = matched ∧ cmp = 0) ∨ first = true then
        let m := if mode = .getNext then m.write (b + 1) l.oid else m
        let r := twigFunc version b matched mode first l.func m
        if 0 < r.1 then
          .found (b + 1 + l.oid.length + r.1.toNat)
            (if mode = .getNext then r.2.set b (r.2 b + BitVec.ofNat 8 l.oid.length) else r.2)
        else if r.1 = 0 then limbLoop version b mode ls r.2
        else .failed (-r.1) r.2
      else if 0 < cmp then .failed errNoSuchName m
      else limbLoop version b mode ls m

/-! ## The frame -/

/-- An entry of `match_array`. -/
inductive Field where
  | lit (value : Byte)
  | size | version | pdu | reqSize | error | errorIndex
deriving DecidableEq, Repr

/-- `"public"`. -/
def publicName : List Byte := [0x70, 0x75, 0x62, 0x6c, 0x69, 0x63]

/-- `match_array`. -/
def matchArray : List Field :=
  [.lit 0x30, .size, .lit 0x02, .lit 0x01, .version, .lit 0x04, .lit 0x06] ++
    publicName.map .lit ++
    [.pdu, .size, .lit 0x02, .reqSize, .lit 0x02, .lit 0x01, .error, .lit 0x02, .lit 0x01,
      .errorIndex, .lit 0x30, .size, .lit 0x30, .size, .lit 0x06]

def snmpGet : Byte := 0xa0
def snmpGetNext : Byte := 0xa1
def snmpGetResponse : Byte := 0xa2
def snmpSet : Byte := 0xa3

/-- `SNMP_V_MAX`. -/
def versionMax : Nat := 1

def modeOf (setEnabled : Bool) (pdu : Byte) : Option Mode :=
  if pdu = snmpGet then some .get
  else if pdu = snmpGetNext then some .getNext
  else if setEnabled = true ∧ pdu = snmpSet then some .set
  else none

/-- The first loop of `snmp_respond`: the index of the OID's length, the version and the mode,
or nothing when the header does not match. -/
def matchHeader (setEnabled : Bool) (m : Mem) :
    List Field → Nat → Byte → Option Mode → Option (Nat × Byte × Option Mode)
  | [], h, version, mode => some (h, version, mode)
  | f :: fs, h, version, mode =>
    match f with
    | .size | .error | .errorIndex => matchHeader setEnabled m fs (h + 1) version mode
    | .reqSize => matchHeader setEnabled m fs (h + (m h).toNat + 1) version mode
    | .version =>
      if versionMax < (m h).toNat then none
      else matchHeader setEnabled m fs (h + 1) (m h) mode
    | .pdu =>
      match modeOf setEnabled (m h) with
      | none => none
      | some mode => matchHeader setEnabled m fs (h + 1) version (some mode)
    | .lit value =>
      if m h ≠ value then none else matchHeader setEnabled m fs (h + 1) version mode

/-- The loop of `snmp_fix_size`, with `size` already decremented. -/
def fixLoop (size : Int) : List Field → Nat → Mem → Mem
  | [], _, m => m
  | f :: fs, h, m =>
    match f with
    | .pdu => fixLoop size fs (h + 1) (m.set h snmpGetResponse)
    | .reqSize => fixLoop size fs (h + (m h).toNat + 1) m
    | .size => fixLoop size fs (h + 1) (m.set h (BitVec.ofInt 8 (size - h)))
    | .lit _ | .version | .error | .errorIndex => fixLoop size fs (h + 1) m

/-- `snmp_fix_size`. -/
def snmpFixSize (size : Nat) (m : Mem) : Mem := fixLoop (size - 1) matchArray 0 m

/-- `MAX_COMMUNITY_LEN`, `MAX_REQID_LEN` and `MAX_OID_LEN`. -/
def maxCommunityLen : Nat := 32
def maxReqidLen : Nat := 4
def maxOidLen : Nat := 40

/-- `snmp_prepare_error`: the size of the answer and the buffer.  The sums stay below 256. -/
def snmpPrepareError (error : Int) (m : Mem) : Nat × Mem :=
  let shift := min (m 6).toNat maxCommunityLen
  let m := m.set (7 + shift) snmpGetResponse
  let shift := shift + min (m (10 + shift)).toNat maxReqidLen
  let m := m.set (13 + shift) (BitVec.ofInt 8 error)
  let m := m.set (16 + shift) 1
  let shift := shift + min (m (22 + shift)).toNat maxOidLen
  let m := m.set (22 + shift + 1) asnNull
  let m := m.set (22 + shift + 2) 0
  let size := 22 + shift + 2 + 1
  (size, snmpFixSize size m)

/-- The agent: the array of limbs and whether SETs are compiled in. -/
structure Agent where
  limbs : List Limb
  setEnabled : Bool

/-- `snmp_respond`: the size of the answer and the buffer. -/
def snmpRespond (a : Agent) (m : Mem) : Nat × Mem :=
  match matchHeader a.setEnabled m matchArray 0 0 none with
  | some (h, version, some mode) =>
    match limbLoop version h mode a.limbs m with
    | .found size m => (size, snmpFixSize size m)
    | .failed error m => snmpPrepareError error m
  | _ => snmpPrepareError errGenErr m

end Wrpc.Snmp
