/-
# The database of transceivers (`storage-sfp.c`)

The SFP file holds one byte that is not used and then records of 33 bytes: part
number, `alpha`, `dTx`, `dRx` (stored big endian) and a checksum.  The number of
records is not stored: `sfpEntry` counts records until one has a 0xff byte in its
part number, and keeps the count in a static variable for the calls that follow
with another position.

`char` is unsigned on the soft CPUs, so that `sfp->pn[i] == 0xff` can hold.
-/
import Wrpc.Lib.Bytes
import Wrpc.Storage.Sdbfs
import Mathlib.Data.Fintype.Basic

namespace Wrpc.Storage

open List

/-- `struct s_sfpinfo`. -/
structure SfpInfo where
  pn : Fin 16 → Byte
  alpha : BitVec 64
  dTx : BitVec 32
  dRx : BitVec 32
  chksum : Byte
deriving DecidableEq

/-- `sizeof(struct s_sfpinfo)`. -/
def sfpSize : Nat := 33

/-- `SFPS_MAX`. -/
def sfpsMax : Nat := 4

/-- The record in the memory of a machine of byte order `o`. -/
def SfpInfo.image (o : Order) (s : SfpInfo) : List Byte :=
  List.ofFn s.pn ++ (Bytes.imageOf o 8 s.alpha.toNat ++ (Bytes.imageOf o 4 s.dTx.toNat ++
    (Bytes.imageOf o 4 s.dRx.toNat ++ [s.chksum])))

def SfpInfo.ofBytes (o : Order) (bytes : List Byte) : SfpInfo where
  pn i := bytes.getD i 0
  alpha := BitVec.ofNat 64 (Bytes.ofImage o ((bytes.drop 16).take 8))
  dTx := BitVec.ofNat 32 (Bytes.ofImage o ((bytes.drop 24).take 4))
  dRx := BitVec.ofNat 32 (Bytes.ofImage o ((bytes.drop 28).take 4))
  chksum := bytes.getD 32 0

/-- `htonll` and `htonl` (and `ntohll`, `ntohl`): the bytes the other way round on a little
endian machine. -/
def hton (o : Order) (n : Nat) (x : BitVec (8 * n)) : BitVec (8 * n) :=
  match o with
  | .little => BitVec.ofNat (8 * n) (Bytes.ofImage .big (Bytes.imageOf .little n x.toNat))
  | .big => x

/-- The three conversions `sfp_entry` makes on a record. -/
def SfpInfo.hton (o : Order) (s : SfpInfo) : SfpInfo :=
  { s with alpha := Storage.hton o 8 s.alpha, dTx := Storage.hton o 4 s.dTx,
           dRx := Storage.hton o 4 s.dRx }

/-- The sum over all bytes but the checksum, as it is stored. -/
def checksum (bytes : List Byte) : Byte :=
  BitVec.ofNat 8 ((bytes.take 32).foldl (fun sum b => sum + b.toNat) 0)

/-- `sfp_valid`. -/
def sfpValid (s : SfpInfo) : Bool := (List.ofFn s.pn).all (· != 0xff)

/-- `!strncmp(a, b, 16)`. -/
def strncmpEq : List Byte → List Byte → Bool
  | a :: as, b :: bs => if a ≠ b then false else if a = 0 then true else strncmpEq as bs
  | _, _ => true

theorem strncmpEq_string : ∀ {as bs : List Byte}, as.length = bs.length →
    (strncmpEq as bs = true ↔ as.takeWhile (· ≠ 0) = bs.takeWhile (· ≠ 0))
  | [], [], _ => iff_of_true rfl rfl
  | a :: as, b :: bs, hlen => by
    rw [strncmpEq]
    by_cases hab : a = b
    · subst hab
      by_cases ha : a = 0
      · subst ha
        exact iff_of_true rfl rfl
      · rw [if_neg (not_not.mpr rfl), if_neg ha, takeWhile_cons_of_pos (by simpa using ha),
          takeWhile_cons_of_pos (by simpa using ha),
          strncmpEq_string (Nat.succ.inj hlen), List.cons.injEq]
        simp
    · rw [if_pos hab]
      refine iff_of_false Bool.false_ne_true fun h => hab ?_
      rw [takeWhile_cons, takeWhile_cons] at h
      split at h
      · split at h
        · exact (List.cons.inj h).1
        · cases h
      · split at h
        · cases h
        · rename_i ha hb
          have ha' : a = 0 := by simpa using ha
          have hb' : b = 0 := by simpa using hb
          rw [ha', hb']

/-! ## `sfp_entry` -/

/-- The device and the static `sfpcount`. -/
structure SfpDb where
  mem : Mem
  sfpcount : Nat

/-- `SFP_GET` and `SFP_ADD`. -/
inductive SfpOper where
  | get | add
deriving DecidableEq, Repr

def retI2cErr : Int := -1
def retDbFull : Int := -2
def retPosErr : Int := -4

/-- The loop that counts the records; every turn moves on by a record, so the length of the
file is fuel enough. -/
def countSfps (o : Order) (f : File) (m : Mem) : Nat → Nat → Nat
  | 0, n => n
  | fuel + 1, n =>
    let r := fread f m (1 + n * sfpSize) sfpSize
    if r.1 = sfpSize then
      if sfpValid (.ofBytes o r.2) then countSfps o f m fuel (n + 1) else n
    else n

/-- `sfp_entry`: the value returned, `*sfp` and the database.  What a failed read has left
in `*sfp` is not looked at by any caller. -/
def sfpEntry (c : Chip) (o : Order) (f : File) (s : SfpDb) (sfp : SfpInfo) (oper : SfpOper)
    (pos : Nat) : Int × SfpInfo × SfpDb :=
  if pos ≥ sfpsMax then (retPosErr, sfp, s)
  else
    let count := if pos = 0 then countSfps o f s.mem (f.len + 1) 0 else s.sfpcount
    match oper with
    | .add =>
      if count = sfpsMax then (retDbFull, sfp, ⟨s.mem, count⟩)
      else
        let temp := sfp.hton o
        let temp := { temp with chksum := checksum (temp.image o) }
        let w := fwrite c f s.mem (1 + count * sfpSize) (temp.image o)
        if w.1 ≠ sfpSize then (-1, sfp, ⟨w.2, count⟩)
        else ((count + 1 : Nat), sfp, ⟨w.2, count + 1⟩)
    | .get =>
      if pos = 0 ∧ count = 0 then (0, sfp, ⟨s.mem, count⟩)
      else
        let r := fread f s.mem (1 + pos * sfpSize) sfpSize
        if r.1 ≠ sfpSize then (-1, sfp, ⟨s.mem, count⟩)
        else if checksum r.2 ≠ (SfpInfo.ofBytes o r.2).chksum then
          (-1, .ofBytes o r.2, ⟨s.mem, count⟩)
        else (count, (SfpInfo.ofBytes o r.2).hton o, ⟨s.mem, count⟩)

/-! ## The callers -/

/-- The loop of `storage_match_sfp`.  `sfp_entry` fails at position `sfpsMax`, so that many
turns and one more are enough. -/
def matchLoop (c : Chip) (o : Order) (f : File) (sfp : SfpInfo) :
    Nat → Nat → Int → SfpInfo → SfpDb → Int × SfpInfo × SfpDb
  | 0, _, _, _, s => (0, sfp, s)
  | fuel + 1, i, sfpcount, dbsfp, s =>
    if (i : Int) < sfpcount then
      let r := sfpEntry c o f s dbsfp .get i
      if r.1 ≤ 0 then (r.1, sfp, r.2.2)
      else if strncmpEq (List.ofFn r.2.1.pn) (List.ofFn sfp.pn) then
        (1, { sfp with dTx := r.2.1.dTx, dRx := r.2.1.dRx, alpha := r.2.1.alpha }, r.2.2)
      else matchLoop c o f sfp fuel (i + 1) r.1 r.2.1 r.2.2
    else (0, sfp, s)

/-- `storage_match_sfp`; `dbsfp` is what the uninitialised local happens to hold. -/
def storageMatchSfp (c : Chip) (o : Order) (f : File) (s : SfpDb) (sfp dbsfp : SfpInfo) :
    Int × SfpInfo × SfpDb :=
  matchLoop c o f sfp (sfpsMax + 1) 0 1 dbsfp s

/-- The first loop of `storage_update_sfp`: the entries, with the matching one updated, or
the value to return. -/
def readLoop (c : Chip) (o : Order) (f : File) (sfp : SfpInfo) :
    Nat → Nat → Int → List SfpInfo → SfpInfo → SfpDb → (Int ⊕ List SfpInfo) × SfpDb
  | 0, _, _, acc, _, s => (.inr acc, s)
  | fuel + 1, i, sfpcount, acc, garbage, s =>
    if (i : Int) < sfpcount then
      let r := sfpEntry c o f s garbage .get i
      if r.1 ≤ 0 then (.inl r.1, r.2.2)
      else
        let dbsfp :=
          if strncmpEq (List.ofFn r.2.1.pn) (List.ofFn sfp.pn) then
            { r.2.1 with dTx := sfp.dTx, dRx := sfp.dRx, alpha := sfp.alpha }
          else r.2.1
        readLoop c o f sfp fuel (i + 1) r.1 (acc ++ [dbsfp]) garbage r.2.2
    else (.inr acc, s)

/-- `storage_sfpdb_erase`. -/
def storageSfpdbErase (c : Chip) (f : File) (s : SfpDb) : Int × SfpDb :=
  let r := ferase c f s.mem 0 f.len
  (if r.1 = f.len then 0 else -1, { s with mem := r.2 })

/-- The last loop of `storage_update_sfp`, over the entries from number `i` on. -/
def addLoop (c : Chip) (o : Order) (f : File) : List SfpInfo → Nat → SfpDb → Int × SfpDb
  | [], i, s => (i, s)
  | dbsfp :: rest, i, s =>
    let r := sfpEntry c o f s dbsfp .add 0
    if r.1 < 0 then (r.1, r.2.2) else addLoop c o f rest (i + 1) r.2.2

/-- What `storage_update_sfp` does with what its first loop has left: erase, and add again. -/
def rewriteSfps (c : Chip) (o : Order) (f : File) : (Int ⊕ List SfpInfo) × SfpDb → Int × SfpDb
  | (.inl ret, s) => (ret, s)
  | (.inr entries, s) =>
    let e := storageSfpdbErase c f s
    if e.1 = retI2cErr then (-1, e.2) else addLoop c o f entries 0 e.2

/-- `storage_update_sfp`. -/
def storageUpdateSfp (c : Chip) (o : Order) (f : File) (s : SfpDb) (sfp garbage : SfpInfo) :
    Int × SfpDb :=
  rewriteSfps c o f (readLoop c o f sfp (sfpsMax + 1) 0 1 [] garbage s)

/-- `storage_get_sfp(sfp, SFP_ADD, pos)`. -/
def storageAddSfp (c : Chip) (o : Order) (f : File) (s : SfpDb) (sfp garbage : SfpInfo) :
    Int × SfpDb :=
  let r := storageMatchSfp c o f s sfp garbage
  if r.1 = 0 then
    let a := sfpEntry c o f r.2.2 sfp .add 0
    (a.1, a.2.2)
  else storageUpdateSfp c o f r.2.2 sfp garbage

end Wrpc.Storage
