/-
# The parameters of the plugged transceiver (`sfp.c`)

`sfp_match` reads the header of the SFP, looks its part number up in the database and takes
over the parameters.  The lookup (`storage_match_sfp`) returns 1 for a match, 0 for none, and a
negative number where `sfp_entry` has failed: no file system, no file, a record that cannot be
read or has a bad checksum, a fifth record.
-/
import Wrpc.Storage.Directory
import Wrpc.Storage.Sfp

namespace Wrpc.SfpMatch

open Storage Nat

variable {record params : SfpInfo}

/-- `SDB_DEV_SFP` -/
def sdbDevSfp : SdbId := ⟨sdbVendor, [0x73, 0x66, 0x70, 0x2d]⟩

/-- The file system, the device and the static `sfpcount`. -/
structure Store where
  fs : Sdbfs
  db : SfpDb

/-- `sfp_entry(sfp, SFP_GET, pos)`, with the file opened for it. -/
def getEntry (c : Chip) (o : Order) (s : Store) (sfp : SfpInfo) (pos : Nat) :
    Int × SfpInfo × Store :=
  if pos ≥ sfpsMax then (retPosErr, sfp, s)
  else
    let r := openId s.db.mem s.fs sdbDevSfp
    match r.1 with
    | none => (-1, sfp, { s with fs := r.2 })
    | some f =>
      let e := sfpEntry c o f s.db sfp .get pos
      (e.1, e.2.1, ⟨r.2, e.2.2⟩)

/-- The loop of `storage_match_sfp`. -/
def matchFrom (c : Chip) (o : Order) (sfp : SfpInfo) :
    Nat → Nat → Int → SfpInfo → Store → Int × SfpInfo × Store
  | 0, _, _, _, s => (0, sfp, s)
  | fuel + 1, i, sfpcount, dbsfp, s =>
    if (i : Int) < sfpcount then
      let r := getEntry c o s dbsfp i
      if r.1 ≤ 0 then (r.1, sfp, r.2.2)
      else if strncmpEq (List.ofFn r.2.1.pn) (List.ofFn sfp.pn) then
        (1, { sfp with dTx := r.2.1.dTx, dRx := r.2.1.dRx, alpha := r.2.1.alpha }, r.2.2)
      else matchFrom c o sfp fuel (i + 1) r.1 r.2.1 r.2.2
    else (0, sfp, s)

/-! ## `sfp_match` -/

def eIo : Int := 5
def eNxio : Int := 6
def eNodev : Int := 19

/-- The values of `sfp_in_db`. -/
inductive InDb where
  | unknown | notMatched | matched
deriving DecidableEq, Repr

/-- `struct sfp_info`, as far as it is set here. -/
structure Info where
  params : SfpInfo
  inDb : InDb

/-- `verify_checksum`: the sum is right. -/
def checksumOk (header : Mem) (start stop : Nat) : Bool :=
  ((header.read start (stop - start)).foldl (fun sum b => (sum + b.toNat) % 65536) 0) % 256 =
    (header stop).toNat

def vendorPn (header : Mem) : Fin 16 → Byte := fun i => header (40 + i)

/-- What a call finds: whether a transceiver is there, its header, and the storage.  The DOM
page is read for its own sake, and its checksum only reported. -/
structure Plugged where
  force : Bool
  present : Bool
  header : Mem
  store : Store
  /-- the uninitialised local of `storage_match_sfp` -/
  dbsfp : SfpInfo

def Plugged.Refused (p : Plugged) : Prop :=
  (p.force = false ∧ p.present = false) ∨ checksumOk p.header 0 63 = false ∨
    checksumOk p.header 64 95 = false

/-- `sfp_match` -/
def sfpMatch (c : Chip) (o : Order) (p : Plugged) (info : Info) : Int × Info × Store :=
  if p.force = false ∧ p.present = false then (-eNodev, info, p.store)
  else if checksumOk p.header 0 63 = false ∨ checksumOk p.header 64 95 = false then
    (-eIo, info, p.store)
  else
    let params := { info.params with pn := vendorPn p.header }
    let r := matchFrom c o params (sfpsMax + 1) 0 1 p.dbsfp p.store
    if r.1 = 0 then (-eNxio, ⟨r.2.1, .notMatched⟩, r.2.2)
    else (0, ⟨r.2.1, .matched⟩, r.2.2)

/-! ## The database -/

def count (o : Order) (f : File) (m : Mem) : Nat := countSfps o f m (f.len + 1) 0

/-- Record number `i`, if it can be read and its checksum is right. -/
def recordAt (o : Order) (f : File) (m : Mem) (i : Nat) : Option SfpInfo :=
  let r := fread f m (1 + i * sfpSize) sfpSize
  if r.1 = sfpSize ∧ checksum r.2 = (SfpInfo.ofBytes o r.2).chksum then
    some ((SfpInfo.ofBytes o r.2).hton o)
  else none

def pnString (pn : Fin 16 → Byte) : List Byte := (List.ofFn pn).takeWhile (· ≠ 0)

/-- The database holds `record`, with a good checksum and the part number `pn`. -/
def InDatabase (o : Order) (f : File) (m : Mem) (pn : Fin 16 → Byte) (record : SfpInfo) : Prop :=
  ∃ i < count o f m, recordAt o f m i = some record ∧ pnString record.pn = pnString pn

/-- `a` has the parameters of `b`. -/
def SameParams (a b : SfpInfo) : Prop := a.dTx = b.dTx ∧ a.dRx = b.dRx ∧ a.alpha = b.alpha

/-- What a returned 0 says: the parameters are those of a record for this transceiver. -/
def Sound (o : Order) (p : Plugged) (r : Int × Info × Store) : Prop :=
  r.1 = 0 → r.2.1.inDb = .matched ∧ ∃ f record,
    opened p.store.db.mem sdbDevSfp p.store.fs 0 = some f ∧
    InDatabase o f p.store.db.mem (vendorPn p.header) record ∧ SameParams r.2.1.params record

/-- Record number `i` was read, and is for another transceiver. -/
def Passed (o : Order) (p : Plugged) (i : Nat) : Prop :=
  ∃ f record, opened p.store.db.mem sdbDevSfp p.store.fs i = some f ∧
    recordAt o f p.store.db.mem i = some record ∧
    pnString record.pn ≠ pnString (vendorPn p.header)

/-- The scan comes to record number `i`: there is such a record, and those before it were passed.
The first call is made in any case. -/
def Reached (o : Order) (p : Plugged) (i : Nat) : Prop :=
  (i = 0 ∨ ∃ f, opened p.store.db.mem sdbDevSfp p.store.fs 0 = some f ∧
    i < count o f p.store.db.mem) ∧ ∀ j < i, Passed o p j

/-- The call for record number `i` fails: it is beyond the last position, the file is not
found, or the record is not read. -/
def Fails (o : Order) (p : Plugged) (i : Nat) : Prop :=
  sfpsMax ≤ i ∨ opened p.store.db.mem sdbDevSfp p.store.fs i = none ∨
    ∃ f, opened p.store.db.mem sdbDevSfp p.store.fs i = some f ∧ i < count o f p.store.db.mem ∧
      recordAt o f p.store.db.mem i = none

/-! ## One call -/

section Call

variable {c : Chip} {o : Order} {f : File} {s : SfpDb} {sfp : SfpInfo} {pos n : Nat}

theorem sfpEntry_record (hpos : pos < sfpsMax)
    (hn : (if pos = 0 then count o f s.mem else s.sfpcount) = n) (hgo : ¬(pos = 0 ∧ n = 0))
    (hrecord : recordAt o f s.mem pos = some record) :
    sfpEntry c o f s sfp .get pos = ((n : Int), record, ⟨s.mem, n⟩) := by
  rw [count] at hn
  rw [recordAt] at hrecord
  split at hrecord
  case isFalse => cases hrecord
  case isTrue hok =>
    have hvalue := Option.some.inj hrecord
    rw [sfpEntry, if_neg (Nat.not_le_of_lt hpos)]
    simp [hn, if_neg hgo, hok.1, hok.2, hvalue]

theorem sfpEntry_noRecord (hpos : pos < sfpsMax)
    (hn : (if pos = 0 then count o f s.mem else s.sfpcount) = n) (hgo : ¬(pos = 0 ∧ n = 0))
    (hrecord : recordAt o f s.mem pos = none) : (sfpEntry c o f s sfp .get pos).1 = -1 := by
  rw [count] at hn
  rw [recordAt] at hrecord
  split at hrecord
  case isTrue => cases hrecord
  case isFalse hbad =>
    rw [sfpEntry, if_neg (Nat.not_le_of_lt hpos)]
    simp only [hn, if_neg hgo]
    split
    · rfl
    · rename_i hread
      have hsum := fun h => hbad ⟨not_not.mp hread, h⟩
      rw [if_pos hsum]

end Call

section Scan

variable {c : Chip} {o : Order} {p : Plugged} {f : File}

/-- What the variables hold when the loop comes to position `i`. -/
structure Before (o : Order) (p : Plugged) (f : File) (i : Nat) (s : Store) : Prop where
  fs : s.fs = reopen p.store.db.mem sdbDevSfp p.store.fs i
  mem : s.db.mem = p.store.db.mem
  sfpcount : i ≠ 0 → s.db.sfpcount = count o f p.store.db.mem

variable (sfp : SfpInfo) {i : Nat} {s : Store}

theorem Before.count_eq (h : Before o p f i s) :
    (if i = 0 then count o f s.db.mem else s.db.sfpcount) = count o f p.store.db.mem := by
  split
  · rw [h.mem]
  · rename_i hi
    exact h.sfpcount hi

theorem Before.openId_eq (h : Before o p f i s) :
    openId s.db.mem s.fs sdbDevSfp = (opened p.store.db.mem sdbDevSfp p.store.fs i,
      reopen p.store.db.mem sdbDevSfp p.store.fs (i + 1)) := by
  rw [h.fs, h.mem]
  rfl

theorem getEntry_record (h : Before o p f i s) (hi : i < sfpsMax)
    (hcount : i < count o f p.store.db.mem)
    (hopen : opened p.store.db.mem sdbDevSfp p.store.fs i = some f)
    (hrecord : recordAt o f p.store.db.mem i = some record) :
    ∃ s', getEntry c o s sfp i = ((count o f p.store.db.mem : Int), record, s') ∧
      Before o p f (i + 1) s' := by
  rw [getEntry, if_neg (Nat.not_le_of_lt hi)]
  simp only [h.openId_eq, hopen]
  rw [sfpEntry_record hi h.count_eq (by omega) (h.mem ▸ hrecord)]
  exact ⟨_, rfl, rfl, h.mem, fun _ => rfl⟩

/-! ## The scan -/

/-- How the scan ends, from position `i` on: with the record of the transceiver, with the last
one, or with a call that fails. -/
inductive Ends (o : Order) (p : Plugged) (f : File) (params : SfpInfo) (i : Nat) :
    Int × SfpInfo → Prop
  | hit (k : Nat) (record : SfpInfo) (hik : i ≤ k) (hk : k < sfpsMax)
      (hcount : k < count o f p.store.db.mem) (hpassed : ∀ j, i ≤ j → j < k → Passed o p j)
      (hopen : opened p.store.db.mem sdbDevSfp p.store.fs k = some f)
      (hrecord : recordAt o f p.store.db.mem k = some record)
      (hpn : pnString record.pn = pnString (vendorPn p.header)) :
      Ends o p f params i
        (1, { params with dTx := record.dTx, dRx := record.dRx, alpha := record.alpha })
  | miss (hcount : count o f p.store.db.mem ≤ sfpsMax)
      (hpassed : ∀ j, i ≤ j → j < count o f p.store.db.mem → Passed o p j) :
      Ends o p f params i (0, params)
  | fail (ret : Int) (hret : ret < 0) (k : Nat) (hik : i ≤ k)
      (hcount : k = 0 ∨ k < count o f p.store.db.mem)
      (hpassed : ∀ j, i ≤ j → j < k → Passed o p j) (hfails : Fails o p k) :
      Ends o p f params i (ret, params)

theorem passed_from {k : Nat} (hi : Passed o p i) (h : ∀ j, i + 1 ≤ j → j < k → Passed o p j) :
    ∀ j, i ≤ j → j < k → Passed o p j := by
  intro j hij hj
  rcases eq_or_lt_of_le hij with rfl | hlt
  · exact hi
  · exact h j hlt hj

theorem Ends.pass {r : Int × SfpInfo} (hi : Passed o p i)
    (h : Ends o p f params (i + 1) r) : Ends o p f params i r := by
  cases h with
  | hit k record hik hk hcount hpassed hopen hrecord hpn =>
    exact .hit k record (by omega) hk hcount (passed_from hi hpassed) hopen hrecord hpn
  | miss hcount hpassed => exact .miss hcount (passed_from hi hpassed)
  | fail ret hret k hik hcount hpassed hfails =>
    exact .fail ret hret k (by omega) hcount (passed_from hi hpassed) hfails

theorem not_fails_of_record (hi : i < sfpsMax)
    (hopen : opened p.store.db.mem sdbDevSfp p.store.fs i = some f)
    (hrecord : recordAt o f p.store.db.mem i = some record) : ¬Fails o p i := by
  rintro (hge | hnone | ⟨f', hopen', -, hnone⟩)
  · exact absurd hi (Nat.not_lt_of_le hge)
  · rw [hopen] at hnone
    cases hnone
  · rw [hopen] at hopen'
    rw [← Option.some.inj hopen', hrecord] at hnone
    cases hnone

theorem Passed.not_fails (h : Passed o p i) (hi : i < sfpsMax) : ¬Fails o p i := by
  obtain ⟨f, record, hopen, hrecord, -⟩ := h
  exact not_fails_of_record hi hopen hrecord

section Opened

variable (hopen₀ : opened p.store.db.mem sdbDevSfp p.store.fs 0 = some f)

include hopen₀

theorem getEntry_fails (h : Before o p f i s) (hfails : Fails o p i) :
    (getEntry c o s sfp i).1 < 0 := by
  rw [getEntry]
  by_cases hi : sfpsMax ≤ i
  · rw [if_pos hi]
    exact (by decide : retPosErr < 0)
  · rw [if_neg hi]
    simp only [h.openId_eq]
    rcases hfails with hge | hnone | ⟨f', hopen, hcount, hrecord⟩
    · exact absurd hge hi
    · rw [hnone]
      exact (by decide : (-1 : Int) < 0)
    · -- the file is the one of the first call
      obtain rfl : f' = f := by
        rcases opened_again hopen₀ i with h | h <;> rw [h] at hopen
        · exact (Option.some.inj hopen).symm
        · cases hopen
      simp only [hopen]
      rw [sfpEntry_noRecord (Nat.lt_of_not_le hi) h.count_eq (by omega) (h.mem ▸ hrecord)]
      decide

theorem getEntry_empty (h : Before o p f 0 s) (hcount : count o f p.store.db.mem = 0) :
    (getEntry c o s sfp 0).1 = 0 := by
  have hn : countSfps o f s.db.mem (f.len + 1) 0 = 0 := by
    rw [h.mem]
    exact hcount
  rw [getEntry, if_neg (by decide)]
  simp only [h.openId_eq, hopen₀]
  rw [sfpEntry, if_neg (by decide)]
  simp [hn]

theorem of_not_fails (h : ¬Fails o p i) :
    i < sfpsMax ∧ opened p.store.db.mem sdbDevSfp p.store.fs i = some f ∧
      (i < count o f p.store.db.mem → ∃ record, recordAt o f p.store.db.mem i = some record) := by
  have hopen : opened p.store.db.mem sdbDevSfp p.store.fs i = some f :=
    (opened_again hopen₀ i).resolve_right fun hnone => h (.inr (.inl hnone))
  refine ⟨Nat.lt_of_not_le fun hge => h (.inl hge), hopen, fun hcount => ?_⟩
  cases hrecord : recordAt o f p.store.db.mem i with
  | none => exact absurd (.inr (.inr ⟨f, hopen, hcount, hrecord⟩)) h
  | some record => exact ⟨record, rfl⟩

theorem matchFrom_ends (hpn : params.pn = vendorPn p.header) :
    ∀ (fuel i : Nat) (dbsfp : SfpInfo) (s : Store), i + fuel = sfpsMax → Before o p f i s →
      i = 0 ∨ i ≤ count o f p.store.db.mem →
      let r := matchFrom c o params (fuel + 1) i (if i = 0 then 1 else count o f p.store.db.mem)
        dbsfp s
      Ends o p f params i (r.1, r.2.1)
  | fuel, i, dbsfp, s, hfuel, hbefore, hi => by
    simp only [matchFrom]
    by_cases hgo : (i : Int) < if i = 0 then 1 else (count o f p.store.db.mem : Int)
    · rw [if_pos hgo]
      have hin : i = 0 ∨ i < count o f p.store.db.mem := by
        split at hgo
        · exact .inl (by assumption)
        · exact .inr (by omega)
      by_cases hfails : Fails o p i
      · have hneg := getEntry_fails (c := c) dbsfp hopen₀ hbefore hfails
        rw [if_pos (Int.le_of_lt hneg)]
        exact .fail _ hneg i (Nat.le_refl i) hin (fun j hij hj => by omega) hfails
      · obtain ⟨hmax, hopen, hread⟩ := of_not_fails hopen₀ hfails
        by_cases hcount : i < count o f p.store.db.mem
        · obtain ⟨record, hrecord⟩ := hread hcount
          obtain ⟨s', hget, hbefore'⟩ := getEntry_record (c := c) dbsfp hbefore hmax
            hcount hopen hrecord
          have hsame : strncmpEq (List.ofFn record.pn) (List.ofFn params.pn) = true ↔
              pnString record.pn = pnString (vendorPn p.header) := by
            rw [← hpn]
            exact strncmpEq_string (by simp)
          simp only [hget]
          rw [if_neg (by omega)]
          by_cases hmatch : pnString record.pn = pnString (vendorPn p.header)
          · rw [if_pos (hsame.mpr hmatch)]
            exact .hit i record (Nat.le_refl i) hmax hcount (fun j hij hj => by omega) hopen
              hrecord hmatch
          · rw [if_neg fun h => hmatch (hsame.mp h)]
            obtain ⟨fuel, rfl⟩ := exists_eq_succ_of_ne_zero (show fuel ≠ 0 by omega)
            have hrest := matchFrom_ends hpn fuel (i + 1) record s' (by omega) hbefore'
              (.inr hcount)
            exact .pass ⟨f, record, hopen, hrecord, hmatch⟩ hrest
        · -- the first call finds no record
          have hzero : i = 0 := hin.resolve_right hcount
          subst hzero
          have hempty := getEntry_empty (c := c) dbsfp hopen₀ hbefore (by omega)
          rw [if_pos (Int.le_of_eq hempty), hempty]
          exact .miss (by omega) fun j _ hj => by omega
    · rw [if_neg hgo]
      exact .miss (by omega) fun j hij hj => by omega

theorem Ends.not_reached {r : Int × SfpInfo} (h : Ends o p f params 0 r) (hret : 0 ≤ r.1)
    {k : Nat} (hk : Reached o p k) : ¬Fails o p k := by
  obtain ⟨hin, hbefore⟩ := hk
  have hin' : k = 0 ∨ k < count o f p.store.db.mem := by
    rcases hin with hzero | ⟨f', hopen, hlt⟩
    · exact .inl hzero
    · rw [hopen₀] at hopen
      exact .inr (Option.some.inj hopen ▸ hlt)
  cases h with
  | hit k' record hik hk' hcount hpassed hopen hrecord hpn =>
    rcases lt_trichotomy k k' with hlt | rfl | hgt
    · exact (hpassed k (zero_le k) hlt).not_fails (by omega)
    · exact not_fails_of_record hk' hopen hrecord
    · -- the scan has stopped at the record before
      obtain ⟨f', record', hopen', hrecord', hne⟩ := hbefore k' hgt
      rw [hopen] at hopen'
      rw [← Option.some.inj hopen', hrecord] at hrecord'
      rw [← Option.some.inj hrecord'] at hne
      exact absurd hpn hne
  | miss hcount hpassed =>
    rcases lt_or_ge k (count o f p.store.db.mem) with hlt | hge
    · exact (hpassed k (zero_le k) hlt).not_fails (by omega)
    · rintro (hmax | hnone | ⟨f', hopen', hlt, -⟩)
      · have hzero := hin'.resolve_right (Nat.not_lt_of_le hge)
        rw [hzero] at hmax
        exact absurd hmax (by decide)
      · rw [hin'.resolve_right (Nat.not_lt_of_le hge), hopen₀] at hnone
        cases hnone
      · rw [hin'.resolve_right (Nat.not_lt_of_le hge)] at hopen' hlt
        rw [hopen₀] at hopen'
        rw [← Option.some.inj hopen'] at hlt
        omega
  | fail ret hret' => exact absurd hret (Int.not_le_of_gt hret')

end Opened

theorem lookup_cases (c : Chip) (o : Order) (p : Plugged) (params : SfpInfo)
    (hpn : params.pn = vendorPn p.header) :
    let r := matchFrom c o params (sfpsMax + 1) 0 1 p.dbsfp p.store
    (r.1 < 0 ∧ r.2.1 = params ∧ ∃ k, Reached o p k ∧ Fails o p k) ∨
      (∀ k, Reached o p k → ¬Fails o p k) ∧ (r.1 = 0 ∨ r.1 = 1 ∧ ∃ f record,
        opened p.store.db.mem sdbDevSfp p.store.fs 0 = some f ∧
        InDatabase o f p.store.db.mem (vendorPn p.header) record ∧ SameParams r.2.1 record) := by
  intro r
  cases hopen₀ : opened p.store.db.mem sdbDevSfp p.store.fs 0 with
  | none =>
    -- the first call fails
    have hopen : (openId p.store.db.mem p.store.fs sdbDevSfp).1 = none := hopen₀
    have hr : r = (-1, params, ⟨(openId p.store.db.mem p.store.fs sdbDevSfp).2, p.store.db⟩) := by
      simp only [r, matchFrom, getEntry, hopen]
      rfl
    rw [hr]
    exact .inl ⟨(by decide : (-1 : Int) < 0), rfl, 0,
      ⟨.inl rfl, fun j hj => absurd hj (not_lt_zero j)⟩, .inr (.inl hopen₀)⟩
  | some f =>
    have hends : Ends o p f params 0 (r.1, r.2.1) :=
      matchFrom_ends hopen₀ hpn sfpsMax 0 p.dbsfp p.store (zero_add _)
        ⟨rfl, rfl, fun h => absurd rfl h⟩ (.inl rfl)
    have hclean : 0 ≤ r.1 → ∀ k, Reached o p k → ¬Fails o p k :=
      fun hret k hk => hends.not_reached hopen₀ hret hk
    generalize hparams : r.2.1 = params' at hends ⊢
    generalize hret : r.1 = ret at hends hclean ⊢
    cases hends with
    | hit k record hik hk hcount hpassed hopen hrecord hmatch =>
      exact .inr ⟨hclean (by decide), .inr ⟨rfl, f, record, rfl, ⟨k, hcount, hrecord, hmatch⟩,
        rfl, rfl, rfl⟩⟩
    | miss hcount hpassed => exact .inr ⟨hclean (by decide), .inl rfl⟩
    | fail ret hneg k hik hcount hpassed hfails =>
      refine .inl ⟨hneg, rfl, k, ⟨?_, fun j hj => hpassed j (zero_le j) hj⟩, hfails⟩
      exact hcount.imp_right fun hlt => ⟨f, hopen₀, hlt⟩

end Scan

theorem sfpMatch_accepted {c : Chip} {o : Order} {p : Plugged} {info : Info} (h : ¬p.Refused) :
    sfpMatch c o p info =
      let r := matchFrom c o { info.params with pn := vendorPn p.header } (sfpsMax + 1) 0 1 p.dbsfp
        p.store
      if r.1 = 0 then (-eNxio, ⟨r.2.1, .notMatched⟩, r.2.2) else (0, ⟨r.2.1, .matched⟩, r.2.2) := by
  rw [Plugged.Refused, not_or] at h
  rw [sfpMatch, if_neg h.1, if_neg h.2]

theorem sfpMatch_refused {c : Chip} {o : Order} {p : Plugged} {info : Info} (h : p.Refused) :
    (sfpMatch c o p info).1 ≠ 0 := by
  rw [sfpMatch]
  split
  · exact (by decide : -eNodev ≠ 0)
  · rename_i hpresent
    rw [if_pos (h.resolve_left hpresent)]
    exact (by decide : -eIo ≠ 0)

/-- **A match.**  A returned 0 is right exactly if the transceiver is refused anyway, if no call
of the scan fails before it finds the record or the end, or if the parameters happen to be
those of a record for this transceiver already. -/
theorem sfp_match_sound_iff (c : Chip) (o : Order) (p : Plugged) (info : Info) :
    Sound o p (sfpMatch c o p info) ↔ p.Refused ∨ (∀ k, Reached o p k → ¬Fails o p k) ∨
        ∃ f record, opened p.store.db.mem sdbDevSfp p.store.fs 0 = some f ∧
          InDatabase o f p.store.db.mem (vendorPn p.header) record ∧
          SameParams info.params record := by
  by_cases hrefused : p.Refused
  · exact iff_of_true (fun h => absurd h (sfpMatch_refused hrefused)) (.inl hrefused)
  · rw [sfpMatch_accepted hrefused]
    rcases lookup_cases c o p { info.params with pn := vendorPn p.header } rfl with
      ⟨hneg, hparams, k, hreached, hfails⟩ | ⟨hclean, hret | ⟨hret, hfound⟩⟩
    · -- a call has failed, and nothing was taken over
      have hne : ¬(matchFrom c o { info.params with pn := vendorPn p.header } (sfpsMax + 1) 0 1
        p.dbsfp p.store).1 = 0 := Int.ne_of_lt hneg
      simp only [if_neg hne, Sound, forall_const, hparams, true_and]
      constructor
      · intro hfound
        exact .inr (.inr hfound)
      · rintro (h | h | hfound)
        · exact absurd h hrefused
        · exact absurd hfails (h k hreached)
        · exact hfound
    · -- no match
      simp only [hret, if_true, Sound]
      refine iff_of_true (fun h => absurd h (by decide)) (.inr (.inl hclean))
    · simp only [hret, Sound]
      exact iff_of_true (fun _ => ⟨rfl, hfound⟩) (.inr (.inl hclean))

/-- A transceiver with a good header, on a board without a file system. -/
def noFs : Plugged where
  force := false
  present := true
  header := fun _ => 0
  store := ⟨⟨false, 0, 0⟩, ⟨fun _ => erased, 0⟩⟩
  dbsfp := ⟨fun _ => 0, 0, 0, 0, 0⟩

/-- It is matched, with the parameters that were there before. -/
theorem noFs_matched : (sfpMatch .eeprom .big noFs ⟨⟨fun _ => 0, 1, 2, 3, 0⟩, .unknown⟩).1 = 0 ∧
      (sfpMatch .eeprom .big noFs ⟨⟨fun _ => 0, 1, 2, 3, 0⟩, .unknown⟩).2.1.inDb = .matched ∧
      (sfpMatch .eeprom .big noFs ⟨⟨fun _ => 0, 1, 2, 3, 0⟩, .unknown⟩).2.1.params.dTx = 2 ∧
      opened noFs.store.db.mem sdbDevSfp noFs.store.fs 0 = none := by
  decide

end Wrpc.SfpMatch
