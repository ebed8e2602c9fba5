/-
# What the bootloader stores and reads of its buffer

The functions of a turn once more, with a record of every index of `rxbuf` that is stored to;
without the record they are those of `Wrpc.Tools.Bootloader`.  Of the handlers,
`handlerReads` lists the bytes of the payload that they read, and `dispatch_reads` says that
they look at no others.

The length in the header is used as it comes, and the four handlers that start with an address
take it whether it was sent or not: `bootFsm_inBounds_iff`.
-/
import Wrpc.Tools.Bootloader

namespace Wrpc.Bootloader

open List

open Ertm14 (crc16 crcBytes)

structure Log where
  boot : Boot
  stores : List Nat

namespace Log

variable (t : Target)

def suartRead (l : Log) : Byte × Log :=
  ((suartReadBlocking l.boot).1, { l with boot := (suartReadBlocking l.boot).2 })

/-- `rxbuf[pos] = c` -/
def put (l : Log) (pos : Nat) (c : Byte) : Log := ⟨store t l.boot pos c, l.stores ++ [pos]⟩

def readInto : Nat → Nat → Log → Log
  | 0, _, l => l
  | n + 1, pos, l => readInto n (pos + 1) (put t l.suartRead.2 pos l.suartRead.1)

def readSync (late : Bool) (l : Log) : Log × Bool :=
  if l.boot.bootWait ∧ late then ({ l with boot := { l.boot with flow := .returned } }, false)
  else
    let r := suartRead { l with boot := { l.boot with timeoutHit := false } }
    let l := r.2
    if l.boot.timeoutHit ∧ l.boot.bootWait then
      ({ l with boot := { l.boot with flow := .returned } }, false)
    else if r.1 ≠ 0x55 then (l, false)
    else
      let r := suartRead (put t l 0 r.1)
      let l := r.2
      if r.1 ≠ 0xaa ∨ l.boot.timeoutHit then (l, false) else (put t l 1 r.1, true)

def readHeader (late : Bool) (l : Log) : Log × Option Header :=
  match readSync t late l with
  | (l, false) => (l, none)
  | (l, true) =>
    let command := l.suartRead.1
    let l := readInto t 3 2 l
    let len := (l.boot.ram (t.rxbuf + 3)).toNat <<< 8 ||| (l.boot.ram (t.rxbuf + 4)).toNat
    if l.boot.timeoutHit then (l, none) else (l, some ⟨command, len⟩)

def readBody (len : Nat) (l : Log) : Log × Option (BitVec 16) :=
  let l := readInto t len 5 l
  let hi := l.suartRead
  let lo := hi.2.suartRead
  if lo.2.boot.timeoutHit then (lo.2, none)
  else (lo.2, some ((hi.1.zeroExtend 16 <<< 8) ||| lo.1.zeroExtend 16))

end Log

/-- The turn; no handler stores to `rxbuf` by an index. -/
def bootTurnLog (t : Target) (s : Boot) (late : Bool) : Log :=
  if s.flow ≠ .running then ⟨s, []⟩
  else
    match Log.readHeader t late ⟨s, []⟩ with
    | (l, none) => l
    | (l, some h) =>
      match Log.readBody t h.len l with
      | (l, none) => l
      | (l, some crc) => ⟨execute t h crc l.boot, l.stores⟩

section Forget

variable {t : Target}

theorem Log.readInto_eq : ∀ (n pos : Nat) (l : Log),
    Log.readInto t n pos l = ⟨Bootloader.readInto t n pos l.boot, l.stores ++ List.range' pos n⟩
  | 0, _, l => by
    rw [range'_zero, append_nil]
    rfl
  | n + 1, pos, l => by
    rw [Log.readInto, Log.readInto_eq n (pos + 1), range'_succ, Log.put,
      append_assoc, singleton_append]
    rfl

theorem Log.readSync_eq (late : Bool) (s : Boot) : ∃ first,
    (∀ i ∈ first, i < 2) ∧ Log.readSync t late ⟨s, []⟩ =
      (⟨(Bootloader.readSync t late s).1, first⟩, (Bootloader.readSync t late s).2) := by
  unfold Log.readSync Bootloader.readSync
  dsimp only [Log.suartRead, Log.put]
  repeat' split
  · exact ⟨[], fun i hi => (nomatch hi), rfl⟩
  · exact ⟨[], fun i hi => (nomatch hi), rfl⟩
  · exact ⟨[], fun i hi => (nomatch hi), rfl⟩
  · exact ⟨[0], by decide, rfl⟩
  · exact ⟨[0, 1], by decide, rfl⟩

theorem Log.readHeader_eq (late : Bool) (s : Boot) : ∃ first,
    (∀ i ∈ first, i < 5) ∧ Log.readHeader t late ⟨s, []⟩ =
      (⟨(Bootloader.readHeader t late s).1, first⟩, (Bootloader.readHeader t late s).2) := by
  obtain ⟨first, hfirst, heq⟩ := Log.readSync_eq late s
  unfold Log.readHeader Bootloader.readHeader
  rw [heq]
  cases hsync : Bootloader.readSync t late s with
  | mk s₁ go =>
    cases go with
    | false => exact ⟨first, fun i hi => Nat.lt_of_lt_of_le (hfirst i hi) (by decide), rfl⟩
    | true =>
      have hall : ∀ i ∈ first ++ List.range' 2 3, i < 5 := by
        intro i hi
        rcases List.mem_append.mp hi with h | h
        · exact Nat.lt_of_lt_of_le (hfirst i h) (by decide)
        · exact (List.mem_range'_1.mp h).2
      refine ⟨first ++ List.range' 2 3, hall, ?_⟩
      dsimp only
      rw [Log.readInto_eq]
      split <;> rfl

theorem Log.readBody_eq (len : Nat) (l : Log) : Log.readBody t len l =
    (⟨(Bootloader.readBody t len l.boot).1, l.stores ++ List.range' 5 len⟩,
      (Bootloader.readBody t len l.boot).2) := by
  unfold Log.readBody Bootloader.readBody
  rw [Log.readInto_eq]
  dsimp only [Log.suartRead]
  split <;> rfl

theorem bootTurnLog_eq (s : Boot) (late : Bool) : ∃ first, (∀ i ∈ first, i < 5) ∧
    bootTurnLog t s late = ⟨bootTurn t s late, first ++
      (if s.flow ≠ .running then [] else
        match (Bootloader.readHeader t late s).2 with
        | none => []
        | some h => List.range' 5 h.len)⟩ := by
  unfold bootTurnLog bootTurn
  by_cases hflow : s.flow ≠ .running
  · rw [if_pos hflow, if_pos hflow, if_pos hflow]
    exact ⟨[], fun i hi => (nomatch hi), rfl⟩
  · rw [if_neg hflow, if_neg hflow, if_neg hflow]
    obtain ⟨first, hfirst, heq⟩ := Log.readHeader_eq late s
    refine ⟨first, hfirst, ?_⟩
    rw [heq]
    cases hhead : Bootloader.readHeader t late s with
    | mk s₁ h =>
      cases h with
      | none =>
        rw [append_nil]
      | some h =>
        dsimp only
        rw [Log.readBody_eq]
        cases Bootloader.readBody t h.len s₁ with
        | mk s₂ crc =>
          cases crc with
          | none => rfl
          | some crc => rfl

end Forget

/-- The bytes of the payload that a handler reads: the address, and the data behind it. -/
def handlerReads (command : Byte) (len : Nat) : List Nat :=
  match Command.ofByte command with
  | some .eraseSector | some .go => List.range' 0 4
  | some .writePage | some .writeRam => List.range' 0 4 ++ List.range' 4 (len - 4)
  | some .init | some .getFlashId | some .exit | none => []

/-- The states differ at most in RAM, and there only outside of `A`. -/
def Agree (A : Nat → Prop) (s s' : Boot) : Prop :=
  ∃ ram, s' = { s with ram := ram } ∧ ∀ a, A a → ram a = s.ram a

section Reads

variable {t : Target} {A : Nat → Prop} {s s' : Boot}

theorem unpackBe32_congr {m m' : Mem} {p : Nat} (h : ∀ i, i < 4 → m' (p + i) = m (p + i)) :
    unpackBe32 m' p = unpackBe32 m p := by
  have h0 := h 0 (by decide)
  rw [Nat.add_zero] at h0
  rw [unpackBe32, unpackBe32, h0, h 1 (by decide), h 2 (by decide), h 3 (by decide)]

theorem Agree.ram (h : Agree A s s') {a : Nat} (ha : A a) : s'.ram a = s.ram a := by
  obtain ⟨ram, rfl, hram⟩ := h
  exact hram a ha

theorem Agree.base (h : Agree A s s') (hA : ∀ i, i < 4 → A (t.payload + i)) :
    unpackBe32 s'.ram t.payload = unpackBe32 s.ram t.payload :=
  unpackBe32_congr fun i hi => h.ram (hA i hi)

theorem Agree.writeRamByte (h : Agree A s s') (addr : BitVec 32) (c : Byte) :
    Agree A (Bootloader.writeRamByte addr c s) (Bootloader.writeRamByte addr c s') := by
  obtain ⟨ram, rfl, hram⟩ := h
  unfold Bootloader.writeRamByte
  repeat' split
  · exact ⟨ram, rfl, hram⟩
  · exact ⟨ram, rfl, hram⟩
  · exact ⟨ram, rfl, hram⟩
  · exact ⟨ram, rfl, hram⟩
  · refine ⟨ram.set addr.toNat c, rfl, fun a ha => ?_⟩
    simp only [Mem.set]
    rw [hram a ha]

theorem Agree.writeRamLoop (base : BitVec 32) : ∀ {n : Nat}, Agree A s s' →
    (∀ i, i < n → A (t.payload + i + 4)) →
    Agree A (Bootloader.writeRamLoop t base n s) (Bootloader.writeRamLoop t base n s')
  | 0, h, _ => h
  | n + 1, h, hA => by
    have hrest := writeRamLoop base h fun i hi => hA i (Nat.lt_succ_of_lt hi)
    unfold Bootloader.writeRamLoop at hrest ⊢
    rw [range_succ, foldl_append, foldl_append, foldl_cons, foldl_cons,
      foldl_nil, foldl_nil, hrest.ram (hA n (Nat.lt_succ_self n))]
    exact hrest.writeRamByte _ _

theorem Agree.resetReply (h : Agree A s s') (base : BitVec 32) :
    Agree A (Bootloader.resetReply base s) (Bootloader.resetReply base s') := by
  obtain ⟨ram, rfl, hram⟩ := h
  exact ⟨ram, rfl, hram⟩

/-- **The handlers read no other bytes**: whatever else is in RAM makes no difference. -/
theorem dispatch_reads {command : Byte} {len : Nat} (h : Agree A s s')
    (hA : ∀ i ∈ handlerReads command len, A (t.payload + i)) :
    Agree A (dispatch t command len s) (dispatch t command len s') := by
  unfold handlerReads at hA
  unfold dispatch
  cases hcmd : Command.ofByte command with
  | none => exact h
  | some c =>
    rw [hcmd] at hA
    cases c with
    | init =>
      obtain ⟨ram, rfl, hram⟩ := h
      exact ⟨ram, rfl, hram⟩
    | eraseSector =>
      have hbase := h.base fun i hi => hA i (List.mem_range'_1.mpr ⟨Nat.zero_le i, hi⟩)
      dsimp only [onCmdEraseSector]
      rw [hbase]
      obtain ⟨ram, rfl, hram⟩ := h
      exact ⟨ram, rfl, hram⟩
    | writePage =>
      have haddr : ∀ i, i < 4 → A (t.payload + i) := fun i hi =>
        hA i (mem_append_left _ (List.mem_range'_1.mpr ⟨Nat.zero_le i, hi⟩))
      have hdata : s'.ram.read (t.payload + 4) (len - 4) =
          s.ram.read (t.payload + 4) (len - 4) := by
        refine Mem.read_congr fun i hi => h.ram ?_
        rw [Nat.add_assoc]
        exact hA _ (mem_append_right _ (List.mem_range'_1.mpr (by omega)))
      dsimp only [onCmdWritePage]
      rw [h.base haddr, hdata]
      obtain ⟨ram, rfl, hram⟩ := h
      exact ⟨ram, rfl, hram⟩
    | writeRam =>
      have haddr : ∀ i, i < 4 → A (t.payload + i) := fun i hi =>
        hA i (mem_append_left _ (List.mem_range'_1.mpr ⟨Nat.zero_le i, hi⟩))
      dsimp only [onCmdWriteRam]
      rw [h.base haddr]
      refine (Agree.writeRamLoop _ h fun i hi => ?_).resetReply _
      rw [Nat.add_assoc]
      exact hA _ (mem_append_right _ (List.mem_range'_1.mpr (by omega)))
    | go =>
      have hbase := h.base fun i hi => hA i (List.mem_range'_1.mpr ⟨Nat.zero_le i, hi⟩)
      dsimp only [onCmdGo]
      rw [hbase]
      obtain ⟨ram, rfl, hram⟩ := h
      exact ⟨ram, rfl, hram⟩
    | getFlashId =>
      obtain ⟨ram, rfl, hram⟩ := h
      exact ⟨ram, rfl, hram⟩
    | exit =>
      obtain ⟨ram, rfl, hram⟩ := h
      exact ⟨ram, rfl, hram⟩

/-- `CMD_GO`: what is behind its address does not matter. -/
theorem dispatch_reads_go : Agree (· < 0x10010) (dispatch sampleTarget 5 4 (booting []))
    (dispatch sampleTarget 5 4 { booting [] with ram := fun a => if a < 0x10010 then 0 else 1 }) :=
  dispatch_reads ⟨_, rfl, fun _ ha => if_pos ha⟩ (by decide)

end Reads

/-! ## What is on the line -/

/-- The header that a turn reads, if it comes without a timeout, and the line behind it. -/
def announced : List (Option Byte) → Option (Header × List (Option Byte))
  | some a :: some b :: some command :: some hi :: some lo :: rest =>
    if a = 0x55 ∧ b = 0xaa then some (⟨command, hi.toNat <<< 8 ||| lo.toNat⟩, rest) else none
  | _ => none

/-- A payload of `len` bytes and a CRC come without a timeout. -/
def Complete (len : Nat) (rest : List (Option Byte)) : Prop :=
  ∃ (payload : List Byte) (c₁ c₂ : Byte) (after : List (Option Byte)), payload.length = len ∧
    rest = payload.map some ++ some c₁ :: some c₂ :: after

def takesAddress (command : Byte) : Bool :=
  match Command.ofByte command with
  | some .eraseSector | some .writePage | some .writeRam | some .go => true
  | some .init | some .getFlashId | some .exit | none => false

/-- What has to come: no more than fits, and an address for those that take one. -/
def InBounds (rx : List (Option Byte)) : Prop :=
  ∀ h rest, announced rx = some (h, rest) → 5 + h.len ≤ rxBufSize ∧
    (Complete h.len rest → takesAddress h.command = true → 4 ≤ h.len)

def Listening (s : Boot) (late : Bool) : Prop :=
  s.flow = .running ∧ ¬(s.bootWait = true ∧ late = true)

/-- The turn stays within `rxbuf`, and its handler within the payload that was received. -/
def TurnInBounds (t : Target) (s : Boot) (late : Bool) : Prop :=
  (∀ i ∈ (bootTurnLog t s late).stores, i < rxBufSize) ∧
    ∀ f ∈ received t s late, ∀ i ∈ handlerReads f.1.command f.1.len, i < f.1.len

section Line

variable {t : Target}

theorem readHeader_announced {late : Bool} {s s₁ : Boot} {h : Header}
    (hread : readHeader t late s = (s₁, some h)) :
    ¬(s.bootWait = true ∧ late = true) ∧ announced s.rx = some (h, s₁.rx) ∧
      s₁.timeoutHit = false := by
  obtain ⟨hto, hi, lo, hlen, hrx, -⟩ := readHeader_bytes hread
  refine ⟨fun hlate => ?_, ?_, hto⟩
  · rw [readHeader, readSync, if_pos hlate] at hread
    cases hread
  · rw [hrx]
    simp [headerBytes, announced, ← hlen]

theorem readInto_ok : ∀ (bytes : List Byte) (pos : Nat) {s : Boot} {rest : List (Option Byte)},
    s.rx = bytes.map some ++ rest → s.timeoutHit = false →
    (readInto t bytes.length pos s).rx = rest ∧ (readInto t bytes.length pos s).timeoutHit = false
  | [], _, _, _, hrx, hto => ⟨hrx, hto⟩
  | b :: bytes, pos, s, rest, hrx, hto => by
    refine readInto_ok bytes (pos + 1) ?_ ?_
    · simp [store, suartReadBlocking, hrx]
    · simp only [store, suartReadBlocking, hrx, map_cons, cons_append]
      exact hto

theorem readSync_ok {late : Bool} {s : Boot} {rest : List (Option Byte)}
    (hlate : ¬(s.bootWait = true ∧ late = true)) (hrx : s.rx = some 0x55 :: some 0xaa :: rest) :
    ∃ s₁, readSync t late s = (s₁, true) ∧ s₁.rx = rest ∧ s₁.timeoutHit = false := by
  refine ⟨store t { store t { s with timeoutHit := false, rx := some 0xaa :: rest } 0 0x55 with
    rx := rest } 1 0xaa, ?_, rfl, rfl⟩
  simp [readSync, if_neg hlate, suartReadBlocking, hrx, store]

theorem announced_readHeader {late : Bool} {s : Boot} {h : Header} {rest : List (Option Byte)}
    (hlate : ¬(s.bootWait = true ∧ late = true)) (hrx : announced s.rx = some (h, rest)) :
    ∃ s₁, readHeader t late s = (s₁, some h) ∧ s₁.rx = rest ∧ s₁.timeoutHit = false := by
  have hsome : ∃ s₁ h', readHeader t late s = (s₁, some h') := by
    unfold announced at hrx
    split at hrx
    · next a b command hi lo rest' hline =>
      split at hrx
      · next hab =>
        obtain ⟨s₀, hsync, hrx₀, hto₀⟩ := readSync_ok hlate
          (hab.1 ▸ hab.2 ▸ hline : s.rx = some 0x55 :: some 0xaa :: _)
        have hto : (readInto t 3 2 s₀).timeoutHit = false :=
          (readInto_ok [command, hi, lo] 2 hrx₀ hto₀).2
        rw [readHeader, hsync]
        dsimp only
        rw [if_neg (ne_true_of_eq_false hto)]
        exact ⟨_, _, rfl⟩
      · cases hrx
    · cases hrx
  obtain ⟨s₁, h', hread⟩ := hsome
  obtain ⟨-, hann, hto⟩ := readHeader_announced hread
  rw [hrx] at hann
  obtain ⟨hh, hr⟩ := Prod.mk.inj (Option.some.inj hann)
  exact ⟨s₁, hh ▸ hread, hr.symm, hto⟩

theorem readBody_complete {len : Nat} {s : Boot} (hto : s.timeoutHit = false) :
    (readBody t len s).2.isSome ↔ Complete len s.rx := by
  constructor
  · intro h
    unfold readBody at h
    dsimp only at h
    split at h
    · cases h
    · next hto₂ =>
      obtain ⟨hto₁, hrx₁⟩ := suartReadBlocking_some (eq_false_of_ne_true hto₂)
      obtain ⟨hto₀, hrx₀⟩ := suartReadBlocking_some hto₁
      obtain ⟨payload, hlen, -, hrx, -⟩ := readInto_bytes t len 5 s hto₀
      rw [hrx₁] at hrx₀
      rw [hrx₀] at hrx
      exact ⟨payload, _, _, _, hlen, hrx⟩
  · rintro ⟨payload, c₁, c₂, after, rfl, hrx⟩
    obtain ⟨hrx₀, hto₀⟩ := readInto_ok (t := t) payload 5 hrx hto
    unfold readBody
    simp [suartReadBlocking, hrx₀, hto₀]

end Line

/-! ## Turns and runs -/

section Bounds

variable {t : Target} {s : Boot} {late : Bool}

theorem received_iff {h : Header} (hrun : s.flow = .running) :
    (∃ f ∈ received t s late, f.1 = h) ↔ ¬(s.bootWait = true ∧ late = true) ∧
      ∃ rest, announced s.rx = some (h, rest) ∧ Complete h.len rest := by
  rw [received, if_neg (not_not.mpr hrun)]
  constructor
  · rintro ⟨f, hf, rfl⟩
    cases hhead : readHeader t late s with
    | mk s₁ o =>
      rw [hhead] at hf
      cases o with
      | none => cases hf
      | some h =>
        obtain ⟨hlate, hann, hto⟩ := readHeader_announced hhead
        obtain ⟨crc, hcrc, rfl⟩ := Option.map_eq_some_iff.mp hf
        refine ⟨hlate, s₁.rx, hann, (readBody_complete (t := t) hto).mp ?_⟩
        rw [hcrc]
        rfl
  · rintro ⟨hlate, rest, hann, hcomplete⟩
    obtain ⟨s₁, hhead, rfl, hto⟩ := announced_readHeader hlate hann
    obtain ⟨crc, hcrc⟩ := Option.isSome_iff_exists.mp ((readBody_complete hto).mpr hcomplete)
    rw [hhead]
    refine ⟨(h, crc, (readBody t h.len s₁).1), ?_, rfl⟩
    dsimp only
    rw [hcrc]
    rfl

theorem handlerReads_lt (command : Byte) (len : Nat) :
    (∀ i ∈ handlerReads command len, i < len) ↔ (takesAddress command = true → 4 ≤ len) := by
  have haddr : (∀ i ∈ List.range' 0 4, i < len) ↔ (true = true → 4 ≤ len) := by
    constructor
    · intro h _
      exact h 3 (by decide)
    · intro h i hi
      exact Nat.lt_of_lt_of_le (List.mem_range'_1.mp hi).2 (h rfl)
  have hdata : (∀ i ∈ List.range' 0 4 ++ List.range' 4 (len - 4), i < len) ↔
      (true = true → 4 ≤ len) := by
    rw [forall_mem_append, haddr, and_iff_left_iff_imp]
    intro h i hi
    have hi' := List.mem_range'_1.mp hi
    omega
  have hnone : (∀ i ∈ ([] : List Nat), i < len) ↔ (false = true → 4 ≤ len) :=
    iff_of_true (fun i hi => (nomatch hi)) fun h => (nomatch h)
  unfold handlerReads takesAddress
  cases Command.ofByte command with
  | none => exact hnone
  | some c =>
    cases c with
    | init | getFlashId | exit => exact hnone
    | eraseSector | go => exact haddr
    | writePage | writeRam => exact hdata

theorem stores_lt_iff (hrun : s.flow = .running) :
    (∀ i ∈ (bootTurnLog t s late).stores, i < rxBufSize) ↔
      ∀ h ∈ (readHeader t late s).2, 5 + h.len ≤ rxBufSize := by
  obtain ⟨first, hfirst, heq⟩ := bootTurnLog_eq s late
  have hfirst' : ∀ i ∈ first, i < rxBufSize := fun i hi =>
    Nat.lt_of_lt_of_le (hfirst i hi) (by decide)
  rw [heq, if_neg (not_not.mpr hrun)]
  rw [forall_mem_append, and_iff_right hfirst']
  cases (readHeader t late s).2 with
  | none => exact iff_of_true (fun i hi => (nomatch hi)) fun h hh => (nomatch hh)
  | some h =>
    constructor
    · intro hall h' hh'
      cases hh'
      by_contra hgt
      have hlast := hall (5 + h.len - 1) (List.mem_range'_1.mpr (by
        rw [rxBufSize] at hgt
        omega))
      omega
    · intro hall i hi
      have hi' := List.mem_range'_1.mp hi
      have hlen := hall h rfl
      omega

theorem turnInBounds_iff : TurnInBounds t s late ↔ (Listening s late → InBounds s.rx) := by
  rw [TurnInBounds]
  by_cases hrun : s.flow = .running
  · rw [stores_lt_iff hrun]
    constructor
    · rintro ⟨hstores, hreads⟩ ⟨-, hlate⟩ h rest hann
      obtain ⟨s₁, hhead, -, -⟩ := announced_readHeader hlate hann
      refine ⟨hstores h (by rw [hhead]; rfl), fun hcomplete => ?_⟩
      obtain ⟨f, hf, rfl⟩ := (received_iff hrun).mpr ⟨hlate, rest, hann, hcomplete⟩
      exact (handlerReads_lt f.1.command f.1.len).mp (hreads f hf)
    · intro h
      constructor
      · intro head hhead
        have hread : readHeader t late s = ((readHeader t late s).1, some head) :=
          Prod.ext rfl hhead
        obtain ⟨hlate, hann, -⟩ := readHeader_announced hread
        exact (h ⟨hrun, hlate⟩ head _ hann).1
      · intro f hf
        obtain ⟨hlate, rest, hann, hcomplete⟩ := (received_iff hrun).mp ⟨f, hf, rfl⟩
        exact (handlerReads_lt f.1.command f.1.len).mpr
          ((h ⟨hrun, hlate⟩ f.1 rest hann).2 hcomplete)
  · -- the loop has ended
    refine iff_of_true ⟨?_, ?_⟩ fun h => absurd h.1 hrun
    · rw [bootTurnLog, if_pos hrun]
      exact fun i hi => (nomatch hi)
    · rw [(bootTurn_of_stopped hrun late).2]
      exact fun f hf => (nomatch hf)

end Bounds

/-- **The receive buffer.**  On every stream, with any timeouts, from any state in which `boot_fsm`
is entered: no turn stores behind `rxbuf` and no handler reads behind the payload of its frame,
in exactly the runs in which no header announces more than 267 bytes, and no complete
frame with a command that takes an address less than four. -/
theorem bootFsm_inBounds_iff (t : Target) (s : Boot) (lates : List Bool) :
    Run.Steps (bootTurn t) (TurnInBounds t) (bootStart s) lates ↔
      Run.Steps (bootTurn t) (fun s late => Listening s late → InBounds s.rx) (bootStart s) lates :=
  Run.steps_congr ((Run.steps_true (bootStart s) lates).mono fun _ _ _ => turnInBounds_iff)

/-- `CMD_INIT` with a length of 268, and nothing behind it. -/
def longHeader : List Byte := headerBytes 1 1 12

/-- `CMD_ERASE_SECTOR` without payload, and its CRC. -/
def emptyErase : List Byte := headerBytes 2 0 0 ++ crcBytes (crc16 (headerBytes 2 0 0))

/-- The first stores behind the buffer, before it can know that nothing comes; the second erases
the sector of an address that was not sent. -/
theorem bootFsm_outOfBounds :
    272 ∈ (bootTurnLog sampleTarget (bootStart (booting longHeader)) false).stores ∧
      ∃ f ∈ received sampleTarget (bootStart (booting emptyErase)) false,
        f.1 = ⟨2, 0⟩ ∧ handlerReads 2 0 = [0, 1, 2, 3] ∧
        (bootTurn sampleTarget (bootStart (booting emptyErase)) false).flash.length = 1 := by
  refine ⟨by decide +kernel, (⟨2, 0⟩, _, _), rfl, rfl, by decide, ?_⟩
  decide +kernel

end Wrpc.Bootloader
