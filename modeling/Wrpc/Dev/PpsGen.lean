/-
# Reading the time of the PPS generator (`pps_gen.c`)

The PPS generator counts seconds in two registers (32 low and 8 high bits) and
cycles of the reference clock in a third.  It goes on counting while software reads
one register after the other.  `shw_pps_gen_get_time` reads the seconds before and
after the cycles, and starts again when the two differ.

## What is assumed

The registers show one time, counted in cycles of the reference clock, and the
`k`-th read of the program happens at time `t k` (`PpsBus`).  `t` never decreases;
any number of cycles or seconds may pass from one read to the next.

A turn that finds the seconds unchanged returns the time at which it read the cycles
(`turn_valid`): a torn pair of second registers is never equal to an untorn one.
-/
import Wrpc.Dev.MinicTx

namespace Wrpc

open BitVec Nat

inductive PpsReg where
  | cntrNsec | cntrUtclo | cntrUtchi
deriving DecidableEq, Repr

/-- What the program's reads see: the `k`-th read of all, and the register it reads. -/
abbrev PpsReads := Nat → PpsReg → BitVec 32

/-- `pps_get_utc`, beginning with read `k`. -/
def ppsGetUtc (rd : PpsReads) (k : Nat) : BitVec 64 :=
  let low := rd k .cntrUtclo
  -- CNTR_UTCHI has only 8 bits defined
  let high := rd (k + 1) .cntrUtchi &&& 0xff
  low.setWidth 64 ||| high.setWidth 64 <<< 32

/-- `NS_PER_CLOCK` -/
def RefClock.nsPerClock (clk : RefClock) : Nat := clk.periodPs / 1000

structure PpsTime where
  seconds : BitVec 64
  nanoseconds : BitVec 32
deriving DecidableEq, Repr

/-- `shw_pps_gen_get_time`, beginning with read `k` and with `fuel` turns of its loop:
the time, and the number of the next read. -/
def shwPpsGenGetTime (clk : RefClock) (rd : PpsReads) : (fuel k : Nat) → Option (PpsTime × Nat)
  | 0, _ => none
  | fuel + 1, k =>
    let sec1 := ppsGetUtc rd k
    let nsCnt := rd (k + 2) .cntrNsec &&& 0xfffffff
    let sec2 := ppsGetUtc rd (k + 3)
    if sec2 ≠ sec1 then shwPpsGenGetTime clk rd fuel (k + 5)
    else some (⟨sec2, nsCnt * BitVec.ofNat 32 clk.nsPerClock⟩, k + 5)

/-! ## The counters -/

def RefClock.sec (clk : RefClock) (t : Nat) : Nat := t / clk.freqHz

def RefClock.cycles (clk : RefClock) (t : Nat) : Nat := t % clk.freqHz

/-- What the registers show at time `t`. -/
def RefClock.ppsTime (clk : RefClock) (t : Nat) : PpsTime :=
  ⟨BitVec.ofNat 64 (clk.sec t), BitVec.ofNat 32 (clk.cycles t * clk.nsPerClock)⟩

/-- The registers show the time at the moment they are read.  The undefined bits of the
high and the cycle register may show anything. -/
structure PpsBus (clk : RefClock) (t : Nat → Nat) (rd : PpsReads) : Prop where
  monotone : Monotone t
  range : ∀ k, clk.sec (t k) < 2 ^ 40
  utclo : ∀ k, (rd k .cntrUtclo).toNat = clk.sec (t k) % 2 ^ 32
  utchi : ∀ k, (rd k .cntrUtchi).toNat % 2 ^ 8 = clk.sec (t k) / 2 ^ 32
  nsec : ∀ k, (rd k .cntrNsec).toNat % 2 ^ 28 = clk.cycles (t k)

variable {clk : RefClock} {t : Nat → Nat} {rd : PpsReads}

theorem RefClock.freqHz_pos (clk : RefClock) : 0 < clk.freqHz := by
  rcases clk.supported with ⟨-, h⟩ | ⟨-, h⟩
  · omega
  · omega

theorem RefClock.sec_mono (clk : RefClock) : Monotone clk.sec :=
  fun _ _ h => Nat.div_le_div_right h

theorem RefClock.sec_add_cycles (clk : RefClock) (t : Nat) :
    t = clk.freqHz * clk.sec t + clk.cycles t := (div_add_mod t clk.freqHz).symm

theorem RefClock.cycles_lt (clk : RefClock) (t : Nat) : clk.cycles t < clk.freqHz :=
  mod_lt t clk.freqHz_pos

/-- The two halves of the seconds, as `pps_get_utc` joins them: the low one of read `k`
and the high one of the read after it. -/
theorem ppsGetUtc_toNat (h : PpsBus clk t rd) (k : Nat) :
    (ppsGetUtc rd k).toNat =
      2 ^ 32 * (clk.sec (t (k + 1)) / 2 ^ 32) + clk.sec (t k) % 2 ^ 32 := by
  have hlow := h.utclo k
  have hhigh := h.utchi (k + 1)
  have hmask : (rd (k + 1) .cntrUtchi &&& 0xff).toNat = clk.sec (t (k + 1)) / 2 ^ 32 := by
    rw [toNat_and, ← hhigh]
    exact and_two_pow_sub_one_eq_mod _ 8
  unfold ppsGetUtc
  rw [toNat_or, toNat_shiftLeft, toNat_setWidth, toNat_setWidth, hmask,
    hlow]
  have hsmall : clk.sec (t k) % 2 ^ 32 % 2 ^ 64 = clk.sec (t k) % 2 ^ 32 := by omega
  have hfit : (clk.sec (t (k + 1)) / 2 ^ 32 % 2 ^ 64) <<< 32 % 2 ^ 64 =
      (clk.sec (t (k + 1)) / 2 ^ 32) <<< 32 := by
    omega
  rw [hsmall, hfit, Nat.or_comm, ← shiftLeft_add_eq_or_of_lt (mod_lt _ (by decide)),
    Nat.shiftLeft_eq, Nat.mul_comm]

theorem ppsGetUtc_eq (h : PpsBus clk t rd) {k : Nat}
    (hsame : clk.sec (t (k + 1)) = clk.sec (t k)) : (ppsGetUtc rd k).toNat = clk.sec (t k) := by
  rw [ppsGetUtc_toNat h, hsame, div_add_mod]

/-- **A turn that ends the loop** has read the seconds that belong to its cycles. -/
theorem turn_valid (h : PpsBus clk t rd) {k : Nat}
    (hshort : clk.sec (t (k + 4)) < clk.sec (t k) + 2 ^ 32)
    (hsame : ppsGetUtc rd (k + 3) = ppsGetUtc rd k) :
    (ppsGetUtc rd (k + 3)).toNat = clk.sec (t (k + 2)) := by
  have hval := congrArg BitVec.toNat hsame
  have hmono : Monotone fun i => clk.sec (t i) := clk.sec_mono.comp h.monotone
  have h01 : clk.sec (t k) ≤ clk.sec (t (k + 1)) := hmono (by omega)
  have h12 : clk.sec (t (k + 1)) ≤ clk.sec (t (k + 2)) := hmono (by omega)
  have h23 : clk.sec (t (k + 2)) ≤ clk.sec (t (k + 3)) := hmono (by omega)
  have h34 : clk.sec (t (k + 3)) ≤ clk.sec (t (k + 4)) := hmono (by omega)
  rw [ppsGetUtc_toNat h, ppsGetUtc_toNat h] at hval
  rw [ppsGetUtc_toNat h]
  -- the high halves of reads 1 to 4 agree, and so do the low halves of reads 0 and 3
  omega

theorem nanoseconds_eq (h : PpsBus clk t rd) (k : Nat) :
    (rd k .cntrNsec &&& 0xfffffff) * BitVec.ofNat 32 clk.nsPerClock =
      BitVec.ofNat 32 (clk.cycles (t k) * clk.nsPerClock) := by
  have hmask : (rd k .cntrNsec &&& 0xfffffff).toNat = clk.cycles (t k) := by
    rw [toNat_and, ← h.nsec k]
    exact and_two_pow_sub_one_eq_mod _ 28
  apply eq_of_toNat_eq
  rw [toNat_mul, toNat_ofNat, toNat_ofNat, hmask, mul_mod_mod]

/-- **What `shw_pps_gen_get_time` returns was valid when the cycles were read**, however
many turns it took: its last read but two. -/
theorem getTime_valid (h : PpsBus clk t rd) : ∀ {fuel k n : Nat} {r : PpsTime},
    shwPpsGenGetTime clk rd fuel k = some (r, n) →
      clk.sec (t (n - 1)) < clk.sec (t k) + 2 ^ 32 →
        k + 5 ≤ n ∧ r = clk.ppsTime (t (n - 3))
  | 0, _, _, _, hret, _ => nomatch hret
  | fuel + 1, k, n, r, hret, hshort => by
    rw [shwPpsGenGetTime] at hret
    split at hret
    · have hk : clk.sec (t k) ≤ clk.sec (t (k + 5)) := clk.sec_mono (h.monotone (by omega))
      obtain ⟨hle, hr⟩ := getTime_valid h hret (by omega)
      exact ⟨by omega, hr⟩
    · next hsame =>
      cases hret
      refine ⟨Nat.le_refl _, ?_⟩
      have hsec := turn_valid h hshort (not_not.mp hsame)
      rw [nanoseconds_eq h, RefClock.ppsTime]
      congr 1
      apply eq_of_toNat_eq
      rw [hsec, toNat_ofNat]
      exact (mod_eq_of_lt (by omega)).symm

theorem getTime_turn (h : PpsBus clk t rd) {k : Nat}
    (hsame : clk.sec (t (k + 4)) = clk.sec (t k)) (fuel : Nat) :
    ∃ r, shwPpsGenGetTime clk rd (fuel + 1) k = some (r, k + 5) := by
  have hmono : Monotone fun i => clk.sec (t i) := clk.sec_mono.comp h.monotone
  have h01 : clk.sec (t k) ≤ clk.sec (t (k + 1)) := hmono (by omega)
  have h13 : clk.sec (t (k + 1)) ≤ clk.sec (t (k + 3)) := hmono (by omega)
  have h34 : clk.sec (t (k + 3)) ≤ clk.sec (t (k + 4)) := hmono (by omega)
  have h1 : (ppsGetUtc rd k).toNat = clk.sec (t k) := ppsGetUtc_eq h (by omega)
  have h2 : (ppsGetUtc rd (k + 3)).toNat = clk.sec (t (k + 3)) :=
    ppsGetUtc_eq h (show clk.sec (t (k + 4)) = clk.sec (t (k + 3)) by omega)
  have heq : ppsGetUtc rd (k + 3) = ppsGetUtc rd k := by
    apply eq_of_toNat_eq
    omega
  rw [shwPpsGenGetTime, if_neg (not_not.mpr heq)]
  exact ⟨_, rfl⟩

/-- **Two turns are enough** when a second does not pass during them. -/
theorem getTime_returns (h : PpsBus clk t rd) {k : Nat} (hfast : t (k + 9) < t k + clk.freqHz)
    (fuel : Nat) :
    ∃ r n, n ≤ k + 10 ∧ shwPpsGenGetTime clk rd (fuel + 2) k = some (r, n) := by
  have hmono : Monotone fun i => clk.sec (t i) := clk.sec_mono.comp h.monotone
  by_cases hfirst : clk.sec (t (k + 4)) = clk.sec (t k)
  · obtain ⟨r, hr⟩ := getTime_turn h hfirst (fuel + 1)
    exact ⟨r, k + 5, by omega, hr⟩
  · -- the second changed during the first turn, so it does not during the second
    have h04 : clk.sec (t k) ≤ clk.sec (t (k + 4)) := hmono (by omega)
    have h45 : clk.sec (t (k + 4)) ≤ clk.sec (t (k + 5)) := hmono (by omega)
    have h59 : clk.sec (t (k + 5)) ≤ clk.sec (t (k + 9)) := hmono (by omega)
    have hnext : clk.sec (t (k + 9)) ≤ clk.sec (t k) + 1 := by
      calc clk.sec (t (k + 9)) ≤ clk.sec (t k + clk.freqHz) := clk.sec_mono hfast.le
        _ = clk.sec (t k) + 1 := add_div_right _ clk.freqHz_pos
    rw [shwPpsGenGetTime]
    split
    · obtain ⟨r, hr⟩ := getTime_turn h (show clk.sec (t (k + 5 + 4)) = clk.sec (t (k + 5)) by
        change clk.sec (t (k + 9)) = _
        omega) fuel
      exact ⟨r, k + 10, Nat.le_refl _, hr⟩
    · exact ⟨_, k + 5, by omega, rfl⟩

/-! ## The second of a stamp -/

def stampSec (clk : RefClock) (sec : BitVec 64) (counterR counterPpsg : Nat) : BitVec 64 :=
  if counterR > 3 * clk.freqHz / 4 ∧ counterPpsg < 250000000 then sec - 1 else sec

theorem nanoseconds_lt_iff (clk : RefClock) (t : Nat) :
    (clk.ppsTime t).nanoseconds.toNat < 250000000 ↔ 4 * clk.cycles t < clk.freqHz := by
  have hlt := clk.cycles_lt t
  unfold RefClock.ppsTime RefClock.nsPerClock
  rw [toNat_ofNat]
  rcases clk.supported with ⟨hp, hf⟩ | ⟨hp, hf⟩
  · rw [hp, mod_eq_of_lt (by omega)]
    omega
  · rw [hp, mod_eq_of_lt (by omega)]
    omega

/-- **The second of a stamp** taken at `t₀`, from a time less than a quarter of a second
later. -/
theorem stampSec_exact (clk : RefClock) {t₀ t₁ : Nat} (hle : t₀ ≤ t₁)
    (hquarter : 4 * (t₁ - t₀) < clk.freqHz) :
    stampSec clk (clk.ppsTime t₁).seconds (clk.cycles t₀) (clk.ppsTime t₁).nanoseconds.toNat =
      BitVec.ofNat 64 (clk.sec t₀) := by
  have h₀ := clk.sec_add_cycles t₀
  have h₁ := clk.sec_add_cycles t₁
  have hc₀ := clk.cycles_lt t₀
  have hsec : clk.sec t₀ ≤ clk.sec t₁ := clk.sec_mono hle
  have hnext : clk.sec t₁ ≤ clk.sec t₀ + 1 := by
    calc clk.sec t₁ ≤ clk.sec (t₀ + clk.freqHz) := clk.sec_mono (by omega)
      _ = clk.sec t₀ + 1 := add_div_right _ clk.freqHz_pos
  have hns := nanoseconds_lt_iff clk t₁
  rw [stampSec]
  by_cases hsame : clk.sec t₁ = clk.sec t₀
  · -- the cycles have gone on from those of the stamp
    rw [hsame] at h₁
    rw [if_neg (by rw [hns]; omega)]
    exact congrArg (BitVec.ofNat 64) hsame
  · have hsucc : clk.sec t₁ = clk.sec t₀ + 1 := by omega
    rw [hsucc, Nat.mul_succ] at h₁
    rw [if_pos (by rw [hns]; omega)]
    change BitVec.ofNat 64 (clk.sec t₁) - 1 = _
    rw [hsucc]
    apply eq_of_toNat_eq
    rw [toNat_sub, toNat_ofNat, toNat_ofNat]
    change (2 ^ 64 - 1 + (clk.sec t₀ + 1) % 2 ^ 64) % 2 ^ 64 = _
    omega

theorem minicRxHwts_sec (clk : RefClock) (sec : BitVec 64) (counterPpsg : Nat)
    (oobHdr : BitVec 16) (rawTs phase : BitVec 32) :
    (minicRxHwts clk sec counterPpsg oobHdr rawTs phase).sec =
      stampSec clk sec (explodeRc rawTs) counterPpsg := rfl

/-- A call that finds a frame whose out-of-band words came with the stamp `counterR`. -/
def RxStamped (nic : Nic) (c : RxCall) (counterR : Nat) : Prop :=
  nic.fifo ≠ [] ∧ (rxLoop c.bufSize c.start nic.fifo).1.oobCnt ≠ 0 ∧
    (rxLoop c.bufSize c.start nic.fifo).1.oobCnt ≤ 3 ∧
    explodeRc (rxLoop c.bufSize c.start nic.fifo).1.rawTs = counterR

theorem minicRxFrame_sec (clk : RefClock) {nic : Nic} {c : RxCall} {counterR : Nat}
    (h : RxStamped nic c counterR) :
    (minicRxFrame clk nic c).1.hwts.sec = stampSec clk c.sec counterR c.counterPpsg := by
  obtain ⟨hne, hzero, hthree, hraw⟩ := h
  have hoob : ¬((rxLoop c.bufSize c.start nic.fifo).1.oobCnt = 0 ∨
      3 < (rxLoop c.bufSize c.start nic.fifo).1.oobCnt) := by omega
  rw [minicRxFrame, if_neg hne]
  dsimp only
  split
  · exact (minicRxHwts_sec ..).trans (by rw [hraw])
  · exact (minicRxHwts_sec ..).trans (by rw [hraw])

theorem minicTxFrame_sec (clk : RefClock) (txCount : BitVec 32) {c : TxCall} {hwts : HwTimestamp}
    (h : c.hwts = some hwts) :
    (minicTxFrame clk txCount c).1.hwts.map HwTimestamp.sec =
      some (stampSec clk c.sec (explodeRc c.tsr1) c.nsec) := by
  rw [minicTxFrame, h]
  rfl

/-- **Frame stamps belong to the right second.**  The stamp is taken at `t₀`, before the
time is read.  When the reads end within a quarter of a second from there, the time
that is read was valid during the call, and both functions find the second of `t₀`;
and the reads do end, with the tenth at the latest. -/
theorem frameStamp_rightSecond (h : PpsBus clk t rd) {t₀ : Nat} (hbefore : t₀ ≤ t 0) :
    (4 * (t 9 - t₀) < clk.freqHz →
      ∀ fuel, ∃ r n, n ≤ 10 ∧ shwPpsGenGetTime clk rd (fuel + 2) 0 = some (r, n)) ∧
    ∀ {fuel n : Nat} {r : PpsTime}, shwPpsGenGetTime clk rd fuel 0 = some (r, n) →
      4 * (t (n - 1) - t₀) < clk.freqHz →
        (∃ k, k < n ∧ r = clk.ppsTime (t k)) ∧
        (∀ (nic : Nic) (c : RxCall), c.sec = r.seconds → c.counterPpsg = r.nanoseconds.toNat →
          RxStamped nic c (clk.cycles t₀) →
            (minicRxFrame clk nic c).1.hwts.sec = BitVec.ofNat 64 (clk.sec t₀)) ∧
        ∀ (txCount : BitVec 32) (c : TxCall), c.sec = r.seconds →
          c.nsec = r.nanoseconds.toNat → c.hwts.isSome → explodeRc c.tsr1 = clk.cycles t₀ →
            (minicTxFrame clk txCount c).1.hwts.map HwTimestamp.sec =
              some (BitVec.ofNat 64 (clk.sec t₀)) := by
  constructor
  · intro hfast fuel
    have hten := getTime_returns h (show t (0 + 9) < t 0 + clk.freqHz by
      rw [Nat.zero_add]
      omega) fuel
    exact hten
  · intro fuel n r hret hquarter
    have hend : clk.sec (t (n - 1)) < clk.sec (t 0) + 2 ^ 32 := by
      have hle : clk.sec (t (n - 1)) ≤ clk.sec (t 0 + clk.freqHz) := clk.sec_mono (by omega)
      have hnext : clk.sec (t 0 + clk.freqHz) = clk.sec (t 0) + 1 :=
        add_div_right _ clk.freqHz_pos
      omega
    obtain ⟨hn, hr⟩ := getTime_valid h hret hend
    have hle₁ : t 0 ≤ t (n - 3) := h.monotone (Nat.zero_le _)
    have hle₂ : t (n - 3) ≤ t (n - 1) := h.monotone (by omega)
    have hexact : stampSec clk r.seconds (clk.cycles t₀) r.nanoseconds.toNat =
        BitVec.ofNat 64 (clk.sec t₀) := by
      rw [hr]
      exact stampSec_exact clk (by omega) (by omega)
    refine ⟨⟨n - 3, by omega, hr⟩, ?_, ?_⟩
    · intro nic c hsec hns hstamp
      rw [minicRxFrame_sec clk hstamp, hsec, hns, hexact]
    · intro txCount c hsec hns hsome hraw
      obtain ⟨hwts, hhwts⟩ := Option.isSome_iff_exists.mp hsome
      rw [minicTxFrame_sec clk txCount hhwts, hsec, hns, hraw, hexact]

def ppsRegs (clk : RefClock) (t : Nat → Nat) : PpsReads := fun k reg =>
  match reg with
  | .cntrNsec => BitVec.ofNat 32 (clk.cycles (t k))
  | .cntrUtclo => BitVec.ofNat 32 (clk.sec (t k))
  | .cntrUtchi => BitVec.ofNat 32 (clk.sec (t k) / 2 ^ 32)

theorem ppsBus_regs (clk : RefClock) {t : Nat → Nat} (hmono : Monotone t)
    (hrange : ∀ k, clk.sec (t k) < 2 ^ 40) : PpsBus clk t (ppsRegs clk t) where
  monotone := hmono
  range := hrange
  utclo k := toNat_ofNat _ _
  utchi k := by
    have := hrange k
    rw [ppsRegs, toNat_ofNat]
    omega
  nsec k := by
    have hlt := clk.cycles_lt (t k)
    have hfreq : clk.freqHz ≤ 125000000 := by
      rcases clk.supported with ⟨-, hf⟩ | ⟨-, hf⟩
      · omega
      · omega
    rw [ppsRegs, toNat_ofNat]
    omega

def slowClock : RefClock := ⟨16000, 62500000, .inr ⟨rfl, rfl⟩⟩

/-- The second `2^32` begins between the first two reads. -/
def carryTime (k : Nat) : Nat := 62500000 * 2 ^ 32 - 1 + min k 20

theorem carryTime_bus : PpsBus slowClock carryTime (ppsRegs slowClock carryTime) := by
  apply ppsBus_regs
  · intro a b h
    unfold carryTime
    omega
  · intro k
    change (62500000 * 2 ^ 32 - 1 + min k 20) / 62500000 < 2 ^ 40
    omega

def carryCall : TxCall :=
  ⟨fun _ => 0, fun _ => 0, 46, some ⟨0, 0, 0, 0, 0⟩, true, 1, 62499900, 0x100000000, 96⟩

/-- The first turn joins the low half of second `2^32 - 1` with the high half of the next
one and is repeated; the stamp belongs to second `2^32 - 1`. -/
theorem frameStamp_rightSecond_carry :
    shwPpsGenGetTime slowClock (ppsRegs slowClock carryTime) 2 0 = some (⟨0x100000000, 96⟩, 10) ∧
    (minicTxFrame slowClock 0 carryCall).1.hwts.map HwTimestamp.sec = some 0xffffffff := by
  have hret : shwPpsGenGetTime slowClock (ppsRegs slowClock carryTime) 2 0 =
      some (⟨0x100000000, 96⟩, 10) := by decide +kernel
  have hstamp := (frameStamp_rightSecond carryTime_bus
    (show 62500000 * 2 ^ 32 - 100 ≤ carryTime 0 by decide)).2 hret (by decide)
  exact ⟨hret, hstamp.2.2 0 carryCall (by decide) (by decide) rfl (by decide)⟩

end Wrpc
