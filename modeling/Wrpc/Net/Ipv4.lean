/-
# Checksums and addresses of the IP stack (`ipv4.c`)

`ipv4_checksum` adds 16-bit words in network order and complements the sum.  What a
receiver does is `Verifies`: the one's-complement sum over the bytes, the checksum
field among them and an odd last byte filled up with 0, is `0xffff`.

Memory and byte lists meet in `sumShorts_read`: the loop over shorts adds the words of
the bytes it is given, and the byte behind an odd number of them.
-/
import Wrpc.Lib.Mem
import Wrpc.Lib.OnesComplement

namespace Wrpc.Net

open List Nat Mem

/-- `ntohs` of the short at a byte offset. -/
def wordAt (m : Mem) (off : Nat) : Nat := 256 * (m off).toNat + (m (off + 1)).toNat

/-- `sum` after `shorts` turns of the loop of `ipv4_checksum`. -/
def sumShorts (m : Mem) (off : Nat) : Nat → Nat
  | 0 => 0
  | i + 1 => (sumShorts m off i + wordAt m (off + 2 * i)) % 2 ^ 32

/-- `ipv4_checksum` of the shorts at `off`. -/
def ipv4Checksum (m : Mem) (off shorts : Nat) : Nat :=
  let sum := sumShorts m off shorts
  let sum := sum / 65536 + sum % 65536
  let sum := (sum + sum / 65536) % 2 ^ 32
  65535 - sum % 65536

structure InAddr where
  a : Byte
  b : Byte
  c : Byte
  d : Byte
deriving DecidableEq, Repr

def InAddr.bytes (x : InAddr) : List Byte := [x.a, x.b, x.c, x.d]

def inAddrAt (m : Mem) (off : Nat) : InAddr := ⟨m off, m (off + 1), m (off + 2), m (off + 3)⟩

/-- `ip_status` -/
inductive IpStatus where
  | training | okBootp | okStatic
deriving DecidableEq, Repr

/-- `ip_status` and `wrc_global_link.ip_addr`. -/
structure IpState where
  status : IpStatus
  myIP : InAddr
deriving DecidableEq, Repr

/-- `check_dest_ip` finds our own address: it returns 0. -/
def checkDestIp (myIP : InAddr) (buf : Mem) : Bool := inAddrAt buf 16 = myIP

/-- The high byte of a length or a checksum, as it is stored. -/
def hi8 (n : Nat) : Byte := BitVec.ofNat 8 (n / 256)

def lo8 (n : Nat) : Byte := BitVec.ofNat 8 n

/-- The IP header `fill_udp` and `process_icmp` build, with a checksum of 0. -/
def fillIp (buf : Mem) (len : Nat) (proto : Byte) (saddr daddr : InAddr) : Mem :=
  let buf := buf.set 0 0x45
  let buf := buf.set 1 0
  let buf := buf.set 2 (hi8 len)
  let buf := buf.set 3 (lo8 len)
  let buf := buf.set 4 0
  let buf := buf.set 5 0
  let buf := buf.set 6 0
  let buf := buf.set 7 0
  let buf := buf.set 8 63
  let buf := buf.set 9 proto
  let buf := buf.set 10 0
  let buf := buf.set 11 0
  let buf := buf.write 12 saddr.bytes
  buf.write 16 daddr.bytes

/-- The checksum over the shorts at `off` goes into a field. -/
def storeChecksum (buf : Mem) (field off shorts : Nat) : Mem :=
  let sum := ipv4Checksum buf off shorts
  let buf := buf.set field (hi8 sum)
  buf.set (field + 1) (lo8 sum)

/-! ## Words of a packet -/

/-- The 16-bit words of a packet; an odd last byte is the high half of a word. -/
def words : List Byte → List Nat
  | [] => []
  | [x] => [256 * x.toNat]
  | x :: y :: l => (256 * x.toNat + y.toNat) :: words l

def Verifies (bs : List Byte) : Prop := Ones.sum 65536 (words bs) = 0xffff

instance (bs : List Byte) : Decidable (Verifies bs) := by
  unfold Verifies
  infer_instance

variable (m : Mem) (off shorts : Nat)

theorem words_lt : ∀ (bs : List Byte), ∀ w ∈ words bs, w < 65536
  | [], _, h => nomatch h
  | [x], w, h => by
    rw [List.mem_singleton.mp h]
    omega
  | x :: y :: l, w, h => by
    rcases List.mem_cons.mp h with rfl | h
    · omega
    · exact words_lt l w h

theorem words_append {as : List Byte} (bs : List Byte) (h : as.length % 2 = 0) :
    words (as ++ bs) = words as ++ words bs := by
  match as, h with
  | [], _ => rfl
  | x :: y :: l, h =>
    have hl : l.length % 2 = 0 := by
      rw [length_cons, length_cons] at h
      omega
    exact congrArg (_ :: ·) (words_append bs hl)

theorem verifies_iff (bs : List Byte) :
    Verifies bs ↔ 65535 ∣ (words bs).sum ∧ (words bs).sum ≠ 0 :=
  Ones.sum_eq_top_iff (by decide) (words_lt bs)

theorem word_stored {n : Nat} (h : n < 65536) : 256 * (hi8 n).toNat + (lo8 n).toNat = n := by
  unfold hi8 lo8
  rw [BitVec.toNat_ofNat, BitVec.toNat_ofNat]
  omega

theorem words_sum_field {as : List Byte} (has : as.length % 2 = 0) {c : Nat} (hc : c < 65536)
    (bs : List Byte) :
    (words (as ++ hi8 c :: lo8 c :: bs)).sum = (words (as ++ 0 :: 0 :: bs)).sum + c := by
  have hword := word_stored hc
  have hzero : (0 : Byte).toNat = 0 := rfl
  rw [words_append _ has, words_append _ has, sum_append_nat, sum_append_nat, words, words,
    sum_cons, sum_cons]
  omega

/-! ## What the loop adds -/

theorem sumShorts_le (m : Mem) (off : Nat) : ∀ (n : Nat), sumShorts m off n ≤ 65535 * n
  | 0 => Nat.le_refl 0
  | n + 1 => by
    have ih := sumShorts_le m off n
    have hw : wordAt m (off + 2 * n) ≤ 65535 := by
      unfold wordAt
      omega
    rw [sumShorts]
    omega

theorem sumShorts_succ {n : Nat} (hn : n < 65536) :
    sumShorts m off (n + 1) = sumShorts m off n + wordAt m (off + 2 * n) := by
  have hle := sumShorts_le m off n
  have hw : wordAt m (off + 2 * n) ≤ 65535 := by
    unfold wordAt
    omega
  exact mod_eq_of_lt (by omega)

theorem words_sum_even (m : Mem) (off : Nat) : ∀ {n : Nat}, n ≤ 65536 →
    (words (m.read off (2 * n))).sum = sumShorts m off n
  | 0, _ => rfl
  | n + 1, hn => by
    have hlast : words (m.read (off + 2 * n) 2) = [wordAt m (off + 2 * n)] := rfl
    rw [mul_succ, read_append, words_append _ (by rw [read_length]; omega),
      sum_append_nat, words_sum_even m off (by omega), hlast, sumShorts_succ m off (by omega),
      sum_singleton]

/-- **The loop adds the words of the bytes it reads**, and with an odd number of them the
byte behind. -/
theorem sumShorts_read {len : Nat} (hlen : len < 2 ^ 17) :
    sumShorts m off ((len + 1) / 2) =
      (words (m.read off len)).sum + if len % 2 = 1 then (m (off + len)).toNat else 0 := by
  by_cases hodd : len % 2 = 1
  · obtain ⟨k, hk⟩ : ∃ k, len = 2 * k + 1 := ⟨len / 2, by omega⟩
    have hhalf : (len + 1) / 2 = k + 1 := by omega
    have hlast : words (m.read (off + 2 * k) 1) = [256 * (m (off + 2 * k)).toNat] := rfl
    rw [if_pos hodd, hhalf, sumShorts_succ m off (by omega), wordAt, hk, read_append,
      words_append _ (by rw [read_length]; omega), sum_append_nat,
      words_sum_even m off (by omega), hlast, sum_singleton, ← add_assoc, ← add_assoc]
  · obtain ⟨k, hk⟩ : ∃ k, len = 2 * k := ⟨len / 2, by omega⟩
    have hhalf : (len + 1) / 2 = k := by omega
    rw [if_neg hodd, hhalf, hk, words_sum_even m off (by omega), Nat.add_zero]

theorem ipv4Checksum_eq :
    ipv4Checksum m off shorts = 65535 - Ones.fold 65536 (sumShorts m off shorts) := by
  unfold ipv4Checksum Ones.fold
  dsimp only
  omega

theorem sumShorts_lt : ∀ (n : Nat), sumShorts m off n < 65536 * 65536
  | 0 => succ_pos _
  | _ + 1 => mod_lt _ (by decide)

theorem ipv4Checksum_lt : ipv4Checksum m off shorts < 65536 := by
  unfold ipv4Checksum
  dsimp only
  omega

theorem ipv4Checksum_modEq {m m' : Mem} {off off' shorts shorts' : Nat}
    (h : ipv4Checksum m off shorts = ipv4Checksum m' off' shorts') :
    sumShorts m off shorts ≡ sumShorts m' off' shorts' [MOD 65535] := by
  have hlt := (Ones.residue_fold (by decide) (sumShorts_lt m off shorts)).lt
  have hlt' := (Ones.residue_fold (by decide) (sumShorts_lt m' off' shorts')).lt
  rw [ipv4Checksum_eq, ipv4Checksum_eq] at h
  exact Ones.modEq_of_fold_eq (by decide) (sumShorts_lt m off shorts)
    (sumShorts_lt m' off' shorts') (by omega)

/-- **A checksum verifies** when it is stored among the words it was computed over, at a
place that was 0; and so does `0xffff` in place of a checksum of 0. -/
theorem checksum_verifies {bs : List Byte} {c : Nat}
    (hsum : (words bs).sum = sumShorts m off shorts + c)
    (hc : c = ipv4Checksum m off shorts ∨ ipv4Checksum m off shorts = 0 ∧ c = 0xffff) :
    Verifies bs := by
  have hcomplete := Ones.complement_completes (by decide) (sumShorts_lt m off shorts)
  rw [← ipv4Checksum_eq] at hcomplete
  rw [verifies_iff, hsum]
  rcases hc with hc | ⟨hzero, hc⟩
  · rw [hc]
    exact hcomplete
  · rw [hc]
    rw [hzero] at hcomplete
    exact ⟨(Nat.dvd_add_right hcomplete.1).mpr (dvd_refl _), by omega⟩

/-- A checksum that was computed over `extra` more than is sent verifies only if there
was nothing more. -/
theorem checksum_verifies_iff (sent : Nat) {bs : List Byte} {extra : Nat}
    (hsum : sumShorts m off shorts = sent + extra)
    (hbs : (words bs).sum = sent + ipv4Checksum m off shorts) (hextra : extra < 65535) :
    Verifies bs ↔ extra = 0 := by
  constructor
  · intro h
    have hdvd := ((verifies_iff bs).mp h).1
    have hcomplete := (Ones.complement_completes (by decide) (sumShorts_lt m off shorts)).1
    rw [← ipv4Checksum_eq, hsum, add_right_comm, ← hbs] at hcomplete
    exact Nat.eq_zero_of_dvd_of_lt ((Nat.dvd_add_right hdvd).mp hcomplete) hextra
  · intro h
    exact checksum_verifies m off shorts (by rw [hbs, hsum, h, Nat.add_zero]) (.inl rfl)

theorem fillIp_other {m : Mem} {len : Nat} {proto : Byte} {saddr daddr : InAddr} {i : Nat}
    (h : 20 ≤ i) : fillIp m len proto saddr daddr i = m i := by
  simp (disch := first | omega | (right; simp only [length_cons, length_nil]; omega))
    only [fillIp, InAddr.bytes, set_other, write_other]

theorem storeChecksum_other {m : Mem} {field off shorts i : Nat} (h : i ≠ field)
    (h' : i ≠ field + 1) : storeChecksum m field off shorts i = m i := by
  rw [storeChecksum, set_other h', set_other h]

theorem wordAt_storeChecksum (field off shorts : Nat) :
    wordAt (storeChecksum m field off shorts) field = ipv4Checksum m off shorts := by
  rw [wordAt, storeChecksum, set_same, set_other (Nat.ne_of_lt (Nat.lt_succ_self _)),
    set_same]
  exact word_stored (ipv4Checksum_lt m off shorts)

/-- **The IP header checksum verifies.** -/
theorem storeChecksum_ip {m : Mem} (h₁₀ : m 10 = 0) (h₁₁ : m 11 = 0) :
    Verifies ((storeChecksum m 10 0 10).read 0 20) := by
  have hsum : (words (m.read 0 20)).sum = sumShorts m 0 10 :=
    words_sum_even m 0 (n := 10) (by decide)
  have hread : m.read 0 20 = m.read 0 10 ++ m 10 :: m 11 :: m.read 12 8 := rfl
  rw [h₁₀, h₁₁] at hread
  have hfront : (m.read 0 10).length % 2 = 0 := by rw [read_length]
  have hstored : (storeChecksum m 10 0 10).read 0 20 =
      m.read 0 10 ++ hi8 (ipv4Checksum m 0 10) :: lo8 (ipv4Checksum m 0 10) :: m.read 12 8 := rfl
  refine checksum_verifies m 0 10 ?_ (.inl rfl)
  rw [hstored, words_sum_field hfront (ipv4Checksum_lt m 0 10), ← hread, hsum]

end Wrpc.Net
