/-
# Numbers as they lie in memory

A C object copied byte by byte (`memcpy`, or a loop over a `char *`) is its
memory image: a list of octets in the machine's byte order.  An image read
back in the order it was laid out in is the number again.
-/
import Wrpc.Lib.Mem

namespace Wrpc

open List BitVec

/-- The machine's byte order. -/
inductive Order where
  | little | big
deriving DecidableEq, Repr

namespace Bytes

/-- The low `n` octets of a number, least significant first. -/
def littleOf : Nat → Nat → List Byte
  | 0, _ => []
  | n + 1, x => BitVec.ofNat 8 x :: littleOf n (x / 256)

/-- The number with the given octets, least significant first. -/
def ofLittle : List Byte → Nat
  | [] => 0
  | b :: bs => b.toNat + 256 * ofLittle bs

/-- The memory image of an `n`-byte number. -/
def imageOf (o : Order) (n x : Nat) : List Byte :=
  match o with
  | .little => littleOf n x
  | .big => (littleOf n x).reverse

def ofImage (o : Order) (bs : List Byte) : Nat :=
  match o with
  | .little => ofLittle bs
  | .big => ofLittle bs.reverse

@[simp] theorem littleOf_length : ∀ (n x : Nat), (littleOf n x).length = n
  | 0, _ => rfl
  | n + 1, x => by simp [littleOf, littleOf_length n (x / 256)]

@[simp] theorem imageOf_length (o : Order) (n x : Nat) : (imageOf o n x).length = n := by
  cases o with
  | little => exact littleOf_length n x
  | big => simp [imageOf]

@[simp] theorem drop_imageOf (o : Order) {n k : Nat} (x : Nat) (h : n ≤ k) :
    (imageOf o n x).drop k = [] :=
  drop_eq_nil_of_le (by rwa [imageOf_length])

theorem ofLittle_littleOf : ∀ {n x : Nat}, x < 256 ^ n → ofLittle (littleOf n x) = x
  | 0, x, h => by
    have : x = 0 := by simpa using h
    rw [this]
    rfl
  | n + 1, x, h => by
    have hdiv : x / 256 < 256 ^ n := by
      omega
    simp only [littleOf, ofLittle, ofLittle_littleOf hdiv, toNat_ofNat]
    omega

theorem ofLittle_lt : ∀ l : List Byte, ofLittle l < 256 ^ l.length
  | [] => Nat.one_pos
  | b :: l => by
    have hl := ofLittle_lt l
    rw [ofLittle, length_cons, Nat.pow_succ]
    omega

theorem littleOf_ofLittle : ∀ l : List Byte, littleOf l.length (ofLittle l) = l
  | [] => rfl
  | b :: l => by
    have hdiv : (b.toNat + 256 * ofLittle l) / 256 = ofLittle l := by omega
    have hbyte : BitVec.ofNat 8 (b.toNat + 256 * ofLittle l) = b := by
      apply eq_of_toNat_eq
      rw [toNat_ofNat]
      omega
    rw [length_cons, ofLittle, littleOf, hdiv, hbyte, littleOf_ofLittle l]

theorem ofLittle_zeros_append (l : List Byte) :
    ∀ k : Nat, ofLittle (List.replicate k 0 ++ l) = 256 ^ k * ofLittle l
  | 0 => (Nat.one_mul _).symm
  | k + 1 => by
    rw [List.replicate_succ, List.cons_append, ofLittle, ofLittle_zeros_append l k, Nat.pow_succ,
      Nat.mul_comm (256 ^ k) 256, Nat.mul_assoc]
    exact Nat.zero_add _

theorem ofImage_big_append_zeros (l : List Byte) (k : Nat) :
    ofImage .big (l ++ List.replicate k 0) = 256 ^ k * ofImage .big l := by
  rw [ofImage, List.reverse_append, List.reverse_replicate, ofLittle_zeros_append]
  rfl

theorem ofImage_lt (o : Order) (l : List Byte) : ofImage o l < 256 ^ l.length := by
  cases o with
  | little => exact ofLittle_lt l
  | big =>
    have h := ofLittle_lt l.reverse
    rwa [length_reverse] at h

theorem ofImage_imageOf (o : Order) {n x : Nat} (h : x < 256 ^ n) :
    ofImage o (imageOf o n x) = x := by
  cases o with
  | little => exact ofLittle_littleOf h
  | big => simp [ofImage, imageOf, ofLittle_littleOf h]

theorem imageOf_ofImage (o : Order) (l : List Byte) : imageOf o l.length (ofImage o l) = l := by
  cases o with
  | little => exact littleOf_ofLittle l
  | big =>
    rw [imageOf, ofImage, ← List.length_reverse, littleOf_ofLittle, List.reverse_reverse]

theorem ofNat_ofImage (o : Order) (n : Nat) (x : BitVec (8 * n)) :
    BitVec.ofNat (8 * n) (ofImage o (imageOf o n x.toNat)) = x := by
  have hx : x.toNat < 256 ^ n := by
    have h := x.isLt
    rwa [Nat.pow_mul] at h
  rw [ofImage_imageOf o hx, ofNat_toNat, setWidth_eq]

/-- The word with its bytes the other way round. -/
def swap (n : Nat) (x : BitVec (8 * n)) : BitVec (8 * n) :=
  BitVec.ofNat (8 * n) (ofImage .big (imageOf .little n x.toNat))

theorem imageOf_swap (n : Nat) (x : BitVec (8 * n)) :
    imageOf .little n (swap n x).toNat = imageOf .big n x.toNat := by
  have hlen : (littleOf n x.toNat).reverse.length = n := by simp
  have hlt := ofLittle_lt (littleOf n x.toNat).reverse
  rw [hlen, show (256 : Nat) = 2 ^ 8 from rfl, ← Nat.pow_mul] at hlt
  have hback := littleOf_ofLittle (littleOf n x.toNat).reverse
  rw [hlen] at hback
  simp only [swap, imageOf, ofImage, toNat_ofNat, Nat.mod_eq_of_lt hlt]
  exact hback

theorem swap_swap (n : Nat) (x : BitVec (8 * n)) : swap n (swap n x) = x := by
  have hword := ofNat_ofImage .big n x
  rw [← imageOf_swap] at hword
  exact hword

end Bytes

end Wrpc
