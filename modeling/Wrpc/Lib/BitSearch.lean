/-
# Depth-first search of a set of bit strings

A finite set `S` of words, each known through its bits `bit a 0, bit a 1, …`, is
the set of leaves of a binary tree.  A descent takes, at each position, the bit
all words left have in common, and where they split the bit that `choose` names
(`Follows`).  A split at which a descent took 0 is still open (`OpenAt`).

The search goes on from a leaf by closing its deepest open split: the leaf
reached next is the next one in the lexicographic order, bit 0 first
(`Enumerates.next`), and when no split is open every word has been reached
(`Enumerates.perm`).
-/
import Mathlib.Data.List.Nodup
import Mathlib.Data.List.Perm.Basic
import Mathlib.Data.Nat.Find

namespace Wrpc.BitSearch

open Nat List

universe u
variable {α : Type u} (bit : α → Nat → Bool)

/-- The first `k` bits are the same. -/
def Agree (k : Nat) (a b : α) : Prop := ∀ j < k, bit a j = bit b j

/-- `a` comes before `b`: 0 against 1 where they first differ. -/
def Precedes (a b : α) : Prop := ∃ k, Agree bit k a b ∧ bit a k = false ∧ bit b k = true

/-- Some word of `S` leaves the path to `a` at bit `k`. -/
def Splits (S : List α) (a : α) (k : Nat) : Prop := ∃ e ∈ S, Agree bit k a e ∧ bit e k ≠ bit a k

/-- Some word of `S` leaves the path to `a` at bit `k`, and `a` took 0. -/
def OpenAt (S : List α) (a : α) (k : Nat) : Prop :=
  ∃ e ∈ S, Agree bit k a e ∧ bit a k = false ∧ bit e k = true

/-- `d` is the leaf that the choices `choose` lead to. -/
structure Follows (S : List α) (choose : Nat → Bool) (d : α) : Prop where
  mem : d ∈ S
  choice : ∀ k, Splits bit S d k → bit d k = choose k

/-- `L` holds the words of `S` up to `d`, each once. -/
structure Enumerates (S L : List α) (d : α) : Prop where
  last_mem : d ∈ S
  nodup : L.Nodup
  mem_iff : ∀ e, e ∈ L ↔ e ∈ S ∧ (e = d ∨ Precedes bit e d)

variable {bit} {S L : List α} {a b d d' e : α} {choose : Nat → Bool} {k p : Nat}

/-! ## The order -/

theorem Agree.symm (h : Agree bit k a b) : Agree bit k b a := fun j hj => (h j hj).symm

theorem Agree.trans {c : α} (h : Agree bit k a b) (h' : Agree bit k b c) : Agree bit k a c :=
  fun j hj => (h j hj).trans (h' j hj)

theorem Agree.mono (h : Agree bit k a b) (hp : p ≤ k) : Agree bit p a b :=
  fun j hj => h j (lt_of_lt_of_le hj hp)

theorem Agree.succ (h : Agree bit k a b) (hk : bit a k = bit b k) : Agree bit (k + 1) a b := by
  intro j hj
  rcases Nat.lt_succ_iff_lt_or_eq.mp hj with hlt | rfl
  · exact h j hlt
  · exact hk

theorem exists_first_difference (hbit : Function.Injective bit) (hne : a ≠ b) :
    ∃ k, Agree bit k a b ∧ bit b k ≠ bit a k := by
  have hex : ∃ k, bit b k ≠ bit a k := by
    by_contra hall
    exact hne (hbit (funext fun k => (not_not.mp fun h => hall ⟨k, h⟩).symm))
  refine ⟨Nat.find hex, fun j hj => ?_, Nat.find_spec hex⟩
  exact (not_not.mp (Nat.find_min hex hj)).symm

theorem precedes_total (hbit : Function.Injective bit) (hne : a ≠ b) :
    Precedes bit a b ∨ Precedes bit b a := by
  obtain ⟨k, hk, hd⟩ := exists_first_difference hbit hne
  cases ha : bit a k with
  | false => exact .inl ⟨k, hk, ha, by simpa [ha] using hd⟩
  | true => exact .inr ⟨k, hk.symm, by simpa [ha] using hd, ha⟩

theorem Precedes.irrefl : ¬ Precedes bit a a := by
  rintro ⟨k, -, h0, h1⟩
  exact Bool.false_ne_true (h0.symm.trans h1)

theorem Precedes.trans {c : α} (h : Precedes bit a b) (h' : Precedes bit b c) :
    Precedes bit a c := by
  obtain ⟨k, hk, ha, hb⟩ := h
  obtain ⟨m, hm, hb', hc⟩ := h'
  rcases lt_trichotomy k m with hlt | rfl | hlt
  · exact ⟨k, hk.trans (hm.mono (le_of_lt hlt)), ha, (hm k hlt).symm.trans hb⟩
  · exact absurd (hb'.symm.trans hb) Bool.false_ne_true
  · exact ⟨m, (hk.mono (le_of_lt hlt)).trans hm, (hk m hlt).trans hb', hc⟩

theorem Precedes.asymm (h : Precedes bit a b) : ¬ Precedes bit b a :=
  fun h' => Precedes.irrefl (h.trans h')

theorem Follows.agree (h : Follows bit S choose d) (he : e ∈ S)
    (hc : ∀ j < p, bit e j = choose j) : Agree bit p d e := by
  induction p with
  | zero => exact fun j hj => absurd hj (not_lt_zero j)
  | succ p ih =>
    have hp := ih fun j hj => hc j (lt_succ_of_lt hj)
    refine hp.succ ?_
    by_contra hne
    exact hne ((h.choice p ⟨e, he, hp, Ne.symm hne⟩).trans (hc p (lt_succ_self p)).symm)

theorem Follows.agree_of_choose {choose' : Nat → Bool} (h : Follows bit S choose d)
    (h' : Follows bit S choose' d') (hc : ∀ j < p, choose j = choose' j) : Agree bit p d d' := by
  induction p with
  | zero => exact fun j hj => absurd hj (not_lt_zero j)
  | succ p ih =>
    have hp := ih fun j hj => hc j (lt_succ_of_lt hj)
    refine hp.succ ?_
    by_contra hne
    have hd := h.choice p ⟨d', h'.mem, hp, Ne.symm hne⟩
    have hd' := h'.choice p ⟨d, h.mem, hp.symm, hne⟩
    exact hne (hd.trans ((hc p (lt_succ_self p)).trans hd'.symm))

/-- Where it chooses 0 from bit `p` on, a descent ends in the first of the words
it has not left before. -/
theorem Follows.precedes (hbit : Function.Injective bit) (h : Follows bit S choose d)
    (he : e ∈ S) (hne : d ≠ e) (hp : Agree bit p d e) (hc : ∀ j, p ≤ j → choose j = false) :
    Precedes bit d e := by
  obtain ⟨k, hk, hd⟩ := exists_first_difference hbit hne
  have hpk : p ≤ k := by
    by_contra hlt
    exact hd (hp k (Nat.lt_of_not_le hlt)).symm
  have h0 : bit d k = false := (h.choice k ⟨e, he, hk, hd⟩).trans (hc k hpk)
  exact ⟨k, hk, h0, by simpa [h0] using hd⟩

theorem Enumerates.first (hbit : Function.Injective bit)
    (h : Follows bit S choose d) (hc : ∀ j, choose j = false) : Enumerates bit S [d] d := by
  refine ⟨h.mem, nodup_singleton d, fun e => ?_⟩
  rw [mem_singleton]
  constructor
  · rintro rfl
    exact ⟨h.mem, .inl rfl⟩
  · rintro ⟨he, rfl | hpre⟩
    · rfl
    · by_contra hne
      exact hpre.asymm (h.precedes hbit he (Ne.symm hne)
        (fun j hj => absurd hj (not_lt_zero j)) fun j _ => hc j)

theorem Follows.successor (hbit : Function.Injective bit) (hopen : OpenAt bit S d p)
    (hlast : ∀ k, OpenAt bit S d k → k ≤ p) (hlow : ∀ j < p, choose j = bit d j)
    (hone : choose p = true) (hhigh : ∀ j, p < j → choose j = false)
    (h : Follows bit S choose d') :
    Agree bit p d d' ∧ bit d' p = true ∧ Precedes bit d d' ∧
      ∀ e ∈ S, Precedes bit d e → e = d' ∨ Precedes bit d' e := by
  obtain ⟨w, hw, hdw, h0, h1⟩ := hopen
  have hmeet : ∀ j < p + 1, bit w j = choose j := by
    intro j hj
    rcases Nat.lt_succ_iff_lt_or_eq.mp hj with hlt | rfl
    · exact (hdw j hlt).symm.trans (hlow j hlt).symm
    · exact h1.trans hone.symm
  have hw' : Agree bit (p + 1) d' w := h.agree hw hmeet
  have hdd : Agree bit p d d' := hdw.trans (hw'.mono (le_succ p)).symm
  have hp1 : bit d' p = true := (hw' p (lt_succ_self p)).trans h1
  refine ⟨hdd, hp1, ⟨p, hdd, h0, hp1⟩, ?_⟩
  rintro e he ⟨k, hk, hd0, he1⟩
  rcases lt_or_eq_of_le (hlast k ⟨e, he, hk, hd0, he1⟩) with hlt | rfl
  · exact .inr ⟨k, (hdd.mono (le_of_lt hlt)).symm.trans hk, (hdd k hlt).symm.trans hd0, he1⟩
  · by_cases heq : e = d'
    · exact .inl heq
    · refine .inr (h.precedes hbit he (Ne.symm heq)
        ((hdd.symm.trans hk).succ (hp1.trans he1.symm)) fun j hj => hhigh j hj)

theorem Enumerates.next (hbit : Function.Injective bit) (hE : Enumerates bit S L d)
    (hmem : d' ∈ S) (hpre : Precedes bit d d')
    (hsucc : ∀ e ∈ S, Precedes bit d e → e = d' ∨ Precedes bit d' e) :
    Enumerates bit S (L ++ [d']) d' := by
  have hnew : d' ∉ L := by
    intro hin
    rcases ((hE.mem_iff d').mp hin).2 with rfl | hlt
    · exact Precedes.irrefl hpre
    · exact hpre.asymm hlt
  refine ⟨hmem, List.Nodup.append hE.nodup (nodup_singleton d')
    (disjoint_singleton.mpr hnew), fun e => ?_⟩
  rw [mem_append, mem_singleton, hE.mem_iff]
  constructor
  · rintro (⟨he, rfl | hlt⟩ | rfl)
    · exact ⟨he, .inr hpre⟩
    · exact ⟨he, .inr (hlt.trans hpre)⟩
    · exact ⟨hmem, .inl rfl⟩
  · rintro ⟨he, rfl | hlt⟩
    · exact .inr rfl
    · refine .inl ⟨he, ?_⟩
      by_cases heq : e = d
      · exact .inl heq
      · rcases precedes_total hbit heq with hed | hde
        · exact .inr hed
        · rcases hsucc e he hde with rfl | hbad
          · exact absurd hlt Precedes.irrefl
          · exact absurd hlt hbad.asymm

theorem Enumerates.subset (hE : Enumerates bit S L d) : L ⊆ S :=
  fun e he => ((hE.mem_iff e).mp he).1

theorem Enumerates.perm (hbit : Function.Injective bit) (hE : Enumerates bit S L d)
    (hS : S.Nodup) (hclosed : ∀ k, ¬ OpenAt bit S d k) : L.Perm S := by
  refine (perm_ext_iff_of_nodup hE.nodup hS).mpr fun e => ?_
  refine ⟨fun he => hE.subset he, fun he => (hE.mem_iff e).mpr ⟨he, ?_⟩⟩
  by_cases heq : e = d
  · exact .inl heq
  · rcases precedes_total hbit heq with hlt | ⟨k, hk, h0, h1⟩
    · exact .inr hlt
    · exact absurd ⟨e, he, hk, h0, h1⟩ (hclosed k)

end Wrpc.BitSearch
