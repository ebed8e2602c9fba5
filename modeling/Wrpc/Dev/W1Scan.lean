/-
# Which buses `w1_scan_bus` enumerates

One search follows a path through the tree of the ROM codes (`scanOne_follows`):
at a disagreement in bits 0..31 it takes the bit of `rom`, and at one in bits
32..63 it takes 0, since `select` is an `int` and the upper half of `*rom & mask`
is lost in it.  `cmask` becomes the set of disagreements where the path took 0.

Hence the search is the depth-first search of `Wrpc.Lib.BitSearch` as long as no
disagreement is in the upper half, and stays at one leaf, up to the end of the
table, once there is one (`scanFrom_stuck`).
-/
import Wrpc.Dev.W1
import Wrpc.Lib.BitSearch

namespace Wrpc.W1

open BitSearch List Function Nat

open BitVec (twoPow getLsbD_twoPow getLsbD_of_ge getLsbD_setWidth)

variable {k : Nat} {L : List Rom} {cmask : BitVec 64}

/-- Bit `k` of a ROM code. -/
def romBit (r : Rom) (k : Nat) : Bool := r.getLsbD k

theorem romBit_injective : Function.Injective romBit := fun _ _ h =>
  BitVec.eq_of_getLsbD_eq fun k _ => congrFun h k

/-! ## Masks -/

theorem twoPow_ne_zero (hk : k < 64) : twoPow 64 k ≠ 0 := by
  intro h
  have hbit := congrArg (·.getLsbD k) h
  simp [hk] at hbit

theorem and_twoPow_ne_zero (x : BitVec 64) (hk : k < 64) :
    x &&& twoPow 64 k ≠ 0 ↔ x.getLsbD k = true := by
  rw [BitVec.and_twoPow]
  cases x.getLsbD k with
  | false => simp
  | true => simpa using twoPow_ne_zero hk

theorem twoPow_shiftLeft (k : Nat) : twoPow 64 k <<< 1 = twoPow 64 (k + 1) := by
  apply BitVec.eq_of_getLsbD_eq
  intro j hj
  grind

theorem twoPow_shiftRight (hk : k + 1 < 64) :
    twoPow 64 (k + 1) >>> 1 = twoPow 64 k := by
  apply BitVec.eq_of_getLsbD_eq
  intro j hj
  grind

theorem romBit_or_twoPow (rom : Rom) {j : Nat} (hk : k < 64) :
    romBit (rom ||| twoPow 64 k) j = (romBit rom j || decide (j = k)) := by
  simp [romBit, hk, eq_comm]

theorem select_eq (rom : Rom) (hk : k < 64) :
    ((rom &&& twoPow 64 k).setWidth 32 != 0) = (decide (k < 32) && romBit rom k) := by
  rw [BitVec.and_twoPow]
  unfold romBit
  cases rom.getLsbD k with
  | false => simp
  | true =>
    have hbit : ∀ j, ((twoPow 64 k).setWidth 32).getLsbD j =
        (decide (j < 32) && decide (k = j)) := by
      intro j
      simp [hk]
    by_cases hlow : k < 32
    · have hne : (twoPow 64 k).setWidth 32 ≠ 0#32 := by
        intro h
        have hkk := hbit k
        simp [h, hlow] at hkk
      simp [hlow, hne]
    · have hz : (twoPow 64 k).setWidth 32 = 0 := by
        apply BitVec.eq_of_getLsbD_eq
        intro j hj
        rw [hbit j]
        simp only [BitVec.ofNat_eq_ofNat, BitVec.getLsbD_zero, Bool.and_eq_false_imp,
          decide_eq_true_eq, decide_eq_false_iff_not]
        omega
      simp [hlow, hz]

/-! ## One bit -/

section Bit

variable {P T : List Rom} {k : Nat} {select : BitVec 32}

/-- The phase after the direction slot of bit `k`. -/
def nextPhase (k : Nat) : Phase := if k < 63 then .bit (k + 1) else .off

theorem getDibit_forced {b : Bool} (hT : T ≠ []) (hall : ∀ e ∈ T, romBit e k = b) :
    getDibit ⟨P, T, .bit k⟩ select =
      (if b then .b1 else .b0, ⟨P, T.filter (romBit · k == b), nextPhase k⟩) := by
  obtain ⟨e, he⟩ := exists_mem_of_ne_nil T hT
  have h1 : T.all (·.getLsbD k) = b := by
    cases b with
    | false => exact all_eq_false.mpr ⟨e, he, by simpa [romBit] using hall e he⟩
    | true => exact all_eq_true.mpr hall
  have h2 : T.all (!·.getLsbD k) = !b := by
    cases b with
    | false => exact all_eq_true.mpr fun e he => by simpa [romBit] using hall e he
    | true => exact all_eq_false.mpr ⟨e, he, by simpa [romBit] using hall e he⟩
  simp only [getDibit, w1ReadBit, h1, h2, w1WriteBit, nextPhase, romBit]
  cases b <;> rfl

theorem getDibit_split (h0 : ∃ e ∈ T, romBit e k = false) (h1 : ∃ e ∈ T, romBit e k = true) :
    getDibit ⟨P, T, .bit k⟩ select =
      (.both, ⟨P, T.filter (romBit · k == (select != 0)), nextPhase k⟩) := by
  obtain ⟨e, he, hb⟩ := h0
  obtain ⟨e', he', hb'⟩ := h1
  have ha : T.all (·.getLsbD k) = false :=
    all_eq_false.mpr ⟨e, he, by simpa [romBit] using hb⟩
  have hc : T.all (!·.getLsbD k) = false :=
    all_eq_false.mpr ⟨e', he', by simpa [romBit] using hb'⟩
  simp [getDibit, w1ReadBit, ha, hc, w1WriteBit, nextPhase, romBit]

/-- What one turn of the bit loop does: some bit `b` is taken, that of `rom` (or 0 in
the upper half) if the devices disagree; `rom` collects it, and `cmask` marks an
open split. -/
theorem scanBit_spec (rom : Rom) (cmask : BitVec 64) (hk : k < 64) (hT : T ≠ []) :
    ∃ b : Bool, (∃ e ∈ T, romBit e k = b) ∧
      ((∃ e ∈ T, romBit e k ≠ b) → b = (decide (k < 32) && romBit rom k)) ∧
      ∃ rom' cmask', scanBit (twoPow 64 k) ⟨⟨P, T, .bit k⟩, rom, cmask⟩ =
          ⟨⟨P, T.filter (romBit · k == b), nextPhase k⟩, rom', cmask'⟩ ∧
        (∀ j, romBit rom' j = (romBit rom j || (decide (j = k) && b))) ∧
        ∀ j, cmask'.getLsbD j = true ↔
          cmask.getLsbD j = true ∨ j = k ∧ b = false ∧ ∃ e ∈ T, romBit e k = true := by
  have hor : ∀ (x : BitVec 64) (j : Nat), (x ||| twoPow 64 k).getLsbD j =
      (x.getLsbD j || decide (j = k)) := by
    intro x j
    simp [hk, eq_comm]
  obtain ⟨e, he⟩ := exists_mem_of_ne_nil T hT
  by_cases hall : ∃ b, ∀ e ∈ T, romBit e k = b
  · obtain ⟨b, hall⟩ := hall
    refine ⟨b, ⟨e, he, hall e he⟩, fun ⟨e', he', hne⟩ => absurd (hall e' he') hne, ?_⟩
    simp only [scanBit, getDibit_forced hT hall]
    cases b with
    | false =>
      refine ⟨rom, cmask, rfl, fun j => by simp, fun j => ?_⟩
      refine ⟨Or.inl, ?_⟩
      rintro (h | ⟨-, -, e', he', h1⟩)
      · exact h
      · exact absurd ((hall e' he').symm.trans h1) Bool.false_ne_true
    | true =>
      refine ⟨rom ||| twoPow 64 k, cmask, rfl, fun j => ?_, fun j => by simp⟩
      rw [romBit, hor, Bool.and_true]
      rfl
  · have h0 : ∃ e ∈ T, romBit e k = false := by
      by_contra h
      exact hall ⟨true, fun e he => by simpa using fun hf => h ⟨e, he, hf⟩⟩
    have h1 : ∃ e ∈ T, romBit e k = true := by
      by_contra h
      exact hall ⟨false, fun e he => by simpa using fun hf => h ⟨e, he, hf⟩⟩
    have hsel := select_eq rom hk
    refine ⟨decide (k < 32) && romBit rom k, ?_, fun _ => rfl, ?_⟩
    · cases hb : (decide (k < 32) && romBit rom k) with
      | false => exact h0
      | true => exact h1
    simp only [scanBit, getDibit_split h0 h1, hsel]
    refine ⟨rom, _, rfl, fun j => ?_, fun j => ?_⟩
    · by_cases hj : j = k
      · subst hj
        cases romBit rom j <;> simp
      · simp [hj]
    · cases hb : (decide (k < 32) && romBit rom k) with
      | false =>
        have hz : (rom &&& twoPow 64 k).setWidth 32 = 0 := by
          simpa [hb] using hsel
        rw [if_pos hz, hor]
        simp [h1]
      | true =>
        have hz : (rom &&& twoPow 64 k).setWidth 32 ≠ 0 := by
          simpa [hb] using hsel
        rw [if_neg hz]
        simp

end Bit

def choice (rom : Rom) (k : Nat) : Bool := decide (k < 32) && romBit rom k

theorem scanBits_spec {P : List Rom} : ∀ (n k : Nat) (T : List Rom) (rom : Rom)
    (cmask : BitVec 64), k + n = 64 → T ≠ [] → (∀ a ∈ T, ∀ b ∈ T, Agree romBit k a b) →
    ∃ d ∈ T, (∀ j, k ≤ j → Splits romBit T d j → romBit d j = choice rom j) ∧
      ∃ wire rom' cmask', scanBits (n + 1) (twoPow 64 k)
          ⟨⟨P, T, if k < 64 then .bit k else .off⟩, rom, cmask⟩ = ⟨wire, rom', cmask'⟩ ∧
        wire.present = P ∧
        (∀ j, romBit rom' j = (romBit rom j || (decide (k ≤ j) && romBit d j))) ∧
        ∀ j, cmask'.getLsbD j = true ↔ cmask.getLsbD j = true ∨ k ≤ j ∧ OpenAt romBit T d j
  | 0, k, T, rom, cmask, hn, hT, hag => by
    obtain ⟨d, hd⟩ := exists_mem_of_ne_nil T hT
    have hk : k = 64 := hn
    subst hk
    -- no ROM has a bit past the last one
    have hhigh : ∀ (e : Rom) (j : Nat), 64 ≤ j → romBit e j = false := fun e j hj =>
      getLsbD_of_ge e j hj
    refine ⟨d, hd, ?_, _, rom, cmask, rfl, rfl, ?_, ?_⟩
    · rintro j hj ⟨e, -, -, hne⟩
      exact absurd ((hhigh e j hj).trans (hhigh d j hj).symm) hne
    · intro j
      by_cases hj : 64 ≤ j
      · simp [hj, hhigh]
      · simp [hj]
    · intro j
      refine ⟨Or.inl, ?_⟩
      rintro (h | ⟨hj, e, -, -, -, h1⟩)
      · exact h
      · exact absurd ((hhigh e j hj).symm.trans h1) Bool.false_ne_true
  | n + 1, k, T, rom, cmask, hn, hT, hag => by
    have hk : k < 64 := by omega
    obtain ⟨b, ⟨w, hw, hwb⟩, hch, rom₁, cmask₁, heq, hrom, hcm⟩ :=
      scanBit_spec rom cmask hk hT
    have hne : T.filter (romBit · k == b) ≠ [] :=
      ne_nil_of_mem (mem_filter.mpr ⟨hw, by simpa using hwb⟩)
    have hag' : ∀ a ∈ T.filter (romBit · k == b), ∀ c ∈ T.filter (romBit · k == b),
        Agree romBit (k + 1) a c := by
      intro a ha c hc
      rw [mem_filter, beq_iff_eq] at ha hc
      exact (hag a ha.1 c hc.1).succ (ha.2.trans hc.2.symm)
    obtain ⟨d, hd, hsplit, wire, rom₂, cmask₂, hrun, hpres, hrom₂, hcm₂⟩ :=
      scanBits_spec n (k + 1) _ rom₁ cmask₁ (by omega) hne hag'
    rw [mem_filter, beq_iff_eq] at hd
    -- a device on the path past bit `k` has the bit that was taken
    have hstay : ∀ {j : Nat} {e : Rom}, k < j → e ∈ T → Agree romBit j d e →
        e ∈ T.filter (romBit · k == b) := by
      intro j e hj he hagree
      exact mem_filter.mpr ⟨he, by simpa using (hagree k hj).symm.trans hd.2⟩
    refine ⟨d, hd.1, ?_, wire, rom₂, cmask₂, ?_, hpres, ?_, ?_⟩
    · rintro j hj ⟨e, he, hagree, hdiff⟩
      rcases lt_or_eq_of_le hj with hlt | rfl
      · rw [hsplit j hlt ⟨e, hstay hlt he hagree, hagree, hdiff⟩]
        simp only [choice, hrom j, Nat.ne_of_gt hlt, decide_false, Bool.false_and, Bool.or_false]
      · rw [hd.2]
        exact hch ⟨e, he, by rwa [hd.2] at hdiff⟩
    · have hph : (if k + 1 < 64 then Phase.bit (k + 1) else .off) = nextPhase k := by
        simp only [nextPhase, Nat.add_lt_add_iff_right, show (64 : Nat) = 63 + 1 from rfl]
      rw [scanBits, if_neg (twoPow_ne_zero hk), if_pos hk, twoPow_shiftLeft, heq, ← hph]
      exact hrun
    · intro j
      rw [hrom₂ j, hrom j]
      rcases lt_trichotomy j k with hlt | rfl | hgt
      · simp [Nat.ne_of_lt hlt, Nat.not_le_of_lt hlt, Nat.not_le_of_lt (Nat.lt_succ_of_lt hlt)]
      · simp [hd.2]
      · simp [Nat.ne_of_gt hgt, Nat.le_of_lt hgt, Nat.succ_le_of_lt hgt]
    · intro j
      rw [hcm₂ j, hcm j, or_assoc]
      refine or_congr Iff.rfl ⟨?_, ?_⟩
      · rintro (⟨rfl, hb, e, he, h1⟩ | ⟨hj, e, he, hrest⟩)
        · exact ⟨Nat.le_refl j, e, he, hag d hd.1 e he, hd.2.trans hb, h1⟩
        · exact ⟨Nat.le_of_lt hj, e, (mem_filter.mp he).1, hrest⟩
      · rintro ⟨hj, e, he, hagree, h0, h1⟩
        rcases lt_or_eq_of_le hj with hlt | rfl
        · exact .inr ⟨hlt, e, hstay hlt he hagree, hagree, h0, h1⟩
        · exact .inl ⟨rfl, hd.2.symm.trans h0, e, he, h1⟩

theorem scanOne_follows {S : List Rom} (T : List Rom) (ph : Phase) (hS : S ≠ []) (rom : Rom)
    (cmask : BitVec 64) :
    ∃ d, Follows romBit S (choice rom) d ∧
      ∃ wire rom' cmask', scanOne ⟨⟨S, T, ph⟩, rom, cmask⟩ = (0, ⟨wire, rom', cmask'⟩) ∧
        wire.present = S ∧ (∀ j, romBit rom' j = (romBit rom j || romBit d j)) ∧
        ∀ j, cmask'.getLsbD j = true ↔ OpenAt romBit S d j := by
  obtain ⟨d, hd, hsplit, wire, rom', cmask', hrun, hpres, hrom, hcm⟩ :=
    scanBits_spec 64 0 S rom 0 rfl hS fun _ _ _ _ j hj => absurd hj (not_lt_zero j)
  refine ⟨d, ⟨hd, fun k hk => hsplit k (zero_le k) hk⟩, wire, rom', cmask', ?_, hpres, ?_, ?_⟩
  · have hreset : w1Reset ⟨S, T, ph⟩ = (1, ⟨S, S, .command 0 0⟩) := by simp [w1Reset, hS]
    have hcmd : w1WriteByte ⟨S, S, .command 0 0⟩ 0xf0 = ⟨S, S, .bit 0⟩ := rfl
    simp only [scanOne, hreset, hcmd, ne_eq, not_true_eq_false, if_false]
    exact congrArg _ hrun
  · intro j
    simpa using hrom j
  · intro j
    simpa using hcm j

theorem topMask_self (hk : k < 64) :
    (if twoPow 64 k &&& twoPow 64 62 ≠ 0 then twoPow 64 62
      else twoPow 64 k) = twoPow 64 k := by
  by_cases h62 : k = 62
  · subst h62
    exact ite_self _
  · rw [if_neg]
    rw [not_not, BitVec.and_twoPow, getLsbD_twoPow]
    simp [h62]

theorem resolve_hit (hk : k < 64) (hc : cmask.getLsbD k = true) (n : Nat) (rom : Rom) :
    resolve cmask (n + 1) (twoPow 64 k) rom = (twoPow 64 k, rom) := by
  rw [resolve, if_neg (twoPow_ne_zero hk)]
  simp only [topMask_self hk]
  rw [if_pos ((and_twoPow_ne_zero cmask hk).mpr hc)]

theorem resolve_miss (hk : k < 64) (hc : cmask.getLsbD k = false) (n : Nat) (rom : Rom) :
    resolve cmask (n + 1) (twoPow 64 k) rom =
      resolve cmask n (twoPow 64 k >>> 1) (rom &&& ~~~twoPow 64 k) := by
  rw [resolve, if_neg (twoPow_ne_zero hk)]
  simp only [topMask_self hk]
  rw [if_neg fun h => Bool.false_ne_true (hc.symm.trans ((and_twoPow_ne_zero cmask hk).mp h))]

theorem romBit_clear (rom : Rom) (j : Nat) :
    romBit (rom &&& ~~~twoPow 64 k) j = (romBit rom j && !decide (j = k)) := by
  by_cases hj : j < 64
  · simp [romBit, hj, eq_comm]
  · simp [romBit, getLsbD_of_ge _ j (Nat.le_of_not_lt hj)]

/-- From mask `1 << k` downwards: the highest mark of `cmask`, if there is one, and
`rom` with the bits above it cleared. -/
theorem resolve_spec (cmask : BitVec 64) : ∀ (k : Nat) (rom : Rom), k < 64 →
    (∀ j ≤ k, cmask.getLsbD j = false) ∧ (resolve cmask (k + 2) (twoPow 64 k) rom).1 = 0 ∨
      ∃ p ≤ k, cmask.getLsbD p = true ∧ (∀ j, p < j → j ≤ k → cmask.getLsbD j = false) ∧
        ∃ rom', resolve cmask (k + 2) (twoPow 64 k) rom = (twoPow 64 p, rom') ∧
          ∀ j, romBit rom' j = (romBit rom j && !(decide (p < j) && decide (j ≤ k))) := by
  intro k
  induction k with
  | zero =>
    intro rom hk
    cases hc : cmask.getLsbD 0 with
    | false =>
      refine .inl ⟨fun j hj => by rwa [le_zero.mp hj], ?_⟩
      rw [resolve_miss hk hc]
      rfl
    | true =>
      refine .inr ⟨0, Nat.le_refl 0, hc, fun j hj hj' => by omega, rom,
        resolve_hit hk hc 1 rom, fun j => ?_⟩
      by_cases hj : 0 < j
      · simp [Nat.ne_of_gt hj]
      · simp [hj]
  | succ k ih =>
    intro rom hk
    cases hc : cmask.getLsbD (k + 1) with
    | true =>
      refine .inr ⟨k + 1, Nat.le_refl _, hc, fun j hj hj' => by omega, rom,
        resolve_hit hk hc (k + 2) rom, fun j => ?_⟩
      by_cases hj : k + 1 < j
      · simp [Nat.not_le_of_lt hj]
      · simp [hj]
    | false =>
      rw [resolve_miss hk hc, twoPow_shiftRight hk]
      rcases ih (rom &&& ~~~twoPow 64 (k + 1)) (by omega) with
        ⟨hnone, hz⟩ | ⟨p, hp, hcp, habove, rom', heq, hrom⟩
      · refine .inl ⟨fun j hj => ?_, hz⟩
        rcases le_succ_iff.mp hj with h | rfl
        · exact hnone j h
        · exact hc
      · refine .inr ⟨p, le_succ_of_le hp, hcp, fun j hj hj' => ?_, rom', heq, fun j => ?_⟩
        · rcases le_succ_iff.mp hj' with h | rfl
          · exact habove j hj h
          · exact hc
        · rw [hrom j, romBit_clear]
          rcases lt_trichotomy j (k + 1) with hlt | rfl | hgt
          · simp [Nat.ne_of_lt hlt, Nat.le_of_lt_succ hlt, Nat.le_of_lt hlt]
          · simp [Nat.lt_succ_of_le hp]
          · simp [Nat.ne_of_gt hgt, Nat.not_le_of_lt hgt, Nat.not_le_of_lt (Nat.lt_of_succ_lt hgt)]

/-! ## The whole scan -/

section Bus

variable {S : List Rom} {d : Rom}

def Alone (S : List Rom) (d : Rom) : Prop := ∀ e ∈ S, Agree romBit 32 d e → e = d

/-- Where the path to `d` splits in the upper half, it took 0. -/
def UpperZero (S : List Rom) (d : Rom) : Prop :=
  ∀ k, 32 ≤ k → Splits romBit S d k → romBit d k = false

theorem choice_upper (rom : Rom) (hk : 32 ≤ k) : choice rom k = false := by
  simp [choice, Nat.not_lt_of_le hk]

theorem choice_lower (rom : Rom) (hk : k < 32) : choice rom k = romBit rom k := by
  simp [choice, hk]

theorem upperZero_of_follows {rom : Rom} (h : Follows romBit S (choice rom) d) :
    UpperZero S d := fun k hk hs => (h.choice k hs).trans (choice_upper rom hk)

theorem alone_of_closed (hz : UpperZero S d) (hclosed : ∀ k, 32 ≤ k → ¬ OpenAt romBit S d k) :
    Alone S d := by
  intro e he hagree
  by_contra hne
  obtain ⟨k, hk, hdiff⟩ := exists_first_difference romBit_injective (Ne.symm hne)
  have hk32 : 32 ≤ k := by
    by_contra hlt
    exact hdiff (hagree k (Nat.lt_of_not_le hlt)).symm
  have h0 : romBit d k = false := hz k hk32 ⟨e, he, hk, hdiff⟩
  exact hclosed k hk32 ⟨e, he, hk, h0, by simpa [h0] using hdiff⟩

theorem alone_of_perm (hE : Enumerates romBit S L d)
    (halone : ∀ e ∈ S, Precedes romBit e d → Alone S e) (hperm : L.Perm S) :
    ∀ e ∈ S, Alone S e := by
  have hlast : ∀ e ∈ S, e = d ∨ Precedes romBit e d := fun e he =>
    ((hE.mem_iff e).mp (hperm.symm.subset he)).2
  intro e he
  rcases hlast e he with rfl | hlt
  · intro e' he' hagree
    rcases hlast e' he' with rfl | hlt'
    · rfl
    · exact (halone e' he' hlt' e he hagree.symm).symm
  · exact halone e he hlt

/-- After a search that ended at `d`: what `cmask` and the wire hold. -/
structure Searched (S : List Rom) (bus : W1Bus) (cmask : BitVec 64) (d : Rom) : Prop where
  present : bus.wire.present = S
  cmask : ∀ j, cmask.getLsbD j = true ↔ OpenAt romBit S d j
  upper : UpperZero S d

theorem scanEntry_spec {bus : W1Bus} (hS : S ≠ []) (hp : bus.wire.present = S) (i : Nat)
    (rom : Rom) (cmask : BitVec 64) :
    ∃ d bus' cmask', scanEntry bus i rom cmask = (false, bus', cmask') ∧
      Follows romBit S (choice rom) d ∧ Searched S bus' cmask' d ∧
      (∀ j, romBit (bus'.devs i) j = (romBit rom j || romBit d j)) ∧
      bus'.found (i + 1) = bus.found i ++ [bus'.devs i] := by
  obtain ⟨⟨P, T, ph⟩, devs⟩ := bus
  subst hp
  obtain ⟨d, hd, wire, rom', cmask', hrun, hpres, hrom, hcm⟩ :=
    scanOne_follows T ph hS rom cmask
  refine ⟨d, ⟨wire, update devs i rom'⟩, cmask', ?_, hd,
    ⟨hpres, hcm, upperZero_of_follows hd⟩, ?_, ?_⟩
  · simp only [scanEntry, hrun]
    rfl
  · intro j
    simpa using hrom j
  · have hkeep : (range i).map (update devs i rom') = (range i).map devs := by
      refine map_congr_left fun j hj => ?_
      exact update_of_ne (Nat.ne_of_lt (mem_range.mp hj)) _ _
    simp only [W1Bus.found, range_succ, map_append, map_cons, map_nil, hkeep]

/-- Entry `i + 1`: either nothing is marked and the scan ends, or it goes on from the
highest mark `p`. -/
theorem scanFrom_next {bus : W1Bus} (hS : S ≠ []) (hsd : Searched S bus cmask d) (left i : Nat) :
    ((∀ k, ¬ OpenAt romBit S d k) ∧ ∃ bus', bus'.found (i + 1) = bus.found (i + 1) ∧
        scanFrom (left + 1) (i + 1) cmask bus = (i + 1, bus')) ∨
      ∃ p < 64, OpenAt romBit S d p ∧ (∀ k, OpenAt romBit S d k → k ≤ p) ∧ ∃ rom d' bus' cmask',
          (∀ j, romBit rom j = ((romBit (bus.devs i) j && !decide (p < j)) || decide (j = p))) ∧
          scanFrom (left + 1) (i + 1) cmask bus = scanFrom left (i + 2) cmask' bus' ∧
          Follows romBit S (choice rom) d' ∧ Searched S bus' cmask' d' ∧
          (∀ j, romBit (bus'.devs (i + 1)) j = (romBit rom j || romBit d' j)) ∧
          bus'.found (i + 2) = bus.found (i + 1) ++ [bus'.devs (i + 1)] := by
  rcases resolve_spec cmask 63 (bus.devs i) (by decide) with
    ⟨hnone, hz⟩ | ⟨p, hp, hcp, habove, rom, heq, hrom⟩
  · refine .inl ⟨fun k hk => ?_, ⟨bus.wire, update bus.devs (i + 1)
      (resolve cmask 65 (twoPow 64 63) (bus.devs i)).2⟩, ?_, ?_⟩
    · have hset := (hsd.cmask k).mpr hk
      rcases Nat.lt_or_ge k 64 with hlt | hge
      · exact Bool.false_ne_true ((hnone k (Nat.le_of_lt_succ hlt)).symm.trans hset)
      · exact Bool.false_ne_true ((getLsbD_of_ge cmask k hge).symm.trans hset)
    · refine map_congr_left fun j hj => ?_
      exact update_of_ne (Nat.ne_of_lt (mem_range.mp hj)) _ _
    · simp [scanFrom, hz]
  · have hp64 : p < 64 := Nat.lt_succ_of_le hp
    obtain ⟨d', bus', cmask', hcall, hd', hsd', hdev, hfound⟩ :=
      scanEntry_spec hS hsd.present (i + 1) (rom ||| twoPow 64 p)
        (cmask &&& ~~~twoPow 64 p)
    refine .inr ⟨p, hp64, (hsd.cmask p).mp hcp, fun k hk => ?_, rom ||| twoPow 64 p, d',
      bus', cmask', fun j => ?_, ?_, hd', hsd', hdev, hfound⟩
    · by_contra hlt
      have hset := (hsd.cmask k).mpr hk
      have hk64 : k < 64 := BitVec.lt_of_getLsbD hset
      exact Bool.false_ne_true
        ((habove k (Nat.lt_of_not_le hlt) (Nat.le_of_lt_succ hk64)).symm.trans hset)
    · rw [romBit_or_twoPow rom hp64, hrom j]
      rcases Nat.lt_or_ge j 64 with hlt | hge
      · simp [Nat.le_of_lt_succ hlt]
      · simp [romBit, getLsbD_of_ge _ j hge]
    · simp only [scanFrom, Nat.add_one_ne_zero, if_false, Nat.add_sub_cancel, heq,
        twoPow_ne_zero hp64, hcall, Bool.false_eq_true]

/-- The devices up to `d` have been found, `d` has an open split in the upper half, the
deepest at bit `p`, and no device before `d` has one. -/
structure StuckAt (S L : List Rom) (d : Rom) (p : Nat) : Prop where
  enum : Enumerates romBit S L d
  alone : ∀ e ∈ S, Precedes romBit e d → Alone S e
  upper : 32 ≤ p
  open_p : OpenAt romBit S d p
  last : ∀ k, OpenAt romBit S d k → k ≤ p

/-- Once a split in the upper half is open, every further search ends at the same leaf `d`:
the table is filled up with `d` with the bit of the split set. -/
theorem scanFrom_stuck {p : Nat} (hS : S ≠ []) (hst : StuckAt S L d p) :
    ∀ (left i : Nat) (bus : W1Bus) (cmask : BitVec 64), Searched S bus cmask d →
    (∀ j < p, romBit (bus.devs i) j = romBit d j) →
    ∃ bus', scanFrom left (i + 1) cmask bus = (i + 1 + left, bus') ∧ bus'.found (i + 1 + left) =
        bus.found (i + 1) ++ replicate left (d ||| twoPow 64 p)
  | 0, i, bus, cmask, _, _ => ⟨bus, rfl, (append_nil _).symm⟩
  | left + 1, i, bus, cmask, hsd, hlow => by
    rcases scanFrom_next hS hsd left i with ⟨hclosed, -⟩ |
      ⟨q, hq64, hop, hlast, rom, d', bus', cmask', hrom, hrun, hd', hsd', hdev, hfound⟩
    · exact absurd hst.open_p (hclosed p)
    · have hqp : q = p := le_antisymm (hst.last q hop) (hlast p hst.open_p)
      subst hqp
      have hrom' : ∀ j < q, romBit rom j = romBit d j := by
        intro j hj
        rw [hrom j, hlow j hj]
        simp [Nat.ne_of_lt hj, Nat.not_lt_of_lt hj]
      -- `d` itself meets the choices of the new search
      have hself : Follows romBit S (choice rom) d := by
        refine ⟨hst.enum.last_mem, fun j hs => ?_⟩
        rcases Nat.lt_or_ge j 32 with hlt | hge
        · rw [choice_lower rom hlt, hrom' j (lt_of_lt_of_le hlt hst.upper)]
        · rw [choice_upper rom hge, hsd.upper j hge hs]
      have heq : d' = d := romBit_injective (funext fun j =>
        hd'.agree_of_choose hself (fun _ _ => rfl) j (lt_succ_self j))
      rw [heq] at hsd' hdev
      have hentry : bus'.devs (i + 1) = d ||| twoPow 64 q := by
        refine romBit_injective (funext fun j => ?_)
        rw [hdev j, romBit_or_twoPow d hq64]
        rcases lt_trichotomy j q with hlt | rfl | hgt
        · rw [hrom' j hlt]
          simp [Nat.ne_of_lt hlt]
        · rw [hrom j]
          simp
        · rw [hrom j]
          simp [hgt, Nat.ne_of_gt hgt]
      have hlow' : ∀ j < q, romBit (bus'.devs (i + 1)) j = romBit d j := by
        intro j hj
        rw [hentry, romBit_or_twoPow d hq64]
        simp [Nat.ne_of_lt hj]
      obtain ⟨bus'', hrun', hfound'⟩ := scanFrom_stuck hS hst left (i + 1) bus' cmask' hsd' hlow'
      have hlen : i + 1 + 1 + left = i + 1 + (left + 1) := by omega
      rw [hlen] at hrun' hfound'
      refine ⟨bus'', hrun.trans hrun', ?_⟩
      rw [hfound', hfound, hentry, append_assoc, replicate_succ, singleton_append]

theorem scanFrom_outcome (hS : S ≠ []) : ∀ (left i : Nat) (bus : W1Bus) (cmask : BitVec 64)
    (d : Rom), Searched S bus cmask d → bus.devs i = d →
    Enumerates romBit S (bus.found (i + 1)) d → (∀ e ∈ S, Precedes romBit e d → Alone S e) →
    ∃ n bus', scanFrom left (i + 1) cmask bus = (n, bus') ∧
      ((∃ d', Enumerates romBit S (bus'.found n) d' ∧ (∀ e ∈ S, Precedes romBit e d' → Alone S e) ∧
          ((∀ k, ¬ OpenAt romBit S d' k) ∨ n = i + 1 + left)) ∨
        n = i + 1 + left ∧ ∃ d' p L k, StuckAt S L d' p ∧
          bus'.found n = L ++ replicate (k + 1) (d' ||| twoPow 64 p))
  | 0, i, bus, cmask, d, _, _, hE, halone =>
    ⟨i + 1, bus, rfl, .inl ⟨d, hE, halone, .inr rfl⟩⟩
  | left + 1, i, bus, cmask, d, hsd, hdev, hE, halone => by
    by_cases hup : ∃ k, 32 ≤ k ∧ OpenAt romBit S d k
    · -- an upper split: stuck
      obtain ⟨k, hk, hopen⟩ := hup
      rcases scanFrom_next hS hsd left i with ⟨hclosed, -⟩ | ⟨p, -, hop, hlast, -⟩
      · exact absurd hopen (hclosed k)
      · have hst : StuckAt S (bus.found (i + 1)) d p :=
          ⟨hE, halone, le_trans hk (hlast k hopen), hop, hlast⟩
        obtain ⟨bus', hrun, hfound⟩ := scanFrom_stuck hS hst (left + 1) i bus cmask hsd
          (fun j _ => by rw [hdev])
        exact ⟨_, bus', hrun, .inr ⟨rfl, d, p, _, left, hst, hfound⟩⟩
    · have hclosedUp : ∀ k, 32 ≤ k → ¬ OpenAt romBit S d k := fun k hk ho => hup ⟨k, hk, ho⟩
      have hdalone : Alone S d := alone_of_closed hsd.upper hclosedUp
      rcases scanFrom_next hS hsd left i with ⟨hclosed, bus', hfound, hrun⟩ |
        ⟨p, hp64, hop, hlast, rom, d', bus', cmask', hrom, hrun, hd', hsd', hdev', hfound⟩
      · exact ⟨i + 1, bus', hrun, .inl ⟨d, hfound ▸ hE, halone, .inl hclosed⟩⟩
      · have hp32 : p < 32 := by
          by_contra hge
          exact hclosedUp p (Nat.le_of_not_lt hge) hop
        have hlow : ∀ j < p, choice rom j = romBit d j := by
          intro j hj
          rw [choice_lower rom (Nat.lt_trans hj hp32), hrom j, hdev]
          simp [Nat.ne_of_lt hj, Nat.not_lt_of_lt hj]
        have hone : choice rom p = true := by
          rw [choice_lower rom hp32, hrom p]
          simp
        have hhigh : ∀ j, p < j → romBit rom j = false := by
          intro j hj
          rw [hrom j]
          simp [hj, Nat.ne_of_gt hj]
        obtain ⟨hdd, hp1, hpre, hsucc⟩ := Follows.successor romBit_injective hop hlast hlow hone
          (fun j hj => by simp [choice, hhigh j hj]) hd'
        -- what is recorded is the leaf
        have hentry : bus'.devs (i + 1) = d' := by
          refine romBit_injective (funext fun j => ?_)
          rw [hdev' j]
          rcases lt_trichotomy j p with hlt | rfl | hgt
          · rw [← choice_lower rom (Nat.lt_trans hlt hp32), hlow j hlt, hdd j hlt, Bool.or_self]
          · rw [hp1, Bool.or_true]
          · rw [hhigh j hgt, Bool.false_or]
        have hE' : Enumerates romBit S (bus'.found (i + 2)) d' := by
          rw [hfound, hentry]
          exact hE.next romBit_injective hd'.mem hpre hsucc
        have halone' : ∀ e ∈ S, Precedes romBit e d' → Alone S e := by
          intro e he hlt
          by_cases heq : e = d
          · rw [heq]
            exact hdalone
          · rcases precedes_total romBit_injective heq with hed | hde
            · exact halone e he hed
            · rcases hsucc e he hde with rfl | hbad
              · exact absurd hlt Precedes.irrefl
              · exact absurd hlt hbad.asymm
        obtain ⟨n, bus'', hrun', hout⟩ :=
          scanFrom_outcome hS left (i + 1) bus' cmask' d' hsd' hentry hE' halone'
        have hlen : i + 1 + 1 + left = i + 1 + (left + 1) := by omega
        rw [hlen] at hout
        exact ⟨n, bus'', hrun.trans hrun', hout⟩

theorem w1ScanBus_outcome (hS : S ≠ []) (bus : W1Bus) (hp : bus.wire.present = S)
    (hzero : bus.devs 0 = 0) :
    (∃ d, Enumerates romBit S ((w1ScanBus bus).2.found (w1ScanBus bus).1) d ∧
        (∀ e ∈ S, Precedes romBit e d → Alone S e) ∧
        ((∀ k, ¬ OpenAt romBit S d k) ∨ (w1ScanBus bus).1 = maxDevices)) ∨
      (w1ScanBus bus).1 = maxDevices ∧ ∃ d p L k, StuckAt S L d p ∧
        (w1ScanBus bus).2.found (w1ScanBus bus).1 =
          L ++ replicate (k + 1) (d ||| twoPow 64 p) := by
  obtain ⟨d, bus', cmask', hcall, hd, hsd, hdev, hfound⟩ := scanEntry_spec hS hp 0 0 0
  have hch : ∀ j, choice 0 j = false := fun j => by simp [choice, romBit]
  have hentry : bus'.devs 0 = d :=
    romBit_injective (funext fun j => by rw [hdev j]; simp [romBit])
  have hE : Enumerates romBit S (bus'.found 1) d := by
    rw [hfound, hentry]
    exact Enumerates.first romBit_injective hd hch
  have hnone : ∀ e ∈ S, Precedes romBit e d → Alone S e := by
    intro e he hlt
    have hne : d ≠ e := by
      rintro rfl
      exact Precedes.irrefl hlt
    exact absurd hlt (hd.precedes romBit_injective he hne
      (fun j hj => absurd hj (not_lt_zero j)) fun j _ => hch j).asymm
  obtain ⟨n, bus'', hrun, hout⟩ := scanFrom_outcome hS 7 0 bus' cmask' d hsd hentry hE hnone
  have hscan : w1ScanBus bus = (n, bus'') := by
    rw [w1ScanBus, maxDevices, scanFrom, if_pos rfl]
    simp only [hzero, hcall, Bool.false_eq_true, if_false]
    exact hrun
  rw [hscan]
  exact hout

end Bus

/-- The scan returns the number of devices, and the first entries are their codes,
each once. -/
def Complete (roms : List Rom) (bus : W1Bus) : Prop :=
  (w1ScanBus bus).1 = roms.length ∧ ((w1ScanBus bus).2.found (w1ScanBus bus).1).Perm roms

instance (roms : List Rom) (bus : W1Bus) : Decidable (Complete roms bus) :=
  inferInstanceAs (Decidable (_ ∧ _))

def LowDistinct (roms : List Rom) : Prop := (roms.map (BitVec.setWidth 32)).Nodup

instance (roms : List Rom) : Decidable (LowDistinct roms) :=
  inferInstanceAs (Decidable (List.Nodup _))

theorem agree_iff_low (a b : Rom) : Agree romBit 32 a b ↔ a.setWidth 32 = b.setWidth 32 := by
  constructor
  · intro h
    apply BitVec.eq_of_getLsbD_eq
    intro j hj
    simp only [getLsbD_setWidth, hj, decide_true, Bool.true_and]
    exact h j hj
  · intro h j hj
    have hbit := congrArg (·.getLsbD j) h
    simp only [getLsbD_setWidth, hj, decide_true, Bool.true_and] at hbit
    exact hbit

theorem lowDistinct_iff_alone {roms : List Rom} (hnd : roms.Nodup) :
    LowDistinct roms ↔ ∀ d ∈ roms, Alone roms d := by
  constructor
  · intro h d hd e he hagree
    exact inj_on_of_nodup_map h he hd ((agree_iff_low d e).mp hagree).symm
  · intro h
    exact hnd.map_on fun a ha b hb heq => h b hb a ha ((agree_iff_low b a).mpr heq.symm)

/-- Eight codes, of which two have the same lower half: they differ in one bit, and all other
codes come before them in the order of the search. -/
def OneUpperPair (roms : List Rom) : Prop :=
  roms.length = maxDevices ∧ ∃ d ∈ roms, ∃ p, 32 ≤ p ∧ p < 64 ∧ romBit d p = false ∧
    d ||| BitVec.twoPow 64 p ∈ roms ∧
    ∀ e ∈ roms, e ≠ d → e ≠ d ||| BitVec.twoPow 64 p → Precedes romBit e d ∧ Alone roms e

section Pair

variable {roms : List Rom} {d : Rom} {p : Nat}

theorem precedes_or_twoPow (hp : p < 64) (h0 : romBit d p = false) :
    Agree romBit p d (d ||| twoPow 64 p) ∧ Precedes romBit d (d ||| twoPow 64 p) := by
  have hagree : Agree romBit p d (d ||| twoPow 64 p) := by
    intro j hj
    rw [romBit_or_twoPow d hp]
    simp [Nat.ne_of_lt hj]
  refine ⟨hagree, p, hagree, h0, ?_⟩
  rw [romBit_or_twoPow d hp]
  simp

theorem StuckAt.not_alone (h : StuckAt roms L d p) : ¬ Alone roms d := by
  obtain ⟨e, he, hagree, h0, h1⟩ := h.open_p
  intro hal
  rw [hal e he (hagree.mono h.upper)] at h1
  exact Bool.false_ne_true (h0.symm.trans h1)

theorem StuckAt.pair (h : StuckAt roms L d p) (hlen : roms.length = maxDevices)
    (hperm : (L ++ replicate (k + 1) (d ||| twoPow 64 p)).Perm roms) :
    OneUpperPair roms := by
  obtain ⟨e, he, hagree, h0, h1⟩ := h.open_p
  have hp64 : p < 64 := BitVec.lt_of_getLsbD h1
  have hmem : d ||| twoPow 64 p ∈ roms :=
    hperm.subset (mem_append_right _ (mem_replicate.mpr ⟨succ_ne_zero k, rfl⟩))
  refine ⟨hlen, d, h.enum.last_mem, p, h.upper, hp64, h0, hmem, fun a ha hne hne' => ?_⟩
  have hL : a ∈ L := by
    rcases mem_append.mp (hperm.symm.subset ha) with hL | hrep
    · exact hL
    · exact absurd (eq_of_mem_replicate hrep) hne'
  rcases ((h.enum.mem_iff a).mp hL).2 with heq | hpre
  · exact absurd heq hne
  · exact ⟨hpre, h.alone a ha hpre⟩

theorem StuckAt.perm_of_pair (hpair : OneUpperPair roms) (h : StuckAt roms L d p) (hnd : roms.Nodup)
    (hlen : (L ++ replicate (k + 1) (d ||| twoPow 64 p)).length = maxDevices) :
    (L ++ replicate (k + 1) (d ||| twoPow 64 p)).Perm roms := by
  obtain ⟨hcount, c, hc, q, hq, hq64, hc0, hx, hrest⟩ := hpair
  obtain ⟨-, hcx⟩ := precedes_or_twoPow hq64 hc0
  -- no code comes behind the second of the pair
  have hlastx : ∀ e ∈ roms, ¬ Precedes romBit (c ||| twoPow 64 q) e := by
    intro e he hlt
    by_cases hec : e = c
    · exact hcx.asymm (hec ▸ hlt)
    · by_cases hex : e = c ||| twoPow 64 q
      · exact Precedes.irrefl (hex ▸ hlt)
      · exact ((hrest e he hec hex).1.trans hcx).asymm hlt
  obtain ⟨e, he, hagree, h0, h1⟩ := h.open_p
  have hde : Precedes romBit d e := ⟨p, hagree, h0, h1⟩
  have hdc : d = c := by
    by_contra hne
    by_cases hdx : d = c ||| twoPow 64 q
    · exact hlastx e he (hdx ▸ hde)
    · exact h.not_alone (hrest d h.enum.last_mem hne hdx).2
  subst hdc
  have hex : e = d ||| twoPow 64 q := by
    by_contra hne
    by_cases hed : e = d
    · exact Precedes.irrefl (hed ▸ hde)
    · exact hde.asymm (hrest e he hed hne).1
  have hpq : p = q := by
    by_contra hne
    rw [hex, romBit_or_twoPow d hq64, h0] at h1
    simp [hne] at h1
  subst hpq
  have hfresh : d ||| twoPow 64 p ∉ L := by
    intro hL
    rcases ((h.enum.mem_iff _).mp hL).2 with heq | hlt
    · exact Precedes.irrefl (heq ▸ hcx)
    · exact hcx.asymm hlt
  have hone : (L ++ [d ||| twoPow 64 p]).Perm roms := by
    refine (perm_ext_iff_of_nodup (List.Nodup.append h.enum.nodup (nodup_singleton _)
      (disjoint_singleton.mpr hfresh)) hnd).mpr fun a => ?_
    rw [mem_append, mem_singleton]
    constructor
    · rintro (hL | rfl)
      · exact h.enum.subset hL
      · exact hx
    · intro ha
      by_cases hax : a = d ||| twoPow 64 p
      · exact .inr hax
      · refine .inl ((h.enum.mem_iff a).mpr ⟨ha, ?_⟩)
        by_cases had : a = d
        · exact .inl had
        · exact .inr (hrest a ha had hax).1
  have hk : k = 0 := by
    have hl := hone.length_eq
    simp only [length_append, length_replicate, length_singleton] at hlen hl
    omega
  subst hk
  exact hone

end Pair

/-- `w1_scan_bus` on a zeroed bus structure with at most eight devices finds all of them, each
once, exactly if their lower halves differ, or the table is full when the scan gets stuck. -/
theorem w1ScanBus_complete_iff (roms : List Rom) (hnd : roms.Nodup)
    (hlen : roms.length ≤ maxDevices) (bus : W1Bus) (hp : bus.wire.present = roms)
    (hzero : ∀ i, bus.devs i = 0) :
    Complete roms bus ↔ LowDistinct roms ∨ OneUpperPair roms := by
  by_cases hS : roms = []
  · subst hS
    have hscan : (w1ScanBus bus).1 = 0 := by
      simp [w1ScanBus, maxDevices, scanFrom, scanEntry, scanOne, w1Reset, hp]
    refine ⟨fun _ => .inl nodup_nil, fun _ => ⟨hscan, ?_⟩⟩
    rw [hscan]
    exact List.Perm.refl []
  · have hlength : ∀ n, ((w1ScanBus bus).2.found n).length = n := by
      intro n
      rw [W1Bus.found, length_map, length_range]
    have hcount : ((w1ScanBus bus).2.found (w1ScanBus bus).1).Perm roms → Complete roms bus :=
      fun hperm => ⟨(hlength _).symm.trans hperm.length_eq, hperm⟩
    rw [lowDistinct_iff_alone hnd]
    rcases w1ScanBus_outcome hS bus hp (hzero 0) with
      ⟨d, hE, halone, hend⟩ | ⟨hfull, d, p, L, k, hst, hfound⟩
    · have hperm : ((w1ScanBus bus).2.found (w1ScanBus bus).1).Perm roms := by
        rcases hend with hclosed | hfull
        · exact hE.perm romBit_injective hnd hclosed
        · -- the table is full: as many different codes as there can be
          have hsub := subperm_of_subset hE.nodup hE.subset
          exact hsub.perm_of_length_le (by rw [hlength, hfull]; exact hlen)
      exact ⟨fun _ => .inl (alone_of_perm hE halone hperm), fun _ => hcount hperm⟩
    · have hdL : (L ++ replicate (k + 1) (d ||| twoPow 64 p)).length = maxDevices := by
        rw [← hfound, hlength, hfull]
      constructor
      · intro hcomplete
        have hperm := hcomplete.2
        rw [hfound] at hperm
        exact .inr (hst.pair (hcomplete.1.symm.trans hfull) hperm)
      · rintro (halone | hpair)
        · exact absurd (halone d hst.enum.last_mem) hst.not_alone
        · refine hcount ?_
          rw [hfound]
          exact StuckAt.perm_of_pair hpair hst hnd hdL

def W1Bus.zeroed (roms : List Rom) : W1Bus := ⟨⟨roms, [], .off⟩, fun _ => 0⟩

/-- Three devices that differ in the lower half, one pair in bit 31 only. -/
theorem w1ScanBus_complete_three :
    Complete [0x28, 0x80000028, 0x500000010] (W1Bus.zeroed [0x28, 0x80000028, 0x500000010]) :=
  (w1ScanBus_complete_iff [0x28, 0x80000028, 0x500000010] (by decide) (by decide)
    (W1Bus.zeroed _) rfl fun _ => rfl).mpr (.inl (by decide))

/-- Two devices that first differ in bit 32: eight are reported. -/
theorem w1ScanBus_bit32 : ([0x28, 0x100000028] : List Rom).Nodup ∧
      (w1ScanBus (W1Bus.zeroed [0x28, 0x100000028])).1 = 8 ∧
      ¬ Complete [0x28, 0x100000028] (W1Bus.zeroed [0x28, 0x100000028]) := by
  have hret : (w1ScanBus (W1Bus.zeroed [0x28, 0x100000028])).1 = 8 := by decide +kernel
  refine ⟨by decide, hret, fun h => ?_⟩
  exact absurd (hret.symm.trans h.1) (by decide)

end Wrpc.W1
