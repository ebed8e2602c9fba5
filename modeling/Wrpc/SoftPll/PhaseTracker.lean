/-
# Averaging around the wrap

A phase tracker averages `n_avg` phase differences, each known modulo one
period (2^14).  What is averaged is unwrapped against the first sample of the
block: `adj_tab` looks at the quadrants of the two and adds or takes a period
where one lies in the first and the other in the last.

If every sample is less than a quarter period from the first, in either
direction, that is the representative nearest to the first (`adjusted_eq`), and
a block of n samples ends with their average (`ptracker_block`).
-/
import Mathlib.Algebra.Order.BigOperators.Group.List
import Wrpc.Lib.Run
import Wrpc.SoftPll.State

namespace Wrpc.SoftPll

open CInt List Int

variable {ds : List Int} {first : Int}

/-- `to_picos` -/
def toPicos (b : Board) (units : Int) : Int := i32 (i64 (units * b.clockPeriodPs) >>> (14 : Nat))

def onePeriod (phase : Int) : Int :=
  if phase < 0 then phase + 2 ^ 14 else if 2 ^ 14 ≤ phase then phase - 2 ^ 14 else phase

/-- What `spll_read_ptracker` gives. -/
structure PtrackerReading where
  phasePs : Int
  enabled : Bool
  ready : Int

/-- `spll_read_ptracker` -/
def spllReadPtracker (b : Board) (s : State) (channel : Nat) : PtrackerReading :=
  let st := s.ptrackers channel
  let phase := onePeriod st.phaseVal
  let phase := if b.divideDmtd then i32 (phase * 2) % 2 ^ 14 else phase
  ⟨toPicos b phase, s.ptrackerMask.getLsbD st.id.toNat, st.ready⟩

/-- `spll_set_ptracker_average_samples` -/
def spllSetPtrackerAverageSamples (s : State) (channel : Nat) (nsamples : Int) : State :=
  let pt := { s.ptrackers channel with
    preserveSign := 0, ready := 0, acc := 0, avgCount := 0, nAvg := nsamples }
  { s with ptrackers := Function.update s.ptrackers channel pt }

/-! ## The phase differences -/

/-- The difference `ptrackers_update` takes. -/
def phaseDifference (reverseSpll tagRef tag : Int) : Int :=
  if reverseSpll = 0 then (tagRef - tag) % 2 ^ 14 else (tag - tagRef) % 2 ^ 14

/-- The representative of `d` nearest to `first`. -/
def nearest (first d : Int) : Int := first + bmod (d - first) (2 ^ 14)

/-- All samples are strictly within a quarter period of the first, around the circle. -/
def Clustered : List Int → Prop
  | [] => True
  | first :: ds => ∀ d ∈ ds, |bmod (d - first) (2 ^ 14)| < 2 ^ 12

instance : DecidablePred Clustered
  | [] => isTrue trivial
  | first :: ds =>
    inferInstanceAs (Decidable (∀ d ∈ ds, |bmod (d - first) (2 ^ 14)| < 2 ^ 12))

def blockSum : List Int → Int
  | [] => 0
  | first :: ds => ((first :: ds).map (nearest first)).sum

theorem phaseDifference_range (reverseSpll tagRef tag : Int) :
    0 ≤ phaseDifference reverseSpll tagRef tag ∧
      phaseDifference reverseSpll tagRef tag < 2 ^ 14 := by
  unfold phaseDifference
  split <;> omega

theorem nearest_self (first : Int) : nearest first first = first := by
  simp [nearest]

theorem bmod_difference {d : Int} (hfirst : 0 ≤ first ∧ first < 2 ^ 14)
    (hd : 0 ≤ d ∧ d < 2 ^ 14) : bmod (d - first) (2 ^ 14) =
      if d - first < -2 ^ 13 then d - first + 2 ^ 14
      else if 2 ^ 13 ≤ d - first then d - first - 2 ^ 14 else d - first := by
  rw [bmod_def]
  split
  case isTrue h => split <;> omega
  case isFalse h => split <;> omega

theorem adjusted_eq {d : Int} (hfirst : 0 ≤ first ∧ first < 2 ^ 14) (hd : 0 ≤ d ∧ d < 2 ^ 14)
    (hnear : |bmod (d - first) (2 ^ 14)| < 2 ^ 12) :
    d + adjTab (d / 2 ^ 12 + first / 2 ^ 12 * 4) = nearest first d := by
  rw [bmod_difference hfirst hd, abs_lt] at hnear
  rw [nearest, bmod_difference hfirst hd]
  unfold adjTab
  by_cases hend : d - first < -2 ^ 13
  -- the sample has gone past the end of the period
  · omega
  · by_cases hbegin : 2 ^ 13 ≤ d - first
    -- the sample has gone past its beginning
    · omega
    · omega

theorem nearest_lt {d : Int} (hfirst : 0 ≤ first ∧ first < 2 ^ 14)
    (hnear : |bmod (d - first) (2 ^ 14)| < 2 ^ 12) :
    -2 ^ 12 ≤ nearest first d ∧ nearest first d ≤ 2 ^ 14 + 2 ^ 12 := by
  rw [abs_lt] at hnear
  rw [nearest]
  omega

/-! ## A block -/

structure Block (ds : List Int) : Prop where
  range : ∀ d ∈ ds, 0 ≤ d ∧ d < 2 ^ 14
  clustered : Clustered ds

theorem Block.of_append {es : List Int} (h : Block (ds ++ es)) : Block ds := by
  refine ⟨fun d hd => h.range d (mem_append_left es hd), ?_⟩
  cases ds with
  | nil => trivial
  | cons first ds => exact fun d hd => h.clustered d (mem_append_left es hd)

theorem Block.terms (h : Block (first :: ds)) :
    ∀ y ∈ (first :: ds).map (nearest first), -2 ^ 12 ≤ y ∧ y ≤ 2 ^ 14 + 2 ^ 12 := by
  have hfirst := h.range first (mem_cons_self ..)
  intro y hy
  obtain ⟨d, hd, rfl⟩ := List.mem_map.mp hy
  rcases List.mem_cons.mp hd with rfl | hd
  · rw [nearest_self]
    omega
  · exact nearest_lt hfirst (h.clustered d hd)

theorem Block.sum_range (h : Block ds) :
    -2 ^ 12 * ds.length ≤ blockSum ds ∧ blockSum ds ≤ (2 ^ 14 + 2 ^ 12) * ds.length := by
  cases ds with
  | nil => exact ⟨Int.le_refl 0, Int.le_refl 0⟩
  | cons first ds =>
    have hlo := card_nsmul_le_sum _ (-2 ^ 12 : Int) fun y hy => (h.terms y hy).1
    have hhi := sum_le_card_nsmul _ (2 ^ 14 + 2 ^ 12 : Int) fun y hy => (h.terms y hy).2
    rw [length_map, nsmul_eq_mul] at hlo hhi
    constructor
    · rw [mul_comm]
      exact hlo
    · rw [mul_comm]
      exact hhi

theorem Block.sum_lt (h : Block ds) (hlen : ds.length ≤ 100000) :
    -2 ^ 31 ≤ blockSum ds ∧ blockSum ds < 2 ^ 31 := by
  have hsum := h.sum_range
  omega

theorem Block.average_range (h : Block ds) (hne : ds ≠ []) :
    -2 ^ 14 ≤ (blockSum ds).tdiv ds.length ∧ (blockSum ds).tdiv ds.length < 2 ^ 15 := by
  have hlen : (0 : Int) < ds.length := by
    have := List.length_pos_iff.mpr hne
    omega
  obtain ⟨hlo, hhi⟩ := h.sum_range
  constructor
  · calc -2 ^ 14 ≤ (-2 ^ 12 * (ds.length : Int)).tdiv ds.length := by
          rw [Int.mul_tdiv_cancel _ hlen.ne']
          decide
      _ ≤ _ := Int.tdiv_le_tdiv hlen hlo
  · calc (blockSum ds).tdiv ds.length
        ≤ ((2 ^ 14 + 2 ^ 12) * (ds.length : Int)).tdiv ds.length := Int.tdiv_le_tdiv hlen hhi
      _ < 2 ^ 15 := by
          rw [Int.mul_tdiv_cancel _ hlen.ne']
          decide

theorem blockSum_concat (first : Int) (ds : List Int) (d : Int) :
    blockSum (first :: ds ++ [d]) = blockSum (first :: ds) + nearest first d := by
  simp [blockSum, add_assoc]

/-! ## The tracker -/

/-- A tracker that waits for the first sample of a block of `n`. -/
structure AtBlock (p : Ptracker) (n : Nat) : Prop where
  enabled : p.enabled ≠ 0
  avgCount : p.avgCount = 0
  nAvg : p.nAvg = n

/-- The tracker `p` after the samples `ds` of a block. -/
def Ptracker.after (p : Ptracker) : List Int → Ptracker
  | [] => p
  | first :: ds =>
    if ((first :: ds).length : Int) = p.nAvg then
      { p with
        preserveSign := first / 2 ^ 12 * 4
        phaseVal := (blockSum (first :: ds)).tdiv p.nAvg
        ready := 1
        acc := 0
        avgCount := 0 }
    else
      { p with
        preserveSign := first / 2 ^ 12 * 4
        acc := blockSum (first :: ds)
        avgCount := (first :: ds).length }

def Ptracker.take (p : Ptracker) (delta : Int) : Ptracker :=
  if p.avgCount = 0 then
    { p with preserveSign := delta / 2 ^ 12 * 4, acc := delta, avgCount := i32 (p.avgCount + 1) }
  else
    let p := { p with
      acc := i32 (p.acc + (delta + adjTab (delta / 2 ^ 12 + p.preserveSign)))
      avgCount := i32 (p.avgCount + 1) }
    if p.avgCount = p.nAvg then
      { p with phaseVal := p.acc.tdiv p.nAvg, ready := 1, acc := 0, avgCount := 0 }
    else p

theorem ptrackerUpdate_eq_take {p : Ptracker} (h : p.enabled ≠ 0) (reverseSpll tagRef tag : Int) :
    ptrackerUpdate reverseSpll tagRef p tag = p.take (phaseDifference reverseSpll tagRef tag) := by
  rw [ptrackerUpdate, if_neg h]
  rfl

section

variable {b : Board} {p : Ptracker} {n : Nat}

theorem after_enabled (p : Ptracker) (ds : List Int) : (p.after ds).enabled = p.enabled := by
  unfold Ptracker.after
  grind

theorem after_of_lt (hp : AtBlock p n) : ∀ {ds : List Int}, ds.length < n →
    (p.after ds).avgCount = ds.length ∧ (p.after ds).ready = p.ready
  | [], _ => ⟨hp.avgCount, rfl⟩
  | first :: ds, hlen => by
    have hmore : ¬((first :: ds).length : Int) = p.nAvg := by
      rw [hp.nAvg]
      omega
    simp only [Ptracker.after, if_neg hmore, and_self]

theorem after_of_eq (hp : AtBlock p n) : ∀ {ds : List Int}, ds.length = n → ds ≠ [] →
    AtBlock (p.after ds) n ∧ (p.after ds).ready = 1 ∧ (p.after ds).phaseVal = (blockSum ds).tdiv n
  | [], _, hne => absurd rfl hne
  | first :: ds, hlen, _ => by
    have hlast : ((first :: ds).length : Int) = p.nAvg := by rw [hp.nAvg, hlen]
    rw [Ptracker.after, if_pos hlast]
    exact ⟨⟨hp.enabled, rfl, hp.nAvg⟩, rfl, by rw [← hp.nAvg]⟩

theorem take_after (hp : AtBlock p n) (hn : 2 ≤ n ∧ n ≤ 100000) {d : Int}
    (hlen : ds.length < n) (hblock : Block (ds ++ [d])) :
    (p.after ds).take d = p.after (ds ++ [d]) := by
  obtain ⟨henabled, hcount, hnAvg⟩ := hp
  cases ds with
  | nil =>
    have hone : ¬(([d].length : Nat) : Int) = p.nAvg := by
      rw [length_singleton]
      omega
    have hsum : blockSum [d] = d := by
      simp only [blockSum, map_cons, map_nil, nearest_self, sum_singleton]
    simp only [Ptracker.after, nil_append, if_neg hone, Ptracker.take, hcount, if_true, hsum]
    rfl
  | cons first ds =>
    have hmore : ¬((first :: ds).length : Int) = p.nAvg := by omega
    have hpos : ¬((first :: ds).length : Int) = 0 := by
      rw [length_cons]
      omega
    have hlength : ((first :: (ds ++ [d])).length : Int) = (first :: ds).length + 1 := by
      rw [length_cons, length_append, length_singleton]
      rfl
    have hcnt : i32 ((first :: ds).length + 1) = (first :: ds).length + 1 :=
      i32_of_range (by omega)
    have hadj := adjusted_eq (hblock.range first (mem_append_left _ (mem_cons_self ..)))
      (hblock.range d (mem_append_right _ (mem_singleton_self d)))
      (hblock.clustered d (mem_append_right _ (mem_singleton_self d)))
    have hsum : i32 (blockSum (first :: ds) + nearest first d) =
        blockSum (first :: (ds ++ [d])) := by
      have hconcat : blockSum (first :: (ds ++ [d])) = blockSum (first :: ds) + nearest first d :=
        blockSum_concat first ds d
      rw [← hconcat]
      refine i32_of_range (hblock.sum_lt ?_)
      rw [cons_append]
      omega
    simp only [Ptracker.after, if_neg hmore, Ptracker.take, if_neg hpos, hcnt, hadj, hsum,
      cons_append, hlength]

/-! ## Runs -/

/-- `update_ptrackers` on a tag and its source. -/
def trackStep (b : Board) (s : State) (call : Int × Nat) : State :=
    updatePtrackers b s call.1 call.2

/-- The phase difference a call gives the tracker of channel `c`. -/
def sampleOf (c : Nat) (s : State) (call : Int × Nat) : List Int :=
  if call.2 = c then [phaseDifference s.reverseSpll s.ptrackerTagRef call.1] else []

/-- The samples of channel `c` over a run. -/
def samples (b : Board) (c : Nat) (s : State) (calls : List (Int × Nat)) : List Int :=
  Run.emits (trackStep b) (sampleOf c) s calls

theorem trackStep_ptracker {c : Nat} (hc : c < b.nChanRef) (s : State) (call : Int × Nat) :
    (trackStep b s call).ptrackers c =
      if call.2 = c then ptrackerUpdate s.reverseSpll s.ptrackerTagRef (s.ptrackers c) call.1
      else s.ptrackers c := by
  have haux : ∀ s : State, ∀ i, (updateAuxPtracker b s call.1 i).ptrackers = s.ptrackers := by
    intro s i
    unfold updateAuxPtracker
    split <;> rfl
  have hpt : (trackStep b s call).ptrackers = (updateRefPtrackers b s call.1 call.2).ptrackers := by
    unfold trackStep updatePtrackers
    dsimp only
    split
    · rw [haux]
    · rfl
  rw [hpt]
  unfold updateRefPtrackers
  split
  · split
    · rw [if_neg (by omega)]
    · by_cases h : call.2 = c
      · rw [if_pos h, ← h]
        exact Function.update_self ..
      · rw [if_neg h]
        exact Function.update_of_ne (Ne.symm h) ..
  · rw [if_neg (by omega)]

theorem run_ptracker {c : Nat} (hc : c < b.nChanRef) (hp : AtBlock p n)
    (hn : 2 ≤ n ∧ n ≤ 100000) : ∀ (calls : List (Int × Nat)) (s : State) (ds : List Int),
    s.ptrackers c = p.after ds → Block (ds ++ samples b c s calls) →
    (ds ++ samples b c s calls).length ≤ n →
    (Run.run (trackStep b) s calls).ptrackers c = p.after (ds ++ samples b c s calls)
  | [], s, ds, hs, _, _ => by
    have hnil : ds ++ samples b c s [] = ds := append_nil ds
    rw [hnil]
    exact hs
  | call :: calls, s, ds, hs, hblock, hlen => by
    have hsplit : ds ++ samples b c s (call :: calls) =
        ds ++ sampleOf c s call ++ samples b c (trackStep b s call) calls := by
      rw [append_assoc]
      rfl
    rw [hsplit] at hblock hlen ⊢
    refine run_ptracker hc hp hn calls _ _ ?_ hblock hlen
    rw [trackStep_ptracker hc, sampleOf]
    rw [sampleOf] at hblock hlen
    split
    case isTrue h =>
      rw [if_pos h] at hblock hlen
      rw [hs, ptrackerUpdate_eq_take (by rw [after_enabled]; exact hp.enabled)]
      refine take_after hp hn ?_ hblock.of_append
      rw [length_append, length_append, length_singleton] at hlen
      omega
    case isFalse h =>
      rw [append_nil]
      exact hs

theorem samples_range (b : Board) (c : Nat) : ∀ (calls : List (Int × Nat)) (s : State),
    ∀ d ∈ samples b c s calls, 0 ≤ d ∧ d < 2 ^ 14
  | [], _, _, hd => (nomatch hd)
  | call :: calls, s, d, hd => by
    rcases List.mem_append.mp hd with hd | hd
    · rw [sampleOf] at hd
      split at hd
      · rw [List.mem_singleton.mp hd]
        exact phaseDifference_range ..
      · cases hd
    · exact samples_range b c calls _ d hd

end

/-- The product fits 64 bits and the result 32, as long as the period does. -/
theorem toPicos_eq {b : Board} (hperiod : b.clockPeriodPs < 2 ^ 31) {v : Int}
    (hv : 0 ≤ v ∧ v < 2 ^ 14) : toPicos b v = v * b.clockPeriodPs / 2 ^ 14 := by
  have hnonneg : 0 ≤ v * b.clockPeriodPs := Int.mul_nonneg hv.1 (Int.natCast_nonneg _)
  have hle : v * b.clockPeriodPs ≤ 2 ^ 14 * b.clockPeriodPs :=
    Int.mul_le_mul_of_nonneg_right hv.2.le (Int.natCast_nonneg _)
  rw [toPicos, i64_of_range (by omega), Int.shiftRight_eq_div_pow]
  exact i32_of_range (by omega)

theorem onePeriod_modEq (phase : Int) : onePeriod phase ≡ phase [ZMOD 2 ^ 14] := by
  unfold onePeriod
  split
  · exact add_modEq_right
  · split
    · exact modEq_iff_dvd.mpr ⟨1, by omega⟩
    · rfl

theorem spllReadPtracker_phasePs {b : Board} (hdiv : b.divideDmtd = false)
    (hperiod : b.clockPeriodPs < 2 ^ 31) {s : State} {c : Nat}
    (h : -2 ^ 14 ≤ (s.ptrackers c).phaseVal ∧ (s.ptrackers c).phaseVal < 2 ^ 15) :
    ∃ v : Int, 0 ≤ v ∧ v < 2 ^ 14 ∧ v ≡ (s.ptrackers c).phaseVal [ZMOD 2 ^ 14] ∧
      (spllReadPtracker b s c).phasePs = v * b.clockPeriodPs / 2 ^ 14 := by
  have hv : 0 ≤ onePeriod (s.ptrackers c).phaseVal ∧
      onePeriod (s.ptrackers c).phaseVal < 2 ^ 14 := by
    unfold onePeriod
    grind
  refine ⟨onePeriod (s.ptrackers c).phaseVal, hv.1, hv.2, onePeriod_modEq _, ?_⟩
  rw [← toPicos_eq hperiod hv]
  simp [spllReadPtracker, hdiv]

/-- A block of n samples, each within a quarter period of the first, whatever tags of the main and
the other channels come in between: the tracker counts the samples and no sum of them overflows; at
the n-th it has their average, is ready, and waits for the next block; and the phase that is read is
the average modulo one period, in picoseconds. -/
theorem ptracker_block (b : Board) (s : State) (c n : Nat) (hc : c < b.nChanRef)
    (hn : 2 ≤ n ∧ n ≤ 100000) (hp : AtBlock (s.ptrackers c) n) (calls : List (Int × Nat))
    (hlen : (samples b c s calls).length = n) (hclustered : Clustered (samples b c s calls)) :
    (∀ pre post, calls = pre ++ post → (samples b c s pre).length < n →
      ((Run.run (trackStep b) s pre).ptrackers c).avgCount = (samples b c s pre).length ∧
      ((Run.run (trackStep b) s pre).ptrackers c).ready = (s.ptrackers c).ready ∧
      -2 ^ 31 ≤ blockSum (samples b c s pre) ∧ blockSum (samples b c s pre) < 2 ^ 31) ∧
    AtBlock ((Run.run (trackStep b) s calls).ptrackers c) n ∧
    ((Run.run (trackStep b) s calls).ptrackers c).ready = 1 ∧
    ((Run.run (trackStep b) s calls).ptrackers c).phaseVal =
      (blockSum (samples b c s calls)).tdiv n ∧
    -2 ^ 31 ≤ blockSum (samples b c s calls) ∧ blockSum (samples b c s calls) < 2 ^ 31 ∧
    (b.divideDmtd = false → b.clockPeriodPs < 2 ^ 31 →
      ∃ v : Int, 0 ≤ v ∧ v < 2 ^ 14 ∧
        v ≡ ((Run.run (trackStep b) s calls).ptrackers c).phaseVal [ZMOD 2 ^ 14] ∧
        (spllReadPtracker b (Run.run (trackStep b) s calls) c).phasePs =
          v * b.clockPeriodPs / 2 ^ 14) := by
  have hblock : Block (samples b c s calls) := ⟨samples_range b c calls s, hclustered⟩
  constructor
  · rintro pre post rfl hpre
    have hsplit : samples b c s (pre ++ post) =
        samples b c s pre ++ samples b c (Run.run (trackStep b) s pre) post :=
      Run.emits_append (trackStep b) (sampleOf c) s pre post
    have hblockPre : Block (samples b c s pre) := by
      rw [hsplit] at hblock
      exact hblock.of_append
    have hrun := run_ptracker hc hp hn pre s [] rfl hblockPre (Nat.le_of_lt hpre)
    rw [hrun]
    obtain ⟨hcount, hready⟩ := after_of_lt hp hpre
    exact ⟨hcount, hready, hblockPre.sum_lt (by omega)⟩
  · have hrun := run_ptracker hc hp hn calls s [] rfl hblock (Nat.le_of_eq hlen)
    rw [nil_append] at hrun
    have hne : samples b c s calls ≠ [] := by
      intro h
      rw [h, length_nil] at hlen
      omega
    obtain ⟨hnext, hready, hphase⟩ := after_of_eq hp hlen hne
    rw [← hrun] at hnext hready hphase
    have hsum := hblock.sum_lt (by omega)
    refine ⟨hnext, hready, hphase, hsum.1, hsum.2,
      fun hdiv hperiod => spllReadPtracker_phasePs hdiv hperiod ?_⟩
    rw [hphase, ← hlen]
    exact hblock.average_range hne

/-- A tracker that has been started, and then set to average two samples. -/
def averaging : State :=
  spllSetPtrackerAverageSamples
    { (default : State) with
      reverseSpll := 1
      ptrackers := fun i => (ptrackerStart Board.generic (ptrackerInit default i 512) default).1 }
    0 2

/-- The samples -5 and 1, with a tag of the main channel before each: the average lies just below
a whole period of 8000 ps. -/
theorem ptracker_block_around_zero :
    let b := { Board.generic with divideDmtd := false }
    let s := Run.run (trackStep b) averaging [(100, 1), (95, 0), (200, 1), (201, 0)]
    (s.ptrackers 0).phaseVal = 2 ^ 14 - 2 ∧ (spllReadPtracker b s 0).phasePs = 7999 := by
  intro b s
  obtain ⟨-, -, -, hphase, -, -, hread⟩ := ptracker_block b averaging 0 2 (by decide) (by decide)
    ⟨by decide, rfl, rfl⟩ [(100, 1), (95, 0), (200, 1), (201, 0)] (by decide) (by decide)
  have hval : (s.ptrackers 0).phaseVal = 2 ^ 14 - 2 := hphase.trans (by decide)
  obtain ⟨v, hnonneg, hlt, hmod, hps⟩ := hread rfl (by decide)
  have hv : v = 2 ^ 14 - 2 := by
    have hmod' : v ≡ 2 ^ 14 - 2 [ZMOD 2 ^ 14] := hval ▸ hmod
    rwa [Int.ModEq, emod_eq_of_lt hnonneg hlt] at hmod'
  exact ⟨hval, by rw [hps, hv]; decide⟩

end Wrpc.SoftPll
