/-
# The fractional main PLL

With `CONFIG_FRAC_SPLL` the output oscillator of a PLL may run at `div_fb / div_ref`
of the reference frequency.  `mpll_update` then makes `div_ref` tags of every
`div_fb` raw tags, interpolated between a raw tag and the one before: for every
raw tag one, and a second one (`tag_out_interp`) where the counter `div_cnt`
finds room for it.

The raw tags are the slow periods and the interpolated tags the fast periods of
`Wrpc.Lib.Ratio`.
-/
import Wrpc.Lib.Ratio
import Wrpc.SoftPll.PhaseDetector

namespace Wrpc.SoftPll

open CInt Ratio Int List

/-! ## The interpolated tags of a run -/

def Main.withRaw (m : Main) (tag : Int) : Main :=
  { m with tagOutRawD := m.tagOutRaw, tagOutRaw := tag }

/-- `c0 == c1` -/
def Main.Slips (m : Main) : Prop :=
  (i32 (m.divCnt * m.divFb)).tdiv m.divRef = (i32 ((m.divCnt + 1) * m.divFb)).tdiv m.divRef

instance (m : Main) : Decidable m.Slips := inferInstanceAs (Decidable (_ = _))

/-- The tags the fractional branch stores, in `tag_out` and in `tag_out_interp`. -/
def storedTags (m : Main) : List Int :=
  if m.Slips then [(resample m).tagOut, (resample m).tagOutInterp] else [(resample m).tagOut]

def rawTag (o : Observed) : MainEvent → List Int
  | .tag _ source value => if source = o.main.idOut then [(value.toNat : Int)] else []
  | _ => []

def interpolatedTags (b : Board) (o : Observed) : MainEvent → List Int
  | .tag _ source value =>
    if source = o.main.idOut then
      storedTags ((captureRef b o.main value.toNat source).withRaw value.toNat)
    else []
  | _ => []

/-! ## One raw tag -/

structure DivRatio (ref fb : Int) : Prop extends Slower ref fb where
  le_255 : ref ≤ 255

def unwrapped (a raw : Int) : Int := if raw < a then raw + 2 ^ 22 else raw

def interpolated (ref f a raw : Int) : Int := ((ref - f) * a + f * unwrapped a raw) / ref

/-- The products and the sum of the interpolation fit an `int`. -/
structure InterpolationFits (ref f a raw : Int) : Prop where
  previous : -2 ^ 31 ≤ (ref - f) * a ∧ (ref - f) * a < 2 ^ 31
  current : -2 ^ 31 ≤ f * unwrapped a raw ∧ f * unwrapped a raw < 2 ^ 31
  sum : -2 ^ 31 ≤ (ref - f) * a + f * unwrapped a raw ∧
    (ref - f) * a + f * unwrapped a raw < 2 ^ 31

section

variable {ref fb : Int} {m : Main} {j k : Nat}

theorem DivRatio.ref_pos (h : DivRatio ref fb) : 0 < ref := Int.lt_of_lt_of_le h.pos h.le

theorem interpolation_bounds (hr : DivRatio ref fb) {f a raw : Int} (hf : 0 ≤ f ∧ f < ref)
    (ha : 0 ≤ a ∧ a < 2 ^ 22) (hraw : 0 ≤ raw ∧ raw < 2 ^ 22) :
    (0 ≤ (ref - f) * a ∧ 0 ≤ f * unwrapped a raw) ∧
      (ref - f) * a + f * unwrapped a raw ≤ 255 * 2 ^ 23 := by
  have hu : 0 ≤ unwrapped a raw ∧ unwrapped a raw ≤ 2 ^ 23 := by
    unfold unwrapped
    split <;> omega
  refine ⟨⟨Int.mul_nonneg (by omega) ha.1, Int.mul_nonneg hf.1 hu.1⟩, ?_⟩
  calc (ref - f) * a + f * unwrapped a raw
      ≤ (ref - f) * 2 ^ 23 + f * 2 ^ 23 :=
        Int.add_le_add (Int.mul_le_mul_of_nonneg_left (by omega) (by omega))
          (Int.mul_le_mul_of_nonneg_left hu.2 hf.1)
    _ = ref * 2 ^ 23 := by ring
    _ ≤ 255 * 2 ^ 23 := Int.mul_le_mul_of_nonneg_right hr.le_255 (by decide)

theorem interpolation_fits (hr : DivRatio ref fb) {f a raw : Int} (hf : 0 ≤ f ∧ f < ref)
    (ha : 0 ≤ a ∧ a < 2 ^ 22) (hraw : 0 ≤ raw ∧ raw < 2 ^ 22) : InterpolationFits ref f a raw := by
  obtain ⟨⟨h₁, h₂⟩, h₃⟩ := interpolation_bounds hr hf ha hraw
  constructor <;> omega

theorem interpolate_eq (hr : DivRatio ref fb) (href : m.divRef = ref) {f raw : Int}
    (hf : 0 ≤ f ∧ f < ref) (ha : 0 ≤ m.tagOutRawD ∧ m.tagOutRawD < 2 ^ 22)
    (hraw : 0 ≤ raw ∧ raw < 2 ^ 22) :
    interpolate m f (unwrapped m.tagOutRawD raw) = interpolated ref f m.tagOutRawD raw := by
  have hfits := interpolation_fits hr hf ha hraw
  have hbounds := interpolation_bounds hr hf ha hraw
  have href255 := hr.le_255
  rw [interpolate, href, i32_of_range (x := ref - f) (by omega), i32_of_range hfits.previous,
    i32_of_range hfits.current, i32_of_range hfits.sum, tdiv_eq_ediv_of_nonneg (by omega)]
  rfl

structure Main.Counts (ref fb : Int) (k : Nat) (m : Main) : Prop where
  divRef : m.divRef = ref
  divFb : m.divFb = fb
  divCnt : m.divCnt = k % ref

theorem Main.Counts.range (h : m.Counts ref fb k) (hr : DivRatio ref fb) :
    0 ≤ m.divCnt ∧ m.divCnt < ref := by
  rw [h.divCnt]
  exact ⟨emod_nonneg _ hr.ref_pos.ne', emod_lt_of_pos _ hr.ref_pos⟩

theorem Main.Counts.products (h : m.Counts ref fb k) (hr : DivRatio ref fb) :
    i32 (m.divCnt * m.divFb) = (k % ref : Int) * fb ∧
      i32 ((m.divCnt + 1) * m.divFb) = ((k % ref : Int) + 1) * fb ∧
      0 ≤ (k % ref : Int) * fb ∧ 0 ≤ ((k % ref : Int) + 1) * fb := by
  have hrange := h.range hr
  rw [h.divCnt] at hrange
  have hfb : 0 ≤ fb ∧ fb ≤ 255 := ⟨Int.le_of_lt hr.pos, Int.le_trans hr.le hr.le_255⟩
  have href := hr.le_255
  have h₁ : (k % ref : Int) * fb ≤ 255 * 255 := Int.mul_le_mul (by omega) hfb.2 hfb.1 (by decide)
  have h₂ : ((k % ref : Int) + 1) * fb ≤ 255 * 255 :=
    Int.mul_le_mul (by omega) hfb.2 hfb.1 (by decide)
  have h₃ : 0 ≤ (k % ref : Int) * fb := Int.mul_nonneg hrange.1 hfb.1
  have h₄ : 0 ≤ ((k % ref : Int) + 1) * fb := Int.mul_nonneg (by omega) hfb.1
  rw [h.divCnt, h.divFb]
  exact ⟨i32_of_range (by omega), i32_of_range (by omega), h₃, h₄⟩

theorem Main.Counts.slips_iff (h : m.Counts ref fb k) (hr : DivRatio ref fb) :
    m.Slips ↔ Double ref fb k := by
  obtain ⟨h₁, h₂, h₃, h₄⟩ := h.products hr
  rw [Main.Slips, h₁, h₂, h.divRef, tdiv_eq_ediv_of_nonneg h₃, tdiv_eq_ediv_of_nonneg h₄]
  exact count_ediv_eq_iff hr.toSlower k

theorem Main.Counts.fractions (h : m.Counts ref fb k) (hr : DivRatio ref fb) :
    (i32 (m.divCnt * m.divFb)).tmod m.divRef = k * fb % ref ∧
      (i32 ((m.divCnt + 1) * m.divFb)).tmod m.divRef = ((k + 1 : Nat) : Int) * fb % ref := by
  obtain ⟨h₁, h₂, h₃, h₄⟩ := h.products hr
  rw [h₁, h₂, h.divRef, tmod_eq_emod_of_nonneg h₃, tmod_eq_emod_of_nonneg h₄]
  exact ⟨by rw [count_mul, Int.add_mul_emod_self_left], count_succ_emod k ref fb⟩

theorem resample_eq (m : Main) : resample m =
    let tRaw := if m.tagOutRaw < m.tagOutRawD then i32 (m.tagOutRaw + 2 ^ 22) else m.tagOutRaw
    let divCnt := i32 ((if m.Slips then i32 (m.divCnt + 1) else m.divCnt) + 1)
    { m with
      tagOut := interpolate m ((i32 (m.divCnt * m.divFb)).tmod m.divRef) tRaw
      nOut := i32 (m.nOut + 1)
      tagOutInterp :=
        if m.Slips then interpolate m ((i32 ((m.divCnt + 1) * m.divFb)).tmod m.divRef) tRaw else -1
      divCnt := if divCnt = m.divRef then 0 else divCnt } := by
  by_cases h : m.Slips
  · have hc : (i32 (m.divCnt * m.divFb)).tdiv m.divRef =
        (i32 ((m.divCnt + 1) * m.divFb)).tdiv m.divRef := h
    simp only [resample, if_pos hc, if_pos h]
    split <;> rfl
  · have hc : ¬(i32 (m.divCnt * m.divFb)).tdiv m.divRef =
        (i32 ((m.divCnt + 1) * m.divFb)).tdiv m.divRef := h
    simp only [resample, if_neg hc, if_neg h]
    split <;> rfl

theorem resample_counts (h : m.Counts ref fb k) (hr : DivRatio ref fb) :
    (resample m).Counts ref fb (k + (storedTags m).length) := by
  have hrange := h.range hr
  have href := hr.le_255
  have hslips := h.slips_iff hr
  refine ⟨by rw [resample_eq]; exact h.divRef, by rw [resample_eq]; exact h.divFb, ?_⟩
  have hcnt : (resample m).divCnt =
      if i32 ((if m.Slips then i32 (m.divCnt + 1) else m.divCnt) + 1) =
      m.divRef then 0 else i32 ((if m.Slips then i32 (m.divCnt + 1) else m.divCnt) + 1) := by
    rw [resample_eq]
  rw [hcnt, h.divRef, storedTags]
  by_cases hs : m.Slips
  · have hroom := (hslips.mp hs).count_lt hr.toSlower
    rw [← h.divCnt] at hroom
    rw [if_pos hs, if_pos hs, i32_of_range (x := m.divCnt + 1) (by omega),
      i32_of_range (by omega)]
    have hfirst : ((k + 1 : Nat) : Int) % ref = m.divCnt + 1 := by
      rw [count_succ hr.ref_pos, ← h.divCnt, if_neg (by omega)]
    rw [length_cons, length_singleton, ← Nat.add_assoc, count_succ hr.ref_pos, hfirst]
  · rw [if_neg hs, if_neg hs, i32_of_range (by omega), length_singleton,
      count_succ hr.ref_pos, ← h.divCnt]

theorem storedTags_aligned (h : m.Counts ref fb k) (hr : DivRatio ref fb)
    (ha : Aligned ref fb j k) : Aligned ref fb (j + 1) (k + (storedTags m).length) := by
  rw [storedTags]
  by_cases hs : m.Slips
  · rw [if_pos hs]
    exact ha.double hr.toSlower ((h.slips_iff hr).mp hs)
  · rw [if_neg hs]
    exact ha.single hr.toSlower fun hd => hs ((h.slips_iff hr).mpr hd)

theorem storedTags_eq (h : m.Counts ref fb k) (hr : DivRatio ref fb)
    (ha : 0 ≤ m.tagOutRawD ∧ m.tagOutRawD < 2 ^ 22) (hraw : 0 ≤ m.tagOutRaw ∧
      m.tagOutRaw < 2 ^ 22) :
    storedTags m = (List.range (storedTags m).length).map fun i =>
      interpolated ref (((k + i : Nat) : Int) * fb % ref) m.tagOutRawD m.tagOutRaw := by
  have htRaw : (if m.tagOutRaw < m.tagOutRawD then i32 (m.tagOutRaw + 2 ^ 22) else m.tagOutRaw) =
      unwrapped m.tagOutRawD m.tagOutRaw := by
    rw [i32_of_range (by omega)]
    rfl
  obtain ⟨hf₀, hf₁⟩ := h.fractions hr
  have hvalue : ∀ k : Nat, interpolate m (k * fb % ref) (unwrapped m.tagOutRawD m.tagOutRaw) =
      interpolated ref (k * fb % ref) m.tagOutRawD m.tagOutRaw := by
    intro k
    exact interpolate_eq hr h.divRef
      ⟨emod_nonneg _ hr.ref_pos.ne', emod_lt_of_pos _ hr.ref_pos⟩ ha hraw
  have hout : (resample m).tagOut = interpolated ref (k * fb % ref) m.tagOutRawD m.tagOutRaw := by
    rw [resample_eq, ← hvalue, ← htRaw, ← hf₀]
  have hinterp : m.Slips → (resample m).tagOutInterp =
      interpolated ref (((k + 1 : Nat) : Int) * fb % ref) m.tagOutRawD m.tagOutRaw := by
    intro hs
    rw [resample_eq, ← hvalue, ← htRaw, ← hf₁]
    exact if_pos hs
  by_cases hs : m.Slips
  · simp only [storedTags, if_pos hs, hout, hinterp hs]
    rfl
  · simp only [storedTags, if_neg hs, hout]
    rfl

/-! ## One event -/

structure Main.SameRaw (m m' : Main) : Prop where
  divRef : m'.divRef = m.divRef
  divFb : m'.divFb = m.divFb
  divCnt : m'.divCnt = m.divCnt
  tagOutRaw : m'.tagOutRaw = m.tagOutRaw

theorem Main.SameRaw.trans {m m' m'' : Main} (h : m.SameRaw m') (h' : m'.SameRaw m'') :
    m.SameRaw m'' :=
  ⟨h'.divRef.trans h.divRef, h'.divFb.trans h.divFb, h'.divCnt.trans h.divCnt,
    h'.tagOutRaw.trans h.tagOutRaw⟩

theorem captureRef_sameRaw (b : Board) (m : Main) (tag : Int) (source : Nat) :
    m.SameRaw (captureRef b m tag source) := by
  unfold captureRef
  grind [Main.SameRaw]

theorem unwrap_sameRaw (m : Main) : m.SameRaw (unwrapOut (unwrapRef m)) := by
  unfold unwrapOut unwrapRef
  grind [Main.SameRaw]

theorem control_sameRaw (reverseSpll : Int) (tics : BitVec 32) (m : Main) (err : Int) :
    m.SameRaw (control reverseSpll tics m err) := by
  have hshift : m.SameRaw (shiftPhase reverseSpll (rebase (controlled m err))) := by
    unfold shiftPhase rebase controlled
    grind [Main.SameRaw]
  have hsched : ∀ m : Main, m.SameRaw (mpllHandleGainSchedule m) := by
    intro m
    unfold mpllHandleGainSchedule enterStage
    grind [Main.SameRaw]
  have hdetect : ∀ m : Main, m.SameRaw (phaseDetect tics m err) := fun m => ⟨rfl, rfl, rfl, rfl⟩
  unfold control
  dsimp only
  split
  · exact hshift.trans ((hdetect _).trans (hsched _))
  · exact hshift

theorem detected_sameRaw (b : Board) (tics : BitVec 32) (m : Main) :
    m.SameRaw (detected b tics m) := by
  have hdiscard : m.SameRaw (discardEarly b m) := by
    unfold discardEarly realign
    grind [Main.SameRaw]
  exact hdiscard.trans ⟨rfl, rfl, rfl, rfl⟩

theorem mpllUpdate_sameRaw (b : Board) (reverseSpll : Int) (tics : BitVec 32) (r : Regs) (tag : Int)
    (source : Nat) (h : m.enabled = true) :
    (captureOut b (captureRef b m tag source) tag source).SameRaw
      (mpllUpdate b reverseSpll tics m r tag source).main := by
  have htake : (captureOut b (captureRef b m tag source) tag source).SameRaw
      (takeTag b m tag source) := unwrap_sameRaw _
  unfold mpllUpdate
  simp only [h, not_true_eq_false, if_false]
  split
  · exact htake.trans ((detected_sameRaw b tics _).trans (control_sameRaw reverseSpll tics _ _))
  · exact htake

/-- A PLL that has had `j` raw tags, the last of them `raw`, and stored `k` tags. -/
structure Resampled (ref fb : Int) (j k : Nat) (raw : Int) (m : Main) : Prop
    extends m.Counts ref fb k where
  enabled : m.enabled = true
  aligned : Aligned ref fb j k
  tagOutRaw : m.tagOutRaw = raw

theorem Resampled.of_same {raw : Int} {m' : Main} (h : Resampled ref fb j k raw m)
    (hs : m.SameRaw m') (he : m'.enabled = m.enabled) : Resampled ref fb j k raw m' :=
  ⟨⟨hs.divRef.trans h.divRef, hs.divFb.trans h.divFb, hs.divCnt.trans h.divCnt⟩,
    he.trans h.enabled, h.aligned, hs.tagOutRaw.trans h.tagOutRaw⟩

theorem captureOut_resampled {b : Board} (hfrac : b.frac = true) (hr : DivRatio ref fb) {raw : Int}
    (h : Resampled ref fb j k raw m) (tag : Int) :
    Resampled ref fb (j + 1) (k + (storedTags (m.withRaw tag)).length) tag
      (captureOut b m tag m.idOut) := by
  have hcounts : (m.withRaw tag).Counts ref fb k := ⟨h.divRef, h.divFb, h.divCnt⟩
  have hpos := hr.ref_pos
  have hcapture : captureOut b m tag m.idOut = resample (m.withRaw tag) := by
    rw [captureOut, if_pos rfl, if_pos hfrac]
    exact if_neg (by rw [h.divRef]; omega)
  rw [hcapture]
  have hloop := resample_sameLoop (m.withRaw tag)
  exact ⟨resample_counts hcounts hr, hloop.enabled.trans h.enabled,
    storedTags_aligned hcounts hr h.aligned, by rw [resample_eq]; rfl⟩

end

section

variable {b : Board} (reverseSpll : Int) {ref fb : Int} {j k : Nat} {raw : Int} {o : Observed}

theorem Resampled.step (hfrac : b.frac = true) (hr : DivRatio ref fb)
    (h : Resampled ref fb j k raw o.main) (e : MainEvent) :
    Resampled ref fb (j + (rawTag o e).length) (k + (interpolatedTags b o e).length)
      ((rawTag o e).getLastD raw) (o.step b reverseSpll e).main := by
  cases e with
  | tag tics source value =>
    have hfixed := mpllUpdate_fixed b o.main value.toNat source tics reverseSpll o.regs
    have hsame := mpllUpdate_sameRaw b reverseSpll tics o.regs value.toNat source h.enabled
    have href : Resampled ref fb j k raw (captureRef b o.main value.toNat source) :=
      h.of_same (captureRef_sameRaw b o.main value.toNat source)
        (captureRef_sameLoop b o.main value.toNat source).enabled
    have hid : (captureRef b o.main value.toNat source).idOut = o.main.idOut :=
      (captureRef_sameLoop b o.main value.toNat source).idOut
    have hcapture : Resampled ref fb (j + (rawTag o (.tag tics source value)).length)
        (k + (interpolatedTags b o (.tag tics source value)).length)
        ((rawTag o (.tag tics source value)).getLastD raw)
        (captureOut b (captureRef b o.main value.toNat source) value.toNat source) := by
      by_cases hs : source = o.main.idOut
      · simp only [rawTag, interpolatedTags, if_pos hs]
        have hout := captureOut_resampled hfrac hr href value.toNat
        rw [hid, ← hs] at hout
        exact hout
      · simp only [rawTag, interpolatedTags, if_neg hs]
        rw [captureOut, hid, if_neg hs]
        exact href
    refine hcapture.of_same hsame ?_
    rw [hcapture.enabled]
    exact hfixed.enabled.trans h.enabled
  | setTarget target => exact h.of_same ⟨rfl, rfl, rfl, rfl⟩ rfl
  | setPsFreeze freeze => exact h.of_same ⟨rfl, rfl, rfl, rfl⟩ rfl
  | setVcoFreeze freeze => exact h.of_same ⟨rfl, rfl, rfl, rfl⟩ rfl

end

def rawTags (b : Board) (reverseSpll : Int) (o : Observed) (es : List MainEvent) : List Int :=
  Run.emits (Observed.step b reverseSpll) rawTag o es

def resampledTags (b : Board) (reverseSpll : Int) (o : Observed) (es : List MainEvent) : List Int :=
  Run.emits (Observed.step b reverseSpll) (interpolatedTags b) o es

section

variable {b : Board} (reverseSpll : Int) {ref fb : Int}

theorem Resampled.run (hfrac : b.frac = true) (hr : DivRatio ref fb) : ∀ (es : List MainEvent)
    {o : Observed} {j k : Nat} {raw : Int}, Resampled ref fb j k raw o.main →
    Resampled ref fb (j + (rawTags b reverseSpll o es).length)
      (k + (resampledTags b reverseSpll o es).length)
      ((rawTags b reverseSpll o es).getLastD raw) (Run.run (Observed.step b reverseSpll) o es).main
  | [], _, _, _, _, h => h
  | e :: es, o, j, k, raw, h => by
    have htail := Resampled.run hfrac hr es (h.step reverseSpll hfrac hr e)
    have hraw : rawTags b reverseSpll o (e :: es) =
        rawTag o e ++ rawTags b reverseSpll (o.step b reverseSpll e) es := rfl
    have hout : resampledTags b reverseSpll o (e :: es) =
        interpolatedTags b o e ++ resampledTags b reverseSpll (o.step b reverseSpll e) es := rfl
    have hlast : (rawTags b reverseSpll o (e :: es)).getLastD raw =
        (rawTags b reverseSpll (o.step b reverseSpll e) es).getLastD
          ((rawTag o e).getLastD raw) := by
      rw [hraw]
      simp only [getLastD_eq_getLast?, getLast?_append]
      cases (rawTags b reverseSpll (o.step b reverseSpll e) es).getLast? <;> rfl
    rw [hlast, hraw, hout, length_append, length_append, ← Nat.add_assoc,
      ← Nat.add_assoc]
    exact htail

theorem Resampled.start (hfrac : b.frac = true) (hr : DivRatio ref fb) (tics : BitVec 32) {m : Main}
    (r : Regs) (href : m.divRef = ref) (hfb : m.divFb = fb) :
    Resampled ref fb 0 0 (-1) (Observed.start b tics m r).main := by
  have hstart : ((Observed.start b tics m r).main.divRef = m.divRef ∧
      (Observed.start b tics m r).main.divFb = m.divFb ∧
      (Observed.start b tics m r).main.divCnt = 0) ∧
      (Observed.start b tics m r).main.enabled = true ∧
      (Observed.start b tics m r).main.tagOutRaw = -1 := by
    simp only [Observed.start, mpllStart, Main.started, startGainSchedule, hfrac, if_true]
    cases m.gainSched with
    | none | some => exact ⟨⟨rfl, rfl, rfl⟩, rfl, rfl⟩
  obtain ⟨⟨h₁, h₂, h₃⟩, h₄, h₅⟩ := hstart
  exact ⟨⟨h₁.trans href, h₂.trans hfb, by rw [h₃]; rfl⟩, h₄, .zero hr.toSlower, h₅⟩

theorem rawTags_range (b : Board) (reverseSpll : Int) : ∀ (es : List MainEvent) (o : Observed),
    ∀ t ∈ rawTags b reverseSpll o es, 0 ≤ t ∧ t < 2 ^ 22
  | [], _, _, ht => (nomatch ht)
  | e :: es, o, t, ht => by
    rcases mem_append.mp ht with ht | ht
    · cases e with
      | tag tics source value =>
        simp only [rawTag] at ht
        split at ht
        · rw [mem_singleton.mp ht]
          omega
        · cases ht
      | setTarget target => cases ht
      | setPsFreeze freeze => cases ht
      | setVcoFreeze freeze => cases ht
    · exact rawTags_range b reverseSpll es _ t ht

end

/-- After `mpll_start`, for all ratios and all sequences of tags: `div_cnt` stays in range; any
`div_fb` consecutive raw tags give `div_ref` interpolated tags; and each interpolated tag behind the
first raw tag is, in numbers that fit an `int`, the one its number and the last two raw tags ask
for. -/
theorem resampling_exact (b : Board) (hfrac : b.frac = true) (reverseSpll : Int) (tics : BitVec 32)
    (m : Main) (r : Regs) (ref fb : Nat) (hratio : 1 ≤ fb ∧ fb ≤ ref ∧ ref ≤ 2 * fb ∧ ref ≤ 255)
    (hm : m.divRef = ref ∧ m.divFb = fb) (es : List MainEvent) :
    Run.Always (Observed.step b reverseSpll)
      (fun o => 0 ≤ o.main.divCnt ∧ o.main.divCnt < ref) (Observed.start b tics m r) es ∧
    (∀ pre mid post, es = pre ++ mid ++ post →
      let o := Run.run (Observed.step b reverseSpll) (Observed.start b tics m r) pre
      (rawTags b reverseSpll o mid).length = fb →
        (resampledTags b reverseSpll o mid).length = ref) ∧
    ∀ pre e post a, es = pre ++ e :: post →
      let o := Run.run (Observed.step b reverseSpll) (Observed.start b tics m r) pre
      let k := (resampledTags b reverseSpll (Observed.start b tics m r) pre).length
      (rawTags b reverseSpll (Observed.start b tics m r) pre).getLast? = some a →
      ∀ raw ∈ rawTag o e,
        interpolatedTags b o e = (List.range (interpolatedTags b o e).length).map (fun i =>
          interpolated ref (((k + i : Nat) : Int) * fb % ref) a raw) ∧
        ∀ i : Nat, InterpolationFits ref (((k + i : Nat) : Int) * fb % ref) a raw := by
  have hr : DivRatio ref fb := ⟨⟨by omega, by omega, by omega⟩, by omega⟩
  have hstart := Resampled.start hfrac hr tics r hm.1 hm.2
  refine ⟨?_, ?_, ?_⟩
  · exact Run.always_of_inv
      (I := fun o => ∃ j k raw, Resampled ref fb j k raw o.main)
      (fun o e ⟨j, k, raw, h⟩ _ => ⟨_, _, _, h.step reverseSpll hfrac hr e⟩)
      (fun o ⟨j, k, raw, h⟩ => h.toCounts.range hr) ⟨0, 0, -1, hstart⟩ (Run.steps_true _ es)
  · rintro pre mid post -
    dsimp only
    intro hlen
    have hpre := Resampled.run reverseSpll hfrac hr pre hstart
    have hmid := Resampled.run reverseSpll hfrac hr mid hpre
    have haligned := hmid.aligned
    rw [hlen] at haligned
    exact Int.ofNat.inj (hpre.aligned.window haligned)
  · rintro pre e post a -
    dsimp only
    intro hlast raw hraw
    have hpre := Resampled.run reverseSpll hfrac hr pre hstart
    rw [Nat.zero_add, Nat.zero_add, getLastD_eq_getLast?, hlast, Option.getD_some] at hpre
    have ha := rawTags_range b reverseSpll pre (Observed.start b tics m r) a
      (mem_of_getLast? hlast)
    revert hpre
    generalize Run.run (Observed.step b reverseSpll) (Observed.start b tics m r) pre = o at hraw ⊢
    intro hpre
    cases e with
    | tag tics' source value =>
      simp only [rawTag] at hraw
      split at hraw
      case isTrue hs =>
        have hvalue : (value.toNat : Int) < 2 ^ 22 := by
          omega
        rw [mem_singleton.mp hraw]
        have href := hpre.of_same (captureRef_sameRaw b o.main value.toNat source)
          (captureRef_sameLoop b o.main value.toNat source).enabled
        have hcounts : ((captureRef b o.main value.toNat source).withRaw value.toNat).Counts ref
            fb (resampledTags b reverseSpll (Observed.start b tics m r) pre).length :=
          ⟨href.divRef, href.divFb, href.divCnt⟩
        have hrawD : ((captureRef b o.main value.toNat source).withRaw value.toNat).tagOutRawD =
            a :=
          href.tagOutRaw
        have htags := storedTags_eq hcounts hr (by rw [hrawD]; exact ha)
          ⟨natCast_nonneg _, hvalue⟩
        rw [hrawD] at htags
        constructor
        · simp only [interpolatedTags, if_pos hs]
          exact htags
        · intro i
          exact interpolation_fits hr
            ⟨emod_nonneg _ hr.ref_pos.ne', emod_lt_of_pos _ hr.ref_pos⟩ ha
            ⟨natCast_nonneg _, hvalue⟩
      case isFalse => cases hraw
    | setTarget target => cases hraw
    | setPsFreeze freeze => cases hraw
    | setVcoFreeze freeze => cases hraw

/-- A ratio of 3 to 2: two raw tags give three tags. -/
theorem resampling_three_halves :
    (resampledTags { Board.generic with frac := true } 1
      (Observed.start { Board.generic with frac := true } 0
        { (default : Main) with divRef := 3, divFb := 2, idOut := 1 } default)
      [.tag 0 1 30, .tag 0 1 60]).length = 3 :=
  (resampling_exact { Board.generic with frac := true } rfl 1 0
    { (default : Main) with divRef := 3, divFb := 2, idOut := 1 } default 3 2 (by decide) ⟨rfl, rfl⟩
    [.tag 0 1 30, .tag 0 1 60]).2.1 [] [.tag 0 1 30, .tag 0 1 60] [] rfl (by decide)

end Wrpc.SoftPll
