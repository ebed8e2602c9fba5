/-
# The TAI offset from the leap-second list (`tools/time_lib.c`)

`getTaiOffsetFromLeapSecondsFile` scans the list for the entry in force.  It takes an entry only
when it lies before the given time, and looks twelve hours ahead with "not later"; the two disagree
at the second an entry starts.  `*nextTai` is stored by an entry alone, so before the first one it
keeps what the caller put there.

What the lookup should give is a function of the entries alone (`offsetAt`), and so are the
conditions under which it does: where an entry starts, it must repeat the offset before it
(`Keeps`), and looking ahead needs an entry to find (`Known`).
-/
import Mathlib.Data.Finset.Max
import Mathlib.Tactic.Linarith

namespace Wrpc.LeapSeconds

open List

/-- A line of the list, as `sscanf` reads it. -/
inductive Line
  | other
  | expiration (expirationDate : Nat)
  | entry (leapNtpTime : Nat) (tai : Int)

/-- What the function returns, and the caller's two variables, none for a NULL pointer. -/
structure Out where
  taiOffset : Int
  nextTai : Option Int
  hasExpired : Option Int

/-- `OFFSET_NTP_TIME_TO_UTC` -/
def offsetNtpTimeToUtc : Int := 2208988800

/-- `TWELVE_HOURS` -/
def twelveHours : Nat := 60 * 60 * 12

def scan (ntpTime nextNtpTime : Nat) : List Line → Out → Out
  | [], o => o
  | .other :: lines, o => scan ntpTime nextNtpTime lines o
  | .expiration expirationDate :: lines, o =>
    scan ntpTime nextNtpTime lines
      { o with hasExpired := o.hasExpired.map fun _ => if ntpTime > expirationDate then 1 else 0 }
  | .entry leapNtpTime tai :: lines, o =>
    if leapNtpTime < ntpTime then
      scan ntpTime nextNtpTime lines
        { o with taiOffset := tai, nextTai := o.nextTai.map fun _ => tai }
    else if leapNtpTime ≤ nextNtpTime then { o with nextTai := o.nextTai.map fun _ => tai }
    else o

/-- `ntpTime`, a `uint64_t`. -/
def ntpTime (utc : Int) : Nat := ((utc + offsetNtpTimeToUtc) % 2 ^ 64).toNat

/-- `getTaiOffsetFromLeapSecondsFile`; no file is one that cannot be opened. -/
def getTaiOffsetFromLeapSecondsFile (file : Option (List Line)) (utc : Int)
    (nextTai hasExpired : Option Int) : Out :=
  match file with
  | none => { taiOffset := -1, nextTai, hasExpired }
  | some lines =>
    scan (ntpTime utc) ((ntpTime utc + twelveHours) % 2 ^ 64) lines
      { taiOffset := 9, nextTai, hasExpired }

def entries (lines : List Line) : List (Nat × Int) :=
  lines.filterMap fun
    | .entry leapNtpTime tai => some (leapNtpTime, tai)
    | _ => none

/-- The offset of the last entry whose time passes a test, `d` if none does. -/
def lastOffset (p : Nat → Bool) (d : Int) (es : List (Nat × Int)) : Int :=
  es.foldl (fun d e => if p e.1 then e.2 else d) d

/-- The offset in force at an NTP time: of the last entry that does not start later. -/
def offsetAt (es : List (Nat × Int)) (t : Nat) : Int := lastOffset (· ≤ t) 9 es

/-- Twelve hours are less than it is from one entry to the next. -/
def Spaced (es : List (Nat × Int)) : Prop := es.Pairwise fun e e' => e.1 + twelveHours < e'.1

/-- The entry that starts at `t`, the last one if there are several, repeats the offset before. -/
def Keeps (es : List (Nat × Int)) (t : Nat) : Prop :=
  ∀ e ∈ (es.filter fun e => e.1 = t).getLast?, e.2 = lastOffset (· < t) 9 es

instance (es : List (Nat × Int)) (t : Nat) : Decidable (Keeps es t) :=
  inferInstanceAs (Decidable (∀ _ ∈ _, _))

/-- An entry has started by `t`, or the caller's variable held the initial offset already. -/
def Known (es : List (Nat × Int)) (t : Nat) (nextTai : Int) : Prop :=
  (∃ e ∈ es, e.1 ≤ t) ∨ nextTai = 9

/-! ## The last offset

The scan stops early and compares with `<`; both are put in terms of `lastOffset`, over all entries
of a sorted list. -/

section

variable {p q : Nat → Bool} {d d' : Int} {es : List (Nat × Int)}

theorem lastOffset_cons (e : Nat × Int) :
    lastOffset p d (e :: es) = lastOffset p (if p e.1 then e.2 else d) es := rfl

theorem lastOffset_of_not (h : ∀ e ∈ es, p e.1 = false) : lastOffset p d es = d := by
  induction es with
  | nil => rfl
  | cons e es ih =>
    rw [forall_mem_cons] at h
    rw [lastOffset_cons, h.1]
    exact ih h.2

theorem lastOffset_congr (h : ∀ e ∈ es, p e.1 = q e.1) : lastOffset p d es = lastOffset q d es := by
  induction es generalizing d with
  | nil => rfl
  | cons e es ih =>
    rw [forall_mem_cons] at h
    rw [lastOffset_cons, lastOffset_cons, h.1, ih h.2]

theorem lastOffset_init (h : ∃ e ∈ es, p e.1 = true) : lastOffset p d es = lastOffset p d' es := by
  induction es generalizing d d' with
  | nil => exact absurd h (by simp)
  | cons e es ih =>
    rw [lastOffset_cons, lastOffset_cons]
    split
    case isTrue => rfl
    case isFalse hp =>
      simp only [mem_cons, exists_eq_or_imp] at h
      exact ih (h.resolve_left hp)

theorem le_lastOffset (h : ∀ e ∈ es, d ≤ e.2) (hoffsets : es.Pairwise fun e e' => e.2 ≤ e'.2) :
    d ≤ lastOffset p d es := by
  induction es generalizing d with
  | nil => exact Int.le_refl d
  | cons e es ih =>
    rw [forall_mem_cons] at h
    rw [pairwise_cons] at hoffsets
    rw [lastOffset_cons]
    split
    · exact h.1.trans (ih hoffsets.1 hoffsets.2)
    · exact ih h.2 hoffsets.2

theorem lastOffset_before {t : Nat} {e : Nat × Int}
    (hsorted : (e :: es).Pairwise fun e e' => e.1 ≤ e'.1) (hge : ¬e.1 < t) :
    lastOffset (· < t) d (e :: es) = d := by
  rw [pairwise_cons] at hsorted
  refine lastOffset_of_not (forall_mem_cons.2 ⟨decide_eq_false hge, fun e' he' => ?_⟩)
  have := hsorted.1 e' he'
  exact decide_eq_false (by omega)

/-- Not later than `t`: the entries before, and then the last one at `t`. -/
theorem lastOffset_le_eq {t : Nat} (hsorted : es.Pairwise fun e e' => e.1 ≤ e'.1) :
    lastOffset (· ≤ t) d es =
      ((es.filter fun e => e.1 = t).getLast?.map Prod.snd).getD (lastOffset (· < t) d es) := by
  induction es generalizing d with
  | nil => rfl
  | cons e es ih =>
    by_cases hlt : e.1 < t
    · have hfilter : (e :: es).filter (fun e => e.1 = t) = es.filter fun e => e.1 = t :=
        filter_cons_of_neg (by simpa using hlt.ne)
      rw [lastOffset_cons, lastOffset_cons, hfilter, if_pos (decide_eq_true hlt),
        if_pos (decide_eq_true hlt.le), ih (pairwise_cons.1 hsorted).2]
    rw [lastOffset_before hsorted hlt]
    have hbehind := (pairwise_cons.1 hsorted).1
    by_cases heq : e.1 = t
    · have hrest : lastOffset (· < t) e.2 es = e.2 :=
        lastOffset_of_not fun e' he' => decide_eq_false (by have := hbehind e' he'; omega)
      rw [lastOffset_cons, if_pos (decide_eq_true heq.le), ih (pairwise_cons.1 hsorted).2,
        hrest, filter_cons_of_pos (by simpa using heq), getLast?_cons]
      cases (es.filter fun e => e.1 = t).getLast? <;> rfl
    · have hlater : ∀ e' ∈ e :: es, t < e'.1 := by
        refine forall_mem_cons.2 ⟨by omega, fun e' he' => ?_⟩
        have := hbehind e' he'
        omega
      rw [lastOffset_of_not fun e' he' => decide_eq_false (by have := hlater e' he'; omega),
        filter_eq_nil_iff.2 fun e' he' => by have := hlater e' he'; simp; omega]
      rfl

theorem before_eq_iff {t : Nat} (hsorted : es.Pairwise fun e e' => e.1 ≤ e'.1) :
    lastOffset (· < t) 9 es = offsetAt es t ↔ Keeps es t := by
  rw [offsetAt, lastOffset_le_eq hsorted, Keeps]
  cases (es.filter fun e => e.1 = t).getLast? with
  | none => simp
  | some e => simp [eq_comm]

theorem known_iff {t : Nat} {nextTai : Int} :
    lastOffset (· ≤ t) nextTai es = offsetAt es t ↔ Known es t nextTai := by
  by_cases hsome : ∃ e ∈ es, e.1 ≤ t
  · exact iff_of_true (lastOffset_init (by simpa using hsome)) (.inl hsome)
  · have hnone (d : Int) : lastOffset (· ≤ t) d es = d :=
      lastOffset_of_not fun e he => decide_eq_false fun hle => hsome ⟨e, he, hle⟩
    rw [offsetAt, hnone, hnone, Known]
    exact (or_iff_right hsome).symm

/-- Without an entry by `t` none starts at `t` either, so that the two conditions are apart. -/
theorem known_keeps_iff {t : Nat} {nextTai : Int}
    (hsorted : es.Pairwise fun e e' => e.1 ≤ e'.1) :
    lastOffset (· ≤ t) nextTai es = lastOffset (· < t) 9 es ↔ Known es t nextTai ∧ Keeps es t := by
  rw [← known_iff, ← before_eq_iff hsorted]
  by_cases hsome : ∃ e ∈ es, e.1 ≤ t
  · rw [show lastOffset (· ≤ t) nextTai es = offsetAt es t from
      lastOffset_init (by simpa using hsome)]
    simp [eq_comm]
  · have hbefore : lastOffset (· < t) 9 es = offsetAt es t :=
      lastOffset_congr fun e he => by
        have hlt : ¬e.1 ≤ t := fun hle => hsome ⟨e, he, hle⟩
        simp [hlt]
        omega
    simp [hbefore]

theorem lastOffset_mono {t t' : Nat} (htt : t ≤ t') (hsorted : es.Pairwise fun e e' => e.1 ≤ e'.1)
    (h : ∀ e ∈ es, d ≤ e.2) (hoffsets : es.Pairwise fun e e' => e.2 ≤ e'.2) :
    lastOffset (· < t) d es ≤ lastOffset (· < t') d es := by
  induction es generalizing d with
  | nil => exact Int.le_refl d
  | cons e es ih =>
    by_cases hlt : e.1 < t
    · rw [pairwise_cons] at hsorted hoffsets
      rw [lastOffset_cons, lastOffset_cons, if_pos (decide_eq_true hlt),
        if_pos (decide_eq_true (hlt.trans_le htt))]
      exact ih hsorted.2 hoffsets.1 hoffsets.2
    · rw [lastOffset_before hsorted hlt]
      exact le_lastOffset h hoffsets

/-- The offset before `t` is the one in force when the latest entry before `t` starts. -/
theorem exists_started {t : Nat} (h : ∃ e ∈ es, e.1 < t) :
    ∃ e ∈ es, e.1 < t ∧ lastOffset (· < t) d es = lastOffset (· ≤ e.1) d es := by
  obtain ⟨e₀, he₀, hlt₀⟩ := h
  obtain ⟨e, he, hmax⟩ := Finset.exists_max_image (es.toFinset.filter fun e => e.1 < t) Prod.fst
    ⟨e₀, by simpa using ⟨he₀, hlt₀⟩⟩
  simp only [Finset.mem_filter, mem_toFinset] at he hmax
  refine ⟨e, he.1, he.2, lastOffset_congr fun e' he' => ?_⟩
  by_cases hlt : e'.1 < t
  · simp [hlt, hmax e' ⟨he', hlt⟩]
  · have := he.2
    simp [hlt]
    omega

theorem lastOffset_mono_iff {T : Nat} (hsorted : es.Pairwise fun e e' => e.1 ≤ e'.1)
    (hoffsets : es.Pairwise fun e e' => e.2 ≤ e'.2) :
    (∀ t t', t ≤ t' → t' ≤ T → lastOffset (· < t) d es ≤ lastOffset (· < t') d es) ↔
      ∀ e ∈ es, e.1 < T → d ≤ lastOffset (· ≤ e.1) d es := by
  constructor
  · intro h e _ hlt
    have hzero : lastOffset (· < 0) d es = d := lastOffset_of_not fun _ _ => rfl
    have hstarted : lastOffset (· < e.1 + 1) d es = lastOffset (· ≤ e.1) d es :=
      lastOffset_congr fun e' _ => by simp [Nat.lt_succ_iff]
    have := h 0 (e.1 + 1) (Nat.zero_le _) hlt
    rwa [hzero, hstarted] at this
  · intro h t t' htt hT
    by_cases hsome : ∃ e ∈ es, e.1 < t
    · -- the initial offset is not looked at, and the first entry's is the least
      obtain ⟨e₀, he₀, hlt₀⟩ := hsome
      obtain ⟨first, rest, rfl⟩ := exists_cons_of_ne_nil (ne_nil_of_mem he₀)
      have hinit {s : Nat} (hs : t ≤ s) : lastOffset (· < s) d (first :: rest) =
          lastOffset (· < s) first.2 (first :: rest) :=
        lastOffset_init ⟨e₀, he₀, decide_eq_true (hlt₀.trans_le hs)⟩
      rw [hinit (Nat.le_refl t), hinit htt]
      exact lastOffset_mono htt hsorted
        (forall_mem_cons.2 ⟨Int.le_refl _, (pairwise_cons.1 hoffsets).1⟩) hoffsets
    · have hnone : lastOffset (· < t) d es = d :=
        lastOffset_of_not fun e he => decide_eq_false fun hlt => hsome ⟨e, he, hlt⟩
      rw [hnone]
      by_cases hlater : ∃ e ∈ es, e.1 < t'
      · obtain ⟨e, he, hlt, heq⟩ := exists_started (d := d) hlater
        rw [heq]
        exact h e he (hlt.trans_le hT)
      · rw [lastOffset_of_not fun e he => decide_eq_false fun hlt => hlater ⟨e, he, hlt⟩]

end

theorem scan_taiOffset (t n : Nat) : ∀ (lines : List Line) (o : Out),
    ((entries lines).Pairwise fun e e' => e.1 ≤ e'.1) →
    (scan t n lines o).taiOffset = lastOffset (· < t) o.taiOffset (entries lines)
  | [], _, _ => rfl
  | .other :: lines, o, h => scan_taiOffset t n lines o h
  | .expiration _ :: lines, _, h => scan_taiOffset t n lines _ h
  | .entry leap tai :: lines, o, h => by
    by_cases hlt : leap < t
    · rw [scan, if_pos hlt, scan_taiOffset t n lines _ (pairwise_cons.1 h).2]
      simp [entries, lastOffset, hlt]
    · rw [scan, if_neg hlt]
      refine Eq.trans ?_ (lastOffset_before h hlt).symm
      split <;> rfl

theorem scan_nextTai (t : Nat) : ∀ (lines : List Line) (o : Out), Spaced (entries lines) →
    (scan t (t + twelveHours) lines o).nextTai =
      o.nextTai.map fun d => lastOffset (· ≤ t + twelveHours) d (entries lines)
  | [], o, _ => by simp [scan, entries, lastOffset]
  | .other :: lines, o, h => scan_nextTai t lines o h
  | .expiration _ :: lines, _, h => scan_nextTai t lines _ h
  | .entry leap tai :: lines, o, h => by
    have h' := pairwise_cons.1 h
    by_cases hlt : leap < t
    · have hle : leap ≤ t + twelveHours := by omega
      rw [scan, if_pos hlt, scan_nextTai t lines _ h'.2]
      simp [entries, lastOffset, hle, Function.comp_def]
    · have hnone : ∀ e ∈ entries lines, decide (e.1 ≤ t + twelveHours) = false := by
        intro e he
        have := h'.1 e he
        simp only at this
        exact decide_eq_false (by omega)
      have hrest (d : Int) : lastOffset (· ≤ t + twelveHours) d (entries (.entry leap tai :: lines))
          = if leap ≤ t + twelveHours then tai else d := by
        refine (lastOffset_cons _).trans ((lastOffset_of_not hnone).trans ?_)
        simp
      simp only [hrest, scan, if_neg hlt]
      split <;> simp

section

variable {lines : List Line} {utc : Int} {nextTai hasExpired : Option Int}

theorem ntpTime_of_range (hlo : -offsetNtpTimeToUtc ≤ utc) (hhi : utc < 2 ^ 63) :
    (ntpTime utc : Int) = utc + offsetNtpTimeToUtc := by
  unfold ntpTime
  unfold offsetNtpTimeToUtc at *
  omega

/-- The latest NTP time that can be asked for. -/
def lastNtpTime : Nat := ntpTime (2 ^ 63 - 1)

theorem scan_at (hlo : -offsetNtpTimeToUtc ≤ utc) (hhi : utc < 2 ^ 63)
    (hsorted : (entries lines).Pairwise fun e e' => e.1 ≤ e'.1) :
    let out := getTaiOffsetFromLeapSecondsFile (some lines) utc nextTai hasExpired
    out.taiOffset = lastOffset (· < ntpTime utc) 9 (entries lines) ∧
      (Spaced (entries lines) → out.nextTai = nextTai.map fun d =>
        lastOffset (· ≤ ntpTime utc + twelveHours) d (entries lines)) := by
  have htime := ntpTime_of_range hlo hhi
  have hnext : (ntpTime utc + twelveHours) % 2 ^ 64 = ntpTime utc + twelveHours := by
    unfold twelveHours offsetNtpTimeToUtc at *
    omega
  rw [getTaiOffsetFromLeapSecondsFile, hnext]
  exact ⟨scan_taiOffset _ _ lines _ hsorted, scan_nextTai _ lines _⟩

/-- **The lookup.**  The offset is that of the last entry not later, and `*nextTai` the one in force
twelve hours later, exactly when an entry starting at that very time changes nothing and there is an
entry to look ahead to; the results do not decrease exactly when no listed offset is below the
initial 9. -/
theorem getTaiOffsetFromLeapSecondsFile_iff (hlo : -offsetNtpTimeToUtc ≤ utc) (hhi : utc < 2 ^ 63)
    (hsorted : (entries lines).Pairwise fun e e' => e.1 ≤ e'.1) (nextTai : Int) :
    let es := entries lines
    let out utc := getTaiOffsetFromLeapSecondsFile (some lines) utc (some nextTai) hasExpired
    let ahead := ntpTime utc + twelveHours
    ((out utc).taiOffset = offsetAt es (ntpTime utc) ↔ Keeps es (ntpTime utc)) ∧
      (Spaced es →
        ((out utc).nextTai = some (offsetAt es ahead) ↔ Known es ahead nextTai) ∧
        (utc + twelveHours < 2 ^ 63 →
          ((out utc).nextTai = some (out (utc + twelveHours)).taiOffset ↔
            Known es ahead nextTai ∧ Keeps es ahead))) ∧
      (es.Pairwise (fun e e' => e.2 ≤ e'.2) →
        ((∀ earlier later, -offsetNtpTimeToUtc ≤ earlier → earlier ≤ later → later < 2 ^ 63 →
            (out earlier).taiOffset ≤ (out later).taiOffset) ↔
          ∀ e ∈ es, e.1 < lastNtpTime → 9 ≤ offsetAt es e.1)) := by
  intro es out ahead
  have hresult {u : Int} (hu : -offsetNtpTimeToUtc ≤ u) (hu' : u < 2 ^ 63) :
      (out u).taiOffset = lastOffset (· < ntpTime u) 9 es := (scan_at hu hu' hsorted).1
  have hlast : (lastNtpTime : Int) = 2 ^ 63 - 1 + offsetNtpTimeToUtc :=
    ntpTime_of_range (by decide) (by decide)
  refine ⟨by rw [hresult hlo hhi, before_eq_iff hsorted], fun hspaced => ?_,
    fun hoffsets => Iff.trans
      ⟨fun h t t' htt hT => ?_, fun h earlier later hearlier hle hlater => ?_⟩
        (lastOffset_mono_iff hsorted hoffsets)⟩
  · have hnext : (out utc).nextTai = some (lastOffset (· ≤ ahead) nextTai es) :=
      (scan_at hlo hhi hsorted).2 hspaced
    rw [hnext, Option.some_inj]
    refine ⟨known_iff, fun hahead => ?_⟩
    have hlater : ntpTime (utc + twelveHours) = ahead := by
      have := ntpTime_of_range hlo hhi
      have := @ntpTime_of_range (utc + twelveHours) (by omega) hahead
      omega
    rw [hresult (by omega) hahead, hlater, Option.some_inj]
    exact known_keeps_iff hsorted
  · -- every NTP time is the one of some UTC time
    have hat (s : Nat) (hs : s ≤ t') : ntpTime (s - offsetNtpTimeToUtc) = s := by
      have := @ntpTime_of_range (s - offsetNtpTimeToUtc) (by omega) (by omega)
      omega
    have := h (t - offsetNtpTimeToUtc) (t' - offsetNtpTimeToUtc) (by omega) (by omega) (by omega)
    rwa [hresult (by omega) (by omega), hresult (by omega) (by omega), hat t htt,
      hat t' (Nat.le_refl _)] at this
  · have ht := ntpTime_of_range hearlier (by omega)
    have ht' := @ntpTime_of_range later (by omega) hlater
    rw [hresult hearlier (by omega), hresult (by omega) hlater]
    exact h _ _ (by omega) (by omega)

end

def list1999 : List Line :=
  [.expiration 4000000000, .entry 2272060800 10, .other, .entry 3124137600 32]

theorem getTaiOffsetFromLeapSecondsFile_iff_newYear :
    (getTaiOffsetFromLeapSecondsFile (some list1999) 915148801 (some 0) none).taiOffset = 32 :=
  (getTaiOffsetFromLeapSecondsFile_iff (by decide) (by decide) (by decide) 0).1.2 (by decide)

/-- At the second an entry starts the offset before it is returned; before the first entry
`*nextTai` is not stored. -/
theorem getTaiOffsetFromLeapSecondsFile_start :
    (getTaiOffsetFromLeapSecondsFile (some list1999) 915148800 (some 0) none).taiOffset = 10 ∧
      offsetAt (entries list1999) (ntpTime 915148800) = 32 ∧
      (getTaiOffsetFromLeapSecondsFile (some list1999) 0 (some 0) none).nextTai = some 0 ∧
      offsetAt (entries list1999) (ntpTime 0 + twelveHours) = 9 := by
  decide

end Wrpc.LeapSeconds
