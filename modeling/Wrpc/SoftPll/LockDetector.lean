/-
# Which lock detectors can lose lock

A lock detector counts samples up to `lock_samples` while they are inside its
threshold and down to `delock_samples` while they are outside.  The comment on
`spll_lock_det_t` asks for `delock_samples < lock_samples`: the counter of a
locked detector is then above `delock_samples` and every sample outside brings
it closer (`Counted.loses`).  With the two the other way round it never gets
there.

`Reachable` are the states of all detectors the code sets up; the frequency
detectors of the main and the aux PLLs are set up the other way round
(`detector_loses_iff`).
-/
import Wrpc.SoftPll.Schedules

namespace Wrpc.SoftPll

open CInt List

/-! ## The counter -/

/-- A sample outside the threshold; of the least `int` there is no `abs`. -/
def LockDet.Outside (ld : LockDet) (y : Int) : Prop :=
  -2 ^ 31 < y ∧ y < 2 ^ 31 ∧ ld.threshold < |y|

/-- One of the samples makes `ld_update` return -1 and clear `locked`. -/
def Loses (ld : LockDet) : List Int → Prop
  | [] => False
  | y :: ys =>
    ((ldUpdate ld y).2 = -1 ∧ (ldUpdate ld y).1.locked = false) ∨ Loses (ldUpdate ld y).1 ys

structure Counted (ld : LockDet) : Prop where
  nonneg : 0 ≤ ld.lockCnt
  le : ld.lockCnt ≤ ld.lockSamples
  held : ld.locked = true → ld.delockSamples < ld.lockCnt ∨ ld.lockCnt = ld.lockSamples

section

variable {ld : LockDet}

theorem abs32_of_range {y : Int} (hlo : -2 ^ 31 < y) (hhi : y < 2 ^ 31) : abs32 y = |y| := by
  unfold abs32
  split
  case isTrue hpos => exact (abs_of_nonneg hpos).symm
  case isFalse hneg =>
    rw [i32_of_range (by omega), abs_of_neg (by omega)]

theorem ldInit_counted (h : 0 ≤ ld.lockSamples) : Counted (ldInit ld) :=
  ⟨Int.le_refl 0, h, fun hl => (nomatch hl)⟩

theorem ldUpdate_lockSamples (ld : LockDet) (y : Int) :
    (ldUpdate ld y).1.lockSamples = ld.lockSamples := by
  unfold ldUpdate
  grind

theorem ldUpdate_counted_inside (h : Counted ld) {y : Int} (hy : abs32 y ≤ ld.threshold) :
    Counted (ldUpdate ld y).1 := by
  obtain ⟨hnonneg, hle, hheld⟩ := h
  simp only [ldUpdate, if_pos hy]
  split <;> split
  · exact ⟨by simp only; omega, by simp only; omega, fun _ => .inr (by assumption)⟩
  · refine ⟨by simp only; omega, by simp only; omega, fun hl => ?_⟩
    simp only
    have := hheld hl
    omega
  · exact ⟨hnonneg, hle, fun _ => .inr (by assumption)⟩
  · exact ⟨hnonneg, hle, hheld⟩

theorem ldUpdate_counted_outside (h : Counted ld) (hdelock : 0 ≤ ld.delockSamples) {y : Int}
    (hy : ¬abs32 y ≤ ld.threshold) : Counted (ldUpdate ld y).1 := by
  obtain ⟨hnonneg, hle, hheld⟩ := h
  simp only [ldUpdate, if_neg hy]
  split <;> split
  · exact ⟨Int.le_refl 0, by simp only; omega, fun hl => (nomatch hl)⟩
  · rename_i habove hnot
    refine ⟨by simp only; omega, by simp only; omega, fun hl => .inl ?_⟩
    have hne : ld.lockCnt - 1 ≠ ld.delockSamples := fun he => hnot ⟨he, hl⟩
    simp only
    omega
  · exact ⟨Int.le_refl 0, by simp only; omega, fun hl => (nomatch hl)⟩
  · exact ⟨hnonneg, hle, hheld⟩

theorem ldUpdate_counted (h : Counted ld) (hdelock : 0 ≤ ld.delockSamples) (y : Int) :
    Counted (ldUpdate ld y).1 := by
  by_cases hy : abs32 y ≤ ld.threshold
  · exact ldUpdate_counted_inside h hy
  · exact ldUpdate_counted_outside h hdelock hy

theorem ldUpdate_closer (hgt : ld.delockSamples + 1 < ld.lockCnt) {y : Int}
    (hy : ¬abs32 y ≤ ld.threshold) : (ldUpdate ld y).1 = { ld with
      lockCnt := ld.lockCnt - 1, lockChanged := false } := by
  unfold ldUpdate
  grind

/-- A locked detector loses its lock with the samples that bring the counter to
`delock_samples`. -/
theorem loses_of_length : ∀ {ld : LockDet} {ys : List Int}, ld.locked = true →
    ld.delockSamples ≤ ld.lockCnt → ld.lockCnt - ld.delockSamples ≤ ys.length → ys ≠ [] →
    (∀ y ∈ ys, ¬abs32 y ≤ ld.threshold) → Loses ld ys
  | _, [], _, _, _, hne, _ => absurd rfl hne
  | ld, y :: ys, hl, hge, hlen, _, hout => by
    have hy := hout y (mem_cons_self ..)
    rw [length_cons] at hlen
    by_cases hnear : ld.lockCnt ≤ ld.delockSamples + 1
    · exact .inl (by unfold ldUpdate; grind)
    · have hcloser := ldUpdate_closer (by omega) hy
      have hne : ys ≠ [] := by
        rintro rfl
        rw [length_nil] at hlen
        omega
      refine .inr ?_
      rw [hcloser]
      exact loses_of_length hl (by simp only; omega) (by simp only; omega) hne
        fun z hz => hout z (mem_cons_of_mem _ hz)

theorem Counted.loses (h : Counted ld) (hsetup : ld.delockSamples ≤ ld.lockSamples)
    (hdelock : 0 ≤ ld.delockSamples) (hpos : 0 < ld.lockSamples) (hl : ld.locked = true)
    {ys : List Int} (hlen : ys.length = ld.lockSamples.toNat) (hout : ∀ y ∈ ys, ld.Outside y) :
    Loses ld ys := by
  have hheld := h.held hl
  have hle := h.le
  refine loses_of_length hl (by omega) (by omega) (fun hnil => ?_) fun y hy => ?_
  · rw [hnil, length_nil] at hlen
    omega
  · obtain ⟨hlo, hhi, habs⟩ := hout y hy
    rw [abs32_of_range hlo hhi]
    omega

theorem not_loses : ∀ {ld : LockDet} {ys : List Int}, ld.lockSamples < ld.delockSamples →
    ld.lockCnt ≤ ld.lockSamples → ¬Loses ld ys
  | _, [], _, _, h => h
  | ld, y :: ys, hsetup, hle, h => by
    have hstep : (ldUpdate ld y).2 ≠ -1 ∧ (ldUpdate ld y).1.lockSamples = ld.lockSamples ∧
        (ldUpdate ld y).1.delockSamples = ld.delockSamples ∧
        (ldUpdate ld y).1.lockCnt ≤ ld.lockSamples := by
      unfold ldUpdate
      grind
    obtain ⟨hret, hlock, hdelock, hcnt⟩ := hstep
    rcases h with ⟨hret', -⟩ | h
    · exact hret hret'
    · exact not_loses (by omega) (by omega) h

end

/-! ## The detectors -/

/-- `ld` of the helper, `freq_ld` and `phase_ld` of the main and the aux PLLs. -/
inductive Detector
  | helper
  | freq
  | phase
deriving DecidableEq

/-- The states of a detector: set up and started, cleared, set up for a stage of a board's schedule,
and after any sample. -/
inductive Reachable (b : Board) : Detector → LockDet → Prop
  | helper (first : Bool) (reverseSpll : Int) (tics : BitVec 32) (h : Helper) (r : Regs) :
      Reachable b .helper (helperStart b reverseSpll tics (helperVeryInit b first h) r).1.ld
  | freq (first : Bool) (m : Main) (idRef idOut : Nat) :
      Reachable b .freq (mpllInit b first m idRef idOut).freqLd
  | phase (first : Bool) (m : Main) (idRef idOut : Nat) :
      Reachable b .phase (mpllInit b first m idRef idOut).phaseLd
  | start {m : Main} (tics : BitVec 32) : Reachable b .phase m.phaseLd →
      (∀ g, m.gainSched = some g → g.stages 0 ∈ boardStages) →
      Reachable b .phase (m.started b tics).phaseLd
  | stage {m : Main} {g : GainSchedule} : Reachable b .phase m.phaseLd → g.stage ∈ boardStages →
      Reachable b .phase (enterStage m g).phaseLd
  | init {kind : Detector} {ld : LockDet} : Reachable b kind ld → Reachable b kind (ldInit ld)
  | update {kind : Detector} {ld : LockDet} (y : Int) : Reachable b kind ld →
      Reachable b kind (ldUpdate ld y).1

def Detector.SetUp (ld : LockDet) : Detector → Prop
  | .helper => ld.threshold = 200 ∧ ld.delockSamples = 100 ∧ ld.lockSamples = 10000
  | .freq => ld.threshold = 50 ∧ ld.delockSamples = 20000 ∧ ld.lockSamples = 50
  | .phase => ld.threshold = 1200 ∧ ld.delockSamples = 100 ∧ 1000 ≤ ld.lockSamples

section

variable {b : Board} {kind : Detector} {ld ld' : LockDet}

theorem Detector.SetUp.of_same (h : kind.SetUp ld) (hthreshold : ld'.threshold = ld.threshold)
    (hdelock : ld'.delockSamples = ld.delockSamples) (hlock : ld'.lockSamples = ld.lockSamples) :
    kind.SetUp ld' := by
  cases kind with
  | helper | freq | phase =>
    simp only [Detector.SetUp, hthreshold, hdelock, hlock]
    exact h

theorem Detector.SetUp.bounds (h : kind.SetUp ld) :
    0 ≤ ld.delockSamples ∧ 0 < ld.lockSamples ∧ 0 ≤ ld.threshold ∧ ld.threshold < 2 ^ 30 := by
  cases kind with
  | helper | freq | phase =>
    simp only [Detector.SetUp] at h
    omega

theorem boardStages_lockSamples : ∀ st ∈ boardStages, 1000 ≤ st.lockSamples := by
  decide

theorem startGainSchedule_phaseLd {m : Main} (h : Detector.phase.SetUp m.phaseLd)
    (hboard : ∀ g, m.gainSched = some g → g.stages 0 ∈ boardStages) :
    Detector.phase.SetUp (startGainSchedule m).phaseLd := by
  unfold startGainSchedule
  split
  · exact h
  · rename_i g hg
    exact ⟨h.1, h.2.1, boardStages_lockSamples _ (hboard g hg)⟩

theorem Reachable.inv (h : Reachable b kind ld) : kind.SetUp ld ∧ Counted ld := by
  induction h with
  | helper first reverseSpll tics h r =>
    exact ⟨⟨rfl, rfl, rfl⟩, ldInit_counted (by decide : (0 : Int) ≤ 10000)⟩
  | freq first m idRef idOut =>
    exact ⟨⟨rfl, rfl, rfl⟩, ldInit_counted (by decide : (0 : Int) ≤ 50)⟩
  | phase first m idRef idOut =>
    exact ⟨⟨rfl, rfl, Int.le_refl _⟩, ldInit_counted (by decide : (0 : Int) ≤ 1000)⟩
  | @start m tics _ hboard ih =>
    have hset : Detector.phase.SetUp (m.started b tics).phaseLd :=
      startGainSchedule_phaseLd ih.1 hboard
    exact ⟨hset, ldInit_counted (Int.le_of_lt hset.bounds.2.1)⟩
  | stage _ hboard ih =>
    have hlock := boardStages_lockSamples _ hboard
    exact ⟨⟨ih.1.1, ih.1.2.1, hlock⟩, Int.le_refl 0, by simp only [enterStage]; omega,
      fun hl => (nomatch hl)⟩
  | init _ ih => exact ⟨ih.1.of_same rfl rfl rfl, ldInit_counted (Int.le_of_lt ih.1.bounds.2.1)⟩
  | @update kind ld y _ ih =>
    have hsetup := ldUpdate_setup ld y
    exact ⟨ih.1.of_same hsetup.1 hsetup.2 (ldUpdate_lockSamples ld y),
      ldUpdate_counted ih.2 ih.1.bounds.1 y⟩

theorem Reachable.exists_locked : ∀ (n : Nat) {ld : LockDet}, Reachable b kind ld →
    (ld.lockSamples - ld.lockCnt).toNat = n → ∃ ld', Reachable b kind ld' ∧ ld'.locked = true
  | n, ld, h, hn => by
    obtain ⟨hset, hcounted⟩ := h.inv
    have hthreshold := hset.bounds.2.2.1
    have hle := hcounted.le
    have hzero : abs32 0 ≤ ld.threshold := hthreshold
    by_cases hlast : ld.lockSamples ≤ ld.lockCnt + 1
    · refine ⟨_, h.update 0, ?_⟩
      unfold ldUpdate
      grind
    · have hcnt : (ldUpdate ld 0).1.lockCnt = ld.lockCnt + 1 := by
        unfold ldUpdate
        grind
      have hlock := ldUpdate_lockSamples ld 0
      exact Reachable.exists_locked (n - 1) (h.update 0) (by omega)
  termination_by n => n

end

/-- Of the detectors all but the frequency detectors can lose their lock: from every locked state,
at most `lock_samples` samples outside the threshold make `ld_update` return -1 and clear
`locked`. -/
theorem detector_loses_iff (b : Board) (kind : Detector) :
    (∀ ld, Reachable b kind ld → ld.locked = true → ∀ ys : List Int,
      ys.length = ld.lockSamples.toNat → (∀ y ∈ ys, ld.Outside y) → Loses ld ys) ↔
      kind ≠ .freq := by
  constructor
  · rintro h rfl
    obtain ⟨ld, hreach, hl⟩ :=
      (Reachable.freq true (default : Main) 0 0 : Reachable b .freq _).exists_locked _ rfl
    obtain ⟨⟨hthreshold, hdelock, hlock⟩, hcounted⟩ := hreach.inv
    refine not_loses (by omega) hcounted.le
      (h ld hreach hl (List.replicate ld.lockSamples.toNat 51) (length_replicate ..) ?_)
    intro y hy
    rw [eq_of_mem_replicate hy]
    exact ⟨by decide, by decide, by rw [hthreshold]; decide⟩
  · intro hkind ld hreach hl ys hlen hout
    obtain ⟨hset, hcounted⟩ := hreach.inv
    have hbounds := hset.bounds
    refine hcounted.loses ?_ hbounds.1 hbounds.2.1 hl hlen hout
    cases kind with
    | helper => simp only [Detector.SetUp] at hset; omega
    | freq => exact absurd rfl hkind
    | phase => simp only [Detector.SetUp] at hset; omega

/-- The frequency detector of a main PLL, locked with fifty zeroes. -/
def lockedFreqLd : LockDet :=
  Run.run (fun ld y => (ldUpdate ld y).1) (mpllInit Board.generic true default 0 1).freqLd
    (List.replicate 50 0)

/-- It stays locked however many samples are outside. -/
theorem lockedFreqLd_stays :
    lockedFreqLd.locked = true ∧ ∀ n, ¬Loses lockedFreqLd (List.replicate n 51) :=
  ⟨by decide +kernel, fun _ => not_loses (by decide +kernel) (by decide +kernel)⟩

/-! ## Hysteresis -/

/-- A detector with what it has been fed: the samples inside the threshold since it was initialised
or lost its lock, and those outside since it locked. -/
structure Watch where
  ld : LockDet
  inside : Int
  outside : Int

def Watch.next (w : Watch) (y : Int) : Watch :=
  let ld := (ldUpdate w.ld y).1
  let inside := if abs32 y ≤ w.ld.threshold then w.inside + 1 else w.inside
  let outside := if abs32 y ≤ w.ld.threshold then w.outside else w.outside + 1
  { ld, inside := if w.ld.locked && !ld.locked then 0 else inside,
        outside := if w.ld.locked then outside else 0 }

/-- What one call of `ld_update` does to the lock. -/
structure Watch.Hysteresis (w : Watch) (y : Int) : Prop where
  nonneg : 0 ≤ (w.next y).ld.lockCnt
  le : (w.next y).ld.lockCnt ≤ w.ld.lockSamples
  changed : (w.next y).ld.lockChanged = true ↔ (w.next y).ld.locked ≠ w.ld.locked
  locks : w.ld.locked = false → (w.next y).ld.locked = true →
    w.ld.lockSamples ≤ (w.next y).inside
  loses : w.ld.locked = true → (w.next y).ld.locked = false →
    w.ld.lockSamples - w.ld.delockSamples ≤ (w.next y).outside
  lost : (ldUpdate w.ld y).2 = -1 ↔ w.ld.locked = true ∧ (w.next y).ld.locked = false
  otherwise : (ldUpdate w.ld y).2 ≠ -1 →
    (ldUpdate w.ld y).2 = if (w.next y).ld.locked then 1 else 0

/-- The counter is no further up than the samples inside have brought it, and no further down than
those outside. -/
structure Watch.Inv (w : Watch) : Prop where
  nonneg : 0 ≤ w.ld.delockSamples
  lt : w.ld.delockSamples < w.ld.lockSamples
  counted : Counted w.ld
  up : w.ld.locked = false → w.ld.lockCnt ≤ w.inside
  down : w.ld.locked = true → w.ld.lockSamples - w.outside ≤ w.ld.lockCnt

section

variable {w : Watch} (h : w.Inv) (y : Int)

include h

theorem Watch.Inv.next : (w.next y).Inv := by
  obtain ⟨hnonneg, hlt, hcounted, hup, hdown⟩ := h
  have hdelock : (w.next y).ld.delockSamples = w.ld.delockSamples := (ldUpdate_setup w.ld y).2
  have hlock : (w.next y).ld.lockSamples = w.ld.lockSamples := ldUpdate_lockSamples w.ld y
  refine ⟨by omega, by omega, ldUpdate_counted hcounted hnonneg y, ?_, ?_⟩
  all_goals
    obtain ⟨hpos, hle, hheld⟩ := hcounted
    unfold Watch.next ldUpdate
    grind

theorem Watch.Inv.hysteresis : w.Hysteresis y := by
  obtain ⟨hnonneg, hlt, hcounted, hup, hdown⟩ := h
  have hnext := ldUpdate_counted hcounted hnonneg y
  refine ⟨hnext.nonneg, ldUpdate_lockSamples w.ld y ▸ hnext.le, ?_, ?_, ?_, ?_, ?_⟩
  all_goals
    obtain ⟨hpos, hle, hheld⟩ := hcounted
    unfold Watch.next ldUpdate
    grind

end

/-- **The hysteresis of a lock detector**, whatever samples it is fed. -/
theorem ldUpdate_hysteresis {ld : LockDet} (hdelock : 0 ≤ ld.delockSamples)
    (hlt : ld.delockSamples < ld.lockSamples) (ys : List Int) :
    Run.Steps Watch.next Watch.Hysteresis ⟨ldInit ld, 0, 0⟩ ys := by
  have hinit : Watch.Inv ⟨ldInit ld, 0, 0⟩ :=
    ⟨hdelock, hlt, ldInit_counted (by omega), fun _ => Int.le_refl 0, fun hl => (nomatch hl)⟩
  exact Run.steps_of_inv (fun _ y h _ => h.next y) (fun _ y h _ => h.hysteresis y) hinit
    (Run.steps_true _ _)

theorem ldUpdate_hysteresis_helper : Run.Steps Watch.next Watch.Hysteresis
    ⟨ldInit (helperVeryInit Board.generic true default).ld, 0, 0⟩ [0, 300, -150] :=
  ldUpdate_hysteresis (by decide) (by decide) _

end Wrpc.SoftPll
