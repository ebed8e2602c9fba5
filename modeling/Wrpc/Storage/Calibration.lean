/-
# The calibration parameters (`storage-cal.c`)

A table of at most twelve values with their ids in RAM, searched from the front; removing an
entry moves the last one into its place.  The table is a finite map (`Holds`), and every call
keeps it one (`calRun_holds`).

The calls go by the number of entries and not by the size of the table.  So every access to
`params` is written down here (`Uses`); with at most `calMaxParams` entries they all are inside
(`usedBy_inside`).
-/
import Wrpc.Lib.Mem
import Wrpc.Lib.Run
import Mathlib.Control.Monad.Writer

namespace Wrpc.Storage

open Function

/-! ## The table -/

/-- `CAL_MAX_PARAMS` -/
def calMaxParams : Nat := 12

/-- `CAL_FILE_MAGIC` -/
def calFileMagic : BitVec 32 := 0xcafebabe

/-- `struct wrc_cal_param` -/
structure CalParam where
  id : BitVec 32
  value : BitVec 32
deriving DecidableEq, Repr

/-- `wrc_cal_data_t`.  From `calMaxParams` on, `params` is what lies behind the array. -/
@[ext]
structure CalData where
  magic : BitVec 32
  paramCount : BitVec 32
  checksum : BitVec 32
  params : Nat → CalParam

/-- A result, and the indices of `params` that were used for it. -/
abbrev Uses (α : Type) : Type := Writer (List Nat) α

section Uses

variable {α β : Type}

def result (x : Uses α) : α := (WriterT.run x).1

def indices (x : Uses α) : List Nat := (WriterT.run x).2

@[simp] theorem result_pure (a : α) : result (pure a) = a := rfl

@[simp] theorem indices_pure (a : α) : indices (pure a) = [] := rfl

@[simp] theorem result_bind (x : Uses α) (f : α → Uses β) :
    result (x >>= f) = result (f (result x)) := rfl

@[simp] theorem indices_bind (x : Uses α) (f : α → Uses β) :
    indices (x >>= f) = indices x ++ indices (f (result x)) := rfl

end Uses

/-- `cal->params[i]` -/
def CalData.param (cal : CalData) (i : Nat) : Uses CalParam := do
  tell [i]
  pure (cal.params i)

/-- `cal->params[i] = p` -/
def CalData.setParam (cal : CalData) (i : Nat) (p : CalParam) : Uses CalData := do
  tell [i]
  pure { cal with params := Function.update cal.params i p }

/-- The loop of `calc_checksum`. -/
def checksumLoop (cal : CalData) : Nat → Nat → BitVec 32 → Uses (BitVec 32)
  | 0, _, cksum => pure cksum
  | left + 1, i, cksum => do
    let p ← cal.param i
    checksumLoop cal left (i + 1) (cksum + p.id + p.value)

/-- `calc_checksum` -/
def calcChecksum (cal : CalData) : Uses (BitVec 32) :=
  checksumLoop cal cal.paramCount.toNat 0 (cal.magic + cal.paramCount)

/-- The loop that the three functions below search `id` with. -/
def searchLoop (cal : CalData) (id : BitVec 32) : Nat → Nat → Uses (Option Nat)
  | 0, _ => pure none
  | left + 1, i => do
    let p ← cal.param i
    if id = p.id then pure (some i) else searchLoop cal id left (i + 1)

def search (cal : CalData) (id : BitVec 32) : Uses (Option Nat) :=
  searchLoop cal id cal.paramCount.toNat 0

/-- `storage_get_calibration_parameter`: the value returned and what is stored to `valp`. -/
def storageGetCalibrationParameter (cal : CalData) (id : BitVec 32) :
    Uses (Int × Option (BitVec 32)) := do
  match ← search cal id with
  | some i => do
    let p ← cal.param i
    pure (0, some p.value)
  | none => pure (-1, none)

/-- `storage_set_calibration_parameter` -/
def storageSetCalibrationParameter (cal : CalData) (id val : BitVec 32) :
    Uses (Int × CalData) := do
  match ← search cal id with
  | some i => do
    let cal ← cal.setParam i ⟨(cal.params i).id, val⟩
    pure (0, cal)
  | none =>
    if calMaxParams ≤ cal.paramCount.toNat then pure (-1, cal)
    else do
      let cal ← cal.setParam cal.paramCount.toNat ⟨id, val⟩
      pure (0, { cal with paramCount := cal.paramCount + 1 })

/-- `storage_remove_calibration_parameter` -/
def storageRemoveCalibrationParameter (cal : CalData) (id : BitVec 32) : Uses (Int × CalData) := do
  match ← search cal id with
  | some i => do
    let cal := { cal with paramCount := cal.paramCount - 1 }
    let last ← cal.param cal.paramCount.toNat
    let cal ← cal.setParam i last
    pure (0, cal)
  | none => pure (-1, cal)

/-! ## Calls one after the other -/

inductive CalOp where
  | get (id : BitVec 32)
  | set (id val : BitVec 32)
  | remove (id : BitVec 32)
deriving DecidableEq, Repr

def calOp (cal : CalData) : CalOp → Uses (Int × CalData)
  | .get id => do
    let r ← storageGetCalibrationParameter cal id
    pure (r.1, cal)
  | .set id val => storageSetCalibrationParameter cal id val
  | .remove id => storageRemoveCalibrationParameter cal id

def calStep (cal : CalData) (op : CalOp) : CalData := (result (calOp cal op)).2

def history (cal : CalData) (ops : List CalOp) : List (CalOp × Int) :=
  Run.emits calStep (fun cal op => [(op, (result (calOp cal op)).1)]) cal ops

def usedBy (cal : CalData) (ops : List CalOp) : List Nat :=
  Run.emits calStep (fun cal op => indices (calOp cal op)) cal ops

/-- What a call does to the finite map from ids to values that the table stands for. -/
def note (σ : BitVec 32 → Option (BitVec 32)) : CalOp × Int → BitVec 32 → Option (BitVec 32)
  | (.get _, _) => σ
  | (.set id val, ret) => if ret = 0 then Function.update σ id (some val) else σ
  | (.remove id, _) => Function.update σ id none

/-- The value last set for each id, unless it was removed since. -/
def lastSet (calls : List (CalOp × Int)) : BitVec 32 → Option (BitVec 32) :=
  calls.foldl note fun _ => none

/-! ## The search -/

section Search

variable {cal : CalData} {id : BitVec 32}

@[simp] theorem result_param (i : Nat) : result (cal.param i) = cal.params i := rfl

@[simp] theorem indices_param (i : Nat) : indices (cal.param i) = [i] := rfl

@[simp] theorem result_setParam (i : Nat) (p : CalParam) :
    result (cal.setParam i p) = { cal with params := Function.update cal.params i p } := rfl

@[simp] theorem indices_setParam (i : Nat) (p : CalParam) : indices (cal.setParam i p) = [i] := rfl

theorem searchLoop_some : ∀ {left i j : Nat}, result (searchLoop cal id left i) = some j →
    j < i + left ∧ (cal.params j).id = id
  | left + 1, i, j, h => by
    rw [searchLoop, result_bind, result_param] at h
    by_cases hid : id = (cal.params i).id
    · rw [if_pos hid] at h
      cases h
      exact ⟨by omega, hid.symm⟩
    · rw [if_neg hid] at h
      obtain ⟨hj, hfound⟩ := searchLoop_some h
      exact ⟨by omega, hfound⟩

theorem searchLoop_none : ∀ {left i : Nat}, result (searchLoop cal id left i) = none →
    ∀ j, i ≤ j → j < i + left → (cal.params j).id ≠ id
  | 0, i, _, j, hi, hj => by omega
  | left + 1, i, h, j, hi, hj => by
    rw [searchLoop, result_bind, result_param] at h
    by_cases hid : id = (cal.params i).id
    · rw [if_pos hid] at h
      cases h
    · rw [if_neg hid] at h
      rcases Nat.eq_or_lt_of_le hi with rfl | hlt
      · exact Ne.symm hid
      · exact searchLoop_none h j hlt (by omega)

theorem indices_searchLoop : ∀ {left i j : Nat}, j ∈ indices (searchLoop cal id left i) →
    j < i + left
  | left + 1, i, j, h => by
    rw [searchLoop, indices_bind, indices_param, result_param, List.singleton_append,
      List.mem_cons] at h
    rcases h with rfl | h
    · omega
    · by_cases hid : id = (cal.params i).id
      · rw [if_pos hid] at h
        cases h
      · rw [if_neg hid] at h
        have := indices_searchLoop h
        omega

theorem search_cases (cal : CalData) (id : BitVec 32) :
    (∃ i < cal.paramCount.toNat, result (search cal id) = some i ∧ (cal.params i).id = id) ∨
      (result (search cal id) = none ∧ ∀ i < cal.paramCount.toNat, (cal.params i).id ≠ id) := by
  cases h : result (search cal id) with
  | some i =>
    obtain ⟨hi, hid⟩ := searchLoop_some h
    exact .inl ⟨i, by omega, rfl, hid⟩
  | none => exact .inr ⟨rfl, fun i hi => searchLoop_none h i (Nat.zero_le i) (by omega)⟩

theorem indices_search {j : Nat} (h : j ∈ indices (search cal id)) : j < cal.paramCount.toNat := by
  have := indices_searchLoop h
  omega

end Search

/-! ## The finite map -/

/-- The table holds the map `σ`, with one entry for each id. -/
structure Holds (cal : CalData) (σ : BitVec 32 → Option (BitVec 32)) : Prop where
  le : cal.paramCount.toNat ≤ calMaxParams
  distinct : ∀ i < cal.paramCount.toNat, ∀ j < cal.paramCount.toNat,
    (cal.params i).id = (cal.params j).id → i = j
  value : ∀ id v, σ id = some v ↔ ∃ i < cal.paramCount.toNat, cal.params i = ⟨id, v⟩

section Map

variable {cal : CalData} {σ : BitVec 32 → Option (BitVec 32)} {id val : BitVec 32}

theorem Holds.empty {cal : CalData} (h : cal.paramCount = 0) : Holds cal fun _ => none where
  le := by rw [h]; exact Nat.zero_le _
  distinct i hi := by
    rw [h] at hi
    exact absurd hi (Nat.not_lt_zero i)
  value id v := by
    rw [h]
    exact ⟨fun hv => (Option.some_ne_none v hv.symm).elim,
      fun ⟨i, hi, _⟩ => absurd hi (Nat.not_lt_zero i)⟩

theorem Holds.at (h : Holds cal σ) {i : Nat} (hi : i < cal.paramCount.toNat) :
    σ (cal.params i).id = some (cal.params i).value :=
  (h.value _ _).mpr ⟨i, hi, rfl⟩

theorem Holds.eq_none (h : Holds cal σ)
    (hnew : ∀ i < cal.paramCount.toNat, (cal.params i).id ≠ id) :
    σ id = none := by
  rw [Option.eq_none_iff_forall_ne_some]
  intro v hv
  obtain ⟨i, hi, hp⟩ := (h.value id v).mp hv
  exact hnew i hi (by rw [hp])

theorem storageGet_eq (h : Holds cal σ) (id : BitVec 32) :
    result (storageGetCalibrationParameter cal id) = (if (σ id).isSome then 0 else -1, σ id) := by
  rw [storageGetCalibrationParameter, result_bind]
  rcases search_cases cal id with ⟨i, hi, hfound, rfl⟩ | ⟨hnone, hnew⟩
  · rw [hfound, h.at hi]
    rfl
  · rw [hnone, h.eq_none hnew]
    rfl

theorem Holds.update (h : Holds cal σ) {i : Nat} (hi : i < cal.paramCount.toNat) (val : BitVec 32) :
    Holds { cal with params := Function.update cal.params i ⟨(cal.params i).id, val⟩ }
      (Function.update σ (cal.params i).id (some val)) := by
  have hsame : ∀ j, (Function.update cal.params i ⟨(cal.params i).id, val⟩ j).id =
      (cal.params j).id := by
    intro j
    by_cases hj : j = i
    · rw [hj, update_self]
    · rw [update_of_ne hj]
  constructor
  · exact h.le
  · intro j hj k hk hid
    rw [hsame, hsame] at hid
    exact h.distinct j hj k hk hid
  · intro id v
    dsimp only
    by_cases hid : id = (cal.params i).id
    · subst hid
      rw [update_self]
      constructor
      · intro hv
        cases hv
        exact ⟨i, hi, update_self _ _ _⟩
      · rintro ⟨j, hj, hp⟩
        have hji : j = i := by
          refine h.distinct j hj i hi ?_
          rw [← hsame, hp]
        rw [hji, update_self] at hp
        cases hp
        rfl
    · rw [update_of_ne hid, h.value]
      refine exists_congr fun j => and_congr_right fun _ => ?_
      by_cases hji : j = i
      · rw [hji, update_self]
        exact ⟨fun hp => absurd (congrArg CalParam.id hp).symm hid,
          fun hp => absurd (congrArg CalParam.id hp).symm hid⟩
      · rw [update_of_ne hji]

theorem Holds.append (h : Holds cal σ) (hnew : ∀ i < cal.paramCount.toNat, (cal.params i).id ≠ id)
    (hroom : cal.paramCount.toNat < calMaxParams) (val : BitVec 32) :
    Holds { cal with paramCount := cal.paramCount + 1,
                     params := Function.update cal.params cal.paramCount.toNat ⟨id, val⟩ }
      (Function.update σ id (some val)) := by
  have hcount : (cal.paramCount + 1).toNat = cal.paramCount.toNat + 1 := by
    unfold calMaxParams at hroom
    bv_omega
  have hold : ∀ i < cal.paramCount.toNat,
      Function.update cal.params cal.paramCount.toNat ⟨id, val⟩ i = cal.params i :=
    fun i hi => update_of_ne (Nat.ne_of_lt hi) _ _
  have hlast : Function.update cal.params cal.paramCount.toNat ⟨id, val⟩ cal.paramCount.toNat =
      ⟨id, val⟩ := update_self _ _ _
  constructor
  · exact hcount ▸ hroom
  · dsimp only
    intro i hi j hj hid
    rw [hcount, Nat.lt_succ_iff_lt_or_eq] at hi hj
    rcases hi with hi | rfl <;> rcases hj with hj | rfl
    · rw [hold i hi, hold j hj] at hid
      exact h.distinct i hi j hj hid
    · rw [hold i hi, hlast] at hid
      exact absurd hid (hnew i hi)
    · rw [hold j hj, hlast] at hid
      exact absurd hid.symm (hnew j hj)
    · rfl
  · intro id' v
    simp only [hcount, Nat.lt_succ_iff_lt_or_eq]
    by_cases hid : id' = id
    · subst hid
      rw [update_self]
      constructor
      · intro hv
        cases hv
        exact ⟨_, .inr rfl, hlast⟩
      · rintro ⟨i, hi | rfl, hp⟩
        · rw [hold i hi] at hp
          exact absurd (congrArg CalParam.id hp) (hnew i hi)
        · rw [hlast] at hp
          cases hp
          rfl
    · rw [update_of_ne hid, h.value]
      constructor
      · rintro ⟨i, hi, hp⟩
        exact ⟨i, .inl hi, (hold i hi).trans hp⟩
      · rintro ⟨i, hi | rfl, hp⟩
        · exact ⟨i, hi, (hold i hi).symm.trans hp⟩
        · rw [hlast] at hp
          exact absurd (congrArg CalParam.id hp).symm hid

theorem Holds.remove (h : Holds cal σ) {i : Nat} (hi : i < cal.paramCount.toNat) :
    Holds { cal with paramCount := cal.paramCount - 1,
                     params := Function.update cal.params i
                       (cal.params (cal.paramCount - 1).toNat) }
      (Function.update σ (cal.params i).id none) := by
  obtain ⟨n, hn⟩ : ∃ n, cal.paramCount.toNat = n + 1 := ⟨cal.paramCount.toNat - 1, by omega⟩
  have hcount : (cal.paramCount - 1).toNat = n := by bv_omega
  -- entry `j` of the new table is entry `π j` of the old one
  let π : Nat → Nat := fun j => if j = i then n else j
  have hparam : ∀ j, Function.update cal.params i (cal.params n) j = cal.params (π j) := by
    intro j
    by_cases hj : j = i
    · simp [π, hj]
    · simp [π, hj]
  have hπ : ∀ j < n, π j < n + 1 ∧ π j ≠ i := by
    intro j hj
    simp only [π]
    split <;> omega
  have hinj : ∀ j < n, ∀ k < n, π j = π k → j = k := by
    intro j hj k hk
    simp only [π]
    split <;> split <;> omega
  have hsurj : ∀ k < n + 1, k ≠ i → ∃ j < n, π j = k := by
    intro k hk hne
    by_cases hkn : k = n
    · exact ⟨i, by omega, by simp [π, hkn]⟩
    · exact ⟨k, by omega, by simp only [π, if_neg hne]⟩
  have hdistinct := h.distinct
  have hle := h.le
  rw [hn] at hi hdistinct hle
  constructor
  · simp only [hcount]
    omega
  · simp only [hcount, hparam]
    intro j hj k hk hid
    exact hinj j hj k hk (hdistinct _ (hπ j hj).1 _ (hπ k hk).1 hid)
  · intro id v
    simp only [hcount, hparam]
    by_cases hid : id = (cal.params i).id
    · subst hid
      rw [update_self]
      refine ⟨fun hv => (Option.some_ne_none v hv.symm).elim, ?_⟩
      rintro ⟨j, hj, hp⟩
      exact absurd (hdistinct _ (hπ j hj).1 i hi (by rw [hp])) (hπ j hj).2
    · rw [update_of_ne hid, h.value, hn]
      constructor
      · rintro ⟨k, hk, hp⟩
        have hki : k ≠ i := by
          rintro rfl
          exact hid (by rw [hp])
        obtain ⟨j, hj, rfl⟩ := hsurj k hk hki
        exact ⟨j, hj, hp⟩
      · rintro ⟨j, hj, hp⟩
        exact ⟨π j, (hπ j hj).1, hp⟩

theorem storageSet_cases (h : Holds cal σ) (id val : BitVec 32) :
    let r := result (storageSetCalibrationParameter cal id val)
    let new := ∀ i < cal.paramCount.toNat, (cal.params i).id ≠ id
    (new ∧ cal.paramCount.toNat = calMaxParams ∧ r = (-1, cal)) ∨
      (¬ (new ∧ cal.paramCount.toNat = calMaxParams) ∧ r.1 = 0 ∧
        Holds r.2 (Function.update σ id (some val))) := by
  intro r new
  have hr : r = result (storageSetCalibrationParameter cal id val) := rfl
  rw [storageSetCalibrationParameter, result_bind] at hr
  rcases search_cases cal id with ⟨i, hi, hfound, rfl⟩ | ⟨hnone, hnew⟩
  · rw [hfound] at hr
    refine .inr ⟨fun hfull => hfull.1 i hi rfl, ?_⟩
    rw [hr]
    exact ⟨rfl, h.update hi val⟩
  · rw [hnone] at hr
    by_cases hfull : calMaxParams ≤ cal.paramCount.toNat
    · simp only [if_pos hfull] at hr
      exact .inl ⟨hnew, Nat.le_antisymm h.le hfull, hr⟩
    · simp only [if_neg hfull] at hr
      refine .inr ⟨fun hfull' => hfull (Nat.le_of_eq hfull'.2.symm), ?_⟩
      rw [hr]
      exact ⟨rfl, h.append hnew (Nat.lt_of_not_le hfull) val⟩

theorem storageRemove_holds (h : Holds cal σ) (id : BitVec 32) :
    Holds (result (storageRemoveCalibrationParameter cal id)).2 (Function.update σ id none) := by
  rw [storageRemoveCalibrationParameter, result_bind]
  rcases search_cases cal id with ⟨i, hi, hfound, rfl⟩ | ⟨hnone, hnew⟩
  · rw [hfound]
    exact h.remove hi
  · rw [hnone, ← h.eq_none hnew, update_eq_self]
    exact h

theorem calStep_holds (h : Holds cal σ) (op : CalOp) :
    Holds (calStep cal op) (note σ (op, (result (calOp cal op)).1)) := by
  cases op with
  | get id => exact h
  | set id val =>
    rcases storageSet_cases h id val with ⟨_, _, hr⟩ | ⟨_, hret, htable⟩
    · have hop : result (calOp cal (.set id val)) = (-1, cal) := hr
      rw [calStep, hop]
      exact h
    · have hop : (result (calOp cal (.set id val))).1 = 0 := hret
      rw [hop]
      exact htable
  | remove id => exact storageRemove_holds h id

theorem calRun_holds (h : Holds cal σ) (ops : List CalOp) :
    Holds (Run.run calStep cal ops) ((history cal ops).foldl note σ) := by
  induction ops generalizing cal σ with
  | nil => exact h
  | cons op ops ih => exact ih (calStep_holds h op)

end Map

/-! ## Inside the table -/

section Inside

variable {α β : Type} {cal : CalData}

def Inside (x : Uses α) : Prop := ∀ i ∈ indices x, i < calMaxParams

@[simp] theorem inside_pure (a : α) : Inside (pure a) := List.forall_mem_nil _

@[simp] theorem inside_bind {x : Uses α} {f : α → Uses β} :
    Inside (x >>= f) ↔ Inside x ∧ Inside (f (result x)) :=
  List.forall_mem_append

@[simp] theorem inside_param {i : Nat} : Inside (cal.param i) ↔ i < calMaxParams :=
  List.forall_mem_singleton

@[simp] theorem inside_setParam {i : Nat} {p : CalParam} :
    Inside (cal.setParam i p) ↔ i < calMaxParams :=
  List.forall_mem_singleton

theorem calOp_inside (h : cal.paramCount.toNat ≤ calMaxParams) (op : CalOp) :
    Inside (calOp cal op) ∧ (calStep cal op).paramCount.toNat ≤ calMaxParams := by
  have hsearch : ∀ id, Inside (search cal id) :=
    fun id i hi => Nat.lt_of_lt_of_le (indices_search hi) h
  cases op with
  | get id =>
    refine ⟨?_, h⟩
    rw [calOp, storageGetCalibrationParameter, inside_bind, inside_bind]
    refine ⟨⟨hsearch id, ?_⟩, inside_pure _⟩
    rcases search_cases cal id with ⟨i, hi, hfound, -⟩ | ⟨hnone, -⟩
    · simp only [hfound, inside_bind, inside_param, inside_pure, and_true]
      omega
    · simp [hnone]
  | set id val =>
    rw [calStep, calOp, storageSetCalibrationParameter, inside_bind, result_bind]
    rcases search_cases cal id with ⟨i, hi, hfound, -⟩ | ⟨hnone, -⟩
    · simp only [hfound, inside_bind, inside_setParam, inside_pure, and_true]
      exact ⟨⟨hsearch id, Nat.lt_of_lt_of_le hi h⟩, h⟩
    · simp only [hnone]
      by_cases hfull : calMaxParams ≤ cal.paramCount.toNat
      · rw [if_pos hfull]
        exact ⟨⟨hsearch id, inside_pure _⟩, h⟩
      · simp only [if_neg hfull, inside_bind, inside_setParam, inside_pure, and_true, result_bind,
          result_setParam, result_pure]
        exact ⟨⟨hsearch id, Nat.lt_of_not_le hfull⟩, by bv_omega⟩
  | remove id =>
    rw [calStep, calOp, storageRemoveCalibrationParameter, inside_bind, result_bind]
    rcases search_cases cal id with ⟨i, hi, hfound, -⟩ | ⟨hnone, -⟩
    · simp only [hfound, inside_bind, inside_param, inside_setParam, inside_pure, and_true,
        result_bind, result_setParam, result_pure]
      exact ⟨⟨hsearch id, by bv_omega, by omega⟩, by bv_omega⟩
    · simp only [hnone]
      exact ⟨⟨hsearch id, inside_pure _⟩, h⟩

theorem usedBy_inside (h : cal.paramCount.toNat ≤ calMaxParams) (ops : List CalOp) :
    ∀ i ∈ usedBy cal ops, i < calMaxParams := by
  have hinside : Run.Steps calStep (fun cal op => Inside (calOp cal op)) cal ops :=
    Run.steps_of_inv (I := fun cal => cal.paramCount.toNat ≤ calMaxParams)
      (fun _ op hle _ => (calOp_inside hle op).2) (fun _ op hle _ => (calOp_inside hle op).1) h
      (Run.steps_true _ _)
  exact Run.forall_mem_emits hinside

end Inside

end Wrpc.Storage
