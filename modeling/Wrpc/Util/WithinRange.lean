/-
# The circular range test (`util.h`)

`within_range` brings its three numbers into one period, by adding or subtracting it as often as
it takes, and compares them there.  `withinRange_iff` is what that is for: whether the number lies
on the arc from `minval` to `maxval`.
-/
import Mathlib.Data.Int.ModEq

namespace Wrpc.Util

/-- `while (x >= wrap) x -= wrap;` -/
def wrapDown {wrap : Int} (hwrap : 0 < wrap) (x : Int) : Int :=
  if x ≥ wrap then wrapDown hwrap (x - wrap) else x
termination_by x.toNat
decreasing_by omega

/-- `while (x < 0) x += wrap;` -/
def wrapUp {wrap : Int} (hwrap : 0 < wrap) (x : Int) : Int :=
  if x < 0 then wrapUp hwrap (x + wrap) else x
termination_by (-x).toNat
decreasing_by omega

/-- `within_range` -/
def withinRange {wrap : Int} (hwrap : 0 < wrap) (x minval maxval : Int) : Int :=
  let maxval := wrapUp hwrap (wrapDown hwrap maxval)
  let minval := wrapUp hwrap (wrapDown hwrap minval)
  let x := wrapDown hwrap (wrapUp hwrap x)
  if maxval > minval then if x ≥ minval ∧ x ≤ maxval then 1 else 0
  else if x ≥ minval ∨ x ≤ maxval then 1 else 0

variable {wrap : Int} (hwrap : 0 < wrap)

theorem wrapDown_spec (x : Int) : wrapDown hwrap x % wrap = x % wrap ∧ wrapDown hwrap x < wrap ∧
    (0 ≤ x → 0 ≤ wrapDown hwrap x) := by
  fun_induction wrapDown hwrap x with
  | case1 x hge ih =>
    rw [Int.sub_emod_right] at ih
    exact ⟨ih.1, ih.2.1, fun _ => ih.2.2 (by omega)⟩
  | case2 x hlt => exact ⟨rfl, by omega, id⟩

theorem wrapUp_spec (x : Int) : wrapUp hwrap x % wrap = x % wrap ∧ 0 ≤ wrapUp hwrap x ∧
    (x < wrap → wrapUp hwrap x < wrap) := by
  fun_induction wrapUp hwrap x with
  | case1 x hneg ih =>
    rw [Int.add_emod_right] at ih
    exact ⟨ih.1, ih.2.1, fun _ => ih.2.2 (by omega)⟩
  | case2 x hge => exact ⟨rfl, by omega, id⟩

theorem wrapUp_wrapDown (x : Int) : wrapUp hwrap (wrapDown hwrap x) = x % wrap := by
  obtain ⟨hdown, hlt, -⟩ := wrapDown_spec hwrap x
  obtain ⟨hup, hpos, hlt'⟩ := wrapUp_spec hwrap (wrapDown hwrap x)
  rw [← hdown, ← hup, Int.emod_eq_of_lt hpos (hlt' hlt)]

theorem wrapDown_wrapUp (x : Int) : wrapDown hwrap (wrapUp hwrap x) = x % wrap := by
  obtain ⟨hup, hpos, -⟩ := wrapUp_spec hwrap x
  obtain ⟨hdown, hlt, hpos'⟩ := wrapDown_spec hwrap (wrapUp hwrap x)
  rw [← hup, ← hdown, Int.emod_eq_of_lt (hpos' hpos) hlt]

include hwrap

theorem exists_modEq_iff {x minval maxval : Int} (hlt : maxval - minval < wrap) :
    (∃ y, y ≡ x [ZMOD wrap] ∧ minval ≤ y ∧ y ≤ maxval) ↔
      (x - minval) % wrap ≤ maxval - minval := by
  constructor
  · rintro ⟨y, hy, hlo, hhi⟩
    have hway : (y - minval) % wrap = (x - minval) % wrap := hy.sub_right minval
    rw [← hway, Int.emod_eq_of_lt (by omega) (by omega)]
    omega
  · intro hway
    have hpos := Int.emod_nonneg (x - minval) hwrap.ne'
    refine ⟨minval + (x - minval) % wrap, ?_, by omega, by omega⟩
    have hy := (Int.mod_modEq (x - minval) wrap).add_left minval
    rwa [add_sub_cancel] at hy

theorem emod_sub {x y : Int} : (x - y) % wrap =
    if y % wrap ≤ x % wrap then x % wrap - y % wrap else x % wrap - y % wrap + wrap := by
  have hx := Int.emod_lt_of_pos x hwrap
  have hy := Int.emod_nonneg y hwrap.ne'
  rw [Int.sub_emod]
  split
  · exact Int.emod_eq_of_lt (by omega) (by omega)
  · have hx := Int.emod_nonneg x hwrap.ne'
    have hy := Int.emod_lt_of_pos y hwrap
    rw [← Int.add_emod_right, Int.emod_eq_of_lt (by omega) (by omega)]

/-- **The test is membership in a circular interval.** -/
theorem withinRange_iff {x minval maxval : Int} (hpos : 0 < maxval - minval)
    (hlt : maxval - minval < wrap) :
    withinRange hwrap x minval maxval = 1 ↔
      ∃ y, y ≡ x [ZMOD wrap] ∧ minval ≤ y ∧ y ≤ maxval := by
  have hlength := emod_sub hwrap (x := maxval) (y := minval)
  rw [Int.emod_eq_of_lt hpos.le hlt] at hlength
  rw [exists_modEq_iff hwrap hlt, emod_sub hwrap, withinRange, wrapUp_wrapDown, wrapUp_wrapDown,
    wrapDown_wrapUp]
  have hmin := Int.emod_nonneg minval hwrap.ne'
  have hmax := Int.emod_lt_of_pos maxval hwrap
  have hx := Int.emod_lt_of_pos x hwrap
  have hx' := Int.emod_nonneg x hwrap.ne'
  have hmax' := Int.emod_nonneg maxval hwrap.ne'
  split at hlength <;> split <;> split <;> split <;> omega

omit hwrap in
theorem withinRange_iff_straddling :
    withinRange (show (0 : Int) < 10 by decide) 19 (-3) 4 = 1 ↔
      ∃ y, y ≡ 19 [ZMOD 10] ∧ -3 ≤ y ∧ y ≤ 4 :=
  withinRange_iff (by decide) (by decide) (by decide)

end Wrpc.Util
