/-
# Temperatures over SNMP (`get_temp` in `snmp.c`)

`get_temp` walks over the sensors like `wrc_temp_format` and prints the value of one row
into a buffer of its own.  For a negative value it writes the sign to the beginning of
the buffer, and then the number to the same place.
-/
import Wrpc.Dev.Temperature
import Wrpc.Net.SnmpMib

namespace Wrpc.Snmp

open Temp Printf

/-- What `get_temp` does with the sensor of the row: `buffer` if it stops there. -/
def tempCell (col : Byte) (buffer : Mem) (p : Sensor) : Option Mem :=
  if col = 2 then some (store buffer 0 (sprintf "%s" [.str p.name]))
  else if col = 3 then
    if p.t = tempInvalid then some (store buffer 0 (sprintf "INVALID" []))
    else if p.t.slt 0#32 then
      some (store (store buffer 0 (sprintf "-" [])) 0 (fixedText (-p.t)))
    else some (store buffer 0 (fixedText p.t))
  else none

/-- The loop of `get_temp` over the sensors, `none` where it comes to the end of the list. -/
def getTempLoop (row col : Byte) (buffer : Mem) : List Sensor → Nat → Option Mem
  | [], _ => none
  | p :: ps, i =>
    (if row.toNat = i then tempCell col buffer p else none).orElse fun _ =>
      getTempLoop row col buffer ps (i + 1)

theorem getTempLoop_eq (row col : Byte) (buffer : Mem) : ∀ (ps : List Sensor) (i : Nat),
    getTempLoop row col buffer ps i =
      if i ≤ row.toNat then ps[row.toNat - i]?.bind (tempCell col buffer) else none
  | [], i => by
    rw [getTempLoop, List.getElem?_nil, Option.bind_none, ite_self]
  | p :: ps, i => by
    rw [getTempLoop, getTempLoop_eq row col buffer ps (i + 1)]
    by_cases hi : row.toNat = i
    · rw [if_pos hi, if_neg (by omega), if_pos (by omega), hi, Nat.sub_self]
      cases h : tempCell col buffer p with
      | none => exact h.symm
      | some buf => exact h.symm
    · rw [if_neg hi, Option.orElse_none]
      by_cases hlt : i + 1 ≤ row.toNat
      · rw [if_pos hlt, if_pos (by omega), show row.toNat - i = row.toNat - (i + 1) + 1 by omega,
          List.getElem?_cons_succ]
      · rw [if_neg hlt, if_neg (by omega)]

theorem asnData_store {s : List Char} (hs : Plain s) (hlen : s.length < maxStrLen) (m : Mem) :
    asnData .octetStr (store m 0 s) = ascii s := cstr_store hs hlen m 0

theorem tempCell_number (buffer : Mem) (p : Sensor) : ∃ buf, tempCell 3 buffer p = some buf ∧
    (asnData .octetStr buf = ascii (tempNumber p.t) ↔
      p.t.slt 0#32 = false ∨ p.t = tempInvalid) := by
  by_cases hinvalid : p.t = tempInvalid
  · refine ⟨store buffer 0 (sprintf "INVALID" []), ?_, ?_⟩
    · rw [tempCell, if_neg (by decide), if_pos rfl, if_pos hinvalid]
    · rw [tempNumber, if_pos hinvalid, asnData_store (by decide) (by decide)]
      exact iff_of_true rfl (.inr hinvalid)
  · cases hneg : p.t.slt 0#32 with
    | true =>
      have hlt := toNat_neg_lt hinvalid hneg
      refine ⟨store (store buffer 0 (sprintf "-" [])) 0 (fixedText (-p.t)), ?_, ?_⟩
      · rw [tempCell, if_neg (by decide), if_pos rfl, if_neg hinvalid, if_pos hneg]
      · rw [tempNumber, if_neg hinvalid, if_pos hneg, asnData_store (plain_fixedText hlt)
          (Nat.lt_of_le_of_lt (fixedText_length hlt) (by decide))]
        refine iff_of_false (fun h => ?_) (by simp [hinvalid])
        -- The sign makes the other text longer by one.
        have hlen := congrArg List.length h
        rw [ascii_length, ascii_length, List.length_append] at hlen
        exact absurd hlen (Nat.ne_of_lt (Nat.lt_add_of_pos_left (by decide)))
    | false =>
      have hlt := toNat_lt_of_nonneg hneg
      refine ⟨store buffer 0 (fixedText p.t), ?_, ?_⟩
      · rw [tempCell, if_neg (by decide), if_pos rfl, if_neg hinvalid, hneg,
          if_neg Bool.false_ne_true]
      · rw [tempNumber, if_neg hinvalid, hneg, if_neg Bool.false_ne_true,
          asnData_store (plain_fixedText hlt)
            (Nat.lt_of_le_of_lt (fixedText_length hlt) (by decide))]
        exact iff_of_true rfl (.inl rfl)

/-- **The texts agree** exactly for the values that are not negative and for `TEMP_INVALID`:
the text of a sensor's row, and the number `wrc_temp_format` prints behind its name. -/
theorem tempText_agrees_iff (pre post : List Sensor) (p : Sensor) (hrow : pre.length + 1 < 256)
    (buffer : Mem) : ∃ buf,
      getTempLoop (BitVec.ofNat 8 (pre.length + 1)) 3 buffer (pre ++ p :: post) firstRow.toNat =
        some buf ∧
      (∀ len : Int, ((entries 0 pre).length : Int) + 16 ≤ len → ∃ after,
        wrcTempFormat len (pre ++ p :: post) = entries 0 pre ++ ((if pre.length ≠ 0 then [' ']
          else []) ++ p.name ++ ':' :: tempNumber p.t ++ after)) ∧
      (asnData .octetStr buf = ascii (tempNumber p.t) ↔
        p.t.slt 0#32 = false ∨ p.t = tempInvalid) := by
  obtain ⟨buf, hcell, hagree⟩ := tempCell_number buffer p
  refine ⟨buf, ?_, ?_, hagree⟩
  · have hnat : (BitVec.ofNat 8 (pre.length + 1)).toNat = pre.length + 1 := by
      rw [BitVec.toNat_ofNat]
      omega
    have hone : firstRow.toNat = 1 := rfl
    rw [getTempLoop_eq, hnat, hone, if_pos (Nat.le_add_left _ _), Nat.add_sub_cancel,
      List.getElem?_append_right (Nat.le_refl _), Nat.sub_self]
    exact hcell
  · intro len hroom
    obtain ⟨after, hafter⟩ := formatLoop_append len p post pre 0 0 (by omega)
    refine ⟨after, hafter.trans ?_⟩
    rw [Nat.zero_add, entry]

theorem tempText_agrees_above : ∃ buf,
    getTempLoop 1 3 (fun _ => 0) [⟨['p', 'c', 'b'], 0x8000⟩] firstRow.toNat = some buf ∧
      asnData .octetStr buf = ascii (tempNumber 0x8000) := by
  obtain ⟨buf, hloop, -, hagree⟩ := tempText_agrees_iff [] [] ⟨['p', 'c', 'b'], 0x8000⟩ (by decide)
    fun _ => 0
  exact ⟨buf, hloop, hagree.mpr (.inl (by decide))⟩

/-- Half a degree below zero, `-0.5000` in the shell and `0.5000` over SNMP. -/
theorem tempText_differs : tempNumber 0xffff8000 = "-0.5000".toList ∧ ∃ buf,
    getTempLoop 1 3 (fun _ => 0) [⟨['p', 'c', 'b'], 0xffff8000⟩] firstRow.toNat = some buf ∧
      asnData .octetStr buf = ascii "0.5000".toList :=
  ⟨by decide, _, rfl, by decide⟩

end Wrpc.Snmp
