/-
# A map of bounded size, in the order of first insertion

`BMap κ υ cap` is a list of at most `cap` entries with different keys.  `put`
replaces the value of a key that is there, appends a key that is not, and leaves
a full map as it is.  What a map holds after any puts is told by the puts alone
(`find_putAll`).
-/
import Mathlib.Data.List.Induction
import Mathlib.Data.List.Dedup

namespace Wrpc

open List

universe u v

/-- At most `cap` entries, with pairwise different keys. -/
@[ext]
structure BMap (κ : Type u) (υ : Type v) (cap : Nat) where
  entries : List (κ × υ)
  nodup : (entries.map Prod.fst).Nodup
  le_cap : entries.length ≤ cap

namespace BMap

variable {κ : Type u} {υ : Type v} {cap : Nat} [DecidableEq κ]

/-- The keys, in the order of their first insertion. -/
def keys (b : BMap κ υ cap) : List κ := b.entries.map Prod.fst

def find (b : BMap κ υ cap) (k : κ) : Option υ := (b.entries.find? (·.1 = k)).map Prod.snd

def empty : BMap κ υ cap := ⟨[], List.nodup_nil, Nat.zero_le cap⟩

/-- The entries with another value for `k`. -/
def replaced (es : List (κ × υ)) (k : κ) (v : υ) : List (κ × υ) :=
  es.map fun e => (e.1, if e.1 = k then v else e.2)

theorem keys_replaced (es : List (κ × υ)) (k : κ) (v : υ) :
    (replaced es k v).map Prod.fst = es.map Prod.fst := by
  rw [replaced, map_map]
  rfl

/-- Another value for `k`. -/
def replace (b : BMap κ υ cap) (k : κ) (v : υ) : BMap κ υ cap where
  entries := replaced b.entries k v
  nodup := by
    rw [keys_replaced]
    exact b.nodup
  le_cap := by
    rw [replaced, List.length_map]
    exact b.le_cap

def append (b : BMap κ υ cap) (k : κ) (v : υ) (hnew : k ∉ b.keys) (hroom : b.entries.length < cap) :
    BMap κ υ cap where
  entries := b.entries ++ [(k, v)]
  nodup := by
    rw [List.map_append]
    exact List.Nodup.append b.nodup (List.nodup_singleton k) (List.disjoint_singleton.mpr hnew)
  le_cap := by
    rw [List.length_append]
    exact hroom

def put (b : BMap κ υ cap) (k : κ) (v : υ) : BMap κ υ cap :=
  if hold : k ∈ b.keys then b.replace k v
  else if hroom : b.entries.length < cap then b.append k v hold hroom
  else b

/-- What is there after puts from the empty map. -/
def putAll (puts : List (κ × υ)) : BMap κ υ cap := puts.foldl (fun b e => b.put e.1 e.2) empty

variable {b : BMap κ υ cap} {k : κ} {v : υ}

theorem put_old (h : k ∈ b.keys) : b.put k v = b.replace k v := dif_pos h

theorem put_new (h : k ∉ b.keys) (hroom : b.entries.length < cap) :
    (b.put k v).entries = b.entries ++ [(k, v)] := by
  rw [put, dif_neg h, dif_pos hroom]
  rfl

theorem put_full (h : k ∉ b.keys) (hfull : ¬ b.entries.length < cap) : b.put k v = b := by
  rw [put, dif_neg h, dif_neg hfull]

theorem putAll_concat (puts : List (κ × υ)) (e : κ × υ) :
    (putAll (puts ++ [e]) : BMap κ υ cap) = (putAll puts).put e.1 e.2 := by
  rw [putAll, foldl_append]
  rfl

theorem find?_of_mem_keys {es : List (κ × υ)} (h : k ∈ es.map Prod.fst) :
    ∃ e, es.find? (·.1 = k) = some e := by
  obtain ⟨e, he, hkey⟩ := List.mem_map.mp h
  apply Option.isSome_iff_exists.mp
  rw [List.find?_isSome]
  exact ⟨e, he, by simpa using hkey⟩

theorem find?_of_not_mem_keys {es : List (κ × υ)} (h : k ∉ es.map Prod.fst) :
    es.find? (·.1 = k) = none := by
  rw [List.find?_eq_none]
  intro e he heq
  exact h (List.mem_map.mpr ⟨e, he, by simpa using heq⟩)

theorem find_replaced (es : List (κ × υ)) (k k' : κ) (v : υ) :
    ((replaced es k v).find? (·.1 = k')).map Prod.snd =
      if k' = k then (es.find? (·.1 = k)).map (fun _ => v)
      else (es.find? (·.1 = k')).map Prod.snd := by
  induction es with
  | nil =>
    split
    · rfl
    · rfl
  | cons e es ih =>
    rw [replaced, map_cons, ← replaced, List.find?_cons]
    by_cases hk : e.1 = k'
    · subst hk
      by_cases hek : e.1 = k
      · simp [hek]
      · simp [hek]
    · by_cases hkk : k' = k
      · subst hkk
        simpa [hk] using ih
      · simpa [hk, hkk] using ih

theorem find_append (es : List (κ × υ)) (k k' : κ) (v : υ) (hnew : k ∉ es.map Prod.fst) :
    ((es ++ [(k, v)]).find? (·.1 = k')).map Prod.snd =
      if k' = k then some v else (es.find? (·.1 = k')).map Prod.snd := by
  rw [List.find?_append]
  by_cases hk : k' = k
  · subst hk
    simp [find?_of_not_mem_keys hnew]
  · cases hf : es.find? (·.1 = k') with
    | none => simp [hk, Ne.symm hk]
    | some e => simp [hk]

/-- The value put last for a key, over a list of puts. -/
def lastPut (puts : List (κ × υ)) (k : κ) : Option υ :=
  (puts.reverse.find? (·.1 = k)).map Prod.snd

theorem lastPut_concat (puts : List (κ × υ)) (e : κ × υ) (k : κ) :
    lastPut (puts ++ [e]) k = if e.1 = k then some e.2 else lastPut puts k := by
  rw [lastPut, reverse_append, reverse_singleton, singleton_append, List.find?_cons]
  by_cases h : e.1 = k
  · simp [h]
  · simp [h, lastPut]

theorem find_putAll (puts : List (κ × υ)) (k : κ) (h : k ∈ (putAll puts : BMap κ υ cap).keys) :
    (putAll puts : BMap κ υ cap).find k = lastPut puts k := by
  induction puts using List.reverseRecOn with
  | nil => cases h
  | append_singleton puts e ih =>
    rw [putAll_concat] at h ⊢
    rw [lastPut_concat]
    by_cases hold : e.1 ∈ (putAll puts : BMap κ υ cap).keys
    · rw [put_old hold] at h ⊢
      rw [keys, replace, keys_replaced] at h
      rw [find, replace, find_replaced]
      by_cases hk : k = e.1
      · subst hk
        obtain ⟨w, hw⟩ := find?_of_mem_keys hold
        simp [hw]
      · rw [if_neg hk, if_neg (Ne.symm hk)]
        exact ih h
    · by_cases hroom : (putAll puts : BMap κ υ cap).entries.length < cap
      · rw [keys, put_new hold hroom, map_append, mem_append] at h
        rw [find, put_new hold hroom, find_append _ _ _ _ hold]
        by_cases hk : k = e.1
        · rw [if_pos hk, if_pos hk.symm]
        · rw [if_neg hk, if_neg (Ne.symm hk)]
          rcases h with h | h
          · exact ih h
          · exact absurd (List.mem_singleton.mp h) hk
      · rw [put_full hold hroom] at h ⊢
        have hk : e.1 ≠ k := by
          rintro rfl
          exact hold h
        rw [if_neg hk]
        exact ih h

/-- The different members of a list, each where it first stands. -/
def firsts (l : List κ) : List κ := l.reverse.dedup.reverse

theorem firsts_concat (l : List κ) (k : κ) :
    firsts (l ++ [k]) = if k ∈ l then firsts l else firsts l ++ [k] := by
  rw [firsts, reverse_append, reverse_singleton, singleton_append]
  by_cases h : k ∈ l
  · rw [if_pos h, dedup_cons_of_mem (List.mem_reverse.mpr h), firsts]
  · rw [if_neg h, dedup_cons_of_notMem (mt List.mem_reverse.mp h), reverse_cons, firsts]

theorem mem_firsts {l : List κ} {k : κ} : k ∈ firsts l ↔ k ∈ l := by
  rw [firsts, mem_reverse, mem_dedup, mem_reverse]

theorem keys_putAll (puts : List (κ × υ)) :
    (putAll puts : BMap κ υ cap).keys = (firsts (puts.map Prod.fst)).take cap := by
  induction puts using List.reverseRecOn with
  | nil => exact List.take_nil.symm
  | append_singleton puts e ih =>
    rw [putAll_concat, map_append, map_singleton, firsts_concat]
    have hlen : (putAll puts : BMap κ υ cap).entries.length =
        min cap (firsts (puts.map Prod.fst)).length := by
      have h := congrArg List.length ih
      rwa [keys, length_map, length_take] at h
    by_cases hold : e.1 ∈ (putAll puts : BMap κ υ cap).keys
    · have hmem : e.1 ∈ puts.map Prod.fst := by
        rw [ih] at hold
        exact mem_firsts.mp (mem_of_mem_take hold)
      rw [put_old hold, if_pos hmem, ← ih]
      exact keys_replaced _ _ _
    · by_cases hroom : (putAll puts : BMap κ υ cap).entries.length < cap
      · have hall : (firsts (puts.map Prod.fst)).take cap = firsts (puts.map Prod.fst) :=
          take_of_length_le (by omega)
        have hmem : e.1 ∉ puts.map Prod.fst := by
          rw [ih, hall] at hold
          exact mt mem_firsts.mpr hold
        rw [keys, put_new hold hroom, map_append, if_neg hmem,
          take_of_length_le (by rw [length_append, length_singleton]; omega)]
        exact congrArg (· ++ [e.1]) (ih.trans hall)
      · rw [put_full hold hroom, ih]
        split
        · rfl
        · rw [take_append_of_le_length (by omega)]

theorem mem_of_mem_keys_putAll (puts : List (κ × υ)) (k : κ)
    (h : k ∈ (putAll puts : BMap κ υ cap).keys) : k ∈ puts.map Prod.fst := by
  rw [keys_putAll] at h
  exact mem_firsts.mp (mem_of_mem_take h)

end BMap

end Wrpc
