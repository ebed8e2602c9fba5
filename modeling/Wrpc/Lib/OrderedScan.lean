/-
# A search through sorted entries that stops by a test of its own

Entries hold items, in ascending order over all entries.  A search for the first
item above some bound goes through the entries until a test says stop, and takes the
first item from there on.  `head?_scanned_iff` says when that is the first item above
the bound: every entry that holds something is above the bound exactly if the search
has stopped at it or before it (`Judged`).
-/
import Mathlib.Data.List.Nodup

namespace Wrpc

open List

universe u v

section Scan

variable {α : Type u} {β : Type v} (objs : α → List β) (stop : α → Bool)

/-- The items from the first entry on at which the search stops, and then `tail`. -/
def scanned : List α → List β → List β
  | [], tail => tail
  | e :: es, tail => if stop e then (e :: es).flatMap objs ++ tail else scanned es tail

theorem scanned_suffix : ∀ (es : List α) (tail : List β),
    scanned objs stop es tail <:+ es.flatMap objs ++ tail
  | [], tail => suffix_refl tail
  | e :: es, tail => by
    rw [scanned]
    split
    · exact suffix_refl _
    · rw [flatMap_cons, append_assoc]
      exact (scanned_suffix es tail).trans (suffix_append _ _)

theorem scanned_append : ∀ (es : List α) (tail : List β),
    scanned objs stop es tail = scanned objs stop es [] ++ tail
  | [], _ => rfl
  | e :: es, tail => by
    rw [scanned, scanned]
    split
    · rw [append_nil]
    · exact scanned_append es tail

/-- Every entry with an item is above exactly if the search stops at it or before it. -/
def Judged (p : β → Bool) (es : List α) : Prop :=
  ∀ xs e ys, es = xs ++ e :: ys → objs e ≠ [] →
    ((∀ o ∈ objs e, p o = true) ↔ ∃ x ∈ xs ++ [e], stop x = true)

variable {objs stop} {p : β → Bool} {e : α} {es : List α}

theorem judged_cons_stop (h : stop e = true) :
    Judged objs stop p (e :: es) ↔ ∀ x ∈ e :: es, ∀ o ∈ objs x, p o = true := by
  have hfirst : ∀ {xs x ys}, e :: es = xs ++ x :: ys → ∃ y ∈ xs ++ [x], stop y = true := by
    intro xs x ys hsplit
    refine ⟨e, ?_, h⟩
    cases xs with
    | nil => exact (List.cons.inj hsplit).1 ▸ mem_singleton_self _
    | cons y xs => exact (List.cons.inj hsplit).1 ▸ mem_cons_self
  constructor
  · intro hj x hx o ho
    obtain ⟨xs, ys, hsplit⟩ := append_of_mem hx
    exact (hj xs x ys hsplit (ne_nil_of_mem ho)).mpr (hfirst hsplit) o ho
  · intro hall xs x ys hsplit _
    have hx : x ∈ e :: es := hsplit ▸ mem_append_right xs mem_cons_self
    exact ⟨fun _ => hfirst hsplit, fun _ => hall x hx⟩

theorem judged_cons_pass (h : stop e = false) :
    Judged objs stop p (e :: es) ↔
      (objs e ≠ [] → ¬ ∀ o ∈ objs e, p o = true) ∧ Judged objs stop p es := by
  have hlater : ∀ {xs : List α} {x : α},
      (∃ y ∈ e :: xs ++ [x], stop y = true) ↔ ∃ y ∈ xs ++ [x], stop y = true := by
    intro xs x
    simp [h]
  have hself : ¬ ∃ y ∈ [] ++ [e], stop y = true := by simp [h]
  constructor
  · intro hj
    refine ⟨fun hne habove => hself ((hj [] e es rfl hne).mp habove), ?_⟩
    intro xs x ys hsplit hne
    rw [← hlater]
    exact hj (e :: xs) x ys (congrArg (e :: ·) hsplit) hne
  · rintro ⟨he, hes⟩ xs x ys hsplit hne
    cases xs with
    | nil =>
      obtain ⟨rfl, -⟩ := List.cons.inj hsplit
      exact ⟨fun habove => absurd habove (he hne), fun hstop => absurd hstop hself⟩
    | cons y xs =>
      obtain ⟨rfl, hsplit'⟩ := List.cons.inj hsplit
      rw [hlater]
      exact hes xs x ys hsplit' hne

theorem judged_of_stop_iff (above : α → Prop) (hstop : ∀ e ∈ es, stop e = true ↔ above e)
    (hobjs : ∀ e ∈ es, objs e ≠ [] → ((∀ o ∈ objs e, p o = true) ↔ above e))
    (hmono : es.Pairwise fun a b => above a → above b) : Judged objs stop p es := by
  rintro xs e ys rfl hne
  have he : e ∈ xs ++ e :: ys := mem_append_right xs mem_cons_self
  rw [hobjs e he hne]
  constructor
  · intro habove
    exact ⟨e, mem_append_right xs (mem_singleton_self e), (hstop e he).mpr habove⟩
  · rintro ⟨x, hx, hxstop⟩
    rcases List.mem_append.mp hx with hx | hx
    · have hxabove := (hstop x (mem_append_left _ hx)).mp hxstop
      exact (List.pairwise_append.mp hmono).2.2 x hx e mem_cons_self hxabove
    · rw [List.mem_singleton.mp hx] at hxstop
      exact (hstop e he).mp hxstop

theorem head?_eq_find?_iff : ∀ {l : List β}, l.Pairwise (fun a b => p a = true → p b = true) →
    (l.head? = l.find? p ↔ ∀ o ∈ l, p o = true)
  | [], _ => ⟨fun _ _ h => absurd h not_mem_nil, fun _ => rfl⟩
  | o :: l, h => by
    rw [pairwise_cons] at h
    rw [List.head?_cons, List.find?_cons]
    cases hp : p o with
    | true =>
      refine ⟨fun _ => ?_, fun _ => rfl⟩
      rintro o' (_ | ⟨_, ho'⟩)
      · exact hp
      · exact h.1 o' ho' hp
    | false =>
      constructor
      · intro heq
        exact absurd (List.find?_some heq.symm) (by simp [hp])
      · intro hall
        exact absurd (hall o mem_cons_self) (by simp [hp])

theorem head?_scanned_iff {tail : List β} (htail : ∀ o ∈ tail, p o = true) :
    ∀ {es : List α}, (∀ e ∈ es, (∀ o ∈ objs e, p o = true) ∨ ∀ o ∈ objs e, p o = false) →
      (es.flatMap objs ++ tail).Pairwise (fun a b => p a = true → p b = true) →
      (es.flatMap objs ++ tail).Nodup →
      ((scanned objs stop es tail).head? = (es.flatMap objs ++ tail).find? p ↔
        Judged objs stop p es)
  | [], _, hmono, _ => by
    refine ⟨fun _ xs e ys h => absurd h (by simp), fun _ => ?_⟩
    exact (head?_eq_find?_iff hmono).mpr htail
  | e :: es, hside, hmono, hnodup => by
    cases hstop : stop e with
    | true =>
      rw [scanned, if_pos hstop, head?_eq_find?_iff hmono, judged_cons_stop hstop]
      constructor
      · intro hall x hx o ho
        exact hall o (mem_append_left _ (List.mem_flatMap.mpr ⟨x, hx, ho⟩))
      · intro hall o ho
        rcases List.mem_append.mp ho with ho | ho
        · obtain ⟨x, hx, hox⟩ := List.mem_flatMap.mp ho
          exact hall x hx o hox
        · exact htail o ho
    | false =>
      rw [flatMap_cons, append_assoc] at hmono hnodup ⊢
      have ih := head?_scanned_iff htail (fun x hx => hside x (mem_cons_of_mem e hx))
        (List.pairwise_append.mp hmono).2.1 (List.nodup_append.mp hnodup).2.1
      rw [scanned, if_neg (by simp [hstop]), judged_cons_pass hstop, List.find?_append]
      rcases hside e mem_cons_self with habove | hbelow
      · cases hobjs : objs e with
        | nil =>
          rw [List.find?_nil, Option.none_or, ih]
          exact ⟨fun h => ⟨fun hne => absurd rfl hne, h⟩, fun h => h.2⟩
        | cons o os =>
          -- the item at the front is the one to find, and is not among those behind
          rw [hobjs] at habove hnodup
          rw [List.find?_cons_of_pos (habove o mem_cons_self)]
          constructor
          · intro heq
            have hmem : o ∈ scanned objs stop es tail :=
              List.mem_of_mem_head? (Option.mem_def.mpr heq)
            have hlater := (scanned_suffix objs stop es tail).subset hmem
            exact absurd hlater ((List.nodup_cons.mp hnodup).1 ∘ mem_append_right os)
          · rintro ⟨he, -⟩
            exact absurd habove (he (cons_ne_nil o os))
      · have hnone : (objs e).find? p = none :=
          List.find?_eq_none.mpr fun o ho => by simp [hbelow o ho]
        rw [hnone, Option.none_or, ih]
        refine ⟨fun h => ⟨fun hne habove => ?_, h⟩, fun h => h.2⟩
        obtain ⟨o, ho⟩ := exists_mem_of_ne_nil _ hne
        exact absurd (habove o ho) (by simp [hbelow o ho])

end Scan

end Wrpc
