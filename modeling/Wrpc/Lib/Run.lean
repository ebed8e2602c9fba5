/-
# Runs of a deterministic machine and what holds along them

A machine is a step function `step : σ → ε → σ`; a run feeds it a list of
events.  Two predicates say what holds along a run:

    Steps P s es    every step of the run, as (state before, event), satisfies P
    Always Q s es   every state of the run satisfies Q, the first and last included

A machine that also emits something at a step has a second function for it,
and `emits` is what it emits over a run.

The rules below are the only inductions over runs in the development: an
invariant is checked on one step, under whatever guard `P` the run's steps
meet, and then holds along the run.
-/
import Mathlib.Tactic.Common

namespace Wrpc.Run

open List

universe u v w
variable {σ : Type u} {ε : Type v} {ω : Type w} (step : σ → ε → σ)

def run : σ → List ε → σ
  | s, [] => s
  | s, e :: es => run (step s e) es

/-- Every step of the run satisfies `P`. -/
def Steps (P : σ → ε → Prop) : σ → List ε → Prop
  | _, [] => True
  | s, e :: es => P s e ∧ Steps P (step s e) es

/-- Every state of the run satisfies `Q`. -/
def Always (Q : σ → Prop) : σ → List ε → Prop
  | s, [] => Q s
  | s, e :: es => Q s ∧ Always Q (step s e) es

def emits (out : σ → ε → List ω) : σ → List ε → List ω
  | _, [] => []
  | s, e :: es => out s e ++ emits out (step s e) es

instance decSteps (P : σ → ε → Prop) [∀ s e, Decidable (P s e)] :
    ∀ (s : σ) (es : List ε), Decidable (Steps step P s es)
  | _, [] => isTrue trivial
  | s, e :: es => @instDecidableAnd _ _ _ (decSteps P (step s e) es)

instance decAlways (Q : σ → Prop) [DecidablePred Q] :
    ∀ (s : σ) (es : List ε), Decidable (Always step Q s es)
  | s, [] => inferInstanceAs (Decidable (Q s))
  | s, e :: es => @instDecidableAnd _ _ _ (decAlways Q (step s e) es)

@[simp] theorem run_nil (s : σ) : run step s [] = s := rfl

@[simp] theorem run_cons (s : σ) (e : ε) (es : List ε) :
    run step s (e :: es) = run step (step s e) es := rfl

theorem run_append (s : σ) (es fs : List ε) :
    run step s (es ++ fs) = run step (run step s es) fs := by
  induction es generalizing s with
  | nil => rfl
  | cons e es ih => exact ih (step s e)

theorem emits_append (out : σ → ε → List ω) (s : σ) (es fs : List ε) :
    emits step out s (es ++ fs) = emits step out s es ++ emits step out (run step s es) fs := by
  induction es generalizing s with
  | nil => rfl
  | cons e es ih => simp [emits, ih]

variable {step}

theorem forall_mem_emits {out : σ → ε → List ω} {P : ω → Prop} :
    ∀ {s : σ} {es : List ε}, Steps step (fun s e => ∀ o ∈ out s e, P o) s es →
      ∀ o ∈ emits step out s es, P o
  | _, [], _, _, h => nomatch h
  | _, _ :: _, ⟨hp, ht⟩, o, h => (mem_append.mp h).elim (hp o) (forall_mem_emits ht o)

theorem steps_append {P : σ → ε → Prop} {s : σ} {es fs : List ε} :
    Steps step P s (es ++ fs) ↔ Steps step P s es ∧ Steps step P (run step s es) fs := by
  induction es generalizing s with
  | nil => simp [Steps, run]
  | cons e es ih => simp [Steps, ih, and_assoc]

theorem Always.append {Q : σ → Prop} {s : σ} {es fs : List ε} (h : Always step Q s (es ++ fs)) :
    Always step Q (run step s es) fs := by
  induction es generalizing s with
  | nil => exact h
  | cons e es ih => exact ih h.2

theorem Always.followed {Q : σ → Prop} {s : σ} {es fs : List ε} (h : Always step Q s es)
    (h' : Always step Q (run step s es) fs) : Always step Q s (es ++ fs) := by
  induction es generalizing s with
  | nil => exact h'
  | cons e es ih => exact ⟨h.1, ih h.2 h'⟩

theorem Steps.mono {P P' : σ → ε → Prop} (h : ∀ s e, P s e → P' s e) :
    ∀ {s : σ} {es : List ε}, Steps step P s es → Steps step P' s es
  | _, [], _ => trivial
  | _, _ :: _, ⟨hp, ht⟩ => ⟨h _ _ hp, Steps.mono h ht⟩

theorem Steps.and {P P' : σ → ε → Prop} :
    ∀ {s : σ} {es : List ε}, Steps step P s es → Steps step P' s es →
      Steps step (fun s e => P s e ∧ P' s e) s es
  | _, [], _, _ => trivial
  | _, _ :: _, ⟨hp, ht⟩, ⟨hp', ht'⟩ => ⟨⟨hp, hp'⟩, Steps.and ht ht'⟩

theorem steps_congr {P P' : σ → ε → Prop} :
    ∀ {s : σ} {es : List ε}, Steps step (fun s e => P s e ↔ P' s e) s es →
      (Steps step P s es ↔ Steps step P' s es)
  | _, [], _ => Iff.rfl
  | _, _ :: _, ⟨h, ht⟩ => and_congr h (steps_congr ht)

theorem always_of_inv {P : σ → ε → Prop} {I Q : σ → Prop}
    (hstep : ∀ s e, I s → P s e → I (step s e)) (hQ : ∀ s, I s → Q s) :
    ∀ {s : σ} {es : List ε}, I s → Steps step P s es → Always step Q s es
  | s, [], hI, _ => hQ s hI
  | s, e :: _, hI, ⟨hp, ht⟩ => ⟨hQ s hI, always_of_inv hstep hQ (hstep s e hI hp) ht⟩

theorem emits_balance {P : σ → ε → Prop} {I : σ → Prop} {put get : σ → ε → List ω}
    {pending : σ → List ω} (hstep : ∀ s e, I s → P s e → I (step s e))
    (hbalance : ∀ s e, I s → P s e → pending s ++ put s e = get s e ++ pending (step s e)) :
    ∀ {s : σ} {es : List ε}, I s → Steps step P s es →
      pending s ++ emits step put s es = emits step get s es ++ pending (run step s es)
  | _, [], _, _ => by simp [emits]
  | s, e :: _, hI, ⟨hp, ht⟩ => by
    rw [emits, emits, ← append_assoc, hbalance s e hI hp, append_assoc,
      emits_balance hstep hbalance (hstep s e hI hp) ht, append_assoc, run_cons]

/-- What a machine emits is numbered upwards: `I p s` says that nothing below `p` is left in `s`. -/
theorem emits_increasing {P : σ → ε → Prop} {I : Nat → σ → Prop} {out : σ → ε → List ω}
    {f : Nat → ω} (hstep : ∀ p s e, I p s → P s e → ∃ q, p ≤ q ∧ I q (step s e) ∧
      (out s e = [] ∨ ∃ k, p ≤ k ∧ k < q ∧ out s e = [f k])) :
    ∀ {p : Nat} {s : σ} {es : List ε}, I p s → Steps step P s es →
      ∃ ks : List Nat, ks.Pairwise (· < ·) ∧ (∀ k ∈ ks, p ≤ k) ∧ emits step out s es = ks.map f
  | _, _, [], _, _ => ⟨[], List.Pairwise.nil, by simp, rfl⟩
  | p, s, e :: es, hI, ⟨hp, ht⟩ => by
    obtain ⟨q, hpq, hI', hout⟩ := hstep p s e hI hp
    obtain ⟨ks, hks, hge, hemits⟩ := emits_increasing hstep hI' ht
    have hlow : ∀ k ∈ ks, p ≤ k := fun k hk => Nat.le_trans hpq (hge k hk)
    rcases hout with hnone | ⟨k, hpk, hkq, hone⟩
    · exact ⟨ks, hks, hlow, by rw [emits, hnone, hemits, nil_append]⟩
    · refine ⟨k :: ks, pairwise_cons.2 ⟨fun k' hk' => Nat.lt_of_lt_of_le hkq (hge k' hk'), hks⟩,
        forall_mem_cons.2 ⟨hpk, hlow⟩, ?_⟩
      rw [emits, hone, hemits]
      rfl

theorem Always.first {Q : σ → Prop} {s : σ} : ∀ {es : List ε}, Always step Q s es → Q s
  | [], h => h
  | _ :: _, h => h.1

theorem Always.last {Q : σ → Prop} {s : σ} {es : List ε} (h : Always step Q s es) :
    Q (run step s es) := by
  induction es generalizing s with
  | nil => exact h
  | cons e es ih => exact ih h.2

theorem steps_of_inv {P R : σ → ε → Prop} {I : σ → Prop}
    (hstep : ∀ s e, I s → P s e → I (step s e)) (hR : ∀ s e, I s → P s e → R s e) :
    ∀ {s : σ} {es : List ε}, I s → Steps step P s es → Steps step R s es
  | _, [], _, _ => trivial
  | s, e :: _, hI, ⟨hp, ht⟩ =>
    ⟨hR s e hI hp, steps_of_inv hstep hR (hstep s e hI hp) ht⟩

/-- A property that a step keeps exactly under a condition holds along exactly
the runs whose steps all meet that condition. -/
theorem always_iff_steps {G P : σ → ε → Prop} {I Q : σ → Prop}
    (hstep : ∀ s e, I s → G s e → I (step s e))
    (hiff : ∀ s e, I s → G s e → Q s → (Q (step s e) ↔ P s e)) {s : σ} {es : List ε} (hI : I s)
    (hQ : Q s) (h : Steps step G s es) : Always step Q s es ↔ Steps step P s es := by
  induction es generalizing s with
  | nil => exact ⟨fun _ => trivial, fun _ => hQ⟩
  | cons e es ih =>
    constructor
    · rintro ⟨-, ht⟩
      exact ⟨(hiff s e hI h.1 hQ).mp ht.first, (ih (hstep s e hI h.1) ht.first h.2).mp ht⟩
    · rintro ⟨hp, ht⟩
      have hQ' := (hiff s e hI h.1 hQ).mpr hp
      exact ⟨hQ, (ih (hstep s e hI h.1) hQ' h.2).mpr ht⟩

theorem steps_iff_of_inv {G P P' : σ → ε → Prop} {I : σ → Prop}
    (hstep : ∀ s e, I s → P s e → I (step s e))
    (hiff : ∀ s e, I s → G s e → (P s e ↔ P' s e)) :
    ∀ {s : σ} {es : List ε}, I s → Steps step G s es → (Steps step P s es ↔ Steps step P' s es)
  | _, [], _, _ => Iff.rfl
  | s, e :: _, hI, ⟨hg, hgs⟩ =>
    ⟨fun ⟨hp, ht⟩ =>
        ⟨(hiff s e hI hg).mp hp, (steps_iff_of_inv hstep hiff (hstep s e hI hp) hgs).mp ht⟩,
      fun ⟨hp', ht⟩ =>
        have hp := (hiff s e hI hg).mpr hp'
        ⟨hp, (steps_iff_of_inv hstep hiff (hstep s e hI hp) hgs).mpr ht⟩⟩

theorem steps_true : ∀ (s : σ) (es : List ε), Steps step (fun _ _ => True) s es
  | _, [] => trivial
  | s, e :: es => ⟨trivial, steps_true (step s e) es⟩

theorem steps_of_forall {P : ε → Prop} :
    ∀ {s : σ} {es : List ε}, (∀ e ∈ es, P e) → Steps step (fun _ e => P e) s es
  | _, [], _ => trivial
  | _, e :: _, h =>
    ⟨h e mem_cons_self, steps_of_forall fun x hx => h x (mem_cons_of_mem _ hx)⟩

end Wrpc.Run
