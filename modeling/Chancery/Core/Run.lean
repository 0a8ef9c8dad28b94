/-
Runs of a step function, and the induction every safety result of this development goes through.

A system is a step function `σ → α → σ` on a state type; a run folds it over a list of operations. Five rules are
used everywhere:
- `run_invariant`: what every step preserves holds after every run;
- `run_measure_eq_zero`: a measure that every step lowers runs out;
- `run_invariant_of_meets`: the same when a step only preserves it under a condition on the state it starts from
  (`Meets`), as for code that keeps its promise only while a defective branch is not taken;
- `forall_prefix_iff_meets`: the condition is then exact, when leaving it breaks the property at once;
- `meets_congr`: two conditions that agree wherever an invariant holds are met by the same runs.
Nothing here knows the repository.
-/
import Mathlib.Tactic

namespace Chancery.Core

variable {σ α : Type*}

/-- the state after a list of operations -/
def run (step : σ → α → σ) (s : σ) (ops : List α) : σ := ops.foldl step s

@[simp] theorem run_nil (step : σ → α → σ) (s : σ) : run step s [] = s := rfl

@[simp] theorem run_cons (step : σ → α → σ) (s : σ) (a : α) (ops : List α) :
    run step s (a :: ops) = run step (step s a) ops := rfl

theorem run_append (step : σ → α → σ) (s : σ) (l m : List α) : run step s (l ++ m) = run step (run step s l) m := by
  simp [run, List.foldl_append]

theorem run_snoc (step : σ → α → σ) (s : σ) (l : List α) (a : α) : run step s (l ++ [a]) = step (run step s l) a := by
  simp [run_append]

/-- **Invariant rule.** What every step preserves holds after every run. -/
theorem run_invariant {step : σ → α → σ} {I : σ → Prop} (hstep : ∀ s a, I s → I (step s a)) {s : σ} (hs : I s)
    (ops : List α) : I (run step s ops) := by
  induction ops generalizing s with
  | nil => exact hs
  | cons a ops ih => exact ih (hstep s a hs)

/-- **Termination rule.** A measure that every step lowers until it is zero is zero after that many steps. -/
theorem run_measure_eq_zero {step : σ → α → σ} {μ : σ → ℕ} (hstep : ∀ s a, μ (step s a) ≤ μ s - 1) {s : σ} {ops : List α}
    (h : μ s ≤ ops.length) : μ (run step s ops) = 0 := by
  induction ops generalizing s with
  | nil => exact Nat.le_zero.1 h
  | cons a ops ih =>
    refine ih ?_
    have hlt : μ (step s a) ≤ μ s - 1 := hstep s a
    simp only [List.length_cons] at h
    omega

/-- every operation of the list meets the condition `C` in the state it is applied to -/
def Meets (step : σ → α → σ) (C : σ → α → Prop) : σ → List α → Prop
  | _, [] => True
  | s, a :: ops => C s a ∧ Meets step C (step s a) ops

instance Meets.instDecidable (step : σ → α → σ) (C : σ → α → Prop) [∀ s a, Decidable (C s a)] :
    ∀ (s : σ) (ops : List α), Decidable (Meets step C s ops)
  | _, [] => isTrue trivial
  | s, a :: ops =>
    haveI := Meets.instDecidable step C (step s a) ops
    inferInstanceAs (Decidable (C s a ∧ Meets step C (step s a) ops))

theorem meets_append {step : σ → α → σ} {C : σ → α → Prop} {s : σ} {l m : List α} :
    Meets step C s (l ++ m) ↔ Meets step C s l ∧ Meets step C (run step s l) m := by
  induction l generalizing s with
  | nil => simp [Meets]
  | cons a l ih => simp only [List.cons_append, Meets, run_cons, ih, and_assoc]

/-- **Conditional invariant rule.** If a step preserves `I` whenever it meets `C`, then `I` holds after every run all of
whose steps meet `C`. -/
theorem run_invariant_of_meets {step : σ → α → σ} {I : σ → Prop} {C : σ → α → Prop}
    (hstep : ∀ s a, C s a → I s → I (step s a)) {s : σ} (hs : I s) {ops : List α} (hC : Meets step C s ops) :
    I (run step s ops) := by
  induction ops generalizing s with
  | nil => exact hs
  | cons a ops ih => exact ih (hstep s a hC.1 hs) hC.2

/-- **Agreement rule.** Conditions that agree wherever the invariant holds are met by the same runs. -/
theorem meets_congr {step : σ → α → σ} {I : σ → Prop} {C D : σ → α → Prop} (hstep : ∀ s a, I s → I (step s a))
    (hCD : ∀ s a, I s → (C s a ↔ D s a)) {s : σ} (hs : I s) (ops : List α) : Meets step C s ops ↔ Meets step D s ops := by
  induction ops generalizing s with
  | nil => exact Iff.rfl
  | cons a ops ih => exact and_congr (hCD s a hs) (ih (hstep s a hs))

/-- a run that meets `C` meets what follows from it wherever the invariant holds that `C` preserves -/
theorem Meets.mono {step : σ → α → σ} {I : σ → Prop} {C D : σ → α → Prop} (hstep : ∀ s a, I s → C s a → I (step s a))
    (hCD : ∀ s a, I s → C s a → D s a) {s : σ} (hs : I s) {ops : List α} (hC : Meets step C s ops) : Meets step D s
      ops := by
  induction ops generalizing s with
  | nil => trivial
  | cons a ops ih => exact ⟨hCD s a hs hC.1, ih (hstep s a hs hC.1) hC.2⟩

theorem Meets.and {step : σ → α → σ} {C D : σ → α → Prop} {s : σ} {ops : List α} (hC : Meets step C s ops)
    (hD : Meets step D s ops) : Meets step (fun s a => C s a ∧ D s a) s ops := by
  induction ops generalizing s with
  | nil => trivial
  | cons a ops ih => exact ⟨⟨hC.1, hD.1⟩, ih hC.2 hD.2⟩

/-- **Exactness rule.** If `C` is enough for a step to keep the invariant, and a step without `C` breaks the property
at once, then the property holds all along a run exactly when every step of the run meets `C`. -/
theorem forall_prefix_iff_meets {step : σ → α → σ} {I P : σ → Prop} {C : σ → α → Prop} (hP : ∀ s, I s → P s)
    (hgood : ∀ s a, I s → C s a → I (step s a)) (hbad : ∀ s a, I s → ¬ C s a → ¬ P (step s a)) {s : σ} (hs : I s)
    (ops : List α) : (∀ l, l <+: ops → P (run step s l)) ↔ Meets step C s ops := by
  induction ops generalizing s with
  | nil => simpa [Meets] using hP s hs
  | cons a ops ih =>
    constructor
    · intro h
      have hC : C s a := by
        by_contra hn
        exact hbad s a hs hn (by simpa using h [a] (by simp))
      refine ⟨hC, (ih (hgood s a hs hC)).1 fun l hl => ?_⟩
      simpa using h (a :: l) (List.cons_prefix_cons.2 ⟨rfl, hl⟩)
    · rintro ⟨hC, hM⟩ l hl
      rcases List.prefix_cons_iff.1 hl with rfl | ⟨m, rfl, hm⟩
      · exact hP s hs
      · simpa using (ih (hgood s a hs hC)).2 hM m hm

/-- a relation that every step stays within, and that composes, relates the ends of a run -/
theorem run_rel {step : σ → α → σ} {R : σ → σ → Prop} (hrefl : ∀ s, R s s) (htrans : ∀ {s t u}, R s t → R t u → R s u)
    (hstep : ∀ s a, R s (step s a)) (s : σ) (ops : List α) : R s (run step s ops) := by
  induction ops generalizing s with
  | nil => exact hrefl s
  | cons a ops ih => exact htrans (hstep s a) (ih _)

end Chancery.Core
