/-
Workers that share a state.

A `Pool` is a shared state (a database, say) and the local state of every worker; there are as many workers as one likes.
One action lets one worker take one step: it reads and writes the shared state and its own local state, and nothing else.
A run of `Pool.act` is then an interleaving of the workers at the granularity of these steps. Nothing here knows the
repository.
-/
import Mathlib.Tactic
import Chancery.Core.Run

namespace Chancery.Core

variable {σ ε L : Type*}

structure Pool (σ L : Type*) where
  shared : σ
  workers : ℕ → L

namespace Pool

/-- worker `o.1` takes a step -/
def act (step : ℕ → ε → σ → L → σ × L) (p : Pool σ L) (o : ℕ × ε) : Pool σ L :=
  let r := step o.1 o.2 p.shared (p.workers o.1)
  ⟨r.1, Function.update p.workers o.1 r.2⟩

variable {step : ℕ → ε → σ → L → σ × L} {p : Pool σ L} {o : ℕ × ε}

theorem act_shared : (p.act step o).shared = (step o.1 o.2 p.shared (p.workers o.1)).1 := rfl

theorem act_self : (p.act step o).workers o.1 = (step o.1 o.2 p.shared (p.workers o.1)).2 := Function.update_self ..

theorem act_other {i : ℕ} (h : i ≠ o.1) : (p.act step o).workers i = p.workers i := Function.update_of_ne h ..

/-- a worker that takes no step in a run ends where it started -/
theorem run_other {i : ℕ} {ops : List (ℕ × ε)} (h : ∀ o ∈ ops, o.1 ≠ i) :
    (run (Pool.act step) p ops).workers i = p.workers i := by
  induction ops generalizing p with
  | nil => rfl
  | cons o ops ih =>
    obtain ⟨hne, hrest⟩ := List.forall_mem_cons.1 h
    rw [run_cons, ih hrest, act_other hne.symm]

/-- what holds of every worker's local state, the shared state included, is kept when the acting worker has it afterwards
and the step spoils it for no other -/
theorem forall_workers {P : σ → ℕ → L → Prop}
    (hself : P (p.act step o).shared o.1 (step o.1 o.2 p.shared (p.workers o.1)).2)
    (hother : ∀ i, i ≠ o.1 → P p.shared i (p.workers i) → P (p.act step o).shared i (p.workers i))
    (h : ∀ i, P p.shared i (p.workers i)) : ∀ i, P (p.act step o).shared i ((p.act step o).workers i) := by
  intro i
  by_cases hi : i = o.1
  · rw [hi, act_self]
    exact hself
  · rw [act_other hi]
    exact hother i hi (h i)

/-- at most one worker is inside: kept when the acting worker was inside, ends outside, or found nobody else inside -/
theorem exclusive {inside : L → Prop} (h : ∀ i j, inside (p.workers i) → inside (p.workers j) → i = j)
    (hself : inside (step o.1 o.2 p.shared (p.workers o.1)).2 →
      inside (p.workers o.1) ∨ ∀ i, i ≠ o.1 → ¬ inside (p.workers i)) :
    ∀ i j, inside ((p.act step o).workers i) → inside ((p.act step o).workers j) → i = j := by
  have hcross : ∀ j, j ≠ o.1 → inside ((p.act step o).workers o.1) → ¬ inside ((p.act step o).workers j) := by
    intro j hj hin hinj
    rw [act_self] at hin
    rw [act_other hj] at hinj
    rcases hself hin with hold | hnone
    · exact hj (h j o.1 hinj hold)
    · exact hnone j hj hinj
  intro i j hi hj
  by_cases hio : i = o.1
  · by_cases hjo : j = o.1
    · rw [hio, hjo]
    · rw [hio] at hi
      exact absurd hj (hcross j hjo hi)
  · by_cases hjo : j = o.1
    · rw [hjo] at hj
      exact absurd hi (hcross i hio hj)
    · rw [act_other hio] at hi
      rw [act_other hjo] at hj
      exact h i j hi hj

end Pool

end Chancery.Core
