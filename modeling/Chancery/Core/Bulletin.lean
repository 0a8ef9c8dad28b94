/-
Facts that are published in numbered editions.

Each publisher has facts that are to be listed, and a last edition: a number, and what was published under it if anything
was. A step that forgets no fact, and whose new editions carry a higher number and list every fact there was before it
(`Advances`), may be repeated:
(1) `Advances.listed`: a fact is in every edition that follows it;
(2) `Advances.kept`: what an edition lists, every later edition lists, as long as the first one listed nothing but facts.
Nothing here knows the repository.
-/
import Mathlib.Tactic
import Chancery.Core.Run

namespace Chancery.Core

structure Bulletin (σ ι φ κ : Type*) where
  /-- what is to be listed -/
  facts : σ → ι → φ → Prop
  /-- the last edition -/
  edition : σ → ι → Option (ℤ × Option κ)
  lists : κ → φ → Prop

namespace Bulletin

variable {σ α ι φ κ : Type*} {B : Bulletin σ ι φ κ} {s t u : σ} {i : ι}

variable (B) in
/-- a new edition with a higher number lists what was to be listed -/
def Follows (s : σ) (i : ι) (e e' : ℤ × Option κ) : Prop :=
  e.1 < e'.1 ∧ ∃ c, e'.2 = some c ∧ ∀ f, B.facts s i f → B.lists c f

variable (B) in
/-- **Advances.** No fact is forgotten, and no edition leaves one out. -/
structure Advances (s t : σ) : Prop where
  facts : ∀ i f, B.facts s i f → B.facts t i f
  edition : ∀ i e, B.edition s i = some e → ∃ e', B.edition t i = some e' ∧ (e' = e ∨ B.Follows s i e e')

theorem Advances.refl : B.Advances s s := ⟨fun _ _ h => h, fun _ e h => ⟨e, h, Or.inl rfl⟩⟩

theorem Advances.trans (hst : B.Advances s t) (htu : B.Advances t u) : B.Advances s u where
  facts i f h := htu.facts i f (hst.facts i f h)
  edition := by
    intro i e he
    obtain ⟨e₁, he₁, hfirst⟩ := hst.edition i e he
    obtain ⟨e₂, he₂, hsecond⟩ := htu.edition i e₁ he₁
    refine ⟨e₂, he₂, ?_⟩
    rcases hsecond with rfl | ⟨hlt, c, hc, hlists⟩
    · exact hfirst
    · -- the second edition was made when there were more facts
      have hall : ∀ f, B.facts s i f → B.lists c f := fun f hf => hlists f (hst.facts i f hf)
      rcases hfirst with rfl | ⟨hlt₁, -⟩
      · exact Or.inr ⟨hlt, c, hc, hall⟩
      · exact Or.inr ⟨hlt₁.trans hlt, c, hc, hall⟩

/-- **Run rule.** A run advances when its steps do. -/
theorem advances_run {step : σ → α → σ} {C : σ → α → Prop} (hstep : ∀ s a, C s a → B.Advances s (step s a)) {s : σ}
    {ops : List α} (hC : Meets step C s ops) : B.Advances s (run step s ops) := by
  induction ops generalizing s with
  | nil => exact .refl
  | cons a ops ih => exact (hstep s a hC.1).trans (ih hC.2)

/-- **(1) Listed.** -/
theorem Advances.listed (h : B.Advances s t) {f : φ} (hf : B.facts s i f) {e : ℤ × Option κ} (he : B.edition s i = some e) :
    ∃ e', B.edition t i = some e' ∧ (e' = e ∨ e.1 < e'.1 ∧ ∃ c, e'.2 = some c ∧ B.lists c f) := by
  obtain ⟨e', he', hcase⟩ := h.edition i e he
  refine ⟨e', he', hcase.imp_right ?_⟩
  rintro ⟨hlt, c, hc, hlists⟩
  exact ⟨hlt, c, hc, hlists f hf⟩

/-- **(2) Kept.** -/
theorem Advances.kept (h : B.Advances s t) {n : ℤ} {c : κ} (he : B.edition s i = some (n, some c)) :
    ∃ n' c', B.edition t i = some (n', some c') ∧ (n' = n ∧ c' = c ∨ n < n') ∧
      ∀ f, B.lists c f → B.facts s i f → B.lists c' f := by
  obtain ⟨⟨n', c'?⟩, he', hcase⟩ := h.edition i _ he
  rcases hcase with heq | ⟨hlt, c', hc', hlists⟩
  · cases heq
    exact ⟨n, c, he', Or.inl ⟨rfl, rfl⟩, fun f hf _ => hf⟩
  · subst hc'
    exact ⟨n', c', he', Or.inr hlt, fun f _ hf => hlists f hf⟩

end Bulletin

end Chancery.Core
