/-
Changes of a table that leave some of its rows alone.

`Agree p t u`: among the rows with `p`, the two tables hold the same. Changes that each agree on `p` agree on it together,
and a change of rows that do not have `p`, before or after, agrees on it. Nothing here knows the repository.
-/
import Mathlib.Tactic
import Chancery.Core.Table

namespace Chancery.Core.Table

variable {α : Type*} {key : α → ℤ} {t u v : Table key} {p q : α → Prop}

/-- the same rows with `p` -/
def Agree (p : α → Prop) (t u : Table key) : Prop := ∀ a, p a → (a ∈ u ↔ a ∈ t)

theorem Agree.refl (p : α → Prop) (t : Table key) : t.Agree p t := fun _ _ => Iff.rfl

theorem Agree.trans (h : t.Agree p u) (h' : u.Agree p v) : t.Agree p v := fun a ha => (h' a ha).trans (h a ha)

theorem Agree.mono (h : t.Agree p u) (hpq : ∀ a, q a → p a) : t.Agree q u := fun a ha => h a (hpq a ha)

theorem agree_mapRows (f : α → α) (hf : ∀ a, key (f a) = key a) (h : ∀ a ∈ t, p a ∨ p (f a) → f a = a) :
    t.Agree p (t.mapRows f hf) := by
  intro a ha
  constructor
  · intro hmem
    obtain ⟨b, hb, rfl⟩ := List.mem_map.1 hmem
    rw [h b hb (Or.inr ha)]
    exact hb
  · intro hmem
    have hsame := h a hmem (Or.inl ha)
    rw [← hsame]
    exact List.mem_map_of_mem hmem

theorem agree_update {k : ℤ} (f : α → α) (hf : ∀ a, key (f a) = key a)
    (h : ∀ a ∈ t, key a = k → ¬ p a ∧ ¬ p (f a)) : t.Agree p (t.update k f hf) := by
  refine agree_mapRows _ _ fun a ha hp => ?_
  by_cases hk : key a = k
  · rw [if_pos hk] at hp
    obtain ⟨hbefore, hafter⟩ := h a ha hk
    exact absurd hp (not_or.2 ⟨hbefore, hafter⟩)
  · exact if_neg hk

theorem agree_insert (mk : ℤ → α) (hmk : ∀ k, key (mk k) = k) (h : ¬ p (mk t.nextKey)) :
    t.Agree p (t.insert mk hmk) := by
  intro a ha
  rw [Table.mem_insert]
  refine or_iff_left ?_
  rintro rfl
  exact h ha

end Chancery.Core.Table
