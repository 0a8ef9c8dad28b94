/-
Life cycles of the rows of a table.

`next` says which status may follow which; a new row starts on `start`. `Moves` relates an earlier and a later content of a
table: no row is gone, every row moved along `next`, and a new row moved along `next` from `start`. It composes, so what
every step of a system does to a table, a whole run does to it; and a status nothing follows is never left
(`Moves.final`). Nothing here knows the repository.
-/
import Mathlib.Tactic
import Chancery.Core.Table

namespace Chancery.Core

open Relation

variable {α σ : Type*} {key : α → ℤ}

structure Moves (status : α → σ) (next : σ → σ → Prop) (start : σ) (t t' : Table key) : Prop where
  kept : ∀ a ∈ t, ∃ a' ∈ t', key a' = key a ∧ ReflTransGen next (status a) (status a')
  fresh : ∀ a' ∈ t', (∃ a ∈ t, key a = key a') ∨ ReflTransGen next start (status a')

namespace Moves

variable {status : α → σ} {next : σ → σ → Prop} {start : σ} {t t' t'' : Table key}

theorem refl (t : Table key) : Moves status next start t t :=
  ⟨fun a ha => ⟨a, ha, rfl, .refl⟩, fun a ha => Or.inl ⟨a, ha, rfl⟩⟩

theorem trans (h : Moves status next start t t') (h' : Moves status next start t' t'') :
    Moves status next start t t'' := by
  constructor
  · intro a ha
    obtain ⟨a', ha', hkey, hmove⟩ := h.kept a ha
    obtain ⟨a'', ha'', hkey', hmove'⟩ := h'.kept a' ha'
    exact ⟨a'', ha'', hkey'.trans hkey, hmove.trans hmove'⟩
  · intro a'' ha''
    rcases h'.fresh a'' ha'' with ⟨a', ha', hkey'⟩ | hnew
    · rcases h.fresh a' ha' with ⟨a, ha, hkey⟩ | hnew
      · exact Or.inl ⟨a, ha, hkey.trans hkey'⟩
      · obtain ⟨b, hb, hkeyb, hmove⟩ := h'.kept a' ha'
        have hsame : b = a'' := Table.eq_of_key hb ha'' (hkeyb.trans hkey')
        rw [hsame] at hmove
        exact Or.inr (hnew.trans hmove)
    · exact Or.inr hnew

/-- rows rewritten along `next` -/
theorem mapRows (f : α → α) (hf : ∀ a, key (f a) = key a) (h : ∀ a ∈ t, ReflTransGen next (status a) (status (f a))) :
    Moves status next start t (t.mapRows f hf) := by
  constructor
  · intro a ha
    exact ⟨f a, List.mem_map_of_mem ha, hf a, h a ha⟩
  · intro a' ha'
    obtain ⟨a, ha, rfl⟩ := List.mem_map.1 ha'
    exact Or.inl ⟨a, ha, (hf a).symm⟩

/-- one row rewritten along `next` -/
theorem update {k : ℤ} (f : α → α) (hf : ∀ a, key (f a) = key a)
    (h : ∀ a, t.get? k = some a → ReflTransGen next (status a) (status (f a))) :
    Moves status next start t (t.update k f hf) := by
  unfold Table.update
  refine mapRows _ _ fun a ha => ?_
  by_cases hk : key a = k
  · rw [if_pos hk]
    exact h a (by rw [← hk]; exact Table.get?_key ha)
  · rw [if_neg hk]

/-- a row inserted on a status reached from `start` -/
theorem insert (mk : ℤ → α) (hmk : ∀ k, key (mk k) = k) (h : ReflTransGen next start (status (mk t.nextKey))) :
    Moves status next start t (t.insert mk hmk) := by
  constructor
  · intro a ha
    exact ⟨a, Table.mem_insert.2 (Or.inl ha), rfl, .refl⟩
  · intro a' ha'
    rcases Table.mem_insert.1 ha' with hold | rfl
    · exact Or.inl ⟨a', hold, rfl⟩
    · exact Or.inr h

/-- **A final status is never left.** -/
theorem final (h : Moves status next start t t') {a : α} (ha : a ∈ t) (hfinal : ∀ s, ¬ next (status a) s) :
    ∃ a' ∈ t', key a' = key a ∧ status a' = status a := by
  obtain ⟨a', ha', hkey, hmove⟩ := h.kept a ha
  refine ⟨a', ha', hkey, ?_⟩
  rcases ReflTransGen.cases_head hmove with heq | ⟨s, hnext, _⟩
  · exact heq.symm
  · exact absurd hnext (hfinal s)

end Moves

end Chancery.Core
