/-
Depth limits in a forest given by parent pointers.

`levelsUp parent d i` is the node `d` levels above `i`. A limit at a node says how many levels may lie below it; a forest is
`InLimits` when no node is further down than a limit above it allows, and a node has room (`RoomFrom`) for a child
when none of the limits along its chain is used up (`inLimits_update`). If every limit is below the one of its parent
(`Nested`), a node has room as soon as its own limit is positive (`Nested.room`).
Nothing here knows the repository.
-/
import Mathlib.Tactic

namespace Chancery.Core

variable {ι : Type*}

/-- the node `d` levels above -/
def levelsUp (parent : ι → Option ι) : ℕ → ι → Option ι
  | 0, i => some i
  | d + 1, i => (parent i).bind (levelsUp parent d)

/-- **In limits.** No node lies further below a limit than it allows. -/
def InLimits (parent : ι → Option ι) (limit : ι → Option ℤ) : Prop :=
  ∀ (i : ι) (d : ℕ) (a : ι) (n : ℤ), 1 ≤ d → levelsUp parent d i = some a → limit a = some n → (d : ℤ) ≤ n

/-- there is a level left below each of the nodes from `i` upwards, the first `k` of them left out -/
def RoomFrom (parent : ι → Option ι) (limit : ι → Option ℤ) (k : ℕ) (i : ι) : Prop :=
  ∀ (d : ℕ) (a : ι) (n : ℤ), k ≤ d → levelsUp parent d i = some a → limit a = some n → (d : ℤ) + 1 ≤ n

/-- **Nested.** Below a limit there is a level left, and the limit there is smaller. -/
def Nested (parent : ι → Option ι) (limit : ι → Option ℤ) : Prop :=
  ∀ (i p : ι) (n : ℤ), parent i = some p → limit p = some n → 1 ≤ n ∧ ∃ m, limit i = some m ∧ m < n

section Levels

variable {parent : ι → Option ι} {limit : ι → Option ℤ} {i p : ι} {m : ℤ}

/-- the node itself is the one without levels between -/
theorem roomFrom_zero_iff : RoomFrom parent limit 0 i ↔ (∀ n, limit i = some n → 1 ≤ n) ∧ RoomFrom parent limit 1 i := by
  constructor
  · intro h
    refine ⟨fun n hn => ?_, fun d a n _ => h d a n (Nat.zero_le d)⟩
    simpa using h 0 i n le_rfl rfl hn
  · rintro ⟨hself, habove⟩ d a n _ ha hn
    cases d with
    | zero =>
      cases ha
      simpa using hself n hn
    | succ d => exact habove (d + 1) a n (Nat.le_add_left 1 d) ha hn

/-- limits shrink on the way down -/
theorem Nested.chain (h : Nested parent limit) {d : ℕ} {a : ι} {n : ℤ} (ha : levelsUp parent d i = some a)
    (hn : limit a = some n) : ∃ m, limit i = some m ∧ m + d ≤ n ∧ (1 ≤ d → (d : ℤ) ≤ n) := by
  induction d generalizing i with
  | zero =>
    cases ha
    exact ⟨n, hn, by simp, by simp⟩
  | succ d ih =>
    obtain ⟨p, hp, hup⟩ := Option.bind_eq_some_iff.1 ha
    obtain ⟨m, hm, hle, _⟩ := ih hup
    obtain ⟨hpos, k, hk, hlt⟩ := h i p m hp hm
    refine ⟨k, hk, ?_, fun _ => ?_⟩
    · push_cast
      omega
    · push_cast
      omega

/-- **In a nested forest the limit of the node decides.** -/
theorem Nested.room (h : Nested parent limit) (hself : ∀ n, limit i = some n → 1 ≤ n) : RoomFrom parent limit 0 i := by
  intro d a n _ ha hn
  obtain ⟨m, hm, hle, _⟩ := h.chain ha hn
  have hpos := hself m hm
  omega

/-- a node without children is not above the others -/
theorem levelsUp_ne {c : ι} (hfresh : ∀ i, parent i ≠ some c) {d : ℕ} {i a : ι} (hi : i ≠ c)
    (ha : levelsUp parent d i = some a) :
    a ≠ c := by
  induction d generalizing i with
  | zero =>
    cases ha
    exact hi
  | succ d ih =>
    obtain ⟨q, hq, hup⟩ := Option.bind_eq_some_iff.1 ha
    refine ih ?_ hup
    rintro rfl
    exact hfresh i hq

end Levels

section Update

variable [DecidableEq ι] {parent : ι → Option ι} {limit : ι → Option ℤ} {c p : ι} {own : Option ℤ}

theorem levelsUp_update (hfresh : ∀ i, parent i ≠ some c) {q : Option ι} {d : ℕ} {i : ι} (hi : i ≠ c) :
    levelsUp (Function.update parent c q) d i = levelsUp parent d i := by
  induction d generalizing i with
  | zero => rfl
  | succ d ih =>
    show (Function.update parent c q i).bind _ = (parent i).bind _
    rw [Function.update_of_ne hi]
    cases hj : parent i with
    | none => rfl
    | some j =>
      have hne : j ≠ c := fun h => hfresh i (h ▸ hj)
      exact ih hne

/-- **A new node.** With a new node below `p` the forest is within its limits exactly when it was, and `p` had room. -/
theorem inLimits_update (hfresh : ∀ i, parent i ≠ some c) (hc : parent c = none) (hp : p ≠ c) :
    InLimits (Function.update parent c (some p)) (Function.update limit c own) ↔
      InLimits parent limit ∧ RoomFrom parent limit 0 p := by
  have hnew : ∀ d, levelsUp (Function.update parent c (some p)) (d + 1) c = levelsUp parent d p := by
    intro d
    show (Function.update parent c (some p) c).bind _ = _
    rw [Function.update_self]
    exact levelsUp_update hfresh hp
  constructor
  · intro h
    constructor
    · intro i d a n hd ha hn
      have hi : i ≠ c := by
        rintro rfl
        obtain ⟨d, rfl⟩ := Nat.exists_eq_add_of_le' hd
        obtain ⟨q, hq, _⟩ := Option.bind_eq_some_iff.1 ha
        rw [hc] at hq
        cases hq
      refine h i d a n hd (by rw [levelsUp_update hfresh hi]; exact ha) ?_
      rw [Function.update_of_ne (levelsUp_ne hfresh hi ha)]
      exact hn
    · intro d a n _ ha hn
      have hle := h c (d + 1) a n (Nat.le_add_left 1 d) (by rw [hnew]; exact ha)
        (by rw [Function.update_of_ne (levelsUp_ne hfresh hp ha)]; exact hn)
      push_cast at hle
      exact hle
  · rintro ⟨hold, hroom⟩ i d a n hd ha hn
    by_cases hi : i = c
    · subst hi
      obtain ⟨d, rfl⟩ := Nat.exists_eq_add_of_le' hd
      rw [hnew] at ha
      rw [Function.update_of_ne (levelsUp_ne hfresh hp ha)] at hn
      push_cast
      exact hroom d a n (Nat.zero_le d) ha hn
    · rw [levelsUp_update hfresh hi] at ha
      rw [Function.update_of_ne (levelsUp_ne hfresh hi ha)] at hn
      exact hold i d a n hd ha hn

/-- a new node with a smaller limit keeps the forest nested -/
theorem Nested.update (h : Nested parent limit) (hfresh : ∀ i, parent i ≠ some c) (hp : p ≠ c)
    (hown : ∀ n, limit p = some n → 1 ≤ n ∧ ∃ m, own = some m ∧ m < n) :
    Nested (Function.update parent c (some p)) (Function.update limit c own) := by
  intro i q n hq hn
  by_cases hi : i = c
  · subst hi
    rw [Function.update_self, Option.some.injEq] at hq
    subst hq
    rw [Function.update_of_ne hp] at hn
    rw [Function.update_self]
    exact hown n hn
  · rw [Function.update_of_ne hi] at hq
    have hne : q ≠ c := fun heq => hfresh i (heq ▸ hq)
    rw [Function.update_of_ne hne] at hn
    rw [Function.update_of_ne hi]
    exact h i q n hq hn

end Update

end Chancery.Core
