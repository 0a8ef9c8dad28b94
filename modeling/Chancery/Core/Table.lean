/-
Database tables as lists of rows in primary-key order.

A `Table key` carries the proof that its rows are strictly sorted by `key`, so two rows of one table are never confused
and a query "ORDER BY id" is the list itself. The operations are the ones an ORM session performs: look a row up by its
key, insert a row under a fresh key (SQLite's rule for an INTEGER PRIMARY KEY without AUTOINCREMENT: one more than the
largest key in the table, 1 in an empty table), rewrite rows without touching their keys, delete rows.
Nothing here knows the repository.
-/
import Mathlib.Tactic

namespace Chancery.Core

/-- rows sorted by their integer primary key -/
structure Table {α : Type*} (key : α → ℤ) where
  rows : List α
  sorted : rows.Pairwise (fun a b => key a < key b)

namespace Table

variable {α : Type*} {key : α → ℤ}

instance : Membership α (Table key) := ⟨fun t a => a ∈ t.rows⟩

theorem mem_def {t : Table key} {a : α} : a ∈ t ↔ a ∈ t.rows := Iff.rfl

instance instDecidableMem [DecidableEq α] (a : α) (t : Table key) : Decidable (a ∈ t) :=
  inferInstanceAs (Decidable (a ∈ t.rows))

instance instDecidableExists (t : Table key) (p : α → Prop) [DecidablePred p] : Decidable (∃ a ∈ t, p a) :=
  inferInstanceAs (Decidable (∃ a ∈ t.rows, p a))

instance instDecidableForall (t : Table key) (p : α → Prop) [DecidablePred p] : Decidable (∀ a ∈ t, p a) :=
  inferInstanceAs (Decidable (∀ a ∈ t.rows, p a))

@[ext] theorem ext {t u : Table key} (h : t.rows = u.rows) : t = u := by
  cases t; cases u; cases h; rfl

def empty : Table key := ⟨[], .nil⟩

@[simp] theorem rows_empty : (empty : Table key).rows = [] := rfl

@[simp] theorem not_mem_empty (a : α) : a ∉ (empty : Table key) := by simp [mem_def]

/-- the key identifies the row -/
theorem eq_of_key {t : Table key} {a b : α} (ha : a ∈ t) (hb : b ∈ t) (h : key a = key b) : a = b := by
  obtain ⟨l, hs⟩ := t
  induction hs with
  | nil => cases ha
  | cons hlt _ ih =>
    rcases List.mem_cons.1 ha with rfl | ha' <;> rcases List.mem_cons.1 hb with rfl | hb'
    · rfl
    · exact absurd h (hlt _ hb').ne
    · exact absurd h.symm (hlt _ ha').ne
    · exact ih ha' hb'

theorem nodup_keys (t : Table key) : (t.rows.map key).Nodup :=
  (List.pairwise_map.2 t.sorted).imp fun h => h.ne

theorem nodup (t : Table key) : t.rows.Nodup := t.nodup_keys.of_map

/-! ## Lookup -/

/-- the row with this key -/
def get? (t : Table key) (k : ℤ) : Option α := t.rows.find? fun a => key a == k

theorem get?_eq_some {t : Table key} {k : ℤ} {a : α} : t.get? k = some a ↔ a ∈ t ∧ key a = k := by
  constructor
  · intro h
    exact ⟨List.mem_of_find?_eq_some h, by simpa using List.find?_some h⟩
  · rintro ⟨ha, rfl⟩
    cases hf : t.get? (key a) with
    | none => exact absurd (List.find?_eq_none.1 hf a ha) (by simp)
    | some b =>
      have hb : key b = key a := by simpa using List.find?_some hf
      rw [eq_of_key (List.mem_of_find?_eq_some hf) ha hb]

theorem get?_eq_none {t : Table key} {k : ℤ} : t.get? k = none ↔ ∀ a ∈ t, key a ≠ k := by
  simp [get?, List.find?_eq_none, mem_def]

theorem get?_key {t : Table key} {a : α} (ha : a ∈ t) : t.get? (key a) = some a := get?_eq_some.2 ⟨ha, rfl⟩

theorem key_of_get? {t : Table key} {k : ℤ} {a : α} (h : t.get? k = some a) : key a = k := (get?_eq_some.1 h).2

theorem mem_of_get? {t : Table key} {k : ℤ} {a : α} (h : t.get? k = some a) : a ∈ t := (get?_eq_some.1 h).1

/-! ## Insertion -/

/-- the key SQLite gives the next inserted row -/
def nextKey (t : Table key) : ℤ :=
  match t.rows.getLast? with
  | none => 1
  | some a => key a + 1

theorem key_lt_nextKey {t : Table key} {a : α} (ha : a ∈ t) : key a < t.nextKey := by
  obtain ⟨l, hs⟩ := t
  simp only [nextKey, mem_def] at *
  cases hl : l.getLast? with
  | none => simp [List.getLast?_eq_none_iff.1 hl] at ha
  | some b =>
    obtain ⟨init, rfl⟩ := List.getLast?_eq_some_iff.1 hl
    rcases List.mem_append.1 ha with h | h
    · have := (List.pairwise_append.1 hs).2.2 a h b (by simp)
      show key a < key b + 1
      omega
    · rw [List.mem_singleton.1 h]; exact lt_add_one _

theorem get?_nextKey (t : Table key) : t.get? t.nextKey = none :=
  get?_eq_none.2 fun _ ha => (key_lt_nextKey ha).ne

/-- insert the row `mk` builds around its fresh key -/
def insert (t : Table key) (mk : ℤ → α) (hmk : ∀ k, key (mk k) = k := by as_aux_lemma => intro; rfl) : Table key :=
  ⟨t.rows ++ [mk t.nextKey], List.pairwise_append.2 ⟨t.sorted, by simp, by
    rintro a ha b hb
    rw [List.mem_singleton.1 hb, hmk]
    exact key_lt_nextKey ha⟩⟩

section Insert

variable {t : Table key} {mk : ℤ → α} {hmk : ∀ k, key (mk k) = k}

@[simp] theorem rows_insert : (t.insert mk hmk).rows = t.rows ++ [mk t.nextKey] := rfl

@[simp] theorem mem_insert {a : α} : a ∈ t.insert mk hmk ↔ a ∈ t ∨ a = mk t.nextKey := by simp [mem_def]

theorem get?_insert (k : ℤ) :
    (t.insert mk hmk).get? k = if k = t.nextKey then some (mk t.nextKey) else t.get? k := by
  split_ifs with h
  · exact get?_eq_some.2 ⟨mem_insert.2 (Or.inr rfl), by rw [hmk, h]⟩
  · simp only [get?, rows_insert, List.find?_append, List.find?_singleton, hmk]
    simp [Ne.symm h]

/-- rows present before the insertion are found as before -/
theorem get?_insert_of_some {k : ℤ} {a : α} (h : t.get? k = some a) : (t.insert mk hmk).get? k = some a := by
  rw [get?_insert, if_neg, h]
  rintro rfl
  rw [get?_nextKey] at h
  cases h

end Insert

/-- put a row where its key belongs, over a row that has the key already -/
def place (t : Table key) (a : α) : Table key :=
  ⟨t.rows.filter (key · < key a) ++ a :: t.rows.filter (key a < key ·), by
    refine List.pairwise_append.2 ⟨t.sorted.filter _, List.pairwise_cons.2 ⟨?_, t.sorted.filter _⟩, ?_⟩
    · intro b hb
      simpa using List.of_mem_filter hb
    · intro b hb c hc
      have hlt : key b < key a := by simpa using List.of_mem_filter hb
      rcases List.mem_cons.1 hc with rfl | hc
      · exact hlt
      · have hgt : key a < key c := by simpa using List.of_mem_filter hc
        exact hlt.trans hgt⟩

theorem mem_place {t : Table key} {a b : α} : b ∈ t.place a ↔ b = a ∨ (b ∈ t ∧ key b ≠ key a) := by
  simp only [mem_def, place, List.mem_append, List.mem_cons, List.mem_filter, decide_eq_true_eq]
  constructor
  · rintro (⟨hb, hlt⟩ | rfl | ⟨hb, hlt⟩)
    · exact Or.inr ⟨hb, hlt.ne⟩
    · exact Or.inl rfl
    · exact Or.inr ⟨hb, hlt.ne'⟩
  · rintro (rfl | ⟨hb, hne⟩)
    · exact Or.inr (Or.inl rfl)
    · rcases lt_or_gt_of_ne hne with hlt | hgt
      · exact Or.inl ⟨hb, hlt⟩
      · exact Or.inr (Or.inr ⟨hb, hgt⟩)

/-! ## Rewriting and deleting -/

/-- rewrite every row, keeping its key -/
def mapRows (t : Table key) (f : α → α) (hf : ∀ a, key (f a) = key a := by as_aux_lemma => intro; rfl) : Table key :=
  ⟨t.rows.map f, List.pairwise_map.2 (t.sorted.imp fun h => by simpa only [hf] using h)⟩

/-- rewrite the row with key `k` -/
def update (t : Table key) (k : ℤ) (f : α → α) (hf : ∀ a, key (f a) = key a := by as_aux_lemma => intro; rfl) : Table key :=
  t.mapRows (fun a => if key a = k then f a else a) (by intro a; split_ifs <;> simp [hf])

/-- delete the rows that fail `p` -/
def filter (t : Table key) (p : α → Bool) : Table key := ⟨t.rows.filter p, t.sorted.filter p⟩

section Rewrite

variable {t : Table key} {f : α → α} {hf : ∀ a, key (f a) = key a} {k k' : ℤ}

@[simp] theorem rows_mapRows : (t.mapRows f hf).rows = t.rows.map f := rfl

@[simp] theorem mem_mapRows {b : α} : b ∈ t.mapRows f hf ↔ ∃ a ∈ t, f a = b := by simp [mem_def]

theorem get?_mapRows : (t.mapRows f hf).get? k = (t.get? k).map f := by
  simp only [get?, rows_mapRows, List.find?_map, Function.comp_def, hf]

theorem rows_update :
    (t.update k f hf).rows = t.rows.map (fun a => if key a = k then f a else a) := rfl

theorem mem_update {b : α} : b ∈ t.update k f hf ↔ ∃ a ∈ t, (if key a = k then f a else a) = b := by
  simp [update]

theorem get?_update : (t.update k f hf).get? k' = if k' = k then (t.get? k').map f else t.get? k' := by
  rw [update, get?_mapRows]
  cases h : t.get? k' with
  | none => simp
  | some a => simp only [Option.map_some, key_of_get? h]; split_ifs <;> rfl

@[simp] theorem get?_update_self : (t.update k f hf).get? k = (t.get? k).map f := by simp [get?_update]

theorem get?_update_of_ne (h : k' ≠ k) : (t.update k f hf).get? k' = t.get? k' := by simp [get?_update, h]

/-- a row other than the rewritten one is still there -/
theorem mem_update_of_ne {a : α} (ha : a ∈ t) (hk : key a ≠ k) : a ∈ t.update k f hf :=
  mem_update.2 ⟨a, ha, by simp [hk]⟩

theorem mem_update_self {a : α} (ha : a ∈ t) : f a ∈ t.update (key a) f hf :=
  mem_update.2 ⟨a, ha, by simp⟩

theorem getLast?_map_key : (t.mapRows f hf).rows.getLast?.map key = t.rows.getLast?.map key := by
  simp [List.getLast?_map, Function.comp_def, hf]

theorem nextKey_eq : t.nextKey = ((t.rows.getLast?.map key).map (· + 1)).getD 1 := by
  unfold nextKey; cases t.rows.getLast? <;> rfl

@[simp] theorem nextKey_mapRows : (t.mapRows f hf).nextKey = t.nextKey := by
  rw [nextKey_eq, nextKey_eq, getLast?_map_key]

@[simp] theorem nextKey_update : (t.update k f hf).nextKey = t.nextKey := by simp [update]

@[simp] theorem rows_filter {p : α → Bool} : (t.filter p).rows = t.rows.filter p := rfl

@[simp] theorem mem_filter {p : α → Bool} {a : α} : a ∈ t.filter p ↔ a ∈ t ∧ p a = true := by simp [mem_def]

end Rewrite

/-! ## Tables that change row by row -/

/-- the rows are those of `t`, each changed within `R` -/
def Evolves (R : α → α → Prop) (t u : Table key) : Prop := List.Forall₂ R t.rows u.rows

section Evolves

variable {R : α → α → Prop} {t u v : Table key}

theorem Evolves.refl (hR : ∀ a, R a a) (t : Table key) : t.Evolves R t := List.forall₂_same.2 fun a _ => hR a

theorem Evolves.trans (hR : ∀ a b c, R a b → R b c → R a c) (h : t.Evolves R u) (h' : u.Evolves R v) : t.Evolves R v := by
  unfold Evolves at h h' ⊢
  generalize t.rows = l at h ⊢
  generalize u.rows = m at h h'
  generalize v.rows = n at h' ⊢
  induction h generalizing n with
  | nil => exact h'
  | @cons a b l m hab _ ih =>
    cases h' with
    | @cons _ c _ n hbc h' => exact .cons (hR a b c hab hbc) (ih n h')

theorem evolves_mapRows {f : α → α} {hf : ∀ a, key (f a) = key a} (h : ∀ a, R a (f a)) : t.Evolves R (t.mapRows f hf) :=
  List.forall₂_map_right_iff.2 (List.forall₂_same.2 fun a _ => h a)

theorem evolves_update {k : ℤ} {f : α → α} {hf : ∀ a, key (f a) = key a} (hR : ∀ a, R a a) (h : ∀ a, R a (f a)) :
    t.Evolves R (t.update k f hf) := by
  refine evolves_mapRows fun a => ?_
  by_cases ha : key a = k
  · rw [if_pos ha]
    exact h a
  · rw [if_neg ha]
    exact hR a

/-- a test that a change does not affect finds a row and what has become of it -/
theorem Evolves.find? {p : α → Bool} (hp : ∀ a b, R a b → p b = p a) (h : t.Evolves R u) :
    Option.Rel R (t.rows.find? p) (u.rows.find? p) := by
  unfold Evolves at h
  generalize t.rows = l at h ⊢
  generalize u.rows = m at h ⊢
  induction h with
  | nil => exact .none
  | @cons a b l m hab _ ih =>
    rw [List.find?_cons, List.find?_cons, hp a b hab]
    cases p a with
    | true => exact .some hab
    | false => exact ih

theorem Evolves.get? {k : ℤ} (hkey : ∀ a b, R a b → key b = key a) (h : t.Evolves R u) :
    Option.Rel R (t.get? k) (u.get? k) := by
  refine h.find? fun a b hab => ?_
  rw [hkey a b hab]

/-- rows that change further, each within `S` -/
theorem Evolves.update_right {S : α → α → Prop} {k : ℤ} {f : α → α} {hf : ∀ a, key (f a) = key a} (h : t.Evolves R u)
    (hS : ∀ a ∈ t, ∀ b ∈ u, R a b → S a (if key b = k then f b else b)) : t.Evolves S (u.update k f hf) := by
  refine List.forall₂_map_right_iff.2 ?_
  change ∀ a ∈ t.rows, ∀ b ∈ u.rows, R a b → S a (if key b = k then f b else b) at hS
  unfold Evolves at h
  generalize t.rows = l at h hS ⊢
  generalize u.rows = m at h hS ⊢
  induction h with
  | nil => exact .nil
  | @cons a b l m hab _ ih =>
    refine .cons (hS a List.mem_cons_self b List.mem_cons_self hab) (ih fun a ha b hb => ?_)
    exact hS a (List.mem_cons_of_mem _ ha) b (List.mem_cons_of_mem _ hb)

theorem Evolves.imp {S : α → α → Prop} (h : t.Evolves R u) (hS : ∀ a b, R a b → S a b) : t.Evolves S u :=
  List.Forall₂.imp hS h

end Evolves

end Table

end Chancery.Core
