/-
Marking a subtree depth first.

A `Marking` is a state whose nodes have children and may be marked. `visit` marks a node and then visits, one after the
other, its children that are not marked yet; `collect` lists a node and, the same way, its marked descendants. Both take
fuel and run out of it as a recursion does. What a visit does is said once (`visit_swept`): it marks the nodes of a list
that holds the start, only unmarked nodes, only nodes reached through the list, and with a node every child it has that
was not marked. Enough fuel for a visit is the number of unmarked nodes (`visit_isSome`), whatever the shape of the graph;
`collect` needs a forest (`collect_isSome`). Nothing here knows the repository.
-/
import Mathlib.Tactic

namespace Chancery.Core

open Relation

variable {σ ι : Type*}

structure Marking (σ ι : Type*) where
  children : σ → ι → List ι
  marked : σ → ι → Bool
  mark : σ → ι → σ

namespace Marking

variable (M : Marking σ ι)

/-- a mark changes no child, and marks one node -/
structure Lawful : Prop where
  children_mark : ∀ s i j, M.children (M.mark s i) j = M.children s j
  marked_mark : ∀ s i j, M.marked (M.mark s i) j = true ↔ j = i ∨ M.marked s j = true

/-- the loop over the children -/
def visitAll (v : σ → ι → Option σ) : σ → List ι → Option σ
  | s, [] => some s
  | s, j :: js => (if M.marked s j then some s else v s j).bind fun s' => visitAll v s' js

def visit : ℕ → σ → ι → Option σ
  | 0, _, _ => none
  | n + 1, s, i => M.visitAll (visit n) (M.mark s i) (M.children (M.mark s i) i)

def marks (s : σ) (l : List ι) : σ := l.foldl M.mark s

/-- `a` has the child `b`, and `b` is in the list -/
def Into (s : σ) (l : List ι) (a b : ι) : Prop := b ∈ M.children s a ∧ b ∈ l

/-- what a visit started on the nodes `js` marks -/
structure Swept (s : σ) (js l : List ι) : Prop where
  covers : ∀ j ∈ js, M.marked s j = true ∨ j ∈ l
  fresh : ∀ j ∈ l, M.marked s j = false
  reached : ∀ j ∈ l, ∃ i ∈ js, i ∈ l ∧ ReflTransGen (M.Into s l) i j
  closed : ∀ j ∈ l, ∀ c ∈ M.children s j, M.marked s c = true ∨ c ∈ l

variable {M} {s s' : σ} {i j : ι} {l l' js : List ι}

namespace Lawful

variable (hM : M.Lawful)
include hM

theorem children_marks (s : σ) (l : List ι) (j : ι) : M.children (M.marks s l) j = M.children s j := by
  induction l generalizing s with
  | nil => rfl
  | cons i l ih => exact (ih (M.mark s i)).trans (hM.children_mark s i j)

theorem marked_marks (s : σ) (l : List ι) (j : ι) : M.marked (M.marks s l) j = true ↔ j ∈ l ∨ M.marked s j = true := by
  induction l generalizing s with
  | nil => simp [marks]
  | cons i l ih =>
    have hstep : M.marked (M.marks (M.mark s i) l) j = true ↔ j ∈ l ∨ j = i ∨ M.marked s j = true :=
      (ih (M.mark s i)).trans (or_congr_right (hM.marked_mark s i j))
    refine hstep.trans ?_
    rw [List.mem_cons, ← or_assoc, or_comm (a := j ∈ l)]

theorem marked_marks_false : M.marked (M.marks s l) j = false ↔ j ∉ l ∧ M.marked s j = false := by
  have h := hM.marked_marks s l j
  rw [← Bool.not_eq_true, h, not_or, Bool.not_eq_true]

/-- the steps of a walk do not depend on the marks -/
theorem into_marks : M.Into (M.marks s l) l' = M.Into s l' := by
  funext a b
  exact congrArg (fun cs => b ∈ cs ∧ b ∈ l') (hM.children_marks s l a)

end Lawful

theorem walk_mono (h : ∀ a ∈ l, a ∈ l') (hwalk : ReflTransGen (M.Into s l) i j) : ReflTransGen (M.Into s l') i j := by
  refine hwalk.lift id fun a b hab => ?_
  exact ⟨hab.1, h b hab.2⟩

theorem marks_append (s : σ) (l l' : List ι) : M.marks s (l ++ l') = M.marks (M.marks s l) l' := List.foldl_append ..

theorem Swept.nil : M.Swept s [] [] := by
  constructor <;> simp

/-- nothing to do for a marked node -/
theorem Swept.skip (h : M.Swept s js l) (hi : M.marked s i = true) : M.Swept s (i :: js) l where
  covers := by
    intro j hj
    rcases List.mem_cons.1 hj with rfl | hj
    · exact Or.inl hi
    · exact h.covers j hj
  fresh := h.fresh
  reached := by
    intro j hj
    obtain ⟨a, ha, hal, hwalk⟩ := h.reached j hj
    exact ⟨a, List.mem_cons_of_mem _ ha, hal, hwalk⟩
  closed := h.closed

/-- one visit after the other -/
theorem Swept.append (hM : M.Lawful) (h : M.Swept s [i] l) (h' : M.Swept (M.marks s l) js l') :
    M.Swept s (i :: js) (l ++ l') where
  covers := by
    intro j hj
    rcases List.mem_cons.1 hj with rfl | hj
    · exact (h.covers _ (by simp)).imp_right (List.mem_append_left _)
    · rcases h'.covers j hj with hm | hl
      · rcases (hM.marked_marks s l j).1 hm with hl | hm
        · exact Or.inr (List.mem_append_left _ hl)
        · exact Or.inl hm
      · exact Or.inr (List.mem_append_right _ hl)
  fresh := by
    intro j hj
    rcases List.mem_append.1 hj with hj | hj
    · exact h.fresh j hj
    · exact (hM.marked_marks_false.1 (h'.fresh j hj)).2
  reached := by
    intro j hj
    rcases List.mem_append.1 hj with hj | hj
    · obtain ⟨a, ha, hal, hwalk⟩ := h.reached j hj
      refine ⟨a, ?_, List.mem_append_left _ hal, walk_mono (fun _ => List.mem_append_left _) hwalk⟩
      rw [List.mem_singleton.1 ha]
      exact List.mem_cons_self
    · obtain ⟨a, ha, hal, hwalk⟩ := h'.reached j hj
      rw [hM.into_marks] at hwalk
      exact ⟨a, List.mem_cons_of_mem _ ha, List.mem_append_right _ hal,
        walk_mono (fun _ => List.mem_append_right _) hwalk⟩
  closed := by
    intro j hj c hc
    rcases List.mem_append.1 hj with hj | hj
    · exact (h.closed j hj c hc).imp_right (List.mem_append_left _)
    · rcases h'.closed j hj c (by rwa [hM.children_marks]) with hm | hl
      · rcases (hM.marked_marks s l c).1 hm with hl | hm
        · exact Or.inr (List.mem_append_left _ hl)
        · exact Or.inl hm
      · exact Or.inr (List.mem_append_right _ hl)

/-- a node, and then its children -/
theorem Swept.node (hM : M.Lawful) (hi : M.marked s i = false) (h : M.Swept (M.mark s i) (M.children s i) l) :
    M.Swept s [i] (i :: l) where
  covers := by simp
  fresh := by
    intro j hj
    rcases List.mem_cons.1 hj with rfl | hj
    · exact hi
    · have hfresh : M.marked (M.marks s [i]) j = false := h.fresh j hj
      exact (hM.marked_marks_false.1 hfresh).2
  reached := by
    intro j hj
    refine ⟨i, by simp, List.mem_cons_self, ?_⟩
    rcases List.mem_cons.1 hj with rfl | hj
    · exact .refl
    · obtain ⟨a, ha, hal, hwalk⟩ := h.reached j hj
      have hinto : M.Into (M.mark s i) l = M.Into s l := hM.into_marks (s := s) (l := [i])
      rw [hinto] at hwalk
      have hfirst : M.Into s (i :: l) i a := ⟨ha, List.mem_cons_of_mem _ hal⟩
      exact .head hfirst (walk_mono (fun _ => List.mem_cons_of_mem _) hwalk)
  closed := by
    have hmarked : ∀ c, M.marked (M.mark s i) c = true ∨ c ∈ l → M.marked s c = true ∨ c ∈ i :: l := by
      rintro c (hm | hl)
      · rcases (hM.marked_mark s i c).1 hm with rfl | hm
        · exact Or.inr List.mem_cons_self
        · exact Or.inl hm
      · exact Or.inr (List.mem_cons_of_mem _ hl)
    intro j hj c hc
    rcases List.mem_cons.1 hj with rfl | hj
    · exact hmarked c (h.covers c hc)
    · exact hmarked c (h.closed j hj c (by rwa [hM.children_mark]))

/-- the loop over the children sweeps them, when the visit of one node does -/
theorem visitAll_swept (hM : M.Lawful) {v : σ → ι → Option σ}
    (hv : ∀ s s' i, M.marked s i = false → v s i = some s' → ∃ l, s' = M.marks s l ∧ M.Swept s [i] l)
    (h : M.visitAll v s js = some s') : ∃ l, s' = M.marks s l ∧ M.Swept s js l := by
  induction js generalizing s with
  | nil => exact ⟨[], (Option.some.inj h).symm, Swept.nil⟩
  | cons i js ih =>
    rw [visitAll] at h
    by_cases hi : M.marked s i = true
    · rw [if_pos hi] at h
      obtain ⟨l, hl, hswept⟩ := ih h
      exact ⟨l, hl, hswept.skip hi⟩
    · rw [if_neg hi] at h
      obtain ⟨s1, hs1, hrest⟩ := Option.bind_eq_some_iff.1 h
      obtain ⟨l, rfl, hl⟩ := hv s s1 i (by simpa using hi) hs1
      obtain ⟨l', hl', hrest'⟩ := ih hrest
      exact ⟨l ++ l', hl'.trans (marks_append s l l').symm, hl.append hM hrest'⟩

/-- **What a visit does.** It marks the nodes of a list. -/
theorem visit_swept (hM : M.Lawful) {n : ℕ} (hi : M.marked s i = false) (h : M.visit n s i = some s') :
    ∃ l, s' = M.marks s l ∧ M.Swept s [i] l := by
  induction n generalizing s s' i with
  | zero => cases h
  | succ n ih =>
    rw [visit, hM.children_mark] at h
    obtain ⟨l, hl, hswept⟩ := visitAll_swept hM (fun s s' i hi hv => ih hi hv) h
    exact ⟨i :: l, hl, Swept.node hM hi hswept⟩

/-! ## Fuel -/

/-- the unmarked nodes of a universe -/
def unmarked (M : Marking σ ι) (nodes : List ι) (s : σ) : List ι := nodes.filter fun j => !M.marked s j

theorem length_unmarked_marks_le (hM : M.Lawful) (nodes : List ι) (s : σ) (l : List ι) :
    (M.unmarked nodes (M.marks s l)).length ≤ (M.unmarked nodes s).length := by
  refine (List.monotone_filter_right nodes fun j hj => ?_).length_le
  have hfree : M.marked (M.marks s l) j = false := by simpa using hj
  simpa using (hM.marked_marks_false.1 hfree).2

theorem length_unmarked_mark_lt (hM : M.Lawful) {nodes : List ι} (hi : M.marked s i = false) (hmem : i ∈ nodes) :
    (M.unmarked nodes (M.mark s i)).length < (M.unmarked nodes s).length := by
  have hsub : List.Sublist (M.unmarked nodes (M.mark s i)) (M.unmarked nodes s) := by
    refine List.monotone_filter_right nodes fun j hj => ?_
    have hfree : M.marked (M.marks s [i]) j = false := by simpa [marks] using hj
    simpa using (hM.marked_marks_false.1 hfree).2
  refine lt_of_le_of_ne hsub.length_le fun heq => ?_
  have hin : i ∈ M.unmarked nodes (M.mark s i) := by
    rw [hsub.eq_of_length heq]
    exact List.mem_filter.2 ⟨hmem, by simp [hi]⟩
  have hnot := (List.mem_filter.1 hin).2
  rw [(hM.marked_mark s i i).2 (Or.inl rfl)] at hnot
  cases hnot

/-- **A visit ends**, when it has fuel for every unmarked node. -/
theorem visit_isSome (hM : M.Lawful) {nodes : List ι} {n : ℕ} (hnodes : ∀ j, ∀ c ∈ M.children s j, c ∈ nodes)
    (hmem : i ∈ nodes) (hi : M.marked s i = false) (hn : (M.unmarked nodes s).length ≤ n) :
    ∃ s', M.visit n s i = some s' := by
  induction n generalizing s i with
  | zero =>
    have hlt := length_unmarked_mark_lt hM hi hmem
    omega
  | succ n ih =>
    have hall : ∀ (js : List ι) (t : σ), (∀ j ∈ js, j ∈ nodes) → (∀ j, ∀ c ∈ M.children t j, c ∈ nodes) →
        (M.unmarked nodes t).length ≤ n → ∃ s', M.visitAll (M.visit n) t js = some s' := by
      intro js
      induction js with
      | nil => exact fun t _ _ _ => ⟨t, rfl⟩
      | cons c js ihjs =>
        intro t hjs ht hle
        rw [visitAll]
        by_cases hc : M.marked t c = true
        · rw [if_pos hc]
          exact ihjs t (fun j hj => hjs j (List.mem_cons_of_mem _ hj)) ht hle
        · rw [if_neg hc]
          have hfree : M.marked t c = false := by simpa using hc
          obtain ⟨t', ht'⟩ := ih ht (hjs c List.mem_cons_self) hfree hle
          obtain ⟨l, rfl, _⟩ := visit_swept hM hfree ht'
          rw [ht']
          refine ihjs _ (fun j hj => hjs j (List.mem_cons_of_mem _ hj)) ?_ ?_
          · intro j c hc
            exact ht j c (by rwa [hM.children_marks] at hc)
          · exact (length_unmarked_marks_le hM nodes t l).trans hle
    have hlt := length_unmarked_mark_lt hM hi hmem
    rw [visit]
    refine hall _ (M.mark s i) ?_ ?_ (by omega)
    · intro j hj
      exact hnodes i j (by rwa [hM.children_mark] at hj)
    · intro j c hc
      exact hnodes j c (by rwa [hM.children_mark] at hc)

end Marking

/-! ## Listing the marked part of a subtree -/

/-- the loop over the children, each with the list of its own subtree -/
def collectAll (p : ι → Bool) (v : ι → Option (List ι)) : List ι → Option (List ι)
  | [] => some []
  | c :: cs => if p c then (v c).bind fun l => (collectAll p v cs).map (l ++ ·) else collectAll p v cs

/-- a node and every descendant reached through nodes with `p`, depth first -/
def collect (children : ι → List ι) (p : ι → Bool) : ℕ → ι → Option (List ι)
  | 0, _ => none
  | n + 1, i => (collectAll p (collect children p n) (children i)).map (i :: ·)

variable {children : ι → List ι} {p : ι → Bool}

theorem mem_collectAll {v : ι → Option (List ι)} {cs l : List ι} (h : collectAll p v cs = some l) {j : ι} :
    j ∈ l ↔ ∃ c ∈ cs, p c = true ∧ ∃ m, v c = some m ∧ j ∈ m := by
  induction cs generalizing l with
  | nil =>
    cases h
    simp
  | cons c cs ih =>
    rw [collectAll] at h
    by_cases hc : p c = true
    · rw [if_pos hc] at h
      obtain ⟨m, hm, h⟩ := Option.bind_eq_some_iff.1 h
      obtain ⟨rest, hrest, rfl⟩ := Option.map_eq_some_iff.1 h
      simp [ih hrest, hc, hm]
    · rw [if_neg hc] at h
      simp [ih h, hc]

/-- the loop does not get past a child whose list is missing -/
theorem exists_of_collectAll {v : ι → Option (List ι)} {cs l : List ι} (h : collectAll p v cs = some l) {c : ι}
    (hc : c ∈ cs) (hp : p c = true) : ∃ m, v c = some m := by
  induction cs generalizing l with
  | nil => cases hc
  | cons d cs ih =>
    rw [collectAll] at h
    by_cases hd : p d = true
    · rw [if_pos hd] at h
      obtain ⟨m, hm, h⟩ := Option.bind_eq_some_iff.1 h
      obtain ⟨rest, hrest, _⟩ := Option.map_eq_some_iff.1 h
      rcases List.mem_cons.1 hc with rfl | hc
      · exact ⟨m, hm⟩
      · exact ih hrest hc
    · rw [if_neg hd] at h
      rcases List.mem_cons.1 hc with rfl | hc
      · exact absurd hp hd
      · exact ih h hc

/-- **What is listed:** what is reached through nodes with `p`. -/
theorem mem_collect {n : ℕ} {i : ι} {l : List ι} (h : collect children p n i = some l) {j : ι} :
    j ∈ l ↔ ReflTransGen (fun a b => b ∈ children a ∧ p b = true) i j := by
  induction n generalizing i l j with
  | zero => cases h
  | succ n ih =>
    obtain ⟨rest, hrest, rfl⟩ := Option.map_eq_some_iff.1 h
    rw [List.mem_cons, mem_collectAll hrest, ReflTransGen.cases_head_iff, eq_comm]
    refine or_congr_right ⟨?_, ?_⟩
    · rintro ⟨c, hc, hp, m, hm, hj⟩
      exact ⟨c, ⟨hc, hp⟩, (ih hm).1 hj⟩
    · rintro ⟨c, ⟨hc, hp⟩, hwalk⟩
      obtain ⟨m, hm⟩ := exists_of_collectAll hrest hc hp
      exact ⟨c, hc, hp, m, hm, (ih hm).2 hwalk⟩

/-- **Listing ends** in a forest, when it has fuel for every deeper node. -/
theorem collect_isSome {nodes : List ι} (depth : ι → ℕ) (hnodes : ∀ j, ∀ c ∈ children j, c ∈ nodes)
    (hdepth : ∀ j, ∀ c ∈ children j, depth j < depth c) {n : ℕ} {i : ι}
    (hn : (nodes.filter (depth i < depth ·)).length < n) : ∃ l, collect children p n i = some l := by
  induction n generalizing i with
  | zero => omega
  | succ n ih =>
    have hall : ∀ cs : List ι, (∀ c ∈ cs, c ∈ children i) → ∃ l, collectAll p (collect children p n) cs = some l := by
      intro cs
      induction cs with
      | nil => exact fun _ => ⟨[], rfl⟩
      | cons c cs ihcs =>
        intro hcs
        obtain ⟨rest, hrest⟩ := ihcs fun d hd => hcs d (List.mem_cons_of_mem _ hd)
        have hc := hcs c List.mem_cons_self
        have hlt : (nodes.filter (depth c < depth ·)).length < (nodes.filter (depth i < depth ·)).length := by
          have hsub : List.Sublist (nodes.filter (depth c < depth ·)) (nodes.filter (depth i < depth ·)) := by
            refine List.monotone_filter_right nodes fun j hj => ?_
            have hdeep : depth c < depth j := by simpa using hj
            simpa using (hdepth i c hc).trans hdeep
          refine lt_of_le_of_ne hsub.length_le fun heq => ?_
          have hin : c ∈ nodes.filter (depth i < depth ·) :=
            List.mem_filter.2 ⟨hnodes i c hc, by simpa using hdepth i c hc⟩
          rw [← hsub.eq_of_length heq] at hin
          simpa using (List.mem_filter.1 hin).2
        obtain ⟨m, hm⟩ := ih (show (nodes.filter (depth c < depth ·)).length < n by omega)
        rw [collectAll]
        by_cases hp : p c = true
        · rw [if_pos hp, hm, Option.bind_some, hrest]
          exact ⟨_, rfl⟩
        · rw [if_neg hp]
          exact ⟨rest, hrest⟩
    obtain ⟨l, hl⟩ := hall (children i) fun c hc => hc
    exact ⟨i :: l, by rw [collect, hl]; rfl⟩

end Chancery.Core
