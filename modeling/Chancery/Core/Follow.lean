/-
Following a pointer from node to node, each node once.

`follow` goes from a node to the next one until there is none or its key was met before. The loop runs on fuel; on nodes
whose keys lie in a list, more turns than keys are enough (`follow_isSome`). The list it makes starts where it started
(`follow_head?`), has no key twice (`nodup_follow`), every node in it is followed by its next one (`isChain_follow`), and it
has exactly the nodes that are reached (`mem_follow`). Nothing here knows the repository.
-/
import Mathlib.Tactic

namespace Chancery.Core

variable {α κ : Type*} [DecidableEq κ] {key : α → κ} {next : α → Option α}

/-- the nodes from `current` on, up to the first whose key was seen -/
def follow (key : α → κ) (next : α → Option α) : ℕ → List κ → Option α → Option (List α)
  | _, _, none => some []
  | 0, _, some _ => none
  | n + 1, seen, some current =>
    if key current ∈ seen then some [] else (follow key next n (key current :: seen) (next current)).map (current :: ·)

/-- one node leads to another -/
def LeadsTo (next : α → Option α) : α → α → Prop := Relation.ReflTransGen fun a b => next a = some b

/-- **Induction over the turns.** There is no node, its key was seen, or it is met and the next one is followed. -/
theorem follow_induction {P : List κ → Option α → List α → Prop} (hnone : ∀ seen, P seen none [])
    (hseen : ∀ seen a, key a ∈ seen → P seen (some a) [])
    (hmet : ∀ seen a rest, key a ∉ seen → P (key a :: seen) (next a) rest → P seen (some a) (a :: rest)) {n : ℕ}
    {seen : List κ} {a? : Option α} {l : List α} (h : follow key next n seen a? = some l) : P seen a? l := by
  induction n generalizing seen a? l with
  | zero =>
    cases a? with
    | none =>
      cases h
      exact hnone seen
    | some a => cases h
  | succ n ih =>
    cases a? with
    | none =>
      cases h
      exact hnone seen
    | some a =>
      unfold follow at h
      by_cases hin : key a ∈ seen
      · rw [if_pos hin] at h
        cases h
        exact hseen seen a hin
      · rw [if_neg hin] at h
        obtain ⟨rest, hrest, rfl⟩ := Option.map_eq_some_iff.1 h
        exact hmet seen a rest hin (ih hrest)

/-- more turns than unseen keys are enough -/
theorem follow_isSome {keys : List κ} (hnext : ∀ a b, next a = some b → key b ∈ keys) {n : ℕ} {seen : List κ}
    {a? : Option α} (ha : ∀ a, a? = some a → key a ∈ keys) (hn : (keys.filter (· ∉ seen)).length < n) :
    (follow key next n seen a?).isSome := by
  induction n generalizing seen a? with
  | zero => exact absurd hn (Nat.not_lt_zero _)
  | succ n ih =>
    cases a? with
    | none => rfl
    | some a =>
      unfold follow
      by_cases hseen : key a ∈ seen
      · rw [if_pos hseen]
        rfl
      · rw [if_neg hseen, Option.isSome_map]
        refine ih (hnext a) (lt_of_lt_of_le ?_ (Nat.lt_succ_iff.1 hn))
        -- the key of the current node is no longer unseen
        have hsub : (keys.filter (· ∉ key a :: seen)).Sublist (keys.filter (· ∉ seen)) := by
          apply List.monotone_filter_right
          intro k hk
          simp only [decide_eq_true_eq, List.mem_cons, not_or] at hk ⊢
          exact hk.2
        refine lt_of_le_of_ne hsub.length_le fun heq => ?_
        have hmem : key a ∈ keys.filter (· ∉ seen) := List.mem_filter.2 ⟨ha a rfl, by simpa using hseen⟩
        rw [← hsub.eq_of_length heq] at hmem
        simpa using (List.mem_filter.1 hmem).2

/-- the list starts with the first node, unless that was seen -/
theorem follow_start {n : ℕ} {seen : List κ} {a? : Option α} {l : List α} (h : follow key next n seen a? = some l) :
    ∀ a, a? = some a → key a ∈ seen ∨ l.head? = some a :=
  follow_induction (P := fun seen a? l => ∀ a, a? = some a → key a ∈ seen ∨ l.head? = some a) (fun _ _ ha => nomatch ha)
    (fun _ _ hin _ ha => .inl (Option.some.inj ha ▸ hin)) (fun _ _ _ _ _ _ ha => .inr ha) h

theorem follow_head? {n : ℕ} {a : α} {l : List α} (h : follow key next n [] (some a) = some l) : l.head? = some a :=
  (follow_start h a rfl).resolve_left List.not_mem_nil

/-- what is met was not seen, and is reached -/
theorem of_mem_follow {n : ℕ} {seen : List κ} {a? : Option α} {l : List α} (h : follow key next n seen a? = some l) :
    ∀ b ∈ l, key b ∉ seen ∧ ∃ a, a? = some a ∧ LeadsTo next a b := by
  refine follow_induction (P := fun seen a? l => ∀ b ∈ l, key b ∉ seen ∧ ∃ a, a? = some a ∧ LeadsTo next a b) ?_ ?_ ?_ h
  · exact fun _ b hb => absurd hb List.not_mem_nil
  · exact fun _ _ _ b hb => absurd hb List.not_mem_nil
  · intro seen a rest hseen ih b hb
    rcases List.mem_cons.1 hb with rfl | hb
    · exact ⟨hseen, b, rfl, .refl⟩
    · obtain ⟨hne, c, hc, hreach⟩ := ih b hb
      exact ⟨fun hin => hne (List.mem_cons_of_mem _ hin), a, rfl, .head hc hreach⟩

theorem nodup_follow {n : ℕ} {seen : List κ} {a? : Option α} {l : List α} (h : follow key next n seen a? = some l) :
    (l.map key).Nodup := by
  have hall : (l.map key).Nodup ∧ ∀ b ∈ l, key b ∉ seen := by
    refine follow_induction (P := fun seen _ l => (l.map key).Nodup ∧ ∀ b ∈ l, key b ∉ seen) ?_ ?_ ?_ h
    · exact fun _ => ⟨List.nodup_nil, fun b hb => absurd hb List.not_mem_nil⟩
    · exact fun _ _ _ => ⟨List.nodup_nil, fun b hb => absurd hb List.not_mem_nil⟩
    · rintro seen a rest hseen ⟨hnodup, hne⟩
      refine ⟨?_, fun b hb => ?_⟩
      · rw [List.map_cons, List.nodup_cons]
        refine ⟨fun hin => ?_, hnodup⟩
        obtain ⟨b, hb, hkey⟩ := List.mem_map.1 hin
        exact hne b hb (hkey ▸ List.mem_cons_self)
      · rcases List.mem_cons.1 hb with rfl | hb
        · exact hseen
        · exact fun hin => hne b hb (List.mem_cons_of_mem _ hin)
  exact hall.1

theorem isChain_follow {n : ℕ} {seen : List κ} {a? : Option α} {l : List α} (h : follow key next n seen a? = some l) :
    l.IsChain fun a b => next a = some b := by
  have hall : (l.IsChain fun a b => next a = some b) ∧ ∀ b ∈ l.head?, a? = some b := by
    refine follow_induction (P := fun _ a? l => (l.IsChain fun a b => next a = some b) ∧ ∀ b ∈ l.head?, a? = some b)
      ?_ ?_ ?_ h
    · exact fun _ => ⟨.nil, nofun⟩
    · exact fun _ _ _ => ⟨.nil, nofun⟩
    · rintro seen a rest - ⟨hchain, hhead⟩
      exact ⟨List.isChain_cons.2 ⟨hhead, hchain⟩, fun b hb => hb⟩
  exact hall.1

/-- the next node of one that is met was seen, or is met -/
theorem follow_closed {n : ℕ} {seen : List κ} {a? : Option α} {l : List α} (h : follow key next n seen a? = some l) :
    ∀ b ∈ l, ∀ c, next b = some c → key c ∈ seen ∨ key c ∈ l.map key := by
  have hall : (∀ a, a? = some a → key a ∈ seen ∨ key a ∈ l.map key) ∧
      ∀ b ∈ l, ∀ c, next b = some c → key c ∈ seen ∨ key c ∈ l.map key := by
    refine follow_induction (P := fun seen a? l => (∀ a, a? = some a → key a ∈ seen ∨ key a ∈ l.map key) ∧
      ∀ b ∈ l, ∀ c, next b = some c → key c ∈ seen ∨ key c ∈ l.map key) ?_ ?_ ?_ h
    · exact fun _ => ⟨nofun, fun b hb => absurd hb List.not_mem_nil⟩
    · exact fun _ _ hin => ⟨fun _ ha => .inl (Option.some.inj ha ▸ hin), fun b hb => absurd hb List.not_mem_nil⟩
    · rintro seen a rest - ⟨hnext, hrest⟩
      have hmet : ∀ k, k ∈ key a :: seen ∨ k ∈ rest.map key → k ∈ seen ∨ k ∈ (a :: rest).map key := by
        intro k hk
        simp only [List.mem_cons, List.map_cons] at hk ⊢
        tauto
      refine ⟨fun b hb => .inr ?_, fun b hb c hc => hmet _ ?_⟩
      · rw [← Option.some.inj hb]
        exact List.mem_cons_self
      · rcases List.mem_cons.1 hb with rfl | hb
        · exact hnext c hc
        · exact hrest b hb c hc
  exact hall.2

/-- **What is met.** Where a key has one node, the list has exactly the nodes that are reached. -/
theorem mem_follow {n : ℕ} {a : α} {l : List α} (h : follow key next n [] (some a) = some l)
    (hkey : ∀ b c, LeadsTo next a b → LeadsTo next a c → key b = key c → b = c) {b : α} : b ∈ l ↔ LeadsTo next a b := by
  have hreached : ∀ c ∈ l, LeadsTo next a c := by
    intro c hc
    obtain ⟨_, a', ha', hreach⟩ := of_mem_follow h c hc
    rwa [Option.some.inj ha']
  refine ⟨hreached b, fun hreach => ?_⟩
  induction hreach with
  | refl => exact List.mem_of_mem_head? (follow_head? h)
  | @tail b c hab hbc ih =>
    rcases follow_closed h b ih c hbc with hseen | hin
    · exact absurd hseen List.not_mem_nil
    · obtain ⟨c', hc', hsame⟩ := List.mem_map.1 hin
      rwa [← hkey c' c (hreached c' hc') (hab.tail hbc) hsame]

/-- two ways to go on that agree where the walk does not stop get to the same nodes, up to a stop both get to -/
theorem LeadsTo.or_stop {next' : α → Option α} {stop : α → Prop} {a b : α} (h : LeadsTo next a b)
    (hagree : ∀ a, ¬stop a → next a = next' a) : (∃ c, stop c ∧ LeadsTo next a c ∧ LeadsTo next' a c) ∨
      LeadsTo next' a b := by
  induction h with
  | refl => exact .inr .refl
  | @tail b c hab hbc ih =>
    rcases ih with hstop | hreach
    · exact .inl hstop
    · by_cases hb : stop b
      · exact .inl ⟨b, hb, hab, hreach⟩
      · exact .inr (hreach.tail ((hagree b hb).symm.trans hbc))

/-- a list whose steps are good when their ends are is good when all its elements but the first are -/
theorem isChain_iff_tail {R Q : α → α → Prop} {P : α → Prop} (hstep : ∀ a b, R a b → (Q a b ↔ P b)) {l : List α}
    (h : l.IsChain R) : l.IsChain Q ↔ ∀ b ∈ l.tail, P b := by
  induction h with
  | nil => simp
  | singleton a => simp
  | @cons_cons a b l hab _ ih =>
    rw [List.isChain_cons_cons, hstep a b hab, ih, List.tail_cons, List.tail_cons, List.forall_mem_cons]

end Chancery.Core
