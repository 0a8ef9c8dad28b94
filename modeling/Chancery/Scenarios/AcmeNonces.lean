/-
Is a replay nonce accepted at most once?

(1) However requests, new nonces and the purge are interleaved, a request only gets past with a nonce that was issued and
was not older than its lifetime when it was tested (`Sound`).

(2) If no request reads a row while another request that has read it is still on its way to the commit, no nonce lets more
requests past than it was issued times (`nonce_once`).

(3) `nonce_twice`: two requests that read the row before either deletes it both get past.
-/
import Mathlib.Tactic
import Chancery.Services.Acme.Nonces

namespace Chancery.Acme

open Chancery.Core

namespace NonceReplay

variable {minutes : ℤ} {nonces : ℕ → Json}

/-! ## (1) Issued and fresh -/

/-- a request that has read the row of a nonce and has not committed its delete -/
def Consume.holds (value : Text) : Consume → Bool
  | .found v _ => v = value
  | .tested v _ _ _ => v = value
  | .deleted v _ _ _ => v = value
  | _ => false

/-- what a request has read was issued, and what it takes for fresh is -/
def Read (minutes : ℤ) (s : Nonces) : Consume → Prop
  | .found v created => (v, created) ∈ s.issued
  | .tested v created at_ fresh => (v, created) ∈ s.issued ∧ (fresh = true → at_ - lifetime minutes ≤ created)
  | .deleted v created at_ fresh => (v, created) ∈ s.issued ∧ (fresh = true → at_ - lifetime minutes ≤ created)
  | _ => True

structure Sound (minutes : ℤ) (r : NonceRace) : Prop where
  rows : ∀ v created, r.shared.rows v = some created → (v, created) ∈ r.shared.issued
  read : ∀ i, Read minutes r.shared (r.workers i)
  passed : ∀ p ∈ r.shared.passed, (p.value, p.createdAt) ∈ r.shared.issued ∧ p.testedAt - lifetime minutes ≤ p.createdAt

theorem read_mono {s s' : Nonces} (h : s.issued ⊆ s'.issued) {c : Consume} (hc : Read minutes s c) : Read minutes s' c := by
  cases c with
  | found v created => exact h hc
  | tested v created at_ fresh => exact ⟨h hc.1, hc.2⟩
  | deleted v created at_ fresh => exact ⟨h hc.1, hc.2⟩
  | _ => trivial

/-- what a step of a request leaves of the table and the logs -/
theorem consumeStep_issued (value : Json) (now : DateTime) (s : Nonces) (c : Consume) :
    (consumeStep minutes value now s c).1.issued = s.issued := by
  cases c with
  | start =>
    unfold consumeStep
    cases nonceText value with
    | none => rfl
    | some text =>
      simp only
      cases s.rows text <;> rfl
  | _ => rfl

theorem consumeStep_rows (value : Json) (now : DateTime) (s : Nonces) (c : Consume) {v : Text} {created : DateTime}
    (h : (consumeStep minutes value now s c).1.rows v = some created) : s.rows v = some created := by
  cases c with
  | start =>
    unfold consumeStep at h
    cases hv : nonceText value with
    | none => rw [hv] at h; exact h
    | some text =>
      simp only [hv] at h
      cases hr : s.rows text <;> rw [hr] at h <;> exact h
  | deleted text createdAt testedAt fresh =>
    unfold consumeStep at h
    simp only at h
    by_cases heq : v = text
    · rw [heq, Function.update_self] at h
      cases h
    · rwa [Function.update_of_ne heq] at h
  | _ => exact h

/-- the next step reads and tests what is there -/
theorem read_consumeStep {value : Json} {now : DateTime} {s : Nonces} {c : Consume}
    (hrows : ∀ v created, s.rows v = some created → (v, created) ∈ s.issued) (hc : Read minutes s c) :
    Read minutes s (consumeStep minutes value now s c).2 := by
  cases c with
  | start =>
    unfold consumeStep
    cases nonceText value with
    | none => trivial
    | some text =>
      simp only
      cases hr : s.rows text with
      | none => trivial
      | some created => exact hrows text created hr
  | found v created => exact ⟨hc, fun hfresh => of_decide_eq_true hfresh⟩
  | tested v created at_ fresh => exact hc
  | deleted v created at_ fresh => trivial
  | ended b => trivial

/-- a request that gets past has read an issued nonce and found it fresh -/
theorem passed_consumeStep {value : Json} {now : DateTime} {s : Nonces} {c : Consume} (hc : Read minutes s c) :
    ∀ p ∈ (consumeStep minutes value now s c).1.passed,
      p ∈ s.passed ∨ (p.value, p.createdAt) ∈ s.issued ∧ p.testedAt - lifetime minutes ≤ p.createdAt := by
  cases c with
  | start =>
    unfold consumeStep
    cases nonceText value with
    | none => exact fun p hp => Or.inl hp
    | some text =>
      simp only
      cases s.rows text <;> exact fun p hp => Or.inl hp
  | deleted v created at_ fresh =>
    intro p hp
    cases fresh with
    | false => exact Or.inl hp
    | true =>
      rcases List.mem_append.1 hp with hp | hp
      · exact Or.inl hp
      · rw [List.mem_singleton.1 hp]
        exact Or.inr ⟨hc.1, hc.2 rfl⟩
  | _ => exact fun p hp => Or.inl hp

theorem Sound.request {r : NonceRace} (h : Sound minutes r) (i : ℕ) (now : DateTime) :
    Sound minutes (nonceStep minutes nonces r (.request i now)) := by
  have hissued : (nonceStep minutes nonces r (.request i now)).shared.issued = r.shared.issued :=
    consumeStep_issued (nonces i) now r.shared (r.workers i)
  constructor
  · intro v created hv
    rw [hissued]
    exact h.rows v created (consumeStep_rows (nonces i) now r.shared (r.workers i) hv)
  · intro j
    refine @read_mono minutes r.shared _ (by rw [hissued]; exact List.Subset.refl _) _ ?_
    by_cases hj : j = i
    · rw [hj]
      have hself : (nonceStep minutes nonces r (.request i now)).workers i =
          (consumeStep minutes (nonces i) now r.shared (r.workers i)).2 := Function.update_self ..
      rw [hself]
      exact read_consumeStep h.rows (h.read i)
    · have hother : (nonceStep minutes nonces r (.request i now)).workers j = r.workers j :=
        Function.update_of_ne hj ..
      rw [hother]
      exact h.read j
  · intro p hp
    rw [hissued]
    rcases passed_consumeStep (h.read i) p hp with hold | hnew
    · exact h.passed p hold
    · exact hnew

theorem Sound.issue {r : NonceRace} (h : Sound minutes r) (value : Text) (now : DateTime) :
    Sound minutes (nonceStep minutes nonces r (.issue value now)) := by
  show Sound minutes { r with shared := issueNonce value now r.shared }
  unfold issueNonce
  cases hv : r.shared.rows value with
  | some created => exact h
  | none =>
    have hsub : r.shared.issued ⊆ r.shared.issued ++ [(value, now)] := List.subset_append_left _ _
    refine ⟨fun v created hrow => ?_, fun i => read_mono hsub (h.read i), fun p hp => ?_⟩
    · by_cases heq : v = value
      · simp only [heq, Function.update_self, Option.some.injEq] at hrow
        rw [heq, ← hrow]
        exact List.mem_append_right _ (List.mem_singleton.2 rfl)
      · simp only [Function.update_of_ne heq] at hrow
        exact hsub (h.rows v created hrow)
    · exact ⟨hsub (h.passed p hp).1, (h.passed p hp).2⟩

theorem Sound.prune {r : NonceRace} (h : Sound minutes r) (now : DateTime) :
    Sound minutes (nonceStep minutes nonces r (.prune now)) :=
  ⟨fun v created hrow => h.rows v created (Option.filter_eq_some_iff.1 hrow).1, h.read, h.passed⟩

/-- **(1) Issued and fresh**, whatever the interleaving. -/
theorem Sound.step (r : NonceRace) (o : NonceOp) (h : Sound minutes r) : Sound minutes (nonceStep minutes nonces r o) := by
  cases o with
  | request i now => exact h.request i now
  | issue value now => exact h.issue value now
  | prune now => exact h.prune now

theorem sound_start : Sound minutes nonceStart := ⟨nofun, fun _ => trivial, nofun⟩

/-! ## (2) Once -/

/-- a request reads the row of its nonce only while no other request holds it -/
def Alone (nonces : ℕ → Json) (r : NonceRace) : NonceOp → Prop
  | .request i _ => r.workers i = .start → ∀ text, nonceText (nonces i) = some text → r.shared.rows text ≠ none →
      ∀ j, Consume.holds text (r.workers j) = false
  | _ => True

/-- a nonce lets at most as many requests past as it was issued times, less the row and the request that holds it -/
structure Credit (r : NonceRace) : Prop where
  alone : ∀ v i j, Consume.holds v (r.workers i) = true → Consume.holds v (r.workers j) = true → i = j
  rows : ∀ v, r.shared.rows v ≠ none → r.shared.passes v < r.shared.issues v
  held : ∀ v i, Consume.holds v (r.workers i) = true → r.shared.passes v < r.shared.issues v
  once : ∀ v, r.shared.passes v ≤ r.shared.issues v

theorem Credit.issue {r : NonceRace} (h : Credit r) (value : Text) (now : DateTime) :
    Credit { r with shared := issueNonce value now r.shared } := by
  unfold issueNonce
  cases hv : r.shared.rows value with
  | some created => exact h
  | none =>
    have hissues : ∀ v, r.shared.issues v ≤ Nonces.issues { r.shared with
        rows := Function.update r.shared.rows value (some now), issued := r.shared.issued ++ [(value, now)] } v := by
      intro v
      simp only [Nonces.issues, List.countP_append]
      omega
    refine ⟨h.alone, fun v hrow => ?_, fun v i hi => (h.held v i hi).trans_le (hissues v),
      fun v => (h.once v).trans (hissues v)⟩
    by_cases heq : v = value
    · have hone := h.once v
      simp only [Nonces.issues, Nonces.passes, List.countP_append, List.countP_singleton, heq, decide_true, if_true]
        at hone ⊢
      omega
    · simp only [Function.update_of_ne heq] at hrow
      exact (h.rows v hrow).trans_le (hissues v)

theorem Credit.prune {r : NonceRace} (h : Credit r) (now : DateTime) :
    Credit { r with shared := pruneNonces minutes now r.shared } := by
  refine ⟨h.alone, fun v hrow => h.rows v fun hnone => hrow ?_, h.held, h.once⟩
  show (r.shared.rows v).filter _ = none
  rw [hnone]
  rfl

/-- a step that neither reads a row nor commits -/
theorem Credit.move {r : NonceRace} (h : Credit r) {i : ℕ} {c : Consume}
    (hholds : ∀ v, Consume.holds v c = true → Consume.holds v (r.workers i) = true) :
    Credit { r with workers := Function.update r.workers i c } := by
  have hold : ∀ v j, Consume.holds v (Function.update r.workers i c j) = true → Consume.holds v (r.workers j) = true := by
    intro v j hj
    by_cases hji : j = i
    · rw [hji, Function.update_self] at hj
      rw [hji]
      exact hholds v hj
    · rwa [Function.update_of_ne hji] at hj
  exact ⟨fun v j k hj hk => h.alone v j k (hold v j hj) (hold v k hk), h.rows,
    fun v j hj => h.held v j (hold v j hj), h.once⟩

/-- a request reads the row of a nonce that nobody holds -/
theorem Credit.read {r : NonceRace} (h : Credit r) {i : ℕ} {text : Text} {created : DateTime}
    (hrow : r.shared.rows text = some created) (hnobody : ∀ j, Consume.holds text (r.workers j) = false) :
    Credit { r with workers := Function.update r.workers i (.found text created) } := by
  have hpresent := h.rows text (by rw [hrow]; exact Option.some_ne_none created)
  have hcases : ∀ v j, Consume.holds v (Function.update r.workers i (.found text created) j) = true →
      v = text ∧ j = i ∨ v ≠ text ∧ Consume.holds v (r.workers j) = true := by
    intro v j hj
    by_cases hji : j = i
    · rw [hji, Function.update_self] at hj
      exact Or.inl ⟨(of_decide_eq_true hj).symm, hji⟩
    · rw [Function.update_of_ne hji] at hj
      refine Or.inr ⟨fun heq => ?_, hj⟩
      rw [heq, hnobody j] at hj
      cases hj
  refine ⟨fun v j k hj hk => ?_, h.rows, fun v j hj => ?_, h.once⟩
  · rcases hcases v j hj with ⟨hv, hji⟩ | ⟨hv, hj⟩
    · rcases hcases v k hk with ⟨_, hki⟩ | ⟨hv', _⟩
      · rw [hji, hki]
      · exact absurd hv hv'
    · rcases hcases v k hk with ⟨hv', _⟩ | ⟨_, hk⟩
      · exact absurd hv' hv
      · exact h.alone v j k hj hk
  · rcases hcases v j hj with ⟨hv, _⟩ | ⟨_, hj⟩
    · rw [hv]
      exact hpresent
    · exact h.held v j hj

/-- a request commits its delete -/
theorem Credit.commit {r : NonceRace} (h : Credit r) {i : ℕ} {text : Text} {created testedAt : DateTime} {fresh : Bool}
    (hi : r.workers i = .deleted text created testedAt fresh) :
    Credit ⟨{ r.shared with
        rows := Function.update r.shared.rows text none
        passed := if fresh then r.shared.passed ++ [⟨text, created, testedAt⟩] else r.shared.passed },
      Function.update r.workers i (.ended fresh)⟩ := by
  have hiholds : Consume.holds text (r.workers i) = true := by
    rw [hi]
    exact decide_eq_true rfl
  have hheld := h.held text i hiholds
  have hpasses : ∀ v, Nonces.passes { r.shared with
      rows := Function.update r.shared.rows text none
      passed := if fresh then r.shared.passed ++ [⟨text, created, testedAt⟩] else r.shared.passed } v ≤
        r.shared.passes v + (if v = text then 1 else 0) := by
    intro v
    cases fresh with
    | false => exact Nat.le_add_right _ _
    | true =>
      by_cases hv : v = text
      · simp [Nonces.passes, hv]
      · have hne : text ≠ v := fun heq => hv heq.symm
        simp [Nonces.passes, hv, hne]
  have hother : ∀ v j, Consume.holds v (Function.update r.workers i (.ended fresh) j) = true →
      v ≠ text ∧ Consume.holds v (r.workers j) = true := by
    intro v j hj
    by_cases hji : j = i
    · rw [hji, Function.update_self] at hj
      cases hj
    · rw [Function.update_of_ne hji] at hj
      refine ⟨fun heq => ?_, hj⟩
      rw [heq] at hj
      exact hji (h.alone text j i hj hiholds)
  refine ⟨fun v j k hj hk => h.alone v j k (hother v j hj).2 (hother v k hk).2, fun v hrow => ?_, fun v j hj => ?_,
    fun v => ?_⟩
  · have hv : v ≠ text := by
      intro heq
      simp only [heq, Function.update_self] at hrow
      exact hrow rfl
    simp only [Function.update_of_ne hv] at hrow
    have hle := hpasses v
    rw [if_neg hv] at hle
    exact hle.trans_lt (h.rows v hrow)
  · have hle := hpasses v
    rw [if_neg (hother v j hj).1] at hle
    exact hle.trans_lt (h.held v j (hother v j hj).2)
  · have hle := hpasses v
    by_cases hv : v = text
    · rw [if_pos hv] at hle
      rw [← hv] at hheld
      exact hle.trans hheld
    · rw [if_neg hv] at hle
      exact hle.trans (h.once v)

theorem Credit.step (r : NonceRace) (o : NonceOp) (hC : Alone nonces r o) (h : Credit r) :
    Credit (nonceStep minutes nonces r o) := by
  cases o with
  | issue value now => exact h.issue value now
  | prune now => exact h.prune now
  | request i now =>
    unfold nonceStep Pool.act
    simp only
    cases hc : r.workers i with
    | start =>
      unfold consumeStep
      cases hv : nonceText (nonces i) with
      | none => exact h.move nofun
      | some text =>
        simp only
        cases hr : r.shared.rows text with
        | none => exact h.move nofun
        | some created => exact h.read hr (hC hc text hv (by rw [hr]; exact Option.some_ne_none created))
    | found v created => exact h.move fun w hw => by rw [hc]; exact hw
    | tested v created at_ fresh => exact h.move fun w hw => by rw [hc]; exact hw
    | deleted v created at_ fresh => exact h.commit hc
    | ended b => exact h.move nofun

theorem credit_start : Credit nonceStart :=
  ⟨nofun, fun _ hv => absurd rfl hv, nofun, fun _ => le_rfl⟩

/-- **(2) At most once, when the requests with one nonce do not overlap.** In every run from an empty table in which no
request reads the row of its nonce while another request holds it: no nonce lets more requests past than it was issued
times, and every request let past had a nonce that was issued and not older than its lifetime. -/
theorem nonce_once {ops : List NonceOp} (hC : Meets (nonceStep minutes nonces) (Alone nonces) nonceStart ops) :
    let s := (run (nonceStep minutes nonces) nonceStart ops).shared
    (∀ v, s.passes v ≤ s.issues v) ∧
      ∀ p ∈ s.passed, (p.value, p.createdAt) ∈ s.issued ∧ p.testedAt - lifetime minutes ≤ p.createdAt :=
  ⟨(run_invariant_of_meets Credit.step credit_start hC).once, (run_invariant Sound.step sound_start ops).passed⟩

/-- a nonce, and two requests with it one after the other -/
def oneByOne : List NonceOp :=
  [.issue "n".toList 0, .request 0 1, .request 0 1, .request 0 1, .request 0 1, .request 1 1]

/-- the theorem applies to two requests with one nonce; the first gets past, and the second is refused -/
theorem nonce_once_alone :
    (run (nonceStep 60 fun _ => .str "n") nonceStart oneByOne).workers 0 = .ended true ∧
      (run (nonceStep 60 fun _ => .str "n") nonceStart oneByOne).workers 1 = .ended false ∧
      (run (nonceStep 60 fun _ => .str "n") nonceStart oneByOne).shared.passes "n".toList = 1 ∧
      (run (nonceStep 60 fun _ => .str "n") nonceStart oneByOne).shared.passes "n".toList ≤
        (run (nonceStep 60 fun _ => .str "n") nonceStart oneByOne).shared.issues "n".toList := by
  refine ⟨rfl, rfl, rfl, (@nonce_once 60 (fun _ => .str "n") oneByOne ?_).1 _⟩
  refine ⟨trivial, fun _ text _ _ j => rfl, fun h => ?_, fun h => ?_, fun h => ?_, fun _ text htext hrow => ?_, trivial⟩
  · cases h
  · cases h
  · cases h
  · -- the first request has deleted the row
    cases htext
    exact absurd rfl hrow

/-! ## (3) Twice -/

/-- both requests read the row before either deletes it -/
def bothHold : List NonceOp :=
  [.issue "n".toList 0, .request 0 1, .request 1 1, .request 0 1, .request 0 1, .request 0 1, .request 1 1, .request 1 1,
    .request 1 1]

/-- **A nonce is accepted twice.** -/
theorem nonce_twice :
    (run (nonceStep 60 fun _ => .str "n") nonceStart bothHold).shared.issues "n".toList = 1 ∧
      (run (nonceStep 60 fun _ => .str "n") nonceStart bothHold).shared.passes "n".toList = 2 := ⟨rfl, rfl⟩

end NonceReplay

end Chancery.Acme
