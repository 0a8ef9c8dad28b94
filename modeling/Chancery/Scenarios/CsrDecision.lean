/-
Is a CSR signed or rejected, and never both?

Sign requests and reject requests on any CSRs, by any number of workers, with commits that the database may refuse.

(1) At most one certificate is issued from a CSR (`Single`): the claim is exclusive, and a row that may be claimed has no
certificate yet.

(2) When no rejection commits on a row that a sign request has claimed or approved (`Unclaimed`), a CSR with a certificate
is approved, and a CSR whose rejection succeeded is rejected and has no certificate (`one_decision`).

(3) `signed_and_rejected`: a rejection that read the row before the claim commits after it; the request reports success,
and the certificate is issued all the same.
-/
import Mathlib.Tactic
import Chancery.Routes.Csr
import Chancery.Scenarios.AcmeCertificateNames

namespace Chancery.CsrDecision

open Chancery.Core
open Chancery.CsrRoutes
open Chancery.Acme (Db Tick releaseRow releaseRow_id setRowStatus setRowStatus_id approveRow persist)

/-! ## Statuses and counts -/

def statusOf (s : Csrs) (csrId : ℤ) : Option CsrStatus := (s.db.csrs.get? csrId).map (·.status)

/-- the number of certificates issued from a CSR -/
def issuedCount (s : Csrs) (csrId : ℤ) : ℕ := s.issued.countP fun x => x.1 = csrId

section Updates

variable {s : Csrs} {k j : ℤ}

theorem statusOf_update {f : CsrRow → CsrRow} {hf : ∀ r, (f r).id = r.id} {issued : List (ℤ × ℤ)} :
    statusOf ⟨s.db.updateCsr k f hf, issued⟩ j =
      if j = k then (s.db.csrs.get? j).map fun r => (f r).status else statusOf s j := by
  have hget : (s.db.updateCsr k f hf).csrs.get? j = if j = k then (s.db.csrs.get? j).map f else s.db.csrs.get? j :=
    @Table.get?_update _ _ s.db.csrs f hf k j
  unfold statusOf
  rw [hget]
  split_ifs
  · rw [Option.map_map]
    rfl
  · rfl

theorem statusOf_set {st : CsrStatus} {row : CsrRow} (hrow : s.db.csrs.get? k = some row) {issued : List (ℤ × ℤ)} :
    statusOf ⟨s.db.updateCsr k (setRowStatus st) setRowStatus_id, issued⟩ k = some st := by
  refine statusOf_update.trans ?_
  rw [if_pos rfl, hrow]
  rfl

theorem statusOf_persist {caId : ℤ} {issued : Issued} {log : List (ℤ × ℤ)} :
    statusOf ⟨persist caId k issued s.db, log⟩ j = if j = k then (statusOf s j).map fun _ => .approved
      else statusOf s j := by
  refine (@statusOf_update s k j (approveRow s.db.certificates.nextKey caId) (fun _ => rfl) log).trans ?_
  split_ifs
  · unfold statusOf
    rw [Option.map_map]
    rfl
  · rfl

theorem issuedCount_append {db : Db} {c : ℤ} :
    issuedCount ⟨db, s.issued ++ [(k, c)]⟩ j = issuedCount s j + if j = k then 1 else 0 := by
  unfold issuedCount
  rw [List.countP_append]
  by_cases hjk : j = k
  · simp [hjk]
  · have hkj : k ≠ j := fun h => hjk h.symm
    simp [hjk, hkj]

/-- a step on one CSR leaves the others alone -/
theorem effect_elsewhere {s' : Csrs} {p p' : CsrPhase} (he : CsrEffect k s p s' p') (hjk : j ≠ k) :
    statusOf s' j = statusOf s j ∧ issuedCount s' j = issuedCount s j := by
  cases he with
  | quiet => exact ⟨rfl, rfl⟩
  | claim => exact ⟨statusOf_update.trans (if_neg hjk), rfl⟩
  | approve => exact ⟨statusOf_persist.trans (if_neg hjk), issuedCount_append.trans (by rw [if_neg hjk]; rfl)⟩
  | release => exact ⟨statusOf_update.trans (if_neg hjk), rfl⟩
  | reject => exact ⟨statusOf_update.trans (if_neg hjk), rfl⟩

end Updates

/-! ## (1) At most one certificate -/

/-- request `i` has claimed the CSR -/
def Holds (jobs : ℕ → CsrJob) (r : CsrRace) (k : ℤ) (i : ℕ) : Prop := (jobs i).csrId = k ∧ (r.workers i).holds = true

structure Single (jobs : ℕ → CsrJob) (k : ℤ) (r : CsrRace) : Prop where
  exclusive : ∀ i j, Holds jobs r k i → Holds jobs r k j → i = j
  locked : ∀ i, Holds jobs r k i → statusOf r.shared k ≠ some .pending ∧ issuedCount r.shared k = 0
  unissued : statusOf r.shared k = some .pending → issuedCount r.shared k = 0
  once : issuedCount r.shared k ≤ 1

section Step

variable {L : NameLib} {jobs : ℕ → CsrJob} {r : CsrRace} {i : ℕ} {s' : Csrs} {p' : CsrPhase} {k : ℤ}

/-- who holds a CSR after a step of request `i` -/
theorem holds_after {j : ℕ} (h : Holds jobs ⟨s', Function.update r.workers i p'⟩ k j) :
    (j = i ∧ (jobs i).csrId = k ∧ p'.holds = true) ∨ (j ≠ i ∧ Holds jobs r k j) := by
  obtain ⟨hk, hp⟩ := h
  by_cases hji : j = i
  · rw [hji] at hk hp
    simp only [Function.update_self] at hp
    exact Or.inl ⟨hji, hk, hp⟩
  · simp only [Function.update_of_ne hji] at hp
    exact Or.inr ⟨hji, hk, hp⟩

/-- a step on another CSR -/
theorem Single.elsewhere (h : Single jobs k r) (he : CsrEffect (jobs i).csrId r.shared (r.workers i) s' p')
    (hk : k ≠ (jobs i).csrId) : Single jobs k ⟨s', Function.update r.workers i p'⟩ := by
  obtain ⟨hstatus, hcount⟩ := effect_elsewhere he hk
  have hold : ∀ j, Holds jobs ⟨s', Function.update r.workers i p'⟩ k j → Holds jobs r k j := by
    intro j hj
    rcases holds_after hj with ⟨_, hki, _⟩ | ⟨_, hj⟩
    · exact absurd hki.symm hk
    · exact hj
  refine ⟨fun j j' hj hj' => h.exclusive j j' (hold j hj) (hold j' hj'), fun j hj => ?_, fun hp => ?_, ?_⟩
  · rw [hstatus, hcount]
    exact h.locked j (hold j hj)
  · rw [hstatus] at hp
    rw [hcount]
    exact h.unissued hp
  · rw [hcount]
    exact h.once

/-- a step after which the request holds nothing: who else holds the CSR held it before -/
theorem Single.leave (h : Single jobs k r) (hp : p'.holds = false)
    (hlocked : ∀ j, j ≠ i → Holds jobs r k j → statusOf s' k ≠ some .pending ∧ issuedCount s' k = 0)
    (hunissued : statusOf s' k = some .pending → issuedCount s' k = 0) (honce : issuedCount s' k ≤ 1) :
    Single jobs k ⟨s', Function.update r.workers i p'⟩ := by
  have hold : ∀ j, Holds jobs ⟨s', Function.update r.workers i p'⟩ k j → j ≠ i ∧ Holds jobs r k j := by
    intro j hj
    rcases holds_after hj with ⟨_, _, hp'⟩ | hj
    · rw [hp] at hp'
      cases hp'
    · exact hj
  exact ⟨fun j j' hj hj' => h.exclusive j j' (hold j hj).2 (hold j' hj').2,
    fun j hj => hlocked j (hold j hj).1 (hold j hj).2, hunissued, honce⟩

theorem Single.effect (h : Single jobs k r) (he : CsrEffect (jobs i).csrId r.shared (r.workers i) s' p') :
    Single jobs k ⟨s', Function.update r.workers i p'⟩ := by
  by_cases hk : k = (jobs i).csrId
  swap
  · exact h.elsewhere he hk
  subst hk
  -- a request that holds the CSR is the only one
  have halone : (r.workers i).holds = true → ∀ j, j ≠ i → ¬ Holds jobs r (jobs i).csrId j :=
    fun hmine j hji hj => hji (h.exclusive j i hj ⟨rfl, hmine⟩)
  cases he with
  | quiet hholds hrejected =>
    have hold : ∀ j, Holds jobs ⟨r.shared, Function.update r.workers i p'⟩ (jobs i).csrId j →
        Holds jobs r (jobs i).csrId j := by
      intro j hj
      rcases holds_after hj with ⟨hji, hki, hp⟩ | ⟨_, hj⟩
      · rw [hji]
        exact ⟨hki, hholds hp⟩
      · exact hj
    exact ⟨fun j j' hj hj' => h.exclusive j j' (hold j hj) (hold j' hj'), fun j hj => h.locked j (hold j hj), h.unissued,
      h.once⟩
  | @claim row kept hrow hpending =>
    have hstatus : statusOf r.shared (jobs i).csrId = some .pending := by
      unfold statusOf
      rw [hrow, Option.map_some, hpending]
    -- nobody held it, or it would not be pending
    have hmine : ∀ j, Holds jobs ⟨{ r.shared with db := r.shared.db.updateCsr (jobs i).csrId (setRowStatus .signing) },
        Function.update r.workers i (.claimed kept)⟩ (jobs i).csrId j → j = i := by
      intro j hj
      rcases holds_after hj with ⟨hji, _⟩ | ⟨_, hj⟩
      · exact hji
      · exact absurd hstatus (h.locked j hj).1
    refine ⟨fun j j' hj hj' => (hmine j hj).trans (hmine j' hj').symm, fun _ _ => ⟨?_, h.unissued hstatus⟩,
      fun _ => h.unissued hstatus, h.once⟩
    rw [statusOf_set hrow]
    decide
  | approve hsigned =>
    have hmine : (r.workers i).holds = true := by rw [hsigned]; rfl
    have hnone := (h.locked i ⟨rfl, hmine⟩).2
    refine h.leave rfl (fun j hji hj => absurd hj (halone hmine j hji)) (fun hp => ?_) ?_
    · rw [statusOf_persist, if_pos rfl] at hp
      obtain ⟨_, _, hst⟩ := Option.map_eq_some_iff.1 hp
      cases hst
    · rw [issuedCount_append, if_pos rfl, hnone]
  | release hfailed =>
    have hmine : (r.workers i).holds = true := by rw [hfailed]; rfl
    exact h.leave rfl (fun j hji hj => absurd hj (halone hmine j hji)) (fun _ => (h.locked i ⟨rfl, hmine⟩).2) h.once
  | reject hrejecting hrow =>
    have hstatus := @statusOf_set r.shared (jobs i).csrId .rejected _ hrow r.shared.issued
    refine h.leave rfl (fun j _ hj => ⟨?_, (h.locked j hj).2⟩) (fun hp => ?_) h.once
    · rw [hstatus]
      decide
    · rw [hstatus] at hp
      cases hp

theorem Single.step (r : CsrRace) (o : ℕ × Tick) (h : Single jobs k r) : Single jobs k (csrStep L jobs r o) :=
  h.effect (step_effect (jobs o.1) o.2 r.shared (r.workers o.1))

end Step

theorem single_start (jobs : ℕ → CsrJob) (db : Db) (k : ℤ) : Single jobs k (csrStart db) :=
  ⟨fun _ _ h => (nomatch h.2), fun _ h => (nomatch h.2), fun _ => rfl, Nat.zero_le 1⟩

/-! ## (2) Signed or rejected -/

def isRejecting : CsrPhase → Bool
  | .rejecting => true
  | _ => false

/-- a rejection commits while no sign request has claimed or approved the row -/
def Unclaimed (jobs : ℕ → CsrJob) (r : CsrRace) (o : ℕ × Tick) : Prop :=
  isRejecting (r.workers o.1) = true → o.2.fault = none →
    statusOf r.shared (jobs o.1).csrId ≠ some .signing ∧ statusOf r.shared (jobs o.1).csrId ≠ some .approved

instance (jobs : ℕ → CsrJob) (r : CsrRace) (o : ℕ × Tick) : Decidable (Unclaimed jobs r o) :=
  inferInstanceAs (Decidable (_ → _ → _ ∧ _))

structure Decided (jobs : ℕ → CsrJob) (k : ℤ) (r : CsrRace) : Prop where
  signing : ∀ i, Holds jobs r k i → statusOf r.shared k = some .signing
  approved : 0 < issuedCount r.shared k → statusOf r.shared k = some .approved
  rejected : ∀ i, (jobs i).csrId = k → r.workers i = .ended .rejected → statusOf r.shared k = some .rejected

section Step

variable {L : NameLib} {jobs : ℕ → CsrJob} {r : CsrRace} {i : ℕ} {s' : Csrs} {p' : CsrPhase} {k : ℤ}

theorem Decided.elsewhere (h : Decided jobs k r) (he : CsrEffect (jobs i).csrId r.shared (r.workers i) s' p')
    (hk : k ≠ (jobs i).csrId) : Decided jobs k ⟨s', Function.update r.workers i p'⟩ := by
  obtain ⟨hstatus, hcount⟩ := effect_elsewhere he hk
  refine ⟨fun j hj => ?_, fun hc => ?_, fun j hjk hj => ?_⟩
  · rcases holds_after hj with ⟨_, hki, _⟩ | ⟨_, hj⟩
    · exact absurd hki.symm hk
    · rw [hstatus]
      exact h.signing j hj
  · rw [hcount] at hc
    rw [hstatus]
    exact h.approved hc
  · have hji : j ≠ i := by
      intro heq
      rw [heq] at hjk
      exact hk hjk.symm
    simp only [Function.update_of_ne hji] at hj
    rw [hstatus]
    exact h.rejected j hjk hj

/-- a step that sets the status of the CSR -/
theorem decided_of_status {st : CsrStatus} (hstatus : statusOf s' k = some st)
    (hholds : ∀ j, Holds jobs ⟨s', Function.update r.workers i p'⟩ k j → st = .signing)
    (hcount : 0 < issuedCount s' k → st = .approved)
    (hrejected : ∀ j, (jobs j).csrId = k → Function.update r.workers i p' j = .ended .rejected → st = .rejected) :
    Decided jobs k ⟨s', Function.update r.workers i p'⟩ :=
  ⟨fun j hj => hholds j hj ▸ hstatus, fun hc => hcount hc ▸ hstatus, fun j hjk hj => hrejected j hjk hj ▸ hstatus⟩

theorem Decided.effect (hsingle : Single jobs k r) (h : Decided jobs k r)
    (he : CsrEffect (jobs i).csrId r.shared (r.workers i) s' p')
    (hC : r.workers i = .rejecting → p' = .ended .rejected →
      statusOf r.shared (jobs i).csrId ≠ some .signing ∧ statusOf r.shared (jobs i).csrId ≠ some .approved) :
    Decided jobs k ⟨s', Function.update r.workers i p'⟩ := by
  by_cases hk : k = (jobs i).csrId
  swap
  · exact h.elsewhere he hk
  subst hk
  -- a rejection that succeeded before this step left the row rejected
  have hbefore : ∀ j, j ≠ i → (jobs j).csrId = (jobs i).csrId → Function.update r.workers i p' j = .ended .rejected →
      statusOf r.shared (jobs i).csrId = some .rejected := by
    intro j hji hjk hj
    rw [Function.update_of_ne hji] at hj
    exact h.rejected j hjk hj
  have hnoRejected : ∀ {st : CsrStatus}, statusOf r.shared (jobs i).csrId = some st → st ≠ .rejected →
      p' ≠ .ended .rejected → ∀ j, (jobs j).csrId = (jobs i).csrId → Function.update r.workers i p' j ≠ .ended
        .rejected := by
    intro st hstatus hst hp j hjk hj
    by_cases hji : j = i
    · rw [hji, Function.update_self] at hj
      exact hp hj
    · exact hst (Option.some.inj (hstatus.symm.trans (hbefore j hji hjk hj)))
  have hsigning : (r.workers i).holds = true → statusOf r.shared (jobs i).csrId = some .signing :=
    fun hmine => h.signing i ⟨rfl, hmine⟩
  have halone : (r.workers i).holds = true → p'.holds = false →
      ∀ j, ¬ Holds jobs ⟨s', Function.update r.workers i p'⟩ (jobs i).csrId j := by
    intro hmine hp j hj
    rcases holds_after hj with ⟨_, _, hp'⟩ | ⟨hji, hj⟩
    · rw [hp] at hp'
      cases hp'
    · exact hji (hsingle.exclusive j i hj ⟨rfl, hmine⟩)
  cases he with
  | quiet hholds hrejected =>
    refine ⟨fun j hj => ?_, h.approved, fun j hjk hj => ?_⟩
    · rcases holds_after hj with ⟨_, hki, hp⟩ | ⟨_, hj⟩
      · exact hsigning (hholds hp)
      · exact h.signing j hj
    · by_cases hji : j = i
      · rw [hji] at hj
        simp only [Function.update_self] at hj
        exact h.rejected i rfl (hrejected hj)
      · exact hbefore j hji hjk hj
  | @claim row kept hrow hpending =>
    have hstatus : statusOf r.shared (jobs i).csrId = some .pending := by
      unfold statusOf
      rw [hrow, Option.map_some, hpending]
    exact decided_of_status (statusOf_set hrow) (fun _ _ => rfl) (fun hc => absurd (hsingle.unissued hstatus) hc.ne')
      fun j hjk hj => absurd hj (hnoRejected hstatus (by decide) nofun j hjk)
  | @approve caId issued hsigned =>
    have hmine : (r.workers i).holds = true := by rw [hsigned]; rfl
    have hstatus := hsigning hmine
    have hafter : statusOf ⟨persist caId (jobs i).csrId issued r.shared.db, r.shared.issued ++
        [((jobs i).csrId, r.shared.db.certificates.nextKey)]⟩ (jobs i).csrId = some .approved := by
      rw [statusOf_persist, if_pos rfl, hstatus]
      rfl
    exact decided_of_status hafter (fun j hj => absurd hj (halone hmine rfl j)) (fun _ => rfl)
      fun j hjk hj => absurd hj (hnoRejected hstatus (by decide) nofun j hjk)
  | @release e e' hfailed =>
    have hmine : (r.workers i).holds = true := by rw [hfailed]; rfl
    have hstatus := hsigning hmine
    obtain ⟨row, hrow, hst⟩ := Option.map_eq_some_iff.1 hstatus
    have hafter : statusOf { r.shared with db := r.shared.db.updateCsr (jobs i).csrId releaseRow releaseRow_id }
        (jobs i).csrId = some .pending := by
      rw [statusOf_update, if_pos rfl, hrow, Option.map_some]
      unfold releaseRow
      rw [if_pos hst]
      rfl
    exact decided_of_status hafter (fun j hj => absurd hj (halone hmine rfl j))
      (fun hc => absurd (hsingle.locked i ⟨rfl, hmine⟩).2 hc.ne')
      fun j hjk hj => absurd hj (hnoRejected hstatus (by decide) nofun j hjk)
  | reject hrejecting hrow =>
    obtain ⟨hnotSigning, hnotApproved⟩ := hC hrejecting rfl
    refine decided_of_status (statusOf_set hrow) (fun j hj => ?_) (fun hc => ?_) fun _ _ _ => rfl
    · rcases holds_after hj with ⟨_, _, hp⟩ | ⟨_, hj⟩
      · cases hp
      · exact absurd (h.signing j hj) hnotSigning
    · exact absurd (h.approved hc) hnotApproved

/-- a rejection that succeeds was committed -/
theorem fault_of_rejected {t : Tick} {s : Csrs} {job : CsrJob}
    (h : (csrJobStep L t s .rejecting job).2 = .ended .rejected) :
    t.fault = none := by
  cases job with
  | sign csrId req => cases h
  | reject csrId =>
    unfold csrJobStep rejectStep at h
    simp only at h
    cases hwrite : t.guard (rejectRow csrId s.db) with
    | error e => rw [hwrite] at h; cases h
    | ok db => exact (Acme.guard_ok.1 hwrite).2

theorem Decided.step (r : CsrRace) (o : ℕ × Tick) (hC : Unclaimed jobs r o) (hsingle : Single jobs k r)
    (h : Decided jobs k r) : Decided jobs k (csrStep L jobs r o) := by
  refine h.effect hsingle (step_effect (jobs o.1) o.2 r.shared (r.workers o.1)) fun hrejecting hrejected => ?_
  rw [hrejecting] at hrejected
  exact hC (by rw [hrejecting]; rfl) (fault_of_rejected hrejected)

end Step

theorem decided_start (jobs : ℕ → CsrJob) (db : Db) (k : ℤ) : Decided jobs k (csrStart db) :=
  ⟨fun _ h => (nomatch h.2), fun h => (nomatch h), fun _ _ h => (nomatch h)⟩

/-- **(2) One decision.** From any tables and for any requests: at most one certificate is ever issued from a CSR; and in
every run in which no rejection commits on a row that is being signed or is approved, a CSR with a certificate is approved,
and a CSR whose rejection succeeded is rejected and has none. -/
theorem one_decision (L : NameLib) (jobs : ℕ → CsrJob) (db : Db) (k : ℤ) :
    (∀ ops, issuedCount (run (csrStep L jobs) (csrStart db) ops).shared k ≤ 1) ∧
      ∀ ops, Meets (csrStep L jobs) (Unclaimed jobs) (csrStart db) ops →
        let r := run (csrStep L jobs) (csrStart db) ops
        (0 < issuedCount r.shared k → statusOf r.shared k = some .approved) ∧
          ∀ i, (jobs i).csrId = k → r.workers i = .ended .rejected →
            issuedCount r.shared k = 0 ∧ statusOf r.shared k = some .rejected := by
  refine ⟨fun ops => (run_invariant Single.step (single_start jobs db k) ops).once, fun ops hC => ?_⟩
  have hdecided := (run_invariant_of_meets (I := fun r => Single jobs k r ∧ Decided jobs k r)
    (fun r o hC h => ⟨h.1.step r o, h.2.step r o hC h.1⟩) ⟨single_start jobs db k, decided_start jobs db k⟩ hC).2
  refine ⟨hdecided.approved, fun i hik hi => ?_⟩
  have hrejected := hdecided.rejected i hik hi
  refine ⟨?_, hrejected⟩
  by_contra hne
  have happroved := hdecided.approved (Nat.pos_of_ne_zero hne)
  rw [hrejected] at happroved
  cases happroved

/-! ## (3) Signed and rejected -/

open Acme.CertificateNames (sampleServer oneNameCsr)

/-- one pending CSR -/
def pendingDb : Db where
  accounts := Table.empty
  eabKeys := Table.empty
  orders := Table.empty
  authzs := Table.empty
  challenges := Table.empty
  csrs := Table.empty.insert (CertService.importCsr sampleServer.names oneNameCsr)
  certificates := Table.empty

/-- a sign request that passes every check -/
def passing : SignRequest := ⟨.ok (), sampleServer.cas, sampleServer.ca, [], .pass⟩

/-- one sign request and one reject request for the CSR -/
def signAndReject : ℕ → CsrJob
  | 0 => .sign 1 passing
  | _ => .reject 1

def tick : Tick := ⟨0, 0, none⟩

/-- the CSR is signed first, and the rejection is refused -/
def oneAfterTheOther : List (ℕ × Tick) :=
  [(0, tick), (0, tick), (0, tick), (0, tick), (0, tick), (1, tick)]

/-- the theorem applies, and the certificate is there -/
theorem one_decision_signed :
    let r := run (csrStep sampleServer.names signAndReject) (csrStart pendingDb) oneAfterTheOther
    issuedCount r.shared 1 = 1 ∧ statusOf r.shared 1 = some .approved := by
  have hcount : issuedCount
    (run (csrStep sampleServer.names signAndReject) (csrStart pendingDb) oneAfterTheOther).shared 1 =
    1 := by decide +kernel
  refine ⟨hcount, ((one_decision sampleServer.names signAndReject pendingDb 1).2 oneAfterTheOther ?_).1 ?_⟩
  · decide +kernel
  · rw [hcount]
    exact Nat.one_pos

/-- the rejection reads the row before the claim and commits after it -/
def mixed : List (ℕ × Tick) :=
  [(0, tick), (1, tick), (0, tick), (1, tick), (0, tick), (0, tick), (0, tick)]

def rejectedOk : CsrPhase → Bool
  | .ended .rejected => true
  | _ => false

/-- **Rejected and signed.** The rejection reports success, and a certificate is issued from the CSR, which ends
approved. -/
theorem signed_and_rejected :
    let r := run (csrStep sampleServer.names signAndReject) (csrStart pendingDb) mixed
    rejectedOk (r.workers 1) = true ∧ issuedCount r.shared 1 = 1 ∧ statusOf r.shared 1 = some .approved := by
  decide +kernel

end Chancery.CsrDecision
