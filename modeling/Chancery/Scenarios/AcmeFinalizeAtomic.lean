/-
Is ACME finalize atomic under failure?

(1) `Atomic`: what the committed state after a request may look like. Nothing was issued, the order is ready or invalid and
no CSR row of the attempt waits in the signing queue; or one certificate was issued, it carries the account, and the order
is valid and linked to it.

(2) `atomic_iff`: for a ready order and a CSR that passes the checks, with a failure injected at any access to the
database, in the checks of `sign_csr` or in the signature, the committed state is atomic exactly when the failure is one of
the few that the code cleans up after (`Survives`): the commit of `processing` itself, or a ValueError while no CSR row
is pending, or none.

(3) `crash_before_link`: a database error at the last commit leaves the order in processing, and a certificate that no
order points to.
-/
import Mathlib.Tactic
import Chancery.Services.Acme.Finalize
import Chancery.Scenarios.AcmeCertificateNames

namespace Chancery.Acme

open Chancery.Core CertificateNames

namespace FinalizeAtomic

variable {E : Env}

/-! ## (1) All or nothing -/

/-- nothing was issued, and nothing is left half done -/
structure NotIssued (db₀ db : Db) (orderId : ℤ) : Prop where
  certificates : ∀ c ∈ db.certificates, c ∈ db₀.certificates
  order : ∃ o, db.orders.get? orderId = some o ∧ (o.status = .ready ∨ o.status = .invalid)
  queue : ∀ r ∈ db.csrs, db₀.csrs.get? r.id = none → r.status ≠ .pending

/-- one certificate was issued, with the account, and the order is linked to it -/
def WasIssued (db₀ db : Db) (orderId accountId : ℤ) : Prop :=
  ∃ c ∈ db.certificates, db₀.certificates.get? c.id = none ∧ c.acmeAccountId = some accountId ∧
    (∃ o, db.orders.get? orderId = some o ∧ o.status = .valid ∧ o.certificateId = some c.id) ∧
    ∀ c' ∈ db.certificates, db₀.certificates.get? c'.id = none → c' = c

def Atomic (db₀ db : Db) (orderId accountId : ℤ) : Prop := NotIssued db₀ db orderId ∨ WasIssued db₀ db orderId accountId

/-! ## (2) Which failures are cleaned up after -/

def failureOf {α : Type} : Except PyError α → Option PyError
  | .ok _ => none
  | .error e => some e

/-- a ValueError, and the handler's own commit goes through -/
def Handled (plan : Phase → Tick) (e : PyError) : Prop := e.isValueError = true ∧ (plan (.failing e)).fault = none

/-- the failure while the CSR row is created -/
def createFailure (f : Finalization) (plan : Phase → Tick) (csr : Csr) (wanted : List Text) : Option PyError :=
  (failureOf f.importable).or (plan (.processing csr wanted)).fault

/-- the CSR row as it is queued -/
def queuedRow (f : Finalization) (csr : Csr) (wanted : List Text) (csrId : ℤ) : Except PyError CsrRow := do
  let cn ← rowCommonName f.server.names.uni csr wanted
  .ok (nameRow cn f.server.ca.id (CertService.importCsr f.server.names csr csrId))

/-- the failure between the creation of the CSR row and its claim -/
def queueFailure (f : Finalization) (plan : Phase → Tick) (csr : Csr) (wanted : List Text) (csrId : ℤ) : Option PyError :=
  match queuedRow f csr wanted csrId with
  | .error e => some e
  | .ok row => (plan (.imported csrId csr wanted)).fault.or ((failureOf f.urls).or
      ((failureOf (CertService.checkCsr f.server.names f.server.cas f.server.ca row [] f.verdicts)).or
        (plan (.named csrId)).fault))

/-- the failure between the claim of the CSR row and the commit of the certificate -/
def signFailure (f : Finalization) (plan : Phase → Tick) (csr : Csr) (wanted : List Text) (csrId : ℤ) : Option PyError :=
  match queuedRow f csr wanted csrId with
  | .error e => some e
  | .ok row => (failureOf (CertService.signClaimed f.server.names f.server.ca (setRowStatus .signing row) [] f.verdicts
      (plan (.claimed csrId)).now)).or (plan (.claimed csrId)).fault

/-- the failures that leave no half-done work -/
def Survives (f : Finalization) (plan : Phase → Tick) (csr : Csr) (wanted : List Text) (db : Db) : Prop :=
  (plan (.checked csr wanted)).fault ≠ none ∨
  (∃ e, createFailure f plan csr wanted = some e ∧ Handled plan e) ∨
  (createFailure f plan csr wanted = none ∧ queueFailure f plan csr wanted db.csrs.nextKey = none ∧
    ((∃ e e', signFailure f plan csr wanted db.csrs.nextKey = some e ∧
        (plan (.releasing db.csrs.nextKey e)).fault = some e' ∧ Handled plan e') ∨
      signFailure f plan csr wanted db.csrs.nextKey = none ∧ (plan (.issued db.certificates.nextKey)).fault = none))

/-! ### Half-done states -/

/-- the order is being processed, nothing was issued, and `row` is the only new CSR row -/
structure Stands (db₀ db : Db) (orderId : ℤ) (row : Option CsrRow) : Prop where
  order : ∃ o, db.orders.get? orderId = some o ∧ o.status = .processing
  certificates : db.certificates = db₀.certificates
  csrs : ∀ k, db.csrs.get? k = if k = db₀.csrs.nextKey then row else db₀.csrs.get? k

section Stands

variable {db₀ db : Db} {orderId accountId : ℤ} {row : Option CsrRow}

theorem Stands.queued (h : Stands db₀ db orderId row) : db.csrs.get? db₀.csrs.nextKey = row := by
  rw [h.csrs, if_pos rfl]

/-- a row that is new is the one of the attempt -/
theorem Stands.new_row (h : Stands db₀ db orderId row) {r : CsrRow} (hr : r ∈ db.csrs) (hnew : db₀.csrs.get? r.id = none) :
    row = some r := by
  have hget := h.csrs r.id
  rw [Table.get?_key hr] at hget
  by_cases hid : r.id = db₀.csrs.nextKey
  · rw [if_pos hid] at hget
    exact hget.symm
  · rw [if_neg hid, hnew] at hget
    cases hget

/-- an order in processing is half done -/
theorem Stands.not_atomic (h : Stands db₀ db orderId row) : ¬ Atomic db₀ db orderId accountId := by
  obtain ⟨o, ho, hst⟩ := h.order
  intro hatomic
  rcases hatomic with hnot | ⟨c, _, _, _, ⟨o', ho', hvalid, _⟩, _⟩
  · obtain ⟨o', ho', hready | hinvalid⟩ := hnot.order
    · rw [ho] at ho'
      cases ho'
      rw [hst] at hready
      cases hready
    · rw [ho] at ho'
      cases ho'
      rw [hst] at hinvalid
      cases hinvalid
  · rw [ho] at ho'
    cases ho'
    rw [hst] at hvalid
    cases hvalid

/-- once the order is invalid, only a pending row is half done -/
theorem Stands.atomic_reject (h : Stands db₀ db orderId row) (e : PyError) :
    Atomic db₀ (db.updateOrder orderId (AcmeOrder.reject e) AcmeOrder.reject_id) orderId accountId ↔ ∀ r, row = some r →
      r.status ≠ .pending := by
  obtain ⟨o, ho, _⟩ := h.order
  have hget : (db.updateOrder orderId (AcmeOrder.reject e) AcmeOrder.reject_id).orders.get? orderId = some (o.reject e) :=
    Db.updateOrder_self ho
  constructor
  · intro hatomic r hr
    rcases hatomic with hnot | ⟨c, _, _, _, ⟨o', ho', hvalid, _⟩, _⟩
    · have hrow : db.csrs.get? db₀.csrs.nextKey = some r := h.queued.trans hr
      have hnew : db₀.csrs.get? r.id = none := by
        rw [Table.key_of_get? hrow]
        exact Table.get?_nextKey _
      exact hnot.queue r (Table.mem_of_get? hrow) hnew
    · rw [hget] at ho'
      cases ho'
      cases hvalid
  · intro hrow
    refine Or.inl ⟨fun c hc => ?_, ⟨o.reject e, hget, Or.inr rfl⟩, fun r hr hnew => hrow r (h.new_row hr hnew)⟩
    rw [← h.certificates]
    exact hc

/-- the row of the attempt is rewritten -/
theorem Stands.updateCsr {r : CsrRow} (h : Stands db₀ db orderId (some r)) {g : CsrRow → CsrRow}
    {hg : ∀ r, (g r).id = r.id} :
    Stands db₀ (db.updateCsr db₀.csrs.nextKey g hg) orderId (some (g r)) := by
  refine ⟨h.order, h.certificates, fun k => ?_⟩
  unfold Db.updateCsr
  rw [Table.get?_update]
  by_cases hk : k = db₀.csrs.nextKey
  · rw [if_pos hk, if_pos hk, hk, h.queued, Option.map_some]
  · rw [if_neg hk, if_neg hk, h.csrs, if_neg hk]

end Stands

/-! ### Phase by phase, from the end -/

section Phases

variable {f : Finalization} {plan : Phase → Tick} {s : Session} {db₀ : Db} {n : ℕ}

theorem failureOf_guard (t : Tick) {α : Type} (x : Except PyError α) :
    failureOf (t.guard x) = (failureOf x).or t.fault := by
  unfold Tick.guard
  cases x with
  | error e => rfl
  | ok a => cases t.fault <;> rfl

/-- the exception leaves the `try` -/
theorem atomic_failing {row : Option CsrRow} (h : Stands db₀ s.db f.orderId row) (e : PyError) :
    Atomic db₀ (drive E f plan (n + 1) (s, .failing e)).1.db f.orderId f.accountId ↔
      Handled plan e ∧ ∀ r, row = some r → r.status ≠ .pending := by
  unfold Handled
  rw [drive_succ]
  simp only [advance]
  by_cases hve : e.isValueError = true
  · rw [if_pos hve]
    cases hf : (plan (.failing e)).fault with
    | some e' =>
      simp only [drive_ended]
      exact ⟨fun hatomic => absurd hatomic h.not_atomic, fun hh => by cases hh.1.2⟩
    | none =>
      simp only [drive_ended, setDb_db]
      rw [h.atomic_reject e]
      exact ⟨fun hrow => ⟨⟨hve, trivial⟩, hrow⟩, fun hh => hh.2⟩
  · rw [if_neg hve, drive_ended]
    exact ⟨fun hatomic => absurd hatomic h.not_atomic, fun hh => absurd hh.1.1 hve⟩

/-- the claim is released: only a ValueError of the release itself leaves the row out of the queue -/
theorem atomic_releasing {r : CsrRow} (h : Stands db₀ s.db f.orderId (some r)) (hst : r.status = .signing) (e : PyError) :
    Atomic db₀ (drive E f plan (n + 2) (s, .releasing db₀.csrs.nextKey e)).1.db f.orderId f.accountId ↔
      ∃ e', (plan (.releasing db₀.csrs.nextKey e)).fault = some e' ∧ Handled plan e' := by
  rw [drive_succ]
  simp only [advance]
  cases hf : (plan (.releasing db₀.csrs.nextKey e)).fault with
  | some e' =>
    simp only
    rw [atomic_failing h e']
    refine ⟨fun hh => ⟨e', rfl, hh.1⟩, fun hh => ?_⟩
    obtain ⟨e'', heq, hhandled⟩ := hh
    cases heq
    refine ⟨hhandled, fun r' hr' => ?_⟩
    cases hr'
    rw [hst]
    decide
  | none =>
    simp only
    have hreleased : Stands db₀ (setDb s (s.db.updateCsr db₀.csrs.nextKey releaseRow releaseRow_id)).db f.orderId
        (some (releaseRow r)) := h.updateCsr
    rw [atomic_failing hreleased e]
    refine ⟨fun hh => ?_, fun hh => ?_⟩
    · have hpending : (releaseRow r).status = .pending := by
        unfold releaseRow
        rw [if_pos hst]
        rfl
      exact absurd hpending (hh.2 _ rfl)
    · obtain ⟨e', heq, _⟩ := hh
      cases heq

/-- the final commit, after the certificate is persisted -/
theorem atomic_issued {db : Db} {row : Option CsrRow} (h : Stands db₀ db f.orderId row) {issued : Issued}
    (hs : s.db = persist f.server.ca.id db₀.csrs.nextKey issued db) :
    Atomic db₀ (drive E f plan (n + 1) (s, .issued db₀.certificates.nextKey)).1.db f.orderId f.accountId ↔
      (plan (.issued db₀.certificates.nextKey)).fault = none := by
  obtain ⟨o, ho, hst⟩ := h.order
  rw [drive_succ]
  simp only [advance]
  cases hf : (plan (.issued db₀.certificates.nextKey)).fault with
  | some e =>
    simp only [drive_ended, hs, reduceCtorEq, iff_false]
    intro hatomic
    rcases hatomic with hnot | ⟨c, _, _, _, ⟨o', ho', hvalid, _⟩, _⟩
    · obtain ⟨o', ho', hor⟩ := hnot.order
      have hsame : some o' = some o := ho'.symm.trans ho
      rw [Option.some.inj hsame, hst] at hor
      rcases hor with hor | hor <;> cases hor
    · have hsame : some o' = some o := ho'.symm.trans ho
      rw [Option.some.inj hsame, hst] at hvalid
      cases hvalid
  | none =>
    simp only [drive_ended, setDb_db, hs, iff_true]
    have hkey : db.certificates.nextKey = db₀.certificates.nextKey := by rw [h.certificates]
    have hcert := @linkOrder_persist db f.orderId f.accountId f.server.ca.id db₀.csrs.nextKey issued
      (plan (.issued db₀.certificates.nextKey)).now
    rw [hkey] at hcert
    refine Or.inr ⟨_, Table.mem_of_get? hcert, Table.get?_nextKey _, rfl, ⟨_, linkOrder_order ho, rfl, rfl⟩,
      fun c hc hnew => ?_⟩
    -- every other row of the table was there before
    obtain ⟨c₀, hc₀, hc⟩ := List.mem_map.1 hc
    rcases Table.mem_insert.1 hc₀ with hold | rfl
    · rw [h.certificates] at hold
      have hid : c.id = c₀.id := by
        rw [← hc]
        split_ifs <;> rfl
      rw [hid, Table.get?_key hold] at hnew
      cases hnew
    · rw [if_pos hkey] at hc
      rw [← hc, hkey]

/-- the signature on the claimed row -/
theorem atomic_claimed {r : CsrRow} (h : Stands db₀ s.db f.orderId (some r)) (hst : r.status = .signing) :
    Atomic db₀ (drive E f plan (n + 3) (s, .claimed db₀.csrs.nextKey)).1.db f.orderId f.accountId ↔
      (∃ e e', (failureOf (CertService.signClaimed f.server.names f.server.ca r [] f.verdicts
          (plan (.claimed db₀.csrs.nextKey)).now)).or (plan (.claimed db₀.csrs.nextKey)).fault = some e ∧
        (plan (.releasing db₀.csrs.nextKey e)).fault = some e' ∧ Handled plan e') ∨
      (failureOf (CertService.signClaimed f.server.names f.server.ca r [] f.verdicts
          (plan (.claimed db₀.csrs.nextKey)).now)).or (plan (.claimed db₀.csrs.nextKey)).fault = none ∧
        (plan (.issued db₀.certificates.nextKey)).fault = none := by
  have hfail : failureOf ((plan (.claimed db₀.csrs.nextKey)).guard
      (signRow f db₀.csrs.nextKey (plan (.claimed db₀.csrs.nextKey)).now s.db)) =
      (failureOf (CertService.signClaimed f.server.names f.server.ca r [] f.verdicts
        (plan (.claimed db₀.csrs.nextKey)).now)).or (plan (.claimed db₀.csrs.nextKey)).fault := by
    rw [failureOf_guard]
    unfold signRow
    simp only [h.queued]
    cases CertService.signClaimed f.server.names f.server.ca r [] f.verdicts (plan (.claimed db₀.csrs.nextKey)).now <;> rfl
  rw [← hfail, drive_succ]
  simp only [advance]
  cases hg : (plan (.claimed db₀.csrs.nextKey)).guard
      (signRow f db₀.csrs.nextKey (plan (.claimed db₀.csrs.nextKey)).now s.db) with
  | error e =>
    simp only [failureOf]
    rw [atomic_releasing h hst e]
    simp
  | ok res =>
    obtain ⟨db, certId⟩ := res
    obtain ⟨r', issued, _, _, hdb, hcert⟩ := signRow_ok (guard_ok.1 hg).1
    simp only [failureOf]
    rw [hcert, h.certificates, @atomic_issued E f plan (setDb s db) db₀ (n + 1) s.db _ h issued hdb]
    simp

/-- the checks and the claim: a failure here leaves the row in the queue -/
theorem atomic_named {r : CsrRow} (h : Stands db₀ s.db f.orderId (some r)) (hst : r.status = .pending) :
    Atomic db₀ (drive E f plan (n + 4) (s, .named db₀.csrs.nextKey)).1.db f.orderId f.accountId ↔
      (failureOf f.urls).or ((failureOf (CertService.checkCsr f.server.names f.server.cas f.server.ca r [] f.verdicts)).or
        (plan (.named db₀.csrs.nextKey)).fault) = none ∧
      Atomic db₀ (drive E f plan (n + 3) (setDb (s.recordSigning f.orderId)
        (s.db.updateCsr db₀.csrs.nextKey (setRowStatus .signing) setRowStatus_id), .claimed db₀.csrs.nextKey)).1.db
          f.orderId f.accountId := by
  have hfailing : ∀ {s' : Session} {e : PyError} {m : ℕ}, s'.db = s.db →
      ¬ Atomic db₀ (drive E f plan (m + 1) (s', .failing e)).1.db f.orderId f.accountId := by
    intro s' e m hs' hatomic
    have h' : Stands db₀ s'.db f.orderId (some r) := by rw [hs']; exact h
    exact ((atomic_failing h' e).1 hatomic).2 r rfl hst
  rw [drive_succ]
  simp only [advance]
  cases hu : f.urls with
  | error e =>
    simp only [failureOf, Option.some_or, reduceCtorEq, false_and, iff_false]
    exact hfailing rfl
  | ok u =>
    have hcheck : checkRow f db₀.csrs.nextKey s.db =
        CertService.checkCsr f.server.names f.server.cas f.server.ca r [] f.verdicts := by
      unfold checkRow
      simp only [h.queued]
    simp only [Session.recordSigning_db, hcheck]
    cases hc : CertService.checkCsr f.server.names f.server.cas f.server.ca r [] f.verdicts with
    | error e =>
      simp only [failureOf, Option.none_or, Option.some_or, reduceCtorEq, false_and, iff_false]
      exact hfailing (Session.recordSigning_db s f.orderId)
    | ok u =>
      have hclaim : claimRow db₀.csrs.nextKey s.db =
        .ok (s.db.updateCsr db₀.csrs.nextKey (setRowStatus .signing) setRowStatus_id) := by
        unfold claimRow
        simp only [h.queued, hst, if_true]
      simp only [hclaim, failureOf, Option.none_or]
      unfold Tick.guard
      cases hf : (plan (.named db₀.csrs.nextKey)).fault with
      | some e =>
        simp only [reduceCtorEq, false_and, iff_false]
        exact hfailing (Session.recordSigning_db s f.orderId)
      | none => simp

/-- the row gets its name: a failure here leaves it in the queue -/
theorem atomic_imported {csr : Csr} {wanted : List Text} {r : CsrRow} (h : Stands db₀ s.db f.orderId (some r))
    (hst : r.status = .pending) :
    Atomic db₀ (drive E f plan (n + 5) (s, .imported db₀.csrs.nextKey csr wanted)).1.db f.orderId f.accountId ↔
      ∃ cn, rowCommonName f.server.names.uni csr wanted = .ok cn ∧
        (plan (.imported db₀.csrs.nextKey csr wanted)).fault = none ∧
        Atomic db₀ (drive E f plan (n + 4)
          (setDb s (s.db.updateCsr db₀.csrs.nextKey (nameRow cn f.server.ca.id) nameRow_id),
          .named db₀.csrs.nextKey)).1.db f.orderId f.accountId := by
  have hfailing : ∀ e m, ¬ Atomic db₀ (drive E f plan (m + 1) (s, .failing e)).1.db f.orderId f.accountId :=
    fun e m hatomic => ((atomic_failing h e).1 hatomic).2 r rfl hst
  rw [drive_succ]
  simp only [advance]
  unfold renameRow
  cases hcn : rowCommonName f.server.names.uni csr wanted with
  | error e =>
    simp only [reduceCtorEq, false_and, exists_false, iff_false]
    exact hfailing e _
  | ok cn =>
    cases hf : (plan (.imported db₀.csrs.nextKey csr wanted)).fault with
    | some e =>
      simp only [reduceCtorEq, false_and, and_false, exists_false, iff_false]
      unfold Tick.guard
      simp only [hf]
      exact hfailing e _
    | none =>
      unfold Tick.guard
      simp only [hf]
      constructor
      · intro hatomic
        exact ⟨cn, rfl, trivial, hatomic⟩
      · intro hatomic
        obtain ⟨cn', heq, _, hatomic⟩ := hatomic
        cases heq
        exact hatomic

/-- the CSR row is created: a failure here leaves no row -/
theorem atomic_processing {csr : Csr} {wanted : List Text} (h : Stands db₀ s.db f.orderId none)
    (hcsr : (s.db.orders.get? f.orderId).bind (·.csr) = some csr) (hkey : s.db.csrs.nextKey = db₀.csrs.nextKey) :
    Atomic db₀ (drive E f plan (n + 6) (s, .processing csr wanted)).1.db f.orderId f.accountId ↔
      (∃ e, createFailure f plan csr wanted = some e ∧ Handled plan e) ∨
      createFailure f plan csr wanted = none ∧
        Atomic db₀ (drive E f plan (n + 5)
          (setDb s (s.db.insertCsr (CertService.importCsr f.server.names csr) CertService.importCsr_id),
          .imported db₀.csrs.nextKey csr wanted)).1.db f.orderId f.accountId := by
  have hfailing : ∀ e m, Atomic db₀ (drive E f plan (m + 1) (s, .failing e)).1.db f.orderId f.accountId ↔
    Handled plan e := by
    intro e m
    rw [atomic_failing h e]
    exact ⟨fun hh => hh.1, fun hh => ⟨hh, nofun⟩⟩
  rw [drive_succ]
  simp only [advance]
  unfold importRow createFailure
  simp only [hcsr, hkey]
  cases hi : f.importable with
  | error e =>
    simp only [failureOf, Option.some_or]
    refine (hfailing e _).trans ?_
    simp
  | ok u =>
    simp only [failureOf, Option.none_or]
    unfold Tick.guard
    cases hf : (plan (.processing csr wanted)).fault with
    | some e =>
      refine (hfailing e _).trans ?_
      simp
    | none =>
      simp only [reduceCtorEq, false_and, exists_false, false_or, true_and]
      exact Iff.rfl

end Phases

/-- the state once `processing` is committed -/
theorem stands_processing {db : Db} {orderId : ℤ} {o : AcmeOrder} (ho : db.orders.get? orderId = some o) (csr : Csr) :
    Stands db (db.updateOrder orderId (AcmeOrder.process csr) AcmeOrder.process_id) orderId none := by
  refine ⟨⟨_, Db.updateOrder_self ho, rfl⟩, rfl, fun k => ?_⟩
  by_cases hk : k = db.csrs.nextKey
  · rw [if_pos hk, hk]
    exact Table.get?_nextKey _
  · rw [if_neg hk]
    rfl

/-- the state once the CSR row is created -/
theorem Stands.insertCsr {db₀ db : Db} {orderId : ℤ} (h : Stands db₀ db orderId none)
    (hkey : db.csrs.nextKey = db₀.csrs.nextKey)
    {mk : ℤ → CsrRow} {hmk : ∀ k, (mk k).id = k} :
    Stands db₀ (db.insertCsr mk hmk) orderId (some (mk db₀.csrs.nextKey)) := by
  refine ⟨h.order, h.certificates, fun k => ?_⟩
  unfold Db.insertCsr
  rw [Table.get?_insert, hkey]
  by_cases hk : k = db₀.csrs.nextKey
  · rw [if_pos hk, if_pos hk]
  · rw [if_neg hk, if_neg hk, h.csrs, if_neg hk]

/-- nothing was committed -/
theorem atomic_refl {db : Db} {orderId accountId : ℤ} {o : AcmeOrder} (ho : db.orders.get? orderId = some o)
    (hready : o.status = .ready) : Atomic db db orderId accountId := by
  refine Or.inl ⟨fun c hc => hc, ⟨o, ho, Or.inl hready⟩, fun r hr hnew => ?_⟩
  rw [Table.get?_key hr] at hnew
  cases hnew

/-- **(2) When finalize is atomic.** For a ready order and a CSR that passes the checks, wherever the request fails: the
committed state is all or nothing exactly when the failure is one the code cleans up after. -/
theorem atomic_iff {f : Finalization} {plan : Phase → Tick} {s : Session} {o : AcmeOrder} {csr : Csr} {wanted : List Text}
    (ho : s.db.orders.get? f.orderId = some o) (hready : o.status = .ready)
    (hchecks : begin E f (plan .start) s.db = .checked csr wanted) :
    Atomic s.db (finalize E f plan s).1.db f.orderId f.accountId ↔ Survives f plan csr wanted s.db := by
  unfold finalize Survives
  rw [drive_succ]
  simp only [advance, hchecks]
  rw [drive_succ]
  simp only [advance]
  cases hf : (plan (.checked csr wanted)).fault with
  | some e =>
    simp only [drive_ended]
    exact ⟨fun _ => Or.inl (by simp), fun _ => atomic_refl ho hready⟩
  | none =>
    have h₁ := stands_processing ho csr
    have hcsr : ((s.db.updateOrder f.orderId (AcmeOrder.process csr) AcmeOrder.process_id).orders.get? f.orderId).bind
      (·.csr) = some csr := by
      rw [Db.updateOrder_self ho]
      rfl
    have h₂ := @Stands.insertCsr _ _ f.orderId h₁ rfl (CertService.importCsr f.server.names csr) (fun _ => rfl)
    refine (@atomic_processing E f plan
      (setDb s (s.db.updateOrder f.orderId (AcmeOrder.process csr) AcmeOrder.process_id)) s.db 0 csr wanted h₁
      hcsr rfl).trans ?_
    refine Iff.trans ?_ (or_iff_right (fun hne => hne rfl)).symm
    refine or_congr Iff.rfl (and_congr_right fun _ => ?_)
    refine (atomic_imported h₂ rfl).trans ?_
    unfold queueFailure signFailure queuedRow
    cases hcn : rowCommonName f.server.names.uni csr wanted with
    | error e => simp [bind, Except.bind]
    | ok cn =>
      have h₃ := @Stands.updateCsr _ _ f.orderId _ h₂ (nameRow cn f.server.ca.id) (fun _ => rfl)
      have h₄ := @Stands.updateCsr _ _ f.orderId _ h₃ (setRowStatus .signing) (fun _ => rfl)
      let named : Session := setDb s ((s.db.updateOrder f.orderId (AcmeOrder.process csr) AcmeOrder.process_id).insertCsr
        (CertService.importCsr f.server.names csr) |>.updateCsr s.db.csrs.nextKey (nameRow cn f.server.ca.id) nameRow_id)
      have hnamed := @atomic_named E f plan named s.db 0 _ h₃ rfl
      have hclaimed := @atomic_claimed E f plan (setDb (named.recordSigning f.orderId)
        (named.db.updateCsr s.db.csrs.nextKey (setRowStatus .signing) setRowStatus_id)) s.db 0 _ h₄ rfl
      simp only [bind, Except.bind, Option.or_eq_none_iff] at hnamed hclaimed ⊢
      constructor
      · intro hatomic
        obtain ⟨cn', heq, hfault, hatomic⟩ := hatomic
        cases heq
        obtain ⟨hqueue, hatomic⟩ := hnamed.1 hatomic
        exact ⟨⟨hfault, hqueue⟩, hclaimed.1 hatomic⟩
      · intro hsurvives
        obtain ⟨⟨hfault, hqueue⟩, hsign⟩ := hsurvives
        exact ⟨cn, rfl, hfault, hnamed.2 ⟨hqueue, hclaimed.2 hsign⟩⟩

/-- the theorem applies: a request without failures is atomic -/
theorem smooth_atomic :
    Atomic readyDb (finalize sampleEnv (sampleRequest oneNameCsr) smoothPlan ⟨readyDb, []⟩).1.db 1 1 :=
  (@atomic_iff sampleEnv (sampleRequest oneNameCsr) smoothPlan ⟨readyDb, []⟩ (readyOrder 1) oneNameCsr
    ["a.example".toList] rfl rfl rfl).2 (Or.inr (Or.inr ⟨rfl, rfl, Or.inr ⟨rfl, rfl⟩⟩))

/-! ## (3) A failure that is not cleaned up after -/

/-- the database refuses the last commit -/
def lastCommitFails : Phase → Tick
  | .issued _ => ⟨0, 0, some (.other "OperationalError")⟩
  | _ => ⟨0, 0, none⟩

/-- **A certificate that no order points to.** The order is ready and the CSR passes the checks; the last commit fails, the
order stays in processing, and the certificate is there, without its account. -/
theorem crash_before_link :
    begin sampleEnv (sampleRequest oneNameCsr) (lastCommitFails .start) readyDb = .checked oneNameCsr ["a.example".toList] ∧
      ¬ Atomic readyDb (finalize sampleEnv (sampleRequest oneNameCsr) lastCommitFails ⟨readyDb, []⟩).1.db 1 1 := by
  refine ⟨rfl, fun hatomic => ?_⟩
  have horder : (finalize sampleEnv (sampleRequest oneNameCsr) lastCommitFails ⟨readyDb, []⟩).1.db.orders.get? 1 =
      some ((readyOrder 1).process oneNameCsr) := rfl
  rcases hatomic with hnot | ⟨c, _, _, _, ⟨o, ho, hvalid, _⟩, _⟩
  · obtain ⟨o, ho, hor⟩ := hnot.order
    rw [horder] at ho
    cases ho
    rcases hor with hor | hor <;> cases hor
  · rw [horder] at ho
    cases ho
    cases hvalid

end FinalizeAtomic

end Chancery.Acme
