/-
Expiry events (app/services/scheduler_service.py: `_expiry_details`, `_due_for_expiry_event`, `job_expiry_events`) and what
moves a notAfter under them: `_promote_reissue` (app/services/ca_service.py) and `flask certs recompute-expiry`
(app/cli.py).

Certificates and CAs share one row type with the columns the job reads; `info` has the others. Each item of the job is
committed with its audit row, or rolled back with it: `fails` says which are, so a job that dies is one that fails from
there on. The audit rows kept here are the events; the summary of the job is left out.
-/
import Mathlib.Tactic
import Chancery.Core.Py
import Chancery.Core.Run
import Chancery.Core.Table

namespace Chancery.ExpiryEvents

open Chancery.Core

/-! ## Certificates, CAs and events -/

inductive TargetType
  | certificate
  | ca
deriving DecidableEq, Repr

/-- the columns of a certificate that the job does not search by; `pemNotAfter` is the notAfter in the PEM, none if it
cannot be read -/
structure CertInfo where
  commonName : String
  serialNumber : String
  caId : ℤ
  renewedFromId : Option ℤ
  pemNotAfter : Option DateTime
deriving DecidableEq, Repr

structure CaInfo where
  name : String
  commonName : String
  isRoot : Bool
deriving DecidableEq, Repr

structure ExpiryRow (ι : Type) where
  id : ℤ
  notAfter : DateTime
  isRevoked : Bool
  expiryNotifiedAt : Option DateTime
  info : ι
deriving DecidableEq

abbrev CertTable := Table (@ExpiryRow.id CertInfo)
abbrev CaTable := Table (@ExpiryRow.id CaInfo)

/-- the details of an event -/
inductive ExpiryDetails
  | certificate (commonName serialNumber : String) (notAfter : DateTime) (daysLeft : ℤ) (caId : ℤ)
  | ca (name commonName : String) (notAfter : DateTime) (daysLeft : ℤ) (isRoot : Bool)
deriving DecidableEq

def ExpiryDetails.notAfter : ExpiryDetails → DateTime
  | .certificate _ _ t _ _ => t
  | .ca _ _ t _ _ => t

/-- an audit row with the action `{target}_expired` or `{target}_expiring` -/
structure ExpiryEvent where
  target : TargetType
  expired : Bool
  targetId : ℤ
  details : ExpiryDetails
deriving DecidableEq

/-- a model of the job's loop, with `_expiry_details` -/
structure ExpiryModel (ι : Type) where
  target : TargetType
  details : ExpiryRow ι → DateTime → ExpiryDetails
  details_notAfter : ∀ r now, (details r now).notAfter = r.notAfter

def certificateModel : ExpiryModel CertInfo where
  target := .certificate
  details r now :=
    .certificate r.info.commonName r.info.serialNumber r.notAfter (daysBetween r.notAfter now) r.info.caId
  details_notAfter _ _ := rfl

def caModel : ExpiryModel CaInfo where
  target := .ca
  details r now := .ca r.info.name r.info.commonName r.notAfter (daysBetween r.notAfter now) r.info.isRoot
  details_notAfter _ _ := rfl

/-! ## The job -/

/-- `model.renewals.any()` -/
def superseded (certs : CertTable) (id : ℤ) : Bool := certs.rows.any (·.info.renewedFromId = some id)

section Pass

variable {ι : Type} (M : ExpiryModel ι) (now : DateTime) (warningDays : ℤ) (skipped fails : ℤ → Bool)

/-- the filter of `_due_for_expiry_event`; `skipped` are the superseded certificates -/
def ExpiryRow.due (r : ExpiryRow ι) : Bool :=
  !r.isRevoked && !skipped r.id &&
    ((decide (r.notAfter ≤ now) && r.expiryNotifiedAt.all (· < r.notAfter)) ||
      (decide (now < r.notAfter) && decide (r.notAfter ≤ now + warningDays * day) && r.expiryNotifiedAt.isNone))

/-- `_due_for_expiry_event` -/
def dueForExpiryEvent (t : Table (@ExpiryRow.id ι)) : List (ExpiryRow ι) :=
  (t.rows.filter (·.due now warningDays skipped)).insertionSort (·.notAfter ≤ ·.notAfter)

def ExpiryRow.notified (r : ExpiryRow ι) : ExpiryRow ι := { r with expiryNotifiedAt := some now }

/-- one item of the loop -/
def notify (s : Table (@ExpiryRow.id ι) × List ExpiryEvent) (id : ℤ) : Table (@ExpiryRow.id ι) × List ExpiryEvent :=
  if fails id then s
  else
    match s.1.get? id with
    | none => s
    | some r =>
      (s.1.update id (·.notified now), s.2 ++ [⟨M.target, decide (r.notAfter ≤ now), id, M.details r now⟩])

/-- the items of one model -/
def expiryPass (s : Table (@ExpiryRow.id ι) × List ExpiryEvent) : Table (@ExpiryRow.id ι) × List ExpiryEvent :=
  ((dueForExpiryEvent now warningDays skipped s.1).map (·.id)).foldl (notify M now fails) s

end Pass

/-! ## Steps -/

structure ExpiryState where
  certs : CertTable
  cas : CaTable
  audit : List ExpiryEvent

/-- `job_expiry_events` -/
def jobExpiryEvents (now : DateTime) (warningDays : ℤ) (fails : TargetType → ℤ → Bool) (s : ExpiryState) : ExpiryState :=
  let (certs, audit) :=
    expiryPass certificateModel now warningDays (superseded s.certs) (fails .certificate) (s.certs, s.audit)
  let (cas, audit) := expiryPass caModel now warningDays (fun _ => false) (fails .ca) (s.cas, audit)
  ⟨certs, cas, audit⟩

inductive ExpiryOp
  | job (now : DateTime) (warningDays : ℤ) (fails : TargetType → ℤ → Bool)
  /-- a new certificate; a renewal names its predecessor -/
  | issue (notAfter : DateTime) (info : CertInfo)
  | createCa (notAfter : DateTime) (info : CaInfo)
  | revokeCertificate (id : ℤ)
  | revokeCa (id : ℤ)
  /-- a re-issued certificate becomes the primary one -/
  | reissue (id : ℤ) (notAfter : DateTime)
  | recomputeExpiry (dryRun : Bool)

/-- the loop body of `recompute_expiry` -/
def recomputed (r : ExpiryRow CertInfo) : ExpiryRow CertInfo :=
  match r.info.pemNotAfter with
  | none => r
  | some real => if r.notAfter ≠ real then { r with notAfter := real } else r

/-- what `_promote_reissue` writes -/
def promoted (notAfter : DateTime) (ca : ExpiryRow CaInfo) : ExpiryRow CaInfo :=
  { ca with notAfter, expiryNotifiedAt := none }

def ExpiryRow.revoked {ι : Type} (r : ExpiryRow ι) : ExpiryRow ι := { r with isRevoked := true }

theorem recomputed_id (r : ExpiryRow CertInfo) : (recomputed r).id = r.id := by
  unfold recomputed
  split
  · rfl
  · split_ifs <;> rfl

def expiryStep (s : ExpiryState) : ExpiryOp → ExpiryState
  | .job now warningDays fails => jobExpiryEvents now warningDays fails s
  | .issue notAfter info => { s with certs := s.certs.insert fun id => ⟨id, notAfter, false, none, info⟩ }
  | .createCa notAfter info => { s with cas := s.cas.insert fun id => ⟨id, notAfter, false, none, info⟩ }
  | .revokeCertificate id => { s with certs := s.certs.update id (·.revoked) }
  | .revokeCa id => { s with cas := s.cas.update id (·.revoked) }
  | .reissue id notAfter =>
    match s.cas.get? id with
    | none => s
    | some ca =>
      -- "A revoked CA cannot be re-issued."
      if ca.isRevoked then s else { s with cas := s.cas.update id (promoted notAfter) }
  | .recomputeExpiry dryRun =>
    if dryRun then s else { s with certs := s.certs.mapRows recomputed recomputed_id }

end Chancery.ExpiryEvents
