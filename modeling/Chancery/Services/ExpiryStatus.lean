/-
What the pages show of a certificate's end (app/serialization.py: `days_until`, `expiry_status`; app/routes/dashboard.py:
the counts of `index` for an admin; app/services/scheduler_service.py: `_due_for_expiry_event`, over the certificates of
a list).

The badge counts whole days, rounded down. The list filter (Services/Listing), the dashboard and the scheduler compare
datetimes: the first two take a certificate as expired after its end, the scheduler takes it so from its end on.
-/
import Mathlib.Tactic
import Chancery.Services.ExpiryEvents
import Chancery.Services.Listing

namespace Chancery.ExpiryStatus

open Chancery.Core
open Chancery.ExpiryEvents
open Chancery.Listing

/-! ## The badge -/

/-- `days_until` -/
def daysUntil (t : Option DateTime) (now : DateTime) : Option ℤ := t.map (daysBetween · now)

/-- `expiry_status` -/
def expiryStatus (t : Option DateTime) (now : DateTime) (warningDays : ℤ) : String :=
  match daysUntil t now with
  | none => "unknown"
  | some d => if d < 0 then "expired" else if d ≤ warningDays then "expiring_soon" else "valid"

theorem daysBetween_neg {t now : DateTime} : daysBetween t now < 0 ↔ t < now := by
  unfold daysBetween
  have hday : (0 : ℤ) < day := by decide
  rw [Int.ediv_lt_iff_lt_mul hday, zero_mul, sub_neg]

theorem daysBetween_le {t now : DateTime} {n : ℤ} : daysBetween t now ≤ n ↔ t < now + (n + 1) * day := by
  unfold daysBetween
  have hday : (0 : ℤ) < day := by decide
  rw [← Int.lt_add_one_iff, Int.ediv_lt_iff_lt_mul hday, sub_lt_iff_lt_add']

/-! ## The dashboard -/

structure DashboardStats where
  caCount : ℕ
  certCount : ℕ
  certActive : ℕ
  certRevoked : ℕ
  certExpiringSoon : ℕ
  certExpired : ℕ
  csrPending : ℕ
  csrTotal : ℕ
deriving DecidableEq, Repr

/-- the `stats` of `index`, for an admin -/
def dashboardStats (now : DateTime) (warningDays : ℤ) (cas : List CaRow) (certs : List CertRow) (csrs : List CsrRow) :
    Except PyError DashboardStats := do
  let soon ← addDays now warningDays
  pure {
    caCount := cas.countP (!·.isRevoked)
    certCount := certs.length
    certActive := certs.countP (!·.isRevoked)
    certRevoked := certs.countP (·.isRevoked)
    certExpiringSoon := certs.countP fun r => !r.isRevoked && (decide (now ≤ r.notAfter) && decide (r.notAfter ≤ soon))
    certExpired := certs.countP fun r => !r.isRevoked && decide (r.notAfter < now)
    csrPending := csrs.countP (·.status == "pending")
    csrTotal := csrs.length }

/-! ## Classes -/

inductive ExpiryClass
  | expired
  | expiringSoon
  | valid
deriving DecidableEq, Repr

def classOf (expired expiringSoon : Bool) : ExpiryClass :=
  if expired then .expired else if expiringSoon then .expiringSoon else .valid

section Classifiers

variable (now : DateTime) (warningDays : ℤ) (r : CertRow)

/-- the badge's class -/
def badgeClass : Option ExpiryClass :=
  match expiryStatus (some r.notAfter) now warningDays with
  | "expired" => some .expired
  | "expiring_soon" => some .expiringSoon
  | "valid" => some .valid
  | _ => none

def statusArgs (status : String) : ListArgs := ⟨none, some status.toList, none, none⟩

/-- the list that shows the certificate: `?status=expired`, `?status=expiring`, or neither -/
def listClass (lib : ListLib) (L : Letters) : Except PyError ExpiryClass := do
  let expired ← filterCertificates lib L now warningDays (statusArgs "expired")
  let expiring ← filterCertificates lib L now warningDays (statusArgs "expiring")
  pure (classOf (expired r) (expiring r))

/-- what the dashboard counts the certificate as: how the counts of any certificates change by it -/
def dashboardClass (cas : List CaRow) (certs : List CertRow) (csrs : List CsrRow) : Except PyError ExpiryClass := do
  let stats ← dashboardStats now warningDays cas certs csrs
  let stats' ← dashboardStats now warningDays cas (r :: certs) csrs
  pure (classOf (decide (stats.certExpired < stats'.certExpired))
    (decide (stats.certExpiringSoon < stats'.certExpiringSoon)))

/-- the certificate as the scheduler reads it, never notified -/
def scheduled (id : ℤ) (info : CertInfo) : ExpiryRow CertInfo := ⟨id, r.notAfter, r.isRevoked, none, info⟩

/-- the event the scheduler writes for a certificate: expired, expiring, or none; `now + warning_days` may be out of
range -/
def schedulerClass (certs : CertTable) (id : ℤ) (info : CertInfo) : Except PyError ExpiryClass := do
  let _ ← addDays now warningDays
  let due := (scheduled r id info).due now warningDays (superseded certs)
  pure (classOf (due && decide (r.notAfter ≤ now)) due)

end Classifiers

end Chancery.ExpiryStatus
