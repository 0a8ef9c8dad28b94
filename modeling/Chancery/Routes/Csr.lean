/-
Signing and rejecting a CSR (`sign` and `reject` of app/routes/csr.py, with `_claim_csr`, `_release_csr` and
`_sign_claimed_csr` of app/services/cert_service.py).

A request stands between two accesses to the database (`CsrPhase`). A sign request reads the row and checks it, claims it
by an UPDATE with a condition, reads it again, signs, and commits the certificate together with the approved row; when
something fails after the claim, it releases the row by another UPDATE with a condition. A reject request reads the row,
checks it, and commits an UPDATE without one. An UPDATE and its commit are one step: until the commit the database lets
no one else write, and shows the others what was there before.

`CsrEffect` says once what a step can do (`step_effect`). The log of issued certificates is not in the code.
-/
import Mathlib.Tactic
import Chancery.Core.Workers
import Chancery.Services.Acme.Finalize

namespace Chancery.CsrRoutes

open Chancery.Core
open Chancery.Acme (Db Tick claimRow releaseRow releaseRow_id setRowStatus setRowStatus_id approveRow persist)

/-- a sign request: its form, and what it reads besides the CSR row -/
structure SignRequest where
  /-- the permissions, the form, the profile and the URLs -/
  accepted : Except PyError Unit
  cas : CaTable
  ca : IssuingCa
  sanList : List Text
  verdicts : Verdicts

inductive CsrJob
  | sign (csrId : ℤ) (req : SignRequest)
  | reject (csrId : ℤ)

def CsrJob.csrId : CsrJob → ℤ
  | .sign csrId _ => csrId
  | .reject csrId => csrId

inductive Answer
  | issued (certId : ℤ)
  | rejected
  | refused (e : PyError)

inductive CsrPhase
  | start
  /-- the row was pending when it was read, and passed the checks -/
  | checked (row : CsrRow)
  | claimed (row : CsrRow)
  /-- the row as `_claim_csr` reads it again -/
  | refreshed (row : CsrRow)
  | signed (issued : Issued)
  /-- an exception after the claim -/
  | failed (e : PyError)
  /-- the row was pending when the reject request read it -/
  | rejecting
  | ended (answer : Answer)

/-- the tables, and the log of the certificates: the CSR and the certificate of each -/
structure Csrs where
  db : Db
  issued : List (ℤ × ℤ)

variable (L : NameLib)

def notFound : PyError := .other "CSR not found."

/-- the checks of the route and of `sign_csr` before the claim -/
def checkSign (req : SignRequest) (row : CsrRow) : Except PyError Unit := do
  req.accepted
  if req.ca.isRevoked then .error (.valueError "Cannot sign CSR with a revoked CA.")
  else CertService.checkCsr L req.cas req.ca row req.sanList req.verdicts

/-- the next step of a sign request -/
def signStep (csrId : ℤ) (req : SignRequest) (t : Tick) (s : Csrs) : CsrPhase → Csrs × CsrPhase
  | .start =>
    match s.db.csrs.get? csrId with
    | none => (s, .ended (.refused notFound))
    | some row =>
      if row.status ≠ .pending then (s, .ended (.refused CertService.alreadyProcessed))
      else
        match checkSign L req row with
        | .error e => (s, .ended (.refused e))
        | .ok () => (s, .checked row)
  | .checked row =>
    match t.guard (claimRow csrId s.db) with
    | .error e => (s, .ended (.refused e))
    | .ok db => ({ s with db := db }, .claimed row)
  | .claimed row =>
    match s.db.csrs.get? csrId with
    | none => (s, .ended (.refused notFound))
    | some current => (s, .refreshed { current with csr := row.csr })
  | .refreshed row =>
    match CertService.signClaimed L req.ca row req.sanList req.verdicts t.now with
    | .error e => (s, .failed e)
    | .ok issued => (s, .signed issued)
  | .signed issued =>
    match t.fault with
    | some e => (s, .failed e)
    | none =>
      (⟨persist req.ca.id csrId issued s.db, s.issued ++ [(csrId, s.db.certificates.nextKey)]⟩,
        .ended (.issued s.db.certificates.nextKey))
  | .failed e =>
    match t.fault with
    | some e' => (s, .ended (.refused e'))
    | none => ({ s with db := s.db.updateCsr csrId releaseRow releaseRow_id }, .ended (.refused e))
  | p => (s, p)

/-- the commit of a rejection: an UPDATE that finds no row is an error -/
def rejectRow (csrId : ℤ) (db : Db) : Except PyError Db :=
  match db.csrs.get? csrId with
  | none => .error (.other "StaleDataError")
  | some _ => .ok (db.updateCsr csrId (setRowStatus .rejected) setRowStatus_id)

/-- the next step of a reject request -/
def rejectStep (csrId : ℤ) (t : Tick) (s : Csrs) : CsrPhase → Csrs × CsrPhase
  | .start =>
    match s.db.csrs.get? csrId with
    | none => (s, .ended (.refused notFound))
    | some row =>
      if row.status ≠ .pending then (s, .ended (.refused CertService.alreadyProcessed)) else (s, .rejecting)
  | .rejecting =>
    match t.guard (rejectRow csrId s.db) with
    | .error e => (s, .ended (.refused e))
    | .ok db => ({ s with db := db }, .ended .rejected)
  | p => (s, p)

def csrJobStep (t : Tick) (s : Csrs) (p : CsrPhase) : CsrJob → Csrs × CsrPhase
  | .sign csrId req => signStep L csrId req t s p
  | .reject csrId => rejectStep csrId t s p

/-! ## Interleavings -/

abbrev CsrRace := Pool Csrs CsrPhase

/-- one step of request `o.1`, each with its job -/
def csrStep (jobs : ℕ → CsrJob) (r : CsrRace) (o : ℕ × Tick) : CsrRace :=
  r.act (fun i t s p => csrJobStep L t s p (jobs i)) o

def csrStart (db : Db) : CsrRace := ⟨⟨db, []⟩, fun _ => .start⟩

/-! ## What a step does -/

/-- the request has claimed the row -/
def CsrPhase.holds : CsrPhase → Bool
  | .claimed _ => true
  | .refreshed _ => true
  | .signed _ => true
  | .failed _ => true
  | _ => false

inductive CsrEffect (csrId : ℤ) (s : Csrs) (p : CsrPhase) : Csrs → CsrPhase → Prop
  /-- nothing is written -/
  | quiet {p'} (hholds : p'.holds = true → p.holds = true) (hrejected : p' = .ended .rejected → p = .ended .rejected) :
      CsrEffect csrId s p s p'
  | claim {row kept} (hrow : s.db.csrs.get? csrId = some row) (hpending : row.status = .pending) :
      CsrEffect csrId s p { s with db := s.db.updateCsr csrId (setRowStatus .signing) setRowStatus_id } (.claimed kept)
  | approve {caId issued} (hsigned : p = .signed issued) :
      CsrEffect csrId s p ⟨persist caId csrId issued s.db, s.issued ++ [(csrId, s.db.certificates.nextKey)]⟩
        (.ended (.issued s.db.certificates.nextKey))
  | release {e e'} (hfailed : p = .failed e) :
      CsrEffect csrId s p { s with db := s.db.updateCsr csrId releaseRow releaseRow_id } (.ended (.refused e'))
  | reject {row} (hrejecting : p = .rejecting) (hrow : s.db.csrs.get? csrId = some row) :
      CsrEffect csrId s p { s with db := s.db.updateCsr csrId (setRowStatus .rejected) setRowStatus_id } (.ended .rejected)

variable {L}

theorem signStep_effect (csrId : ℤ) (req : SignRequest) (t : Tick) (s : Csrs) (p : CsrPhase) :
    CsrEffect csrId s p (signStep L csrId req t s p).1 (signStep L csrId req t s p).2 := by
  cases p with
  | start =>
    unfold signStep
    cases s.db.csrs.get? csrId with
    | none => exact .quiet nofun nofun
    | some row =>
      simp only
      split_ifs
      · exact .quiet nofun nofun
      · cases checkSign L req row with
        | error e => exact .quiet nofun nofun
        | ok u => exact .quiet nofun nofun
  | checked row =>
    unfold signStep
    simp only
    cases hclaim : t.guard (claimRow csrId s.db) with
    | error e => exact .quiet nofun nofun
    | ok db =>
      obtain ⟨current, hrow, hpending, rfl⟩ := Acme.claimRow_ok (Acme.guard_ok.1 hclaim).1
      exact .claim hrow hpending
  | claimed row =>
    unfold signStep
    simp only
    cases s.db.csrs.get? csrId with
    | none => exact .quiet nofun nofun
    | some current => exact .quiet (fun _ => rfl) nofun
  | refreshed row =>
    unfold signStep
    simp only
    cases CertService.signClaimed L req.ca row req.sanList req.verdicts t.now with
    | error e => exact .quiet (fun _ => rfl) nofun
    | ok issued => exact .quiet (fun _ => rfl) nofun
  | signed issued =>
    unfold signStep
    cases t.fault with
    | some e => exact .quiet (fun _ => rfl) nofun
    | none => exact .approve rfl
  | failed e =>
    unfold signStep
    cases t.fault with
    | some e' => exact .quiet nofun nofun
    | none => exact .release rfl
  | rejecting => exact .quiet id id
  | ended answer => exact .quiet id id

theorem rejectStep_effect (csrId : ℤ) (t : Tick) (s : Csrs) (p : CsrPhase) :
    CsrEffect csrId s p (rejectStep csrId t s p).1 (rejectStep csrId t s p).2 := by
  cases p with
  | start =>
    unfold rejectStep
    cases s.db.csrs.get? csrId with
    | none => exact .quiet nofun nofun
    | some row =>
      simp only
      split_ifs
      · exact .quiet nofun nofun
      · exact .quiet nofun nofun
  | rejecting =>
    unfold rejectStep
    simp only
    cases hreject : t.guard (rejectRow csrId s.db) with
    | error e => exact .quiet nofun nofun
    | ok db =>
      have hwrite := (Acme.guard_ok.1 hreject).1
      unfold rejectRow at hwrite
      cases hrow : s.db.csrs.get? csrId with
      | none => rw [hrow] at hwrite; cases hwrite
      | some row =>
        rw [hrow] at hwrite
        cases hwrite
        exact .reject rfl hrow
  | _ => exact .quiet id id

/-- **What a step does.** -/
theorem step_effect (job : CsrJob) (t : Tick) (s : Csrs) (p : CsrPhase) :
    CsrEffect job.csrId s p (csrJobStep L t s p job).1 (csrJobStep L t s p job).2 := by
  cases job with
  | sign csrId req => exact signStep_effect csrId req t s p
  | reject csrId => exact rejectStep_effect csrId t s p

end Chancery.CsrRoutes
