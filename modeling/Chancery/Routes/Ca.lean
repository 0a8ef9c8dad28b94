/-
The requests that change the CA hierarchy (app/routes/ca.py, app/routes/certificates.py, sign of app/routes/csr.py, the CRL
endpoint of app/routes/public.py, job_crl_refresh of app/services/scheduler_service.py, `crl refresh` of app/cli.py),
handled one at a time.

`handle` commits what a request commits and reports what it raised: a refusal, or a CRL refresh that failed after the commit
(the code turns the latter into a warning).
-/
import Mathlib.Tactic
import Chancery.Core.Run
import Chancery.Services.CaService

namespace Chancery.Pki

open Chancery.Core

/-! ## Leaf certificates -/

/-- the form of an issuance, with the serial number the server draws -/
structure LeafForm where
  attrs : CertService.SubjectAttrs
  sanList : List Text
  validityDays : ℤ
  verdicts : Verdicts
  serialNumber : ℤ

/-- the validity check, with its outcome -/
def LeafForm.verdictsAt (form : LeafForm) (env : Env) (ca : CaRow) : Verdicts :=
  { form.verdicts with validity := (boundedNotAfter env .leaf form.validityDays (some ca.notAfter)).map fun _ => () }

def newLeaf (env : Env) (ca : CaRow) (form : LeafForm) (issued : Issued) (escrowed : Bool) (renewedFrom : Option ℤ)
    (notAfter : DateTime) (id : ℤ) : LeafRow where
  id := id
  caId := ca.id
  issued := issued
  issuanceSource := none
  acmeAccountId := none
  serialNumber := formatHex form.serialNumber
  keyEscrowed := escrowed
  notBefore := wholeSeconds env.now
  notAfter := wholeSeconds notAfter
  isRevoked := false
  revokedAt := none
  revocationReason := none
  renewedFromId := renewedFrom

theorem newLeaf_id {env : Env} {ca : CaRow} {form : LeafForm} {issued : Issued} {escrowed : Bool} {renewedFrom : Option ℤ}
    {notAfter : DateTime} (id : ℤ) : (newLeaf env ca form issued escrowed renewedFrom notAfter id).id = id := rfl

/-- the INSERT of a certificate: its serial number is unique -/
def addLeaf (env : Env) (ca : CaRow) (form : LeafForm) (issued : Issued) (escrowed : Bool) (renewedFrom : Option ℤ)
    (s : Db) : Except PyError Db := do
  let notAfter ← boundedNotAfter env .leaf form.validityDays (some ca.notAfter)
  if s.leaves.rows.any (·.serialNumber == formatHex form.serialNumber) then .error (.other "IntegrityError")
  else .ok { s with leaves := s.leaves.insert (newLeaf env ca form issued escrowed renewedFrom notAfter) newLeaf_id }

def caNotFound : PyError := .other "CA not found."

/-- `create` of app/routes/certificates.py -/
def createCertificate (lib : Lib) (env : Env) (caId : ℤ) (form : LeafForm) (s : Db) : Except PyError Db :=
  match s.cas.get? caId with
  | none => .error caNotFound
  | some ca =>
    if ca.isRevoked then .error (.valueError "Cannot issue certificates from a revoked CA.")
    else do
      env.checks
      let issued ← CertService.createCertificate lib.names s.issuing ca.issuing form.attrs form.sanList
        (form.verdictsAt env ca) env.now
      addLeaf env ca form issued true none s

def approveCsr (certId caId : ℤ) (row : CsrRow) : CsrRow :=
  { row with status := .approved, certificateId := some certId, caId := some caId }

theorem Db.approveCsr_id (s : Db) (ca : CaRow) (row : CsrRow) : (approveCsr s.leaves.nextKey ca.id row).id = row.id := rfl

/-- `sign_csr` and its commit -/
def signRow (lib : Lib) (env : Env) (row : CsrRow) (ca : CaRow) (form : LeafForm) (s : Db) : Except PyError Db := do
  let issued ← CertService.signCsr lib.names s.issuing ca.issuing row form.sanList (form.verdictsAt env ca) env.now
  let s' ← addLeaf env ca form issued false none s
  .ok { s' with csrs := s'.csrs.update row.id (approveCsr s.leaves.nextKey ca.id) (s.approveCsr_id ca) }

/-- `sign` of app/routes/csr.py: a CSR may have waited for any time -/
def signCsr (lib : Lib) (env : Env) (csrId caId : ℤ) (form : LeafForm) (s : Db) : Except PyError Db :=
  match s.csrs.get? csrId with
  | none => .error (.other "CSR not found.")
  | some row =>
    if row.status ≠ .pending then .error CertService.alreadyProcessed
    else
      match s.cas.get? caId with
      | none => .error caNotFound
      | some ca =>
        if ca.isRevoked then .error (.valueError "Cannot sign CSR with a revoked CA.")
        else do
          env.checks
          signRow lib env row ca form s

/-- `_ca_available` of app/routes/acme.py -/
def CaRow.acmeAvailable (ca : CaRow) : Bool :=
  ca.acmeEnabled && !ca.isRevoked && ca.hasSigningKey && ca.approvalStatus == .approved

/-- the signature of an ACME order over its CSR row -/
def acmeSign (lib : Lib) (env : Env) (csrId caId : ℤ) (form : LeafForm) (s : Db) : Except PyError Db :=
  match s.cas.get? caId with
  | none => .error caNotFound
  | some ca =>
    if !ca.acmeAvailable then .error caNotFound
    else
      match s.csrs.get? csrId with
      | none => .error (.other "CSR not found.")
      | some row => do
        env.checks
        signRow lib env row ca form s

/-- the options of a renewal -/
structure RenewForm where
  leaf : LeafForm
  rekey : Bool
  revokeOld : Bool
  force : Bool
  /-- the name of the old certificate's profile when that is disabled -/
  disabledProfile : Option String

/-- `renew` of app/routes/certificates.py up to its commit -/
def renewLeaf (lib : Lib) (env : Env) (old : LeafRow) (ca : CaRow) (form : RenewForm) (s : Db) : Except PyError Db := do
  env.checks
  let options : CertService.Renewal :=
    ⟨old.id, (s.leaves.rows.filter (·.renewedFromId == some old.id)).map (·.id), form.force, form.rekey, old.keyEscrowed,
      old.isRevoked, form.disabledProfile⟩
  let issued ← CertService.renewCertificate lib.names s.issuing ca.issuing old.issued options
    (form.leaf.verdictsAt env ca) env.now
  let s' ← addLeaf env ca form.leaf issued old.keyEscrowed (some old.id) s
  if form.revokeOld && !old.isRevoked then revokeCertificate env.now old.id "superseded" s' else .ok s'

/-! ## Requests -/

inductive Request
  | createRoot (form : CaForm)
  | createIntermediate (parentId : ℤ) (form : CaForm)
  | importCa (form : ImportForm)
  | createCertificate (caId : ℤ) (form : LeafForm)
  | importCsr (csr : Csr)
  | signCsr (csrId caId : ℤ) (form : LeafForm)
  | acmeSign (csrId caId : ℤ) (form : LeafForm)
  | renew (certId : ℤ) (form : RenewForm)
  | reissue (caId : ℤ) (validityDays : Option ℤ) (status : ApprovalStatus) (serial : ℤ)
  | crossSign (caId issuerId : ℤ) (validityDays : Option ℤ) (status : ApprovalStatus) (serial : ℤ)
  | importAlternate (caId : ℤ) (cert : X509)
  | approve (caId : ℤ)
  | approveAlternate (caId altId : ℤ)
  | deleteAlternate (caId altId : ℤ)
  | setAcme (caId : ℤ) (enable : Bool)
  | revokeCertificate (certId : ℤ) (reason : String)
  | revokeCa (caId : ℤ) (reason : String)
  | generateCrl (caId : ℤ)
  /-- GET of the public CRL -/
  | currentCrl (caId : ℤ)
  | crlRefreshJob
  | crlRefreshCli (all : Bool)

/-- what is committed, and what was raised -/
abbrev Result := Db × Except PyError Unit

/-- a request that commits all or nothing -/
def Result.of (s : Db) : Except PyError Db → Result
  | .error e => (s, .error e)
  | .ok s' => (s', .ok ())

/-- a CRL refresh after the commit -/
def afterCommit (s : Db) (r : Except PyError Db) (refresh : Db → Except PyError Db) : Result :=
  match r with
  | .error e => (s, .error e)
  | .ok s' => Result.of s' (refresh s')

/-- the CA of the URL -/
def withCa (caId : ℤ) (s : Db) (f : CaRow → Result) : Result :=
  match s.cas.get? caId with
  | none => (s, .error caNotFound)
  | some ca => f ca

/-- the alternate of the URL -/
def withAlternate (ca : CaRow) (altId : ℤ) (s : Db) (f : CaCertRow → Result) : Result :=
  match s.alternates.get? altId with
  | none => (s, .error (.other "Alternate certificate not found."))
  | some row => if row.caId ≠ ca.id then (s, .error (.other "Alternate certificate not found.")) else f row

/-- `signing_capable().filter_by(id=…).first()` -/
def capable? (caId : ℤ) (s : Db) : Option CaRow := (s.cas.get? caId).filter (·.signingCapable)

/-- `_crl_refresh_warning_ca` -/
def refreshPrimary (env : Env) (caId : ℤ) (s : Db) : Except PyError Db :=
  match s.cas.get? caId with
  | none => .ok s
  | some ca => if !ca.hasSigningKey || ca.approvalStatus ≠ .approved then .ok s else refreshCrl env (some ca) s

/-- `approve`: the CA can sign from now on, and publishes its first CRL -/
def approveCa (env : Env) (ca : CaRow) (s : Db) : Result :=
  if ca.approvalStatus ≠ .pending then (s, .error (.other "This CA is not awaiting approval."))
  else
    match env.checks with
    | .error e => (s, .error e)
    | .ok () =>
      (publishInitialCrl env ca.id
        (s.updateCa ca.id (fun a => { a with approvalStatus := .approved }) CaRow.approve_id), .ok ())

/-- `set_acme` -/
def setAcme (env : Env) (ca : CaRow) (enable : Bool) (s : Db) : Except PyError Db :=
  if enable && !ca.acmeEnabled && (!ca.hasSigningKey || ca.isRevoked || ca.approvalStatus ≠ .approved) then
    .error (.valueError "Only an approved, unrevoked CA with a signing key can serve ACME.")
  else do
    env.checks
    .ok (s.updateCa ca.id (fun a => { a with acmeEnabled := enable }) CaRow.setAcme_id)

/-- `_current_crl`: a failed refresh serves the stale CRL -/
def currentCrl (env : Env) (ca : CaRow) (s : Db) : Db :=
  match ca.crl with
  | none => s
  | some crl =>
    if crl.nextUpdate ≤ env.now ∧ ca.isRevoked = false ∧ ca.cannotSign = false then
      (generateCrl env ca none s).toOption.getD s
    else s

/-- `crl_is_stale` -/
def crlIsStale (ca : CaRow) (now : DateTime) (beforeDays : ℤ) : Bool :=
  ca.crl.all fun crl => decide (crl.nextUpdate ≤ now + beforeDays * day)

/-- one CA of `job_crl_refresh`: a failure is skipped -/
def refreshStale (env : Env) (s : Db) (caId : ℤ) : Db :=
  match capable? caId s with
  | none => s
  | some ca =>
    if crlIsStale ca env.now env.crlRefreshBeforeDays then (generateCrl env ca none s).toOption.getD s else s

/-- `job_crl_refresh` -/
def crlRefreshJob (env : Env) (s : Db) : Db := (s.cas.rows.map (·.id)).foldl (refreshStale env) s

/-- `crl refresh`: the first failure ends it -/
def crlRefreshCli (env : Env) (all : Bool) : List ℤ → Db → Result
  | [], s => (s, .ok ())
  | caId :: rest, s =>
    match (s.cas.get? caId).filter (fun ca => !ca.isRevoked && !ca.cannotSign && (all || crlIsStale ca env.now 0)) with
    | none => crlRefreshCli env all rest s
    | some ca =>
      match generateCrl env ca none s with
      | .error e => (s, .error e)
      | .ok s' => crlRefreshCli env all rest s'

/-- `revoke` of app/routes/ca.py -/
def revokeCaRequest (env : Env) (caId : ℤ) (reason : String) (s : Db) : Result :=
  match env.checks >>= fun _ => sweepCa env.now caId reason s with
  | .error e => (s, .error e)
  | .ok x => publishRevocationCrls env caId x.db

variable (lib : Lib)

/-- one request -/
def handle (s : Db) (env : Env) : Request → Result
  | .createRoot form => Result.of s (createRootCa env form s)
  | .createIntermediate parentId form =>
    match capable? parentId s with
    | none => (s, .error (.valueError ("Parent CA not found, or it cannot sign (revoked, awaiting approval, " ++
        "or without a private key).")))
    | some parent => Result.of s (createIntermediateCa lib env form parent s)
  | .importCa form => Result.of s (Pki.importCa lib env form s)
  | .createCertificate caId form => Result.of s (Pki.createCertificate lib env caId form s)
  | .importCsr csr =>
    Result.of s (env.checks.map fun _ =>
      { s with csrs := s.csrs.insert (CertService.importCsr lib.names csr) CertService.importCsr_id })
  | .signCsr csrId caId form => Result.of s (Pki.signCsr lib env csrId caId form s)
  | .acmeSign csrId caId form => Result.of s (Pki.acmeSign lib env csrId caId form s)
  | .renew certId form =>
    match s.leaves.get? certId with
    | none => (s, .error (.other "Certificate not found."))
    | some old =>
      withCa old.caId s fun ca =>
        afterCommit s (renewLeaf lib env old ca form s) fun s' =>
          if form.revokeOld then refreshCrl env (s'.cas.get? old.caId) s' else .ok s'
  | .reissue caId days status serial =>
    withCa caId s fun ca =>
      afterCommit s (reissueCaCertificate env ca days status serial s) fun s' =>
        if status = .approved then refreshPrimary env caId s' else .ok s'
  | .crossSign caId issuerId days status serial =>
    withCa caId s fun ca =>
      match capable? issuerId s with
      | none => (s, .error (.valueError ("Issuing CA not found, or it cannot sign (revoked, awaiting approval, " ++
          "or without a private key).")))
      | some issuer => Result.of s (crossSignCa lib env ca issuer days status serial s)
  | .importAlternate caId cert =>
    withCa caId s fun ca => Result.of s (importAlternateCertificate lib ca cert s)
  | .approve caId => withCa caId s fun ca => approveCa env ca s
  | .approveAlternate caId altId =>
    withCa caId s fun ca => withAlternate ca altId s fun row =>
      afterCommit s (env.checks >>= fun _ => Pki.approveAlternate ca row s) fun s' =>
        if row.kind = .reissue then refreshPrimary env caId s' else .ok s'
  | .deleteAlternate caId altId =>
    withCa caId s fun ca => withAlternate ca altId s fun row => (s.deleteAlternate row.id, .ok ())
  | .setAcme caId enable => withCa caId s fun ca => Result.of s (Pki.setAcme env ca enable s)
  | .revokeCertificate certId reason =>
    afterCommit s (env.checks >>= fun _ => Pki.revokeCertificate env.now certId reason s) fun s' =>
      refreshCrl env ((s'.leaves.get? certId).bind fun c => s'.cas.get? c.caId) s'
  | .revokeCa caId reason => revokeCaRequest env caId reason s
  | .generateCrl caId =>
    withCa caId s fun ca =>
      if ca.isRevoked then (s, .error (.other "Cannot generate CRL for a revoked CA."))
      else Result.of s (Pki.generateCrl env ca none s)
  | .currentCrl caId => withCa caId s fun ca => (Pki.currentCrl env ca s, .ok ())
  | .crlRefreshJob => (Pki.crlRefreshJob env s, .ok ())
  | .crlRefreshCli all => Pki.crlRefreshCli env all (s.cas.rows.map (·.id)) s

/-- the tables after a request -/
def step (s : Db) (o : Env × Request) : Db := (handle lib s o.1 o.2).1

end Chancery.Pki
