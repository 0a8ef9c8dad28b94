/-
What the private keys of CAs sign.

The services and requests of Services.Crl, Services.CaService, Services.OcspResponder and Routes.Ca once more, with a log of
the signatures a CA key makes. Each signature goes through `backend_for_ca` (app/services/keybackend/__init__.py), except
the one of a root over its own certificate. A signature is logged when it is made, whatever becomes of the request
afterwards; one that the backend refuses is no use of the key.

`handle_value`: without the log, `handle` is `Pki.handle`. So every guard of the services lets through only what
`backend_for_ca` lets through too.

A revocation by ACME is `revokeCertificate`, a finalized order `acmeSign`; no other ACME request and no other job touches
the key of a CA. What a responder's own key signs is not logged.
-/
import Mathlib.Tactic
import Chancery.Core.Traced
import Chancery.Services.Ocsp
import Chancery.Services.OcspResponder
import Chancery.Routes.Ca

namespace Chancery.Pki

open Chancery.Core

inductive Signed
  /-- the certificate of a new root, by its own key -/
  | ownCertificate
  | caCertificate
  | leafCertificate
  | responderCertificate
  | crl
  | ocspResponse
deriving DecidableEq, Repr

/-- one signature, with the tables at that moment -/
structure KeyUse where
  caId : ℤ
  signed : Signed
  tables : Db

abbrev Keyed (α : Type) := Traced KeyUse PyError α

/-- a log beside a result that is no exception -/
abbrev Logged (α : Type) := List KeyUse × α

namespace Keys

open Traced

/-! ## Signatures -/

/-- `backend_for_ca` -/
def backendForCa (ca : CaRow) : Except PyError Unit :=
  if !ca.hasSigningKey then .error (.valueError "This CA has no signing key (imported certificate-only).")
  else if ca.approvalStatus = .pending then
    .error (.valueError "This CA is awaiting dual-control approval and cannot sign yet.")
  else .ok ()

/-- `backend_for_ca(ca).sign_…` -/
def signWith (ca : CaRow) (signed : Signed) (outcome : Except PyError Unit) (s : Db) : Keyed Unit := do
  lift (backendForCa ca)
  lift outcome
  emit ⟨ca.id, signed, s⟩

/-- a failure leaves the tables as they are -/
def recover (s : Db) (x : Keyed Db) : Logged Db := (x.log, x.value.toOption.getD s)

def ofLogged {α : Type} (x : Logged α) : Keyed α := ⟨x.1, .ok x.2⟩

/-! ## CRLs -/

def generateCrl (env : Env) (ca : CaRow) (nextUpdate : Option DateTime) (s : Db) : Keyed Db := do
  lift (crlAllowed ca)
  let crl ← lift (buildCrl env.now (nextUpdate.getD env.crlNextUpdate) ca s)
  signWith ca .crl (env.signCrl ca.id) s
  lift (.ok (s.updateCa ca.id (cacheCrl crl) cacheCrl_id))

def refreshCrl (env : Env) (ca? : Option CaRow) (s : Db) : Keyed Db :=
  match ca? with
  | none => lift (.ok s)
  | some ca => if ca.cannotSign then lift (.ok s) else generateCrl env ca none s

def publishFinalCrl (env : Env) (ca? : Option CaRow) (s : Db) : Keyed Db :=
  match ca? with
  | none => lift (.ok s)
  | some ca =>
    if ca.cannotSign then lift (.ok s)
    else if ca.expired env.now then lift (.ok s)
    else generateCrl env ca (some ca.notAfter) s

def publishFinalCrls (env : Env) : List ℤ → Db → Logged (Db × Except PyError Unit)
  | [], s => ([], s, .ok ())
  | i :: rest, s =>
    let x := publishFinalCrl env (s.cas.get? i) s
    match x.value with
    | .error e => (x.log, s, .error e)
    | .ok s' =>
      let y := publishFinalCrls env rest s'
      (x.log ++ y.1, y.2)

def publishRevocationCrls (env : Env) (caId : ℤ) (s : Db) : Logged (Db × Except PyError Unit) :=
  let x := refreshCrl env (((s.cas.get? caId).bind (·.parentId)).bind s.cas.get?) s
  match x.value with
  | .error e => (x.log, s, .error e)
  | .ok s' =>
    match revokedSubtree s' caId with
    | none => (x.log, s', .error (.other "RecursionError"))
    | some ids =>
      let y := publishFinalCrls env ids s'
      (x.log ++ y.1, y.2)

def publishInitialCrl (env : Env) (caId : ℤ) (s : Db) : Logged Db :=
  match s.cas.get? caId with
  | none => ([], s)
  | some ca => if ca.cannotSign then ([], s) else recover s (generateCrl env ca none s)

/-! ## CA certificates -/

/-- the backend of a root that is not in the table yet is asked directly, not through `backend_for_ca` -/
def createRootCa (env : Env) (form : CaForm) (s : Db) : Keyed Db := do
  lift (ensureNameAvailable form.name s)
  lift env.checks
  let notAfter ← lift (boundedNotAfter env .root form.validityDays none)
  emit ⟨s.cas.nextKey, .ownCertificate, s⟩
  let s' ← lift (addCa ⟨form.name, caCertificate form form.subject env.now notAfter form.pathLength, true, none, true,
    env.now, notAfter, form.pathLength, form.approvalStatus, form.constraints⟩ s)
  ofLogged (publishInitialCrl env s.cas.nextKey s')

def createIntermediateCa (lib : Lib) (env : Env) (form : CaForm) (parent : CaRow) (s : Db) : Keyed Db := do
  lift (ensureNameAvailable form.name s)
  lift (checkParent env parent)
  lift (NameConstraints.enforce lib.names s.issuing parent.issuing (some form.commonName) [])
  lift env.checks
  let pathLength ← lift (clampPathLength "The parent CA's path length is 0 — it cannot issue a sub-CA."
    parent.pathLength form.pathLength)
  let notAfter ← lift (boundedNotAfter env .intermediate form.validityDays (some parent.notAfter))
  if !parent.certificate.hasKeyId then lift (.error (.other "ExtensionNotFound"))
  else do
    signWith parent .caCertificate (.ok ()) s
    let s' ← lift (addCa ⟨form.name, caCertificate form parent.certificate.subject env.now notAfter pathLength, true,
      some parent.id, false, env.now, notAfter, pathLength, form.approvalStatus, form.constraints⟩ s)
    ofLogged (publishInitialCrl env s.cas.nextKey s')

def importCa (lib : Lib) (env : Env) (form : ImportForm) (s : Db) : Keyed Db := do
  let ordered ← lift (orderChain lib form.bundle)
  let s' ← lift (importRows lib env form ordered s)
  ofLogged (publishInitialCrl env s'.lastCa
    (s'.updateCa s'.lastCa (applyImportApproval form.approvalStatus) form.applyImportApproval_id))

def reissueCaCertificate (env : Env) (ca : CaRow) (validityDays : Option ℤ) (status : ApprovalStatus) (serial : ℤ)
    (s : Db) : Keyed Db := do
  let issuer ← lift (reissueIssuer env ca s)
  lift env.checks
  let notAfter ← lift (boundedNotAfter env ca.kind (reissueDays env ca issuer validityDays) none)
  if !issuer.certificate.hasKeyId then lift (.error (.other "ExtensionNotFound"))
  else do
    signWith issuer .caCertificate (.ok ()) s
    lift (.ok (storeReissue ca ⟨ca.id, .reissue,
      reissuedCertificate ca issuer.certificate serial env.now notAfter ca.pathLength,
      if ca.isRoot then none else some issuer.id, status⟩ s))

def crossSignCa (lib : Lib) (env : Env) (ca issuer : CaRow) (validityDays : Option ℤ) (status : ApprovalStatus)
    (serial : ℤ) (s : Db) : Keyed Db := do
  lift (checkCrossSign env ca issuer s)
  lift (NameConstraints.enforce lib.names s.issuing issuer.issuing (some (ca.certificate.commonName.getD ca.name)) [])
  lift env.checks
  let pathLength ← lift (clampPathLength "The issuing CA's path length is 0 — it cannot certify a CA."
    issuer.pathLength ca.pathLength)
  let notAfter ← lift (boundedNotAfter env ca.kind
    (min (validityDays.getD (max 1 (daysBetween ca.notAfter env.now))) (daysLeft env issuer)) none)
  if !issuer.certificate.hasKeyId then lift (.error (.other "ExtensionNotFound"))
  else do
    signWith issuer .caCertificate (.ok ()) s
    lift (.ok (s.insertAlternate ⟨ca.id, .cross,
      reissuedCertificate ca issuer.certificate serial env.now notAfter pathLength, some issuer.id, status⟩))

/-! ## Leaf certificates -/

def createCertificate (lib : Lib) (env : Env) (caId : ℤ) (form : LeafForm) (s : Db) : Keyed Db :=
  match s.cas.get? caId with
  | none => lift (.error caNotFound)
  | some ca =>
    if ca.isRevoked then lift (.error (.valueError "Cannot issue certificates from a revoked CA."))
    else do
      lift env.checks
      let issued ← lift (CertService.createCertificate lib.names s.issuing ca.issuing form.attrs form.sanList
        (form.verdictsAt env ca) env.now)
      signWith ca .leafCertificate (.ok ()) s
      lift (addLeaf env ca form issued true none s)

def signRow (lib : Lib) (env : Env) (row : CsrRow) (ca : CaRow) (form : LeafForm) (s : Db) : Keyed Db := do
  let issued ← lift (CertService.signCsr lib.names s.issuing ca.issuing row form.sanList (form.verdictsAt env ca) env.now)
  signWith ca .leafCertificate (.ok ()) s
  let s' ← lift (addLeaf env ca form issued false none s)
  lift (.ok { s' with csrs := s'.csrs.update row.id (approveCsr s.leaves.nextKey ca.id) (s.approveCsr_id ca) })

def signCsr (lib : Lib) (env : Env) (csrId caId : ℤ) (form : LeafForm) (s : Db) : Keyed Db :=
  match s.csrs.get? csrId with
  | none => lift (.error (.other "CSR not found."))
  | some row =>
    if row.status ≠ .pending then lift (.error CertService.alreadyProcessed)
    else
      match s.cas.get? caId with
      | none => lift (.error caNotFound)
      | some ca =>
        if ca.isRevoked then lift (.error (.valueError "Cannot sign CSR with a revoked CA."))
        else do
          lift env.checks
          signRow lib env row ca form s

def acmeSign (lib : Lib) (env : Env) (csrId caId : ℤ) (form : LeafForm) (s : Db) : Keyed Db :=
  match s.cas.get? caId with
  | none => lift (.error caNotFound)
  | some ca =>
    if !ca.acmeAvailable then lift (.error caNotFound)
    else
      match s.csrs.get? csrId with
      | none => lift (.error (.other "CSR not found."))
      | some row => do
        lift env.checks
        signRow lib env row ca form s

def renewLeaf (lib : Lib) (env : Env) (old : LeafRow) (ca : CaRow) (form : RenewForm) (s : Db) : Keyed Db := do
  lift env.checks
  let options : CertService.Renewal :=
    ⟨old.id, (s.leaves.rows.filter (·.renewedFromId == some old.id)).map (·.id), form.force, form.rekey, old.keyEscrowed,
      old.isRevoked, form.disabledProfile⟩
  let issued ← lift (CertService.renewCertificate lib.names s.issuing ca.issuing old.issued options
    (form.leaf.verdictsAt env ca) env.now)
  signWith ca .leafCertificate (.ok ()) s
  let s' ← lift (addLeaf env ca form.leaf issued old.keyEscrowed (some old.id) s)
  if form.revokeOld && !old.isRevoked then lift (revokeCertificate env.now old.id "superseded" s') else lift (.ok s')

/-! ## Requests -/

def result (s : Db) (x : Keyed Db) : Logged Result := (x.log, Result.of s x.value)

def afterCommit (s : Db) (x : Keyed Db) (refresh : Db → Keyed Db) : Logged Result :=
  match x.value with
  | .error e => (x.log, s, .error e)
  | .ok s' => (x.log ++ (refresh s').log, Result.of s' (refresh s').value)

def withCa (caId : ℤ) (s : Db) (f : CaRow → Logged Result) : Logged Result :=
  match s.cas.get? caId with
  | none => ([], s, .error caNotFound)
  | some ca => f ca

def withAlternate (ca : CaRow) (altId : ℤ) (s : Db) (f : CaCertRow → Logged Result) : Logged Result :=
  match s.alternates.get? altId with
  | none => ([], s, .error (.other "Alternate certificate not found."))
  | some row => if row.caId ≠ ca.id then ([], s, .error (.other "Alternate certificate not found.")) else f row

def refreshPrimary (env : Env) (caId : ℤ) (s : Db) : Keyed Db :=
  match s.cas.get? caId with
  | none => lift (.ok s)
  | some ca => if !ca.hasSigningKey || ca.approvalStatus ≠ .approved then lift (.ok s) else refreshCrl env (some ca) s

def approveCa (env : Env) (ca : CaRow) (s : Db) : Logged Result :=
  if ca.approvalStatus ≠ .pending then ([], s, .error (.other "This CA is not awaiting approval."))
  else
    match env.checks with
    | .error e => ([], s, .error e)
    | .ok () =>
      let x := publishInitialCrl env ca.id
        (s.updateCa ca.id (fun a => { a with approvalStatus := .approved }) CaRow.approve_id)
      (x.1, x.2, .ok ())

def currentCrl (env : Env) (ca : CaRow) (s : Db) : Logged Db :=
  match ca.crl with
  | none => ([], s)
  | some crl =>
    if crl.nextUpdate ≤ env.now ∧ ca.isRevoked = false ∧ ca.cannotSign = false then
      recover s (generateCrl env ca none s)
    else ([], s)

def refreshStale (env : Env) (s : Db) (caId : ℤ) : Logged Db :=
  match capable? caId s with
  | none => ([], s)
  | some ca =>
    if crlIsStale ca env.now env.crlRefreshBeforeDays then recover s (generateCrl env ca none s) else ([], s)

def crlRefreshJob (env : Env) : List ℤ → Db → Logged Db
  | [], s => ([], s)
  | caId :: rest, s =>
    let x := refreshStale env s caId
    let y := crlRefreshJob env rest x.2
    (x.1 ++ y.1, y.2)

def crlRefreshCli (env : Env) (all : Bool) : List ℤ → Db → Logged Result
  | [], s => ([], s, .ok ())
  | caId :: rest, s =>
    match (s.cas.get? caId).filter (fun ca => !ca.isRevoked && !ca.cannotSign && (all || crlIsStale ca env.now 0)) with
    | none => crlRefreshCli env all rest s
    | some ca =>
      let x := generateCrl env ca none s
      match x.value with
      | .error e => (x.log, s, .error e)
      | .ok s' =>
        let y := crlRefreshCli env all rest s'
        (x.log ++ y.1, y.2)

def revokeCaRequest (env : Env) (caId : ℤ) (reason : String) (s : Db) : Logged Result :=
  match env.checks >>= fun _ => sweepCa env.now caId reason s with
  | .error e => ([], s, .error e)
  | .ok x => publishRevocationCrls env caId x.db

variable (lib : Lib)

/-- one request, with what CA keys signed for it -/
def handle (s : Db) (env : Env) : Request → Logged Result
  | .createRoot form => result s (createRootCa env form s)
  | .createIntermediate parentId form =>
    match capable? parentId s with
    | none => ([], s, .error (.valueError ("Parent CA not found, or it cannot sign (revoked, awaiting approval, " ++
        "or without a private key).")))
    | some parent => result s (createIntermediateCa lib env form parent s)
  | .importCa form => result s (importCa lib env form s)
  | .createCertificate caId form => result s (createCertificate lib env caId form s)
  | .signCsr csrId caId form => result s (signCsr lib env csrId caId form s)
  | .acmeSign csrId caId form => result s (acmeSign lib env csrId caId form s)
  | .renew certId form =>
    match s.leaves.get? certId with
    | none => ([], s, .error (.other "Certificate not found."))
    | some old =>
      withCa old.caId s fun ca =>
        afterCommit s (renewLeaf lib env old ca form s) fun s' =>
          if form.revokeOld then refreshCrl env (s'.cas.get? old.caId) s' else lift (.ok s')
  | .reissue caId days status serial =>
    withCa caId s fun ca =>
      afterCommit s (reissueCaCertificate env ca days status serial s) fun s' =>
        if status = .approved then refreshPrimary env caId s' else lift (.ok s')
  | .crossSign caId issuerId days status serial =>
    withCa caId s fun ca =>
      match capable? issuerId s with
      | none => ([], s, .error (.valueError ("Issuing CA not found, or it cannot sign (revoked, awaiting approval, " ++
          "or without a private key).")))
      | some issuer => result s (crossSignCa lib env ca issuer days status serial s)
  | .approve caId => withCa caId s fun ca => approveCa env ca s
  | .approveAlternate caId altId =>
    withCa caId s fun ca => withAlternate ca altId s fun row =>
      afterCommit s (lift (env.checks >>= fun _ => Pki.approveAlternate ca row s)) fun s' =>
        if row.kind = .reissue then refreshPrimary env caId s' else lift (.ok s')
  | .revokeCertificate certId reason =>
    afterCommit s (lift (env.checks >>= fun _ => Pki.revokeCertificate env.now certId reason s)) fun s' =>
      refreshCrl env ((s'.leaves.get? certId).bind fun c => s'.cas.get? c.caId) s'
  | .revokeCa caId reason => revokeCaRequest env caId reason s
  | .generateCrl caId =>
    withCa caId s fun ca =>
      if ca.isRevoked then ([], s, .error (.other "Cannot generate CRL for a revoked CA."))
      else result s (generateCrl env ca none s)
  | .currentCrl caId =>
    withCa caId s fun ca =>
      let x := currentCrl env ca s
      (x.1, x.2, .ok ())
  | .crlRefreshJob =>
    let x := crlRefreshJob env (s.cas.rows.map (·.id)) s
    (x.1, x.2, .ok ())
  | .crlRefreshCli all => crlRefreshCli env all (s.cas.rows.map (·.id)) s
  -- the others ask no key
  | .importCsr csr => ([], Pki.handle lib s env (.importCsr csr))
  | .importAlternate caId cert => ([], Pki.handle lib s env (.importAlternate caId cert))
  | .deleteAlternate caId altId => ([], Pki.handle lib s env (.deleteAlternate caId altId))
  | .setAcme caId enable => ([], Pki.handle lib s env (.setAcme caId enable))

/-! ## OCSP -/

def ensureResponder (env : Env) (cfg : ResponderConfig) (ca : CaRow) (responder : Option X509) (force : Bool)
    (draw : ResponderDraw) (s : Db) : Keyed (Option X509) := do
  lift (checkResponderCa env ca)
  if !force && !responderNeedsRotation lib env cfg ca responder then lift (.ok none)
  else do
    lift env.checks
    let notAfter ← lift (boundedNotAfter env .leaf cfg.validityDays (some ca.notAfter))
    if !ca.certificate.hasKeyId then lift (.error (.other "ExtensionNotFound"))
    else do
      signWith ca .responderCertificate (.ok ()) s
      lift (.ok (some (responderCertificate ca draw env.now notAfter)))

/-- what a request for a status meets -/
structure OcspCall where
  env : Env
  caId : ℤ
  /-- the parsed OCSPRequest -/
  request : Option OcspRequest
  /-- `delegated_enabled()` -/
  delegation : Bool
  cfg : ResponderConfig
  draw : ResponderDraw
  /-- the audit row and the commit of a new responder -/
  stored : Except PyError Unit
  /-- the key of the responder is decrypted -/
  keyOpened : Except PyError Unit
  /-- the response cache has an answer -/
  cacheHit : Bool
  /-- the backend signs a response -/
  signature : Except PyError Unit

/-- what `_delegated_responder` leaves: the responder of the CA, and the one that answers, if one does -/
structure Delegated where
  stored : Option X509
  answers : Option X509

/-- a responder whose key does not open does not answer -/
def OcspCall.opened (call : OcspCall) (cert : Option X509) : Option X509 := if call.keyOpened.isOk then cert else none

/-- `_delegated_responder`: on any failure the CA's own key answers -/
def delegatedResponder (call : OcspCall) (ca : CaRow) (responder : Option X509) (s : Db) : Logged Delegated :=
  if !call.delegation then ([], ⟨responder, none⟩)
  else if ca.expired call.env.now then ([], ⟨responder, none⟩)
  else if !responderNeedsRotation lib call.env call.cfg ca responder then ([], ⟨responder, call.opened responder⟩)
  else
    let x := ensureResponder lib call.env call.cfg ca responder false call.draw s
    match x.value, call.stored with
    | .ok (some cert), .ok () => (x.log, ⟨some cert, call.opened (some cert)⟩)
    | _, _ => (x.log, ⟨responder, none⟩)

/-- `build_ocsp_response`: the responder certificate of the CA afterwards -/
def buildOcspResponse (call : OcspCall) (ca : CaRow) (responder : Option X509) (s : Db) : Logged (Option X509) :=
  if ca.cannotSign then ([], responder)
  else
    match call.request with
    | none => ([], responder)
    | some req =>
      match ocspSubject s ca.id (formatHex req.serialNumber) with
      | none => ([], responder)
      | some subject =>
        let x := delegatedResponder lib call ca responder s
        if call.cacheHit || x.2.answers.isSome then (x.1, x.2.stored)
        else
          let y : Keyed Unit := do
            let _ ← lift (certStatus call.env.now subject)
            signWith ca .ocspResponse call.signature s
          (x.1 ++ y.log, x.2.stored)

/-! ## Without the log -/

section Values

variable {lib} {env : Env} {ca : CaRow} {s : Db}

theorem backendForCa_iff : backendForCa ca = .ok () ↔ ca.cannotSign = false := by
  unfold backendForCa CaRow.cannotSign
  cases ca.hasSigningKey <;> cases ca.approvalStatus <;> simp

/-- a CA that may sign signs when its backend does -/
theorem value_signWith {signed : Signed} {outcome : Except PyError Unit} (h : ca.cannotSign = false) :
    (signWith ca signed outcome s).value = outcome := by
  unfold signWith
  rw [value_bind, value_lift, backendForCa_iff.2 h]
  cases outcome <;> rfl

/-- two computations that agree on what comes after a common first part -/
theorem bind_congr_ok {α β : Type} {x : Except PyError α} {f g : α → Except PyError β}
    (h : ∀ a, x = .ok a → f a = g a) : (x >>= f) = (x >>= g) := by
  cases x with
  | error e => rfl
  | ok a => exact h a rfl

/-- a bind that starts with a lifted computation -/
theorem value_lift_bind {α β : Type} {x : Except PyError α} {f : α → Keyed β} {g : α → Except PyError β}
    (h : ∀ a, x = .ok a → (f a).value = g a) : (lift x >>= f).value = (x >>= g) := by
  rw [value_bind, value_lift]
  exact bind_congr_ok h

/-- a signature that the backend makes without fail -/
theorem value_sign_bind {β : Type} {signed : Signed} {f : Unit → Keyed β} (h : ca.cannotSign = false) :
    (signWith ca signed (.ok ()) s >>= f).value = (f ()).value := by
  rw [value_bind, value_signWith h]
  rfl

theorem value_generateCrl {nextUpdate : Option DateTime} :
    (generateCrl env ca nextUpdate s).value = Pki.generateCrl env ca nextUpdate s := by
  refine value_lift_bind fun _ hallowed => ?_
  refine value_lift_bind fun crl _ => ?_
  rw [value_bind, value_signWith (crlAllowed_iff.1 hallowed)]
  rfl

theorem value_refreshCrl {ca? : Option CaRow} : (refreshCrl env ca? s).value = Pki.refreshCrl env ca? s := by
  unfold refreshCrl Pki.refreshCrl
  cases ca? with
  | none => rfl
  | some ca =>
    simp only []
    split_ifs
    · rfl
    · exact value_generateCrl

theorem value_publishFinalCrl {ca? : Option CaRow} :
    (publishFinalCrl env ca? s).value = Pki.publishFinalCrl env ca? s := by
  unfold publishFinalCrl Pki.publishFinalCrl
  cases ca? with
  | none => rfl
  | some ca =>
    simp only []
    split_ifs
    · rfl
    · rfl
    · exact value_generateCrl

theorem snd_publishFinalCrls (ids : List ℤ) : (publishFinalCrls env ids s).2 = Pki.publishFinalCrls env ids s := by
  induction ids generalizing s with
  | nil => rfl
  | cons i rest ih =>
    simp only [publishFinalCrls, Pki.publishFinalCrls, value_publishFinalCrl]
    cases Pki.publishFinalCrl env (s.cas.get? i) s with
    | error e => rfl
    | ok s' => exact ih

theorem snd_publishRevocationCrls (caId : ℤ) :
    (publishRevocationCrls env caId s).2 = Pki.publishRevocationCrls env caId s := by
  simp only [publishRevocationCrls, Pki.publishRevocationCrls, value_refreshCrl]
  cases Pki.refreshCrl env (((s.cas.get? caId).bind (·.parentId)).bind s.cas.get?) s with
  | error e => rfl
  | ok s' =>
    simp only []
    cases revokedSubtree s' caId with
    | none => rfl
    | some ids => exact snd_publishFinalCrls ids

theorem snd_recover_generateCrl {nextUpdate : Option DateTime} :
    (recover s (generateCrl env ca nextUpdate s)).2 = (Pki.generateCrl env ca nextUpdate s).toOption.getD s := by
  rw [recover, value_generateCrl]

theorem snd_publishInitialCrl (caId : ℤ) : (publishInitialCrl env caId s).2 = Pki.publishInitialCrl env caId s := by
  unfold publishInitialCrl Pki.publishInitialCrl
  cases s.cas.get? caId with
  | none => rfl
  | some ca =>
    simp only []
    split_ifs
    · rfl
    · exact snd_recover_generateCrl

theorem value_createRootCa {form : CaForm} : (createRootCa env form s).value = Pki.createRootCa env form s := by
  refine value_lift_bind fun _ _ => value_lift_bind fun _ _ => value_lift_bind fun notAfter _ => ?_
  rw [value_bind]
  refine value_lift_bind fun s' _ => ?_
  exact congrArg Except.ok (snd_publishInitialCrl _)

theorem checkParent_ok {parent : CaRow} (h : checkParent env parent = .ok ()) : parent.cannotSign = false := by
  unfold checkParent at h
  unfold CaRow.cannotSign
  split_ifs at h with hkey hpending
  simp_all

theorem value_createIntermediateCa {form : CaForm} {parent : CaRow} :
    (createIntermediateCa lib env form parent s).value = Pki.createIntermediateCa lib env form parent s := by
  refine value_lift_bind fun _ _ => value_lift_bind fun _ hparent => value_lift_bind fun _ _ =>
    value_lift_bind fun _ _ => value_lift_bind fun pathLength _ => value_lift_bind fun notAfter _ => ?_
  split_ifs
  · rfl
  · rw [value_sign_bind (checkParent_ok hparent)]
    refine value_lift_bind fun s' _ => ?_
    exact congrArg Except.ok (snd_publishInitialCrl _)

theorem value_importCa {form : ImportForm} : (importCa lib env form s).value = Pki.importCa lib env form s := by
  refine value_lift_bind fun ordered _ => value_lift_bind fun s' _ => ?_
  exact congrArg Except.ok (snd_publishInitialCrl _)

theorem reissueIssuer_ok {issuer : CaRow} (h : reissueIssuer env ca s = .ok issuer) :
    issuer.cannotSign = false ∧ (issuer = ca ∨ ca.parentId.bind s.cas.get? = some issuer) := by
  unfold reissueIssuer at h
  split_ifs at h with hkeyless hrevoked hpending hroot
  · cases h
    refine ⟨?_, Or.inl rfl⟩
    unfold CaRow.cannotSign
    simp_all
  · cases hparent : ca.parentId.bind s.cas.get? with
    | none =>
      rw [hparent] at h
      cases h
    | some parent =>
      rw [hparent] at h
      simp only [] at h
      split_ifs at h with hcannot
      cases h
      exact ⟨by simpa using hcannot, Or.inr rfl⟩

theorem value_reissueCaCertificate {validityDays : Option ℤ} {status : ApprovalStatus} {serial : ℤ} :
    (reissueCaCertificate env ca validityDays status serial s).value =
      Pki.reissueCaCertificate env ca validityDays status serial s := by
  refine value_lift_bind fun issuer hissuer => value_lift_bind fun _ _ => value_lift_bind fun notAfter _ => ?_
  split_ifs
  · rfl
  · exact value_sign_bind (reissueIssuer_ok hissuer).1
  · exact value_sign_bind (reissueIssuer_ok hissuer).1

theorem checkCrossSign_ok {issuer : CaRow} (h : checkCrossSign env ca issuer s = .ok ()) : issuer.cannotSign = false := by
  unfold checkCrossSign at h
  split_ifs at h with hself hrevoked hissuer
  simp_all

theorem value_crossSignCa {issuer : CaRow} {validityDays : Option ℤ} {status : ApprovalStatus} {serial : ℤ} :
    (crossSignCa lib env ca issuer validityDays status serial s).value =
      Pki.crossSignCa lib env ca issuer validityDays status serial s := by
  refine value_lift_bind fun _ hcheck => value_lift_bind fun _ _ => value_lift_bind fun _ _ =>
    value_lift_bind fun pathLength _ => value_lift_bind fun notAfter _ => ?_
  split_ifs
  · rfl
  · exact value_sign_bind (checkCrossSign_ok hcheck)

/-! ### Leaf certificates -/

theorem caCanIssue_ok (h : CertService.caCanIssue ca.issuing = .ok ()) : ca.cannotSign = false := by
  unfold CertService.caCanIssue at h
  unfold CaRow.cannotSign
  split_ifs at h with hkey hpending
  have hkey' : ca.hasSigningKey = true := by simpa [CaRow.issuing] using hkey
  have hpending' : (ca.approvalStatus == .pending) = false := by simpa [CaRow.issuing] using hpending
  rw [hkey', hpending']
  rfl

theorem value_createCertificate {caId : ℤ} {form : LeafForm} :
    (createCertificate lib env caId form s).value = Pki.createCertificate lib env caId form s := by
  unfold createCertificate Pki.createCertificate
  cases s.cas.get? caId with
  | none => rfl
  | some ca =>
    simp only []
    split_ifs
    · rfl
    · refine value_lift_bind fun _ _ => value_lift_bind fun issued hissued => ?_
      obtain ⟨_, hcan, _⟩ := bind_eq_ok.1 hissued
      exact value_sign_bind (caCanIssue_ok hcan)

theorem signCsr_canIssue {row : CsrRow} {sanList : List Text} {v : Verdicts} {issued : Issued}
    (h : CertService.signCsr lib.names s.issuing ca.issuing row sanList v env.now = .ok issued) :
    ca.cannotSign = false := by
  obtain ⟨hcheck, -, -⟩ := CertService.signCsr_ok h
  obtain ⟨_, hcan, _⟩ := bind_eq_ok.1 hcheck
  exact caCanIssue_ok hcan

theorem value_signRow {row : CsrRow} {form : LeafForm} :
    (signRow lib env row ca form s).value = Pki.signRow lib env row ca form s := by
  refine value_lift_bind fun issued hissued => ?_
  rw [value_sign_bind (signCsr_canIssue hissued)]
  exact value_lift_bind fun _ _ => rfl

theorem value_signCsr {csrId caId : ℤ} {form : LeafForm} :
    (signCsr lib env csrId caId form s).value = Pki.signCsr lib env csrId caId form s := by
  unfold signCsr Pki.signCsr
  cases s.csrs.get? csrId with
  | none => rfl
  | some row =>
    simp only []
    split_ifs
    · rfl
    · cases s.cas.get? caId with
      | none => rfl
      | some ca =>
        simp only []
        split_ifs
        · rfl
        · exact value_lift_bind fun _ _ => value_signRow

theorem value_acmeSign {csrId caId : ℤ} {form : LeafForm} :
    (acmeSign lib env csrId caId form s).value = Pki.acmeSign lib env csrId caId form s := by
  unfold acmeSign Pki.acmeSign
  cases s.cas.get? caId with
  | none => rfl
  | some ca =>
    simp only []
    split_ifs
    · rfl
    · cases s.csrs.get? csrId with
      | none => rfl
      | some row => exact value_lift_bind fun _ _ => value_signRow

theorem renewalAllowed_ok {r : CertService.Renewal} (h : CertService.renewalAllowed ca.issuing r = .ok ()) :
    ca.cannotSign = false := by
  refine caCanIssue_ok ?_
  unfold CertService.renewalAllowed at h
  unfold CertService.caCanIssue
  split_ifs at h with hrevoked hkey hpending
  rw [if_neg hkey, if_neg hpending]

theorem value_renewLeaf {old : LeafRow} {form : RenewForm} :
    (renewLeaf lib env old ca form s).value = Pki.renewLeaf lib env old ca form s := by
  refine value_lift_bind fun _ _ => value_lift_bind fun issued hissued => ?_
  obtain ⟨_, hallowed, _⟩ := bind_eq_ok.1 hissued
  rw [value_sign_bind (renewalAllowed_ok hallowed)]
  refine value_lift_bind fun s' _ => ?_
  split_ifs <;> rfl

/-! ### Requests -/

theorem snd_result {x : Keyed Db} {y : Except PyError Db} (h : x.value = y) : (result s x).2 = Result.of s y := by
  rw [result, h]

theorem snd_afterCommit {x : Keyed Db} {y : Except PyError Db} {f : Db → Keyed Db} {g : Db → Except PyError Db}
    (h : x.value = y) (hfg : ∀ s', (f s').value = g s') : (afterCommit s x f).2 = Pki.afterCommit s y g := by
  unfold afterCommit Pki.afterCommit
  rw [h]
  cases y with
  | error e => rfl
  | ok s' => exact congrArg (Result.of s') (hfg s')

theorem snd_withCa {caId : ℤ} {f : CaRow → Logged Result} {g : CaRow → Result} (h : ∀ ca, (f ca).2 = g ca) :
    (withCa caId s f).2 = Pki.withCa caId s g := by
  unfold withCa Pki.withCa
  cases s.cas.get? caId with
  | none => rfl
  | some ca => exact h ca

theorem snd_withAlternate {altId : ℤ} {f : CaCertRow → Logged Result} {g : CaCertRow → Result}
    (h : ∀ row, (f row).2 = g row) : (withAlternate ca altId s f).2 = Pki.withAlternate ca altId s g := by
  unfold withAlternate Pki.withAlternate
  cases s.alternates.get? altId with
  | none => rfl
  | some row =>
    simp only []
    split_ifs
    · rfl
    · exact h row

theorem value_refreshPrimary {caId : ℤ} : (refreshPrimary env caId s).value = Pki.refreshPrimary env caId s := by
  unfold refreshPrimary Pki.refreshPrimary
  cases s.cas.get? caId with
  | none => rfl
  | some ca =>
    simp only []
    split_ifs
    · rfl
    · exact value_refreshCrl

theorem snd_approveCa : (approveCa env ca s).2 = Pki.approveCa env ca s := by
  unfold approveCa Pki.approveCa
  split_ifs
  · rfl
  · cases env.checks with
    | error e => rfl
    | ok u => exact congrArg (fun db => (db, Except.ok ())) (snd_publishInitialCrl _)

theorem snd_currentCrl : (currentCrl env ca s).2 = Pki.currentCrl env ca s := by
  unfold currentCrl Pki.currentCrl
  cases ca.crl with
  | none => rfl
  | some crl =>
    simp only []
    split_ifs
    · exact snd_recover_generateCrl
    · rfl

theorem snd_refreshStale (caId : ℤ) : (refreshStale env s caId).2 = Pki.refreshStale env s caId := by
  unfold refreshStale Pki.refreshStale
  cases capable? caId s with
  | none => rfl
  | some ca =>
    simp only []
    split_ifs
    · exact snd_recover_generateCrl
    · rfl

theorem snd_crlRefreshJob (ids : List ℤ) : (crlRefreshJob env ids s).2 = ids.foldl (Pki.refreshStale env) s := by
  induction ids generalizing s with
  | nil => rfl
  | cons i rest ih =>
    rw [List.foldl_cons, ← snd_refreshStale]
    exact ih

theorem snd_crlRefreshCli (all : Bool) (ids : List ℤ) :
    (crlRefreshCli env all ids s).2 = Pki.crlRefreshCli env all ids s := by
  induction ids generalizing s with
  | nil => rfl
  | cons i rest ih =>
    simp only [crlRefreshCli, Pki.crlRefreshCli]
    cases (s.cas.get? i).filter (fun ca => !ca.isRevoked && !ca.cannotSign && (all || crlIsStale ca env.now 0)) with
    | none => exact ih
    | some ca =>
      simp only [value_generateCrl]
      cases Pki.generateCrl env ca none s with
      | error e => rfl
      | ok s' => exact ih

theorem snd_revokeCaRequest (caId : ℤ) (reason : String) :
    (revokeCaRequest env caId reason s).2 = Pki.revokeCaRequest env caId reason s := by
  unfold revokeCaRequest Pki.revokeCaRequest
  cases env.checks >>= fun _ => sweepCa env.now caId reason s with
  | error e => rfl
  | ok x => exact snd_publishRevocationCrls caId

/-- **Without the log**, a request is the request of Routes.Ca: no guard of the services is weaker than
`backend_for_ca`. -/
theorem handle_value (s : Db) (env : Env) (r : Request) : (handle lib s env r).2 = Pki.handle lib s env r := by
  cases r with
  | createRoot form => exact snd_result value_createRootCa
  | createIntermediate parentId form =>
    simp only [handle, Pki.handle]
    cases capable? parentId s with
    | none => rfl
    | some parent => exact snd_result value_createIntermediateCa
  | importCa form => exact snd_result value_importCa
  | createCertificate caId form => exact snd_result value_createCertificate
  | importCsr csr => rfl
  | signCsr csrId caId form => exact snd_result value_signCsr
  | acmeSign csrId caId form => exact snd_result value_acmeSign
  | renew certId form =>
    simp only [handle, Pki.handle]
    cases s.leaves.get? certId with
    | none => rfl
    | some old =>
      refine snd_withCa fun ca => snd_afterCommit value_renewLeaf fun s' => ?_
      split_ifs
      · exact value_refreshCrl
      · rfl
  | reissue caId days status serial =>
    refine snd_withCa fun ca => snd_afterCommit value_reissueCaCertificate fun s' => ?_
    split_ifs
    · exact value_refreshPrimary
    · rfl
  | crossSign caId issuerId days status serial =>
    refine snd_withCa fun ca => ?_
    cases capable? issuerId s with
    | none => rfl
    | some issuer => exact snd_result value_crossSignCa
  | importAlternate caId cert => rfl
  | approve caId => exact snd_withCa fun ca => snd_approveCa
  | approveAlternate caId altId =>
    refine snd_withCa fun ca => snd_withAlternate fun row => snd_afterCommit rfl fun s' => ?_
    split_ifs
    · exact value_refreshPrimary
    · rfl
  | deleteAlternate caId altId => rfl
  | setAcme caId enable => rfl
  | revokeCertificate certId reason => exact snd_afterCommit rfl fun s' => value_refreshCrl
  | revokeCa caId reason => exact snd_revokeCaRequest caId reason
  | generateCrl caId =>
    refine snd_withCa fun ca => ?_
    split_ifs
    · rfl
    · exact snd_result value_generateCrl
  | currentCrl caId => exact snd_withCa fun ca => congrArg (fun db => (db, Except.ok ())) snd_currentCrl
  | crlRefreshJob => exact congrArg (fun db => (db, Except.ok ())) (snd_crlRefreshJob _)
  | crlRefreshCli all => exact snd_crlRefreshCli all _

theorem checkResponderCa_ok (h : checkResponderCa env ca = .ok ()) : ca.cannotSign = false := by
  unfold checkResponderCa at h
  unfold CaRow.cannotSign
  split_ifs at h with hkey hpending
  simp_all

theorem value_ensureResponder {cfg : ResponderConfig} {responder : Option X509} {force : Bool} {draw : ResponderDraw} :
    (ensureResponder lib env cfg ca responder force draw s).value =
      Pki.ensureResponder lib env cfg ca responder force draw := by
  refine value_lift_bind fun _ hcheck => ?_
  split_ifs
  · rfl
  · exact value_lift_bind fun _ _ => value_lift_bind fun _ _ => rfl
  · exact value_lift_bind fun _ _ => value_lift_bind fun _ _ => value_sign_bind (checkResponderCa_ok hcheck)

end Values

end Keys

end Chancery.Pki
