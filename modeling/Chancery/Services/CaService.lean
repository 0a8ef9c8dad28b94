/-
Creating, importing, re-issuing and cross-signing CAs (app/services/ca_service.py, bounded_not_after of
app/services/policy.py).

Serial numbers and key pairs come with the request. What the service does besides (key strength, key generation, policies,
the signature over a certificate) can refuse and is `Env.checks`. The library's `verify_directly_issued_by` is a parameter
(`Lib`). A function returns the tables as they stand when the request commits.
-/
import Mathlib.Tactic
import Chancery.Services.Crl

namespace Chancery.Pki

open Chancery.Core

structure Lib where
  names : NameLib
  /-- `cert.verify_directly_issued_by(issuer)` passes -/
  directlyIssued : X509 → X509 → Bool

/-! ## Validity -/

inductive CertKind
  | leaf
  | intermediate
  | root

def Env.maxDays (env : Env) : CertKind → ℤ × String
  | .leaf => (env.maxCertDays, "certificate")
  | .intermediate => (env.maxIntermediateDays, "intermediate CA")
  | .root => (env.maxCaDays, "root CA")

/-- `bounded_not_after` -/
def boundedNotAfter (env : Env) (kind : CertKind) (validityDays : ℤ) (caNotAfter : Option DateTime) :
    Except PyError DateTime :=
  if validityDays < 1 then .error (.valueError "Validity (days) must be a positive integer.")
  else if (env.maxDays kind).1 < validityDays then
    .error (.valueError ((env.maxDays kind).2 ++ " validity " ++ toString validityDays ++
      " days exceeds the maximum of " ++ toString (env.maxDays kind).1 ++ " days."))
  else .ok ((caNotAfter.map (min (env.now + validityDays * day))).getD (env.now + validityDays * day))

/-- a sub-CA gets at most one less than its issuer's path length -/
def clampPathLength (refusal : String) (budget requested : Option ℤ) : Except PyError (Option ℤ) :=
  match budget with
  | none => .ok requested
  | some b => if b ≤ 0 then .error (.valueError refusal) else .ok (some ((requested.map (min (b - 1))).getD (b - 1)))

/-! ## New CAs -/

/-- `publish_initial_crl`: a failure leaves the CA without one -/
def publishInitialCrl (env : Env) (caId : ℤ) (s : Db) : Db :=
  match s.cas.get? caId with
  | none => s
  | some ca => if ca.cannotSign then s else (generateCrl env ca none s).toOption.getD s

/-- `ensure_name_available` -/
def ensureNameAvailable (name : Text) (s : Db) : Except PyError Unit :=
  match s.cas.rows.find? (fun ca => ca.name == name && !ca.isRevoked) with
  | none => .ok ()
  | some clash =>
    .error (.valueError ("A CA named '" ++ String.ofList name ++ "' already exists (#" ++ toString clash.id ++
      "). Only a revoked CA's name can be reused."))

/-- the columns of a new CA -/
structure NewCa where
  name : Text
  certificate : X509
  hasSigningKey : Bool
  parentId : Option ℤ
  isRoot : Bool
  notBefore : DateTime
  notAfter : DateTime
  pathLength : Option ℤ
  approvalStatus : ApprovalStatus
  nameConstraints : Option Constraints

def NewCa.row (n : NewCa) (id : ℤ) : CaRow where
  id := id
  name := n.name
  serialNumber := formatHex n.certificate.serialNumber
  certificate := n.certificate
  hasSigningKey := n.hasSigningKey
  parentId := n.parentId
  isRoot := n.isRoot
  notBefore := n.notBefore
  notAfter := n.notAfter
  pathLength := n.pathLength
  crlNumber := 0
  crl := none
  isRevoked := false
  revokedAt := none
  revocationReason := none
  approvalStatus := n.approvalStatus
  nameConstraints := n.nameConstraints
  acmeEnabled := false

def Db.insertCa (s : Db) (n : NewCa) : Db := { s with cas := s.cas.insert n.row }

/-- the INSERT of a CA: its serial number is unique -/
def addCa (n : NewCa) (s : Db) : Except PyError Db :=
  if s.cas.rows.any (·.serialNumber == formatHex n.certificate.serialNumber) then .error (.other "IntegrityError")
  else .ok (s.insertCa n)

/-- the form of a generated CA, with the key pair and the serial number the server draws -/
structure CaForm where
  name : Text
  subject : Text
  commonName : Text
  validityDays : ℤ
  pathLength : Option ℤ
  constraints : Option Constraints
  approvalStatus : ApprovalStatus
  serialNumber : ℤ
  publicKey : Text

/-- the certificate a CA gets: its own names and key, the issuer's name -/
def caCertificate (form : CaForm) (issuer : Text) (now notAfter : DateTime) (pathLength : Option ℤ) : X509 where
  subject := form.subject
  issuer := issuer
  commonName := some form.commonName
  serialNumber := form.serialNumber
  publicKey := form.publicKey
  notBefore := wholeSeconds now
  notAfter := wholeSeconds notAfter
  basicConstraints := some (true, pathLength)
  hasKeyId := true
  nameConstraints := form.constraints

/-- `create_root_ca` -/
def createRootCa (env : Env) (form : CaForm) (s : Db) : Except PyError Db := do
  ensureNameAvailable form.name s
  env.checks
  let notAfter ← boundedNotAfter env .root form.validityDays none
  let s' ← addCa ⟨form.name, caCertificate form form.subject env.now notAfter form.pathLength, true, none, true, env.now,
    notAfter, form.pathLength, form.approvalStatus, form.constraints⟩ s
  .ok (publishInitialCrl env s.cas.nextKey s')

/-- the refusals of `create_intermediate_ca` about its parent -/
def checkParent (env : Env) (parent : CaRow) : Except PyError Unit :=
  if !parent.hasSigningKey then
    .error (.valueError "Parent CA was imported without its private key and cannot sign a new intermediate CA.")
  else if parent.approvalStatus = .pending then
    .error (.valueError "The parent CA is awaiting dual-control approval and cannot sign a new intermediate CA yet.")
  else if parent.isRevoked then
    .error (.valueError "The parent CA is revoked and cannot sign a new intermediate CA.")
  else if parent.expired env.now then
    .error (.valueError "The parent CA has expired and cannot sign a new intermediate CA.")
  else .ok ()

/-- `create_intermediate_ca` -/
def createIntermediateCa (lib : Lib) (env : Env) (form : CaForm) (parent : CaRow) (s : Db) : Except PyError Db := do
  ensureNameAvailable form.name s
  checkParent env parent
  NameConstraints.enforce lib.names s.issuing parent.issuing (some form.commonName) []
  env.checks
  let pathLength ← clampPathLength "The parent CA's path length is 0 — it cannot issue a sub-CA." parent.pathLength
    form.pathLength
  let notAfter ← boundedNotAfter env .intermediate form.validityDays (some parent.notAfter)
  if !parent.certificate.hasKeyId then .error (.other "ExtensionNotFound")
  else do
    let s' ← addCa ⟨form.name, caCertificate form parent.certificate.subject env.now notAfter pathLength, true,
      some parent.id, false, env.now, notAfter, pathLength, form.approvalStatus, form.constraints⟩ s
    .ok (publishInitialCrl env s.cas.nextKey s')

/-! ## Imports -/

/-- `_find_parent_by_issuer` -/
def findParentByIssuer (lib : Lib) (cert : X509) (s : Db) : Option ℤ :=
  (s.cas.rows.find? fun candidate => !candidate.isRevoked && candidate.certificate.subject == cert.issuer &&
    lib.directlyIssued cert candidate.certificate).map (·.id)

/-- the parent of an imported CA -/
def resolveParent (lib : Lib) (cert : X509) (parentId : Option ℤ) (s : Db) : Except PyError (Option ℤ) :=
  match parentId with
  | some p =>
    match s.cas.get? p with
    | none => .error (.valueError "Specified parent CA not found.")
    | some parent =>
      if parent.isRevoked then
        .error (.valueError "The selected parent CA is revoked; a CA cannot be linked under it.")
      else if !lib.directlyIssued cert parent.certificate then
        .error (.valueError "The certificate was not issued by the selected parent CA (issuer/signature check failed).")
      else .ok (some parent.id)
  | none => if cert.issuer = cert.subject then .ok none else .ok (findParentByIssuer lib cert s)

/-- the checks of `_import_ca_object` on the certificate and the key: `key` is the public half of the private key -/
def checkImport (env : Env) (cert : X509) (key : Option Text) : Except PyError (Option ℤ) :=
  match cert.basicConstraints with
  | none =>
    .error (.valueError ("Certificate is missing the BasicConstraints extension. " ++
      "Only CA certificates can be imported."))
  | some (false, _) =>
    .error (.valueError ("Certificate has BasicConstraints with ca=False. " ++ "Only CA certificates can be imported."))
  | some (true, pathLength) => do
    env.checks
    if key.any (· != cert.publicKey) then
      .error (.valueError "The private key does not match the certificate's public key.")
    else .ok pathLength

/-- `_import_ca_object`: the tables with the new row -/
def importCaObject (lib : Lib) (env : Env) (name : Text) (cert : X509) (key : Option Text) (parentId : Option ℤ)
    (s : Db) : Except PyError Db := do
  let pathLength ← checkImport env cert key
  ensureNameAvailable name s
  if s.cas.rows.any (·.serialNumber == formatHex cert.serialNumber) then
    .error (.valueError ("A CA with serial number '" ++ String.ofList (formatHex cert.serialNumber) ++
      "' already exists."))
  else do
    let parent ← resolveParent lib cert parentId s
    addCa ⟨name, cert, key.isSome, parent, cert.issuer == cert.subject && parent.isNone, cert.notBefore, cert.notAfter,
      pathLength, .approved, cert.nameConstraints⟩ s

/-- `_unique_ca_name` -/
def uniqueCaName (base : Text) (s : Db) : Text :=
  let candidate (k : ℕ) : Text := if k = 0 then base else base ++ (" (" ++ toString (k + 1) ++ ")").toList
  ((List.range (s.cas.rows.length + 1)).map candidate).find? (fun name => !s.cas.rows.any (·.name == name)) |>.getD base

/-- the parents of a bundle, topmost first: those in the table already are not imported again -/
def importParents (lib : Lib) (env : Env) (name : Text) : List X509 → Option ℤ → Db → Except PyError (Db × Option ℤ)
  | [], parentId, s => .ok (s, parentId)
  | cert :: rest, parentId, s =>
    match s.cas.rows.find? (·.serialNumber == formatHex cert.serialNumber) with
    | some existing => importParents lib env name rest (some existing.id) s
    | none => do
      let base := cert.commonName.getD (name ++ " parent".toList)
      let s' ← importCaObject lib env (uniqueCaName base s) cert none parentId s
      importParents lib env name rest (some s.cas.nextKey) s'

/-- `_order_chain` before the walk: one certificate for each serial number and subject -/
def uniqueCerts (certs : List X509) : List X509 :=
  certs.foldl (fun acc cert =>
    if acc.any (fun c => c.serialNumber == cert.serialNumber && c.subject == cert.subject) then
      acc.map fun c => if c.serialNumber = cert.serialNumber ∧ c.subject = cert.subject then cert else c
    else acc ++ [cert]) []

/-- the walk of `_order_chain`, with fuel for every certificate -/
def climbChain (lib : Lib) (certs : List X509) : ℕ → X509 → List X509 → Except PyError (List X509)
  | 0, _, ordered => .ok ordered
  | n + 1, current, ordered =>
    if current.issuer = current.subject then .ok ordered
    else
      match certs.reverse.find? (·.subject == current.issuer) with
      | none => .ok ordered
      | some parent =>
        if parent ∈ ordered then .error (.valueError "The certificate bundle contains a loop.")
        else if !lib.directlyIssued current parent then
          .error (.valueError "Certificate chain does not verify")
        else climbChain lib certs n parent (ordered ++ [parent])

/-- `_order_chain`: leaf first -/
def orderChain (lib : Lib) (bundle : List X509) : Except PyError (List X509) :=
  let certs := uniqueCerts bundle
  if certs.length = 1 then .ok certs
  else
    let issuers := (certs.filter fun c => c.issuer != c.subject).map (·.issuer)
    match certs.filter (fun c => !issuers.contains c.subject) with
    | [leaf] => do
      let ordered ← climbChain lib certs certs.length leaf [leaf]
      if ordered.length ≠ certs.length then
        .error (.valueError "The certificate bundle contains certificates that are not part of one chain.")
      else .ok ordered
    | _ => .error (.valueError "The certificate bundle does not form a single chain.")

/-- `_import_chain` -/
def importChain (lib : Lib) (env : Env) (name : Text) (ordered : List X509) (key : Option Text) (parentId : Option ℤ)
    (s : Db) : Except PyError Db :=
  match ordered with
  | [] => .error (.other "IndexError")
  | leaf :: parents =>
    if parentId.isSome ∧ (ordered.getLast?).any (fun top => top.issuer == top.subject) then
      .error (.valueError "The bundle ends in a self-signed root; a parent CA cannot be assigned to it.")
    else do
      let (s', leafParent) ← importParents lib env name parents.reverse parentId s
      importCaObject lib env name leaf key leafParent s'

/-- the form of an import: the parsed bundle, and the public half of the private key when one is given -/
structure ImportForm where
  name : Text
  bundle : List X509
  key : Option Text
  parentId : Option ℤ
  approvalStatus : ApprovalStatus

/-- `_apply_import_approval`: only a CA with a key waits for approval -/
def applyImportApproval (status : ApprovalStatus) (ca : CaRow) : CaRow :=
  { ca with approvalStatus := if status = .pending ∧ ca.hasSigningKey then .pending else .approved }

theorem ImportForm.applyImportApproval_id (form : ImportForm) (ca : CaRow) :
    (applyImportApproval form.approvalStatus ca).id = ca.id := rfl

/-- the newest CA -/
def Db.lastCa (s : Db) : ℤ := ((s.cas.rows.getLast?).map (·.id)).getD 0

/-- the rows of an import -/
def importRows (lib : Lib) (env : Env) (form : ImportForm) (ordered : List X509) (s : Db) : Except PyError Db :=
  match ordered with
  | [cert] => importCaObject lib env form.name cert form.key form.parentId s
  | _ => importChain lib env form.name ordered form.key form.parentId s

/-- `import_ca`, `import_pkcs12` -/
def importCa (lib : Lib) (env : Env) (form : ImportForm) (s : Db) : Except PyError Db := do
  let ordered ← orderChain lib form.bundle
  let s' ← importRows lib env form ordered s
  .ok (publishInitialCrl env s'.lastCa
    (s'.updateCa s'.lastCa (applyImportApproval form.approvalStatus) form.applyImportApproval_id))

/-! ## Alternate certificates -/

/-- the columns of a new alternate -/
structure NewAlternate where
  caId : ℤ
  kind : AltKind
  certificate : X509
  issuerCaId : Option ℤ
  approvalStatus : ApprovalStatus

def NewAlternate.row (n : NewAlternate) (id : ℤ) : CaCertRow where
  id := id
  caId := n.caId
  kind := n.kind
  certificate := n.certificate
  issuerCaId := n.issuerCaId
  serialNumber := formatHex n.certificate.serialNumber
  notBefore := n.certificate.notBefore
  notAfter := n.certificate.notAfter
  approvalStatus := n.approvalStatus

def Db.insertAlternate (s : Db) (n : NewAlternate) : Db := { s with alternates := s.alternates.insert n.row }

def Db.deleteAlternate (s : Db) (altId : ℤ) : Db := { s with alternates := s.alternates.filter fun a => a.id != altId }

def Db.approveAlternateRow (s : Db) (altId : ℤ) : Db :=
  { s with alternates := s.alternates.update altId fun a => { a with approvalStatus := .approved } }

/-- the primary of a CA as a `previous` alternate -/
def previousOf (ca : CaRow) (id : ℤ) : CaCertRow where
  id := id
  caId := ca.id
  kind := .previous
  certificate := ca.certificate
  issuerCaId := ca.parentId
  serialNumber := ca.serialNumber
  notBefore := ca.certificate.notBefore
  notAfter := ca.certificate.notAfter
  approvalStatus := .approved

/-- the primary becomes the certificate of an alternate -/
def promoted (row : CaCertRow) (ca : CaRow) : CaRow :=
  { ca with certificate := row.certificate, serialNumber := row.serialNumber, notBefore := row.certificate.notBefore,
            notAfter := row.certificate.notAfter }

/-- `_promote_reissue` -/
def promoteReissue (ca : CaRow) (row : CaCertRow) (s : Db) : Db :=
  Db.deleteAlternate { (s.updateCa ca.id (promoted row)) with alternates := s.alternates.insert (previousOf ca) } row.id

/-- `_ca_cert_builder`: the same names and key under another issuer -/
def reissuedCertificate (ca : CaRow) (issuer : X509) (serial : ℤ) (now notAfter : DateTime) (pathLength : Option ℤ) :
    X509 :=
  { ca.certificate with
    issuer := issuer.subject
    serialNumber := serial
    notBefore := wholeSeconds now
    notAfter := wholeSeconds notAfter
    basicConstraints := some (true, pathLength)
    hasKeyId := true
    nameConstraints := ca.nameConstraints }

def CaRow.kind (ca : CaRow) : CertKind := if ca.isRoot then .root else .intermediate

/-- the checks of `reissue_ca_certificate`, and who signs -/
def reissueIssuer (env : Env) (ca : CaRow) (s : Db) : Except PyError CaRow :=
  if !ca.hasSigningKey && ca.isRoot then
    .error (.valueError "A certificate-only root cannot re-issue its own certificate (no private key).")
  else if ca.isRevoked then .error (.valueError "A revoked CA cannot be re-issued.")
  else if ca.approvalStatus = .pending then .error (.valueError "This CA is awaiting dual-control approval.")
  else if ca.isRoot then .ok ca
  else
    match ca.parentId.bind s.cas.get? with
    | none =>
      .error (.valueError ("This CA's issuer is not in the database (imported without its chain); " ++
        "it cannot be re-issued here."))
    | some issuer =>
      if issuer.cannotSign then .error (.valueError "The parent CA cannot sign (no private key or awaiting approval).")
      else if issuer.isRevoked then .error (.valueError "The parent CA is revoked and cannot re-issue this CA.")
      else if issuer.expired env.now then
        .error (.valueError "The parent CA has expired and cannot re-issue this CA.")
      else .ok issuer

/-- the days left to an issuer, at least one -/
def daysLeft (env : Env) (issuer : CaRow) : ℤ := max 1 (daysBetween issuer.notAfter env.now)

/-- a re-issued certificate: promoted at once, or stored until it is approved -/
def storeReissue (ca : CaRow) (new : NewAlternate) (s : Db) : Db :=
  if new.approvalStatus = .approved then promoteReissue ca (new.row s.alternates.nextKey) (s.insertAlternate new)
  else s.insertAlternate new

/-- the validity of a re-issue: what the certificate had, within what its issuer has left -/
def reissueDays (env : Env) (ca issuer : CaRow) (validityDays : Option ℤ) : ℤ :=
  let asked := validityDays.getD (max 1 (daysBetween ca.notAfter ca.notBefore))
  if ca.isRoot then asked else min asked (daysLeft env issuer)

/-- `reissue_ca_certificate` -/
def reissueCaCertificate (env : Env) (ca : CaRow) (validityDays : Option ℤ) (status : ApprovalStatus) (serial : ℤ)
    (s : Db) : Except PyError Db := do
  let issuer ← reissueIssuer env ca s
  env.checks
  let notAfter ← boundedNotAfter env ca.kind (reissueDays env ca issuer validityDays) none
  if !issuer.certificate.hasKeyId then .error (.other "ExtensionNotFound")
  else
    .ok (storeReissue ca ⟨ca.id, .reissue, reissuedCertificate ca issuer.certificate serial env.now notAfter ca.pathLength,
      if ca.isRoot then none else some issuer.id, status⟩ s)

/-- does the walk from a CA to the top meet `target` -/
def above (s : Db) (target : ℤ) : ℕ → Option CaRow → Bool
  | 0, _ => false
  | _, none => false
  | n + 1, some current => current.id == target || above s target n (current.parentId.bind s.cas.get?)

/-- the refusals of `cross_sign_ca` -/
def checkCrossSign (env : Env) (ca issuer : CaRow) (s : Db) : Except PyError Unit :=
  if issuer.id = ca.id then .error (.valueError "A CA cannot cross-sign itself; use re-issue.")
  else if ca.isRevoked then .error (.valueError "A revoked CA cannot be cross-signed.")
  else if issuer.cannotSign || issuer.isRevoked then
    .error (.valueError "The issuing CA cannot sign (no private key, awaiting approval, or revoked).")
  else if issuer.expired env.now then .error (.valueError "The issuing CA has expired.")
  else if above s ca.id s.cas.rows.length (some issuer) then
    .error (.valueError ("The issuing CA is a descendant of this CA; " ++ "a cross-certificate would create a loop."))
  else .ok ()

/-- `cross_sign_ca` -/
def crossSignCa (lib : Lib) (env : Env) (ca issuer : CaRow) (validityDays : Option ℤ) (status : ApprovalStatus)
    (serial : ℤ) (s : Db) : Except PyError Db := do
  checkCrossSign env ca issuer s
  NameConstraints.enforce lib.names s.issuing issuer.issuing (some (ca.certificate.commonName.getD ca.name)) []
  env.checks
  let pathLength ← clampPathLength "The issuing CA's path length is 0 — it cannot certify a CA." issuer.pathLength
    ca.pathLength
  let notAfter ← boundedNotAfter env ca.kind
    (min (validityDays.getD (max 1 (daysBetween ca.notAfter env.now))) (daysLeft env issuer)) none
  if !issuer.certificate.hasKeyId then .error (.other "ExtensionNotFound")
  else
    .ok (s.insertAlternate ⟨ca.id, .cross, reissuedCertificate ca issuer.certificate serial env.now notAfter pathLength,
      some issuer.id, status⟩)

/-- the refusals of `import_alternate_certificate` -/
def checkAlternate (ca : CaRow) (cert : X509) (s : Db) : Except PyError Unit :=
  if cert.publicKey ≠ ca.certificate.publicKey then
    .error (.valueError "The certificate's public key does not match this CA's key.")
  else
    match cert.basicConstraints with
    | none => .error (.valueError "The certificate has no BasicConstraints extension; it is not a CA certificate.")
    | some (false, _) => .error (.valueError "The certificate is not a CA certificate (BasicConstraints ca=False).")
    | some (true, _) =>
      if formatHex cert.serialNumber = ca.serialNumber ∨
          (s.alternatesOf ca.id).any (·.serialNumber == formatHex cert.serialNumber) then
        .error (.valueError "This certificate is already stored for the CA.")
      else .ok ()

/-- `import_alternate_certificate`: the issuer is linked when it is in the table -/
def importAlternateCertificate (lib : Lib) (ca : CaRow) (cert : X509) (s : Db) : Except PyError Db := do
  checkAlternate ca cert s
  .ok (s.insertAlternate ⟨ca.id, .cross, cert,
    if cert.issuer = cert.subject then none else findParentByIssuer lib cert s, .approved⟩)

/-- `approve_alternate` -/
def approveAlternate (ca : CaRow) (row : CaCertRow) (s : Db) : Except PyError Db :=
  if row.approvalStatus ≠ .pending then .error (.valueError "This certificate is not awaiting approval.")
  else if row.kind = .reissue then .ok (promoteReissue ca row s)
  else .ok (s.approveAlternateRow row.id)

/-- no IP addresses, every signature verifies -/
def sampleLib : Lib :=
  ⟨⟨.ascii, fun _ => none, fun _ => none, fun _ => [], fun _ => .ok [], fun _ => true, fun _ _ => true⟩, fun _ _ => true⟩

end Chancery.Pki
