/-
Leaf issuance (app/services/cert_service.py, app/services/csr_service.py, and build_subject of app/services/policy.py):
direct creation, signing a CSR, renewal.

Each path runs its checks, builds the certificate from a subject and a list of SAN strings, and returns it with the row it
stores. A refusal is an exception. The checks that read no names (key strength, the profile, the validity bound) and the
signature itself can refuse for reasons of their own: their outcomes are a parameter (`Verdicts`), as are the fields of the
certificate that carry no names.
-/
import Mathlib.Tactic
import Chancery.Services.NameConstraints

namespace Chancery

open Chancery.Core

/-! ## Subjects, CSRs, certificates -/

/-- one attribute of a subject: the library's name of its OID (`attr.oid._name`) and its value -/
structure NameAttr where
  oid : String
  value : Text
deriving DecidableEq, Repr

/-- the attributes of a subject, in the order the library lists them -/
abbrev Subject := List NameAttr

/-- `subject.get_attributes_for_oid(NameOID.COMMON_NAME)` -/
def commonNames (s : Subject) : List Text := (s.filter (·.oid == "commonName")).map (·.value)

/-- a parsed CSR: its subject, its SAN extension and whether it is validly self-signed -/
structure Csr where
  subject : Subject
  san : Option (List GeneralName)
  isSignatureValid : Bool

inductive CsrStatus
  | pending
  | signing
  | approved
  | rejected
deriving DecidableEq, Repr

/-- a row of `certificate_signing_requests` -/
structure CsrRow where
  id : ℤ
  commonName : Text
  csr : Csr
  sanJson : Option (List Text)
  status : CsrStatus
  caId : Option ℤ
  certificateId : Option ℤ

/-- an issued certificate: the names in it, and the names its row stores -/
structure Issued where
  subject : Subject
  san : Option (List GeneralName)
  commonName : Text
  sanJson : Option (List Text)

/-- a row of `certificates` -/
structure Certificate where
  id : ℤ
  caId : ℤ
  issued : Issued
  issuanceSource : Option String
  acmeAccountId : Option ℤ

abbrev CsrTable := Table CsrRow.id

abbrev CertTable := Table Certificate.id

/-- the outcomes of the checks that read no names, and of the signature -/
structure Verdicts where
  keyStrength : Except PyError Unit
  profile : Except PyError Unit
  validity : Except PyError Unit
  backend : Except PyError Unit

/-- nothing refuses -/
def Verdicts.pass : Verdicts := ⟨.ok (), .ok (), .ok (), .ok ()⟩

namespace CertService

variable (L : NameLib)

/-- `san_list if san_list else None`, as stored -/
def stored (san : List Text) : Option (List Text) := if san = [] then none else some san

/-! ## CSR rows -/

/-- `subject_attrs.get(name)` of the dict built attribute by attribute: the last one wins -/
def lastAttr (s : Subject) (name : String) : Option Text := (s.reverse.find? (·.oid == name)).map (·.value)

/-- the SAN strings `parse_csr` extracts -/
def csrSans (csr : Csr) : List Text := (csr.san.map (San.extensionToStrings L)).getD []

/-- `import_csr`: the row stored for a CSR -/
def importCsr (csr : Csr) (id : ℤ) : CsrRow where
  id := id
  commonName := (lastAttr csr.subject "commonName").getD ((lastAttr csr.subject "CN").getD "Unknown".toList)
  csr := csr
  sanJson := stored (csrSans L csr)
  status := .pending
  caId := none
  certificateId := none

theorem importCsr_id {L : NameLib} {csr : Csr} (id : ℤ) : (importCsr L csr id).id = id := rfl

/-! ## The builder -/

/-- `san.build_extension` -/
def buildSan (san : List Text) : Except PyError (Option (List GeneralName)) := do
  let names ← San.buildGeneralNames L san
  .ok (if names = [] then none else some names)

/-- the SAN extension of the builder: none without SAN strings -/
def sanExtension (san : List Text) : Except PyError (Option (List GeneralName)) :=
  if san = [] then .ok none else buildSan L san

/-- `_leaf_builder` and the signature: the certificate over a subject and SAN strings -/
def leafCertificate (ca : IssuingCa) (v : Verdicts) (now : DateTime) (subject : Subject) (san : List Text)
    (commonName : Text) (sanJson : Option (List Text)) : Except PyError Issued :=
  if ca.notAfter ≤ now then .error (.valueError "The issuing CA has expired and can no longer issue certificates.")
  else do
    v.validity
    let ext ← sanExtension L san
    v.backend
    .ok ⟨subject, ext, commonName, sanJson⟩

/-- the checks on the issuing CA every path starts with -/
def caCanIssue (ca : IssuingCa) : Except PyError Unit :=
  if !ca.hasSigningKey then
    .error (.valueError "This CA was imported without its private key and cannot issue certificates.")
  else if ca.pendingApproval then
    .error (.valueError "This CA is awaiting dual-control approval and cannot issue certificates yet.")
  else .ok ()

/-! ## Signing a CSR -/

/-- the operator's SAN strings, or those of the row when there are none -/
def effectiveSan (row : CsrRow) (sanList : List Text) : List Text :=
  if sanList = [] then row.sanJson.getD [] else sanList

/-- `sign_csr` before the claim -/
def checkCsr (cas : CaTable) (ca : IssuingCa) (row : CsrRow) (sanList : List Text) (v : Verdicts) :
    Except PyError Unit := do
  caCanIssue ca
  if !row.csr.isSignatureValid then
    .error (.valueError "CSR signature is invalid (proof-of-possession failed); refusing to sign.")
  else do
    v.keyStrength
    v.profile
    NameConstraints.enforce L cas ca (some row.commonName) (effectiveSan row sanList)

/-- `_sign_claimed_csr` up to the certificate -/
def signClaimed (ca : IssuingCa) (row : CsrRow) (sanList : List Text) (v : Verdicts) (now : DateTime) :
    Except PyError Issued :=
  let effective := effectiveSan row sanList
  leafCertificate L ca v now row.csr.subject effective row.commonName
    (if effective = [] then row.sanJson else some effective)

/-- what `_claim_csr` raises when the row is not pending any more -/
def alreadyProcessed : PyError := .valueError "This CSR has already been processed."

/-- `sign_csr`: `sanList` is the operator's override, the row's stored names apply when it is empty -/
def signCsr (cas : CaTable) (ca : IssuingCa) (row : CsrRow) (sanList : List Text) (v : Verdicts) (now : DateTime) :
    Except PyError Issued := do
  checkCsr L cas ca row sanList v
  if row.status ≠ .pending then .error alreadyProcessed
  else signClaimed L ca row sanList v now

/-! ## Direct issuance -/

/-- the request's subject fields: key and raw value -/
abbrev SubjectAttrs := List (String × Text)

/-- the accepted attributes, each with its label and the OID's name -/
def subjectKeys : List (String × String × String) :=
  [("CN", "Common Name", "commonName"), ("O", "Organization", "organizationName"),
    ("OU", "Organizational Unit", "organizationalUnitName"), ("C", "Country", "countryName"),
    ("ST", "State/Province", "stateOrProvinceName"), ("L", "Locality", "localityName")]

/-- one field of `build_subject`: nothing for an empty value -/
def subjectAttr (attrs : SubjectAttrs) (key label oid : String) : Except PyError (List NameAttr) :=
  match attrs.lookup key with
  | none => .ok []
  | some raw =>
    let value := strip raw
    if value = [] then .ok []
    else if key = "C" ∧ value.length ≠ 2 then
      .error (.valueError (label ++ " (C) must be the two-letter ISO 3166 country code, e.g. US, DE, GB (got '" ++
        String.ofList value ++ "')."))
    else if L.attrOk oid value then .ok [⟨oid, value⟩]
    else .error (.valueError (label ++ " (" ++ key ++ ") is invalid"))

def subjectFrom (attrs : SubjectAttrs) : List (String × String × String) → Except PyError Subject
  | [] => .ok []
  | (key, label, oid) :: rest => do
    let a ← subjectAttr L attrs key label oid
    let s ← subjectFrom attrs rest
    .ok (a ++ s)

/-- `build_subject` -/
def buildSubject (attrs : SubjectAttrs) : Except PyError Subject := subjectFrom L attrs subjectKeys

/-- `attrs.get("CN") or attrs.get("commonName")` -/
def requestedCn (attrs : SubjectAttrs) : Option Text :=
  match attrs.lookup "CN" with
  | some cn => if cn = [] then attrs.lookup "commonName" else some cn
  | none => attrs.lookup "commonName"

/-- `create_certificate` -/
def createCertificate (cas : CaTable) (ca : IssuingCa) (attrs : SubjectAttrs) (sanList : List Text) (v : Verdicts)
    (now : DateTime) : Except PyError Issued := do
  caCanIssue ca
  v.profile
  NameConstraints.enforce L cas ca (requestedCn attrs) sanList
  v.keyStrength
  let subject ← buildSubject L attrs
  leafCertificate L ca v now subject sanList ((attrs.lookup "CN").getD []) (stored sanList)

/-! ## Renewal -/

/-- what a renewal looks at besides the names: the old certificate's state and the options of the request -/
structure Renewal where
  oldId : ℤ
  /-- the ids of `old.renewals`, oldest first -/
  renewals : List ℤ
  force : Bool
  rekey : Bool
  keyEscrowed : Bool
  oldRevoked : Bool
  /-- the name of the old certificate's profile when that is disabled -/
  disabledProfile : Option String

/-- the refusals of `renew_certificate` before any name is read -/
def renewalAllowed (ca : IssuingCa) (r : Renewal) : Except PyError Unit :=
  if ca.isRevoked then .error (.valueError "The issuing CA is revoked; the certificate cannot be renewed.")
  else if !ca.hasSigningKey then
    .error (.valueError "The issuing CA has no private key and cannot issue certificates.")
  else if ca.pendingApproval then
    .error (.valueError "The issuing CA is awaiting dual-control approval and cannot issue certificates yet.")
  else if !r.renewals.isEmpty && !r.force then
    .error (.valueError ("Certificate #" ++ toString r.oldId ++ " was already renewed as #" ++
      toString (r.renewals.getLastD 0) ++ "; pass force to renew it again."))
  else if r.rekey && !r.keyEscrowed then
    .error (.valueError ("This certificate was issued from a CSR, so the CA holds no private key to replace — " ++
      "submit a new CSR to re-key it."))
  else if r.oldRevoked && !r.rekey then
    .error (.valueError "A revoked certificate can only be renewed with a new key (its key may be compromised).")
  else
    match r.disabledProfile with
    | some name =>
      .error (.valueError ("Certificate profile '" ++ name ++ "' is disabled; enable it or issue a new certificate."))
    | none => .ok ()

/-- `renew_certificate`: the successor keeps the whole subject of the old certificate and its stored names -/
def renewCertificate (cas : CaTable) (ca : IssuingCa) (old : Issued) (r : Renewal) (v : Verdicts) (now : DateTime) :
    Except PyError Issued := do
  renewalAllowed ca r
  let sanList := old.sanJson.getD []
  v.profile
  NameConstraints.enforce L cas ca (some old.commonName) sanList
  v.keyStrength
  leafCertificate L ca v now old.subject sanList old.commonName old.sanJson

/-! ## What a certificate is made of -/

variable {L}

/-- the names of an issued certificate: the subject it was given, and the general names of the SAN strings -/
theorem leafCertificate_ok {ca : IssuingCa} {v : Verdicts} {now : DateTime} {subject : Subject} {san : List Text}
    {cn : Text} {sanJson : Option (List Text)} {cert : Issued}
    (h : leafCertificate L ca v now subject san cn sanJson = .ok cert) :
    cert.subject = subject ∧ cert.commonName = cn ∧ cert.sanJson = sanJson ∧
      ((san = [] ∧ cert.san = none) ∨ buildSan L san = .ok cert.san) := by
  unfold leafCertificate at h
  by_cases hexp : ca.notAfter ≤ now
  · rw [if_pos hexp] at h
    cases h
  rw [if_neg hexp] at h
  obtain ⟨_, _, h⟩ := bind_eq_ok.1 h
  obtain ⟨ext, hext, h⟩ := bind_eq_ok.1 h
  obtain ⟨_, _, h⟩ := bind_eq_ok.1 h
  cases h
  refine ⟨rfl, rfl, rfl, ?_⟩
  unfold sanExtension at hext
  split_ifs at hext with hs
  · cases hext
    exact Or.inl ⟨hs, rfl⟩
  · exact Or.inr hext

/-- the general names of an issued certificate are those of its SAN strings -/
theorem buildGeneralNames_of_leafCertificate {ca : IssuingCa} {v : Verdicts} {now : DateTime} {subject : Subject}
    {san : List Text} {cn : Text} {sanJson : Option (List Text)} {cert : Issued}
    (h : leafCertificate L ca v now subject san cn sanJson = .ok cert) :
    San.buildGeneralNames L san = .ok (cert.san.getD []) := by
  rcases (leafCertificate_ok h).2.2.2 with ⟨hsan, hnone⟩ | hbuild
  · rw [hsan, hnone]
    rfl
  · obtain ⟨names, hnames, heq⟩ := bind_eq_ok.1 hbuild
    rw [hnames]
    split_ifs at heq with hn
    · rw [← Except.ok.inj heq, hn]
      rfl
    · rw [← Except.ok.inj heq]
      rfl

/-- what the checks before the claim guarantee -/
theorem checkCsr_ok {cas : CaTable} {ca : IssuingCa} {row : CsrRow} {sanList : List Text} {v : Verdicts}
    (h : checkCsr L cas ca row sanList v = .ok ()) :
    row.csr.isSignatureValid = true ∧
      NameConstraints.enforce L cas ca (some row.commonName) (effectiveSan row sanList) = .ok () := by
  obtain ⟨_, _, h⟩ := bind_eq_ok.1 h
  by_cases hsig : row.csr.isSignatureValid = true
  swap
  · rw [if_pos (by simpa using hsig)] at h
    cases h
  rw [if_neg (by simpa using hsig)] at h
  obtain ⟨_, _, h⟩ := bind_eq_ok.1 h
  obtain ⟨_, _, h⟩ := bind_eq_ok.1 h
  exact ⟨hsig, h⟩

theorem signCsr_ok {cas : CaTable} {ca : IssuingCa} {row : CsrRow} {sanList : List Text} {v : Verdicts} {now : DateTime}
    {cert : Issued} (h : signCsr L cas ca row sanList v now = .ok cert) :
    checkCsr L cas ca row sanList v = .ok () ∧ row.status = .pending ∧ signClaimed L ca row sanList v now = .ok cert := by
  obtain ⟨u, hcheck, h⟩ := bind_eq_ok.1 h
  by_cases hst : row.status = .pending
  swap
  · rw [if_pos hst] at h
    cases h
  rw [if_neg (not_not.2 hst)] at h
  exact ⟨hcheck, hst, h⟩

theorem createCertificate_ok {cas : CaTable} {ca : IssuingCa} {attrs : SubjectAttrs} {sanList : List Text} {v : Verdicts}
    {now : DateTime} {cert : Issued} (h : createCertificate L cas ca attrs sanList v now = .ok cert) :
    ∃ subject, buildSubject L attrs = .ok subject ∧ NameConstraints.enforce L cas ca (requestedCn attrs) sanList = .ok () ∧
      leafCertificate L ca v now subject sanList ((attrs.lookup "CN").getD []) (stored sanList) = .ok cert := by
  obtain ⟨_, _, h⟩ := bind_eq_ok.1 h
  obtain ⟨_, _, h⟩ := bind_eq_ok.1 h
  obtain ⟨u, hen, h⟩ := bind_eq_ok.1 h
  cases u
  obtain ⟨_, _, h⟩ := bind_eq_ok.1 h
  obtain ⟨subject, hsub, h⟩ := bind_eq_ok.1 h
  exact ⟨subject, hsub, hen, h⟩

theorem renewCertificate_ok {cas : CaTable} {ca : IssuingCa} {old : Issued} {r : Renewal} {v : Verdicts} {now : DateTime}
    {cert : Issued} (h : renewCertificate L cas ca old r v now = .ok cert) :
    NameConstraints.enforce L cas ca (some old.commonName) (old.sanJson.getD []) = .ok () ∧
      leafCertificate L ca v now old.subject (old.sanJson.getD []) old.commonName old.sanJson = .ok cert := by
  obtain ⟨_, _, h⟩ := bind_eq_ok.1 h
  obtain ⟨_, _, h⟩ := bind_eq_ok.1 h
  obtain ⟨u, hen, h⟩ := bind_eq_ok.1 h
  cases u
  obtain ⟨_, _, h⟩ := bind_eq_ok.1 h
  exact ⟨hen, h⟩

end CertService

end Chancery
