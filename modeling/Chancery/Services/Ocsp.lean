/-
OCSP answers (app/services/ocsp_service.py), computed without the response cache.

A request that does not parse is an exception. Who signs (a delegated responder or the CA's own key) is a parameter: the
outcome of the signature. The columns of the delegated responder are left out, nothing here reads them.
-/
import Mathlib.Tactic
import Chancery.Services.Crl

namespace Chancery.Pki

open Chancery.Core

inductive HashAlgorithm
  | sha1
  | sha224
  | sha256
  | sha384
  | sha512
deriving DecidableEq, Repr

/-- a parsed OCSPRequest; no algorithm: the library does not know it, or it is not an allowed one -/
structure OcspRequest where
  serialNumber : ℤ
  hashAlgorithm : Option HashAlgorithm

/-- `_request_hash_algorithm` -/
def requestHashAlgorithm (req : OcspRequest) : HashAlgorithm := req.hashAlgorithm.getD .sha256

/-- `_REVOCATION_REASONS` -/
def ocspReasons : List (String × ReasonFlag) :=
  [("unspecified", .unspecified), ("key_compromise", .keyCompromise), ("ca_compromise", .caCompromise),
    ("affiliation_changed", .affiliationChanged), ("superseded", .superseded),
    ("cessation_of_operation", .cessationOfOperation), ("certificate_hold", .certificateHold),
    ("privilege_withdrawn", .privilegeWithdrawn), ("aa_compromise", .aaCompromise)]

/-- `_REVOCATION_REASONS.get(reason, unspecified)` -/
def ocspReason (reason : Option String) : ReasonFlag := (reason.bind fun r => ocspReasons.lookup r).getD .unspecified

inductive CertStatus
  | good
  | revoked (revocationTime : DateTime) (reason : ReasonFlag)
deriving DecidableEq

structure SingleResponse where
  status : CertStatus
  thisUpdate : DateTime
  nextUpdate : DateTime
  algorithm : HashAlgorithm
deriving DecidableEq

inductive OcspAnswer
  | unauthorized
  | answered (response : SingleResponse)
deriving DecidableEq

/-- what the answer reads of a subject -/
structure OcspSubject where
  isRevoked : Bool
  revokedAt : Option DateTime
  revocationReason : Option String

def leafSubject (c : LeafRow) : OcspSubject := ⟨c.isRevoked, c.revokedAt, c.revocationReason⟩

def caSubject (sub : CaRow) : OcspSubject := ⟨sub.isRevoked, sub.revokedAt, sub.revocationReason⟩

/-- a leaf of this CA with this serial number, else a sub-CA -/
def ocspSubject (s : Db) (caId : ℤ) (serialHex : Text) : Option OcspSubject :=
  match s.leaves.rows.find? (fun c => c.serialNumber == serialHex && c.caId == caId) with
  | some c => some (leafSubject c)
  | none =>
    (s.cas.rows.find? (fun sub => sub.serialNumber == serialHex && sub.parentId == some caId)).map caSubject

/-- the status the library accepts -/
def certStatus (now : DateTime) (subject : OcspSubject) : Except PyError CertStatus :=
  if subject.isRevoked then
    if subject.revokedAt.getD now < earliestTime then
      .error (.valueError "The revocation_time must be on or after 1950 January 1.")
    else .ok (.revoked (wholeSeconds (subject.revokedAt.getD now)) (ocspReason subject.revocationReason))
  else .ok .good

/-- `OCSP_RESPONSE_VALIDITY_HOURS` -/
def responseValidity : DateTime := 24 * 3600 * second

/-- `build_ocsp_response` -/
def buildOcspResponse (now : DateTime) (sign : Except PyError Unit) (req? : Option OcspRequest) (ca : CaRow) (s : Db) :
    Except PyError OcspAnswer :=
  if ca.cannotSign then .ok .unauthorized
  else
    match req? with
    | none => .error (.other "MalformedOcspRequest")
    | some req =>
      match ocspSubject s ca.id (formatHex req.serialNumber) with
      | none => .ok .unauthorized
      | some subject => do
        let status ← certStatus now subject
        sign
        .ok (.answered ⟨status, wholeSeconds now, wholeSeconds (now + responseValidity), requestHashAlgorithm req⟩)

/-- the two tables of reasons are one -/
theorem ocspReason_eq (reason : Option String) : ocspReason reason = crlReason reason := rfl

end Chancery.Pki
