/-
Delegated OCSP responder certificates (ensure_responder of app/services/ocsp_service.py).

The columns of the responder are kept apart from the CA's: its certificate, by the id of the CA. Key generation, the
encryption of the key and the signature can refuse and are `Env.checks`. A function returns the certificate that the commit
of its caller stores, if there is a new one.
-/
import Mathlib.Tactic
import Chancery.Services.CaService

namespace Chancery.Pki

open Chancery.Core

/-- `OCSP_RESPONDER_VALIDITY_DAYS`, `OCSP_RESPONDER_RENEW_BEFORE_DAYS` -/
structure ResponderConfig where
  validityDays : ℤ
  renewBeforeDays : ℤ

/-- the defaults -/
def ResponderConfig.standard : ResponderConfig := ⟨30, 7⟩

/-- what is drawn for a responder: its key and serial number, and the DER encoding of its name -/
structure ResponderDraw where
  subject : Text
  serialNumber : ℤ
  publicKey : Text

/-- `responder_status(ca)["valid"]` -/
def responderValid (lib : Lib) (now : DateTime) (ca : CaRow) (responder : X509) : Bool :=
  lib.directlyIssued responder ca.certificate && decide (responder.notBefore ≤ now) && decide (now < responder.notAfter)

/-- `responder_needs_rotation` -/
def responderNeedsRotation (lib : Lib) (env : Env) (cfg : ResponderConfig) (ca : CaRow) (responder : Option X509) : Bool :=
  match responder with
  | none => true
  | some cert => !responderValid lib env.now ca cert || decide (daysBetween cert.notAfter env.now < cfg.renewBeforeDays)

/-- `(ca.name or "CA")[:64 - len(RESPONDER_CN_SUFFIX)] + RESPONDER_CN_SUFFIX` -/
def responderName (ca : CaRow) : Text :=
  let suffix := " OCSP Responder".toList
  (if ca.name = [] then "CA".toList else ca.name).take (64 - suffix.length) ++ suffix

/-- the certificate of a responder -/
def responderCertificate (ca : CaRow) (draw : ResponderDraw) (now notAfter : DateTime) : X509 where
  subject := draw.subject
  issuer := ca.certificate.subject
  commonName := some (responderName ca)
  serialNumber := draw.serialNumber
  publicKey := draw.publicKey
  notBefore := wholeSeconds now
  notAfter := wholeSeconds notAfter
  basicConstraints := some (false, none)
  hasKeyId := true
  nameConstraints := none

/-- the refusals of `ensure_responder` -/
def checkResponderCa (env : Env) (ca : CaRow) : Except PyError Unit :=
  if !ca.hasSigningKey then
    .error (.valueError "This CA has no private key and cannot issue an OCSP responder certificate.")
  else if ca.approvalStatus = .pending then
    .error (.valueError "This CA is awaiting dual-control approval and cannot issue anything yet.")
  else if ca.isRevoked then .error (.valueError "This CA is revoked; its OCSP responder cannot be renewed.")
  else if ca.expired env.now then
    .error (.valueError ("This CA has expired; it cannot issue an OCSP responder certificate " ++
      "(responses fall back to the CA key)."))
  else .ok ()

/-- `ensure_responder` -/
def ensureResponder (lib : Lib) (env : Env) (cfg : ResponderConfig) (ca : CaRow) (responder : Option X509) (force : Bool)
    (draw : ResponderDraw) : Except PyError (Option X509) := do
  checkResponderCa env ca
  if !force && !responderNeedsRotation lib env cfg ca responder then .ok none
  else do
    env.checks
    let notAfter ← boundedNotAfter env .leaf cfg.validityDays (some ca.notAfter)
    if !ca.certificate.hasKeyId then .error (.other "ExtensionNotFound")
    else .ok (some (responderCertificate ca draw env.now notAfter))

/-- a new responder certificate is bounded by the CA's column -/
theorem ensureResponder_ok {lib : Lib} {env : Env} {cfg : ResponderConfig} {ca : CaRow} {responder : Option X509}
    {force : Bool} {draw : ResponderDraw} {cert : X509}
    (h : ensureResponder lib env cfg ca responder force draw = .ok (some cert)) :
    ∃ notAfter, boundedNotAfter env .leaf cfg.validityDays (some ca.notAfter) = .ok notAfter ∧
      cert = responderCertificate ca draw env.now notAfter := by
  obtain ⟨_, _, h⟩ := bind_eq_ok.1 h
  by_cases hfresh : (!force && !responderNeedsRotation lib env cfg ca responder) = true
  · rw [if_pos hfresh] at h
    cases h
  rw [if_neg hfresh] at h
  obtain ⟨_, _, h⟩ := bind_eq_ok.1 h
  obtain ⟨notAfter, hnotAfter, h⟩ := bind_eq_ok.1 h
  by_cases hkey : (!ca.certificate.hasKeyId) = true
  · rw [if_pos hkey] at h
    cases h
  rw [if_neg hkey] at h
  cases h
  exact ⟨notAfter, hnotAfter, rfl⟩

end Chancery.Pki
