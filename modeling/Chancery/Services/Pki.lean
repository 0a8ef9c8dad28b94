/-
The tables of the CA hierarchy (app/models/ca.py, app/models/ca_certificate.py, app/models/certificate.py).

A row keeps its PEM columns parsed: a CA its certificate and its cached CRL, an alternate its certificate. Of a certificate
it keeps what the services look at. Datetimes of a row are naive UTC with microseconds, those inside a certificate or a CRL
are whole seconds.
-/
import Mathlib.Tactic
import Chancery.Services.CertService

namespace Chancery.Pki

open Chancery.Core

/-! ## Certificates and CRLs -/

/-- a parsed CA certificate -/
structure X509 where
  /-- the DER encodings of the names -/
  subject : Text
  issuer : Text
  /-- the first common name of the subject -/
  commonName : Option Text
  serialNumber : ℤ
  publicKey : Text
  notBefore : DateTime
  notAfter : DateTime
  /-- BasicConstraints: `ca` and `path_length` -/
  basicConstraints : Option (Bool × Option ℤ)
  /-- has it a SubjectKeyIdentifier -/
  hasKeyId : Bool
  nameConstraints : Option Constraints
deriving DecidableEq

/-- `x509.ReasonFlags`, as far as the tables of reasons use it -/
inductive ReasonFlag
  | unspecified
  | keyCompromise
  | caCompromise
  | affiliationChanged
  | superseded
  | cessationOfOperation
  | certificateHold
  | privilegeWithdrawn
  | aaCompromise
deriving DecidableEq, Repr

structure CrlEntry where
  serialNumber : ℤ
  revocationDate : DateTime
  reason : ReasonFlag
deriving DecidableEq

structure Crl where
  number : ℤ
  lastUpdate : DateTime
  nextUpdate : DateTime
  entries : List CrlEntry
deriving DecidableEq

/-! ## Rows -/

inductive ApprovalStatus
  | approved
  | pending
deriving DecidableEq, Repr

/-- a row of `certificate_authorities` -/
structure CaRow where
  id : ℤ
  name : Text
  serialNumber : Text
  certificate : X509
  /-- `has_signing_key` -/
  hasSigningKey : Bool
  parentId : Option ℤ
  isRoot : Bool
  notBefore : DateTime
  notAfter : DateTime
  pathLength : Option ℤ
  crlNumber : ℤ
  crl : Option Crl
  isRevoked : Bool
  revokedAt : Option DateTime
  revocationReason : Option String
  approvalStatus : ApprovalStatus
  nameConstraints : Option Constraints
  acmeEnabled : Bool

inductive AltKind
  | previous
  | cross
  | reissue
deriving DecidableEq, Repr

/-- a row of `ca_certificates` -/
structure CaCertRow where
  id : ℤ
  caId : ℤ
  kind : AltKind
  certificate : X509
  issuerCaId : Option ℤ
  serialNumber : Text
  notBefore : DateTime
  notAfter : DateTime
  approvalStatus : ApprovalStatus

/-- a row of `certificates` -/
structure LeafRow extends Certificate where
  serialNumber : Text
  /-- `private_key_enc` is not empty -/
  keyEscrowed : Bool
  notBefore : DateTime
  notAfter : DateTime
  isRevoked : Bool
  revokedAt : Option DateTime
  revocationReason : Option String
  renewedFromId : Option ℤ

abbrev CaRowTable := Table CaRow.id

abbrev LeafTable := Table (fun c : LeafRow => c.id)

abbrev AltTable := Table CaCertRow.id

structure Db where
  cas : CaRowTable
  leaves : LeafTable
  alternates : AltTable
  csrs : CsrTable

def Db.empty : Db := ⟨Table.empty, Table.empty, Table.empty, Table.empty⟩

/-- the columns of a CA that leaf issuance reads -/
def CaRow.issuing (ca : CaRow) : IssuingCa where
  id := ca.id
  name := ca.name
  parentId := ca.parentId
  hasSigningKey := ca.hasSigningKey
  pendingApproval := ca.approvalStatus == .pending
  isRevoked := ca.isRevoked
  notAfter := ca.notAfter
  nameConstraints := ca.nameConstraints

def Db.issuing (s : Db) : CaTable := ⟨s.cas.rows.map CaRow.issuing, List.pairwise_map.2 s.cas.sorted⟩

/-! ## Queries -/

/-- `ca.children` -/
def Db.children (s : Db) (caId : ℤ) : List ℤ := (s.cas.rows.filter (·.parentId == some caId)).map (·.id)

/-- `ca.alternate_certificates` -/
def Db.alternatesOf (s : Db) (caId : ℤ) : List CaCertRow := s.alternates.rows.filter (·.caId == caId)

/-- no unrevoked CA has this id -/
def Db.caRevoked (s : Db) (caId : ℤ) : Bool := (s.cas.get? caId).all (·.isRevoked)

/-- `not_after <= now` -/
def CaRow.expired (ca : CaRow) (now : DateTime) : Bool := decide (ca.notAfter ≤ now)

/-- `signing_capable()` -/
def CaRow.signingCapable (ca : CaRow) : Bool := !ca.isRevoked && ca.approvalStatus == .approved && ca.hasSigningKey

/-! ## Updates -/

def Db.updateCa (s : Db) (caId : ℤ) (f : CaRow → CaRow)
    (hf : ∀ a, (f a).id = a.id := by as_aux_lemma => intro; rfl) : Db :=
  { s with cas := s.cas.update caId f hf }

def Db.updateLeaf (s : Db) (certId : ℤ) (f : LeafRow → LeafRow)
    (hf : ∀ a, (f a).id = a.id := by as_aux_lemma => intro; rfl) : Db :=
  { s with leaves := s.leaves.update certId f hf }

theorem CaRow.approve_id (ca : CaRow) : ({ ca with approvalStatus := .approved } : CaRow).id = ca.id := rfl

theorem CaRow.setAcme_id {enable : Bool} (ca : CaRow) : ({ ca with acmeEnabled := enable } : CaRow).id = ca.id := rfl

section Queries

variable {s : Db} {caId i : ℤ} {f : CaRow → CaRow}

theorem mem_children : i ∈ s.children caId ↔ ∃ ca ∈ s.cas, ca.parentId = some caId ∧ ca.id = i := by
  simp only [Db.children, List.mem_map, List.mem_filter, beq_iff_eq, Table.mem_def, and_assoc]

/-- **Children stay** when an update keeps ids and parents. -/
theorem children_mapRows {g : CaRow → CaRow} {hg : ∀ a, (g a).id = a.id} (hp : ∀ a, (g a).parentId = a.parentId) :
    Db.children { s with cas := s.cas.mapRows g hg } = s.children := by
  funext j
  have hpred : ((fun ca : CaRow => ca.parentId == some j) ∘ g) = fun ca => ca.parentId == some j := by
    funext ca
    exact congrArg (· == some j) (hp ca)
  have hid : ((fun ca : CaRow => ca.id) ∘ g) = fun ca => ca.id := funext hg
  show ((s.cas.rows.map g).filter (fun ca => ca.parentId == some j)).map (fun ca => ca.id) =
    (s.cas.rows.filter (fun ca => ca.parentId == some j)).map (fun ca => ca.id)
  rw [List.filter_map, List.map_map, hpred, hid]

theorem children_updateCa {hf : ∀ a, (f a).id = a.id} (hp : ∀ a, (f a).parentId = a.parentId) :
    (s.updateCa caId f hf).children = s.children := by
  refine children_mapRows (s := s) fun a => ?_
  split_ifs
  · exact hp a
  · rfl

theorem get?_updateCa {hf : ∀ a, (f a).id = a.id} :
    (s.updateCa caId f hf).cas.get? i = if i = caId then (s.cas.get? i).map f else s.cas.get? i :=
  @Table.get?_update _ _ s.cas f hf caId i

theorem get?_updateCa_of_ne {hf : ∀ a, (f a).id = a.id} (h : i ≠ caId) :
    (s.updateCa caId f hf).cas.get? i = s.cas.get? i := by rw [get?_updateCa, if_neg h]

theorem get?_updateCa_self {hf : ∀ a, (f a).id = a.id} {ca : CaRow} (h : s.cas.get? caId = some ca) :
    (s.updateCa caId f hf).cas.get? caId = some (f ca) := by rw [get?_updateCa, if_pos rfl, h]; rfl

/-- the rows after an update: the updated one, and the others as they were -/
theorem mem_updateCa {hf : ∀ a, (f a).id = a.id} {b : CaRow} :
    b ∈ (s.updateCa caId f hf).cas ↔ ∃ a ∈ s.cas, (if a.id = caId then f a else a) = b := List.mem_map

end Queries

/-! ## Sample rows -/

/-- a certificate with serial number `serial`, from `notBefore` to `notAfter` -/
def sampleCertificate (name issuer : String) (serial : ℤ) (notBefore notAfter : DateTime) : X509 where
  subject := name.toList
  issuer := issuer.toList
  commonName := some name.toList
  serialNumber := serial
  publicKey := name.toList
  notBefore := notBefore
  notAfter := notAfter
  basicConstraints := some (true, none)
  hasKeyId := true
  nameConstraints := none

/-- an approved CA with a key, valid from day 0 to day 3650, its certificate signed by the parent or by itself -/
def sampleCa (id : ℤ) (name issuer : String) (parentId : Option ℤ) : CaRow where
  id := id
  name := name.toList
  serialNumber := formatHex (16 * id)
  certificate := sampleCertificate name issuer (16 * id) 0 (3650 * day)
  hasSigningKey := true
  parentId := parentId
  isRoot := parentId.isNone
  notBefore := 0
  notAfter := 3650 * day
  pathLength := none
  crlNumber := 0
  crl := none
  isRevoked := false
  revokedAt := none
  revocationReason := none
  approvalStatus := .approved
  nameConstraints := none
  acmeEnabled := false

def sampleRoot : CaRow := sampleCa 1 "root" "root" none

def sampleSub : CaRow := sampleCa 2 "sub" "root" (some 1)

/-- a certificate of the CA `caId` -/
def sampleLeaf (id caId : ℤ) : LeafRow where
  id := id
  caId := caId
  issued := ⟨[], none, [], none⟩
  issuanceSource := none
  acmeAccountId := none
  serialNumber := formatHex (256 * id)
  keyEscrowed := false
  notBefore := 0
  notAfter := 365 * day
  isRevoked := false
  revokedAt := none
  revocationReason := none
  renewedFromId := none

/-- a root, a sub-CA, and a certificate of the sub-CA -/
def sampleForest : Db where
  cas := ⟨[sampleRoot, sampleSub], by decide⟩
  leaves := ⟨[sampleLeaf 1 2], by decide⟩
  alternates := Table.empty
  csrs := Table.empty

end Chancery.Pki
