/-
Profiles beside the CA hierarchy: the profile pages (app/routes/users.py), the allow-list and the ACME profile of a CA
(app/routes/ca.py, app/models/ca.py), and the four ways to issue a certificate under a profile (create of
app/routes/certificates.py, sign of app/routes/csr.py, finalize of app/services/acme/service.py, renew of
app/routes/certificates.py with renew_certificate of app/services/cert_service.py).

An issuance goes through `Pki.handle`, with the outcome of `enforce` for its profile check; what the row stores of the
profile and of the usage is recorded beside the tables, by certificate id. Requests are handled one at a time.
-/
import Mathlib.Tactic
import Chancery.Routes.Ca
import Chancery.Services.Profiles

namespace Chancery.Profiles

open Chancery.Core
open Chancery.Acme (truthy)
open Chancery.Pki (Env LeafForm LeafRow CaRow)

/-! ## State -/

/-- the columns of a CA that refer to profiles -/
structure CaSettings where
  allowedProfilesJson : Option String
  acmeProfileId : Option ℤ

/-- the defaults of the columns -/
def CaSettings.new : CaSettings := ⟨none, none⟩

/-- the columns of a certificate that come from its profile, and the usage extensions in it -/
structure LeafColumns where
  profileId : Option ℤ
  keyUsageJson : Option String
  extendedKeyUsageJson : Option String
  usage : LeafUsage

structure Site where
  db : Pki.Db
  profiles : ProfileTable
  /-- by CA id -/
  settings : ℤ → CaSettings
  /-- by certificate id -/
  columns : ℤ → LeafColumns
  /-- `profile_id`, by CSR id -/
  csrProfile : ℤ → Option ℤ

/-- a database without profiles after a start of the application -/
def Site.start (db : Pki.Db) : Site where
  db := db
  profiles := ensureBuiltins Table.empty
  settings := fun _ => .new
  columns := fun _ => ⟨none, none, none, ⟨⟨false, false, false, false, false⟩, none⟩⟩
  csrProfile := fun _ => none

/-! ## The allow-list -/

def intItems (lib : ProfileLib) (items : List Json) : Option (List ℤ) := (items.mapM fun v => (pyInt lib v).toOption)

/-- `allowed_profile_ids` -/
def allowedProfileIds (lib : ProfileLib) (c : CaSettings) : Option (List ℤ) :=
  match load lib c.allowedProfilesJson with
  | .arr items => intItems lib items
  | _ => none

/-- `set_allowed_profile_ids` -/
def storedAllowList (ids : Option (List ℤ)) : Option String :=
  match ids with
  | none => none
  | some ids => if ids = [] then none else some (Json.dumps .default (.arr ((ids.toFinset.sort (· ≤ ·)).map Json.num)))

/-- the fields of the allow-list form -/
structure AllowForm where
  restrict : Bool
  allowedProfiles : List Text

def lookupAll (lib : ProfileLib) (t : ProfileTable) : List Text → Except PyError (List ℤ)
  | [] => .ok []
  | raw :: rest => do
    match ← lookup lib t (some raw) with
    | none => .error (.valueError ("Unknown certificate profile '" ++ String.ofList raw ++ "'."))
    | some p => do
      let ids ← lookupAll lib t rest
      .ok (p.id :: ids)

/-- `_parse_allowed_profiles` -/
def parseAllowedProfiles (lib : ProfileLib) (t : ProfileTable) (form : AllowForm) : Except PyError (Option (List ℤ)) :=
  if !form.restrict then .ok none
  else do
    let ids ← lookupAll lib t form.allowedProfiles
    if ids = [] then .error (.valueError "Select at least one allowed profile, or turn the restriction off.")
    else .ok (some ids)

/-! ## Issuing under a profile -/

/-- an issuance: its form, the key, and the usage boxes that were sent -/
structure IssueForm where
  leaf : LeafForm
  keyType : String
  keySize : ℤ
  usageBoxes : String → Bool

/-- the key usage and the extended key usage of the boxes; a box that is sent is set -/
def IssueForm.requested (form : IssueForm) : Json × Json :=
  (if kuFields.any fun f => form.usageBoxes ("ku_" ++ f) then
      .obj (kuFields.map fun f => (f, .bool (form.usageBoxes ("ku_" ++ f))))
    else .null,
    if ekuNames.any fun n => form.usageBoxes ("eku_" ++ n) then
      names (ekuNames.filter fun n => form.usageBoxes ("eku_" ++ n))
    else .null)

/-- the form with the verdict of the profile, and with what the builder makes of the usage -/
def underProfile (u : Except PyError Usage) (form : LeafForm) : LeafForm :=
  { form with
    verdicts := { form.verdicts with
      profile := u.map fun _ => ()
      backend := do
        let u ← u
        let _ ← leafUsage u
        form.verdicts.backend } }

/-- the columns of a certificate issued under a profile -/
def columnsOf (profileId : Option ℤ) (u : Usage) (cert : LeafUsage) : LeafColumns :=
  ⟨profileId, storedIf u.keyUsage, storedIf u.extendedKeyUsage, cert⟩

/-- the tables after an issuance: a new row gets the columns -/
def Site.record (s : Site) (db : Pki.Db) (profileId : Option ℤ) (u : Except PyError Usage) : Site :=
  match u >>= fun u => (leafUsage u).map fun cert => columnsOf profileId u cert with
  | .error _ => { s with db := db }
  | .ok columns =>
    if (db.leaves.get? s.db.leaves.nextKey).isSome then
      { s with db := db, columns := Function.update s.columns s.db.leaves.nextKey columns }
    else { s with db := db }

/-- `ca.acme_profile if ca.acme_profile_id`, or `custom` -/
def acmeChoice (lib : ProfileLib) (s : Site) (caId : ℤ) : Except PyError (Option Profile) :=
  match ((s.settings caId).acmeProfileId.filter (· ≠ 0)).bind s.profiles.get? with
  | some p => .ok (some p)
  | none => lookup lib s.profiles (some "custom".toList)

/-- `_acme_profile` -/
def acmeProfile (lib : ProfileLib) (s : Site) (caId : ℤ) : Except PyError Profile := do
  match (← acmeChoice lib s caId).filter (·.enabled) with
  | some p => .ok p
  | none => .error (.other "The CA's ACME profile is missing or disabled.")

/-- the ways to issue a certificate -/
inductive Path
  | create (caId : ℤ) (profile : Option Text) (form : IssueForm)
  | sign (csrId caId : ℤ) (profile : Option Text) (form : IssueForm)
  /-- `days` is ACME_DEFAULT_VALIDITY_DAYS -/
  | acme (caId : ℤ) (csr : Csr) (days : ℤ) (form : IssueForm)
  /-- `days` is the validity asked for -/
  | renew (certId : ℤ) (days : Option ℤ) (form : Pki.RenewForm) (keyType : String) (keySize : ℤ)

variable (lib : Pki.Lib) (plib : ProfileLib)

/-- `create` of app/routes/certificates.py -/
def createUnder (required : Bool) (env : Env) (caId : ℤ) (profile : Option Text) (form : IssueForm) (s : Site) :
    Site × Except PyError Unit :=
  match s.db.cas.get? caId with
  | none => (s, .error Pki.caNotFound)
  | some ca =>
    if ca.isRevoked then (s, .error (.valueError "Cannot issue certificates from a revoked CA."))
    else
      match resolve plib required s.profiles profile ca.name (allowedProfileIds plib (s.settings caId)) with
      | .error e => (s, .error e)
      | .ok (p, profiles) =>
        let u := enforce plib (some p) ⟨form.keyType, form.keySize, form.leaf.validityDays, form.leaf.sanList,
          form.leaf.attrs.lookup "CN", form.requested.1, form.requested.2⟩
        let r := Pki.handle lib s.db env (.createCertificate caId (underProfile u form.leaf))
        (({ s with profiles := profiles } : Site).record r.1 (some p.id) u, r.2)

/-- the profile field of a sign request: the one of the CSR when it is blank -/
def requestedProfile (s : Site) (csrId : ℤ) (profile : Option Text) : Option Text :=
  if strip (profile.getD []) = [] then
    match (s.csrProfile csrId).bind s.profiles.get? with
    | some p => some p.key.toList
    | none => profile
  else profile

/-- `sign` of app/routes/csr.py -/
def signUnder (required : Bool) (env : Env) (csrId caId : ℤ) (profile : Option Text) (form : IssueForm) (s : Site) :
    Site × Except PyError Unit :=
  match s.db.csrs.get? csrId, s.db.cas.get? caId with
  | some row, some ca =>
    if row.status ≠ .pending then (s, .error CertService.alreadyProcessed)
    else if ca.isRevoked then (s, .error (.valueError "Cannot sign CSR with a revoked CA."))
    else
      match resolve plib required s.profiles (requestedProfile s csrId profile) ca.name
          (allowedProfileIds plib (s.settings caId)) with
      | .error e => (s, .error e)
      | .ok (p, profiles) =>
        let u := enforce plib (some p) ⟨form.keyType, form.keySize, form.leaf.validityDays,
          CertService.effectiveSan row form.leaf.sanList, some row.commonName, form.requested.1, form.requested.2⟩
        let r := Pki.handle lib s.db env (.signCsr csrId caId (underProfile u form.leaf))
        (({ s with profiles := profiles } : Site).record r.1 (some p.id) u, r.2)
  | _, _ => (s, .error Pki.caNotFound)

/-- `finalize` from the choice of the profile on: the CSR row, then its signature -/
def acmeUnder (env : Env) (caId : ℤ) (csr : Csr) (days : ℤ) (form : IssueForm) (s : Site) : Site × Except PyError Unit :=
  match (s.db.cas.get? caId).filter (·.acmeAvailable), acmeProfile plib s caId,
      Pki.handle lib s.db env (.importCsr csr) with
  | none, _, _ => (s, .error Pki.caNotFound)
  | _, .error e, _ => (s, .error e)
  | _, _, (_, .error e) => (s, .error e)
  | some _, .ok p, (db, .ok ()) =>
    let capped := if p.maxValidityDays.any (fun n => n ≠ 0 && n < days) then p.maxValidityDays.getD days else days
    let csrId := s.db.csrs.nextKey
    let row := CertService.importCsr lib.names csr csrId
    let u := enforce plib (some p) ⟨form.keyType, form.keySize, capped, CertService.effectiveSan row [],
      some row.commonName, .null, .null⟩
    let r := Pki.handle lib db env (.acmeSign csrId caId
      (underProfile u { form.leaf with sanList := [], validityDays := capped }))
    (({ s with db := db, csrProfile := Function.update s.csrProfile csrId (some p.id) } : Site).record r.1 (some p.id) u,
      r.2)

/-- `original_validity_days` -/
def originalValidityDays (old : LeafRow) : ℤ := max 1 (daysBetween old.notAfter old.notBefore)

/-- `renew` -/
def renewUnder (env : Env) (certId : ℤ) (days : Option ℤ) (form : Pki.RenewForm) (keyType : String) (keySize : ℤ)
    (s : Site) : Site × Except PyError Unit :=
  match s.db.leaves.get? certId with
  | none => (s, .error (.other "Certificate not found."))
  | some old =>
    let columns := s.columns certId
    let p := columns.profileId.bind s.profiles.get?
    let own := originalValidityDays old
    let cap := (p.bind (·.maxValidityDays)).filter (· ≠ 0)
    let validityDays := days.getD ((cap.map (min own)).getD own)
    let u := enforce plib p ⟨keyType, keySize, validityDays, old.issued.sanJson.getD [], some old.issued.commonName,
      load plib columns.keyUsageJson, load plib columns.extendedKeyUsageJson⟩
    let r := Pki.handle lib s.db env (.renew certId { form with
      leaf := underProfile u { form.leaf with validityDays := validityDays }
      disabledProfile := (p.filter fun p => !p.enabled).map (·.name) })
    (s.record r.1 columns.profileId u, r.2)

/-- one issuance; `required` is PROFILES_REQUIRE_SELECTION -/
def issue (required : Bool) (env : Env) (s : Site) : Path → Site × Except PyError Unit
  | .create caId profile form => createUnder lib plib required env caId profile form s
  | .sign csrId caId profile form => signUnder lib plib required env csrId caId profile form s
  | .acme caId csr days form => acmeUnder lib plib env caId csr days form s
  | .renew certId days form keyType keySize => renewUnder lib plib env certId days form keyType keySize s

/-! ## Changing profiles and settings -/

/-- `usage_counts` -/
def Site.usageCounts (s : Site) (profileId : ℤ) : ℕ × ℕ :=
  ((s.db.leaves.rows.filter fun c => (s.columns c.id).profileId = some profileId).length,
    (s.db.csrs.rows.filter fun c => s.csrProfile c.id = some profileId).length)

/-- the fields of the ACME settings form -/
structure AcmeForm where
  enable : Bool
  acmeProfile : Option Text

/-- the profile of the ACME settings form -/
def parseAcmeProfile (t : ProfileTable) (allowed : Option (List ℤ)) (form : AcmeForm) :
    Except PyError (Option Profile) :=
  let raw := strip (form.acmeProfile.getD [])
  if raw = [] ∨ raw = "custom".toList then .ok none
  else do
    match ← lookup plib t (some raw) with
    | none => .error (.valueError ("Unknown certificate profile '" ++ String.ofList raw ++ "'."))
    | some p =>
      if allowed.any (fun ids => !ids.isEmpty && !ids.contains p.id) then
        .error (.valueError "That profile is not in this CA's allowed profiles.")
      else .ok (some p)

def Site.setSettings (s : Site) (caId : ℤ) (f : CaSettings → CaSettings) : Site :=
  { s with settings := Function.update s.settings caId (f (s.settings caId)) }

/-- `set_acme` -/
def setAcme (env : Env) (caId : ℤ) (form : AcmeForm) (s : Site) : Site × Except PyError Unit :=
  match s.db.cas.get? caId with
  | none => (s, .error Pki.caNotFound)
  | some _ =>
    match parseAcmeProfile plib s.profiles (allowedProfileIds plib (s.settings caId)) form,
        Pki.handle lib s.db env (.setAcme caId form.enable) with
    | .error e, _ => (s, .error e)
    | .ok _, (_, .error e) => (s, .error e)
    | .ok p, (db, .ok ()) =>
      (({ s with db := db } : Site).setSettings caId fun c => { c with acmeProfileId := p.map (·.id) }, .ok ())

/-- `set_profiles` -/
def setProfiles (caId : ℤ) (form : AllowForm) (s : Site) : Site × Except PyError Unit :=
  match s.db.cas.get? caId with
  | none => (s, .error Pki.caNotFound)
  | some _ =>
    match parseAllowedProfiles plib s.profiles form with
    | .error e => (s, .error e)
    | .ok ids => (s.setSettings caId fun c => { c with allowedProfilesJson := storedAllowList ids }, .ok ())

/-- `create` of app/routes/ca.py: the new CA gets the allow-list -/
def createCa (env : Env) (request : Pki.Request) (form : AllowForm) (s : Site) : Site × Except PyError Unit :=
  match parseAllowedProfiles plib s.profiles form with
  | .error e => (s, .error e)
  | .ok ids =>
    let r := Pki.handle lib s.db env request
    match r.2 with
    | .error e => ({ s with db := r.1 }, .error e)
    | .ok () =>
      (({ s with db := r.1 } : Site).setSettings r.1.lastCa fun c => { c with allowedProfilesJson := storedAllowList ids },
        .ok ())

/-- a change of the profile table, all or nothing -/
def Site.withProfiles (s : Site) : Except PyError ProfileTable → Site × Except PyError Unit
  | .error e => (s, .error e)
  | .ok t => ({ s with profiles := t }, .ok ())

/-- the profile of the URL -/
def withProfile (s : Site) (profileId : ℤ) (f : Profile → Except PyError ProfileTable) : Site × Except PyError Unit :=
  match s.profiles.get? profileId with
  | none => (s, .error (.other "Profile not found."))
  | some row => s.withProfiles (f row)

/-- the requests of `Pki.handle` that neither create a CA nor issue a certificate, nor submit a CSR -/
def plain : Pki.Request → Bool
  | .createRoot _ => false
  | .createIntermediate _ _ => false
  | .importCa _ => false
  | .createCertificate _ _ => false
  | .importCsr _ => false
  | .signCsr _ _ _ => false
  | .acmeSign _ _ _ => false
  | .renew _ _ => false
  | .setAcme _ _ => false
  | _ => true

def createsCa : Pki.Request → Bool
  | .createRoot _ => true
  | .createIntermediate _ _ => true
  | .importCa _ => true
  | _ => false

inductive Op
  /-- a start of the application -/
  | seed
  | profileNew (form : Form)
  | profileEdit (profileId : ℤ) (form : Form)
  | profileToggle (profileId : ℤ)
  | profileDelete (profileId : ℤ)
  /-- `profiles import`, with what `json.load` returns -/
  | importProfiles (replace : Bool) (items : List { v : Json // v.Written plib.floats })
  | setProfiles (caId : ℤ) (form : AllowForm)
  | setAcme (env : Env) (caId : ℤ) (form : AcmeForm)
  | createCa (env : Env) (request : { r : Pki.Request // createsCa r = true }) (form : AllowForm)
  /-- a new CSR, with the profile it asks for -/
  | importCsr (env : Env) (csr : Csr) (profile : Option Text)
  | issue (required : Bool) (env : Env) (path : Path)
  | other (env : Env) (request : { r : Pki.Request // plain r = true })

/-- a CSR with the profile it asks for -/
def importCsr (env : Env) (csr : Csr) (profile : Option Text) (s : Site) : Site × Except PyError Unit :=
  match lookup plib s.profiles profile with
  | .error e => (s, .error e)
  | .ok p =>
    if strip (profile.getD []) ≠ [] ∧ p.isNone then (s, .error (.valueError "Unknown certificate profile."))
    else if p.any (!·.enabled) then (s, .error (.valueError "Certificate profile is disabled."))
    else
      match Pki.handle lib s.db env (.importCsr csr) with
      | (_, .error e) => (s, .error e)
      | (db, .ok ()) =>
        ({ s with db := db, csrProfile := Function.update s.csrProfile s.db.csrs.nextKey (p.map (·.id)) }, .ok ())

def handle (s : Site) : Op plib → Site × Except PyError Unit
  | .seed => ({ s with profiles := ensureBuiltins s.profiles }, .ok ())
  | .profileNew form => s.withProfiles (create plib s.profiles (formToFields form false))
  | .profileEdit profileId form =>
    withProfile s profileId fun row => update plib s.profiles row (formToFields form row.isCustom)
  | .profileToggle profileId => withProfile s profileId fun row => .ok (toggle s.profiles row.id)
  | .profileDelete profileId => withProfile s profileId fun row => delete s.profiles row (s.usageCounts row.id)
  | .importProfiles replace items => s.withProfiles (importProfiles plib replace (items.map (·.1)) s.profiles)
  | .setProfiles caId form => setProfiles plib caId form s
  | .setAcme env caId form => setAcme lib plib env caId form s
  | .createCa env request form => createCa lib plib env request.1 form s
  | .importCsr env csr profile => importCsr lib plib env csr profile s
  | .issue required env path => issue lib plib required env s path
  | .other env request => ({ s with db := (Pki.handle lib s.db env request.1).1 }, .ok ())

def step (s : Site) (o : Op plib) : Site := (handle lib plib s o).1

/-! ## What an issuance records -/

section Record

variable {lib : Pki.Lib} {plib : ProfileLib} {env : Env} {s s' : Pki.Db} {form : LeafForm}

theorem backend_of_leafCertificate {L : NameLib} {ca : IssuingCa} {v : Verdicts} {now : DateTime} {subject : Subject}
    {san : List Text} {cn : Text} {sanJson : Option (List Text)} {cert : Issued}
    (h : CertService.leafCertificate L ca v now subject san cn sanJson = .ok cert) : v.backend = .ok () := by
  unfold CertService.leafCertificate at h
  split_ifs at h
  obtain ⟨_, _, h⟩ := bind_eq_ok.1 h
  obtain ⟨_, _, h⟩ := bind_eq_ok.1 h
  obtain ⟨u, hb, _⟩ := bind_eq_ok.1 h
  exact hb

/-- a created certificate passed its checks -/
theorem backend_of_createCertificate {caId : ℤ} (h : Pki.createCertificate lib env caId form s = .ok s') :
    form.verdicts.backend = .ok () := by
  unfold Pki.createCertificate at h
  cases hca : s.cas.get? caId with
  | none => rw [hca] at h; cases h
  | some ca =>
    rw [hca] at h
    simp only [] at h
    split_ifs at h
    obtain ⟨_, _, h⟩ := bind_eq_ok.1 h
    obtain ⟨issued, hissued, _⟩ := bind_eq_ok.1 h
    obtain ⟨_, _, _, hleaf⟩ := CertService.createCertificate_ok hissued
    have hbackend := backend_of_leafCertificate hleaf
    exact hbackend

theorem backend_of_signRow {row : CsrRow} {ca : CaRow} (h : Pki.signRow lib env row ca form s = .ok s') :
    form.verdicts.backend = .ok () := by
  obtain ⟨issued, hissued, _⟩ := bind_eq_ok.1 h
  obtain ⟨_, _, hsign⟩ := CertService.signCsr_ok hissued
  have hbackend := backend_of_leafCertificate hsign
  exact hbackend

theorem backend_of_signCsr {csrId caId : ℤ} (h : Pki.signCsr lib env csrId caId form s = .ok s') :
    form.verdicts.backend = .ok () := by
  unfold Pki.signCsr at h
  cases hrow : s.csrs.get? csrId with
  | none => rw [hrow] at h; cases h
  | some row =>
    rw [hrow] at h
    simp only [] at h
    by_cases hst : row.status ≠ .pending
    · rw [if_pos hst] at h
      cases h
    rw [if_neg hst] at h
    cases hca : s.cas.get? caId with
    | none => rw [hca] at h; cases h
    | some ca =>
      rw [hca] at h
      simp only [] at h
      split_ifs at h
      obtain ⟨_, _, h⟩ := bind_eq_ok.1 h
      exact backend_of_signRow h

theorem backend_of_acmeSign {csrId caId : ℤ} (h : Pki.acmeSign lib env csrId caId form s = .ok s') :
    form.verdicts.backend = .ok () := by
  unfold Pki.acmeSign at h
  cases hca : s.cas.get? caId with
  | none => rw [hca] at h; cases h
  | some ca =>
    rw [hca] at h
    simp only [] at h
    by_cases hav : (!ca.acmeAvailable) = true
    · rw [if_pos hav] at h
      cases h
    rw [if_neg hav] at h
    cases hrow : s.csrs.get? csrId with
    | none => rw [hrow] at h; cases h
    | some row =>
      rw [hrow] at h
      obtain ⟨_, _, h⟩ := bind_eq_ok.1 h
      exact backend_of_signRow h

theorem backend_of_renewLeaf {old : LeafRow} {ca : CaRow} {form : Pki.RenewForm}
    (h : Pki.renewLeaf lib env old ca form s = .ok s') : form.leaf.verdicts.backend = .ok () := by
  obtain ⟨_, _, h⟩ := bind_eq_ok.1 h
  obtain ⟨issued, hissued, _⟩ := bind_eq_ok.1 h
  obtain ⟨_, hleaf⟩ := CertService.renewCertificate_ok hissued
  have hbackend := backend_of_leafCertificate hleaf
  exact hbackend

/-- a request that refused has written nothing -/
theorem ok_of_new {r : Except PyError Pki.Db} (hnew : ((Pki.Result.of s r).1.leaves.get? s.leaves.nextKey).isSome = true) :
    ∃ s', r = .ok s' := by
  cases r with
  | ok s' => exact ⟨s', rfl⟩
  | error e =>
    have hnone : s.leaves.get? s.leaves.nextKey = none := Table.get?_nextKey s.leaves
    change (s.leaves.get? s.leaves.nextKey).isSome = true at hnew
    rw [hnone] at hnew
    cases hnew

/-- a renewal that refused has written nothing -/
theorem renewLeaf_of_new {certId : ℤ} {old : LeafRow} {form : Pki.RenewForm} (hold : s.leaves.get? certId = some old)
    (hnew : ((Pki.handle lib s env (.renew certId form)).1.leaves.get? s.leaves.nextKey).isSome = true) :
    ∃ ca s', Pki.renewLeaf lib env old ca form s = .ok s' := by
  have habsent : ¬ (s.leaves.get? s.leaves.nextKey).isSome = true := by
    rw [Table.get?_nextKey]
    exact Bool.false_ne_true
  simp only [Pki.handle, hold, Pki.withCa] at hnew
  cases hca : s.cas.get? old.caId with
  | none => rw [hca] at hnew; exact absurd hnew habsent
  | some ca =>
    cases hr : Pki.renewLeaf lib env old ca form s with
    | error e =>
      rw [hca] at hnew
      simp only [hr, Pki.afterCommit] at hnew
      exact absurd hnew habsent
    | ok s' => exact ⟨ca, s', hr⟩

/-- what passed the checks has a usage -/
theorem usage_of_backend {u : Except PyError Usage} (h : (underProfile u form).verdicts.backend = .ok ()) :
    ∃ u' cert, u = .ok u' ∧ leafUsage u' = .ok cert := by
  obtain ⟨u', hu, h⟩ := bind_eq_ok.1 h
  obtain ⟨cert, hcert, _⟩ := bind_eq_ok.1 h
  exact ⟨u', cert, hu, hcert⟩

theorem record_columns {s : Site} {db : Pki.Db} {profileId : Option ℤ} {u : Usage} {cert : LeafUsage}
    (hcert : leafUsage u = .ok cert) (hnew : (db.leaves.get? s.db.leaves.nextKey).isSome = true) :
    (s.record db profileId (.ok u)).columns s.db.leaves.nextKey = columnsOf profileId u cert := by
  have hcolumns : ((Except.ok u : Except PyError Usage) >>= fun u => (leafUsage u).map fun cert =>
    columnsOf profileId u cert) =
      .ok (columnsOf profileId u cert) := by
    show (leafUsage u).map _ = _
    rw [hcert]
    rfl
  unfold Site.record
  rw [hcolumns]
  simp only [if_pos hnew, Function.update_self]

@[simp] theorem record_db (s : Site) (db : Pki.Db) (profileId : Option ℤ) (u : Except PyError Usage) :
    (s.record db profileId u).db = db := by
  unfold Site.record
  split
  · rfl
  · split_ifs <;> rfl

@[simp] theorem record_profiles (s : Site) (db : Pki.Db) (profileId : Option ℤ) (u : Except PyError Usage) :
    (s.record db profileId u).profiles = s.profiles := by
  unfold Site.record
  split
  · rfl
  · split_ifs <;> rfl

@[simp] theorem record_settings (s : Site) (db : Pki.Db) (profileId : Option ℤ) (u : Except PyError Usage) :
    (s.record db profileId u).settings = s.settings := by
  unfold Site.record
  split
  · rfl
  · split_ifs <;> rfl

/-- a lookup finds a row of the table -/
theorem mem_of_lookup {t : ProfileTable} {value : Option Text} {p : Profile} (h : lookup plib t value = .ok (some p)) :
    p ∈ t := by
  unfold lookup at h
  by_cases hempty : strip (value.getD []) = []
  · rw [if_pos hempty] at h
    cases h
  rw [if_neg hempty] at h
  obtain ⟨byId, hid, h⟩ := bind_eq_ok.1 h
  have hcases := Except.ok.inj h
  cases byId with
  | none =>
    cases hk : byKey t (String.ofList (strip (value.getD []))) with
    | none =>
      rw [hk] at hcases
      exact List.mem_of_find?_eq_some hcases
    | some q =>
      rw [hk] at hcases
      rw [← Option.some.inj hcases]
      exact List.mem_of_find?_eq_some hk
  | some q =>
    rw [← Option.some.inj hcases]
    unfold lookupId at hid
    split_ifs at hid
    · split at hid
      · cases hid
      · split_ifs at hid
        exact Table.mem_of_get? (Except.ok.inj hid)
    · cases hid

/-- what `resolve` lets through is a row that the list of the CA allows -/
theorem resolve_ok {required : Bool} {t t' : ProfileTable} {value : Option Text} {caName : Text}
    {allowed : Option (List ℤ)} {p : Profile} (h : resolve plib required t value caName allowed = .ok (p, t')) :
    p ∈ t' ∧ (t' = t ∨ t' = ensureBuiltins t) ∧ allowedForCa allowed p = true := by
  obtain ⟨r, hr, h⟩ := bind_eq_ok.1 h
  have hmem : r.1 ∈ r.2 ∧ (r.2 = t ∨ r.2 = ensureBuiltins t) := by
    unfold chosenProfile at hr
    split_ifs at hr
    · unfold defaultProfile at hr
      split_ifs at hr
      cases hk : byKey t "custom" with
      | some q =>
        rw [hk] at hr
        rw [← Except.ok.inj hr]
        exact ⟨List.mem_of_find?_eq_some hk, Or.inl rfl⟩
      | none =>
        rw [hk] at hr
        cases hb : byKey (ensureBuiltins t) "custom" with
        | some q =>
          rw [hb] at hr
          rw [← Except.ok.inj hr]
          exact ⟨List.mem_of_find?_eq_some hb, Or.inr rfl⟩
        | none => rw [hb] at hr; cases hr
    · obtain ⟨found, hfound, hr⟩ := bind_eq_ok.1 hr
      cases found with
      | none => cases hr
      | some q =>
        rw [← Except.ok.inj hr]
        exact ⟨mem_of_lookup hfound, Or.inl rfl⟩
  split_ifs at h with henabled hallowed
  rw [Except.ok.inj h] at hmem hallowed
  exact ⟨hmem.1, hmem.2, by simpa using hallowed⟩

theorem acmeProfile_mem {s : Site} {caId : ℤ} {p : Profile} (h : acmeProfile plib s caId = .ok p) : p ∈ s.profiles := by
  unfold acmeProfile at h
  obtain ⟨found, hfound, h⟩ := bind_eq_ok.1 h
  have hsome : found.filter (·.enabled) = some p := by
    cases hf : found.filter (·.enabled) with
    | none => rw [hf] at h; cases h
    | some q => rw [hf] at h; rw [← Except.ok.inj h]
  have hp : found = some p := (Option.filter_eq_some_iff.1 hsome).1
  unfold acmeChoice at hfound
  split at hfound
  · rename_i q hq
    rw [hp] at hfound
    rw [← Option.some.inj (Except.ok.inj hfound)]
    obtain ⟨_, _, hget⟩ := Option.bind_eq_some_iff.1 hq
    exact Table.mem_of_get? hget
  · rw [hp] at hfound
    exact mem_of_lookup hfound

/-- the profile an issuance goes through, and the profile id it stores -/
def Picks (plib : ProfileLib) (s s' : Site) (profileId : Option ℤ) (p : Option Profile) : Path → Prop
  | .create caId _ _ =>
    ∃ q ∈ s'.profiles, p = some q ∧ profileId = some q.id ∧ allowedForCa (allowedProfileIds plib (s.settings caId)) q = true
  | .sign _ caId _ _ =>
    ∃ q ∈ s'.profiles, p = some q ∧ profileId = some q.id ∧ allowedForCa (allowedProfileIds plib (s.settings caId)) q = true
  | .acme caId _ _ _ => ∃ q ∈ s'.profiles, p = some q ∧ profileId = some q.id ∧ acmeProfile plib s caId = .ok q
  | .renew certId _ _ _ _ => profileId = (s.columns certId).profileId ∧ p = profileId.bind s'.profiles.get?

/-- the id a new certificate gets -/
def Site.nextLeaf (s : Site) : ℤ := s.db.leaves.nextKey

def Site.hasLeaf (s : Site) (i : ℤ) : Bool := (s.db.leaves.get? i).isSome

/-- **An issuance under a profile.** A certificate passed `enforce`, and its columns say what came out of it. -/
theorem issue_picks {required : Bool} {s : Site} {path : Path}
    (hnew : (issue lib plib required env s path).1.hasLeaf s.nextLeaf = true) :
    ∃ profileId p r u cert, Picks plib s (issue lib plib required env s path).1 profileId p path ∧
      enforce plib p r = .ok u ∧ leafUsage u = .ok cert ∧
      (issue lib plib required env s path).1.columns s.nextLeaf = columnsOf profileId u cert := by
  have habsent : ¬ s.hasLeaf s.nextLeaf = true := by
    unfold Site.hasLeaf Site.nextLeaf
    rw [Table.get?_nextKey]
    exact Bool.false_ne_true
  cases path with
  | create caId profile form =>
    simp only [issue, createUnder] at hnew ⊢
    cases hca : s.db.cas.get? caId with
    | none => rw [hca] at hnew; exact absurd hnew habsent
    | some ca =>
      rw [hca] at hnew
      simp only [] at hnew ⊢
      by_cases hrev : ca.isRevoked = true
      · rw [if_pos hrev] at hnew
        exact absurd hnew habsent
      rw [if_neg hrev] at hnew ⊢
      cases hres : resolve plib required s.profiles profile ca.name (allowedProfileIds plib (s.settings caId)) with
      | error e => rw [hres] at hnew; exact absurd hnew habsent
      | ok r =>
        obtain ⟨p, profiles⟩ := r
        rw [hres] at hnew
        simp only [Site.hasLeaf, record_db] at hnew ⊢
        obtain ⟨db, hdb⟩ := ok_of_new hnew
        obtain ⟨u, cert, hu, hcert⟩ := usage_of_backend (backend_of_createCertificate hdb)
        obtain ⟨hmem, -, hallowed⟩ := resolve_ok hres
        refine ⟨some p.id, some p, _, u, cert, ⟨p, by rw [record_profiles]; exact hmem, rfl, rfl, hallowed⟩, hu, hcert, ?_⟩
        rw [hu] at hnew ⊢
        exact record_columns hcert hnew
  | sign csrId caId profile form =>
    simp only [issue, signUnder] at hnew ⊢
    cases hrow : s.db.csrs.get? csrId with
    | none => rw [hrow] at hnew; exact absurd hnew habsent
    | some row =>
      cases hca : s.db.cas.get? caId with
      | none => rw [hrow, hca] at hnew; exact absurd hnew habsent
      | some ca =>
        rw [hrow, hca] at hnew
        simp only [] at hnew ⊢
        by_cases hst : row.status ≠ .pending
        · rw [if_pos hst] at hnew
          exact absurd hnew habsent
        rw [if_neg hst] at hnew ⊢
        by_cases hrev : ca.isRevoked = true
        · rw [if_pos hrev] at hnew
          exact absurd hnew habsent
        rw [if_neg hrev] at hnew ⊢
        cases hres : resolve plib required s.profiles (requestedProfile s csrId profile) ca.name
            (allowedProfileIds plib (s.settings caId)) with
        | error e => rw [hres] at hnew; exact absurd hnew habsent
        | ok r =>
          obtain ⟨p, profiles⟩ := r
          rw [hres] at hnew
          simp only [Site.hasLeaf, record_db] at hnew ⊢
          obtain ⟨db, hdb⟩ := ok_of_new hnew
          obtain ⟨u, cert, hu, hcert⟩ := usage_of_backend (backend_of_signCsr hdb)
          obtain ⟨hmem, -, hallowed⟩ := resolve_ok hres
          refine ⟨some p.id, some p, _, u, cert, ⟨p, by rw [record_profiles]; exact hmem, rfl, rfl, hallowed⟩, hu, hcert,
            ?_⟩
          rw [hu] at hnew ⊢
          exact record_columns hcert hnew
  | acme caId csr days form =>
    simp only [issue, acmeUnder] at hnew ⊢
    cases hca : (s.db.cas.get? caId).filter (·.acmeAvailable) with
    | none => rw [hca] at hnew; exact absurd hnew habsent
    | some ca =>
      cases hp : acmeProfile plib s caId with
      | error e => rw [hca, hp] at hnew; exact absurd hnew habsent
      | ok p =>
        -- the CSR row is added first, and adds no certificate
        cases hdb : env.checks.map fun _ =>
          ({ s.db with csrs := s.db.csrs.insert (CertService.importCsr lib.names csr) CertService.importCsr_id } :
            Pki.Db) with
        | error e =>
          have himport : Pki.handle lib s.db env (.importCsr csr) = (s.db, .error e) := congrArg (Pki.Result.of s.db) hdb
          rw [hca, hp, himport] at hnew
          exact absurd hnew habsent
        | ok db =>
          have himport : Pki.handle lib s.db env (.importCsr csr) = (db, .ok ()) := congrArg (Pki.Result.of s.db) hdb
          have hleaves : db.leaves = s.db.leaves := by
            cases hc : env.checks with
            | error e => rw [hc] at hdb; cases hdb
            | ok u => rw [hc] at hdb; rw [← Except.ok.inj hdb]
          rw [hca, hp, himport] at hnew
          simp only [Site.hasLeaf, Site.nextLeaf, record_db, ← hleaves] at hnew ⊢
          obtain ⟨db', hdb'⟩ := ok_of_new hnew
          obtain ⟨u, cert, hu, hcert⟩ := usage_of_backend (backend_of_acmeSign hdb')
          refine ⟨some p.id, some p, _, u, cert, ⟨p, ?_, rfl, rfl, hp⟩, hu, hcert, ?_⟩
          · rw [himport]
            simp only [record_profiles]
            exact acmeProfile_mem hp
          rw [himport]
          simp only []
          rw [hu] at hnew ⊢
          exact record_columns hcert hnew
  | renew certId days form keyType keySize =>
    simp only [issue, renewUnder] at hnew ⊢
    cases hold : s.db.leaves.get? certId with
    | none => rw [hold] at hnew; exact absurd hnew habsent
    | some old =>
      rw [hold] at hnew
      simp only [Site.hasLeaf, record_db] at hnew ⊢
      obtain ⟨ca, db, hdb⟩ := renewLeaf_of_new hold hnew
      obtain ⟨u, cert, hu, hcert⟩ := usage_of_backend (backend_of_renewLeaf hdb)
      refine ⟨_, _, _, u, cert, ⟨rfl, by rw [record_profiles]⟩, hu, hcert, ?_⟩
      rw [hu] at hnew ⊢
      exact record_columns hcert hnew

/-- an issuance changes no profile and no setting; a first one may seed the profiles -/
theorem issue_frame {required : Bool} (s : Site) (path : Path) :
    ((issue lib plib required env s path).1.profiles = s.profiles ∨
      (issue lib plib required env s path).1.profiles = ensureBuiltins s.profiles) ∧
    (issue lib plib required env s path).1.settings = s.settings := by
  cases path with
  | create caId profile form =>
    simp only [issue, createUnder]
    split
    · exact ⟨Or.inl rfl, rfl⟩
    split_ifs
    · exact ⟨Or.inl rfl, rfl⟩
    split
    · exact ⟨Or.inl rfl, rfl⟩
    · rename_i hres
      simp only [record_profiles, record_settings, and_true]
      exact (resolve_ok hres).2.1
  | sign csrId caId profile form =>
    simp only [issue, signUnder]
    split
    · split_ifs
      · exact ⟨Or.inl rfl, rfl⟩
      · exact ⟨Or.inl rfl, rfl⟩
      split
      · exact ⟨Or.inl rfl, rfl⟩
      · rename_i hres
        simp only [record_profiles, record_settings, and_true]
        exact (resolve_ok hres).2.1
    · exact ⟨Or.inl rfl, rfl⟩
  | acme caId csr days form =>
    simp only [issue, acmeUnder]
    split
    · exact ⟨Or.inl rfl, rfl⟩
    · exact ⟨Or.inl rfl, rfl⟩
    · exact ⟨Or.inl rfl, rfl⟩
    · simp only [record_profiles, record_settings, true_or, and_true]
  | renew certId days form keyType keySize =>
    simp only [issue, renewUnder]
    split
    · exact ⟨Or.inl rfl, rfl⟩
    · simp only [record_profiles, record_settings, true_or, and_true]

end Record

end Chancery.Profiles
