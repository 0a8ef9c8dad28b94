/-
The commits of a request that creates or imports a CA (`create` of app/routes/ca.py, `create_root_ca`,
`create_intermediate_ca`, `import_ca`, `import_pkcs12` and `_apply_import_approval` of app/services/ca_service.py).

`handle` takes such a request as one step. Here it is a program: the commit of the new rows, then the commits that are left.
Between two of them the process may stop, another worker may read the tables, and another admin may approve a CA.
`program_handle` says that the whole program does what `handle` does.
-/
import Mathlib.Tactic
import Chancery.Services.DualControl
import Chancery.Routes.CaEffects

namespace Chancery.Pki

open Chancery.Core

/-! ## What a request adds -/

/-- the columns of a CA that nothing else here reads -/
structure CaStamp where
  createdBy : Option ℤ
  approvedBy : Option ℤ
  /-- `allowed_profiles_json`; none: any profile -/
  allowedProfiles : Option (Finset ℤ)

/-- the defaults of the columns -/
def CaStamp.new : CaStamp := ⟨none, none, none⟩

structure Server where
  db : Db
  /-- by CA id -/
  stamps : ℤ → CaStamp
  users : Auth.UserTable
  /-- the saved LDAP settings -/
  ldap : Option Auth.LdapConfig

/-- a PKCS#12 file, opened: `key` is the public half of its private key -/
structure Pkcs12Form where
  name : Text
  main : Option X509
  additional : List X509
  key : Option Text
  parentId : Option ℤ

/-- the forms of `create` -/
inductive Material
  | root (form : CaForm)
  | intermediate (parentId : ℤ) (form : CaForm)
  | pem (form : ImportForm)
  | pkcs12 (form : Pkcs12Form)

/-- does the server generate the key pair -/
def Material.generated : Material → Bool
  | .root _ | .intermediate _ _ => true
  | .pem _ | .pkcs12 _ => false

/-- does the request add a CA that can sign -/
def Material.keyed : Material → Bool
  | .root _ | .intermediate _ _ => true
  | .pem form => form.key.isSome
  | .pkcs12 form => form.key.isSome

structure CreateRequest where
  /-- `current_user.id` -/
  creator : ℤ
  material : Material
  /-- `_parse_allowed_profiles`; none: any profile -/
  allowedProfiles : Option (List ℤ)

/-- `set_allowed_profile_ids` -/
def allowList (ids : Option (List ℤ)) : Option (Finset ℤ) := (ids.filter (· ≠ [])).map List.toFinset

/-! ## The first commit -/

/-- `create_root_ca` up to its commit -/
def addRootCa (env : Env) (form : CaForm) (s : Db) : Except PyError Db := do
  ensureNameAvailable form.name s
  env.checks
  let notAfter ← boundedNotAfter env .root form.validityDays none
  addCa ⟨form.name, caCertificate form form.subject env.now notAfter form.pathLength, true, none, true, env.now, notAfter,
    form.pathLength, form.approvalStatus, form.constraints⟩ s

/-- `create_intermediate_ca` up to its commit -/
def addIntermediateCa (lib : Lib) (env : Env) (form : CaForm) (parent : CaRow) (s : Db) : Except PyError Db := do
  ensureNameAvailable form.name s
  checkParent env parent
  NameConstraints.enforce lib.names s.issuing parent.issuing (some form.commonName) []
  env.checks
  let pathLength ← clampPathLength "The parent CA's path length is 0 — it cannot issue a sub-CA." parent.pathLength
    form.pathLength
  let notAfter ← boundedNotAfter env .intermediate form.validityDays (some parent.notAfter)
  if !parent.certificate.hasKeyId then .error (.other "ExtensionNotFound")
  else addCa ⟨form.name, caCertificate form parent.certificate.subject env.now notAfter pathLength, true, some parent.id,
    false, env.now, notAfter, pathLength, form.approvalStatus, form.constraints⟩ s

/-- the bundle of a PKCS#12 file: its main certificate must come first -/
def pkcs12Chain (lib : Lib) (form : Pkcs12Form) : Except PyError (List X509) :=
  match form.main with
  | none =>
    if form.additional = [] then .error (.valueError "The PKCS#12 bundle does not contain a certificate.")
    else orderChain lib form.additional
  | some cert => do
    let ordered ← orderChain lib (cert :: form.additional)
    if ordered.head? ≠ some cert then
      .error (.valueError "The PKCS#12 main certificate is not the leaf of the bundled chain.")
    else .ok ordered

/-- the import of the certificates of a PKCS#12 file -/
def Pkcs12Form.importForm (form : Pkcs12Form) (status : ApprovalStatus) : ImportForm :=
  ⟨form.name, form.main.toList ++ form.additional, form.key, form.parentId, status⟩

/-- the tables with the new rows, and the id of the new CA -/
def addRows (lib : Lib) (env : Env) (status : ApprovalStatus) (s : Db) : Material → Except PyError (Db × ℤ)
  | .root form => do
    let s' ← addRootCa env { form with approvalStatus := status } s
    .ok (s', s.cas.nextKey)
  | .intermediate parentId form =>
    match capable? parentId s with
    | none => .error (.valueError ("Parent CA not found, or it cannot sign (revoked, awaiting approval, " ++
        "or without a private key)."))
    | some parent => do
      let s' ← addIntermediateCa lib env { form with approvalStatus := status } parent s
      .ok (s', s.cas.nextKey)
  | .pem form => do
    let ordered ← orderChain lib form.bundle
    let s' ← importRows lib env form ordered s
    .ok (s', s'.lastCa)
  | .pkcs12 form => do
    env.checks
    let ordered ← pkcs12Chain lib form
    let s' ← importRows lib env (form.importForm status) ordered s
    .ok (s', s'.lastCa)

/-- the columns of the new rows: an import leaves the defaults until its next commit -/
def newStamp (status : ApprovalStatus) (r : CreateRequest) : CaStamp :=
  if r.material.generated then ⟨some r.creator, if status = .approved then some r.creator else none, none⟩ else CaStamp.new

/-! ## The commits that are left -/

inductive Commit
  /-- `_apply_import_approval` -/
  | approval
  /-- `publish_initial_crl` -/
  | initialCrl
  /-- the allow-list, with the audit row -/
  | allowList
deriving DecidableEq

def Material.rest (m : Material) : List Commit := if m.generated then [.initialCrl, .allowList]
    else [.approval, .initialCrl, .allowList]

/-- a request that has committed its rows -/
structure Progress where
  server : Server
  status : ApprovalStatus
  caId : ℤ
  left : List Commit

/-- the columns after the first commit -/
def Server.withNew (s : Server) (status : ApprovalStatus) (r : CreateRequest) (i : ℤ) : CaStamp :=
  if (s.db.cas.get? i).isSome then s.stamps i else newStamp status r

/-- `approval_status` of the request -/
def requestStatus (aenv : Auth.Env) (s : Server) : ApprovalStatus :=
  if DualControl.isActive aenv s.ldap s.users then .pending else .approved

/-- the request up to its first commit -/
def start (lib : Lib) (env : Env) (aenv : Auth.Env) (r : CreateRequest) (s : Server) : Except PyError Progress := do
  let status := requestStatus aenv s
  let (db, caId) ← addRows lib env status s.db r.material
  .ok ⟨{ s with db := db, stamps := s.withNew status r }, status, caId, r.material.rest⟩

/-- the columns of the request's CA -/
def Server.stamp (s : Server) (caId : ℤ) (f : CaStamp → CaStamp) : Server :=
  { s with stamps := Function.update s.stamps caId (f (s.stamps caId)) }

/-- `_apply_import_approval` -/
def Server.applyApproval (s : Server) (status : ApprovalStatus) (creator caId : ℤ) : Server :=
  let pending := status = .pending ∧ (s.db.cas.get? caId).any (·.hasSigningKey) = true
  { s with db := s.db.updateCa caId (applyImportApproval status) }.stamp caId fun c =>
    { c with createdBy := some creator, approvedBy := if pending then none else some creator }

/-- one commit -/
def Commit.apply (env : Env) (r : CreateRequest) (status : ApprovalStatus) (caId : ℤ) (s : Server) : Commit → Server
  | .approval => s.applyApproval status r.creator caId
  | .initialCrl => { s with db := publishInitialCrl env caId s.db }
  | .allowList => s.stamp caId fun c => { c with allowedProfiles := Pki.allowList r.allowedProfiles }

/-- `approve`, with the first CRL it publishes -/
def Server.approve (s : Server) (env : Env) (aenv : Auth.Env) (admin : Auth.User) (caId : ℤ) : Server :=
  match s.db.cas.get? caId with
  | none => s
  | some ca =>
    if ca.approvalStatus ≠ .pending then s
    else if DualControl.isActive aenv s.ldap s.users && !DualControl.canApprove aenv admin (s.stamps caId).createdBy then s
    else
      { s with
        db := publishInitialCrl env caId
          (s.db.updateCa caId (fun a => { a with approvalStatus := .approved }) CaRow.approve_id) }.stamp
        caId fun c => { c with approvedBy := some admin.id }

/-- what may happen next: approvals are those of the other admins -/
inductive Move (creator : ℤ)
  | commit (env : Env)
  /-- an error or a crash -/
  | abort
  | approve (env : Env) (aenv : Auth.Env) (admin : { u : Auth.User // u.id ≠ creator }) (caId : ℤ)

def move (r : CreateRequest) (p : Progress) : Move r.creator → Progress
  | .commit env =>
    match p.left with
    | [] => p
    | c :: rest => { p with server := c.apply env r p.status p.caId p.server, left := rest }
  | .abort => { p with left := [] }
  | .approve env aenv admin caId => { p with server := p.server.approve env aenv admin.1 caId }

/-- the states a request commits, whatever happens in between -/
def Committed (lib : Lib) (env : Env) (aenv : Auth.Env) (r : CreateRequest) (s t : Server) : Prop :=
  ∃ p, start lib env aenv r s = .ok p ∧ ∃ moves, t = (run (move r) p moves).server

/-! ## The request as one step -/

/-- the request of `handle` -/
def CreateRequest.toRequest (r : CreateRequest) (status : ApprovalStatus) : Request :=
  match r.material with
  | .root form => .createRoot { form with approvalStatus := status }
  | .intermediate parentId form => .createIntermediate parentId { form with approvalStatus := status }
  | .pem form => .importCa { form with approvalStatus := status }
  | .pkcs12 form => .importCa (form.importForm status)

section Program

variable {lib : Lib} {env : Env} {s : Db}

theorem createRootCa_eq (form : CaForm) :
    createRootCa env form s = (addRootCa env form s).map (publishInitialCrl env s.cas.nextKey) := by
  unfold createRootCa addRootCa
  cases ensureNameAvailable form.name s with
  | error e => rfl
  | ok u =>
    cases env.checks with
    | error e => rfl
    | ok u =>
      cases boundedNotAfter env .root form.validityDays none <;> rfl

theorem createIntermediateCa_eq (form : CaForm) (parent : CaRow) :
    createIntermediateCa lib env form parent s =
      (addIntermediateCa lib env form parent s).map (publishInitialCrl env s.cas.nextKey) := by
  unfold createIntermediateCa addIntermediateCa
  cases ensureNameAvailable form.name s with
  | error e => rfl
  | ok u =>
    simp only [bind, Except.bind]
    split
    · rfl
    split
    · rfl
    split
    · rfl
    split
    · rfl
    split
    · rfl
    by_cases hkey : parent.certificate.hasKeyId = true
    · simp only [hkey, Bool.not_true, Bool.false_eq_true, if_false]
      split <;> simp_all [Except.map]
    · simp only [hkey, Bool.not_false, if_true]
      rfl

theorem importCa_eq (form : ImportForm) :
    importCa lib env form s = (orderChain lib form.bundle >>= fun ordered => importRows lib env form ordered s).map
      fun s' =>
      publishInitialCrl env s'.lastCa
        (s'.updateCa s'.lastCa (applyImportApproval form.approvalStatus) form.applyImportApproval_id) := by
  unfold importCa
  cases orderChain lib form.bundle with
  | error e => rfl
  | ok ordered =>
    show (importRows lib env form ordered s >>= _) = (importRows lib env form ordered s).map _
    cases importRows lib env form ordered s <;> rfl

theorem start_ok {aenv : Auth.Env} {r : CreateRequest} {s : Server} {p : Progress} (h : start lib env aenv r s = .ok p) :
    ∃ db caId, addRows lib env (requestStatus aenv s) s.db r.material = .ok (db, caId) ∧
      p = ⟨{ s with db := db, stamps := s.withNew (requestStatus aenv s) r }, requestStatus aenv s, caId,
        r.material.rest⟩ := by
  obtain ⟨⟨db, caId⟩, hadd, h⟩ := bind_eq_ok.1 h
  exact ⟨db, caId, hadd, (Except.ok.inj h).symm⟩

/-- the import of the certificates of a PKCS#12 file orders the same bundle -/
theorem pkcs12Chain_ok {form : Pkcs12Form} {ordered : List X509} (h : pkcs12Chain lib form = .ok ordered) :
    orderChain lib (form.main.toList ++ form.additional) = .ok ordered := by
  unfold pkcs12Chain at h
  cases hmain : form.main with
  | none =>
    simp only [hmain] at h
    split_ifs at h
    exact h
  | some cert =>
    simp only [hmain] at h
    obtain ⟨ordered', hordered, h⟩ := bind_eq_ok.1 h
    split_ifs at h
    cases h
    exact hordered

/-- **The program does what the step does.** A request that makes all its commits leaves the tables of `handle`. -/
theorem program_handle {aenv : Auth.Env} {r : CreateRequest} {s : Server} {p : Progress}
    (h : start lib env aenv r s = .ok p) :
    handle lib s.db env (r.toRequest p.status) =
      ((run (move r) p (p.left.map fun _ => .commit env)).server.db, .ok ()) := by
  obtain ⟨db, caId, hadd, rfl⟩ := start_ok h
  obtain ⟨creator, material, ids⟩ := r
  cases material with
  | root form =>
    obtain ⟨db', hrows, hpair⟩ := bind_eq_ok.1 hadd
    cases hpair
    simp only [CreateRequest.toRequest, handle, createRootCa_eq, hrows]
    rfl
  | intermediate parentId form =>
    rw [addRows] at hadd
    cases hcap : capable? parentId s.db with
    | none =>
      rw [hcap] at hadd
      cases hadd
    | some parent =>
      rw [hcap] at hadd
      obtain ⟨db', hrows, hpair⟩ := bind_eq_ok.1 hadd
      cases hpair
      simp only [CreateRequest.toRequest, handle, createIntermediateCa_eq, hcap, hrows]
      rfl
  | pem form =>
    obtain ⟨ordered, hordered, hadd⟩ := bind_eq_ok.1 hadd
    obtain ⟨db', hrows, hpair⟩ := bind_eq_ok.1 hadd
    cases hpair
    have hsame : importRows lib env { form with approvalStatus := requestStatus aenv s } ordered s.db = .ok db := hrows
    simp only [CreateRequest.toRequest, handle, importCa_eq, hordered, bind, Except.bind, hsame]
    rfl
  | pkcs12 form =>
    obtain ⟨_, _, hadd⟩ := bind_eq_ok.1 hadd
    obtain ⟨ordered, hordered, hadd⟩ := bind_eq_ok.1 hadd
    obtain ⟨db', hrows, hpair⟩ := bind_eq_ok.1 hadd
    cases hpair
    have hchain := pkcs12Chain_ok hordered
    have hsame : orderChain lib (form.importForm (requestStatus aenv s)).bundle = .ok ordered := hchain
    simp only [CreateRequest.toRequest, handle, importCa_eq, hsame, bind, Except.bind, hrows]
    rfl

end Program

end Chancery.Pki
