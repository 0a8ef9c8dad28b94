/-
ACME finalize (`finalize` of app/services/acme/service.py, with the parts of csr_service and cert_service it calls and the
error handlers of app/routes/acme.py).

A finalize request commits several times. `Phase` is where it stands between two accesses to the database, `advance` takes
it to the next one; an access can fail (`Tick.fault`), and the error paths are phases too. `finalize` drives one request
alone to its end; the same `advance` also interleaves several requests. What a phase keeps is what the request holds in
memory: after a commit the ORM reloads every row, so later phases read the rows again.

The CSR parser, the profile, the embedding of URLs, and the checks that read no names are parameters of the request.
-/
import Mathlib.Tactic
import Chancery.Services.Acme.Orders

namespace Chancery.Acme

open Chancery.Core

/-! ## The names of a CSR -/

/-- lower-cased and without trailing dots -/
def normalName (uni : Unicode) (name : Text) : Text := rstripDots (uni.lower name)

/-- `san.get_values_for_type(x509.DNSName)` -/
def dnsValues (san : List GeneralName) : List Text :=
  san.filterMap fun | .dns v => some v | _ => none

def isDnsName : GeneralName → Bool
  | .dns _ => true
  | _ => false

/-- the first common name, normalised; an empty one counts as none -/
def firstCn (uni : Unicode) (csr : Csr) : Option Text :=
  ((commonNames csr.subject).head?.map (normalName uni)).filter (· ≠ [])

/-- the dNSNames of the SAN extension, or the common name alone when there are none -/
def csrDns (uni : Unicode) (csr : Csr) : List Text :=
  let dns := (dnsValues (csr.san.getD [])).map (normalName uni)
  if dns = [] then (firstCn uni csr).toList else dns

/-- the name checks of `finalize` -/
def checkCsrNames (E : Env) (uni : Unicode) (wanted : List Text) (csr : Csr) : Result Unit :=
  if (csr.san.getD []).any (!isDnsName ·) then
    .error (problem "badCSR" "The CSR carries subject alternative names that are not DNS names.")
  else if ¬ (∀ cn ∈ firstCn uni csr, cn ∈ wanted) then
    .error (problem "badCSR" ("CSR common name " ++ quoted E ((firstCn uni csr).getD []) ++
      " is not one of the order's identifiers."))
  else if ¬ (∀ n ∈ csrDns uni csr, n ∈ wanted) ∨ ¬ (∀ n ∈ wanted, n ∈ csrDns uni csr) then
    .error (problem "badCSR" "The CSR's DNS names do not match the order's identifiers exactly.")
  else .ok ()

/-- Python's order of strings -/
def textLt (a b : Text) : Bool := decide (a.map Char.toNat < b.map Char.toNat)

/-- `sorted(wanted)[0]` -/
def least : List Text → Option Text
  | [] => none
  | x :: rest =>
    match least rest with
    | none => some x
    | some y => if textLt y x then some y else some x

/-- `cn or sorted(wanted)[0]` -/
def rowCommonName (uni : Unicode) (csr : Csr) (wanted : List Text) : Except PyError Text :=
  match firstCn uni csr with
  | some cn => .ok cn
  | none =>
    match least wanted with
    | some name => .ok name
    | none => .error (.other "IndexError")

/-! ## A finalize request -/

structure Finalization where
  server : Server
  accountId : ℤ
  orderId : ℤ
  payload : Option Fields
  /-- `x509.load_der_x509_csr` -/
  loadCsr : List UInt8 → Except PyError Csr
  /-- is the CA's ACME profile there and enabled -/
  profileUsable : Bool
  /-- `import_csr`'s own checks of the CSR -/
  importable : Except PyError Unit
  /-- `issuance_urls` -/
  urls : Except PyError Unit
  verdicts : Verdicts

/-- the `csr` of the payload, decoded -/
def decodeCsr (f : Finalization) : Result Csr :=
  match Json.get (f.payload.getD []) "csr" with
  | .str b64 =>
    let der : Result Csr := do
      let raw ← decodeText b64.toList
      lift (f.loadCsr raw)
    match der with
    | .ok csr =>
      if csr.isSignatureValid then .ok csr else .error (problem "badCSR" "The CSR signature is invalid.")
    | .error (.problem _) => .error (problem "badCSR" "The CSR is not valid DER.")
    | .error (.py e) =>
      if e.isValueError then .error (problem "badCSR" "The CSR is not valid DER.") else .error (.py e)
  | _ => .error (problem "badCSR" "'csr' is missing.")

/-- the checks of `finalize` on an order that is ready -/
def checkRequest (E : Env) (f : Finalization) (order : AcmeOrder) : Result Csr := do
  let csr ← decodeCsr f
  checkCsrNames E f.server.names.uni order.identifiers csr
  if f.profileUsable then .ok csr
  else .error (problem "serverInternal" "The CA's ACME profile is missing or disabled.")

/-- where a finalize request stands -/
inductive Phase
  | start
  /-- the order is refreshed in the session and the response is decided; the session is still to be ended -/
  | answered (result : Result Unit) (before after : Db)
  /-- the order is ready and the CSR passed; the refresh changed at most the order's status -/
  | checked (csr : Csr) (wanted : List Text)
  /-- `processing` is committed -/
  | processing (csr : Csr) (wanted : List Text)
  /-- the CSR row is committed -/
  | imported (csrId : ℤ) (csr : Csr) (wanted : List Text)
  /-- the CSR row has its common name -/
  | named (csrId : ℤ)
  /-- `sign_csr` has claimed the CSR row -/
  | claimed (csrId : ℤ)
  /-- the certificate is committed -/
  | issued (certId : ℤ)
  /-- signing failed after the claim -/
  | releasing (csrId : ℤ) (e : PyError)
  /-- the exception leaves the `try` -/
  | failing (e : PyError)
  | ended (result : Result Unit)

/-- the time of a step, how much later it reads the clock again, and whether the database refuses it -/
structure Tick where
  now : DateTime
  lag : ℕ
  fault : Option PyError

/-! ## Writes -/

/-- the columns a refresh changed, written over what the tables hold now -/
def flushOrder (before after : Db) (o : AcmeOrder) : AcmeOrder :=
  match before.orders.get? o.id, after.orders.get? o.id with
  | some b, some a => if a.status = b.status then o else { o with status := a.status, error := a.error }
  | _, _ => o

theorem flushOrder_id (before after : Db) (o : AcmeOrder) : (flushOrder before after o).id = o.id := by
  unfold flushOrder
  split
  · split_ifs <;> rfl
  · rfl

def flushAuthz (before after : Db) (x : AcmeAuthorization) : AcmeAuthorization :=
  match before.authzs.get? x.id, after.authzs.get? x.id with
  | some b, some a => if a.status = b.status then x else x.setStatus a.status
  | _, _ => x

theorem flushAuthz_id (before after : Db) (x : AcmeAuthorization) : (flushAuthz before after x).id = x.id := by
  unfold flushAuthz
  split
  · split_ifs <;> rfl
  · rfl

/-- the commit of a session that refreshed an order -/
def flush (before after db : Db) : Db :=
  { db with
    orders := db.orders.mapRows (flushOrder before after) (flushOrder_id before after)
    authzs := db.authzs.mapRows (flushAuthz before after) (flushAuthz_id before after) }

def AcmeOrder.process (csr : Csr) (o : AcmeOrder) : AcmeOrder := { o with status := .processing, csr := some csr }

def AcmeOrder.reject (e : PyError) (o : AcmeOrder) : AcmeOrder :=
  { o with status := .invalid, error := some (errorObject "badCSR" e.text) }

theorem AcmeOrder.process_id {csr : Csr} (o : AcmeOrder) : (o.process csr).id = o.id := rfl

theorem AcmeOrder.reject_id {e : PyError} (o : AcmeOrder) : (o.reject e).id = o.id := rfl

def AcmeOrder.link (certId : ℤ) (now : DateTime) (o : AcmeOrder) : AcmeOrder :=
  { o with certificateId := some certId, status := .valid, finalizedAt := some now }

def Db.updateCsr (db : Db) (id : ℤ) (f : CsrRow → CsrRow)
    (hf : ∀ r, (f r).id = r.id := by as_aux_lemma => intro; rfl) : Db :=
  { db with csrs := db.csrs.update id f hf }

def Db.insertCsr (db : Db) (mk : ℤ → CsrRow) (hmk : ∀ k, (mk k).id = k := by as_aux_lemma => intro; rfl) : Db :=
  { db with csrs := db.csrs.insert mk hmk }

def nameRow (cn : Text) (caId : ℤ) (r : CsrRow) : CsrRow := { r with commonName := cn, caId := some caId }

def setRowStatus (status : CsrStatus) (r : CsrRow) : CsrRow := { r with status := status }

theorem nameRow_id {cn : Text} {caId : ℤ} (r : CsrRow) : (nameRow cn caId r).id = r.id := rfl

theorem setRowStatus_id {status : CsrStatus} (r : CsrRow) : (setRowStatus status r).id = r.id := rfl

def approveRow (certId caId : ℤ) (r : CsrRow) : CsrRow :=
  { r with status := .approved, certificateId := some certId, caId := some caId }

/-- `_release_csr`: only a row that is still being signed -/
def releaseRow (r : CsrRow) : CsrRow := if r.status = .signing then setRowStatus .pending r else r

theorem releaseRow_id (r : CsrRow) : (releaseRow r).id = r.id := by
  unfold releaseRow
  split_ifs <;> rfl

def markAcme (accountId : ℤ) (c : Certificate) : Certificate :=
  { c with issuanceSource := some "acme", acmeAccountId := some accountId }

/-- the certificate and its CSR row, in one commit -/
def persist (caId csrId : ℤ) (issued : Issued) (db : Db) : Db :=
  { db with certificates := db.certificates.insert fun id => ⟨id, caId, issued, none, none⟩ }.updateCsr csrId
    (approveRow db.certificates.nextKey caId)

/-- the final commit: the certificate gets its account, the order its certificate -/
def linkOrder (orderId accountId certId : ℤ) (now : DateTime) (db : Db) : Db :=
  { db with certificates := db.certificates.update certId (markAcme accountId) }.updateOrder orderId
    (AcmeOrder.link certId now)

/-- the log entry of the call of `sign_csr` -/
def Session.recordSigning (s : Session) (orderId : ℤ) : Session :=
  match s.db.orders.get? orderId with
  | some o => s.record (.signing o s.db)
  | none => s

@[simp] theorem Session.recordSigning_db (s : Session) (orderId : ℤ) : (s.recordSigning orderId).db = s.db := by
  unfold recordSigning
  cases s.db.orders.get? orderId <;> rfl

/-! ## The steps -/

variable (E : Env)

/-- the order after `load_order` and `finalize` have refreshed it, each at its own time -/
def refreshTwice (t : Tick) (o : AcmeOrder) (db : Db) : Db :=
  let db := refreshOrder t.now o db
  match db.orders.get? o.id with
  | none => db
  | some o => refreshOrder (t.now + t.lag) o db

/-- `load_order` and `finalize` up to the first write: everything here is read, and refreshed in the session -/
def begin (f : Finalization) (t : Tick) (db : Db) : Phase :=
  match loadOrder f.server.ca.id f.accountId f.orderId db with
  | .error e => .ended (.error e)
  | .ok o =>
    let after := refreshTwice t o db
    match after.orders.get? f.orderId with
    | none => .ended (.error (.py .attributeError))
    | some order =>
      match order.status with
      | .valid => .answered (.ok ()) db after
      | .ready =>
        match checkRequest E f order with
        | .ok csr => .checked csr order.identifiers
        | .error e => .answered (.error e) db after
      | status => .answered (.error (problem "orderNotReady"
          ("Order is " ++ status.text ++ "; every authorization must be valid first."))) db after

/-- does the end of the request commit what the session holds -/
def keepsAnswer : Result Unit → Bool
  | .ok () => true
  | .error e => e.keepsSession

/-- `_claim_csr` -/
def claimRow (csrId : ℤ) (db : Db) : Except PyError Db :=
  match db.csrs.get? csrId with
  | some row =>
    if row.status = .pending then .ok (db.updateCsr csrId (setRowStatus .signing) setRowStatus_id)
    else .error CertService.alreadyProcessed
  | none => .error CertService.alreadyProcessed

/-- a step that the database may refuse -/
def Tick.guard (t : Tick) {α : Type} (x : Except PyError α) : Except PyError α :=
  match x, t.fault with
  | .ok a, none => .ok a
  | .ok _, some e => .error e
  | .error e, _ => .error e

/-- `import_csr` of the order's CSR, as the order row holds it now -/
def importRow (f : Finalization) (db : Db) : Except PyError (Db × ℤ) :=
  match (db.orders.get? f.orderId).bind (·.csr) with
  | none => .error .attributeError
  | some csr => do
    f.importable
    .ok (db.insertCsr (CertService.importCsr f.server.names csr) CertService.importCsr_id, db.csrs.nextKey)

/-- the new name of the CSR row: from the CSR this request brought -/
def renameRow (f : Finalization) (csrId : ℤ) (csr : Csr) (wanted : List Text) (db : Db) : Except PyError Db := do
  let cn ← rowCommonName f.server.names.uni csr wanted
  .ok (db.updateCsr csrId (nameRow cn f.server.ca.id) nameRow_id)

/-- the checks of `sign_csr` on the row -/
def checkRow (f : Finalization) (csrId : ℤ) (db : Db) : Except PyError Unit :=
  match db.csrs.get? csrId with
  | none => .error .attributeError
  | some row => CertService.checkCsr f.server.names f.server.cas f.server.ca row [] f.verdicts

/-- the signature on the row's CSR, and its commit -/
def signRow (f : Finalization) (csrId : ℤ) (now : DateTime) (db : Db) : Except PyError (Db × ℤ) :=
  match db.csrs.get? csrId with
  | none => .error .attributeError
  | some row => do
    let issued ← CertService.signClaimed f.server.names f.server.ca row [] f.verdicts now
    .ok (persist f.server.ca.id csrId issued db, db.certificates.nextKey)

/-- from one access to the database to the next -/
def advance (f : Finalization) (t : Tick) (s : Session) : Phase → Session × Phase
  | .start => (s, begin E f t s.db)
  | .answered result before after =>
    (if keepsAnswer result then setDb s (flush before after s.db) else s, .ended result)
  | .checked csr wanted =>
    match t.fault with
    | some e => (s, .ended (.error (.py e)))
    | none => (setDb s (s.db.updateOrder f.orderId (AcmeOrder.process csr) AcmeOrder.process_id), .processing csr wanted)
  | .processing csr wanted =>
    match t.guard (importRow f s.db) with
    | .error e => (s, .failing e)
    | .ok (db, csrId) => (setDb s db, .imported csrId csr wanted)
  | .imported csrId csr wanted =>
    match t.guard (renameRow f csrId csr wanted s.db) with
    | .error e => (s, .failing e)
    | .ok db => (setDb s db, .named csrId)
  | .named csrId =>
    match f.urls with
    | .error e => (s, .failing e)
    | .ok () =>
      let s := s.recordSigning f.orderId
      match checkRow f csrId s.db with
      | .error e => (s, .failing e)
      | .ok () =>
        match t.guard (claimRow csrId s.db) with
        | .error e => (s, .failing e)
        | .ok db => (setDb s db, .claimed csrId)
  | .claimed csrId =>
    match t.guard (signRow f csrId t.now s.db) with
    | .error e => (s, .releasing csrId e)
    | .ok (db, certId) => (setDb s db, .issued certId)
  | .issued certId =>
    match t.fault with
    | some e => (s, .ended (.error (.py e)))
    | none => (setDb s (linkOrder f.orderId f.accountId certId t.now s.db), .ended (.ok ()))
  | .releasing csrId e =>
    match t.fault with
    | some e' => (s, .failing e')
    | none => (setDb s (s.db.updateCsr csrId releaseRow releaseRow_id), .failing e)
  | .failing e =>
    if e.isValueError then
      match t.fault with
      | some e' => (s, .ended (.error (.py e')))
      | none => (setDb s (s.db.updateOrder f.orderId (AcmeOrder.reject e) AcmeOrder.reject_id),
          .ended (.error (problem "badCSR" e.text)))
    else (s, .ended (.error (.py e)))
  | .ended result => (s, .ended result)

/-- at most this many steps -/
def drive (f : Finalization) (plan : Phase → Tick) : ℕ → Session × Phase → Session × Phase
  | 0, x => x
  | n + 1, (s, p) => drive f plan n (advance E f (plan p) s p)

/-- `finalize`, one request alone -/
def finalize (f : Finalization) (plan : Phase → Tick) (s : Session) : Session × Phase := drive E f plan 8 (s, .start)

/-! ## A request ends -/

variable {E}

/-- steps a phase may still take -/
def Phase.rank : Phase → ℕ
  | .start => 8
  | .answered _ _ _ => 1
  | .checked _ _ => 7
  | .processing _ _ => 6
  | .imported _ _ _ => 5
  | .named _ => 4
  | .claimed _ => 3
  | .issued _ => 1
  | .releasing _ _ => 2
  | .failing _ => 1
  | .ended _ => 0

theorem begin_rank (f : Finalization) (t : Tick) (db : Db) : (begin E f t db).rank ≤ 7 := by
  unfold begin
  cases loadOrder f.server.ca.id f.accountId f.orderId db with
  | error e => simp [Phase.rank]
  | ok o =>
    simp only
    cases (refreshTwice t o db).orders.get? f.orderId with
    | none => simp [Phase.rank]
    | some order =>
      simp only
      split
      · simp [Phase.rank]
      · cases checkRequest E f order <;> simp [Phase.rank]
      · simp [Phase.rank]

/-- every step of a request that has not ended brings it nearer to its end -/
theorem advance_rank (f : Finalization) (t : Tick) (s : Session) (p : Phase) :
    (advance E f t s p).2.rank ≤ p.rank - 1 := by
  cases p with
  | start => exact begin_rank f t s.db
  | answered result before after => simp [advance, Phase.rank]
  | checked csr wanted =>
    simp only [advance]
    cases t.fault <;> simp [Phase.rank]
  | processing csr wanted =>
    simp only [advance]
    cases t.guard (importRow f s.db) <;> simp [Phase.rank]
  | imported csrId csr wanted =>
    simp only [advance]
    cases t.guard (renameRow f csrId csr wanted s.db) <;> simp [Phase.rank]
  | named csrId =>
    simp only [advance]
    cases f.urls with
    | error e => simp [Phase.rank]
    | ok u =>
      simp only
      cases checkRow f csrId _ with
      | error e => simp [Phase.rank]
      | ok u =>
        simp only
        cases t.guard (claimRow csrId _) <;> simp [Phase.rank]
  | claimed csrId =>
    simp only [advance]
    cases t.guard (signRow f csrId t.now s.db) <;> simp [Phase.rank]
  | issued certId =>
    simp only [advance]
    cases t.fault <;> simp [Phase.rank]
  | releasing csrId e =>
    simp only [advance]
    cases t.fault <;> simp [Phase.rank]
  | failing e =>
    simp only [advance]
    split_ifs
    · cases t.fault <;> simp [Phase.rank]
    · simp [Phase.rank]
  | ended result => simp [advance, Phase.rank]

theorem drive_rank (f : Finalization) (plan : Phase → Tick) (n : ℕ) (s : Session) (p : Phase) :
    (drive E f plan n (s, p)).2.rank ≤ p.rank - n := by
  induction n generalizing s p with
  | zero => exact le_rfl
  | succ n ih =>
    have hstep := @advance_rank E f (plan p) s p
    have hrest := ih (advance E f (plan p) s p).1 (advance E f (plan p) s p).2
    calc (drive E f plan (n + 1) (s, p)).2.rank
        ≤ (advance E f (plan p) s p).2.rank - n := hrest
      _ ≤ p.rank - (n + 1) := by omega

/-- **A finalize request ends.** -/
theorem finalize_ended (f : Finalization) (plan : Phase → Tick) (s : Session) :
    ∃ result, (finalize E f plan s).2 = .ended result := by
  have h := @drive_rank E f plan 8 s .start
  have hzero : (finalize E f plan s).2.rank = 0 := Nat.le_zero.1 h
  cases hp : (finalize E f plan s).2 with
  | ended result => exact ⟨result, rfl⟩
  | _ => rw [hp] at hzero; simp [Phase.rank] at hzero

/-! ## What a request did -/

theorem drive_ended (f : Finalization) (plan : Phase → Tick) (n : ℕ) (s : Session) (r : Result Unit) :
    drive E f plan n (s, .ended r) = (s, .ended r) := by
  induction n with
  | zero => rfl
  | succ n ih => exact ih

theorem drive_succ (f : Finalization) (plan : Phase → Tick) (n : ℕ) (s : Session) (p : Phase) :
    drive E f plan (n + 1) (s, p) = drive E f plan n (advance E f (plan p) s p) := rfl

/-- a request that signs nothing any more -/
def Phase.settled : Phase → Bool
  | .answered _ _ _ | .failing _ | .releasing _ _ | .ended _ => true
  | _ => false

theorem advance_settled (f : Finalization) (t : Tick) (s : Session) {p : Phase} (h : p.settled = true) :
    (advance E f t s p).2.settled = true ∧ (advance E f t s p).1.db.certificates = s.db.certificates := by
  cases p with
  | answered result before after =>
    simp only [advance]
    split_ifs <;> exact ⟨rfl, rfl⟩
  | failing e =>
    simp only [advance]
    split_ifs
    · cases t.fault <;> exact ⟨rfl, rfl⟩
    · exact ⟨rfl, rfl⟩
  | releasing csrId e =>
    simp only [advance]
    cases t.fault <;> exact ⟨rfl, rfl⟩
  | ended r => exact ⟨rfl, rfl⟩
  | _ => cases h

/-- such a request leaves the certificates as they are -/
theorem certificates_of_settled (f : Finalization) (plan : Phase → Tick) (n : ℕ) (s : Session) {p : Phase}
    (h : p.settled = true) : (drive E f plan n (s, p)).1.db.certificates = s.db.certificates := by
  induction n generalizing s p with
  | zero => rfl
  | succ n ih =>
    obtain ⟨hsettled, hcertificates⟩ := @advance_settled E f (plan p) s p h
    exact (ih _ hsettled).trans hcertificates

/-- a request on its way to an error -/
def Phase.failed : Phase → Bool
  | .failing _ => true
  | .releasing _ _ => true
  | .ended (.error _) => true
  | _ => false

theorem Phase.settled_of_failed {p : Phase} (h : p.failed = true) : p.settled = true := by
  cases p with
  | failing e => rfl
  | releasing csrId e => rfl
  | ended r => rfl
  | _ => cases h

theorem advance_failed (f : Finalization) (t : Tick) (s : Session) {p : Phase} (h : p.failed = true) :
    (advance E f t s p).2.failed = true := by
  cases p with
  | failing e =>
    simp only [advance]
    split_ifs
    · cases t.fault <;> rfl
    · rfl
  | releasing csrId e =>
    simp only [advance]
    cases t.fault <;> rfl
  | ended r => exact h
  | _ => simp [Phase.failed] at h

theorem drive_failed (f : Finalization) (plan : Phase → Tick) (n : ℕ) (s : Session) {p : Phase} (h : p.failed = true) :
    (drive E f plan n (s, p)).2.failed = true := by
  induction n generalizing s p with
  | zero => exact h
  | succ n ih => exact ih _ (advance_failed f (plan p) s h)

/-- an error never turns into a success -/
theorem not_failed_of_ok {f : Finalization} {plan : Phase → Tick} {n : ℕ} {s s' : Session} {p : Phase}
    (h : drive E f plan n (s, p) = (s', .ended (.ok ()))) : p.failed = false := by
  by_contra hf
  have hfailed : (drive E f plan n (s, p)).2.failed = true := drive_failed f plan n s (by simpa using hf)
  rw [h] at hfailed
  cases hfailed

theorem guard_ok {t : Tick} {α : Type} {x : Except PyError α} {a : α} : t.guard x = .ok a ↔ x = .ok a ∧ t.fault = none := by
  unfold Tick.guard
  cases x with
  | error e => simp
  | ok b => cases t.fault <;> simp

/-- on its way to an error, with the certificates as they were -/
def GaveUp (certificates : CertTable) (x : Session × Phase) : Prop :=
  x.2.failed = true ∧ x.1.db.certificates = certificates

theorem GaveUp.drive {f : Finalization} {plan : Phase → Tick} {certificates : CertTable} {x : Session × Phase}
    (h : GaveUp certificates x) (n : ℕ) : GaveUp certificates (drive E f plan n x) :=
  ⟨drive_failed f plan n x.1 h.1,
    (certificates_of_settled f plan n x.1 (Phase.settled_of_failed h.1)).trans h.2⟩

/-! ### One step before the certificate -/

section Steps

variable {f : Finalization} {t : Tick} {s : Session}

theorem advance_checked (csr : Csr) (wanted : List Text) :
    GaveUp s.db.certificates (advance E f t s (.checked csr wanted)) ∨
      advance E f t s (.checked csr wanted) =
        (setDb s (s.db.updateOrder f.orderId (AcmeOrder.process csr) AcmeOrder.process_id), .processing csr wanted) := by
  simp only [advance]
  cases t.fault with
  | some e => exact .inl ⟨rfl, rfl⟩
  | none => exact .inr rfl

theorem advance_processing (csr : Csr) (wanted : List Text) :
    GaveUp s.db.certificates (advance E f t s (.processing csr wanted)) ∨
      ∃ db csrId, importRow f s.db = .ok (db, csrId) ∧
        advance E f t s (.processing csr wanted) = (setDb s db, .imported csrId csr wanted) := by
  simp only [advance]
  cases hg : t.guard (importRow f s.db) with
  | error e => exact .inl ⟨rfl, rfl⟩
  | ok r => exact .inr ⟨r.1, r.2, (guard_ok.1 hg).1, rfl⟩

theorem advance_imported (csrId : ℤ) (csr : Csr) (wanted : List Text) :
    GaveUp s.db.certificates (advance E f t s (.imported csrId csr wanted)) ∨
      ∃ db, renameRow f csrId csr wanted s.db = .ok db ∧
        advance E f t s (.imported csrId csr wanted) = (setDb s db, .named csrId) := by
  simp only [advance]
  cases hg : t.guard (renameRow f csrId csr wanted s.db) with
  | error e => exact .inl ⟨rfl, rfl⟩
  | ok db => exact .inr ⟨db, (guard_ok.1 hg).1, rfl⟩

theorem advance_named (csrId : ℤ) :
    GaveUp s.db.certificates (advance E f t s (.named csrId)) ∨
      ∃ db, checkRow f csrId s.db = .ok () ∧ claimRow csrId s.db = .ok db ∧
        advance E f t s (.named csrId) = (setDb (s.recordSigning f.orderId) db, .claimed csrId) := by
  simp only [advance]
  cases f.urls with
  | error e => exact .inl ⟨rfl, rfl⟩
  | ok u =>
    simp only [Session.recordSigning_db]
    cases hc : checkRow f csrId s.db with
    | error e => exact .inl ⟨rfl, congrArg Db.certificates (Session.recordSigning_db s f.orderId)⟩
    | ok u =>
      cases hg : t.guard (claimRow csrId s.db) with
      | error e => exact .inl ⟨rfl, congrArg Db.certificates (Session.recordSigning_db s f.orderId)⟩
      | ok db => exact .inr ⟨db, rfl, (guard_ok.1 hg).1, rfl⟩

theorem advance_claimed (csrId : ℤ) :
    GaveUp s.db.certificates (advance E f t s (.claimed csrId)) ∨
      ∃ db certId, signRow f csrId t.now s.db = .ok (db, certId) ∧
        advance E f t s (.claimed csrId) = (setDb s db, .issued certId) := by
  simp only [advance]
  cases hg : t.guard (signRow f csrId t.now s.db) with
  | error e => exact .inl ⟨rfl, rfl⟩
  | ok r => exact .inr ⟨r.1, r.2, (guard_ok.1 hg).1, rfl⟩

/-- the last commit goes through, or the certificate stays without its order -/
theorem advance_issued (certId : ℤ) :
    (∃ e, advance E f t s (.issued certId) = (s, .ended (.error (.py e)))) ∨
      advance E f t s (.issued certId) = (setDb s (linkOrder f.orderId f.accountId certId t.now s.db), .ended (.ok ())) := by
  simp only [advance]
  cases t.fault with
  | some e => exact .inl ⟨e, rfl⟩
  | none => exact .inr rfl

end Steps

/-! ### The checks and the rows -/

/-- refreshing changes the status and the error of the order, and never makes it valid -/
theorem refreshTwice_get? {t : Tick} {o : AcmeOrder} {db : Db} (ho : db.orders.get? o.id = some o) :
    ∃ o', (refreshTwice t o db).orders.get? o.id = some o' ∧ o'.identifiers = o.identifiers ∧
      (o'.status = .valid → o.status = .valid) := by
  obtain ⟨o₁, h₁, hids₁, hvalid₁⟩ := @refreshOrder_get? t.now o db ho
  have hid : o₁.id = o.id := Table.key_of_get? h₁
  obtain ⟨o₂, h₂, hids₂, hvalid₂⟩ := @refreshOrder_get? (t.now + t.lag) o₁ (refreshOrder t.now o db) (by rw [hid]; exact h₁)
  unfold refreshTwice
  simp only [h₁]
  rw [hid] at h₂
  exact ⟨o₂, h₂, hids₂.trans hids₁, fun h => hvalid₁ (hvalid₂ h)⟩

/-- a request that passed the checks found its order -/
theorem begin_checked {f : Finalization} {t : Tick} {db : Db} {csr : Csr} {wanted : List Text}
    (h : begin E f t db = .checked csr wanted) :
    ∃ o order, loadOrder f.server.ca.id f.accountId f.orderId db = .ok o ∧
      (refreshTwice t o db).orders.get? f.orderId = some order ∧ order.status = .ready ∧
      checkRequest E f order = .ok csr ∧ order.identifiers = wanted := by
  unfold begin at h
  cases hl : loadOrder f.server.ca.id f.accountId f.orderId db with
  | error e => rw [hl] at h; cases h
  | ok o =>
    simp only [hl] at h
    cases ho : (refreshTwice t o db).orders.get? f.orderId with
    | none => rw [ho] at h; cases h
    | some order =>
      simp only [ho] at h
      split at h
      · cases h
      · rename_i hst
        cases hc : checkRequest E f order with
        | error e => rw [hc] at h; cases h
        | ok csr' =>
          rw [hc] at h
          cases h
          exact ⟨o, order, rfl, ho, hst, hc, rfl⟩
      · cases h

theorem loadOrder_ok {caId accountId orderId : ℤ} {db : Db} {o : AcmeOrder}
    (h : loadOrder caId accountId orderId db = .ok o) :
    db.orders.get? orderId = some o ∧ o.caId = caId ∧ o.accountId = accountId := by
  unfold loadOrder at h
  cases hg : db.orders.get? orderId with
  | none => rw [hg] at h; cases h
  | some o' =>
    simp only [hg] at h
    split_ifs at h with hne
    cases h
    rw [not_or, not_not, not_not] at hne
    exact ⟨rfl, hne.1, hne.2⟩

theorem importRow_ok {f : Finalization} {db db' : Db} {csrId : ℤ} (h : importRow f db = .ok (db', csrId)) :
    ∃ csr, (db.orders.get? f.orderId).bind (·.csr) = some csr ∧
      db' = db.insertCsr (CertService.importCsr f.server.names csr) CertService.importCsr_id ∧ csrId = db.csrs.nextKey := by
  unfold importRow at h
  cases hc : (db.orders.get? f.orderId).bind (·.csr) with
  | none => rw [hc] at h; cases h
  | some csr =>
    simp only [hc] at h
    obtain ⟨_, _, h⟩ := bind_eq_ok.1 h
    cases h
    exact ⟨csr, rfl, rfl, rfl⟩

theorem renameRow_ok {f : Finalization} {csrId : ℤ} {csr : Csr} {wanted : List Text} {db db' : Db}
    (h : renameRow f csrId csr wanted db = .ok db') :
    ∃ cn, rowCommonName f.server.names.uni csr wanted = .ok cn ∧ db' = db.updateCsr csrId (nameRow cn f.server.ca.id)
      nameRow_id := by
  obtain ⟨cn, hcn, h⟩ := bind_eq_ok.1 h
  cases h
  exact ⟨cn, hcn, rfl⟩

theorem claimRow_ok {csrId : ℤ} {db db' : Db} (h : claimRow csrId db = .ok db') :
    ∃ row, db.csrs.get? csrId = some row ∧ row.status = .pending ∧ db' = db.updateCsr csrId (setRowStatus .signing)
      setRowStatus_id := by
  unfold claimRow at h
  cases hr : db.csrs.get? csrId with
  | none => rw [hr] at h; cases h
  | some row =>
    simp only [hr] at h
    split_ifs at h with hst
    cases h
    exact ⟨row, rfl, hst, rfl⟩

theorem signRow_ok {f : Finalization} {csrId certId : ℤ} {now : DateTime} {db db' : Db}
    (h : signRow f csrId now db = .ok (db', certId)) :
    ∃ row issued, db.csrs.get? csrId = some row ∧
      CertService.signClaimed f.server.names f.server.ca row [] f.verdicts now = .ok issued ∧
      db' = persist f.server.ca.id csrId issued db ∧ certId = db.certificates.nextKey := by
  unfold signRow at h
  cases hr : db.csrs.get? csrId with
  | none => rw [hr] at h; cases h
  | some row =>
    simp only [hr] at h
    obtain ⟨issued, hi, h⟩ := bind_eq_ok.1 h
    cases h
    exact ⟨row, issued, rfl, hi, rfl, rfl⟩

theorem stored_getD (san : List Text) : (CertService.stored san).getD [] = san := by
  unfold CertService.stored
  split_ifs with h
  · rw [h]; rfl
  · rfl

/-- the certificate just persisted -/
theorem persist_get? {db : Db} {caId csrId : ℤ} {issued : Issued} :
    (persist caId csrId issued db).certificates.get? db.certificates.nextKey =
      some ⟨db.certificates.nextKey, caId, issued, none, none⟩ := by
  unfold persist Db.updateCsr
  rw [Table.get?_insert, if_pos rfl]

/-- the certificate just persisted, after the final commit -/
theorem linkOrder_persist {db : Db} {orderId accountId caId csrId : ℤ} {issued : Issued} {now : DateTime} :
    (linkOrder orderId accountId db.certificates.nextKey now (persist caId csrId issued db)).certificates.get?
      db.certificates.nextKey = some (markAcme accountId ⟨db.certificates.nextKey, caId, issued, none, none⟩) := by
  unfold linkOrder Db.updateOrder
  rw [Table.get?_update_self, persist_get?, Option.map_some]

/-- and its order -/
theorem linkOrder_order {db : Db} {orderId accountId certId caId csrId : ℤ} {issued : Issued} {now : DateTime} {o : AcmeOrder}
    (ho : db.orders.get? orderId = some o) :
    (linkOrder orderId accountId certId now (persist caId csrId issued db)).orders.get? orderId =
      some (o.link certId now) := by
  unfold linkOrder persist Db.updateOrder Db.updateCsr
  rw [Table.get?_update_self, ho, Option.map_some]

/-! ### From the checks to the certificate -/

section Stages

variable {f : Finalization} {plan : Phase → Tick} {n : ℕ} {s : Session}

/-- `import_csr` and the new name: the CSR row is made of the CSR that the order holds -/
theorem drive_processing {csr : Csr} {wanted : List Text} {o : AcmeOrder} {csr' : Csr}
    (ho : s.db.orders.get? f.orderId = some o) (hcsr : o.csr = some csr') :
    GaveUp s.db.certificates (drive E f plan (n + 2) (s, .processing csr wanted)) ∨
      ∃ s₁ csrId cn, rowCommonName f.server.names.uni csr wanted = .ok cn ∧
        s₁.db.csrs.get? csrId = some (nameRow cn f.server.ca.id (CertService.importCsr f.server.names csr' csrId)) ∧
        s₁.db.orders = s.db.orders ∧ s₁.db.certificates = s.db.certificates ∧
        drive E f plan (n + 2) (s, .processing csr wanted) = drive E f plan n (s₁, .named csrId) := by
  rw [drive_succ]
  obtain hgave | ⟨db₁, csrId, himp, hnext⟩ := @advance_processing E f (plan (.processing csr wanted)) s csr wanted
  · exact .inl (hgave.drive _)
  rw [hnext, drive_succ]
  obtain ⟨stored, hstored, rfl, rfl⟩ := importRow_ok himp
  rw [ho, Option.bind_some, hcsr] at hstored
  cases hstored
  obtain hgave | ⟨db₂, hren, hnext⟩ := @advance_imported E f (plan (.imported s.db.csrs.nextKey csr wanted))
    (setDb s (s.db.insertCsr (CertService.importCsr f.server.names csr') CertService.importCsr_id)) s.db.csrs.nextKey csr
    wanted
  · exact .inl (hgave.drive _)
  rw [hnext]
  obtain ⟨cn, hcn, rfl⟩ := renameRow_ok hren
  refine .inr ⟨_, _, cn, hcn, ?_, ?_, ?_, rfl⟩
  case refine_2 => rfl
  case refine_3 => rfl
  simp only [setDb_db]
  unfold Db.updateCsr Db.insertCsr
  rw [Table.get?_update_self, Table.get?_insert, if_pos rfl, Option.map_some]

/-- `sign_csr`: the row is checked, claimed and signed -/
theorem drive_named {csrId : ℤ} {row : CsrRow} (hrow : s.db.csrs.get? csrId = some row) :
    GaveUp s.db.certificates (drive E f plan (n + 2) (s, .named csrId)) ∨
      ∃ s₁ now issued, CertService.checkCsr f.server.names f.server.cas f.server.ca row [] f.verdicts = .ok () ∧
        CertService.signClaimed f.server.names f.server.ca (setRowStatus .signing row) [] f.verdicts now = .ok issued ∧
        s₁.db.orders = s.db.orders ∧ s₁.db.certificates = s.db.certificates ∧
        drive E f plan (n + 2) (s, .named csrId) = drive E f plan n
          (setDb s₁ (persist f.server.ca.id csrId issued s₁.db), .issued s₁.db.certificates.nextKey) := by
  rw [drive_succ]
  obtain hgave | ⟨db₁, hcheck, hclaim, hnext⟩ := @advance_named E f (plan (.named csrId)) s csrId
  · exact .inl (hgave.drive _)
  rw [hnext, drive_succ]
  unfold checkRow at hcheck
  simp only [hrow] at hcheck
  obtain ⟨row', hrow', _, rfl⟩ := claimRow_ok hclaim
  rw [hrow] at hrow'
  cases hrow'
  obtain hgave | ⟨db₂, certId, hsign, hnext⟩ := @advance_claimed E f (plan (.claimed csrId))
    (setDb (s.recordSigning f.orderId) (s.db.updateCsr csrId (setRowStatus .signing) setRowStatus_id)) csrId
  · exact .inl (hgave.drive _)
  rw [hnext]
  obtain ⟨claimed, issued, hclaimed, hsigned, rfl, rfl⟩ := signRow_ok hsign
  have hrow' : (s.db.updateCsr csrId (setRowStatus .signing) setRowStatus_id).csrs.get? csrId =
      some (setRowStatus .signing row) := by
    unfold Db.updateCsr
    rw [Table.get?_update_self, hrow, Option.map_some]
  cases hrow'.symm.trans hclaimed
  refine .inr ⟨_, _, issued, hcheck, hsigned, ?_, ?_, rfl⟩
  · rfl
  · rfl

end Stages

/-- what a request that gets to its last commit has signed: the certificate that `sign_csr` makes of the CSR's subject and
SAN strings, with one checked common name -/
def Signed (f : Finalization) (csr : Csr) (wanted : List Text) (issued : Issued) : Prop :=
  ∃ cn now sanJson, rowCommonName f.server.names.uni csr wanted = .ok cn ∧
    NameConstraints.enforce f.server.names f.server.cas f.server.ca (some cn) (CertService.csrSans f.server.names csr) =
      .ok () ∧
    CertService.leafCertificate f.server.names f.server.ca f.verdicts now csr.subject
      (CertService.csrSans f.server.names csr) cn sanJson = .ok issued

/-- what was checked and signed are the CSR's own names -/
theorem signed_of_row {f : Finalization} {csr : Csr} {wanted : List Text} {cn : Text} {csrId : ℤ} {now : DateTime}
    {issued : Issued} (hcn : rowCommonName f.server.names.uni csr wanted = .ok cn)
    (hcheck : CertService.checkCsr f.server.names f.server.cas f.server.ca
      (nameRow cn f.server.ca.id (CertService.importCsr f.server.names csr csrId)) [] f.verdicts = .ok ())
    (hsigned : CertService.signClaimed f.server.names f.server.ca
      (setRowStatus .signing (nameRow cn f.server.ca.id (CertService.importCsr f.server.names csr csrId))) [] f.verdicts now =
        .ok issued) : Signed f csr wanted issued := by
  have hsan : CertService.effectiveSan (nameRow cn f.server.ca.id (CertService.importCsr f.server.names csr csrId)) [] =
      CertService.csrSans f.server.names csr := stored_getD _
  have hsan' : CertService.effectiveSan (setRowStatus .signing
      (nameRow cn f.server.ca.id (CertService.importCsr f.server.names csr csrId))) [] =
        CertService.csrSans f.server.names csr := stored_getD _
  have hnames := (CertService.checkCsr_ok hcheck).2
  rw [hsan] at hnames
  unfold CertService.signClaimed at hsigned
  simp only [hsan'] at hsigned
  exact ⟨cn, now, _, hcn, hnames, hsigned⟩

/-- **How far a request gets.** A request that has passed the checks gives up before there is a certificate, or it has
signed one, and the order row is still there for the last commit. -/
theorem finalize_signs {f : Finalization} {plan : Phase → Tick} {s : Session} {csr : Csr} {wanted : List Text}
    (hb : begin E f (plan .start) s.db = .checked csr wanted) :
    GaveUp s.db.certificates (finalize E f plan s) ∨
      ∃ s₁ csrId issued, Signed f csr wanted issued ∧ (∃ o, s₁.db.orders.get? f.orderId = some o) ∧
        s₁.db.certificates = s.db.certificates ∧
        finalize E f plan s = drive E f plan 2 (setDb s₁ (persist f.server.ca.id csrId issued s₁.db),
          .issued s₁.db.certificates.nextKey) := by
  obtain ⟨o, _, hload, _⟩ := begin_checked hb
  unfold finalize
  rw [drive_succ]
  simp only [advance, hb]
  rw [drive_succ]
  obtain hgave | hnext := @advance_checked E f (plan (.checked csr wanted)) s csr wanted
  · exact .inl (hgave.drive 6)
  rw [hnext]
  have hget : (s.db.updateOrder f.orderId (AcmeOrder.process csr) AcmeOrder.process_id).orders.get? f.orderId =
    some (o.process csr) :=
    Db.updateOrder_self (loadOrder_ok hload).1
  obtain hgave | ⟨s₁, csrId, cn, hcn, hrow, horders, hcertificates, hnext⟩ := @drive_processing E f plan 4
    (setDb s (s.db.updateOrder f.orderId (AcmeOrder.process csr) AcmeOrder.process_id)) csr wanted _ csr hget rfl
  · exact .inl hgave
  rw [hnext]
  obtain hgave | ⟨s₂, now, issued, hcheck, hsigned, horders', hcertificates', hnext⟩ :=
    @drive_named E f plan 2 s₁ csrId _ hrow
  · rw [hcertificates] at hgave
    exact .inl hgave
  refine .inr ⟨s₂, csrId, issued, signed_of_row hcn hcheck hsigned, ⟨o.process csr, ?_⟩,
    hcertificates'.trans hcertificates, hnext⟩
  rw [horders', horders]
  exact hget

/-- what a successful request that signed has done: the order is linked to the certificate, which carries the account -/
theorem finalize_issues {f : Finalization} {plan : Phase → Tick} {s s' : Session}
    (h : finalize E f plan s = (s', .ended (.ok ()))) {csr : Csr} {wanted : List Text}
    (hb : begin E f (plan .start) s.db = .checked csr wanted) :
    ∃ order cert, Signed f csr wanted cert.issued ∧ s'.db.orders.get? f.orderId = some order ∧ order.status = .valid ∧
      order.certificateId = some cert.id ∧ s'.db.certificates.get? cert.id = some cert ∧
      cert.acmeAccountId = some f.accountId := by
  rcases finalize_signs hb with hgave | ⟨s₁, csrId, issued, hsigned, ⟨o, ho⟩, -, heq⟩
  · rw [h] at hgave
    cases hgave.1
  rw [heq, drive_succ] at h
  obtain ⟨e, hnext⟩ | hnext := @advance_issued E f (plan (.issued s₁.db.certificates.nextKey))
    (setDb s₁ (persist f.server.ca.id csrId issued s₁.db)) s₁.db.certificates.nextKey
  · rw [hnext, drive_ended] at h
    cases h
  · rw [hnext, drive_ended] at h
    cases h
    exact ⟨_, markAcme f.accountId ⟨s₁.db.certificates.nextKey, f.server.ca.id, issued, none, none⟩, hsigned,
      linkOrder_order ho, rfl, rfl, linkOrder_persist, rfl⟩

/-- a request whose checks do not pass signs nothing -/
theorem begin_settled (f : Finalization) (t : Tick) (db : Db) :
    (begin E f t db).settled = true ∨ ∃ csr wanted, begin E f t db = .checked csr wanted := by
  unfold begin
  cases loadOrder f.server.ca.id f.accountId f.orderId db with
  | error e => exact .inl rfl
  | ok o =>
    simp only
    cases (refreshTwice t o db).orders.get? f.orderId with
    | none => exact .inl rfl
    | some order =>
      simp only
      split
      · exact .inl rfl
      · cases checkRequest E f order with
        | error e => exact .inl rfl
        | ok csr => exact .inr ⟨csr, _, rfl⟩
      · exact .inl rfl

/-- the certificate that a request adds to the table was signed, whether or not the request succeeds -/
theorem finalize_adds {f : Finalization} {plan : Phase → Tick} {s : Session} {cert : Certificate}
    (h : (finalize E f plan s).1.db.certificates.get? s.db.certificates.nextKey = some cert) :
    ∃ csr wanted, begin E f (plan .start) s.db = .checked csr wanted ∧ Signed f csr wanted cert.issued := by
  have hnew : (finalize E f plan s).1.db.certificates ≠ s.db.certificates := by
    intro hsame
    rw [hsame, Table.get?_nextKey] at h
    cases h
  obtain hsettled | ⟨csr, wanted, hb⟩ := @begin_settled E f (plan .start) s.db
  · exact absurd (certificates_of_settled f plan 7 s hsettled) hnew
  refine ⟨csr, wanted, hb, ?_⟩
  rcases finalize_signs hb with hgave | ⟨s₁, csrId, issued, hsigned, -, hcertificates, heq⟩
  · exact absurd hgave.2 hnew
  rw [heq, ← hcertificates, drive_succ] at h
  obtain ⟨e, hnext⟩ | hnext := @advance_issued E f (plan (.issued s₁.db.certificates.nextKey))
    (setDb s₁ (persist f.server.ca.id csrId issued s₁.db)) s₁.db.certificates.nextKey
  · rw [hnext, drive_ended, setDb_db, persist_get?] at h
    cases h
    exact hsigned
  · rw [hnext, drive_ended, setDb_db, setDb_db, linkOrder_persist] at h
    cases h
    exact hsigned

end Chancery.Acme
