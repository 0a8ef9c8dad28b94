/-
CRLs and revocation (app/services/crl_service.py).

A function returns the tables it commits; when it raises, its callers roll back, so nothing is left of it. The CRLs of a
revoked subtree are committed one by one (`publishRevocationCrls`): an exception leaves those already published. The clock,
the configuration and the key backends are a parameter (`Env`). Both recursions over the tree are those of
Chancery.Core.Cascade, with fuel for every CA.
-/
import Mathlib.Tactic
import Chancery.Core.Cascade
import Chancery.Services.Pki

namespace Chancery.Pki

open Chancery.Core

/-! ## Generating a CRL -/

/-- what a request meets: the clock, the configuration, the key backends, and its own other checks -/
structure Env where
  now : DateTime
  /-- `CRL_VALIDITY_DAYS` -/
  crlValidityDays : ℤ
  /-- `CRL_REFRESH_BEFORE_DAYS` -/
  crlRefreshBeforeDays : ℤ
  /-- `MAX_CERT_VALIDITY_DAYS`, `MAX_INTERMEDIATE_VALIDITY_DAYS`, `MAX_CA_VALIDITY_DAYS` -/
  maxCertDays : ℤ
  maxIntermediateDays : ℤ
  maxCaDays : ℤ
  /-- does the backend of this CA sign a CRL now -/
  signCrl : ℤ → Except PyError Unit
  /-- permissions, forms, dual control, key generation, certificate signatures, audit rows -/
  checks : Except PyError Unit

/-- nothing refuses: the default configuration at a given time -/
def Env.at (now : DateTime) : Env := ⟨now, 7, 2, 1825, 3650, 7300, fun _ => .ok (), .ok ()⟩

/-- `REVOCATION_REASONS` -/
def revocationReasons : List (String × ReasonFlag) :=
  [("unspecified", .unspecified), ("key_compromise", .keyCompromise), ("ca_compromise", .caCompromise),
    ("affiliation_changed", .affiliationChanged), ("superseded", .superseded),
    ("cessation_of_operation", .cessationOfOperation), ("certificate_hold", .certificateHold),
    ("privilege_withdrawn", .privilegeWithdrawn), ("aa_compromise", .aaCompromise)]

/-- `REVOCATION_REASONS.get(reason, unspecified)` -/
def crlReason (reason : Option String) : ReasonFlag := (reason.bind fun r => revocationReasons.lookup r).getD .unspecified

/-- the first time the library writes: 1950-01-01 -/
def earliestTime : DateTime := -631152000 * second

/-- the serial number, the date and the reason of a revoked row -/
abbrev RevokedRow := Text × Option DateTime × Option String

/-- `RevokedCertificateBuilder` -/
def crlEntry (now : DateTime) (row : RevokedRow) : Except PyError CrlEntry := do
  let serial ← intHex row.1
  if serial ≤ 0 then .error (.valueError "The serial number should be positive")
  else if 2 ^ 159 ≤ serial then .error (.valueError "The serial number should not be more than 159 bits.")
  else if row.2.1.getD now < earliestTime then
    .error (.valueError "The revocation date must be on or after 1950 January 1.")
  else .ok ⟨serial, wholeSeconds (row.2.1.getD now), crlReason row.2.2⟩

/-- the revoked leaves of a CA, and its revoked sub-CAs -/
def revokedRows (s : Db) (caId : ℤ) : List RevokedRow :=
  (s.leaves.rows.filter (fun c => c.caId == caId && c.isRevoked)).map
      (fun c => (c.serialNumber, c.revokedAt, c.revocationReason)) ++
    (s.cas.rows.filter (fun sub => sub.parentId == some caId && sub.isRevoked)).map
      (fun sub => (sub.serialNumber, sub.revokedAt, sub.revocationReason))

def crlEntries (now : DateTime) : List RevokedRow → Except PyError (List CrlEntry)
  | [] => .ok []
  | row :: rows => do
    let e ← crlEntry now row
    let es ← crlEntries now rows
    .ok (e :: es)

/-- the CRL a CA signs, before it is signed -/
def buildCrl (now nextUpdate : DateTime) (ca : CaRow) (s : Db) : Except PyError Crl :=
  if nextUpdate < now then .error (.valueError "The next update date must be after the last update date.")
  else if !ca.certificate.hasKeyId then .error (.other "ExtensionNotFound")
  else do
    let entries ← crlEntries now (revokedRows s ca.id)
    .ok ⟨ca.crlNumber + 1, wholeSeconds now, wholeSeconds nextUpdate, entries⟩

/-- `crl_number` and `crl_pem` -/
def cacheCrl (crl : Crl) (ca : CaRow) : CaRow := { ca with crlNumber := crl.number, crl := some crl }

theorem cacheCrl_id {crl : Crl} (ca : CaRow) : (cacheCrl crl ca).id = ca.id := rfl

/-- the refusals of `generate_crl` -/
def crlAllowed (ca : CaRow) : Except PyError Unit :=
  if !ca.hasSigningKey then
    .error (.valueError "This CA was imported without its private key and cannot sign CRLs.")
  else if ca.approvalStatus = .pending then
    .error (.valueError "This CA is awaiting dual-control approval and cannot sign CRLs yet.")
  else .ok ()

/-- the nextUpdate of a CRL that is not the final one -/
def Env.crlNextUpdate (env : Env) : DateTime := env.now + env.crlValidityDays * day

/-- `generate_crl` -/
def generateCrl (env : Env) (ca : CaRow) (nextUpdate : Option DateTime) (s : Db) : Except PyError Db := do
  crlAllowed ca
  let crl ← buildCrl env.now (nextUpdate.getD env.crlNextUpdate) ca s
  env.signCrl ca.id
  .ok (s.updateCa ca.id (cacheCrl crl) cacheCrl_id)

/-- a CA that cannot sign CRLs: without a key, or pending -/
def CaRow.cannotSign (ca : CaRow) : Bool := !ca.hasSigningKey || ca.approvalStatus == .pending

/-- `refresh_crl` -/
def refreshCrl (env : Env) (ca? : Option CaRow) (s : Db) : Except PyError Db :=
  match ca? with
  | none => .ok s
  | some ca => if ca.cannotSign then .ok s else generateCrl env ca none s

/-- `publish_final_crl` -/
def publishFinalCrl (env : Env) (ca? : Option CaRow) (s : Db) : Except PyError Db :=
  match ca? with
  | none => .ok s
  | some ca =>
    if ca.cannotSign then .ok s
    else if ca.expired env.now then .ok s
    else generateCrl env ca (some ca.notAfter) s

/-! ## Revoking -/

def revokeLeafRow (now : DateTime) (reason : String) (c : LeafRow) : LeafRow :=
  { c with isRevoked := true, revokedAt := some now, revocationReason := some reason }

theorem revokeLeafRow_id {now : DateTime} {reason : String} (c : LeafRow) : (revokeLeafRow now reason c).id = c.id := rfl

def revokeCaRow (now : DateTime) (reason : String) (ca : CaRow) : CaRow :=
  { ca with isRevoked := true, revokedAt := some now, revocationReason := some reason }

def checkReason (reason : String) : Except PyError Unit :=
  if (revocationReasons.lookup reason).isSome then .ok () else .error (.valueError "Invalid revocation reason.")

/-- `revoke_certificate` up to the commit -/
def revokeCertificate (now : DateTime) (certId : ℤ) (reason : String) (s : Db) : Except PyError Db := do
  checkReason reason
  match s.leaves.get? certId with
  | none => .error (.valueError "Certificate not found")
  | some c =>
    if c.isRevoked then .error (.valueError "Certificate is already revoked")
    else .ok (s.updateLeaf certId (revokeLeafRow now reason) revokeLeafRow_id)

/-- the counters of `revoke_ca`, beside the tables -/
structure Sweep where
  db : Db
  revokedCas : List ℤ
  certsRevoked : ℕ

def activeLeaf (caId : ℤ) (c : LeafRow) : Bool := c.caId == caId && !c.isRevoked

/-- one CA of the recursion: its row, and the certificates it issued that are not revoked -/
def revokeOne (now : DateTime) (reason : String) (s : Db) (caId : ℤ) : Db :=
  { s with
    cas := s.cas.update caId (revokeCaRow now reason)
    leaves := s.leaves.mapRows (fun c => if activeLeaf caId c then revokeLeafRow now reason c else c)
      (by as_aux_lemma => intro c; split_ifs <;> rfl) }

def sweepOne (now : DateTime) (reason : String) (x : Sweep) (caId : ℤ) : Sweep :=
  ⟨revokeOne now reason x.db caId, x.revokedCas ++ [caId],
    x.certsRevoked + (x.db.leaves.rows.filter (activeLeaf caId)).length⟩

/-- the tree `_revoke_ca_recursive` walks -/
def revocation (now : DateTime) (reason : String) : Marking Sweep ℤ where
  children x caId := x.db.children caId
  marked x caId := x.db.caRevoked caId
  mark := sweepOne now reason

/-- the refusals of `revoke_ca` -/
def checkRevocable (caId : ℤ) (reason : String) (s : Db) : Except PyError Unit := do
  checkReason reason
  match s.cas.get? caId with
  | none => .error (.valueError "CA not found")
  | some ca => if ca.isRevoked then .error (.valueError "CA is already revoked") else .ok ()

/-- `revoke_ca` up to its commit -/
def sweepCa (now : DateTime) (caId : ℤ) (reason : String) (s : Db) : Except PyError Sweep := do
  checkRevocable caId reason s
  match (revocation now reason).visit s.cas.rows.length ⟨s, [], 0⟩ caId with
  | none => .error (.other "RecursionError")
  | some x => .ok x

/-- `_revoked_subtree` -/
def revokedSubtree (s : Db) (caId : ℤ) : Option (List ℤ) :=
  collect s.children s.caRevoked (s.cas.rows.length + 1) caId

/-- final CRLs one after the other, until one fails -/
def publishFinalCrls (env : Env) : List ℤ → Db → Db × Except PyError Unit
  | [], s => (s, .ok ())
  | i :: rest, s =>
    match publishFinalCrl env (s.cas.get? i) s with
    | .error e => (s, .error e)
    | .ok s' => publishFinalCrls env rest s'

/-- `publish_revocation_crls`: what is committed, and whether it got to the end -/
def publishRevocationCrls (env : Env) (caId : ℤ) (s : Db) : Db × Except PyError Unit :=
  match refreshCrl env (((s.cas.get? caId).bind (·.parentId)).bind s.cas.get?) s with
  | .error e => (s, .error e)
  | .ok s' =>
    match revokedSubtree s' caId with
    | none => (s', .error (.other "RecursionError"))
    | some ids => publishFinalCrls env ids s'

/-- `certs_revoked` and `sub_cas_revoked` -/
def Sweep.counts (x : Sweep) : ℕ × ℕ := (x.certsRevoked, x.revokedCas.length - 1)

/-- `revoke_ca`: what is committed, and the counters it returns; `refresh` says that the CRLs are asked for and there is a
passphrase. An error of the publication leaves the revocation committed. -/
def revokeCa (env : Env) (refresh : Bool) (caId : ℤ) (reason : String) (s : Db) : Db × Except PyError (ℕ × ℕ) :=
  match sweepCa env.now caId reason s with
  | .error e => (s, .error e)
  | .ok x =>
    if refresh then
      ((publishRevocationCrls env caId x.db).1, (publishRevocationCrls env caId x.db).2.map fun _ => x.counts)
    else (x.db, .ok x.counts)

/-! ## What is committed -/

/-- a committed CRL: the row of the CA with the CRL built from the tables, nothing else -/
theorem generateCrl_ok {env : Env} {ca : CaRow} {nextUpdate : Option DateTime} {s s' : Db}
    (h : generateCrl env ca nextUpdate s = .ok s') :
    crlAllowed ca = .ok () ∧ ∃ crl, buildCrl env.now (nextUpdate.getD env.crlNextUpdate) ca s = .ok crl ∧
      s' = s.updateCa ca.id (cacheCrl crl) cacheCrl_id := by
  obtain ⟨_, hallowed, h⟩ := bind_eq_ok.1 h
  obtain ⟨crl, hcrl, h⟩ := bind_eq_ok.1 h
  obtain ⟨_, _, h⟩ := bind_eq_ok.1 h
  exact ⟨hallowed, crl, hcrl, (Except.ok.inj h).symm⟩

theorem generateCrl_eq {env : Env} {ca : CaRow} {nextUpdate : Option DateTime} {s : Db} {crl : Crl}
    (hallowed : crlAllowed ca = .ok ()) (hcrl : buildCrl env.now (nextUpdate.getD env.crlNextUpdate) ca s = .ok crl)
    (hsign : env.signCrl ca.id = .ok ()) :
    generateCrl env ca nextUpdate s = .ok (s.updateCa ca.id (cacheCrl crl) cacheCrl_id) := by
  rw [generateCrl, hallowed, hcrl]
  show (env.signCrl ca.id >>= fun _ => .ok (s.updateCa ca.id (cacheCrl crl) cacheCrl_id)) = _
  rw [hsign]
  rfl

theorem crlAllowed_iff {ca : CaRow} : crlAllowed ca = .ok () ↔ ca.cannotSign = false := by
  unfold crlAllowed CaRow.cannotSign
  cases ca.hasSigningKey <;> cases ca.approvalStatus <;> simp

theorem buildCrl_ok {now nextUpdate : DateTime} {ca : CaRow} {s : Db} {crl : Crl}
    (h : buildCrl now nextUpdate ca s = .ok crl) :
    crl.number = ca.crlNumber + 1 ∧ crl.nextUpdate = wholeSeconds nextUpdate ∧
      crlEntries now (revokedRows s ca.id) = .ok crl.entries := by
  unfold buildCrl at h
  by_cases hnext : nextUpdate < now
  · rw [if_pos hnext] at h
    cases h
  rw [if_neg hnext] at h
  by_cases hkey : ca.certificate.hasKeyId = true
  swap
  · rw [if_pos (by simpa using hkey)] at h
    cases h
  rw [if_neg (by simpa using hkey)] at h
  obtain ⟨entries, hentries, h⟩ := bind_eq_ok.1 h
  cases h
  exact ⟨rfl, rfl, hentries⟩

theorem mem_crlEntries {now : DateTime} {rows : List RevokedRow} {es : List CrlEntry}
    (h : crlEntries now rows = .ok es) {e : CrlEntry} : e ∈ es ↔ ∃ row ∈ rows, crlEntry now row = .ok e := by
  induction rows generalizing es with
  | nil =>
    cases h
    simp
  | cons row rows ih =>
    obtain ⟨e', he', h⟩ := bind_eq_ok.1 h
    obtain ⟨es', hes', h⟩ := bind_eq_ok.1 h
    cases h
    simp [ih hes', he', eq_comm]

theorem crlEntry_of_mem {now : DateTime} {rows : List RevokedRow} {es : List CrlEntry}
    (h : crlEntries now rows = .ok es) {row : RevokedRow} (hrow : row ∈ rows) : ∃ e, crlEntry now row = .ok e := by
  induction rows generalizing es with
  | nil => cases hrow
  | cons r rows ih =>
    obtain ⟨e', he', h⟩ := bind_eq_ok.1 h
    obtain ⟨es', hes', _⟩ := bind_eq_ok.1 h
    rcases List.mem_cons.1 hrow with rfl | hrow
    · exact ⟨e', he'⟩
    · exact ih hes' hrow

theorem crlEntry_ok {now : DateTime} {row : RevokedRow} {e : CrlEntry} (h : crlEntry now row = .ok e) :
    intHex row.1 = .ok e.serialNumber ∧ e.revocationDate = wholeSeconds (row.2.1.getD now) ∧
      e.reason = crlReason row.2.2 := by
  obtain ⟨serial, hserial, h⟩ := bind_eq_ok.1 h
  split_ifs at h
  cases h
  exact ⟨hserial, rfl, rfl⟩

theorem mem_revokedRows {s : Db} {caId : ℤ} {row : RevokedRow} :
    row ∈ revokedRows s caId ↔
      (∃ c ∈ s.leaves, c.caId = caId ∧ c.isRevoked = true ∧ row = (c.serialNumber, c.revokedAt, c.revocationReason)) ∨
      ∃ sub ∈ s.cas, sub.parentId = some caId ∧ sub.isRevoked = true ∧
        row = (sub.serialNumber, sub.revokedAt, sub.revocationReason) := by
  simp only [revokedRows, List.mem_append, List.mem_map, List.mem_filter, Bool.and_eq_true, beq_iff_eq, and_assoc,
    Table.mem_def, @eq_comm _ _ row]

/-! ## The sweep of a revocation -/

theorem get?_revokeOne {now : DateTime} {reason : String} {s : Db} {caId i : ℤ} :
    (revokeOne now reason s caId).cas.get? i =
      if i = caId then (s.cas.get? i).map (revokeCaRow now reason) else s.cas.get? i :=
  @Table.get?_update _ _ s.cas (revokeCaRow now reason) (fun _ => rfl) caId i

theorem children_revokeOne {now : DateTime} {reason : String} {s : Db} {caId : ℤ} :
    (revokeOne now reason s caId).children = s.children :=
  children_updateCa (s := s) (f := revokeCaRow now reason) (fun _ => rfl)

theorem caRevoked_revokeOne {now : DateTime} {reason : String} {s : Db} {caId i : ℤ} :
    (revokeOne now reason s caId).caRevoked i = true ↔ i = caId ∨ s.caRevoked i = true := by
  unfold Db.caRevoked
  rw [get?_revokeOne]
  by_cases hi : i = caId
  · rw [if_pos hi]
    cases s.cas.get? i <;> simp [hi, revokeCaRow]
  · rw [if_neg hi]
    simp [hi]

theorem revocation_lawful (now : DateTime) (reason : String) : (revocation now reason).Lawful where
  children_mark x _ j := congrFun (children_revokeOne (s := x.db)) j
  marked_mark _ _ _ := caRevoked_revokeOne

theorem checkRevocable_ok {caId : ℤ} {reason : String} {s : Db} (h : checkRevocable caId reason s = .ok ()) :
    checkReason reason = .ok () ∧ ∃ ca, s.cas.get? caId = some ca ∧ ca.isRevoked = false := by
  obtain ⟨u, hreason, h⟩ := bind_eq_ok.1 h
  cases u
  refine ⟨hreason, ?_⟩
  cases hca : s.cas.get? caId with
  | none =>
    rw [hca] at h
    cases h
  | some ca =>
    rw [hca] at h
    refine ⟨ca, rfl, ?_⟩
    by_contra hrev
    simp only [if_pos (by simpa using hrev : ca.isRevoked = true)] at h
    cases h

theorem caRevoked_of_get? {s : Db} {caId : ℤ} {ca : CaRow} (h : s.cas.get? caId = some ca) :
    s.caRevoked caId = ca.isRevoked := by simp [Db.caRevoked, h]

/-- **Revoking a CA ends**, in any graph of CAs: what the checks let through is revoked. -/
theorem sweepCa_ends (now : DateTime) {caId : ℤ} {reason : String} {s : Db}
    (h : checkRevocable caId reason s = .ok ()) : ∃ x, sweepCa now caId reason s = .ok x := by
  obtain ⟨_, ca, hca, hrev⟩ := checkRevocable_ok h
  have hmem : caId ∈ s.cas.rows.map (·.id) := List.mem_map.2 ⟨ca, Table.get?_eq_some.1 hca⟩
  have hnodes : ∀ j, ∀ c ∈ (revocation now reason).children ⟨s, [], 0⟩ j, c ∈ s.cas.rows.map (·.id) := by
    intro j c hc
    obtain ⟨a, ha, _, hid⟩ := mem_children.1 hc
    exact List.mem_map.2 ⟨a, ha, hid⟩
  have hfuel : ((revocation now reason).unmarked (s.cas.rows.map (·.id)) ⟨s, [], 0⟩).length ≤ s.cas.rows.length := by
    refine (List.length_filter_le _ _).trans ?_
    rw [List.length_map]
  have hfree : (revocation now reason).marked ⟨s, [], 0⟩ caId = false := (caRevoked_of_get? hca).trans hrev
  obtain ⟨x, hx⟩ := Marking.visit_isSome (revocation_lawful now reason) hnodes hmem hfree hfuel
  refine ⟨x, ?_⟩
  rw [sweepCa, h]
  show (match (revocation now reason).visit s.cas.rows.length ⟨s, [], 0⟩ caId with
    | none => .error (.other "RecursionError")
    | some x => .ok x : Except PyError Sweep) = .ok x
  rw [hx]

/-- the tables after the CAs of a list -/
def revokeAll (now : DateTime) (reason : String) (s : Db) (l : List ℤ) : Db := l.foldl (revokeOne now reason) s

theorem db_marks (now : DateTime) (reason : String) (x : Sweep) (l : List ℤ) :
    ((revocation now reason).marks x l).db = revokeAll now reason x.db l := by
  induction l generalizing x with
  | nil => rfl
  | cons i l ih => exact ih (sweepOne now reason x i)

/-- the CAs a revocation of `caId` revokes -/
abbrev SweptCas (s : Db) (caId : ℤ) (l : List ℤ) : Prop :=
  (revocation 0 "").Swept ⟨s, [], 0⟩ [caId] l

/-- **What `revoke_ca` does:** it revokes the CAs of a list. -/
theorem sweepCa_ok {now : DateTime} {caId : ℤ} {reason : String} {s : Db} {x : Sweep}
    (h : sweepCa now caId reason s = .ok x) :
    checkRevocable caId reason s = .ok () ∧ ∃ l, x.db = revokeAll now reason s l ∧ SweptCas s caId l := by
  obtain ⟨u, hcheck, h⟩ := bind_eq_ok.1 h
  cases u
  refine ⟨hcheck, ?_⟩
  obtain ⟨_, ca, hca, hrev⟩ := checkRevocable_ok hcheck
  cases hv : (revocation now reason).visit s.cas.rows.length ⟨s, [], 0⟩ caId with
  | none =>
    rw [hv] at h
    cases h
  | some y =>
    rw [hv] at h
    cases h
    have hfree : (revocation now reason).marked ⟨s, [], 0⟩ caId = false := (caRevoked_of_get? hca).trans hrev
    obtain ⟨l, rfl, hl⟩ := Marking.visit_swept (revocation_lawful now reason) hfree hv
    exact ⟨l, db_marks now reason _ l, ⟨hl.covers, hl.fresh, hl.reached, hl.closed⟩⟩

section RevokeAll

variable {now : DateTime} {reason : String} {s : Db} {l : List ℤ} {i : ℤ}

/-- a CA of the list is revoked, the others are as they were -/
theorem get?_revokeAll : (revokeAll now reason s l).cas.get? i =
    if i ∈ l then (s.cas.get? i).map (revokeCaRow now reason) else s.cas.get? i := by
  induction l generalizing s with
  | nil => rfl
  | cons j l ih =>
    have hstep : (revokeAll now reason s (j :: l)).cas.get? i =
        if i ∈ l then ((revokeOne now reason s j).cas.get? i).map (revokeCaRow now reason)
        else (revokeOne now reason s j).cas.get? i := ih
    rw [hstep, get?_revokeOne]
    by_cases hj : i = j
    · cases s.cas.get? i with
      | none => simp
      | some ca => simp [hj, revokeCaRow]
    · by_cases hl : i ∈ l <;> simp [hj, hl]

/-- an active certificate of a CA of the list is revoked, the others are as they were -/
def sweepLeaf (now : DateTime) (reason : String) (l : List ℤ) (c : LeafRow) : LeafRow :=
  if c.caId ∈ l ∧ c.isRevoked = false then revokeLeafRow now reason c else c

theorem get?_leaves_revokeAll :
    (revokeAll now reason s l).leaves.get? i = (s.leaves.get? i).map (sweepLeaf now reason l) := by
  induction l generalizing s with
  | nil =>
    have hid : sweepLeaf now reason [] = id := funext fun c => if_neg (by simp)
    rw [hid, Option.map_id_fun, id]
    rfl
  | cons j l ih =>
    have hstep : (revokeAll now reason s (j :: l)).leaves.get? i =
        ((revokeOne now reason s j).leaves.get? i).map (sweepLeaf now reason l) := ih
    have hone : (revokeOne now reason s j).leaves.get? i =
        (s.leaves.get? i).map (fun c => if activeLeaf j c then revokeLeafRow now reason c else c) :=
      @Table.get?_mapRows _ _ s.leaves _ (by intro c; split_ifs <;> rfl) i
    rw [hstep, hone, Option.map_map]
    congr 1
    funext c
    simp only [Function.comp_apply, activeLeaf, sweepLeaf]
    by_cases hj : c.caId = j
    · by_cases hrev : c.isRevoked = true <;> simp [hj, hrev, revokeLeafRow]
    · by_cases hrev : c.isRevoked = true <;> simp [hj, hrev]

theorem alternates_revokeAll : (revokeAll now reason s l).alternates = s.alternates := by
  induction l generalizing s with
  | nil => rfl
  | cons j l ih => exact ih (s := revokeOne now reason s j)

theorem csrs_revokeAll : (revokeAll now reason s l).csrs = s.csrs := by
  induction l generalizing s with
  | nil => rfl
  | cons j l ih => exact ih (s := revokeOne now reason s j)

theorem children_revokeAll : (revokeAll now reason s l).children = s.children := by
  induction l generalizing s with
  | nil => rfl
  | cons j l ih => exact (ih (s := revokeOne now reason s j)).trans children_revokeOne

end RevokeAll

/-! ## The tables without their CRLs -/

def clearCrl (ca : CaRow) : CaRow := { ca with crlNumber := 0, crl := none }

/-- what publishing a CRL does not touch -/
def Db.withoutCrls (s : Db) : Db := { s with cas := s.cas.mapRows clearCrl }

section WithoutCrls

variable {env : Env} {ca : CaRow} {s s' : Db} {i : ℤ}

theorem get?_withoutCrls : s.withoutCrls.cas.get? i = (s.cas.get? i).map clearCrl :=
  @Table.get?_mapRows _ _ s.cas clearCrl (fun _ => rfl) i

theorem get?_of_withoutCrls (h : s'.withoutCrls = s.withoutCrls) {a : CaRow} (ha : s.cas.get? i = some a) :
    ∃ b, s'.cas.get? i = some b ∧ clearCrl b = clearCrl a := by
  have hget : (s'.cas.get? i).map clearCrl = some (clearCrl a) := by
    rw [← get?_withoutCrls, h, get?_withoutCrls, ha]
    rfl
  exact Option.map_eq_some_iff.1 hget

/-- the other tables -/
theorem tables_of_withoutCrls (h : s'.withoutCrls = s.withoutCrls) :
    s'.leaves = s.leaves ∧ s'.alternates = s.alternates ∧ s'.csrs = s.csrs := by
  have hleaves : s'.withoutCrls.leaves = s.withoutCrls.leaves := by rw [h]
  have halternates : s'.withoutCrls.alternates = s.withoutCrls.alternates := by rw [h]
  have hcsrs : s'.withoutCrls.csrs = s.withoutCrls.csrs := by rw [h]
  exact ⟨hleaves, halternates, hcsrs⟩

theorem withoutCrls_publish {crl : Crl} : (s.updateCa i (cacheCrl crl) cacheCrl_id).withoutCrls = s.withoutCrls := by
  have hcas : (s.updateCa i (cacheCrl crl) cacheCrl_id).withoutCrls.cas = s.withoutCrls.cas := by
    apply Table.ext
    show (s.cas.rows.map fun a => if a.id = i then cacheCrl crl a else a).map clearCrl = s.cas.rows.map clearCrl
    rw [List.map_map]
    refine List.map_congr_left fun a _ => ?_
    rw [Function.comp_apply]
    split_ifs <;> rfl
  simp only [Db.withoutCrls] at hcas ⊢
  rw [hcas]
  rfl

theorem children_withoutCrls : s.withoutCrls.children = s.children := children_mapRows fun _ => rfl

theorem caRevoked_withoutCrls : s.withoutCrls.caRevoked = s.caRevoked := by
  funext j
  unfold Db.caRevoked
  rw [get?_withoutCrls]
  cases s.cas.get? j <;> rfl

theorem withoutCrls_generateCrl {nextUpdate : Option DateTime} (h : generateCrl env ca nextUpdate s = .ok s') :
    s'.withoutCrls = s.withoutCrls := by
  obtain ⟨_, crl, _, rfl⟩ := generateCrl_ok h
  exact withoutCrls_publish

theorem withoutCrls_refreshCrl {ca? : Option CaRow} (h : refreshCrl env ca? s = .ok s') :
    s'.withoutCrls = s.withoutCrls := by
  unfold refreshCrl at h
  cases ca? with
  | none =>
    cases h
    rfl
  | some ca =>
    simp only at h
    split_ifs at h
    · cases h
      rfl
    · exact withoutCrls_generateCrl h

theorem withoutCrls_publishFinalCrl {ca? : Option CaRow} (h : publishFinalCrl env ca? s = .ok s') :
    s'.withoutCrls = s.withoutCrls := by
  unfold publishFinalCrl at h
  cases ca? with
  | none =>
    cases h
    rfl
  | some ca =>
    simp only at h
    split_ifs at h
    · cases h
      rfl
    · cases h
      rfl
    · exact withoutCrls_generateCrl h

theorem withoutCrls_publishFinalCrls (ids : List ℤ) : (publishFinalCrls env ids s).1.withoutCrls = s.withoutCrls := by
  induction ids generalizing s with
  | nil => rfl
  | cons j ids ih =>
    rw [publishFinalCrls]
    cases h : publishFinalCrl env (s.cas.get? j) s with
    | error e => rfl
    | ok s1 => exact ih.trans (withoutCrls_publishFinalCrl h)

theorem withoutCrls_publishRevocationCrls {caId : ℤ} :
    (publishRevocationCrls env caId s).1.withoutCrls = s.withoutCrls := by
  unfold publishRevocationCrls
  cases hr : refreshCrl env (((s.cas.get? caId).bind (·.parentId)).bind s.cas.get?) s with
  | error e => rfl
  | ok s1 =>
    apply Eq.trans _ (withoutCrls_refreshCrl hr)
    simp only
    cases revokedSubtree s1 caId with
    | none => rfl
    | some ids => exact withoutCrls_publishFinalCrls ids

/-- the CRL of a CA depends on its own row and on the rows it lists -/
theorem buildCrl_congr {now nextUpdate : DateTime} (h : revokedRows s' ca.id = revokedRows s ca.id) :
    buildCrl now nextUpdate ca s' = buildCrl now nextUpdate ca s := by
  unfold buildCrl
  rw [h]

end WithoutCrls

end Chancery.Pki
