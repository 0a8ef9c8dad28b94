/-
`generate_crl`, `revoke_certificate` and `revoke_ca` by several workers at once, for the CRLs of one CA.

A worker stands between two accesses to the database (`CrlPhase`). `generate_crl` reads the row of the CA, raises its number
by an UPDATE, reads the revoked leaves, then the revoked sub-CAs, signs, and commits. A revocation reads what it revokes and
commits it; `revoke_ca` reads CA by CA. Reads see what is committed. The UPDATE of the CA row waits while another
transaction has written that row (`writer`), until that one commits or rolls back; the rows of other CAs are not locked,
which only allows more. The clock, and the log of the committed CRLs with the time their run started, are not in the code.
-/
import Mathlib.Tactic
import Chancery.Core.Workers
import Chancery.Services.Crl

namespace Chancery.Pki

open Chancery.Core

/-! ## A CRL from what was read -/

/-- the revoked leaves of a CA -/
def revokedLeaves (s : Db) (caId : ℤ) : List RevokedRow :=
  (s.leaves.rows.filter (fun c => c.caId == caId && c.isRevoked)).map
    (fun c => (c.serialNumber, c.revokedAt, c.revocationReason))

/-- the revoked sub-CAs of a CA -/
def revokedSubs (s : Db) (caId : ℤ) : List RevokedRow :=
  (s.cas.rows.filter (fun sub => sub.parentId == some caId && sub.isRevoked)).map
    (fun sub => (sub.serialNumber, sub.revokedAt, sub.revocationReason))

theorem revokedRows_eq (s : Db) (caId : ℤ) : revokedRows s caId = revokedLeaves s caId ++ revokedSubs s caId := rfl

/-- the CRL with this number over these rows -/
def crlOf (now nextUpdate : DateTime) (cert : X509) (number : ℤ) (rows : List RevokedRow) : Except PyError Crl :=
  if nextUpdate < now then .error (.valueError "The next update date must be after the last update date.")
  else if !cert.hasKeyId then .error (.other "ExtensionNotFound")
  else do
    let entries ← crlEntries now rows
    .ok ⟨number, wholeSeconds now, wholeSeconds nextUpdate, entries⟩

theorem buildCrl_eq (now nextUpdate : DateTime) (ca : CaRow) (s : Db) :
    buildCrl now nextUpdate ca s = crlOf now nextUpdate ca.certificate (ca.crlNumber + 1) (revokedRows s ca.id) := rfl

theorem crlOf_ok {now nextUpdate : DateTime} {cert : X509} {number : ℤ} {rows : List RevokedRow} {crl : Crl}
    (h : crlOf now nextUpdate cert number rows = .ok crl) :
    crl.number = number ∧ crlEntries now rows = .ok crl.entries := by
  unfold crlOf at h
  split_ifs at h
  obtain ⟨entries, hentries, h⟩ := bind_eq_ok.1 h
  cases h
  exact ⟨rfl, hentries⟩

/-! ## Workers -/

/-- a run of `generate_crl`: when it started, the row it read, and its times -/
structure CrlRun where
  started : ℕ
  row : CaRow
  now : DateTime
  nextUpdate : DateTime

/-- a run of `revoke_ca`: the CAs to visit, and the CAs and certificates it will have revoked -/
structure CrlWalk where
  now : DateTime
  reason : String
  todo : List ℤ
  cas : List ℤ
  certs : List ℤ

inductive CrlPhase
  | idle
  | loaded (g : CrlRun)
  /-- the row is written, with this number -/
  | numbered (g : CrlRun) (number : ℤ)
  | leavesRead (g : CrlRun) (number : ℤ) (rows : List RevokedRow)
  | subsRead (g : CrlRun) (number : ℤ) (rows : List RevokedRow)
  | signed (started : ℕ) (crl : Crl)
  /-- the certificate was not revoked when it was read -/
  | revoking (certId : ℤ) (now : DateTime) (reason : String)
  | walking (walk : CrlWalk)

structure CrlStore where
  db : Db
  /-- the worker whose transaction has written the row of the CA -/
  writer : Option ℕ
  clock : ℕ
  /-- the committed CRLs, each with the time its run started -/
  log : List (ℕ × Crl)

inductive CrlAction
  | generate (now nextUpdate : DateTime)
  | revokeCertificate (certId : ℤ) (now : DateTime) (reason : String)
  | revokeCa (caId : ℤ) (now : DateTime) (reason : String)
  /-- the next access of the transaction -/
  | next
  /-- an exception, or a refused commit -/
  | rollback

/-- `revoke_ca` at its commit -/
def revokeMarked (walk : CrlWalk) (s : Db) : Db :=
  { s with
    cas := s.cas.mapRows (fun a => if a.id ∈ walk.cas then revokeCaRow walk.now walk.reason a else a)
      (by as_aux_lemma => intro a; split_ifs <;> rfl)
    leaves := s.leaves.mapRows (fun c => if c.id ∈ walk.certs then revokeLeafRow walk.now walk.reason c else c)
      (by as_aux_lemma => intro c; split_ifs <;> rfl) }

/-- `_revoke_ca_recursive` on one CA: its active certificates, and its children that are not revoked -/
def CrlWalk.visit (walk : CrlWalk) (s : Db) (j : ℤ) (todo : List ℤ) : CrlWalk :=
  { walk with
    todo := (s.children j).filter (fun c => !s.caRevoked c) ++ todo
    cas := walk.cas ++ [j]
    certs := walk.certs ++ (s.leaves.rows.filter (activeLeaf j)).map (·.id) }

section Steps

variable (caId : ℤ) (w : ℕ)

/-- the row of the CA is free again -/
def CrlStore.release (s : CrlStore) : CrlStore := { s with writer := if s.writer = some w then none else s.writer }

/-- one access of a transaction; a worker that has to wait stays where it is -/
def crlNext (s : CrlStore) : CrlPhase → CrlStore × CrlPhase
  | .idle => (s, .idle)
  | .loaded g =>
    if s.writer ≠ none then (s, .loaded g)
    else
      match s.db.cas.get? caId with
      | none => (s, .idle)
      | some row => ({ s with writer := some w }, .numbered g (row.crlNumber + 1))
  | .numbered g number => (s, .leavesRead g number (revokedLeaves s.db caId))
  | .leavesRead g number rows => (s, .subsRead g number (rows ++ revokedSubs s.db caId))
  | .subsRead g number rows =>
    match crlOf g.now g.nextUpdate g.row.certificate number rows with
    | .error _ => (s.release w, .idle)
    | .ok crl => (s, .signed g.started crl)
  | .signed started crl =>
    ({ s with
      db := s.db.updateCa caId (cacheCrl crl) cacheCrl_id, writer := none, log := s.log ++ [(started, crl)] }, .idle)
  | .revoking certId now reason =>
      ({ s with db := s.db.updateLeaf certId (revokeLeafRow now reason) revokeLeafRow_id }, .idle)
  | .walking walk =>
    match walk.todo with
    | [] => ({ s.release w with db := revokeMarked walk s.db }, .idle)
    | j :: todo =>
      if j ∈ walk.cas then (s, .walking { walk with todo := todo })
      else if j ≠ caId then (s, .walking (walk.visit s.db j todo))
      else if s.writer ≠ none then (s, .walking walk)
      else ({ s with writer := some w }, .walking (walk.visit s.db j todo))

/-- `generate_crl` up to its UPDATE -/
def startGenerate (now nextUpdate : DateTime) (s : CrlStore) : CrlPhase :=
  match s.db.cas.get? caId with
  | none => .idle
  | some row =>
    match crlAllowed row with
    | .error _ => .idle
    | .ok () => .loaded ⟨s.clock, row, now, nextUpdate⟩

/-- `revoke_certificate` up to its commit -/
def startRevoke (certId : ℤ) (now : DateTime) (reason : String) (s : CrlStore) : CrlPhase :=
  match revokeCertificate now certId reason s.db with
  | .error _ => .idle
  | .ok _ => .revoking certId now reason

/-- `revoke_ca` up to its first CA -/
def startWalk (target : ℤ) (now : DateTime) (reason : String) (s : CrlStore) : CrlPhase :=
  match checkRevocable target reason s.db with
  | .error _ => .idle
  | .ok () => .walking ⟨now, reason, [target], [], []⟩

def crlAct (e : CrlAction) (s : CrlStore) (p : CrlPhase) : CrlStore × CrlPhase :=
  match e, p with
  | .generate now nextUpdate, .idle => (s, startGenerate caId now nextUpdate s)
  | .revokeCertificate certId now reason, .idle => (s, startRevoke certId now reason s)
  | .revokeCa target now reason, .idle => (s, startWalk target now reason s)
  | .next, p => crlNext caId w s p
  | .rollback, _ => (s.release w, .idle)
  | _, p => (s, p)

/-- one step of worker `w`, and of the clock -/
def crlStep (e : CrlAction) (s : CrlStore) (p : CrlPhase) : CrlStore × CrlPhase :=
  let r := crlAct caId w e s p
  ({ r.1 with clock := s.clock + 1 }, r.2)

end Steps

abbrev CrlRace := Pool CrlStore CrlPhase

def CrlRace.step (caId : ℤ) (r : CrlRace) (o : ℕ × CrlAction) : CrlRace := r.act (crlStep caId) o

/-- nobody at work -/
def CrlRace.start (s : Db) : CrlRace := ⟨⟨s, none, 0, []⟩, fun _ => .idle⟩

/-- **Alone**, the accesses of a run are `generate_crl`. -/
theorem generate_alone {caId : ℤ} {w : ℕ} {env : Env} {ca : CaRow} {nextUpdate : DateTime} {db db' : Db} {s : CrlStore}
    (hs : s.db = db) (hfree : s.writer = none) (hca : db.cas.get? caId = some ca)
    (h : generateCrl env ca (some nextUpdate) db = .ok db') :
    ∃ crl,
      let s₁ : CrlStore := { s with writer := some w }
      let g : CrlRun := ⟨s.clock, ca, env.now, nextUpdate⟩
      let rows := revokedLeaves db caId
      startGenerate caId env.now nextUpdate s = .loaded g ∧
      crlNext caId w s (.loaded g) = (s₁, .numbered g (ca.crlNumber + 1)) ∧
      crlNext caId w s₁ (.numbered g (ca.crlNumber + 1)) = (s₁, .leavesRead g (ca.crlNumber + 1) rows) ∧
      crlNext caId w s₁ (.leavesRead g (ca.crlNumber + 1) rows) =
        (s₁, .subsRead g (ca.crlNumber + 1) (rows ++ revokedSubs db caId)) ∧
      crlNext caId w s₁ (.subsRead g (ca.crlNumber + 1) (rows ++ revokedSubs db caId)) = (s₁, .signed s.clock crl) ∧
      crlNext caId w s₁ (.signed s.clock crl) =
        ({ s with db := db', writer := none, log := s.log ++ [(s.clock, crl)] }, .idle) := by
  subst hs
  obtain ⟨hallowed, crl, hcrl, rfl⟩ := generateCrl_ok h
  have hid : ca.id = caId := Table.key_of_get? hca
  rw [buildCrl_eq, hid] at hcrl
  refine ⟨crl, ?_, ?_, rfl, rfl, ?_, ?_⟩
  · unfold startGenerate
    simp only [hca, hallowed]
  · unfold crlNext
    simp only [hfree, hca]
    rfl
  · unfold crlNext
    rw [revokedRows_eq] at hcrl
    simp only [Option.getD_some] at hcrl ⊢
    rw [hcrl]
  · rw [hid]
    rfl

end Chancery.Pki
