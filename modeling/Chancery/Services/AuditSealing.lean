/-
`seal` of app/services/audit_chain.py while transactions and other sealers are under way.

Ids are given out in increasing order, the transactions that hold them commit in any order or never, and any number of
workers run `seal`, whose steps are: read the head, read the pending rows, commit the hashes (`job_audit_seal`,
`flask audit seal`). A transaction that inserts several rows commits them one after another.

`seal_alone`: the three steps one after another are `sealRows`.
-/
import Mathlib.Tactic
import Chancery.Core.Workers
import Chancery.Services.AuditChain

namespace Chancery.AuditChain

open Chancery.Core

/-! ## The tables and the workers -/

/-- the committed rows, the rows of open transactions, and the next id -/
structure LogDb where
  rows : AuditTable
  inFlight : List AuditLog
  nextId : ℤ

inductive SealPhase
  | start
  /-- the head is read -/
  | headRead (cutoff : DateTime) (headId : Option ℤ) (prev : String)
  /-- the pending rows are read, and these are sealed in the session -/
  | computed (done : List AuditLog)
  | ended (result : Except PyError Unit)

/-- what a worker has sealed in its session -/
def SealPhase.done : SealPhase → List AuditLog
  | .computed done => done
  | _ => []

/-- unsealed rows after a head, in id order -/
def pendingAfter (t : AuditTable) (headId : Option ℤ) : List AuditLog :=
  t.rows.filter fun r => !r.isSealed && decide (headId.getD 0 < r.id)

/-- the next step of a `seal`; the clock and the grace period are read in the first one -/
def sealStep (H : Sha256) (o : DateTime × ℤ) (s : LogDb) : SealPhase → LogDb × SealPhase
  | .start => (s, .headRead (o.1 - o.2 * second) (head s.rows).1 (head s.rows).2)
  | .headRead cutoff headId prev =>
    match sealLoop H cutoff (pendingAfter s.rows headId) (headId.map (· + 1)) prev with
    | .error e => (s, .ended (.error e))
    | .ok (done, _) => (s, .computed done)
  | .computed done => ({ s with rows := writeBack s.rows done }, .ended (.ok ()))
  | p => (s, p)

abbrev SealRace := Pool LogDb SealPhase

inductive LogOp
  /-- an INSERT in an open transaction -/
  | insert (entry : Entry) (caller : Caller) (now : DateTime)
  /-- the transaction of this row commits -/
  | commit (id : ℤ)
  | rollback (id : ℤ)
  /-- the next step of a worker's `seal` -/
  | sealing (worker : ℕ) (now : DateTime) (graceSeconds : ℤ)

/-- the commit of the transaction that inserted the row -/
def commitRow (s : LogDb) (id : ℤ) : LogDb :=
  match s.inFlight.find? (·.id == id) with
  | none => s
  | some row => { s with rows := s.rows.place row, inFlight := s.inFlight.filter (·.id != id) }

def logStep (H : Sha256) (r : SealRace) : LogOp → SealRace
  | .insert e c now =>
    { r with shared := { r.shared with
      inFlight := r.shared.inFlight ++ [logAction e c now r.shared.nextId], nextId := r.shared.nextId + 1 } }
  | .commit id => { r with shared := commitRow r.shared id }
  | .rollback id => { r with shared := { r.shared with inFlight := r.shared.inFlight.filter (·.id != id) } }
  | .sealing i now grace => r.act (fun _ => sealStep H) (i, now, grace)

/-- no seal under way -/
def logStart (s : LogDb) : SealRace := ⟨s, fun _ => .start⟩

/-! ## A seal alone -/

/-- **The steps of a seal, one after another, are `sealRows`.** -/
theorem seal_alone (H : Sha256) (s : LogDb) (now : DateTime) (grace : ℤ) :
    let x := sealStep H (now, grace) s .start
    let y := sealStep H (now, grace) x.1 x.2
    let z := sealStep H (now, grace) y.1 y.2
    match sealRows H s.rows now grace with
    | .ok (t, _) => z = ({ s with rows := t }, .ended (.ok ()))
    | .error e => z = (s, .ended (.error e)) := by
  have hpending : pendingAfter s.rows (head s.rows).1 = pending s.rows := rfl
  simp only [sealStep, sealRows, hpending]
  cases sealLoop H (now - grace * second) (pending s.rows) ((head s.rows).1.map (· + 1)) (head s.rows).2 with
  | error e => rfl
  | ok res => rfl

end Chancery.AuditChain
