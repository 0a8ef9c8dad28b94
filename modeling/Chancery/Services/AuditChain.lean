/-
The audit log and its hash chain (app/models/audit_log.py, app/services/audit_service.py,
app/services/audit_chain.py).

Rows are appended unsealed. `seal` walks the unsealed rows in id order from the chain head and gives each one
`prev_hash` (the entry hash of the row before it, the empty text for the first) and
`entry_hash = SHA-256(prev_hash || "\n" || canonical JSON of the row)`. `verify` recomputes the chain. `prune` archives
and deletes a prefix of old sealed rows and appends a checkpoint that records the last pruned id and hash.

One operation is one call, committed; the clock moves by the operation's `wait` (and by `lag` between the two readings
of it that `prune` makes), so times never decrease. `json.loads` is a parameter (it only parses the details of
checkpoint rows). The webhook that follows the audit stream and the archive file's format are left out: the archive is
the list of rows written to it.
-/
import Mathlib.Tactic
import Chancery.Core.Run
import Chancery.Core.Table
import Chancery.Core.Py
import Chancery.Core.Json
import Chancery.Core.Digest

namespace Chancery.AuditChain

open Chancery.Core

/-! ## Rows -/

/-- a row of `audit_logs` -/
structure AuditLog where
  id : ℤ
  timestamp : Option DateTime
  userId : Option ℤ
  username : String
  action : String
  targetType : Option String
  targetId : Option ℤ
  details : Option String
  ipAddress : String
  prevHash : Option String
  entryHash : Option String
deriving DecidableEq, Repr

namespace AuditLog

/-- `entry_hash IS NOT NULL` -/
def isSealed (r : AuditLog) : Bool := r.entryHash.isSome

end AuditLog

abbrev AuditTable := Table AuditLog.id

def genesis : String := ""

/-- `value or default`, for a nullable text column -/
def orElse (v : Option String) (default : String) : String :=
  match v with
  | none => default
  | some s => if s = "" then default else s

/-- the text that is hashed: the row's stored fields, sorted keys, no spaces -/
def canonical (r : AuditLog) : String :=
  Json.dumps .canonical (.obj [("id", .num r.id), ("timestamp", Json.ofStr (r.timestamp.map isoformat)),
    ("user_id", Json.ofNum r.userId), ("username", .str r.username), ("action", .str r.action),
    ("target_type", Json.ofStr r.targetType), ("target_id", Json.ofNum r.targetId), ("details", Json.ofStr r.details),
    ("ip_address", .str r.ipAddress)])

/-- `compute_hash`: the previous hash is encoded as ASCII, which fails on any other text -/
def computeHash (H : Sha256) (r : AuditLog) (prevHash : Option String) : Except PyError String :=
  let prev := orElse prevHash genesis
  if isAscii prev.toList then .ok (H.hexdigest (prev ++ "\n" ++ canonical r)) else .error .unicodeEncodeError

/-! ## Appending (`audit_service.log_action`) -/

/-- who acts: `actor` for the scheduler and the command line, else the request's user and address -/
inductive Caller
  | actor (name : String)
  | user (id : ℤ) (username : String) (remoteAddr : Option String)
  | anonymous (remoteAddr : Option String)
deriving DecidableEq, Repr

structure Entry where
  action : String
  targetType : Option String
  targetId : Option ℤ
  details : Option (List (String × Json))
deriving Repr

/-- `json.dumps(details) if details else None` -/
def storeDetails : Option (List (String × Json)) → Option String
  | none => none
  | some [] => none
  | some items => some (Json.dumps .default (.obj items))

/-- the row `log_action` adds, under the id the database gives it -/
def logAction (e : Entry) (c : Caller) (now : DateTime) (id : ℤ) : AuditLog :=
  let (userId, username, ip) := match c with
    | .actor name => ((none : Option ℤ), name, "local")
    | .user i name addr => (some i, name, orElse addr "unknown")
    | .anonymous addr => (none, "anonymous", orElse addr "unknown")
  ⟨id, some now, userId, username, e.action, e.targetType, e.targetId, storeDetails e.details, ip, none, none⟩

@[simp] theorem logAction_id (e : Entry) (c : Caller) (now : DateTime) (id : ℤ) : (logAction e c now id).id = id := by
  cases c <;> rfl

@[simp] theorem logAction_entryHash (e : Entry) (c : Caller) (now : DateTime) (id : ℤ) :
    (logAction e c now id).entryHash = none := by
  cases c <;> rfl

def append (t : AuditTable) (e : Entry) (c : Caller) (now : DateTime) : AuditTable :=
  t.insert (logAction e c now) (logAction_id e c now)

/-! ## Sealing -/

/-- the last sealed row -/
def headRow (t : AuditTable) : Option AuditLog := t.rows.reverse.find? (·.isSealed)

/-- (id, entry_hash) of the last sealed row, or (None, GENESIS) -/
def head (t : AuditTable) : Option ℤ × String :=
  match headRow t with
  | some r => (some r.id, r.entryHash.getD genesis)
  | none => (none, genesis)

/-- `row.prev_hash = prev; row.entry_hash = h` -/
def AuditLog.sealWith (r : AuditLog) (prev h : String) : AuditLog :=
  { r with prevHash := some prev, entryHash := some h }

@[simp] theorem AuditLog.sealWith_id (r : AuditLog) (prev h : String) : (r.sealWith prev h).id = r.id := rfl

@[simp] theorem AuditLog.sealWith_prevHash (r : AuditLog) (prev h : String) :
    (r.sealWith prev h).prevHash = some prev := rfl

@[simp] theorem AuditLog.sealWith_entryHash (r : AuditLog) (prev h : String) :
    (r.sealWith prev h).entryHash = some h := rfl

/-- the hash columns are not part of what is hashed -/
@[simp] theorem canonical_sealWith (r : AuditLog) (prev h : String) : canonical (r.sealWith prev h) = canonical r := rfl

/-- the loop of `seal` over the pending rows: the rows it seals, and why it stopped -/
def sealLoop (H : Sha256) (cutoff : DateTime) :
    List AuditLog → Option ℤ → String → Except PyError (List AuditLog × Option String)
  | [], _, _ => .ok ([], none)
  | row :: rest, expectedId, prev =>
    -- an uncommitted insert holds the id in between
    if expectedId.any (· ≠ row.id) then .ok ([], some ("gap before #" ++ toString row.id))
    else if row.timestamp.any (cutoff < ·) then .ok ([], some ("#" ++ toString row.id ++ " younger than the grace period"))
    else do
      let h ← computeHash H row (some prev)
      let (done, stopped) ← sealLoop H cutoff rest (some (row.id + 1)) h
      pure (row.sealWith prev h :: done, stopped)

/-- unsealed rows after the head, in id order -/
def pending (t : AuditTable) : List AuditLog :=
  t.rows.filter fun r => !r.isSealed && decide ((head t).1.getD 0 < r.id)

/-- write the sealed rows back -/
def writeBack (t : AuditTable) (done : List AuditLog) : AuditTable :=
  t.mapRows (fun r => (done.find? (·.id == r.id)).getD r) (by
    intro r
    cases h : done.find? (·.id == r.id) with
    | none => rfl
    | some d => simpa using List.find?_some h)

structure SealSummary where
  sealed : ℕ
  headId : Option ℤ
  headHash : Option String
  unsealed : ℕ
  stopped : Option String
deriving DecidableEq, Repr

/-- `seal`; an exception leaves the table as it was -/
def sealRows (H : Sha256) (t : AuditTable) (now : DateTime) (graceSeconds : ℤ) :
    Except PyError (AuditTable × SealSummary) := do
  let cutoff := now - graceSeconds * second
  let (headId, prev) := head t
  let (done, stopped) ← sealLoop H cutoff (pending t) (headId.map (· + 1)) prev
  let t' := writeBack t done
  let headId' := (done.getLast?.map (·.id)).or headId
  let prev' := (done.getLast?.bind (·.entryHash)).getD prev
  pure (t', ⟨done.length, headId', if headId'.getD 0 = 0 then none else some prev',
    (t'.rows.filter (!·.isSealed)).length, stopped⟩)

/-! ## Anchor -/

def emptyToNone (s : String) : Option String := if s = "" then none else some s

/-- the row `anchor` appends: the head and the number of sealed rows -/
def anchorEntry (t : AuditTable) : Entry :=
  let (headId, headHash) := head t
  ⟨"audit_anchor", some "audit_log", headId, some [("head_id", Json.ofNum headId),
    ("head_hash", Json.ofStr (emptyToNone headHash)), ("sealed_rows", .num (t.rows.countP (·.isSealed)))]⟩

/-! ## Retention -/

/-- the rows up to the first gap in the ids -/
def contiguousFrom : ℤ → List AuditLog → List AuditLog
  | _, [] => []
  | expected, r :: rest => if r.id = expected then r :: contiguousFrom (r.id + 1) rest else []

/-- sealed rows older than the window, cut at the first gap; none unless they start at the first row of the table -/
def prunable (t : AuditTable) (cutoff : DateTime) : List AuditLog :=
  let rows := t.rows.filter fun r => r.isSealed && r.timestamp.any (· < cutoff)
  match rows, t.rows with
  | r :: _, first :: _ => if r.id = first.id then contiguousFrom first.id rows else []
  | _, _ => []

/-- the checkpoint row of a prune: the last pruned id and hash -/
def checkpointEntry (first last : AuditLog) (rows : List AuditLog) (now : DateTime) (days : ℤ) : Entry :=
  ⟨"audit_checkpoint", some "audit_log", some last.id, some [("pruned_from_id", .num first.id),
    ("pruned_through_id", .num last.id), ("pruned_through_hash", Json.ofStr last.entryHash),
    ("rows", .num rows.length),
    ("file", .str ("audit-" ++ toString first.id ++ "-" ++ toString last.id ++ "-" ++ compactStamp now ++ ".jsonl")),
    ("retention_days", .num days)]⟩

/-- `prune`: the archived rows and the table it leaves -/
def prune (t : AuditTable) (now later : DateTime) (days : ℤ) (dryRun : Bool) (actor : String) :
    List AuditLog × AuditTable :=
  if days ≤ 0 then ([], t)
  else
    let rows := prunable t (now - days * day)
    match rows.head?, rows.getLast? with
    | some first, some last =>
      if dryRun then ([], t)
      else
        let kept := t.filter fun r => !(rows.map (·.id)).contains r.id
        (rows, append kept (checkpointEntry first last rows now days) (.actor actor) later)
    | _, _ => ([], t)

/-! ## Verification -/

/-- the report of `verify` -/
structure Report where
  ok : Bool
  checked : ℕ
  firstBadId : Option ℤ
  reason : Option String
  start : Option String
  headId : Option ℤ
  headHash : Option String
  unsealed : ℕ
deriving DecidableEq, Repr

def Report.initial : Report := ⟨true, 0, none, none, none, none, none, 0⟩

def Report.fail (r : Report) (row : AuditLog) (reason : String) : Report :=
  { r with ok := false, firstBadId := some row.id, reason := some reason }

def checkpoints (t : AuditTable) : List AuditLog := t.rows.reverse.filter (·.action == "audit_checkpoint")

/-- the loop of `_checkpoint_for`: the newest checkpoint whose `pruned_through_id` is `before` -/
def checkpointLoop (loads : Json.Loads) (before : ℤ) :
    List AuditLog → Except PyError (Option (AuditLog × List (String × Json)))
  | [] => .ok none
  | cp :: rest =>
    match loads (orElse cp.details "\x7b\x7d") with
    | .error e => if e.isValueError then checkpointLoop loads before rest else .error e
    | .ok (.obj items) =>
      if (Json.get items "pruned_through_id").eqInt before then .ok (some (cp, items))
      else checkpointLoop loads before rest
    | .ok _ => .error .attributeError

def checkpointFor (loads : Json.Loads) (t : AuditTable) (firstRow : AuditLog) :
    Except PyError (Option (AuditLog × List (String × Json))) :=
  checkpointLoop loads (firstRow.id - 1) (checkpoints t)

/-- the loop of `verify` over the rows in id order, from the hash and the id it expects next -/
def verifyLoop (H : Sha256) (all : List AuditLog) :
    List AuditLog → String → ℤ → Report → Except PyError Report
  | [], _, _, report => .ok report
  | row :: rest, prev, expectedId, report =>
    match row.entryHash with
    | none =>
      let report := { report with unsealed := report.unsealed + 1 }
      if all.any fun r => decide (row.id < r.id) && r.isSealed then
        .ok (report.fail row "unsealed row inside the sealed range")
      else verifyLoop H all rest prev expectedId report
    | some h =>
      if row.id ≠ expectedId then
        .ok (report.fail row ("rows #" ++ toString expectedId ++ "–#" ++ toString (row.id - 1) ++ " are missing"))
      else if orElse row.prevHash genesis ≠ prev then
        .ok (report.fail row "prev_hash does not match the previous row")
      else
        match computeHash H row (some prev) with
        | .error e => .error e
        | .ok computed =>
          if computed ≠ h then .ok (report.fail row "entry_hash does not match the row's contents")
          else
            verifyLoop H all rest h (row.id + 1)
              { report with checked := report.checked + 1, headId := some row.id, headHash := some h }

/-- where the walk starts: the hash it takes as given, with the report so far, or a report that ends it -/
def verifyStart (loads : Json.Loads) (t : AuditTable) (fromId : Option ℤ) (first : AuditLog) :
    Except PyError (String × Report ⊕ Report) :=
  if fromId.getD 0 ≠ 0 then
    .ok (.inl (orElse first.prevHash genesis,
      { Report.initial with start := some ("#" ++ toString first.id ++ " (prev_hash taken as given)") }))
  else if orElse first.prevHash genesis = genesis then
    .ok (.inl (genesis, { Report.initial with start := some "genesis" }))
  else do
    let unverifiable := { Report.initial.fail first
      "the first row links to a predecessor that is gone and no checkpoint vouches for it" with
      start := some "unverifiable" }
    match ← checkpointFor loads t first with
    | none => .ok (.inr unverifiable)
    | some (cp, items) =>
      let prev := orElse first.prevHash genesis
      if (Json.get items "pruned_through_hash").eqStr prev then
        .ok (.inl (prev, { Report.initial with start := some ("checkpoint #" ++ toString cp.id ++
          " (pruned through #" ++ (Json.get items "pruned_through_id").pyStr ++ ")") }))
      else .ok (.inr unverifiable)

/-- `verify` -/
def verify (H : Sha256) (loads : Json.Loads) (t : AuditTable) (fromId : Option ℤ) : Except PyError Report :=
  let rows := if fromId.getD 0 ≠ 0 then t.rows.filter (fun r => decide (fromId.getD 0 ≤ r.id)) else t.rows
  match rows with
  | [] => .ok { Report.initial with start := some "empty" }
  | first :: _ =>
    if first.entryHash.isNone then
      .ok { Report.initial with unsealed := rows.countP (·.entryHash.isNone), start := some "unsealed" }
    else do
      match ← verifyStart loads t fromId first with
      | .inr report => .ok report
      | .inl (prev, report) => verifyLoop H rows rows prev first.id report

end Chancery.AuditChain
