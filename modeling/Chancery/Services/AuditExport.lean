/-
What leaves the audit log: the archive file of a prune and the three exports (app/services/audit_chain.py,
app/models/audit_log.py, app/serialization.py).

The rows are those of the query, in its order; the parts a generator yields are one text. `json.loads` is a parameter.
-/
import Mathlib.Tactic
import Chancery.Core.Csv
import Chancery.Core.JsonSorted
import Chancery.Services.AuditChain

namespace Chancery.AuditChain

open Chancery.Core

/-! ## CSV -/

/-- `EXPORT_COLUMNS` -/
def exportColumns : List Text :=
  ["id", "timestamp", "username", "user_id", "action", "target_type", "target_id", "ip_address", "details", "prev_hash",
    "entry_hash"].map String.toList

/-- what the CSV writer makes of `None` and of text -/
def csvText (v : Option String) : Text := (v.getD "").toList

/-- what the CSV writer makes of `None` and of an integer -/
def csvNumber (v : Option ℤ) : Text := csvText (v.map toString)

def csvFields (r : AuditLog) : List Text :=
  [csvNumber (some r.id), csvText (r.timestamp.map isoformat), r.username.toList, csvNumber r.userId, r.action.toList,
    csvText r.targetType, csvNumber r.targetId, r.ipAddress.toList, (orElse r.details "").toList,
    (orElse r.prevHash "").toList, (orElse r.entryHash "").toList]

def iterCsv (rows : List AuditLog) : Text := Csv.writeRows (exportColumns :: rows.map csvFields)

/-! ## JSON -/

/-- `json_or_none` -/
def jsonOrNone (loads : Json.Loads) : Option String → Except PyError Json
  | none => .ok .null
  | some text =>
    if text = "" then .ok .null
    else
      match loads text with
      | .ok v => .ok v
      | .error (.typeError _) => .ok (.str text)
      | .error e => if e.isValueError then .ok (.str text) else .error e

/-- `to_dict`, with the details as they were parsed -/
def dictOf (r : AuditLog) (details : Json) : Json :=
  .obj [("id", .num r.id), ("timestamp", Json.ofStr (r.timestamp.map isoformat)), ("user_id", Json.ofNum r.userId),
    ("username", .str r.username), ("action", .str r.action), ("target_type", Json.ofStr r.targetType),
    ("target_id", Json.ofNum r.targetId), ("details", details), ("ip_address", .str r.ipAddress),
    ("prev_hash", Json.ofStr r.prevHash), ("entry_hash", Json.ofStr r.entryHash)]

def toDict (loads : Json.Loads) (r : AuditLog) : Except PyError Json := (jsonOrNone loads r.details).map (dictOf r)

/-- a line of the archive and of the JSON lines export -/
def jsonLine (loads : Json.Loads) (r : AuditLog) : Except PyError Text :=
  (toDict loads r).map fun d => Json.dumpsText .sorted d ++ ['\n']

/-- the file `prune` writes, and `iter_jsonl` -/
def iterJsonl (loads : Json.Loads) : List AuditLog → Except PyError Text
  | [] => .ok []
  | row :: rest => do
    let line ← jsonLine loads row
    let text ← iterJsonl loads rest
    pure (line ++ text)

/-- the loop of `iter_json` -/
def jsonItems (loads : Json.Loads) : Bool → List AuditLog → Except PyError Text
  | _, [] => .ok []
  | first, row :: rest => do
    let d ← toDict loads row
    let text ← jsonItems loads false rest
    pure ((if first then [] else [',', '\n']) ++ Json.dumpsText .sorted d ++ text)

def iterJson (loads : Json.Loads) (rows : List AuditLog) : Except PyError Text :=
  (jsonItems loads true rows).map fun text => '[' :: (text ++ [']', '\n'])

end Chancery.AuditChain
