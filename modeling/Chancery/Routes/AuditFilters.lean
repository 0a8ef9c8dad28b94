/-
The filters of the audit log page and of its export (app/routes/users.py: `_audit_filters`).

A filter is a criterion on rows of `audit_logs`; a request selects the rows that meet all of its criteria. `int` and
`isdigit` on text are parameters, and so is the table of decimal digits `strptime` reads with (`FilterLib`). The patterns of
`user`, `q` and of an action that ends in `*` have no escape character: the argument goes into the pattern as it is.
-/
import Mathlib.Tactic
import Chancery.Core.Calendar
import Chancery.Services.AuditChain
import Chancery.Services.Listing

namespace Chancery.AuditFilters

open Chancery.Core
open Chancery.AuditChain (AuditLog)
open Chancery.Listing (Letters like)

structure FilterLib where
  /-- the value of a decimal digit -/
  decimal : Char → Option ℕ
  /-- `str.isdigit` of one character -/
  isDigit : Char → Bool
  /-- `int(text)`, or the text of its ValueError -/
  parseInt : Text → Except String ℤ

/-- the query string of a request -/
structure AuditArgs where
  fromDay : Option Text
  toDay : Option Text
  action : Option Text
  user : Option Text
  targetType : Option Text
  targetId : Option Text
  q : Option Text
deriving DecidableEq

/-! ## Criteria -/

inductive AuditCriterion
  | since (start : DateTime)
  | before (stop : DateTime)
  | action (text : Text)
  | actionPrefix (text : Text)
  | user (text : Text)
  | targetType (text : Text)
  | targetId (n : ℤ)
  | details (text : Text)
deriving DecidableEq

/-- the criterion as the database evaluates it; `like` is for LIKE, `ilike` for ILIKE -/
def AuditCriterion.selects (likeLetters ilikeLetters : Letters) (r : AuditLog) : AuditCriterion → Bool
  | .since start => r.timestamp.any (start ≤ ·)
  | .before stop => r.timestamp.any (· < stop)
  | .action text => r.action.toList = text
  | .actionPrefix text => like likeLetters none (text ++ ['%']) r.action.toList
  | .user text => like ilikeLetters none (['%'] ++ text ++ ['%']) r.username.toList
  | .targetType text => r.targetType.any (·.toList = text)
  | .targetId n => r.targetId = some n
  | .details text => r.details.any fun v => like ilikeLetters none (['%'] ++ text ++ ['%']) v.toList

/-! ## `_audit_filters` -/

/-- `(args.get(key) or "").strip()` -/
def argText (arg : Option Text) : Text := strip (arg.getD [])

/-- `_day` -/
def dayArg (lib : FilterLib) (key : String) (arg : Option Text) : Except PyError (Option DateTime) :=
  if argText arg = [] then .ok none
  else
    match strptimeDate lib.decimal (argText arg) with
    | some value => .ok (some value)
    | none => .error (.valueError ("'" ++ key ++ "' must be a date like 2026-09-17."))

/-- `AuditLog.timestamp < end + timedelta(days=1)` -/
def beforeCriteria (stop : Option DateTime) : Except PyError (List AuditCriterion) :=
  match stop with
  | none => .ok []
  | some t => (addDays t 1).map fun next => [.before next]

def actionCriteria (action : Text) : List AuditCriterion :=
  if action = [] then []
  else if action.getLast? = some '*' then [.actionPrefix action.dropLast]
  else [.action action]

/-- the criterion of an argument that is not empty -/
def textCriteria (criterion : Text → AuditCriterion) (text : Text) : List AuditCriterion :=
  if text = [] then [] else [criterion text]

def targetIdCriteria (lib : FilterLib) (text : Text) : Except PyError (List AuditCriterion) :=
  if text = [] then .ok []
  else if !text.all lib.isDigit then .error (.valueError "'target_id' must be a number.")
  else
    match lib.parseInt text with
    | .ok n => .ok [.targetId n]
    | .error message => .error (.valueError message)

/-- the arguments that are applied, as the answer shows them -/
def appliedFilters (args : AuditArgs) : List (String × Text) :=
  [("from", argText args.fromDay), ("to", argText args.toDay), ("action", argText args.action), ("user", argText args.user),
    ("target_type", argText args.targetType), ("target_id", argText args.targetId), ("q", argText args.q)].filter (·.2 ≠ [])

/-- `_audit_filters` -/
def auditFilters (lib : FilterLib) (args : AuditArgs) : Except PyError (List AuditCriterion × List (String × Text)) := do
  let start ← dayArg lib "from" args.fromDay
  let stop ← dayArg lib "to" args.toDay
  let before ← beforeCriteria stop
  let targetId ← targetIdCriteria lib (argText args.targetId)
  let criteria := start.toList.map .since ++ before ++ actionCriteria (argText args.action) ++
    textCriteria .user (argText args.user) ++ textCriteria .targetType (argText args.targetType) ++ targetId ++
    textCriteria .details (argText args.q)
  pure (criteria, appliedFilters args)

/-- the rows of the page and of the export -/
def auditRows (likeLetters ilikeLetters : Letters) (criteria : List AuditCriterion) (rows : List AuditLog) :
    List AuditLog :=
  rows.filter fun r => criteria.all (·.selects likeLetters ilikeLetters r)

end Chancery.AuditFilters
