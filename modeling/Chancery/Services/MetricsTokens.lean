/-
Metrics tokens (app/models/metrics_token.py, app/services/metrics_token_service.py, the `flask metrics-token` commands of
app/cli.py and the checks of app/routes/metrics.py).

A metrics token opens `/metrics` and nothing else. The digest of a secret and `int` on text are parameters; the draws of
`secrets.token_hex` come with each creation. The database compares a text column with a number by the number's text, as
SQLite does. Audit rows and the columns for display are left out.
-/
import Mathlib.Tactic
import Chancery.Core.Bearer
import Chancery.Core.Table

namespace Chancery.MetricsTokens

open Chancery.Core

/-- a row of `metrics_tokens` -/
structure MetricsToken where
  id : ℤ
  name : Text
  tokenId : Text
  tokenHash : Text
  expiresAt : DateTime
  lastUsedAt : Option DateTime
  revoked : Bool
deriving DecidableEq

abbrev MetricsTable := Table MetricsToken.id

instance : Bearer.Credential MetricsToken where
  key := MetricsToken.id
  holder _ := none
  tokenId := MetricsToken.tokenId
  tokenHash := MetricsToken.tokenHash
  expiresAt := MetricsToken.expiresAt
  lastUsedAt := MetricsToken.lastUsedAt
  revoked := MetricsToken.revoked

/-- `TOKEN_PREFIX` -/
def tokenPrefix : Text := "cmt_".toList

/-- `secrets.token_hex(8)` and `secrets.token_hex(32)` -/
structure TokenDraw where
  tokenId : Text
  secret : Text
  hex : ∀ c ∈ tokenId ++ secret, (hexValue c).isSome = true
  lengths : tokenId.length = 16 ∧ secret.length = 64

/-! ## The service -/

/-- `create`: the text that is shown once, the row's id, and the table; a token id that is taken fails in the database -/
def create (hashSecret : Text → Text) (t : MetricsTable) (name : Option Text) (expiresAt : Option DateTime)
    (draw : TokenDraw) : Except PyError (Text × ℤ × MetricsTable) :=
  let name := strip (name.getD [])
  if name = [] then .error (.valueError "A token name is required.")
  else
    match expiresAt with
    | none => .error (.valueError "An expiry is required.")
    | some expiresAt =>
      if t.rows.any (·.name == name) then
        .error (.valueError ("A metrics token named '" ++ String.ofList name ++ "' already exists."))
      else if t.rows.any (·.tokenId == draw.tokenId) then .error (.other "IntegrityError")
      else
        .ok (Bearer.present tokenPrefix draw.tokenId draw.secret, t.nextKey,
          t.insert (fun id => ⟨id, name, draw.tokenId, hashSecret draw.secret, expiresAt, none, false⟩) fun _ => rfl)

/-- what `get` is called with -/
inductive NameOrId
  | text (t : Text)
  | number (n : ℤ)

/-- `get`: by name, else by id -/
def get (int : Text → Option ℤ) (t : MetricsTable) : NameOrId → Option MetricsToken
  | .text arg => (t.rows.find? (·.name == arg)).or ((int arg).bind t.get?)
  | .number n => (t.rows.find? (·.name == (toString n).toList)).or (t.get? n)

def MetricsToken.withdrawn (row : MetricsToken) : MetricsToken := { row with revoked := true }

theorem MetricsToken.withdrawn_id (row : MetricsToken) : row.withdrawn.id = row.id := rfl

/-- `revoke`: the row it found, and the table -/
def revoke (int : Text → Option ℤ) (t : MetricsTable) (arg : NameOrId) : Option MetricsToken × MetricsTable :=
  match get int t arg with
  | none => (none, t)
  | some row =>
    (some row, if row.revoked then t else t.update row.id MetricsToken.withdrawn MetricsToken.withdrawn_id)

/-- `verify` -/
def verify (hashSecret : Text → Text) (now : DateTime) (t : MetricsTable) (presented : Text) : Option MetricsToken :=
  (Bearer.split tokenPrefix presented).bind fun p =>
    ((t.rows.find? (·.tokenId == p.1)).filter fun row => !row.revoked && decide (now < row.expiresAt)).filter
      fun row => row.tokenHash == hashSecret p.2

/-- `_TOUCH_THROTTLE_SECONDS` -/
def touchThrottle : DateTime := 60 * second

/-- the column `touch` writes -/
def MetricsToken.touched (now : DateTime) (row : MetricsToken) : MetricsToken :=
  { row with lastUsedAt := Bearer.touched touchThrottle now row.lastUsedAt }

theorem MetricsToken.touched_id (now : DateTime) (row : MetricsToken) : (row.touched now).id = row.id := rfl

/-! ## The commands -/

/-- what a command prints -/
inductive Reply
  | failed (message : String)
  /-- `No metrics token matching …` -/
  | notMatching (arg : Text)
  | shown (id : ℤ) (plaintext : Text) (expiresAt : DateTime)
  | alreadyRevoked (name : Text)
  | revoked (id : ℤ) (name : Text)

/-- `flask metrics-token create` -/
def createCommand (hashSecret : Text → Text) (now : DateTime) (t : MetricsTable) (name : Text) (expiresInDays : ℤ)
    (draw : TokenDraw) : Reply × MetricsTable :=
  if expiresInDays ≤ 0 then (.failed "--expires-in-days must be a positive integer.", t)
  else
    match create hashSecret t (some name) (some (now + expiresInDays * day)) draw with
    | .error e => (.failed e.text, t)
    | .ok (plaintext, id, t') => (.shown id plaintext (now + expiresInDays * day), t')

/-- `flask metrics-token revoke`, confirmed: it looks the token up by the argument, and revokes by the id it has found -/
def revokeCommand (int : Text → Option ℤ) (t : MetricsTable) (arg : Text) : Reply × MetricsTable :=
  match get int t (.text arg) with
  | none => (.notMatching arg, t)
  | some row =>
    if row.revoked then (.alreadyRevoked row.name, t)
    else (.revoked row.id row.name, (revoke int t (.number row.id)).2)

/-! ## The endpoint -/

structure MetricsConfig where
  enabled : Bool
  allowUnauthenticated : Bool

/-- `_bearer` -/
def bearer (header : Text) : Text :=
  if "Bearer ".toList.isPrefixOf header then strip (header.drop "Bearer ".toList.length) else []

inductive Answer
  | notFound
  | unauthorized
  /-- the metrics, by the token that was used, if one was asked for -/
  | rendered (token : Option ℤ)

/-- `metrics`, up to the rendering -/
def scrape (cfg : MetricsConfig) (hashSecret : Text → Text) (now : DateTime) (t : MetricsTable) (header : Text) :
    Answer × MetricsTable :=
  if !cfg.enabled then (.notFound, t)
  else if cfg.allowUnauthenticated then (.rendered none, t)
  else
    match verify hashSecret now t (bearer header) with
    | none => (.unauthorized, t)
    | some row => (.rendered (some row.id), t.update row.id (MetricsToken.touched now) (MetricsToken.touched_id now))

end Chancery.MetricsTokens
