/-
Creating and revoking API tokens (app/services/api_token_service.py, `api_tokens` and `revoke_api_token` of
app/routes/users.py, `flask api-token` of app/cli.py).

`Services/ApiTokens` has the rows as the hook reads them. Here the names stand beside them: a name is unique among the
tokens of its owner. `int` on text and `str.lower` are parameters. Audit rows are left out.
-/
import Mathlib.Tactic
import Chancery.Services.ApiTokens
import Chancery.Services.MetricsTokens

namespace Chancery.Tokens

open Chancery.Core Chancery.Auth
open MetricsTokens (TokenDraw)

instance : Bearer.Credential ApiToken where
  key := ApiToken.id
  holder t := some t.userId
  tokenId := ApiToken.tokenId
  tokenHash := ApiToken.tokenHash
  expiresAt := ApiToken.expiresAt
  lastUsedAt := ApiToken.lastUsedAt
  revoked := ApiToken.revoked

structure TokenLib where
  int : Text → Option ℤ
  uni : Unicode
  hashSecret : Text → Text

/-! ## Scopes -/

def Scope.text : Scope → Text
  | .read => "read".toList
  | .issue => "issue".toList
  | .revoke => "revoke".toList
  | .admin => "admin".toList

/-- `SCOPES` -/
def SCOPES : List Scope := [.read, .issue, .revoke, .admin]

/-- the scopes as `sorted` puts them -/
def sortedScopes : List Scope := [.admin, .issue, .read, .revoke]

def joined (parts : List Text) : String := String.intercalate ", " (parts.map String.ofList)

/-- `normalise_scopes` -/
def normaliseScopes (uni : Unicode) (scopes : List Text) : Except PyError (List Scope) :=
  let given := (scopes.filter fun s => strip s ≠ []).map fun s => uni.lower (strip s)
  let unknown := (given.filter fun s => !(SCOPES.map Scope.text).contains s).dedup
  if unknown ≠ [] then
    .error (.valueError ("Unknown scope(s): " ++
      String.intercalate ", " ((unknown.map String.ofList).insertionSort (· ≤ ·)) ++ ". Valid scopes: " ++
      joined (SCOPES.map Scope.text) ++ "."))
  else if given = [] then .error (.valueError "At least one scope is required.")
  else .ok (sortedScopes.filter fun s => given.contains s.text)

/-! ## Rows with their names -/

/-- the rows of `api_tokens`, and the pairs of the unique index over owner and name -/
structure ApiStore where
  tokens : TokenTable
  names : List (ℤ × Text)

/-- `expires_in_days`: a number from the command line, text from a form -/
inductive Days
  | number (n : ℤ)
  | text (t : Text)

def Days.toInt (int : Text → Option ℤ) : Days → Option ℤ
  | .number n => some n
  | .text t => int t

structure TokenForm where
  name : Option Text
  scopes : List Text
  expiresInDays : Days

/-- `create`: the text that is shown once, the row, and the tables; a token id that is taken fails in the database -/
def createToken (lib : TokenLib) (maxDays : ℤ) (now : DateTime) (s : ApiStore) (user : User) (form : TokenForm)
    (draw : TokenDraw) : Except PyError (Text × ApiToken × ApiStore) :=
  let name := strip (form.name.getD [])
  if name = [] then .error (.valueError "A token name is required.")
  else if 100 < name.length then .error (.valueError "The token name must be 100 characters or fewer.")
  else
    match normaliseScopes lib.uni form.scopes, form.expiresInDays.toInt lib.int with
    | .error e, _ => .error e
    | .ok _, none => .error (.valueError "Expiry (days) must be a whole number.")
    | .ok scopes, some days =>
      if days < 1 ∨ maxDays < days then
        .error (.valueError ("Expiry must be between 1 and " ++ toString maxDays ++ " days."))
      else if !user.isActiveUser then .error (.valueError "Cannot create a token for a deactivated account.")
      else if s.names.contains (user.id, name) then
        .error (.valueError ("'" ++ String.ofList user.username ++ "' already has a token named '" ++ String.ofList name ++
          "'."))
      else if s.tokens.rows.any (·.tokenId == draw.tokenId) then .error (.other "IntegrityError")
      else
        let row := fun id => (⟨id, user.id, draw.tokenId, lib.hashSecret draw.secret, scopes, now + days * day, none,
          false⟩ : ApiToken)
        .ok (Bearer.present tokenPrefix draw.tokenId draw.secret, row s.tokens.nextKey,
          ⟨s.tokens.insert row fun _ => rfl, s.names ++ [(user.id, name)]⟩)

def ApiToken.withdrawn (t : ApiToken) : ApiToken := { t with revoked := true }

theorem ApiToken.withdrawn_id (t : ApiToken) : t.withdrawn.id = t.id := rfl

/-- `revoke` -/
def revokeToken (s : ApiStore) (row : ApiToken) : ApiStore :=
  if row.revoked then s else ⟨s.tokens.update row.id ApiToken.withdrawn ApiToken.withdrawn_id, s.names⟩

/-- `get`: by the public id, else by the primary key -/
def getToken (int : Text → Option ℤ) (t : TokenTable) (arg : Text) : Option ApiToken :=
  (t.rows.find? (·.tokenId == arg)).or ((int arg).bind t.get?)

/-- `revoke_api_token`: one's own tokens, and every token for an admin -/
def revokeRequest (s : ApiStore) (caller : User) (id : ℤ) : Option ApiToken × ApiStore :=
  match s.tokens.get? id with
  | none => (none, s)
  | some row => if row.userId ≠ caller.id ∧ caller.role ≠ .admin then (none, s) else (some row, revokeToken s row)

end Chancery.Tokens
