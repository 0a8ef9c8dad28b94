/-
ACME accounts (the account part of app/services/acme/service.py, with app/models/acme.py).

Accounts of every CA live in one table; `newAccount` looks the key up by its thumbprint within the CA, `changeKey` rolls
an account onto another key, `updateAccount` changes contacts or deactivates. External account binding keys are looked
up by `kid` and used once. A failed call raises before it has changed anything, so it is an error without a state.

The `jwk_json` and `contact_json` columns hold the parsed values. The audit rows these calls add are left out.
-/
import Mathlib.Tactic
import Chancery.Core.Table
import Chancery.Services.Acme.Jws

namespace Chancery.Acme

open Chancery.Core

/-! ## Rows -/

inductive AccountStatus
  | valid
  | deactivated
  | revoked
deriving DecidableEq, Repr

def AccountStatus.text : AccountStatus → String
  | valid => "valid"
  | deactivated => "deactivated"
  | revoked => "revoked"

/-- a row of `acme_accounts` -/
structure AcmeAccount where
  id : ℤ
  caId : ℤ
  jwk : Fields
  thumbprint : Text
  status : AccountStatus
  contact : Option (List String)
  eabKeyId : Option ℤ
  createdAt : DateTime
  lastSeenAt : Option DateTime

/-- a row of `acme_eab_keys` -/
structure AcmeEabKey where
  id : ℤ
  caId : ℤ
  kid : String
  hmacKeyEnc : List UInt8
  usedAt : Option DateTime
  revoked : Bool

abbrev AccountTable := Table AcmeAccount.id

abbrev EabTable := Table AcmeEabKey.id

/-- the settings of a CA's ACME directory -/
structure Directory where
  caId : ℤ
  requireEab : Bool

def accountUrl (E : Env) (caId accountId : ℤ) : String :=
  E.base ++ "/acme/" ++ toString caId ++ "/account/" ++ toString accountId

def newAccountUrl (E : Env) (caId : ℤ) : String := E.base ++ "/acme/" ++ toString caId ++ "/new-account"

def notValid (status : AccountStatus) : Exc := problem "unauthorized" ("Account is " ++ status.text ++ ".")

/-- `account_for_kid` for the account id in the `kid` URL: a live account of this CA -/
def accountForKid (accounts : AccountTable) (caId accountId : ℤ) : Result AcmeAccount :=
  match accounts.get? accountId with
  | none => .error (problem "accountDoesNotExist" "Unknown account URL.")
  | some a =>
    if a.caId ≠ caId then .error (problem "accountDoesNotExist" "Unknown account URL.")
    else if a.status ≠ .valid then .error (notValid a.status)
    else .ok a

/-- `AcmeAccount.query.filter_by(ca_id=.., thumbprint=..).first()` -/
def byThumbprint (accounts : AccountTable) (caId : ℤ) (tp : Text) : Option AcmeAccount :=
  accounts.rows.find? fun a => a.caId == caId && a.thumbprint == tp

/-! ## Contacts -/

def stringsOf : List Json → Option (List String)
  | [] => some []
  | .str s :: rest => (stringsOf rest).map (s :: ·)
  | _ => none

def goodContact (c : String) : Bool :=
  c.startsWith "mailto:" && c.toList.contains '@' && c.length ≤ 254

/-- `_validate_contacts` -/
def validateContacts (E : Env) : Json → Result (List String)
  | .null => .ok []
  | .arr items =>
    match stringsOf items with
    | none => .error (problem "malformed" "'contact' must be a list of URLs.")
    | some cs =>
      match cs.find? (!goodContact ·) with
      | some c => .error (problem "unsupportedContact"
          ("Unsupported contact " ++ E.repr (.str c) ++ ": only mailto: URLs are accepted."))
      | none => .ok cs
  | _ => .error (problem "malformed" "'contact' must be a list of URLs.")

/-- `contact if contact else None` -/
def storedContact (contact : List String) : Option (List String) := if contact = [] then none else some contact

/-! ## newAccount -/

/-- the `kid` an external account binding names -/
def eabKid (E : Env) (eab : Json) : Result String :=
  let malformed := problem "malformed" "externalAccountBinding is malformed."
  let body : Result Json := do
    let fields ← match eab with
      | .obj fields => (.ok fields : Result Fields)
      | _ => .error (.py (.typeError "object is not subscriptable"))
    let header ← decodeJson E (← member fields "protected")
    .ok (Json.get (← asDict header) "kid")
  match body with
  | .error (.py .attributeError) => .error (.py .attributeError)
  | .error (.py (.other name)) => .error (.py (.other name))
  | .error _ => .error malformed
  | .ok (.str kid) => if kid = "" then .error (problem "malformed" "externalAccountBinding has no 'kid'.") else .ok kid
  | .ok _ => .error (problem "malformed" "externalAccountBinding has no 'kid'.")

/-- the EAB key a newAccount request uses, if it names one -/
def useEab (E : Env) (d : Directory) (eabKeys : EabTable) (payload : Fields) (jwk : Fields) :
    Result (Option AcmeEabKey) :=
  match Json.get payload "externalAccountBinding" with
  | .null =>
    if d.requireEab then .error (problem "externalAccountRequired"
      "This CA requires an external account binding: ask an administrator for an EAB key id and MAC key.")
    else .ok none
  | eab => do
    let kid ← eabKid E eab
    match eabKeys.rows.find? (·.kid == kid) with
    | none => .error (problem "unauthorized" "Unknown or revoked external account binding key.")
    | some row =>
      if row.caId ≠ d.caId || row.revoked then
        .error (problem "unauthorized" "Unknown or revoked external account binding key.")
      else if row.usedAt.isSome then
        .error (problem "unauthorized" "This external account binding key has already been used.")
      else do
        let stored ← lift (E.decryptSecret row.hmacKeyEnc)
        let macKey ← decodeText stored.toList
        let _ ← verifyEab E eab macKey (newAccountUrl E d.caId) jwk
        .ok (some row)

/-- accounts and EAB keys: what the account requests read and write -/
structure Accounts where
  accounts : AccountTable
  eabKeys : EabTable

/-- Python's truth of a JSON value -/
def truthy : Json → Bool
  | .null => false
  | .bool b => b
  | .num n => n ≠ 0
  | .float q _ => q ≠ some 0
  | .str s => s ≠ ""
  | .arr items => !items.isEmpty
  | .obj items => !items.isEmpty

/-- a live account is seen -/
def AcmeAccount.touch (now : DateTime) (a : AcmeAccount) : AcmeAccount := { a with lastSeenAt := some now }

theorem AcmeAccount.touch_id {now : DateTime} (a : AcmeAccount) : (a.touch now).id = a.id := rfl

def AcmeAccount.deactivate (a : AcmeAccount) : AcmeAccount := { a with status := .deactivated }

/-- a contact update, which also sees the account -/
def AcmeAccount.setContact (contact : List String) (now : DateTime) (a : AcmeAccount) : AcmeAccount :=
  { a with contact := storedContact contact, lastSeenAt := some now }

def AcmeAccount.rollKey (jwk : Fields) (tp : Text) (a : AcmeAccount) : AcmeAccount :=
  { a with jwk := jwk, thumbprint := tp }

theorem AcmeAccount.rollKey_id {jwk : Fields} {tp : Text} (a : AcmeAccount) : (a.rollKey jwk tp).id = a.id := rfl

/-- `new_account`: the account and whether it was created -/
def newAccount (E : Env) (d : Directory) (s : Accounts) (v : Verified E) (now : DateTime) :
    Result (Accounts × ℤ × Bool) := do
  let payload := v.payload.getD []
  let tp ← thumbprint E v.jwk
  match byThumbprint s.accounts d.caId tp with
  | some existing =>
    if existing.status ≠ .valid then .error (notValid existing.status)
    else .ok ({ s with accounts := s.accounts.update existing.id (AcmeAccount.touch now) AcmeAccount.touch_id },
      existing.id, false)
  | none =>
    if truthy (Json.get payload "onlyReturnExisting") then
      .error (problem "accountDoesNotExist" "No account is registered for this key.")
    else do
      let contact ← validateContacts E (Json.get payload "contact")
      let eabRow ← useEab E d s.eabKeys payload v.jwk
      let accounts := s.accounts.insert fun id =>
        ⟨id, d.caId, v.jwk, tp, .valid, storedContact contact, eabRow.map (·.id), now, some now⟩
      let eabKeys := match eabRow with
        | none => s.eabKeys
        | some row => s.eabKeys.update row.id fun r => { r with usedAt := some now }
      .ok (⟨accounts, eabKeys⟩, s.accounts.nextKey, true)

/-! ## updateAccount and keyChange -/

/-- `update_account` on the account row; the orders a deactivation invalidates are in the order service -/
def updateAccount (E : Env) (s : Accounts) (account : AcmeAccount) (payload : Fields) (now : DateTime) : Result Accounts :=
  if (Json.get payload "status").eqStr "deactivated" then
    .ok { s with accounts := s.accounts.update account.id AcmeAccount.deactivate }
  else
    match payload.lookup "contact" with
    | none => .ok { s with accounts := s.accounts.update account.id (AcmeAccount.touch now) AcmeAccount.touch_id }
    | some c => do
      let contact ← validateContacts E c
      .ok { s with accounts := s.accounts.update account.id (AcmeAccount.setContact contact now) }

/-- `change_key`: `inner` is the verified inner JWS, signed by the new key -/
def changeKey (E : Env) (caId : ℤ) (s : Accounts) (account : AcmeAccount) (inner : Verified E) : Result Accounts := do
  match inner.payload with
  | none => .error (problem "malformed" "Inner JWS 'account' does not name this account.")
  | some payload =>
    if payload.isEmpty || !(Json.get payload "account").eqStr (accountUrl E caId account.id) then
      .error (problem "malformed" "Inner JWS 'account' does not name this account.")
    else if !(Json.get payload "oldKey").pyEq (.obj account.jwk) then
      .error (problem "malformed" "Inner JWS 'oldKey' does not match the account's current key.")
    else do
      let newTp ← thumbprint E inner.jwk
      match byThumbprint s.accounts caId newTp with
      | some clash =>
        if clash.id ≠ account.id then
          .error (.problem ⟨"malformed", "The new key already belongs to another account.", 409⟩)
        else .ok { s with
          accounts := s.accounts.update account.id (AcmeAccount.rollKey inner.jwk newTp) AcmeAccount.rollKey_id }
      | none => .ok { s with
          accounts := s.accounts.update account.id (AcmeAccount.rollKey inner.jwk newTp) AcmeAccount.rollKey_id }

end Chancery.Acme
