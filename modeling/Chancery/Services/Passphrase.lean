/-
Rotation of the master passphrase (app/services/passphrase_service.py), `rotate` and the commit of `flask keys
rotate-passphrase`, access by access.

The gate opens one blob of each column under the current passphrase. The loop then rewrites the rows of one column after the
other inside a transaction: `pending` is what the session sees, `stored` what is committed. Any access can fail, and the
process can die at any point. Encryption is a parameter without assumptions: what `encrypt` draws (salt, initialisation
vector, time) comes with each step.
-/
import Mathlib.Tactic
import Chancery.Core.Py
import Chancery.Core.Run
import Chancery.Core.Table

namespace Chancery.Passphrase

open Chancery.Core

/-! ## Ciphertexts -/

abbrev Blob := List UInt8

/-- `crypto_utils`: the payload of a blob under a passphrase, and a new blob -/
structure Cipher where
  decrypt : Blob → Text → Except PyError (List UInt8)
  encrypt : (drawn : ℕ) → Text → List UInt8 → Except PyError Blob

/-- a column of `ENCRYPTED_COLUMNS` -/
inductive SecretColumn
  | caPrivateKey
  | caOcspResponderKey
  | certificatePrivateKey
  | ldapBindPassword
  | webhookSecret
  | userTotpSecret
  | acmeEabHmacKey
deriving DecidableEq, Repr

/-- `{table}.{column}` -/
def SecretColumn.label : SecretColumn → String
  | caPrivateKey => "certificate_authorities.private_key_enc"
  | caOcspResponderKey => "certificate_authorities.ocsp_responder_key_enc"
  | certificatePrivateKey => "certificates.private_key_enc"
  | ldapBindPassword => "ldap_settings.bind_password_enc"
  | webhookSecret => "webhook_settings.secret_enc"
  | userTotpSecret => "users.totp_secret_enc"
  | acmeEabHmacKey => "acme_eab_keys.hmac_key_enc"

/-- `registered` -/
def registered : List SecretColumn :=
  [.caPrivateKey, .caOcspResponderKey, .certificatePrivateKey, .ldapBindPassword, .webhookSecret, .userTotpSecret,
    .acmeEabHmacKey]

/-- the id of a row, and its ciphertext: none for NULL, empty for a key that is held elsewhere -/
structure SecretRow where
  id : ℤ
  blob : Option Blob
deriving DecidableEq

/-- the encrypted columns of the database -/
abbrev Vault := SecretColumn → Table SecretRow.id

def SecretRow.hasCiphertext (r : SecretRow) : Bool := r.blob.any (· != [])

/-- `_rows_with_ciphertext` -/
def rowsWithCiphertext (v : Vault) (c : SecretColumn) : List SecretRow := (v c).rows.filter (·.hasCiphertext)

def Vault.write (v : Vault) (c : SecretColumn) (id : ℤ) (blob : Blob) : Vault :=
  Function.update v c ((v c).update id fun r => { r with blob := some blob })

section Rotation

variable (E : Cipher) (current new : Text)

/-- `can_decrypt`; other errors go on -/
def canDecrypt (blob : Blob) (passphrase : Text) : Except PyError Bool :=
  match E.decrypt blob passphrase with
  | .ok _ => .ok true
  | .error (.other "InvalidToken") => .ok false
  | .error (.typeError _) => .ok false
  | .error e => if e.isValueError then .ok false else .error e

/-- `rewrap` -/
def rewrap (drawn : ℕ) (blob : Blob) : Except PyError Blob := do
  let payload ← E.decrypt blob current
  E.encrypt drawn new payload

/-- the new blob of a row, once it is known to hold the old payload -/
def rewrapVerified (drawn : ℕ) (c : SecretColumn) (r : SecretRow) : Except PyError Blob := do
  let old := r.blob.getD []
  let blob ← rewrap E current new drawn old
  let fresh ← E.decrypt blob new
  let payload ← E.decrypt old current
  if fresh ≠ payload then
    .error (.other ("Verification of the re-wrapped " ++ c.label ++ " row " ++ toString r.id ++ " failed."))
  else .ok blob

/-! ## Steps -/

/-- rows re-wrapped, by column -/
abbrev Stats := List (String × ℕ)

inductive RotatePhase
  | gate (todo : List SecretColumn)
  /-- before the query of the first column -/
  | columns (todo : List SecretColumn) (pending : Vault) (stats : Stats)
  | rows (c : SecretColumn) (left : List SecretRow) (count : ℕ) (todo : List SecretColumn) (pending : Vault) (stats : Stats)
  /-- flushed; the audit row is next -/
  | rotated (pending : Vault) (stats : Stats)
  | audited (pending : Vault) (stats : Stats)
  | raised (e : PyError)
  | died
  | done (stats : Stats)

/-- what is committed, the committed audit rows, and where the command stands -/
structure Rotation where
  stored : Vault
  audit : List Stats
  phase : RotatePhase

inductive RotateEvent
  /-- the next access, with what encryption draws -/
  | next (drawn : ℕ)
  /-- the access raises -/
  | fail (e : PyError)
  /-- the process dies -/
  | die

def RotatePhase.isFinal : RotatePhase → Bool
  | .raised _ => true
  | .died => true
  | .done _ => true
  | _ => false

/-- the error of `rotate`: a blob that cannot be decrypted is reported as such -/
def rotateError : PyError → PyError
  | .other "InvalidToken" =>
    .valueError "A ciphertext could not be decrypted with the current passphrase; nothing was changed."
  | e => e

/-- what the gate makes of a column -/
def gateColumn (v : Vault) (c : SecretColumn) : Except PyError Unit :=
  match rowsWithCiphertext v c with
  | [] => .ok ()
  | r :: _ => do
    if ← canDecrypt E (r.blob.getD []) current then .ok ()
    else .error (.valueError ("The current passphrase does not decrypt " ++ c.label ++
      " — refusing to rotate (is MASTER_PASSPHRASE the one the database was written with?)."))

/-- one access; an exception rolls the session back -/
def rotateStep (s : Rotation) (e : RotateEvent) : Rotation :=
  if s.phase.isFinal then s
  else
    match e with
    | .fail err => { s with phase := .raised (rotateError err) }
    | .die => { s with phase := .died }
    | .next drawn =>
      match s.phase with
      | .gate [] => { s with phase := .columns registered s.stored [] }
      | .gate (c :: todo) =>
        match gateColumn E current s.stored c with
        | .error err => { s with phase := .raised err }
        | .ok () => { s with phase := .gate todo }
      | .columns [] pending stats => { s with phase := .rotated pending stats }
      | .columns (c :: todo) pending stats =>
          { s with phase := .rows c (rowsWithCiphertext pending c) 0 todo pending stats }
      | .rows c [] count todo pending stats => { s with phase := .columns todo pending (stats ++ [(c.label, count)]) }
      | .rows c (r :: left) count todo pending stats =>
        match rewrapVerified E current new drawn c r with
        | .error err => { s with phase := .raised (rotateError err) }
        | .ok blob => { s with phase := .rows c left (count + 1) todo (pending.write c r.id blob) stats }
      | .rotated pending stats => { s with phase := .audited pending stats }
      | .audited pending stats => ⟨pending, s.audit ++ [stats], .done stats⟩
      | _ => s

/-- `rotate` is called -/
def Rotation.start (v : Vault) (audit : List Stats) : Rotation := ⟨v, audit, .gate registered⟩

end Rotation

end Chancery.Passphrase
