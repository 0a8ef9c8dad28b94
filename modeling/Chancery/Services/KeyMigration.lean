/-
Migration of CA keys into the PKCS#11 token (app/cli.py, `flask keys migrate-to-hsm`, with `import_ca_key`, `destroy_key`
and `verify_signing_key` of app/services/keybackend/softhsm.py), access by access.

The database and the token have no common transaction: an object created in the token is there at once, a change of a CA row
with the next commit. Any access can fail or be the last one of the process, and an import or a clean-up that does not
end may leave a part of its work in the token. One label is drawn for each CA; the next CA is only reached when the last
one is migrated, so the count of migrated CAs numbers the labels.
-/
import Mathlib.Tactic
import Chancery.Core.Py
import Chancery.Core.Run
import Chancery.Core.Table

namespace Chancery.KeyMigration

open Chancery.Core

/-! ## CAs, keys and the token -/

abbrev Blob := List UInt8

inductive KeyBackend
  | software
  | softhsm
deriving DecidableEq, Repr

/-- the columns of a CA row that the command reads or writes -/
structure CaKeyRow where
  id : ℤ
  name : String
  keyType : String
  keySize : ℤ
  certificatePem : String
  keyBackend : KeyBackend
  keyLabel : Option String
  privateKeyEnc : Blob
deriving DecidableEq, Repr

/-- a private object of the token -/
structure TokenObject (Key : Type) where
  label : String
  key : Key
deriving DecidableEq

abbrev Token (Key : Type) := List (TokenObject Key)

/-- the keys under a label -/
def Token.labelled {Key : Type} (t : Token Key) (label : String) : List Key :=
  (t.filter (·.label = label)).map (·.key)

/-- the loop of `destroy_key`, stopped after `n` objects -/
def Token.destroyFirst {Key : Type} (label : String) : ℕ → Token Key → Token Key
  | 0, t => t
  | _, [] => []
  | n + 1, o :: t =>
    if o.label = label then Token.destroyFirst label n t else o :: Token.destroyFirst label (n + 1) t

/-- `destroy_key` -/
def Token.destroyKey {Key : Type} (t : Token Key) (label : String) : Token Key × ℕ :=
  (t.destroyFirst label t.length, (t.labelled label).length)

/-- decryption under MASTER_PASSPHRASE, certificates, and what keys do inside and outside the token; `drawn` is the
randomness of a signature -/
structure KeyTools (Key PublicKey : Type) where
  decryptPrivateKey : Blob → Except PyError Key
  /-- RSA, EC and Edwards keys -/
  importable : Key → Bool
  loadPublicKey : String → Except PyError PublicKey
  sign : Key → (keyType : String) → (hash : Option String) → (drawn : ℕ) → Blob → Except PyError Blob
  verify : PublicKey → (keyType : String) → (hash : Option String) → (signature nonce : Blob) → Except PyError Unit

/-- SIGNATURE_HASH_POLICY and RSA_SIGNATURE_HASH -/
structure HashConfig where
  policy : String
  rsaHash : String

/-- `signature_hash_name` -/
def signatureHashName (cfg : HashConfig) (keyType : String) (keySize : ℤ) : Option String :=
  if keyType ∈ ["ED25519", "ED448"] then none
  else if cfg.policy ≠ "match-curve" then some "sha256"
  else if keyType = "RSA" then some (if cfg.rsaHash ∈ ["sha256", "sha384", "sha512"] then cfg.rsaHash else "sha256")
  else if keySize = 384 then some "sha384"
  else if keySize = 521 then some "sha512"
  else some "sha256"

/-- `_ca_key_info`, without the curve -/
def caKeyInfo (ca : CaKeyRow) : Except PyError String :=
  if ca.keyType = "RSA" then .ok "RSA"
  else if ca.keyType ∈ ["ED25519", "ED448"] then .ok ca.keyType
  else if ca.keyType = "EC" then
    if ca.keySize ∈ [256, 384, 521] then .ok "EC"
    else .error (.valueError ("EC key on an unsupported curve (size " ++ toString ca.keySize ++
      "); the HSM backend supports P-256, P-384, and P-521 only."))
  else .error (.valueError "Unsupported CA key type for the HSM backend.")

section Migration

variable {Key PublicKey : Type} (K : KeyTools Key PublicKey) (cfg : HashConfig) (label : ℕ → String)

/-- `session.get_key`: a label of none is not searched for -/
def getKey (t : Token Key) (keyLabel : Option String) : Except PyError Key :=
  match (match keyLabel with | some l => t.labelled l | none => t.map (·.key)) with
  | [key] => .ok key
  | [] => .error (.other "NoSuchKey")
  | _ => .error (.other "MultipleObjectsReturned")

/-- `_hsm_sign` -/
def hsmSign (t : Token Key) (ca : CaKeyRow) (drawn : ℕ) (tbs : Blob) : Except PyError Blob := do
  let keyType ← caKeyInfo ca
  let key ← getKey t ca.keyLabel
  K.sign key keyType (signatureHashName cfg ca.keyType ca.keySize) drawn tbs

/-- `verify_signing_key` -/
def verifySigningKey (t : Token Key) (ca : CaKeyRow) (nonce : Blob) (drawn : ℕ) : Except PyError Unit := do
  let keyType ← caKeyInfo ca
  let publicKey ← K.loadPublicKey ca.certificatePem
  let signature ← hsmSign K cfg t ca drawn nonce
  K.verify publicKey keyType (signatureHashName cfg ca.keyType ca.keySize) signature nonce

/-! ## Steps -/

inductive MigrationAudit
  | migrated (ca : ℤ) (label : String)
  | failed (ca : ℤ) (label : String) (destroyed : ℕ ⊕ String) (error : PyError)
deriving DecidableEq

/-- where the command stands; `ca` is the session's row, with the changes that are not committed -/
inductive MigratePhase (Key : Type)
  | loop (todo : List ℤ)
  | decrypted (ca : CaKeyRow) (key : Key) (todo : List ℤ)
  | imported (ca : CaKeyRow) (todo : List ℤ)
  /-- the software copy is scrubbed in the session; the audit row is next -/
  | verified (ca : CaKeyRow) (todo : List ℤ)
  | audited (ca : CaKeyRow) (todo : List ℤ)
  /-- the signing check has failed; the rollback is next -/
  | refused (id : ℤ) (name : String) (e : PyError)
  | rolledBack (id : ℤ) (name : String) (e : PyError)
  | cleaned (id : ℤ) (name : String) (e : PyError) (destroyed : ℕ ⊕ String)
  | failureAudited (id : ℤ) (name : String) (e : PyError) (destroyed : ℕ ⊕ String)
  | raised (e : PyError)
  | died
  | done

/-- what is committed, the token, the CAs migrated so far, and where the command stands -/
structure Migration (Key : Type) where
  stored : Table CaKeyRow.id
  audit : List MigrationAudit
  token : Token Key
  migrated : ℕ
  phase : MigratePhase Key

/-- what an access that does not end leaves behind: an object of an import, the objects a clean-up has removed -/
structure Torn (Key : Type) where
  leftover : Option Key
  destroyed : ℕ

inductive MigrateEvent (Key : Type)
  | next (nonce : Blob) (drawn : ℕ)
  | fail (e : PyError) (torn : Torn Key)
  | die (torn : Torn Key)

def MigratePhase.isFinal : MigratePhase Key → Bool
  | .raised _ => true
  | .died => true
  | .done => true
  | _ => false

/-- the token after an access that did not end -/
def Migration.tornToken (s : Migration Key) (torn : Torn Key) : Token Key :=
  match s.phase with
  | .decrypted _ _ _ => s.token ++ (torn.leftover.toList.map fun key => ⟨label s.migrated, key⟩)
  | .rolledBack _ _ _ => s.token.destroyFirst (label s.migrated) torn.destroyed
  | _ => s.token

/-- the commit of the session's row -/
def CaKeyRow.write (ca row : CaKeyRow) : CaKeyRow :=
  { row with keyBackend := ca.keyBackend, keyLabel := ca.keyLabel, privateKeyEnc := ca.privateKeyEnc }

/-- where an exception leads: the signing check and the clean-up are inside a `try` -/
def MigratePhase.caught (e : PyError) : MigratePhase Key → MigratePhase Key
  | .imported ca _ => .refused ca.id ca.name e
  | .rolledBack id name cause => .cleaned id name cause (.inr ("cleanup failed: " ++ e.text))
  | _ => .raised e

/-- the message of the command -/
def verificationFailed (id : ℤ) (name : String) (e : PyError) (migrated : ℕ) : PyError :=
  .other ("Verification failed for [" ++ toString id ++ "] " ++ name ++ ": " ++ e.text ++
    ". The token object was removed and the software key left untouched (" ++ toString migrated ++
    " CA key(s) migrated before the failure).")

/-- one access -/
def migrateStep (s : Migration Key) (e : MigrateEvent Key) : Migration Key :=
  if s.phase.isFinal then s
  else
    match e with
    | .fail err torn => { s with token := s.tornToken label torn, phase := s.phase.caught err }
    | .die torn => { s with token := s.tornToken label torn, phase := .died }
    | .next nonce drawn =>
      match s.phase with
      | .loop [] => { s with phase := .done }
      | .loop (id :: todo) =>
        match s.stored.get? id with
        | none => { s with phase := .raised (.other "ObjectDeletedError") }
        | some ca =>
          match K.decryptPrivateKey ca.privateKeyEnc with
          | .error err => { s with phase := .raised err }
          | .ok key => { s with phase := .decrypted ca key todo }
      | .decrypted ca key todo =>
        if K.importable key then
          { s with
            token := s.token ++ [⟨label s.migrated, key⟩]
            phase := .imported { ca with keyBackend := .softhsm, keyLabel := some (label s.migrated) } todo }
        else { s with phase := .raised (.valueError "Unsupported key type for HSM import.") }
      | .imported ca todo =>
        match verifySigningKey K cfg s.token ca nonce drawn with
        | .error err => { s with phase := .refused ca.id ca.name err }
        | .ok () => { s with phase := .verified { ca with privateKeyEnc := [] } todo }
      | .verified ca todo => { s with phase := .audited ca todo }
      | .audited ca todo =>
        { s with
          stored := s.stored.update ca.id ca.write
          audit := s.audit ++ [.migrated ca.id (label s.migrated)]
          migrated := s.migrated + 1
          phase := .loop todo }
      | .refused id name err => { s with phase := .rolledBack id name err }
      | .rolledBack id name err =>
        { s with
          token := (s.token.destroyKey (label s.migrated)).1
          phase := .cleaned id name err (.inl (s.token.destroyKey (label s.migrated)).2) }
      | .cleaned id name err destroyed => { s with phase := .failureAudited id name err destroyed }
      | .failureAudited id name err destroyed =>
        { s with
          audit := s.audit ++ [.failed id (label s.migrated) destroyed err]
          phase := .raised (verificationFailed id name err s.migrated) }
      | _ => s

/-! ## The command -/

/-- the options of the command, `hsm_available()` and the answer to the prompt -/
structure MigrateOptions where
  caId : Option ℤ
  dryRun : Bool
  yes : Bool
  available : Bool
  confirmed : Bool

/-- the query of the command -/
def softwareKeyed (caId : Option ℤ) (ca : CaKeyRow) : Bool :=
  ca.keyBackend = .software && ca.privateKeyEnc != [] && caId.all (ca.id = ·)

/-- `migrate_to_hsm` up to its loop -/
def Migration.start (opts : MigrateOptions) (db : Table CaKeyRow.id) (token : Token Key) : Migration Key :=
  let cas := db.rows.filter (softwareKeyed opts.caId)
  { stored := db
    audit := []
    token
    migrated := 0
    phase :=
      if opts.yes && opts.caId.isNone then
        .raised (.other "--yes requires --ca-id: migrating every CA must be confirmed interactively.")
      else if !opts.available then
        .raised (.other ("HSM backend not available. Set KEY_BACKEND=softhsm and the PKCS11_* settings, " ++
          "and initialise the token, before migrating."))
      else if cas.isEmpty || opts.dryRun then .done
      else if !opts.yes && !opts.confirmed then .raised (.other "Abort")
      else .loop (cas.map (·.id)) }

end Migration

end Chancery.KeyMigration
