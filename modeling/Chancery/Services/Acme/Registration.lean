/-
newAccount requests and revocations of EAB keys, at the granularity of their reads and commits (`new_account` and
`revoke_eab_key` of app/services/acme/service.py, the EAB revocation route of app/routes/ca.py).

`Job` is what a request is, `Binding` where it stands. A registration looks for the account of the key, then reads the EAB
key and verifies the binding, then commits the new row together with the key's `used_at`; the database refuses a second
account with the same thumbprint on one CA. A revocation reads the key's row and commits its `revoked`. An UPDATE writes the
columns that were changed and no others.

Alone, a registration does what `newAccount` does (`register_alone`). The log of created accounts is not in the code.
-/
import Mathlib.Tactic
import Chancery.Core.Workers
import Chancery.Services.Acme.Accounts

namespace Chancery.Acme

open Chancery.Core

inductive Job (E : Env)
  | register (v : Verified E)
  | revoke (keyId : ℤ)

inductive Binding
  | start
  /-- the account of the key is there and live -/
  | existing (accountId : ℤ)
  /-- there was no account of the key -/
  | looked (tp : Text) (contact : List String)
  /-- the binding is verified with this row, if there is one -/
  | checked (tp : Text) (contact : List String) (row : Option AcmeEabKey)
  /-- the key's row is there and not revoked -/
  | revoking (keyId : ℤ)
  | ended (result : Result Unit)

/-- an account that a request created: its id, its key, and the committed state just before -/
structure Creation where
  accountId : ℤ
  jwk : Fields
  payload : Fields
  keyId : Option ℤ
  before : Accounts

/-- the tables and the log -/
structure Registry where
  tables : Accounts
  created : List Creation

variable (E : Env)

/-- the row of a registration -/
def newRow (d : Directory) (jwk : Fields) (tp : Text) (contact : List String) (row : Option AcmeEabKey) (now : DateTime)
    (id : ℤ) : AcmeAccount :=
  ⟨id, d.caId, jwk, tp, .valid, storedContact contact, row.map (·.id), now, some now⟩

def useRow (now : DateTime) (r : AcmeEabKey) : AcmeEabKey := { r with usedAt := some now }

def revokeRow (r : AcmeEabKey) : AcmeEabKey := { r with revoked := true }

/-- the commit of a registration -/
def createAccount (d : Directory) (jwk : Fields) (tp : Text) (contact : List String) (row : Option AcmeEabKey)
    (now : DateTime) (s : Accounts) : Accounts :=
  ⟨s.accounts.insert (newRow d jwk tp contact row now) fun _ => rfl,
    match row with
    | none => s.eabKeys
    | some r => s.eabKeys.update r.id (useRow now) fun _ => rfl⟩

/-- the first read of `new_account` -/
def lookAccount (d : Directory) (v : Verified E) (s : Accounts) : Binding :=
  match thumbprint E v.jwk with
  | .error e => .ended (.error e)
  | .ok tp =>
    match byThumbprint s.accounts d.caId tp with
    | some found => if found.status ≠ .valid then .ended (.error (notValid found.status)) else .existing found.id
    | none =>
      if truthy (Json.get (v.payload.getD []) "onlyReturnExisting") then
        .ended (.error (problem "accountDoesNotExist" "No account is registered for this key."))
      else
        match validateContacts E (Json.get (v.payload.getD []) "contact") with
        | .error e => .ended (.error e)
        | .ok contact => .looked tp contact

/-- the next step of a registration -/
def registerStep (d : Directory) (v : Verified E) (now : DateTime) (s : Registry) : Binding → Registry × Binding
  | .start => (s, lookAccount E d v s.tables)
  | .existing accountId =>
    ({ s with tables := { s.tables with
        accounts := s.tables.accounts.update accountId (AcmeAccount.touch now) AcmeAccount.touch_id } },
      .ended (.ok ()))
  | .looked tp contact =>
    match useEab E d s.tables.eabKeys (v.payload.getD []) v.jwk with
    | .error e => (s, .ended (.error e))
    | .ok row => (s, .checked tp contact row)
  | .checked tp contact row =>
    match byThumbprint s.tables.accounts d.caId tp with
    | some _ => (s, .ended (.error (.py (.other "IntegrityError"))))
    | none =>
      (⟨createAccount d v.jwk tp contact row now s.tables,
        s.created ++ [⟨s.tables.accounts.nextKey, v.jwk, v.payload.getD [], row.map (·.id), s.tables⟩]⟩, .ended (.ok ()))
  | b => (s, b)

/-- the next step of a revocation -/
def revokeStep (keyId : ℤ) (s : Registry) : Binding → Registry × Binding
  | .start =>
    match s.tables.eabKeys.get? keyId with
    | none => (s, .ended (.ok ()))
    | some row => if row.revoked then (s, .ended (.ok ())) else (s, .revoking keyId)
  | .revoking keyId =>
    ({ s with tables := { s.tables with eabKeys := s.tables.eabKeys.update keyId revokeRow } }, .ended (.ok ()))
  | b => (s, b)

def jobStep (d : Directory) (now : DateTime) (s : Registry) (b : Binding) : Job E → Registry × Binding
  | .register v => registerStep E d v now s b
  | .revoke keyId => revokeStep keyId s b

/-! ## Interleavings -/

/-- any number of requests, the job of each, and the tables they share -/
abbrev BindingRace := Pool Registry Binding

def bindingStep (d : Directory) (jobs : ℕ → Job E) (r : BindingRace) (o : ℕ × DateTime) : BindingRace :=
  r.act (fun i now s b => jobStep E d now s b (jobs i)) o

def bindingStart (tables : Accounts) : BindingRace := ⟨⟨tables, []⟩, fun _ => .start⟩

/-! ## One registration alone -/

variable {E}

/-- the tables and the outcome of a registration alone, every step at the same time -/
def registerAlone (d : Directory) (v : Verified E) (now : DateTime) (s : Accounts) : Accounts × Binding :=
  let x := registerStep E d v now ⟨s, []⟩ .start
  let y := registerStep E d v now x.1 x.2
  let z := registerStep E d v now y.1 y.2
  (z.1.tables, z.2)

/-- **A registration alone is `newAccount`.** -/
theorem register_alone (d : Directory) (v : Verified E) (now : DateTime) (s : Accounts) :
    match newAccount E d s v now with
    | .ok (s', _) => registerAlone d v now s = (s', .ended (.ok ()))
    | .error e => registerAlone d v now s = (s, .ended (.error e)) := by
  unfold newAccount registerAlone
  simp only [registerStep, lookAccount]
  cases htp : thumbprint E v.jwk with
  | error e => rfl
  | ok tp =>
    simp only [bind, Except.bind]
    cases hfound : byThumbprint s.accounts d.caId tp with
    | some found =>
      simp only
      split_ifs <;> rfl
    | none =>
      simp only
      split_ifs
      · rfl
      cases hcontact : validateContacts E (Json.get (v.payload.getD []) "contact") with
      | error e => rfl
      | ok contact =>
        simp only
        cases heab : useEab E d s.eabKeys (v.payload.getD []) v.jwk with
        | error e => rfl
        | ok row =>
          simp only [hfound]
          cases row <;> rfl

end Chancery.Acme
