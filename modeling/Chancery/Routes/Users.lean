/-
User administration (app/routes/users.py), one request of an admin at a time.

While dual control is active, what a non-exempt admin grants waits for another admin: a new account, a promotion, the
reset of an admin's password. `pendingBy` holds who asked last.
-/
import Mathlib.Tactic
import Chancery.Services.DualControl
import Chancery.Routes.Auth

namespace Chancery.Auth

open Chancery.Core

/-- `admin_required`: the row of the actor -/
def currentAdmin (users : UserTable) (actor : ℤ) : Option User := (users.get? actor).filter User.activeAdmin

/-- does a grant of this admin wait for another one -/
def gated (env : Env) (ldap : Option LdapConfig) (users : UserTable) (admin : User) : Bool :=
  DualControl.isActive env ldap users && !DualControl.isExempt env admin

/-! ## Accounts -/

/-- the form of `create_user`, with the salt -/
structure UserForm where
  username : Text
  password : Text
  role : Role
  salt : Text

/-- the row of a new account -/
def newUser (lib : Lib) (env : Env) (waits : Bool) (admin : ℤ) (form : UserForm) (id : ℤ) : User where
  id := id
  username := strip form.username
  passwordHash := some (lib.passwordHash form.salt form.password)
  role := form.role
  isActiveUser := !waits
  authSource := .localDb
  createdAt := some env.now
  failedLoginCount := 0
  lockedUntil := none
  mustChangePassword := true
  totpSecret := []
  totpEnabled := false
  totpLastStep := none
  recoveryCodes := []
  sessionVersion := 1
  approvalStatus := if waits then .pending else .approved
  createdBy := some admin
  approvedBy := none
  pendingRole := none
  pendingBy := if waits then some admin else none
  passwordResetBy := none
  passwordResetAt := none

/-- does `create_user` accept the form -/
def UserForm.accepted (env : Env) (users : UserTable) (form : UserForm) : Bool :=
  strip form.username != [] && form.password != [] && (findUser users (strip form.username)).isNone &&
    decide (env.minPasswordLength ≤ form.password.length)

/-- `create_user` -/
def createUser (lib : Lib) (env : Env) (ldap : Option LdapConfig) (admin : User) (form : UserForm) (users : UserTable) :
    UserTable :=
  if form.accepted env users then users.insert (newUser lib env (gated env ldap users admin) admin.id form) else users

/-- is this admin the last active one -/
def lastAdmin (users : UserTable) (u : User) : Bool := u.role == .admin && decide (activeAdmins users ≤ 1)

/-- does `edit_user` ask for a promotion instead of making it -/
def asksPromotion (env : Env) (ldap : Option LdapConfig) (users : UserTable) (admin u : User) (role : Role) : Bool :=
  role == .admin && u.role != .admin && gated env ldap users admin

/-- a promotion that waits -/
def askPromotion (admin : ℤ) (u : User) : User := { u with pendingRole := some .admin, pendingBy := some admin }

/-- a role that is set at once: a demotion cancels a pending promotion -/
def setRole (role : Role) (u : User) : User :=
  { u with role := role, pendingRole := if role = .admin then u.pendingRole else none }

/-- `edit_user` -/
def editUser (env : Env) (ldap : Option LdapConfig) (admin u : User) (role : Role) (users : UserTable) : UserTable :=
  if role ≠ .admin ∧ lastAdmin users u = true then users
  else if asksPromotion env ldap users admin u role then users.update u.id (askPromotion admin.id)
  else users.update u.id (setRole role)

/-- `toggle_active`, its write -/
def toggled (u : User) : User :=
  if u.isActiveUser then { u with isActiveUser := false } else clearLockout { u with isActiveUser := true }

theorem toggled_id (u : User) : (toggled u).id = u.id := by
  unfold toggled
  split_ifs <;> rfl

/-- `toggle_active` -/
def toggleActive (admin u : User) (users : UserTable) : UserTable :=
  if u.id = admin.id then users
  else if !u.isActiveUser && u.isPending then users
  else if u.isActiveUser && lastAdmin users u then users
  else users.update u.id toggled toggled_id

/-! ## Credentials -/

/-- does the reset of this account's password wait for another admin -/
def gatedReset (env : Env) (ldap : Option LdapConfig) (users : UserTable) (admin u : User) : Bool :=
  gated env ldap users admin && u.role == .admin && u.id != admin.id

/-- the columns of a password reset -/
def passwordReset (lib : Lib) (env : Env) (admin : ℤ) (salt password : Text) (waits : Bool) (u : User) : User :=
  let reset := bumpSessionVersion (clearLockout
    { u.setPassword lib salt password with
      mustChangePassword := true, passwordResetBy := some admin, passwordResetAt := some env.now })
  if waits then { reset with isActiveUser := false, approvalStatus := .pending, pendingBy := some admin } else reset

theorem passwordReset_id (lib : Lib) (env : Env) (admin : ℤ) (salt password : Text) (waits : Bool) (u : User) :
    (passwordReset lib env admin salt password waits u).id = u.id := by
  unfold passwordReset
  split_ifs <;> rfl

/-- does `reset_password` accept -/
def resetAccepted (env : Env) (ldap : Option LdapConfig) (users : UserTable) (admin u : User) (password : Text) : Bool :=
  u.authSource == .localDb && !(gatedReset env ldap users admin u && DualControl.isExempt env u) && password != [] &&
    decide (env.minPasswordLength ≤ password.length)

/-- `reset_password`, with the cache of the process -/
def resetPassword (lib : Lib) (env : Env) (ldap : Option LdapConfig) (admin u : User) (salt password : Text)
    (users : UserTable) (cache : Cache) : UserTable × Cache :=
  if resetAccepted env ldap users admin u password then
    (users.update u.id (passwordReset lib env admin.id salt password (gatedReset env ldap users admin u))
      (passwordReset_id lib env admin.id salt password _), cache.dropUser u.username)
  else (users, cache)

/-- `reset_2fa`, with the cache of the process -/
def reset2fa (u : User) (users : UserTable) (cache : Cache) : UserTable × Cache :=
  if u.totpEnabled then (users.update u.id (fun a => bumpSessionVersion (clearTotp a)) bumpSessionVersion_clearTotp_id,
    cache.dropUser u.username)
  else (users, cache)

/-! ## Approval -/

/-- `awaits_approval` -/
def User.awaitsApproval (u : User) : Bool := u.isPending || u.pendingRole.isSome

/-- does `approve_user` accept -/
def approveAccepted (env : Env) (ldap : Option LdapConfig) (users : UserTable) (admin u : User) : Bool :=
  u.awaitsApproval && (!DualControl.isActive env ldap users || DualControl.canApprove env admin u.pendingBy)

/-- the columns of an approval -/
def approved (admin : ℤ) (u : User) : User :=
  let activated := if u.isPending then clearLockout { u with approvalStatus := .approved, isActiveUser := true } else u
  { activated with
    role := u.pendingRole.getD u.role, pendingRole := none, approvedBy := some admin, pendingBy := none }

theorem approved_id (admin : ℤ) (u : User) : (approved admin u).id = u.id := by
  unfold approved
  simp only
  split_ifs <;> rfl

/-- `approve_user` -/
def approveUser (env : Env) (ldap : Option LdapConfig) (admin u : User) (users : UserTable) : UserTable :=
  if approveAccepted env ldap users admin u then users.update u.id (approved admin.id) (approved_id admin.id) else users

/-! ## Requests -/

inductive UserRequest
  | create (form : UserForm)
  | edit (uid : ℤ) (role : Role)
  | toggle (uid : ℤ)
  | resetPassword (uid : ℤ) (salt password : Text)
  | reset2fa (uid : ℤ)
  | approve (uid : ℤ)

/-- a request of an admin: a missing account changes nothing -/
def handleUsers (lib : Lib) (env : Env) (ldap : Option LdapConfig) (actor : ℤ) (r : UserRequest) (users : UserTable)
    (cache : Cache) : UserTable × Cache :=
  match currentAdmin users actor with
  | none => (users, cache)
  | some admin =>
    match r with
    | .create form => (createUser lib env ldap admin form users, cache)
    | .edit uid role => ((users.get? uid).elim users fun u => editUser env ldap admin u role users, cache)
    | .toggle uid => ((users.get? uid).elim users fun u => toggleActive admin u users, cache)
    | .resetPassword uid salt password =>
      (users.get? uid).elim (users, cache) fun u => Auth.resetPassword lib env ldap admin u salt password users cache
    | .reset2fa uid => (users.get? uid).elim (users, cache) fun u => Auth.reset2fa u users cache
    | .approve uid => ((users.get? uid).elim users fun u => approveUser env ldap admin u users, cache)

end Chancery.Auth
