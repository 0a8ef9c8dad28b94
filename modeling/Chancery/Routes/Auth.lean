/-
Logging in and changing one's own credentials (app/routes/auth.py, app/services/totp_service.py, `load_user` of
app/models/user.py), one request at a time.

The session is a signed cookie: the server keeps no copy of it, and any cookie it has issued may be presented again.
-/
import Mathlib.Tactic
import Chancery.Services.AuthService

namespace Chancery.Auth

open Chancery.Core

/-! ## Sessions -/

/-- `session["pre_2fa"]`: the password was accepted, the second factor is still to come -/
structure Pre2fa where
  uid : ℤ
  exp : DateTime
  method : AuthSource
deriving DecidableEq

/-- the session cookie -/
structure Session where
  userId : Option ℤ
  /-- the session version at the login -/
  sv : Option ℤ
  pre2fa : Option Pre2fa
deriving DecidableEq

def Session.empty : Session := ⟨none, none, none⟩

/-- `load_user` -/
def loadUser (users : UserTable) (session : Session) : Option User :=
  (session.userId.bind users.get?).filter fun u => !session.sv.any (· != u.sessionVersion)

/-- `current_user`, when it is authenticated -/
def currentUser (users : UserTable) (session : Session) : Option User :=
  (loadUser users session).filter (·.isActiveUser)

/-- `_finish_login`: the cookie of an established session -/
def finishLogin (u : User) : Session := ⟨some u.id, some u.sessionVersion, none⟩

/-- `PRE_2FA_TTL_SECONDS` -/
def pre2faTtl : DateTime := 300 * second

/-- the pending step `login` puts into the cookie -/
def pendingStep (env : Env) (u : User) (method : AuthSource) : Pre2fa := ⟨u.id, wholeSeconds env.now + pre2faTtl, method⟩

/-- `login`: with a second factor the session is not established yet, and a synced role is not committed -/
def login (lib : Lib) (env : Env) (ldap : Option LdapConfig) (username password : Text) (session : Session)
    (users : UserTable) : UserTable × Session :=
  let r := authenticate lib env ldap (strip username) password users
  match r.1.user with
  | none => (r.2, session)
  | some u =>
    if !r.1.ok then (r.2, session)
    else if u.totpEnabled then
      (if r.1.authMethod = .ldap then users else r.2, { session with pre2fa := some (pendingStep env u r.1.authMethod) })
    else (r.2, finishLogin u)

/-- a login that did not use the directory commits what it wrote -/
theorem login_users {lib : Lib} {env : Env} {ldap : Option LdapConfig} {username password : Text} {session : Session}
    {users : UserTable} (h : (authenticate lib env ldap (strip username) password users).1.authMethod = .localDb) :
    (login lib env ldap username password session users).1 =
      (authenticate lib env ldap (strip username) password users).2 := by
  unfold login
  generalize authenticate lib env ldap (strip username) password users = r at h
  simp only
  split
  · rfl
  · split_ifs with _ _ hldap
    · rfl
    · rw [h] at hldap
      cases hldap
    · rfl
    · rfl

/-- either nothing or what `authenticate` wrote is committed -/
theorem login_users_cases {lib : Lib} {env : Env} {ldap : Option LdapConfig} {username password : Text} {session : Session}
    {users : UserTable} :
    (login lib env ldap username password session users).1 = users ∨
      (login lib env ldap username password session users).1 =
        (authenticate lib env ldap (strip username) password users).2 := by
  unfold login
  simp only
  split
  · exact .inr rfl
  · split_ifs
    · exact .inr rfl
    · exact .inl rfl
    · exact .inr rfl
    · exact .inr rfl

/-! ## The second factor -/

/-- `current_step` -/
def currentStep (now : DateTime) : ℤ := now / (30 * second)

/-- the steps `verify` looks at -/
def candidateSteps (now : DateTime) : List ℤ := [currentStep now - 1, currentStep now, currentStep now + 1]

/-- the first candidate whose code is the given one: `compare_digest` refuses text outside ASCII -/
def matchStep (lib : Lib) (secret : Text) (lastStep : Option ℤ) (code : Text) : List ℤ → Except PyError (Option ℤ)
  | [] => .ok none
  | candidate :: rest =>
    if lastStep.any (candidate ≤ ·) then matchStep lib secret lastStep code rest
    else do
      let expected ← lib.hotp secret candidate
      if !isAscii code then .error (.other "TypeError")
      else if expected = code then .ok (some candidate)
      else matchStep lib secret lastStep code rest

/-- `verify` -/
def verifyTotp (lib : Lib) (secret code : Text) (lastStep : Option ℤ) (now : DateTime) : Except PyError (Option ℤ) :=
  let code := (strip code).filter (· != ' ')
  if !(code.all lib.isDigit) ∨ code.length ≠ 6 then .ok none else matchStep lib secret lastStep code (candidateSteps now)

/-- `normalise_recovery_code` -/
def normaliseRecoveryCode (lib : Lib) (code : Text) : Option Text :=
  let raw := (lib.unicode.upper (strip code)).filter fun c => c != '-' && c != ' '
  if raw.length = 10 then some (raw.take 5 ++ '-' :: raw.drop 5) else none

/-- `consume_recovery_code`: the codes that remain -/
def consumeRecoveryCode (lib : Lib) (hashes : List Text) (code : Text) : Option (List Text) :=
  (normaliseRecoveryCode lib code).bind fun normalised =>
    if hashes.any (lib.checkPasswordHash · normalised) then some (hashes.eraseP (lib.checkPasswordHash · normalised))
      else none

/-- an accepted code, with what it uses up -/
inductive Factor
  | totp (step : ℤ)
  | recovery (remaining : List Text)
deriving DecidableEq

/-- `_check_second_factor` -/
def checkSecondFactor (lib : Lib) (env : Env) (u : User) (code : Text) : Except PyError (Option Factor) := do
  match ← verifyTotp lib u.totpSecret code u.totpLastStep env.now with
  | some step => .ok (some (.totp step))
  | none => .ok ((consumeRecoveryCode lib u.recoveryCodes code).map .recovery)

/-- the replay and consumption state of the row -/
def useFactor (factor : Factor) (u : User) : User :=
  match factor with
  | .totp step => { u with totpLastStep := some step }
  | .recovery remaining => { u with recoveryCodes := remaining }

@[simp] theorem useFactor_id (factor : Factor) (u : User) : (useFactor factor u).id = u.id := by
  cases factor <;> rfl

/-- `_pre_2fa_user` -/
def pre2faUser (env : Env) (session : Session) (users : UserTable) : Option User :=
  (session.pre2fa.filter fun p => decide (env.now ≤ p.exp)).bind fun p =>
    (users.get? p.uid).filter fun u => u.isActiveUser && u.totpEnabled

/-- `two_factor` -/
def twoFactor (lib : Lib) (env : Env) (code : Text) (session : Session) (users : UserTable) : UserTable × Session :=
  match pre2faUser env session users with
  | none => (users, { session with pre2fa := none })
  | some u =>
    if isLocked env.now u then (users, session)
    else
      match checkSecondFactor lib env u code with
      | .error _ => (users, session)
      | .ok none => (registerFailedAttempt env u users, session)
      | .ok (some factor) =>
        (users.update u.id (fun a => clearLockout (useFactor factor a)) (useFactor_id factor), finishLogin u)

/-! ## One's own credentials -/

/-- `set_password`, with the salt the server draws -/
def User.setPassword (lib : Lib) (salt password : Text) (u : User) : User :=
  { u with passwordHash := some (lib.passwordHash salt password) }

/-- the column of `bump_session_version` -/
def bumpSessionVersion (u : User) : User := { u with sessionVersion := u.sessionVersion + 1 }

/-- the form of `change_password`, with the salt -/
structure PasswordForm where
  current : Text
  new : Text
  confirm : Text
  salt : Text

/-- the checks of `change_password` -/
def PasswordForm.accepted (lib : Lib) (env : Env) (form : PasswordForm) (u : User) : Bool :=
  u.checkPassword lib form.current && decide (env.minPasswordLength ≤ form.new.length) && form.new == form.confirm &&
    form.new != form.current

def passwordChanged (lib : Lib) (form : PasswordForm) (u : User) : User :=
  bumpSessionVersion { u.setPassword lib form.salt form.new with mustChangePassword := false }

/-- what a request leaves behind: the accounts, the cookie, and the cache of the process it ran in -/
structure Reply where
  users : UserTable
  session : Session
  cache : Cache

/-- `change_password`: the session of the actor is stamped again -/
def changePassword (lib : Lib) (env : Env) (form : PasswordForm) (session : Session) (users : UserTable) (cache : Cache) :
    Reply :=
  match currentUser users session with
  | none => ⟨users, session, cache⟩
  | some u =>
    if !form.accepted lib env u then ⟨users, session, cache⟩
    else ⟨users.update u.id (passwordChanged lib form), { session with sv := some (u.sessionVersion + 1) },
      cache.dropUser u.username⟩

/-- an enrolment: the secret, the step of the code that confirmed it, the recovery codes -/
structure Enrolment where
  secret : Text
  step : ℤ
  codes : List Text

def enrolled (e : Enrolment) (u : User) : User :=
  bumpSessionVersion
    { u with totpSecret := e.secret, totpEnabled := true, totpLastStep := some e.step, recoveryCodes := e.codes }

theorem enrolled_id {e : Enrolment} (u : User) : (enrolled e u).id = u.id := rfl

/-- `two_factor_setup`, its confirmation: the secret travels in the cookie -/
def twoFactorSetup (lib : Lib) (env : Env) (secret code : Text) (codes : List Text) (session : Session) (users : UserTable)
    (cache : Cache) : Reply :=
  match (currentUser users session).filter (!·.totpEnabled) with
  | none => ⟨users, session, cache⟩
  | some u =>
    match verifyTotp lib secret code none env.now with
    | .ok (some step) => ⟨users.update u.id (enrolled ⟨secret, step, codes⟩) enrolled_id,
        { session with sv := some (u.sessionVersion + 1) }, cache.dropUser u.username⟩
    | _ => ⟨users, session, cache⟩

/-- `_clear_totp` -/
def clearTotp (u : User) : User :=
  { u with totpSecret := [], totpEnabled := false, totpLastStep := none, recoveryCodes := [] }

theorem bumpSessionVersion_clearTotp_id (u : User) : (bumpSessionVersion (clearTotp u)).id = u.id := rfl

/-- `two_factor_disable`; `enforced` is REQUIRE_2FA for this account -/
def twoFactorDisable (lib : Lib) (env : Env) (enforced : Bool) (password code : Text) (session : Session)
    (users : UserTable) (cache : Cache) : Reply :=
  match (currentUser users session).filter (·.totpEnabled) with
  | none => ⟨users, session, cache⟩
  | some u =>
    if enforced || (u.passwordHash.isSome && !u.checkPassword lib password) then ⟨users, session, cache⟩
    else
      match checkSecondFactor lib env u code with
      | .ok (some _) => ⟨users.update u.id (fun a => bumpSessionVersion (clearTotp a)) bumpSessionVersion_clearTotp_id,
          { session with sv := some (u.sessionVersion + 1) }, cache.dropUser u.username⟩
      | _ => ⟨users, session, cache⟩

/-- `two_factor_recovery_codes` -/
def twoFactorRecoveryCodes (lib : Lib) (env : Env) (code : Text) (codes : List Text) (session : Session)
    (users : UserTable) : UserTable :=
  match (currentUser users session).filter (·.totpEnabled) with
  | none => users
  | some u =>
    match checkSecondFactor lib env u code with
    | .ok (some factor) =>
      users.update u.id (fun a => { useFactor factor a with recoveryCodes := codes }) (useFactor_id factor)
    | _ => users

end Chancery.Auth
