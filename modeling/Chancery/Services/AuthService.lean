/-
Accounts and logins (app/models/user.py, app/services/auth_service.py, app/services/totp_service.py).

A login checks a password against the local row or against the directory, counts failures of local accounts and locks them.
`authenticateBasic` puts a cache in front of it, one for each process. Password hashes, one-time codes, the MAC of the cache
and the directory are parameters (`Lib`).
-/
import Mathlib.Tactic
import Chancery.Core.Py
import Chancery.Core.Table

namespace Chancery.Auth

open Chancery.Core

/-! ## Rows -/

inductive Role
  | admin
  | csrRequester
deriving DecidableEq, Repr

/-- `auth_source` of an account, and the method of a login -/
inductive AuthSource
  | localDb
  | ldap
deriving DecidableEq, Repr

inductive ApprovalStatus
  | approved
  | pending
deriving DecidableEq, Repr

/-- a row of `users` -/
structure User where
  id : ℤ
  username : Text
  /-- none: `UNUSABLE_PASSWORD` -/
  passwordHash : Option Text
  role : Role
  isActiveUser : Bool
  authSource : AuthSource
  createdAt : Option DateTime
  failedLoginCount : ℤ
  lockedUntil : Option DateTime
  mustChangePassword : Bool
  /-- decrypted -/
  totpSecret : Text
  totpEnabled : Bool
  totpLastStep : Option ℤ
  recoveryCodes : List Text
  sessionVersion : ℤ
  approvalStatus : ApprovalStatus
  createdBy : Option ℤ
  approvedBy : Option ℤ
  /-- a promotion that awaits approval -/
  pendingRole : Option Role
  /-- who caused the pending state -/
  pendingBy : Option ℤ
  passwordResetBy : Option ℤ
  passwordResetAt : Option DateTime
deriving DecidableEq

abbrev UserTable := Table User.id

/-- `is_admin` of an account that can log in -/
def User.activeAdmin (u : User) : Bool := u.role == .admin && u.isActiveUser

/-- `is_pending` -/
def User.isPending (u : User) : Bool := u.approvalStatus == .pending

/-- `User.query.filter_by(username=…).first()` -/
def findUser (users : UserTable) (username : Text) : Option User := users.rows.find? (·.username == username)

theorem findUser_mem {users : UserTable} {username : Text} {u : User} (h : findUser users username = some u) : u ∈ users :=
  List.mem_of_find?_eq_some h

/-- a rewrite that keeps usernames finds the rewritten row -/
theorem findUser_update {users : UserTable} {username : Text} {k : ℤ} {f : User → User} {hf : ∀ a, (f a).id = a.id}
    (h : ∀ a, (f a).username = a.username) :
    findUser (users.update k f hf) username = (findUser users username).map fun a => if a.id = k then f a else a := by
  simp only [findUser, Table.update, Table.mapRows, List.find?_map, Function.comp_def]
  congr 2
  funext a
  split_ifs <;> simp [h]

/-! ## Configuration -/

/-- the LDAP settings: the keys of the connection are for the directory only -/
structure LdapConfig where
  enabled : Bool
  adminGroupDn : Text
  requesterGroupDn : Text
  connection : List (String × Text)
deriving DecidableEq

/-- what the directory answers to a login -/
inductive Bind
  | unavailable
  | refused
  | bound (dn : Text) (groups : List Text)
deriving DecidableEq

/-- the code outside the repository -/
structure Lib where
  unicode : Unicode
  /-- `generate_password_hash` with its salt -/
  passwordHash : Text → Text → Text
  /-- `check_password_hash` -/
  checkPasswordHash : Text → Text → Bool
  /-- `authenticate_ldap` under these settings -/
  directory : LdapConfig → Text → Text → Bind
  /-- the digest of the cache for a message -/
  mac : Text → Text
  /-- `hotp`: the code of a secret at a step -/
  hotp : Text → ℤ → Except PyError Text
  /-- `str.isdigit` of one character -/
  isDigit : Char → Bool

/-- the moment a request runs in, and the application configuration -/
structure Env where
  now : DateTime
  /-- `time.monotonic` of the process -/
  monotonic : DateTime
  /-- `LOGIN_LOCKOUT_THRESHOLD` -/
  lockoutThreshold : ℤ
  /-- `LOGIN_LOCKOUT_MINUTES` -/
  lockoutMinutes : ℤ
  /-- the LDAP_* variables -/
  ldap : LdapConfig
  /-- does the directory answer -/
  reachable : Bool
  /-- `BASIC_AUTH_CACHE_TTL_SECONDS` -/
  cacheTtl : DateTime
  adminUsername : Text
  dualControlEnabled : Bool
  /-- `DUAL_CONTROL_COOLDOWN_HOURS` -/
  cooldownHours : ℤ
  minPasswordLength : ℕ

def minute : ℤ := 60 * second

def hour : ℤ := 60 * minute

/-- `effective_config`: the saved row, else the environment -/
def effectiveConfig (env : Env) (row : Option LdapConfig) : LdapConfig := row.getD env.ldap

/-! ## Lockout -/

/-- `_is_locked` -/
def isLocked (now : DateTime) (u : User) : Bool := u.lockedUntil.any fun t => decide (now < t)

/-- the number of active admins -/
def activeAdmins (users : UserTable) : ℕ := (users.rows.filter User.activeAdmin).length

theorem activeAdmins_update {users : UserTable} {k : ℤ} {f : User → User} {hf : ∀ u, (f u).id = u.id}
    (h : ∀ u, (f u).activeAdmin = u.activeAdmin) : activeAdmins (users.update k f hf) = activeAdmins users := by
  unfold activeAdmins Table.update Table.mapRows
  rw [List.filter_map, List.length_map]
  congr 2
  funext u
  simp only [Function.comp_apply]
  split_ifs <;> simp [h]

/-- `_is_last_active_admin`: no other admin is active -/
def isLastActiveAdmin (users : UserTable) (u : User) : Bool := u.role == .admin && decide (activeAdmins users ≤ 1)

/-- the columns a failed attempt writes -/
def countFailure (env : Env) (last : Bool) (u : User) : User :=
  if env.lockoutThreshold ≤ u.failedLoginCount + 1 then
    if last then { u with failedLoginCount := 0 }
    else { u with lockedUntil := some (env.now + env.lockoutMinutes * minute), failedLoginCount := 0 }
  else { u with failedLoginCount := u.failedLoginCount + 1 }

@[simp] theorem countFailure_id (env : Env) (last : Bool) (u : User) : (countFailure env last u).id = u.id := by
  unfold countFailure
  split_ifs <;> rfl

@[simp] theorem countFailure_activeAdmin (env : Env) (last : Bool) (u : User) :
    (countFailure env last u).activeAdmin = u.activeAdmin := by
  unfold countFailure
  split_ifs <;> rfl

@[simp] theorem countFailure_authSource (env : Env) (last : Bool) (u : User) :
    (countFailure env last u).authSource = u.authSource := by
  unfold countFailure
  split_ifs <;> rfl

@[simp] theorem countFailure_username (env : Env) (last : Bool) (u : User) :
    (countFailure env last u).username = u.username := by
  unfold countFailure
  split_ifs <;> rfl

@[simp] theorem countFailure_role (env : Env) (last : Bool) (u : User) : (countFailure env last u).role = u.role := by
  unfold countFailure
  split_ifs <;> rfl

/-- `_register_failed_attempt`, with its commit -/
def registerFailedAttempt (env : Env) (u : User) (users : UserTable) : UserTable :=
  if env.lockoutThreshold ≤ 0 then users
  else users.update u.id (countFailure env (isLastActiveAdmin users u)) (countFailure_id env _)

/-- `clear_lockout` -/
def clearLockout (u : User) : User := { u with failedLoginCount := 0, lockedUntil := none }

theorem clearLockout_id (u : User) : (clearLockout u).id = u.id := rfl

/-- `_reset_lockout`, with its commit: nothing is written when there is nothing to clear -/
def resetLockout (u : User) (users : UserTable) : UserTable := users.update u.id clearLockout clearLockout_id

/-! ## Passwords -/

/-- `check_password` -/
def User.checkPassword (lib : Lib) (u : User) (password : Text) : Bool :=
  u.passwordHash.any fun h => lib.checkPasswordHash h password

inductive Reason
  | invalidCredentials
  | accountDeactivated
  | accountPending
  | ldapUnreachable
  | ldapNoRole
  | accountLocked
deriving DecidableEq, Repr

structure AuthResult where
  user : Option User
  reason : Option Reason
  authMethod : AuthSource

/-- `ok` -/
def AuthResult.ok (r : AuthResult) : Bool := r.user.isSome && r.reason.isNone

/-- a local account -/
def authenticateLocal (lib : Lib) (env : Env) (u : User) (password : Text) (users : UserTable) : AuthResult × UserTable :=
  if isLocked env.now u then (⟨some u, some .accountLocked, .localDb⟩, users)
  else if !u.checkPassword lib password then
    (⟨none, some .invalidCredentials, .localDb⟩, registerFailedAttempt env u users)
  else if !u.isActiveUser then
    (⟨some u, some (if u.isPending then .accountPending else .accountDeactivated), .localDb⟩, users)
  else (⟨some (clearLockout u), none, .localDb⟩, resetLockout u users)

/-! ## The directory -/

/-- a group DN of the settings -/
def groupKey (lib : Lib) (dn : Text) : Text := lib.unicode.lower (strip dn)

/-- `_map_role` -/
def mapRole (lib : Lib) (cfg : LdapConfig) (groups : List Text) : Option Role :=
  let admin := groupKey lib cfg.adminGroupDn
  let requester := groupKey lib cfg.requesterGroupDn
  if admin ≠ [] ∧ admin ∈ groups then some .admin
  else if requester ≠ [] ∧ requester ∈ groups then some .csrRequester
  else if admin ≠ [] ∨ requester ≠ [] then none
  else some .csrRequester

/-- the row of `_provision_user` -/
def provisioned (env : Env) (username : Text) (role : Role) (id : ℤ) : User where
  id := id
  username := username
  passwordHash := none
  role := role
  isActiveUser := true
  authSource := .ldap
  createdAt := some env.now
  failedLoginCount := 0
  lockedUntil := none
  mustChangePassword := false
  totpSecret := []
  totpEnabled := false
  totpLastStep := none
  recoveryCodes := []
  sessionVersion := 1
  approvalStatus := .approved
  createdBy := none
  approvedBy := none
  pendingRole := none
  pendingBy := none
  passwordResetBy := none
  passwordResetAt := none

/-- the directory's answer, as far as it can be reached -/
def askDirectory (lib : Lib) (env : Env) (cfg : LdapConfig) (username password : Text) : Bind :=
  if password.all isSpace then .refused
  else if !env.reachable then .unavailable
  else lib.directory cfg username password

/-- an account of the directory, or none yet -/
def authenticateLdap (lib : Lib) (env : Env) (cfg : LdapConfig) (user : Option User) (username password : Text)
    (users : UserTable) : AuthResult × UserTable :=
  if !cfg.enabled then (⟨none, some .invalidCredentials, .localDb⟩, users)
  else
    match askDirectory lib env cfg username password with
    | .unavailable => (⟨none, some .ldapUnreachable, .ldap⟩, users)
    | .refused => (⟨none, some .invalidCredentials, .ldap⟩, users)
    | .bound _ groups =>
      match mapRole lib cfg groups with
      | none => (⟨none, some .ldapNoRole, .ldap⟩, users)
      | some role =>
        match user with
        | none => (⟨some (provisioned env username role users.nextKey), none, .ldap⟩,
            users.insert (provisioned env username role))
        | some u =>
          (⟨some { u with role := role }, if u.isActiveUser then none else some .accountDeactivated, .ldap⟩,
            users.update u.id fun a => { a with role := role })

/-- `authenticate`: local accounts never fall through to the directory -/
def authenticate (lib : Lib) (env : Env) (ldap : Option LdapConfig) (username password : Text) (users : UserTable) :
    AuthResult × UserTable :=
  if username = [] ∨ password = [] then (⟨none, some .invalidCredentials, .localDb⟩, users)
  else
    match (findUser users username).filter (·.authSource == .localDb) with
    | some u => authenticateLocal lib env u password users
    | none => authenticateLdap lib env (effectiveConfig env ldap) (findUser users username) username password users

theorem authenticate_local {lib : Lib} {env : Env} {ldap : Option LdapConfig} {username password : Text} {users : UserTable}
    {u : User} (hempty : ¬ (username = [] ∨ password = [])) (h : findUser users username = some u)
    (hlocal : u.authSource = .localDb) :
    authenticate lib env ldap username password users = authenticateLocal lib env u password users := by
  have hfilter : (some u).filter (fun u => u.authSource == .localDb) = some u := by simp [Option.filter_some, hlocal]
  rw [authenticate, if_neg hempty, h, hfilter]

theorem authenticateLocal_method (lib : Lib) (env : Env) (u : User) (password : Text) (users : UserTable) :
    (authenticateLocal lib env u password users).1.authMethod = .localDb := by
  unfold authenticateLocal
  split_ifs <;> rfl

/-! ## The credential cache -/

structure CacheEntry where
  mac : Text
  userId : ℤ
  authMethod : AuthSource
  expiresAt : DateTime
deriving DecidableEq

/-- the entries by username, in insertion order -/
abbrev Cache := List (Text × CacheEntry)

/-- `_mac` -/
def credentialMac (lib : Lib) (username password : Text) : Text := lib.mac (username ++ Char.ofNat 0 :: password)

/-- `drop_user` -/
def Cache.dropUser (cache : Cache) (username : Text) : Cache := cache.filter fun e => e.1 != username

/-- `CredentialCache.get`: the hit, and the cache without an expired entry -/
def Cache.get (lib : Lib) (env : Env) (cache : Cache) (username password : Text) : Option (ℤ × AuthSource) × Cache :=
  if env.cacheTtl ≤ 0 then (none, cache)
  else
    match cache.lookup username with
    | none => (none, cache)
    | some entry =>
      if entry.expiresAt ≤ env.monotonic then (none, cache.dropUser username)
      else if entry.mac ≠ credentialMac lib username password then (none, cache)
      else (some (entry.userId, entry.authMethod), cache)

/-- `max_entries` -/
def maxEntries : ℕ := 256

/-- the entry that expires first, the first of several -/
def Cache.oldest : Cache → Option (Text × CacheEntry)
  | [] => none
  | e :: rest =>
    match Cache.oldest rest with
    | none => some e
    | some f => if f.2.expiresAt < e.2.expiresAt then some f else some e

/-- room for a new entry -/
def Cache.evict (env : Env) (cache : Cache) (username : Text) : Cache :=
  if (cache.lookup username).isSome ∨ cache.length < maxEntries then cache
  else
    let live : Cache := cache.filter fun e => decide (env.monotonic < e.2.expiresAt)
    if live.length < maxEntries then live
    else
      match live.oldest with
      | none => live
      | some e => live.dropUser e.1

/-- `CredentialCache.put` -/
def Cache.put (lib : Lib) (env : Env) (cache : Cache) (username password : Text) (userId : ℤ) (authMethod : AuthSource) :
    Cache :=
  if env.cacheTtl ≤ 0 then cache
  else
    let entry : CacheEntry := ⟨credentialMac lib username password, userId, authMethod, env.monotonic + env.cacheTtl⟩
    let room := cache.evict env username
    if (room.lookup username).isSome then room.map fun e => if e.1 = username then (username, entry) else e
    else room ++ [(username, entry)]

/-- what a request that authenticates leaves behind -/
structure Authenticated where
  result : AuthResult
  users : UserTable
  cache : Cache

/-- the account a hit stands for, re-read from the table -/
def hitUser (users : UserTable) (username : Text) (userId : ℤ) : Option User :=
  (users.get? userId).filter fun u => u.username == username && u.isActiveUser

/-- the uncached path -/
def authenticateAndCache (lib : Lib) (env : Env) (ldap : Option LdapConfig) (username password : Text) (users : UserTable)
    (cache : Cache) : Authenticated :=
  let r := authenticate lib env ldap username password users
  match r.1.user with
  | some u => ⟨r.1, r.2, if r.1.ok then cache.put lib env username password u.id r.1.authMethod else cache⟩
  | none => ⟨r.1, r.2, cache⟩

/-- `authenticate_basic` -/
def authenticateBasic (lib : Lib) (env : Env) (ldap : Option LdapConfig) (username password : Text) (users : UserTable)
    (cache : Cache) : Authenticated :=
  if username = [] ∨ password = [] then ⟨⟨none, some .invalidCredentials, .localDb⟩, users, cache⟩
  else
    let hit := cache.get lib env username password
    match hit.1.bind fun h => (hitUser users username h.1).map fun u => (u, h.2) with
    | some (u, method) => ⟨⟨some u, none, method⟩, users, hit.2⟩
    | none => authenticateAndCache lib env ldap username password users hit.2

/-! ## Sample accounts -/

/-- an active local account whose password is its username -/
def sampleUser (id : ℤ) (name : String) (role : Role) : User where
  id := id
  username := name.toList
  passwordHash := some name.toList
  role := role
  isActiveUser := true
  authSource := .localDb
  createdAt := some 0
  failedLoginCount := 0
  lockedUntil := none
  mustChangePassword := false
  totpSecret := []
  totpEnabled := false
  totpLastStep := none
  recoveryCodes := []
  sessionVersion := 1
  approvalStatus := .approved
  createdBy := none
  approvedBy := none
  pendingRole := none
  pendingBy := none
  passwordResetBy := none
  passwordResetAt := none

/-- two admins, the first of them the bootstrap account -/
def sampleAdmins : UserTable := ⟨[sampleUser 1 "admin" .admin, sampleUser 2 "second" .admin], by decide⟩

def ldapOff : LdapConfig := ⟨false, [], [], []⟩

/-- the default configuration, dual control on, at a given time -/
def Env.at (now : DateTime) : Env := ⟨now, now, 5, 15, ldapOff, true, 60 * second, "admin".toList, true, 24, 12⟩

/-- hashes that are the passwords, a MAC that is the message, one one-time code for each secret, an empty directory -/
def sampleLib : Lib :=
  ⟨.ascii, fun _ password => password, fun hash password => hash == password, fun _ _ _ => .refused, fun message => message,
    fun secret _ => .ok secret, Char.isDigit⟩

end Chancery.Auth
