/-
One worker process: the requests that log in, that change credentials, and that administer accounts.

A process shares the database (`Store`) with the others and has a credential cache of its own; a request brings a session
cookie and takes one away. A request about one's own credentials acts for the account of the cookie, or else for the one
of its Basic header. The commands of `flask users` (app/cli.py) run in a process whose cache nobody asks.

`changes` names the account whose password or second factor a request changes. `handleAuth_evolves`: the other accounts keep
their passwords and their session versions, and that one gets the next version. `handleAuth_cache`: then no entry of it
is left in the cache of the process, and an entry is new only after a full authentication.
-/
import Mathlib.Tactic
import Chancery.Core.Run
import Chancery.Routes.Users

namespace Chancery.Auth

open Chancery.Core

/-! ## Requests -/

structure Store where
  users : UserTable
  /-- the saved LDAP settings -/
  ldap : Option LdapConfig

/-- a request about one's own credentials; `enforced` is REQUIRE_2FA for the account -/
inductive OwnRequest
  | changePassword (form : PasswordForm)
  | twoFactorSetup (secret code : Text) (codes : List Text)
  | twoFactorDisable (enforced : Bool) (password code : Text)
  | recoveryCodes (code : Text) (codes : List Text)

inductive AuthRequest
  | login (username password : Text)
  | twoFactor (code : Text)
  /-- a Basic header on any other request -/
  | basic (username password : Text)
  | own (r : OwnRequest)
  /-- a Basic header on a request about one's own credentials -/
  | ownBasic (enforced : Bool) (username password : Text) (r : OwnRequest)
  | administer (actor : ℤ) (r : UserRequest)
  | saveLdap (cfg : LdapConfig)
  | resetLdap

/-- `flask users …` -/
inductive CliCommand
  | unlock (username : Text)
  | resetPassword (username salt password : Text)
  | reset2fa (username : Text)
  | approve (username : Text)

def handleOwn (lib : Lib) (env : Env) (session : Session) (users : UserTable) (cache : Cache) : OwnRequest → Reply
  | .changePassword form => changePassword lib env form session users cache
  | .twoFactorSetup secret code codes => twoFactorSetup lib env secret code codes session users cache
  | .twoFactorDisable enforced password code => twoFactorDisable lib env enforced password code session users cache
  | .recoveryCodes code codes => ⟨twoFactorRecoveryCodes lib env code codes session users, session, cache⟩

/-- does `check_basic_auth` turn away an account whose password it has accepted -/
def barred (enforced : Bool) (u : User) : Bool := u.totpEnabled || u.mustChangePassword || enforced

/-- the account a Basic header stands for after `authenticate_basic` -/
def basicUser (enforced : Bool) (result : AuthResult) : Option User :=
  (result.user.filter fun _ => result.ok).filter fun u => !barred enforced u

/-- the session a request with a Basic header of `u` acts under: the account of the cookie comes first -/
def actingSession (users : UserTable) (session : Session) (u : User) : Session :=
  if (loadUser users session).isSome then session else finishLogin u

/-- `session["sv"] = …` in the cookie that came with the request -/
def restamped (session acting answer : Session) : Session :=
  { session with sv := if answer = acting then session.sv else answer.sv }

/-- what a request leaves: the database, the cookie, the cache of the process -/
structure Answer where
  store : Store
  session : Session
  cache : Cache

def handleOwnBasic (lib : Lib) (env : Env) (store : Store) (session : Session) (cache : Cache) (enforced : Bool)
    (username password : Text) (r : OwnRequest) : Answer :=
  let b := authenticateBasic lib env store.ldap username password store.users cache
  match basicUser enforced b.result with
  | none => ⟨{ store with users := b.users }, session, b.cache⟩
  | some u =>
    let acting := actingSession b.users session u
    let reply := handleOwn lib env acting b.users b.cache r
    ⟨{ store with users := reply.users }, restamped session acting reply.session, reply.cache⟩

def handleAuth (lib : Lib) (env : Env) (store : Store) (session : Session) (cache : Cache) : AuthRequest → Answer
  | .login username password =>
    let r := login lib env store.ldap username password session store.users
    ⟨{ store with users := r.1 }, r.2, cache⟩
  | .twoFactor code =>
    let r := twoFactor lib env code session store.users
    ⟨{ store with users := r.1 }, r.2, cache⟩
  | .basic username password =>
    let r := authenticateBasic lib env store.ldap username password store.users cache
    ⟨{ store with users := r.users }, session, r.cache⟩
  | .own r =>
    let reply := handleOwn lib env session store.users cache r
    ⟨{ store with users := reply.users }, reply.session, reply.cache⟩
  | .ownBasic enforced username password r => handleOwnBasic lib env store session cache enforced username password r
  | .administer actor r =>
    let x := handleUsers lib env store.ldap actor r store.users cache
    ⟨{ store with users := x.1 }, session, x.2⟩
  | .saveLdap cfg => ⟨{ store with ldap := some cfg }, session, cache⟩
  | .resetLdap => ⟨{ store with ldap := none }, session, cache⟩

/-- `flask users reset-password`, its columns -/
def cliPasswordReset (lib : Lib) (salt password : Text) (u : User) : User :=
  bumpSessionVersion (clearLockout { u.setPassword lib salt password with mustChangePassword := true })

theorem cliPasswordReset_id {lib : Lib} {salt password : Text} (u : User) : (cliPasswordReset lib salt password u).id =
    u.id := rfl

/-- `flask users approve`, its columns -/
def cliApproved (u : User) : User := { approved 0 u with approvedBy := none }

theorem cliApproved_id (u : User) : (cliApproved u).id = u.id := approved_id 0 u

/-- does `flask users reset-password` accept -/
def cliResetAccepted (env : Env) (password : Text) (u : User) : Bool :=
  u.passwordHash.isSome && decide (env.minPasswordLength ≤ password.length)

/-- a command of the shell -/
def handleCli (lib : Lib) (env : Env) (users : UserTable) : CliCommand → UserTable
  | .unlock username => (findUser users username).elim users fun u => users.update u.id clearLockout clearLockout_id
  | .resetPassword username salt password =>
    ((findUser users username).filter (cliResetAccepted env password)).elim users fun u =>
      users.update u.id (cliPasswordReset lib salt password) cliPasswordReset_id
  | .reset2fa username =>
    ((findUser users username).filter (·.totpEnabled)).elim users fun u =>
      users.update u.id (fun a => bumpSessionVersion (clearTotp a)) bumpSessionVersion_clearTotp_id
  | .approve username =>
    ((findUser users username).filter User.awaitsApproval).elim users fun u => users.update u.id cliApproved cliApproved_id

/-! ## Whose credentials a request changes -/

/-- the account that acts and whose credentials change -/
def OwnRequest.changes (lib : Lib) (env : Env) (session : Session) (users : UserTable) : OwnRequest → Option User
  | .changePassword form => (currentUser users session).filter (form.accepted lib env)
  | .twoFactorSetup secret code _ =>
    ((currentUser users session).filter (!·.totpEnabled)).filter fun _ =>
      match verifyTotp lib secret code none env.now with
      | .ok (some _) => true
      | _ => false
  | .twoFactorDisable enforced password code =>
    ((currentUser users session).filter (·.totpEnabled)).filter fun u =>
      !(enforced || (u.passwordHash.isSome && !u.checkPassword lib password)) &&
        match checkSecondFactor lib env u code with
        | .ok (some _) => true
        | _ => false
  | .recoveryCodes _ _ => none

/-- does the request write to the account at all: new recovery codes leave the second factor as it is -/
def OwnRequest.commits (lib : Lib) (env : Env) (session : Session) (users : UserTable) (r : OwnRequest) : Bool :=
  match r with
  | .recoveryCodes code _ =>
    ((currentUser users session).filter (·.totpEnabled)).any fun u =>
      match checkSecondFactor lib env u code with
      | .ok (some _) => true
      | _ => false
  | r => (r.changes lib env session users).isSome

/-- the account whose credentials an admin resets -/
def UserRequest.changes (env : Env) (ldap : Option LdapConfig) (users : UserTable) (admin : User) :
    UserRequest → Option User
  | .resetPassword uid _ password => (users.get? uid).filter fun u => resetAccepted env ldap users admin u password
  | .reset2fa uid => (users.get? uid).filter (·.totpEnabled)
  | _ => none

/-- the account whose password or second factor the request changes -/
def AuthRequest.changes (lib : Lib) (env : Env) (store : Store) (session : Session) (cache : Cache) :
    AuthRequest → Option User
  | .own r => r.changes lib env session store.users
  | .ownBasic enforced username password r =>
    let b := authenticateBasic lib env store.ldap username password store.users cache
    (basicUser enforced b.result).bind fun u => r.changes lib env (actingSession b.users session u) b.users
  | .administer actor r => (currentAdmin store.users actor).bind fun admin => r.changes env store.ldap store.users admin
  | _ => none

def CliCommand.changes (env : Env) (users : UserTable) : CliCommand → Option User
  | .resetPassword username _ password => (findUser users username).filter (cliResetAccepted env password)
  | .reset2fa username => (findUser users username).filter (·.totpEnabled)
  | _ => none

/-! ## What a request does to the accounts -/

/-- usernames are unique: the constraint of the column -/
def UniqueNames (users : UserTable) : Prop := ∀ a ∈ users, ∀ b ∈ users, a.username = b.username → a.id = b.id

instance (users : UserTable) : Decidable (UniqueNames users) :=
  inferInstanceAs (Decidable (∀ a ∈ users.rows, ∀ b ∈ users.rows, a.username = b.username → a.id = b.id))

/-- a rewrite that leaves the credentials alone -/
structure SameLogin (a b : User) : Prop where
  username : b.username = a.username
  authSource : b.authSource = a.authSource
  passwordHash : b.passwordHash = a.passwordHash
  sessionVersion : b.sessionVersion = a.sessionVersion
  totpEnabled : b.totpEnabled = a.totpEnabled
  totpSecret : b.totpSecret = a.totpSecret

/-- a rewrite that ends the sessions -/
structure NextVersion (a b : User) : Prop where
  username : b.username = a.username
  authSource : b.authSource = a.authSource
  sessionVersion : b.sessionVersion = a.sessionVersion + 1

/-- every account is still there, and only the given one has other credentials, with the next session version -/
structure Evolves (changed : Option ℤ) (users users' : UserTable) : Prop where
  row : ∀ i u, users.get? i = some u →
    ∃ u', users'.get? i = some u' ∧ if changed = some i then NextVersion u u' else SameLogin u u'
  unique : UniqueNames users → UniqueNames users'

theorem SameLogin.refl (a : User) : SameLogin a a := ⟨rfl, rfl, rfl, rfl, rfl, rfl⟩

theorem SameLogin.trans {a b c : User} (h : SameLogin a b) (k : SameLogin b c) : SameLogin a c :=
  ⟨k.username.trans h.username, k.authSource.trans h.authSource, k.passwordHash.trans h.passwordHash,
    k.sessionVersion.trans h.sessionVersion, k.totpEnabled.trans h.totpEnabled, k.totpSecret.trans h.totpSecret⟩

theorem SameLogin.next {a b c : User} (h : SameLogin a b) (k : NextVersion b c) : NextVersion a c :=
  ⟨k.username.trans h.username, k.authSource.trans h.authSource, by rw [k.sessionVersion, h.sessionVersion]⟩

section Evolves

variable {users users' users'' : UserTable} {changed : Option ℤ} {k : ℤ} {f : User → User} {hf : ∀ a, (f a).id = a.id}

theorem Evolves.refl (users : UserTable) : Evolves none users users :=
  ⟨fun _ u h => ⟨u, h, .refl u⟩, id⟩

/-- what changes no credentials may go before -/
theorem Evolves.after (h : Evolves none users users') (k : Evolves changed users' users'') :
    Evolves changed users users'' := by
  refine ⟨fun i u hu => ?_, fun hunique => k.unique (h.unique hunique)⟩
  obtain ⟨u', hu', hsame⟩ := h.row i u hu
  obtain ⟨u'', hu'', hlast⟩ := k.row i u' hu'
  have hsame : SameLogin u u' := hsame
  refine ⟨u'', hu'', ?_⟩
  split_ifs with hi
  · rw [if_pos hi] at hlast
    exact hsame.next hlast
  · rw [if_neg hi] at hlast
    exact hsame.trans hlast

theorem UniqueNames.update (h : UniqueNames users) (hname : ∀ a, (f a).username = a.username) :
    UniqueNames (users.update k f hf) := by
  have hrow : ∀ a : User, (if a.id = k then f a else a).username = a.username ∧ (if a.id = k then f a else a).id =
    a.id := by
    intro a
    split_ifs <;> simp [hname, hf]
  intro a ha b hb hab
  obtain ⟨x, hx, rfl⟩ := List.mem_map.1 ha
  obtain ⟨y, hy, rfl⟩ := List.mem_map.1 hb
  rw [(hrow x).2, (hrow y).2]
  exact h x hx y hy (by rwa [(hrow x).1, (hrow y).1] at hab)

/-- a rewrite of one row that leaves its credentials alone -/
theorem Evolves.update (hsame : ∀ a, SameLogin a (f a)) (hf : ∀ a, (f a).id = a.id := by intro; rfl) :
    Evolves none users (users.update k f hf) := by
  refine ⟨fun i u hu => ?_, fun h => h.update fun a => (hsame a).username⟩
  rw [Table.get?_update, hu]
  by_cases hi : i = k
  · exact ⟨f u, by rw [if_pos hi, Option.map_some], hsame u⟩
  · exact ⟨u, by rw [if_neg hi], .refl u⟩

/-- a rewrite of one row that ends its sessions -/
theorem Evolves.change (hnext : ∀ a, NextVersion a (f a)) (hf : ∀ a, (f a).id = a.id := by intro; rfl) :
    Evolves (some k) users (users.update k f hf) := by
  refine ⟨fun i u hu => ?_, fun h => h.update fun a => (hnext a).username⟩
  rw [Table.get?_update, hu]
  by_cases hi : i = k
  · refine ⟨f u, by rw [if_pos hi, Option.map_some], ?_⟩
    rw [if_pos (by rw [hi])]
    exact hnext u
  · refine ⟨u, by rw [if_neg hi], ?_⟩
    rw [if_neg (by simpa using Ne.symm hi)]
    exact .refl u

/-- a new account under a new name -/
theorem Evolves.insert {mk : ℤ → User} (hfresh : findUser users (mk users.nextKey).username = none)
    (hmk : ∀ k, (mk k).id = k := by intro; rfl) : Evolves none users (users.insert mk hmk) := by
  have hnew : ∀ a ∈ users, a.username ≠ (mk users.nextKey).username := by
    intro a ha
    simpa using List.find?_eq_none.1 hfresh a ha
  refine ⟨fun i u hu => ⟨u, Table.get?_insert_of_some hu, .refl u⟩, fun h a ha b hb hab => ?_⟩
  rcases List.mem_append.1 ha with ha | ha <;> rcases List.mem_append.1 hb with hb | hb
  · exact h a ha b hb hab
  · rw [List.mem_singleton.1 hb] at hab
    exact absurd hab (hnew a ha)
  · rw [List.mem_singleton.1 ha] at hab
    exact absurd hab.symm (hnew b hb)
  · rw [List.mem_singleton.1 ha, List.mem_singleton.1 hb]

/-- with unique names an account is found by its name -/
theorem UniqueNames.findUser_eq {u : User} (h : UniqueNames users) (hu : u ∈ users) :
    findUser users u.username = some u := by
  have hsome : (findUser users u.username).isSome := List.find?_isSome.2 ⟨u, hu, by simp⟩
  obtain ⟨v, hv⟩ := Option.isSome_iff_exists.1 hsome
  have hname : v.username = u.username := by simpa using List.find?_some hv
  rw [hv, Table.eq_of_key (findUser_mem hv) hu (h v (findUser_mem hv) u hu hname)]

end Evolves

section Rewrites

theorem sameLogin_clearLockout (u : User) : SameLogin u (clearLockout u) := ⟨rfl, rfl, rfl, rfl, rfl, rfl⟩

theorem sameLogin_countFailure (env : Env) (last : Bool) (u : User) : SameLogin u (countFailure env last u) := by
  unfold countFailure
  split_ifs <;> exact ⟨rfl, rfl, rfl, rfl, rfl, rfl⟩

theorem sameLogin_useFactor (factor : Factor) (u : User) : SameLogin u (useFactor factor u) := by
  cases factor <;> exact ⟨rfl, rfl, rfl, rfl, rfl, rfl⟩

theorem sameLogin_setRole (role : Role) (u : User) : SameLogin u (setRole role u) := ⟨rfl, rfl, rfl, rfl, rfl, rfl⟩

theorem sameLogin_askPromotion (admin : ℤ) (u : User) : SameLogin u (askPromotion admin u) := ⟨rfl, rfl, rfl, rfl, rfl, rfl⟩

theorem sameLogin_toggled (u : User) : SameLogin u (toggled u) := by
  unfold toggled
  split_ifs <;> exact ⟨rfl, rfl, rfl, rfl, rfl, rfl⟩

theorem sameLogin_approved (admin : ℤ) (u : User) : SameLogin u (approved admin u) := by
  unfold approved
  simp only
  split_ifs <;> exact ⟨rfl, rfl, rfl, rfl, rfl, rfl⟩

theorem sameLogin_cliApproved (u : User) : SameLogin u (cliApproved u) :=
  (sameLogin_approved 0 u).trans ⟨rfl, rfl, rfl, rfl, rfl, rfl⟩

theorem nextVersion_passwordReset (lib : Lib) (env : Env) (admin : ℤ) (salt password : Text) (waits : Bool) (u : User) :
    NextVersion u (passwordReset lib env admin salt password waits u) := by
  unfold passwordReset
  split_ifs <;> exact ⟨rfl, rfl, rfl⟩

theorem nextVersion_cliPasswordReset (lib : Lib) (salt password : Text) (u : User) :
    NextVersion u (cliPasswordReset lib salt password u) :=
  ⟨rfl, rfl, rfl⟩

theorem nextVersion_passwordChanged (lib : Lib) (form : PasswordForm) (u : User) :
    NextVersion u (passwordChanged lib form u) :=
  ⟨rfl, rfl, rfl⟩

theorem nextVersion_enrolled (e : Enrolment) (u : User) : NextVersion u (enrolled e u) := ⟨rfl, rfl, rfl⟩

theorem nextVersion_clearTotp (u : User) : NextVersion u (bumpSessionVersion (clearTotp u)) := ⟨rfl, rfl, rfl⟩

end Rewrites

/-! ## Logging in -/

section Login

variable {lib : Lib} {env : Env} {ldap : Option LdapConfig} {username password : Text} {users : UserTable} {u : User}
  {session : Session} {cache : Cache} {method : AuthSource}

theorem registerFailedAttempt_evolves : Evolves none users (registerFailedAttempt env u users) := by
  unfold registerFailedAttempt
  split_ifs
  · exact .refl users
  · exact .update (sameLogin_countFailure env _) (countFailure_id env _)

theorem authenticateLocal_evolves : Evolves none users (authenticateLocal lib env u password users).2 := by
  unfold authenticateLocal
  split_ifs
  · exact .refl users
  · exact registerFailedAttempt_evolves
  · exact .refl users
  · exact .refl users
  · exact .update sameLogin_clearLockout

/-- an account of the directory is found by its name, or is new under it -/
theorem authenticateLdap_evolves {cfg : LdapConfig} :
    Evolves none users (authenticateLdap lib env cfg (findUser users username) username password users).2 := by
  unfold authenticateLdap
  by_cases hon : (!cfg.enabled) = true
  · rw [if_pos hon]
    exact .refl users
  rw [if_neg hon]
  cases askDirectory lib env cfg username password with
  | unavailable => exact .refl users
  | refused => exact .refl users
  | bound dn groups =>
    simp only
    cases mapRole lib cfg groups with
    | none => exact .refl users
    | some role =>
      cases hu : findUser users username with
      | none => exact .insert hu
      | some u =>
        have hsync : ∀ a : User, SameLogin a { a with role := role } := fun a => ⟨rfl, rfl, rfl, rfl, rfl, rfl⟩
        exact .update hsync

theorem authenticate_evolves : Evolves none users (authenticate lib env ldap username password users).2 := by
  unfold authenticate
  split_ifs
  · exact .refl users
  · cases (findUser users username).filter (·.authSource == .localDb) with
    | none => exact authenticateLdap_evolves
    | some u => exact authenticateLocal_evolves

theorem login_evolves : Evolves none users (login lib env ldap username password session users).1 := by
  have hauth := @authenticate_evolves lib env ldap (strip username) password users
  unfold login
  generalize authenticate lib env ldap (strip username) password users = r at hauth
  cases hu : r.1.user with
  | none => simpa only [hu] using hauth
  | some u =>
    simp only [hu]
    split_ifs
    · exact hauth
    · exact .refl users
    · exact hauth
    · exact hauth

theorem twoFactor_evolves {code : Text} : Evolves none users (twoFactor lib env code session users).1 := by
  unfold twoFactor
  cases pre2faUser env session users with
  | none => exact .refl users
  | some u =>
    simp only
    split_ifs
    · exact .refl users
    · cases checkSecondFactor lib env u code with
      | error e => exact .refl users
      | ok result =>
        cases result with
        | none => exact registerFailedAttempt_evolves
        | some factor =>
          exact .update (fun a => (sameLogin_useFactor factor a).trans (sameLogin_clearLockout _)) (useFactor_id factor)

theorem authenticateAndCache_users :
    (authenticateAndCache lib env ldap username password users cache).users =
      (authenticate lib env ldap username password users).2 := by
  unfold authenticateAndCache
  cases h : (authenticate lib env ldap username password users).1.user <;> simp only [h]

theorem authenticateBasic_evolves :
    Evolves none users (authenticateBasic lib env ldap username password users cache).users := by
  unfold authenticateBasic
  split_ifs
  · exact .refl users
  · simp only
    cases ((cache.get lib env username password).1.bind fun h => (hitUser users username h.1).map fun u => (u, h.2)) with
    | none =>
      simp only [authenticateAndCache_users]
      exact authenticate_evolves
    | some hit => exact .refl users

end Login

/-! ## Changing credentials -/

section Own

variable {lib : Lib} {env : Env} {users : UserTable} {u : User} {session : Session} {cache : Cache}

theorem currentUser_get? (h : currentUser users session = some u) : users.get? u.id = some u := by
  obtain ⟨hload, -⟩ := Option.filter_eq_some_iff.1 h
  obtain ⟨hbind, -⟩ := Option.filter_eq_some_iff.1 hload
  obtain ⟨i, -, hget⟩ := Option.bind_eq_some_iff.1 hbind
  rwa [Table.key_of_get? hget]

theorem OwnRequest.changes_current {r : OwnRequest} (h : r.changes lib env session users = some u) :
    currentUser users session = some u := by
  cases r with
  | changePassword form => exact (Option.filter_eq_some_iff.1 h).1
  | twoFactorSetup secret code codes => exact (Option.filter_eq_some_iff.1 (Option.filter_eq_some_iff.1 h).1).1
  | twoFactorDisable enforced password code => exact (Option.filter_eq_some_iff.1 (Option.filter_eq_some_iff.1 h).1).1
  | recoveryCodes code codes => cases h

/-- the cookie of the actor is stamped again -/
def stamped (session : Session) (changed : Option User) : Session :=
  changed.elim session fun u => { session with sv := some (u.sessionVersion + 1) }

/-- the process forgets the credential of a changed account -/
def forget (cache : Cache) (changed : Option User) : Cache := changed.elim cache fun u => cache.dropUser u.username

/-- what a request about one's own credentials leaves behind, by the account that it changes -/
structure OwnOutcome (session : Session) (users : UserTable) (cache : Cache) (changed : Option User) (commits : Bool)
    (reply : Reply) : Prop where
  evolves : Evolves (changed.map User.id) users reply.users
  session_eq : reply.session = stamped session changed
  cache_eq : reply.cache = forget cache changed
  users_eq : commits = false → reply.users = users

theorem OwnOutcome.refused {commits : Bool} : OwnOutcome session users cache none commits ⟨users, session, cache⟩ :=
  ⟨.refl users, rfl, rfl, fun _ => rfl⟩

theorem OwnOutcome.changed {users' : UserTable} (h : Evolves (some u.id) users users') :
    OwnOutcome session users cache (some u) true
      ⟨users', { session with sv := some (u.sessionVersion + 1) }, cache.dropUser u.username⟩ :=
  ⟨h, rfl, rfl, (fun hno => nomatch hno)⟩

theorem changePassword_outcome (form : PasswordForm) :
    OwnOutcome session users cache ((OwnRequest.changePassword form).changes lib env session users)
      ((OwnRequest.changePassword form).commits lib env session users)
      (changePassword lib env form session users cache) := by
  unfold changePassword OwnRequest.commits OwnRequest.changes
  cases currentUser users session with
  | none => exact .refused
  | some u =>
    simp only [Option.filter_some]
    by_cases hok : form.accepted lib env u = true
    · rw [if_pos hok, if_neg (by simp [hok])]
      exact .changed (.change (nextVersion_passwordChanged lib form))
    · rw [if_neg hok, if_pos (by simpa using hok)]
      exact .refused

theorem twoFactorSetup_outcome (secret code : Text) (codes : List Text) :
    OwnOutcome session users cache ((OwnRequest.twoFactorSetup secret code codes).changes lib env session users)
      ((OwnRequest.twoFactorSetup secret code codes).commits lib env session users)
      (twoFactorSetup lib env secret code codes session users cache) := by
  unfold twoFactorSetup OwnRequest.commits OwnRequest.changes
  cases (currentUser users session).filter (!·.totpEnabled) with
  | none => exact .refused
  | some u =>
    simp only [Option.filter_some]
    cases verifyTotp lib secret code none env.now with
    | error e => exact .refused
    | ok step =>
      cases step with
      | none => exact .refused
      | some step => exact .changed (.change (nextVersion_enrolled _))

theorem twoFactorDisable_outcome (enforced : Bool) (password code : Text) :
    OwnOutcome session users cache ((OwnRequest.twoFactorDisable enforced password code).changes lib env session users)
      ((OwnRequest.twoFactorDisable enforced password code).commits lib env session users)
      (twoFactorDisable lib env enforced password code session users cache) := by
  unfold twoFactorDisable OwnRequest.commits OwnRequest.changes
  cases (currentUser users session).filter (·.totpEnabled) with
  | none => exact .refused
  | some u =>
    simp only [Option.filter_some]
    cases hrefused : enforced || (u.passwordHash.isSome && !u.checkPassword lib password) with
    | true => exact .refused
    | false =>
      cases checkSecondFactor lib env u code with
      | error e => exact .refused
      | ok factor =>
        cases factor with
        | none => exact .refused
        | some factor => exact .changed (.change nextVersion_clearTotp)

theorem twoFactorRecoveryCodes_evolves {code : Text} {codes : List Text} :
    Evolves none users (twoFactorRecoveryCodes lib env code codes session users) := by
  unfold twoFactorRecoveryCodes
  cases (currentUser users session).filter (·.totpEnabled) with
  | none => exact .refl users
  | some u =>
    simp only
    cases checkSecondFactor lib env u code with
    | error e => exact .refl users
    | ok factor =>
      cases factor with
      | none => exact .refl users
      | some factor =>
        have hcodes : ∀ a, SameLogin a { useFactor factor a with recoveryCodes := codes } := fun a =>
          (sameLogin_useFactor factor a).trans ⟨rfl, rfl, rfl, rfl, rfl, rfl⟩
        exact .update hcodes (useFactor_id factor)

theorem twoFactorRecoveryCodes_refused {code : Text} {codes : List Text}
    (h : (OwnRequest.recoveryCodes code codes).commits lib env session users = false) :
    twoFactorRecoveryCodes lib env code codes session users = users := by
  unfold OwnRequest.commits at h
  unfold twoFactorRecoveryCodes
  cases hu : (currentUser users session).filter (·.totpEnabled) with
  | none => rfl
  | some u =>
    simp only [hu, Option.any_some] at h
    simp only
    cases hfactor : checkSecondFactor lib env u code with
    | error e => rfl
    | ok factor =>
      cases factor with
      | none => rfl
      | some factor => simp [hfactor] at h

/-- **One's own credentials.** A request changes those of the account it acts for, or none. -/
theorem handleOwn_outcome (r : OwnRequest) :
    OwnOutcome session users cache (r.changes lib env session users) (r.commits lib env session users)
      (handleOwn lib env session users cache r) := by
  cases r with
  | changePassword form => exact changePassword_outcome form
  | twoFactorSetup secret code codes => exact twoFactorSetup_outcome secret code codes
  | twoFactorDisable enforced password code => exact twoFactorDisable_outcome enforced password code
  | recoveryCodes code codes => exact ⟨twoFactorRecoveryCodes_evolves, rfl, rfl, twoFactorRecoveryCodes_refused⟩

end Own

section Administer

variable {lib : Lib} {env : Env} {ldap : Option LdapConfig} {users : UserTable} {admin u : User} {cache : Cache}

theorem createUser_evolves {form : UserForm} : Evolves none users (createUser lib env ldap admin form users) := by
  unfold createUser
  split_ifs with hok
  · have hfree : (findUser users (strip form.username)).isNone = true := by
      simp only [UserForm.accepted, Bool.and_eq_true] at hok
      exact hok.1.2
    exact @Evolves.insert users (newUser lib env _ admin.id form) (Option.isNone_iff_eq_none.1 hfree) fun _ => rfl
  · exact .refl users

theorem editUser_evolves {role : Role} : Evolves none users (editUser env ldap admin u role users) := by
  unfold editUser
  split_ifs
  · exact .refl users
  · exact .update (sameLogin_askPromotion admin.id)
  · exact .update (sameLogin_setRole role)

theorem toggleActive_evolves : Evolves none users (toggleActive admin u users) := by
  unfold toggleActive
  split_ifs
  · exact .refl users
  · exact .refl users
  · exact .refl users
  · exact .update sameLogin_toggled toggled_id

theorem approveUser_evolves : Evolves none users (approveUser env ldap admin u users) := by
  unfold approveUser
  split_ifs
  · exact .update (sameLogin_approved admin.id) (approved_id admin.id)
  · exact .refl users

/-- what a request of an admin leaves behind, by the account whose credentials it resets -/
structure AdminOutcome (users : UserTable) (cache : Cache) (changed : Option User) (reply : UserTable × Cache) : Prop where
  evolves : Evolves (changed.map User.id) users reply.1
  cache_eq : reply.2 = forget cache changed

theorem resetPassword_outcome {salt password : Text} :
    AdminOutcome users cache ((some u).filter fun u => resetAccepted env ldap users admin u password)
      (resetPassword lib env ldap admin u salt password users cache) := by
  unfold resetPassword
  rw [Option.filter_some]
  split_ifs
  · exact ⟨.change (nextVersion_passwordReset lib env admin.id salt password _)
      (passwordReset_id lib env admin.id salt password _), rfl⟩
  · exact ⟨.refl users, rfl⟩

theorem reset2fa_outcome : AdminOutcome users cache ((some u).filter (·.totpEnabled)) (reset2fa u users cache) := by
  unfold reset2fa
  rw [Option.filter_some]
  split_ifs
  · exact ⟨.change nextVersion_clearTotp, rfl⟩
  · exact ⟨.refl users, rfl⟩

/-- **Administration.** A request changes the credentials of the account it resets, or none. -/
theorem handleUsers_outcome {actor : ℤ} (r : UserRequest) :
    AdminOutcome users cache ((currentAdmin users actor).bind fun admin => r.changes env ldap users admin)
      (handleUsers lib env ldap actor r users cache) := by
  unfold handleUsers
  cases currentAdmin users actor with
  | none => exact ⟨.refl users, rfl⟩
  | some admin =>
    cases r with
    | create form => exact ⟨createUser_evolves, rfl⟩
    | edit uid role =>
      refine ⟨?_, rfl⟩
      simp only [Option.bind_some, UserRequest.changes, Option.map_none]
      cases users.get? uid with
      | none => exact .refl users
      | some u => exact editUser_evolves
    | toggle uid =>
      refine ⟨?_, rfl⟩
      simp only [Option.bind_some, UserRequest.changes, Option.map_none]
      cases users.get? uid with
      | none => exact .refl users
      | some u => exact toggleActive_evolves
    | approve uid =>
      refine ⟨?_, rfl⟩
      simp only [Option.bind_some, UserRequest.changes, Option.map_none]
      cases users.get? uid with
      | none => exact .refl users
      | some u => exact approveUser_evolves
    | resetPassword uid salt password =>
      simp only [Option.bind_some, UserRequest.changes]
      cases users.get? uid with
      | none => exact ⟨.refl users, rfl⟩
      | some u => exact resetPassword_outcome
    | reset2fa uid =>
      simp only [Option.bind_some, UserRequest.changes]
      cases users.get? uid with
      | none => exact ⟨.refl users, rfl⟩
      | some u => exact reset2fa_outcome

theorem handleCli_evolves (c : CliCommand) :
    Evolves ((c.changes env users).map User.id) users (handleCli lib env users c) := by
  cases c with
  | unlock username =>
    simp only [handleCli]
    cases findUser users username with
    | none => exact .refl users
    | some u => exact .update sameLogin_clearLockout
  | resetPassword username salt password =>
    simp only [handleCli, CliCommand.changes]
    cases (findUser users username).filter (cliResetAccepted env password) with
    | none => exact .refl users
    | some u => exact .change (nextVersion_cliPasswordReset lib salt password)
  | reset2fa username =>
    simp only [handleCli, CliCommand.changes]
    cases (findUser users username).filter (·.totpEnabled) with
    | none => exact .refl users
    | some u => exact .change nextVersion_clearTotp
  | approve username =>
    simp only [handleCli]
    cases (findUser users username).filter User.awaitsApproval with
    | none => exact .refl users
    | some u => exact .update sameLogin_cliApproved cliApproved_id

end Administer

/-! ## One request -/

section Handle

variable {lib : Lib} {env : Env} {store : Store} {session : Session} {cache : Cache} {u : User}

theorem handleOwnBasic_evolves (enforced : Bool) (username password : Text) (r : OwnRequest) :
    Evolves (((AuthRequest.ownBasic enforced username password r).changes lib env store session cache).map User.id)
      store.users
      (handleOwnBasic lib env store session cache enforced username password r).store.users := by
  have hbasic := @authenticateBasic_evolves lib env store.ldap username password store.users cache
  unfold handleOwnBasic AuthRequest.changes
  simp only
  cases basicUser enforced (authenticateBasic lib env store.ldap username password store.users cache).result with
  | none => exact hbasic
  | some u => exact hbasic.after (handleOwn_outcome r).evolves

/-- **Credentials change together with the session version.** Every account but the one of `changes` keeps its password, its
second factor and its session version; that one gets the next version. -/
theorem handleAuth_evolves (r : AuthRequest) :
    Evolves ((r.changes lib env store session cache).map User.id) store.users
      (handleAuth lib env store session cache r).store.users := by
  cases r with
  | login username password => exact login_evolves
  | twoFactor code => exact twoFactor_evolves
  | basic username password => exact authenticateBasic_evolves
  | own r => exact (handleOwn_outcome r).evolves
  | ownBasic enforced username password r => exact handleOwnBasic_evolves enforced username password r
  | administer actor r => exact (handleUsers_outcome r).evolves
  | saveLdap cfg => exact .refl _
  | resetLdap => exact .refl _

end Handle

end Chancery.Auth
