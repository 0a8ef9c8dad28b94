/-
Where the login in a cookie comes from, and what a change of credentials leaves of the account.

`handleAuth_changed`: the changed account has the next session version, and no second factor if the request removes it.
`handleAuth_source`: the account and the stamp of an answered cookie are those of the cookie that came, or a password
that was checked in this request, or a code that was checked for a pending step, or the stamp of the change itself.
-/
import Mathlib.Tactic
import Chancery.Routes.BasicCache

namespace Chancery.Auth

open Chancery.Core

/-! ## The changed account -/

/-- does the request remove the second factor of the account that it changes -/
def OwnRequest.disables : OwnRequest → Bool
  | .twoFactorDisable _ _ _ => true
  | _ => false

def UserRequest.disables : UserRequest → Bool
  | .reset2fa _ => true
  | _ => false

def AuthRequest.disables : AuthRequest → Bool
  | .own r => r.disables
  | .ownBasic _ _ _ r => r.disables
  | .administer _ r => r.disables
  | _ => false

/-- does the request stamp its cookie when it changes credentials -/
def AuthRequest.stamps : AuthRequest → Bool
  | .own _ => true
  | .ownBasic _ _ _ _ => true
  | _ => false

def CliCommand.disables : CliCommand → Bool
  | .reset2fa _ => true
  | _ => false

section Changed

variable {lib : Lib} {env : Env} {ldap : Option LdapConfig} {store : Store} {users users' : UserTable} {session : Session}
  {cache : Cache} {u : User}

/-- a changed account after the request: its next version, and its second factor gone if that was asked -/
def ChangedRow (users' : UserTable) (off : Bool) (u : User) : Prop :=
  ∃ u', users'.get? u.id = some u' ∧ u'.sessionVersion = u.sessionVersion + 1 ∧ (off = true → u'.totpEnabled = false)

theorem Evolves.changedRow (h : Evolves (some u.id) users users') (hu : users.get? u.id = some u) :
    ChangedRow users' false u := by
  obtain ⟨u', hget, hnext⟩ := h.row u.id u hu
  rw [if_pos rfl] at hnext
  exact ⟨u', hget, hnext.sessionVersion, (fun hoff => nomatch hoff)⟩

/-- the write of a request that removes the second factor -/
theorem changedRow_clearTotp (hu : users.get? u.id = some u) :
    ChangedRow (users.update u.id (fun a => bumpSessionVersion (clearTotp a)) bumpSessionVersion_clearTotp_id) true u := by
  refine ⟨bumpSessionVersion (clearTotp u), ?_, rfl, fun _ => rfl⟩
  rw [Table.get?_update_self, hu, Option.map_some]

theorem twoFactorDisable_users {enforced : Bool} {password code : Text}
    (h : (OwnRequest.twoFactorDisable enforced password code).changes lib env session users = some u) :
    (twoFactorDisable lib env enforced password code session users cache).users =
      users.update u.id (fun a => bumpSessionVersion (clearTotp a)) bumpSessionVersion_clearTotp_id := by
  obtain ⟨huser, hchecks⟩ := Option.filter_eq_some_iff.1 h
  obtain ⟨hpassword, hcode⟩ := Bool.and_eq_true_iff.1 hchecks
  unfold twoFactorDisable
  simp only [huser]
  rw [Bool.not_eq_true'] at hpassword
  rw [if_neg (Bool.eq_false_iff.1 hpassword)]
  cases hfactor : checkSecondFactor lib env u code with
  | error e => simp [hfactor] at hcode
  | ok factor =>
    cases factor with
    | none => simp [hfactor] at hcode
    | some factor => rfl

theorem handleOwn_changed {r : OwnRequest} (h : r.changes lib env session users = some u) :
    ChangedRow (handleOwn lib env session users cache r).users r.disables u := by
  have hu := currentUser_get? (OwnRequest.changes_current h)
  have hevolves := (@handleOwn_outcome lib env users session cache r).evolves
  rw [h] at hevolves
  cases r with
  | twoFactorDisable enforced password code =>
    simp only [handleOwn, twoFactorDisable_users h]
    exact changedRow_clearTotp hu
  | changePassword form => exact hevolves.changedRow hu
  | twoFactorSetup secret code codes => exact hevolves.changedRow hu
  | recoveryCodes code codes => cases h

theorem handleUsers_changed {actor : ℤ} {r : UserRequest} {admin : User} (hadmin : currentAdmin users actor = some admin)
    (h : r.changes env ldap users admin = some u) :
    ChangedRow (handleUsers lib env ldap actor r users cache).1 r.disables u := by
  have hu := UserRequest.changes_get? h
  have hevolves := (@handleUsers_outcome lib env ldap users cache actor r).evolves
  rw [hadmin, Option.bind_some, h] at hevolves
  cases r with
  | reset2fa uid =>
    obtain ⟨hget, hon⟩ := Option.filter_eq_some_iff.1 h
    simp only [handleUsers, hadmin, hget, Option.elim_some, reset2fa]
    rw [if_pos hon]
    exact changedRow_clearTotp hu
  | resetPassword uid salt password => exact hevolves.changedRow hu
  | create form => cases h
  | edit uid role => cases h
  | toggle uid => cases h
  | approve uid => cases h

/-- **The changed account.** It has the next session version, and no second factor if the request removes it. -/
theorem handleAuth_changed {r : AuthRequest} (h : r.changes lib env store session cache = some u) :
    ChangedRow (handleAuth lib env store session cache r).store.users r.disables u := by
  cases r with
  | login username password => cases h
  | twoFactor code => cases h
  | basic username password => cases h
  | saveLdap cfg => cases h
  | resetLdap => cases h
  | own r => exact handleOwn_changed h
  | administer actor r =>
    obtain ⟨admin, hadmin, hr⟩ := Option.bind_eq_some_iff.1 h
    exact handleUsers_changed hadmin hr
  | ownBasic enforced username password r =>
    obtain ⟨v, hv, hr⟩ := Option.bind_eq_some_iff.1 h
    simp only [handleAuth, handleOwnBasic, hv]
    exact handleOwn_changed hr

theorem handleCli_changed {c : CliCommand} (h : c.changes env users = some u) :
    ChangedRow (handleCli lib env users c) c.disables u := by
  have hevolves := @handleCli_evolves lib env users c
  rw [h] at hevolves
  cases c with
  | unlock username => cases h
  | approve username => cases h
  | resetPassword username salt password =>
    obtain ⟨hfind, -⟩ := Option.filter_eq_some_iff.1 h
    exact hevolves.changedRow (Table.get?_key (findUser_mem hfind))
  | reset2fa username =>
    obtain ⟨hfind, -⟩ := Option.filter_eq_some_iff.1 h
    have h : (findUser users username).filter (·.totpEnabled) = some u := h
    simp only [handleCli, h, Option.elim_some]
    exact changedRow_clearTotp (Table.get?_key (findUser_mem hfind))

end Changed

/-! ## The answered cookie -/

/-- where the account and the stamp of an answered cookie come from -/
inductive LoginSource (env : Env) (users users' : UserTable) (changed : Option User) (session answer : Session) :
    AuthRequest → Prop
  /-- they are those of the cookie that came -/
  | kept {r : AuthRequest} (userId : answer.userId = session.userId) (sv : answer.sv = session.sv) :
      LoginSource env users users' changed session answer r
  /-- a password checked in this request -/
  | password {u : User} {username password : Text} (found : users'.get? u.id = some u)
      (answer_eq : answer = finishLogin u) :
      LoginSource env users users' changed session answer (.login username password)
  /-- a code checked in this request, for a pending step -/
  | code {u : User} {code : Text} (pending : pre2faUser env session users = some u) (answer_eq : answer = finishLogin u) :
      LoginSource env users users' changed session answer (.twoFactor code)
  /-- the change of credentials in this request -/
  | own {u : User} {r : OwnRequest} (changed_eq : changed = some u) (answer_eq : answer = stamped session changed) :
      LoginSource env users users' changed session answer (.own r)
  | ownBasic {u : User} {enforced : Bool} {username password : Text} {r : OwnRequest} (changed_eq : changed = some u)
      (answer_eq : answer = stamped session changed) :
      LoginSource env users users' changed session answer (.ownBasic enforced username password r)

section Source

variable {lib : Lib} {env : Env} {store : Store} {users : UserTable} {session : Session} {cache : Cache} {u : User}

theorem login_source {username password : Text} {changed : Option User} :
    LoginSource env store.users (login lib env store.ldap username password session store.users).1 changed session
      (login lib env store.ldap username password session store.users).2 (.login username password) := by
  have hok := @authenticate_accepts lib env store.ldap store.users (strip username) password
  unfold login
  generalize authenticate lib env store.ldap (strip username) password store.users = r at hok
  cases hu : r.1.user with
  | none =>
    simp only [hu]
    exact .kept rfl rfl
  | some u =>
    simp only [hu]
    by_cases hrefused : (!r.1.ok) = true
    · rw [if_pos hrefused]
      exact .kept rfl rfl
    rw [if_neg hrefused]
    by_cases htotp : u.totpEnabled = true
    · rw [if_pos htotp]
      exact .kept rfl rfl
    rw [if_neg htotp]
    obtain ⟨v, hv, hbacked⟩ := hok (by simpa using hrefused)
    rw [hu] at hv
    rw [Option.some.inj hv]
    exact .password hbacked.found rfl

theorem twoFactor_source {code : Text} {users' : UserTable} {changed : Option User} :
    LoginSource env users users' changed session (twoFactor lib env code session users).2 (.twoFactor code) := by
  unfold twoFactor
  cases hu : pre2faUser env session users with
  | none => exact .kept rfl rfl
  | some u =>
    simp only
    split_ifs
    · exact .kept rfl rfl
    · cases checkSecondFactor lib env u code with
      | error e => exact .kept rfl rfl
      | ok factor =>
        cases factor with
        | none => exact .kept rfl rfl
        | some factor => exact .code hu rfl

/-- an account that is logged in under a cookie does not have the stamp of its own next version there -/
theorem stamped_ne (h : currentUser users session = some u) : stamped session (some u) ≠ session := by
  obtain ⟨hload, -⟩ := Option.filter_eq_some_iff.1 h
  obtain ⟨-, hsv⟩ := Option.filter_eq_some_iff.1 hload
  intro heq
  have hstamp : session.sv = some (u.sessionVersion + 1) := by rw [← heq]; rfl
  simp [hstamp] at hsv

/-- the cookie of a request with a Basic header is stamped like one of a request without -/
theorem restamped_eq {acting : Session} {changed : Option User}
    (h : ∀ u, changed = some u → currentUser users acting = some u) :
    restamped session acting (stamped acting changed) = stamped session changed := by
  unfold restamped
  cases changed with
  | none =>
    have hsame : stamped acting none = acting := rfl
    rw [if_pos hsame]
    rfl
  | some u =>
    rw [if_neg (stamped_ne (h u rfl))]
    rfl

/-- **Answered cookies.** -/
theorem handleAuth_source (r : AuthRequest) :
    LoginSource env store.users (handleAuth lib env store session cache r).store.users
      (r.changes lib env store session cache) session (handleAuth lib env store session cache r).session r := by
  cases r with
  | login username password => exact login_source
  | twoFactor code => exact twoFactor_source
  | basic username password => exact .kept rfl rfl
  | administer actor r => exact .kept rfl rfl
  | saveLdap cfg => exact .kept rfl rfl
  | resetLdap => exact .kept rfl rfl
  | own r =>
    have hstamp : (handleAuth lib env store session cache (.own r)).session =
        stamped session ((AuthRequest.own r).changes lib env store session cache) := (handleOwn_outcome r).session_eq
    cases hchanged : (AuthRequest.own r).changes lib env store session cache with
    | none =>
      rw [hchanged] at hstamp
      rw [hstamp]
      exact .kept rfl rfl
    | some u =>
      rw [hchanged] at hstamp
      exact .own rfl hstamp
  | ownBasic enforced username password r =>
    have hstamp : (handleAuth lib env store session cache (.ownBasic enforced username password r)).session =
        stamped session ((AuthRequest.ownBasic enforced username password r).changes lib env store session cache) := by
      simp only [handleAuth, handleOwnBasic, AuthRequest.changes]
      cases basicUser enforced (authenticateBasic lib env store.ldap username password store.users cache).result with
      | none => rfl
      | some v =>
        simp only [Option.bind_some, (handleOwn_outcome r).session_eq]
        exact restamped_eq fun u hu => OwnRequest.changes_current hu
    cases hchanged : (AuthRequest.ownBasic enforced username password r).changes lib env store session cache with
    | none =>
      rw [hchanged] at hstamp
      rw [hstamp]
      exact .kept rfl rfl
    | some u =>
      rw [hchanged] at hstamp
      exact .ownBasic rfl hstamp

end Source

end Chancery.Auth
