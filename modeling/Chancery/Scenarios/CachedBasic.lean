/-
HTTP Basic with and without the credential cache, in one process.

A hit of the cache skips the password check. `authenticate_basic` reads the row again and looks at the name and at
`is_active_user`; `authenticate` would also look at the lockout, and for an account of the directory at the LDAP settings.

(1) `acceptsToo_iff`: for one hit, the full path accepts too exactly when the account is not locked, or, for an account
of the directory, when the present settings still admit the credentials. Passwords, names and sources need no check.
(2) `refines_iff`: so for every sequence of requests to a process that starts with an empty cache.
(3) `locked_account_accepted`: five wrong passwords lock an account, and its cached credentials are accepted.

Premise: the MAC of the cache is injective (`hmac` with SHA-256 has no collisions).
-/
import Mathlib.Tactic
import Chancery.Core.Run
import Chancery.Routes.BasicCache

namespace Chancery.Auth

open Chancery.Core

/-! ## Runs of one process -/

/-- the database as a process finds it, and its cache -/
structure Process where
  store : Store
  cache : Cache

/-- a request at its time, with its cookie -/
structure Ask where
  env : Env
  session : Session
  request : AuthRequest

def serve (lib : Lib) (p : Process) (o : Ask) : Process :=
  let a := handleAuth lib o.env p.store o.session p.cache o.request
  ⟨a.store, a.cache⟩

/-- a process that has just started -/
def started (users : UserTable) (ldap : Option LdapConfig) : Process := ⟨⟨users, ldap⟩, []⟩

/-- the Basic header of a request -/
def AuthRequest.header : AuthRequest → Option (Text × Text)
  | .basic username password => some (username, password)
  | .ownBasic _ username password _ => some (username, password)
  | _ => none

/-- `authenticate` accepts the credentials too and returns this account; a directory that does not answer is left out -/
def AcceptsToo (lib : Lib) (env : Env) (ldap : Option LdapConfig) (username password : Text) (users : UserTable)
    (u : User) :
    Prop :=
  let r := (authenticate lib { env with reachable := true } ldap username password users).1
  (r.ok = true ∧ r.user.map User.id = some u.id) ∨ r.reason = some .ldapUnreachable

/-- what the cache accepts in this request, the full path accepts -/
def Refines (lib : Lib) (p : Process) (o : Ask) : Prop :=
  ∀ username password, o.request.header = some (username, password) →
    ∀ u, cachedAccount lib o.env p.store.users p.cache username password = some u →
      AcceptsToo lib o.env p.store.ldap username password p.store.users u

/-! ## The condition -/

/-- do the present settings admit the credentials, as far as the directory answers -/
def directoryAdmits (lib : Lib) (cfg : LdapConfig) (username password : Text) : Bool :=
  match lib.directory cfg username password with
  | .unavailable => true
  | .refused => false
  | .bound _ groups => (mapRole lib cfg groups).isSome

/-- the account is not locked; an account of the directory is still admitted by the settings -/
def stillOpen (lib : Lib) (env : Env) (ldap : Option LdapConfig) (username password : Text) (u : User) : Bool :=
  match u.authSource with
  | .localDb => !isLocked env.now u
  | .ldap => (effectiveConfig env ldap).enabled && directoryAdmits lib (effectiveConfig env ldap) username password

/-- every account that the cache accepts in this request is still open -/
def hitsOpen (lib : Lib) (p : Process) (o : Ask) : Bool :=
  o.request.header.all fun h => (cachedAccount lib o.env p.store.users p.cache h.1 h.2).all fun u =>
    stillOpen lib o.env p.store.ldap h.1 h.2 u

def HitsOpen (lib : Lib) (p : Process) (o : Ask) : Prop := hitsOpen lib p o = true

instance (lib : Lib) (p : Process) (o : Ask) : Decidable (HitsOpen lib p o) :=
  inferInstanceAs (Decidable (hitsOpen lib p o = true))

/-! ## One hit -/

section Hit

variable {lib : Lib} {env : Env} {ldap : Option LdapConfig} {users : UserTable} {cache : Cache} {username password : Text}
  {u : User}

theorem credentialMac_inj (hmac : Function.Injective lib.mac) {password' : Text}
    (h : credentialMac lib username password = credentialMac lib username password') : password = password' :=
  (List.cons.inj (List.append_cancel_left (hmac h))).2

/-- what a hit has checked, with what the entry stands for -/
structure Hit (lib : Lib) (users : UserTable) (username password : Text) (u : User) : Prop where
  nonempty : ¬ (username = [] ∨ password = [])
  mem : u ∈ users
  username : u.username = username
  active : u.isActiveUser = true
  localPassword : u.authSource = .localDb → u.checkPassword lib password = true
  notBlank : u.authSource = .ldap → password.all isSpace = false

theorem hit_of_cached (hmac : Function.Injective lib.mac) (hbacked : ∀ e ∈ cache, Backed lib users e)
    (h : cachedAccount lib env users cache username password = some u) : Hit lib users username password u := by
  unfold cachedAccount at h
  split_ifs at h with hempty
  obtain ⟨⟨uid, method⟩, hget, huser⟩ := Option.bind_eq_some_iff.1 h
  obtain ⟨hrow, hchecks⟩ := Option.filter_eq_some_iff.1 huser
  obtain ⟨hname, hactive⟩ := Bool.and_eq_true_iff.1 hchecks
  obtain ⟨entry, hmem, -, hentry, rfl, rfl⟩ := get_hit hget
  obtain ⟨v, hfound, -, -, password', hpassword, hlocal, hldap⟩ := hbacked _ hmem
  have huv : v = u := Option.some.inj (hfound.symm.trans hrow)
  have hsame : password = password' := credentialMac_inj hmac (hentry.symm.trans hpassword)
  rw [huv, ← hsame] at hlocal
  rw [huv, ← hsame] at hldap
  exact ⟨hempty, Table.mem_of_get? hrow, by simpa using hname, hactive, hlocal, hldap⟩

theorem Hit.local_iff (h : Hit lib users username password u) (hunique : UniqueNames users)
    (hlocal : u.authSource = .localDb) :
    AcceptsToo lib env ldap username password users u ↔ isLocked env.now u = false := by
  have hfind : findUser users username = some u := by
    rw [← h.username]
    exact hunique.findUser_eq h.mem
  unfold AcceptsToo
  simp only
  rw [authenticate_local h.nonempty hfind hlocal, authenticateLocal]
  by_cases hlocked : isLocked env.now u = true
  · rw [if_pos hlocked, hlocked]
    simp [AuthResult.ok]
  · rw [if_neg hlocked, if_neg (by simp [h.localPassword hlocal]), if_neg (by simp [h.active])]
    simp [AuthResult.ok, clearLockout, hlocked]

theorem Hit.ldap_iff (h : Hit lib users username password u) (hunique : UniqueNames users) (hldap : u.authSource = .ldap) :
    AcceptsToo lib env ldap username password users u ↔
      ((effectiveConfig env ldap).enabled && directoryAdmits lib (effectiveConfig env ldap) username password) = true := by
  have hfind : findUser users username = some u := by
    rw [← h.username]
    exact hunique.findUser_eq h.mem
  have hother : (some u).filter (·.authSource == .localDb) = none := by simp [Option.filter_some, hldap]
  have hcfg : effectiveConfig { env with reachable := true } ldap = effectiveConfig env ldap := rfl
  unfold AcceptsToo
  simp only
  rw [authenticate, if_neg h.nonempty, hfind, hother, hcfg]
  generalize effectiveConfig env ldap = cfg
  simp only [authenticateLdap, askDirectory, h.notBlank hldap, directoryAdmits]
  cases cfg.enabled with
  | false => simp [AuthResult.ok]
  | true =>
    cases lib.directory cfg username password with
    | unavailable => simp [AuthResult.ok]
    | refused => simp [AuthResult.ok]
    | bound dn groups =>
      cases hrole : mapRole lib cfg groups with
      | none => simp [AuthResult.ok, hrole]
      | some role => simp [AuthResult.ok, hrole, h.active]

/-- **One hit.** The full path accepts too exactly when the account is still open. -/
theorem acceptsToo_iff (hmac : Function.Injective lib.mac) (hbacked : ∀ e ∈ cache, Backed lib users e)
    (hunique : UniqueNames users) (h : cachedAccount lib env users cache username password = some u) :
    AcceptsToo lib env ldap username password users u ↔ stillOpen lib env ldap username password u = true := by
  have hhit := hit_of_cached hmac hbacked h
  unfold stillOpen
  cases hsource : u.authSource with
  | localDb => simpa using hhit.local_iff hunique hsource
  | ldap => exact hhit.ldap_iff hunique hsource

end Hit

/-! ## Runs -/

/-- what holds of a process at any time: names are unique, and the entries are backed -/
structure ProcessInv (lib : Lib) (p : Process) : Prop where
  unique : UniqueNames p.store.users
  backed : ∀ e ∈ p.cache, Backed lib p.store.users e

theorem ProcessInv.started (lib : Lib) {users : UserTable} (ldap : Option LdapConfig) (h : UniqueNames users) :
    ProcessInv lib (started users ldap) :=
  ⟨h, (fun _ he => nomatch he)⟩

theorem ProcessInv.serve {lib : Lib} {p : Process} (h : ProcessInv lib p) (o : Ask) : ProcessInv lib (serve lib p o) :=
  ⟨(handleAuth_evolves o.request).unique h.unique, handleAuth_backed o.request h.backed⟩

/-- **The cache refines the full path exactly while its hits are open.** -/
theorem refines_iff (lib : Lib) (hmac : Function.Injective lib.mac) (users : UserTable) (hunique : UniqueNames users)
    (ldap : Option LdapConfig) (ops : List Ask) :
    Meets (serve lib) (Refines lib) (started users ldap) ops ↔ Meets (serve lib) (HitsOpen lib) (started users ldap)
      ops := by
  have hagree : ∀ p o, ProcessInv lib p → (Refines lib p o ↔ HitsOpen lib p o) := by
    intro p o hp
    simp only [HitsOpen, hitsOpen, Option.all_eq_true]
    constructor
    · intro h header hheader u hu
      exact (acceptsToo_iff hmac hp.backed hp.unique hu).1 (h header.1 header.2 hheader u hu)
    · intro h username password hheader u hu
      exact (acceptsToo_iff hmac hp.backed hp.unique hu).2 (h (username, password) hheader u hu)
  exact meets_congr (fun p o hp => hp.serve o) hagree (.started lib ldap hunique) ops

def sampleEnv : Env := Env.at 0

/-- a request with a Basic header and no cookie -/
def basicAsk (username password : String) : Ask :=
  ⟨sampleEnv, .empty, .basic username.toList password.toList⟩

/-- one accepted login and five wrong passwords -/
def lockingRun : List Ask := basicAsk "second" "second" :: List.replicate 5 (basicAsk "second" "wrong")

/-- up to the lock, a run with a cached account: a login, a hit, and five wrong passwords -/
theorem refines_iff_sample :
    Meets (serve sampleLib) (Refines sampleLib) (started sampleAdmins none) (basicAsk "second" "second" :: lockingRun) :=
  (refines_iff sampleLib (fun _ _ h => h) sampleAdmins (by decide) none _).2 (by decide +kernel)

/-! ## An account locked while it is cached -/

/-- `authenticate_basic` accepts from the cache, and `authenticate` answers that the account is locked -/
def acceptsLocked (lib : Lib) (p : Process) (o : Ask) (username password : Text) : Bool :=
  (cachedAccount lib o.env p.store.users p.cache username password).isSome &&
    (authenticate lib { o.env with reachable := true } p.store.ldap username password p.store.users).1.reason ==
      some .accountLocked

theorem not_refines_of_acceptsLocked {lib : Lib} {p : Process} {o : Ask} {username password : Text}
    (hheader : o.request.header = some (username, password)) (h : acceptsLocked lib p o username password = true) :
    ¬ Refines lib p o := by
  obtain ⟨hcached, hreason⟩ := Bool.and_eq_true_iff.1 h
  obtain ⟨u, hu⟩ := Option.isSome_iff_exists.1 hcached
  have hlocked := beq_iff_eq.1 hreason
  intro hrefines
  rcases hrefines username password hheader u hu with ⟨hok, -⟩ | hunreachable
  · simp [AuthResult.ok, hlocked] at hok
  · rw [hlocked] at hunreachable
    cases hunreachable

/-- **A locked account is accepted from the cache**: at the same moment the full path refuses it. -/
theorem locked_account_accepted :
    ¬ ∀ lib, Function.Injective lib.mac → ∀ users, UniqueNames users → ∀ ldap ops,
      Meets (serve lib) (Refines lib) (started users ldap) ops := by
  have hunique : UniqueNames sampleAdmins := by decide
  intro h
  have hmeets := h sampleLib (fun _ _ h => h) sampleAdmins hunique none (lockingRun ++ [basicAsk "second" "second"])
  have hlast := (meets_append.1 hmeets).2.1
  exact @not_refines_of_acceptsLocked _ _ _ "second".toList "second".toList rfl (by decide +kernel) hlast

end Chancery.Auth
