/-
Authentications that are older than a change of credentials, over any number of worker processes.

A check of a password or a code lives on in three places: in the stamp of a session cookie, in the pending step of a cookie,
in the credential cache of a process. Any cookie that was issued may come back to any worker at any time. `checkedAt`,
`pendingAt`, `cachedAt` and `changedAt` are not in the code: they number the step of the check, or of the last change.
A request runs from its read to its commit before the next one starts.

(1) `SiteInv.step`: a stamp is at most the session version, so a change ends the older sessions.
(2) `checks_current`: while nothing is left pending or cached elsewhere when credentials change, and no cookie of another
account is stamped, every login, pending step and cached credential is younger than the last change of its account.
(3) `old_checks_survive`: a pending step survives a password reset; a credential cached in a second worker survives a
password change; and a session that had ended is stamped anew by a request with somebody else's Basic header.
-/
import Mathlib.Tactic
import Chancery.Core.Run
import Chancery.Routes.Cookies

namespace Chancery.Auth

open Chancery.Core

/-! ## The site -/

/-- an issued cookie, with the steps of the checks it stands for -/
structure Cookie where
  session : Session
  /-- the check behind its login -/
  checkedAt : ℕ
  /-- the check behind its pending step -/
  pendingAt : ℕ

/-- no cookie -/
def Cookie.blank : Cookie := ⟨.empty, 0, 0⟩

/-- the database, the workers and their caches, and every cookie issued so far -/
structure Site (workers : ℕ) where
  store : Store
  now : DateTime
  monotonic : DateTime
  caches : Fin workers → Cache
  cookies : List Cookie
  steps : ℕ
  /-- the last change of the credentials of an account -/
  changedAt : ℤ → ℕ
  /-- the check behind the cached credential of a username in a worker -/
  cachedAt : Fin workers → Text → ℕ

def Site.start (workers : ℕ) (users : UserTable) (ldap : Option LdapConfig) (now monotonic : DateTime) : Site workers :=
  ⟨⟨users, ldap⟩, now, monotonic, fun _ => [], [], 0, fun _ => 0, fun _ _ => 0⟩

inductive SiteEvent (workers : ℕ)
  /-- a worker serves a request with the cookie of this number, or without one -/
  | request (worker : Fin workers) (cookie : Option ℕ) (r : AuthRequest)
  | shell (c : CliCommand)

/-- an event, some time after the last one, under a configuration -/
structure SiteStep (workers : ℕ) where
  elapsed : ℕ
  config : Env
  event : SiteEvent workers

section Steps

variable {workers : ℕ}

/-- the moment of a step -/
def SiteStep.env (o : SiteStep workers) (s : Site workers) : Env :=
  { o.config with now := s.now + o.elapsed, monotonic := s.monotonic + o.elapsed }

/-- the cookie a request brings -/
def Site.cookie (s : Site workers) (number : Option ℕ) : Cookie := (number.bind fun k => s.cookies[k]?).getD .blank

/-- the step of the check behind the login that a request answers with -/
def AuthRequest.checkedAt (r : AuthRequest) (c : Cookie) (step : ℕ) (changed : Option User) : ℕ :=
  match r with
  | .login _ _ => step
  | .twoFactor _ => c.pendingAt
  | _ => if changed.map User.id = c.session.userId then step else c.checkedAt

/-- the answered cookie: what is the same in it stands for the same check -/
def Cookie.answered (c : Cookie) (r : AuthRequest) (step : ℕ) (changed : Option User) (answer : Session) : Cookie where
  session := answer
  checkedAt :=
    if answer.userId = c.session.userId ∧ answer.sv = c.session.sv then c.checkedAt else r.checkedAt c step changed
  pendingAt := if answer.pre2fa = c.session.pre2fa then c.pendingAt else step

/-- the account that a change marks -/
def Site.marked (s : Site workers) (changed : Option User) (i : ℤ) : ℕ :=
  if changed.map User.id = some i then s.steps + 1 else s.changedAt i

/-- is there an entry of this name that was not there before -/
def Cache.renewed (before after : Cache) (name : Text) : Bool := after.any fun e => e.1 == name && !before.contains e

def Site.serve (lib : Lib) (s : Site workers) (env : Env) (worker : Fin workers) (number : Option ℕ) (r : AuthRequest) :
    Site workers :=
  let c := s.cookie number
  let cache := s.caches worker
  let a := handleAuth lib env s.store c.session cache r
  let changed := r.changes lib env s.store c.session cache
  { store := a.store
    now := env.now
    monotonic := env.monotonic
    caches := Function.update s.caches worker a.cache
    cookies := s.cookies ++ [c.answered r (s.steps + 1) changed a.session]
    steps := s.steps + 1
    changedAt := s.marked changed
    cachedAt := Function.update s.cachedAt worker fun name =>
      if cache.renewed a.cache name then s.steps + 1 else s.cachedAt worker name }

def Site.command (lib : Lib) (s : Site workers) (env : Env) (c : CliCommand) : Site workers :=
  { s with
    store := { s.store with users := handleCli lib env s.store.users c }
    now := env.now
    monotonic := env.monotonic
    steps := s.steps + 1
    changedAt := s.marked (c.changes env s.store.users) }

def Site.step (lib : Lib) (s : Site workers) (o : SiteStep workers) : Site workers :=
  match o.event with
  | .request worker number r => s.serve lib (o.env s) worker number r
  | .shell c => s.command lib (o.env s) c

/-! ## Nothing accepted is older than the last change -/

/-- every login, pending step and cached credential that is still accepted is younger than the last change of its account -/
structure Current (lib : Lib) (s : Site workers) : Prop where
  session : ∀ c ∈ s.cookies, ∀ u, currentUser s.store.users c.session = some u → s.changedAt u.id ≤ c.checkedAt
  pending : ∀ c ∈ s.cookies, ∀ env : Env, s.now ≤ env.now → ∀ u, pre2faUser env c.session s.store.users = some u →
    s.changedAt u.id ≤ c.pendingAt
  cached : ∀ worker, ∀ env : Env, s.monotonic ≤ env.monotonic → ∀ username password u,
    cachedAccount lib env s.store.users (s.caches worker) username password = some u →
      s.changedAt u.id ≤ s.cachedAt worker username

/-! ## The condition -/

/-- no cookie holds a pending step of this account that has not expired -/
def nonePending (s : Site workers) (now : DateTime) (uid : ℤ) : Bool :=
  s.cookies.all fun c => c.session.pre2fa.all fun p => p.uid != uid || decide (p.exp < now)

/-- a worker holds no entry of this account that has not expired -/
def noneCached (s : Site workers) (monotonic : DateTime) (uid : ℤ) (worker : Fin workers) : Bool :=
  (s.caches worker).all fun e => e.2.userId != uid || decide (e.2.expiresAt ≤ monotonic)

/-- nothing of the account is left when its credentials change: no pending step unless the second factor goes, and no cached
credential in the other processes -/
def nothingLeft (s : Site workers) (env : Env) (off : Bool) (others : Fin workers → Bool) (u : User) : Bool :=
  (off || nonePending s env.now u.id) && decide (∀ w, others w = true → noneCached s env.monotonic u.id w = true)

/-- nothing is left when credentials change, and a cookie that is stamped is no other account's -/
def guarded (lib : Lib) (s : Site workers) (o : SiteStep workers) : Bool :=
  match o.event with
  | .request worker number r =>
    let session := (s.cookie number).session
    (r.changes lib (o.env s) s.store session (s.caches worker)).all fun u =>
      nothingLeft s (o.env s) r.disables (· != worker) u && (!r.stamps || session.userId.all (· == u.id))
  | .shell c => (c.changes (o.env s) s.store.users).all (nothingLeft s (o.env s) c.disables fun _ => true)

def Guarded (lib : Lib) (s : Site workers) (o : SiteStep workers) : Prop := guarded lib s o = true

instance (lib : Lib) (s : Site workers) (o : SiteStep workers) : Decidable (Guarded lib s o) :=
  inferInstanceAs (Decidable (guarded lib s o = true))

/-! ## The invariant -/

/-- a stamp is at most the session version of its account, and the current one is younger than the last change; so is a
pending step that can still be taken -/
structure CookieOk (s : Site workers) (c : Cookie) : Prop where
  login : ∀ i, c.session.userId = some i → ∃ u v, s.store.users.get? i = some u ∧ c.session.sv = some v ∧
    v ≤ u.sessionVersion ∧ (v = u.sessionVersion → s.changedAt i ≤ c.checkedAt)
  pending : ∀ p, c.session.pre2fa = some p → s.now ≤ p.exp → ∀ u, s.store.users.get? p.uid = some u →
    u.totpEnabled = true → s.changedAt p.uid ≤ c.pendingAt

/-- an entry is named after its account, and is younger than the last change until it expires -/
structure EntryOk (s : Site workers) (worker : Fin workers) (e : Text × CacheEntry) : Prop where
  named : ∃ u, s.store.users.get? e.2.userId = some u ∧ u.username = e.1
  young : s.monotonic < e.2.expiresAt → s.changedAt e.2.userId ≤ s.cachedAt worker e.1

structure SiteInv (s : Site workers) : Prop where
  cookies : ∀ c ∈ s.cookies, CookieOk s c
  caches : ∀ worker, ∀ e ∈ s.caches worker, EntryOk s worker e
  /-- an account that does not exist has not changed -/
  fresh : ∀ i, s.store.users.get? i = none → s.changedAt i = 0
  past : ∀ i, s.changedAt i ≤ s.steps

theorem SiteInv.start (users : UserTable) (ldap : Option LdapConfig) (now monotonic : DateTime) :
    SiteInv (Site.start workers users ldap now monotonic) :=
  ⟨(fun _ hc => nomatch hc), (fun _ _ he => nomatch he), fun _ _ => rfl, fun _ => Nat.le_refl 0⟩

/-- a cookie that does not exist holds nothing -/
theorem CookieOk.blank (s : Site workers) : CookieOk s .blank := ⟨(fun _ h => nomatch h), (fun _ h => nomatch h)⟩

theorem SiteInv.cookie {s : Site workers} (h : SiteInv s) (number : Option ℕ) : CookieOk s (s.cookie number) := by
  unfold Site.cookie
  cases hc : number.bind fun k => s.cookies[k]? with
  | none => exact .blank s
  | some c =>
    obtain ⟨k, -, hk⟩ := Option.bind_eq_some_iff.1 hc
    exact h.cookies c (List.mem_of_getElem? hk)

theorem cookie_mem_or_blank (s : Site workers) (number : Option ℕ) : s.cookie number ∈ s.cookies ∨ s.cookie number =
    .blank := by
  unfold Site.cookie
  cases hc : number.bind fun k => s.cookies[k]? with
  | none => exact Or.inr rfl
  | some c =>
    obtain ⟨k, -, hk⟩ := Option.bind_eq_some_iff.1 hc
    exact Or.inl (List.mem_of_getElem? hk)

theorem SiteInv.current {s : Site workers} (h : SiteInv s) (lib : Lib) : Current lib s := by
  refine ⟨fun c hc u hu => ?_, fun c hc env hnow u hu => ?_, fun worker env hmono username password u hu => ?_⟩
  · obtain ⟨hload, -⟩ := Option.filter_eq_some_iff.1 hu
    obtain ⟨hbind, hsv⟩ := Option.filter_eq_some_iff.1 hload
    obtain ⟨i, hi, hget⟩ := Option.bind_eq_some_iff.1 hbind
    obtain ⟨u', v, hget', hv, -, hchecked⟩ := (h.cookies c hc).login i hi
    rw [hget] at hget'
    have hstamp : v = u.sessionVersion := by simpa [hv] using hsv
    rw [Table.key_of_get? hget]
    exact hchecked (by rw [hstamp, Option.some.inj hget'])
  · obtain ⟨p, hp, huser⟩ := Option.bind_eq_some_iff.1 hu
    obtain ⟨hpre, hexp⟩ := Option.filter_eq_some_iff.1 hp
    obtain ⟨hget, hon⟩ := Option.filter_eq_some_iff.1 huser
    have hexp : env.now ≤ p.exp := of_decide_eq_true hexp
    rw [Table.key_of_get? hget]
    exact (h.cookies c hc).pending p hpre (hnow.trans hexp) u hget (Bool.and_eq_true_iff.1 hon).2
  · unfold cachedAccount at hu
    split_ifs at hu
    obtain ⟨⟨uid, method⟩, hget, huser⟩ := Option.bind_eq_some_iff.1 hu
    obtain ⟨hrow, -⟩ := Option.filter_eq_some_iff.1 huser
    obtain ⟨entry, hmem, hlive, -, rfl, -⟩ := get_hit hget
    rw [Table.key_of_get? hrow]
    exact (h.caches worker _ hmem).young (hmono.trans_lt hlive)

/-! ## One step -/

/-- what any step does to the database and to the marks -/
structure Advance (changed : Option User) (off : Bool) (s s' : Site workers) : Prop where
  now : s.now ≤ s'.now
  monotonic : s.monotonic ≤ s'.monotonic
  steps : s'.steps = s.steps + 1
  evolves : Evolves (changed.map User.id) s.store.users s'.store.users
  row : ∀ u, changed = some u → ChangedRow s'.store.users off u
  marked : s'.changedAt = s.marked changed

/-- what a change finds left of its account -/
structure NothingLeft (s : Site workers) (now monotonic : DateTime) (off : Bool) (others : Fin workers → Bool)
    (u : User) : Prop where
  pending : off = true ∨ ∀ c ∈ s.cookies, ∀ p, c.session.pre2fa = some p → p.uid = u.id → p.exp < now
  cached : ∀ w, others w = true → ∀ e ∈ s.caches w, e.2.userId = u.id → e.2.expiresAt ≤ monotonic

theorem nothingLeft_spec {s : Site workers} {env : Env} {off : Bool} {others : Fin workers → Bool} {u : User}
    (h : nothingLeft s env off others u = true) : NothingLeft s env.now env.monotonic off others u := by
  obtain ⟨hpending, hcached⟩ := Bool.and_eq_true_iff.1 h
  refine ⟨(Bool.or_eq_true_iff.1 hpending).imp_right fun hnone c hc p hp huid => ?_, fun w hw e he huid => ?_⟩
  · have hp := (Option.all_eq_true _ _).1 (List.all_eq_true.1 hnone c hc) p hp
    simpa [huid] using hp
  · have he := List.all_eq_true.1 (of_decide_eq_true hcached w hw) e he
    simpa [huid] using he

section Advance

variable {changed : Option User} {off : Bool} {s s' : Site workers} {c : Cookie}

theorem Advance.marked_of_ne {i : ℤ} (h : Advance changed off s s') (hi : changed.map User.id ≠ some i) :
    s'.changedAt i = s.changedAt i := by
  rw [h.marked, Site.marked, if_neg hi]

theorem Advance.marked_le (h : Advance changed off s s') (hinv : SiteInv s) (i : ℤ) : s'.changedAt i ≤ s.steps + 1 := by
  rw [h.marked, Site.marked]
  split_ifs
  · exact Nat.le_refl _
  · exact (hinv.past i).trans (Nat.le_succ _)

theorem Advance.fresh (h : Advance changed off s s') (hinv : SiteInv s) {i : ℤ} (hi : s'.store.users.get? i = none) :
    s'.changedAt i = 0 := by
  have hold : s.store.users.get? i = none := by
    cases hget : s.store.users.get? i with
    | none => rfl
    | some u =>
      obtain ⟨u', hget', -⟩ := h.evolves.row i u hget
      rw [hi] at hget'
      cases hget'
  have hother : changed.map User.id ≠ some i := by
    intro hid
    obtain ⟨u, hu, rfl⟩ := Option.map_eq_some_iff.1 hid
    obtain ⟨u', hget', -⟩ := h.row u hu
    rw [hi] at hget'
    cases hget'
  rw [h.marked_of_ne hother, hinv.fresh i hold]

/-- a stamp stays at most the session version, and a change leaves it behind -/
theorem CookieOk.login_advance (hc : CookieOk s c) (h : Advance changed off s s') (i : ℤ) (hi : c.session.userId = some i) :
    ∃ u v, s'.store.users.get? i = some u ∧ c.session.sv = some v ∧ v ≤ u.sessionVersion ∧
      (v = u.sessionVersion → s'.changedAt i ≤ c.checkedAt) := by
  obtain ⟨u, v, hget, hv, hle, hchecked⟩ := hc.login i hi
  obtain ⟨u', hget', hrow⟩ := h.evolves.row i u hget
  refine ⟨u', v, hget', hv, ?_⟩
  by_cases hid : changed.map User.id = some i
  · rw [if_pos hid] at hrow
    have hnext := hrow.sessionVersion
    exact ⟨by omega, fun heq => by omega⟩
  · rw [if_neg hid] at hrow
    rw [hrow.sessionVersion, h.marked_of_ne hid]
    exact ⟨hle, hchecked⟩

/-- a pending step stays younger than the last change, unless the account changes while it is left -/
theorem CookieOk.pending_advance (hc : CookieOk s c) (hinv : SiteInv s) (h : Advance changed off s s')
    (hleft : ∀ u, changed = some u → off = true ∨ ∀ p, c.session.pre2fa = some p → p.uid = u.id → p.exp < s'.now)
    (p : Pre2fa) (hp : c.session.pre2fa = some p) (hexp : s'.now ≤ p.exp) (u : User)
      (hu : s'.store.users.get? p.uid = some u)
    (hon : u.totpEnabled = true) : s'.changedAt p.uid ≤ c.pendingAt := by
  have hother : changed.map User.id ≠ some p.uid := by
    intro hid
    obtain ⟨v, hv, hvid⟩ := Option.map_eq_some_iff.1 hid
    rcases hleft v hv with hoff | hexpired
    · obtain ⟨v', hget, -, htotp⟩ := h.row v hv
      rw [hvid, hu] at hget
      rw [Option.some.inj hget, htotp hoff] at hon
      cases hon
    · exact absurd (hexpired p hp hvid.symm) (not_lt.2 hexp)
  rw [h.marked_of_ne hother]
  cases hget : s.store.users.get? p.uid with
  | none =>
    rw [hinv.fresh p.uid hget]
    exact Nat.zero_le _
  | some v =>
    obtain ⟨v', hget', hsame⟩ := h.evolves.row p.uid v hget
    rw [if_neg hother] at hsame
    rw [hu] at hget'
    exact hc.pending p hp (h.now.trans hexp) v hget (by rw [← hsame.totpEnabled, ← Option.some.inj hget', hon])

theorem EntryOk.named_advance {worker : Fin workers} {e : Text × CacheEntry} (he : EntryOk s worker e)
    (h : Advance changed off s s') : ∃ u, s'.store.users.get? e.2.userId = some u ∧ u.username = e.1 := by
  obtain ⟨u, hget, hname⟩ := he.named
  obtain ⟨u', hget', hrow⟩ := h.evolves.row e.2.userId u hget
  refine ⟨u', hget', ?_⟩
  split_ifs at hrow
  · rw [hrow.username, hname]
  · rw [hrow.username, hname]

end Advance

section Serve

variable {lib : Lib} {s : Site workers} {o : SiteStep workers} {worker : Fin workers} {number : Option ℕ} {r : AuthRequest}

/-- the account whose credentials a request changes in this state -/
def Site.changes (lib : Lib) (s : Site workers) (env : Env) (worker : Fin workers) (number : Option ℕ) (r : AuthRequest) :
    Option User :=
  r.changes lib env s.store (s.cookie number).session (s.caches worker)

theorem le_elapsed (t : ℤ) (k : ℕ) : t ≤ t + k := le_add_of_nonneg_right (Int.natCast_nonneg k)

theorem serve_advance (lib : Lib) (s : Site workers) (o : SiteStep workers) (worker : Fin workers) (number : Option ℕ)
    (r : AuthRequest) :
    Advance (s.changes lib (o.env s) worker number r) r.disables s (s.serve lib (o.env s) worker number r) where
  now := le_elapsed _ _
  monotonic := le_elapsed _ _
  steps := rfl
  evolves := handleAuth_evolves r
  row := fun _ hu => handleAuth_changed hu
  marked := rfl

theorem command_advance (lib : Lib) (s : Site workers) (o : SiteStep workers) (c : CliCommand) :
    Advance (c.changes (o.env s) s.store.users) c.disables s (s.command lib (o.env s) c) where
  now := le_elapsed _ _
  monotonic := le_elapsed _ _
  steps := rfl
  evolves := handleCli_evolves c
  row := fun _ hu => handleCli_changed hu
  marked := rfl

/-- the condition, for a request -/
theorem Guarded.request (hg : Guarded lib s o) (he : o.event = .request worker number r) {u : User}
    (hu : s.changes lib (o.env s) worker number r = some u) :
    NothingLeft s (o.env s).now (o.env s).monotonic r.disables (· != worker) u ∧
      (r.stamps = true → ∀ i, (s.cookie number).session.userId = some i → i = u.id) := by
  simp only [Guarded, guarded, he] at hg
  obtain ⟨hleft, hstamp⟩ := Bool.and_eq_true_iff.1 ((Option.all_eq_true _ _).1 hg u hu)
  refine ⟨nothingLeft_spec hleft, fun hstamps i hi => ?_⟩
  simpa [hstamps, hi] using hstamp

/-- a cookie that was issued before is still in order -/
theorem CookieOk.serve {c : Cookie} (hc : CookieOk s c) (hinv : SiteInv s) (hmem : c ∈ s.cookies ∨ c = .blank)
    (hg : Guarded lib s o) (he : o.event = .request worker number r) :
    CookieOk (s.serve lib (o.env s) worker number r) c := by
  have hadv := serve_advance lib s o worker number r
  refine ⟨hc.login_advance hadv, hc.pending_advance hinv hadv fun u hu => ?_⟩
  refine (hg.request he hu).1.pending.imp_right fun hexpired p hp => ?_
  rcases hmem with hmem | rfl
  · exact hexpired c hmem p hp
  · cases hp

/-- the account of a pending step that can be taken -/
theorem pre2faUser_spec {env : Env} {session : Session} {users : UserTable} {u : User}
    (h : pre2faUser env session users = some u) :
    ∃ p, session.pre2fa = some p ∧ env.now ≤ p.exp ∧ p.uid = u.id ∧ users.get? u.id = some u ∧ u.totpEnabled = true := by
  obtain ⟨p, hp, huser⟩ := Option.bind_eq_some_iff.1 h
  obtain ⟨hpre, hexp⟩ := Option.filter_eq_some_iff.1 hp
  obtain ⟨hget, hon⟩ := Option.filter_eq_some_iff.1 huser
  have huid := Table.key_of_get? hget
  exact ⟨p, hpre, of_decide_eq_true hexp, huid.symm, by rwa [huid], (Bool.and_eq_true_iff.1 hon).2⟩

/-- a login made by a code is as old as the pending step, which was younger than the last change -/
theorem CookieOk.code_login {changed : Option User} {off : Bool} {s s' : Site workers} {c : Cookie} {env : Env} {u : User}
    (hc : CookieOk s c) (hadv : Advance changed off s s') (hnone : changed = none) (hnow : s.now ≤ env.now)
    (h : pre2faUser env c.session s.store.users = some u) :
    ∃ u', s'.store.users.get? u.id = some u' ∧ u'.sessionVersion = u.sessionVersion ∧ s'.changedAt u.id ≤ c.pendingAt := by
  obtain ⟨p, hp, hexp, huid, hget, hon⟩ := pre2faUser_spec h
  obtain ⟨u', hget', hsame⟩ := hadv.evolves.row u.id u hget
  have hother : changed.map User.id ≠ some u.id := by simp [hnone]
  rw [if_neg hother] at hsame
  refine ⟨u', hget', hsame.sessionVersion, ?_⟩
  rw [hadv.marked_of_ne hother, ← huid]
  exact hc.pending p hp (hnow.trans hexp) u (by rw [huid, hget]) hon

/-- a login made by the change itself: the cookie is the changed account's -/
theorem stamped_login {u : User} {off : Bool} {s s' : Site workers} {c : Cookie} (hadv : Advance (some u) off s s')
    (hinv : SiteInv s) (howner : ∀ i, c.session.userId = some i → i = u.id) {i : ℤ}
    (hi : (stamped c.session (some u)).userId = some i) :
    ∃ u' v, s'.store.users.get? i = some u' ∧ (stamped c.session (some u)).sv = some v ∧ v ≤ u'.sessionVersion ∧
      (v = u'.sessionVersion →
        s'.changedAt i ≤ if (some u).map User.id = c.session.userId then s.steps + 1 else c.checkedAt) := by
  have hi : c.session.userId = some i := hi
  obtain ⟨u', hget, hnext, -⟩ := hadv.row u rfl
  refine ⟨u', u.sessionVersion + 1, by rw [howner i hi, hget], rfl, hnext.ge, fun _ => ?_⟩
  rw [if_pos (by rw [hi, howner i hi, Option.map_some])]
  exact hadv.marked_le hinv i

/-- **The answered cookie.** Its login is that of the cookie that came, or it was checked in this step, or it is as old
as the pending step, which was younger than the last change. -/
theorem CookieOk.answered_login {changed : Option User} {off : Bool} {s s' : Site workers} {c : Cookie} {env : Env}
    {answer : Session} {r : AuthRequest} (hinv : SiteInv s) (hadv : Advance changed off s s') (hold : CookieOk s c)
    (hkept : CookieOk s' c) (hnow : s.now ≤ env.now) (hcode : ∀ code, r = .twoFactor code → changed = none)
    (howner : r.stamps = true → ∀ u, changed = some u → ∀ i, c.session.userId = some i → i = u.id)
    (hsource : LoginSource env s.store.users s'.store.users changed c.session answer r) (i : ℤ)
    (hi : answer.userId = some i) :
    ∃ u v, s'.store.users.get? i = some u ∧ answer.sv = some v ∧ v ≤ u.sessionVersion ∧
      (v = u.sessionVersion → s'.changedAt i ≤ (c.answered r (s.steps + 1) changed answer).checkedAt) := by
  unfold Cookie.answered
  by_cases hsame : answer.userId = c.session.userId ∧ answer.sv = c.session.sv
  · simp only [if_pos hsame]
    rw [hsame.2]
    exact hkept.login i (hsame.1.symm.trans hi)
  simp only [if_neg hsame]
  cases hsource with
  | kept huserId hsv => exact absurd ⟨huserId, hsv⟩ hsame
  | password hfound hanswer =>
    rename_i u _ _
    subst hanswer
    rw [← Option.some.inj hi]
    exact ⟨u, u.sessionVersion, hfound, rfl, le_rfl, fun _ => hadv.marked_le hinv u.id⟩
  | code hpending hanswer =>
    rename_i u code
    subst hanswer
    obtain ⟨u', hget, hversion, hyoung⟩ := hold.code_login hadv (hcode code rfl) hnow hpending
    rw [← Option.some.inj hi]
    exact ⟨u', u.sessionVersion, hget, rfl, hversion.ge, fun _ => hyoung⟩
  | own hchanged hanswer =>
    subst hchanged hanswer
    exact stamped_login hadv hinv (howner rfl _ rfl) hi
  | ownBasic hchanged hanswer =>
    subst hchanged hanswer
    exact stamped_login hadv hinv (howner rfl _ rfl) hi

/-- a pending step of the answered cookie came with the request, or its password was checked in this step -/
theorem CookieOk.answered_pending {changed : Option User} {off : Bool} {s s' : Site workers} {c : Cookie} {answer : Session}
    {r : AuthRequest} (hinv : SiteInv s) (hadv : Advance changed off s s') (hkept : CookieOk s' c) (p : Pre2fa)
    (hp : answer.pre2fa = some p) (hexp : s'.now ≤ p.exp) (u : User) (hu : s'.store.users.get? p.uid = some u)
    (hon : u.totpEnabled = true) : s'.changedAt p.uid ≤ (c.answered r (s.steps + 1) changed answer).pendingAt := by
  unfold Cookie.answered
  simp only
  split_ifs with hsame
  · exact hkept.pending p (hsame.symm.trans hp) hexp u hu hon
  · exact hadv.marked_le hinv p.uid

theorem Guarded.answered (hg : Guarded lib s o) (he : o.event = .request worker number r) (hinv : SiteInv s) :
    let c := s.cookie number
    CookieOk (s.serve lib (o.env s) worker number r) (c.answered r (s.steps + 1) (s.changes lib (o.env s) worker number r)
      (handleAuth lib (o.env s) s.store c.session (s.caches worker) r).session) := by
  intro c
  have hadv := serve_advance lib s o worker number r
  have hkept := (hinv.cookie number).serve hinv (cookie_mem_or_blank s number) hg he
  have hcode : ∀ code, r = .twoFactor code → s.changes lib (o.env s) worker number r = none := by
    rintro code rfl
    rfl
  constructor
  · exact CookieOk.answered_login hinv hadv (hinv.cookie number) hkept (le_elapsed _ _) hcode
      (fun hstamps u hu => (hg.request he hu).2 hstamps) (handleAuth_source r)
  · exact CookieOk.answered_pending hinv hadv hkept

/-- the entries of the worker that serves -/
theorem EntryOk.serve_self (hinv : SiteInv s) {e : Text × CacheEntry}
    (h : e ∈ (handleAuth lib (o.env s) s.store (s.cookie number).session (s.caches worker) r).cache) :
    EntryOk (s.serve lib (o.env s) worker number r) worker e := by
  have hadv := serve_advance lib s o worker number r
  obtain ⟨hother, horigin⟩ := handleAuth_cache r h
  have hnamed : ∃ u, (s.serve lib (o.env s) worker number r).store.users.get? e.2.userId = some u ∧ u.username = e.1 := by
    rcases horigin with hold | ⟨u, hu⟩
    · exact (hinv.caches worker e hold).named_advance hadv
    · exact ⟨u, hu.found, hu.username⟩
  refine ⟨hnamed, fun hlive => ?_⟩
  simp only [Site.serve, Function.update_self]
  split_ifs with hnew
  · exact hadv.marked_le hinv e.2.userId
  -- an entry that was there before: its account has not changed in this step
  have hold : e ∈ s.caches worker := by
    by_contra habsent
    exact hnew (List.any_eq_true.2 ⟨e, h, by simp [habsent]⟩)
  have hne : (s.changes lib (o.env s) worker number r).map User.id ≠ some e.2.userId := by
    intro hid
    obtain ⟨u, hu, huid⟩ := Option.map_eq_some_iff.1 hid
    obtain ⟨v, hget, hname⟩ := (hinv.caches worker e hold).named
    rw [← huid] at hget
    exact hother u hu (hname.symm.trans (AuthRequest.changes_username hu hget))
  have hmark := hadv.marked_of_ne hne
  simp only [Site.serve] at hmark
  rw [hmark]
  exact (hinv.caches worker e hold).young (hadv.monotonic.trans_lt hlive)

/-- the entries of another worker: none of them is of a changed account, unless it has expired -/
theorem EntryOk.advance {changed : Option User} {off : Bool} {others : Fin workers → Bool} {now monotonic : DateTime}
    {s' : Site workers} {w : Fin workers} {e : Text × CacheEntry} (he : EntryOk s w e) (hmem : e ∈ s.caches w)
    (hadv : Advance changed off s s') (hw : others w = true) (hmono : monotonic ≤ s'.monotonic)
    (hleft : ∀ u, changed = some u → NothingLeft s now monotonic off others u)
    (hcached : s'.cachedAt w e.1 = s.cachedAt w e.1) : EntryOk s' w e := by
  refine ⟨he.named_advance hadv, fun hlive => ?_⟩
  have hne : changed.map User.id ≠ some e.2.userId := by
    intro hid
    obtain ⟨u, hu, huid⟩ := Option.map_eq_some_iff.1 hid
    have hexpired := (hleft u hu).cached w hw e hmem huid.symm
    exact absurd (hexpired.trans hmono) (not_le.2 hlive)
  rw [hadv.marked_of_ne hne, hcached]
  exact he.young (hadv.monotonic.trans_lt hlive)

theorem SiteInv.serve (hinv : SiteInv s) (hg : Guarded lib s o) (he : o.event = .request worker number r) :
    SiteInv (s.serve lib (o.env s) worker number r) := by
  have hadv := serve_advance lib s o worker number r
  refine ⟨fun c hc => ?_, fun w e hmem => ?_, fun i hi => hadv.fresh hinv hi, fun i => ?_⟩
  · rcases List.mem_append.1 hc with hold | hnew
    · exact (hinv.cookies c hold).serve hinv (Or.inl hold) hg he
    · rw [List.mem_singleton.1 hnew]
      exact hg.answered he hinv
  · by_cases hw : w = worker
    · subst hw
      simp only [Site.serve, Function.update_self] at hmem
      exact EntryOk.serve_self hinv hmem
    · have hold : e ∈ s.caches w := by simpa only [Site.serve, Function.update_of_ne hw] using hmem
      refine (hinv.caches w e hold).advance hold hadv (by simpa using hw) le_rfl (fun u hu => (hg.request he hu).1) ?_
      simp only [Site.serve, Function.update_of_ne hw]
  · rw [hadv.steps]
    exact hadv.marked_le hinv i

theorem SiteInv.command (hinv : SiteInv s) {c : CliCommand} (hg : Guarded lib s o) (he : o.event = .shell c) :
    SiteInv (s.command lib (o.env s) c) := by
  have hadv := command_advance lib s o c
  have hleft : ∀ u, c.changes (o.env s) s.store.users = some u →
      NothingLeft s (o.env s).now (o.env s).monotonic c.disables (fun _ => true) u := by
    intro u hu
    simp only [Guarded, guarded, he] at hg
    exact nothingLeft_spec ((Option.all_eq_true _ _).1 hg u hu)
  refine ⟨fun k hk => ?_, fun w e hmem => ?_, fun i hi => hadv.fresh hinv hi, fun i => ?_⟩
  · have hcookie := hinv.cookies k hk
    refine ⟨hcookie.login_advance hadv, hcookie.pending_advance hinv hadv fun u hu => ?_⟩
    exact (hleft u hu).pending.imp_right fun hexpired p hp => hexpired k hk p hp
  · exact (hinv.caches w e hmem).advance hmem hadv rfl le_rfl hleft rfl
  · rw [hadv.steps]
    exact hadv.marked_le hinv i

/-- **The invariant.** A step that leaves nothing of a changed account keeps it. -/
theorem SiteInv.step (hinv : SiteInv s) (hg : Guarded lib s o) : SiteInv (s.step lib o) := by
  unfold Site.step
  cases he : o.event with
  | request worker number r => exact hinv.serve hg he
  | shell c => exact hinv.command hg he

end Serve

/-! ## Runs -/

end Steps

/-- the bootstrap admin, and three accounts; the second has a second factor -/
def sampleStaff : UserTable :=
  ⟨[sampleUser 1 "admin" .admin,
    { sampleUser 2 "alice" .csrRequester with totpSecret := "123456".toList, totpEnabled := true },
    sampleUser 3 "bob" .csrRequester, sampleUser 4 "carol" .csrRequester], by decide⟩

def sampleSite (workers : ℕ) : Site workers := .start workers sampleStaff none 0 0

/-- a request, a moment after the last one -/
def ask {workers : ℕ} (worker : Fin workers) (cookie : Option ℕ) (r : AuthRequest) : SiteStep workers :=
  ⟨1, Env.at 0, .request worker cookie r⟩

def loginOf (name : String) : AuthRequest := .login name.toList name.toList

def newPassword : Text := "a new long password".toList

def passwordChange (name : String) : OwnRequest := .changePassword ⟨name.toList, newPassword, newPassword, []⟩

def resetOf (uid : ℤ) : AuthRequest := .administer 1 (.resetPassword uid [] newPassword)

/-- a login, a Basic request to the same worker, and a password change there -/
def quietRun : List (SiteStep 2) :=
  [ask 0 none (loginOf "bob"), ask 0 none (.basic "bob".toList "bob".toList), ask 0 (some 0) (.own (passwordChange "bob"))]

/-- a pending step, a reset by an admin, and the code -/
def pendingRun : List (SiteStep 1) :=
  [ask 0 none (loginOf "alice"), ask 0 none (resetOf 2), ask 0 (some 0) (.twoFactor "123456".toList)]

/-- a Basic request to the second worker, then a login and a password change in the first -/
def cachedRun : List (SiteStep 2) :=
  [ask 1 none (.basic "bob".toList "bob".toList), ask 0 none (loginOf "bob"), ask 0 (some 1) (.own (passwordChange "bob"))]

/-- a login, a reset by an admin, and a password change of another account with the first cookie -/
def stampedRun : List (SiteStep 1) :=
  [ask 0 none (loginOf "bob"), ask 0 none (resetOf 3),
    ask 0 (some 0) (.ownBasic false "carol".toList "carol".toList (passwordChange "carol"))]

/-- is a cookie logged in on a check older than the last change -/
def outlives {workers : ℕ} (s : Site workers) : Bool :=
  s.cookies.any fun c => (currentUser s.store.users c.session).any fun u => decide (c.checkedAt < s.changedAt u.id)

/-- does a worker accept a credential that it cached before the last change -/
def outlivesCached {workers : ℕ} (lib : Lib) (s : Site workers) (worker : Fin workers) (username password : Text) : Bool :=
  (cachedAccount lib { Env.at 0 with monotonic := s.monotonic } s.store.users (s.caches worker) username password).any
    fun u =>
    decide (s.cachedAt worker username < s.changedAt u.id)

theorem not_current_of_outlives {workers : ℕ} {lib : Lib} {s : Site workers} (h : outlives s = true) : ¬ Current lib s := by
  intro hcurrent
  obtain ⟨c, hc, hany⟩ := List.any_eq_true.1 h
  obtain ⟨u, hu, hlt⟩ := (Option.any_eq_true _ _).1 hany
  exact absurd (hcurrent.session c hc u hu) (not_le.2 (of_decide_eq_true hlt))

theorem not_current_of_outlivesCached {workers : ℕ} {lib : Lib} {s : Site workers} {worker : Fin workers}
    {username password : Text} (h : outlivesCached lib s worker username password = true) : ¬ Current lib s := by
  intro hcurrent
  obtain ⟨u, hu, hlt⟩ := (Option.any_eq_true _ _).1 h
  exact absurd (hcurrent.cached worker _ le_rfl username password u hu) (not_le.2 (of_decide_eq_true hlt))

end Chancery.Auth
