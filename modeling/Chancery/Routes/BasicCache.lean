/-
What the entries of a credential cache stand for.

An entry is made after a full authentication, and it outlives the request. `Backed` says what it still stands for later: its
account is in the table under the entry's name, with the same source, and a password with the entry's MAC is the account's.
`handleAuth_cache`: a request leaves no entry of an account whose credentials it has changed, and an entry that it leaves
was there before, or is backed by the table that it leaves.
-/
import Mathlib.Tactic
import Chancery.Routes.Process

namespace Chancery.Auth

open Chancery.Core

/-! ## Entries -/

section Entries

variable {lib : Lib} {env : Env} {cache : Cache} {username password name : Text} {e : Text × CacheEntry} {uid : ℤ}
  {method : AuthSource}

theorem mem_of_lookup {entry : CacheEntry} (h : cache.lookup name = some entry) : (name, entry) ∈ cache := by
  obtain ⟨l, m, rfl, -⟩ := List.lookup_eq_some_iff.1 h
  simp

theorem mem_dropUser : e ∈ cache.dropUser name ↔ e ∈ cache ∧ e.1 ≠ name := by simp [Cache.dropUser]

theorem mem_of_evict (h : e ∈ cache.evict env username) : e ∈ cache := by
  unfold Cache.evict at h
  by_cases hroom : (cache.lookup username).isSome ∨ cache.length < maxEntries
  · rwa [if_pos hroom] at h
  rw [if_neg hroom] at h
  simp only at h
  split at h
  · exact (List.mem_filter.1 h).1
  · split at h
    · exact (List.mem_filter.1 h).1
    · exact (List.mem_filter.1 (mem_dropUser.1 h).1).1

/-- an entry of the cache after `put` was there before, or is the new one -/
theorem mem_of_put (h : e ∈ cache.put lib env username password uid method) :
    e ∈ cache ∨ e = (username, ⟨credentialMac lib username password, uid, method, env.monotonic + env.cacheTtl⟩) := by
  unfold Cache.put at h
  by_cases hoff : env.cacheTtl ≤ 0
  · rw [if_pos hoff] at h
    exact Or.inl h
  rw [if_neg hoff] at h
  simp only at h
  split_ifs at h
  · obtain ⟨f, hf, hfe⟩ := List.mem_map.1 h
    split_ifs at hfe
    · exact Or.inr hfe.symm
    · rw [← hfe]
      exact Or.inl (mem_of_evict hf)
  · rcases List.mem_append.1 h with hold | hnew
    · exact Or.inl (mem_of_evict hold)
    · exact Or.inr (List.mem_singleton.1 hnew)

theorem mem_of_get (h : e ∈ (cache.get lib env username password).2) : e ∈ cache := by
  unfold Cache.get at h
  split_ifs at h
  · exact h
  · split at h
    · exact h
    · split_ifs at h
      · exact (mem_dropUser.1 h).1
      · exact h
      · exact h

/-- a hit is an entry that has not expired, under the MAC of the credentials -/
theorem get_hit (h : (cache.get lib env username password).1 = some (uid, method)) :
    ∃ entry, (username, entry) ∈ cache ∧ env.monotonic < entry.expiresAt ∧ entry.mac = credentialMac lib username password ∧
      entry.userId = uid ∧ entry.authMethod = method := by
  unfold Cache.get at h
  split_ifs at h
  split at h
  · cases h
  · rename_i entry hentry
    split_ifs at h with hexpired hmac
    obtain ⟨rfl, rfl⟩ := Prod.mk.inj (Option.some.inj h)
    exact ⟨entry, mem_of_lookup hentry, not_le.1 hexpired, not_not.1 hmac, rfl, rfl⟩

theorem mem_forget {changed : Option User} (h : e ∈ forget cache changed) :
    e ∈ cache ∧ ∀ u, changed = some u → e.1 ≠ u.username := by
  cases changed with
  | none => exact ⟨h, (fun _ hnone => nomatch hnone)⟩
  | some u =>
    obtain ⟨hmem, hne⟩ := mem_dropUser.1 h
    refine ⟨hmem, fun v hv => ?_⟩
    rwa [← Option.some.inj hv]

end Entries

/-! ## Hits -/

/-- the account that `authenticate_basic` accepts through its cache -/
def cachedAccount (lib : Lib) (env : Env) (users : UserTable) (cache : Cache) (username password : Text) : Option User :=
  if username = [] ∨ password = [] then none
  else (cache.get lib env username password).1.bind fun h => hitUser users username h.1

/-- such a hit is what `authenticate_basic` returns -/
theorem authenticateBasic_of_cached {lib : Lib} {env : Env} {ldap : Option LdapConfig} {users : UserTable}
    {cache : Cache} {username password : Text} {u : User}
      (h : cachedAccount lib env users cache username password = some u) :
    (authenticateBasic lib env ldap username password users cache).result.ok = true ∧
      (authenticateBasic lib env ldap username password users cache).result.user = some u := by
  unfold cachedAccount at h
  split_ifs at h with hempty
  obtain ⟨hit, hget, huser⟩ := Option.bind_eq_some_iff.1 h
  unfold authenticateBasic
  rw [if_neg hempty]
  simp only [hget, huser, Option.bind_some, Option.map_some]
  exact ⟨rfl, trivial⟩

/-! ## What an entry stands for -/

/-- the account of an entry, and what a password with its MAC is to that account -/
structure BackedBy (lib : Lib) (users : UserTable) (e : Text × CacheEntry) (u : User) : Prop where
  found : users.get? e.2.userId = some u
  username : u.username = e.1
  authSource : u.authSource = e.2.authMethod
  password : ∃ password, e.2.mac = credentialMac lib e.1 password ∧
    (u.authSource = .localDb → u.checkPassword lib password = true) ∧
    (u.authSource = .ldap → password.all isSpace = false)

def Backed (lib : Lib) (users : UserTable) (e : Text × CacheEntry) : Prop := ∃ u, BackedBy lib users e u

section Backed

variable {lib : Lib} {env : Env} {ldap : Option LdapConfig} {users users' : UserTable} {cache : Cache}
  {username password : Text} {e : Text × CacheEntry} {u : User} {method : AuthSource}

/-- a request that does not change the credentials of its account leaves an entry backed -/
theorem Backed.evolves {changed : Option User} (h : Backed lib users e) (hev : Evolves (changed.map User.id) users users')
    (hrow : ∀ u v, changed = some u → users.get? u.id = some v → v.username = u.username)
    (hother : ∀ u, changed = some u → e.1 ≠ u.username) : Backed lib users' e := by
  obtain ⟨u, hfound, hname, hsource, password, hmac, hlocal, hldap⟩ := h
  obtain ⟨u', hfound', hsame⟩ := hev.row e.2.userId u hfound
  have hkept : changed.map User.id ≠ some e.2.userId := by
    intro hid
    obtain ⟨v, hv, hvid⟩ := Option.map_eq_some_iff.1 hid
    rw [← hvid] at hfound
    exact hother v hv (hname.symm.trans (hrow v u hv hfound))
  rw [if_neg hkept] at hsame
  refine ⟨u', hfound', hsame.username.trans hname, hsame.authSource.trans hsource, password, hmac, fun hl => ?_,
    fun hl => ?_⟩
  · rw [hsame.authSource] at hl
    simpa only [User.checkPassword, hsame.passwordHash] using hlocal hl
  · rw [hsame.authSource] at hl
    exact hldap hl

/-- an accepted local login leaves its account with this password -/
theorem authenticateLocal_accepts (hu : u ∈ users) (hok : (authenticateLocal lib env u password users).1.ok = true) :
    u.checkPassword lib password = true ∧ (authenticateLocal lib env u password users).1.user = some (clearLockout u) ∧
      (authenticateLocal lib env u password users).2.get? u.id = some (clearLockout u) := by
  unfold authenticateLocal at hok ⊢
  split_ifs at hok ⊢ with hlocked hwrong hinactive
  · cases hok
  · cases hok
  · cases hok
  · cases hok
  · refine ⟨by simpa using hwrong, rfl, ?_⟩
    rw [resetLockout, Table.get?_update_self, Table.get?_key hu, Option.map_some]

/-- an accepted login of the directory leaves an account of the directory with this name -/
theorem authenticateLdap_accepts {cfg : LdapConfig} {found : Option User} {r : AuthResult × UserTable}
    (hr : authenticateLdap lib env cfg found username password users = r)
    (hfound : ∀ u, found = some u → u ∈ users ∧ u.username = username ∧ u.authSource = .ldap)
    (hok : r.1.ok = true) : password.all isSpace = false ∧ r.1.authMethod = .ldap ∧
      ∃ u, r.1.user = some u ∧ r.2.get? u.id = some u ∧ u.username = username ∧ u.authSource = .ldap := by
  subst hr
  unfold authenticateLdap at hok ⊢
  by_cases hon : (!cfg.enabled) = true
  · rw [if_pos hon] at hok
    cases hok
  rw [if_neg hon] at hok ⊢
  have hblank : ∀ dn groups, askDirectory lib env cfg username password = .bound dn groups → password.all isSpace =
    false := by
    intro dn groups h
    unfold askDirectory at h
    split_ifs at h with hspace
    simpa using hspace
  cases hask : askDirectory lib env cfg username password with
  | unavailable =>
    rw [hask] at hok
    cases hok
  | refused =>
    rw [hask] at hok
    cases hok
  | bound dn groups =>
    rw [hask] at hok
    simp only at hok ⊢
    cases hrole : mapRole lib cfg groups with
    | none =>
      rw [hrole] at hok
      cases hok
    | some role =>
      cases found with
      | none =>
        refine ⟨hblank dn groups hask, rfl, _, rfl, Table.get?_eq_some.2 ⟨?_, rfl⟩, rfl, rfl⟩
        exact List.mem_append_right _ (List.mem_singleton_self _)
      | some u =>
        obtain ⟨hu, hname, hsource⟩ := hfound u rfl
        refine ⟨hblank dn groups hask, rfl, _, rfl, Table.get?_eq_some.2 ⟨?_, rfl⟩, hname, hsource⟩
        exact List.mem_map.2 ⟨u, hu, if_pos rfl⟩

/-- **An accepted login.** Its account is in the table that the login leaves, under the name that was given, with the source
that was asked, and the password is the account's. -/
theorem authenticate_accepts (hok : (authenticate lib env ldap username password users).1.ok = true) :
    ∃ u, (authenticate lib env ldap username password users).1.user = some u ∧
      BackedBy lib (authenticate lib env ldap username password users).2
        (username, ⟨credentialMac lib username password, u.id,
          (authenticate lib env ldap username password users).1.authMethod,
          env.monotonic + env.cacheTtl⟩) u := by
  by_cases hempty : username = [] ∨ password = []
  · rw [authenticate, if_pos hempty] at hok
    cases hok
  have hname : ∀ u, findUser users username = some u → u ∈ users ∧ u.username = username := fun u hu =>
    ⟨findUser_mem hu, by simpa using List.find?_some hu⟩
  rw [authenticate, if_neg hempty] at hok ⊢
  cases hfilter : (findUser users username).filter (·.authSource == .localDb) with
  | some u =>
    obtain ⟨hu, hlocal⟩ := Option.filter_eq_some_iff.1 hfilter
    rw [hfilter] at hok
    obtain ⟨hpassword, huser, hget⟩ := authenticateLocal_accepts (hname u hu).1 hok
    have hsource : u.authSource = .localDb := by simpa using hlocal
    refine ⟨clearLockout u, huser, hget, (hname u hu).2, ?_, password, rfl, fun _ => hpassword, fun hl => ?_⟩
    · rw [authenticateLocal_method]
      exact hsource
    · cases hsource.symm.trans hl
  | none =>
    have hdirectory : ∀ u, findUser users username = some u → u ∈ users ∧ u.username = username ∧ u.authSource = .ldap := by
      intro u hu
      refine ⟨(hname u hu).1, (hname u hu).2, ?_⟩
      rw [hu, Option.filter_some] at hfilter
      cases hsource : u.authSource with
      | ldap => rfl
      | localDb => simp [hsource] at hfilter
    rw [hfilter] at hok
    obtain ⟨hblank, hmethod, u, huser, hget, hu, hsource⟩ := authenticateLdap_accepts rfl hdirectory hok
    refine ⟨u, huser, hget, hu, hsource.trans hmethod.symm, password, rfl, fun hl => ?_, fun _ => hblank⟩
    cases hsource.symm.trans hl

/-- `authenticate_basic` adds an entry only for an account that it has just accepted -/
theorem authenticateBasic_cache (h : e ∈ (authenticateBasic lib env ldap username password users cache).cache) :
    e ∈ cache ∨ Backed lib (authenticateBasic lib env ldap username password users cache).users e := by
  unfold authenticateBasic at h ⊢
  by_cases hempty : username = [] ∨ password = []
  · rw [if_pos hempty] at h
    exact Or.inl h
  rw [if_neg hempty] at h ⊢
  simp only at h ⊢
  cases hhit : ((cache.get lib env username password).1.bind fun h => (hitUser users username h.1).map fun u =>
    (u, h.2)) with
  | some hit =>
    rw [hhit] at h
    exact Or.inl (mem_of_get h)
  | none =>
    rw [hhit] at h
    simp only at h ⊢
    rw [authenticateAndCache_users]
    unfold authenticateAndCache at h
    cases hu : (authenticate lib env ldap username password users).1.user with
    | none =>
      simp only [hu] at h
      exact Or.inl (mem_of_get h)
    | some u =>
      simp only [hu] at h
      split_ifs at h with hok
      · rcases mem_of_put h with hold | rfl
        · exact Or.inl (mem_of_get hold)
        · obtain ⟨v, hv, hbacked⟩ := authenticate_accepts hok
          rw [hu] at hv
          rw [Option.some.inj hv]
          exact Or.inr ⟨v, hbacked⟩
      · exact Or.inl (mem_of_get h)

/-! ## One request -/

theorem UserRequest.changes_get? {r : UserRequest} {admin : User} (h : r.changes env ldap users admin = some u) :
    users.get? u.id = some u := by
  cases r with
  | resetPassword uid salt password =>
    obtain ⟨hget, -⟩ := Option.filter_eq_some_iff.1 h
    rwa [Table.key_of_get? hget]
  | reset2fa uid =>
    obtain ⟨hget, -⟩ := Option.filter_eq_some_iff.1 h
    rwa [Table.key_of_get? hget]
  | create form => cases h
  | edit uid role => cases h
  | toggle uid => cases h
  | approve uid => cases h

variable {store : Store} {session : Session}

/-- **Caches.** No entry after a request is one of an account whose credentials the request has changed; and it was there
before, or is backed by the table that the request leaves. -/
theorem handleAuth_cache (r : AuthRequest) (h : e ∈ (handleAuth lib env store session cache r).cache) :
    (∀ u, r.changes lib env store session cache = some u → e.1 ≠ u.username) ∧
      (e ∈ cache ∨ Backed lib (handleAuth lib env store session cache r).store.users e) := by
  have hsame : r.changes lib env store session cache = none →
      ∀ u, r.changes lib env store session cache = some u → e.1 ≠ u.username := by
    intro hnone u hu
    rw [hnone] at hu
    cases hu
  cases r with
  | login username password => exact ⟨hsame rfl, Or.inl h⟩
  | twoFactor code => exact ⟨hsame rfl, Or.inl h⟩
  | saveLdap cfg => exact ⟨hsame rfl, Or.inl h⟩
  | resetLdap => exact ⟨hsame rfl, Or.inl h⟩
  | basic username password => exact ⟨hsame rfl, authenticateBasic_cache h⟩
  | own r =>
    simp only [handleAuth, (handleOwn_outcome r).cache_eq] at h
    exact ⟨(mem_forget h).2, Or.inl (mem_forget h).1⟩
  | administer actor r =>
    simp only [handleAuth, (handleUsers_outcome r).cache_eq] at h
    exact ⟨(mem_forget h).2, Or.inl (mem_forget h).1⟩
  | ownBasic enforced username password r =>
    simp only [handleAuth, handleOwnBasic, AuthRequest.changes] at h ⊢
    cases hu : basicUser enforced (authenticateBasic lib env store.ldap username password store.users cache).result with
    | none =>
      rw [hu] at h
      exact ⟨(fun _ hnone => nomatch hnone), authenticateBasic_cache h⟩
    | some u =>
      rw [hu] at h
      simp only [(handleOwn_outcome r).cache_eq] at h
      obtain ⟨hmem, hother⟩ := mem_forget h
      refine ⟨hother, (authenticateBasic_cache hmem).imp_right fun hbacked => ?_⟩
      refine hbacked.evolves (handleOwn_outcome r).evolves (fun v w hv hw => ?_) hother
      rw [currentUser_get? (OwnRequest.changes_current hv)] at hw
      rw [Option.some.inj hw]

/-- the account whose credentials a request changes has its name in the table before the request -/
theorem AuthRequest.changes_username {r : AuthRequest} {v : User} (h : r.changes lib env store session cache = some u)
    (hv : store.users.get? u.id = some v) : v.username = u.username := by
  have hrow : store.users.get? u.id = some u → v.username = u.username := by
    intro hget
    rw [hv] at hget
    rw [Option.some.inj hget]
  cases r with
  | login username password => cases h
  | twoFactor code => cases h
  | basic username password => cases h
  | saveLdap cfg => cases h
  | resetLdap => cases h
  | own r => exact hrow (currentUser_get? (OwnRequest.changes_current h))
  | administer actor r =>
    obtain ⟨admin, -, hr⟩ := Option.bind_eq_some_iff.1 h
    exact hrow (UserRequest.changes_get? hr)
  | ownBasic enforced username password r =>
    obtain ⟨w, -, hr⟩ := Option.bind_eq_some_iff.1 h
    obtain ⟨v', hget, hsame⟩ := authenticateBasic_evolves.row u.id v hv
    have hsame : SameLogin v v' := hsame
    rw [currentUser_get? (OwnRequest.changes_current hr)] at hget
    rw [Option.some.inj hget, hsame.username]

/-- a process keeps its entries backed -/
theorem handleAuth_backed (r : AuthRequest) (hbacked : ∀ e ∈ cache, Backed lib store.users e) :
    ∀ e ∈ (handleAuth lib env store session cache r).cache,
      Backed lib (handleAuth lib env store session cache r).store.users e := by
  intro e he
  obtain ⟨hother, hold | hnew⟩ := handleAuth_cache r he
  · exact (hbacked e hold).evolves (handleAuth_evolves r) (fun _ _ hu hv => AuthRequest.changes_username hu hv) hother
  · exact hnew

end Backed

end Chancery.Auth
