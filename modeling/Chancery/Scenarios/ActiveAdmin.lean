/-
Is there always an active admin?

(1) The administration routes keep one: the guards of `edit_user` and `toggle_active` count the active admins, and
whoever is deactivated by a reset is not the one who asks for it.
(2) `_sync_role` has no such guard: a directory login writes the role its groups map to, and may take the admin role from
the only active admin. `activeAdmin_iff`: in every run of requests and logins there is an active admin in every state
exactly when no committed login does that, and no approval applies a pending role other than admin to the only active admin
(`KeepsAnAdmin`); the code itself writes no such pending role.
-/
import Mathlib.Tactic
import Chancery.Routes.Process

namespace Chancery.Auth

open Chancery.Core

/-! ## Requests -/

/-- a request, with the process it runs in and what the directory answers at that moment -/
structure Served where
  directory : LdapConfig → Text → Text → Bind
  env : Env
  session : Session
  cache : Cache
  request : AuthRequest

def answerServed (lib : Lib) (s : Store) (o : Served) : Store :=
  (handleAuth { lib with directory := o.directory } o.env s o.session o.cache o.request).store

def HasAdmin (users : UserTable) : Prop := ∃ u ∈ users, u.activeAdmin = true

/-- another account is an active admin -/
def Another (users : UserTable) (u : User) : Prop := ∃ v ∈ users, v.id ≠ u.id ∧ v.activeAdmin = true

/-- the directory answers the login of this account, and its groups map to this role -/
def Synced (lib : Lib) (env : Env) (ldap : Option LdapConfig) (username password : Text) (users : UserTable) (u : User)
    (role : Role) : Prop :=
  (username ≠ [] ∧ password ≠ []) ∧ findUser users username = some u ∧ u.authSource = .ldap ∧
    (effectiveConfig env ldap).enabled = true ∧
      ∃ dn groups, askDirectory lib env (effectiveConfig env ldap) username password = .bound dn groups ∧
        mapRole lib (effectiveConfig env ldap) groups = some role

/-- the hit of `authenticate_basic` -/
def basicHit (lib : Lib) (env : Env) (username password : Text) (users : UserTable) (cache : Cache) :
    Option (User × AuthSource) :=
  (cache.get lib env username password).1.bind fun h => (hitUser users username h.1).map fun u => (u, h.2)

/-- a login does not take the admin role from the only active admin; one that is committed, in the case of `login` -/
def SparesTheLast (lib : Lib) (env : Env) (ldap : Option LdapConfig) (username password : Text) (users : UserTable)
    (committed : User → Prop) : Prop :=
  ∀ u, Synced lib env ldap username password users u .csrRequester → u.activeAdmin = true → committed u → Another users u

/-- what keeps an active admin -/
def KeepsAnAdmin (lib : Lib) (s : Store) (o : Served) : Prop :=
  let lib := { lib with directory := o.directory }
  match o.request with
  | .login username password =>
    SparesTheLast lib o.env s.ldap (strip username) password s.users fun u => u.totpEnabled = false
  | .basic username password =>
    basicHit lib o.env username password s.users o.cache = none →
      SparesTheLast lib o.env s.ldap username password s.users fun _ => True
  | .ownBasic _ username password _ =>
    basicHit lib o.env username password s.users o.cache = none →
      SparesTheLast lib o.env s.ldap username password s.users fun _ => True
  | .administer actor (.approve uid) =>
    ∀ admin u, currentAdmin s.users actor = some admin → s.users.get? uid = some u →
      approveAccepted o.env s.ldap s.users admin u = true → u.activeAdmin = true →
      u.pendingRole = some .csrRequester → Another s.users u
  | _ => True

/-! ## Admins and rewrites -/

section Rewrites

variable {users : UserTable} {u : User} {k : ℤ} {f : User → User}

theorem hasAdmin_update (hf : ∀ a, (f a).id = a.id) (h : HasAdmin users)
    (hkeep : ∀ u ∈ users, u.id = k → u.activeAdmin = true → (f u).activeAdmin = true ∨ Another users u) :
    HasAdmin (users.update k f hf) := by
  obtain ⟨u, hu, hadmin⟩ := h
  by_cases hk : u.id = k
  · rcases hkeep u hu hk hadmin with hstay | ⟨v, hv, hne, hadmin'⟩
    · subst hk
      exact ⟨f u, Table.mem_update_self hu, hstay⟩
    · exact ⟨v, Table.mem_update_of_ne hv (hk ▸ hne), hadmin'⟩
  · exact ⟨u, Table.mem_update_of_ne hu hk, hadmin⟩

/-- a rewrite that does not touch roles and activity -/
theorem hasAdmin_update_iff (hf : ∀ a, (f a).id = a.id) (hsame : ∀ a, (f a).activeAdmin = a.activeAdmin) :
    HasAdmin (users.update k f hf) ↔ HasAdmin users := by
  constructor
  · rintro ⟨b, hb, hadmin⟩
    obtain ⟨a, ha, rfl⟩ := Table.mem_update.1 hb
    refine ⟨a, ha, ?_⟩
    split_ifs at hadmin
    · exact (hsame a).symm.trans hadmin
    · exact hadmin
  · intro h
    exact hasAdmin_update hf h fun u _ _ hadmin => .inl ((hsame u).trans hadmin)

/-- the only active admin is rewritten into something else -/
theorem not_hasAdmin_update (hf : ∀ a, (f a).id = a.id) (hu : u ∈ users) (hlone : ¬ Another users u)
    (hgone : (f u).activeAdmin = false) :
    ¬ HasAdmin (users.update u.id f hf) := by
  rintro ⟨b, hb, hadmin⟩
  obtain ⟨a, ha, rfl⟩ := Table.mem_update.1 hb
  split_ifs at hadmin with hid
  · rw [Table.eq_of_key ha hu hid, hgone] at hadmin
    cases hadmin
  · exact hlone ⟨a, ha, hid, hadmin⟩

theorem hasAdmin_insert {mk : ℤ → User} {hmk : ∀ k, (mk k).id = k} (h : HasAdmin users) :
    HasAdmin (users.insert mk hmk) := by
  obtain ⟨u, hu, hadmin⟩ := h
  exact ⟨u, Table.mem_insert.2 (.inl hu), hadmin⟩

/-- the guard of `edit_user` and `toggle_active` counts right -/
theorem another_of_not_lastAdmin (hu : u ∈ users) (hadmin : u.activeAdmin = true) (h : lastAdmin users u = false) :
    Another users u := by
  have hrole : (u.role == .admin) = true := (Bool.and_eq_true_iff.1 hadmin).1
  have htwo : 2 ≤ (users.rows.filter User.activeAdmin).length := by
    unfold lastAdmin activeAdmins at h
    rw [hrole, Bool.true_and, decide_eq_false_iff_not] at h
    omega
  by_contra hno
  have hall : ∀ v ∈ users.rows.filter User.activeAdmin, v = u := by
    intro v hv
    obtain ⟨hv, hactive⟩ := List.mem_filter.1 hv
    by_contra hne
    exact hno ⟨v, hv, fun hid => hne (Table.eq_of_key hv hu hid), hactive⟩
  have hrep := List.eq_replicate_of_mem hall
  have hnodup : (users.rows.filter User.activeAdmin).Nodup := users.nodup.filter _
  rw [hrep, List.nodup_replicate] at hnodup
  omega

end Rewrites

/-! ## Logins -/

section Logins

variable {lib : Lib} {env : Env} {ldap : Option LdapConfig} {users : UserTable} {username password : Text} {u : User}
  {session : Session} {cache : Cache}

theorem hasAdmin_registerFailedAttempt : HasAdmin (registerFailedAttempt env u users) ↔ HasAdmin users := by
  unfold registerFailedAttempt
  split_ifs
  · exact Iff.rfl
  · exact hasAdmin_update_iff (countFailure_id env _) fun a => countFailure_activeAdmin env _ a

theorem hasAdmin_authenticateLocal :
    HasAdmin (authenticateLocal lib env u password users).2 ↔ HasAdmin users := by
  unfold authenticateLocal
  split_ifs
  · exact Iff.rfl
  · exact hasAdmin_registerFailedAttempt
  · exact Iff.rfl
  · exact Iff.rfl
  · refine hasAdmin_update_iff (by intro; rfl) ?_
    exact fun _ => rfl

/-- what `authenticate` writes: a role the directory maps to, a new account, or nothing about roles -/
inductive Wrote (lib : Lib) (env : Env) (ldap : Option LdapConfig) (username password : Text) (users : UserTable) :
    AuthResult × UserTable → Prop
  | synced (u : User) (role : Role) (h : Synced lib env ldap username password users u role) :
      Wrote lib env ldap username password users
        (⟨some { u with role := role }, if u.isActiveUser then none else some .accountDeactivated, .ldap⟩,
          users.update u.id (fun a => { a with role := role }) fun _ => rfl)
  | other (r : AuthResult × UserTable) (hnot : ∀ u role, ¬ Synced lib env ldap username password users u role)
      (hkeep : HasAdmin users → HasAdmin r.2) : Wrote lib env ldap username password users r

theorem authenticateLdap_wrote (hempty : ¬ (username = [] ∨ password = []))
    (hldap : ∀ u, findUser users username = some u → u.authSource = .ldap) :
    Wrote lib env ldap username password users
      (authenticateLdap lib env (effectiveConfig env ldap) (findUser users username) username password users) := by
  unfold authenticateLdap
  by_cases hon : (effectiveConfig env ldap).enabled = true
  · rw [if_neg (by simp [hon])]
    cases hask : askDirectory lib env (effectiveConfig env ldap) username password with
    | unavailable =>
      refine .other _ (fun u role h => ?_) id
      obtain ⟨-, -, -, -, dn, groups, hbound, -⟩ := h
      rw [hask] at hbound
      cases hbound
    | refused =>
      refine .other _ (fun u role h => ?_) id
      obtain ⟨-, -, -, -, dn, groups, hbound, -⟩ := h
      rw [hask] at hbound
      cases hbound
    | bound dn groups =>
      simp only
      cases hrole : mapRole lib (effectiveConfig env ldap) groups with
      | none =>
        refine .other _ (fun u role h => ?_) id
        obtain ⟨-, -, -, -, dn', groups', hbound, hmap⟩ := h
        rw [hask] at hbound
        cases hbound
        rw [hrole] at hmap
        cases hmap
      | some role =>
        simp only
        cases hfind : findUser users username with
        | none =>
          refine .other _ (fun u role h => ?_) (@hasAdmin_insert users _ fun _ => rfl)
          have hsome := hfind.symm.trans h.2.1
          cases hsome
        | some u =>
          have hnames : username ≠ [] ∧ password ≠ [] := not_or.1 hempty
          exact .synced u role ⟨hnames, hfind, hldap u hfind, hon, dn, groups, hask, hrole⟩
  · rw [if_pos (by simp [hon])]
    exact .other _ (fun u role h => hon h.2.2.2.1) id

theorem authenticate_wrote (lib : Lib) (env : Env) (ldap : Option LdapConfig) (username password : Text)
    (users : UserTable) :
    Wrote lib env ldap username password users (authenticate lib env ldap username password users) := by
  unfold authenticate
  by_cases hempty : username = [] ∨ password = []
  · rw [if_pos hempty]
    exact .other _ (fun _ _ h => hempty.elim h.1.1 h.1.2) id
  rw [if_neg hempty]
  cases hlocal : (findUser users username).filter (·.authSource == .localDb) with
  | none =>
    refine authenticateLdap_wrote hempty fun u hu => ?_
    rw [hu, Option.filter_some] at hlocal
    cases hsource : u.authSource
    · simp [hsource] at hlocal
    · rfl
  | some u =>
    obtain ⟨hfind, hsource⟩ := Option.filter_eq_some_iff.1 hlocal
    refine .other _ (fun v role h => ?_) hasAdmin_authenticateLocal.2
    rw [Option.some.inj (hfind.symm.trans h.2.1), h.2.2.1] at hsource
    cases hsource

/-- a synced role is one of two -/
theorem activeAdmin_withRole (u : User) (role : Role) :
    ({ u with role := role } : User).activeAdmin = (role == .admin && u.isActiveUser) := rfl

/-- a sync keeps an active admin when it makes one, or leaves another -/
theorem hasAdmin_synced (h : HasAdmin users) (hu : u ∈ users) {role : Role}
    (hspare : role = .csrRequester → u.activeAdmin = true → Another users u) :
    HasAdmin (users.update u.id (fun a => { a with role := role }) fun _ => rfl) := by
  refine hasAdmin_update (by intro; rfl) h fun v hv hid hadmin => ?_
  have hvu : v = u := Table.eq_of_key hv hu hid
  subst hvu
  cases role with
  | admin =>
    refine .inl ?_
    rw [activeAdmin_withRole]
    exact (Bool.and_eq_true_iff.1 hadmin).2
  | csrRequester => exact .inr (hspare rfl hadmin)

/-- **A full authentication.** It keeps an active admin exactly when it spares the last. -/
theorem authenticate_hasAdmin_iff (h : HasAdmin users) :
    HasAdmin (authenticate lib env ldap username password users).2 ↔
      SparesTheLast lib env ldap username password users fun _ => True := by
  have hwrote := authenticate_wrote lib env ldap username password users
  generalize authenticate lib env ldap username password users = r at hwrote
  cases hwrote with
  | synced u role hsync =>
    have hu : u ∈ users := findUser_mem hsync.2.1
    constructor
    · intro hadmin v hv hactive _
      have huv : u = v := Option.some.inj (hsync.2.1.symm.trans hv.2.1)
      subst huv
      by_contra hlone
      obtain ⟨-, -, -, -, dn, groups, hask, hmap⟩ := hsync
      obtain ⟨-, -, -, -, dn', groups', hask', hmap'⟩ := hv
      rw [hask] at hask'
      cases hask'
      rw [hmap] at hmap'
      cases hmap'
      have hgone : ¬ HasAdmin (users.update u.id fun a => { a with role := .csrRequester }) :=
        not_hasAdmin_update (by intro; rfl) hu hlone (by rfl)
      exact hgone hadmin
    · intro hspare
      exact hasAdmin_synced h hu fun hrole hactive => hspare u (hrole ▸ hsync) hactive trivial
  | other r hnot hkeep => exact ⟨fun _ u hsync => absurd hsync (hnot u _), fun _ => hkeep h⟩

theorem basic_hasAdmin_iff (h : HasAdmin users) :
    HasAdmin (authenticateBasic lib env ldap username password users cache).users ↔
      (basicHit lib env username password users cache = none →
        SparesTheLast lib env ldap username password users fun _ => True) := by
  unfold authenticateBasic
  by_cases hempty : username = [] ∨ password = []
  · rw [if_pos hempty]
    exact ⟨fun _ _ u hsync _ _ => absurd hempty (not_or.2 hsync.1), fun _ => h⟩
  rw [if_neg hempty]
  simp only
  cases hhit : basicHit lib env username password users cache with
  | some hit =>
    unfold basicHit at hhit
    rw [hhit]
    exact ⟨fun _ hnone => absurd hnone (by simp), fun _ => h⟩
  | none =>
    unfold basicHit at hhit
    rw [hhit, imp_iff_right rfl, ← authenticate_hasAdmin_iff h]
    unfold authenticateAndCache
    simp only
    cases (authenticate lib env ldap username password users).1.user <;> exact Iff.rfl

/-- a login whose result is committed leaves what `authenticate` leaves -/
theorem login_committed (h : ∀ u, (authenticate lib env ldap (strip username) password users).1.user = some u →
      (authenticate lib env ldap (strip username) password users).1.ok = true → u.totpEnabled = true →
        (authenticate lib env ldap (strip username) password users).1.authMethod ≠ .ldap) :
    (login lib env ldap username password session users).1 =
      (authenticate lib env ldap (strip username) password users).2 := by
  unfold login
  generalize authenticate lib env ldap (strip username) password users = r at h
  simp only
  split
  · rfl
  · rename_i u hu
    split_ifs with hok htotp hmethod
    · rfl
    · exact absurd hmethod (h u hu (by simpa using hok) htotp)
    · rfl
    · rfl

/-- **The login form.** With a second factor still to come nothing is committed. -/
theorem login_hasAdmin_iff (h : HasAdmin users) :
    HasAdmin (login lib env ldap username password session users).1 ↔
      SparesTheLast lib env ldap (strip username) password users fun u => u.totpEnabled = false := by
  have hfull := @authenticate_hasAdmin_iff lib env ldap users (strip username) password h
  have hcases : ∀ r, Wrote lib env ldap (strip username) password users r →
      authenticate lib env ldap (strip username) password users = r →
      (HasAdmin (login lib env ldap username password session users).1 ↔
        SparesTheLast lib env ldap (strip username) password users fun u => u.totpEnabled = false) := by
    intro r hwrote hr
    cases hwrote with
    | other r hnot hkeep =>
      refine ⟨fun _ u hsync => absurd hsync (hnot u _), fun _ => ?_⟩
      rcases @login_users_cases lib env ldap username password session users with hsame | hauth
      · rw [hsame]
        exact h
      · rw [hauth, hr]
        exact hkeep h
    | synced u role hsync =>
      have hunique : ∀ {v role'}, Synced lib env ldap (strip username) password users v role' → v = u :=
        fun hv => Option.some.inj (hv.2.1.symm.trans hsync.2.1)
      by_cases hheld : u.isActiveUser = true ∧ u.totpEnabled = true
      · -- an account with a second factor: nothing is written
        have hsame : (login lib env ldap username password session users).1 = users := by
          unfold login
          rw [hr]
          simp [AuthResult.ok, hheld.1, hheld.2]
        rw [hsame]
        refine ⟨fun _ v hv _ htotp => ?_, fun _ => h⟩
        rw [hunique hv, hheld.2] at htotp
        cases htotp
      · rw [login_committed, hfull]
        · refine ⟨fun hspare v hv hactive _ => hspare v hv hactive trivial, fun hspare v hv hactive _ => ?_⟩
          refine hspare v hv hactive ?_
          rw [hunique hv] at hactive ⊢
          have hon : u.isActiveUser = true := (Bool.and_eq_true_iff.1 hactive).2
          exact Bool.eq_false_iff.2 fun htotp => hheld ⟨hon, htotp⟩
        · intro v hv hok htotp
          rw [hr] at hv hok
          cases hv
          by_cases hon : u.isActiveUser = true
          · exact absurd ⟨hon, htotp⟩ hheld
          · simp [AuthResult.ok, hon] at hok
  exact hcases _ (authenticate_wrote lib env ldap (strip username) password users) rfl

end Logins

/-! ## Requests -/

section Requests

variable {lib : Lib} {env : Env} {ldap : Option LdapConfig} {users : UserTable} {admin u : User} {session : Session}
  {cache : Cache}

theorem useFactor_activeAdmin (factor : Factor) (u : User) : (useFactor factor u).activeAdmin = u.activeAdmin := by
  cases factor <;> rfl

theorem twoFactor_hasAdmin_iff {code : Text} :
    HasAdmin (twoFactor lib env code session users).1 ↔ HasAdmin users := by
  unfold twoFactor
  split
  · exact Iff.rfl
  · split_ifs
    · exact Iff.rfl
    · split
      · exact Iff.rfl
      · exact hasAdmin_registerFailedAttempt
      · refine hasAdmin_update_iff (by intro; exact useFactor_id _ _) ?_
        exact fun a => useFactor_activeAdmin _ a

/-- one's own credentials are neither role nor activity -/
theorem handleOwn_hasAdmin_iff {r : OwnRequest} :
    HasAdmin (handleOwn lib env session users cache r).users ↔ HasAdmin users := by
  cases r with
  | changePassword form =>
    simp only [handleOwn]
    unfold changePassword
    split
    · exact Iff.rfl
    · split_ifs
      · exact Iff.rfl
      · refine hasAdmin_update_iff (by intro; rfl) ?_
        exact fun _ => rfl
  | twoFactorSetup secret code codes =>
    simp only [handleOwn]
    unfold twoFactorSetup
    split
    · exact Iff.rfl
    · split
      · refine hasAdmin_update_iff (by intro; rfl) ?_
        exact fun _ => rfl
      · exact Iff.rfl
  | twoFactorDisable enforced password code =>
    simp only [handleOwn]
    unfold twoFactorDisable
    split
    · exact Iff.rfl
    · split_ifs
      · exact Iff.rfl
      · split
        · refine hasAdmin_update_iff (by intro; rfl) ?_
          exact fun _ => rfl
        · exact Iff.rfl
  | recoveryCodes code codes =>
    simp only [handleOwn]
    unfold twoFactorRecoveryCodes
    split
    · exact Iff.rfl
    · split
      · refine hasAdmin_update_iff (by intro; exact useFactor_id _ _) ?_
        exact fun a => useFactor_activeAdmin _ a
      · exact Iff.rfl

/-- the actor is an active admin -/
theorem currentAdmin_mem {actor : ℤ} (h : currentAdmin users actor = some admin) :
    admin ∈ users ∧ admin.activeAdmin = true := by
  obtain ⟨hget, hactive⟩ := Option.filter_eq_some_iff.1 h
  exact ⟨Table.mem_of_get? hget, hactive⟩

theorem hasAdmin_createUser {form : UserForm} (h : HasAdmin users) :
    HasAdmin (createUser lib env ldap admin form users) := by
  unfold createUser
  split_ifs
  · exact hasAdmin_insert h
  · exact h

theorem hasAdmin_editUser {role : Role} (h : HasAdmin users) (hu : u ∈ users) :
    HasAdmin (editUser env ldap admin u role users) := by
  unfold editUser
  split_ifs with hlast hask
  · exact h
  · refine (hasAdmin_update_iff (by intro; rfl) ?_).2 h
    exact fun _ => rfl
  · refine hasAdmin_update (by intro; rfl) h fun v hv hid hadmin => ?_
    have hvu : v = u := Table.eq_of_key hv hu hid
    subst hvu
    cases role with
    | admin => exact .inl (Bool.and_eq_true_iff.1 hadmin).2
    | csrRequester =>
      -- the guard of the last active admin let the demotion through
      have hnot : lastAdmin users v = false := by simpa using hlast
      exact .inr (another_of_not_lastAdmin hv hadmin hnot)

theorem hasAdmin_toggleActive (h : HasAdmin users) (hadmin : admin ∈ users ∧ admin.activeAdmin = true) :
    HasAdmin (toggleActive admin u users) := by
  unfold toggleActive
  split_ifs with hself hpending hlast
  · exact h
  · exact h
  · exact h
  · refine hasAdmin_update toggled_id h fun v hv hid _ => .inr ⟨admin, hadmin.1, ?_, hadmin.2⟩
    rw [hid]
    exact Ne.symm hself

theorem hasAdmin_resetPassword {salt password : Text} (h : HasAdmin users)
    (hadmin : admin ∈ users ∧ admin.activeAdmin = true) :
    HasAdmin (Auth.resetPassword lib env ldap admin u salt password users cache).1 := by
  unfold Auth.resetPassword
  split_ifs with hok
  · refine hasAdmin_update (passwordReset_id lib env admin.id salt password _) h fun v hv hid hactive => ?_
    cases hgated : gatedReset env ldap users admin u with
    | false => exact .inl hactive
    | true =>
      -- who is deactivated is not the actor
      have hother : u.id ≠ admin.id := by
        unfold gatedReset at hgated
        simpa using (Bool.and_eq_true_iff.1 hgated).2
      exact .inr ⟨admin, hadmin.1, fun hid' => hother (hid.symm.trans hid'.symm), hadmin.2⟩
  · exact h

theorem hasAdmin_reset2fa (h : HasAdmin users) : HasAdmin (Auth.reset2fa u users cache).1 := by
  unfold Auth.reset2fa
  split_ifs
  · refine (hasAdmin_update_iff (by intro; rfl) ?_).2 h
    exact fun _ => rfl
  · exact h

/-- an approval activates, and applies the pending role -/
theorem approved_activeAdmin (i : ℤ) (u : User) :
    (approved i u).activeAdmin = (u.pendingRole.getD u.role == .admin && (u.isPending || u.isActiveUser)) := by
  unfold approved
  by_cases hpending : u.isPending = true
  · simp [hpending, User.activeAdmin, clearLockout]
  · simp [hpending, User.activeAdmin]

theorem hasAdmin_approveUser_iff (h : HasAdmin users) (hu : u ∈ users) :
    HasAdmin (approveUser env ldap admin u users) ↔
      (approveAccepted env ldap users admin u = true → u.activeAdmin = true → u.pendingRole = some .csrRequester →
        Another users u) := by
  unfold approveUser
  split_ifs with haccepted
  · constructor
    · intro hadmin _ hactive hrole
      by_contra hlone
      refine not_hasAdmin_update (approved_id admin.id) hu hlone ?_ hadmin
      rw [approved_activeAdmin, hrole]
      rfl
    · intro hspare
      refine hasAdmin_update (approved_id admin.id) h fun v hv hid hactive => ?_
      have hvu : v = u := Table.eq_of_key hv hu hid
      subst hvu
      have hsplit := Bool.and_eq_true_iff.1 hactive
      cases hrole : v.pendingRole with
      | none =>
        refine .inl ?_
        rw [approved_activeAdmin, hrole, hsplit.2, Bool.or_true, Bool.and_true]
        exact hsplit.1
      | some role =>
        cases role with
        | admin =>
          refine .inl ?_
          rw [approved_activeAdmin, hrole, hsplit.2, Bool.or_true]
          rfl
        | csrRequester => exact .inr (hspare haccepted hactive hrole)
  · exact ⟨fun _ hacc => absurd hacc haccepted, fun _ => h⟩

/-- **A request.** It keeps an active admin exactly when it meets the condition. -/
theorem answerServed_hasAdmin_iff (lib : Lib) (s : Store) (o : Served) (h : HasAdmin s.users) :
    HasAdmin (answerServed lib s o).users ↔ KeepsAnAdmin lib s o := by
  obtain ⟨directory, env, session, cache, request⟩ := o
  cases request with
  | login username password => exact login_hasAdmin_iff h
  | basic username password => exact basic_hasAdmin_iff h
  | twoFactor code => exact iff_of_true (twoFactor_hasAdmin_iff.2 h) trivial
  | own r => exact iff_of_true (handleOwn_hasAdmin_iff.2 h) trivial
  | saveLdap cfg => exact iff_of_true h trivial
  | resetLdap => exact iff_of_true h trivial
  | ownBasic enforced username password r =>
    refine Iff.trans ?_ (basic_hasAdmin_iff h)
    simp only [answerServed, handleAuth, handleOwnBasic]
    split
    · exact Iff.rfl
    · exact handleOwn_hasAdmin_iff
  | administer actor r =>
    simp only [answerServed, handleAuth, handleUsers]
    cases hactor : currentAdmin s.users actor with
    | none =>
      refine iff_of_true h ?_
      cases r with
      | approve uid =>
        intro admin u hadmin
        have hnone := hactor.symm.trans hadmin
        cases hnone
      | _ => trivial
    | some admin =>
      have hadmin := currentAdmin_mem hactor
      cases r with
      | create form => exact iff_of_true (hasAdmin_createUser h) trivial
      | edit uid role =>
        refine iff_of_true ?_ trivial
        dsimp only
        cases hget : s.users.get? uid with
        | none => exact h
        | some u => exact hasAdmin_editUser h (Table.mem_of_get? hget)
      | toggle uid =>
        refine iff_of_true ?_ trivial
        dsimp only
        cases hget : s.users.get? uid with
        | none => exact h
        | some u => exact hasAdmin_toggleActive h hadmin
      | resetPassword uid salt password =>
        refine iff_of_true ?_ trivial
        dsimp only
        cases hget : s.users.get? uid with
        | none => exact h
        | some u => exact hasAdmin_resetPassword h hadmin
      | reset2fa uid =>
        refine iff_of_true ?_ trivial
        dsimp only
        cases hget : s.users.get? uid with
        | none => exact h
        | some u => exact hasAdmin_reset2fa h
      | approve uid =>
        dsimp only
        cases hget : s.users.get? uid with
        | none =>
          refine iff_of_true h fun _ u _ hu => ?_
          have hnone := hget.symm.trans hu
          cases hnone
        | some u =>
          refine (hasAdmin_approveUser_iff h (Table.mem_of_get? hget)).trans
            ⟨fun hspare admin' v ha hv => ?_, fun hspare => ?_⟩
          · have hadmin' : admin = admin' := Option.some.inj (hactor.symm.trans ha)
            have huv : u = v := Option.some.inj (hget.symm.trans hv)
            subst hadmin' huv
            exact hspare
          · exact hspare admin u hactor hget

end Requests

/-! ## Runs -/

/-- **There is always an active admin** in a run that starts with one, in every state of it, exactly when every request
of the run keeps one: no committed directory login takes the role from the last, and no approval does. -/
theorem activeAdmin_iff (lib : Lib) (s : Store) (h : HasAdmin s.users) (ops : List Served) :
    (∀ l, l <+: ops → HasAdmin (run (answerServed lib) s l).users) ↔ Meets (answerServed lib) (KeepsAnAdmin lib) s ops :=
  forall_prefix_iff_meets (fun _ hs => hs) (fun s o hs hC => (answerServed_hasAdmin_iff lib s o hs).2 hC)
    (fun s o hs hC hadmin => hC ((answerServed_hasAdmin_iff lib s o hs).1 hadmin)) h ops

/-! ## Examples -/

/-- an administrator of the directory, and nobody else -/
def directoryAdmin : UserTable :=
    ⟨[{ sampleUser 1 "chief" .admin with passwordHash := none, authSource := .ldap }], by decide⟩

def directoryOn : LdapConfig := ⟨true, "cn=admins".toList, "cn=staff".toList, []⟩

/-- a login of the only admin, with the groups the directory answers -/
def chiefLogsIn (groups : List Text) : Served where
  directory := fun _ _ _ => .bound "uid=chief".toList groups
  env := Env.at 0
  session := Session.empty
  cache := []
  request := .login "chief".toList "secret".toList

/-- the theorem applies to the login of an admin that the directory keeps one -/
theorem activeAdmin_iff_chief :
    Meets (answerServed sampleLib) (KeepsAnAdmin sampleLib) ⟨directoryAdmin, some directoryOn⟩
      [chiefLogsIn ["cn=admins".toList]] := by
  refine (activeAdmin_iff sampleLib ⟨directoryAdmin, some directoryOn⟩ ⟨_, List.mem_cons_self, rfl⟩ _).1 fun l hl => ?_
  have hadmin : ∀ l ∈ [chiefLogsIn ["cn=admins".toList]].inits, ∃ u ∈ (run (answerServed sampleLib)
      ⟨directoryAdmin, some directoryOn⟩ l).users.rows, u.activeAdmin = true := by decide +kernel
  exact hadmin l ((List.mem_inits _ _).2 hl)

/-- the only admin is moved to another group of the directory, and logs in -/
theorem directory_demotes_last_admin :
    ¬ ∀ (lib : Lib) (s : Store), HasAdmin s.users → ∀ ops : List Served, HasAdmin (run (answerServed lib) s ops).users := by
  intro h
  obtain ⟨u, hu, hadmin⟩ := h sampleLib ⟨directoryAdmin, some directoryOn⟩ ⟨_, List.mem_cons_self, rfl⟩
    [chiefLogsIn ["cn=staff".toList]]
  have hrows : (run (answerServed sampleLib) ⟨directoryAdmin, some directoryOn⟩
    [chiefLogsIn ["cn=staff".toList]]).users.rows =
      [{ sampleUser 1 "chief" .csrRequester with passwordHash := none, authSource := .ldap }] := by
    decide +kernel
  rw [Table.mem_def, hrows, List.mem_singleton] at hu
  subst hu
  cases hadmin

end Chancery.Auth
