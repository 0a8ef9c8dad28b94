/-
What an API token whose only scope is `read` can change.

(1) `served_unchanged`: outside the open blueprints such a token passes for GET, HEAD and OPTIONS only, and a view then
writes only if it takes HEAD for its form (`notGet_of_safe`).
(2) `read_token_unchanged`: so in every run without a HEAD request of an admin's token to such a page, without an accepted
request about the owner's own credentials, without a sign-in that is accepted or counted as a failure, and without a request
to the ACME server, nothing changes but the time of the last use, CRLs and OCSP responders.
(3) `head_writes`: on a page that returns early for GET only, HEAD runs the branch for the form.
(4) `read_token_enrols`: the blueprint `auth` needs no scope. The token enrols a second factor for its owner; and the login
page, with a token as without, counts a wrong password against the local account it names.
-/
import Mathlib.Tactic
import Chancery.Core.Run
import Chancery.Routes.Dispatch

namespace Chancery.Tokens

open Chancery.Core Chancery.Auth

variable {α β γ ρ : Type}

/-- nothing has changed but the time the token was last used, CRLs and OCSP responders -/
structure Unchanged (tokenId : Text) (before after : Database α β γ) : Prop where
  store : after.store = before.store
  tokens : forgetUse tokenId after.tokens = forgetUse tokenId before.tokens
  acme : after.acme = before.acme
  rest : after.rest = before.rest

/-- the token's only scope is `read` -/
def ReadOnly (tokenId : Text) (tokens : TokenTable) : Prop := ∀ t ∈ tokens, t.tokenId = tokenId → t.scopes = [.read]

/-! ## The condition -/

/-- the owner of the token, when it is valid -/
def owner (hashSecret : Text → Text) (presented : Text) (s : Client α β γ) (env : Env) : Option User :=
  (verifyToken hashSecret env.now s.db.store.users s.db.tokens presented).map Prod.snd

/-- an accepted request about the owner's own credentials -/
def changesOwn (lib : Lib) (env : Env) (r : Request ρ) (s : Client α β γ) (u : User) : Bool :=
  r.method == .post && r.endpoint == some (ownEndpoint r.own) &&
    r.own.commits lib env (actingSession s.db.store.users s.session u) s.db.store.users

/-- a login that is accepted, or counted as a failure: of a local account that is not locked, or one that the directory
answers -/
def loginWrites (lib : Lib) (env : Env) (ldap : Option LdapConfig) (username password : Text) (users : UserTable) : Bool :=
  username != [] && password != [] &&
    match (findUser users username).filter (·.authSource == .localDb) with
    | some u =>
      !isLocked env.now u && if u.checkPassword lib password then u.isActiveUser else decide (0 < env.lockoutThreshold)
    | none =>
      (effectiveConfig env ldap).enabled &&
        match askDirectory lib env (effectiveConfig env ldap) username password with
        | .bound _ groups => (mapRole lib (effectiveConfig env ldap) groups).any fun role =>
          (findUser users username).all fun u => u.isActiveUser || u.role != role
        | _ => false

/-- a code that is accepted, or counted as a failure, of the account whose password was accepted before -/
def codeWrites (lib : Lib) (env : Env) (code : Text) (session : Session) (users : UserTable) : Bool :=
  (pre2faUser env session users).any fun u => !isLocked env.now u &&
    match checkSecondFactor lib env u code with
    | .error _ => false
    | .ok none => decide (0 < env.lockoutThreshold)
    | .ok (some _) => true

def SignIn.writes (lib : Lib) (env : Env) (ldap : Option LdapConfig) (session : Session) (users : UserTable) :
    SignIn → Bool
  | .login username password => loginWrites lib env ldap (strip username) password users
  | .twoFactor code => codeWrites lib env code session users

/-- a sign-in that is accepted, or counted as a failure -/
def signsIn (lib : Lib) (env : Env) (r : Request ρ) (s : Client α β γ) : Bool :=
  r.method == .post && r.endpoint == some (signInEndpoint r.signIn) &&
    r.signIn.writes lib env s.db.store.ldap s.session s.db.store.users

/-- a HEAD request to a page that writes for every method but GET, from an account that may see the page -/
def headToForm (r : Request ρ) (s : Client α β γ) (u : User) : Bool :=
  r.method == .head && r.route.any fun route =>
    match route.view with
    | .page adminOnly .notGet => (s.current (some u)).any fun v => !adminOnly || v.role == .admin
    | _ => false

/-- the requests that may change something -/
def disturbs (lib : Lib) (hashSecret : Text → Text) (presented : Text) (s : Client α β γ) (o : Env × Request ρ) : Bool :=
  o.2.endpoint.any (blueprint · == "acme".toList) ||
    (owner hashSecret presented s o.1).any fun u =>
      signsIn lib o.1 o.2 s || changesOwn lib o.1 o.2 s u || headToForm o.2 s u

def Quiet (lib : Lib) (hashSecret : Text → Text) (presented : Text) (s : Client α β γ) (o : Env × Request ρ) : Prop :=
  disturbs lib hashSecret presented s o = false

instance (lib : Lib) (hashSecret : Text → Text) (presented : Text) (s : Client α β γ) (o : Env × Request ρ) :
    Decidable (Quiet lib hashSecret presented s o) :=
  inferInstanceAs (Decidable (_ = false))

/-! ## One request -/

section Step

variable {lib : Lib} {hashSecret : Text → Text} {code : Views α β γ ρ} {presented tokenId secret : Text}
  {s : Client α β γ} {o : Env × Request ρ} {env : Env} {r : Request ρ} {u : User}

theorem Unchanged.refl (tokenId : Text) (db : Database α β γ) : Unchanged tokenId db db := ⟨rfl, rfl, rfl, rfl⟩

theorem Unchanged.trans {a b c : Database α β γ} (h : Unchanged tokenId a b) (k : Unchanged tokenId b c) :
    Unchanged tokenId a c :=
  ⟨k.store.trans h.store, k.tokens.trans h.tokens, k.acme.trans h.acme, k.rest.trans h.rest⟩

/-- the scopes of the token are those it had -/
theorem ReadOnly.unchanged {before after : Database α β γ} (h : ReadOnly tokenId before.tokens)
    (hsame : Unchanged tokenId before after) : ReadOnly tokenId after.tokens := by
  intro t ht hid
  have hrow : { t with lastUsedAt := none } ∈ (forgetUse tokenId before.tokens).rows := by
    rw [← hsame.tokens]
    exact List.mem_map.2 ⟨t, ht, if_pos hid⟩
  obtain ⟨t', ht', heq⟩ := List.mem_map.1 hrow
  split_ifs at heq with hid'
  · have hscopes := congrArg ApiToken.scopes heq
    rw [← show t'.scopes = t.scopes from hscopes]
    exact h t' ht' hid'
  · have hid'' := congrArg ApiToken.tokenId heq
    exact absurd (hid''.trans hid) hid'

/-- a request about the owner's own credentials that is not accepted -/
theorem serveOwn_unchanged
    (h : r.own.commits lib env (actingSession s.db.store.users s.session u) s.db.store.users = false) :
    Unchanged tokenId s.db (serveOwn lib env r.own u s).db := by
  have husers := (@handleOwn_outcome lib env s.db.store.users (actingSession s.db.store.users s.session u) []
    r.own).users_eq h
  refine ⟨?_, rfl, rfl, rfl⟩
  simp only [serveOwn, husers]

/-- a local account that is locked, or whose failure is not counted -/
theorem authenticateLocal_unchanged {u : User} {password : Text} {users : UserTable}
    (h : isLocked env.now u = true ∨
      (if u.checkPassword lib password then u.isActiveUser else decide (0 < env.lockoutThreshold)) = false) :
    (authenticateLocal lib env u password users).2 = users := by
  unfold authenticateLocal
  by_cases hlocked : isLocked env.now u = true
  · rw [if_pos hlocked]
  rw [if_neg hlocked]
  have hrefused := h.resolve_left hlocked
  by_cases hpassword : u.checkPassword lib password = true
  · rw [if_pos hpassword] at hrefused
    simp [hpassword, hrefused]
  · rw [if_neg hpassword] at hrefused
    have hoff : env.lockoutThreshold ≤ 0 := by simpa using hrefused
    rw [if_pos (by simpa using hpassword)]
    exact if_pos hoff

/-- an account that the directory does not let in, and whose role it does not change -/
theorem authenticateLdap_unchanged {cfg : LdapConfig} {username password : Text} {users : UserTable}
    (h : cfg.enabled = true → ∀ dn groups, askDirectory lib env cfg username password = .bound dn groups →
      ((mapRole lib cfg groups).any fun role => (findUser users username).all fun u => u.isActiveUser || u.role != role) =
        false) :
    (authenticateLdap lib env cfg (findUser users username) username password users).2 = users := by
  unfold authenticateLdap
  by_cases henabled : cfg.enabled = true
  swap
  · rw [if_pos (by simpa using henabled)]
  rw [if_neg (by simpa using henabled)]
  cases hask : askDirectory lib env cfg username password with
  | unavailable => rfl
  | refused => rfl
  | bound dn groups =>
    replace h := h henabled dn groups hask
    simp only
    cases hrole : mapRole lib cfg groups with
    | none => rfl
    | some role =>
      rw [hrole, Option.any_some] at h
      simp only
      cases huser : findUser users username with
      | none =>
        rw [huser] at h
        cases h
      | some u =>
        rw [huser] at h
        simp only [Option.all_some, Bool.or_eq_false_iff, bne_eq_false_iff_eq] at h
        -- the role that is written is the one the account has
        apply Table.ext
        refine (List.map_congr_left fun a ha => ?_).trans (List.map_id _)
        split_ifs with hid
        · have heq : a = u := Table.eq_of_key ha (findUser_mem huser) hid
          rw [heq, ← h.2]
          rfl
        · rfl

/-- a login that is neither accepted nor counted -/
theorem authenticate_unchanged {ldap : Option LdapConfig} {username password : Text} {users : UserTable}
    (h : loginWrites lib env ldap username password users = false) :
    (authenticate lib env ldap username password users).2 = users := by
  unfold authenticate
  split_ifs with hempty
  · rfl
  rw [not_or] at hempty
  unfold loginWrites at h
  rw [Bool.and_eq_false_iff] at h
  have hfilled : (username != [] && password != []) = true := by simp [hempty.1, hempty.2]
  replace h := h.resolve_left (by rw [hfilled]; exact Bool.noConfusion)
  cases hlocal : (findUser users username).filter (·.authSource == .localDb) with
  | some u =>
    rw [hlocal] at h
    simp only [Bool.and_eq_false_iff, Bool.not_eq_false'] at h
    exact authenticateLocal_unchanged h
  | none =>
    rw [hlocal] at h
    refine authenticateLdap_unchanged fun henabled dn groups hask => ?_
    simpa only [henabled, Bool.true_and, hask] using h

theorem twoFactor_unchanged {code : Text} {session : Session} {users : UserTable}
    (h : codeWrites lib env code session users = false) : (twoFactor lib env code session users).1 = users := by
  unfold twoFactor
  unfold codeWrites at h
  cases hpending : pre2faUser env session users with
  | none => rfl
  | some u =>
    rw [hpending, Option.any_some] at h
    simp only
    by_cases hlocked : isLocked env.now u = true
    · rw [if_pos hlocked]
    rw [if_neg hlocked]
    simp only [Bool.and_eq_false_iff, Bool.not_eq_false'] at h
    replace h := h.resolve_left hlocked
    cases hcheck : checkSecondFactor lib env u code with
    | error e => rfl
    | ok factor =>
      rw [hcheck] at h
      cases factor with
      | none =>
        have hoff : env.lockoutThreshold ≤ 0 := by simpa using h
        exact if_pos hoff
      | some factor => cases h

/-- **A page that signs in**, when nothing is accepted or counted. -/
theorem serveSignIn_unchanged
    (h : r.method = .post → r.signIn.writes lib env s.db.store.ldap s.session s.db.store.users = false) :
    Unchanged tokenId s.db (serveSignIn lib env r s).db := by
  have husers : (signedIn lib env r.method s.db.store.ldap s.session s.db.store.users r.signIn).1 = s.db.store.users := by
    unfold signedIn
    cases hform : r.signIn with
    | login username password =>
      simp only
      split_ifs with hpost
      · have hno := h hpost
        rw [hform] at hno
        obtain hsame | hauth := @login_users_cases lib env s.db.store.ldap username password s.session s.db.store.users
        · exact hsame
        · exact hauth.trans (authenticate_unchanged hno)
      · rfl
    | twoFactor code =>
      simp only
      split_ifs with hpost
      · have hno := h hpost
        rw [hform] at hno
        exact twoFactor_unchanged hno
      · rfl
  refine ⟨?_, rfl, rfl, rfl⟩
  simp only [serveSignIn, husers]

/-- the view of a request that is quiet -/
theorem dispatch_unchanged
    (hscope : requiredScope r.method r.endpoint = none ∨ requiredScope r.method r.endpoint = some .read)
    (hsignIn : signsIn lib env r s = false) (hown : changesOwn lib env r s u = false) (hhead : headToForm r s u = false) :
    Unchanged tokenId s.db (dispatch lib code env r (some u) s).db := by
  unfold dispatch
  cases hroute : r.route with
  | none => exact .refl _ _
  | some route =>
    obtain ⟨hmem, hendpoint, haccepts⟩ := Request.route_mem hroute
    simp only
    cases hview : route.view with
    | plain => exact .refl _ _
    | artefacts => exact ⟨rfl, rfl, rfl, rfl⟩
    | signIn =>
      simp only
      split_ifs with hform
      · refine serveSignIn_unchanged fun hpost => ?_
        simpa [signsIn, hpost, hendpoint, hform] using hsignIn
      · exact .refl _ _
    | own =>
      simp only
      split_ifs with hpost
      · refine serveOwn_unchanged ?_
        simpa [changesOwn, hpost.1, hendpoint, hpost.2] using hown
      · exact .refl _ _
    | page adminOnly guard =>
      simp only
      cases hcurrent : (s.current (some u)).filter fun u => !adminOnly || u.role == .admin with
      | none => exact .refl _ _
      | some v =>
        simp only
        split_ifs with hruns
        · -- the scope lets only a safe method through, so the page takes HEAD for its form
          exfalso
          rw [hendpoint] at hscope
          have hsafe := safe_of_requiredScope (blueprint_of_page hmem hview) hscope
          obtain ⟨rfl, hmethod⟩ := notGet_of_safe hmem hview haccepts hsafe hruns
          obtain ⟨hv, hallowed⟩ := Option.filter_eq_some_iff.1 hcurrent
          have hany : (r.route.any fun route =>
              match route.view with
              | .page adminOnly .notGet => (s.current (some u)).any fun v => !adminOnly || v.role == .admin
              | _ => false) = true := by
            rw [hroute, Option.any_some, hview]
            exact (Option.any_eq_true _ _).2 ⟨v, hv, hallowed⟩
          rw [headToForm, hmethod, hany] at hhead
          cases hhead
        · exact .refl _ _

/-- the view of a request that the hook lets through without an account -/
theorem dispatch_anonymous (hmetrics : r.endpoint.any (blueprint · == "metrics".toList) = true) :
    Unchanged tokenId s.db (dispatch lib code env r none s).db := by
  unfold dispatch
  cases hroute : r.route with
  | none => exact .refl _ _
  | some route =>
    obtain ⟨hmem, hendpoint, _⟩ := Request.route_mem hroute
    rw [hendpoint, Option.any_some, beq_iff_eq] at hmetrics
    simp only [plain_of_metrics route hmem hmetrics]
    exact .refl _ _

/-- the account that passes is the owner of the token -/
theorem owner_of_passed {method : Method} {endpoint : Option Text} (h :
    (checkApiToken hashSecret env.now s.db.store.users s.db.tokens method endpoint presented).2 = .passed (some u)) :
    owner hashSecret presented s env = some u := by
  unfold checkApiToken at h
  by_cases hmetrics : endpoint.any (blueprint · == "metrics".toList) = true
  · rw [if_pos hmetrics] at h
    cases h
  rw [if_neg hmetrics] at h
  unfold owner
  cases hverify : verifyToken hashSecret env.now s.db.store.users s.db.tokens presented with
  | none =>
    rw [hverify] at h
    cases h
  | some found =>
    rw [hverify] at h
    simp only at h
    split_ifs at h
    rw [← Option.some.inj (Gate.passed.inj h)]
    rfl

/-- without an account only the blueprint of the metrics passes -/
theorem metrics_of_passed {method : Method} {endpoint : Option Text} (h :
    (checkApiToken hashSecret env.now s.db.store.users s.db.tokens method endpoint presented).2 = .passed none) :
    endpoint.any (blueprint · == "metrics".toList) = true := by
  by_contra hother
  unfold checkApiToken at h
  rw [if_neg hother] at h
  cases hverify : verifyToken hashSecret env.now s.db.store.users s.db.tokens presented with
  | none =>
    rw [hverify] at h
    cases h
  | some found =>
    rw [hverify] at h
    simp only at h
    split_ifs at h
    cases h

/-- the hook records the use of the token -/
theorem checked_unchanged (hashSecret : Text → Text) (now : DateTime) (method : Method) (endpoint : Option Text)
    (s : Client α β γ) (hsplit : splitToken presented = some (tokenId, secret)) :
    Unchanged tokenId s.db
      { s.db with tokens := (checkApiToken hashSecret now s.db.store.users s.db.tokens method endpoint presented).1 } :=
  ⟨rfl, checkApiToken_forgetUse hsplit, rfl, rfl⟩

/-- **A quiet request of a read-only token changes nothing.** -/
theorem served_unchanged (hsplit : splitToken presented = some (tokenId, secret)) (hread : ReadOnly tokenId s.db.tokens)
    (hquiet : Quiet lib hashSecret presented s o) : Unchanged tokenId s.db
      (serve lib hashSecret code presented s o).db := by
  obtain ⟨hacme, howner⟩ := Bool.or_eq_false_iff.1 hquiet
  have hother : ∀ endpoint, o.2.endpoint = some endpoint → blueprint endpoint ≠ "acme".toList := by
    intro endpoint hendpoint
    simpa [hendpoint] using hacme
  have hchecked := checked_unchanged hashSecret o.1.now o.2.method o.2.endpoint s hsplit
  let tokens := (checkApiToken hashSecret o.1.now s.db.store.users s.db.tokens o.2.method o.2.endpoint presented).1
  let checked : Client α β γ := { s with db := { s.db with tokens := tokens } }
  simp only [serve, acmeHeaders_eq hother]
  cases hgate : (checkApiToken hashSecret o.1.now s.db.store.users s.db.tokens o.2.method o.2.endpoint presented).2 with
  | refused => exact hchecked
  | passed account =>
    apply hchecked.trans
    cases account with
    | none => exact @dispatch_anonymous α β γ ρ lib code tokenId checked o.1 o.2 (metrics_of_passed hgate)
    | some u =>
      rw [owner_of_passed hgate, Option.any_some] at howner
      obtain ⟨hforms, hhead⟩ := Bool.or_eq_false_iff.1 howner
      obtain ⟨hsignIn, hown⟩ := Bool.or_eq_false_iff.1 hforms
      have hscope := requiredScope_of_passed hsplit hread hgate
      exact @dispatch_unchanged α β γ ρ lib code tokenId checked o.1 o.2 u hscope hsignIn hown hhead

/-- a valid token with the scope passes, and its use is recorded -/
theorem passed_of_verified {t : ApiToken} {method : Method} {endpoint : Text}
    (hmetrics : blueprint endpoint ≠ "metrics".toList)
    (hverify : verifyToken hashSecret env.now s.db.store.users s.db.tokens presented = some (t, u))
    (haway : turnedAway t u method (some endpoint) = false) :
    checkApiToken hashSecret env.now s.db.store.users s.db.tokens method (some endpoint) presented =
      (s.db.tokens.update t.id (ApiToken.touched env.now) (ApiToken.touched_id env.now), .passed (some u)) := by
  unfold checkApiToken
  rw [if_neg (by simpa using hmetrics), hverify]
  simp only [haway, Bool.false_eq_true, if_false]

/-- the owner of a valid token is `current_user` for a client without a session -/
theorem current_of_verified {db : Database α β γ} {t : ApiToken}
    (hverify : verifyToken hashSecret env.now db.store.users db.tokens presented = some (t, u)) :
    (⟨db, .empty⟩ : Client α β γ).current (some u) = some u := by
  obtain ⟨p, -, hrow⟩ := Option.bind_eq_some_iff.1 hverify
  obtain ⟨row, -, howner⟩ := Option.bind_eq_some_iff.1 hrow
  obtain ⟨v, hv, hpair⟩ := Option.map_eq_some_iff.1 howner
  obtain ⟨-, rfl⟩ := Prod.mk.inj hpair
  obtain ⟨hget, hactive⟩ := Option.filter_eq_some_iff.1 hv
  have hself : db.store.users.get? v.id = some v := by
    obtain ⟨hmem, -⟩ := Table.get?_eq_some.1 hget
    exact Table.get?_eq_some.2 ⟨hmem, rfl⟩
  have hload : loadUser db.store.users (finishLogin v) = some v := by
    simp [loadUser, finishLogin, hself]
  change currentUser db.store.users (finishLogin v) = some v
  rw [currentUser, hload]
  exact Option.filter_eq_some_iff.2 ⟨rfl, hactive⟩

/-- **HEAD writes what POST writes.** On a page that returns early for GET only, a HEAD request with a valid token of an
admin needs the scope `read`, and runs the branch for the form. -/
theorem head_writes {db : Database α β γ} {t : ApiToken} {route : Route} {adminOnly : Bool}
    (hverify : verifyToken hashSecret env.now db.store.users db.tokens presented = some (t, u))
      (hread : t.hasScope .read = true)
    (hadmin : u.role = .admin) (hchanged : u.mustChangePassword = false) (hroute : r.route = some route)
    (hview : route.view = .page adminOnly .notGet) (hmethod : r.method = .head) :
    (serve lib hashSecret code presented ⟨db, .empty⟩ (env, r)).db =
      code.page route.endpoint r.form u
        { db with tokens := db.tokens.update t.id (ApiToken.touched env.now) (ApiToken.touched_id env.now) } := by
  obtain ⟨hmem, hendpoint, -⟩ := Request.route_mem hroute
  have hblueprint := blueprint_of_page hmem hview
  have hneeds : requiredScope r.method (some route.endpoint) = some .read := by
    simp only [requiredScope, hmethod]
    rw [if_neg hblueprint]
    rfl
  have haway : turnedAway t u r.method (some route.endpoint) = false := by
    simp [turnedAway, hchanged, hneeds, hread]
  have hmetrics : blueprint route.endpoint ≠ "metrics".toList := by
    intro h
    rw [h] at hblueprint
    exact hblueprint (by decide)
  have hpassed := @passed_of_verified α β γ hashSecret presented ⟨db, .empty⟩ env u t r.method route.endpoint hmetrics
    hverify haway
  have hother : ∀ endpoint, r.endpoint = some endpoint → blueprint endpoint ≠ "acme".toList := by
    intro endpoint h
    rw [hendpoint] at h
    rw [← Option.some.inj h]
    exact routes_not_acme route hmem
  -- the users are those of the database before the use of the token was noted
  have hcurrent : (⟨{ db with tokens := db.tokens.update t.id (ApiToken.touched env.now) (ApiToken.touched_id env.now) },
      .empty⟩ : Client α β γ).current (some u) = some u := @current_of_verified α β γ hashSecret presented env u db
        t hverify
  have hruns : WriteGuard.runs .notGet r.method = true := by
    rw [hmethod]
    rfl
  simp only [serve, acmeHeaders_eq hother, hendpoint, hpassed, dispatch, hroute, hview]
  simp only [hcurrent, if_pos hruns]
  rw [Option.filter_some, if_pos (by simp [hadmin])]

end Step

/-! ## Runs -/

/-- **A read-only token changes nothing** in a run of quiet requests, but the time of its last use, CRLs and OCSP
responders. -/
theorem read_token_unchanged (lib : Lib) (hashSecret : Text → Text) (code : Views α β γ ρ) (presented tokenId secret : Text)
    (hsplit : splitToken presented = some (tokenId, secret)) (db : Database α β γ) (hread : ReadOnly tokenId db.tokens)
    (ops : List (Env × Request ρ))
    (hquiet : Meets (serve lib hashSecret code presented) (Quiet lib hashSecret presented) ⟨db, .empty⟩ ops) :
    Unchanged tokenId db (run (serve lib hashSecret code presented) ⟨db, .empty⟩ ops).db := by
  have hstep : ∀ (s : Client α β γ) o, Quiet lib hashSecret presented s o → Unchanged tokenId db s.db →
      Unchanged tokenId db (serve lib hashSecret code presented s o).db := fun s o hq h =>
    h.trans (served_unchanged hsplit (hread.unchanged h) hq)
  exact @run_invariant_of_meets _ _ (serve lib hashSecret code presented) (fun s => Unchanged tokenId db s.db) _ hstep _
    (.refl tokenId db) ops hquiet

/-! ## An admin and a user with a token each -/

/-- the token of an account, for `read` -/
def readToken (userId : ℤ) (tokenId : String) : ApiToken :=
  ⟨userId, userId, tokenId.toList, "secret".toList, [.read], 90 * day, none, false⟩

/-- the settings are a list of texts -/
def sampleDatabase : Database Unit (List Text) Unit where
  store := ⟨⟨[sampleUser 1 "admin" .admin, sampleUser 2 "bob" .csrRequester], by decide⟩, none⟩
  tokens := ⟨[readToken 1 "1", readToken 2 "2"], by decide⟩
  artefacts := ()
  acme := ()
  rest := []

/-- a form is added to the settings -/
def sampleViews : Views Unit (List Text) Unit Text where
  page _ form _ db := { db with rest := form :: db.rest }
  regenerate _ _ _ := ()
  acme _ _ _ := ()

/-- a request for a page, with an empty form -/
def visit (method : Method) (endpoint : String) : Env × Request Text :=
  (Env.at 0, ⟨method, some endpoint.toList, .twoFactor [], .recoveryCodes [] [], []⟩)

/-- the confirmation of an enrolment -/
def enrol (secret code : String) : Env × Request Text :=
  (Env.at 0, ⟨.post, some "auth.two_factor_setup".toList, .twoFactor [], .twoFactorSetup secret.toList code.toList [], []⟩)

/-- the login page -/
def signInAs (username password : String) : Env × Request Text :=
  (Env.at 0, ⟨.post, some "auth.login".toList, .login username.toList password.toList, .recoveryCodes [] [], []⟩)

/-- bob's token reads, tries to sign a CSR, confirms an enrolment with a wrong code, and signs in as nobody -/
theorem read_token_unchanged_sample :
    Unchanged "2".toList sampleDatabase
      (run (serve sampleLib id sampleViews "chy_api_2_secret".toList) ⟨sampleDatabase, .empty⟩
      [visit .get "csr.list_csrs", visit .post "csr.sign", visit .get "auth.two_factor_setup",
        enrol "123456" "654321", signInAs "nobody" "guess"]).db :=
  read_token_unchanged sampleLib id sampleViews "chy_api_2_secret".toList "2".toList "secret".toList (by decide +kernel)
    sampleDatabase (show ∀ t ∈ sampleDatabase.tokens.rows, t.tokenId = "2".toList → t.scopes = [.read] by decide) _
    (by decide +kernel)

/-- **A token for `read` writes**: bob's enrols a second factor, and counts a wrong password against the admin; the admin's
saves the webhook settings. -/
theorem read_token_enrols :
    ¬ Unchanged "2".toList sampleDatabase (run (serve sampleLib id sampleViews "chy_api_2_secret".toList)
      ⟨sampleDatabase, .empty⟩ [visit .get "auth.two_factor_setup", enrol "123456" "123456"]).db ∧
    ¬ Unchanged "1".toList sampleDatabase (run (serve sampleLib id sampleViews "chy_api_1_secret".toList)
      ⟨sampleDatabase, .empty⟩ [visit .head "users.webhook_settings"]).db ∧
    ¬ Unchanged "2".toList sampleDatabase (run (serve sampleLib id sampleViews "chy_api_2_secret".toList)
      ⟨sampleDatabase, .empty⟩ [signInAs "admin" "guess"]).db := by
  refine ⟨fun h => ?_, fun h => ?_, fun h => ?_⟩
  · have husers := congrArg (fun store => store.users.rows.map (·.totpEnabled)) h.store
    revert husers
    decide +kernel
  · have hrest := h.rest
    revert hrest
    decide +kernel
  · have hcounts := congrArg (fun store => store.users.rows.map (·.failedLoginCount)) h.store
    revert hcounts
    decide +kernel

end Chancery.Tokens
