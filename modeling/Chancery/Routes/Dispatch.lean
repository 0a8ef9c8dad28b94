/-
The route map of the application, and one request that presents an API token.

A route says which methods it takes, who may call its view, and when the view writes (`WriteGuard`): the views of one
page for GET and POST either test for POST, or return early for GET. Flask sends HEAD to the view of GET, and answers
OPTIONS itself. What the views of the CAs, certificates, CSRs, accounts and settings write is a parameter (`Views`);
the pages that sign in, and those about one's own credentials, are those of `Routes/Auth.lean`. Audit rows are left out.
-/
import Mathlib.Tactic
import Chancery.Routes.Process
import Chancery.Services.ApiTokens

namespace Chancery.Tokens

open Chancery.Core Chancery.Auth

/-! ## The route map -/

/-- when a view writes -/
inductive WriteGuard
  /-- never, but for audit rows -/
  | never
  /-- `if request.method == "POST":` -/
  | post
  /-- after `if request.method == "GET": return …` -/
  | notGet
  /-- whenever it is called -/
  | always
deriving DecidableEq

def WriteGuard.runs (guard : WriteGuard) (method : Method) : Bool :=
  match guard with
  | .never => false
  | .post => method == .post
  | .notGet => method != .get
  | .always => true

inductive View
  /-- `admin_required` or `login_required` -/
  | page (adminOnly : Bool) (guard : WriteGuard)
  /-- a page that signs in by a password or a code -/
  | signIn
  /-- a page about one's own credentials -/
  | own
  /-- a public endpoint that may regenerate a CRL or an OCSP responder -/
  | artefacts
  /-- nothing is written -/
  | plain
deriving DecidableEq

structure Route where
  endpoint : Text
  methods : List Method
  view : View

/-- a page without a form -/
def reads (endpoint : String) (adminOnly : Bool) : Route := ⟨endpoint.toList, [.get], .page adminOnly .never⟩

/-- a page with a form on it -/
def form (endpoint : String) (adminOnly : Bool) (guard : WriteGuard) : Route :=
  ⟨endpoint.toList, [.get, .post], .page adminOnly guard⟩

/-- an action -/
def action (endpoint : String) (adminOnly : Bool) : Route := ⟨endpoint.toList, [.post], .page adminOnly .always⟩

def caRoutes : List Route :=
  [reads "ca.list_cas" true, form "ca.create" true .post, ⟨"ca.detect_parent".toList, [.post], .page true .never⟩,
    reads "ca.detail" true, action "ca.rotate_ocsp_responder" true, action "ca.set_profiles" true, action "ca.approve" true,
    form "ca.download" true .never, form "ca.revoke" true .post, action "ca.generate_crl" true, action "ca.reissue" true,
    action "ca.cross_sign" true, action "ca.import_alternate" true, action "ca.approve_alternate" true,
    action "ca.delete_alternate" true, action "ca.set_acme" true, action "ca.create_acme_eab" true,
    action "ca.revoke_acme_eab" true]

def certificateRoutes : List Route :=
  [reads "certificates.list_certs" false, form "certificates.create" true .post, reads "certificates.detail" false,
    form "certificates.revoke" true .post, form "certificates.renew" true .notGet,
      form "certificates.download" false .never,
    ⟨"certificates.download_key".toList, [.post], .page true .never⟩]

def csrRoutes : List Route :=
  [reads "csr.list_csrs" false, form "csr.create" false .post, reads "csr.detail" false, form "csr.sign" true .post,
    action "csr.reject" true]

def userRoutes : List Route :=
  [reads "users.list_users" true, form "users.create_user" true .post, form "users.edit_user" true .post,
    action "users.toggle_active" true, form "users.reset_password" true .post, action "users.approve_user" true,
    form "users.ldap_settings" true .notGet, action "users.ldap_settings_reset" true,
      form "users.webhook_settings" true .notGet,
    action "users.webhook_settings_reset" true, reads "users.profiles" true, form "users.profile_new" true .notGet,
    form "users.profile_edit" true .notGet, action "users.profile_toggle" true, action "users.profile_delete" true,
    reads "users.audit_log" true, reads "users.audit_log_export" true, form "users.api_tokens" false .post,
    action "users.revoke_api_token" false, action "users.reset_2fa" true]

def otherRoutes : List Route :=
  [reads "dashboard.index" false, reads "apidocs.openapi_json" false, reads "apidocs.docs" false,
    ⟨"metrics.metrics".toList, [.get], .plain⟩, ⟨"health.health".toList, [.get], .plain⟩, ⟨"static".toList, [.get], .plain⟩]

def authRoutes : List Route :=
  [⟨"auth.login".toList, [.get, .post], .signIn⟩, ⟨"auth.two_factor".toList, [.get, .post], .signIn⟩,
    ⟨"auth.logout".toList, [.post], .plain⟩,
    ⟨"auth.change_password".toList, [.get, .post], .own⟩, ⟨"auth.two_factor_setup".toList, [.get, .post], .own⟩,
    ⟨"auth.two_factor_disable".toList, [.post], .own⟩, ⟨"auth.two_factor_recovery_codes".toList, [.post], .own⟩]

def publicRoutes : List Route :=
  [⟨"public.download_crl_der".toList, [.get], .artefacts⟩, ⟨"public.download_crl_pem".toList, [.get], .artefacts⟩,
    ⟨"public.download_ca_cert".toList, [.get], .plain⟩, ⟨"public.download_ca_alt_cert".toList, [.get], .plain⟩,
    ⟨"public.ocsp_responder".toList, [.post], .artefacts⟩, ⟨"public.ocsp_responder_get".toList, [.get], .artefacts⟩]

def routes : List Route :=
  caRoutes ++ certificateRoutes ++ csrRoutes ++ userRoutes ++ otherRoutes ++ authRoutes ++ publicRoutes

/-- does Flask call the view for this method -/
def Route.accepts (r : Route) (method : Method) : Bool :=
  r.methods.contains method || (method == .head && r.methods.contains .get)

/-! ## Requests -/

/-- the database: of what the views write, the accounts and the LDAP settings are given, the rest is not -/
structure Database (α β γ : Type*) where
  store : Store
  tokens : TokenTable
  /-- CRLs and OCSP responders -/
  artefacts : α
  /-- the tables of the ACME server -/
  acme : γ
  /-- CSRs, certificates, CAs, profiles and the other settings -/
  rest : β

/-- what views write -/
structure Views (α β γ ρ : Type*) where
  page : Text → ρ → User → Database α β γ → Database α β γ
  regenerate : Text → ρ → Database α β γ → α
  /-- every answer of the ACME blueprint carries a fresh nonce -/
  acme : Text → ρ → Database α β γ → γ

/-- the form of `login` or `two_factor` -/
inductive SignIn
  | login (username password : Text)
  | twoFactor (code : Text)

/-- a request: its form, if it goes to a page that signs in, to one about one's own credentials, and else -/
structure Request (ρ : Type*) where
  method : Method
  /-- none: there is no such page -/
  endpoint : Option Text
  signIn : SignIn
  own : OwnRequest
  form : ρ

/-- the page a form belongs to -/
def signInEndpoint : SignIn → Text
  | .login _ _ => "auth.login".toList
  | .twoFactor _ => "auth.two_factor".toList

def ownEndpoint : OwnRequest → Text
  | .changePassword _ => "auth.change_password".toList
  | .twoFactorSetup _ _ _ => "auth.two_factor_setup".toList
  | .twoFactorDisable _ _ _ => "auth.two_factor_disable".toList
  | .recoveryCodes _ _ => "auth.two_factor_recovery_codes".toList

/-- the database, and the cookie that the client keeps -/
structure Client (α β γ : Type*) where
  db : Database α β γ
  session : Session

section Serve

variable {α β γ ρ : Type*}

/-- the route whose view is called -/
def Request.route (r : Request ρ) : Option Route :=
  (r.endpoint.bind fun e => routes.find? (·.endpoint == e)).filter (·.accepts r.method)

/-- `current_user`: the account of the cookie, else the owner of the token -/
def Client.current (s : Client α β γ) (owner : Option User) : Option User :=
  owner.bind fun u => currentUser s.db.store.users (actingSession s.db.store.users s.session u)

/-- `_pre_2fa_user` on a GET of `two_factor`: a pending step that is over leaves the cookie -/
def peekPending (env : Env) (session : Session) (users : UserTable) : Session :=
  { session with pre2fa := if (pre2faUser env session users).isSome then session.pre2fa else none }

/-- `login` and `two_factor`: the account of the token plays no part -/
def signedIn (lib : Lib) (env : Env) (method : Method) (ldap : Option LdapConfig) (session : Session) (users : UserTable) :
    SignIn → UserTable × Session
  | .login username password =>
    if method = .post then login lib env ldap username password session users else (users, session)
  | .twoFactor code =>
    if method = .post then twoFactor lib env code session users else (users, peekPending env session users)

def serveSignIn (lib : Lib) (env : Env) (r : Request ρ) (s : Client α β γ) : Client α β γ :=
  let answer := signedIn lib env r.method s.db.store.ldap s.session s.db.store.users r.signIn
  ⟨{ s.db with store := { s.db.store with users := answer.1 } }, answer.2⟩

/-- the POST of a page about one's own credentials -/
def serveOwn (lib : Lib) (env : Env) (r : OwnRequest) (owner : User) (s : Client α β γ) : Client α β γ :=
  let acting := actingSession s.db.store.users s.session owner
  let reply := handleOwn lib env acting s.db.store.users [] r
  ⟨{ s.db with store := { s.db.store with users := reply.users } }, restamped s.session acting reply.session⟩

/-- the view -/
def dispatch (lib : Lib) (code : Views α β γ ρ) (env : Env) (r : Request ρ) (owner : Option User) (s : Client α β γ) :
    Client α β γ :=
  match r.route with
  | none => s
  | some route =>
    match route.view with
    | .plain => s
    | .artefacts => { s with db := { s.db with artefacts := code.regenerate route.endpoint r.form s.db } }
    | .signIn => if route.endpoint = signInEndpoint r.signIn then serveSignIn lib env r s else s
    | .own =>
      if r.method = .post ∧ route.endpoint = ownEndpoint r.own then owner.elim s fun u => serveOwn lib env r.own u s else s
    | .page adminOnly guard =>
      match (s.current owner).filter fun u => !adminOnly || u.role == .admin with
      | none => s
      | some u => if guard.runs r.method then { s with db := code.page route.endpoint r.form u s.db } else s

/-- `_acme_headers`, after any answer of the blueprint -/
def acmeHeaders (code : Views α β γ ρ) (r : Request ρ) (s : Client α β γ) : Client α β γ :=
  match r.endpoint.filter (blueprint · == "acme".toList) with
  | none => s
  | some endpoint => { s with db := { s.db with acme := code.acme endpoint r.form s.db } }

/-- a request with `Authorization: Bearer …` -/
def serve (lib : Lib) (hashSecret : Text → Text) (code : Views α β γ ρ) (presented : Text) (s : Client α β γ)
    (o : Env × Request ρ) : Client α β γ :=
  let gate := checkApiToken hashSecret o.1.now s.db.store.users s.db.tokens o.2.method o.2.endpoint presented
  let checked := { s with db := { s.db with tokens := gate.1 } }
  acmeHeaders code o.2 (match gate.2 with
    | .refused => checked
    | .passed owner => dispatch lib code o.1 o.2 owner checked)

end Serve

/-! ## The map as a whole -/

/-- what the scopes rely on: a page is outside the open blueprints and takes GET or POST, and an action takes no GET -/
def Route.inOrder (r : Route) : Bool :=
  match r.view with
  | .page _ guard =>
    !openBlueprints.contains (blueprint r.endpoint) && r.methods.all (fun m => m == .get || m == .post) &&
      (guard != .always || !r.methods.contains .get)
  | _ => true

theorem routes_inOrder : ∀ r ∈ routes, r.inOrder = true := by decide +kernel

/-- the requests of the map are not those of the ACME server -/
theorem routes_not_acme : ∀ r ∈ routes, blueprint r.endpoint ≠ "acme".toList := by decide +kernel

/-- the endpoint without the hook writes nothing -/
theorem plain_of_metrics : ∀ r ∈ routes, blueprint r.endpoint = "metrics".toList → r.view = .plain := by decide +kernel

/-- a page needs a scope -/
theorem blueprint_of_page {r : Route} {adminOnly : Bool} {guard : WriteGuard} (hr : r ∈ routes)
    (hview : r.view = .page adminOnly guard) : blueprint r.endpoint ∉ openBlueprints := by
  have horder := routes_inOrder r hr
  simp only [Route.inOrder, hview, Bool.and_eq_true] at horder
  simpa using horder.1.1

/-- a safe method that a page takes is GET, or HEAD beside GET -/
theorem Route.takes_get {r : Route} {method : Method} (hmethods : ∀ m ∈ r.methods, m = .get ∨ m = .post)
    (haccepts : r.accepts method = true) (hsafe : method.safe = true) : .get ∈ r.methods ∧
      (method = .get ∨ method = .head) := by
  simp only [Route.accepts, Bool.or_eq_true, Bool.and_eq_true, List.contains_iff_mem, beq_iff_eq] at haccepts
  rcases haccepts with hmem | ⟨rfl, hget⟩
  · rcases hmethods method hmem with rfl | rfl
    · exact ⟨hmem, Or.inl rfl⟩
    · cases hsafe
  · exact ⟨hget, Or.inr rfl⟩

/-- **A safe method makes a page write only where HEAD is taken for a write.** -/
theorem notGet_of_safe {r : Route} {adminOnly : Bool} {guard : WriteGuard} {method : Method} (hr : r ∈ routes)
    (hview : r.view = .page adminOnly guard) (haccepts : r.accepts method = true) (hsafe : method.safe = true)
    (hruns : guard.runs method = true) : guard = .notGet ∧ method = .head := by
  have horder := routes_inOrder r hr
  simp only [Route.inOrder, hview, Bool.and_eq_true] at horder
  obtain ⟨⟨-, hmethods⟩, halways⟩ := horder
  obtain ⟨hget, hmethod⟩ := Route.takes_get (by simpa using hmethods) haccepts hsafe
  cases guard with
  | never => cases hruns
  | post => rcases hmethod with rfl | rfl <;> cases hruns
  | notGet =>
    rcases hmethod with rfl | rfl
    · cases hruns
    · exact ⟨rfl, rfl⟩
  | always => simp [hget] at halways

theorem acmeHeaders_eq {α β γ ρ : Type*} {code : Views α β γ ρ} {r : Request ρ} {s : Client α β γ}
    (h : ∀ endpoint, r.endpoint = some endpoint → blueprint endpoint ≠ "acme".toList) : acmeHeaders code r s = s := by
  have hother : r.endpoint.filter (blueprint · == "acme".toList) = none := by
    apply Option.filter_eq_none_iff.2
    intro endpoint hendpoint
    simpa using h endpoint hendpoint
  unfold acmeHeaders
  rw [hother]

theorem Request.route_mem {ρ : Type*} {r : Request ρ} {route : Route} (h : r.route = some route) :
    route ∈ routes ∧ r.endpoint = some route.endpoint ∧ route.accepts r.method = true := by
  obtain ⟨hbind, haccepts⟩ := Option.filter_eq_some_iff.1 h
  obtain ⟨endpoint, hendpoint, hfind⟩ := Option.bind_eq_some_iff.1 hbind
  have hname : route.endpoint = endpoint := by simpa using List.find?_some hfind
  exact ⟨List.mem_of_find?_eq_some hfind, by rw [hendpoint, hname], haccepts⟩

end Chancery.Tokens
