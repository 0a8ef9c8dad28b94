/-
API tokens and metrics tokens over whole runs: which texts open what.

Somebody keeps two ledgers of what the answers told: each token that was shown, taken back, or accepted (`Bearer.note`).
They are not in the code.

(1) `accepted_iff`: at every moment of a run, a text is accepted at `/metrics` exactly when the ledger of the metrics tokens
has it, not taken back and not over, and it stands for an account exactly when the ledger of the API tokens has it so for
that account, and the account is active. No text is both.
(2) `use_recorded`: the recorded last use of a token is never later than its last accepted use, and less than a minute
earlier.
(3) `revokeCommand_iff`: `flask metrics-token revoke` looks a token up by name, and then revokes by its id; but a name is
tried before an id. It withdraws the token that it names unless another token has that id for a name.

(1) and (2) assume that the digest is injective and that no metrics token is named like a number.
-/
import Mathlib.Tactic
import Chancery.Core.Run
import Chancery.Core.JsonLoads
import Chancery.Services.TokenIssue

namespace Chancery.Tokens

open Chancery.Core Chancery.Auth
open MetricsTokens (TokenDraw MetricsTable MetricsConfig)

/-! ## The system -/

structure TokenEnv where
  lib : TokenLib
  maxDays : ℤ
  config : MetricsConfig

structure TokenSt where
  users : UserTable
  api : ApiStore
  metrics : MetricsTable
  now : DateTime
  apiLedger : List Bearer.Grant
  metricsLedger : List Bearer.Grant

inductive TokenOp
  | wait (elapsed : ℕ)
  /-- whatever other requests make of the accounts -/
  | accounts (users : UserTable)
  | createToken (userId : ℤ) (form : TokenForm) (draw : TokenDraw)
  | revokeRequest (callerId id : ℤ)
  | revokeCommand (arg : Text)
  | request (method : Method) (endpoint : Option Text) (presented : Text)
  | createMetrics (name : Text) (expiresInDays : ℤ) (draw : TokenDraw)
  | revokeMetrics (arg : Text)
  | scrape (header : Text)

def TokenSt.start (users : UserTable) (now : DateTime) : TokenSt := ⟨users, ⟨Table.empty, []⟩, Table.empty, now, [], []⟩

/-- the token that a request is accepted with -/
def acceptedToken (env : TokenEnv) (s : TokenSt) (endpoint : Option Text) (presented : Text) : Option (ApiToken × User) :=
  if endpoint.any (blueprint · == "metrics".toList) then none
  else verifyToken env.lib.hashSecret s.now s.users s.api.tokens presented

def tokenStep (env : TokenEnv) (s : TokenSt) : TokenOp → TokenSt
  | .wait elapsed => { s with now := s.now + elapsed }
  | .accounts users => { s with users := users }
  | .createToken userId form draw =>
    match s.users.get? userId with
    | none => s
    | some user =>
      match createToken env.lib env.maxDays s.now s.api user form draw with
      | .error _ => s
      | .ok (plaintext, row, api) => { s with
        api := api
        apiLedger := Bearer.note s.apiLedger (.shown row.id (some row.userId) plaintext row.expiresAt) }
  | .revokeRequest callerId id =>
    match s.users.get? callerId with
    | none => s
    | some caller =>
      match revokeRequest s.api caller id with
      | (none, _) => s
      | (some row, api) => { s with api := api, apiLedger := Bearer.note s.apiLedger (.revoked row.id) }
  | .revokeCommand arg =>
    match getToken env.lib.int s.api.tokens arg with
    | none => s
    | some row => { s with api := revokeToken s.api row, apiLedger := Bearer.note s.apiLedger (.revoked row.id) }
  | .request method endpoint presented => { s with
    api := ⟨(checkApiToken env.lib.hashSecret s.now s.users s.api.tokens method endpoint presented).1, s.api.names⟩
    apiLedger := match acceptedToken env s endpoint presented with
      | none => s.apiLedger
      | some (t, _) => Bearer.note s.apiLedger (.used t.id s.now) }
  | .createMetrics name days draw =>
    match MetricsTokens.createCommand env.lib.hashSecret s.now s.metrics name days draw with
    | (.shown id plaintext expiresAt, metrics) =>
      { s with metrics := metrics, metricsLedger := Bearer.note s.metricsLedger (.shown id none plaintext expiresAt) }
    | (_, metrics) => { s with metrics := metrics }
  | .revokeMetrics arg =>
    match MetricsTokens.revokeCommand env.lib.int s.metrics arg with
    | (.revoked id _, metrics) =>
      { s with metrics := metrics, metricsLedger := Bearer.note s.metricsLedger (.revoked id) }
    | (_, metrics) => { s with metrics := metrics }
  | .scrape header =>
    match MetricsTokens.scrape env.config env.lib.hashSecret s.now s.metrics header with
    | (.rendered (some id), metrics) =>
      { s with metrics := metrics, metricsLedger := Bearer.note s.metricsLedger (.used id s.now) }
    | (_, metrics) => { s with metrics := metrics }

/-- the decimal text of a number -/
def numeral (n : ℤ) : Text := (toString n).toList

/-- no metrics token is named like a number -/
def Unnumbered : TokenOp → Prop
  | .createMetrics name _ _ => ∀ n, strip name ≠ numeral n
  | _ => True

/-! ## The services as ledgers see them -/

variable {env : TokenEnv} {s : TokenSt} {hashSecret : Text → Text} {now : DateTime} {t : MetricsTable} {presented : Text}

theorem verify_eq : MetricsTokens.verify hashSecret now t presented =
    Bearer.find hashSecret MetricsTokens.tokenPrefix now t.rows presented := by
  unfold MetricsTokens.verify Bearer.find
  congr 1
  funext p
  rw [Option.filter_filter]
  rfl

theorem verifyToken_eq {users : UserTable} {tokens : TokenTable} : verifyToken hashSecret now users tokens presented =
    (Bearer.find hashSecret tokenPrefix now tokens.rows presented).bind fun t =>
      ((users.get? t.userId).filter (·.isActiveUser)).map fun u => (t, u) := by
  unfold verifyToken Bearer.find
  rw [Option.bind_assoc]
  rfl

theorem touched_lastUsedAt (row : ApiToken) :
    (row.touched now).lastUsedAt = Bearer.touched touchThrottle now row.lastUsedAt := by
  unfold ApiToken.touched Bearer.touched
  split_ifs
  · rfl
  · rfl

theorem same_touched (row : ApiToken) : Bearer.Same row (row.touched now) := by
  unfold ApiToken.touched
  split_ifs
  · exact ⟨rfl, rfl, rfl, rfl, rfl⟩
  · exact ⟨rfl, rfl, rfl, rfl, rfl⟩

/-- hexadecimal draws make ids without an underscore -/
theorem TokenDraw.shape (draw : TokenDraw) : '_' ∉ draw.tokenId ∧ draw.tokenId ≠ [] ∧ draw.secret ≠ [] := by
  have hno : ∀ c ∈ draw.tokenId, (hexValue c).isSome = true := fun c hc => draw.hex c (List.mem_append_left _ hc)
  refine ⟨fun hmem => ?_, fun hnil => ?_, fun hnil => ?_⟩
  · have hbad := hno '_' hmem
    revert hbad
    decide
  · have hlen := draw.lengths.1
    rw [hnil] at hlen
    cases hlen
  · have hlen := draw.lengths.2
    rw [hnil] at hlen
    cases hlen

/-! ## What the operations do -/

/-- the row of a new metrics token -/
def newMetricsToken (hashSecret : Text → Text) (name : Text) (draw : TokenDraw) (expiresAt : DateTime) (id : ℤ) :
    MetricsTokens.MetricsToken := ⟨id, name, draw.tokenId, hashSecret draw.secret, expiresAt, none, false⟩

theorem create_ok {name : Option Text} {expiresAt : Option DateTime} {draw : TokenDraw} {r : Text × ℤ × MetricsTable}
    (h : MetricsTokens.create hashSecret t name expiresAt draw = .ok r) : ∃ e, expiresAt = some e ∧
      r = (Bearer.present MetricsTokens.tokenPrefix draw.tokenId draw.secret, t.nextKey,
        t.insert (newMetricsToken hashSecret (strip (name.getD [])) draw e) fun _ => rfl) ∧
      (∀ row ∈ t, row.name ≠ strip (name.getD [])) ∧ ∀ row ∈ t, row.tokenId ≠ draw.tokenId := by
  simp only [MetricsTokens.create] at h
  by_cases hname : strip (name.getD []) = []
  · rw [if_pos hname] at h
    cases h
  rw [if_neg hname] at h
  cases expiresAt with
  | none => cases h
  | some e =>
    simp only at h
    split_ifs at h with htaken hid
    refine ⟨e, rfl, (Except.ok.inj h).symm, fun row hrow heq => htaken ?_, fun row hrow heq => hid ?_⟩
    · exact List.any_eq_true.2 ⟨row, hrow, beq_iff_eq.2 heq⟩
    · exact List.any_eq_true.2 ⟨row, hrow, beq_iff_eq.2 heq⟩

theorem createCommand_cases (hashSecret : Text → Text) (now : DateTime) (t : MetricsTable) (name : Text) (days : ℤ)
    (draw : TokenDraw) :
    (∃ message, MetricsTokens.createCommand hashSecret now t name days draw = (.failed message, t)) ∨
    (MetricsTokens.createCommand hashSecret now t name days draw =
        (.shown t.nextKey (Bearer.present MetricsTokens.tokenPrefix draw.tokenId draw.secret) (now + days * day),
          t.insert (newMetricsToken hashSecret (strip name) draw (now + days * day)) fun _ => rfl) ∧
      (∀ row ∈ t, row.name ≠ strip name) ∧ ∀ row ∈ t, row.tokenId ≠ draw.tokenId) := by
  unfold MetricsTokens.createCommand
  split_ifs
  · exact Or.inl ⟨_, rfl⟩
  cases hcreate : MetricsTokens.create hashSecret t (some name) (some (now + days * day)) draw with
  | error e => exact Or.inl ⟨_, rfl⟩
  | ok r =>
    obtain ⟨e, he, rfl, hname, hid⟩ := create_ok hcreate
    cases he
    exact Or.inr ⟨rfl, hname, hid⟩

/-- the row of a new API token -/
def newApiToken (hashSecret : Text → Text) (user : User) (scopes : List Scope) (draw : TokenDraw) (expiresAt : DateTime)
    (id : ℤ) : ApiToken := ⟨id, user.id, draw.tokenId, hashSecret draw.secret, scopes, expiresAt, none, false⟩

theorem createToken_ok {lib : TokenLib} {maxDays : ℤ} {a : ApiStore} {user : User} {form : TokenForm} {draw : TokenDraw}
    {r : Text × ApiToken × ApiStore} (h : createToken lib maxDays now a user form draw = .ok r) : ∃ scopes e names,
      r = (Bearer.present tokenPrefix draw.tokenId draw.secret,
        newApiToken lib.hashSecret user scopes draw e a.tokens.nextKey,
        ⟨a.tokens.insert (newApiToken lib.hashSecret user scopes draw e) fun _ => rfl, names⟩) ∧
      ∀ row ∈ a.tokens, row.tokenId ≠ draw.tokenId := by
  simp only [createToken] at h
  by_cases hname : strip (form.name.getD []) = []
  · rw [if_pos hname] at h
    cases h
  rw [if_neg hname] at h
  by_cases hlength : 100 < (strip (form.name.getD [])).length
  · rw [if_pos hlength] at h
    cases h
  rw [if_neg hlength] at h
  split at h
  · cases h
  · cases h
  · next scopes days _ _ =>
    split_ifs at h with hrange hactive htaken hid
    refine ⟨scopes, now + days * day, a.names ++ [(user.id, strip (form.name.getD []))], (Except.ok.inj h).symm,
      fun row hrow heq => hid ?_⟩
    exact List.any_eq_true.2 ⟨row, hrow, beq_iff_eq.2 heq⟩

/-- a withdrawn row is one that already was, or the updated one -/
theorem rows_revokeToken (a : ApiStore) {row : ApiToken} (hrow : row ∈ a.tokens) :
    (revokeToken a row).tokens.rows = a.tokens.rows.map fun r => if r.id = row.id then r.withdrawn else r := by
  unfold revokeToken
  split_ifs with hback
  · refine (List.map_id' a.tokens.rows).symm.trans (List.map_congr_left fun r hr => ?_)
    split_ifs with hkey
    · have heq : r = row := Table.eq_of_key hr hrow hkey
      subst heq
      unfold ApiToken.withdrawn
      rw [← hback]
    · rfl
  · rfl

theorem getToken_mem {int : Text → Option ℤ} {tokens : TokenTable} {arg : Text} {row : ApiToken}
    (h : getToken int tokens arg = some row) : row ∈ tokens := by
  rcases Option.or_eq_some_iff.1 h with h | ⟨-, h⟩
  · exact List.mem_of_find?_eq_some h
  · obtain ⟨n, -, h⟩ := Option.bind_eq_some_iff.1 h
    exact Table.mem_of_get? h

theorem revokeRequest_some {a a' : ApiStore} {caller : User} {id : ℤ} {row : ApiToken}
    (h : revokeRequest a caller id = (some row, a')) : row ∈ a.tokens ∧ a' = revokeToken a row := by
  unfold revokeRequest at h
  split at h
  · cases h
  · next found hget =>
    split_ifs at h
    · cases h
    · cases h
      exact ⟨Table.mem_of_get? hget, rfl⟩

theorem checkApiToken_tokens (method : Method) (endpoint : Option Text) :
    (checkApiToken env.lib.hashSecret s.now s.users s.api.tokens method endpoint presented).1 =
      match acceptedToken env s endpoint presented with
      | none => s.api.tokens
      | some (t, _) => s.api.tokens.update t.id (ApiToken.touched s.now) (ApiToken.touched_id s.now) := by
  unfold checkApiToken acceptedToken
  split_ifs
  · rfl
  · cases verifyToken env.lib.hashSecret s.now s.users s.api.tokens presented with
    | none => rfl
    | some found => rfl

theorem scrape_cases (cfg : MetricsConfig) (hashSecret : Text → Text) (now : DateTime) (t : MetricsTable) (header : Text) :
    (MetricsTokens.scrape cfg hashSecret now t header).2 = t ∧
      (∀ id, (MetricsTokens.scrape cfg hashSecret now t header).1 ≠ .rendered (some id)) ∨
    ∃ row, MetricsTokens.verify hashSecret now t (MetricsTokens.bearer header) = some row ∧
      MetricsTokens.scrape cfg hashSecret now t header = (.rendered (some row.id),
        t.update row.id (MetricsTokens.MetricsToken.touched now) (MetricsTokens.MetricsToken.touched_id now)) := by
  unfold MetricsTokens.scrape
  split_ifs
  · exact Or.inl ⟨rfl, by simp⟩
  · exact Or.inl ⟨rfl, by simp⟩
  · cases hverify : MetricsTokens.verify hashSecret now t (MetricsTokens.bearer header) with
    | none => exact Or.inl ⟨rfl, by simp⟩
    | some row => exact Or.inr ⟨row, rfl, rfl⟩

theorem get_mem {int : Text → Option ℤ} {arg : MetricsTokens.NameOrId} {row : MetricsTokens.MetricsToken}
    (h : MetricsTokens.get int t arg = some row) : row ∈ t := by
  cases arg with
  | text arg =>
    rcases Option.or_eq_some_iff.1 h with h | ⟨-, h⟩
    · exact List.mem_of_find?_eq_some h
    · obtain ⟨n, -, h⟩ := Option.bind_eq_some_iff.1 h
      exact Table.mem_of_get? h
  | number n =>
    rcases Option.or_eq_some_iff.1 h with h | ⟨-, h⟩
    · exact List.mem_of_find?_eq_some h
    · exact Table.mem_of_get? h

/-- by its id, unless another token has the id for a name -/
theorem get_number (int : Text → Option ℤ) {row : MetricsTokens.MetricsToken} (hrow : row ∈ t)
    (hname : ∀ r ∈ t, r.name = numeral row.id → r.id = row.id) : MetricsTokens.get int t (.number row.id) = some row := by
  show (t.rows.find? (·.name == numeral row.id)).or (t.get? row.id) = some row
  cases hfind : t.rows.find? (·.name == numeral row.id) with
  | none => exact Table.get?_key hrow
  | some r =>
    have hmem : r ∈ t := List.mem_of_find?_eq_some hfind
    have hr : r.name = numeral row.id := by simpa using List.find?_some hfind
    rw [Table.eq_of_key hmem hrow (hname r hmem hr)]
    rfl

theorem revokeCommand_cases (int : Text → Option ℤ) (t : MetricsTable) (arg : Text) :
    (MetricsTokens.revokeCommand int t arg).2 = t ∧
      (∀ id name, (MetricsTokens.revokeCommand int t arg).1 ≠ .revoked id name) ∨
    ∃ row, MetricsTokens.get int t (.text arg) = some row ∧ row.revoked = false ∧
      MetricsTokens.revokeCommand int t arg =
        (.revoked row.id row.name, (MetricsTokens.revoke int t (.number row.id)).2) := by
  unfold MetricsTokens.revokeCommand
  cases hget : MetricsTokens.get int t (.text arg) with
  | none => exact Or.inl ⟨rfl, fun id name h => nomatch h⟩
  | some row =>
    by_cases hback : row.revoked = true
    · left
      simp [hback]
    · simp only [if_neg hback]
      exact Or.inr ⟨row, rfl, by simpa using hback, rfl⟩

/-! ## (1) and (2): the ledgers -/

/-- the tables carry the ledgers; which metrics token was taken back, if none is named like a number (`plainly`) -/
structure LedgerInv (plainly : Prop) (env : TokenEnv) (s : TokenSt) : Prop where
  api : Bearer.Keeps True env.lib.hashSecret tokenPrefix touchThrottle s.now s.api.tokens.rows s.apiLedger
  metrics : Bearer.Keeps plainly env.lib.hashSecret MetricsTokens.tokenPrefix MetricsTokens.touchThrottle s.now
    s.metrics.rows s.metricsLedger
  plain : plainly → ∀ row ∈ s.metrics, ∀ n, row.name ≠ numeral n

variable {plainly : Prop}

theorem ledgerInv_start (env : TokenEnv) (users : UserTable) (now : DateTime) : LedgerInv plainly env (.start users now) :=
  ⟨Bearer.keeps_nil, Bearer.keeps_nil, fun _ _ hrow => absurd hrow (Table.not_mem_empty _)⟩

theorem throttle_pos : 0 < touchThrottle := by decide

theorem fresh_tokenId {α : Type} [Bearer.Credential α] {rows : List α} {tokenId : Text}
    (h : ∀ row ∈ rows, Bearer.Credential.tokenId row ≠ tokenId) :
    tokenId ∉ rows.map (Bearer.Credential.tokenId (α := α)) := by
  intro hmem
  obtain ⟨row, hrow, heq⟩ := List.mem_map.1 hmem
  exact h row hrow heq

/-- an update keeps the names -/
theorem plain_update (h : ∀ row ∈ t, ∀ n, row.name ≠ numeral n) (k : ℤ)
    {f : MetricsTokens.MetricsToken → MetricsTokens.MetricsToken} (hf : ∀ row, (f row).id = row.id)
    (hname : ∀ row, (f row).name = row.name) : ∀ row ∈ t.update k f hf, ∀ n, row.name ≠ numeral n := by
  intro row hrow
  obtain ⟨r, hr, rfl⟩ := Table.mem_update.1 hrow
  split_ifs
  · rw [hname]
    exact h r hr
  · exact h r hr

/-- API tokens change as the ledger says -/
theorem LedgerInv.withdraw (h : LedgerInv plainly env s) {row : ApiToken} (hrow : row ∈ s.api.tokens) :
    LedgerInv plainly env { s with
      api := revokeToken s.api row
      apiLedger := Bearer.note s.apiLedger (.revoked row.id) } := by
  refine ⟨?_, h.metrics, h.plain⟩
  have hkeeps : Bearer.Keeps True env.lib.hashSecret tokenPrefix touchThrottle s.now
      (s.api.tokens.rows.map fun r => if r.id = row.id then r.withdrawn else r)
      (Bearer.note s.apiLedger (.revoked row.id)) :=
    h.api.revoked row.id (fun _ => ⟨rfl, rfl, rfl, rfl, rfl⟩) (fun _ => rfl) fun _ => rfl
  rw [← rows_revokeToken s.api hrow] at hkeeps
  exact hkeeps

theorem LedgerInv.createToken (h : LedgerInv plainly env s) (userId : ℤ) (form : TokenForm) (draw : TokenDraw) :
    LedgerInv plainly env (tokenStep env s (.createToken userId form draw)) := by
  simp only [tokenStep]
  cases s.users.get? userId with
  | none => exact h
  | some user =>
    dsimp only
    cases hcreate : Tokens.createToken env.lib env.maxDays s.now s.api user form draw with
    | error e => exact h
    | ok r =>
      obtain ⟨scopes, e, names, rfl, hid⟩ := createToken_ok hcreate
      obtain ⟨hshape, hne, hsecret⟩ := TokenDraw.shape draw
      refine ⟨?_, h.metrics, h.plain⟩
      exact h.api.shown (newApiToken env.lib.hashSecret user scopes draw e s.api.tokens.nextKey) draw.secret
        rfl rfl hshape hne hsecret rfl (fresh_tokenId hid)

theorem LedgerInv.request (h : LedgerInv plainly env s) (method : Method) (endpoint : Option Text) (presented : Text) :
    LedgerInv plainly env (tokenStep env s (.request method endpoint presented)) := by
  simp only [tokenStep, checkApiToken_tokens]
  cases acceptedToken env s endpoint presented with
  | none => exact h
  | some found =>
    obtain ⟨row, owner⟩ := found
    refine ⟨?_, h.metrics, h.plain⟩
    exact h.api.used throttle_pos row.id (fun r => same_touched r) (fun r => by
      unfold ApiToken.touched
      split_ifs
      · rfl
      · rfl) fun r => touched_lastUsedAt r

theorem LedgerInv.createMetrics (h : LedgerInv plainly env s) {name : Text} {days : ℤ} {draw : TokenDraw}
    (hplain : plainly → Unnumbered (.createMetrics name days draw)) :
    LedgerInv plainly env (tokenStep env s (.createMetrics name days draw)) := by
  simp only [tokenStep]
  rcases createCommand_cases env.lib.hashSecret s.now s.metrics name days draw with ⟨message, heq⟩ | ⟨heq, -, hid⟩
  · rw [heq]
    exact h
  · rw [heq]
    obtain ⟨hshape, hne, hsecret⟩ := TokenDraw.shape draw
    refine ⟨h.api, ?_, ?_⟩
    · exact h.metrics.shown (newMetricsToken env.lib.hashSecret (strip name) draw (s.now + days * day)
        s.metrics.nextKey) draw.secret rfl rfl hshape hne hsecret rfl (fresh_tokenId hid)
    · intro hp row hrow
      have hmem : row ∈ s.metrics.insert (newMetricsToken env.lib.hashSecret (strip name) draw (s.now + days * day))
        fun _ => rfl := hrow
      rcases Table.mem_insert.1 hmem with hrow | rfl
      · exact h.plain hp row hrow
      · exact hplain hp

/-- without the names, whichever token a name or an id finds is taken back -/
theorem keeps_revoke {t : MetricsTable} {ledger : List Bearer.Grant}
    (h : Bearer.Keeps False hashSecret MetricsTokens.tokenPrefix MetricsTokens.touchThrottle now t.rows ledger)
    (int : Text → Option ℤ) (arg : MetricsTokens.NameOrId) (k : ℤ) :
    Bearer.Keeps False hashSecret MetricsTokens.tokenPrefix MetricsTokens.touchThrottle now
      (MetricsTokens.revoke int t arg).2.rows (Bearer.note ledger (.revoked k)) := by
  unfold MetricsTokens.revoke
  cases MetricsTokens.get int t arg with
  | none => exact h.noted k
  | some row =>
    dsimp only
    split_ifs
    · exact h.noted k
    · exact h.revoked_other row.id k (fun _ => ⟨rfl, rfl, rfl, rfl, rfl⟩) fun _ => rfl

theorem LedgerInv.revokeMetrics (h : LedgerInv plainly env s) (arg : Text) :
    LedgerInv plainly env (tokenStep env s (.revokeMetrics arg)) := by
  simp only [tokenStep]
  rcases revokeCommand_cases env.lib.int s.metrics arg with ⟨htable, hreply⟩ | ⟨row, hget, hback, heq⟩
  · cases hcommand : MetricsTokens.revokeCommand env.lib.int s.metrics arg with
    | mk reply metrics =>
      rw [hcommand] at htable hreply
      cases htable
      cases reply with
      | revoked id name => exact absurd rfl (hreply id name)
      | failed message => exact h
      | notMatching arg => exact h
      | shown id plaintext expiresAt => exact h
      | alreadyRevoked name => exact h
  · rw [heq]
    by_cases hp : plainly
    swap
    · have hmetrics : Bearer.Keeps False env.lib.hashSecret MetricsTokens.tokenPrefix MetricsTokens.touchThrottle s.now
          s.metrics.rows s.metricsLedger := by
        have hloose := h.metrics
        rwa [eq_false hp] at hloose
      refine ⟨h.api, ?_, fun hp' => absurd hp' hp⟩
      rw [eq_false hp]
      exact keeps_revoke hmetrics env.lib.int (.number row.id) row.id
    have hrow := get_mem hget
    have hnumber := get_number env.lib.int hrow fun r hr hname => absurd hname (h.plain hp r hr row.id)
    have hrevoke : (MetricsTokens.revoke env.lib.int s.metrics (.number row.id)).2 =
        s.metrics.update row.id MetricsTokens.MetricsToken.withdrawn MetricsTokens.MetricsToken.withdrawn_id := by
      unfold MetricsTokens.revoke
      rw [hnumber]
      exact if_neg (by rw [hback]; exact Bool.false_ne_true)
    rw [hrevoke]
    exact ⟨h.api, h.metrics.revoked row.id (fun _ => ⟨rfl, rfl, rfl, rfl, rfl⟩) (fun _ => rfl) fun _ => rfl,
      fun _ => plain_update (h.plain hp) row.id MetricsTokens.MetricsToken.withdrawn_id fun _ => rfl⟩

theorem LedgerInv.scrape (h : LedgerInv plainly env s) (header : Text) :
    LedgerInv plainly env (tokenStep env s (.scrape header)) := by
  simp only [tokenStep]
  rcases scrape_cases env.config env.lib.hashSecret s.now s.metrics header with ⟨htable, hanswer⟩ | ⟨row, -, heq⟩
  · cases hscrape : MetricsTokens.scrape env.config env.lib.hashSecret s.now s.metrics header with
    | mk answer metrics =>
      rw [hscrape] at htable hanswer
      cases htable
      cases answer with
      | notFound => exact h
      | unauthorized => exact h
      | rendered token =>
        cases token with
        | none => exact h
        | some id => exact absurd rfl (hanswer id)
  · rw [heq]
    exact ⟨h.api, h.metrics.used throttle_pos row.id (fun _ => ⟨rfl, rfl, rfl, rfl, rfl⟩) (fun _ => rfl) fun _ => rfl,
      fun hp => plain_update (h.plain hp) row.id (MetricsTokens.MetricsToken.touched_id s.now) fun _ => rfl⟩

theorem LedgerInv.step (h : LedgerInv plainly env s) {o : TokenOp} (ho : plainly → Unnumbered o) :
    LedgerInv plainly env (tokenStep env s o) := by
  cases o with
  | wait elapsed =>
    have hle : s.now ≤ s.now + elapsed := le_add_of_nonneg_right (Int.natCast_nonneg elapsed)
    exact ⟨h.api.later hle, h.metrics.later hle, h.plain⟩
  | accounts users => exact ⟨h.api, h.metrics, h.plain⟩
  | createToken userId form draw => exact h.createToken userId form draw
  | revokeRequest callerId id =>
    simp only [tokenStep]
    cases s.users.get? callerId with
    | none => exact h
    | some caller =>
      dsimp only
      cases hrevoke : revokeRequest s.api caller id with
      | mk found api =>
        cases found with
        | none => exact h
        | some row =>
          obtain ⟨hrow, rfl⟩ := revokeRequest_some hrevoke
          exact h.withdraw hrow
  | revokeCommand arg =>
    simp only [tokenStep]
    cases hget : getToken env.lib.int s.api.tokens arg with
    | none => exact h
    | some row => exact h.withdraw (getToken_mem hget)
  | request method endpoint presented => exact h.request method endpoint presented
  | createMetrics name days draw => exact h.createMetrics ho
  | revokeMetrics arg => exact h.revokeMetrics arg
  | scrape header => exact h.scrape header

theorem ledgerInv_run (env : TokenEnv) (users : UserTable) (now : DateTime) {ops : List TokenOp}
    (hops : plainly → ∀ o ∈ ops, Unnumbered o) : LedgerInv plainly env (run (tokenStep env) (.start users now) ops) := by
  induction ops using List.reverseRecOn with
  | nil => exact ledgerInv_start env users now
  | append_singleton ops o ih =>
    rw [run_snoc]
    exact (ih fun hp o' ho' => hops hp o' (List.mem_append_left _ ho')).step fun hp => hops hp o (by simp)

/-- a text has one of the two prefixes at most -/
theorem one_prefix {p q : Text × Text} (h : Bearer.split MetricsTokens.tokenPrefix presented = some p)
    (h' : Bearer.split tokenPrefix presented = some q) : False := by
  have htext := (Bearer.present_of_split h).1.symm.trans (Bearer.present_of_split h').1
  have hhead := congrArg (List.take 2) htext
  rw [Bearer.present, Bearer.present, List.take_append_of_le_length (by decide),
    List.take_append_of_le_length (by decide)] at hhead
  revert hhead
  decide

theorem split_of_find {α : Type} [Bearer.Credential α] {rows : List α} {pre : Text} {row : α}
    (h : Bearer.find hashSecret pre now rows presented = some row) : ∃ p, Bearer.split pre presented = some p := by
  obtain ⟨p, hsplit, -⟩ := Option.bind_eq_some_iff.1 h
  exact ⟨p, hsplit⟩

/-- **(1) What is accepted.** Exactly the texts of the ledgers, each at its door. -/
theorem accepted_iff (env : TokenEnv) (hinj : Function.Injective env.lib.hashSecret) (users : UserTable) (now : DateTime)
    (ops : List TokenOp) (hops : ∀ o ∈ ops, Unnumbered o) (s : TokenSt)
    (hs : run (tokenStep env) (.start users now) ops = s) (presented : Text) :
    ((MetricsTokens.verify env.lib.hashSecret s.now s.metrics presented).isSome = true ↔
      ∃ g ∈ s.metricsLedger, g.plaintext = presented ∧ g.Live s.now) ∧
    (∀ owner, (∃ t, verifyToken env.lib.hashSecret s.now s.users s.api.tokens presented = some (t, owner)) ↔
      (∃ g ∈ s.apiLedger, g.plaintext = presented ∧ g.Live s.now ∧ g.holder = some owner.id) ∧
        owner ∈ s.users ∧ owner.isActiveUser = true) ∧
    ¬ ((MetricsTokens.verify env.lib.hashSecret s.now s.metrics presented).isSome = true ∧
      (verifyToken env.lib.hashSecret s.now s.users s.api.tokens presented).isSome = true) := by
  have h : LedgerInv True env s := hs ▸ ledgerInv_run env users now fun _ => hops
  refine ⟨?_, fun owner => ?_, ?_⟩
  · rw [verify_eq]
    exact Bearer.find_isSome hinj h.metrics
  · rw [verifyToken_eq]
    constructor
    · rintro ⟨t, ht⟩
      obtain ⟨row, hrow, howner⟩ := Option.bind_eq_some_iff.1 ht
      obtain ⟨-, g, hg, hcarries, htext, hlive⟩ := (Bearer.find_eq_some hinj h.api).1 hrow
      obtain ⟨u, hu, hpair⟩ := Option.map_eq_some_iff.1 howner
      obtain ⟨rfl, rfl⟩ := Prod.mk.inj hpair
      obtain ⟨hget, hactive⟩ := Option.filter_eq_some_iff.1 hu
      refine ⟨⟨g, hg, htext, hlive, ?_⟩, Table.mem_of_get? hget, hactive⟩
      rw [← hcarries.holder_eq, Table.key_of_get? hget]
      rfl
    · rintro ⟨⟨g, hg, htext, hlive, hholder⟩, howner, hactive⟩
      obtain ⟨row, hrow, hcarries⟩ := h.api.row_of_grant hg
      have hfind := (Bearer.find_eq_some hinj h.api).2 ⟨hrow, g, hg, hcarries, htext, hlive⟩
      have hid : row.userId = owner.id := Option.some.inj (hcarries.holder_eq.trans hholder)
      refine ⟨row, ?_⟩
      rw [hfind, Option.bind_some, hid, Table.get?_key howner, Option.filter_some, if_pos hactive]
      rfl
  · rintro ⟨hmetrics, hapi⟩
    rw [verify_eq] at hmetrics
    rw [verifyToken_eq] at hapi
    obtain ⟨row, hrow⟩ := Option.isSome_iff_exists.1 hmetrics
    obtain ⟨found, hfound⟩ := Option.isSome_iff_exists.1 hapi
    obtain ⟨row', hrow', -⟩ := Option.bind_eq_some_iff.1 hfound
    obtain ⟨p, hp⟩ := split_of_find hrow
    obtain ⟨q, hq⟩ := split_of_find hrow'
    exact one_prefix hp hq

/-- **(2) The last use.** Recorded, and less than a minute behind. -/
theorem use_recorded (env : TokenEnv) (users : UserTable) (now : DateTime) (ops : List TokenOp) (s : TokenSt)
    (hs : run (tokenStep env) (.start users now) ops = s) :
    (∀ row ∈ s.api.tokens, ∃ g ∈ s.apiLedger, g.key = row.id ∧ Bearer.Recorded touchThrottle row.lastUsedAt g.usedAt) ∧
    ∀ row ∈ s.metrics, ∃ g ∈ s.metricsLedger, g.key = row.id ∧
      Bearer.Recorded MetricsTokens.touchThrottle row.lastUsedAt g.usedAt := by
  have h : LedgerInv False env s := hs ▸ ledgerInv_run env users now False.elim
  refine ⟨fun row hrow => ?_, fun row hrow => ?_⟩
  · obtain ⟨g, hg, hcarries⟩ := h.api.grant_of_row hrow
    exact ⟨g, hg, hcarries.key_eq.symm, hcarries.use⟩
  · obtain ⟨g, hg, hcarries⟩ := h.metrics.grant_of_row hrow
    exact ⟨g, hg, hcarries.key_eq.symm, hcarries.use⟩

/-! ## (3) Taking a metrics token back -/

/-- no two metrics tokens have one name -/
def NamesDistinct (t : MetricsTable) : Prop := (t.rows.map (·.name)).Nodup

theorem namesDistinct_update (h : NamesDistinct t) (k : ℤ) {f : MetricsTokens.MetricsToken → MetricsTokens.MetricsToken}
    (hf : ∀ row, (f row).id = row.id) (hname : ∀ row, (f row).name = row.name) : NamesDistinct (t.update k f hf) := by
  have hnames : (t.update k f hf).rows.map (·.name) = t.rows.map (·.name) := by
    rw [Table.rows_update, List.map_map]
    refine List.map_congr_left fun row _ => ?_
    rw [Function.comp_apply]
    split_ifs
    · exact hname row
    · rfl
  unfold NamesDistinct
  rw [hnames]
  exact h

theorem namesDistinct_revoke (h : NamesDistinct t) (int : Text → Option ℤ) (arg : MetricsTokens.NameOrId) :
    NamesDistinct (MetricsTokens.revoke int t arg).2 := by
  unfold MetricsTokens.revoke
  cases MetricsTokens.get int t arg with
  | none => exact h
  | some row =>
    dsimp only
    split_ifs
    · exact h
    · exact namesDistinct_update h row.id MetricsTokens.MetricsToken.withdrawn_id fun _ => rfl

/-- what an operation leaves of the metrics tokens -/
def metricsAfter (env : TokenEnv) (s : TokenSt) : TokenOp → MetricsTable
  | .createMetrics name days draw => (MetricsTokens.createCommand env.lib.hashSecret s.now s.metrics name days draw).2
  | .revokeMetrics arg => (MetricsTokens.revokeCommand env.lib.int s.metrics arg).2
  | .scrape header => (MetricsTokens.scrape env.config env.lib.hashSecret s.now s.metrics header).2
  | _ => s.metrics

theorem metrics_step (o : TokenOp) : (tokenStep env s o).metrics = metricsAfter env s o := by
  cases o with
  | wait elapsed => rfl
  | accounts users => rfl
  | request method endpoint presented => rfl
  | createToken userId form draw =>
    simp only [tokenStep, metricsAfter]
    cases s.users.get? userId with
    | none => rfl
    | some user =>
      dsimp only
      cases createToken env.lib env.maxDays s.now s.api user form draw with
      | error e => rfl
      | ok r => rfl
  | revokeRequest callerId id =>
    simp only [tokenStep, metricsAfter]
    cases s.users.get? callerId with
    | none => rfl
    | some caller =>
      dsimp only
      rcases revokeRequest s.api caller id with ⟨_ | row, api⟩
      · rfl
      · rfl
  | revokeCommand arg =>
    simp only [tokenStep, metricsAfter]
    cases getToken env.lib.int s.api.tokens arg with
    | none => rfl
    | some row => rfl
  | createMetrics name days draw =>
    simp only [tokenStep, metricsAfter]
    rcases MetricsTokens.createCommand env.lib.hashSecret s.now s.metrics name days draw with ⟨reply, metrics⟩
    cases reply <;> rfl
  | revokeMetrics arg =>
    simp only [tokenStep, metricsAfter]
    rcases MetricsTokens.revokeCommand env.lib.int s.metrics arg with ⟨reply, metrics⟩
    cases reply <;> rfl
  | scrape header =>
    simp only [tokenStep, metricsAfter]
    rcases MetricsTokens.scrape env.config env.lib.hashSecret s.now s.metrics header with ⟨_ | _ | ⟨_ | id⟩, metrics⟩
    · rfl
    · rfl
    · rfl
    · rfl

theorem namesDistinct_step (h : NamesDistinct s.metrics) (o : TokenOp) : NamesDistinct (tokenStep env s o).metrics := by
  rw [metrics_step]
  cases o with
  | createMetrics name days draw =>
    show NamesDistinct (MetricsTokens.createCommand env.lib.hashSecret s.now s.metrics name days draw).2
    rcases createCommand_cases env.lib.hashSecret s.now s.metrics name days draw with ⟨message, heq⟩ | ⟨heq, hname, -⟩
    · rw [heq]
      exact h
    · rw [heq]
      have hfresh : strip name ∉ s.metrics.rows.map (·.name) := by
        intro hmem
        obtain ⟨row, hrow, heq⟩ := List.mem_map.1 hmem
        exact hname row hrow heq
      have hnames := List.Nodup.append h (List.nodup_singleton (strip name)) (List.disjoint_singleton.2 hfresh)
      show ((s.metrics.rows ++ [newMetricsToken env.lib.hashSecret (strip name) draw (s.now + days * day)
        s.metrics.nextKey]).map fun row => row.name).Nodup
      rw [List.map_append]
      exact hnames
  | revokeMetrics arg =>
    show NamesDistinct (MetricsTokens.revokeCommand env.lib.int s.metrics arg).2
    rcases revokeCommand_cases env.lib.int s.metrics arg with ⟨htable, -⟩ | ⟨row, -, -, heq⟩
    · rw [htable]
      exact h
    · rw [heq]
      exact namesDistinct_revoke h env.lib.int _
  | scrape header =>
    show NamesDistinct (MetricsTokens.scrape env.config env.lib.hashSecret s.now s.metrics header).2
    rcases scrape_cases env.config env.lib.hashSecret s.now s.metrics header with ⟨htable, -⟩ | ⟨row, -, heq⟩
    · rw [htable]
      exact h
    · rw [heq]
      exact namesDistinct_update h row.id (MetricsTokens.MetricsToken.touched_id s.now) fun _ => rfl
  | wait elapsed => exact h
  | accounts users => exact h
  | createToken userId form draw => exact h
  | revokeRequest callerId id => exact h
  | revokeCommand arg => exact h
  | request method endpoint presented => exact h

theorem namesDistinct_run (env : TokenEnv) (users : UserTable) (now : DateTime) (ops : List TokenOp) :
    NamesDistinct (run (tokenStep env) (.start users now) ops).metrics := by
  have hstart : NamesDistinct (TokenSt.start users now).metrics := List.nodup_nil
  exact run_invariant (I := fun s : TokenSt => NamesDistinct s.metrics) (fun _ o h => namesDistinct_step h o) hstart ops

/-- the token that bears the number for a name is found by the number -/
theorem get_named (h : NamesDistinct t) (int : Text → Option ℤ) {other : MetricsTokens.MetricsToken} (hother : other ∈ t)
    {n : ℤ} (hname : other.name = numeral n) : MetricsTokens.get int t (.number n) = some other := by
  show (t.rows.find? (·.name == numeral n)).or (t.get? n) = some other
  cases hfind : t.rows.find? (·.name == numeral n) with
  | none => exact absurd (beq_iff_eq.2 hname) (List.find?_eq_none.1 hfind other hother)
  | some r =>
    have hr : r.name = numeral n := by simpa using List.find?_some hfind
    rw [List.inj_on_of_nodup_map h (List.mem_of_find?_eq_some hfind) hother (hr.trans hname.symm)]
    rfl

/-- the row that `revoke` finds is withdrawn, and no other one changes -/
theorem mem_revoke {int : Text → Option ℤ} {arg : MetricsTokens.NameOrId} {found : MetricsTokens.MetricsToken}
    (hget : MetricsTokens.get int t arg = some found) {r : MetricsTokens.MetricsToken} :
    r ∈ (MetricsTokens.revoke int t arg).2 ↔ (r ∈ t ∧ r.id ≠ found.id) ∨ r = found.withdrawn := by
  have hfound := get_mem hget
  unfold MetricsTokens.revoke
  rw [hget]
  dsimp only
  split_ifs with hback
  · have hsame : found.withdrawn = found := by
      unfold MetricsTokens.MetricsToken.withdrawn
      rw [← hback]
    rw [hsame]
    constructor
    · intro hr
      by_cases hid : r.id = found.id
      · exact Or.inr (Table.eq_of_key hr hfound hid)
      · exact Or.inl ⟨hr, hid⟩
    · rintro (⟨hr, -⟩ | rfl)
      · exact hr
      · exact hfound
  · rw [Table.mem_update]
    constructor
    · rintro ⟨a, ha, rfl⟩
      split_ifs with hid
      · exact Or.inr (by rw [Table.eq_of_key ha hfound hid])
      · exact Or.inl ⟨ha, hid⟩
    · rintro (⟨hr, hid⟩ | rfl)
      · exact ⟨r, hr, if_neg hid⟩
      · exact ⟨found, hfound, if_pos rfl⟩

/-- **(3) Taking back.** The command withdraws the token that it names unless another token has that one's id for a name;
then it withdraws the other. -/
theorem revokeCommand_iff (env : TokenEnv) (users : UserTable) (now : DateTime) (ops : List TokenOp) (s : TokenSt)
    (hs : run (tokenStep env) (.start users now) ops = s) (arg : Text) (row : MetricsTokens.MetricsToken)
    (hget : MetricsTokens.get env.lib.int s.metrics (.text arg) = some row) (hlive : row.revoked = false) :
    (MetricsTokens.revokeCommand env.lib.int s.metrics arg).1 = .revoked row.id row.name ∧
    ((∃ r ∈ (MetricsTokens.revokeCommand env.lib.int s.metrics arg).2, r.id = row.id ∧ r.revoked = true) ↔
      ∀ other ∈ s.metrics, other.name = numeral row.id → other.id = row.id) ∧
    ∀ other ∈ s.metrics, other.name = numeral row.id →
      ∃ r ∈ (MetricsTokens.revokeCommand env.lib.int s.metrics arg).2, r.id = other.id ∧ r.revoked = true := by
  have hnames : NamesDistinct s.metrics := hs ▸ namesDistinct_run env users now ops
  have hrow := get_mem hget
  have hcommand : MetricsTokens.revokeCommand env.lib.int s.metrics arg =
      (.revoked row.id row.name, (MetricsTokens.revoke env.lib.int s.metrics (.number row.id)).2) := by
    unfold MetricsTokens.revokeCommand
    rw [hget]
    exact if_neg (by rw [hlive]; exact Bool.false_ne_true)
  rw [hcommand]
  refine ⟨rfl, ⟨?_, fun hname => ?_⟩, fun other hother hname => ?_⟩
  · rintro ⟨r, hr, hid, hback⟩ other hother hname
    rcases (mem_revoke (get_named hnames env.lib.int hother hname)).1 hr with ⟨hr, -⟩ | rfl
    · rw [Table.eq_of_key hr hrow hid, hlive] at hback
      cases hback
    · exact hid
  · exact ⟨row.withdrawn, (mem_revoke (get_number env.lib.int hrow hname)).2 (Or.inr rfl), rfl, rfl⟩
  · exact ⟨other.withdrawn, (mem_revoke (get_named hnames env.lib.int hother hname)).2 (Or.inr rfl), rfl, rfl⟩

/-! ## A scrape -/

def sampleDraw (c : Char) (hc : (hexValue c).isSome = true) : TokenDraw where
  tokenId := List.replicate 16 c
  secret := List.replicate 64 c
  hex := by
    intro d hd
    rcases List.mem_append.1 hd with hd | hd
    · rw [List.eq_of_mem_replicate hd]
      exact hc
    · rw [List.eq_of_mem_replicate hd]
      exact hc
  lengths := ⟨List.length_replicate, List.length_replicate⟩

def sampleEnv : TokenEnv := ⟨⟨fun t => if t = ['1'] then some 1 else none, Unicode.ascii, id⟩, 365, ⟨true, false⟩⟩

/-- a metrics token, and a scrape -/
def scrapeOps : List TokenOp :=
  [.createMetrics "scraper".toList 30 (sampleDraw 'a' (by decide)),
    .scrape ("Bearer cmt_".toList ++ List.replicate 16 'a' ++ '_' :: List.replicate 64 'a')]

theorem scrapeOps_unnumbered : ∀ o ∈ scrapeOps, Unnumbered o := by
  intro o ho
  simp only [scrapeOps, List.mem_cons, List.not_mem_nil, or_false] at ho
  rcases ho with rfl | rfl
  · intro n hn
    have hmem : 's' ∈ strip "scraper".toList := by decide
    rw [hn] at hmem
    have hdigit := Json.numChar_toString n 's' hmem
    revert hdigit
    decide
  · trivial

/-- the text that was shown is accepted -/
theorem scraper_accepted : (MetricsTokens.verify sampleEnv.lib.hashSecret
    (run (tokenStep sampleEnv) (.start Table.empty 0) scrapeOps).now
    (run (tokenStep sampleEnv) (.start Table.empty 0) scrapeOps).metrics
    ("cmt_".toList ++ List.replicate 16 'a' ++ '_' :: List.replicate 64 'a')).isSome = true := by
  refine (accepted_iff sampleEnv Function.injective_id Table.empty 0 scrapeOps scrapeOps_unnumbered _ rfl _).1.2 ?_
  have hledger : (run (tokenStep sampleEnv) (.start Table.empty 0) scrapeOps).metricsLedger =
      [⟨1, none, "cmt_".toList ++ List.replicate 16 'a' ++ '_' :: List.replicate 64 'a', 30 * day, false, some 0⟩] := by
    rfl
  rw [hledger]
  exact ⟨_, List.mem_singleton_self _, rfl, rfl, by decide⟩

/-- and its use is on record -/
theorem scraper_recorded : ∃ row ∈ (run (tokenStep sampleEnv) (.start Table.empty 0) scrapeOps).metrics,
    ∃ g ∈ (run (tokenStep sampleEnv) (.start Table.empty 0) scrapeOps).metricsLedger, g.key = row.id ∧
      Bearer.Recorded MetricsTokens.touchThrottle row.lastUsedAt g.usedAt := by
  have hrows : (run (tokenStep sampleEnv) (.start Table.empty 0) scrapeOps).metrics.rows ≠ [] := List.cons_ne_nil _ _
  obtain ⟨row, hrow⟩ := List.exists_mem_of_ne_nil _ hrows
  exact ⟨row, hrow, (use_recorded sampleEnv Table.empty 0 scrapeOps _ rfl).2 row hrow⟩

/-- two metrics tokens, the second one named like the id of the first -/
def namedOps : List TokenOp :=
  [.createMetrics "scraper".toList 30 (sampleDraw 'a' (by decide)), .createMetrics ['1'] 30 (sampleDraw 'b' (by decide))]

/-- taking the first one back by its name takes the second one instead -/
theorem scraper_not_revoked :
    ¬ ∃ r ∈ (MetricsTokens.revokeCommand sampleEnv.lib.int
        (run (tokenStep sampleEnv) (.start Table.empty 0) namedOps).metrics "scraper".toList).2,
      r.id = 1 ∧ r.revoked = true := by
  intro h
  have hall := (revokeCommand_iff sampleEnv Table.empty 0 namedOps _ rfl "scraper".toList
    (newMetricsToken id "scraper".toList (sampleDraw 'a' (by decide)) (30 * day) 1) rfl rfl).2.1.1 h
  have hother := hall (newMetricsToken id ['1'] (sampleDraw 'b' (by decide)) (30 * day) 2)
    (List.mem_cons_of_mem _ List.mem_cons_self) rfl
  cases hother

end Chancery.Tokens
