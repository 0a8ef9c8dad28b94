/-
The ACME endpoints (app/routes/acme.py) over accounts, orders, authorizations and challenges, and the maintenance job.

A `Request` is one whose JWS was accepted and whose nonce was consumed: what is left is the account behind its `kid`, the
service call, and the end of the session. `St` adds the clock; a run is any list of requests, each with the time it waits
for and the time it takes until it reads the clock again.
-/
import Mathlib.Tactic
import Chancery.Core.Run
import Chancery.Services.Acme.Writes

namespace Chancery.Acme

open Chancery.Core

/-! ## Requests -/

inductive Request (E : Env)
  | newAccount (srv : Server) (request : Verified E)
  | updateAccount (srv : Server) (accountId : ℤ) (payload : Fields)
  | keyChange (srv : Server) (accountId : ℤ) (inner : Verified E)
  | newOrder (srv : Server) (accountId : ℤ) (payload : Option Fields)
  | order (srv : Server) (accountId orderId : ℤ)
  | authorization (srv : Server) (accountId authzId : ℤ) (payload : Option Fields)
  | challenge (srv : Server) (accountId challengeId : ℤ) (payload : Option Fields)
  | finalize (f : Finalization) (plan : Phase → Tick)
  | maintain

/-- what the request finds: the settings and the network of its own server -/
def Request.server {E : Env} : Request E → Option Server
  | .newAccount srv _ => some srv
  | .updateAccount srv _ _ => some srv
  | .keyChange srv _ _ => some srv
  | .newOrder srv _ _ => some srv
  | .order srv _ _ => some srv
  | .authorization srv _ _ _ => some srv
  | .challenge srv _ _ _ => some srv
  | .finalize f _ => some f.server
  | .maintain => none

variable (E : Env)

def setAccounts (s : Session) (accounts : Accounts) : Session :=
  { s with db := { s.db with accounts := accounts.accounts, eabKeys := accounts.eabKeys } }

/-- the account behind the `kid` of a request -/
def kidAccount (srv : Server) (accountId : ℤ) (s : Session) : Except Raised AcmeAccount :=
  s.try (accountForKid s.db.accounts srv.ca.id accountId)

/-- `POST /new-account` -/
def postNewAccount (srv : Server) (v : Verified E) (now : DateTime) (s : Session) : Outcome := do
  let r ← s.try (newAccount E srv.directory ⟨s.db.accounts, s.db.eabKeys⟩ v now)
  .ok (setAccounts s r.1)

/-- `POST /account/<id>` -/
def postAccount (srv : Server) (accountId : ℤ) (payload : Fields) (now : DateTime) (s : Session) : Outcome := do
  let account ← kidAccount srv accountId s
  if payload.isEmpty then .ok s
  else do
    let db ← s.try (updateAccountAndOrders E account payload now s.db)
    .ok (setDb s db)

/-- `POST /key-change` -/
def postKeyChange (srv : Server) (accountId : ℤ) (inner : Verified E) (s : Session) : Outcome := do
  let account ← kidAccount srv accountId s
  let accounts ← s.try (changeKey E srv.ca.id ⟨s.db.accounts, s.db.eabKeys⟩ account inner)
  .ok (setAccounts s accounts)

/-- `POST /new-order` -/
def postNewOrder (srv : Server) (accountId : ℤ) (payload : Option Fields) (now : DateTime) (s : Session) : Outcome := do
  let account ← kidAccount srv accountId s
  let db ← s.try (newOrder E srv account payload now s.db)
  .ok (setDb s db)

/-- `POST /order/<id>` -/
def postOrder (srv : Server) (accountId orderId : ℤ) (now : DateTime) (s : Session) : Outcome := do
  let account ← kidAccount srv accountId s
  let o ← s.try (loadOrder srv.ca.id account.id orderId s.db)
  .ok (setDb s (refreshOrder now o s.db))

/-- does the payload ask for a deactivation -/
def asksDeactivation (payload : Option Fields) : Bool := (Json.get (payload.getD []) "status").eqStr "deactivated"

/-- `POST /authz/<id>`: a poll, or a deactivation -/
def postAuthorization (srv : Server) (accountId authzId : ℤ) (payload : Option Fields) (now : DateTime) (lag : ℕ)
    (s : Session) : Outcome := do
  let account ← kidAccount srv accountId s
  let a ← s.try (loadAuthz srv.ca.id account.id authzId s.db)
  let s ← pollAuthz E srv now a s
  if asksDeactivation payload then do
    let a ← s.try (loadAuthz srv.ca.id account.id authzId s.db)
    let db ← s.try (deactivateAuthz (now + lag) a s.db)
    .ok (setDb s db)
  else .ok s

/-- `POST /chall/<id>`: a poll, or with a payload the client's word that the challenge is provisioned -/
def postChallenge (srv : Server) (accountId challengeId : ℤ) (payload : Option Fields) (now : DateTime) (lag : ℕ)
    (s : Session) : Outcome := do
  let account ← kidAccount srv accountId s
  let (_, a) ← s.try (loadChallenge srv.ca.id account.id challengeId s.db)
  let s ← pollAuthz E srv now a s
  match payload with
  | none => .ok s
  | some _ => respondChallenge E srv (now + lag) account challengeId s

/-- `POST /order/<id>/finalize` -/
def postFinalize (f : Finalization) (plan : Phase → Tick) (s : Session) : Session :=
  match kidAccount f.server f.accountId s with
  | .error _ => s
  | .ok _ => (finalize E f plan s).1

/-- one request, or one run of the maintenance job, with its commit or rollback -/
def handle (now : DateTime) (lag : ℕ) (s : Session) : Request E → Session
  | .newAccount srv v => finish s.db (postNewAccount E srv v now s)
  | .updateAccount srv accountId payload => finish s.db (postAccount E srv accountId payload now s)
  | .keyChange srv accountId inner => finish s.db (postKeyChange E srv accountId inner s)
  | .newOrder srv accountId payload => finish s.db (postNewOrder E srv accountId payload now s)
  | .order srv accountId orderId => finish s.db (postOrder srv accountId orderId now s)
  | .authorization srv accountId authzId payload =>
      finish s.db (postAuthorization E srv accountId authzId payload now lag s)
  | .challenge srv accountId challengeId payload =>
      finish s.db (postChallenge E srv accountId challengeId payload now lag s)
  | .finalize f plan => postFinalize E f plan s
  | .maintain => setDb s (maintain now s.db)

/-! ## What a request writes -/

section Writes

variable {E} {S : Set Server} {s : Session}

theorem chain_setAccounts {accounts : Accounts} (h : AccountsMove s.db.accounts accounts.accounts) :
    Chain E S s (setAccounts s accounts) :=
  .single (Write.rest _ rfl rfl rfl h (certificatesKept_refl _))

theorem kidAccount_ok {srv : Server} {accountId : ℤ} {account : AcmeAccount}
    (h : kidAccount srv accountId s = .ok account) :
    s.db.accounts.get? account.id = some account ∧ account.status = .valid := by
  unfold kidAccount at h
  cases ha : accountForKid s.db.accounts srv.ca.id accountId with
  | error e => rw [ha] at h; cases h
  | ok account' =>
    rw [ha] at h
    cases h
    unfold accountForKid at ha
    cases hg : s.db.accounts.get? accountId with
    | none => rw [hg] at ha; cases ha
    | some account'' =>
      simp only [hg] at ha
      split_ifs at ha with _ hst
      cases ha
      exact ⟨Table.get?_key (Table.mem_of_get? hg), not_not.1 hst⟩

/-- the account check leaves the session alone -/
theorem chained_kidAccount {srv : Server} {accountId : ℤ} {k : AcmeAccount → Outcome}
    (h : ∀ account, s.db.accounts.get? account.id = some account → account.status = .valid → Chained E S s (k account)) :
    Chained E S s (kidAccount srv accountId s >>= k) :=
  chained_try fun account haccount => by
    obtain ⟨hget, hvalid⟩ := @kidAccount_ok s srv accountId account (by rw [kidAccount, haccount]; rfl)
    exact h account hget hvalid

theorem chained_postAuthorization {srv : Server} (hsrv : srv ∈ S) {accountId authzId : ℤ} {payload : Option Fields}
    {now : DateTime}
    {lag : ℕ} :
    Chained E S s (postAuthorization E srv accountId authzId payload now lag s) := by
  refine chained_kidAccount fun account _ _ => chained_try fun a ha => ?_
  refine chained_bind (chained_pollAuthz hsrv (loadAuthz_ok ha).1) fun s₁ _ => ?_
  by_cases hd : asksDeactivation payload = true
  · rw [if_pos hd]
    exact chained_try fun a' ha' => chained_try fun db hdb => chain_deactivateAuthz (loadAuthz_ok ha').1 hdb
  · rw [if_neg hd]
    exact .refl

theorem Session.try_ok {α : Type} {s : Session} {x : Result α} {a : α} (h : s.try x = .ok a) : x = .ok a := by
  cases x with
  | error e => cases h
  | ok a' => cases h; rfl

theorem settle_accounts (now : DateTime) (c : AcmeChallenge) (a : AcmeAuthorization) (ok : Bool) (errorType detail : String)
    (db : Db) : (settle now c a ok errorType detail db).accounts = db.accounts := by
  unfold settle
  split_ifs <;> rfl

theorem settleDns01_accounts (cfg : Config) (now : DateTime) (c : AcmeChallenge) (a : AcmeAuthorization) (v : Validation)
    (db : Db) : (settleDns01 cfg now c a v db).accounts = db.accounts := by
  unfold settleDns01
  simp only
  split_ifs
  · exact settle_accounts now c a true "" "" _
  · rfl
  · exact settle_accounts now c a false _ _ _

theorem refreshOrder_accounts (now : DateTime) (o : AcmeOrder) (db : Db) :
    (refreshOrder now o db).accounts = db.accounts := by
  rcases refreshOrder_cases now o db with ⟨_, h⟩ | ⟨_, h⟩ | ⟨_, h⟩ | ⟨_, _, h⟩ | ⟨_, h⟩ <;> rw [h] <;> rfl

/-- a poll leaves the accounts alone -/
theorem pollAuthz_accounts {srv : Server} {now : DateTime} {a : AcmeAuthorization} {s' : Session}
    (h : pollAuthz E srv now a s = .ok s') : s'.db.accounts = s.db.accounts := by
  unfold pollAuthz at h
  by_cases hexp : a.status = .pending ∧ a.expires ≤ now
  · rw [if_pos hexp] at h
    cases h
    rfl
  rw [if_neg hexp] at h
  by_cases hpending : a.status = .pending
  swap
  · rw [if_neg hpending] at h
    cases h
    rfl
  rw [if_pos hpending] at h
  cases hdue : (s.db.challengesOf a.id).find? (·.due now) with
  | none =>
    rw [hdue] at h
    cases h
    rfl
  | some c =>
    simp only [hdue] at h
    cases haccount : s.db.accounts.get? a.accountId with
    | none => rw [haccount] at h; cases h
    | some account =>
      simp only [haccount] at h
      obtain ⟨s₁, hattempt, h⟩ := bind_eq_ok.1 h
      obtain ⟨db, hrefresh, h⟩ := bind_eq_ok.1 h
      cases h
      obtain ⟨_, _, hattempt⟩ := bind_eq_ok.1 (Session.try_ok hattempt)
      obtain ⟨v, _, hattempt⟩ := bind_eq_ok.1 hattempt
      cases hattempt
      have hdb := Session.try_ok hrefresh
      unfold refreshOrderOf at hdb
      cases ho : (settleDns01 srv.config now c a v s.db).orders.get? a.orderId with
      | none => simp only [setDb_db, Session.record, ho] at hdb; cases hdb
      | some o =>
        simp only [setDb_db, Session.record, ho] at hdb
        cases hdb
        rw [setDb_db, refreshOrder_accounts, settleDns01_accounts]

theorem chained_postChallenge {srv : Server} (hsrv : srv ∈ S) {accountId challengeId : ℤ} {payload : Option Fields}
    {now : DateTime}
    {lag : ℕ} :
    Chained E S s (postChallenge E srv accountId challengeId payload now lag s) := by
  refine chained_kidAccount fun account haccount _ => chained_try fun r hr => ?_
  obtain ⟨c, a⟩ := r
  refine chained_bind (chained_pollAuthz hsrv (loadChallenge_ok hr).2.1) fun s₁ h₁ => ?_
  cases payload with
  | none => exact .refl
  | some _ => exact chained_respondChallenge hsrv (by rw [pollAuthz_accounts h₁]; exact haccount)

/-- a request alone ends on what its writes left, or on what it started from with the log kept -/
theorem handle_writes (now : DateTime) (lag : ℕ) (r : Request E) (hS : ∀ srv, r.server = some srv → srv ∈ S) :
    ∃ t, Chain E S s t ∧ (handle E now lag s r = t ∨ handle E now lag s r = setDb t s.db) := by
  have hfinish : ∀ {x : Outcome}, Chained E S s x → ∃ t, Chain E S s t ∧
    (finish s.db x = t ∨ finish s.db x = setDb t s.db) := by
    intro x hx
    cases x with
    | ok t => exact ⟨t, hx, Or.inl rfl⟩
    | error raised =>
      refine ⟨raised.session, hx, ?_⟩
      unfold finish
      simp only
      split_ifs
      · exact Or.inl rfl
      · exact Or.inr rfl
  cases r with
  | newAccount srv v => exact hfinish (chained_try fun r hr => chain_setAccounts (accountsMove_newAccount hr))
  | updateAccount srv accountId payload =>
    refine hfinish (chained_kidAccount fun account haccount hvalid => ?_)
    by_cases hempty : payload.isEmpty = true
    · rw [if_pos hempty]
      exact .refl
    · rw [if_neg hempty]
      exact chained_try fun db hdb => chain_updateAccount haccount hvalid hdb
  | keyChange srv accountId inner =>
    exact hfinish (chained_kidAccount fun account _ _ => chained_try fun accounts haccounts =>
      chain_setAccounts (accountsMove_changeKey haccounts))
  | newOrder srv accountId payload =>
    exact hfinish (chained_kidAccount fun account _ _ => chained_try fun db hdb => chain_newOrder hdb)
  | order srv accountId orderId =>
    refine hfinish (chained_kidAccount fun account _ _ => chained_try fun o ho => ?_)
    exact chain_refresh now (Table.get?_key (Table.mem_of_get? (loadOrder_ok ho).1))
  | authorization srv accountId authzId payload => exact hfinish (chained_postAuthorization (hS srv rfl))
  | challenge srv accountId challengeId payload => exact hfinish (chained_postChallenge (hS srv rfl))
  | finalize f plan =>
    refine ⟨postFinalize E f plan s, ?_, Or.inl rfl⟩
    unfold postFinalize
    cases kidAccount f.server f.accountId s with
    | error e => exact .refl
    | ok account => exact chain_finalize f plan
  | maintain => exact ⟨_, chain_maintain now, Or.inl rfl⟩

end Writes

/-! ## Runs -/

structure St where
  session : Session
  now : DateTime

/-- a request, the time since the one before it, and the time until it reads the clock again -/
structure Op where
  wait : ℕ
  lag : ℕ
  request : Request E

/-- no step of a finalize request happens before its own time -/
def atTime (now : DateTime) : Request E → Request E
  | .finalize f plan => .finalize f fun p => { plan p with now := max now (plan p).now }
  | r => r

@[simp] theorem server_atTime (now : DateTime) (r : Request E) : (atTime E now r).server = r.server := by
  cases r <;> rfl

def step (s : St) (o : Op E) : St :=
  let now := s.now + o.wait
  ⟨handle E now o.lag s.session (atTime E now o.request), now + o.lag⟩

/-- any accounts of any CAs, no orders yet -/
def init (accounts : AccountTable) (eabKeys : EabTable) (csrs : CsrTable) (certificates : CertTable)
    (now : DateTime) : St :=
  ⟨⟨⟨accounts, eabKeys, Table.empty, Table.empty, Table.empty, csrs, certificates⟩, []⟩, now⟩

end Chancery.Acme
