/-
What an ACME request can write, said once.

A `Write` is one change of a session: one of the tables rewritten row by row along the edges of its rows' life cycle
(`OrderEdge`, `AuthzEdge`, `ChallengeEdge`), a new order, a change of the tables that orders do not depend on, or a new
log entry. The attempts it logs are of the servers `S`. Every service call is a chain of writes (`Chain`): whatever its
outcome, the session it leaves is reached from the session it started on by writes. What every write preserves, every
request preserves.
-/
import Mathlib.Tactic
import Chancery.Core.LifeCycle
import Chancery.Services.Acme.Finalize

namespace Chancery.Acme

open Chancery.Core

/-! ## Edges -/

/-- what the key authorization of a challenge is expected to look like on the network -/
def expectedText (E : Env) (type : ChallengeType) (authorization : Text) : Text :=
  match type with
  | .http01 => authorization
  | .dns01 => txtValue E authorization

/-- what is fetched or looked up for a base name -/
def attemptTarget (type : ChallengeType) (base : Text) : Text :=
  match type with
  | .http01 => base
  | .dns01 => txtName base

/-- the queries of the server's network show the text: for http-01 they start at the URL of the token on the target host,
for dns-01 they are the lookups at the target name -/
def Shows (srv : Server) (type : ChallengeType) (target token expected : Text) (asked : List Query) : Prop :=
  match type with
  | .http01 => Fetched srv.config srv.net target expected 0
      (challengeUrl srv.config (srv.config.connectHost.getD target) token) asked
  | .dns01 => LookedUp srv.net target expected asked

/-- the attempt `e` proved control of `base` for the challenge: it was made before `expires`, and the network it asked for
that name showed the key authorization of the challenge's token and the key that account `accountId` had then -/
def Proves (E : Env) (e : Attempt) (c : AcmeChallenge) (base : Text) (accountId : ℤ) (expires : DateTime) : Prop :=
  e.challengeId = c.id ∧ e.type = c.type ∧ e.time < expires ∧
    ∃ account authorization, e.accounts.get? accountId = some account ∧
      keyAuthorization E c.token account.jwk = .ok authorization ∧
      Shows e.server c.type (attemptTarget c.type base) c.token (expectedText E c.type authorization) e.asked

/-- which account status may follow which -/
inductive AccountStatus.Next : AccountStatus → AccountStatus → Prop
  | deactivate : Next .valid .deactivated
  | revoke : Next .valid .revoked

/-- how the accounts may change -/
abbrev AccountsMove (t t' : AccountTable) : Prop := Moves AcmeAccount.status AccountStatus.Next .valid t t'

/-- how the certificates may change -/
def CertificatesKept (t t' : CertTable) : Prop := ∀ c ∈ t, ∃ c' ∈ t', c'.id = c.id

/-- how an order row may change -/
inductive OrderEdge (db : Db) (o : AcmeOrder) : AcmeOrder → Prop
  | same : OrderEdge db o o
  | fail {error : Option ErrorObject} (h : o.status ≠ .valid) : OrderEdge db o { o with status := .invalid, error := error }
  | ready (h : o.status = .pending) (hall : ∀ a ∈ db.authorizationsOf o.id, a.status = .valid) :
      OrderEdge db o { o with status := .ready }
  | process {csr : Option Csr}
      (h : o.status = .ready ∨ o.status = .pending ∧ ∀ a ∈ db.authorizationsOf o.id, a.status = .valid) :
      OrderEdge db o { o with status := .processing, csr := csr }
  | link {c : Certificate} {now : Option DateTime} (h : o.status = .processing) (hc : c ∈ db.certificates) :
      OrderEdge db o { o with certificateId := some c.id, status := .valid, finalizedAt := now }

/-- how an authorization row may change -/
inductive AuthzEdge (db : Db) (a : AcmeAuthorization) : AcmeAuthorization → Prop
  | same : AuthzEdge db a a
  | close {status : AuthzStatus} (h : a.status = .pending) (hs : status.failed = true) : AuthzEdge db a (a.setStatus status)
  | pass (h : a.status = .pending) {c : AcmeChallenge} (hc : c ∈ db.challenges) (hca : c.authorizationId = a.id)
      (hv : c.status = .valid) : AuthzEdge db a (a.setStatus .valid)

/-- how a challenge row may change -/
inductive ChallengeEdge (E : Env) (s : Session) (c : AcmeChallenge) : AcmeChallenge → Prop
  | retry {error : Option ErrorObject} {attempts : ℤ} {next : Option DateTime} :
      ChallengeEdge E s c { c with error := error, attempts := attempts, nextAttemptAt := next }
  | process (h : c.status = .pending) : ChallengeEdge E s c c.process
  | pass {now : DateTime} (h : c.status = .processing) {a : AcmeAuthorization} (ha : a ∈ s.db.authzs)
      (haid : a.id = c.authorizationId) {e : Attempt} (he : .attempt e ∈ s.log)
      (hproves : Proves E e c a.identifierValue a.accountId a.expires) : ChallengeEdge E s c (c.pass now)
  | fail {error : ErrorObject} (h : c.status = .processing) : ChallengeEdge E s c (c.fail error)

/-- one write -/
inductive Write (E : Env) (S : Set Server) (s : Session) : Session → Prop
  | orders (f : AcmeOrder → AcmeOrder) (hf : ∀ o, (f o).id = o.id) (h : ∀ o ∈ s.db.orders, OrderEdge s.db o (f o)) :
      Write E S s (setDb s { s.db with orders := s.db.orders.mapRows f hf })
  | authzs (f : AcmeAuthorization → AcmeAuthorization) (hf : ∀ a, (f a).id = a.id)
      (h : ∀ a ∈ s.db.authzs, AuthzEdge s.db a (f a)) :
      Write E S s (setDb s { s.db with authzs := s.db.authzs.mapRows f hf })
  | challenges (f : AcmeChallenge → AcmeChallenge) (hf : ∀ c, (f c).id = c.id)
      (h : ∀ c ∈ s.db.challenges, ChallengeEdge E s c (f c)) :
      Write E S s (setDb s { s.db with challenges := s.db.challenges.mapRows f hf })
  | newOrder (srv : Server) (accountId : ℤ) (identifiers : List Text) (expires : DateTime)
      (h : ∃ raw, parseIdentifiers E srv raw = .ok identifiers) :
      Write E S s (setDb s (addAuthorizations srv s.db.orders.nextKey accountId expires identifiers
        { s.db with orders := s.db.orders.insert (fun id =>
            ⟨id, accountId, srv.ca.id, .pending, identifiers, expires, none, none, none, none⟩) fun _ => rfl }))
  | rest (db : Db) (ho : db.orders = s.db.orders) (ha : db.authzs = s.db.authzs) (hc : db.challenges = s.db.challenges)
      (hacc : AccountsMove s.db.accounts db.accounts) (hcerts : CertificatesKept s.db.certificates db.certificates) :
      Write E S s (setDb s db)
  | attempt (e : Attempt) (he : e.server ∈ S) : Write E S s (s.record (.attempt e))
  | signing (o : AcmeOrder) (ho : o ∈ s.db.orders) (hst : o.status = .processing) : Write E S s (s.record (.signing o s.db))

/-- writes one after another -/
abbrev Chain (E : Env) (S : Set Server) : Session → Session → Prop := Relation.ReflTransGen (Write E S)

/-- whatever the outcome, the session is reached by writes -/
def Chained (E : Env) (S : Set Server) (s : Session) : Outcome → Prop
  | .ok s' => Chain E S s s'
  | .error r => Chain E S s r.session

variable {E : Env} {S : Set Server} {s : Session}

theorem certificatesKept_refl (t : CertTable) : CertificatesKept t t := fun c hc => ⟨c, hc, rfl⟩

/-! ## What an edge keeps -/

theorem orderEdge_keeps {db : Db} {o o' : AcmeOrder} (h : OrderEdge db o o') :
    o'.id = o.id ∧ o'.accountId = o.accountId ∧ o'.identifiers = o.identifiers ∧ o'.expires = o.expires := by
  cases h <;> exact ⟨rfl, rfl, rfl, rfl⟩

/-- an order becomes ready or processing from there, or because its authorizations are valid -/
theorem orderEdge_passed {db : Db} {o o' : AcmeOrder} (h : OrderEdge db o o')
    (hst : o'.status = .ready ∨ o'.status = .processing) :
    (o.status = .ready ∨ o.status = .processing) ∨ ∀ a ∈ db.authorizationsOf o.id, a.status = .valid := by
  cases h with
  | same => exact Or.inl hst
  | fail => simp at hst
  | ready _ hall => exact Or.inr hall
  | process hor =>
    rcases hor with hready | ⟨_, hall⟩
    · exact Or.inl (Or.inl hready)
    · exact Or.inr hall
  | link => simp at hst

theorem authzEdge_keeps {db : Db} {a a' : AcmeAuthorization} (h : AuthzEdge db a a') :
    a'.id = a.id ∧ a'.orderId = a.orderId ∧ a'.accountId = a.accountId ∧ a'.identifierValue = a.identifierValue ∧
      a'.wildcard = a.wildcard ∧ a'.expires = a.expires := by
  cases h <;> exact ⟨rfl, rfl, rfl, rfl, rfl, rfl⟩

/-- a valid authorization stays valid -/
theorem authzEdge_valid {db : Db} {a a' : AcmeAuthorization} (h : AuthzEdge db a a') (hv : a.status = .valid) :
    a'.status = .valid := by
  cases h with
  | same => exact hv
  | close hp => rw [hp] at hv; cases hv
  | pass => rfl

/-- an authorization becomes valid by a valid challenge -/
theorem authzEdge_won {db : Db} {a a' : AcmeAuthorization} (h : AuthzEdge db a a') (hv : a'.status = .valid) :
    a.status = .valid ∨ ∃ c ∈ db.challenges, c.authorizationId = a.id ∧ c.status = .valid := by
  cases h with
  | same => exact Or.inl hv
  | close _ hs =>
    have hfailed : AuthzStatus.failed .valid = true := hv ▸ hs
    cases hfailed
  | pass _ hc hca hcv => exact Or.inr ⟨_, hc, hca, hcv⟩

theorem challengeEdge_keeps {s : Session} {c c' : AcmeChallenge} (h : ChallengeEdge E s c c') :
    c'.id = c.id ∧ c'.authorizationId = c.authorizationId ∧ c'.type = c.type ∧ c'.token = c.token := by
  cases h <;> exact ⟨rfl, rfl, rfl, rfl⟩

/-- a valid challenge stays valid -/
theorem challengeEdge_valid {s : Session} {c c' : AcmeChallenge} (h : ChallengeEdge E s c c') (hv : c.status = .valid) :
    c'.status = .valid := by
  cases h with
  | retry => exact hv
  | process hp => rw [hp] at hv; cases hv
  | pass => rfl
  | fail hp => rw [hp] at hv; cases hv

/-- a challenge becomes valid by an attempt in the log -/
theorem challengeEdge_proven {s : Session} {c c' : AcmeChallenge} (h : ChallengeEdge E s c c') (hv : c'.status = .valid) :
    c.status = .valid ∨ ∃ a ∈ s.db.authzs, a.id = c.authorizationId ∧
      ∃ e, .attempt e ∈ s.log ∧ Proves E e c a.identifierValue a.accountId a.expires := by
  cases h with
  | retry => exact Or.inl hv
  | process => cases hv
  | pass _ ha haid he hproves => exact Or.inr ⟨_, ha, haid, _, he, hproves⟩
  | fail => cases hv

/-! ## Single rows -/

theorem Write.updateOrder {id : ℤ} {f : AcmeOrder → AcmeOrder} {hf : ∀ o, (f o).id = o.id}
    (h : ∀ o, s.db.orders.get? id = some o → OrderEdge s.db o (f o)) : Write E S s
      (setDb s (s.db.updateOrder id f hf)) := by
  refine Write.orders (fun r => if r.id = id then f r else r) _ fun r hr => ?_
  by_cases hid : r.id = id
  · rw [if_pos hid]
    exact h r (by rw [← hid]; exact Table.get?_key hr)
  · rw [if_neg hid]
    exact .same

theorem Write.order {id : ℤ} {o : AcmeOrder} {f : AcmeOrder → AcmeOrder} {hf : ∀ o, (f o).id = o.id}
    (ho : s.db.orders.get? id = some o) (h : OrderEdge s.db o (f o)) : Write E S s
      (setDb s (s.db.updateOrder id f hf)) := by
  refine Write.updateOrder fun r hr => ?_
  rw [ho] at hr
  cases hr
  exact h

theorem Write.authz {id : ℤ} {a : AcmeAuthorization} {f : AcmeAuthorization → AcmeAuthorization}
    {hf : ∀ a, (f a).id = a.id} (ha : s.db.authzs.get? id = some a) (h : AuthzEdge s.db a (f a)) :
    Write E S s (setDb s (s.db.updateAuthz id f hf)) := by
  refine Write.authzs (fun r => if r.id = id then f r else r) _ fun r hr => ?_
  by_cases hid : r.id = id
  · have heq : r = a := Table.eq_of_key hr (Table.mem_of_get? ha) (hid.trans (Table.key_of_get? ha).symm)
    rw [if_pos hid, heq]
    exact h
  · rw [if_neg hid]
    exact .same

theorem Write.challenge {id : ℤ} {c : AcmeChallenge} {f : AcmeChallenge → AcmeChallenge} {hf : ∀ c, (f c).id = c.id}
    (hc : s.db.challenges.get? id = some c) (h : ChallengeEdge E s c (f c)) :
    Write E S s (setDb s (s.db.updateChallenge id f hf)) := by
  refine Write.challenges (fun r => if r.id = id then f r else r) _ fun r hr => ?_
  by_cases hid : r.id = id
  · have heq : r = c := Table.eq_of_key hr (Table.mem_of_get? hc) (hid.trans (Table.key_of_get? hc).symm)
    rw [if_pos hid, heq]
    exact h
  · rw [if_neg hid]
    exact .retry

/-! ## Refreshing -/

/-- what a refresh may do to an order row -/
def Refreshed (db : Db) (o o' : AcmeOrder) : Prop :=
  o' = o ∨ (o.status ≠ .valid ∧ ∃ error, o' = { o with status := .invalid, error := error }) ∨
    (o.status = .pending ∧ (∀ a ∈ db.authorizationsOf o.id, a.status = .valid) ∧ o' = { o with status := .ready })

/-- what a refresh may do to an authorization row -/
def RefreshedAuthz (a a' : AcmeAuthorization) : Prop := a' = a ∨ (a.status = .pending ∧ a' = a.setStatus .expired)

theorem refreshedAuthz_expireOf (now : DateTime) (orderId : ℤ) (a : AcmeAuthorization) :
    RefreshedAuthz a (a.expireOf now orderId) := by
  unfold AcmeAuthorization.expireOf AcmeAuthorization.expire
  split_ifs with hid hexp
  · exact Or.inr ⟨hexp.1, rfl⟩
  · exact Or.inl rfl
  · exact Or.inl rfl

/-- expiring makes no authorization valid -/
theorem valid_of_expireAuthzs {db : Db} {now : DateTime} {orderId id : ℤ}
    (h : ∀ a ∈ (db.expireAuthzs now orderId).authorizationsOf id, a.status = .valid) :
    ∀ a ∈ db.authorizationsOf id, a.status = .valid := by
  intro a ha
  obtain ⟨hmem, hid⟩ := List.mem_filter.1 ha
  have hexp : (a.expireOf now orderId).status = .valid := by
    refine h _ (List.mem_filter.2 ⟨List.mem_map_of_mem hmem, ?_⟩)
    rcases refreshedAuthz_expireOf now orderId a with heq | ⟨_, heq⟩
    · rw [heq]; exact hid
    · rw [heq]; exact hid
  rcases refreshedAuthz_expireOf now orderId a with heq | ⟨_, heq⟩
  · rw [← heq]; exact hexp
  · rw [heq] at hexp
    cases hexp

theorem refreshOrder_authzs (now : DateTime) (o : AcmeOrder) (db : Db) {id : ℤ} {a : AcmeAuthorization}
    (ha : db.authzs.get? id = some a) :
    ∃ a', (refreshOrder now o db).authzs.get? id = some a' ∧ RefreshedAuthz a a' := by
  have hexp : (db.expireAuthzs now o.id).authzs.get? id = some (a.expireOf now o.id) := by
    unfold Db.expireAuthzs
    rw [Table.get?_mapRows, ha, Option.map_some]
  rcases refreshOrder_cases now o db with ⟨_, h⟩ | ⟨_, h⟩ | ⟨_, h⟩ | ⟨_, _, h⟩ | ⟨_, h⟩ <;> rw [h]
  · exact ⟨a, ha, Or.inl rfl⟩
  · exact ⟨a, ha, Or.inl rfl⟩
  all_goals exact ⟨_, hexp, refreshedAuthz_expireOf now o.id a⟩

theorem refreshOrder_orders {now : DateTime} {o : AcmeOrder} {db : Db} (ho : db.orders.get? o.id = some o) {id : ℤ}
    {r : AcmeOrder} (hr : db.orders.get? id = some r) :
    ∃ r', (refreshOrder now o db).orders.get? id = some r' ∧ Refreshed db r r' := by
  have hupdate : ∀ (f : AcmeOrder → AcmeOrder) (hf : ∀ o, (f o).id = o.id), Refreshed db o (f o) →
      ∃ r', (db.orders.update o.id f hf).get? id = some r' ∧ Refreshed db r r' := by
    intro f hf hedge
    rw [Table.get?_update]
    by_cases hid : id = o.id
    · rw [if_pos hid, hr]
      rw [hid, ho] at hr
      cases hr
      exact ⟨_, rfl, hedge⟩
    · rw [if_neg hid]
      exact ⟨r, hr, Or.inl rfl⟩
  rcases refreshOrder_cases now o db with ⟨_, h⟩ | ⟨hv, h⟩ | ⟨hv, h⟩ | ⟨hp, hall, h⟩ | ⟨_, h⟩ <;> rw [h]
  · exact ⟨r, hr, Or.inl rfl⟩
  · exact hupdate (AcmeOrder.fail orderExpired) (fun _ => rfl) (Or.inr (Or.inl ⟨hv, _, rfl⟩))
  · exact hupdate (AcmeOrder.fail authorizationFailed) (fun _ => rfl) (Or.inr (Or.inl ⟨hv, _, rfl⟩))
  · exact hupdate AcmeOrder.ready (fun _ => rfl) (Or.inr (Or.inr ⟨hp, valid_of_expireAuthzs hall, rfl⟩))
  · exact ⟨r, hr, Or.inl rfl⟩

/-- `refresh_order` is a chain of writes -/
theorem chain_refresh (now : DateTime) {o : AcmeOrder} (ho : s.db.orders.get? o.id = some o) :
    Chain E S s (setDb s (refreshOrder now o s.db)) := by
  have hexpire : Write E S s (setDb s (s.db.expireAuthzs now o.id)) := by
    refine Write.authzs _ _ fun a _ => ?_
    rcases refreshedAuthz_expireOf now o.id a with heq | ⟨hp, heq⟩ <;> rw [heq]
    · exact .same
    · exact .close hp rfl
  rcases refreshOrder_cases now o s.db with ⟨_, h⟩ | ⟨hv, h⟩ | ⟨hv, h⟩ | ⟨hp, hall, h⟩ | ⟨_, h⟩ <;> rw [h]
  · exact .refl
  · exact .single (Write.order ho (.fail hv))
  · refine Relation.ReflTransGen.tail (.single hexpire) ?_
    exact @Write.order E S (setDb s (s.db.expireAuthzs now o.id)) o.id o _ _ ho (.fail hv)
  · refine Relation.ReflTransGen.tail (.single hexpire) ?_
    exact @Write.order E S (setDb s (s.db.expireAuthzs now o.id)) o.id o _ _ ho (.ready hp hall)
  · exact .single hexpire

/-- what a refresh of the order of an authorization leaves is reached by writes -/
theorem chain_refreshOrderOf {now : DateTime} {a : AcmeAuthorization} {db : Db}
    (h : refreshOrderOf now a s.db = .ok db) : Chain E S s (setDb s db) := by
  unfold refreshOrderOf at h
  cases ho : s.db.orders.get? a.orderId with
  | none => rw [ho] at h; cases h
  | some o =>
    rw [ho] at h
    cases h
    exact chain_refresh now (by rw [Table.key_of_get? ho]; exact ho)

theorem chain_refreshAuthz (now : DateTime) {a : AcmeAuthorization} (ha : s.db.authzs.get? a.id = some a) :
    Chain E S s (setDb s (refreshAuthz now a s.db)) := by
  refine .single (Write.authz ha ?_)
  unfold AcmeAuthorization.expire
  split_ifs with hexp
  · exact .close hexp.1 rfl
  · exact .same

/-! ## Attempts -/

/-- a challenge that is being validated, and its pending authorization -/
structure Attempted (s : Session) (c : AcmeChallenge) (a : AcmeAuthorization) : Prop where
  challenge : s.db.challenges.get? c.id = some c
  processing : c.status = .processing
  authz : s.db.authzs.get? a.id = some a
  pending : a.status = .pending
  belongs : a.id = c.authorizationId

/-- `_settle` is a chain of writes; a success needs a proof in the log -/
theorem chain_settle (now : DateTime) {c : AcmeChallenge} {a : AcmeAuthorization} (h : Attempted s c a) {ok : Bool}
    {errorType detail : String}
    (hproof : ok = true → ∃ e, .attempt e ∈ s.log ∧ Proves E e c a.identifierValue a.accountId a.expires) :
    Chain E S s (setDb s (settle now c a ok errorType detail s.db)) := by
  cases ok with
  | true =>
    obtain ⟨e, he, hproves⟩ := hproof rfl
    have hchallenge : Write E S s (setDb s (s.db.updateChallenge c.id (AcmeChallenge.pass now))) :=
      Write.challenge h.challenge (.pass h.processing (Table.mem_of_get? h.authz) h.belongs he hproves)
    refine Relation.ReflTransGen.tail (.single hchallenge) ?_
    have hvalid : (s.db.updateChallenge c.id (AcmeChallenge.pass now)).challenges.get? c.id = some (c.pass now) :=
      Db.updateChallenge_self h.challenge
    exact @Write.authz E S (setDb s (s.db.updateChallenge c.id (AcmeChallenge.pass now))) a.id a _ _ h.authz
      (.pass h.pending (Table.mem_of_get? hvalid) h.belongs.symm rfl)
  | false =>
    have hchallenge : Write E S s
      (setDb s (s.db.updateChallenge c.id (AcmeChallenge.fail (errorObject errorType detail)))) :=
      Write.challenge h.challenge (.fail h.processing)
    refine Relation.ReflTransGen.tail (.single hchallenge) ?_
    exact @Write.authz E S (setDb s (s.db.updateChallenge c.id (AcmeChallenge.fail (errorObject errorType detail))))
      a.id a _ _
      h.authz (.close h.pending rfl)

/-- the handling of a dns-01 answer is a chain of writes -/
theorem chain_settleDns01 (cfg : Config) (now : DateTime) {c : AcmeChallenge} {a : AcmeAuthorization} (h : Attempted s c a)
    {v : Validation}
    (hproof : v.ok = true → ∃ e, .attempt e ∈ s.log ∧ Proves E e c a.identifierValue a.accountId a.expires) :
    Chain E S s (setDb s (settleDns01 cfg now c a v s.db)) := by
  have hcount : ∀ next, Write E S s (setDb s (s.db.updateChallenge c.id (AcmeChallenge.count next))) :=
    fun next => Write.challenge h.challenge .retry
  have hget : ∀ next, (s.db.updateChallenge c.id (AcmeChallenge.count next)).challenges.get? c.id =
      some (c.count next) := fun _ => Db.updateChallenge_self h.challenge
  have hcounted : ∀ next, Attempted (setDb s (s.db.updateChallenge c.id (AcmeChallenge.count next))) (c.count next) a :=
    fun next => ⟨hget next, h.processing, h.authz, h.pending, h.belongs⟩
  unfold settleDns01
  simp only
  split_ifs with hok hretry
  · exact (Relation.ReflTransGen.single (hcount none)).trans (chain_settle now (hcounted none) fun _ => hproof hok)
  · have hnext := hcount (some (now + max 1 cfg.dns01RetrySeconds * second))
    refine Relation.ReflTransGen.tail (.single hnext) ?_
    exact Write.challenge (hget (some (now + max 1 cfg.dns01RetrySeconds * second))) .retry
  · exact (Relation.ReflTransGen.single (hcount none)).trans (chain_settle now (hcounted none) nofun)

/-- the log entry of a successful attempt proves control -/
theorem proves_attempt {now : DateTime} {account : AcmeAccount} {c : AcmeChallenge} {a : AcmeAuthorization}
    {authorization : Text} {srv : Server} {asked : List Query} {accounts : AccountTable}
    (haccount : accounts.get? a.accountId = some account) (hlive : now < a.expires)
    (hauth : keyAuthorization E c.token account.jwk = .ok authorization)
    (hshows : Shows srv c.type (attemptTarget c.type a.identifierValue) c.token (expectedText E c.type authorization)
      asked) :
    Proves E ⟨now, c.id, c.type, srv, asked, accounts⟩ c a.identifierValue a.accountId a.expires :=
  ⟨rfl, rfl, hlive, account, authorization, haccount, hauth, hshows⟩

/-- the session after the attempt is logged -/
theorem Attempted.record {c : AcmeChallenge} {a : AcmeAuthorization} (h : Attempted s c a) (e : Event) :
    Attempted (s.record e) c a :=
  ⟨h.challenge, h.processing, h.authz, h.pending, h.belongs⟩

/-- a dns-01 attempt is a chain of writes -/
theorem chain_attemptDns01 {srv : Server} {now : DateTime} {account : AcmeAccount} {c : AcmeChallenge}
    {a : AcmeAuthorization} {s' : Session} (hsrv : srv ∈ S) (h : Attempted s c a) (htype : c.type = .dns01)
    (haccount : s.db.accounts.get? a.accountId = some account) (hlive : now < a.expires)
    (hs : attemptDns01 E srv now account c a s = .ok s') : Chain E S s s' := by
  obtain ⟨authorization, hauth, hs⟩ := bind_eq_ok.1 hs
  obtain ⟨v, hv, hs⟩ := bind_eq_ok.1 hs
  cases hs
  let e : Attempt := ⟨now, c.id, .dns01, srv, v.asked, s.db.accounts⟩
  have hlog : Write E S s (s.record (.attempt e)) := .attempt e hsrv
  refine Relation.ReflTransGen.head hlog (chain_settleDns01 srv.config now (h.record _) fun hok => ?_)
  refine ⟨e, List.mem_append_right _ (List.mem_singleton.2 rfl), ?_⟩
  have hshows := dns01Validate_ok (lift_ok hv) hok
  have hproves := @proves_attempt E now account c a authorization srv v.asked s.db.accounts haccount hlive hauth
    (by rw [htype]; exact hshows)
  rw [htype] at hproves
  exact hproves

/-- an http-01 attempt is a chain of writes -/
theorem chain_attemptHttp01 {srv : Server} {now : DateTime} {account : AcmeAccount} {c : AcmeChallenge}
    {a : AcmeAuthorization} {s' : Session} (hsrv : srv ∈ S) (h : Attempted s c a) (htype : c.type = .http01)
    (haccount : s.db.accounts.get? a.accountId = some account) (hlive : now < a.expires)
    (hs : attemptHttp01 E srv now account c a s = .ok s') : Chain E S s s' := by
  obtain ⟨authorization, hauth, hs⟩ := bind_eq_ok.1 hs
  obtain ⟨v, hv, hs⟩ := bind_eq_ok.1 hs
  cases hs
  let e : Attempt := ⟨now, c.id, .http01, srv, v.asked, s.db.accounts⟩
  have hlog : Write E S s (s.record (.attempt e)) := .attempt e hsrv
  refine Relation.ReflTransGen.head hlog (chain_settle now (h.record _) fun hok => ?_)
  refine ⟨e, List.mem_append_right _ (List.mem_singleton.2 rfl), ?_⟩
  have hshows := fetchHttp01_ok (lift_ok hv) hok
  have hproves := @proves_attempt E now account c a authorization srv v.asked s.db.accounts haccount hlive hauth
    (by rw [htype]; exact hshows)
  rw [htype] at hproves
  exact hproves

theorem chain_attemptNow {srv : Server} {now : DateTime} {account : AcmeAccount} {c : AcmeChallenge}
    {a : AcmeAuthorization} {s' : Session} (hsrv : srv ∈ S) (h : Attempted s c a)
    (haccount : s.db.accounts.get? a.accountId = some account) (hlive : now < a.expires)
    (hs : attemptNow E srv now account c a s = .ok s') : Chain E S s s' := by
  unfold attemptNow at hs
  cases htype : c.type with
  | http01 =>
    rw [htype] at hs
    exact chain_attemptHttp01 hsrv h htype haccount hlive hs
  | dns01 =>
    rw [htype] at hs
    exact chain_attemptDns01 hsrv h htype haccount hlive hs

/-! ## Polls and responses -/

/-- a step that leaves the session alone when it raises -/
theorem chained_try {α : Type} {x : Result α} {k : α → Outcome} (h : ∀ a, x = .ok a → Chained E S s (k a)) :
    Chained E S s (s.try x >>= k) := by
  cases x with
  | error e => exact .refl
  | ok a => exact h a rfl

/-- one call after another -/
theorem chained_bind {x : Outcome} {k : Session → Outcome} (hx : Chained E S s x)
    (hk : ∀ s', x = .ok s' → Chained E S s' (k s')) : Chained E S s (x >>= k) := by
  cases x with
  | error r => exact hx
  | ok s' =>
    have hrest := hk s' rfl
    show Chained E S s (k s')
    revert hrest
    cases k s' with
    | error r => exact fun hrest => Relation.ReflTransGen.trans hx hrest
    | ok s'' => exact fun hrest => Relation.ReflTransGen.trans hx hrest

theorem chained_head {s' : Session} {x : Outcome} (h : Chain E S s s') (hx : Chained E S s' x) : Chained E S s x := by
  cases x with
  | error r => exact h.trans hx
  | ok s'' => exact h.trans hx

theorem chained_pollAuthz {srv : Server} (hsrv : srv ∈ S) {now : DateTime} {a : AcmeAuthorization}
    (ha : s.db.authzs.get? a.id = some a) : Chained E S s (pollAuthz E srv now a s) := by
  unfold pollAuthz
  by_cases hexp : a.status = .pending ∧ a.expires ≤ now
  · rw [if_pos hexp]
    exact chain_refreshAuthz now ha
  rw [if_neg hexp]
  by_cases hpending : a.status = .pending
  swap
  · rw [if_neg hpending]
    exact .refl
  rw [if_pos hpending]
  cases hdue : (s.db.challengesOf a.id).find? (·.due now) with
  | none => exact .refl
  | some c =>
    simp only
    cases haccount : s.db.accounts.get? a.accountId with
    | none => exact .refl
    | some account =>
      simp only
      obtain ⟨hc, hca⟩ := List.mem_filter.1 (List.mem_of_find?_eq_some hdue)
      have hisdue := List.find?_some hdue
      simp only [AcmeChallenge.due, Bool.and_eq_true, decide_eq_true_eq] at hisdue
      have hattempted : Attempted s c a :=
        ⟨Table.get?_key hc, hisdue.1.2, ha, hpending, (beq_iff_eq.1 hca).symm⟩
      have hlive : now < a.expires := by
        by_contra hle
        exact hexp ⟨hpending, not_lt.1 hle⟩
      refine chained_try fun s₁ h₁ => chained_head (chain_attemptDns01 hsrv hattempted hisdue.1.1 haccount hlive h₁) ?_
      exact chained_try fun db hdb => chain_refreshOrderOf hdb

theorem loadAuthz_ok {caId accountId authzId : ℤ} {db : Db} {a : AcmeAuthorization}
    (h : loadAuthz caId accountId authzId db = .ok a) : db.authzs.get? a.id = some a ∧ a.accountId = accountId := by
  unfold loadAuthz at h
  cases hg : db.authzs.get? authzId with
  | none => rw [hg] at h; cases h
  | some a' =>
    simp only [hg] at h
    split_ifs at h with hne
    cases h
    rw [not_or, not_not, not_not] at hne
    exact ⟨Table.get?_key (Table.mem_of_get? hg), hne.2⟩

theorem loadChallenge_ok {caId accountId challengeId : ℤ} {db : Db} {c : AcmeChallenge} {a : AcmeAuthorization}
    (h : loadChallenge caId accountId challengeId db = .ok (c, a)) :
    db.challenges.get? challengeId = some c ∧ db.authzs.get? a.id = some a ∧ a.id = c.authorizationId ∧
      a.accountId = accountId := by
  unfold loadChallenge at h
  cases hc : db.challenges.get? challengeId with
  | none => rw [hc] at h; cases h
  | some c' =>
    simp only [hc] at h
    cases ha : db.authzs.get? c'.authorizationId with
    | none => rw [ha] at h; cases h
    | some a' =>
      simp only [ha] at h
      split_ifs at h with hne
      cases h
      rw [not_or, not_not, not_not] at hne
      exact ⟨rfl, Table.get?_key (Table.mem_of_get? ha), Table.key_of_get? ha, hne.2⟩

theorem chained_validateNow {srv : Server} (hsrv : srv ∈ S) {now : DateTime} {account : AcmeAccount} {c : AcmeChallenge}
    {a : AcmeAuthorization} (hc : s.db.challenges.get? c.id = some c) (hcp : c.status = .pending)
    (ha : s.db.authzs.get? a.id = some a) (hap : a.status = .pending) (hca : a.id = c.authorizationId)
    (haccount : s.db.accounts.get? a.accountId = some account) (hlive : now < a.expires) :
    Chained E S s (validateNow E srv now account c a s) := by
  have hprocess : Write E S s (setDb s (s.db.updateChallenge c.id AcmeChallenge.process AcmeChallenge.process_id)) :=
    Write.challenge hc (.process hcp)
  have hattempted : Attempted (setDb s (s.db.updateChallenge c.id AcmeChallenge.process AcmeChallenge.process_id))
    c.process a :=
    ⟨Db.updateChallenge_self hc, rfl, ha, hap, hca⟩
  refine chained_head (.single hprocess) (chained_try fun s₁ h₁ => ?_)
  refine chained_head (chain_attemptNow hsrv hattempted haccount hlive h₁) (chained_try fun db hdb => ?_)
  exact chain_refreshOrderOf hdb

/-- an authorization that is still pending once stale ones expired is live -/
theorem live_of_refreshed {now : DateTime} {a a' : AcmeAuthorization} (ha : s.db.authzs.get? a.id = some a)
    (ha' : (refreshAuthz now a s.db).authzs.get? a'.id = some a') (hid : a'.id = a.id) (hp : a'.status = .pending) :
    now < a'.expires := by
  rw [hid] at ha'
  unfold refreshAuthz at ha'
  rw [Db.updateAuthz_self ha] at ha'
  cases ha'
  unfold AcmeAuthorization.expire at hp ⊢
  by_cases hexp : a.status = .pending ∧ a.expires ≤ now
  · rw [if_pos hexp] at hp
    cases hp
  · rw [if_neg hexp] at hp ⊢
    by_contra hle
    exact hexp ⟨hp, not_lt.1 hle⟩

theorem chained_respondChallenge {srv : Server} (hsrv : srv ∈ S) {now : DateTime} {account : AcmeAccount} {challengeId : ℤ}
    (haccount : s.db.accounts.get? account.id = some account) :
    Chained E S s (respondChallenge E srv now account challengeId s) := by
  refine chained_try fun r hr => ?_
  obtain ⟨c₀, a₀⟩ := r
  obtain ⟨hc₀, ha₀, hca₀, _⟩ := loadChallenge_ok hr
  refine chained_head (chain_refreshAuthz now ha₀) (chained_try fun r' hr' => ?_)
  obtain ⟨c, a⟩ := r'
  obtain ⟨hc, ha, hca, haccountId⟩ := loadChallenge_ok hr'
  simp only
  by_cases hdone : c.status ≠ .pending ∨ a.status ≠ .pending
  · rw [if_pos hdone]
    exact .refl
  rw [if_neg hdone]
  rw [not_or, not_not, not_not] at hdone
  cases ho : (setDb s (refreshAuthz now a₀ s.db)).db.orders.get? a.orderId with
  | none => exact .refl
  | some o =>
    simp only
    by_cases hexp : o.expires ≤ now
    · rw [if_pos hexp]
      exact chain_refresh now (by rw [Table.key_of_get? ho]; exact ho)
    · rw [if_neg hexp]
      -- the challenge is the one read before, so the authorization is the one that was refreshed
      have hid : a.id = a₀.id := by
        have hsame : some c = some c₀ := hc.symm.trans hc₀
        rw [hca, hca₀, Option.some.inj hsame]
      exact chained_validateNow hsrv (Table.get?_key (Table.mem_of_get? hc)) hdone.1 ha hdone.2 hca
        (by rw [haccountId]; exact haccount)
        (live_of_refreshed ha₀ ha hid hdone.2)

/-- `deactivate_authz` is a chain of writes -/
theorem chain_deactivateAuthz {now : DateTime} {a : AcmeAuthorization} {db : Db}
    (ha : s.db.authzs.get? a.id = some a) (h : deactivateAuthz now a s.db = .ok db) : Chain E S s (setDb s db) := by
  unfold deactivateAuthz at h
  split_ifs at h with hp
  · have hclose : Write E S s (setDb s (s.db.updateAuthz a.id (AcmeAuthorization.setStatus .deactivated))) :=
      Write.authz ha (.close hp rfl)
    exact (Relation.ReflTransGen.single hclose).trans
      (@chain_refreshOrderOf E S (setDb s (s.db.updateAuthz a.id (AcmeAuthorization.setStatus .deactivated))) now a db h)
  · cases h
    exact .refl

/-! ## Orders, accounts, maintenance -/

/-- a parsed identifier is a host name, or one after `*.` -/
theorem parseIdentifier_host {srv : Server} {item : Json} {value : Text} (h : parseIdentifier E srv item = .ok value) :
    '*' ∉ baseName value ∧ matchesHostname (baseName value) = true := by
  unfold parseIdentifier at h
  cases item with
  | obj fields =>
    simp only at h
    by_cases htype : (!(Json.get fields "type").eqStr "dns") = true
    · rw [if_pos htype] at h
      cases h
    rw [if_neg htype] at h
    cases hval : Json.get fields "value" with
    | str raw =>
      simp only [hval] at h
      split_ifs at h with _ _ hbad
      cases h
      rw [not_or, not_or, Bool.not_eq_false] at hbad
      exact ⟨hbad.1, hbad.2.1⟩
    | _ => simp only [hval] at h; cases h
  | _ => cases h

/-- what is true of every parsed item is true of every identifier -/
theorem parseEach_forall {srv : Server} {P : Text → Prop}
    (hP : ∀ item value, parseIdentifier E srv item = .ok value → P value) {items : List Json} {acc identifiers : List Text}
    (h : parseEach E srv items acc = .ok identifiers) (hacc : ∀ i ∈ acc, P i) : ∀ i ∈ identifiers, P i := by
  induction items generalizing acc with
  | nil =>
    cases h
    exact hacc
  | cons item rest ih =>
    obtain ⟨value, hvalue, h⟩ := bind_eq_ok.1 h
    refine ih h ?_
    split_ifs
    · exact hacc
    · intro i hi
      rcases List.mem_append.1 hi with hi | hi
      · exact hacc i hi
      · rw [List.mem_singleton.1 hi]
        exact hP item value hvalue

/-- the loop only adds -/
theorem parseEach_ne_nil {srv : Server} {items : List Json} {acc identifiers : List Text}
    (h : parseEach E srv items acc = .ok identifiers) (hne : items ≠ [] ∨ acc ≠ []) : identifiers ≠ [] := by
  induction items generalizing acc with
  | nil =>
    cases h
    exact hne.resolve_left (fun h => h rfl)
  | cons item rest ih =>
    obtain ⟨value, hvalue, h⟩ := bind_eq_ok.1 h
    refine ih h (Or.inr ?_)
    split_ifs with hmem
    · exact List.ne_nil_of_mem hmem
    · simp

theorem parseIdentifiers_ok {srv : Server} {raw : Json} {identifiers : List Text}
    (h : parseIdentifiers E srv raw = .ok identifiers) :
    ∃ items, items ≠ [] ∧ parseEach E srv items [] = .ok identifiers := by
  unfold parseIdentifiers at h
  split at h
  · obtain ⟨parsed, hparsed, h⟩ := bind_eq_ok.1 h
    split at h
    · split_ifs at h
    · split_ifs at h
      cases h
      exact ⟨_, List.cons_ne_nil _ _, hparsed⟩
  · cases h

/-- **What an order asks for.** At least one name, and every one a host name, or one after `*.`. -/
theorem parseIdentifiers_host {srv : Server} {raw : Json} {identifiers : List Text}
    (h : parseIdentifiers E srv raw = .ok identifiers) :
    identifiers ≠ [] ∧ ∀ i ∈ identifiers, '*' ∉ baseName i ∧ matchesHostname (baseName i) = true := by
  obtain ⟨items, hne, hparsed⟩ := parseIdentifiers_ok h
  exact ⟨parseEach_ne_nil hparsed (Or.inl hne), parseEach_forall (fun _ _ => parseIdentifier_host) hparsed (by simp)⟩

/-- the base of a parsed identifier is no wildcard -/
theorem parseIdentifiers_base {srv : Server} {raw : Json} {identifiers : List Text}
    (h : parseIdentifiers E srv raw = .ok identifiers) : ∀ i ∈ identifiers, isWildcard (baseName i) = false := by
  intro i hi
  have hstar := ((parseIdentifiers_host h).2 i hi).1
  unfold isWildcard
  cases hb : baseName i with
  | nil => rfl
  | cons x rest =>
    rw [hb] at hstar
    have hx : '*' ≠ x := fun heq => hstar (heq ▸ List.mem_cons_self)
    simp [List.isPrefixOf, hx]

theorem addAuthorizations_accounts {srv : Server} {orderId accountId : ℤ} {expires : DateTime} {identifiers : List Text}
    {db : Db} : (addAuthorizations srv orderId accountId expires identifiers db).accounts = db.accounts := by
  induction identifiers generalizing db with
  | nil => rfl
  | cons i rest ih => exact ih

theorem addAuthorizations_certificates {srv : Server} {orderId accountId : ℤ} {expires : DateTime}
    {identifiers : List Text} {db : Db} :
    (addAuthorizations srv orderId accountId expires identifiers db).certificates = db.certificates := by
  induction identifiers generalizing db with
  | nil => rfl
  | cons i rest ih => exact ih

/-- `new_order` is a chain of writes -/
theorem chain_newOrder {srv : Server} {account : AcmeAccount} {payload : Option Fields} {now : DateTime} {db : Db}
    (h : newOrder E srv account payload now s.db = .ok db) : Chain E S s (setDb s db) := by
  obtain ⟨identifiers, hparse, h⟩ := bind_eq_ok.1 h
  cases h
  have horder := @Write.newOrder E S s srv account.id identifiers
    (now + srv.config.orderLifetimeHours * (3600 * second)) ⟨_, hparse⟩
  refine Relation.ReflTransGen.tail (.single horder) (Write.rest _ rfl rfl rfl ?_ ?_)
  · have htouch : AccountsMove s.db.accounts
      (s.db.accounts.update account.id (AcmeAccount.touch now) AcmeAccount.touch_id) :=
      Moves.update (AcmeAccount.touch now) (fun _ => rfl) fun _ _ => .refl
    have hsame : (addAuthorizations srv s.db.orders.nextKey account.id
        (now + srv.config.orderLifetimeHours * (3600 * second)) identifiers
        { s.db with orders := s.db.orders.insert fun id =>
            ⟨id, account.id, srv.ca.id, .pending, identifiers, now + srv.config.orderLifetimeHours * (3600 * second),
              none, none, none, none⟩ }).accounts = s.db.accounts := addAuthorizations_accounts
    rw [setDb_db, Db.touchAccount, hsame]
    exact htouch
  · exact certificatesKept_refl _

/-- what the challenges of a new authorization add -/
theorem mem_addChallenges {srv : Server} {authzId : ℤ} {types : List ChallengeType} {t : ChallengeTable} :
    (∀ c ∈ t, c ∈ addChallenges srv authzId types t) ∧
      ∀ c ∈ addChallenges srv authzId types t,
        c ∈ t ∨ c.status = .pending ∧ c.authorizationId = authzId ∧ c.type ∈ types := by
  induction types generalizing t with
  | nil => exact ⟨fun c hc => hc, fun c hc => Or.inl hc⟩
  | cons type rest ih =>
    obtain ⟨hmono, hnew⟩ := @ih (t.insert fun id => ⟨id, authzId, type, srv.token id, .pending, none, none, 0, none⟩)
    refine ⟨fun c hc => hmono c (Table.mem_insert.2 (Or.inl hc)), fun c hc => ?_⟩
    rcases hnew c hc with hold | ⟨hst, hid, htype⟩
    · rcases Table.mem_insert.1 hold with hold | rfl
      · exact Or.inl hold
      · exact Or.inr ⟨rfl, rfl, List.mem_cons_self⟩
    · exact Or.inr ⟨hst, hid, List.mem_cons_of_mem _ htype⟩

/-- what the authorizations of a new order add -/
structure Added (orderId accountId : ℤ) (expires : DateTime) (identifiers : List Text) (db db' : Db) : Prop where
  orders : db'.orders = db.orders
  keepsAuthzs : ∀ a ∈ db.authzs, a ∈ db'.authzs
  keepsChallenges : ∀ c ∈ db.challenges, c ∈ db'.challenges
  each : ∀ i ∈ identifiers, ∃ a ∈ db'.authzs,
    a.orderId = orderId ∧ a.identifierValue = baseName i ∧ a.wildcard = isWildcard i
  authzs : ∀ a ∈ db'.authzs, a ∈ db.authzs ∨
    a.orderId = orderId ∧ a.accountId = accountId ∧ a.expires = expires ∧ a.status = .pending ∧
      ∃ i ∈ identifiers, a.identifierValue = baseName i
  challenges : ∀ c ∈ db'.challenges, c ∈ db.challenges ∨
    c.status = .pending ∧ ∃ a ∈ db'.authzs, a.id = c.authorizationId ∧ (a.wildcard = true → c.type = .dns01)

theorem added_addAuthorizations {srv : Server} {orderId accountId : ℤ} {expires : DateTime} {identifiers : List Text}
    {db : Db} : Added orderId accountId expires identifiers db
      (addAuthorizations srv orderId accountId expires identifiers db) := by
  induction identifiers generalizing db with
  | nil => exact ⟨rfl, fun _ h => h, fun _ h => h, nofun, fun _ h => Or.inl h, fun _ h => Or.inl h⟩
  | cons i rest ih =>
    have hrest := @ih (addAuthorization srv orderId accountId expires i db)
    have hself : (⟨db.authzs.nextKey, orderId, accountId, srv.ca.id, baseName i, isWildcard i, .pending, expires⟩ :
        AcmeAuthorization) ∈ (addAuthorization srv orderId accountId expires i db).authzs :=
      Table.mem_insert.2 (Or.inr rfl)
    obtain ⟨hmono, hnew⟩ := @mem_addChallenges srv db.authzs.nextKey (offered srv i) db.challenges
    refine ⟨hrest.orders, fun a ha => hrest.keepsAuthzs a (Table.mem_insert.2 (Or.inl ha)),
      fun c hc => hrest.keepsChallenges c (hmono c hc), ?_, ?_, ?_⟩
    · intro j hj
      rcases List.mem_cons.1 hj with rfl | hj
      · exact ⟨_, hrest.keepsAuthzs _ hself, rfl, rfl, rfl⟩
      · exact hrest.each j hj
    · intro a ha
      rcases hrest.authzs a ha with hold | ⟨hord, hacc, hexp, hst, j, hj, hval⟩
      · rcases Table.mem_insert.1 hold with hold | rfl
        · exact Or.inl hold
        · exact Or.inr ⟨rfl, rfl, rfl, rfl, i, List.mem_cons_self, rfl⟩
      · exact Or.inr ⟨hord, hacc, hexp, hst, j, List.mem_cons_of_mem _ hj, hval⟩
    · intro c hc
      rcases hrest.challenges c hc with hold | hpending
      · rcases hnew c hold with hold | ⟨hst, hid, htype⟩
        · exact Or.inl hold
        · refine Or.inr ⟨hst, _, hrest.keepsAuthzs _ hself, hid.symm, fun hwild => ?_⟩
          -- only dns-01 is offered for a wildcard
          unfold offered at htype
          rw [if_pos hwild] at htype
          exact List.mem_singleton.1 htype
      · exact Or.inr hpending

theorem orderEdge_deactivate (db : Db) (accountId : ℤ) (o : AcmeOrder) : OrderEdge db o (o.deactivate accountId) := by
  unfold AcmeOrder.deactivate
  split_ifs with h
  · refine .fail fun hv => ?_
    simp [AcmeOrder.live, hv] at h
  · exact .same

theorem orderEdge_expire (db : Db) (now : DateTime) (o : AcmeOrder) : OrderEdge db o (o.expire now) := by
  unfold AcmeOrder.expire
  split_ifs with h
  · refine .fail fun hv => ?_
    simp [AcmeOrder.live, hv] at h
  · exact .same

/-- an account update moves the account along its life cycle -/
theorem accountsMove_updateAccount {a a' : Accounts} {account : AcmeAccount} {payload : Fields} {now : DateTime}
    (haccount : a.accounts.get? account.id = some account) (hvalid : account.status = .valid)
    (h : updateAccount E a account payload now = .ok a') : AccountsMove a.accounts a'.accounts := by
  unfold updateAccount at h
  split_ifs at h with hdeact
  · cases h
    refine Moves.update AcmeAccount.deactivate (fun _ => rfl) fun r hr => .single ?_
    rw [haccount] at hr
    cases hr
    rw [hvalid]
    exact .deactivate
  · split at h
    · cases h
      exact Moves.update (AcmeAccount.touch now) (fun _ => rfl) fun _ _ => .refl
    · obtain ⟨contact, _, h⟩ := bind_eq_ok.1 h
      cases h
      exact Moves.update (AcmeAccount.setContact contact now) (fun _ => rfl) fun _ _ => .refl

/-- an account update is a chain of writes -/
theorem chain_updateAccount {account : AcmeAccount} {payload : Fields} {now : DateTime} {db : Db}
    (haccount : s.db.accounts.get? account.id = some account) (hvalid : account.status = .valid)
    (h : updateAccountAndOrders E account payload now s.db = .ok db) : Chain E S s (setDb s db) := by
  obtain ⟨accounts, hupdate, h⟩ := bind_eq_ok.1 h
  have hmoves := accountsMove_updateAccount haccount hvalid hupdate
  have hrest : Write E S s (setDb s { s.db with accounts := accounts.accounts, eabKeys := accounts.eabKeys }) :=
    Write.rest _ rfl rfl rfl hmoves (certificatesKept_refl _)
  by_cases hdeact : (Json.get payload "status").eqStr "deactivated" = true
  · simp only [hdeact, if_true] at h
    cases h
    refine Relation.ReflTransGen.tail (.single hrest) ?_
    exact Write.orders (AcmeOrder.deactivate account.id) _ fun o _ => orderEdge_deactivate _ account.id o
  · simp only [hdeact] at h
    cases h
    exact .single hrest

/-- a registration adds a valid account, or only sees an old one -/
theorem accountsMove_newAccount {d : Directory} {a a' : Accounts} {v : Verified E} {now : DateTime} {id : ℤ}
    {created : Bool}
    (h : newAccount E d a v now = .ok (a', id, created)) : AccountsMove a.accounts a'.accounts := by
  obtain ⟨tp, _, h⟩ := bind_eq_ok.1 h
  simp only at h
  split at h
  · split_ifs at h
    cases h
    exact Moves.update (AcmeAccount.touch now) (fun _ => rfl) fun _ _ => .refl
  · split_ifs at h
    obtain ⟨contact, _, h⟩ := bind_eq_ok.1 h
    obtain ⟨eabRow, _, h⟩ := bind_eq_ok.1 h
    cases h
    let mk : ℤ → AcmeAccount := fun id =>
      ⟨id, d.caId, v.jwk, tp, .valid, storedContact contact, eabRow.map (·.id), now, some now⟩
    exact Moves.insert mk (fun _ => rfl) .refl

/-- a key roll-over keeps every status -/
theorem accountsMove_changeKey {caId : ℤ} {a a' : Accounts} {account : AcmeAccount} {inner : Verified E}
    (h : changeKey E caId a account inner = .ok a') : AccountsMove a.accounts a'.accounts := by
  unfold changeKey at h
  split at h
  · cases h
  split_ifs at h
  obtain ⟨newTp, _, h⟩ := bind_eq_ok.1 h
  split at h
  · split_ifs at h
    cases h
    exact Moves.update (AcmeAccount.rollKey inner.jwk newTp) (fun _ => rfl) fun _ _ => .refl
  · cases h
    exact Moves.update (AcmeAccount.rollKey inner.jwk newTp) (fun _ => rfl) fun _ _ => .refl

/-- the maintenance job is a chain of writes -/
theorem chain_maintain (now : DateTime) : Chain E S s (setDb s (maintain now s.db)) := by
  have horders : Write E S s (setDb s { s.db with
      orders := s.db.orders.mapRows (AcmeOrder.expire now) (AcmeOrder.expire_id now) }) :=
    Write.orders _ _ fun o _ => orderEdge_expire _ now o
  refine Relation.ReflTransGen.tail (.single horders) ?_
  refine Write.authzs (AcmeAuthorization.expire now) (AcmeAuthorization.expire_id now) fun a _ => ?_
  unfold AcmeAuthorization.expire
  split_ifs with hexp
  · exact .close hexp.1 rfl
  · exact .same

/-! ## finalize -/

/-- what a refresh leaves of another refresh's rows -/
theorem refreshed_trans {db db' : Db} {o o' o'' : AcmeOrder} (h : Refreshed db o o') (h' : Refreshed db' o' o'')
    (hall : (∀ a ∈ db'.authorizationsOf o.id, a.status = .valid) → ∀ a ∈ db.authorizationsOf o.id, a.status = .valid) :
    Refreshed db o o'' := by
  rcases h with rfl | ⟨hv, error, rfl⟩ | ⟨hp, hvalid, rfl⟩
  · rcases h' with rfl | ⟨hv', error', rfl⟩ | ⟨hp', hvalid', rfl⟩
    · exact Or.inl rfl
    · exact Or.inr (Or.inl ⟨hv', error', rfl⟩)
    · exact Or.inr (Or.inr ⟨hp', hall hvalid', rfl⟩)
  · rcases h' with rfl | ⟨_, error', rfl⟩ | ⟨hp', _, _⟩
    · exact Or.inr (Or.inl ⟨hv, error, rfl⟩)
    · exact Or.inr (Or.inl ⟨hv, error', rfl⟩)
    · cases hp'
  · rcases h' with rfl | ⟨_, error', rfl⟩ | ⟨hp', _, _⟩
    · exact Or.inr (Or.inr ⟨hp, hvalid, rfl⟩)
    · exact Or.inr (Or.inl ⟨by rw [hp]; decide, error', rfl⟩)
    · cases hp'

theorem refreshedAuthz_trans {a a' a'' : AcmeAuthorization} (h : RefreshedAuthz a a') (h' : RefreshedAuthz a' a'') :
    RefreshedAuthz a a'' := by
  rcases h with rfl | ⟨hp, rfl⟩
  · exact h'
  · rcases h' with rfl | ⟨hp', _⟩
    · exact Or.inr ⟨hp, rfl⟩
    · cases hp'

theorem refreshTwice_authzs (t : Tick) (o : AcmeOrder) (db : Db) {id : ℤ} {a : AcmeAuthorization}
    (ha : db.authzs.get? id = some a) : ∃ a', (refreshTwice t o db).authzs.get? id = some a' ∧ RefreshedAuthz a a' := by
  obtain ⟨a', ha', hfirst⟩ := refreshOrder_authzs t.now o db ha
  unfold refreshTwice
  simp only
  cases ho : (refreshOrder t.now o db).orders.get? o.id with
  | none => exact ⟨a', ha', hfirst⟩
  | some o' =>
    obtain ⟨a'', ha'', hsecond⟩ := refreshOrder_authzs (t.now + t.lag) o' _ ha'
    exact ⟨a'', ha'', refreshedAuthz_trans hfirst hsecond⟩

theorem refreshTwice_orders {t : Tick} {o : AcmeOrder} {db : Db} (ho : db.orders.get? o.id = some o) {id : ℤ}
    {r : AcmeOrder} (hr : db.orders.get? id = some r) :
    ∃ r', (refreshTwice t o db).orders.get? id = some r' ∧ Refreshed db r r' := by
  obtain ⟨r', hr', hfirst⟩ := @refreshOrder_orders t.now o db ho id r hr
  obtain ⟨o', ho', _⟩ := @refreshOrder_orders t.now o db ho o.id o ho
  have hid : o'.id = o.id := Table.key_of_get? ho'
  obtain ⟨r'', hr'', hsecond⟩ := @refreshOrder_orders (t.now + t.lag) o' (refreshOrder t.now o db)
    (by rw [hid]; exact ho') id r' hr'
  unfold refreshTwice
  simp only [ho']
  refine ⟨r'', hr'', refreshed_trans hfirst hsecond ?_⟩
  -- a refresh makes no authorization valid
  intro hvalid a ha
  obtain ⟨hmem, hord⟩ := List.mem_filter.1 ha
  obtain ⟨a', ha', hedge⟩ := refreshOrder_authzs t.now o db (Table.get?_key hmem)
  have horder : a'.orderId = a.orderId := by
    rcases hedge with rfl | ⟨_, rfl⟩ <;> rfl
  have hvalid' : a'.status = .valid :=
    hvalid a' (List.mem_filter.2 ⟨Table.mem_of_get? ha', by rw [horder]; exact hord⟩)
  rcases hedge with rfl | ⟨_, rfl⟩
  · exact hvalid'
  · cases hvalid'

/-- what is known when a request alone stands at a phase -/
def Phase.Fits (f : Finalization) (s : Session) : Phase → Prop
  | .start => True
  | .answered _ before after =>
    before = s.db ∧ (∀ r ∈ s.db.orders, ∃ r', after.orders.get? r.id = some r' ∧ Refreshed s.db r r') ∧
      ∀ a ∈ s.db.authzs, ∃ a', after.authzs.get? a.id = some a' ∧ RefreshedAuthz a a'
  | .checked _ _ => ∀ o, s.db.orders.get? f.orderId = some o →
      o.status = .ready ∨ o.status = .pending ∧ ∀ a ∈ s.db.authorizationsOf o.id, a.status = .valid
  | .issued certId => (∀ o, s.db.orders.get? f.orderId = some o → o.status = .processing) ∧
      ∃ c ∈ s.db.certificates, c.id = certId
  | .ended _ => True
  | _ => ∀ o, s.db.orders.get? f.orderId = some o → o.status = .processing

theorem begin_fits (f : Finalization) (t : Tick) (s : Session) : (begin E f t s.db).Fits f s := by
  unfold begin
  cases hload : loadOrder f.server.ca.id f.accountId f.orderId s.db with
  | error e => trivial
  | ok o =>
    have ho := (loadOrder_ok hload).1
    have hself : s.db.orders.get? o.id = some o := by rw [Table.key_of_get? ho]; exact ho
    have hanswered : ∀ result, (Phase.answered result s.db (refreshTwice t o s.db)).Fits f s := fun _ =>
      ⟨rfl, fun r hr => refreshTwice_orders hself (Table.get?_key hr),
        fun a ha => refreshTwice_authzs t o s.db (Table.get?_key ha)⟩
    simp only
    cases hget : (refreshTwice t o s.db).orders.get? f.orderId with
    | none => trivial
    | some order =>
      simp only
      cases hst : order.status with
      | ready =>
        simp only
        cases checkRequest E f order with
        | error e => exact hanswered _
        | ok csr =>
          intro r hr
          rw [ho] at hr
          cases hr
          obtain ⟨o', ho', hedge⟩ := @refreshTwice_orders t o s.db hself f.orderId o ho
          rw [hget] at ho'
          cases ho'
          rcases hedge with rfl | ⟨_, _, rfl⟩ | ⟨hp, hall, _⟩
          · exact Or.inl hst
          · cases hst
          · exact Or.inr ⟨hp, hall⟩
      | _ => exact hanswered _

/-- the commit of a refresh is a chain of writes -/
theorem chain_flush {before after : Db}
    (horders : ∀ r ∈ s.db.orders, ∃ r', after.orders.get? r.id = some r' ∧ Refreshed s.db r r')
    (hauthzs : ∀ a ∈ s.db.authzs, ∃ a', after.authzs.get? a.id = some a' ∧ RefreshedAuthz a a') (hb : before = s.db) :
    Chain E S s (setDb s (flush before after s.db)) := by
  subst hb
  have hwrite : Write E S s (setDb s { s.db with
      orders := s.db.orders.mapRows (flushOrder s.db after) (flushOrder_id s.db after) }) := by
    refine Write.orders _ _ fun r hr => ?_
    obtain ⟨r', hr', hedge⟩ := horders r hr
    unfold flushOrder
    simp only [Table.get?_key hr, hr']
    split_ifs with hsame
    · exact .same
    · rcases hedge with rfl | ⟨hv, error, rfl⟩ | ⟨hp, hall, rfl⟩
      · exact absurd rfl hsame
      · exact .fail hv
      · exact .ready hp hall
  refine Relation.ReflTransGen.tail (.single hwrite) ?_
  refine Write.authzs (flushAuthz s.db after) (flushAuthz_id s.db after) fun a ha => ?_
  have hmem : a ∈ s.db.authzs := ha
  obtain ⟨a', ha', hedge⟩ := hauthzs a hmem
  unfold flushAuthz
  simp only [Table.get?_key hmem, ha']
  split_ifs with hsame
  · exact .same
  · rcases hedge with rfl | ⟨hp, rfl⟩
    · exact absurd rfl hsame
    · exact .close hp rfl

/-- the CSR and certificate tables are not what orders depend on -/
theorem chain_rest {db : Db} (ho : db.orders = s.db.orders) (ha : db.authzs = s.db.authzs)
    (hc : db.challenges = s.db.challenges) (hacc : db.accounts = s.db.accounts)
    (hcerts : CertificatesKept s.db.certificates db.certificates) : Chain E S s (setDb s db) :=
  .single (Write.rest db ho ha hc (by rw [hacc]; exact Moves.refl _) hcerts)

/-- **A step of a finalize request** is a chain of writes, and keeps what is known at its phase. -/
theorem advance_chain {f : Finalization} {t : Tick} {p : Phase} (hp : p.Fits f s) :
    Chain E S s (advance E f t s p).1 ∧ (advance E f t s p).2.Fits f (advance E f t s p).1 := by
  cases p with
  | start => exact ⟨.refl, begin_fits f t s⟩
  | answered result before after =>
    simp only [advance]
    by_cases hkeep : keepsAnswer result = true
    · rw [if_pos hkeep]
      exact ⟨chain_flush hp.2.1 hp.2.2 hp.1, trivial⟩
    · rw [if_neg hkeep]
      exact ⟨.refl, trivial⟩
  | checked csr wanted =>
    simp only [advance]
    cases t.fault with
    | some e => exact ⟨.refl, trivial⟩
    | none =>
      refine ⟨.single (Write.updateOrder fun o ho => .process (hp o ho)), fun o' ho' => ?_⟩
      rw [setDb_db] at ho'
      unfold Db.updateOrder at ho'
      rw [Table.get?_update_self] at ho'
      obtain ⟨o, _, rfl⟩ := Option.map_eq_some_iff.1 ho'
      rfl
  | processing csr wanted =>
    simp only [advance]
    cases hi : t.guard (importRow f s.db) with
    | error e => exact ⟨.refl, hp⟩
    | ok r =>
      obtain ⟨db, csrId⟩ := r
      obtain ⟨csr', _, rfl, _⟩ := importRow_ok (guard_ok.1 hi).1
      exact ⟨chain_rest rfl rfl rfl rfl (certificatesKept_refl _), hp⟩
  | imported csrId csr wanted =>
    simp only [advance]
    cases hi : t.guard (renameRow f csrId csr wanted s.db) with
    | error e => exact ⟨.refl, hp⟩
    | ok db =>
      obtain ⟨cn, _, rfl⟩ := renameRow_ok (guard_ok.1 hi).1
      exact ⟨chain_rest rfl rfl rfl rfl (certificatesKept_refl _), hp⟩
  | named csrId =>
    simp only [advance]
    cases f.urls with
    | error e => exact ⟨.refl, hp⟩
    | ok u =>
      have hsigning : Chain E S s (s.recordSigning f.orderId) := by
        unfold Session.recordSigning
        cases ho : s.db.orders.get? f.orderId with
        | none => exact .refl
        | some o => exact .single (Write.signing o (Table.mem_of_get? ho) (hp o ho))
      have hfits : ∀ o, (s.recordSigning f.orderId).db.orders.get? f.orderId = some o → o.status = .processing := by
        rw [Session.recordSigning_db]
        exact hp
      simp only [Session.recordSigning_db]
      cases checkRow f csrId s.db with
      | error e => exact ⟨hsigning, hfits⟩
      | ok u =>
        simp only
        cases hc : t.guard (claimRow csrId s.db) with
        | error e => exact ⟨hsigning, hfits⟩
        | ok db =>
          obtain ⟨row, _, _, rfl⟩ := claimRow_ok (guard_ok.1 hc).1
          refine ⟨hsigning.trans (chain_rest ?_ ?_ ?_ ?_ ?_), hp⟩ <;> rw [Session.recordSigning_db]
          exacts [rfl, rfl, rfl, rfl, certificatesKept_refl _]
  | claimed csrId =>
    simp only [advance]
    cases hi : t.guard (signRow f csrId t.now s.db) with
    | error e => exact ⟨.refl, hp⟩
    | ok r =>
      obtain ⟨db, certId⟩ := r
      obtain ⟨row, issued, _, _, rfl, hcert⟩ := signRow_ok (guard_ok.1 hi).1
      have hkept : CertificatesKept s.db.certificates (persist f.server.ca.id csrId issued s.db).certificates :=
        fun c hc => ⟨c, Table.mem_insert.2 (Or.inl hc), rfl⟩
      refine ⟨chain_rest rfl rfl rfl rfl hkept, hp, ?_⟩
      rw [hcert]
      exact ⟨_, Table.mem_insert.2 (Or.inr rfl), rfl⟩
  | issued certId =>
    simp only [advance]
    cases t.fault with
    | some e => exact ⟨.refl, trivial⟩
    | none =>
      refine ⟨?_, trivial⟩
      have hkept : CertificatesKept s.db.certificates (s.db.certificates.update certId (markAcme f.accountId)) :=
        fun c hc => by
          by_cases hid : c.id = certId
          · exact ⟨markAcme f.accountId c, by rw [← hid]; exact Table.mem_update_self hc, rfl⟩
          · exact ⟨c, Table.mem_update_of_ne hc hid, rfl⟩
      have hmark : Write E S s (setDb s { s.db with
          certificates := s.db.certificates.update certId (markAcme f.accountId) }) :=
        Write.rest _ rfl rfl rfl (Moves.refl _) hkept
      obtain ⟨hstatus, c, hc, hid⟩ := hp
      obtain ⟨c', hc', hid'⟩ := hkept c hc
      refine Relation.ReflTransGen.tail (.single hmark) (Write.updateOrder fun o ho => ?_)
      have hlink := @OrderEdge.link { s.db with
          certificates := s.db.certificates.update certId (markAcme f.accountId) } o c' (some t.now) (hstatus o ho) hc'
      rw [hid', hid] at hlink
      exact hlink
  | releasing csrId e =>
    simp only [advance]
    cases t.fault with
    | some e' => exact ⟨.refl, hp⟩
    | none => exact ⟨chain_rest rfl rfl rfl rfl (certificatesKept_refl _), hp⟩
  | failing e =>
    simp only [advance]
    split_ifs
    · cases t.fault with
      | some e' => exact ⟨.refl, trivial⟩
      | none => exact ⟨.single (Write.updateOrder fun o ho => .fail (by rw [hp o ho]; decide)), trivial⟩
    · exact ⟨.refl, trivial⟩
  | ended result => exact ⟨.refl, trivial⟩

theorem chain_drive {f : Finalization} {plan : Phase → Tick} {n : ℕ} {p : Phase} (hp : p.Fits f s) :
    Chain E S s (drive E f plan n (s, p)).1 := by
  induction n generalizing s p with
  | zero => exact .refl
  | succ n ih =>
    obtain ⟨hstep, hfits⟩ := @advance_chain E S s f (plan p) p hp
    exact hstep.trans (ih hfits)

/-- `finalize` alone is a chain of writes, wherever it fails -/
theorem chain_finalize (f : Finalization) (plan : Phase → Tick) : Chain E S s (finalize E f plan s).1 :=
  chain_drive trivial

end Chancery.Acme
