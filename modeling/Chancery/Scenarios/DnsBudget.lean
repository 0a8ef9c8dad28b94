/-
Is the retry budget of a dns-01 challenge kept.

A lookup is made by three requests: the client's word that the challenge is provisioned, a poll of the challenge and a
poll of its authorization. Each of them counts it in the row and writes down when the next one is due; what the log says
is compared with the row.

(1) `Budget`: what the log and the rows have to do with each other. The budget is the number of lookups (`maxAttempts`) and
the time between them (`retryAfter`).
(2) One request: `budget_handle`, it keeps the budget unless it is interrupted (`Interrupted`): its poll makes the lookup
that is due, the fetch of the http-01 challenge it answers raises, and the rollback takes the count away. `made_handle`: it
makes at most one lookup in its poll and one after it, each for a challenge that is open at that moment (`Open`).
(3) `budget_run`: in every run without an interrupted request, every dns-01 challenge is within its budget and not stuck.
(4) `interrupted_lookups_uncounted`: with interrupted requests, a challenge with three lookups gets four, three of them at
one time.
-/
import Mathlib.Tactic
import Chancery.Scenarios.AcmeAccountKeys
import Chancery.Scenarios.AcmeControl

namespace Chancery.Acme.DnsBudget

open Chancery.Core ControlOfNames CertificateNames

/-! ## The lookups of a log -/

/-- the dns-01 lookups -/
def dnsAttempts (log : List Event) : List Attempt :=
  log.filterMap fun
    | .attempt e => if e.type = .dns01 then some e else none
    | .signing _ _ => none

/-- when the lookups for a challenge were made -/
def lookups (log : List Event) (challengeId : ℤ) : List DateTime :=
  ((dnsAttempts log).filter (·.challengeId = challengeId)).map Attempt.time

/-- `max(1, ACME_DNS01_MAX_ATTEMPTS)` -/
def maxAttempts (cfg : Config) : ℤ := max 1 cfg.dns01MaxAttempts

/-- `max(1, ACME_DNS01_RETRY_SECONDS)` -/
def retryAfter (cfg : Config) : DateTime := max 1 cfg.dns01RetrySeconds * second

/-- the lookups of a list are some time apart -/
def Spaced (cfg : Config) (times : List DateTime) : Prop := times.IsChain fun t u => t + retryAfter cfg ≤ u

theorem dnsAttempts_snoc_dns {log : List Event} {e : Attempt} (h : e.type = .dns01) :
    dnsAttempts (log ++ [.attempt e]) = dnsAttempts log ++ [e] := by simp [dnsAttempts, h]

theorem dnsAttempts_snoc_http {log : List Event} {e : Attempt} (h : e.type = .http01) :
    dnsAttempts (log ++ [.attempt e]) = dnsAttempts log := by simp [dnsAttempts, h]

theorem lookups_congr {log log' : List Event} (h : dnsAttempts log' = dnsAttempts log) (id : ℤ) :
    lookups log' id = lookups log id := by rw [lookups, lookups, h]

theorem lookups_snoc {log log' : List Event} {e : Attempt} (h : dnsAttempts log' = dnsAttempts log ++ [e]) (id : ℤ) :
    lookups log' id = lookups log id ++ if e.challengeId = id then [e.time] else [] := by
  rw [lookups, lookups, h, List.filter_append, List.map_append]
  split_ifs with hid <;> simp [hid]

theorem spaced_snoc {cfg : Config} {times : List DateTime} {now : DateTime} (h : Spaced cfg times)
    (hlast : ∀ t ∈ times, t + retryAfter cfg ≤ now) : Spaced cfg (times ++ [now]) := by
  refine List.isChain_append.2 ⟨h, List.isChain_singleton now, fun t ht u hu => ?_⟩
  obtain rfl : now = u := by simpa using hu
  exact hlast t (List.mem_of_getLast? ht)

/-! ## What every chain of writes keeps -/

section Chains

variable {E : Env} {s t : Session}

/-- challenges stay -/
theorem chain_challenge (h : Chain E Set.univ s t) {c : AcmeChallenge} (hc : c ∈ s.db.challenges) :
    ∃ c' ∈ t.db.challenges, c'.id = c.id := by
  induction h with
  | refl => exact ⟨c, hc, rfl⟩
  | tail _ hw ih =>
    obtain ⟨c', hc', hid⟩ := ih
    cases hw with
    | challenges f hf hedge => exact ⟨f c', List.mem_map_of_mem hc', (hf c').trans hid⟩
    | newOrder srv accountId identifiers expires _ => exact ⟨c', added_addAuthorizations.keepsChallenges c' hc', hid⟩
    | rest db _ _ hsame => exact ⟨c', hsame ▸ hc', hid⟩
    | _ => exact ⟨c', hc', hid⟩

/-- authorizations stay, keep their name and their end, and are pending only as long as they were -/
theorem chain_authz (h : Chain E Set.univ s t) {a : AcmeAuthorization} (ha : a ∈ s.db.authzs) :
    ∃ a' ∈ t.db.authzs, a'.id = a.id ∧ a'.identifierValue = a.identifierValue ∧ a'.expires = a.expires ∧
      (a'.status = .pending → a.status = .pending) := by
  induction h with
  | refl => exact ⟨a, ha, rfl, rfl, rfl, id⟩
  | tail _ hw ih =>
    obtain ⟨a', ha', hid, hvalue, hexp, hp⟩ := ih
    cases hw with
    | authzs f hf hedge =>
      have hedge := hedge a' ha'
      obtain ⟨hkid, _, _, hkvalue, _, hkexp⟩ := authzEdge_keeps hedge
      refine ⟨f a', List.mem_map_of_mem ha', hkid.trans hid, hkvalue.trans hvalue, hkexp.trans hexp, fun hst => hp ?_⟩
      generalize f a' = b at hedge hst
      cases hedge with
      | same => exact hst
      | close hpending _ => exact hpending
      | pass hpending _ _ _ => exact hpending
    | newOrder srv accountId identifiers expires _ =>
      exact ⟨a', added_addAuthorizations.keepsAuthzs a' ha', hid, hvalue, hexp, hp⟩
    | rest db _ hsame _ => exact ⟨a', hsame ▸ ha', hid, hvalue, hexp, hp⟩
    | _ => exact ⟨a', ha', hid, hvalue, hexp, hp⟩

/-- an authorization that is pending was pending -/
theorem pending_before (h : Chain E Set.univ s t) {a a' : AcmeAuthorization} (ha : a ∈ s.db.authzs) (ha' : a' ∈ t.db.authzs)
    (hid : a'.id = a.id) (hp : a'.status = .pending) :
    a.status = .pending ∧ a'.identifierValue = a.identifierValue ∧ a'.expires = a.expires := by
  obtain ⟨b, hb, hbid, hvalue, hexp, hpending⟩ := chain_authz h ha
  obtain rfl : b = a' := Table.eq_of_key hb ha' (hbid.trans hid.symm)
  exact ⟨hpending hp, hvalue, hexp⟩

end Chains

/-! ## (1) The budget of a challenge -/

/-- a challenge within its budget -/
structure Within (cfg : Config) (s : Session) (c : AcmeChallenge) : Prop where
  counted : (lookups s.log c.id).length = c.attempts
  bounded : c.attempts ≤ maxAttempts cfg
  spaced : Spaced cfg (lookups s.log c.id)
  fresh : c.status = .pending → c.attempts = 0
  /-- as long as its authorization is pending, another lookup is due at some time, and allowed then -/
  waiting : c.status = .processing → ∀ a ∈ s.db.authzs, a.id = c.authorizationId → a.status = .pending →
    ∃ next, c.nextAttemptAt = some next ∧ c.attempts < maxAttempts cfg ∧
      ∀ t ∈ lookups s.log c.id, t + retryAfter cfg ≤ next

structure Budget (cfg : Config) (s : Session) : Prop where
  within : ∀ c ∈ s.db.challenges, c.type = .dns01 → Within cfg s c
  known : ∀ id, lookups s.log id ≠ [] → ∃ c ∈ s.db.challenges, c.id = id

section Budget

variable {E : Env} {cfg : Config} {s t : Session} {c r : AcmeChallenge}

theorem Budget.init (db : Db) (h : db.challenges = Table.empty) : Budget cfg ⟨db, []⟩ where
  within c hc := absurd (h ▸ hc) (Table.not_mem_empty c)
  known _ hne := absurd rfl hne

/-- a challenge keeps its row and its lookups -/
theorem Within.same (h : Within cfg s c) (hctl : Controlled E s) (hc : c ∈ s.db.challenges) (hchain : Chain E Set.univ s t)
    (hlookups : lookups t.log c.id = lookups s.log c.id) : Within cfg t c := by
  refine ⟨hlookups ▸ h.counted, h.bounded, hlookups ▸ h.spaced, h.fresh, fun hst a' ha' hid hp => ?_⟩
  obtain ⟨a, ha, haid, _⟩ := hctl.rows.offered c hc
  obtain ⟨hpending, _⟩ := pending_before hchain ha ha' (hid.trans haid.symm) hp
  rw [hlookups]
  exact h.waiting hst a ha haid hpending

/-- a new row of a dns-01 challenge -/
def Fresh (s : Session) (r : AcmeChallenge) : Prop := r.status = .pending ∧ r.attempts = 0 ∧ s.db.challenges.nextKey ≤ r.id

/-- writes that neither touch a dns-01 challenge nor log a lookup -/
theorem Budget.quiet (h : Budget cfg s) (hctl : Controlled E s) (hchain : Chain E Set.univ s t)
    (hrows : ∀ r ∈ t.db.challenges, r.type = .dns01 → r ∈ s.db.challenges ∨ Fresh s r)
    (hlog : dnsAttempts t.log = dnsAttempts s.log) : Budget cfg t := by
  have hlookups := lookups_congr hlog
  constructor
  · intro r hr htype
    rcases hrows r hr htype with hold | ⟨hpending, hzero, hkey⟩
    · exact (h.within r hold htype).same hctl hold hchain (hlookups r.id)
    · -- nothing was looked up for a challenge that was not there
      have hnone : lookups t.log r.id = [] := by
        rw [hlookups]
        by_contra hne
        obtain ⟨c, hc, hid⟩ := h.known r.id hne
        have hlt := Table.key_lt_nextKey hc
        omega
      refine ⟨by rw [hnone, hzero]; rfl, ?_, by rw [hnone]; exact .nil, fun _ => hzero, fun hst => ?_⟩
      · rw [hzero]
        exact le_trans (by decide) (le_max_left 1 cfg.dns01MaxAttempts)
      · rw [hpending] at hst
        cases hst
  · intro id hne
    obtain ⟨c, hc, hid⟩ := h.known id (hlookups id ▸ hne)
    obtain ⟨c', hc', hid'⟩ := chain_challenge hchain hc
    exact ⟨c', hc', hid'.trans hid⟩

/-- the row of a challenge after a lookup -/
structure Tried (cfg : Config) (now : DateTime) (c r : AcmeChallenge) : Prop where
  id : r.id = c.id
  type : r.type = c.type
  attempts : r.attempts = c.attempts + 1
  tried : r.status ≠ .pending
  again : r.status = .processing → r.attempts < maxAttempts cfg ∧ r.nextAttemptAt = some (now + retryAfter cfg)

/-- may another lookup be made for the challenge -/
def Allowed (cfg : Config) (s : Session) (now : DateTime) (c : AcmeChallenge) : Prop :=
  c.attempts < maxAttempts cfg ∧ ∀ t ∈ lookups s.log c.id, t + retryAfter cfg ≤ now

/-- one lookup, of a challenge that it is allowed for -/
theorem Budget.tried (h : Budget cfg s) (hctl : Controlled E s) (hchain : Chain E Set.univ s t) {e : Attempt}
    {now : DateTime}
    (hc : c ∈ s.db.challenges) (htype : c.type = .dns01) (hallowed : Allowed cfg s now c)
    (hrows : ∀ r ∈ t.db.challenges, (r ∈ s.db.challenges ∧ r.id ≠ c.id) ∨ Tried cfg now c r)
    (hlog : dnsAttempts t.log = dnsAttempts s.log ++ [e]) (hid : e.challengeId = c.id) (htime : e.time = now) :
    Budget cfg t := by
  have hlookups := lookups_snoc hlog
  have hother : ∀ id, id ≠ c.id → lookups t.log id = lookups s.log id := by
    intro id hne
    rw [hlookups, hid, if_neg (Ne.symm hne), List.append_nil]
  have hself : lookups t.log c.id = lookups s.log c.id ++ [now] := by rw [hlookups, if_pos hid, htime]
  have hbefore := h.within c hc htype
  constructor
  · intro r hr hrtype
    rcases hrows r hr with ⟨hold, hne⟩ | htried
    · exact (h.within r hold hrtype).same hctl hold hchain (hother r.id hne)
    · have hlast : ∀ u ∈ lookups s.log c.id ++ [now], u + retryAfter cfg ≤ now + retryAfter cfg := by
        intro u hu
        rcases List.mem_append.1 hu with hu | hu
        · have hretry : 0 ≤ retryAfter cfg := mul_nonneg (le_trans (by decide) (le_max_left 1 _)) (by decide)
          linarith [hallowed.2 u hu]
        · rw [List.mem_singleton.1 hu]
      have hattempts := htried.attempts
      have hlt := hallowed.1
      refine ⟨?_, by omega, ?_, fun hst => absurd hst htried.tried, fun hst a _ _ _ => ?_⟩
      · rw [htried.id, hself, List.length_append, hattempts, ← hbefore.counted]
        rfl
      · rw [htried.id, hself]
        exact spaced_snoc hbefore.spaced hallowed.2
      · obtain ⟨hmore, hnext⟩ := htried.again hst
        exact ⟨_, hnext, hmore, by rw [htried.id, hself]; exact hlast⟩
  · intro id hne
    by_cases heq : id = c.id
    · obtain ⟨c', hc', hid'⟩ := chain_challenge hchain hc
      exact ⟨c', hc', hid'.trans heq.symm⟩
    · obtain ⟨d, hd, hdid⟩ := h.known id (hother id heq ▸ hne)
      obtain ⟨d', hd', hid'⟩ := chain_challenge hchain hd
      exact ⟨d', hd', hid'.trans hdid⟩

end Budget

/-! ## One attempt -/

section Attempts

variable {E : Env} {srv : Server} {cfg : Config} {now : DateTime} {account : AcmeAccount} {c r : AcmeChallenge}
  {a a' : AcmeAuthorization} {s t : Session} {db : Db} {v : Validation}

theorem mem_updateChallenge {id : ℤ} {f : AcmeChallenge → AcmeChallenge} {hf : ∀ c, (f c).id = c.id}
    (h : r ∈ (db.updateChallenge id f hf).challenges) :
    (r ∈ db.challenges ∧ r.id ≠ id) ∨ ∃ c ∈ db.challenges, c.id = id ∧ r = f c := by
  have hrow : r ∈ db.challenges.update id f hf := h
  obtain ⟨c, hc, rfl⟩ := Table.mem_update.1 hrow
  by_cases hid : c.id = id
  · exact .inr ⟨c, hc, hid, if_pos hid⟩
  · rw [if_neg hid]
    exact .inl ⟨hc, hid⟩

theorem mem_settle {ok : Bool} {errorType detail : String} (h : r ∈ (settle now c a ok errorType detail db).challenges) :
    (r ∈ db.challenges ∧ r.id ≠ c.id) ∨
      ∃ d ∈ db.challenges, d.id = c.id ∧ (r = d.pass now ∨ ∃ e, r = d.fail e) := by
  unfold settle at h
  split_ifs at h
  · have hrow : r ∈ (db.updateChallenge c.id (AcmeChallenge.pass now)).challenges := h
    rcases mem_updateChallenge hrow with hold | ⟨d, hd, hid, rfl⟩
    · exact .inl hold
    · exact .inr ⟨d, hd, hid, .inl rfl⟩
  · have hrow : r ∈ (db.updateChallenge c.id (AcmeChallenge.fail (errorObject errorType detail))).challenges := h
    rcases mem_updateChallenge hrow with hold | ⟨d, hd, hid, rfl⟩
    · exact .inl hold
    · exact .inr ⟨d, hd, hid, .inr ⟨_, rfl⟩⟩

/-- what a lookup leaves of the rows -/
theorem mem_settleDns01 (hc : db.challenges.get? c.id = some c) (hproc : c.status = .processing)
    (h : r ∈ (settleDns01 cfg now c a v db).challenges) :
    (r ∈ db.challenges ∧ r.id ≠ c.id) ∨ Tried cfg now c r := by
  have hcount : ∀ {next} {d : AcmeChallenge}, d ∈ (db.updateChallenge c.id (AcmeChallenge.count next)).challenges →
      (d ∈ db.challenges ∧ d.id ≠ c.id) ∨ d = c.count next := by
    intro next d hd
    rcases mem_updateChallenge hd with hold | ⟨c', hc', hid, rfl⟩
    · exact .inl hold
    · rw [Table.eq_of_key hc' (Table.mem_of_get? hc) hid]
      exact .inr rfl
  have hsettled : ∀ {next ok errorType detail},
      r ∈ (settle now c a ok errorType detail (db.updateChallenge c.id (AcmeChallenge.count next))).challenges →
      (r ∈ db.challenges ∧ r.id ≠ c.id) ∨ Tried cfg now c r := by
    intro next ok errorType detail hr
    rcases mem_settle hr with ⟨hold, hne⟩ | ⟨d, hd, hid, hfinal⟩
    · rcases hcount hold with hold | rfl
      · exact .inl hold
      · exact absurd rfl hne
    · rcases hcount hd with ⟨_, hne⟩ | rfl
      · exact absurd hid hne
      · right
        rcases hfinal with rfl | ⟨e, rfl⟩
        · exact ⟨rfl, rfl, rfl, nofun, nofun⟩
        · exact ⟨rfl, rfl, rfl, nofun, nofun⟩
  unfold settleDns01 at h
  simp only at h
  split_ifs at h with hok hagain
  · exact hsettled h
  · rcases mem_updateChallenge h with ⟨hold, hne⟩ | ⟨d, hd, hid, rfl⟩
    · rcases hcount hold with hold | rfl
      · exact .inl hold
      · exact absurd rfl hne
    · rcases hcount hd with ⟨_, hne⟩ | rfl
      · exact absurd hid hne
      · have hp : c.status ≠ .pending := by
          rw [hproc]
          decide
        exact .inr ⟨rfl, rfl, rfl, hp, fun _ => ⟨hagain.1, rfl⟩⟩
  · exact hsettled h

theorem settle_authz {ok : Bool} {errorType detail : String} (ha : db.authzs.get? a.id = some a) :
    ∃ a', (settle now c a ok errorType detail db).authzs.get? a.id = some a' ∧ a'.status ≠ .pending := by
  unfold settle
  split_ifs
  · exact ⟨a.setStatus .valid, @Db.updateAuthz_self (db.updateChallenge c.id (AcmeChallenge.pass now)) a.id
      (AcmeAuthorization.setStatus .valid) (fun _ => rfl) a ha, by simp [AcmeAuthorization.setStatus]⟩
  · exact ⟨a.setStatus .invalid, @Db.updateAuthz_self
      (db.updateChallenge c.id (AcmeChallenge.fail (errorObject errorType detail))) a.id
      (AcmeAuthorization.setStatus .invalid) (fun _ => rfl) a ha, by simp [AcmeAuthorization.setStatus]⟩

/-- an authorization that is pending after a lookup: the lookup missed, and another one is to follow -/
theorem settleDns01_authz (ha : db.authzs.get? a.id = some a) :
    ∃ a', (settleDns01 cfg now c a v db).authzs.get? a.id = some a' ∧ (a'.status = .pending →
      v.ok = false ∧ c.attempts + 1 < maxAttempts cfg ∧ now + retryAfter cfg < a.expires) := by
  have hsettled : ∀ {ok errorType detail}, ∃ a',
      (settle now c a ok errorType detail (db.updateChallenge c.id (AcmeChallenge.count none))).authzs.get? a.id = some a' ∧
        (a'.status = .pending → v.ok = false ∧ c.attempts + 1 < maxAttempts cfg ∧ now + retryAfter cfg < a.expires) := by
    intro ok errorType detail
    obtain ⟨a', ha', hne⟩ := @settle_authz now c a (db.updateChallenge c.id (AcmeChallenge.count none)) ok errorType
      detail ha
    exact ⟨a', ha', fun hp => absurd hp hne⟩
  unfold settleDns01
  simp only
  split_ifs with hok hagain
  · exact hsettled
  · exact ⟨a, ha, fun _ => ⟨by simpa using hok, hagain⟩⟩
  · exact hsettled

theorem settle_orders (ok : Bool) (errorType detail : String) : (settle now c a ok errorType detail db).orders =
    db.orders := by
  unfold settle
  split_ifs <;> rfl

theorem settleDns01_orders : (settleDns01 cfg now c a v db).orders = db.orders := by
  unfold settleDns01
  simp only
  split_ifs
  · exact settle_orders true "" ""
  · rfl
  · exact settle_orders false _ _

theorem refreshOrder_challenges (now : DateTime) (o : AcmeOrder) (db : Db) :
    (refreshOrder now o db).challenges = db.challenges := by
  rcases refreshOrder_cases now o db with ⟨_, h⟩ | ⟨_, h⟩ | ⟨_, h⟩ | ⟨_, _, h⟩ | ⟨_, h⟩ <;> rw [h] <;> rfl

/-- the order of an authorization is there -/
theorem refreshOrderOf_ok (hctl : Controlled E s) (ha : a ∈ s.db.authzs) (horders : db.orders = s.db.orders) :
    ∃ o, s.db.orders.get? a.orderId = some o ∧ refreshOrderOf now a db = .ok (refreshOrder now o db) := by
  obtain ⟨o, ho, hid, _⟩ := hctl.rows.owned a ha
  have hget : s.db.orders.get? a.orderId = some o := by
    rw [← hid]
    exact Table.get?_key ho
  refine ⟨o, hget, ?_⟩
  unfold refreshOrderOf
  rw [horders, hget]

end Attempts

/-! ## (2) One request -/

/-- a lookup that the state is open for -/
def Open (s : Session) (e : Attempt) : Prop :=
  ∃ c ∈ s.db.challenges, ∃ a ∈ s.db.authzs, c.id = e.challengeId ∧ c.type = .dns01 ∧
    (c.status = .pending ∨ c.status = .processing) ∧ a.id = c.authorizationId ∧ a.status = .pending ∧ e.time < a.expires

/-- no lookup is made between two states, or one that is open in the first -/
def Made (s t : Session) : Prop :=
  ∃ made, dnsAttempts t.log = dnsAttempts s.log ++ made ∧ made.length ≤ 1 ∧ ∀ e ∈ made, Open s e

/-- every account has the key that its thumbprint is made of -/
def Keyed (E : Env) (accounts : AccountTable) : Prop := ∀ account ∈ accounts, ∃ tp, thumbprint E account.jwk = .ok tp

/-- writes that leave the dns-01 challenges alone -/
structure Quiet (E : Env) (s t : Session) : Prop where
  chain : Chain E Set.univ s t
  rows : ∀ r ∈ t.db.challenges, r.type = .dns01 → r ∈ s.db.challenges
  log : dnsAttempts t.log = dnsAttempts s.log
  accounts : t.db.accounts = s.db.accounts

/-- writes that make one lookup -/
structure Looked (E : Env) (cfg : Config) (now : DateTime) (s t : Session) (c : AcmeChallenge) (a : AcmeAuthorization)
    (e : Attempt) : Prop where
  chain : Chain E Set.univ s t
  challenge : c ∈ s.db.challenges
  type : c.type = .dns01
  authz : a ∈ s.db.authzs
  belongs : a.id = c.authorizationId
  pending : a.status = .pending
  live : now < a.expires
  rows : ∀ r ∈ t.db.challenges, (r ∈ s.db.challenges ∧ r.id ≠ c.id) ∨ Tried cfg now c r
  log : dnsAttempts t.log = dnsAttempts s.log ++ [e]
  id : e.challengeId = c.id
  time : e.time = now
  accounts : t.db.accounts = s.db.accounts

section Served

variable {E : Env} {srv : Server} {cfg : Config} {now : DateTime} {s t : Session} {c : AcmeChallenge}
  {a : AcmeAuthorization}
  {e : Attempt}

theorem Quiet.refl (s : Session) : Quiet E s s := ⟨.refl, fun _ hr _ => hr, rfl, rfl⟩

theorem Quiet.of_challenges (hchain : Chain E Set.univ s t) (hc : t.db.challenges = s.db.challenges) (hlog : t.log = s.log)
    (haccounts : t.db.accounts = s.db.accounts) : Quiet E s t := ⟨hchain, fun _ hr _ => hc ▸ hr, by rw [hlog], haccounts⟩

theorem Quiet.budget (h : Quiet E s t) (hctl : Controlled E s) (hb : Budget cfg s) : Budget cfg t :=
  hb.quiet hctl h.chain (fun r hr htype => .inl (h.rows r hr htype)) h.log

theorem Looked.isOpen (h : Looked E cfg now s t c a e) (hst : c.status = .pending ∨ c.status = .processing) : Open s e :=
  ⟨c, h.challenge, a, h.authz, h.id.symm, h.type, hst, h.belongs, h.pending, h.time ▸ h.live⟩

/-- a lookup that answers a pending challenge -/
theorem Looked.budget_first (h : Looked E cfg now s t c a e) (hctl : Controlled E s) (hb : Budget cfg s)
    (hst : c.status = .pending) : Budget cfg t := by
  have hwithin := hb.within c h.challenge h.type
  have hzero := hwithin.fresh hst
  have hnone : lookups s.log c.id = [] := List.eq_nil_of_length_eq_zero (by have hcounted := hwithin.counted; omega)
  refine hb.tried hctl h.chain h.challenge h.type ⟨?_, by simp [hnone]⟩ h.rows h.log h.id h.time
  rw [hzero]
  exact lt_of_lt_of_le zero_lt_one (le_max_left 1 cfg.dns01MaxAttempts)

/-- a lookup that was due -/
theorem Looked.budget_due (h : Looked E cfg now s t c a e) (hctl : Controlled E s) (hb : Budget cfg s)
    (hdue : c.due now = true) : Budget cfg t := by
  have hwithin := hb.within c h.challenge h.type
  simp only [AcmeChallenge.due, Bool.and_eq_true, decide_eq_true_eq] at hdue
  obtain ⟨next, hnext, hmore, hlater⟩ := hwithin.waiting hdue.1.2 a h.authz h.belongs h.pending
  have hle : next ≤ now := by simpa [hnext] using hdue.2
  exact hb.tried hctl h.chain h.challenge h.type ⟨hmore, fun t ht => le_trans (hlater t ht) hle⟩ h.rows h.log h.id h.time

theorem keyAuthorization_ok (hk : Keyed E s.db.accounts) {accountId : ℤ} {account : AcmeAccount}
    (h : s.db.accounts.get? accountId = some account) (token : Text) :
    ∃ authorization, keyAuthorization E token account.jwk = .ok authorization := by
  obtain ⟨tp, htp⟩ := hk account (Table.mem_of_get? h)
  exact ⟨_, bind_eq_ok.2 ⟨tp, htp, rfl⟩⟩

/-! ### Polls -/

/-- the end of an attempt: the order of the authorization is refreshed -/
theorem attempt_refresh {x : Result Session} {s₁ : Session} {db : Db} (hx : x = .ok s₁)
    (hrefresh : refreshOrderOf now a s₁.db = .ok db) :
    (do
      let s ← s.try x
      let db ← s.try (refreshOrderOf now a s.db)
      .ok (setDb s db) : Outcome) = .ok (setDb s₁ db) := by
  subst hx
  simp [Session.try, bind, Except.bind, hrefresh]

/-- the session after a lookup, before the order is refreshed -/
def afterLookup (srv : Server) (now : DateTime) (c : AcmeChallenge) (a : AcmeAuthorization) (v : Validation) (s : Session) :
    Session :=
  setDb (s.record (.attempt ⟨now, c.id, .dns01, srv, v.asked, s.db.accounts⟩))
    (settleDns01 srv.config now c a v s.db)

theorem attemptDns01_ok {account : AcmeAccount} (h : attemptDns01 E srv now account c a s = .ok t) :
    ∃ authorization v, keyAuthorization E c.token account.jwk = .ok authorization ∧
      dns01Validate srv.net a.identifierValue (txtValue E authorization) = .ok v ∧ t = afterLookup srv now c a v s := by
  obtain ⟨authorization, hauth, h⟩ := bind_eq_ok.1 h
  obtain ⟨v, hv, h⟩ := bind_eq_ok.1 h
  cases h
  refine ⟨authorization, v, hauth, ?_, rfl⟩
  cases hvalidate : dns01Validate srv.net a.identifierValue (txtValue E authorization) with
  | error x =>
    rw [hvalidate] at hv
    cases hv
  | ok w =>
    rw [hvalidate] at hv
    cases hv
    rfl

/-- a lookup raises when the list of resolvers does -/
theorem attemptDns01_error {account : AcmeAccount} {authorization : Text} {x : Exc}
    (hauth : keyAuthorization E c.token account.jwk = .ok authorization)
    (h : attemptDns01 E srv now account c a s = .error x) : ∃ y, srv.net.resolvers = .error y ∧ x = .py y := by
  unfold attemptDns01 dns01Validate at h
  rw [hauth] at h
  cases hres : srv.net.resolvers with
  | error y =>
    rw [hres] at h
    cases h
    exact ⟨y, rfl, rfl⟩
  | ok rs =>
    rw [hres] at h
    cases rs <;> cases h

theorem resolvers_of_validate {value expected : Text} {v : Validation} (h : dns01Validate srv.net value expected = .ok v)
    (y : PyError) : srv.net.resolvers ≠ .error y := by
  intro hres
  unfold dns01Validate at h
  rw [hres] at h
  cases h

/-- a lookup and the refresh that follows it, from a session in which the challenge is processing -/
theorem looked_of_attempt {s₀ : Session} {o : AcmeOrder} {v : Validation} (hc₀ : c ∈ s₀.db.challenges)
    (hother : ∀ r ∈ s.db.challenges, r.id ≠ c.id → r ∈ s₀.db.challenges) {c₁ : AcmeChallenge}
    (hc₁ : s.db.challenges.get? c₁.id = some c₁) (hproc : c₁.status = .processing)
    (hid : c₁.id = c.id) (hctype : c₁.type = c.type) (hattempts : c₁.attempts = c.attempts)
    (hlog : dnsAttempts s.log = dnsAttempts s₀.log) (haccounts : s.db.accounts = s₀.db.accounts)
    (htype : c.type = .dns01) (ha : a ∈ s₀.db.authzs)
    (hca : a.id = c.authorizationId) (hp : a.status = .pending) (hlive : now < a.expires)
    (hchain : Chain E Set.univ s₀
      (setDb (afterLookup srv now c₁ a v s) (refreshOrder now o (afterLookup srv now c₁ a v s).db))) :
    Looked E srv.config now s₀
      (setDb (afterLookup srv now c₁ a v s) (refreshOrder now o (afterLookup srv now c₁ a v s).db)) c a
      ⟨now, c₁.id, .dns01, srv, v.asked, s.db.accounts⟩ where
  chain := hchain
  challenge := hc₀
  type := htype
  authz := ha
  belongs := hca
  pending := hp
  live := hlive
  rows r hr := by
    rw [setDb_db, refreshOrder_challenges] at hr
    rcases mem_settleDns01 hc₁ hproc hr with ⟨hold, hne⟩ | htried
    · exact .inl ⟨hother r hold (hid ▸ hne), hid ▸ hne⟩
    · exact .inr ⟨htried.id.trans hid, htried.type.trans hctype, hattempts ▸ htried.attempts, htried.tried, htried.again⟩
  log := by
    rw [← hlog]
    exact dnsAttempts_snoc_dns rfl
  id := hid
  time := rfl
  accounts := by
    rw [setDb_db, refreshOrder_accounts]
    exact (settleDns01_accounts srv.config now c₁ a v s.db).trans haccounts

/-- the lookup a poll makes, with what it rests on -/
structure PollLooked (E : Env) (srv : Server) (now : DateTime) (s t : Session) (a : AcmeAuthorization) (d : AcmeChallenge)
    (e : Attempt) : Prop where
  looked : Looked E srv.config now s t d a e
  due : (s.db.challengesOf a.id).find? (·.due now) = some d
  answer : ∃ account authorization v, s.db.accounts.get? a.accountId = some account ∧
    keyAuthorization E d.token account.jwk = .ok authorization ∧
    dns01Validate srv.net a.identifierValue (txtValue E authorization) = .ok v ∧
    ∀ a' ∈ t.db.authzs, a'.id = a.id → a'.status = .pending →
      v.ok = false ∧ d.attempts + 1 < maxAttempts srv.config ∧ now + retryAfter srv.config < a.expires

/-- what a poll does: nothing to the challenges, or one lookup; it raises without having changed anything -/
theorem pollAuthz_spec (hctl : Controlled E s) (ha : s.db.authzs.get? a.id = some a) :
    match pollAuthz E srv now a s with
    | .ok t => Quiet E s t ∨ ∃ d e, PollLooked E srv now s t a d e
    | .error r => r.session = s := by
  have hchained := @chained_pollAuthz E Set.univ s srv (Set.mem_univ srv) now a ha
  have hmem : a ∈ s.db.authzs := Table.mem_of_get? ha
  unfold pollAuthz at hchained ⊢
  by_cases hexp : a.status = .pending ∧ a.expires ≤ now
  · rw [if_pos hexp] at hchained ⊢
    exact .inl (.of_challenges hchained rfl rfl rfl)
  rw [if_neg hexp] at hchained ⊢
  by_cases hpending : a.status = .pending
  swap
  · rw [if_neg hpending]
    exact .inl (.refl s)
  rw [if_pos hpending] at hchained ⊢
  cases hdue : (s.db.challengesOf a.id).find? (·.due now) with
  | none => exact .inl (.refl s)
  | some d =>
    rw [hdue] at hchained
    dsimp only at hchained ⊢
    cases haccount : s.db.accounts.get? a.accountId with
    | none => rfl
    | some account =>
      rw [haccount] at hchained
      dsimp only at hchained ⊢
      cases hattempt : attemptDns01 E srv now account d a s with
      | error x => rfl
      | ok s₁ =>
        obtain ⟨authorization, v, hauth, hv, rfl⟩ := attemptDns01_ok hattempt
        obtain ⟨o, ho, hrefresh⟩ := @refreshOrderOf_ok E now a s (settleDns01 srv.config now d a v s.db) hctl hmem
          settleDns01_orders
        rw [hattempt, attempt_refresh rfl hrefresh] at hchained
        rw [attempt_refresh rfl hrefresh]
        obtain ⟨hd, hda⟩ := List.mem_filter.1 (List.mem_of_find?_eq_some hdue)
        have hisdue := List.find?_some hdue
        simp only [AcmeChallenge.due, Bool.and_eq_true, decide_eq_true_eq] at hisdue
        have hlive : now < a.expires := not_le.1 fun hle => hexp ⟨hpending, hle⟩
        have hlooked := looked_of_attempt hd (fun r hr _ => hr) (Table.get?_key hd) hisdue.1.2 rfl rfl rfl rfl rfl
          hisdue.1.1 hmem
          (beq_iff_eq.1 hda).symm hpending hlive hchained
        refine .inr ⟨d, _, hlooked, hdue, account, authorization, v, haccount, hauth, hv, fun a' ha' hid hp => ?_⟩
        -- what is pending after the refresh was pending after the lookup
        obtain ⟨b, hb, hagain⟩ := @settleDns01_authz srv.config now d a s.db v ha
        obtain ⟨b', hb', hrefreshed⟩ := refreshOrder_authzs now o (settleDns01 srv.config now d a v s.db) hb
        have hsame : b' = a' := Table.eq_of_key (Table.mem_of_get? hb') ha' ((Table.key_of_get? hb').trans hid.symm)
        subst hsame
        refine hagain ?_
        rcases hrefreshed with rfl | ⟨hbp, _⟩
        · exact hp
        · exact hbp

/-! ### The client's word that a challenge is provisioned -/

/-- the attempt at the challenge raises -/
def Fails (E : Env) (srv : Server) (account : AcmeAccount) (c : AcmeChallenge) (a : AcmeAuthorization) : Prop :=
  match c.type with
  | .dns01 => ∃ y, srv.net.resolvers = .error y
  | .http01 => ∃ expected y, keyAuthorization E c.token account.jwk = .ok expected ∧
      fetchHttp01 E srv.config srv.net a.identifierValue c.token expected = .error y

/-- an attempt at an http-01 challenge leaves the dns-01 challenges alone -/
theorem mem_settle_http {v : Validation} {r : AcmeChallenge} (hc : s.db.challenges.get? c.id = some c)
    (htype : c.type = .http01)
    (hr : r ∈ (settle now c.process a v.ok v.errorType v.detail
      (s.db.updateChallenge c.id AcmeChallenge.process AcmeChallenge.process_id)).challenges)
    (hrtype : r.type = .dns01) : r ∈ s.db.challenges := by
  have hprocess : ∀ {d : AcmeChallenge},
    d ∈ (s.db.updateChallenge c.id AcmeChallenge.process AcmeChallenge.process_id).challenges →
      (d ∈ s.db.challenges ∧ d.id ≠ c.id) ∨ d = c.process := by
    intro d hd
    rcases mem_updateChallenge hd with hold | ⟨c', hc', hid, rfl⟩
    · exact .inl hold
    · rw [Table.eq_of_key hc' (Table.mem_of_get? hc) hid]
      exact .inr rfl
  have hhttp : c.process.type = .http01 := htype
  rcases mem_settle hr with ⟨hold, hne⟩ | ⟨d, hd, hid, hfinal⟩
  · rcases hprocess hold with ⟨hmem, _⟩ | rfl
    · exact hmem
    · exact absurd rfl hne
  · rcases hprocess hd with ⟨_, hne⟩ | rfl
    · exact absurd hid hne
    · have hsame : r.type = c.process.type := by rcases hfinal with rfl | ⟨e, rfl⟩ <;> rfl
      rw [hsame, hhttp] at hrtype
      cases hrtype

theorem validateNow_spec (hctl : Controlled E s) {account : AcmeAccount} (hk : Keyed E s.db.accounts)
    (haccount : s.db.accounts.get? account.id = some account) (hc : s.db.challenges.get? c.id = some c)
    (hcp : c.status = .pending) (ha : s.db.authzs.get? a.id = some a) (hap : a.status = .pending)
    (hca : a.id = c.authorizationId) (haid : a.accountId = account.id) (hlive : now < a.expires) :
    match validateNow E srv now account c a s with
    | .ok t => Quiet E s t ∨ ∃ e, Looked E srv.config now s t c a e
    | .error r => r.exc.keepsSession = false ∧ dnsAttempts r.session.log = dnsAttempts s.log ∧ Fails E srv account c a := by
  have hchained := @chained_validateNow E Set.univ s srv (Set.mem_univ srv) now account c a hc hcp ha hap hca
    (by rw [haid]; exact haccount) hlive
  have hmem : a ∈ s.db.authzs := Table.mem_of_get? ha
  obtain ⟨authorization, hauth⟩ := keyAuthorization_ok hk haccount c.token
  unfold validateNow at hchained ⊢
  dsimp only at hchained ⊢
  unfold attemptNow at hchained ⊢
  have hprocess : c.process.type = c.type := rfl
  cases htype : c.type with
  | dns01 =>
    rw [hprocess, htype] at hchained ⊢
    dsimp only at hchained ⊢
    cases hattempt : attemptDns01 E srv now account c.process a
      (setDb s (s.db.updateChallenge c.id AcmeChallenge.process AcmeChallenge.process_id)) with
    | error x =>
      obtain ⟨y, hres, rfl⟩ := @attemptDns01_error E srv now _ c.process a account authorization x hauth hattempt
      refine ⟨rfl, rfl, ?_⟩
      unfold Fails
      rw [htype]
      exact ⟨y, hres⟩
    | ok s₁ =>
      obtain ⟨_, v, _, _, rfl⟩ := attemptDns01_ok hattempt
      obtain ⟨o, ho, hrefresh⟩ := @refreshOrderOf_ok E now a s
        (settleDns01 srv.config now c.process a v
          (s.db.updateChallenge c.id AcmeChallenge.process AcmeChallenge.process_id)) hctl hmem settleDns01_orders
      rw [hattempt, attempt_refresh rfl hrefresh] at hchained
      rw [attempt_refresh rfl hrefresh]
      refine .inr ⟨_, looked_of_attempt (Table.mem_of_get? hc) (fun r hr hne => ?_) (Db.updateChallenge_self hc) rfl rfl rfl
        rfl rfl rfl htype hmem hca hap hlive hchained⟩
      rcases mem_updateChallenge hr with ⟨hold, _⟩ | ⟨d, _, hid, rfl⟩
      · exact hold
      · exact absurd hid hne
  | http01 =>
    rw [hprocess, htype] at hchained ⊢
    dsimp only at hchained ⊢
    have hauth' : keyAuthorization E c.process.token account.jwk = .ok authorization := hauth
    cases hfetch : fetchHttp01 E srv.config srv.net a.identifierValue c.token authorization with
    | error y =>
      have hattempt : attemptHttp01 E srv now account c.process a
        (setDb s (s.db.updateChallenge c.id AcmeChallenge.process AcmeChallenge.process_id)) =
          .error (.py y) := by
        have hfetch' : fetchHttp01 E srv.config srv.net a.identifierValue c.process.token authorization = .error y := hfetch
        unfold attemptHttp01
        rw [hauth']
        simp [bind, Except.bind, hfetch', lift]
      rw [hattempt]
      refine ⟨rfl, rfl, ?_⟩
      unfold Fails
      rw [htype]
      exact ⟨authorization, y, hauth, hfetch⟩
    | ok v =>
      have hattempt : attemptHttp01 E srv now account c.process a
        (setDb s (s.db.updateChallenge c.id AcmeChallenge.process AcmeChallenge.process_id)) =
          .ok (setDb (s.record (.attempt ⟨now, c.id, .http01, srv, v.asked, s.db.accounts⟩))
            (settle now c.process a v.ok v.errorType v.detail
              (s.db.updateChallenge c.id AcmeChallenge.process AcmeChallenge.process_id))) := by
        have hfetch' : fetchHttp01 E srv.config srv.net a.identifierValue c.process.token authorization = .ok v := hfetch
        unfold attemptHttp01
        rw [hauth']
        simp only [bind, Except.bind, hfetch', lift]
        rfl
      obtain ⟨o, ho, hrefresh⟩ := @refreshOrderOf_ok E now a s (settle now c.process a v.ok v.errorType v.detail
        (s.db.updateChallenge c.id AcmeChallenge.process AcmeChallenge.process_id)) hctl hmem
          (settle_orders v.ok v.errorType v.detail)
      rw [hattempt, attempt_refresh rfl hrefresh] at hchained
      rw [hattempt, attempt_refresh rfl hrefresh]
      refine .inl ⟨hchained, fun r hr hrtype => ?_, dnsAttempts_snoc_http rfl, ?_⟩
      swap
      · rw [setDb_db, refreshOrder_accounts]
        exact settle_accounts now c.process a v.ok v.errorType v.detail _
      rw [setDb_db, refreshOrder_challenges] at hr
      exact mem_settle_http hc htype hr hrtype

/-- the checks before the attempt -/
structure Answers (srv : Server) (now : DateTime) (accountId challengeId : ℤ) (s : Session) (c : AcmeChallenge)
    (a : AcmeAuthorization) : Prop where
  loaded : loadChallenge srv.ca.id accountId challengeId s.db = .ok (c, a)
  challenge : c.status = .pending
  authz : a.status = .pending
  live : now < a.expires

theorem loadChallenge_error (hctl : Controlled E s) {caId accountId challengeId : ℤ} {x : Exc}
    (h : loadChallenge caId accountId challengeId s.db = .error x) : x = unknown "challenge" := by
  unfold loadChallenge at h
  cases hc : s.db.challenges.get? challengeId with
  | none =>
    rw [hc] at h
    exact (Except.error.inj h).symm
  | some c =>
    simp only [hc] at h
    obtain ⟨a, ha, hid, _⟩ := hctl.rows.offered c (Table.mem_of_get? hc)
    have hget : s.db.authzs.get? c.authorizationId = some a := by
      rw [← hid]
      exact Table.get?_key ha
    simp only [hget] at h
    split_ifs at h
    exact (Except.error.inj h).symm

/-- an authorization that is pending once stale ones expired is as it was -/
theorem refreshAuthz_pending (ha : s.db.authzs.get? a.id = some a) {b : AcmeAuthorization} (hid : b.id = a.id)
    (hb : (refreshAuthz now a s.db).authzs.get? b.id = some b) (hp : b.status = .pending) : b = a := by
  rw [hid] at hb
  unfold refreshAuthz at hb
  rw [Db.updateAuthz_self ha] at hb
  cases hb
  unfold AcmeAuthorization.expire at hp ⊢
  split_ifs at hp ⊢
  rfl

/-- the lookup, seen from before stale authorizations expired -/
theorem Looked.of_refresh {s₁ : Session} (h : Looked E cfg now s₁ t c a e) (hchain : Chain E Set.univ s s₁)
    (hc : s₁.db.challenges = s.db.challenges) (hlog : s₁.log = s.log) (haccounts : s₁.db.accounts = s.db.accounts)
    (ha : a ∈ s.db.authzs) : Looked E cfg now s t c a e :=
  ⟨hchain.trans h.chain, hc ▸ h.challenge, h.type, ha, h.belongs, h.pending, h.live, fun r hr => hc ▸ h.rows r hr,
    hlog ▸ h.log, h.id, h.time, h.accounts.trans haccounts⟩

theorem Quiet.of_refresh {s₁ : Session} (h : Quiet E s₁ t) (hchain : Chain E Set.univ s s₁)
    (hc : s₁.db.challenges = s.db.challenges)
    (hlog : s₁.log = s.log) (haccounts : s₁.db.accounts = s.db.accounts) : Quiet E s t :=
  ⟨hchain.trans h.chain, fun r hr htype => hc ▸ h.rows r hr htype, hlog ▸ h.log, h.accounts.trans haccounts⟩

/-- what the client's word does: nothing to the dns-01 challenges, or one lookup. When it raises and the changes are rolled
back, the attempt at the challenge raised -/
theorem respondChallenge_spec (hctl : Controlled E s) {account : AcmeAccount} {challengeId : ℤ} (hk : Keyed E s.db.accounts)
    (haccount : s.db.accounts.get? account.id = some account) :
    match respondChallenge E srv now account challengeId s with
    | .ok t => Quiet E s t ∨ ∃ c a e, Looked E srv.config now s t c a e ∧ c.status = .pending
    | .error r => (r.exc.keepsSession = true ∧ Quiet E s r.session) ∨
        (r.exc.keepsSession = false ∧ dnsAttempts r.session.log = dnsAttempts s.log ∧
          ∃ c a, Answers srv now account.id challengeId s c a ∧ Fails E srv account c a) := by
  unfold respondChallenge
  cases hload : loadChallenge srv.ca.id account.id challengeId s.db with
  | error x =>
    rw [loadChallenge_error hctl hload]
    exact .inl ⟨rfl, .refl s⟩
  | ok r =>
    obtain ⟨c₀, a₀⟩ := r
    obtain ⟨hc₀, ha₀, hca₀, _⟩ := loadChallenge_ok hload
    have hrefresh := @chain_refreshAuthz E Set.univ s now a₀ ha₀
    have hctl₁ := hctl.chain hrefresh
    dsimp only [Session.try]
    simp only [bind, Except.bind]
    cases hload₁ : loadChallenge srv.ca.id account.id challengeId (setDb s (refreshAuthz now a₀ s.db)).db with
    | error x =>
      rw [loadChallenge_error hctl₁ hload₁]
      exact .inl ⟨rfl, .of_challenges hrefresh rfl rfl rfl⟩
    | ok r =>
      obtain ⟨c, a⟩ := r
      obtain ⟨hc, ha, hca, haid⟩ := loadChallenge_ok hload₁
      dsimp only
      by_cases hdone : c.status ≠ .pending ∨ a.status ≠ .pending
      · rw [if_pos hdone]
        exact .inl (.of_challenges hrefresh rfl rfl rfl)
      rw [if_neg hdone]
      rw [not_or, not_not, not_not] at hdone
      -- the challenge is the one read before, and its authorization did not expire
      obtain rfl : c = c₀ := Option.some.inj (hc.symm.trans hc₀)
      obtain rfl : a = a₀ := refreshAuthz_pending ha₀ (hca.trans hca₀.symm) ha hdone.2
      have hlive : now < a.expires := live_of_refreshed ha₀ ha rfl hdone.2
      obtain ⟨o, ho, howns⟩ := hctl.rows.owned a (Table.mem_of_get? ha₀)
      have hget : (setDb s (refreshAuthz now a s.db)).db.orders.get? a.orderId = some o := by
        rw [← howns.1]
        exact Table.get?_key ho
      rw [hget]
      dsimp only
      by_cases hexp : o.expires ≤ now
      · rw [if_pos hexp]
        have hfail := @chain_refresh E Set.univ (setDb s (refreshAuthz now a s.db)) now o (Table.get?_key ho)
        exact .inl ⟨rfl, .of_challenges (hrefresh.trans hfail) (refreshOrder_challenges now o _) rfl
          (refreshOrder_accounts now o _)⟩
      · rw [if_neg hexp]
        have hcid := Table.key_of_get? hc
        have hspec := @validateNow_spec E srv now (setDb s (refreshAuthz now a s.db)) c a hctl₁ account hk haccount
          (by rw [hcid]; exact hc) hdone.1 ha hdone.2 hca haid hlive
        cases hvalidate : validateNow E srv now account c a (setDb s (refreshAuthz now a s.db)) with
        | ok t =>
          rw [hvalidate] at hspec
          rcases hspec with hquiet | ⟨e, hlooked⟩
          · exact .inl (hquiet.of_refresh hrefresh rfl rfl rfl)
          · exact .inr ⟨c, a, e, hlooked.of_refresh hrefresh rfl rfl rfl (Table.mem_of_get? ha₀), hdone.1⟩
        | error r =>
          rw [hvalidate] at hspec
          obtain ⟨hexc, hlog, hfails⟩ := hspec
          exact .inr ⟨hexc, hlog, c, a, ⟨hload, hdone.1, hdone.2, hlive⟩, hfails⟩

/-! ### What a request keeps -/

/-- what a request keeps -/
structure Keeps (E : Env) (cfg : Config) (s t : Session) : Prop where
  budget : Budget cfg t
  keyed : Keyed E s.db.accounts → Keyed E t.db.accounts

theorem Keeps.refl (h : Budget cfg s) : Keeps E cfg s s := ⟨h, id⟩

/-- a rollback keeps the log -/
theorem Keeps.rollback (h : Budget cfg s) (hlog : dnsAttempts t.log = dnsAttempts s.log) :
    Keeps E cfg s (setDb t s.db) := by
  have hlookups := lookups_congr hlog
  refine ⟨⟨fun c hc htype => ?_, fun id hne => h.known id (hlookups id ▸ hne)⟩, id⟩
  have hwithin := h.within c hc htype
  exact ⟨(hlookups c.id).symm ▸ hwithin.counted, hwithin.bounded, (hlookups c.id).symm ▸ hwithin.spaced, hwithin.fresh,
    (hlookups c.id).symm ▸ hwithin.waiting⟩

theorem Quiet.keeps (h : Quiet E s t) (hctl : Controlled E s) (hb : Budget cfg s) : Keeps E cfg s t :=
  ⟨h.budget hctl hb, fun hk => h.accounts ▸ hk⟩

/-- more writes that leave the dns-01 challenges alone -/
theorem Keeps.quiet {s₁ : Session} (h : Keeps E cfg s s₁) (hctl : Controlled E s₁) (hq : Quiet E s₁ t) : Keeps E cfg s t :=
  ⟨hq.budget hctl h.budget, fun hk => hq.accounts ▸ h.keyed hk⟩

theorem PollLooked.isDue {d : AcmeChallenge} (h : PollLooked E srv now s t a d e) :
    d.due now = true := List.find?_some h.due

theorem PollLooked.keeps {d : AcmeChallenge} (h : PollLooked E srv now s t a d e) (hctl : Controlled E s)
    (hb : Budget srv.config s) : Keeps E srv.config s t :=
  ⟨h.looked.budget_due hctl hb h.isDue, fun hk => h.looked.accounts ▸ hk⟩

theorem keeps_raised {r : Raised} (hb : Budget cfg s) (hsession : r.session = s) :
    Keeps E cfg s (finish s.db (.error r)) := by
  unfold finish
  dsimp only
  rw [hsession]
  split_ifs
  · exact .refl hb
  · exact .refl hb

/-- a call that leaves the session alone when it raises -/
theorem keeps_try {α : Type} {x : Result α} {k : α → Outcome} (hb : Budget cfg s)
    (h : ∀ a, x = .ok a → Keeps E cfg s (finish s.db (k a))) : Keeps E cfg s (finish s.db (s.try x >>= k)) := by
  cases x with
  | error exc => exact keeps_raised hb rfl
  | ok a => exact h a rfl

theorem loadAuthz_error {caId accountId authzId : ℤ} {db : Db} {x : Exc}
    (h : loadAuthz caId accountId authzId db = .error x) :
    x = unknown "authorization" := by
  unfold loadAuthz at h
  cases ha : db.authzs.get? authzId with
  | none =>
    rw [ha] at h
    exact (Except.error.inj h).symm
  | some a =>
    simp only [ha] at h
    split_ifs at h
    exact (Except.error.inj h).symm

/-- a deactivation does not raise -/
theorem deactivateAuthz_quiet (hctl : Controlled E s) (ha : s.db.authzs.get? a.id = some a) :
    ∃ db, deactivateAuthz now a s.db = .ok db ∧ Quiet E s (setDb s db) := by
  unfold deactivateAuthz
  split_ifs with hp
  · have hclose : Write E Set.univ s (setDb s (s.db.updateAuthz a.id (AcmeAuthorization.setStatus .deactivated))) :=
      Write.authz ha (.close hp rfl)
    have hupdate : (s.db.updateAuthz a.id (AcmeAuthorization.setStatus .deactivated)).orders = s.db.orders := rfl
    obtain ⟨o, ho, hrefresh⟩ := @refreshOrderOf_ok E now a s _ hctl (Table.mem_of_get? ha) hupdate
    refine ⟨_, hrefresh, .of_challenges ?_ (refreshOrder_challenges now o _) rfl (refreshOrder_accounts now o _)⟩
    exact .trans (.single hclose)
      (@chain_refreshOrderOf E Set.univ (setDb s (s.db.updateAuthz a.id (AcmeAuthorization.setStatus .deactivated))) now a _
        hrefresh)
  · exact ⟨_, rfl, .refl s⟩

theorem keeps_postAuthorization (hctl : Controlled E s) (hb : Budget srv.config s) {accountId authzId : ℤ}
    {payload : Option Fields} {lag : ℕ} :
    Keeps E srv.config s (finish s.db (postAuthorization E srv accountId authzId payload now lag s)) := by
  refine keeps_try hb fun account _ => keeps_try hb fun a ha => ?_
  have hpoll := @pollAuthz_spec E srv now s a hctl (loadAuthz_ok ha).1
  have hchained := @chained_pollAuthz E Set.univ s srv (Set.mem_univ srv) now a (loadAuthz_ok ha).1
  cases hresult : pollAuthz E srv now a s with
  | error r =>
    rw [hresult] at hpoll
    exact keeps_raised hb hpoll
  | ok s₁ =>
    rw [hresult] at hpoll hchained
    have hctl₁ := hctl.chain hchained
    have hkeeps : Keeps E srv.config s s₁ := by
      rcases hpoll with hquiet | ⟨d, e, hlooked⟩
      · exact hquiet.keeps hctl hb
      · exact hlooked.keeps hctl hb
    simp only [bind, Except.bind]
    by_cases hasks : asksDeactivation payload = true
    · rw [if_pos hasks]
      cases hload : loadAuthz srv.ca.id account.id authzId s₁.db with
      | error x =>
        rw [loadAuthz_error hload]
        exact hkeeps
      | ok b =>
        obtain ⟨db, hdeactivate, hquiet⟩ := @deactivateAuthz_quiet E (now + lag) s₁ b hctl₁ (loadAuthz_ok hload).1
        simp only [Session.try, hdeactivate]
        exact hkeeps.quiet hctl₁ hquiet
    · rw [if_neg hasks]
      exact hkeeps

/-! ### Interrupted requests -/

/-- a poll of the authorization makes the lookup that is due, which misses, and another one is to follow -/
structure PollMisses (E : Env) (srv : Server) (now : DateTime) (s : Session) (account : AcmeAccount) (a : AcmeAuthorization)
    (d : AcmeChallenge) : Prop where
  due : (s.db.challengesOf a.id).find? (·.due now) = some d
  missed : ∃ authorization v, keyAuthorization E d.token account.jwk = .ok authorization ∧
    dns01Validate srv.net a.identifierValue (txtValue E authorization) = .ok v ∧ v.ok = false
  more : d.attempts + 1 < maxAttempts srv.config ∧ now + retryAfter srv.config < a.expires

/-- the client's word that an http-01 challenge is provisioned, whose poll makes a lookup for another challenge of the
authorization, and whose fetch raises: the rollback takes the lookup's count away -/
def Interrupted (E : Env) (now : DateTime) (lag : ℕ) (s : Session) : Request E → Prop
  | .challenge srv accountId challengeId (some _) =>
    ∃ account c a d, accountForKid s.db.accounts srv.ca.id accountId = .ok account ∧
      Answers srv (now + lag) account.id challengeId s c a ∧ PollMisses E srv now s account a d ∧ c.type = .http01 ∧
        ∃ expected y, keyAuthorization E c.token account.jwk = .ok expected ∧
          fetchHttp01 E srv.config srv.net a.identifierValue c.token expected = .error y
  | _ => False

/-- a request whose poll made a lookup is rolled back only when it is interrupted -/
theorem interrupted_of_fails {s₁ : Session} {account : AcmeAccount} {accountId challengeId : ℤ} {lag : ℕ} {fields : Fields}
    {c₀ : AcmeChallenge} {a₁ : AcmeAuthorization} {d : AcmeChallenge}
    (hkid : accountForKid s.db.accounts srv.ca.id accountId = .ok account)
    (haccount : s.db.accounts.get? account.id = some account)
    (hload : loadChallenge srv.ca.id account.id challengeId s.db = .ok (c₀, a)) (hpoll : PollLooked E srv now s s₁ a d e)
    (hanswers : Answers srv (now + lag) account.id challengeId s₁ c a₁) (hfails : Fails E srv account c a₁) :
    Interrupted E now lag s (.challenge srv accountId challengeId (some fields)) := by
  obtain ⟨account', authorization, v, haccount', hauth, hvalidate, hagain⟩ := hpoll.answer
  obtain ⟨hc₀, ha, hca₀, hacc⟩ := loadChallenge_ok hload
  obtain ⟨hc, ha₁, hca, _⟩ := loadChallenge_ok hanswers.loaded
  rw [hacc] at haccount'
  obtain rfl : account' = account := Option.some.inj (haccount'.symm.trans haccount)
  unfold Fails at hfails
  cases htype : c.type with
  | dns01 =>
    rw [htype] at hfails
    obtain ⟨y, hres⟩ := hfails
    exact absurd hres (resolvers_of_validate hvalidate y)
  | http01 =>
    rw [htype] at hfails
    obtain ⟨expected, y, hexpected, hfetch⟩ := hfails
    -- the poll left the http-01 challenge alone
    have hold : c ∈ s.db.challenges := by
      rcases hpoll.looked.rows c (Table.mem_of_get? hc) with ⟨hold, _⟩ | htried
      · exact hold
      · have hdns : c.type = .dns01 := htried.type.trans hpoll.looked.type
        rw [htype] at hdns
        cases hdns
    obtain rfl : c = c₀ :=
      Table.eq_of_key hold (Table.mem_of_get? hc₀) ((Table.key_of_get? hc).trans (Table.key_of_get? hc₀).symm)
    have hid : a₁.id = a.id := hca.trans hca₀.symm
    obtain ⟨hpending, hvalue, hexpires⟩ := pending_before hpoll.looked.chain (Table.mem_of_get? ha) (Table.mem_of_get? ha₁)
      hid hanswers.authz
    obtain ⟨hmissed, hmore⟩ := hagain a₁ (Table.mem_of_get? ha₁) hid hanswers.authz
    rw [hvalue] at hfetch
    exact ⟨account', c, a, d, hkid, ⟨hload, hanswers.challenge, hpending, hexpires ▸ hanswers.live⟩,
      ⟨hpoll.due, ⟨authorization, v, hauth, hvalidate, hmissed⟩, hmore⟩, htype, expected, y, hexpected, hfetch⟩

theorem keeps_postChallenge (hctl : Controlled E s) (hb : Budget srv.config s) (hk : Keyed E s.db.accounts)
    {accountId challengeId : ℤ} {payload : Option Fields} {lag : ℕ}
    (hmeets : ¬Interrupted E now lag s (.challenge srv accountId challengeId payload)) :
    Keeps E srv.config s (finish s.db (postChallenge E srv accountId challengeId payload now lag s)) := by
  refine keeps_try hb fun account hkid => keeps_try hb fun r hr => ?_
  obtain ⟨c₀, a⟩ := r
  obtain ⟨_, ha, _, _⟩ := loadChallenge_ok hr
  obtain ⟨haccount, _⟩ := @kidAccount_ok s srv accountId account (by rw [kidAccount, hkid]; rfl)
  have hpoll := @pollAuthz_spec E srv now s a hctl ha
  have hchained := @chained_pollAuthz E Set.univ s srv (Set.mem_univ srv) now a ha
  dsimp only
  cases hresult : pollAuthz E srv now a s with
  | error r =>
    rw [hresult] at hpoll
    exact keeps_raised hb hpoll
  | ok s₁ =>
    rw [hresult] at hpoll hchained
    have hctl₁ := hctl.chain hchained
    have hkeeps : Keeps E srv.config s s₁ := by
      rcases hpoll with hquiet | ⟨d, e, hlooked⟩
      · exact hquiet.keeps hctl hb
      · exact hlooked.keeps hctl hb
    simp only [bind, Except.bind]
    cases payload with
    | none => exact hkeeps
    | some fields =>
      have haccounts := pollAuthz_accounts hresult
      have hrespond := @respondChallenge_spec E srv (now + lag) s₁ hctl₁ account challengeId (by rw [haccounts]; exact hk)
        (by rw [haccounts]; exact haccount)
      dsimp only
      cases hresult₁ : respondChallenge E srv (now + lag) account challengeId s₁ with
      | ok t =>
        rw [hresult₁] at hrespond
        rcases hrespond with hquiet | ⟨c, a₁, e₁, hlooked, hst⟩
        · exact hkeeps.quiet hctl₁ hquiet
        · exact ⟨hlooked.budget_first hctl₁ hkeeps.budget hst, fun hk => hlooked.accounts ▸ hkeeps.keyed hk⟩
      | error r =>
        rw [hresult₁] at hrespond
        unfold finish
        dsimp only
        rcases hrespond with ⟨hexc, hquiet⟩ | ⟨hexc, hlog, c, a₁, hanswers, hfails⟩
        · rw [if_pos hexc]
          exact hkeeps.quiet hctl₁ hquiet
        · rw [hexc]
          rcases hpoll with hquiet | ⟨d, e, hpollLooked⟩
          · exact .rollback hb (hlog.trans hquiet.log)
          · exact absurd (interrupted_of_fails hkid haccount hr hpollLooked hanswers hfails) hmeets

/-! ### Orders, accounts, finalize -/

theorem nextKey_le_insert {α : Type} {key : α → ℤ} {t : Table key} (mk : ℤ → α) {hmk : ∀ k, key (mk k) = k} :
    t.nextKey ≤ (t.insert mk hmk).nextKey := by
  have hlt : key (mk t.nextKey) < (t.insert mk hmk).nextKey := Table.key_lt_nextKey (Table.mem_insert.2 (.inr rfl))
  rw [hmk] at hlt
  exact hlt.le

/-- the rows of new challenges -/
theorem fresh_addChallenges {authzId : ℤ} {types : List ChallengeType} {table : ChallengeTable} {r : AcmeChallenge}
    (h : r ∈ addChallenges srv authzId types table) :
    r ∈ table ∨ (r.status = .pending ∧ r.attempts = 0 ∧ table.nextKey ≤ r.id) := by
  induction types generalizing table with
  | nil => exact .inl h
  | cons type rest ih =>
    rcases ih h with hold | ⟨hpending, hzero, hkey⟩
    · rcases Table.mem_insert.1 hold with hold | rfl
      · exact .inl hold
      · exact .inr ⟨rfl, rfl, le_rfl⟩
    · exact .inr ⟨hpending, hzero, (nextKey_le_insert _).trans hkey⟩

theorem nextKey_le_addChallenges {authzId : ℤ} (types : List ChallengeType) (table : ChallengeTable) :
    table.nextKey ≤ (addChallenges srv authzId types table).nextKey := by
  induction types generalizing table with
  | nil => exact le_rfl
  | cons type rest ih => exact (nextKey_le_insert _).trans (ih _)

theorem fresh_addAuthorizations {orderId accountId expires : ℤ} {identifiers : List Text} {db : Db} {r : AcmeChallenge}
    (h : r ∈ (addAuthorizations srv orderId accountId expires identifiers db).challenges) :
    r ∈ db.challenges ∨ (r.status = .pending ∧ r.attempts = 0 ∧ db.challenges.nextKey ≤ r.id) := by
  induction identifiers generalizing db with
  | nil => exact .inl h
  | cons i rest ih =>
    rcases ih h with hold | ⟨hpending, hzero, hkey⟩
    · exact fresh_addChallenges hold
    · exact .inr ⟨hpending, hzero, (nextKey_le_addChallenges _ _).trans hkey⟩

/-- what neither the challenges nor the log of lookups nor the accounts notice -/
structure Untouched (s t : Session) : Prop where
  challenges : t.db.challenges = s.db.challenges
  log : dnsAttempts t.log = dnsAttempts s.log
  accounts : t.db.accounts = s.db.accounts

theorem untouched_advance {f : Finalization} {tick : Tick} {p : Phase} : Untouched s (advance E f tick s p).1 := by
  cases p with
  | start => exact ⟨rfl, rfl, rfl⟩
  | answered result before after =>
    simp only [advance]
    split_ifs <;> exact ⟨rfl, rfl, rfl⟩
  | checked csr wanted =>
    simp only [advance]
    cases tick.fault <;> exact ⟨rfl, rfl, rfl⟩
  | processing csr wanted =>
    simp only [advance]
    cases hi : tick.guard (importRow f s.db) with
    | error e => exact ⟨rfl, rfl, rfl⟩
    | ok r =>
      obtain ⟨db, csrId⟩ := r
      obtain ⟨csr', _, rfl, _⟩ := importRow_ok (guard_ok.1 hi).1
      exact ⟨rfl, rfl, rfl⟩
  | imported csrId csr wanted =>
    simp only [advance]
    cases hi : tick.guard (renameRow f csrId csr wanted s.db) with
    | error e => exact ⟨rfl, rfl, rfl⟩
    | ok db =>
      obtain ⟨cn, _, rfl⟩ := renameRow_ok (guard_ok.1 hi).1
      exact ⟨rfl, rfl, rfl⟩
  | named csrId =>
    simp only [advance]
    cases f.urls with
    | error e => exact ⟨rfl, rfl, rfl⟩
    | ok u =>
      have hsigning : dnsAttempts (s.recordSigning f.orderId).log = dnsAttempts s.log := by
        unfold Session.recordSigning
        cases s.db.orders.get? f.orderId with
        | none => rfl
        | some o => simp [Session.record, dnsAttempts]
      simp only [Session.recordSigning_db]
      cases checkRow f csrId s.db with
      | error e => exact ⟨by simp, hsigning, by simp⟩
      | ok u =>
        simp only
        cases hc : tick.guard (claimRow csrId s.db) with
        | error e => exact ⟨by simp, hsigning, by simp⟩
        | ok db =>
          obtain ⟨row, _, _, rfl⟩ := claimRow_ok (guard_ok.1 hc).1
          exact ⟨rfl, hsigning, rfl⟩
  | claimed csrId =>
    simp only [advance]
    cases hi : tick.guard (signRow f csrId tick.now s.db) with
    | error e => exact ⟨rfl, rfl, rfl⟩
    | ok r =>
      obtain ⟨db, certId⟩ := r
      obtain ⟨row, issued, _, _, rfl, _⟩ := signRow_ok (guard_ok.1 hi).1
      exact ⟨rfl, rfl, rfl⟩
  | issued certId =>
    simp only [advance]
    cases tick.fault <;> exact ⟨rfl, rfl, rfl⟩
  | releasing csrId e =>
    simp only [advance]
    cases tick.fault <;> exact ⟨rfl, rfl, rfl⟩
  | failing e =>
    simp only [advance]
    split_ifs
    · cases tick.fault <;> exact ⟨rfl, rfl, rfl⟩
    · exact ⟨rfl, rfl, rfl⟩
  | ended result => exact ⟨rfl, rfl, rfl⟩

theorem untouched_drive {f : Finalization} {plan : Phase → Tick} {n : ℕ} {p : Phase} :
    Untouched s (drive E f plan n (s, p)).1 := by
  induction n generalizing s p with
  | zero => exact ⟨rfl, rfl, rfl⟩
  | succ n ih =>
    have hstep := @untouched_advance E s f (plan p) p
    have hrest := @ih (advance E f (plan p) s p).1 (advance E f (plan p) s p).2
    exact ⟨hrest.challenges.trans hstep.challenges, hrest.log.trans hstep.log, hrest.accounts.trans hstep.accounts⟩

/-- finalize, with the account check before it -/
theorem untouched_postFinalize (f : Finalization) (plan : Phase → Tick) : Untouched s (postFinalize E f plan s) := by
  unfold postFinalize
  cases kidAccount f.server f.accountId s with
  | error e => exact ⟨rfl, rfl, rfl⟩
  | ok account => exact untouched_drive

theorem chain_postFinalize (f : Finalization) (plan : Phase → Tick) : Chain E Set.univ s (postFinalize E f plan s) := by
  unfold postFinalize
  cases kidAccount f.server f.accountId s with
  | error e => exact .refl
  | ok account => exact chain_finalize f plan

/-! ### Keys of accounts -/

theorem keyed_update {accounts : AccountTable} (h : Keyed E accounts) {k : ℤ} {f : AcmeAccount → AcmeAccount}
    {hf : ∀ account, (f account).id = account.id}
    (hkey : ∀ account ∈ accounts, account.id = k → ∃ tp, thumbprint E (f account).jwk = .ok tp) :
    Keyed E (accounts.update k f hf) := by
  intro account haccount
  obtain ⟨account', haccount', rfl⟩ := Table.mem_update.1 haccount
  split_ifs with hid
  · exact hkey account' haccount' hid
  · exact h account' haccount'

theorem keyed_keepsKey {accounts : AccountTable} (h : Keyed E accounts) {k : ℤ} {f : AcmeAccount → AcmeAccount}
    (hf : AccountKeys.KeepsKey f) : Keyed E (accounts.update k f hf.id) :=
  keyed_update h fun account haccount _ => by
    rw [hf.jwk]
    exact h account haccount

theorem keyed_newAccount {d : Directory} {accounts accounts' : Accounts} {v : Verified E} {id : ℤ} {created : Bool}
    (h : newAccount E d accounts v now = .ok (accounts', id, created)) (hk : Keyed E accounts.accounts) :
    Keyed E accounts'.accounts := by
  rcases AccountKeys.newAccount_cases h with ⟨account, _, _, heq⟩ | ⟨tp, contact, eab, htp, _, heq⟩
  · rw [heq]
    exact keyed_keepsKey hk (AccountKeys.keepsKey_touch now)
  · rw [heq]
    intro account haccount
    rcases Table.mem_insert.1 haccount with hold | rfl
    · exact hk account hold
    · exact ⟨tp, htp⟩

theorem keyed_changeKey {caId : ℤ} {accounts accounts' : Accounts} {account : AcmeAccount} {inner : Verified E}
    (h : changeKey E caId accounts account inner = .ok accounts') (hk : Keyed E accounts.accounts) :
    Keyed E accounts'.accounts := by
  obtain ⟨tp, htp, _, heq⟩ := AccountKeys.changeKey_cases h
  rw [heq]
  exact keyed_update hk fun _ _ _ => ⟨tp, htp⟩

/-! ### Every request -/

/-- a request that leaves the challenges alone -/
theorem keeps_of_challenges (hctl : Controlled E s) (hb : Budget cfg s) (hchain : Chain E Set.univ s t)
    (hc : t.db.challenges = s.db.challenges) (hlog : dnsAttempts t.log = dnsAttempts s.log)
    (hk : Keyed E s.db.accounts → Keyed E t.db.accounts) : Keeps E cfg s t :=
  ⟨hb.quiet hctl hchain (fun _ hr _ => .inl (hc ▸ hr)) hlog, hk⟩

/-- an account update: the challenges stay, and the keys -/
theorem updateAccountAndOrders_keeps {account : AcmeAccount} {payload : Fields} {db db' : Db}
    (h : updateAccountAndOrders E account payload now db = .ok db') :
    db'.challenges = db.challenges ∧ (Keyed E db.accounts → Keyed E db'.accounts) := by
  obtain ⟨accounts, hupdate, h⟩ := bind_eq_ok.1 h
  obtain ⟨f, hf, heq⟩ := AccountKeys.updateAccount_cases hupdate
  cases h
  refine ⟨rfl, fun hk => ?_⟩
  have hkeeps := @keyed_keepsKey E _ hk account.id f hf
  rw [← heq] at hkeeps
  exact hkeeps

theorem keeps_newOrder (hctl : Controlled E s) (hb : Budget cfg s) {account : AcmeAccount} {payload : Option Fields}
    {db : Db}
    (h : newOrder E srv account payload now s.db = .ok db) : Keeps E cfg s (setDb s db) := by
  have hchain := @chain_newOrder E Set.univ s srv account payload now db h
  obtain ⟨identifiers, _, h⟩ := bind_eq_ok.1 h
  cases h
  refine ⟨hb.quiet hctl hchain (fun r hr _ => ?_) rfl, fun hk => ?_⟩
  · have hfresh := @fresh_addAuthorizations srv s.db.orders.nextKey account.id _ identifiers _ r hr
    exact hfresh
  · have hkeeps := @keyed_keepsKey E _ hk account.id _ (AccountKeys.keepsKey_touch now)
    rw [setDb_db, Db.touchAccount, addAuthorizations_accounts]
    exact hkeeps

/-- the configuration a request is served with -/
def configOf : Request E → Option Config
  | .newAccount srv _ => some srv.config
  | .updateAccount srv _ _ => some srv.config
  | .keyChange srv _ _ => some srv.config
  | .newOrder srv _ _ => some srv.config
  | .order srv _ _ => some srv.config
  | .authorization srv _ _ _ => some srv.config
  | .challenge srv _ _ _ => some srv.config
  | .finalize f _ => some f.server.config
  | .maintain => none

/-- a request that is not interrupted keeps the budget -/
theorem budget_handle {lag : ℕ} {r : Request E} (hctl : Controlled E s) (hb : Budget cfg s) (hk : Keyed E s.db.accounts)
    (hcfg : ∀ c ∈ configOf r, c = cfg) (hmeets : ¬Interrupted E now lag s r) : Keeps E cfg s (handle E now lag s r) := by
  cases r with
  | newAccount srv v =>
    refine keeps_try hb fun _ hr => ?_
    exact keeps_of_challenges hctl hb (chain_setAccounts (accountsMove_newAccount hr)) rfl rfl (keyed_newAccount hr)
  | updateAccount srv accountId payload =>
    refine keeps_try hb fun account hkid => ?_
    obtain ⟨haccount, hvalid⟩ := @kidAccount_ok s srv accountId account (by rw [kidAccount, hkid]; rfl)
    by_cases hempty : payload.isEmpty = true
    · rw [if_pos hempty]
      exact .refl hb
    · rw [if_neg hempty]
      refine keeps_try hb fun db hdb => ?_
      obtain ⟨hc, hkeyed⟩ := updateAccountAndOrders_keeps hdb
      exact keeps_of_challenges hctl hb (chain_updateAccount haccount hvalid hdb) hc rfl hkeyed
  | keyChange srv accountId inner =>
    refine keeps_try hb fun account _ => keeps_try hb fun accounts haccounts => ?_
    exact keeps_of_challenges hctl hb (chain_setAccounts (accountsMove_changeKey haccounts)) rfl rfl
      (keyed_changeKey haccounts)
  | newOrder srv accountId payload =>
    exact keeps_try hb fun account _ => keeps_try hb fun db hdb => keeps_newOrder hctl hb hdb
  | order srv accountId orderId =>
    refine keeps_try hb fun account _ => keeps_try hb fun o ho => ?_
    have hchain := @chain_refresh E Set.univ s now o (Table.get?_key (Table.mem_of_get? (loadOrder_ok ho).1))
    exact (Quiet.of_challenges hchain (refreshOrder_challenges now o s.db) rfl
      (refreshOrder_accounts now o s.db)).keeps hctl hb
  | authorization srv accountId authzId payload =>
    obtain rfl : srv.config = cfg := hcfg _ rfl
    exact keeps_postAuthorization hctl hb
  | challenge srv accountId challengeId payload =>
    obtain rfl : srv.config = cfg := hcfg _ rfl
    exact keeps_postChallenge hctl hb hk hmeets
  | finalize f plan =>
    obtain ⟨hc, hlog, haccounts⟩ := @untouched_postFinalize E s f plan
    exact keeps_of_challenges hctl hb (chain_postFinalize f plan) hc hlog fun hk => haccounts ▸ hk
  | maintain => exact keeps_of_challenges hctl hb (chain_maintain now) rfl rfl id

/-! ### The lookups of a request -/

/-- the session an outcome leaves, before its commit or rollback -/
def ended : Outcome → Session
  | .ok t => t
  | .error r => r.session

theorem finish_log (db : Db) (x : Outcome) : (finish db x).log = (ended x).log := by
  cases x with
  | ok t => rfl
  | error r =>
    unfold finish ended
    dsimp only
    split_ifs <;> rfl

/-- the poll a request starts with -/
def poll (E : Env) (now : DateTime) (s : Session) : Request E → Outcome
  | .authorization srv accountId authzId _ => do
    let account ← kidAccount srv accountId s
    let a ← s.try (loadAuthz srv.ca.id account.id authzId s.db)
    pollAuthz E srv now a s
  | .challenge srv accountId challengeId _ => do
    let account ← kidAccount srv accountId s
    let (_, a) ← s.try (loadChallenge srv.ca.id account.id challengeId s.db)
    pollAuthz E srv now a s
  | _ => .ok s

/-- the session after that poll -/
def polled (E : Env) (now : DateTime) (s : Session) (r : Request E) : Session := ended (poll E now s r)

theorem made_of_log (h : dnsAttempts t.log = dnsAttempts s.log) : Made s t :=
  ⟨[], by simp [h], by simp, fun e he => absurd he List.not_mem_nil⟩

theorem made_of_looked (h : Looked E cfg now s t c a e) (hst : c.status = .pending ∨ c.status = .processing) :
    Made s t := by
  refine ⟨[e], h.log, by simp, fun e' he' => ?_⟩
  rw [List.mem_singleton.1 he']
  exact h.isOpen hst

theorem made_finish {db : Db} {x : Outcome} (h : Made s (ended x)) : Made s (finish db x) := by
  unfold Made at h ⊢
  rw [finish_log]
  exact h

/-- a call before the poll leaves the session alone -/
theorem made_try {α : Type} {x : Result α} {k k' : α → Outcome}
    (h : ∀ a, x = .ok a → Made s (ended (k a)) ∧ Made (ended (k a)) (ended (k' a))) :
    Made s (ended (s.try x >>= k)) ∧ Made (ended (s.try x >>= k)) (ended (s.try x >>= k')) := by
  cases x with
  | error exc => exact ⟨made_of_log rfl, made_of_log rfl⟩
  | ok a => exact h a rfl

/-- a poll, and what the request does then -/
theorem made_poll (hctl : Controlled E s) (ha : s.db.authzs.get? a.id = some a) {k : Session → Outcome}
    (hk : ∀ s₁, pollAuthz E srv now a s = .ok s₁ → Controlled E s₁ → Made s₁ (ended (k s₁))) :
    Made s (ended (pollAuthz E srv now a s)) ∧
      Made (ended (pollAuthz E srv now a s)) (ended (pollAuthz E srv now a s >>= k)) := by
  have hpoll := @pollAuthz_spec E srv now s a hctl ha
  have hchained := @chained_pollAuthz E Set.univ s srv (Set.mem_univ srv) now a ha
  cases hresult : pollAuthz E srv now a s with
  | error r =>
    rw [hresult] at hpoll
    have hsession : r.session = s := hpoll
    exact ⟨made_of_log (by rw [ended, hsession]), made_of_log rfl⟩
  | ok s₁ =>
    rw [hresult] at hpoll hchained
    refine ⟨?_, hk s₁ hresult (hctl.chain hchained)⟩
    rcases hpoll with hquiet | ⟨d, e, hlooked⟩
    · exact made_of_log hquiet.log
    · have hdue := hlooked.isDue
      simp only [AcmeChallenge.due, Bool.and_eq_true, decide_eq_true_eq] at hdue
      exact made_of_looked hlooked.looked (.inr hdue.1.2)

theorem made_respond (hctl : Controlled E s) {account : AcmeAccount} {challengeId : ℤ} (hk : Keyed E s.db.accounts)
    (haccount : s.db.accounts.get? account.id = some account) :
    Made s (ended (respondChallenge E srv now account challengeId s)) := by
  have hrespond := @respondChallenge_spec E srv now s hctl account challengeId hk haccount
  cases hresult : respondChallenge E srv now account challengeId s with
  | ok t =>
    rw [hresult] at hrespond
    rcases hrespond with hquiet | ⟨c, a, e, hlooked, hst⟩
    · exact made_of_log hquiet.log
    · exact made_of_looked hlooked (.inl hst)
  | error r =>
    rw [hresult] at hrespond
    rcases hrespond with ⟨_, hquiet⟩ | ⟨_, hlog, _⟩
    · exact made_of_log hquiet.log
    · exact made_of_log hlog

theorem made_deactivate (hctl : Controlled E s) {caId accountId authzId : ℤ} :
    Made s (ended (do
      let a ← s.try (loadAuthz caId accountId authzId s.db)
      let db ← s.try (deactivateAuthz now a s.db)
      .ok (setDb s db))) := by
  cases hload : loadAuthz caId accountId authzId s.db with
  | error x => exact made_of_log rfl
  | ok b =>
    obtain ⟨db, hdeactivate, hquiet⟩ := @deactivateAuthz_quiet E now s b hctl (loadAuthz_ok hload).1
    simp only [Session.try, bind, Except.bind, hdeactivate]
    exact made_of_log hquiet.log

/-- a request without a poll, that does not go to the network -/
theorem logs_try {α : Type} {x : Result α} {k : α → Outcome} (h : ∀ a, x = .ok a → (ended (k a)).log = s.log) :
    (ended (s.try x >>= k)).log = s.log := by
  cases x with
  | error exc => rfl
  | ok a => exact h a rfl

theorem made_of_logs {db : Db} {x : Outcome} (h : (ended x).log = s.log) : Made s (finish db x) :=
  made_of_log (by rw [finish_log, h])

/-- the lookups of a request: at most one in its poll, and at most one after it, each open when it is made -/
theorem made_handle (hctl : Controlled E s) (hk : Keyed E s.db.accounts) {lag : ℕ} (r : Request E) :
    Made s (polled E now s r) ∧ Made (polled E now s r) (handle E now lag s r) := by
  cases r with
  | authorization srv accountId authzId payload =>
    refine (made_try fun account _ => made_try fun a ha => ?_).imp_right made_finish
    refine made_poll hctl (loadAuthz_ok ha).1 fun s₁ _ hctl₁ => ?_
    by_cases hasks : asksDeactivation payload = true
    · rw [if_pos hasks]
      exact made_deactivate hctl₁
    · rw [if_neg hasks]
      exact made_of_log rfl
  | challenge srv accountId challengeId payload =>
    refine (made_try fun account hkid => made_try fun r hr => ?_).imp_right made_finish
    obtain ⟨haccount, _⟩ := @kidAccount_ok s srv accountId account (by rw [kidAccount, hkid]; rfl)
    refine made_poll hctl (loadChallenge_ok hr).2.1 fun s₁ hresult hctl₁ => ?_
    have haccounts := pollAuthz_accounts hresult
    cases payload with
    | none => exact made_of_log rfl
    | some fields => exact made_respond hctl₁ (by rw [haccounts]; exact hk) (by rw [haccounts]; exact haccount)
  | newAccount srv v => exact ⟨made_of_log rfl, made_of_logs (logs_try fun _ _ => rfl)⟩
  | updateAccount srv accountId payload =>
    refine ⟨made_of_log rfl, made_of_logs (logs_try fun account _ => ?_)⟩
    by_cases hempty : payload.isEmpty = true
    · rw [if_pos hempty]
      rfl
    · rw [if_neg hempty]
      exact logs_try fun _ _ => rfl
  | keyChange srv accountId inner => exact ⟨made_of_log rfl, made_of_logs (logs_try fun _ _ => logs_try fun _ _ => rfl)⟩
  | newOrder srv accountId payload => exact ⟨made_of_log rfl, made_of_logs (logs_try fun _ _ => logs_try fun _ _ => rfl)⟩
  | order srv accountId orderId => exact ⟨made_of_log rfl, made_of_logs (logs_try fun _ _ => logs_try fun _ _ => rfl)⟩
  | finalize f plan => exact ⟨made_of_log rfl, made_of_log (untouched_postFinalize f plan).log⟩
  | maintain => exact ⟨made_of_log rfl, made_of_log rfl⟩

end Served

/-! ## (3) Runs -/

variable {E : Env}

/-- a dns-01 challenge is within its budget, and not stuck -/
structure InBudget (cfg : Config) (s : Session) (c : AcmeChallenge) : Prop where
  bounded : ((lookups s.log c.id).length : ℤ) ≤ maxAttempts cfg
  spaced : Spaced cfg (lookups s.log c.id)
  waiting : c.status = .processing → ∀ a ∈ s.db.authzs, a.id = c.authorizationId → a.status = .pending →
    (∃ next, c.nextAttemptAt = some next) ∧ c.attempts < maxAttempts cfg

/-- what a run rests on, in every state -/
structure Kept (E : Env) (cfg : Config) (s : St) : Prop where
  controlled : Controlled E s.session
  budget : Budget cfg s.session
  keyed : Keyed E s.session.db.accounts

theorem Kept.inBudget {cfg : Config} {s : St} (h : Kept E cfg s) {c : AcmeChallenge} (hc : c ∈ s.session.db.challenges)
    (htype : c.type = .dns01) : InBudget cfg s.session c := by
  have hwithin := h.budget.within c hc htype
  refine ⟨hwithin.counted ▸ hwithin.bounded, hwithin.spaced, fun hst a ha hid hp => ?_⟩
  obtain ⟨next, hnext, hmore, _⟩ := hwithin.waiting hst a ha hid hp
  exact ⟨⟨next, hnext⟩, hmore⟩

/-- the step is served with the configuration, and not interrupted -/
def Counted (cfg : Config) (s : St) (o : Op E) : Prop :=
  (∀ c ∈ configOf o.request, c = cfg) ∧ ¬Interrupted E (s.now + o.wait) o.lag s.session o.request

theorem kept_step {cfg : Config} {s : St} {o : Op E} (hcounted : Counted cfg s o) (h : Kept E cfg s) :
    Kept E cfg (step E s o) := by
  obtain ⟨hcfg, hmeets⟩ := hcounted
  have hconfig : configOf (atTime E (s.now + o.wait) o.request) = configOf o.request := by cases o.request <;> rfl
  have hinterrupted : Interrupted E (s.now + o.wait) o.lag s.session (atTime E (s.now + o.wait) o.request) ↔
      Interrupted E (s.now + o.wait) o.lag s.session o.request := by cases o.request <;> exact Iff.rfl
  have hkeeps := @budget_handle E cfg (s.now + o.wait) s.session o.lag (atTime E (s.now + o.wait) o.request) h.controlled
    h.budget h.keyed (hconfig ▸ hcfg) (fun hi => hmeets (hinterrupted.1 hi))
  exact ⟨h.controlled.handle _ _ _, hkeeps.budget, hkeeps.keyed h.keyed⟩

/-- **(3) The retry budget.** In every run from a server without orders whose accounts have keys with a thumbprint, served
with one configuration, in which no request is interrupted: every dns-01 challenge is within its budget and not stuck, in
the state reached, and each request along the way makes at most one lookup in its poll and at most one after it, each for a
challenge that is open at that moment. -/
theorem budget_run (cfg : Config) (accounts : AccountTable) (eabKeys : EabTable) (csrs : CsrTable)
    (certificates : CertTable)
    (now : DateTime) (hk : Keyed E accounts) (ops : List (Op E))
    (hcounted : Meets (step E) (Counted cfg) (init accounts eabKeys csrs certificates now) ops) :
    let reached := run (step E) (init accounts eabKeys csrs certificates now)
    (∀ c ∈ (reached ops).session.db.challenges, c.type = .dns01 → InBudget cfg (reached ops).session c) ∧
      ∀ pre o post, ops = pre ++ o :: post →
        Made (reached pre).session (polled E ((reached pre).now + o.wait) (reached pre).session o.request) ∧
          Made (polled E ((reached pre).now + o.wait) (reached pre).session o.request) (reached (pre ++ [o])).session := by
  intro reached
  have hinit : Kept E cfg (init accounts eabKeys csrs certificates now) :=
    ⟨controlled_init accounts eabKeys csrs certificates now, Budget.init _ rfl, hk⟩
  have hkept : ∀ l, Meets (step E) (Counted cfg) (init accounts eabKeys csrs certificates now) l → Kept E cfg (reached l) :=
    fun l hl => run_invariant_of_meets (fun s o hC hI => kept_step hC hI) hinit hl
  refine ⟨fun c hc htype => (hkept ops hcounted).inBudget hc htype, fun pre o post hops => ?_⟩
  subst hops
  have hpre := hkept pre (meets_append.1 hcounted).1
  have hsnoc : reached (pre ++ [o]) = step E (reached pre) o := run_snoc _ _ pre o
  have hpoll : polled E ((reached pre).now + o.wait) (reached pre).session
    (atTime E ((reached pre).now + o.wait) o.request) =
      polled E ((reached pre).now + o.wait) (reached pre).session o.request := by cases o.request <;> rfl
  have hmade := @made_handle E ((reached pre).now + o.wait) (reached pre).session hpre.controlled hpre.keyed o.lag
    (atTime E ((reached pre).now + o.wait) o.request)
  rw [hpoll] at hmade
  rw [hsnoc]
  exact hmade

/-- every resolver answers nothing, and every host redirects to a URL that `urlsplit` rejects -/
def redirectingNet : Net :=
  { silentNet with
    urlsplit := fun url => if url = "http://[".toList then .error (.valueError "Invalid IPv6 URL")
      else .ok ⟨"http".toList, "a.example".toList, "a.example".toList⟩
    openUrl := fun _ _ => .httpError 302 "http://[".toList }

/-- three lookups for a challenge, ten seconds apart -/
def threeLookups : Server :=
  { sampleServer with config := { sampleServer.config with dns01MaxAttempts := 3 }, net := redirectingNet }

/-- an order, and the client's word that its dns-01 challenge is provisioned -/
def answeredRun : List (Op sampleEnv) :=
  [⟨0, 0, .newOrder threeLookups 1 (some [("identifiers",
      .arr [.obj [("type", .str "dns"), ("value", .str "a.example")]])])⟩,
    ⟨0, 0, .challenge threeLookups 1 2 (some [])⟩]

def sampleStart : St := init (Table.empty.insert sampleAccount sampleAccount_id) Table.empty Table.empty Table.empty 0

/-- then a poll of the authorization, when the next lookup is due -/
def polledRun : List (Op sampleEnv) := answeredRun ++ [⟨10 * 1000000, 0, .authorization threeLookups 1 1 none⟩]

theorem budget_run_sample :
    (run (step sampleEnv) sampleStart polledRun).session.db.challenges.rows.map (·.type) = [.http01, .dns01] ∧
      ∀ c ∈ (run (step sampleEnv) sampleStart polledRun).session.db.challenges, c.type = .dns01 →
        InBudget threeLookups.config (run (step sampleEnv) sampleStart polledRun).session c := by
  have hkeyed : Keyed sampleEnv (Table.empty.insert sampleAccount sampleAccount_id) := by
    intro account haccount
    rcases Table.mem_insert.1 haccount with hold | rfl
    · exact absurd hold (Table.not_mem_empty account)
    · exact ⟨_, rfl⟩
  have hcounted : Meets (step sampleEnv) (Counted threeLookups.config) sampleStart polledRun := by
    simp only [polledRun, answeredRun, List.cons_append, List.nil_append, Meets]
    refine ⟨⟨fun c hc => (Option.some.inj hc).symm, id⟩, ⟨fun c hc => (Option.some.inj hc).symm, ?_⟩,
      ⟨fun c hc => (Option.some.inj hc).symm, id⟩, trivial⟩
    -- challenge 2 is the dns-01 challenge
    rintro ⟨account, c, a, d, _, hanswers, _, htype, _⟩
    have hget := (loadChallenge_ok hanswers.loaded).1
    have hdns : ((run (step sampleEnv) sampleStart (answeredRun.take 1)).session.db.challenges.get? 2).map (·.type) =
        some .dns01 := by decide +kernel
    have hsame : ((run (step sampleEnv) sampleStart (answeredRun.take 1)).session.db.challenges.get? 2).map (·.type) =
        some c.type := congrArg (Option.map (·.type)) hget
    rw [hdns, htype] at hsame
    cases hsame
  exact ⟨by decide +kernel,
    (budget_run threeLookups.config (Table.empty.insert sampleAccount sampleAccount_id) Table.empty Table.empty
    Table.empty 0 hkeyed polledRun hcounted).1⟩

/-! ## (4) Uncounted lookups -/

/-- then, when the next lookup is due, its word about the http-01 challenge, three times -/
def uncountedRun : List (Op sampleEnv) :=
  answeredRun ++ [⟨10 * 1000000, 0, .challenge threeLookups 1 1 (some [])⟩, ⟨0, 0, .challenge threeLookups 1 1 (some [])⟩,
    ⟨0, 0, .challenge threeLookups 1 1 (some [])⟩]

/-- the dns-01 challenge has four lookups, three of them at one time -/
theorem interrupted_lookups_uncounted :
    (∀ o ∈ uncountedRun, ∀ c ∈ configOf o.request, c = threeLookups.config) ∧
      maxAttempts threeLookups.config = 3 ∧ retryAfter threeLookups.config = 10 * second ∧
        ∃ c ∈ (run (step sampleEnv) sampleStart uncountedRun).session.db.challenges, c.type = .dns01 ∧
          lookups (run (step sampleEnv) sampleStart uncountedRun).session.log c.id =
            [0, 10 * second, 10 * second, 10 * second] ∧
          ¬InBudget threeLookups.config (run (step sampleEnv) sampleStart uncountedRun).session c := by
  have hconfig : ∀ o ∈ uncountedRun, ∀ c ∈ configOf o.request, c = threeLookups.config := by
    intro o ho c hc
    simp only [uncountedRun, answeredRun, List.mem_append, List.mem_cons, List.not_mem_nil, or_false] at ho
    rcases ho with (rfl | rfl) | rfl | rfl | rfl <;> exact (Option.some.inj hc).symm
  have hany : (run (step sampleEnv) sampleStart uncountedRun).session.db.challenges.rows.any
      (fun c => c.id = 2 ∧ c.type = .dns01) = true := by decide +kernel
  have hlookups : lookups (run (step sampleEnv) sampleStart uncountedRun).session.log 2 =
      [0, 10 * second, 10 * second, 10 * second] := by decide +kernel
  obtain ⟨c, hc, hcheck⟩ := List.any_eq_true.1 hany
  obtain ⟨hid, htype⟩ := of_decide_eq_true hcheck
  refine ⟨hconfig, by decide, by decide, c, hc, htype, hid ▸ hlookups, fun hbudget => ?_⟩
  have hbounded := hbudget.bounded
  rw [hid, hlookups] at hbounded
  exact absurd hbounded (by decide)

end Chancery.Acme.DnsBudget
