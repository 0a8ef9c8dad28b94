/-
No ACME certificate without proof of control.

(1) `Control`: what the rows and the log of attempts have to do with each other. Every identifier of an order has its
authorization, every challenge its authorization, and every status on the way up is earned: a valid challenge by an
attempt in the log, a valid authorization by a valid challenge, a ready or processing order by all its authorizations.

(2) Every write keeps it (`Control.write`), so every request does, however it ends, and so does every run.

(3) Whenever finalize reaches the signing step, each identifier of the order was proven by an attempt earlier in the log,
and every attempt in the log is of the server of a request of the run (`signing_proven`). The run `provenRun` shows that
the step is reached.

The network answers anything. The log entry of an attempt holds the queries that were made and the answers to them, and
`Proven` says of them that they are the network's.
-/
import Mathlib.Tactic
import Chancery.Routes.Acme
import Chancery.Scenarios.AcmeCertificateNames

namespace Chancery.Acme

open Chancery.Core CertificateNames

namespace ControlOfNames

variable {E : Env} {S : Set Server}

/-! ## (1) The invariant -/

/-- the authorization of the order for this identifier: its base name and its wildcard flag -/
def Covers (o : AcmeOrder) (i : Text) (a : AcmeAuthorization) : Prop :=
  a.orderId = o.id ∧ a.identifierValue = baseName i ∧ a.wildcard = isWildcard i

/-- the order of an authorization -/
def Owns (o : AcmeOrder) (a : AcmeAuthorization) : Prop :=
  o.id = a.orderId ∧ o.accountId = a.accountId ∧ o.expires = a.expires

structure Control (E : Env) (db : Db) (log : List Event) : Prop where
  covered : ∀ o ∈ db.orders, ∀ i ∈ o.identifiers, ∃ a ∈ db.authzs, Covers o i a
  owned : ∀ a ∈ db.authzs, ∃ o ∈ db.orders, Owns o a
  plain : ∀ a ∈ db.authzs, isWildcard a.identifierValue = false
  offered : ∀ c ∈ db.challenges, ∃ a ∈ db.authzs, a.id = c.authorizationId ∧ (a.wildcard = true → c.type = .dns01)
  proven : ∀ c ∈ db.challenges, c.status = .valid → ∀ a ∈ db.authzs, a.id = c.authorizationId →
    ∃ e, .attempt e ∈ log ∧ Proves E e c a.identifierValue a.accountId a.expires
  won : ∀ a ∈ db.authzs, a.status = .valid → ∃ c ∈ db.challenges, c.authorizationId = a.id ∧ c.status = .valid
  passed : ∀ o ∈ db.orders, o.status = .ready ∨ o.status = .processing →
    ∀ a ∈ db.authorizationsOf o.id, a.status = .valid

theorem Control.init (accounts : AccountTable) (eabKeys : EabTable) (csrs : CsrTable) (certificates : CertTable) :
    Control E ⟨accounts, eabKeys, Table.empty, Table.empty, Table.empty, csrs, certificates⟩ [] where
  covered o ho := absurd ho (Table.not_mem_empty o)
  owned a ha := absurd ha (Table.not_mem_empty a)
  plain a ha := absurd ha (Table.not_mem_empty a)
  offered c hc := absurd hc (Table.not_mem_empty c)
  proven c hc := absurd hc (Table.not_mem_empty c)
  won a ha := absurd ha (Table.not_mem_empty a)
  passed o ho := absurd ho (Table.not_mem_empty o)

/-- a longer log proves what a shorter one proves -/
theorem Control.mono {db : Db} {log log' : List Event} (h : Control E db log) (hlog : log ⊆ log') : Control E db log' where
  covered := h.covered
  owned := h.owned
  plain := h.plain
  offered := h.offered
  proven c hc hv a ha hid := by
    obtain ⟨e, he, hproves⟩ := h.proven c hc hv a ha hid
    exact ⟨e, hlog he, hproves⟩
  won := h.won
  passed := h.passed

/-- the tables that orders do not depend on -/
theorem Control.rest {db db' : Db} {log : List Event} (h : Control E db log) (ho : db'.orders = db.orders)
    (ha : db'.authzs = db.authzs) (hc : db'.challenges = db.challenges) : Control E db' log := by
  cases db
  cases db'
  cases ho
  cases ha
  cases hc
  exact ⟨h.covered, h.owned, h.plain, h.offered, h.proven, h.won, h.passed⟩

/-! ## (2) Every write keeps it -/

theorem Control.orders {db : Db} {log : List Event} (h : Control E db log) {f : AcmeOrder → AcmeOrder}
    {hf : ∀ o, (f o).id = o.id} (hedge : ∀ o ∈ db.orders, OrderEdge db o (f o)) :
    Control E { db with orders := db.orders.mapRows f hf } log where
  covered o' ho' i hi := by
    obtain ⟨o, ho, rfl⟩ := List.mem_map.1 ho'
    obtain ⟨hid, _, hids, _⟩ := orderEdge_keeps (hedge o ho)
    rw [hids] at hi
    obtain ⟨a, ha, hcov⟩ := h.covered o ho i hi
    exact ⟨a, ha, hcov.1.trans hid.symm, hcov.2⟩
  owned a ha := by
    obtain ⟨o, ho, hown⟩ := h.owned a ha
    obtain ⟨hid, hacc, _, hexp⟩ := orderEdge_keeps (hedge o ho)
    exact ⟨f o, List.mem_map_of_mem ho, hid.trans hown.1, hacc.trans hown.2.1, hexp.trans hown.2.2⟩
  plain := h.plain
  offered := h.offered
  proven := h.proven
  won := h.won
  passed o' ho' hst := by
    obtain ⟨o, ho, rfl⟩ := List.mem_map.1 ho'
    rw [(orderEdge_keeps (hedge o ho)).1]
    rcases orderEdge_passed (hedge o ho) hst with hold | hall
    · exact h.passed o ho hold
    · exact hall

theorem Control.authzs {db : Db} {log : List Event} (h : Control E db log) {f : AcmeAuthorization → AcmeAuthorization}
    {hf : ∀ a, (f a).id = a.id} (hedge : ∀ a ∈ db.authzs, AuthzEdge db a (f a)) :
    Control E { db with authzs := db.authzs.mapRows f hf } log where
  covered o ho i hi := by
    obtain ⟨a, ha, hcov⟩ := h.covered o ho i hi
    obtain ⟨_, hord, _, hval, hwild, _⟩ := authzEdge_keeps (hedge a ha)
    exact ⟨f a, List.mem_map_of_mem ha, hord.trans hcov.1, hval.trans hcov.2.1, hwild.trans hcov.2.2⟩
  owned a' ha' := by
    obtain ⟨a, ha, rfl⟩ := List.mem_map.1 ha'
    obtain ⟨_, hord, hacc, _, _, hexp⟩ := authzEdge_keeps (hedge a ha)
    obtain ⟨o, ho, hown⟩ := h.owned a ha
    exact ⟨o, ho, hown.1.trans hord.symm, hown.2.1.trans hacc.symm, hown.2.2.trans hexp.symm⟩
  plain a' ha' := by
    obtain ⟨a, ha, rfl⟩ := List.mem_map.1 ha'
    rw [(authzEdge_keeps (hedge a ha)).2.2.2.1]
    exact h.plain a ha
  offered c hc := by
    obtain ⟨a, ha, hid, hwild⟩ := h.offered c hc
    obtain ⟨hkid, _, _, _, hkwild, _⟩ := authzEdge_keeps (hedge a ha)
    exact ⟨f a, List.mem_map_of_mem ha, hkid.trans hid, fun hw => hwild (hkwild ▸ hw)⟩
  proven c hc hv a' ha' hid := by
    obtain ⟨a, ha, rfl⟩ := List.mem_map.1 ha'
    obtain ⟨hkid, _, hacc, hval, _, hexp⟩ := authzEdge_keeps (hedge a ha)
    rw [hacc, hval, hexp]
    exact h.proven c hc hv a ha (hkid ▸ hid)
  won a' ha' hv := by
    obtain ⟨a, ha, rfl⟩ := List.mem_map.1 ha'
    rw [(authzEdge_keeps (hedge a ha)).1]
    rcases authzEdge_won (hedge a ha) hv with hold | hnew
    · exact h.won a ha hold
    · exact hnew
  passed o ho hst a' ha' := by
    obtain ⟨hmem, hord⟩ := List.mem_filter.1 ha'
    obtain ⟨a, ha, rfl⟩ := List.mem_map.1 hmem
    obtain ⟨_, hkord, _⟩ := authzEdge_keeps (hedge a ha)
    rw [hkord] at hord
    exact authzEdge_valid (hedge a ha) (h.passed o ho hst a (List.mem_filter.2 ⟨ha, hord⟩))

theorem proves_of_keeps {e : Attempt} {c c' : AcmeChallenge} {base : Text} {accountId : ℤ} {expires : DateTime}
    (hid : c'.id = c.id) (htype : c'.type = c.type) (htoken : c'.token = c.token)
    (h : Proves E e c base accountId expires) : Proves E e c' base accountId expires := by
  unfold Proves at h ⊢
  rw [hid, htype, htoken]
  exact h

theorem Control.challenges {s : Session} (h : Control E s.db s.log) {f : AcmeChallenge → AcmeChallenge}
    {hf : ∀ c, (f c).id = c.id} (hedge : ∀ c ∈ s.db.challenges, ChallengeEdge E s c (f c)) :
    Control E { s.db with challenges := s.db.challenges.mapRows f hf } s.log where
  covered := h.covered
  owned := h.owned
  plain := h.plain
  offered c' hc' := by
    obtain ⟨c, hc, rfl⟩ := List.mem_map.1 hc'
    obtain ⟨_, hauthz, htype, _⟩ := challengeEdge_keeps (hedge c hc)
    obtain ⟨a, ha, hid, hwild⟩ := h.offered c hc
    exact ⟨a, ha, hid.trans hauthz.symm, fun hw => htype.trans (hwild hw)⟩
  proven c' hc' hv a ha hid := by
    obtain ⟨c, hc, rfl⟩ := List.mem_map.1 hc'
    obtain ⟨hkid, hauthz, htype, htoken⟩ := challengeEdge_keeps (hedge c hc)
    rw [hauthz] at hid
    rcases challengeEdge_proven (hedge c hc) hv with hold | ⟨a', ha', hid', e, he, hproves⟩
    · obtain ⟨e, he, hproves⟩ := h.proven c hc hold a ha hid
      exact ⟨e, he, proves_of_keeps hkid htype htoken hproves⟩
    · have hsame : a = a' := Table.eq_of_key ha ha' (hid.trans hid'.symm)
      rw [hsame]
      exact ⟨e, he, proves_of_keeps hkid htype htoken hproves⟩
  won a ha hv := by
    obtain ⟨c, hc, hca, hcv⟩ := h.won a ha hv
    exact ⟨f c, List.mem_map_of_mem hc, (challengeEdge_keeps (hedge c hc)).2.1.trans hca,
      challengeEdge_valid (hedge c hc) hcv⟩
  passed := h.passed

theorem Control.newOrder {srv : Server} {db : Db} {log : List Event} (h : Control E db log) {accountId : ℤ}
    {identifiers : List Text} {expires : DateTime} (hbase : ∀ i ∈ identifiers, isWildcard (baseName i) = false) :
    Control E (addAuthorizations srv db.orders.nextKey accountId expires identifiers
      { db with orders := db.orders.insert (fun id =>
          ⟨id, accountId, srv.ca.id, .pending, identifiers, expires, none, none, none, none⟩) fun _ => rfl }) log := by
  obtain ⟨horders, hauthzs, hchallenges, heach, hnewAuthz, hnewChallenge⟩ := @added_addAuthorizations srv db.orders.nextKey
    accountId expires identifiers { db with orders := db.orders.insert (fun id =>
      ⟨id, accountId, srv.ca.id, .pending, identifiers, expires, none, none, none, none⟩) fun _ => rfl }
  have hmem : ∀ o, o ∈ (addAuthorizations srv db.orders.nextKey accountId expires identifiers
      { db with orders := db.orders.insert (fun id =>
          ⟨id, accountId, srv.ca.id, .pending, identifiers, expires, none, none, none, none⟩) fun _ => rfl }).orders ↔
      o ∈ db.orders ∨ o = ⟨db.orders.nextKey, accountId, srv.ca.id, .pending, identifiers, expires, none, none, none,
        none⟩ := by
    intro o
    rw [horders]
    exact Table.mem_insert
  constructor
  · intro o ho i hi
    rcases (hmem o).1 ho with hold | rfl
    · obtain ⟨a, ha, hcov⟩ := h.covered o hold i hi
      exact ⟨a, hauthzs a ha, hcov⟩
    · exact heach i hi
  · intro a ha
    rcases hnewAuthz a ha with hold | ⟨hord, hacc, hexp, _⟩
    · obtain ⟨o, ho, hown⟩ := h.owned a hold
      exact ⟨o, (hmem o).2 (Or.inl ho), hown⟩
    · exact ⟨_, (hmem _).2 (Or.inr rfl), hord.symm, hacc.symm, hexp.symm⟩
  · intro a ha
    rcases hnewAuthz a ha with hold | ⟨_, _, _, _, i, hi, hval⟩
    · exact h.plain a hold
    · rw [hval]
      exact hbase i hi
  · intro c hc
    rcases hnewChallenge c hc with hold | ⟨_, hoff⟩
    · obtain ⟨a, ha, hoff⟩ := h.offered c hold
      exact ⟨a, hauthzs a ha, hoff⟩
    · exact hoff
  · intro c hc hv a ha hid
    rcases hnewChallenge c hc with hold | ⟨hst, _⟩
    · obtain ⟨a', ha', hid', _⟩ := h.offered c hold
      rw [Table.eq_of_key ha (hauthzs a' ha') (hid.trans hid'.symm)]
      exact h.proven c hold hv a' ha' hid'
    · rw [hst] at hv
      cases hv
  · intro a ha hv
    rcases hnewAuthz a ha with hold | ⟨_, _, _, hst, _⟩
    · obtain ⟨c, hc, hca⟩ := h.won a hold hv
      exact ⟨c, hchallenges c hc, hca⟩
    · rw [hst] at hv
      cases hv
  · intro o ho hst a ha
    obtain ⟨hmema, hord⟩ := List.mem_filter.1 ha
    rcases (hmem o).1 ho with hold | rfl
    · rcases hnewAuthz a hmema with haold | ⟨hnew, _⟩
      · exact h.passed o hold hst a (List.mem_filter.2 ⟨haold, hord⟩)
      · -- a new authorization belongs to the new order
        have hkey := Table.key_lt_nextKey hold
        rw [beq_iff_eq, hnew] at hord
        omega
    · simp at hst

theorem Control.write {s s' : Session} (h : Control E s.db s.log) (hw : Write E S s s') : Control E s'.db s'.log := by
  cases hw with
  | orders f hf hedge => exact h.orders hedge
  | authzs f hf hedge => exact h.authzs hedge
  | challenges f hf hedge => exact h.challenges hedge
  | newOrder srv accountId identifiers expires hparse =>
    obtain ⟨raw, hparse⟩ := hparse
    exact h.newOrder (parseIdentifiers_base hparse)
  | rest db ho ha hc _ _ => exact h.rest ho ha hc
  | attempt e he => exact h.mono (List.subset_append_left _ _)
  | signing o ho hst => exact h.mono (List.subset_append_left _ _)

/-! ## (3) The signing step -/

/-- what shows control of a base name: the host itself, or the TXT records under it -/
def controlTarget (type : ChallengeType) (base : Text) : Text :=
  match type with
  | .http01 => base
  | .dns01 => "_acme-challenge.".toList ++ base

/-- the identifier has an authorization of the order, and in an attempt in the log at one of its challenges, before the
order's expiry, the network that was asked for the base name showed the key authorization made of the challenge's token and
the key the order's account had then -/
def Proven (E : Env) (log : List Event) (db : Db) (o : AcmeOrder) (i : Text) : Prop :=
  ∃ a ∈ db.authzs, a.orderId = o.id ∧ a.identifierValue = baseName i ∧ a.wildcard = isWildcard i ∧
    ∃ c ∈ db.challenges, c.authorizationId = a.id ∧ (isWildcard i = true → c.type = .dns01) ∧
      ∃ e, .attempt e ∈ log ∧ e.challengeId = c.id ∧ e.type = c.type ∧ e.time < o.expires ∧
        ∃ account authorization, e.accounts.get? o.accountId = some account ∧
          keyAuthorization E c.token account.jwk = .ok authorization ∧
          Shows e.server c.type (controlTarget c.type (baseName i)) c.token (expectedText E c.type authorization) e.asked

theorem attemptTarget_eq {type : ChallengeType} {base : Text} (h : isWildcard base = false) :
    attemptTarget type base = controlTarget type base := by
  cases type with
  | http01 => rfl
  | dns01 =>
    unfold attemptTarget controlTarget txtName
    unfold isWildcard at h
    simp [h]

/-- the chain from a processing order to the attempts -/
theorem Control.proves {db : Db} {log : List Event} (h : Control E db log) {o : AcmeOrder} (ho : o ∈ db.orders)
    (hst : o.status = .processing) : ∀ i ∈ o.identifiers, Proven E log db o i := by
  intro i hi
  obtain ⟨a, ha, hord, hval, hwild⟩ := h.covered o ho i hi
  have hvalid : a.status = .valid :=
    h.passed o ho (Or.inr hst) a (List.mem_filter.2 ⟨ha, beq_iff_eq.2 hord⟩)
  obtain ⟨c, hc, hca, hcv⟩ := h.won a ha hvalid
  obtain ⟨e, he, hid, htype, htime, account, authorization, haccount, hauth, hshows⟩ :=
    h.proven c hc hcv a ha hca.symm
  -- the authorization's account and expiry are the order's
  obtain ⟨o', ho', hoid, hacc, hexp⟩ := h.owned a ha
  have hsame : o' = o := Table.eq_of_key ho' ho (hoid.trans hord)
  rw [hsame] at hacc hexp
  refine ⟨a, ha, hord, hval, hwild, c, hc, hca, fun hw => ?_, e, he, hid, htype, ?_, account, authorization, ?_, hauth,
    ?_⟩
  · obtain ⟨a', ha', haid, hdns⟩ := h.offered c hc
    have hsame' : a' = a := Table.eq_of_key ha' ha (haid.trans hca)
    rw [hsame'] at hdns
    exact hdns (hwild.trans hw)
  · rw [hexp]
    exact htime
  · rw [hacc]
    exact haccount
  · rw [attemptTarget_eq (h.plain a ha), hval] at hshows
    exact hshows

/-- the rows and the log agree, and every signing step in the log came after the proofs -/
structure Controlled (E : Env) (s : Session) : Prop where
  rows : Control E s.db s.log
  signings : ∀ pre o db post, s.log = pre ++ .signing o db :: post → ∀ i ∈ o.identifiers, Proven E pre db o i

/-- an entry of a log is an earlier entry or the last one -/
theorem split_record {log : List Event} {e x : Event} {pre post : List Event} (h : log ++ [e] = pre ++ x :: post) :
    (∃ post', log = pre ++ x :: post') ∨ pre = log ∧ x = e := by
  rcases List.eq_nil_or_concat post with rfl | ⟨post', y, rfl⟩
  · obtain ⟨hlog, hx⟩ := List.append_inj' h rfl
    exact Or.inr ⟨hlog.symm, (List.singleton_inj.1 hx).symm⟩
  · rw [List.concat_eq_append, ← List.cons_append, ← List.append_assoc] at h
    exact Or.inl ⟨post', (List.append_inj' h rfl).1⟩

theorem Controlled.write {s s' : Session} (h : Controlled E s) (hw : Write E S s s') : Controlled E s' := by
  refine ⟨h.rows.write hw, ?_⟩
  cases hw with
  | attempt e he =>
    intro pre o db post hlog
    rcases split_record hlog with ⟨post', hold⟩ | ⟨_, hx⟩
    · exact h.signings pre o db post' hold
    · cases hx
  | signing o ho hst =>
    intro pre o' db post hlog
    rcases split_record hlog with ⟨post', hold⟩ | ⟨rfl, hx⟩
    · exact h.signings pre o' db post' hold
    · cases hx
      exact h.rows.proves ho hst
  | _ => exact h.signings

theorem Controlled.chain {s s' : Session} (h : Controlled E s) (hw : Chain E S s s') : Controlled E s' := by
  induction hw with
  | refl => exact h
  | tail _ hw ih => exact ih.write hw

theorem chain_log {s s' : Session} (hw : Chain E S s s') : s.log ⊆ s'.log := by
  induction hw with
  | refl => exact List.Subset.refl _
  | tail _ hw ih =>
    refine List.Subset.trans ih ?_
    cases hw with
    | attempt e he => exact List.subset_append_left _ _
    | signing o ho hst => exact List.subset_append_left _ _
    | _ => exact List.Subset.refl _

/-- a request keeps it; a rollback keeps the log -/
theorem Controlled.handle {s : Session} (h : Controlled E s) (now : DateTime) (lag : ℕ) (r : Request E) :
    Controlled E (handle E now lag s r) := by
  obtain ⟨t, hchain, heq | heq⟩ := @handle_writes E Set.univ s now lag r fun srv _ => Set.mem_univ srv
  · rw [heq]
    exact h.chain hchain
  · rw [heq]
    exact ⟨h.rows.mono (@chain_log E Set.univ s t hchain), (h.chain hchain).signings⟩

theorem controlled_init (accounts : AccountTable) (eabKeys : EabTable) (csrs : CsrTable) (certificates : CertTable)
    (now : DateTime) : Controlled E (init accounts eabKeys csrs certificates now).session :=
  ⟨Control.init accounts eabKeys csrs certificates, fun pre o db post h => by simp [Acme.init] at h⟩

theorem controlled_run (accounts : AccountTable) (eabKeys : EabTable) (csrs : CsrTable) (certificates : CertTable)
    (now : DateTime) (ops : List (Op E)) :
    Controlled E (run (step E) (init accounts eabKeys csrs certificates now) ops).session :=
  run_invariant (fun _ _ h => Controlled.handle h _ _ _) (controlled_init accounts eabKeys csrs certificates now) ops

/-- every attempt in the log is of one of these servers -/
def Served (S : Set Server) (log : List Event) : Prop := ∀ e, .attempt e ∈ log → e.server ∈ S

theorem Served.write {s s' : Session} (h : Served S s.log) (hw : Write E S s s') : Served S s'.log := by
  have hrecord : ∀ {x : Event}, (∀ e, x = .attempt e → e.server ∈ S) → Served S (s.record x).log := by
    intro x hx e he
    rcases List.mem_append.1 he with hold | hnew
    · exact h e hold
    · exact hx e (List.mem_singleton.1 hnew).symm
  cases hw with
  | attempt e he =>
    refine hrecord fun e' heq => ?_
    cases heq
    exact he
  | signing o ho hst => exact hrecord fun e heq => by cases heq
  | _ => exact h

theorem Served.chain {s s' : Session} (h : Served S s.log) (hw : Chain E S s s') : Served S s'.log := by
  induction hw with
  | refl => exact h
  | tail _ hw ih => exact ih.write hw

/-- a request makes its attempts with its own server -/
theorem Served.step {s : St} {o : Op E} (h : Served S s.session.log) (hS : ∀ srv, o.request.server = some srv → srv ∈ S) :
    Served S (step E s o).session.log := by
  obtain ⟨t, hchain, heq | heq⟩ := @handle_writes E S s.session (s.now + o.wait) o.lag (atTime E (s.now + o.wait) o.request)
    (by rw [server_atTime]; exact hS)
  all_goals
    have hlog : Served S t.log := h.chain hchain
    unfold Acme.step
    simp only [heq]
    exact hlog

/-- every attempt of a run is of the server of one of its requests -/
theorem served_run {ops : List (Op E)} (hS : ∀ o ∈ ops, ∀ srv, o.request.server = some srv → srv ∈ S) {s : St}
    (h : Served S s.session.log) : Served S (run (step E) s ops).session.log := by
  induction ops generalizing s with
  | nil => exact h
  | cons o ops ih => exact ih (fun p hp => hS p (List.mem_cons_of_mem _ hp)) (h.step (hS o List.mem_cons_self))

/-- **(3) No certificate without proof of control.** In every run from a server without orders, whatever the network
answers and however the requests end: when finalize reaches the signing step for an order, every identifier of the order
was proven before, by an attempt of a request of the run. -/
theorem signing_proven {accounts : AccountTable} {eabKeys : EabTable} {csrs : CsrTable} {certificates : CertTable}
    {now : DateTime} {ops : List (Op E)} {pre post : List Event} {o : AcmeOrder} {db : Db}
    (h : (run (step E) (init accounts eabKeys csrs certificates now) ops).session.log = pre ++ .signing o db :: post) :
    (∀ i ∈ o.identifiers, Proven E pre db o i) ∧
      ∀ e, .attempt e ∈ pre → ∃ op ∈ ops, op.request.server = some e.server := by
  refine ⟨(controlled_run accounts eabKeys csrs certificates now ops).signings pre o db post h, fun e he => ?_⟩
  have hserved := @served_run E {srv | ∃ op ∈ ops, op.request.server = some srv} ops (fun o ho srv hsrv => ⟨o, ho, hsrv⟩)
    (init accounts eabKeys csrs certificates now) (fun e he => by simp [Acme.init] at he)
  exact hserved e (by rw [h]; exact List.mem_append_left _ he)

def sampleAccount (id : ℤ) : AcmeAccount where
  id := id
  caId := 1
  jwk := [("kty", .str "RSA"), ("e", .str "AQAB"), ("n", .str "AQAB")]
  thumbprint := []
  status := .valid
  contact := none
  eabKeyId := none
  createdAt := 0
  lastSeenAt := none

theorem sampleAccount_id (id : ℤ) : (sampleAccount id).id = id := rfl

/-- every host answers with the key authorization of the first challenge -/
def answeringServer : Server :=
  { sampleServer with net := { silentNet with
      openUrl := fun _ _ => .response 200 []
      decode := fun _ => match keyAuthorization sampleEnv "token1".toList (sampleAccount 1).jwk with
        | .ok authorization => authorization
        | .error _ => [] } }

/-- an order, its http-01 challenge, and finalize -/
def provenRun : List (Op sampleEnv) :=
  [⟨0, 0, .newOrder answeringServer 1 (some [("identifiers",
      .arr [.obj [("type", .str "dns"), ("value", .str "a.example")]])])⟩,
    ⟨1, 1, .challenge answeringServer 1 1 (some [])⟩,
    ⟨1, 1, .finalize (sampleRequest oneNameCsr) smoothPlan⟩]

/-- the signing step for the order of `a.example` -/
def isSigning : Event → Bool
  | .attempt _ => false
  | .signing o _ => o.identifiers = ["a.example".toList]

/-- the signing step is reached, and the theorem applies to it -/
theorem provenRun_proven :
    ∃ pre o db post, (run (step sampleEnv)
      (init (Table.empty.insert sampleAccount sampleAccount_id) Table.empty Table.empty Table.empty 0)
      provenRun).session.log = pre ++ .signing o db :: post ∧ o.identifiers = ["a.example".toList] ∧
      (∀ i ∈ o.identifiers, Proven sampleEnv pre db o i) ∧
      ∀ e, .attempt e ∈ pre → ∃ op ∈ provenRun, op.request.server = some e.server := by
  have hsigns : (run (step sampleEnv)
    (init (Table.empty.insert sampleAccount sampleAccount_id) Table.empty Table.empty Table.empty 0)
      provenRun).session.log.any isSigning = true := by decide +kernel
  obtain ⟨x, hx, hsign⟩ := List.any_eq_true.1 hsigns
  obtain ⟨pre, post, hlog⟩ := List.append_of_mem hx
  cases x with
  | attempt e => cases hsign
  | signing o db => exact ⟨pre, o, db, post, hlog, of_decide_eq_true hsign, signing_proven hlog⟩

end ControlOfNames

end Chancery.Acme
