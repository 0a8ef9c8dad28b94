/-
The status life cycle of ACME objects.

(1) The edges (`OrderStatus.Next`, `AuthzStatus.Next`, `ChallengeStatus.Next`; for accounts `AccountStatus.Next`). Every
write moves the rows of all four tables along them (`LifeCycle.write`), so does every request, and so does every stretch
of a run.

(2) What the tables have to do with each other: the authorizations of an order that is ready, processing or valid are
valid, and an order is valid exactly when it is linked to a certificate, which is there (`Consistent`).

(3) `status_life_cycle` puts both together, for all runs. It assumes nothing about the network or about signing: a request
may also fail in ways that are no ValueError.
-/
import Mathlib.Tactic
import Chancery.Routes.Acme

namespace Chancery.Acme

open Chancery.Core Relation

namespace StatusLifeCycle

variable {E : Env} {S : Set Server}

/-! ## (1) The edges -/

inductive OrderStatus.Next : OrderStatus → OrderStatus → Prop
  | ready : Next .pending .ready
  | process : Next .ready .processing
  | issue : Next .processing .valid
  | fail {s : OrderStatus} (h : s = .pending ∨ s = .ready ∨ s = .processing) : Next s .invalid

inductive AuthzStatus.Next : AuthzStatus → AuthzStatus → Prop
  | validate : Next .pending .valid
  | fail : Next .pending .invalid
  | expire : Next .pending .expired
  | deactivate : Next .pending .deactivated

inductive ChallengeStatus.Next : ChallengeStatus → ChallengeStatus → Prop
  | process : Next .pending .processing
  | validate : Next .processing .valid
  | fail : Next .processing .invalid

/-- the four tables moved along their life cycles -/
structure LifeCycle (db db' : Db) : Prop where
  accounts : AccountsMove db.accounts db'.accounts
  orders : Moves AcmeOrder.status OrderStatus.Next .pending db.orders db'.orders
  authzs : Moves AcmeAuthorization.status AuthzStatus.Next .pending db.authzs db'.authzs
  challenges : Moves AcmeChallenge.status ChallengeStatus.Next .pending db.challenges db'.challenges

theorem LifeCycle.refl (db : Db) : LifeCycle db db := ⟨Moves.refl _, Moves.refl _, Moves.refl _, Moves.refl _⟩

theorem LifeCycle.trans {db db' db'' : Db} (h : LifeCycle db db') (h' : LifeCycle db' db'') : LifeCycle db db'' :=
  ⟨h.accounts.trans h'.accounts, h.orders.trans h'.orders, h.authzs.trans h'.authzs, h.challenges.trans h'.challenges⟩

/-! ### Along the edges of rows -/

theorem orderEdge_moves {db : Db} {o o' : AcmeOrder} (h : OrderEdge db o o') :
    ReflTransGen OrderStatus.Next o.status o'.status := by
  cases h with
  | same => exact .refl
  | fail hv =>
    cases hst : o.status with
    | valid => exact absurd hst hv
    | invalid => exact .refl
    | pending => exact .single (.fail (Or.inl rfl))
    | ready => exact .single (.fail (Or.inr (Or.inl rfl)))
    | processing => exact .single (.fail (Or.inr (Or.inr rfl)))
  | ready hp _ =>
    rw [hp]
    exact .single .ready
  | process hst =>
    -- a pending order whose authorizations are all valid is refreshed in the same commit
    rcases hst with hready | ⟨hpending, _⟩
    · rw [hready]
      exact .single .process
    · rw [hpending]
      exact ReflTransGen.tail (.single .ready) .process
  | link hp _ =>
    rw [hp]
    exact .single .issue

theorem authzEdge_moves {db : Db} {a a' : AcmeAuthorization} (h : AuthzEdge db a a') :
    ReflTransGen AuthzStatus.Next a.status a'.status := by
  cases h with
  | same => exact .refl
  | @close status hp hs =>
    rw [hp]
    cases status with
    | pending => cases hs
    | valid => cases hs
    | invalid => exact .single .fail
    | expired => exact .single .expire
    | deactivated => exact .single .deactivate
  | pass hp _ _ _ =>
    rw [hp]
    exact .single .validate

theorem challengeEdge_moves {s : Session} {c c' : AcmeChallenge} (h : ChallengeEdge E s c c') :
    ReflTransGen ChallengeStatus.Next c.status c'.status := by
  cases h with
  | retry => exact .refl
  | process hp =>
    rw [hp]
    exact .single .process
  | pass hp _ _ _ _ =>
    rw [hp]
    exact .single .validate
  | fail hp =>
    rw [hp]
    exact .single .fail

theorem moves_addChallenges (srv : Server) (authzId : ℤ) (types : List ChallengeType) (t : ChallengeTable) :
    Moves AcmeChallenge.status ChallengeStatus.Next .pending t (addChallenges srv authzId types t) := by
  induction types generalizing t with
  | nil => exact Moves.refl t
  | cons type rest ih =>
    let mk : ℤ → AcmeChallenge := fun id => ⟨id, authzId, type, srv.token id, .pending, none, none, 0, none⟩
    have hinsert : Moves AcmeChallenge.status ChallengeStatus.Next .pending t (t.insert mk fun _ => rfl) :=
      Moves.insert mk (fun _ => rfl) .refl
    exact hinsert.trans (ih (t.insert mk fun _ => rfl))

/-- new authorizations and challenges are pending -/
theorem lifeCycle_addAuthorizations (srv : Server) (orderId accountId : ℤ) (expires : DateTime) (identifiers : List Text)
    (db : Db) : LifeCycle db (addAuthorizations srv orderId accountId expires identifiers db) := by
  induction identifiers generalizing db with
  | nil => exact LifeCycle.refl db
  | cons i rest ih =>
    let mk : ℤ → AcmeAuthorization := fun id =>
      ⟨id, orderId, accountId, srv.ca.id, baseName i, isWildcard i, .pending, expires⟩
    have hone : LifeCycle db (addAuthorization srv orderId accountId expires i db) :=
      ⟨Moves.refl _, Moves.refl _, Moves.insert mk (fun _ => rfl) .refl, moves_addChallenges srv _ _ _⟩
    exact hone.trans (ih _)

/-! ### Every write and every request -/

theorem LifeCycle.write {s s' : Session} (hw : Write E S s s') : LifeCycle s.db s'.db := by
  cases hw with
  | orders f hf hedge =>
    exact ⟨Moves.refl _, Moves.mapRows f hf fun o ho => orderEdge_moves (hedge o ho), Moves.refl _, Moves.refl _⟩
  | authzs f hf hedge =>
    exact ⟨Moves.refl _, Moves.refl _, Moves.mapRows f hf fun a ha => authzEdge_moves (hedge a ha), Moves.refl _⟩
  | challenges f hf hedge =>
    exact ⟨Moves.refl _, Moves.refl _, Moves.refl _, Moves.mapRows f hf fun c hc => challengeEdge_moves (hedge c hc)⟩
  | newOrder srv accountId identifiers expires _ =>
    let mk : ℤ → AcmeOrder := fun id =>
      ⟨id, accountId, srv.ca.id, .pending, identifiers, expires, none, none, none, none⟩
    have hinsert : LifeCycle s.db { s.db with orders := s.db.orders.insert mk fun _ => rfl } :=
      ⟨Moves.refl _, Moves.insert mk (fun _ => rfl) .refl, Moves.refl _, Moves.refl _⟩
    exact hinsert.trans (lifeCycle_addAuthorizations srv _ _ _ _ _)
  | rest db ho ha hc hacc _ =>
    refine ⟨hacc, ?_, ?_, ?_⟩
    · rw [setDb_db, ho]
      exact Moves.refl _
    · rw [setDb_db, ha]
      exact Moves.refl _
    · rw [setDb_db, hc]
      exact Moves.refl _
  | attempt e he => exact LifeCycle.refl _
  | signing o _ _ => exact LifeCycle.refl _

theorem LifeCycle.chain {s s' : Session} (hw : Chain E S s s') : LifeCycle s.db s'.db := by
  induction hw with
  | refl => exact LifeCycle.refl _
  | tail _ hw ih => exact ih.trans (LifeCycle.write hw)

/-- a request moves the rows along; a rollback moves nothing -/
theorem LifeCycle.handle {s : Session} (now : DateTime) (lag : ℕ) (r : Request E) :
    LifeCycle s.db (handle E now lag s r).db := by
  obtain ⟨t, hchain, heq | heq⟩ := @handle_writes E Set.univ s now lag r fun srv _ => Set.mem_univ srv
  · rw [heq]
    exact LifeCycle.chain hchain
  · rw [heq]
    exact LifeCycle.refl _

theorem lifeCycle_run (s : St) (ops : List (Op E)) : LifeCycle s.session.db (run (step E) s ops).session.db :=
  @run_rel _ _ (step E) (fun s t => LifeCycle s.session.db t.session.db) (fun _ => LifeCycle.refl _)
    (fun h h' => h.trans h') (fun _ _ => LifeCycle.handle _ _ _) s ops

/-! ## (2) The tables together -/

structure Consistent (db : Db) : Prop where
  authorized : ∀ o ∈ db.orders, o.status = .ready ∨ o.status = .processing ∨ o.status = .valid →
    ∀ a ∈ db.authorizationsOf o.id, a.status = .valid
  linked : ∀ o ∈ db.orders, o.status = .valid ↔ o.certificateId.isSome = true
  present : ∀ o ∈ db.orders, ∀ id, o.certificateId = some id → ∃ c ∈ db.certificates, c.id = id

/-- an order becomes ready, processing or valid from there, or because its authorizations are valid -/
theorem orderEdge_authorized {db : Db} {o o' : AcmeOrder} (h : OrderEdge db o o')
    (hst : o'.status = .ready ∨ o'.status = .processing ∨ o'.status = .valid) :
    (o.status = .ready ∨ o.status = .processing ∨ o.status = .valid) ∨
      ∀ a ∈ db.authorizationsOf o.id, a.status = .valid := by
  cases h with
  | same => exact Or.inl hst
  | fail => simp at hst
  | ready _ hall => exact Or.inr hall
  | process hor =>
    rcases hor with hready | ⟨_, hall⟩
    · exact Or.inl (Or.inl hready)
    · exact Or.inr hall
  | link hp _ => exact Or.inl (Or.inr (Or.inl hp))

/-- only a link changes the certificate of an order, and it makes the order valid -/
theorem orderEdge_linked {db : Db} {o o' : AcmeOrder} (h : OrderEdge db o o') :
    o'.certificateId = o.certificateId ∧ (o'.status = .valid ↔ o.status = .valid) ∨
      o'.status = .valid ∧ ∃ c ∈ db.certificates, o'.certificateId = some c.id := by
  cases h with
  | same => exact Or.inl ⟨rfl, Iff.rfl⟩
  | fail hv => exact Or.inl ⟨rfl, by simp [hv]⟩
  | ready hp _ => exact Or.inl ⟨rfl, by simp [hp]⟩
  | process hst =>
    refine Or.inl ⟨rfl, ?_⟩
    rcases hst with hready | ⟨hpending, _⟩
    · simp [hready]
    · simp [hpending]
  | link _ hc => exact Or.inr ⟨rfl, _, hc, rfl⟩

theorem Consistent.orders {db : Db} (h : Consistent db) {f : AcmeOrder → AcmeOrder} {hf : ∀ o, (f o).id = o.id}
    (hedge : ∀ o ∈ db.orders, OrderEdge db o (f o)) : Consistent { db with orders := db.orders.mapRows f hf } := by
  constructor
  · intro o' ho' hst
    obtain ⟨o, ho, rfl⟩ := List.mem_map.1 ho'
    rw [(orderEdge_keeps (hedge o ho)).1]
    rcases orderEdge_authorized (hedge o ho) hst with hold | hall
    · exact h.authorized o ho hold
    · exact hall
  · intro o' ho'
    obtain ⟨o, ho, rfl⟩ := List.mem_map.1 ho'
    rcases orderEdge_linked (hedge o ho) with ⟨hcert, hvalid⟩ | ⟨hvalid, c, _, hcert⟩
    · rw [hcert, hvalid]
      exact h.linked o ho
    · simp [hvalid, hcert]
  · intro o' ho' id hid
    obtain ⟨o, ho, rfl⟩ := List.mem_map.1 ho'
    rcases orderEdge_linked (hedge o ho) with ⟨hcert, _⟩ | ⟨_, c, hc, hcert⟩
    · rw [hcert] at hid
      exact h.present o ho id hid
    · rw [hcert] at hid
      exact ⟨c, hc, Option.some.inj hid⟩

theorem Consistent.authzs {db : Db} (h : Consistent db) {f : AcmeAuthorization → AcmeAuthorization}
    {hf : ∀ a, (f a).id = a.id} (hedge : ∀ a ∈ db.authzs, AuthzEdge db a (f a)) :
    Consistent { db with authzs := db.authzs.mapRows f hf } := by
  refine ⟨fun o ho hst a' ha' => ?_, h.linked, h.present⟩
  obtain ⟨hmem, hord⟩ := List.mem_filter.1 ha'
  obtain ⟨a, ha, rfl⟩ := List.mem_map.1 hmem
  obtain ⟨_, hkord, _⟩ := authzEdge_keeps (hedge a ha)
  rw [hkord] at hord
  exact authzEdge_valid (hedge a ha) (h.authorized o ho hst a (List.mem_filter.2 ⟨ha, hord⟩))

theorem Consistent.newOrder {srv : Server} {db : Db} (h : Consistent db) {accountId : ℤ} {identifiers : List Text}
    {expires : DateTime} :
    Consistent (addAuthorizations srv db.orders.nextKey accountId expires identifiers
      { db with orders := db.orders.insert (fun id =>
          ⟨id, accountId, srv.ca.id, .pending, identifiers, expires, none, none, none, none⟩) fun _ => rfl }) := by
  obtain ⟨horders, _, _, _, hnewAuthz, _⟩ := @added_addAuthorizations srv db.orders.nextKey
    accountId expires identifiers { db with orders := db.orders.insert (fun id =>
      ⟨id, accountId, srv.ca.id, .pending, identifiers, expires, none, none, none, none⟩) fun _ => rfl }
  have hcerts : (addAuthorizations srv db.orders.nextKey accountId expires identifiers
      { db with orders := db.orders.insert (fun id =>
          ⟨id, accountId, srv.ca.id, .pending, identifiers, expires, none, none, none, none⟩) fun _ => rfl }).certificates =
      db.certificates := addAuthorizations_certificates
  have hmem : ∀ o, o ∈ (addAuthorizations srv db.orders.nextKey accountId expires identifiers
      { db with orders := db.orders.insert (fun id =>
          ⟨id, accountId, srv.ca.id, .pending, identifiers, expires, none, none, none, none⟩) fun _ => rfl }).orders ↔
      o ∈ db.orders ∨ o = ⟨db.orders.nextKey, accountId, srv.ca.id, .pending, identifiers, expires, none, none, none,
        none⟩ := by
    intro o
    rw [horders]
    exact Table.mem_insert
  constructor
  · intro o ho hst a ha
    obtain ⟨hmema, hord⟩ := List.mem_filter.1 ha
    rcases (hmem o).1 ho with hold | rfl
    · rcases hnewAuthz a hmema with haold | ⟨hnew, _⟩
      · exact h.authorized o hold hst a (List.mem_filter.2 ⟨haold, hord⟩)
      · -- a new authorization belongs to the new order
        have hkey := Table.key_lt_nextKey hold
        rw [beq_iff_eq, hnew] at hord
        omega
    · simp at hst
  · intro o ho
    rcases (hmem o).1 ho with hold | rfl
    · exact h.linked o hold
    · simp
  · intro o ho id hid
    rw [hcerts]
    rcases (hmem o).1 ho with hold | rfl
    · exact h.present o hold id hid
    · cases hid

theorem Consistent.write {s s' : Session} (h : Consistent s.db) (hw : Write E S s s') : Consistent s'.db := by
  cases hw with
  | orders f hf hedge => exact h.orders hedge
  | authzs f hf hedge => exact h.authzs hedge
  | challenges f hf hedge => exact ⟨h.authorized, h.linked, h.present⟩
  | newOrder srv accountId identifiers expires _ => exact h.newOrder
  | rest db ho ha hc _ hcerts =>
    rw [setDb_db]
    constructor
    · intro o hmem hst a hmema
      rw [ho] at hmem
      unfold Db.authorizationsOf at hmema
      rw [ha] at hmema
      exact h.authorized o hmem hst a hmema
    · rw [ho]
      exact h.linked
    · intro o hmem id hid
      rw [ho] at hmem
      obtain ⟨c, hmemc, hcid⟩ := h.present o hmem id hid
      obtain ⟨c', hmemc', hcid'⟩ := hcerts c hmemc
      exact ⟨c', hmemc', hcid'.trans hcid⟩
  | attempt e he => exact h
  | signing o _ _ => exact h

theorem Consistent.handle {s : Session} (h : Consistent s.db) (now : DateTime) (lag : ℕ) (r : Request E) :
    Consistent (handle E now lag s r).db := by
  obtain ⟨t, hchain, heq | heq⟩ := @handle_writes E Set.univ s now lag r fun srv _ => Set.mem_univ srv
  · rw [heq]
    clear heq
    induction hchain with
    | refl => exact h
    | tail _ hw ih => exact ih.write hw
  · rw [heq]
    exact h

theorem consistent_run (accounts : AccountTable) (eabKeys : EabTable) (csrs : CsrTable) (certificates : CertTable)
    (now : DateTime) (ops : List (Op E)) :
    Consistent (run (step E) (init accounts eabKeys csrs certificates now) ops).session.db := by
  refine @run_invariant _ _ (step E) (fun s => Consistent s.session.db) (fun _ _ h => Consistent.handle h _ _ _) _ ?_ ops
  exact ⟨fun o ho => absurd ho (Table.not_mem_empty o), fun o ho => absurd ho (Table.not_mem_empty o),
    fun o ho => absurd ho (Table.not_mem_empty o)⟩

/-! ## (3) Together -/

/-- nothing leaves a final status -/
structure FinalKept (db db' : Db) : Prop where
  accounts : ∀ a ∈ db.accounts, a.status = .deactivated → ∃ a' ∈ db'.accounts, a'.id = a.id ∧ a'.status = a.status
  orders : ∀ o ∈ db.orders, o.status = .valid ∨ o.status = .invalid →
    ∃ o' ∈ db'.orders, o'.id = o.id ∧ o'.status = o.status
  authzs : ∀ a ∈ db.authzs, a.status ≠ .pending → ∃ a' ∈ db'.authzs, a'.id = a.id ∧ a'.status = a.status
  challenges : ∀ c ∈ db.challenges, c.status = .valid ∨ c.status = .invalid →
    ∃ c' ∈ db'.challenges, c'.id = c.id ∧ c'.status = c.status

theorem LifeCycle.finalKept {db db' : Db} (h : LifeCycle db db') : FinalKept db db' := by
  constructor
  · intro a ha hst
    exact h.accounts.final ha fun s hnext => by rw [hst] at hnext; cases hnext
  · intro o ho hst
    refine h.orders.final ho fun s hnext => ?_
    rcases hst with hst | hst
    · rw [hst] at hnext
      cases hnext with
      | fail hor => simp at hor
    · rw [hst] at hnext
      cases hnext with
      | fail hor => simp at hor
  · intro a ha hst
    refine h.authzs.final ha fun s hnext => hst ?_
    cases hstatus : a.status with
    | pending => rfl
    | _ =>
      rw [hstatus] at hnext
      cases hnext
  · intro c hc hst
    refine h.challenges.final hc fun s hnext => ?_
    rcases hst with hst | hst
    · rw [hst] at hnext
      cases hnext
    · rw [hst] at hnext
      cases hnext

/-- **(3) The status life cycle.** Over any stretch of any run from a server without orders: the status of every account,
order, authorization and challenge moves along the edges, final statuses are never left, the authorizations of an order
that is ready, processing or valid are valid, and an order is valid exactly when it is linked to a certificate. -/
theorem status_life_cycle (accounts : AccountTable) (eabKeys : EabTable) (csrs : CsrTable) (certificates : CertTable)
    (now : DateTime) (before after : List (Op E)) :
    let s := run (step E) (init accounts eabKeys csrs certificates now) before
    let s' := run (step E) s after
    LifeCycle s.session.db s'.session.db ∧ FinalKept s.session.db s'.session.db ∧ Consistent s'.session.db := by
  intro s s'
  have hmoves : LifeCycle s.session.db s'.session.db := lifeCycle_run s after
  refine ⟨hmoves, hmoves.finalKept, ?_⟩
  have hruns : s' = run (step E) (init accounts eabKeys csrs certificates now) (before ++ after) :=
    (run_append _ _ _ _).symm
  rw [hruns]
  exact consistent_run accounts eabKeys csrs certificates now (before ++ after)

end StatusLifeCycle

end Chancery.Acme
