/-
What an ACME request does to the objects of the other accounts.

(1) `Only`: between two contents of the database, the rows that differ are the account's own: its row, its orders, their
authorizations and challenges, and the certificates issued for it. A challenge belongs to the account of its authorization.
(2) Every step of a request that is signed by an account changes only its own (`only_handle`), however the request ends:
the endpoints check the owner of the row that the URL names, and `Control` says that the rows behind it have the same owner.
(3) `others_keep_account`: whatever the other accounts ask for, in any order, the objects of an account stay as they are.

Requests are those of `Request`. The maintenance job expires the orders of all accounts; it is in the runs before, not in
the runs that are compared.
-/
import Mathlib.Tactic
import Chancery.Core.Frame
import Chancery.Scenarios.AcmeControl

namespace Chancery.Acme.Ownership

open Chancery.Core
open CertificateNames ControlOfNames

variable {E : Env}

/-! ## (1) Own rows -/

/-- the challenge is of an authorization of another account -/
def Foreign (a : ℤ) (db : Db) (c : AcmeChallenge) : Prop := ∃ z ∈ db.authzs, z.accountId ≠ a ∧ c.authorizationId = z.id

/-- only rows of the account `a` differ -/
structure Only (a : ℤ) (db db' : Db) : Prop where
  accounts : db.accounts.Agree (fun x => x.id ≠ a) db'.accounts
  orders : db.orders.Agree (fun o => o.accountId ≠ a) db'.orders
  authzs : db.authzs.Agree (fun z => z.accountId ≠ a) db'.authzs
  challenges : db.challenges.Agree (Foreign a db) db'.challenges
  csrs : ∀ r ∈ db.csrs, r ∈ db'.csrs
  certificates : ∀ c ∈ db.certificates, c ∈ db'.certificates
  issued : ∀ c ∈ db'.certificates, c ∈ db.certificates ∨ c.acmeAccountId = none ∨ c.acmeAccountId = some a

section

variable {a : ℤ} {db db' db'' : Db}

theorem Only.refl (a : ℤ) (db : Db) : Only a db db :=
  ⟨.refl _ _, .refl _ _, .refl _ _, .refl _ _, fun _ h => h, fun _ h => h, fun _ h => Or.inl h⟩

/-- the other accounts' authorizations are the same, so their challenges are -/
theorem foreign_iff (h : db.authzs.Agree (fun z => z.accountId ≠ a) db'.authzs) (c : AcmeChallenge) :
    Foreign a db' c ↔ Foreign a db c := by
  constructor
  · rintro ⟨z, hz, hne, hc⟩
    exact ⟨z, (h z hne).1 hz, hne, hc⟩
  · rintro ⟨z, hz, hne, hc⟩
    exact ⟨z, (h z hne).2 hz, hne, hc⟩

theorem Only.trans (h : Only a db db') (h' : Only a db' db'') : Only a db db'' where
  accounts := h.accounts.trans h'.accounts
  orders := h.orders.trans h'.orders
  authzs := h.authzs.trans h'.authzs
  challenges := h.challenges.trans (h'.challenges.mono fun c => (foreign_iff h.authzs c).2)
  csrs r hr := h'.csrs r (h.csrs r hr)
  certificates c hc := h'.certificates c (h.certificates c hc)
  issued c hc := (h'.issued c hc).elim (h.issued c) Or.inr

/-! ### Whose rows have a key -/

/-- the order with this id, and the authorizations of it -/
structure OwnOrder (a k : ℤ) (db : Db) : Prop where
  order : ∀ o ∈ db.orders, o.id = k → o.accountId = a
  authzs : ∀ z ∈ db.authzs, z.orderId = k → z.accountId = a

def OwnAuthz (a k : ℤ) (db : Db) : Prop := ∀ z ∈ db.authzs, z.id = k → z.accountId = a

theorem OwnOrder.after {k : ℤ} (h : OwnOrder a k db) (ho : Only a db db') : OwnOrder a k db' := by
  constructor
  · intro o hmem hk
    by_contra hne
    exact hne (h.order o ((ho.orders o hne).1 hmem) hk)
  · intro z hmem hk
    by_contra hne
    exact hne (h.authzs z ((ho.authzs z hne).1 hmem) hk)

theorem OwnAuthz.after {k : ℤ} (h : OwnAuthz a k db) (ho : Only a db db') : OwnAuthz a k db' := by
  intro z hmem hk
  by_contra hne
  exact hne (h z ((ho.authzs z hne).1 hmem) hk)

/-- the order of an account's order row -/
theorem ownOrder_of_order {log : List Event} (h : Control E db log) {o : AcmeOrder} (ho : o ∈ db.orders)
    (hown : o.accountId = a) : OwnOrder a o.id db := by
  constructor
  · intro o' ho' hk
    rw [Table.eq_of_key ho' ho hk]
    exact hown
  · intro z hz hk
    obtain ⟨o', ho', hid, haccount, -⟩ := h.owned z hz
    have hsame : o' = o := Table.eq_of_key ho' ho (hid.trans hk)
    rw [← haccount, hsame]
    exact hown

/-- the order of an account's authorization -/
theorem ownOrder_of_authz {log : List Event} (h : Control E db log) {z : AcmeAuthorization} (hz : z ∈ db.authzs)
    (hown : z.accountId = a) : OwnOrder a z.orderId db := by
  obtain ⟨o, ho, hid, haccount, -⟩ := h.owned z hz
  rw [← hid]
  exact ownOrder_of_order h ho (haccount.trans hown)

theorem ownAuthz_of_mem {z : AcmeAuthorization} (hz : z ∈ db.authzs) (hown : z.accountId = a) : OwnAuthz a z.id db := by
  intro z' hz' hk
  rw [Table.eq_of_key hz' hz hk]
  exact hown

theorem ownAuthz_iff {c : AcmeChallenge} : OwnAuthz a c.authorizationId db ↔ ¬ Foreign a db c := by
  constructor
  · rintro h ⟨z, hz, hne, hc⟩
    exact hne (h z hz hc.symm)
  · intro h z hz hk
    by_contra hne
    exact h ⟨z, hz, hne, hk.symm⟩

/-- the challenge with this id -/
def OwnChallenge (a k : ℤ) (db : Db) : Prop := ∀ c ∈ db.challenges, c.id = k → OwnAuthz a c.authorizationId db

theorem OwnChallenge.after {k : ℤ} (h : OwnChallenge a k db) (ho : Only a db db') : OwnChallenge a k db' := by
  intro c hmem hk
  refine ownAuthz_iff.2 fun hforeign => ?_
  have hbefore : Foreign a db c := (foreign_iff ho.authzs c).1 hforeign
  exact ownAuthz_iff.1 (h c ((ho.challenges c hbefore).1 hmem) hk) hbefore

theorem ownChallenge_of_mem {c : AcmeChallenge} (hc : c ∈ db.challenges) (h : OwnAuthz a c.authorizationId db) :
    OwnChallenge a c.id db := by
  intro c' hc' hk
  rw [Table.eq_of_key hc' hc hk]
  exact h

/-! ## (2) Steps -/

theorem only_updateOrder {k : ℤ} {f : AcmeOrder → AcmeOrder} {hf : ∀ o, (f o).id = o.id}
    (h : ∀ o ∈ db.orders, o.id = k → o.accountId = a) (hkeeps : ∀ o, (f o).accountId = o.accountId) :
    Only a db (db.updateOrder k f hf) :=
  { Only.refl a db with
    orders := Table.agree_update f hf fun o ho hk => by
      rw [hkeeps]
      exact ⟨not_not.2 (h o ho hk), not_not.2 (h o ho hk)⟩ }

theorem only_updateAuthz {k : ℤ} {f : AcmeAuthorization → AcmeAuthorization} {hf : ∀ z, (f z).id = z.id}
    (h : OwnAuthz a k db) (hkeeps : ∀ z, (f z).accountId = z.accountId) : Only a db (db.updateAuthz k f hf) :=
  { Only.refl a db with
    authzs := Table.agree_update f hf fun z hz hk => by
      rw [hkeeps]
      exact ⟨not_not.2 (h z hz hk), not_not.2 (h z hz hk)⟩ }

theorem only_updateChallenge {k : ℤ} {f : AcmeChallenge → AcmeChallenge} {hf : ∀ c, (f c).id = c.id}
    (h : OwnChallenge a k db) (hkeeps : ∀ c, (f c).authorizationId = c.authorizationId) :
    Only a db (db.updateChallenge k f hf) :=
  { Only.refl a db with
    challenges := Table.agree_update f hf fun c hc hk => by
      refine ⟨ownAuthz_iff.1 (h c hc hk), ownAuthz_iff.1 ?_⟩
      rw [hkeeps]
      exact h c hc hk }

theorem only_expireAuthzs {now : DateTime} {k : ℤ} (h : OwnOrder a k db) : Only a db (db.expireAuthzs now k) :=
  { Only.refl a db with
    authzs := Table.agree_mapRows _ (AcmeAuthorization.expireOf_id now k) fun z hz hne => by
      unfold AcmeAuthorization.expireOf at hne ⊢
      by_cases hk : z.orderId = k
      · have hown := h.authzs z hz hk
        rw [if_pos hk] at hne ⊢
        unfold AcmeAuthorization.expire at hne ⊢
        split_ifs at hne ⊢
        · exact absurd hne (by simp [hown])
        · rfl
      · exact if_neg hk }

theorem only_refreshOrder {now : DateTime} {o : AcmeOrder} (h : OwnOrder a o.id db) :
    Only a db (refreshOrder now o db) := by
  have hexpire : Only a db (db.expireAuthzs now o.id) := only_expireAuthzs h
  have hafter : ∀ o' ∈ (db.expireAuthzs now o.id).orders, o'.id = o.id → o'.accountId = a := (h.after hexpire).order
  rcases refreshOrder_cases now o db with ⟨_, heq⟩ | ⟨_, heq⟩ | ⟨_, heq⟩ | ⟨_, _, heq⟩ | ⟨_, heq⟩
  · rw [heq]
    exact .refl a db
  · rw [heq]
    exact only_updateOrder h.order fun _ => rfl
  · rw [heq]
    exact hexpire.trans (only_updateOrder hafter fun _ => rfl)
  · rw [heq]
    exact hexpire.trans (only_updateOrder hafter fun _ => rfl)
  · rw [heq]
    exact hexpire

theorem only_refreshOrderOf {now : DateTime} {z : AcmeAuthorization} (h : OwnOrder a z.orderId db)
    (hr : refreshOrderOf now z db = .ok db') : Only a db db' := by
  unfold refreshOrderOf at hr
  cases ho : db.orders.get? z.orderId with
  | none =>
    rw [ho] at hr
    cases hr
  | some o =>
    rw [ho] at hr
    cases hr
    exact only_refreshOrder (by rw [Table.key_of_get? ho]; exact h)

theorem only_settle {now : DateTime} {c : AcmeChallenge} {z : AcmeAuthorization} {ok : Bool} {errorType detail : String}
    (hz : OwnAuthz a z.id db) (hc : OwnChallenge a c.id db) : Only a db (settle now c z ok errorType detail db) := by
  unfold settle
  split_ifs
  · have hchallenge : Only a db (db.updateChallenge c.id (AcmeChallenge.pass now)) := only_updateChallenge hc fun _ => rfl
    exact hchallenge.trans (only_updateAuthz (hz.after hchallenge) fun _ => rfl)
  · have hchallenge : Only a db (db.updateChallenge c.id (AcmeChallenge.fail (errorObject errorType detail))) :=
      only_updateChallenge hc fun _ => rfl
    exact hchallenge.trans (only_updateAuthz (hz.after hchallenge) fun _ => rfl)

theorem only_settleDns01 {cfg : Config} {now : DateTime} {c : AcmeChallenge} {z : AcmeAuthorization} {v : Validation}
    (hz : OwnAuthz a z.id db) (hc : OwnChallenge a c.id db) : Only a db (settleDns01 cfg now c z v db) := by
  have hcount : ∀ next, Only a db (db.updateChallenge c.id (AcmeChallenge.count next)) := fun next =>
    only_updateChallenge hc fun _ => rfl
  unfold settleDns01
  simp only
  split_ifs
  · exact (hcount none).trans (only_settle (hz.after (hcount none)) (hc.after (hcount none)))
  · exact (hcount _).trans (only_updateChallenge (hc.after (hcount _)) fun _ => rfl)
  · exact (hcount none).trans (only_settle (hz.after (hcount none)) (hc.after (hcount none)))

end

section

variable {a : ℤ} {s s' : Session}

theorem only_attemptNow {srv : Server} {now : DateTime} {account : AcmeAccount} {c : AcmeChallenge}
    {z : AcmeAuthorization} (hz : OwnAuthz a z.id s.db) (hc : OwnChallenge a c.id s.db)
    (h : attemptNow E srv now account c z s = .ok s') : Only a s.db s'.db := by
  unfold attemptNow at h
  cases htype : c.type with
  | dns01 =>
    rw [htype] at h
    obtain ⟨_, _, h⟩ := bind_eq_ok.1 h
    obtain ⟨v, _, h⟩ := bind_eq_ok.1 h
    cases h
    exact only_settleDns01 hz hc
  | http01 =>
    rw [htype] at h
    obtain ⟨_, _, h⟩ := bind_eq_ok.1 h
    obtain ⟨v, _, h⟩ := bind_eq_ok.1 h
    cases h
    exact only_settle hz hc

theorem only_attemptDns01 {srv : Server} {now : DateTime} {account : AcmeAccount} {c : AcmeChallenge}
    {z : AcmeAuthorization} (hz : OwnAuthz a z.id s.db) (hc : OwnChallenge a c.id s.db)
    (h : attemptDns01 E srv now account c z s = .ok s') : Only a s.db s'.db := by
  obtain ⟨_, _, h⟩ := bind_eq_ok.1 h
  obtain ⟨v, _, h⟩ := bind_eq_ok.1 h
  cases h
  exact only_settleDns01 hz hc

/-! ### Whatever the outcome -/

/-- the session at the end, or at the exception, differs in own rows only -/
def OnlyOut (a : ℤ) (db : Db) : Outcome → Prop
  | .ok s => Only a db s.db
  | .error r => Only a db r.session.db

theorem onlyOut_try {α : Type} {x : Result α} {k : α → Outcome} (h : ∀ r, x = .ok r → OnlyOut a s.db (k r)) :
    OnlyOut a s.db (s.try x >>= k) := by
  cases x with
  | error e => exact .refl a s.db
  | ok r => exact h r rfl

theorem onlyOut_head {db : Db} {x : Outcome} (h : Only a db s.db) (hx : OnlyOut a s.db x) : OnlyOut a db x := by
  cases x with
  | ok s' => exact h.trans hx
  | error r => exact h.trans hx

theorem onlyOut_bind {db : Db} {x : Outcome} {k : Session → Outcome} (hx : OnlyOut a db x)
    (hk : ∀ s', x = .ok s' → OnlyOut a s'.db (k s')) : OnlyOut a db (x >>= k) := by
  cases x with
  | error r => exact hx
  | ok s' => exact onlyOut_head hx (hk s' rfl)

theorem only_finish {x : Outcome} (h : OnlyOut a s.db x) : Only a s.db (finish s.db x).db := by
  cases x with
  | ok s' => exact h
  | error r =>
    unfold finish
    simp only
    split_ifs
    · exact h
    · exact .refl a s.db

/-! ### Authorizations and challenges -/

theorem onlyOut_pollAuthz (hcontrol : Controlled E s) {srv : Server} {now : DateTime} {z : AcmeAuthorization}
    (hz : z ∈ s.db.authzs) (hown : z.accountId = a) : OnlyOut a s.db (pollAuthz E srv now z s) := by
  have hauthz : OwnAuthz a z.id s.db := ownAuthz_of_mem hz hown
  have horder : OwnOrder a z.orderId s.db := ownOrder_of_authz hcontrol.rows hz hown
  unfold pollAuthz
  by_cases hexp : z.status = .pending ∧ z.expires ≤ now
  · rw [if_pos hexp]
    refine only_updateAuthz hauthz fun z' => ?_
    unfold AcmeAuthorization.expire
    split_ifs <;> rfl
  rw [if_neg hexp]
  by_cases hpending : z.status = .pending
  swap
  · rw [if_neg hpending]
    exact .refl a s.db
  rw [if_pos hpending]
  cases hdue : (s.db.challengesOf z.id).find? (·.due now) with
  | none => exact .refl a s.db
  | some c =>
    simp only
    cases s.db.accounts.get? z.accountId with
    | none => exact .refl a s.db
    | some account =>
      simp only
      obtain ⟨hc, hcz⟩ := List.mem_filter.1 (List.mem_of_find?_eq_some hdue)
      have hchallenge : OwnChallenge a c.id s.db := ownChallenge_of_mem hc (by rw [eq_of_beq hcz]; exact hauthz)
      refine onlyOut_try fun s₁ h₁ => ?_
      have hattempt : Only a s.db s₁.db := only_attemptDns01 hauthz hchallenge h₁
      exact onlyOut_head hattempt (onlyOut_try fun db hdb => only_refreshOrderOf (horder.after hattempt) hdb)

theorem onlyOut_validateNow (hcontrol : Controlled E s) {srv : Server} {now : DateTime} {account : AcmeAccount}
    {c : AcmeChallenge} {z : AcmeAuthorization} (hc : c ∈ s.db.challenges) (hz : z ∈ s.db.authzs)
    (hcz : z.id = c.authorizationId) (hown : z.accountId = a) : OnlyOut a s.db (validateNow E srv now account c z s) := by
  have hauthz : OwnAuthz a z.id s.db := ownAuthz_of_mem hz hown
  have horder : OwnOrder a z.orderId s.db := ownOrder_of_authz hcontrol.rows hz hown
  have hchallenge : OwnChallenge a c.id s.db := ownChallenge_of_mem hc (by rw [← hcz]; exact hauthz)
  have hprocess : Only a s.db (s.db.updateChallenge c.id AcmeChallenge.process AcmeChallenge.process_id) :=
    only_updateChallenge hchallenge fun _ => rfl
  refine onlyOut_head (s := setDb s _) hprocess (onlyOut_try fun s₁ h₁ => ?_)
  have hattempt := only_attemptNow (hauthz.after hprocess) (hchallenge.after hprocess) h₁
  refine onlyOut_head hattempt (onlyOut_try fun db hdb => ?_)
  exact only_refreshOrderOf (horder.after (hprocess.trans hattempt)) hdb

theorem onlyOut_respondChallenge (hcontrol : Controlled E s) {srv : Server} {now : DateTime} {account : AcmeAccount}
    {challengeId : ℤ} (hown : account.id = a) : OnlyOut a s.db (respondChallenge E srv now account challengeId s) := by
  refine onlyOut_try fun r hr => ?_
  obtain ⟨c₀, z₀⟩ := r
  obtain ⟨-, hz₀, -, hz₀own⟩ := loadChallenge_ok hr
  have hrefresh : Only a s.db (refreshAuthz now z₀ s.db) := by
    refine only_updateAuthz (ownAuthz_of_mem (Table.mem_of_get? hz₀) (hz₀own.trans hown)) fun z' => ?_
    unfold AcmeAuthorization.expire
    split_ifs <;> rfl
  have hcontrol' : Controlled E (setDb s (refreshAuthz now z₀ s.db)) :=
    hcontrol.chain (@chain_refreshAuthz E Set.univ s now z₀ hz₀)
  refine onlyOut_head (s := setDb s (refreshAuthz now z₀ s.db)) hrefresh (onlyOut_try fun r' hr' => ?_)
  obtain ⟨c, z⟩ := r'
  obtain ⟨hc, hz, hcz, hzown⟩ := loadChallenge_ok hr'
  have hmem := Table.mem_of_get? hz
  simp only
  by_cases hdone : c.status ≠ .pending ∨ z.status ≠ .pending
  · rw [if_pos hdone]
    exact .refl a _
  rw [if_neg hdone]
  cases ho : (setDb s (refreshAuthz now z₀ s.db)).db.orders.get? z.orderId with
  | none => exact .refl a _
  | some o =>
    simp only
    by_cases hexp : o.expires ≤ now
    · rw [if_pos hexp]
      have horder := ownOrder_of_authz hcontrol'.rows hmem (hzown.trans hown)
      exact only_refreshOrder (by rw [Table.key_of_get? ho]; exact horder)
    · rw [if_neg hexp]
      exact onlyOut_validateNow hcontrol' (Table.mem_of_get? hc) hmem hcz (hzown.trans hown)

theorem only_deactivateAuthz {db db' : Db} {now : DateTime} {z : AcmeAuthorization} (hauthz : OwnAuthz a z.id db)
    (horder : OwnOrder a z.orderId db) (h : deactivateAuthz now z db = .ok db') : Only a db db' := by
  unfold deactivateAuthz at h
  split_ifs at h
  · have hclose : Only a db (db.updateAuthz z.id (AcmeAuthorization.setStatus .deactivated)) :=
      only_updateAuthz hauthz fun _ => rfl
    exact hclose.trans (only_refreshOrderOf (horder.after hclose) h)
  · cases h
    exact .refl a db

/-- the account check fails, or it finds the account of the request -/
theorem onlyOut_kid {srv : Server} {accountId : ℤ} {k : AcmeAccount → Outcome}
    (h : ∀ account ∈ s.db.accounts, account.id = accountId → OnlyOut a s.db (k account)) :
    OnlyOut a s.db (kidAccount srv accountId s >>= k) :=
  onlyOut_try fun account haccount => by
    unfold accountForKid at haccount
    cases hget : s.db.accounts.get? accountId with
    | none =>
      rw [hget] at haccount
      cases haccount
    | some account' =>
      simp only [hget] at haccount
      split_ifs at haccount
      cases haccount
      exact h account (Table.mem_of_get? hget) (Table.key_of_get? hget)

theorem onlyOut_postAuthorization (hcontrol : Controlled E s) {srv : Server} {authzId : ℤ} {payload : Option Fields}
    {now : DateTime} {lag : ℕ} : OnlyOut a s.db (postAuthorization E srv a authzId payload now lag s) := by
  refine onlyOut_kid fun account _ hid => onlyOut_try fun z hz => ?_
  obtain ⟨hget, hown⟩ := loadAuthz_ok hz
  refine onlyOut_bind (onlyOut_pollAuthz hcontrol (Table.mem_of_get? hget) (hown.trans hid)) fun s₁ h₁ => ?_
  have hpolled : Controlled E s₁ := by
    have hchain := @chained_pollAuthz E Set.univ s srv (Set.mem_univ srv) now z hget
    rw [h₁] at hchain
    exact hcontrol.chain hchain
  by_cases hd : asksDeactivation payload = true
  · rw [if_pos hd]
    refine onlyOut_try fun z' hz' => onlyOut_try fun db hdb => ?_
    obtain ⟨hget', hown'⟩ := loadAuthz_ok hz'
    have hmem := Table.mem_of_get? hget'
    exact only_deactivateAuthz (ownAuthz_of_mem hmem (hown'.trans hid))
      (ownOrder_of_authz hpolled.rows hmem (hown'.trans hid)) hdb
  · rw [if_neg hd]
    exact .refl a s₁.db

theorem onlyOut_postChallenge (hcontrol : Controlled E s) {srv : Server} {challengeId : ℤ} {payload : Option Fields}
    {now : DateTime} {lag : ℕ} : OnlyOut a s.db (postChallenge E srv a challengeId payload now lag s) := by
  refine onlyOut_kid fun account _ hid => onlyOut_try fun r hr => ?_
  obtain ⟨c, z⟩ := r
  obtain ⟨-, hget, -, hown⟩ := loadChallenge_ok hr
  refine onlyOut_bind (onlyOut_pollAuthz hcontrol (Table.mem_of_get? hget) (hown.trans hid)) fun s₁ h₁ => ?_
  cases payload with
  | none => exact .refl a s₁.db
  | some fields =>
    have hchain := @chained_pollAuthz E Set.univ s srv (Set.mem_univ srv) now z hget
    rw [h₁] at hchain
    exact onlyOut_respondChallenge (hcontrol.chain hchain) hid

/-! ### Orders and accounts -/

theorem agree_addChallenges {p : AcmeChallenge → Prop} {srv : Server} {authzId : ℤ} {types : List ChallengeType}
    {t : ChallengeTable} (h : ∀ c, c.authorizationId = authzId → ¬ p c) :
    t.Agree p (addChallenges srv authzId types t) := by
  induction types generalizing t with
  | nil => exact .refl p t
  | cons type rest ih => exact (Table.agree_insert _ (fun _ => rfl) (h _ rfl)).trans ih

theorem only_addAuthorizations {srv : Server} {orderId : ℤ} {expires : DateTime} {identifiers : List Text} {db : Db} :
    Only a db (addAuthorizations srv orderId a expires identifiers db) := by
  induction identifiers generalizing db with
  | nil => exact .refl a db
  | cons i rest ih =>
    have hfresh : ∀ c : AcmeChallenge, c.authorizationId = db.authzs.nextKey → ¬ Foreign a db c := by
      rintro c hc ⟨z, hz, -, hid⟩
      have hlt := Table.key_lt_nextKey hz
      omega
    have hone : Only a db (addAuthorization srv orderId a expires i db) :=
      { Only.refl a db with
        authzs := Table.agree_insert _ (fun _ => rfl) (not_not.2 rfl)
        challenges := agree_addChallenges hfresh }
    exact hone.trans ih

theorem only_touchAccount {db : Db} {now : DateTime} : Only a db (db.touchAccount a now) :=
  { Only.refl a db with
    accounts := Table.agree_update _ AcmeAccount.touch_id fun _ _ hk => ⟨not_not.2 hk, not_not.2 hk⟩ }

theorem only_insertOrder {db : Db} (mk : ℤ → AcmeOrder) (hmk : ∀ k, (mk k).id = k) (h : ∀ k, (mk k).accountId = a) :
    Only a db { db with orders := db.orders.insert mk hmk } :=
  { Only.refl a db with
    orders := Table.agree_insert mk hmk (not_not.2 (h _)) }

theorem only_newOrder {srv : Server} {account : AcmeAccount} {payload : Option Fields} {now : DateTime} {db db' : Db}
    (hid : account.id = a) (h : newOrder E srv account payload now db = .ok db') : Only a db db' := by
  obtain ⟨identifiers, -, h⟩ := bind_eq_ok.1 h
  cases h
  rw [hid]
  let mk : ℤ → AcmeOrder := fun id => ⟨id, a, srv.ca.id, .pending, identifiers,
    now + srv.config.orderLifetimeHours * (3600 * second), none, none, none, none⟩
  have hinsert : Only a db { db with orders := db.orders.insert mk fun _ => rfl } :=
    only_insertOrder mk (fun _ => rfl) fun _ => rfl
  exact hinsert.trans (only_addAuthorizations.trans only_touchAccount)

theorem only_setAccounts {accounts : Accounts} (h : s.db.accounts.Agree (fun x => x.id ≠ a) accounts.accounts) :
    Only a s.db (setAccounts s accounts).db :=
  { Only.refl a s.db with
    accounts := h }

theorem agree_updateAccount {t : AccountTable} (f : AcmeAccount → AcmeAccount) (hf : ∀ x, (f x).id = x.id) :
    t.Agree (fun x => x.id ≠ a) (t.update a f hf) :=
  Table.agree_update f hf fun x _ hk => ⟨not_not.2 hk, not_not.2 ((hf x).trans hk)⟩

theorem only_updateAccountAndOrders {account : AcmeAccount} {payload : Fields} {now : DateTime} {db db' : Db}
    (hid : account.id = a) (h : updateAccountAndOrders E account payload now db = .ok db') : Only a db db' := by
  obtain ⟨accounts, hupdate, h⟩ := bind_eq_ok.1 h
  have haccounts : db.accounts.Agree (fun x => x.id ≠ a) accounts.accounts := by
    unfold updateAccount at hupdate
    rw [hid] at hupdate
    split_ifs at hupdate
    · cases hupdate
      exact agree_updateAccount AcmeAccount.deactivate fun _ => rfl
    · cases hc : payload.lookup "contact" with
      | none =>
        rw [hc] at hupdate
        cases hupdate
        exact agree_updateAccount (AcmeAccount.touch now) fun _ => rfl
      | some c =>
        simp only [hc] at hupdate
        obtain ⟨contact, -, hupdate⟩ := bind_eq_ok.1 hupdate
        cases hupdate
        exact agree_updateAccount (AcmeAccount.setContact contact now) fun _ => rfl
  have horders : db.orders.Agree (fun o => o.accountId ≠ a)
      (db.orders.mapRows (AcmeOrder.deactivate account.id) (AcmeOrder.deactivate_id account.id)) := by
    refine Table.agree_mapRows _ (AcmeOrder.deactivate_id account.id) fun o _ hne => ?_
    unfold AcmeOrder.deactivate at hne ⊢
    rw [hid] at hne ⊢
    by_cases ho : o.accountId = a ∧ o.live = true
    · rw [if_pos ho] at hne
      exact absurd hne (by simp [ho.1])
    · exact if_neg ho
  cases h
  refine { Only.refl a db with
    accounts := haccounts
    orders := ?_ }
  split_ifs
  · exact horders
  · exact .refl _ _

theorem agree_changeKey {caId : ℤ} {x x' : Accounts} {account : AcmeAccount} {inner : Verified E} (hid : account.id = a)
    (h : changeKey E caId x account inner = .ok x') : x.accounts.Agree (fun y => y.id ≠ a) x'.accounts := by
  unfold changeKey at h
  rw [hid] at h
  split at h
  · cases h
  split_ifs at h
  obtain ⟨newTp, _, h⟩ := bind_eq_ok.1 h
  split at h
  · split_ifs at h
    cases h
    exact agree_updateAccount (AcmeAccount.rollKey inner.jwk newTp) fun _ => rfl
  · cases h
    exact agree_updateAccount (AcmeAccount.rollKey inner.jwk newTp) fun _ => rfl

/-! ### finalize -/

theorem only_refreshTwice {db : Db} {t : Tick} {o : AcmeOrder} (h : OwnOrder a o.id db) :
    Only a db (refreshTwice t o db) := by
  have hfirst : Only a db (refreshOrder t.now o db) := only_refreshOrder h
  unfold refreshTwice
  simp only
  cases ho : (refreshOrder t.now o db).orders.get? o.id with
  | none => exact hfirst
  | some o' => exact hfirst.trans (only_refreshOrder (by rw [Table.key_of_get? ho]; exact h.after hfirst))

/-- the commit of a session whose rows differ from the table in own rows only -/
theorem only_flush {db after : Db} (h : Only a db after) : Only a db (flush db after db) := by
  refine { Only.refl a db with
    orders := Table.agree_mapRows _ (flushOrder_id db after) fun o ho hne => ?_
    authzs := Table.agree_mapRows _ (flushAuthz_id db after) fun z hz hne => ?_ }
  · have hforeign : o.accountId ≠ a := by
      refine hne.elim id fun hafter heq => hafter ?_
      unfold flushOrder
      split
      · split_ifs <;> exact heq
      · exact heq
    have hsame : after.orders.get? o.id = some o := Table.get?_key ((h.orders o hforeign).2 ho)
    unfold flushOrder
    rw [Table.get?_key ho, hsame]
    exact if_pos rfl
  · have hforeign : z.accountId ≠ a := by
      refine hne.elim id fun hafter heq => hafter ?_
      unfold flushAuthz
      split
      · split_ifs <;> exact heq
      · exact heq
    have hsame : after.authzs.get? z.id = some z := Table.get?_key ((h.authzs z hforeign).2 hz)
    unfold flushAuthz
    rw [Table.get?_key hz, hsame]
    exact if_pos rfl

/-- what a finalize request holds is its own: the order, and rows that were not there when it started -/
def Holds (f : Finalization) (base db : Db) : Phase → Prop
  | .start => db = base
  | .answered _ before after => before = db ∧ Only f.accountId db after
  | .checked _ _ => OwnOrder f.accountId f.orderId base
  | .processing _ _ => OwnOrder f.accountId f.orderId base
  | .imported csrId _ _ => OwnOrder f.accountId f.orderId base ∧ ∀ r ∈ base.csrs, r.id ≠ csrId
  | .named csrId => OwnOrder f.accountId f.orderId base ∧ ∀ r ∈ base.csrs, r.id ≠ csrId
  | .claimed csrId => OwnOrder f.accountId f.orderId base ∧ ∀ r ∈ base.csrs, r.id ≠ csrId
  | .issued certId => OwnOrder f.accountId f.orderId base ∧ ∀ c ∈ base.certificates, c.id ≠ certId
  | .releasing csrId _ => OwnOrder f.accountId f.orderId base ∧ ∀ r ∈ base.csrs, r.id ≠ csrId
  | .failing _ => OwnOrder f.accountId f.orderId base
  | .ended _ => True

theorem begin_holds {f : Finalization} {t : Tick} {log : List Event} {db : Db} (hcontrol : Control E db log) :
    Holds f db db (begin E f t db) := by
  unfold begin
  cases hload : loadOrder f.server.ca.id f.accountId f.orderId db with
  | error e => trivial
  | ok o =>
    obtain ⟨hget, -, hown⟩ := loadOrder_ok hload
    have hid : o.id = f.orderId := Table.key_of_get? hget
    have horder : OwnOrder f.accountId o.id db := ownOrder_of_order hcontrol (Table.mem_of_get? hget) hown
    have hanswered : ∀ result, Holds f db db (.answered result db (refreshTwice t o db)) := fun _ =>
      ⟨rfl, only_refreshTwice horder⟩
    simp only
    cases hrefreshed : (refreshTwice t o db).orders.get? f.orderId with
    | none => trivial
    | some order =>
      simp only
      cases hst : order.status with
      | ready =>
        simp only
        cases checkRequest E f order with
        | error e => exact hanswered _
        | ok csr =>
          rw [hid] at horder
          exact horder
      | _ => exact hanswered _

/-- a change of CSR rows that were not there -/
theorem only_updateCsr {base db : Db} (h : Only a base db) {k : ℤ} {f : CsrRow → CsrRow} {hf : ∀ r, (f r).id = r.id}
    (hk : ∀ r ∈ base.csrs, r.id ≠ k) : Only a base (db.updateCsr k f hf) :=
  { h with
    csrs := fun r hr => List.mem_map.2 ⟨r, h.csrs r hr, if_neg (hk r hr)⟩ }

theorem only_updateOwnOrder {base db : Db} (h : Only a base db) {k : ℤ} {f : AcmeOrder → AcmeOrder}
    {hf : ∀ o, (f o).id = o.id} (hk : OwnOrder a k base) (hkeeps : ∀ o, (f o).accountId = o.accountId) :
    Only a base (db.updateOrder k f hf) :=
  h.trans (only_updateOrder (hk.after h).order hkeeps)

/-- **A step of a finalize request** changes own rows only, and goes on holding own rows. -/
theorem advance_only {f : Finalization} {t : Tick} {base : Db} {p : Phase} (hcontrol : ∃ log, Control E base log)
    (h : Only f.accountId base s.db) (hp : Holds f base s.db p) :
    Only f.accountId base (advance E f t s p).1.db ∧ Holds f base (advance E f t s p).1.db (advance E f t s p).2 := by
  cases p with
  | start =>
    obtain ⟨log, hcontrol⟩ := hcontrol
    have hbase : s.db = base := hp
    have hbegin := @begin_holds E f t log base hcontrol
    simp only [advance, hbase]
    exact ⟨.refl _ _, hbegin⟩
  | answered result before after =>
    obtain ⟨rfl, hafter⟩ := hp
    simp only [advance]
    refine ⟨?_, trivial⟩
    split_ifs
    · exact h.trans (only_flush hafter)
    · exact h
  | checked csr wanted =>
    simp only [advance]
    cases t.fault with
    | some e => exact ⟨h, trivial⟩
    | none => exact ⟨only_updateOwnOrder h hp fun _ => rfl, hp⟩
  | processing csr wanted =>
    simp only [advance]
    cases hi : t.guard (importRow f s.db) with
    | error e => exact ⟨h, hp⟩
    | ok r =>
      obtain ⟨db, csrId⟩ := r
      obtain ⟨csr', _, rfl, rfl⟩ := importRow_ok (guard_ok.1 hi).1
      refine ⟨{ h with
        csrs := fun r hr => List.mem_append_left _ (h.csrs r hr) }, hp, fun r hr => ?_⟩
      exact (Table.key_lt_nextKey (h.csrs r hr)).ne
  | imported csrId csr wanted =>
    simp only [advance]
    cases hi : t.guard (renameRow f csrId csr wanted s.db) with
    | error e => exact ⟨h, hp.1⟩
    | ok db =>
      obtain ⟨cn, _, rfl⟩ := renameRow_ok (guard_ok.1 hi).1
      exact ⟨only_updateCsr h hp.2, hp⟩
  | named csrId =>
    simp only [advance]
    cases f.urls with
    | error e => exact ⟨h, hp.1⟩
    | ok u =>
      have hlogged : Only f.accountId base (s.recordSigning f.orderId).db := by
        rw [Session.recordSigning_db]
        exact h
      simp only
      cases checkRow f csrId (s.recordSigning f.orderId).db with
      | error e => exact ⟨hlogged, hp.1⟩
      | ok u =>
        simp only
        cases hc : t.guard (claimRow csrId (s.recordSigning f.orderId).db) with
        | error e => exact ⟨hlogged, hp.1⟩
        | ok db =>
          obtain ⟨row, _, _, rfl⟩ := claimRow_ok (guard_ok.1 hc).1
          exact ⟨only_updateCsr hlogged hp.2, hp⟩
  | claimed csrId =>
    simp only [advance]
    cases hi : t.guard (signRow f csrId t.now s.db) with
    | error e => exact ⟨h, hp⟩
    | ok r =>
      obtain ⟨db, certId⟩ := r
      obtain ⟨row, issued, _, _, rfl, rfl⟩ := signRow_ok (guard_ok.1 hi).1
      refine ⟨?_, hp.1, fun c hc => (Table.key_lt_nextKey (h.certificates c hc)).ne⟩
      have hinsert : Only f.accountId base { s.db with
          certificates := s.db.certificates.insert fun id => ⟨id, f.server.ca.id, issued, none, none⟩ } :=
        { h with
          certificates := fun c hc => List.mem_append_left _ (h.certificates c hc)
          issued := fun c hc => by
            rcases List.mem_append.1 hc with hold | hnew
            · exact h.issued c hold
            · rw [List.mem_singleton.1 hnew]
              exact Or.inr (Or.inl rfl) }
      exact only_updateCsr hinsert hp.2
  | issued certId =>
    simp only [advance]
    cases t.fault with
    | some e => exact ⟨h, trivial⟩
    | none =>
      refine ⟨?_, trivial⟩
      have hmark : Only f.accountId base { s.db with
          certificates := s.db.certificates.update certId (markAcme f.accountId) } :=
        { h with
          certificates := fun c hc => List.mem_map.2 ⟨c, h.certificates c hc, if_neg (hp.2 c hc)⟩
          issued := fun c hc => by
            obtain ⟨c', hc', rfl⟩ := List.mem_map.1 hc
            by_cases hk : c'.id = certId
            · rw [if_pos hk]
              exact Or.inr (Or.inr rfl)
            · rw [if_neg hk]
              exact h.issued c' hc' }
      exact only_updateOwnOrder hmark hp.1 fun _ => rfl
  | releasing csrId e =>
    simp only [advance]
    cases t.fault with
    | some e' => exact ⟨h, hp.1⟩
    | none => exact ⟨only_updateCsr h hp.2, hp.1⟩
  | failing e =>
    simp only [advance]
    split_ifs
    · cases t.fault with
      | some e' => exact ⟨h, trivial⟩
      | none => exact ⟨only_updateOwnOrder h hp fun _ => rfl, trivial⟩
    · exact ⟨h, trivial⟩
  | ended result => exact ⟨h, trivial⟩

theorem only_finalize (hcontrol : Controlled E s) (f : Finalization) (plan : Phase → Tick) :
    Only f.accountId s.db (finalize E f plan s).1.db := by
  have hdrive : ∀ n (s' : Session) p, Only f.accountId s.db s'.db → Holds f s.db s'.db p →
      Only f.accountId s.db (drive E f plan n (s', p)).1.db := by
    intro n
    induction n with
    | zero => exact fun s' p h _ => h
    | succ n ih =>
      intro s' p h hp
      obtain ⟨hnext, hholds⟩ := @advance_only E s' f (plan p) s.db p ⟨s.log, hcontrol.rows⟩ h hp
      exact ih _ _ hnext hholds
  exact hdrive 8 s .start (.refl _ _) rfl

end

/-! ### Requests -/

/-- the account behind the `kid` of a request -/
def signer : Request E → Option ℤ
  | .newAccount _ _ => none
  | .updateAccount _ accountId _ => some accountId
  | .keyChange _ accountId _ => some accountId
  | .newOrder _ accountId _ => some accountId
  | .order _ accountId _ => some accountId
  | .authorization _ accountId _ _ => some accountId
  | .challenge _ accountId _ _ => some accountId
  | .finalize f _ => some f.accountId
  | .maintain => none

/-- **(2) A request changes its account's objects only.** -/
theorem only_handle {s : Session} (hcontrol : Controlled E s) {now : DateTime} {lag : ℕ} {r : Request E} {a : ℤ}
    (hr : signer r = some a) : Only a s.db (handle E now lag s r).db := by
  cases r with
  | newAccount srv v => cases hr
  | updateAccount srv accountId payload =>
    cases hr
    refine only_finish (onlyOut_kid fun account _ hid => ?_)
    by_cases hempty : payload.isEmpty = true
    · rw [if_pos hempty]
      exact .refl a s.db
    · rw [if_neg hempty]
      exact onlyOut_try fun db hdb => only_updateAccountAndOrders hid hdb
  | keyChange srv accountId inner =>
    cases hr
    exact only_finish (onlyOut_kid fun account _ hid => onlyOut_try fun accounts haccounts =>
      only_setAccounts (agree_changeKey hid haccounts))
  | newOrder srv accountId payload =>
    cases hr
    exact only_finish (onlyOut_kid fun account _ hid => onlyOut_try fun db hdb => only_newOrder hid hdb)
  | order srv accountId orderId =>
    cases hr
    refine only_finish (onlyOut_kid fun account _ hid => onlyOut_try fun o ho => ?_)
    obtain ⟨hget, -, hown⟩ := loadOrder_ok ho
    exact only_refreshOrder (ownOrder_of_order hcontrol.rows (Table.mem_of_get? hget) (hown.trans hid))
  | authorization srv accountId authzId payload =>
    cases hr
    exact only_finish (onlyOut_postAuthorization hcontrol)
  | challenge srv accountId challengeId payload =>
    cases hr
    exact only_finish (onlyOut_postChallenge hcontrol)
  | finalize f plan =>
    cases hr
    show Only f.accountId s.db (postFinalize E f plan s).db
    unfold postFinalize
    cases kidAccount f.server f.accountId s with
    | error e => exact .refl _ _
    | ok account => exact only_finalize hcontrol f plan
  | maintain => cases hr

/-! ## (3) The objects of one account -/

/-- the objects of the account `b` are the same -/
structure Kept (b : ℤ) (db db' : Db) : Prop where
  account : db.accounts.Agree (fun x => x.id = b) db'.accounts
  orders : db.orders.Agree (fun o => o.accountId = b) db'.orders
  authzs : db.authzs.Agree (fun z => z.accountId = b) db'.authzs
  challenges : db.challenges.Agree (fun c => ∃ z ∈ db.authzs, z.accountId = b ∧ c.authorizationId = z.id) db'.challenges
  certificates : db.certificates.Agree (fun c => c.acmeAccountId = some b) db'.certificates

theorem Kept.refl (b : ℤ) (db : Db) : Kept b db db := ⟨.refl _ _, .refl _ _, .refl _ _, .refl _ _, .refl _ _⟩

theorem Kept.trans {b : ℤ} {db db' db'' : Db} (h : Kept b db db') (h' : Kept b db' db'') : Kept b db db'' where
  account := h.account.trans h'.account
  orders := h.orders.trans h'.orders
  authzs := h.authzs.trans h'.authzs
  challenges := by
    refine h.challenges.trans (h'.challenges.mono fun c => ?_)
    rintro ⟨z, hz, hown, hc⟩
    exact ⟨z, (h.authzs z hown).2 hz, hown, hc⟩
  certificates := h.certificates.trans h'.certificates

/-- what changes for another account -/
theorem Only.kept {a b : ℤ} {db db' : Db} (h : Only a db db') (hne : a ≠ b) : Kept b db db' where
  account := h.accounts.mono fun x hx heq => hne (heq.symm.trans hx)
  orders := h.orders.mono fun o ho heq => hne (heq.symm.trans ho)
  authzs := h.authzs.mono fun z hz heq => hne (heq.symm.trans hz)
  challenges := by
    refine h.challenges.mono fun c => ?_
    rintro ⟨z, hz, hown, hc⟩
    exact ⟨z, hz, fun heq => hne (heq.symm.trans hown), hc⟩
  certificates := by
    intro c hc
    refine ⟨fun hmem => ?_, h.certificates c⟩
    rcases h.issued c hmem with hold | hnone | hown
    · exact hold
    · rw [hnone] at hc
      cases hc
    · exact absurd (Option.some.inj (hown.symm.trans hc)) hne

/-- a registration with another key, or at another CA, leaves the account alone -/
theorem agree_newAccount {d : Directory} {t t' : Accounts} {v : Verified E} {now : DateTime} {id : ℤ} {created : Bool}
    {x : AcmeAccount} (hx : x ∈ t.accounts) (hapart : d.caId = x.caId → thumbprint E v.jwk ≠ .ok x.thumbprint)
    (h : newAccount E d t v now = .ok (t', id, created)) : t.accounts.Agree (fun y => y.id = x.id) t'.accounts := by
  obtain ⟨tp, htp, h⟩ := bind_eq_ok.1 h
  simp only at h
  split at h
  · rename_i existing hfound
    split_ifs at h
    cases h
    refine Table.agree_update (AcmeAccount.touch now) AcmeAccount.touch_id fun y hy hk => ?_
    have hmem : existing ∈ t.accounts := List.mem_of_find?_eq_some hfound
    have hmatch := List.find?_some hfound
    simp only [Bool.and_eq_true, beq_iff_eq] at hmatch
    have hne : y.id ≠ x.id := by
      intro heq
      have hsame : existing = x := Table.eq_of_key hmem hx (hk.symm.trans heq)
      rw [hsame] at hmatch
      exact hapart hmatch.1.symm (by rw [htp, hmatch.2])
    exact ⟨hne, hne⟩
  · split_ifs at h
    obtain ⟨contact, _, h⟩ := bind_eq_ok.1 h
    obtain ⟨eabRow, _, h⟩ := bind_eq_ok.1 h
    cases h
    exact Table.agree_insert _ (fun _ => rfl) (Table.key_lt_nextKey hx).ne'

theorem kept_newAccount {s : Session} {srv : Server} {v : Verified E} {now : DateTime} {x : AcmeAccount}
    (hx : x ∈ s.db.accounts) (hapart : srv.ca.id = x.caId → thumbprint E v.jwk ≠ .ok x.thumbprint) :
    Kept x.id s.db (finish s.db (postNewAccount E srv v now s)).db := by
  unfold postNewAccount
  cases hnew : newAccount E srv.directory ⟨s.db.accounts, s.db.eabKeys⟩ v now with
  | error e =>
    show Kept x.id s.db (finish s.db (.error ⟨e, s⟩)).db
    unfold finish
    simp only
    split_ifs <;> exact .refl _ _
  | ok r =>
    obtain ⟨accounts, id, created⟩ := r
    exact { Kept.refl x.id s.db with
      account := agree_newAccount hx hapart hnew }

/-- a request of somebody else: signed by another account, or a registration with another key or at another CA -/
def Apart (x : AcmeAccount) : Request E → Prop
  | .newAccount srv v => srv.ca.id = x.caId → thumbprint E v.jwk ≠ .ok x.thumbprint
  | r => ∃ a, signer r = some a ∧ a ≠ x.id

/-- when a request happens does not change whose it is -/
theorem apart_atTime {x : AcmeAccount} {r : Request E} (h : Apart x r) (now : DateTime) : Apart x (atTime E now r) := by
  cases r with
  | finalize f plan => exact h
  | _ => exact h

theorem kept_handle {s : Session} (hcontrol : Controlled E s) {now : DateTime} {lag : ℕ} {r : Request E}
    {x : AcmeAccount} (hx : x ∈ s.db.accounts) (h : Apart x r) : Kept x.id s.db (handle E now lag s r).db := by
  cases r with
  | newAccount srv v => exact kept_newAccount hx h
  | _ =>
    obtain ⟨a, hr, hne⟩ := h
    exact (only_handle hcontrol hr).kept hne

/-- **(3) Nobody else changes an account's objects.** Whatever has happened before, and whatever the other accounts and
clients without an account ask for after it: the account's row, its orders, authorizations, challenges and certificates
are the same, and none has come. -/
theorem others_keep_account (accounts : AccountTable) (eabKeys : EabTable) (csrs : CsrTable) (certificates : CertTable)
    (now : DateTime) (before after : List (Op E)) (x : AcmeAccount)
    (hx : x ∈ (run (step E) (init accounts eabKeys csrs certificates now) before).session.db.accounts)
    (hafter : ∀ o ∈ after, Apart x o.request) :
    Kept x.id (run (step E) (init accounts eabKeys csrs certificates now) before).session.db
      (run (step E) (init accounts eabKeys csrs certificates now) (before ++ after)).session.db := by
  induction after using List.reverseRecOn with
  | nil =>
    rw [List.append_nil]
    exact .refl _ _
  | append_singleton after o ih =>
    have hkept := ih fun o' ho' => hafter o' (List.mem_append_left _ ho')
    have hmem := (hkept.account x rfl).2 hx
    have hcontrol := controlled_run accounts eabKeys csrs certificates now (before ++ after)
    rw [← List.append_assoc, run_snoc]
    exact hkept.trans (kept_handle hcontrol hmem (apart_atTime (hafter o (by simp)) _))

/-- two accounts of one CA -/
def neighbours : AccountTable := (Table.empty.insert sampleAccount sampleAccount_id).insert sampleAccount sampleAccount_id

/-- the first account orders a certificate -/
def firstOrder : List (Op sampleEnv) :=
  [⟨0, 0, .newOrder sampleServer 1 (some [("identifiers",
    .arr [.obj [("type", .str "dns"), ("value", .str "a.example")]])])⟩]

/-- the second one asks for the first one's order, authorization and challenge, and leaves -/
def intrusion : List (Op sampleEnv) :=
  [⟨1, 0, .order sampleServer 2 1⟩, ⟨1, 0, .authorization sampleServer 2 1 (some [("status", .str "deactivated")])⟩,
    ⟨1, 0, .challenge sampleServer 2 1 (some [])⟩,
    ⟨1, 0, .updateAccount sampleServer 2 [("status", .str "deactivated")]⟩]

/-- the first one's objects are as they were -/
theorem intrusion_keeps :
    Kept 1 (run (step sampleEnv) (init neighbours Table.empty Table.empty Table.empty 0) firstOrder).session.db
      (run (step sampleEnv) (init neighbours Table.empty Table.empty Table.empty 0)
        (firstOrder ++ intrusion)).session.db := by
  obtain ⟨x, hx, hid⟩ : ∃ x ∈ (run (step sampleEnv) (init neighbours Table.empty Table.empty Table.empty 0)
    firstOrder).session.db.accounts, x.id = 1 := by decide +kernel
  have hkept := others_keep_account neighbours Table.empty Table.empty Table.empty 0 firstOrder intrusion x hx (by
    intro o ho
    have htwo : (2 : ℤ) ≠ x.id := by
      rw [hid]
      decide
    simp only [intrusion, List.mem_cons, List.not_mem_nil, or_false] at ho
    rcases ho with rfl | rfl | rfl | rfl
    · exact ⟨2, rfl, htwo⟩
    · exact ⟨2, rfl, htwo⟩
    · exact ⟨2, rfl, htwo⟩
    · exact ⟨2, rfl, htwo⟩)
  rw [hid] at hkept
  exact hkept

end Chancery.Acme.Ownership
