/-
One order, one certificate?

Any number of finalize requests for one order, interleaved at the granularity of their reads and commits: a `Pool` whose
workers are at a `Phase` each and share the session.

(1) `Effect`: what one step does to the order and to the certificates.

(2) `Undisturbed`: the condition the code does not check. A request commits `processing`, or writes back a refresh that
changed the status, only while the order still has a status the request has seen. In every run whose steps all meet it, at most one certificate is
issued, and a valid order is linked to it (`one_certificate`).

(3) `two_certificates`: two requests that read the order before either commits `processing` both issue.
-/
import Mathlib.Tactic
import Chancery.Core.Workers
import Chancery.Services.Acme.Writes
import Chancery.Scenarios.AcmeCertificateNames

namespace Chancery.Acme

open Chancery.Core CertificateNames

namespace OneCertificate

variable {E : Env}

/-! ## (1) What a step does -/

/-- between the commit of `processing` and the last one -/
def Phase.inside : Phase → Bool
  | .processing _ _ => true
  | .imported _ _ _ => true
  | .named _ => true
  | .claimed _ => true
  | .issued _ => true
  | .releasing _ _ => true
  | .failing _ => true
  | _ => false

/-- what a refresh may make of the order's status -/
def Answer (orderId : ℤ) (before after : Db) : Prop :=
  ∀ b a, before.orders.get? orderId = some b → after.orders.get? orderId = some a →
    a.status = b.status ∨ a.status = .invalid ∨ b.status = .pending ∧ a.status = .ready

/-- the effect of one step on the order and the certificates -/
inductive Effect (f : Finalization) (db : Db) : Phase → Db → Phase → Prop
  | keep {p p' : Phase} {db' : Db} (ho : db'.orders.get? f.orderId = db.orders.get? f.orderId)
      (hc : db'.certificates = db.certificates) (hin : Phase.inside p' = true → Phase.inside p = true ∧ ∀ c, p ≠ .issued c)
      (hissued : ∀ c, p' ≠ .issued c) (hanswer : ∀ r b a, p' = .answered r b a → Answer f.orderId b a) : Effect f db
        p db' p'
  | answer {result : Result Unit} {before after : Db} (hkeeps : keepsAnswer result = true) :
      Effect f db (.answered result before after) (flush before after db) (.ended result)
  | enter {csr : Csr} {wanted : List Text} :
      Effect f db (.checked csr wanted) (db.updateOrder f.orderId (AcmeOrder.process csr) AcmeOrder.process_id)
        (.processing csr wanted)
  | issue {csrId : ℤ} {issued : Issued} :
      Effect f db (.claimed csrId) (persist f.server.ca.id csrId issued db) (.issued db.certificates.nextKey)
  | link {certId : ℤ} {now : DateTime} :
      Effect f db (.issued certId) (linkOrder f.orderId f.accountId certId now db) (.ended (.ok ()))
  | reject {e : PyError} {result : Result Unit} :
      Effect f db (.failing e) (db.updateOrder f.orderId (AcmeOrder.reject e) AcmeOrder.reject_id) (.ended result)

theorem begin_answer (f : Finalization) (t : Tick) (db : Db) {r : Result Unit} {b a : Db}
    (h : begin E f t db = .answered r b a) : Answer f.orderId b a := by
  unfold begin at h
  cases hload : loadOrder f.server.ca.id f.accountId f.orderId db with
  | error e => rw [hload] at h; cases h
  | ok o =>
    have ho := (loadOrder_ok hload).1
    have hself : db.orders.get? o.id = some o := by rw [Table.key_of_get? ho]; exact ho
    have hanswer : Answer f.orderId db (refreshTwice t o db) := by
      intro r r' hr hr'
      obtain ⟨r'', hr'', hrefresh⟩ := @refreshTwice_orders t o db hself f.orderId r hr
      rw [hr''] at hr'
      cases hr'
      rcases hrefresh with heq | ⟨_, _, heq⟩ | ⟨hp, _, heq⟩ <;> rw [heq]
      · exact Or.inl rfl
      · exact Or.inr (Or.inl rfl)
      · exact Or.inr (Or.inr ⟨hp, rfl⟩)
    simp only [hload] at h
    cases hget : (refreshTwice t o db).orders.get? f.orderId with
    | none => rw [hget] at h; cases h
    | some order =>
      simp only [hget] at h
      split at h
      · cases h
        exact hanswer
      · cases hcheck : checkRequest E f order with
        | error e =>
          rw [hcheck] at h
          cases h
          exact hanswer
        | ok csr => rw [hcheck] at h; cases h
      · cases h
        exact hanswer

theorem begin_outside (f : Finalization) (t : Tick) (db : Db) : Phase.inside (begin E f t db) = false := by
  unfold begin
  cases loadOrder f.server.ca.id f.accountId f.orderId db with
  | error e => rfl
  | ok o =>
    simp only
    cases (refreshTwice t o db).orders.get? f.orderId with
    | none => rfl
    | some order =>
      simp only
      split
      · rfl
      · cases checkRequest E f order <;> rfl
      · rfl

/-- a step that only moves on -/
theorem Effect.stay {f : Finalization} {db : Db} {p p' : Phase}
    (hin : Phase.inside p' = true → Phase.inside p = true ∧ ∀ c, p ≠ .issued c) (hissued : ∀ c, p' ≠ .issued c)
      (hanswer : ∀ r b a, p' ≠ .answered r b a) : Effect f db p db p' :=
  .keep rfl rfl hin hissued fun r b a h => absurd h (hanswer r b a)

/-- **(1) What a step does.** -/
theorem advance_effect (f : Finalization) (t : Tick) (s : Session) (p : Phase) :
    Effect f s.db p (advance E f t s p).1.db (advance E f t s p).2 := by
  cases p with
  | start =>
    refine .keep rfl rfl (fun hin => ?_) (fun c hc => ?_) fun r b a h => begin_answer f t s.db h
    · rw [show (advance E f t s .start).2 = begin E f t s.db from rfl, begin_outside] at hin
      cases hin
    · have hout := @begin_outside E f t s.db
      rw [show begin E f t s.db = .issued c from hc] at hout
      cases hout
  | answered result before after =>
    simp only [advance]
    by_cases hkeeps : keepsAnswer result = true
    · rw [if_pos hkeeps]
      exact .answer hkeeps
    · rw [if_neg hkeeps]
      exact .stay (by simp [Phase.inside]) (by simp) (by simp)
  | checked csr wanted =>
    simp only [advance]
    cases t.fault with
    | some e => exact .stay (by simp [Phase.inside]) (by simp) (by simp)
    | none => exact .enter
  | processing csr wanted =>
    simp only [advance]
    cases hi : t.guard (importRow f s.db) with
    | error e => exact .stay (fun _ => ⟨rfl, by simp⟩) (by simp) (by simp)
    | ok r =>
      obtain ⟨db, csrId⟩ := r
      obtain ⟨_, _, rfl, _⟩ := importRow_ok (guard_ok.1 hi).1
      exact .keep rfl rfl (fun _ => ⟨rfl, by simp⟩) (by simp) (by simp)
  | imported csrId csr wanted =>
    simp only [advance]
    cases hi : t.guard (renameRow f csrId csr wanted s.db) with
    | error e => exact .stay (fun _ => ⟨rfl, by simp⟩) (by simp) (by simp)
    | ok db =>
      obtain ⟨cn, _, rfl⟩ := renameRow_ok (guard_ok.1 hi).1
      exact .keep rfl rfl (fun _ => ⟨rfl, by simp⟩) (by simp) (by simp)
  | named csrId =>
    simp only [advance]
    cases f.urls with
    | error e => exact .stay (fun _ => ⟨rfl, by simp⟩) (by simp) (by simp)
    | ok u =>
      simp only [Session.recordSigning_db]
      cases checkRow f csrId s.db with
      | error e =>
        simp only [Session.recordSigning_db]
        exact .stay (fun _ => ⟨rfl, by simp⟩) (by simp) (by simp)
      | ok u =>
        simp only
        cases hc : t.guard (claimRow csrId s.db) with
        | error e =>
          simp only [Session.recordSigning_db]
          exact .stay (fun _ => ⟨rfl, by simp⟩) (by simp) (by simp)
        | ok db =>
          obtain ⟨row, _, _, rfl⟩ := claimRow_ok (guard_ok.1 hc).1
          exact .keep rfl rfl (fun _ => ⟨rfl, by simp⟩) (by simp) (by simp)
  | claimed csrId =>
    simp only [advance]
    cases hi : t.guard (signRow f csrId t.now s.db) with
    | error e => exact .stay (fun _ => ⟨rfl, by simp⟩) (by simp) (by simp)
    | ok r =>
      obtain ⟨db, certId⟩ := r
      obtain ⟨row, issued, _, _, rfl, rfl⟩ := signRow_ok (guard_ok.1 hi).1
      exact .issue
  | issued certId =>
    simp only [advance]
    cases t.fault with
    | some e => exact .stay (by simp [Phase.inside]) (by simp) (by simp)
    | none => exact .link
  | releasing csrId e =>
    simp only [advance]
    cases t.fault with
    | some e' => exact .stay (fun _ => ⟨rfl, by simp⟩) (by simp) (by simp)
    | none => exact .keep rfl rfl (fun _ => ⟨rfl, by simp⟩) (by simp) (by simp)
  | failing e =>
    simp only [advance]
    split_ifs
    · cases t.fault with
      | some e' => exact .stay (by simp [Phase.inside]) (by simp) (by simp)
      | none => exact .reject
    · exact .stay (by simp [Phase.inside]) (by simp) (by simp)
  | ended result =>
    simp only [advance]
    exact .stay (by simp [Phase.inside]) (by simp) (by simp)

/-! ## (2) At most one certificate -/

abbrev Race := Pool Session Phase

/-- one step of one of the requests -/
def raceStep (E : Env) (requests : ℕ → Finalization) (r : Race) (o : ℕ × Tick) : Race :=
  r.act (fun i t s p => advance E (requests i) t s p) o

/-- nobody has begun -/
def raceStart (s : Session) : Race := ⟨s, fun _ => .start⟩

def statusOf (db : Db) (orderId : ℤ) : Option OrderStatus := (db.orders.get? orderId).map (·.status)

/-- the step does not overwrite a status the request has not seen -/
def Undisturbed (orderId : ℤ) (r : Race) (o : ℕ × Tick) : Prop :=
  match r.workers o.1 with
  | .checked _ _ => o.2.fault = none →
      statusOf r.shared.db orderId = some .ready ∨ statusOf r.shared.db orderId = some .pending
  | .answered result before after => keepsAnswer result = true → statusOf before orderId ≠ statusOf after orderId →
      statusOf r.shared.db orderId = statusOf before orderId
  | _ => True

instance (orderId : ℤ) (r : Race) (o : ℕ × Tick) : Decidable (Undisturbed orderId r o) := by
  unfold Undisturbed
  cases r.workers o.1 <;> infer_instance

/-- issued since `base` -/
def New (base : CertTable) (c : Certificate) : Prop := base.get? c.id = none

/-- the certificates, the order and the requests fit together -/
structure Fits (orderId : ℤ) (base : Db) (r : Race) : Prop where
  present : ∃ o, r.shared.db.orders.get? orderId = some o
  kept : CertificatesKept base.certificates r.shared.db.certificates
  answers : ∀ i result b a, r.workers i = .answered result b a → Answer orderId b a
  exclusive : ∀ i j, Phase.inside (r.workers i) = true → Phase.inside (r.workers j) = true → i = j
  closed : (∃ i, Phase.inside (r.workers i) = true) →
    ∀ o, r.shared.db.orders.get? orderId = some o → o.status = .processing ∨ o.status = .invalid
  counted : ((∀ c ∈ r.shared.db.certificates, ¬ New base.certificates c) ∧ ∀ i id, r.workers i ≠ .issued id) ∨
    ∃ c ∈ r.shared.db.certificates, New base.certificates c ∧
      (∀ c' ∈ r.shared.db.certificates, New base.certificates c' → c' = c) ∧
      (∀ i, Phase.inside (r.workers i) = true → r.workers i = .issued c.id) ∧
      ∀ o, r.shared.db.orders.get? orderId = some o → o.status = .processing ∨ o.status = .invalid ∨ o.status = .valid
  linked : ∀ o, r.shared.db.orders.get? orderId = some o → o.status = .valid →
    (∃ o₀, base.orders.get? orderId = some o₀ ∧ o₀.status = .valid ∧ o.certificateId = o₀.certificateId) ∨
      ∃ c ∈ r.shared.db.certificates, New base.certificates c ∧ o.certificateId = some c.id

section Step

variable {orderId : ℤ} {base : Db} {r r' : Race} {i : ℕ} {f : Finalization}

theorem new_nextKey (h : Fits orderId base r) : base.certificates.get? r.shared.db.certificates.nextKey = none := by
  refine Table.get?_eq_none.2 fun c hc => ?_
  obtain ⟨c', hc', hid⟩ := h.kept c hc
  have hlt := Table.key_lt_nextKey hc'
  omega

/-- workers other than `i` are where they were -/
theorem inside_other (hother : ∀ j, j ≠ i → r'.workers j = r.workers j) (hout : Phase.inside (r'.workers i) = false) {j : ℕ}
    (hj : Phase.inside (r'.workers j) = true) : j ≠ i ∧ Phase.inside (r.workers j) = true := by
  have hne : j ≠ i := by
    intro heq
    rw [heq, hout] at hj
    cases hj
  rw [hother j hne] at hj
  exact ⟨hne, hj⟩

theorem Fits.keep (h : Fits orderId base r) (hother : ∀ j, j ≠ i → r'.workers j = r.workers j)
    (ho : r'.shared.db.orders.get? orderId = r.shared.db.orders.get? orderId)
    (hc : r'.shared.db.certificates = r.shared.db.certificates)
    (hin : Phase.inside (r'.workers i) = true → Phase.inside (r.workers i) = true ∧ ∀ c, r.workers i ≠ .issued c)
    (hissued : ∀ c, r'.workers i ≠ .issued c) (hanswer : ∀ res b a, r'.workers i = .answered res b a → Answer orderId b a) :
    Fits orderId base r' := by
  have hsub : ∀ j, Phase.inside (r'.workers j) = true → Phase.inside (r.workers j) = true := by
    intro j hj
    by_cases hji : j = i
    · rw [hji] at hj ⊢
      exact (hin hj).1
    · rwa [hother j hji] at hj
  constructor
  · rw [ho]
    exact h.present
  · rw [hc]
    exact h.kept
  · intro j res b a hj
    by_cases hji : j = i
    · rw [hji] at hj
      exact hanswer res b a hj
    · rw [hother j hji] at hj
      exact h.answers j res b a hj
  · exact fun j k hj hk => h.exclusive j k (hsub j hj) (hsub k hk)
  · intro hex
    obtain ⟨j, hj⟩ := hex
    rw [ho]
    exact h.closed ⟨j, hsub j hj⟩
  · rw [ho, hc]
    rcases h.counted with ⟨hnone, hnot⟩ | ⟨c, hmem, hnew, honly, hat, hst⟩
    · refine Or.inl ⟨hnone, fun j id => ?_⟩
      by_cases hji : j = i
      · rw [hji]
        exact hissued id
      · rw [hother j hji]
        exact hnot j id
    · refine Or.inr ⟨c, hmem, hnew, honly, fun j hj => ?_, hst⟩
      by_cases hji : j = i
      · rw [hji] at hj
        have hbefore := hat i (hin hj).1
        exact absurd hbefore ((hin hj).2 c.id)
      · rw [hother j hji] at hj ⊢
        exact hat j hj
  · rw [ho, hc]
    exact h.linked

/-- what the write of a refresh makes of an order that nobody changed in between -/
theorem flush_order {before after db : Db} {o o' : AcmeOrder} (hanswer : Answer orderId before after)
    (hsame : statusOf before orderId ≠ statusOf after orderId → statusOf db orderId = statusOf before orderId)
    (ho : db.orders.get? orderId = some o) (ho' : (flush before after db).orders.get? orderId = some o') :
    o'.certificateId = o.certificateId ∧
      (o'.status = o.status ∨ o'.status = .invalid ∨ o.status = .pending ∧ o'.status = .ready) := by
  unfold flush at ho'
  rw [Table.get?_mapRows, ho, Option.map_some] at ho'
  cases ho'
  have hid : o.id = orderId := Table.key_of_get? ho
  unfold flushOrder
  rw [hid]
  cases hb : before.orders.get? orderId with
  | none => exact ⟨rfl, Or.inl rfl⟩
  | some b =>
    cases ha : after.orders.get? orderId with
    | none => exact ⟨rfl, Or.inl rfl⟩
    | some a =>
      simp only
      by_cases heq : a.status = b.status
      · rw [if_pos heq]
        exact ⟨rfl, Or.inl rfl⟩
      · rw [if_neg heq]
        have hst : o.status = b.status := by
          unfold statusOf at hsame
          rw [ho, hb, ha] at hsame
          exact Option.some.inj (hsame fun hunchanged => heq (Option.some.inj hunchanged).symm)
        refine ⟨rfl, ?_⟩
        rw [hst]
        rcases hanswer b a hb ha with habs | hinv | hready
        · exact absurd habs heq
        · exact Or.inr (Or.inl hinv)
        · exact Or.inr (Or.inr hready)

theorem Fits.answer (h : Fits orderId base r) (hother : ∀ j, j ≠ i → r'.workers j = r.workers j) {result : Result Unit}
    {before after : Db} (hp : r.workers i = .answered result before after) (hp' : r'.workers i = .ended result)
    (hdb : r'.shared.db = flush before after r.shared.db)
    (hsame : statusOf before orderId ≠ statusOf after orderId →
      statusOf r.shared.db orderId = statusOf before orderId) : Fits orderId base r' := by
  have hanswer := h.answers i result before after hp
  obtain ⟨o, ho⟩ := h.present
  obtain ⟨o', ho'⟩ : ∃ o', (flush before after r.shared.db).orders.get? orderId = some o' := by
    unfold flush
    rw [Table.get?_mapRows, ho]
    exact ⟨_, rfl⟩
  obtain ⟨hcert, hstatus⟩ := flush_order hanswer hsame ho ho'
  have hout : ∀ j, Phase.inside (r'.workers j) = true → j ≠ i ∧ Phase.inside (r.workers j) = true :=
    fun j hj => inside_other hother (by rw [hp']; rfl) hj
  have hcerts : r'.shared.db.certificates = r.shared.db.certificates := by rw [hdb]; rfl
  constructor
  · rw [hdb]
    exact ⟨o', ho'⟩
  · rw [hcerts]
    exact h.kept
  · intro j res b a hj
    by_cases hji : j = i
    · rw [hji, hp'] at hj
      cases hj
    · rw [hother j hji] at hj
      exact h.answers j res b a hj
  · exact fun j k hj hk => h.exclusive j k (hout j hj).2 (hout k hk).2
  · intro hex o₁ ho₁
    obtain ⟨j, hj⟩ := hex
    rw [hdb, ho'] at ho₁
    cases ho₁
    have hclosed := h.closed ⟨j, (hout j hj).2⟩ o ho
    rcases hstatus with hst | hst | ⟨hst, _⟩
    · rw [hst]
      exact hclosed
    · exact Or.inr hst
    · rw [hst] at hclosed
      rcases hclosed with hclosed | hclosed <;> cases hclosed
  · rw [hcerts]
    rcases h.counted with ⟨hnone, hnot⟩ | ⟨c, hmem, hnew, honly, hat, hst⟩
    · refine Or.inl ⟨hnone, fun j id => ?_⟩
      by_cases hji : j = i
      · rw [hji, hp']
        exact nofun
      · rw [hother j hji]
        exact hnot j id
    · refine Or.inr ⟨c, hmem, hnew, honly, fun j hj => ?_, fun o₁ ho₁ => ?_⟩
      · rw [hother j (hout j hj).1]
        exact hat j (hout j hj).2
      · rw [hdb, ho'] at ho₁
        cases ho₁
        have hold := hst o ho
        rcases hstatus with hsame' | hinv | ⟨hpend, _⟩
        · rw [hsame']
          exact hold
        · exact Or.inr (Or.inl hinv)
        · rw [hpend] at hold
          rcases hold with hold | hold | hold <;> cases hold
  · intro o₁ ho₁ hvalid
    rw [hcerts]
    rw [hdb, ho'] at ho₁
    cases ho₁
    rw [hcert]
    refine h.linked o ho ?_
    rcases hstatus with hsame' | hinv | ⟨_, hready⟩
    · rw [← hsame']
      exact hvalid
    · rw [hinv] at hvalid
      cases hvalid
    · rw [hready] at hvalid
      cases hvalid

/-- the commit of `processing`, while the order is still ready: nobody is inside -/
theorem Fits.enter (h : Fits orderId base r) (hother : ∀ j, j ≠ i → r'.workers j = r.workers j) {csr : Csr}
    {wanted : List Text} (hp' : r'.workers i = .processing csr wanted)
    (hdb : r'.shared.db = r.shared.db.updateOrder orderId (AcmeOrder.process csr) AcmeOrder.process_id)
    (hst : statusOf r.shared.db orderId = some .ready ∨ statusOf r.shared.db orderId = some .pending) :
    Fits orderId base r' := by
  obtain ⟨o, ho⟩ := h.present
  have hopen : o.status = .ready ∨ o.status = .pending := by
    unfold statusOf at hst
    rw [ho] at hst
    exact hst.imp Option.some.inj Option.some.inj
  have hnobody : ∀ j, Phase.inside (r.workers j) ≠ true := by
    intro j hj
    rcases h.closed ⟨j, hj⟩ o ho with hcl | hcl <;> rw [hcl] at hopen <;> rcases hopen with hopen | hopen <;> cases hopen
  have ho' : r'.shared.db.orders.get? orderId = some (o.process csr) := by
    rw [hdb]
    exact Db.updateOrder_self ho
  have hcerts : r'.shared.db.certificates = r.shared.db.certificates := by rw [hdb]; rfl
  have honly : ∀ j, Phase.inside (r'.workers j) = true → j = i := by
    intro j hj
    by_contra hji
    rw [hother j hji] at hj
    exact hnobody j hj
  constructor
  · exact ⟨_, ho'⟩
  · rw [hcerts]
    exact h.kept
  · intro j res b a hj
    by_cases hji : j = i
    · rw [hji, hp'] at hj
      cases hj
    · rw [hother j hji] at hj
      exact h.answers j res b a hj
  · intro j k hj hk
    rw [honly j hj, honly k hk]
  · intro _ o₁ ho₁
    rw [ho'] at ho₁
    cases ho₁
    exact Or.inl rfl
  · rw [hcerts]
    rcases h.counted with ⟨hnone, hnot⟩ | ⟨c, _, _, _, _, hstatus⟩
    · refine Or.inl ⟨hnone, fun j id => ?_⟩
      by_cases hji : j = i
      · rw [hji, hp']
        exact nofun
      · rw [hother j hji]
        exact hnot j id
    · rcases hstatus o ho with hcl | hcl | hcl <;> rw [hcl] at hopen <;> rcases hopen with hopen | hopen <;> cases hopen
  · intro o₁ ho₁ hvalid
    rw [ho'] at ho₁
    cases ho₁
    cases hvalid

/-- the certificate is persisted: there was none before -/
theorem Fits.issue (h : Fits orderId base r) (hother : ∀ j, j ≠ i → r'.workers j = r.workers j) {csrId caId : ℤ}
    {issued : Issued} (hp : r.workers i = .claimed csrId) (hp' : r'.workers i = .issued r.shared.db.certificates.nextKey)
    (hdb : r'.shared.db = persist caId csrId issued r.shared.db) : Fits orderId base r' := by
  have hin : Phase.inside (r.workers i) = true := by rw [hp]; rfl
  have hcerts : r'.shared.db.certificates.rows = r.shared.db.certificates.rows ++
      [⟨r.shared.db.certificates.nextKey, caId, issued, none, none⟩] := by
    rw [hdb]
    rfl
  have horders : r'.shared.db.orders = r.shared.db.orders := by rw [hdb]; rfl
  have hmem : ∀ c, c ∈ r'.shared.db.certificates ↔
      c ∈ r.shared.db.certificates ∨ c = ⟨r.shared.db.certificates.nextKey, caId, issued, none, none⟩ := by
    intro c
    rw [Table.mem_def, hcerts, List.mem_append, List.mem_singleton, Table.mem_def]
  have honly : ∀ j, Phase.inside (r'.workers j) = true → j = i := by
    intro j hj
    by_contra hji
    rw [hother j hji] at hj
    exact hji (h.exclusive j i hj hin)
  constructor
  · rw [horders]
    exact h.present
  · intro c hc
    obtain ⟨c', hc', hid⟩ := h.kept c hc
    exact ⟨c', (hmem c').2 (Or.inl hc'), hid⟩
  · intro j res b a hj
    by_cases hji : j = i
    · rw [hji, hp'] at hj
      cases hj
    · rw [hother j hji] at hj
      exact h.answers j res b a hj
  · intro j k hj hk
    rw [honly j hj, honly k hk]
  · intro _
    rw [horders]
    exact h.closed ⟨i, hin⟩
  · rcases h.counted with ⟨hnone, _⟩ | ⟨c, _, _, _, hat, _⟩
    · refine Or.inr ⟨_, (hmem _).2 (Or.inr rfl), new_nextKey h, fun c' hc' hnew => ?_, fun j hj => ?_, fun o ho => ?_⟩
      · rcases (hmem c').1 hc' with hold | heq
        · exact absurd hnew (hnone c' hold)
        · exact heq
      · rw [honly j hj]
        exact hp'
      · rw [horders] at ho
        exact (h.closed ⟨i, hin⟩ o ho).imp id Or.inl
    · have habs := hat i hin
      rw [hp] at habs
      cases habs
  · intro o ho hvalid
    rw [horders] at ho
    rcases h.linked o ho hvalid with hold | ⟨c, hc, hnew, hlink⟩
    · exact Or.inl hold
    · exact Or.inr ⟨c, (hmem c).2 (Or.inl hc), hnew, hlink⟩

/-- the last commit: the only new certificate is the one the order is linked to -/
theorem Fits.link (h : Fits orderId base r) (hother : ∀ j, j ≠ i → r'.workers j = r.workers j) {certId accountId : ℤ}
    {now : DateTime} (hp : r.workers i = .issued certId) (hp' : r'.workers i = .ended (.ok ()))
    (hdb : r'.shared.db = linkOrder orderId accountId certId now r.shared.db) : Fits orderId base r' := by
  have hin : Phase.inside (r.workers i) = true := by rw [hp]; rfl
  obtain ⟨o, ho⟩ := h.present
  have ho' : r'.shared.db.orders.get? orderId = some (o.link certId now) := by
    rw [hdb]
    unfold linkOrder Db.updateOrder
    rw [Table.get?_update_self, ho, Option.map_some]
  have hout : ∀ j, Phase.inside (r'.workers j) ≠ true := by
    intro j hj
    obtain ⟨hji, hinj⟩ := @inside_other r r' i hother (by rw [hp']; rfl) j hj
    exact hji (h.exclusive j i hinj hin)
  obtain ⟨c, hmem, hnew, honly, hid⟩ : ∃ c ∈ r.shared.db.certificates, New base.certificates c ∧
      (∀ c' ∈ r.shared.db.certificates, New base.certificates c' → c' = c) ∧ c.id = certId := by
    rcases h.counted with ⟨_, hnot⟩ | ⟨c, hmem, hnew, honly, hat, _⟩
    · exact absurd hp (hnot i certId)
    · have heq := hat i hin
      rw [hp] at heq
      cases heq
      exact ⟨c, hmem, hnew, honly, rfl⟩
  -- the marked rows are the old ones
  have hmarked : ∀ c' ∈ r'.shared.db.certificates, ∃ c₀ ∈ r.shared.db.certificates, c'.id = c₀.id ∧
      c' = if c₀.id = certId then markAcme accountId c₀ else c₀ := by
    intro c' hc'
    rw [hdb] at hc'
    obtain ⟨c₀, hc₀, heq⟩ := List.mem_map.1 hc'
    refine ⟨c₀, hc₀, ?_, heq.symm⟩
    rw [← heq]
    split_ifs <;> rfl
  have hmark : ∀ c₀ ∈ r.shared.db.certificates, (if c₀.id = certId then markAcme accountId c₀ else c₀) ∈
      r'.shared.db.certificates := by
    intro c₀ hc₀
    rw [hdb]
    exact List.mem_map.2 ⟨c₀, hc₀, rfl⟩
  have hself : markAcme accountId c ∈ r'.shared.db.certificates := by
    have := hmark c hmem
    rwa [if_pos hid] at this
  constructor
  · exact ⟨_, ho'⟩
  · intro c₀ hc₀
    obtain ⟨c₁, hc₁, hid₁⟩ := h.kept c₀ hc₀
    refine ⟨_, hmark c₁ hc₁, ?_⟩
    rw [← hid₁]
    split_ifs <;> rfl
  · intro j res b a hj
    by_cases hji : j = i
    · rw [hji, hp'] at hj
      cases hj
    · rw [hother j hji] at hj
      exact h.answers j res b a hj
  · exact fun j _ hj _ => absurd hj (hout j)
  · intro hex
    obtain ⟨j, hj⟩ := hex
    exact absurd hj (hout j)
  · refine Or.inr ⟨_, hself, hnew, fun c' hc' hnew' => ?_, fun j hj => absurd hj (hout j), fun o₁ ho₁ => ?_⟩
    · obtain ⟨c₀, hc₀, hid₀, heq⟩ := hmarked c' hc'
      have hnew₀ : New base.certificates c₀ := by
        unfold New at hnew' ⊢
        rwa [hid₀] at hnew'
      rw [honly c₀ hc₀ hnew₀, if_pos hid] at heq
      exact heq
    · rw [ho'] at ho₁
      cases ho₁
      exact Or.inr (Or.inr rfl)
  · intro o₁ ho₁ _
    rw [ho'] at ho₁
    cases ho₁
    exact Or.inr ⟨_, hself, hnew, congrArg some hid.symm⟩

/-- the handler of a ValueError: nothing was issued -/
theorem Fits.reject (h : Fits orderId base r) (hother : ∀ j, j ≠ i → r'.workers j = r.workers j) {e : PyError}
    {result : Result Unit} (hp : r.workers i = .failing e) (hp' : r'.workers i = .ended result)
    (hdb : r'.shared.db = r.shared.db.updateOrder orderId (AcmeOrder.reject e) AcmeOrder.reject_id) : Fits orderId base
      r' := by
  have hin : Phase.inside (r.workers i) = true := by rw [hp]; rfl
  obtain ⟨o, ho⟩ := h.present
  have ho' : r'.shared.db.orders.get? orderId = some (o.reject e) := by
    rw [hdb]
    exact Db.updateOrder_self ho
  have hcerts : r'.shared.db.certificates = r.shared.db.certificates := by rw [hdb]; rfl
  have hout : ∀ j, Phase.inside (r'.workers j) ≠ true := by
    intro j hj
    obtain ⟨hji, hinj⟩ := @inside_other r r' i hother (by rw [hp']; rfl) j hj
    exact hji (h.exclusive j i hinj hin)
  constructor
  · exact ⟨_, ho'⟩
  · rw [hcerts]
    exact h.kept
  · intro j res b a hj
    by_cases hji : j = i
    · rw [hji, hp'] at hj
      cases hj
    · rw [hother j hji] at hj
      exact h.answers j res b a hj
  · exact fun j _ hj _ => absurd hj (hout j)
  · intro hex
    obtain ⟨j, hj⟩ := hex
    exact absurd hj (hout j)
  · rw [hcerts]
    rcases h.counted with ⟨hnone, hnot⟩ | ⟨c, _, _, _, hat, _⟩
    · refine Or.inl ⟨hnone, fun j id => ?_⟩
      by_cases hji : j = i
      · rw [hji, hp']
        exact nofun
      · rw [hother j hji]
        exact hnot j id
    · have habs := hat i hin
      rw [hp] at habs
      cases habs
  · intro o₁ ho₁ hvalid
    rw [ho'] at ho₁
    cases ho₁
    cases hvalid

end Step

/-- an undisturbed step of one of the requests keeps everything together -/
theorem Fits.step {orderId : ℤ} {base : Db} {requests : ℕ → Finalization} (hids : ∀ i, (requests i).orderId = orderId)
    (r : Race) (o : ℕ × Tick) (hC : Undisturbed orderId r o) (h : Fits orderId base r) :
    Fits orderId base (raceStep E requests r o) := by
  have hother : ∀ j, j ≠ o.1 → (raceStep E requests r o).workers j = r.workers j := fun j hj => Pool.act_other hj
  have heff := @advance_effect E (requests o.1) o.2 r.shared (r.workers o.1)
  have hp' : (raceStep E requests r o).workers o.1 = (advance E (requests o.1) o.2 r.shared (r.workers o.1)).2 :=
    Pool.act_self
  have hs' : (raceStep E requests r o).shared = (advance E (requests o.1) o.2 r.shared (r.workers o.1)).1 := rfl
  have hid := hids o.1
  generalize hadv : advance E (requests o.1) o.2 r.shared (r.workers o.1) = res at heff hp' hs'
  obtain ⟨s', p'⟩ := res
  simp only at heff hp' hs'
  generalize hp : r.workers o.1 = p at heff hadv
  generalize hdb : s'.db = db' at heff
  rw [← hs'] at hdb
  unfold Undisturbed at hC
  rw [hp] at hC
  cases heff with
  | keep ho hc hin hissued hanswer =>
    rw [hid, ← hdb] at ho
    rw [← hdb] at hc
    rw [hid] at hanswer
    rw [← hp, ← hp'] at hin
    rw [← hp'] at hissued hanswer
    exact h.keep hother ho hc hin hissued hanswer
  | answer hkeeps => exact h.answer hother hp hp' hdb (hC hkeeps)
  | enter =>
    have hfault : o.2.fault = none := by
      simp only [advance] at hadv
      cases hf : o.2.fault with
      | none => rfl
      | some e => rw [hf] at hadv; cases hadv
    exact h.enter hother hp' (by rw [hdb, hid]) (hC hfault)
  | issue => exact h.issue hother hp hp' hdb
  | link => exact h.link hother hp hp' (by rw [hdb, hid])
  | reject => exact h.reject hother hp hp' (by rw [hdb, hid])

theorem fits_start {orderId : ℤ} {s : Session} {o : AcmeOrder} (ho : s.db.orders.get? orderId = some o) :
    Fits orderId s.db (raceStart s) where
  present := ⟨o, ho⟩
  kept := certificatesKept_refl _
  answers := nofun
  exclusive := nofun
  closed hex := by
    obtain ⟨i, hi⟩ := hex
    cases hi
  counted := Or.inl ⟨fun c hc hnew => Option.some_ne_none c ((Table.get?_key hc).symm.trans hnew), nofun⟩
  linked o' ho' hvalid := Or.inl ⟨o', ho', hvalid, rfl⟩

/-- **(2) One order, one certificate, in an undisturbed run.** Any number of finalize requests for an order, interleaved in
any way: at most one certificate is issued, and an order that became valid is linked to it. -/
theorem one_certificate {requests : ℕ → Finalization} {orderId : ℤ} {s : Session} {o : AcmeOrder} {ops : List (ℕ × Tick)}
    (hids : ∀ i, (requests i).orderId = orderId) (ho : s.db.orders.get? orderId = some o)
    (hC : Meets (raceStep E requests) (Undisturbed orderId) (raceStart s) ops) :
    let db := (run (raceStep E requests) (raceStart s) ops).shared.db
    (∀ c ∈ db.certificates, ∀ c' ∈ db.certificates, New s.db.certificates c → New s.db.certificates c' → c = c') ∧
      ∀ o', db.orders.get? orderId = some o' → o'.status = .valid →
        o.status = .valid ∧ o'.certificateId = o.certificateId ∨
          ∃ c ∈ db.certificates, New s.db.certificates c ∧ o'.certificateId = some c.id := by
  intro db
  have hfits : Fits orderId s.db (run (raceStep E requests) (raceStart s) ops) :=
    run_invariant_of_meets (Fits.step hids) (fits_start ho) hC
  constructor
  · intro c hc c' hc' hnew hnew'
    rcases hfits.counted with ⟨hnone, _⟩ | ⟨c₀, _, _, honly, _⟩
    · exact absurd hnew (hnone c hc)
    · rw [honly c hc hnew, honly c' hc' hnew']
  · intro o' ho' hvalid
    rcases hfits.linked o' ho' hvalid with ⟨o₀, ho₀, hvalid₀, hcert⟩ | hlinked
    · rw [ho] at ho₀
      cases ho₀
      exact Or.inl ⟨hvalid₀, hcert⟩
    · exact Or.inr hlinked

/-- two requests for the sample order -/
def sampleRequests : ℕ → Finalization := fun _ => sampleRequest oneNameCsr

def tick : Tick := ⟨0, 0, none⟩

/-- one after the other -/
def inTurn : List (ℕ × Tick) := List.replicate 8 (0, tick) ++ List.replicate 2 (1, tick)

/-- the theorem applies to two requests one after the other -/
theorem one_certificate_inTurn :
    ∃ c ∈ (run (raceStep sampleEnv sampleRequests) (raceStart ⟨readyDb, []⟩) inTurn).shared.db.certificates,
      (run (raceStep sampleEnv sampleRequests) (raceStart ⟨readyDb, []⟩) inTurn).shared.db.orders.get? 1 =
        some (((readyOrder 1).process oneNameCsr).link c.id 0) := by
  have hone := @one_certificate sampleEnv sampleRequests 1 ⟨readyDb, []⟩ (readyOrder 1) inTurn (fun _ => rfl) rfl
    (by decide +kernel)
  have horder : (run (raceStep sampleEnv sampleRequests) (raceStart ⟨readyDb, []⟩) inTurn).shared.db.orders.get? 1 =
      some (((readyOrder 1).process oneNameCsr).link 1 0) := rfl
  rcases hone.2 _ horder rfl with ⟨hvalid, _⟩ | ⟨c, hc, _, hlink⟩
  · cases hvalid
  · refine ⟨c, hc, ?_⟩
    rw [horder, Option.some.inj hlink]

/-! ## (3) Two certificates -/

/-- both read the order before either commits `processing` -/
def bothRead : List (ℕ × Tick) := [(0, tick), (1, tick)] ++ List.replicate 7 (0, tick) ++ List.replicate 7 (1, tick)

/-- **Two certificates for one order.** -/
theorem two_certificates :
    ∃ c ∈ (run (raceStep sampleEnv sampleRequests) (raceStart ⟨readyDb, []⟩) bothRead).shared.db.certificates,
      ∃ c' ∈ (run (raceStep sampleEnv sampleRequests) (raceStart ⟨readyDb, []⟩) bothRead).shared.db.certificates,
        New readyDb.certificates c ∧ New readyDb.certificates c' ∧ c ≠ c' := by
  have hids : (run (raceStep sampleEnv sampleRequests) (raceStart ⟨readyDb, []⟩) bothRead).shared.db.certificates.rows.map
      (·.id) = [1, 2] := by decide +kernel
  have hmem : ∀ id ∈ ([1, 2] : List ℤ), ∃ c ∈ (run (raceStep sampleEnv sampleRequests) (raceStart ⟨readyDb, []⟩)
      bothRead).shared.db.certificates, c.id = id := by
    intro id hid
    rw [← hids] at hid
    obtain ⟨c, hc, heq⟩ := List.mem_map.1 hid
    exact ⟨c, hc, heq⟩
  obtain ⟨c, hc, hid⟩ := hmem 1 (by decide)
  obtain ⟨c', hc', hid'⟩ := hmem 2 (by decide)
  refine ⟨c, hc, c', hc', rfl, rfl, fun heq => ?_⟩
  rw [heq, hid'] at hid
  exact absurd hid (by decide)

end OneCertificate

end Chancery.Acme
