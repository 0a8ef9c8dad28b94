/-
Expiry events are sent once. One timestamp of a row stands for two events: before the row's notAfter it says that
`expiring` is out, from there on that `expired` is (`RowClean`). The job keeps this, at whatever times it runs and
whichever items fail.

(1) A re-issue resets the timestamp, so an event repeats if the new notAfter is one that was reported before.
(2) `recompute-expiry` leaves the timestamp alone, so `expired` is lost if the notAfter moves to or below it.
(3) `expiry_events_once`: in a run without (1) and (2) (`Careful`) no event is sent twice, and whatever is past its notAfter
has been reported after a job without faults.
-/
import Mathlib.Tactic
import Chancery.Services.ExpiryEvents

namespace Chancery.ExpiryEvents

open Chancery.Core

/-! ## Each event once, and timestamps that say so -/

section Model

variable {ι : Type} (M : ExpiryModel ι)

/-- the event is about the row and the notAfter it has -/
def About (r : ExpiryRow ι) (e : ExpiryEvent) : Prop :=
  e.target = M.target ∧ e.targetId = r.id ∧ e.details.notAfter = r.notAfter

instance (r : ExpiryRow ι) (e : ExpiryEvent) : Decidable (About M r e) := inferInstanceAs (Decidable (_ ∧ _ ∧ _))

/-- `expired` is out -/
def ExpiredOut (audit : List ExpiryEvent) (r : ExpiryRow ι) : Prop := ∃ e ∈ audit, About M r e ∧ e.expired = true

instance (audit : List ExpiryEvent) (r : ExpiryRow ι) : Decidable (ExpiredOut M audit r) :=
  inferInstanceAs (Decidable (∃ e ∈ audit, _ ∧ _))

/-- what the timestamp of a row says; `exempt` rows get no events -/
def RowClean (exempt : ExpiryRow ι → Prop) (audit : List ExpiryEvent) (r : ExpiryRow ι) : Prop :=
  match r.expiryNotifiedAt with
  | none => ∀ e ∈ audit, ¬ About M r e
  | some n => if n < r.notAfter then ∀ e ∈ audit, About M r e → e.expired = false else exempt r ∨ ExpiredOut M audit r

/-- every timestamp is right, and every event has its row -/
structure Clean (exempt : ExpiryRow ι → Prop) (t : Table (@ExpiryRow.id ι)) (audit : List ExpiryEvent) : Prop where
  known : ∀ e ∈ audit, e.target = M.target → ∃ r ∈ t, r.id = e.targetId
  rows : ∀ r ∈ t, RowClean M exempt audit r

end Model

/-- what an event is counted by -/
def ExpiryEvent.key (e : ExpiryEvent) : TargetType × Bool × ℤ × DateTime :=
  (e.target, e.expired, e.targetId, e.details.notAfter)

/-- no event of an object, a notAfter and a kind is sent twice -/
def Once (audit : List ExpiryEvent) : Prop := (audit.map ExpiryEvent.key).Nodup

instance (audit : List ExpiryEvent) : Decidable (Once audit) := inferInstanceAs (Decidable (List.Nodup _))

/-- a revoked or superseded certificate -/
def ExemptCert (certs : CertTable) (r : ExpiryRow CertInfo) : Prop := r.isRevoked = true ∨ superseded certs r.id = true

def ExemptCa (ca : ExpiryRow CaInfo) : Prop := ca.isRevoked = true

instance (certs : CertTable) (r : ExpiryRow CertInfo) :
    Decidable (ExemptCert certs r) := inferInstanceAs (Decidable (_ ∨ _))

instance (ca : ExpiryRow CaInfo) : Decidable (ExemptCa ca) := inferInstanceAs (Decidable (_ = true))

/-- `expired` is out for whatever is past its notAfter and wants one -/
def Reported (now : DateTime) (s : ExpiryState) : Prop :=
  (∀ r ∈ s.certs, r.notAfter ≤ now → ¬ ExemptCert s.certs r → ExpiredOut certificateModel s.audit r) ∧
    ∀ ca ∈ s.cas, ca.notAfter ≤ now → ¬ ExemptCa ca → ExpiredOut caModel s.audit ca

instance (now : DateTime) (s : ExpiryState) : Decidable (Reported now s) := inferInstanceAs (Decidable (_ ∧ _))

/-- the operation neither brings back a notAfter that was reported nor moves one to or below its timestamp -/
def Careful (s : ExpiryState) : ExpiryOp → Prop
  | .reissue id notAfter =>
    ∀ e ∈ s.audit, e.target = .ca → e.targetId = id → e.details.notAfter ≠ notAfter
  | .recomputeExpiry false =>
    ∀ r ∈ s.certs, ¬ ExemptCert s.certs r → (recomputed r).notAfter ≠ r.notAfter →
      ∀ n, r.expiryNotifiedAt = some n → n < (recomputed r).notAfter
  | _ => True

/-- nothing has been reported -/
structure Fresh (s : ExpiryState) : Prop where
  certs : ∀ r ∈ s.certs, r.expiryNotifiedAt = none
  cas : ∀ ca ∈ s.cas, ca.expiryNotifiedAt = none
  audit : s.audit = []

/-! ## Events and timestamps -/

section Model

variable {ι : Type} {M : ExpiryModel ι} {exempt exempt' : ExpiryRow ι → Prop} {t u : Table (@ExpiryRow.id ι)}
  {audit more : List ExpiryEvent} {now : DateTime} {warningDays : ℤ} {skipped fails : ℤ → Bool}

theorem ExpiredOut.append {r : ExpiryRow ι} (h : ExpiredOut M audit r) : ExpiredOut M (audit ++ more) r := by
  obtain ⟨e, he, habout⟩ := h
  exact ⟨e, List.mem_append_left _ he, habout⟩

/-- events about other rows change nothing -/
theorem RowClean.append {r : ExpiryRow ι} (h : RowClean M exempt audit r) (hmore : ∀ e ∈ more, ¬ About M r e) :
    RowClean M exempt (audit ++ more) r := by
  unfold RowClean at h ⊢
  split at h
  · intro e he
    rcases List.mem_append.1 he with he | he
    · exact h e he
    · exact hmore e he
  · split_ifs at h ⊢
    · intro e he habout
      rcases List.mem_append.1 he with he | he
      · exact h e he habout
      · exact absurd habout (hmore e he)
    · exact h.imp id ExpiredOut.append

theorem RowClean.imp_exempt {r : ExpiryRow ι} (h : RowClean M exempt audit r) (hr : exempt r → exempt' r) :
    RowClean M exempt' audit r := by
  unfold RowClean at h ⊢
  split at h
  · exact h
  · split_ifs at h ⊢
    · exact h
    · exact h.imp hr id

/-- a row that is exempt once it is revoked -/
theorem RowClean.revoked {r : ExpiryRow ι} (h : RowClean M exempt audit r) (hr : exempt' r.revoked) :
    RowClean M exempt' audit r.revoked := by
  unfold RowClean at h ⊢
  change match r.expiryNotifiedAt with | none => _ | some n => _
  split at h
  · exact h
  · change if _ < r.notAfter then _ else _
    split_ifs at h ⊢ with hlt
    · exact h
    · exact .inl hr

/-- a row without events and without a timestamp -/
theorem rowClean_of_silent {r : ExpiryRow ι} (hnone : r.expiryNotifiedAt = none) (h : ∀ e ∈ audit, ¬ About M r e) :
    RowClean M exempt audit r := by
  rw [RowClean, hnone]
  exact h

theorem Clean.append (h : Clean M exempt t audit) (hmore : ∀ e ∈ more, e.target ≠ M.target) :
    Clean M exempt t (audit ++ more) where
  known e he htarget := by
    rcases List.mem_append.1 he with he | he
    · exact h.known e he htarget
    · exact absurd htarget (hmore e he)
  rows r hr := (h.rows r hr).append fun e he habout => hmore e he habout.1

theorem Clean.imp_exempt (h : Clean M exempt t audit) (hexempt : ∀ r ∈ t, exempt r → exempt' r) : Clean M exempt' t audit :=
  ⟨h.known, fun r hr => (h.rows r hr).imp_exempt (hexempt r hr)⟩

/-- rows that are rewritten one by one -/
theorem Clean.mapRows {f : ExpiryRow ι → ExpiryRow ι} {hf : ∀ r, (f r).id = r.id} (h : Clean M exempt t audit)
    (hrow : ∀ r ∈ t, RowClean M exempt audit r → RowClean M exempt' audit (f r)) :
    Clean M exempt' (t.mapRows f hf) audit where
  known e he htarget := by
    obtain ⟨r, hr, hkey⟩ := h.known e he htarget
    exact ⟨f r, Table.mem_mapRows.2 ⟨r, hr, rfl⟩, (hf r).trans hkey⟩
  rows r' hr' := by
    obtain ⟨r, hr, rfl⟩ := Table.mem_mapRows.1 hr'
    exact hrow r hr (h.rows r hr)

theorem Clean.update {k : ℤ} {f : ExpiryRow ι → ExpiryRow ι} {hf : ∀ r, (f r).id = r.id} (h : Clean M exempt t audit)
    (hexempt : ∀ r ∈ t, exempt r → exempt' r)
    (hrow : ∀ r ∈ t, r.id = k → RowClean M exempt audit r → RowClean M exempt' audit (f r)) :
    Clean M exempt' (t.update k f hf) audit := by
  refine h.mapRows fun r hr hclean => ?_
  split_ifs with hid
  · exact hrow r hr hid hclean
  · exact hclean.imp_exempt (hexempt r hr)

/-- a new row has a fresh id -/
theorem Clean.insert {mk : ℤ → ExpiryRow ι} {hmk : ∀ k, (mk k).id = k} (h : Clean M exempt t audit)
    (hnone : (mk t.nextKey).expiryNotifiedAt = none) : Clean M exempt (t.insert mk hmk) audit where
  known e he htarget := by
    obtain ⟨r, hr, hkey⟩ := h.known e he htarget
    exact ⟨r, Table.mem_insert.2 (.inl hr), hkey⟩
  rows r hr := by
    rcases Table.mem_insert.1 hr with hr | rfl
    · exact h.rows r hr
    · refine rowClean_of_silent hnone fun e he habout => ?_
      obtain ⟨r, hr, hkey⟩ := h.known e he habout.1
      have hlt : r.id < t.nextKey := Table.key_lt_nextKey hr
      rw [hkey, habout.2.1, hmk] at hlt
      exact lt_irrefl _ hlt

/-! ## One item of the job -/

theorem due_notified (r : ExpiryRow ι) : (r.notified now).due now warningDays skipped = false := by
  rcases le_or_gt r.notAfter now with h | h
  · simp [ExpiryRow.due, ExpiryRow.notified, h, not_lt.2 h]
  · simp [ExpiryRow.due, ExpiryRow.notified, h, not_le.2 h]

/-- a row that is due before its notAfter has had no event -/
theorem silent_of_due {r : ExpiryRow ι} (h : RowClean M exempt audit r) (hdue : r.due now warningDays skipped)
    (hlt : now < r.notAfter) : ∀ e ∈ audit, ¬ About M r e := by
  have hnone : r.expiryNotifiedAt = none := by
    simp [ExpiryRow.due, hlt, not_le.2 hlt] at hdue
    exact hdue.2.2
  simpa only [RowClean, hnone] using h

/-- a row that is due has not had the event it is due for -/
theorem not_sent_of_due {r : ExpiryRow ι} (h : RowClean M exempt audit r) (hdue : r.due now warningDays skipped)
    {e : ExpiryEvent} (he : e ∈ audit) (habout : About M r e) : e.expired ≠ decide (r.notAfter ≤ now) := by
  unfold RowClean at h
  simp only [ExpiryRow.due, Bool.and_eq_true, Bool.or_eq_true, decide_eq_true_eq] at hdue
  split at h
  · exact absurd habout (h e he)
  · next n hn =>
    rw [hn] at hdue
    rcases hdue.2 with ⟨hle, hlt⟩ | ⟨-, hnone⟩
    · have hlt' : n < r.notAfter := by simpa using hlt
      rw [if_pos hlt'] at h
      rw [h e he habout, decide_eq_true hle]
      decide
    · simp at hnone

/-- the event and the timestamp of a row that is due -/
theorem rowClean_notified {r : ExpiryRow ι} (h : RowClean M exempt audit r) (hdue : r.due now warningDays skipped) :
    RowClean M exempt (audit ++ [⟨M.target, decide (r.notAfter ≤ now), r.id, M.details r now⟩]) (r.notified now) := by
  have habout : About M (r.notified now) ⟨M.target, decide (r.notAfter ≤ now), r.id, M.details r now⟩ :=
    ⟨rfl, rfl, M.details_notAfter r now⟩
  change if now < r.notAfter then _ else _
  split_ifs with hlt
  · intro e he he'
    rcases List.mem_append.1 he with he | he
    · exact absurd he' (silent_of_due h hdue hlt e he)
    · rw [List.mem_singleton.1 he]
      exact decide_eq_false (not_le.2 hlt)
  · exact .inr ⟨_, List.mem_append_right _ (List.mem_singleton_self _), habout, decide_eq_true (not_lt.1 hlt)⟩

/-! ## The loop of the job -/

/-- the job changes a row only by its timestamp -/
def Same (now : DateTime) (r r' : ExpiryRow ι) : Prop := r' = r ∨ r' = r.notified now

theorem Same.id_eq {r r' : ExpiryRow ι} (h : Same now r r') : r'.id = r.id := by
  rcases h with rfl | rfl <;> rfl

/-- the loop over the rows of `t`, started with the events `audit`, while the ids of `todo` are left -/
structure Passing (M : ExpiryModel ι) (exempt : ExpiryRow ι → Prop) (now : DateTime) (warningDays : ℤ)
    (skipped fails : ℤ → Bool) (t : Table (@ExpiryRow.id ι)) (audit : List ExpiryEvent) (todo : List ℤ)
    (s : Table (@ExpiryRow.id ι) × List ExpiryEvent) : Prop where
  clean : Clean M exempt s.1 s.2
  once : Once s.2
  nodup : todo.Nodup
  due : ∀ id ∈ todo, ∃ r ∈ s.1, r.id = id ∧ r.due now warningDays skipped
  left : ∀ r ∈ s.1, r.due now warningDays skipped → r.id ∈ todo ∨ fails r.id
  frame : t.Evolves (Same now) s.1
  events : ∃ more, s.2 = audit ++ more ∧ ∀ e ∈ more, e.target = M.target ∧ ∃ r ∈ t, About M r e

theorem once_append {e : ExpiryEvent} (h : Once audit) (he : ∀ e' ∈ audit, e'.key ≠ e.key) : Once (audit ++ [e]) := by
  unfold Once at h ⊢
  rw [List.map_append, List.nodup_append]
  refine ⟨h, List.nodup_singleton _, ?_⟩
  intro k hk k' hk' heq
  obtain ⟨e', he', rfl⟩ := List.mem_map.1 hk
  obtain ⟨e'', he'', rfl⟩ := List.mem_map.1 hk'
  rw [List.mem_singleton.1 he''] at heq
  exact he e' he' heq

/-- the row of the table from which the loop started -/
theorem Passing.origin {todo : List ℤ} {s : Table (@ExpiryRow.id ι) × List ExpiryEvent}
    (h : Passing M exempt now warningDays skipped fails t audit todo s) {r' : ExpiryRow ι} (hr' : r' ∈ s.1) :
    ∃ r ∈ t, Same now r r' := by
  have hrel := h.frame.get? (k := r'.id) fun a b hab => hab.id_eq
  rw [Table.get?_key hr'] at hrel
  cases ht : t.get? r'.id with
  | none =>
    rw [ht] at hrel
    cases hrel
  | some r =>
    rw [ht] at hrel
    cases hrel with
    | some hsame => exact ⟨r, Table.mem_of_get? ht, hsame⟩

theorem notify_passing {todo : List ℤ} {id : ℤ} {s : Table (@ExpiryRow.id ι) × List ExpiryEvent}
    (h : Passing M exempt now warningDays skipped fails t audit (id :: todo) s) :
    Passing M exempt now warningDays skipped fails t audit todo (notify M now fails s id) := by
  obtain ⟨hnotin, hnodup⟩ := List.nodup_cons.1 h.nodup
  unfold notify
  split_ifs with hfails
  · refine ⟨h.clean, h.once, hnodup, fun id' hid' => h.due id' (List.mem_cons_of_mem _ hid'), fun r hr hdue => ?_, h.frame,
      h.events⟩
    rcases h.left r hr hdue with hmem | hf
    · rcases List.mem_cons.1 hmem with heq | hmem
      · exact .inr (heq ▸ hfails)
      · exact .inl hmem
    · exact .inr hf
  obtain ⟨r, hr, rfl, hdue⟩ := h.due id List.mem_cons_self
  rw [Table.get?_key hr]
  dsimp only
  have hrow := h.clean.rows r hr
  have hold : ∀ r' ∈ s.1, r'.id = r.id → r' = r := fun r' hr' hid => Table.eq_of_key hr' hr hid
  have hself : r.notified now ∈ s.1.update r.id (·.notified now) := Table.mem_update_self hr
  have hother : ∀ a ∈ s.1, a.id ≠ r.id → a ∈ s.1.update r.id (·.notified now) := fun a ha hne =>
    Table.mem_update_of_ne ha hne
  have hsplit : ∀ r' ∈ s.1.update r.id (·.notified now), r' = r.notified now ∨ (r' ∈ s.1 ∧ r'.id ≠ r.id) := by
    intro r' hr'
    obtain ⟨a, ha, rfl⟩ := Table.mem_update.1 hr'
    split_ifs with hid
    · exact .inl (by rw [hold a ha hid])
    · exact .inr ⟨ha, hid⟩
  have hframe : t.Evolves (Same now) (s.1.update r.id (·.notified now)) := by
    refine h.frame.update_right fun a _ b _ hab => ?_
    split_ifs
    · rcases hab with rfl | rfl <;> exact .inr rfl
    · exact hab
  refine ⟨⟨fun e he htarget => ?_, fun r' hr' => ?_⟩, ?_, hnodup, fun id' hid' => ?_, fun r' hr' hdue' => ?_, ?_, ?_⟩
  · rcases List.mem_append.1 he with he | he
    · obtain ⟨a, ha, hkey⟩ := h.clean.known e he htarget
      by_cases hid : a.id = r.id
      · rw [hold a ha hid] at hkey
        exact ⟨_, hself, hkey⟩
      · exact ⟨a, hother a ha hid, hkey⟩
    · rw [List.mem_singleton.1 he]
      exact ⟨_, hself, rfl⟩
  · rcases hsplit r' hr' with rfl | ⟨ha, hid⟩
    · exact rowClean_notified hrow hdue
    · refine (h.clean.rows r' ha).append fun e he habout => hid ?_
      rw [List.mem_singleton.1 he] at habout
      exact habout.2.1.symm
  · refine once_append h.once fun e he hkey => ?_
    simp only [ExpiryEvent.key, Prod.mk.injEq, M.details_notAfter] at hkey
    obtain ⟨htarget, hexpired, hid, hnotAfter⟩ := hkey
    exact not_sent_of_due hrow hdue he ⟨htarget, hid, hnotAfter⟩ hexpired
  · obtain ⟨r', hr', rfl, hdue'⟩ := h.due id' (List.mem_cons_of_mem _ hid')
    have hne : r'.id ≠ r.id := fun heq => hnotin (heq ▸ hid')
    exact ⟨r', hother r' hr' hne, rfl, hdue'⟩
  · rcases hsplit r' hr' with rfl | ⟨ha, hid⟩
    · rw [due_notified] at hdue'
      cases hdue'
    · rcases h.left r' ha hdue' with hmem | hf
      · exact .inl ((List.mem_cons.1 hmem).resolve_left hid)
      · exact .inr hf
  · exact hframe
  · obtain ⟨more, hmore, htarget⟩ := h.events
    refine ⟨more ++ [⟨M.target, decide (r.notAfter ≤ now), r.id, M.details r now⟩], ?_, fun e he => ?_⟩
    · rw [hmore, List.append_assoc]
    · rcases List.mem_append.1 he with he | he
      · exact htarget e he
      · obtain ⟨a, ha, hsame⟩ := h.origin hr
        rw [List.mem_singleton.1 he]
        refine ⟨rfl, a, ha, rfl, hsame.id_eq, ?_⟩
        rw [M.details_notAfter]
        rcases hsame with rfl | rfl <;> rfl

theorem foldl_notify_passing {todo : List ℤ} {s : Table (@ExpiryRow.id ι) × List ExpiryEvent}
    (h : Passing M exempt now warningDays skipped fails t audit todo s) :
    Passing M exempt now warningDays skipped fails t audit [] (todo.foldl (notify M now fails) s) := by
  induction todo generalizing s with
  | nil => exact h
  | cons id todo ih => exact ih (notify_passing h)

theorem mem_dueForExpiryEvent {r : ExpiryRow ι} :
    r ∈ dueForExpiryEvent now warningDays skipped t ↔ r ∈ t ∧ r.due now warningDays skipped := by
  rw [dueForExpiryEvent, List.mem_insertionSort, List.mem_filter, Table.mem_def]

/-- **The items of one model.** The timestamps stay right, no event is repeated, and only items that fail are still due. -/
theorem expiryPass_passing (hclean : Clean M exempt t audit) (honce : Once audit) :
    Passing M exempt now warningDays skipped fails t audit []
      (expiryPass M now warningDays skipped fails (t, audit)) := by
  refine foldl_notify_passing ⟨hclean, honce, ?_, fun id hid => ?_, fun r hr hdue => ?_, ?_, [], ?_, ?_⟩
  · have hperm := (List.perm_insertionSort (fun a b : ExpiryRow ι => a.notAfter ≤ b.notAfter)
      (t.rows.filter (·.due now warningDays skipped))).map (·.id)
    exact hperm.nodup_iff.2 (t.nodup_keys.sublist (List.filter_sublist.map _))
  · obtain ⟨r, hr, rfl⟩ := List.mem_map.1 hid
    obtain ⟨hmem, hdue⟩ := mem_dueForExpiryEvent.1 hr
    exact ⟨r, hmem, rfl, hdue⟩
  · exact .inl (List.mem_map.2 ⟨r, mem_dueForExpiryEvent.2 ⟨hr, hdue⟩, rfl⟩)
  · exact Table.Evolves.refl (fun _ => .inl rfl) t
  · exact (List.append_nil _).symm
  · simp

/-- a row that is past its notAfter and not due has been reported -/
theorem expiredOut_of_not_due {r : ExpiryRow ι} (h : RowClean M exempt audit r) (hnotAfter : r.notAfter ≤ now)
    (hrevoked : r.isRevoked = false) (hskipped : skipped r.id = false) (hexempt : ¬ exempt r)
    (hdue : ¬ r.due now warningDays skipped) : ExpiredOut M audit r := by
  unfold RowClean at h
  split at h
  · next hnone => simp [ExpiryRow.due, hnone, hrevoked, hskipped, hnotAfter] at hdue
  · next n hn =>
    split_ifs at h with hlt
    · simp [ExpiryRow.due, hn, hrevoked, hskipped, hnotAfter, hlt] at hdue
    · exact h.resolve_left hexempt

end Model

/-! ## Operations -/

/-- the timestamps and the events of certificates and CAs -/
structure Invariant (s : ExpiryState) : Prop where
  certs : Clean certificateModel (ExemptCert s.certs) s.certs s.audit
  cas : Clean caModel ExemptCa s.cas s.audit
  once : Once s.audit
  /-- a certificate whose notAfter is not the one in its PEM has had no other -/
  pem : ∀ r ∈ s.certs, r.info.pemNotAfter = some r.notAfter ∨
    ∀ e ∈ s.audit, e.target = .certificate → e.targetId = r.id → e.details.notAfter = r.notAfter

theorem superseded_of_frame {now : DateTime} {t u : CertTable} (h : t.Evolves (Same now) u) :
    superseded u = superseded t := by
  have hinfo : List.Forall₂ (· = ·) (t.rows.map (·.info)) (u.rows.map (·.info)) := by
    refine List.forall₂_map_left_iff.2 (List.forall₂_map_right_iff.2 (List.Forall₂.imp ?_ h))
    rintro r r' (rfl | rfl) <;> rfl
  rw [List.forall₂_eq_eq_eq] at hinfo
  funext id
  have hany : ∀ v : CertTable, superseded v id = (v.rows.map (·.info)).any (·.renewedFromId = some id) := by
    intro v
    simp [superseded, List.any_map, Function.comp_def]
  rw [hany, hany, hinfo]

/-- **The job.** Whatever fails, the timestamps stay right; when nothing fails, whatever is past its notAfter has been
reported. -/
theorem jobExpiryEvents_invariant {s : ExpiryState} (h : Invariant s) (now : DateTime) (warningDays : ℤ)
    (fails : TargetType → ℤ → Bool) :
    Invariant (jobExpiryEvents now warningDays fails s) ∧
      ((∀ target id, fails target id = false) → Reported now (jobExpiryEvents now warningDays fails s)) := by
  obtain ⟨certs, cas, audit⟩ := s
  have hcerts : Passing certificateModel (ExemptCert certs) now warningDays (superseded certs) (fails .certificate)
    certs audit
      [] (expiryPass certificateModel now warningDays (superseded certs) (fails .certificate) (certs, audit)) :=
    expiryPass_passing h.certs h.once
  simp only [jobExpiryEvents]
  generalize expiryPass certificateModel now warningDays (superseded certs) (fails .certificate) (certs, audit) = first
    at hcerts ⊢
  obtain ⟨certs', audit'⟩ := first
  obtain ⟨more, hmore, hevents⟩ := hcerts.events
  dsimp only at hmore
  have hcas' : Clean caModel ExemptCa cas audit' := by
    rw [hmore]
    refine h.cas.append fun e he htarget => ?_
    rw [(hevents e he).1] at htarget
    cases htarget
  have hcas : Passing caModel ExemptCa now warningDays (fun _ => false) (fails .ca) cas audit' []
      (expiryPass caModel now warningDays (fun _ => false) (fails .ca) (cas, audit')) :=
    expiryPass_passing hcas' hcerts.once
  generalize expiryPass caModel now warningDays (fun _ => false) (fails .ca) (cas, audit') = second at hcas ⊢
  obtain ⟨cas'', audit''⟩ := second
  obtain ⟨more', hmore', hevents'⟩ := hcas.events
  dsimp only at hmore'
  have hsuper : superseded certs' = superseded certs := superseded_of_frame hcerts.frame
  have hclean : Clean certificateModel (ExemptCert certs') certs' audit'' := by
    rw [hmore']
    refine (hcerts.clean.imp_exempt fun r _ hr => ?_).append fun e he htarget => ?_
    · rwa [ExemptCert, hsuper]
    · rw [(hevents' e he).1] at htarget
      cases htarget
  refine ⟨⟨hclean, hcas.clean, hcas.once, fun r' hr' => ?_⟩, fun hfails =>
    ⟨fun r hr hle hexempt => ?_, fun ca hca hle hexempt => ?_⟩⟩
  · obtain ⟨r, hr, hsame⟩ := hcerts.origin hr'
    have hfields : r'.id = r.id ∧ r'.notAfter = r.notAfter ∧ r'.info = r.info := by
      rcases hsame with rfl | rfl <;> exact ⟨rfl, rfl, rfl⟩
    dsimp only
    rw [hfields.1, hfields.2.1, hfields.2.2]
    refine (h.pem r hr).imp id fun hold e he htarget hid => ?_
    rw [hmore', hmore, List.append_assoc] at he
    rcases List.mem_append.1 he with he | he
    · exact hold e he htarget hid
    rcases List.mem_append.1 he with he | he
    · obtain ⟨a, ha, habout⟩ := (hevents e he).2
      obtain rfl : a = r := Table.eq_of_key ha hr (habout.2.1.symm.trans hid)
      exact habout.2.2
    · rw [(hevents' e he).1] at htarget
      cases htarget
  · have hdue : ¬ r.due now warningDays (superseded certs) := by
      intro hdue
      rcases hcerts.left r hr hdue with hmem | hf
      · cases hmem
      · rw [hfails] at hf
        cases hf
    have hexempt' : ¬ ExemptCert certs r := by
      rwa [ExemptCert, ← hsuper]
    have hrevoked : r.isRevoked = false := Bool.eq_false_of_not_eq_true fun hrev => hexempt' (.inl hrev)
    have hsup : superseded certs r.id = false := Bool.eq_false_of_not_eq_true fun hsup => hexempt' (.inr hsup)
    have hout : ExpiredOut certificateModel audit' r :=
      expiredOut_of_not_due (hcerts.clean.rows r hr) hle hrevoked hsup hexempt' hdue
    dsimp only
    rw [hmore']
    exact hout.append
  · have hdue : ¬ ca.due now warningDays (fun _ => false) := by
      intro hdue
      rcases hcas.left ca hca hdue with hmem | hf
      · cases hmem
      · rw [hfails] at hf
        cases hf
    exact expiredOut_of_not_due (hcas.clean.rows ca hca) hle (Bool.eq_false_of_not_eq_true hexempt) rfl hexempt hdue

/-! ## Runs -/

theorem superseded_insert {t : CertTable} {mk : ℤ → ExpiryRow CertInfo} {hmk : ∀ k, (mk k).id = k} {id : ℤ}
    (h : superseded t id = true) : superseded (t.insert mk hmk) id = true := by
  simp only [superseded, Table.rows_insert, List.any_append, Bool.or_eq_true] at h ⊢
  exact .inl h

theorem superseded_mapRows {t : CertTable} {f : ExpiryRow CertInfo → ExpiryRow CertInfo} {hf : ∀ r, (f r).id = r.id}
    (hinfo : ∀ r, (f r).info = r.info) : superseded (t.mapRows f hf) = superseded t := by
  funext id
  simp [superseded, List.any_map, Function.comp_def, hinfo]

theorem recomputed_info (r : ExpiryRow CertInfo) : (recomputed r).info = r.info := by
  unfold recomputed
  split
  · rfl
  · split_ifs <;> rfl

theorem recomputed_of_ne {r : ExpiryRow CertInfo} (h : (recomputed r).notAfter ≠ r.notAfter) :
    ∃ real, r.info.pemNotAfter = some real ∧ real ≠ r.notAfter ∧ recomputed r = { r with notAfter := real } := by
  unfold recomputed at h ⊢
  cases hpem : r.info.pemNotAfter with
  | none => simp [hpem] at h
  | some real =>
    simp only [hpem] at h ⊢
    split_ifs at h ⊢ with hne
    · exact ⟨real, rfl, fun heq => hne heq.symm, rfl⟩
    · exact absurd rfl h

theorem recomputed_of_eq {r : ExpiryRow CertInfo} (h : (recomputed r).notAfter = r.notAfter) : recomputed r = r := by
  unfold recomputed at h ⊢
  cases hpem : r.info.pemNotAfter with
  | none => rfl
  | some real =>
    simp only [hpem] at h ⊢
    split_ifs at h ⊢ with hne
    · exact absurd h.symm hne
    · rfl

/-- after the recomputation a certificate has the notAfter of its PEM, if that can be read -/
theorem recomputed_pem (r : ExpiryRow CertInfo) :
    r.info.pemNotAfter = none ∨ r.info.pemNotAfter = some (recomputed r).notAfter := by
  unfold recomputed
  cases hpem : r.info.pemNotAfter with
  | none => exact .inl rfl
  | some real =>
    dsimp only
    split_ifs with hne
    · exact .inr rfl
    · rw [ne_eq, not_not] at hne
      exact .inr (by rw [hne])

theorem recompute_invariant {s : ExpiryState} (h : Invariant s) (hcareful : Careful s (.recomputeExpiry false)) :
    Invariant { s with certs := s.certs.mapRows recomputed recomputed_id } := by
  have hsuper : superseded (s.certs.mapRows recomputed recomputed_id) = superseded s.certs :=
    superseded_mapRows recomputed_info
  have hrow : ∀ r ∈ s.certs, RowClean certificateModel (ExemptCert s.certs) s.audit r →
      RowClean certificateModel (ExemptCert s.certs) s.audit (recomputed r) := by
    intro r hr hclean
    by_cases heq : (recomputed r).notAfter = r.notAfter
    · rwa [recomputed_of_eq heq]
    obtain ⟨real, hpem, hne, hrec⟩ := recomputed_of_ne heq
    -- no event of this certificate was about the notAfter of its PEM
    have hsilent : ∀ e ∈ s.audit, ¬ About certificateModel (recomputed r) e := by
      rintro e he ⟨htarget, hid, hnotAfter⟩
      rcases h.pem r hr with hpem' | hold
      · rw [hpem] at hpem'
        exact hne (Option.some.inj hpem')
      · rw [hrec] at hid hnotAfter
        exact hne (hnotAfter.symm.trans (hold e he htarget hid))
    unfold RowClean
    split
    · exact hsilent
    · next n hn =>
      have hn' : r.expiryNotifiedAt = some n := by
        rw [hrec] at hn
        exact hn
      split_ifs with hlt
      · exact fun e he habout => absurd habout (hsilent e he)
      · have hex : ExemptCert s.certs r := by
          by_contra hex
          exact hlt (hcareful r hr hex heq n hn')
        refine .inl ?_
        rw [hrec]
        exact hex
  have hclean : Clean certificateModel (ExemptCert s.certs) (s.certs.mapRows recomputed recomputed_id) s.audit :=
    h.certs.mapRows hrow
  refine ⟨?_, h.cas, h.once, fun r' hr' => ?_⟩
  · refine hclean.imp_exempt fun r _ hex => ?_
    rwa [ExemptCert, hsuper]
  · have hmem : r' ∈ s.certs.mapRows recomputed recomputed_id := hr'
    obtain ⟨r, hr, rfl⟩ := Table.mem_mapRows.1 hmem
    rw [recomputed_info, recomputed_id]
    rcases recomputed_pem r with hnone | hsome
    · have heq : recomputed r = r := by
        unfold recomputed
        rw [hnone]
      rw [heq]
      exact h.pem r hr
    · exact .inl hsome

theorem expiryStep_invariant (s : ExpiryState) (op : ExpiryOp) (hcareful : Careful s op) (h : Invariant s) :
    Invariant (expiryStep s op) := by
  cases op with
  | job now warningDays fails => exact (jobExpiryEvents_invariant h now warningDays fails).1
  | issue notAfter info =>
    have hclean : Clean certificateModel (ExemptCert s.certs)
        (s.certs.insert fun id => ⟨id, notAfter, false, none, info⟩) s.audit := h.certs.insert rfl
    refine ⟨hclean.imp_exempt fun r _ hr => hr.imp id superseded_insert, h.cas, h.once, fun r hr => ?_⟩
    rcases Table.mem_insert.1 hr with hr | rfl
    · exact h.pem r hr
    · refine .inr fun e he htarget hid => ?_
      obtain ⟨r, hr, hkey⟩ := h.certs.known e he htarget
      have hlt : r.id < s.certs.nextKey := Table.key_lt_nextKey hr
      rw [hkey, hid] at hlt
      exact absurd hlt (lt_irrefl _)
  | createCa notAfter info =>
    have hclean : Clean caModel ExemptCa (s.cas.insert fun id => ⟨id, notAfter, false, none, info⟩) s.audit :=
      h.cas.insert rfl
    exact ⟨h.certs, hclean, h.once, h.pem⟩
  | revokeCertificate id =>
    have hsuper : superseded (s.certs.update id (·.revoked)) = superseded s.certs := by
      refine superseded_mapRows fun r => ?_
      split_ifs <;> rfl
    have hexempt : ∀ r ∈ s.certs, ExemptCert s.certs r → ExemptCert (s.certs.update id (·.revoked)) r := by
      intro r _ hr
      rwa [ExemptCert, hsuper]
    have hclean : Clean certificateModel (ExemptCert (s.certs.update id (·.revoked))) (s.certs.update id (·.revoked))
      s.audit :=
      h.certs.update hexempt fun r _ _ hrow => hrow.revoked (.inl rfl)
    refine ⟨hclean, h.cas, h.once, fun r' hr' => ?_⟩
    have hmem : r' ∈ s.certs.update id (·.revoked) := hr'
    obtain ⟨r, hr, rfl⟩ := Table.mem_update.1 hmem
    have hpem := h.pem r hr
    split_ifs <;> exact hpem
  | revokeCa id =>
    have hclean : Clean caModel ExemptCa (s.cas.update id (·.revoked)) s.audit :=
      h.cas.update (fun _ _ hr => hr) fun ca _ _ hrow => hrow.revoked rfl
    exact ⟨h.certs, hclean, h.once, h.pem⟩
  | reissue id notAfter =>
    simp only [expiryStep]
    split
    · exact h
    · split_ifs
      · exact h
      · have hclean : Clean caModel ExemptCa (s.cas.update id (promoted notAfter)) s.audit := by
          refine h.cas.update (fun _ _ hr => hr) fun ca _ hid _ => rowClean_of_silent rfl fun e he habout => ?_
          exact hcareful e he habout.1 (habout.2.1.trans hid) habout.2.2
        exact ⟨h.certs, hclean, h.once, h.pem⟩
  | recomputeExpiry dryRun =>
    cases dryRun with
    | true => exact h
    | false => exact recompute_invariant h hcareful

theorem Fresh.invariant {s : ExpiryState} (h : Fresh s) : Invariant s := by
  obtain ⟨certs, cas, audit⟩ := s
  obtain ⟨hcerts, hcas, rfl⟩ := h
  refine ⟨⟨by simp, fun r hr => ?_⟩, ⟨by simp, fun ca hca => ?_⟩, List.nodup_nil, by simp⟩
  · exact rowClean_of_silent (hcerts r hr) (by simp)
  · exact rowClean_of_silent (hcas ca hca) (by simp)

/-- **Expiry events are sent once.** In every run that brings back no reported notAfter of a CA and moves no notAfter of a
certificate to or below its timestamp, no event is sent twice; and a job without faults leaves nothing unreported that is
past its notAfter, unrevoked and not superseded. -/
theorem expiry_events_once (s : ExpiryState) (hs : Fresh s) (ops : List ExpiryOp) (hops : Meets expiryStep Careful s ops) :
    Once (run expiryStep s ops).audit ∧
      ∀ now warningDays, Reported now (expiryStep (run expiryStep s ops) (.job now warningDays fun _ _ => false)) := by
  have hinv : Invariant (run expiryStep s ops) := run_invariant_of_meets expiryStep_invariant hs.invariant hops
  exact ⟨hinv.once, fun now warningDays => (jobExpiryEvents_invariant hinv now warningDays _).2 fun _ _ => rfl⟩

/-! ## Runs that are not careful -/

/-- a certificate whose stored notAfter is 25 days past the one in its PEM -/
def overstated : ExpiryState where
  certs := ⟨[⟨1, 30 * day, false, none, ⟨"soon.example", "0a", 1, none, some (5 * day)⟩⟩], List.pairwise_singleton _ _⟩
  cas := .empty
  audit := []

def oneRoot : ExpiryState where
  certs := .empty
  cas := ⟨[⟨1, 30 * day, false, none, ⟨"Root", "Root CA", true⟩⟩], List.pairwise_singleton _ _⟩
  audit := []

/-- the reminder, then a re-issue with a later notAfter -/
def remindedRoot : List ExpiryOp := [.job (10 * day) 30 (fun _ _ => false), .reissue 1 (31 * day)]

/-- the theorem applies to that run: the job of day 40 reports the expiry, and only once -/
theorem expiry_events_once_root :
    Once (run expiryStep oneRoot remindedRoot).audit ∧
      Reported (40 * day) (expiryStep (run expiryStep oneRoot remindedRoot) (.job (40 * day) 30 fun _ _ => false)) ∧
      (expiryStep (run expiryStep oneRoot remindedRoot) (.job (40 * day) 30 fun _ _ => false)).audit.map (·.expired) =
        [false, true] := by
  have hfresh : Fresh oneRoot := ⟨by simp [oneRoot], by simp [oneRoot, Table.mem_def], rfl⟩
  have hops : Meets expiryStep Careful oneRoot remindedRoot :=
    ⟨trivial, by simp only [Careful]; decide +kernel, trivial⟩
  have hevents := expiry_events_once oneRoot hfresh remindedRoot hops
  exact ⟨hevents.1, hevents.2 (40 * day) 30, by decide +kernel⟩

/-- The reminder goes out on day 10, the recomputation moves the notAfter to day 5, and the job of day 40 says nothing. A
root that is re-issued with the notAfter it has is reported as expiring a second time. -/
theorem recompute_and_reissue_break_once :
    ¬ Reported (40 * day) (run expiryStep overstated
      [.job (10 * day) 30 (fun _ _ => false), .recomputeExpiry false, .job (40 * day) 30 (fun _ _ => false)]) ∧
      ¬ Once (run expiryStep oneRoot
        [.job (10 * day) 30 (fun _ _ => false), .reissue 1 (30 * day), .job (11 * day) 30 (fun _ _ => false)]).audit := by
  decide +kernel

end Chancery.ExpiryEvents
