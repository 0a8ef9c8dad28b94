/-
The four places that classify a certificate by its end: the badge, the list filter, the dashboard and the scheduler.

Each is computed for an unrevoked certificate that no event was written for (`badgeClass_eq`, `listClass_eq`,
`dashboardClass_eq`, `schedulerClass_eq`). The list and the dashboard are the same. The badge rounds the days left down,
so it shows a certificate as expiring soon for a day more than they do; the scheduler takes the moment of the end as
expired.

(1) `classifiers_agree_iff`: the four agree if and only if the end of the warning period is a datetime there is, the
certificate does not end at this moment, and it does not end within the day after the warning period. A superseded
certificate, which the scheduler leaves out, has to be valid.
(2) `boundaries_differ`: two certificates of which the four do not say the same.
-/
import Mathlib.Tactic
import Chancery.Services.ExpiryStatus

namespace Chancery.ExpiryStatus

open Chancery.Core
open Chancery.ExpiryEvents
open Chancery.Listing

/-! ## What each place says -/

section Places

variable {now : DateTime} {warningDays : ℤ} {r : CertRow} {lib : ListLib} {L : Letters} {cas : List CaRow}
  {rows : List CertRow}
  {csrs : List CsrRow} {certs : CertTable} {id : ℤ} {info : CertInfo}

theorem badgeClass_eq : badgeClass now warningDays r =
    some (classOf (decide (r.notAfter < now)) (decide (r.notAfter < now + (warningDays + 1) * day))) := by
  unfold badgeClass expiryStatus daysUntil
  simp only [Option.map_some, daysBetween_neg, daysBetween_le, classOf, decide_eq_true_eq]
  split_ifs <;> rfl

theorem filterCertificates_status {status : String} (hstatus : choiceArg "status" CERT_STATUS_FILTERS (some status.toList) =
    .ok (some status)) : filterCertificates lib L now warningDays (statusArgs status) =
      (addDays now warningDays).map fun soon r => r.hasStatus now soon status := by
  unfold filterCertificates statusArgs
  rw [hstatus]
  show (statusFilter CertRow.hasStatus now warningDays (some status) >>= _) = _
  unfold statusFilter expiryBounds
  cases addDays now warningDays with
  | error e => rfl
  | ok soon =>
    refine congrArg Except.ok (funext fun r => ?_)
    show (true && r.hasStatus now soon status && true && true) = _
    rw [Bool.true_and, Bool.and_true, Bool.and_true]

theorem listClass_eq (hr : r.isRevoked = false) : listClass now warningDays r lib L =
    (addDays now warningDays).map fun soon =>
      classOf (decide (r.notAfter < now)) (decide (now ≤ r.notAfter) && decide (r.notAfter ≤ soon)) := by
  unfold listClass
  rw [filterCertificates_status rfl, filterCertificates_status rfl]
  cases addDays now warningDays with
  | error e => rfl
  | ok soon =>
    refine congrArg Except.ok ?_
    simp [CertRow.hasStatus, hr]

theorem dashboardClass_eq (hr : r.isRevoked = false) : dashboardClass now warningDays r cas rows csrs =
    (addDays now warningDays).map fun soon =>
      classOf (decide (r.notAfter < now)) (decide (now ≤ r.notAfter) && decide (r.notAfter ≤ soon)) := by
  unfold dashboardClass dashboardStats
  cases addDays now warningDays with
  | error e => rfl
  | ok soon =>
    have hcount (p : CertRow → Bool) : decide (rows.countP p < (r :: rows).countP p) = p r := by
      rw [List.countP_cons]
      by_cases hp : p r = true <;> simp [hp]
    refine congrArg Except.ok ?_
    dsimp only
    rw [hcount, hcount, hr]
    rfl

theorem schedulerClass_eq (hr : r.isRevoked = false) : schedulerClass now warningDays r certs id info =
    (addDays now warningDays).map fun soon =>
      if superseded certs id then .valid else classOf (decide (r.notAfter ≤ now)) (decide (r.notAfter ≤ now) ||
        decide (r.notAfter ≤ soon)) := by
  unfold schedulerClass
  cases hsoon : addDays now warningDays with
  | error e => rfl
  | ok soon =>
    have hsum := (addDays_eq_ok.1 hsoon).1
    refine congrArg Except.ok ?_
    simp only [ExpiryRow.due, scheduled, hr, ← hsum]
    by_cases hsup : superseded certs id = true
    · simp [hsup, classOf]
    · by_cases hend : r.notAfter ≤ now
      · simp [hsup, hend, classOf]
      · simp [hsup, hend, classOf, not_le.1 hend]

end Places

/-! ## (1) Agreement -/

section Agreement

variable (lib : ListLib) (L : Letters) (now : DateTime) (warningDays : ℤ) (r : CertRow)

/-- all four give the same class -/
def Agree (cas : List CaRow) (rows : List CertRow) (csrs : List CsrRow) (certs : CertTable) (id : ℤ)
    (info : CertInfo) : Prop :=
  ∃ c, badgeClass now warningDays r = some c ∧ listClass now warningDays r lib L = .ok c ∧
    dashboardClass now warningDays r cas rows csrs = .ok c ∧ schedulerClass now warningDays r certs id info = .ok c

/-- the end is neither this moment nor in the day after the warning period -/
def Clear (notAfter : DateTime) : Prop :=
  notAfter ≠ now ∧ (notAfter < now ∨ notAfter ≤ now + warningDays * day ∨ now + (warningDays + 1) * day ≤ notAfter)

/-- not yet in the warning period -/
def FarOff (notAfter : DateTime) : Prop := now ≤ notAfter ∧ now + (warningDays + 1) * day ≤ notAfter

end Agreement

/-- three comparisons of an end, and the scheduler's of a certificate that is not superseded -/
theorem classes_eq_iff {now soon t : DateTime} :
    (classOf (decide (t < now)) (decide (now ≤ t) && decide (t ≤ soon)) =
        classOf (decide (t < now)) (decide (t < soon + day)) ∧
      classOf (decide (t ≤ now)) (decide (t ≤ now) || decide (t ≤ soon)) =
        classOf (decide (t < now)) (decide (t < soon + day))) ↔
      t ≠ now ∧ (t < now ∨ t ≤ soon ∨ soon + day ≤ t) := by
  have hday : (0 : ℤ) < day := by decide
  rcases lt_trichotomy t now with hlt | rfl | hgt
  · simp [classOf, hlt, hlt.le, hlt.ne]
  · simp only [classOf, lt_irrefl, le_refl, decide_false, decide_true, Bool.true_and, Bool.true_or, Bool.false_eq_true,
      if_false,
      if_true]
    refine iff_of_false ?_ fun h => h.1 rfl
    rintro ⟨_, h⟩
    split_ifs at h
  · have hnot : ¬ t < now := hgt.not_gt
    have hnle : ¬ t ≤ now := not_le.2 hgt
    by_cases hsoon : t ≤ soon
    · have hnext : t < soon + day := hsoon.trans_lt (lt_add_of_pos_right soon hday)
      simp [classOf, hnot, hnle, hgt.le, hgt.ne', hsoon, hnext]
    · by_cases hnext : t < soon + day
      · simp [classOf, hnot, hnle, hsoon, hnext]
      · simp [classOf, hnot, hnle, hgt.ne', hsoon, hnext, not_lt.1 hnext]

/-- and of one that is -/
theorem valid_eq_iff {now soon t : DateTime} :
    (classOf (decide (t < now)) (decide (now ≤ t) && decide (t ≤ soon)) =
        classOf (decide (t < now)) (decide (t < soon + day)) ∧
      ExpiryClass.valid = classOf (decide (t < now)) (decide (t < soon + day))) ↔ now ≤ t ∧ soon + day ≤ t := by
  have hday : (0 : ℤ) < day := by decide
  by_cases hlt : t < now
  · simp [classOf, hlt]
  · by_cases hnext : t < soon + day
    · simp [classOf, hlt, hnext]
    · have hsoon : ¬ t ≤ soon := fun h => hnext (h.trans_lt (lt_add_of_pos_right soon hday))
      simp [classOf, hlt, hnext, hsoon, not_lt.1 hlt, not_lt.1 hnext]

/-- **Agreement.** The four places give an unrevoked, never notified certificate the same class if and only if the warning
period ends at a datetime there is, and the certificate's end is clear of the boundaries, or far off if it is superseded. -/
theorem classifiers_agree_iff (lib : ListLib) (L : Letters) (now : DateTime) (warningDays : ℤ) (r : CertRow)
    (hr : r.isRevoked = false) (cas : List CaRow) (rows : List CertRow) (csrs : List CsrRow) (certs : CertTable) (id : ℤ)
    (info : CertInfo) : Agree lib L now warningDays r cas rows csrs certs id info ↔
      (∃ soon, addDays now warningDays = .ok soon) ∧
        (superseded certs id = false ∧ Clear now warningDays r.notAfter ∨
          superseded certs id = true ∧ FarOff now warningDays r.notAfter) := by
  unfold Agree
  rw [badgeClass_eq, listClass_eq hr, dashboardClass_eq hr, schedulerClass_eq hr]
  cases hsoon : addDays now warningDays with
  | error e =>
    refine iff_of_false ?_ ?_
    · rintro ⟨c, _, hlist, _⟩
      cases hlist
    · rintro ⟨⟨soon, h⟩, _⟩
      cases h
  | ok soon =>
    have hsum := (addDays_eq_ok.1 hsoon).1
    have hday : (0 : ℤ) < day := by decide
    have hnext : now + (warningDays + 1) * day = soon + day := by
      rw [hsum]
      ring
    unfold Clear FarOff
    rw [hnext, ← hsum, ← classes_eq_iff, ← valid_eq_iff]
    constructor
    · rintro ⟨c, hbadge, hlist, _, hscheduler⟩
      cases hbadge
      refine ⟨⟨soon, rfl⟩, ?_⟩
      cases hsup : superseded certs id with
      | false =>
        rw [hsup] at hscheduler
        exact Or.inl ⟨rfl, Except.ok.inj hlist, Except.ok.inj hscheduler⟩
      | true =>
        rw [hsup] at hscheduler
        exact Or.inr ⟨rfl, Except.ok.inj hlist, Except.ok.inj hscheduler⟩
    · rintro ⟨_, ⟨hsup, hlist, hscheduler⟩ | ⟨hsup, hlist, hscheduler⟩⟩
      · rw [hsup]
        exact ⟨_, rfl, congrArg Except.ok hlist, congrArg Except.ok hlist, congrArg Except.ok hscheduler⟩
      · rw [hsup]
        exact ⟨_, rfl, congrArg Except.ok hlist, congrArg Except.ok hlist, congrArg Except.ok hscheduler⟩

/-! ## (2) Certificates without one class -/

def sampleLib : ListLib := ⟨fun _ => .error "", fun _ => none⟩

def endingAt (notAfter : DateTime) : CertRow := ⟨"a.example".toList, "1f".toList, none, notAfter, false, 1, none⟩

def sampleInfo : CertInfo := ⟨"a.example", "1f", 1, none, none⟩

/-- a certificate that ends in ten days, in a warning period of thirty -/
theorem ten_days_left : Agree sampleLib Letters.sqlite 0 30 (endingAt (10 * day)) [] [] [] Table.empty 1 sampleInfo :=
  (classifiers_agree_iff sampleLib Letters.sqlite 0 30 (endingAt (10 * day)) rfl [] [] [] Table.empty 1 sampleInfo).2
    ⟨⟨30 * day, by decide⟩, Or.inl ⟨rfl, by decide, by decide⟩⟩

/-- one second after the warning period, the badge alone says that it expires soon; at the moment of its end, the scheduler
alone says that it has expired -/
theorem boundaries_differ :
    (badgeClass 0 30 (endingAt (30 * day + second)) = some .expiringSoon ∧
      listClass 0 30 (endingAt (30 * day + second)) sampleLib Letters.sqlite = .ok .valid ∧
      dashboardClass 0 30 (endingAt (30 * day + second)) [] [] [] = .ok .valid ∧
      schedulerClass 0 30 (endingAt (30 * day + second)) Table.empty 1 sampleInfo = .ok .valid) ∧
    badgeClass 0 30 (endingAt 0) = some .expiringSoon ∧
      listClass 0 30 (endingAt 0) sampleLib Letters.sqlite = .ok .expiringSoon ∧
      dashboardClass 0 30 (endingAt 0) [] [] [] = .ok .expiringSoon ∧
      schedulerClass 0 30 (endingAt 0) Table.empty 1 sampleInfo = .ok .expired := by
  decide +kernel

end Chancery.ExpiryStatus
