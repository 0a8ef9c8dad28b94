/-
Does the rotation of an OCSP responder settle down.

A responder that was just issued needs no rotation exactly when its CA has room left for one (`RoomLeft`): at least the
renew-before days until the end of the CA's certificate, in whole seconds and whole days.

(1) `needsRotation_issued_iff`: the check, asked of a responder that was just issued.
(2) `rotation_settles_iff`: after `ensure_responder`, neither the check nor a second call asks for anything, exactly when
the old responder was kept or the CA has room left.
(3) `last_days_rotate_again`: three days before the end of a CA, every call issues a new responder.
-/
import Mathlib.Tactic
import Chancery.Services.OcspResponder

namespace Chancery.Pki

open Chancery.Core

variable {lib : Lib} {env : Env} {cfg : ResponderConfig} {ca : CaRow} {responder : Option X509} {force : Bool}
  {draw : ResponderDraw}

/-- the CA's certificate ends late enough for a responder that needs no rotation -/
def RoomLeft (env : Env) (cfg : ResponderConfig) (ca : CaRow) : Prop :=
  env.now < wholeSeconds ca.notAfter ∧ cfg.renewBeforeDays ≤ daysBetween (wholeSeconds ca.notAfter) env.now

/-- no rotation is due, and `ensure_responder` issues nothing -/
def Settled (lib : Lib) (env : Env) (cfg : ResponderConfig) (ca : CaRow) (responder : Option X509) : Prop :=
  responderNeedsRotation lib env cfg ca responder = false ∧
    ∀ draw, ensureResponder lib env cfg ca responder false draw = .ok none

/-- the responder that is stored after a call -/
def storedResponder (issued responder : Option X509) : Option X509 := issued.or responder

/-- what the CA's key signs verifies under its certificate -/
def SignsFor (lib : Lib) (env : Env) (ca : CaRow) (draw : ResponderDraw) : Prop :=
  ∀ notAfter, lib.directlyIssued (responderCertificate ca draw env.now notAfter) ca.certificate = true

/-! ## Ends -/

/-- a validity of some days leaves one day less, at least -/
theorem days_of_validity {now : DateTime} {days : ℤ} : days - 1 ≤ daysBetween (wholeSeconds (now + days * day)) now := by
  have hlt := lt_wholeSeconds_add (now + days * day)
  have hday : second ≤ day := by decide
  refine (Int.le_ediv_iff_mul_le (by decide : (0 : ℤ) < day)).2 ?_
  calc (days - 1) * day = now + days * day - day - now := by ring
    _ ≤ now + days * day - second - now := by linarith
    _ ≤ wholeSeconds (now + days * day) - now := by linarith

/-! ## (1) A responder that was just issued -/

theorem needsRotation_issued_iff (hsigned : SignsFor lib env ca draw) (hcfg : cfg.renewBeforeDays < cfg.validityDays)
    (hvalid : 1 ≤ cfg.validityDays) :
    responderNeedsRotation lib env cfg ca
      (some (responderCertificate ca draw env.now (min (env.now + cfg.validityDays * day) ca.notAfter))) = false ↔
      RoomLeft env cfg ca := by
  have hstart : wholeSeconds env.now ≤ env.now := wholeSeconds_le env.now
  -- the end that the validity alone would give is late enough
  have hown : env.now < wholeSeconds (env.now + cfg.validityDays * day) := by
    have hlt := lt_wholeSeconds_add (env.now + cfg.validityDays * day)
    have hday : second ≤ day := by decide
    have hone : 1 * day ≤ cfg.validityDays * day := mul_le_mul_of_nonneg_right hvalid (by decide)
    linarith
  have hdays : cfg.renewBeforeDays ≤ daysBetween (wholeSeconds (env.now + cfg.validityDays * day)) env.now :=
    le_trans (by omega) days_of_validity
  have hmono : ∀ {t u : DateTime}, t ≤ u → daysBetween t env.now ≤ daysBetween u env.now := by
    intro t u h
    exact Int.ediv_le_ediv (by decide) (sub_le_sub_right h env.now)
  have hbound : ∀ end' : DateTime, responderNeedsRotation lib env cfg ca
      (some (responderCertificate ca draw env.now end')) = false ↔
        env.now < wholeSeconds end' ∧ cfg.renewBeforeDays ≤ daysBetween (wholeSeconds end') env.now := by
    intro end'
    unfold responderNeedsRotation responderValid
    dsimp only
    rw [hsigned end']
    simp only [responderCertificate, hstart, Bool.or_eq_false_iff, Bool.not_eq_false', Bool.and_eq_true, decide_true,
      true_and]
    constructor
    · rintro ⟨hend, hdue⟩
      exact ⟨of_decide_eq_true hend, not_lt.1 (of_decide_eq_false hdue)⟩
    · rintro ⟨hend, hleft⟩
      exact ⟨decide_eq_true hend, decide_eq_false (not_lt.2 hleft)⟩
  rw [hbound, wholeSeconds_min]
  unfold RoomLeft
  rcases le_total (wholeSeconds (env.now + cfg.validityDays * day)) (wholeSeconds ca.notAfter) with h | h
  · rw [min_eq_left h]
    exact iff_of_true ⟨hown, hdays⟩ ⟨lt_of_lt_of_le hown h, le_trans hdays (hmono h)⟩
  · rw [min_eq_right h]

/-! ## (2) After a call -/

/-- what is asked of the CA does not depend on its responder -/
theorem checkResponderCa_ok {issued : Option X509} (h : ensureResponder lib env cfg ca responder force draw = .ok issued) :
    checkResponderCa env ca = .ok () := by
  obtain ⟨_, hcheck, -⟩ := bind_eq_ok.1 h
  exact hcheck

/-- a call without `force` issues nothing where no rotation is due -/
theorem settled_iff (hca : checkResponderCa env ca = .ok ()) :
    Settled lib env cfg ca responder ↔ responderNeedsRotation lib env cfg ca responder = false := by
  refine ⟨fun h => h.1, fun h => ⟨h, fun draw => ?_⟩⟩
  unfold ensureResponder
  rw [hca]
  simp [bind, Except.bind, h]

/-- nothing is issued only where no rotation is due and none is forced -/
theorem kept_of_none (h : ensureResponder lib env cfg ca responder force draw = .ok none) :
    force = false ∧ responderNeedsRotation lib env cfg ca responder = false := by
  obtain ⟨_, _, h⟩ := bind_eq_ok.1 h
  by_cases hfresh : (!force && !responderNeedsRotation lib env cfg ca responder) = true
  · simpa using hfresh
  · rw [if_neg hfresh] at h
    obtain ⟨_, _, h⟩ := bind_eq_ok.1 h
    obtain ⟨_, _, h⟩ := bind_eq_ok.1 h
    split_ifs at h
    cases h

theorem issued_of_some {cert : X509} (h : ensureResponder lib env cfg ca responder force draw = .ok (some cert)) :
    (force = true ∨ responderNeedsRotation lib env cfg ca responder = true) ∧ 1 ≤ cfg.validityDays ∧
      cert = responderCertificate ca draw env.now (min (env.now + cfg.validityDays * day) ca.notAfter) := by
  obtain ⟨notAfter, hbounded, hcert⟩ := ensureResponder_ok h
  obtain ⟨_, _, h⟩ := bind_eq_ok.1 h
  refine ⟨?_, ?_⟩
  · by_contra hnot
    rw [not_or, Bool.not_eq_true, Bool.not_eq_true] at hnot
    rw [hnot.1, hnot.2] at h
    cases h
  · unfold boundedNotAfter at hbounded
    split_ifs at hbounded with hsmall
    cases hbounded
    exact ⟨by omega, hcert⟩

/-- **(2) Rotation settles** after a call that succeeds, exactly when the old responder was kept or the CA has room left. -/
theorem rotation_settles_iff {issued : Option X509} (hsigned : SignsFor lib env ca draw)
    (hcfg : cfg.renewBeforeDays < cfg.validityDays)
    (h : ensureResponder lib env cfg ca responder force draw = .ok issued) :
    Settled lib env cfg ca (storedResponder issued responder) ↔
      force = false ∧ responderNeedsRotation lib env cfg ca responder = false ∨ RoomLeft env cfg ca := by
  rw [settled_iff (checkResponderCa_ok h)]
  cases issued with
  | none =>
    have hkept := kept_of_none h
    exact iff_of_true hkept.2 (.inl hkept)
  | some cert =>
    obtain ⟨hdue, hvalid, rfl⟩ := issued_of_some h
    have hnot : ¬ (force = false ∧ responderNeedsRotation lib env cfg ca responder = false) := by
      rintro ⟨hf, hr⟩
      rcases hdue with hdue | hdue
      · rw [hf] at hdue
        cases hdue
      · rw [hr] at hdue
        cases hdue
    rw [or_iff_right hnot]
    exact needsRotation_issued_iff hsigned hcfg hvalid

/-! ## (3) The last days of a CA -/

def sampleDraw : ResponderDraw := ⟨"CN=responder".toList, 99, "key".toList⟩

/-- the first responder of a CA with ten years to go -/
theorem rotation_settles_sample :
    Settled sampleLib (Env.at 0) .standard sampleRoot
      (storedResponder (some (responderCertificate sampleRoot sampleDraw 0 (30 * day))) none) :=
  (rotation_settles_iff (fun _ => rfl) (by decide) (by decide +kernel :
    ensureResponder sampleLib (Env.at 0) .standard sampleRoot none false sampleDraw =
      .ok (some (responderCertificate sampleRoot sampleDraw 0 (30 * day))))).2 (.inr ⟨by decide, by decide⟩)

/-- **(3) Three days before its end**, a CA gets a responder that needs rotation at once, and another one from the next
call. -/
theorem last_days_rotate_again :
    let now := 3647 * day
    let first := responderCertificate sampleRoot sampleDraw now (3650 * day)
    ensureResponder sampleLib (Env.at now) .standard sampleRoot none false sampleDraw = .ok (some first) ∧
      responderNeedsRotation sampleLib (Env.at now) .standard sampleRoot (some first) = true ∧
      ensureResponder sampleLib (Env.at now) .standard sampleRoot (some first) false sampleDraw = .ok (some first) := by
  decide +kernel

end Chancery.Pki
