/-
Does a certificate end before its issuer does, over any run of requests and responder rotations.

`signer` is the CA whose key a request signs with, when the certificate is for somebody else; `issued` lists the ends of the
certificates that appeared. Leaves, intermediates and OCSP responders are clamped to the issuer's column, which is the end
of its certificate up to the fraction of a second (`Dated`). A re-issue and a cross-certificate count in whole days, and
never less than one.

(1) `contained_iff`: a step of a dated hierarchy issues within the issuer exactly when an accepted re-issue or cross-signing
finds its issuer good for one more day.
(2) `contained_run_iff`: so does every step of a run.
(3) `last_day_reissue_outlives`: a sub-CA re-issued on the last day of its parent outlives it.
-/
import Mathlib.Tactic
import Chancery.Services.OcspResponder
import Chancery.Scenarios.FinalCrl

namespace Chancery.Pki

open Chancery.Core

/-! ## What a step signs -/

/-- the tables, and the responder certificates by CA -/
structure Issuance where
  db : Db
  responders : ℤ → Option X509

inductive IssueOp
  | request (env : Env) (r : Request)
  | rotateResponder (env : Env) (cfg : ResponderConfig) (caId : ℤ) (force : Bool) (draw : ResponderDraw)

def Issuance.step (lib : Lib) (w : Issuance) : IssueOp → Issuance
  | .request env r => { w with db := Pki.step lib w.db (env, r) }
  | .rotateResponder env cfg caId force draw =>
    match w.db.cas.get? caId with
    | none => w
    | some ca =>
      match ensureResponder lib env cfg ca (w.responders caId) force draw with
      | .ok (some cert) => { w with responders := Function.update w.responders caId (some cert) }
      | _ => w

/-- who signs a re-issue: the parent, for a root nobody else -/
def parentOf (s : Db) (caId : ℤ) : Option CaRow :=
  (s.cas.get? caId).bind fun ca => if ca.isRoot then none else ca.parentId.bind s.cas.get?

/-- the CA whose key signs for another subject -/
def Request.signer (s : Db) : Request → Option CaRow
  | .createIntermediate parentId _ => s.cas.get? parentId
  | .createCertificate caId _ => s.cas.get? caId
  | .signCsr _ caId _ => s.cas.get? caId
  | .acmeSign _ caId _ => s.cas.get? caId
  | .renew certId _ => (s.leaves.get? certId).bind fun old => s.cas.get? old.caId
  | .reissue caId _ _ _ => parentOf s caId
  | .crossSign _ issuerId _ _ _ => s.cas.get? issuerId
  | _ => none

def IssueOp.signer (w : Issuance) : IssueOp → Option CaRow
  | .request _ r => r.signer w.db
  | .rotateResponder _ _ caId _ _ => w.db.cas.get? caId

/-- the certificate behind a new alternate: a promoted re-issue leaves the old primary as its alternate -/
def certified (s : Db) (a : CaCertRow) : Option DateTime :=
  if a.kind = .previous then (s.cas.get? a.caId).map (·.certificate.notAfter) else some a.certificate.notAfter

/-- the ends of the certificates that are new in `s'` -/
def issued (s s' : Db) : List DateTime :=
  (s'.cas.rows.filter fun ca => decide (s.cas.nextKey ≤ ca.id)).map (·.certificate.notAfter) ++
    (s'.leaves.rows.filter fun c => decide (s.leaves.nextKey ≤ c.id)).map (·.notAfter) ++
    (s'.alternates.rows.filter fun a => decide (s.alternates.nextKey ≤ a.id)).filterMap (certified s')

def IssueOp.issued (w w' : Issuance) : IssueOp → List DateTime
  | .request _ _ => Pki.issued w.db w'.db
  | .rotateResponder _ _ caId _ _ =>
    if w'.responders caId = w.responders caId then [] else (w'.responders caId).toList.map (·.notAfter)

/-- **Contained.** What the step signs for another subject ends no later than the certificate of the CA that signs it. -/
def Contained (lib : Lib) (w : Issuance) (o : IssueOp) : Prop :=
  ∀ ca, o.signer w = some ca → ∀ t ∈ o.issued w (w.step lib o), t ≤ ca.certificate.notAfter

/-- is the request a re-issue or a cross-signing that the service accepts -/
def Certifies (lib : Lib) (s : Db) (env : Env) : Request → Prop
  | .reissue caId days status serial =>
    ∃ ca s', s.cas.get? caId = some ca ∧ reissueCaCertificate env ca days status serial s = .ok s'
  | .crossSign caId issuerId days status serial =>
    ∃ ca issuer s', s.cas.get? caId = some ca ∧ capable? issuerId s = some issuer ∧
      crossSignCa lib env ca issuer days status serial s = .ok s'
  | _ => False

/-- an accepted re-issue or cross-signing finds the certificate of the CA that signs good for one more day -/
def DayLeft (lib : Lib) (w : Issuance) : IssueOp → Prop
  | .request env r => Certifies lib w.db env r → ∀ ca, r.signer w.db = some ca →
      wholeSeconds (env.now + day) ≤ ca.certificate.notAfter
  | .rotateResponder .. => True

/-! ## New rows -/

section New

variable {lib : Lib} {env : Env} {s s' : Db} {ca : CaRow} {t : DateTime}

theorem mem_issued : t ∈ issued s s' ↔ (∃ ca ∈ s'.cas, s.cas.nextKey ≤ ca.id ∧ ca.certificate.notAfter = t) ∨
    (∃ c ∈ s'.leaves, s.leaves.nextKey ≤ c.id ∧ c.notAfter = t) ∨
    ∃ a ∈ s'.alternates, s.alternates.nextKey ≤ a.id ∧ certified s' a = some t := by
  simp only [issued, List.mem_append, List.mem_map, List.mem_filter, List.mem_filterMap, decide_eq_true_eq, Table.mem_def,
    and_assoc, or_assoc]

/-- rows that were there are not new -/
theorem not_new {α : Type} {key : α → ℤ} {table : Table key} {a : α} (ha : a ∈ table) : ¬ table.nextKey ≤ key a :=
  not_le.2 (Table.key_lt_nextKey ha)

theorem not_mem_issued_self : t ∉ issued s s := by
  rw [mem_issued]
  rintro (⟨a, ha, hnew, _⟩ | ⟨a, ha, hnew, _⟩ | ⟨a, ha, hnew, _⟩) <;> exact not_new ha hnew

/-- publishing a CRL issues nothing -/
theorem issued_congr {s₁ : Db} (h : s'.withoutCrls = s₁.withoutCrls) (ht : t ∈ issued s s') : t ∈ issued s s₁ := by
  obtain ⟨hleaves, halternates, _⟩ := tables_of_withoutCrls h
  have hcert : ∀ i a, s'.cas.get? i = some a → ∃ b, s₁.cas.get? i = some b ∧ b.certificate = a.certificate := by
    intro i a ha
    obtain ⟨b, hb, hclear⟩ := get?_of_withoutCrls h.symm ha
    have hcert : (clearCrl b).certificate = (clearCrl a).certificate := by rw [hclear]
    exact ⟨b, hb, hcert⟩
  rw [mem_issued] at ht ⊢
  refine Or.imp ?_ (Or.imp ?_ ?_) ht
  · intro ⟨a, ha, hnew, hend⟩
    obtain ⟨b, hb, hsame⟩ := hcert _ a (Table.get?_key ha)
    refine ⟨b, Table.mem_of_get? hb, ?_, by rw [hsame, hend]⟩
    rw [Table.key_of_get? hb]
    exact hnew
  · rw [hleaves]
    exact id
  · intro ⟨a, ha, hnew, hend⟩
    rw [halternates] at ha
    refine ⟨a, ha, hnew, ?_⟩
    unfold certified at hend ⊢
    split_ifs at hend ⊢
    · obtain ⟨b, hb, hend⟩ := Option.map_eq_some_iff.1 hend
      obtain ⟨c, hc, hsame⟩ := hcert _ b hb
      rw [hc, Option.map_some, hsame, hend]
    · exact hend

/-- a new CA is the only new certificate -/
theorem issued_insertCa {n : NewCa} (ht : t ∈ issued s (s.insertCa n)) : t = n.certificate.notAfter := by
  rw [mem_issued] at ht
  rcases ht with ⟨a, ha, hnew, hend⟩ | ⟨a, ha, hnew, _⟩ | ⟨a, ha, hnew, _⟩
  · rcases mem_insertCa.1 ha with hold | rfl
    · exact absurd hnew (not_new hold)
    · exact hend.symm
  · exact absurd hnew (not_new ha)
  · exact absurd hnew (not_new ha)

/-- new leaves only -/
theorem issued_leaves (hcas : s'.cas = s.cas) (halternates : s'.alternates = s.alternates) (ht : t ∈ issued s s') :
    ∃ c ∈ s'.leaves, s.leaves.nextKey ≤ c.id ∧ c.notAfter = t := by
  rw [mem_issued, hcas, halternates] at ht
  rcases ht with ⟨a, ha, hnew, _⟩ | hleaf | ⟨a, ha, hnew, _⟩
  · exact absurd hnew (not_new ha)
  · exact hleaf
  · exact absurd hnew (not_new ha)

theorem certified_row {n : NewAlternate} (hkind : n.kind ≠ .previous) (k : ℤ) :
    certified s (n.row k) = some n.certificate.notAfter := if_neg hkind

/-- a new alternate is the only new certificate -/
theorem issued_insertAlternate {n : NewAlternate} (hkind : n.kind ≠ .previous) :
    t ∈ issued s (s.insertAlternate n) ↔ t = n.certificate.notAfter := by
  rw [mem_issued]
  constructor
  · rintro (⟨a, ha, hnew, _⟩ | ⟨a, ha, hnew, _⟩ | ⟨a, ha, hnew, hend⟩)
    · exact absurd hnew (not_new ha)
    · exact absurd hnew (not_new ha)
    · rcases (@Table.mem_insert _ _ s.alternates n.row (fun _ => rfl) a).1 ha with hold | rfl
      · exact absurd hnew (not_new hold)
      · rw [certified_row hkind] at hend
        exact (Option.some.inj hend).symm
  · rintro rfl
    refine Or.inr (Or.inr ⟨_, (@Table.mem_insert _ _ s.alternates n.row (fun _ => rfl) _).2 (Or.inr rfl), le_rfl,
      certified_row hkind _⟩)

/-- a promoted re-issue is the only new certificate -/
theorem issued_promote {n : NewAlternate} (hca : s.cas.get? ca.id = some ca) :
    t ∈ issued s (promoteReissue ca (n.row s.alternates.nextKey) (s.insertAlternate n)) ↔ t = n.certificate.notAfter := by
  have hget : (promoteReissue ca (n.row s.alternates.nextKey) (s.insertAlternate n)).cas.get? ca.id =
      some (promoted (n.row s.alternates.nextKey) ca) := @get?_promoteReissue (s.insertAlternate n) ca _ hca
  have hmem : ∀ a, a ∈ (promoteReissue ca (n.row s.alternates.nextKey) (s.insertAlternate n)).alternates ↔
      (a ∈ (s.insertAlternate n).alternates ∨ a = previousOf ca (s.insertAlternate n).alternates.nextKey) ∧
        a.id ≠ s.alternates.nextKey := by
    intro a
    refine Table.mem_filter.trans (and_congr ?_ ?_)
    · exact @Table.mem_insert _ _ (s.insertAlternate n).alternates (previousOf ca) (fun _ => rfl) a
    · simp [NewAlternate.row]
  have hnewest : s.alternates.nextKey < (s.insertAlternate n).alternates.nextKey :=
    Table.key_lt_nextKey ((@Table.mem_insert _ _ s.alternates n.row (fun _ => rfl) _).2 (Or.inr rfl))
  have hprevious : certified (promoteReissue ca (n.row s.alternates.nextKey) (s.insertAlternate n))
      (previousOf ca (s.insertAlternate n).alternates.nextKey) = some n.certificate.notAfter := by
    have hkind : (previousOf ca (s.insertAlternate n).alternates.nextKey).kind = .previous := rfl
    rw [certified, if_pos hkind]
    show ((promoteReissue ca _ _).cas.get? ca.id).map _ = _
    rw [hget]
    rfl
  rw [mem_issued]
  constructor
  · rintro (⟨a, ha, hnew, _⟩ | ⟨a, ha, hnew, _⟩ | ⟨a, ha, hnew, hend⟩)
    · obtain ⟨b, hb, rfl⟩ := List.mem_map.1 ha
      have hid : (if b.id = ca.id then promoted (n.row s.alternates.nextKey) b else b).id = b.id := by split_ifs <;> rfl
      rw [hid] at hnew
      exact absurd hnew (not_new hb)
    · exact absurd hnew (not_new ha)
    · obtain ⟨hin, hne⟩ := (hmem a).1 ha
      rcases hin with hin | rfl
      · rcases (@Table.mem_insert _ _ s.alternates n.row (fun _ => rfl) a).1 hin with hold | rfl
        · exact absurd hnew (not_new hold)
        · exact absurd rfl hne
      · rw [hprevious] at hend
        exact (Option.some.inj hend).symm
  · rintro rfl
    exact Or.inr (Or.inr ⟨_, (hmem _).2 ⟨Or.inr rfl, hnewest.ne'⟩, hnewest.le, hprevious⟩)

theorem issued_storeReissue {n : NewAlternate} (hca : s.cas.get? ca.id = some ca) (hkind : n.kind ≠ .previous) :
    t ∈ issued s (storeReissue ca n s) ↔ t = n.certificate.notAfter := by
  unfold storeReissue
  split_ifs
  · exact issued_promote hca
  · exact issued_insertAlternate hkind

end New

/-! ## (1) One step -/

section Step

variable {lib : Lib} {env : Env} {s s' : Db} {ca issuer : CaRow} {t : DateTime}

theorem boundedNotAfter_ok {kind : CertKind} {days : ℤ} {caNotAfter : Option DateTime} {notAfter : DateTime}
    (h : boundedNotAfter env kind days caNotAfter = .ok notAfter) :
    1 ≤ days ∧ notAfter = (caNotAfter.map (min (env.now + days * day))).getD (env.now + days * day) := by
  unfold boundedNotAfter at h
  split_ifs at h with hpos
  exact ⟨not_lt.1 hpos, (Except.ok.inj h).symm⟩

/-- **The clamp.** A validity clamped to the issuer's column ends within the issuer's certificate. -/
theorem clamped_le (hdated : Dated s) (hca : ca ∈ s.cas) {kind : CertKind} {days : ℤ} {notAfter : DateTime}
    (h : boundedNotAfter env kind days (some ca.notAfter) = .ok notAfter) :
    wholeSeconds notAfter ≤ ca.certificate.notAfter := by
  obtain ⟨_, rfl⟩ := boundedNotAfter_ok h
  calc wholeSeconds (min (env.now + days * day) ca.notAfter)
      ≤ wholeSeconds ca.notAfter := wholeSeconds_mono (min_le_right _ _)
    _ = wholeSeconds ca.certificate.notAfter := (hdated ca hca).symm
    _ ≤ ca.certificate.notAfter := wholeSeconds_le _

/-- **Whole days.** A validity in days, at most what the issuer has left but at least one, ends within the issuer's
certificate exactly when the issuer is good for one more day. -/
theorem wholeDays_le_iff (hdated : Dated s) (hissuer : issuer ∈ s.cas) {days asked : ℤ} (hpos : 1 ≤ days)
    (hdays : days = min asked (daysLeft env issuer)) :
    wholeSeconds (env.now + days * day) ≤ issuer.certificate.notAfter ↔
      wholeSeconds (env.now + day) ≤ issuer.certificate.notAfter := by
  have hday : (0 : ℤ) < day := by decide
  constructor
  · intro h
    have hle : env.now + day ≤ env.now + days * day := by nlinarith
    exact (wholeSeconds_mono hle).trans h
  · intro h
    by_cases hleft : 1 ≤ daysBetween issuer.notAfter env.now
    · have hfit : days * day ≤ issuer.notAfter - env.now := by
        have hle : days ≤ daysBetween issuer.notAfter env.now := by
          rw [hdays]
          exact (min_le_right _ _).trans (max_le hleft le_rfl)
        calc days * day ≤ daysBetween issuer.notAfter env.now * day := mul_le_mul_of_nonneg_right hle hday.le
          _ ≤ issuer.notAfter - env.now := Int.ediv_mul_le _ hday.ne'
      calc wholeSeconds (env.now + days * day)
          ≤ wholeSeconds issuer.notAfter := wholeSeconds_mono (by linarith)
        _ = wholeSeconds issuer.certificate.notAfter := (hdated issuer hissuer).symm
        _ ≤ issuer.certificate.notAfter := wholeSeconds_le _
    · have hone : days = 1 := by
        have hle : days ≤ daysLeft env issuer := hdays ▸ min_le_right _ _
        unfold daysLeft at hle
        omega
      rwa [hone, one_mul]

/-- what is new in `s'` ends within the certificate of `ca` -/
def EndsWithin (s s' : Db) (ca : CaRow) : Prop := ∀ t ∈ issued s s', t ≤ ca.certificate.notAfter

theorem endsWithin_refl : EndsWithin s s ca := fun _ ht => absurd ht not_mem_issued_self

theorem endsWithin_of {r : Except PyError Db} (h : ∀ s', r = .ok s' → EndsWithin s s' ca) :
    EndsWithin s (Result.of s r).1 ca := by
  cases r with
  | error e => exact endsWithin_refl
  | ok s' => exact h s' rfl

/-- a CRL after the commit does not count -/
theorem endsWithin_afterCommit {r : Except PyError Db} {refresh : Db → Except PyError Db}
    (h : ∀ s', r = .ok s' → EndsWithin s s' ca)
    (hrefresh : ∀ s₁ s₂, r = .ok s₁ → refresh s₁ = .ok s₂ → s₂.withoutCrls = s₁.withoutCrls) :
    EndsWithin s (afterCommit s r refresh).1 ca := by
  cases r with
  | error e => exact endsWithin_refl
  | ok s₁ =>
    show EndsWithin s (Result.of s₁ (refresh s₁)).1 ca
    cases hr : refresh s₁ with
    | error e => exact h s₁ rfl
    | ok s₂ => exact fun t ht => h s₁ rfl t (issued_congr (hrefresh s₁ s₂ rfl hr) ht)

theorem withoutCrls_publishInitialCrl {caId : ℤ} : (publishInitialCrl env caId s).withoutCrls = s.withoutCrls := by
  unfold publishInitialCrl
  cases s.cas.get? caId with
  | none => rfl
  | some ca =>
    simp only
    split_ifs
    · rfl
    · cases hg : generateCrl env ca none s with
      | error e => rfl
      | ok s' => exact withoutCrls_generateCrl hg

theorem endsWithin_createIntermediateCa (hdated : Dated s) (hca : ca ∈ s.cas) {form : CaForm}
    (h : createIntermediateCa lib env form ca s = .ok s') : EndsWithin s s' ca := by
  obtain ⟨_, _, h⟩ := bind_eq_ok.1 h
  obtain ⟨_, _, h⟩ := bind_eq_ok.1 h
  obtain ⟨_, _, h⟩ := bind_eq_ok.1 h
  obtain ⟨_, _, h⟩ := bind_eq_ok.1 h
  obtain ⟨_, _, h⟩ := bind_eq_ok.1 h
  obtain ⟨notAfter, hnotAfter, h⟩ := bind_eq_ok.1 h
  split_ifs at h
  obtain ⟨s₁, hs₁, h⟩ := bind_eq_ok.1 h
  cases h
  intro t ht
  have hnew := issued_congr withoutCrls_publishInitialCrl ht
  rw [addCa_ok hs₁] at hnew
  rw [issued_insertCa hnew]
  exact clamped_le hdated hca hnotAfter

/-- a new leaf is clamped -/
theorem addLeaf_ends (hdated : Dated s) (hca : ca ∈ s.cas) {form : LeafForm} {x : Issued} {escrowed : Bool}
    {renewedFrom : Option ℤ} (h : addLeaf env ca form x escrowed renewedFrom s = .ok s') :
    s'.cas = s.cas ∧ s'.alternates = s.alternates ∧
      ∀ c ∈ s'.leaves, s.leaves.nextKey ≤ c.id → c.notAfter ≤ ca.certificate.notAfter := by
  obtain ⟨notAfter, hnotAfter, h⟩ := bind_eq_ok.1 h
  split_ifs at h
  cases h
  refine ⟨rfl, rfl, fun c hc hnew => ?_⟩
  rcases (@Table.mem_insert _ _ s.leaves (newLeaf env ca form x escrowed renewedFrom notAfter) (fun _ => rfl) c).1 hc
    with hold | rfl
  · exact absurd hnew (not_new hold)
  · exact clamped_le hdated hca hnotAfter

theorem endsWithin_leaves (hcas : s'.cas = s.cas) (halternates : s'.alternates = s.alternates)
    (h : ∀ c ∈ s'.leaves, s.leaves.nextKey ≤ c.id → c.notAfter ≤ ca.certificate.notAfter) : EndsWithin s s' ca := by
  intro t ht
  obtain ⟨c, hc, hnew, rfl⟩ := issued_leaves hcas halternates ht
  exact h c hc hnew

theorem endsWithin_addLeaf (hdated : Dated s) (hca : ca ∈ s.cas) {form : LeafForm} {x : Issued} {escrowed : Bool}
    {renewedFrom : Option ℤ} (h : addLeaf env ca form x escrowed renewedFrom s = .ok s') : EndsWithin s s' ca := by
  obtain ⟨hcas, halternates, hends⟩ := addLeaf_ends hdated hca h
  exact endsWithin_leaves hcas halternates hends

theorem endsWithin_signRow (hdated : Dated s) (hca : ca ∈ s.cas) {row : CsrRow} {form : LeafForm}
    (h : signRow lib env row ca form s = .ok s') : EndsWithin s s' ca := by
  obtain ⟨_, _, h⟩ := bind_eq_ok.1 h
  obtain ⟨s₁, hs₁, h⟩ := bind_eq_ok.1 h
  cases h
  obtain ⟨hcas, halternates, hends⟩ := addLeaf_ends hdated hca hs₁
  exact endsWithin_leaves hcas halternates hends

theorem endsWithin_renewLeaf (hdated : Dated s) (hca : ca ∈ s.cas) {old : LeafRow} {form : RenewForm}
    (h : renewLeaf lib env old ca form s = .ok s') : EndsWithin s s' ca := by
  obtain ⟨_, _, h⟩ := bind_eq_ok.1 h
  obtain ⟨_, _, h⟩ := bind_eq_ok.1 h
  obtain ⟨s₁, hs₁, h⟩ := bind_eq_ok.1 h
  obtain ⟨hcas, halternates, hends⟩ := addLeaf_ends hdated hca hs₁
  split_ifs at h
  · obtain ⟨c₀, _, _, _, rfl⟩ := revokeCertificate_ok h
    refine endsWithin_leaves hcas halternates fun c hc hnew => ?_
    obtain ⟨c₁, hc₁, rfl⟩ := List.mem_map.1 hc
    split_ifs at hnew ⊢
    · exact hends c₁ hc₁ hnew
    · exact hends c₁ hc₁ hnew
  · cases h
    exact endsWithin_leaves hcas halternates hends

theorem endsWithin_congr {s₁ : Db} (h : s'.withoutCrls = s₁.withoutCrls) : EndsWithin s s' ca ↔ EndsWithin s s₁ ca :=
  ⟨fun hall t ht => hall t (issued_congr h.symm ht), fun hall t ht => hall t (issued_congr h ht)⟩

/-! ### Certificates of CAs -/

theorem reissueIssuer_parent (hroot : ca.isRoot = false) (h : reissueIssuer env ca s = .ok issuer) :
    ca.parentId.bind s.cas.get? = some issuer := by
  unfold reissueIssuer at h
  simp only [hroot, Bool.and_false, Bool.false_eq_true, if_false] at h
  split_ifs at h
  cases hp : ca.parentId.bind s.cas.get? with
  | none =>
    simp only [hp] at h
    cases h
  | some parent =>
    simp only [hp] at h
    split_ifs at h
    cases h
    rfl

theorem parentOf_eq_some {caId : ℤ} (hca : s.cas.get? caId = some ca) (h : parentOf s caId = some issuer) :
    ca.isRoot = false ∧ ca.parentId.bind s.cas.get? = some issuer := by
  rw [parentOf, hca, Option.bind_some] at h
  split_ifs at h with hroot
  exact ⟨by simpa using hroot, h⟩

/-- what a re-issue signs -/
theorem reissue_ends {days : Option ℤ} {status : ApprovalStatus} {serial : ℤ}
    (h : reissueCaCertificate env ca days status serial s = .ok s') :
    ∃ (x : CaRow) (n : NewAlternate), reissueIssuer env ca s = .ok x ∧ n.kind = .reissue ∧ s' = storeReissue ca n s ∧
      1 ≤ reissueDays env ca x days ∧ n.certificate.notAfter =
        wholeSeconds (env.now + reissueDays env ca x days * day) := by
  obtain ⟨x, hissuer, h⟩ := bind_eq_ok.1 h
  obtain ⟨_, _, h⟩ := bind_eq_ok.1 h
  obtain ⟨notAfter, hnotAfter, h⟩ := bind_eq_ok.1 h
  obtain ⟨hpos, rfl⟩ := boundedNotAfter_ok hnotAfter
  by_cases hkey : x.certificate.hasKeyId = true
  · rw [if_neg (by simp [hkey])] at h
    exact ⟨x, _, hissuer, rfl, (Except.ok.inj h).symm, hpos, rfl⟩
  · rw [if_pos (by simpa using hkey)] at h
    cases h

theorem endsWithin_reissue_iff (hdated : Dated s) (hca : s.cas.get? ca.id = some ca)
    (hissuer : parentOf s ca.id = some issuer) {days : Option ℤ} {status : ApprovalStatus} {serial : ℤ}
    (h : reissueCaCertificate env ca days status serial s = .ok s') :
    EndsWithin s s' issuer ↔ wholeSeconds (env.now + day) ≤ issuer.certificate.notAfter := by
  obtain ⟨hroot, hparent⟩ := parentOf_eq_some hca hissuer
  obtain ⟨x, n, hx, hkind, rfl, hpos, hend⟩ := reissue_ends h
  cases (reissueIssuer_parent hroot hx).symm.trans hparent
  obtain ⟨p, _, hget⟩ := Option.bind_eq_some_iff.1 hparent
  have hdays : reissueDays env ca issuer days =
      min (days.getD (max 1 (daysBetween ca.notAfter ca.notBefore))) (daysLeft env issuer) := by
    unfold reissueDays
    simp only [hroot, Bool.false_eq_true, if_false]
  rw [← wholeDays_le_iff hdated (Table.mem_of_get? hget) hpos hdays, ← hend]
  have hone : ∀ t, t ∈ issued s (storeReissue ca n s) ↔ t = n.certificate.notAfter :=
    fun t => issued_storeReissue hca (by rw [hkind]; decide)
  exact ⟨fun hall => hall _ ((hone _).2 rfl), fun hle t ht => (hone t).1 ht ▸ hle⟩

theorem endsWithin_crossSign_iff (hdated : Dated s) (hissuer : issuer ∈ s.cas) {days : Option ℤ}
    {status : ApprovalStatus} {serial : ℤ} (h : crossSignCa lib env ca issuer days status serial s = .ok s') :
    EndsWithin s s' issuer ↔ wholeSeconds (env.now + day) ≤ issuer.certificate.notAfter := by
  obtain ⟨_, _, h⟩ := bind_eq_ok.1 h
  obtain ⟨_, _, h⟩ := bind_eq_ok.1 h
  obtain ⟨_, _, h⟩ := bind_eq_ok.1 h
  obtain ⟨pathLength, _, h⟩ := bind_eq_ok.1 h
  obtain ⟨notAfter, hnotAfter, h⟩ := bind_eq_ok.1 h
  obtain ⟨hpos, rfl⟩ := boundedNotAfter_ok hnotAfter
  split_ifs at h
  cases h
  rw [← wholeDays_le_iff hdated hissuer hpos rfl]
  exact ⟨fun hall => hall _ ((issued_insertAlternate (by simp)).2 rfl),
    fun hle t ht => (issued_insertAlternate (by simp)).1 ht ▸ hle⟩

theorem withoutCrls_refreshPrimary {caId : ℤ} (h : refreshPrimary env caId s = .ok s') :
    s'.withoutCrls = s.withoutCrls := by
  unfold refreshPrimary at h
  cases hca : s.cas.get? caId with
  | none =>
    simp only [hca] at h
    cases h
    rfl
  | some ca =>
    simp only [hca] at h
    split_ifs at h
    · cases h
      rfl
    · exact withoutCrls_refreshCrl h

/-! ### The requests -/

/-- the certificate of a request is what is new, for the CA that signs it -/
theorem contained_request {w : Issuance} {r : Request} : Contained lib w (.request env r) ↔
    ∀ ca, r.signer w.db = some ca → EndsWithin w.db (handle lib w.db env r).1 ca := Iff.rfl

theorem mem_of_capable {caId : ℤ} (h : capable? caId s = some ca) : s.cas.get? caId = some ca ∧ ca ∈ s.cas := by
  obtain ⟨hget, _⟩ := Option.filter_eq_some_iff.1 h
  exact ⟨hget, Table.mem_of_get? hget⟩

/-- the requests that clamp to the column of the issuer -/
theorem contained_clamped {w : Issuance} (hdated : Dated w.db) {r : Request}
    (hr : ∀ caId days status serial, r ≠ .reissue caId days status serial)
    (hc : ∀ caId issuerId days status serial, r ≠ .crossSign caId issuerId days status serial) :
    Contained lib w (.request env r) := by
  rw [contained_request]
  intro ca hca
  cases r with
  | createIntermediate parentId form =>
    simp only [handle]
    cases hcap : capable? parentId w.db with
    | none => exact endsWithin_refl
    | some parent =>
      obtain ⟨hget, hmem⟩ := mem_of_capable hcap
      cases hca.symm.trans hget
      exact endsWithin_of fun _ => endsWithin_createIntermediateCa hdated hmem
  | createCertificate caId form =>
    refine endsWithin_of fun s' h => ?_
    unfold createCertificate at h
    have hget : w.db.cas.get? caId = some ca := hca
    simp only [hget] at h
    split_ifs at h
    obtain ⟨_, _, h⟩ := bind_eq_ok.1 h
    obtain ⟨_, _, h⟩ := bind_eq_ok.1 h
    exact endsWithin_addLeaf hdated (Table.mem_of_get? hget) h
  | signCsr csrId caId form =>
    refine endsWithin_of fun s' h => ?_
    unfold signCsr at h
    have hget : w.db.cas.get? caId = some ca := hca
    simp only [hget] at h
    cases hrow : w.db.csrs.get? csrId with
    | none =>
      simp only [hrow] at h
      cases h
    | some row =>
      simp only [hrow] at h
      split_ifs at h
      obtain ⟨_, _, h⟩ := bind_eq_ok.1 h
      exact endsWithin_signRow hdated (Table.mem_of_get? hget) h
  | acmeSign csrId caId form =>
    refine endsWithin_of fun s' h => ?_
    unfold acmeSign at h
    have hget : w.db.cas.get? caId = some ca := hca
    simp only [hget] at h
    split_ifs at h
    cases hrow : w.db.csrs.get? csrId with
    | none =>
      simp only [hrow] at h
      cases h
    | some row =>
      simp only [hrow] at h
      obtain ⟨_, _, h⟩ := bind_eq_ok.1 h
      exact endsWithin_signRow hdated (Table.mem_of_get? hget) h
  | renew certId form =>
    obtain ⟨old, hold, hget⟩ := Option.bind_eq_some_iff.1 hca
    simp only [handle, hold, withCa, hget]
    refine endsWithin_afterCommit (fun s' => endsWithin_renewLeaf hdated (Table.mem_of_get? hget)) ?_
    intro s₁ s₂ _ h
    split_ifs at h
    · exact withoutCrls_refreshCrl h
    · cases h
      rfl
  | reissue caId days status serial => exact absurd rfl (hr caId days status serial)
  | crossSign caId issuerId days status serial => exact absurd rfl (hc caId issuerId days status serial)
  | _ => cases hca

theorem contained_reissue_iff {w : Issuance} (hdated : Dated w.db) {caId : ℤ} {days : Option ℤ} {status : ApprovalStatus}
    {serial : ℤ} : Contained lib w (.request env (.reissue caId days status serial)) ↔
      DayLeft lib w (.request env (.reissue caId days status serial)) := by
  rw [contained_request]
  cases hca : w.db.cas.get? caId with
  | none =>
    have hnone : parentOf w.db caId = none := by rw [parentOf, hca, Option.bind_none]
    refine iff_of_true (fun x hx => ?_) fun _ x hx => ?_ <;> cases hnone.symm.trans hx
  | some ca =>
    have hid := Table.key_of_get? hca
    have hself : w.db.cas.get? ca.id = some ca := by rwa [hid]
    simp only [handle, withCa, hca]
    cases h : reissueCaCertificate env ca days status serial w.db with
    | error e =>
      refine iff_of_true (fun x _ => endsWithin_refl) ?_
      rintro ⟨ca', s', hca', hok⟩
      cases hca.symm.trans hca'
      rw [h] at hok
      cases hok
    | ok s₁ =>
      have hkept : ∀ x, EndsWithin w.db (afterCommit w.db (.ok s₁)
          fun s' => if status = .approved then refreshPrimary env caId s' else .ok s').1 x ↔ EndsWithin w.db s₁ x := by
        intro x
        refine endsWithin_congr ?_
        show (Result.of s₁ (if status = .approved then refreshPrimary env caId s₁ else .ok s₁)).1.withoutCrls = _
        split_ifs
        · cases hr : refreshPrimary env caId s₁ with
          | error e => rfl
          | ok s₂ => exact withoutCrls_refreshPrimary hr
        · rfl
      constructor
      · intro hall _ x hx
        have hends := (hkept x).1 (hall x hx)
        rw [Request.signer, ← hid] at hx
        exact (endsWithin_reissue_iff hdated hself hx h).1 hends
      · intro hleft x hx
        have hle := hleft ⟨ca, s₁, hca, h⟩ x hx
        rw [Request.signer, ← hid] at hx
        exact (hkept x).2 ((endsWithin_reissue_iff hdated hself hx h).2 hle)

theorem contained_crossSign_iff {w : Issuance} (hdated : Dated w.db) {caId issuerId : ℤ} {days : Option ℤ}
    {status : ApprovalStatus} {serial : ℤ} : Contained lib w (.request env (.crossSign caId issuerId days status serial)) ↔
      DayLeft lib w (.request env (.crossSign caId issuerId days status serial)) := by
  rw [contained_request]
  have hrefused : (∀ ca issuer s', w.db.cas.get? caId = some ca → capable? issuerId w.db = some issuer →
      crossSignCa lib env ca issuer days status serial w.db ≠ .ok s') →
      DayLeft lib w (.request env (.crossSign caId issuerId days status serial)) := by
    rintro hno ⟨ca, issuer, s', hca, hcap, hok⟩
    exact absurd hok (hno ca issuer s' hca hcap)
  cases hca : w.db.cas.get? caId with
  | none =>
    simp only [handle, withCa, hca]
    refine iff_of_true (fun x _ => endsWithin_refl) (hrefused fun ca issuer s' h => ?_)
    rw [hca] at h
    cases h
  | some ca =>
    simp only [handle, withCa, hca]
    cases hcap : capable? issuerId w.db with
    | none =>
      refine iff_of_true (fun x _ => endsWithin_refl) (hrefused fun ca issuer s' _ h => ?_)
      rw [hcap] at h
      cases h
    | some issuer =>
      obtain ⟨hget, hmem⟩ := mem_of_capable hcap
      simp only
      cases h : crossSignCa lib env ca issuer days status serial w.db with
      | error e =>
        refine iff_of_true (fun x _ => endsWithin_refl) (hrefused fun ca' issuer' s' hca' hcap' => ?_)
        cases hca.symm.trans hca'
        cases hcap.symm.trans hcap'
        rw [h]
        simp
      | ok s' =>
        constructor
        · intro hall _ x hx
          cases hx.symm.trans hget
          exact (endsWithin_crossSign_iff hdated hmem h).1 (hall _ hget)
        · intro hleft x hx
          cases hx.symm.trans hget
          exact (endsWithin_crossSign_iff hdated hmem h).2 (hleft ⟨ca, _, s', hca, hcap, h⟩ _ hget)

/-- a responder is clamped -/
theorem contained_rotateResponder {w : Issuance} (hdated : Dated w.db) {cfg : ResponderConfig} {caId : ℤ} {force : Bool}
    {draw : ResponderDraw} : Contained lib w (.rotateResponder env cfg caId force draw) := by
  intro ca hca t ht
  have hget : w.db.cas.get? caId = some ca := hca
  simp only [IssueOp.issued, Issuance.step, hget] at ht
  cases h : ensureResponder lib env cfg ca (w.responders caId) force draw with
  | error e => simp [h] at ht
  | ok r =>
    cases r with
    | none => simp [h] at ht
    | some cert =>
      have hnew : t = cert.notAfter := by
        simp only [h] at ht
        split_ifs at ht
        · cases ht
        · simpa using ht
      obtain ⟨notAfter, hnotAfter, rfl⟩ := ensureResponder_ok h
      rw [hnew]
      exact clamped_le hdated (Table.mem_of_get? hget) hnotAfter

/-- **(1) One step.** -/
theorem contained_iff {w : Issuance} (hdated : Dated w.db) (o : IssueOp) : Contained lib w o ↔ DayLeft lib w o := by
  cases o with
  | rotateResponder env cfg caId force draw => exact iff_of_true (contained_rotateResponder hdated) trivial
  | request env r =>
    by_cases hcertifies : (∃ caId days status serial, r = .reissue caId days status serial) ∨
        ∃ caId issuerId days status serial, r = .crossSign caId issuerId days status serial
    · rcases hcertifies with ⟨caId, days, status, serial, rfl⟩ | ⟨caId, issuerId, days, status, serial, rfl⟩
      · exact contained_reissue_iff hdated
      · exact contained_crossSign_iff hdated
    · rw [not_or] at hcertifies
      have hr : ∀ caId days status serial, r ≠ .reissue caId days status serial :=
        fun caId days status serial h => hcertifies.1 ⟨caId, days, status, serial, h⟩
      have hc : ∀ caId issuerId days status serial, r ≠ .crossSign caId issuerId days status serial :=
        fun caId issuerId days status serial h => hcertifies.2 ⟨caId, issuerId, days, status, serial, h⟩
      refine iff_of_true (contained_clamped hdated hr hc) fun h => ?_
      cases r with
      | reissue caId days status serial => exact absurd rfl (hr caId days status serial)
      | crossSign caId issuerId days status serial => exact absurd rfl (hc caId issuerId days status serial)
      | _ => exact h.elim

end Step

/-! ## (2) Runs -/

theorem Issuance.step_dated (lib : Lib) {w : Issuance} (h : Dated w.db) (o : IssueOp) : Dated (w.step lib o).db := by
  cases o with
  | request env r =>
    have heffects := @step_effects lib env (fun _ => True) w.db r (fun _ _ => trivial) fun hn => absurd trivial hn
    exact Effects.dated heffects h
  | rotateResponder env cfg caId force draw =>
    simp only [Issuance.step]
    cases w.db.cas.get? caId with
    | none => exact h
    | some ca =>
      simp only
      split
      · exact h
      · exact h

/-- **(2) No certificate outlives its issuer.** In a run of any requests and responder rotations, from any tables whose CA
columns carry the dates of their certificates, every certificate ends no later than the certificate of the CA that signs it
exactly when every accepted re-issue and cross-signing finds the CA that signs it good for one more day. -/
theorem contained_run_iff (lib : Lib) {w₀ : Issuance} (hdated : Dated w₀.db) (ops : List IssueOp) :
    Meets (Issuance.step lib) (Contained lib) w₀ ops ↔ Meets (Issuance.step lib) (DayLeft lib) w₀ ops :=
  @meets_congr _ _ (Issuance.step lib) (fun w => Dated w.db) (Contained lib) (DayLeft lib)
    (fun _ o h => Issuance.step_dated lib h o) (fun _ o h => contained_iff h o) w₀ hdated ops

/-- on the first day, the sub-CA is re-issued for ten years and gets a responder -/
def earlyOps : List IssueOp :=
  [.request (Env.at day) (.reissue 2 (some 3650) .approved 99),
    .rotateResponder (Env.at day) .standard 2 true ⟨"responder".toList, 77, "key".toList⟩]

theorem contained_run_sample : Meets (Issuance.step sampleLib) (Contained sampleLib) ⟨sampleForest, fun _ => none⟩
    earlyOps := by
  refine (contained_run_iff sampleLib sampleForest_dated _).2 ⟨?_, trivial, trivial⟩
  intro _ ca hca
  have hroot : parentOf sampleForest 2 = some sampleRoot := rfl
  cases hroot.symm.trans hca
  decide

/-! ## (3) The last day -/

/-- the sub-CA is re-issued an hour before its parent ends -/
def lastDayOps : List IssueOp := [.request (Env.at (3650 * day - 3600 * second)) (.reissue 2 none .approved 99)]

/-- **(3)** The new certificate of the sub-CA ends 23 hours after that of its parent. -/
theorem last_day_reissue_outlives :
    ¬ Meets (Issuance.step sampleLib) (Contained sampleLib) ⟨sampleForest, fun _ => none⟩ lastDayOps := by
  intro h
  have hroot : parentOf sampleForest 2 = some sampleRoot := rfl
  have hissued : (3650 * day - 3600 * second) + day ∈ issued sampleForest
      (Issuance.step sampleLib ⟨sampleForest, fun _ => none⟩
        (.request (Env.at (3650 * day - 3600 * second)) (.reissue 2 none .approved 99))).db := by decide +kernel
  have hle := h.1 sampleRoot hroot _ hissued
  exact absurd hle (by decide)

end Chancery.Pki
