/-
The final CRL of a revoked CA: a CRL that lasts as long as the certificate of the CA, since no other one follows.

A `World` is the tables with the CAs that are owed a final CRL: those a completed revocation revoked (with a key,
approved and not expired), and a revoked CA for which an approval published a CRL.
(1) `final_crl_kept_iff`: a run keeps every final CRL it owes exactly when its approvals of CAs that are revoked already
give them CRLs that last long enough (`LongEnough`). `approve` and `approve_alternate` do not look at `is_revoked`, and
publish a CRL for CRL_VALIDITY_DAYS like any other.
(2) `approved_final_crl_expires`: a CA is revoked, has its final CRL, and loses it to the approval of a re-issue.
-/
import Mathlib.Tactic
import Chancery.Scenarios.RevocationCascade

namespace Chancery.Pki

open Chancery.Core Relation

/-! ## What is owed -/

structure World where
  db : Db
  /-- the CAs with a final CRL -/
  owed : List ℤ

/-- the cached CRL of this CA lasts as long as its certificate; certificates carry whole seconds -/
def Final (s : Db) (caId : ℤ) : Prop :=
  ∃ ca crl, s.cas.get? caId = some ca ∧ ca.crl = some crl ∧ wholeSeconds ca.certificate.notAfter ≤ crl.nextUpdate

/-- **Kept.** Every final CRL that is owed is there. -/
def Kept (w : World) : Prop := ∀ i ∈ w.owed, Final w.db i

/-- the CAs a revocation revoked that had a key, were approved and had not expired -/
def revokedBy (env : Env) (s s' : Db) : List ℤ :=
  (s.cas.rows.filter fun ca => ca.signingCapable && s'.caRevoked ca.id && !ca.expired env.now).map (·.id)

/-- a CRL of this CA was published -/
def published (s s' : Db) (caId : ℤ) : Bool :=
  (s'.cas.get? caId).map (·.crlNumber) != (s.cas.get? caId).map (·.crlNumber)

/-- what a request makes owed: `res` is what it committed, and whether it completed -/
def newlyOwed (env : Env) (s : Db) (res : Result) : Request → List ℤ
  | .revokeCa _ _ => if res.2.isOk then revokedBy env s res.1 else []
  | .approve caId => if s.caRevoked caId && published s res.1 caId then [caId] else []
  | .approveAlternate caId _ => if s.caRevoked caId && published s res.1 caId then [caId] else []
  | _ => []

def World.step (lib : Lib) (w : World) (o : Env × Request) : World :=
  let res := handle lib w.db o.1 o.2
  ⟨res.1, w.owed ++ newlyOwed o.1 w.db res o.2⟩

/-! ## When an approval gives a CRL that lasts -/

/-- a CRL signed now lasts until `notAfter` -/
def Reaches (env : Env) (notAfter : DateTime) : Prop := wholeSeconds notAfter ≤ wholeSeconds env.crlNextUpdate

/-- can a CRL of this row be signed -/
def signs (env : Env) (ca : CaRow) (s : Db) : Bool := (generateCrl env ca none s).toOption.isSome

/-- `approve` on a row -/
def approved (ca : CaRow) : CaRow := { ca with approvalStatus := .approved }

/-- **Long enough.** The approval of a CA that is revoked already, or of a pending re-issue of one, publishes no CRL that
ends before the certificate the CA then has; and where it publishes none, the one published earlier does not end before
it. -/
def LongEnough (w : World) : Env × Request → Prop
  | (env, .approve caId) =>
    ∀ ca, w.db.cas.get? caId = some ca → ca.isRevoked = true → ca.approvalStatus = .pending → env.checks = .ok () →
      signs env (approved ca) w.db = true → Reaches env ca.certificate.notAfter
  | (env, .approveAlternate caId altId) =>
    ∀ ca row, w.db.cas.get? caId = some ca → ca.isRevoked = true → w.db.alternates.get? altId = some row →
      row.caId = caId → row.approvalStatus = .pending → row.kind = .reissue → env.checks = .ok () →
      if signs env (promoted row ca) w.db then Reaches env row.certificate.notAfter
      else caId ∈ w.owed → ∃ crl, ca.crl = some crl ∧ wholeSeconds row.certificate.notAfter ≤ crl.nextUpdate
  | _ => True

section Kept

variable {lib : Lib} {env : Env} {allow : Liberty → Prop} {s s' : Db} {ca : CaRow} {w : World} {i : ℤ}

/-! ## Writes -/

/-- a revoked CA with this id -/
def RevokedCa (s : Db) (caId : ℤ) : Prop := ∃ ca, s.cas.get? caId = some ca ∧ ca.isRevoked = true

/-- **Dated.** The dates of a CA are those of its certificate. -/
def Dated (s : Db) : Prop := ∀ ca ∈ s.cas, wholeSeconds ca.certificate.notAfter = wholeSeconds ca.notAfter

theorem Dated.updateCa (h : Dated s) {f : CaRow → CaRow} {hf : ∀ a, (f a).id = a.id}
    (hdates : ∀ a, wholeSeconds a.certificate.notAfter = wholeSeconds a.notAfter →
      wholeSeconds (f a).certificate.notAfter = wholeSeconds (f a).notAfter) : Dated (s.updateCa i f hf) := by
  intro b hb
  obtain ⟨a, ha, rfl⟩ := mem_updateCa.1 hb
  split_ifs
  · exact hdates a (h a ha)
  · exact h a ha

theorem Dated.revokeAll (h : Dated s) {now : DateTime} {reason : String} {l : List ℤ} :
    Dated (revokeAll now reason s l) := by
  intro b hb
  have hget := mem_cas_iff.1 hb
  rw [get?_revokeAll] at hget
  split_ifs at hget
  · obtain ⟨a, ha, rfl⟩ := Option.map_eq_some_iff.1 hget
    exact h a (Table.mem_of_get? ha)
  · exact h b (Table.mem_of_get? hget)

theorem Effect.dated (h : Effect env allow s s') (hs : Dated s) : Dated s' := by
  cases h with
  | insertCa n hparent hcert =>
    intro ca hca
    rcases mem_insertCa.1 hca with hca | rfl
    · exact hs ca hca
    · exact hcert.dates
  | setApproval status hca hpending => exact hs.updateCa fun _ => id
  | setAcme enable hca => exact hs.updateCa fun _ => id
  | @promote ca row hca _ _ _ hrevoked =>
    have hcas : Dated (s.updateCa ca.id (promoted row)) := hs.updateCa fun _ _ => rfl
    exact hcas
  | insertAlternate n _ hrevoked => exact hs
  | approveAlternate altId => exact hs
  | deleteAlternate altId => exact hs
  | csrs t => exact hs
  | insertLeaf form issued escrowed renewedFrom notAfter hca hlive => exact hs
  | revokeLeaf reason hc hrev => exact hs
  | sweep reason hl hallow => exact hs.revokeAll
  | publish hca hsign hcrl hfinal => exact hs.updateCa fun _ => id

theorem Effects.dated (h : Effects env allow s s') (hs : Dated s) : Dated s' := by
  induction h with
  | refl => exact hs
  | tail _ heffect ih => exact heffect.dated ih

/-- a write of one CA -/
theorem RevokedCa.updateCa (h : RevokedCa s i) {caId : ℤ} {f : CaRow → CaRow} {hf : ∀ a, (f a).id = a.id}
    (hrevoked : ∀ a, (f a).isRevoked = a.isRevoked) : RevokedCa (s.updateCa caId f hf) i := by
  obtain ⟨ca, hca, hrev⟩ := h
  by_cases hi : i = caId
  · subst hi
    exact ⟨f ca, get?_updateCa_self hca, (hrevoked ca).trans hrev⟩
  · exact ⟨ca, by rwa [get?_updateCa_of_ne hi], hrev⟩

/-- a revoked CA stays revoked -/
theorem Effect.revokedCa (h : Effect env allow s s') (hs : RevokedCa s i) : RevokedCa s' i := by
  cases h with
  | insertCa n hparent hcert =>
    obtain ⟨ca, hca, hrev⟩ := hs
    exact ⟨ca, get?_insertCa_of_some hca, hrev⟩
  | setApproval status hca hpending => exact hs.updateCa fun _ => rfl
  | setAcme enable hca => exact hs.updateCa fun _ => rfl
  | @promote ca row hca _ _ _ hrevoked =>
    have hcas : RevokedCa (s.updateCa ca.id (promoted row)) i := hs.updateCa fun _ => rfl
    exact hcas
  | insertAlternate n _ hrevoked => exact hs
  | approveAlternate altId => exact hs
  | deleteAlternate altId => exact hs
  | csrs t => exact hs
  | insertLeaf form issued escrowed renewedFrom notAfter hca hlive => exact hs
  | revokeLeaf reason hc hrev => exact hs
  | @sweep caId l reason hl hallow =>
    obtain ⟨ca, hca, hrev⟩ := hs
    by_cases hi : i ∈ l
    · exact ⟨revokeCaRow env.now reason ca, by rw [get?_revokeAll, if_pos hi, hca]; rfl, rfl⟩
    · exact ⟨ca, by rwa [get?_revokeAll, if_neg hi], hrev⟩
  | publish hca hsign hcrl hfinal => exact hs.updateCa fun _ => rfl

/-- a write that leaves the certificate and the CRL -/
theorem Final.updateCa (h : Final s i) {caId : ℤ} {f : CaRow → CaRow} {hf : ∀ a, (f a).id = a.id}
    (hcert : ∀ a, (f a).certificate = a.certificate) (hcrl : ∀ a, (f a).crl = a.crl) : Final (s.updateCa caId f hf) i := by
  obtain ⟨ca, crl, hca, hcached, hlong⟩ := h
  by_cases hi : i = caId
  · subst hi
    exact ⟨f ca, crl, get?_updateCa_self hca, (hcrl ca).trans hcached, by rwa [hcert ca]⟩
  · exact ⟨ca, crl, by rwa [get?_updateCa_of_ne hi], hcached, hlong⟩

/-- a write of another CA -/
theorem Final.updateCa_of_ne (h : Final s i) {caId : ℤ} {f : CaRow → CaRow} {hf : ∀ a, (f a).id = a.id} (hi : i ≠ caId) :
    Final (s.updateCa caId f hf) i := by
  obtain ⟨ca, crl, hca, hrest⟩ := h
  exact ⟨ca, crl, by rwa [get?_updateCa_of_ne hi], hrest⟩

/-- **Step.** A write that gives no revoked CA a short CRL or another certificate keeps the final CRLs. -/
theorem Effect.final (h : Effect env allow s s') (hshort : ¬ allow .shortCrl) (hpromote : ¬ allow .promoteRevoked)
    (hdated : Dated s) (hrev : RevokedCa s i) (hs : Final s i) : Final s' i := by
  obtain ⟨a, ha, hrevoked⟩ := hrev
  cases h with
  | insertCa n hparent hcert =>
    obtain ⟨ca, crl, hca, hrest⟩ := hs
    exact ⟨ca, crl, get?_insertCa_of_some hca, hrest⟩
  | setApproval status hca hpending => exact hs.updateCa (fun _ => rfl) fun _ => rfl
  | setAcme enable hca => exact hs.updateCa (fun _ => rfl) fun _ => rfl
  | @promote ca row hca _ _ _ hlive =>
    have hne : i ≠ ca.id := by
      rintro rfl
      cases hca.symm.trans ha
      exact hpromote (hlive hrevoked)
    have hcas : Final (s.updateCa ca.id (promoted row)) i := hs.updateCa_of_ne hne
    exact hcas
  | insertAlternate n _ hlink => exact hs
  | approveAlternate altId => exact hs
  | deleteAlternate altId => exact hs
  | csrs t => exact hs
  | insertLeaf form issued escrowed renewedFrom notAfter hca hlive => exact hs
  | revokeLeaf reason hc hlive => exact hs
  | @sweep caId l reason hl hallow =>
    obtain ⟨ca, crl, hca, hrest⟩ := hs
    by_cases hi : i ∈ l
    · exact ⟨revokeCaRow env.now reason ca, crl, by rw [get?_revokeAll, if_pos hi, hca]; rfl, hrest⟩
    · exact ⟨ca, crl, by rwa [get?_revokeAll, if_neg hi], hrest⟩
  | @publish ca nextUpdate crl hca hsign hcrl hfinal =>
    by_cases hi : i = ca.id
    · subst hi
      cases hca.symm.trans ha
      obtain ⟨_, hnext, _⟩ := buildCrl_ok hcrl
      rcases hfinal hrevoked with hend | hallow
      · refine ⟨cacheCrl crl a, crl, get?_updateCa_self hca, rfl, ?_⟩
        rw [hnext, hend]
        exact (hdated a (Table.mem_of_get? hca)).le
      · exact absurd hallow hshort
    · exact hs.updateCa_of_ne hi

theorem Effects.final (h : Effects env allow s s') (hshort : ¬ allow .shortCrl) (hpromote : ¬ allow .promoteRevoked)
    (hdated : Dated s) (hrev : RevokedCa s i) (hs : Final s i) : RevokedCa s' i ∧ Final s' i := by
  induction h with
  | refl => exact ⟨hrev, hs⟩
  | tail hbefore heffect ih =>
    exact ⟨heffect.revokedCa ih.1, heffect.final hshort hpromote (Effects.dated hbefore hdated) ih.1 ih.2⟩

/-! ## A revocation -/

/-- the other columns -/
theorem columns_of_clearCrl {a b : CaRow} (h : clearCrl b = clearCrl a) :
    b.isRevoked = a.isRevoked ∧ b.cannotSign = a.cannotSign ∧ b.notAfter = a.notAfter := by
  have hrevoked : (clearCrl b).isRevoked = (clearCrl a).isRevoked := by rw [h]
  have hsign : (clearCrl b).cannotSign = (clearCrl a).cannotSign := by rw [h]
  have hend : (clearCrl b).notAfter = (clearCrl a).notAfter := by rw [h]
  exact ⟨hrevoked, hsign, hend⟩

theorem Dated.of_withoutCrls (hs : Dated s) (h : s'.withoutCrls = s.withoutCrls) : Dated s' := by
  intro b hb
  obtain ⟨a, ha, hclear⟩ := get?_of_withoutCrls h.symm (Table.get?_key hb)
  have hcert : (clearCrl a).certificate = (clearCrl b).certificate := by rw [hclear]
  have hend : (clearCrl a).notAfter = (clearCrl b).notAfter := by rw [hclear]
  have hdates := hs a (Table.mem_of_get? ha)
  change a.certificate = b.certificate at hcert
  change a.notAfter = b.notAfter at hend
  rwa [← hcert, ← hend]

theorem publishFinalCrl_final (hdated : Dated s) (hca : s.cas.get? i = some ca) (hsign : ca.cannotSign = false)
    (hexpired : ca.expired env.now = false) (h : publishFinalCrl env (s.cas.get? i) s = .ok s') : Final s' i := by
  rw [hca, publishFinalCrl, if_neg (by simp [hsign]), if_neg (by simp [hexpired])] at h
  obtain ⟨_, crl, hcrl, rfl⟩ := generateCrl_ok h
  obtain ⟨_, hnext, _⟩ := buildCrl_ok hcrl
  have hid := Table.key_of_get? hca
  rw [← hid] at hca ⊢
  refine ⟨cacheCrl crl ca, crl, get?_updateCa_self hca, rfl, ?_⟩
  rw [hnext]
  exact (hdated ca (Table.mem_of_get? hca)).le

/-- **Every CA of the list gets its final CRL**, when the publication gets to the end. -/
theorem publishFinalCrls_final {ids : List ℤ} (hdated : Dated s) (hca : s.cas.get? i = some ca) (hrev : ca.isRevoked = true)
    (hsign : ca.cannotSign = false) (hexpired : ca.expired env.now = false) (hi : i ∈ ids)
    (h : (publishFinalCrls env ids s).2 = .ok ()) : Final (publishFinalCrls env ids s).1 i := by
  induction ids generalizing s ca with
  | nil => cases hi
  | cons j ids ih =>
    rw [publishFinalCrls] at h ⊢
    cases hone : publishFinalCrl env (s.cas.get? j) s with
    | error e =>
      rw [hone] at h
      cases h
    | ok s1 =>
      rw [hone] at h
      have hone' : Effects env (fun _ => False) s s1 := effects_publishFinalCrl hone
      obtain ⟨b, hb, hclear⟩ := get?_of_withoutCrls (withoutCrls_publishFinalCrl hone) hca
      obtain ⟨hbrev, hbsign, hend⟩ := columns_of_clearCrl hclear
      rw [hrev] at hbrev
      by_cases hij : i = j
      · subst hij
        have hfinal : Final s1 i := publishFinalCrl_final hdated hca hsign hexpired hone
        have hrest : Effects env (fun _ => False) s1 (publishFinalCrls env ids s1).1 := effects_publishFinalCrls ids
        exact (Effects.final hrest id id (Effects.dated hone' hdated) ⟨b, hb, hbrev⟩ hfinal).2
      · refine ih (Effects.dated hone' hdated) hb hbrev ?_ ?_ ((List.mem_cons.1 hi).resolve_left hij) h
        · rw [hbsign, hsign]
        · rw [← hexpired, CaRow.expired, CaRow.expired, hend]

theorem mem_revokedBy : i ∈ revokedBy env s s' ↔
    ∃ ca, s.cas.get? i = some ca ∧ ca.signingCapable = true ∧ s'.caRevoked i = true ∧ ca.expired env.now = false := by
  simp only [revokedBy, List.mem_map, List.mem_filter, Bool.and_eq_true, Bool.not_eq_true']
  constructor
  · rintro ⟨ca, ⟨hca, ⟨hsign, hrev⟩, hexpired⟩, rfl⟩
    exact ⟨ca, Table.get?_key hca, hsign, hrev, hexpired⟩
  · rintro ⟨ca, hca, hsign, hrev, hexpired⟩
    have hid := Table.key_of_get? hca
    exact ⟨ca, ⟨Table.mem_of_get? hca, ⟨hsign, by rwa [hid]⟩, hexpired⟩, hid⟩

/-- what a revocation reaches is listed as its revoked subtree -/
theorem mem_revokedSubtree {now : DateTime} {reason : String} {caId : ℤ} {l ids : List ℤ} (hl : SweptCas s caId l)
    (hclear : s'.withoutCrls = (revokeAll now reason s l).withoutCrls) (hids : revokedSubtree s' caId = some ids)
    (hi : i ∈ l) : i ∈ ids := by
  have hchildren : s'.children = s.children := by
    rw [← children_withoutCrls, hclear, children_withoutCrls, children_revokeAll]
  have hrevoked : ∀ j ∈ l, s'.caRevoked j = true := by
    intro j hj
    rw [← caRevoked_withoutCrls, hclear, caRevoked_withoutCrls, Db.caRevoked, get?_revokeAll, if_pos hj]
    cases s.cas.get? j <;> rfl
  obtain ⟨k, hk, _, hwalk⟩ := hl.reached i hi
  rw [List.mem_singleton.1 hk] at hwalk
  rw [mem_collect hids]
  refine hwalk.lift id fun a b hinto => ?_
  rw [hchildren]
  exact ⟨hinto.1, hrevoked b hinto.2⟩

/-- **A completed revocation** leaves every CA it revoked with its final CRL. -/
theorem revokeCaRequest_final {caId : ℤ} {reason : String} (hdated : Dated s)
    (hdone : (revokeCaRequest env caId reason s).2 = .ok ())
    (hi : i ∈ revokedBy env s (revokeCaRequest env caId reason s).1) :
    RevokedCa (revokeCaRequest env caId reason s).1 i ∧ Final (revokeCaRequest env caId reason s).1 i := by
  obtain ⟨ca, hca, hcapable, hrevoked, hexpired⟩ := mem_revokedBy.1 hi
  unfold revokeCaRequest at hdone hrevoked ⊢
  cases hx : env.checks >>= fun _ => sweepCa env.now caId reason s with
  | error e =>
    rw [hx] at hdone
    cases hdone
  | ok x =>
    rw [hx] at hdone hrevoked
    obtain ⟨_, _, hrevoke⟩ := bind_eq_ok.1 hx
    obtain ⟨_, l, hdb, hl⟩ := sweepCa_ok hrevoke
    have hcapable' := hcapable
    simp only [CaRow.signingCapable, Bool.and_eq_true, Bool.not_eq_true', beq_iff_eq] at hcapable'
    obtain ⟨⟨hlive, happroved⟩, hkey⟩ := hcapable'
    simp only [publishRevocationCrls] at hdone hrevoked ⊢
    cases hr : refreshCrl env (((x.db.cas.get? caId).bind (·.parentId)).bind x.db.cas.get?) x.db with
    | error e =>
      rw [hr] at hdone
      cases hdone
    | ok s1 =>
      rw [hr] at hdone hrevoked
      simp only at hdone hrevoked ⊢
      have hclear : s1.withoutCrls = (revokeAll env.now reason s l).withoutCrls := by
        rw [withoutCrls_refreshCrl hr, hdb]
      cases hids : revokedSubtree s1 caId with
      | none =>
        rw [hids] at hdone
        cases hdone
      | some ids =>
        rw [hids] at hdone hrevoked
        simp only at hdone hrevoked ⊢
        -- the CA was not revoked before, so the sweep revoked it
        have hin : i ∈ l := by
          by_contra hout
          rw [← caRevoked_withoutCrls, withoutCrls_publishFinalCrls, hclear, caRevoked_withoutCrls, Db.caRevoked,
            get?_revokeAll, if_neg hout, hca] at hrevoked
          simp [hlive] at hrevoked
        have hswept : (revokeAll env.now reason s l).cas.get? i = some (revokeCaRow env.now reason ca) := by
          rw [get?_revokeAll, if_pos hin, hca]
          rfl
        obtain ⟨b, hb, hcols⟩ := get?_of_withoutCrls hclear hswept
        obtain ⟨hbrev, hbsign, hend⟩ := columns_of_clearCrl hcols
        have hfinal : Final (publishFinalCrls env ids s1).1 i := by
          refine publishFinalCrls_final (hdated.revokeAll.of_withoutCrls hclear) hb hbrev ?_ ?_
            (mem_revokedSubtree hl hclear hids hin) hdone
          · rw [hbsign]
            simp [CaRow.cannotSign, revokeCaRow, hkey, happroved]
          · rw [← hexpired, CaRow.expired, CaRow.expired, hend]
            rfl
        obtain ⟨c, hc, hcolc⟩ := get?_of_withoutCrls (withoutCrls_publishFinalCrls ids) hb
        exact ⟨⟨c, hc, (columns_of_clearCrl hcolc).1.trans hbrev⟩, hfinal⟩

/-! ## An approval -/

theorem publishInitialCrl_eq (hca : s.cas.get? i = some ca) :
    publishInitialCrl env i s = (generateCrl env ca none s).toOption.getD s := by
  unfold publishInitialCrl
  simp only [hca]
  split_ifs with hsign
  · have hrefused : ¬ crlAllowed ca = .ok () := by simp [crlAllowed_iff, hsign]
    cases hgen : generateCrl env ca none s with
    | error e => rfl
    | ok s' => exact absurd (generateCrl_ok hgen).1 hrefused
  · rfl

theorem refreshPrimary_eq (hca : s.cas.get? i = some ca) :
    (Result.of s (refreshPrimary env i s)).1 = (generateCrl env ca none s).toOption.getD s := by
  have hrefused : ca.cannotSign = true → (generateCrl env ca none s).toOption.getD s = s := by
    intro hsign
    cases hgen : generateCrl env ca none s with
    | error e => rfl
    | ok s' =>
      have hallowed := crlAllowed_iff.1 (generateCrl_ok hgen).1
      rw [hsign] at hallowed
      cases hallowed
  unfold refreshPrimary refreshCrl
  simp only [hca]
  split_ifs with hstatus hsign
  · refine (hrefused ?_).symm
    cases hstatus' : ca.approvalStatus <;> simp_all [CaRow.cannotSign]
  · exact (hrefused hsign).symm
  · cases generateCrl env ca none s <;> rfl

theorem final_of_get? (hca : s.cas.get? i = some ca) :
    Final s i ↔ ∃ crl, ca.crl = some crl ∧ wholeSeconds ca.certificate.notAfter ≤ crl.nextUpdate := by
  constructor
  · rintro ⟨a, crl, ha, hrest⟩
    cases hca.symm.trans ha
    exact ⟨crl, hrest⟩
  · rintro ⟨crl, hrest⟩
    exact ⟨ca, crl, hca, hrest⟩

theorem final_congr (h : s'.cas.get? i = s.cas.get? i) : Final s' i ↔ Final s i := by
  unfold Final
  rw [h]

theorem signs_congr (h : revokedRows s' ca.id = revokedRows s ca.id) : signs env ca s' = signs env ca s := by
  unfold signs generateCrl
  rw [buildCrl_congr h]
  cases crlAllowed ca with
  | error e => rfl
  | ok u =>
    cases buildCrl env.now (Option.getD none env.crlNextUpdate) ca s with
    | error e => rfl
    | ok crl => cases env.signCrl ca.id <;> rfl

/-- a CA is not on its own CRL: a write of its row changes nothing there -/
theorem revokedRows_updateCa (hforest : Forest s) {f : CaRow → CaRow} {hf : ∀ a, (f a).id = a.id}
    (hparent : ∀ a, (f a).parentId = a.parentId) (hrevoked : ∀ a, (f a).isRevoked = a.isRevoked) :
    revokedRows (s.updateCa i f hf) i = revokedRows s i := by
  let g : CaRow → CaRow := fun a => if a.id = i then f a else a
  let listed : CaRow → Bool := fun sub => sub.parentId == some i && sub.isRevoked
  let entry : CaRow → RevokedRow := fun sub => (sub.serialNumber, sub.revokedAt, sub.revocationReason)
  have hlisted : ∀ a ∈ s.cas.rows, (listed ∘ g) a = listed a := by
    intro a _
    simp only [listed, g, Function.comp_apply]
    split_ifs
    · rw [hparent, hrevoked]
    · rfl
  have hentry : ∀ a ∈ s.cas.rows.filter listed, (entry ∘ g) a = entry a := by
    intro a ha
    obtain ⟨hmem, hsub⟩ := List.mem_filter.1 ha
    have hne : a.id ≠ i := by
      intro heq
      obtain ⟨depth, hdepth⟩ := hforest.depth
      have hself : a.parentId = some i := by
        simp only [listed, Bool.and_eq_true, beq_iff_eq] at hsub
        exact hsub.1
      have hlt := hdepth a hmem i hself
      rw [heq] at hlt
      omega
    simp only [Function.comp_apply, g, if_neg hne]
  have hcas : ((s.cas.rows.map g).filter listed).map entry = (s.cas.rows.filter listed).map entry := by
    rw [List.filter_map, List.map_map, List.filter_congr hlisted]
    exact List.map_congr_left hentry
  exact congrArg (_ ++ ·) hcas

/-- **The CRL an approval publishes:** what it means for the CAs that are owed one. -/
theorem kept_tryPublish {s₁ : Db} {a : CaRow} (owed : List ℤ) (hold : s.cas.get? i = some ca)
    (hnew : s₁.cas.get? i = some a)
    (hnumber : a.crlNumber = ca.crlNumber) (hothers : ∀ j, j ≠ i → s₁.cas.get? j = s.cas.get? j)
    (hrows : revokedRows s₁ i = revokedRows s i) (hs' : s' = (generateCrl env a none s₁).toOption.getD s₁) :
    Kept ⟨s', owed ++ if published s s' i then [i] else []⟩ ↔
      (∀ j ∈ owed, j ≠ i → Final s j) ∧
        if signs env a s then Reaches env a.certificate.notAfter
        else i ∈ owed → ∃ crl, a.crl = some crl ∧ wholeSeconds a.certificate.notAfter ≤ crl.nextUpdate := by
  have hid : a.id = i := Table.key_of_get? hnew
  rw [← hid] at hrows
  rw [← signs_congr hrows, signs]
  cases hgen : generateCrl env a none s₁ with
  | error e =>
    have hsame : s' = s₁ := by rw [hs', hgen]; rfl
    subst hsame
    have hquiet : published s s' i = false := by simp [published, hold, hnew, hnumber]
    simp only [hquiet, Bool.false_eq_true, if_false, List.append_nil, Except.toOption, Option.isSome_none, Kept]
    rw [← final_of_get? hnew]
    constructor
    · intro h
      exact ⟨fun j hj hne => (final_congr (hothers j hne)).1 (h j hj), h i⟩
    · intro h j hj
      by_cases hji : j = i
      · subst hji
        exact h.2 hj
      · exact (final_congr (hothers j hji)).2 (h.1 j hj hji)
  | ok s₂ =>
    have hsame : s' = s₂ := by rw [hs', hgen]; rfl
    subst hsame
    obtain ⟨_, crl, hcrl, rfl⟩ := generateCrl_ok hgen
    obtain ⟨hnext, hend, _⟩ := buildCrl_ok hcrl
    rw [← hid] at hnew
    have hrow : (s₁.updateCa a.id (cacheCrl crl) cacheCrl_id).cas.get? i = some (cacheCrl crl a) := by
      rw [← hid]
      exact get?_updateCa_self hnew
    have hpublished : published s (s₁.updateCa a.id (cacheCrl crl) cacheCrl_id) i = true := by
      simp [published, hold, hrow, cacheCrl, hnext, hnumber]
    have hself : Final (s₁.updateCa a.id (cacheCrl crl) cacheCrl_id) i ↔ Reaches env a.certificate.notAfter := by
      rw [final_of_get? hrow, Reaches]
      constructor
      · rintro ⟨_, ⟨⟩, hlong⟩
        rwa [hend] at hlong
      · intro hlong
        exact ⟨crl, rfl, by rwa [hend]⟩
    have hother : ∀ j, j ≠ i → (Final (s₁.updateCa a.id (cacheCrl crl) cacheCrl_id) j ↔ Final s j) := by
      intro j hne
      refine final_congr ?_
      rw [get?_updateCa_of_ne (by rwa [hid]), hothers j hne]
    simp only [Except.toOption, hpublished, if_true, Option.isSome_some, Kept]
    rw [← hself]
    constructor
    · intro h
      exact ⟨fun j hj hne => (hother j hne).1 (h j (by simp [hj])), h i (by simp)⟩
    · intro h j hj
      by_cases hji : j = i
      · subst hji
        exact h.2
      · have hmem : j ∈ owed := by simpa [hji] using hj
        exact (hother j hji).2 (h.1 j hmem hji)

/-! ## One request -/

structure Inv (w : World) : Prop where
  tidy : Tidy w.db
  dated : Dated w.db
  revoked : ∀ i ∈ w.owed, RevokedCa w.db i
  kept : Kept w

theorem published_self : published s s i = false := by simp [published]

/-- only a completed revocation makes final CRLs owed -/
theorem newlyOwed_revokeCa {caId : ℤ} {reason : String} {res : Result}
    (hi : i ∈ newlyOwed env s res (.revokeCa caId reason)) : res.2 = .ok () ∧ i ∈ revokedBy env s res.1 := by
  obtain ⟨s', r⟩ := res
  cases r with
  | error e => cases hi
  | ok u => exact ⟨rfl, hi⟩

/-- a request that does not approve a revoked CA -/
theorem kept_of_quiet (h : Inv w) {r : Request}
    (hquiet : ∀ l, r.liberties w.db l = true → l ≠ .shortCrl ∧ l ≠ .promoteRevoked) : Kept (w.step lib (env, r)) := by
  have heffects : Effects env (fun l => l ≠ .shortCrl ∧ l ≠ .promoteRevoked) w.db (handle lib w.db env r).1 :=
    step_effects hquiet fun _ => h.tidy
  intro i hi
  rcases List.mem_append.1 hi with hold | hnew
  · exact (Effects.final heffects (fun hl => hl.1 rfl) (fun hl => hl.2 rfl) h.dated (h.revoked i hold) (h.kept i hold)).2
  cases r with
  | revokeCa caId reason =>
    obtain ⟨hdone, hby⟩ := newlyOwed_revokeCa hnew
    exact (revokeCaRequest_final h.dated hdone hby).2
  | approve caId =>
    have hlive : w.db.caRevoked caId = false := by
      by_contra hrev
      exact (hquiet .shortCrl (by simpa [Request.liberties] using hrev)).1 rfl
    simp [newlyOwed, hlive] at hnew
  | approveAlternate caId altId =>
    have hlive : w.db.caRevoked caId = false := by
      by_contra hrev
      exact (hquiet .shortCrl (by simpa [Request.liberties] using hrev)).1 rfl
    simp [newlyOwed, hlive] at hnew
  | _ => cases hnew

/-- a request that is refused -/
theorem kept_of_refused (h : Inv w) {r : Request} {e : PyError} (hr : handle lib w.db env r = (w.db, .error e)) :
    Kept (w.step lib (env, r)) := by
  have hnew : newlyOwed env w.db (w.db, .error e) r = [] := by
    cases r with
    | revokeCa caId reason => rfl
    | approve caId => simp [newlyOwed, published_self]
    | approveAlternate caId altId => simp [newlyOwed, published_self]
    | _ => rfl
  unfold World.step
  simp only [hr, hnew, List.append_nil]
  exact h.kept

/-- the approval of a revoked CA -/
theorem kept_approve (h : Inv w) {caId : ℤ} (hca : w.db.cas.get? caId = some ca) (hrev : ca.isRevoked = true) :
    Kept (w.step lib (env, .approve caId)) ↔ LongEnough w (env, .approve caId) := by
  have hhandle : handle lib w.db env (.approve caId) = approveCa env ca w.db := by
    unfold handle withCa
    simp only [hca]
  have hid : ca.id = caId := Table.key_of_get? hca
  by_cases hpending : ca.approvalStatus = .pending
  swap
  · refine iff_of_true (kept_of_refused h (hhandle.trans (by rw [approveCa, if_pos hpending]))) ?_
    intro a ha _ hp
    cases hca.symm.trans ha
    exact absurd hp hpending
  cases hchecks : env.checks with
  | error e =>
    have hrefused : approveCa env ca w.db = (w.db, .error e) := by
      rw [approveCa, if_neg (not_not.2 hpending), hchecks]
    refine iff_of_true (kept_of_refused h (hhandle.trans hrefused)) ?_
    intro _ _ _ _ hc
    rw [hchecks] at hc
    cases hc
  | ok u =>
    have hnew : (w.db.updateCa caId approved).cas.get? caId = some (approved ca) := get?_updateCa_self hca
    have hdone : (approveCa env ca w.db).1 =
        (generateCrl env (approved ca) none (w.db.updateCa caId approved)).toOption.getD (w.db.updateCa caId approved) := by
      rw [approveCa, if_neg (not_not.2 hpending), hchecks, hid, ← publishInitialCrl_eq hnew]
      rfl
    have hrows : revokedRows (w.db.updateCa caId approved) caId = revokedRows w.db caId :=
      revokedRows_updateCa h.tidy.forest (fun _ => rfl) fun _ => rfl
    have hstep : w.step lib (env, .approve caId) = ⟨(approveCa env ca w.db).1, w.owed ++
        if published w.db (approveCa env ca w.db).1 caId then [caId] else []⟩ := by
      unfold World.step
      simp only [hhandle, newlyOwed, caRevoked_of_get? hca, hrev, Bool.true_and]
    rw [hstep, kept_tryPublish w.owed hca hnew rfl (fun j hne => get?_updateCa_of_ne hne) hrows hdone]
    constructor
    · intro ⟨_, hlong⟩ a ha _ _ _ hsigns
      cases hca.symm.trans ha
      rwa [if_pos hsigns] at hlong
    · intro hlong
      refine ⟨fun j hj _ => h.kept j hj, ?_⟩
      split_ifs with hsigns
      · exact hlong ca hca hrev hpending hchecks hsigns
      · exact fun hi => (final_of_get? hca).1 (h.kept caId hi)

/-- the approval of an alternate of a revoked CA -/
theorem kept_approveAlternate (h : Inv w) {caId altId : ℤ} (hca : w.db.cas.get? caId = some ca)
    (hrev : ca.isRevoked = true) :
    Kept (w.step lib (env, .approveAlternate caId altId)) ↔ LongEnough w (env, .approveAlternate caId altId) := by
  have hid : ca.id = caId := Table.key_of_get? hca
  cases hrow : w.db.alternates.get? altId with
  | none =>
    have hrefused : handle lib w.db env (.approveAlternate caId altId) =
        (w.db, .error (.other "Alternate certificate not found.")) := by
      unfold handle withCa withAlternate
      simp only [hca, hrow]
    refine iff_of_true (kept_of_refused h hrefused) ?_
    intro _ _ _ _ hrow'
    rw [hrow] at hrow'
    cases hrow'
  | some row =>
    have hhandle : handle lib w.db env (.approveAlternate caId altId) =
        if row.caId ≠ ca.id then (w.db, .error (.other "Alternate certificate not found."))
        else afterCommit w.db (env.checks >>= fun _ => Pki.approveAlternate ca row w.db) fun s' =>
          if row.kind = .reissue then refreshPrimary env caId s' else .ok s' := by
      unfold handle withCa withAlternate
      simp only [hca, hrow]
    by_cases howner : row.caId = ca.id
    swap
    · refine iff_of_true (kept_of_refused h (hhandle.trans (if_pos howner))) ?_
      intro a row' ha _ hrow' hcaId
      cases hrow.symm.trans hrow'
      exact absurd (hcaId.trans hid.symm) howner
    rw [if_neg (not_not.2 howner)] at hhandle
    cases hchecks : env.checks with
    | error e =>
      have hrefused : handle lib w.db env (.approveAlternate caId altId) = (w.db, .error e) := by
        rw [hhandle, hchecks]
        rfl
      refine iff_of_true (kept_of_refused h hrefused) ?_
      intro _ _ _ _ _ _ _ _ hc
      rw [hchecks] at hc
      cases hc
    | ok u =>
      rw [hchecks] at hhandle
      change _ = afterCommit w.db (Pki.approveAlternate ca row w.db) _ at hhandle
      by_cases hpending : row.approvalStatus = .pending
      swap
      · rw [Pki.approveAlternate, if_pos hpending] at hhandle
        refine iff_of_true (kept_of_refused h hhandle) ?_
        intro a row' ha _ hrow' _ hp
        cases hrow.symm.trans hrow'
        exact absurd hp hpending
      rw [Pki.approveAlternate, if_neg (not_not.2 hpending)] at hhandle
      have hstep : w.step lib (env, .approveAlternate caId altId) =
          ⟨(handle lib w.db env (.approveAlternate caId altId)).1, w.owed ++
            if published w.db (handle lib w.db env (.approveAlternate caId altId)).1 caId then [caId] else []⟩ := by
        unfold World.step
        simp only [newlyOwed, caRevoked_of_get? hca, hrev, Bool.true_and]
      by_cases hkind : row.kind = .reissue
      · rw [if_pos hkind] at hhandle
        have hnew : (promoteReissue ca row w.db).cas.get? caId = some (promoted row ca) := by
          have hself := @get?_promoteReissue w.db ca row (by rwa [hid])
          rwa [hid] at hself
        have hdone : (handle lib w.db env (.approveAlternate caId altId)).1 =
            (generateCrl env (promoted row ca) none (promoteReissue ca row w.db)).toOption.getD
              (promoteReissue ca row w.db) := by
          rw [hhandle, afterCommit, if_pos hkind]
          exact refreshPrimary_eq hnew
        have hothers : ∀ j, j ≠ caId → (promoteReissue ca row w.db).cas.get? j = w.db.cas.get? j := fun j hne =>
          @get?_updateCa_of_ne w.db ca.id j (promoted row) (fun _ => rfl) (by rwa [hid])
        have hrows : revokedRows (promoteReissue ca row w.db) caId = revokedRows w.db caId := by
          rw [← hid]
          exact @revokedRows_updateCa w.db ca.id h.tidy.forest (promoted row) (fun _ => rfl) (fun _ => rfl) fun _ => rfl
        rw [hstep, kept_tryPublish w.owed hca hnew rfl hothers hrows hdone]
        constructor
        · intro ⟨_, hlong⟩ a row' ha _ hrow' _ _ _ _
          cases hca.symm.trans ha
          cases hrow.symm.trans hrow'
          exact hlong
        · intro hlong
          exact ⟨fun j hj _ => h.kept j hj, hlong ca row hca hrev hrow (howner.trans hid) hpending hkind hchecks⟩
      · rw [if_neg hkind] at hhandle
        have hquiet : published w.db (handle lib w.db env (.approveAlternate caId altId)).1 caId = false := by
          rw [hhandle, afterCommit, if_neg hkind]
          exact published_self
        refine iff_of_true ?_ ?_
        · rw [hstep, hquiet, if_neg Bool.false_ne_true, List.append_nil]
          intro j hj
          rw [hhandle, afterCommit, if_neg hkind]
          exact h.kept j hj
        · intro a row' ha _ hrow' _ _ hk
          cases hrow.symm.trans hrow'
          exact absurd hk hkind

/-- **One request keeps the final CRLs exactly when it is long enough.** -/
theorem World.step_kept_iff (h : Inv w) (o : Env × Request) : Kept (w.step lib o) ↔ LongEnough w o := by
  obtain ⟨env, r⟩ := o
  have hquiet : (∀ l, r.liberties w.db l = true → l ≠ .shortCrl ∧ l ≠ .promoteRevoked) → LongEnough w (env, r) →
      (Kept (w.step lib (env, r)) ↔ LongEnough w (env, r)) := fun hq hlong => iff_of_true (kept_of_quiet h hq) hlong
  cases r with
  | approve caId =>
    cases hca : w.db.cas.get? caId with
    | none =>
      have hrefused : handle lib w.db env (.approve caId) = (w.db, .error caNotFound) := by
        unfold handle withCa
        simp only [hca]
      refine iff_of_true (kept_of_refused h hrefused) ?_
      intro a ha
      rw [hca] at ha
      cases ha
    | some ca =>
      by_cases hrev : ca.isRevoked = true
      · exact kept_approve h hca hrev
      · refine hquiet ?_ ?_
        · intro l hl
          cases l <;> simp_all [Request.liberties, caRevoked_of_get? hca]
        · intro a ha hr
          cases hca.symm.trans ha
          exact absurd hr hrev
  | approveAlternate caId altId =>
    cases hca : w.db.cas.get? caId with
    | none =>
      have hrefused : handle lib w.db env (.approveAlternate caId altId) = (w.db, .error caNotFound) := by
        unfold handle withCa
        simp only [hca]
      refine iff_of_true (kept_of_refused h hrefused) ?_
      intro a row ha
      rw [hca] at ha
      cases ha
    | some ca =>
      by_cases hrev : ca.isRevoked = true
      · exact kept_approveAlternate h hca hrev
      · refine hquiet ?_ ?_
        · intro l hl
          cases l <;> simp_all [Request.liberties, caRevoked_of_get? hca]
        · intro a row ha hr
          cases hca.symm.trans ha
          exact absurd hr hrev
  | _ =>
    refine hquiet (fun l hl => ?_) trivial
    cases l with
    | shortCrl => cases hl
    | promoteRevoked => cases hl
    | _ => exact ⟨Liberty.noConfusion, Liberty.noConfusion⟩

theorem Effects.revokedCa (h : Effects env allow s s') (hs : RevokedCa s i) : RevokedCa s' i := by
  induction h with
  | refl => exact hs
  | tail _ heffect ih => exact heffect.revokedCa ih

/-- what becomes owed is revoked -/
theorem revokedCa_of_newlyOwed (h : Inv w) {r : Request}
    (hi : i ∈ newlyOwed env w.db (handle lib w.db env r) r) : RevokedCa (handle lib w.db env r).1 i := by
  have heffects : Effects env (fun _ => True) w.db (handle lib w.db env r).1 :=
    step_effects (fun _ _ => trivial) fun hn => absurd trivial hn
  -- a CA that is not in the table publishes nothing
  have happroval : ∀ caId, (w.db.cas.get? caId = none → (handle lib w.db env r).1 = w.db) →
      i ∈ (if w.db.caRevoked caId && published w.db (handle lib w.db env r).1 caId then [caId] else []) →
      RevokedCa (handle lib w.db env r).1 i := by
    intro caId hnone hmem
    split_ifs at hmem with hcond
    · rw [List.mem_singleton.1 hmem]
      obtain ⟨hrev, hpub⟩ := (Bool.and_eq_true _ _).mp hcond
      cases hca : w.db.cas.get? caId with
      | none =>
        rw [hnone hca, published_self] at hpub
        cases hpub
      | some ca =>
        rw [caRevoked_of_get? hca] at hrev
        exact Effects.revokedCa heffects ⟨ca, hca, hrev⟩
    · cases hmem
  cases r with
  | revokeCa caId reason =>
    obtain ⟨hdone, hby⟩ := newlyOwed_revokeCa hi
    exact (revokeCaRequest_final h.dated hdone hby).1
  | approve caId =>
    refine happroval caId (fun hca => ?_) hi
    unfold handle withCa
    simp only [hca]
  | approveAlternate caId altId =>
    refine happroval caId (fun hca => ?_) hi
    unfold handle withCa
    simp only [hca]
  | _ => cases hi

/-- **Step.** -/
theorem Inv.step_inv (h : Inv w) (o : Env × Request) (hlong : LongEnough w o) : Inv (w.step lib o) := by
  have heffects : Effects o.1 (fun _ => True) w.db (handle lib w.db o.1 o.2).1 :=
    step_effects (fun _ _ => trivial) fun hn => absurd trivial hn
  refine ⟨Effects.tidy heffects h.tidy, Effects.dated heffects h.dated, ?_, (World.step_kept_iff h o).2 hlong⟩
  intro i hi
  rcases List.mem_append.1 hi with hold | hnew
  · exact Effects.revokedCa heffects (h.revoked i hold)
  · exact revokedCa_of_newlyOwed h hnew

end Kept

/-- **The final CRLs are kept** along a run, in every state it goes through, exactly when its approvals of revoked CAs give
them CRLs that last long enough. -/
theorem final_crl_kept_iff (lib : Lib) {s₀ : Db} (htidy : Tidy s₀) (hdated : Dated s₀) (ops : List (Env × Request)) :
    (∀ l, l <+: ops → Kept (run (World.step lib) ⟨s₀, []⟩ l)) ↔ Meets (World.step lib) LongEnough ⟨s₀, []⟩ ops := by
  have hstart : Inv ⟨s₀, []⟩ := ⟨htidy, hdated, (fun i hi => nomatch hi), (fun i hi => nomatch hi)⟩
  refine forall_prefix_iff_meets (fun w hw => hw.kept) (fun w o hw hlong => hw.step_inv o hlong) ?_ hstart ops
  intro w o hw hshort hkept
  exact hshort ((World.step_kept_iff hw o).1 hkept)

theorem sampleForest_dated : Dated sampleForest := by
  unfold Dated
  decide

/-- a revocation, and a scheduler run after the validity of an ordinary CRL -/
def revokeThenRefresh : List (Env × Request) :=
  [(Env.at day, .revokeCa 2 "superseded"), (Env.at (30 * day), .crlRefreshJob)]

theorem final_crl_kept_sample : Kept (run (World.step sampleLib) ⟨sampleForest, []⟩ revokeThenRefresh) := by
  have hlong : Meets (World.step sampleLib) LongEnough ⟨sampleForest, []⟩ revokeThenRefresh := ⟨trivial, trivial, trivial⟩
  exact (final_crl_kept_iff sampleLib sampleForest_tidy sampleForest_dated _).2 hlong _ (List.prefix_refl _)

/-- a re-issue of a sub-CA waits for its approval, the sub-CA is revoked, the re-issue is approved -/
def lateApproval : List (Env × Request) :=
  [(Env.at day, .reissue 2 none .pending 99), (Env.at (2 * day), .revokeCa 2 "superseded"),
    (Env.at (3 * day), .approveAlternate 2 1)]

/-- **(2)** The final CRL of the sub-CA is replaced by one for a week. -/
theorem approved_final_crl_expires : ¬ Kept (run (World.step sampleLib) ⟨sampleForest, []⟩ lateApproval) := by
  have howed : 2 ∈ (run (World.step sampleLib) ⟨sampleForest, []⟩ lateApproval).owed := by decide +kernel
  have hshort : ∀ ca ∈ (run (World.step sampleLib) ⟨sampleForest, []⟩ lateApproval).db.cas, ca.id = 2 →
      ca.crl.map (·.nextUpdate) = some (10 * day) ∧ ca.certificate.notAfter = 3650 * day := by decide +kernel
  intro hkept
  obtain ⟨ca, crl, hca, hcrl, hlong⟩ := hkept 2 howed
  obtain ⟨hnext, hend⟩ := hshort ca (Table.mem_of_get? hca) (Table.key_of_get? hca)
  rw [hcrl, Option.map_some, Option.some_inj] at hnext
  rw [hnext, hend] at hlong
  exact absurd hlong (by decide)

end Chancery.Pki
