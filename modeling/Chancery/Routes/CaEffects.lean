/-
What the requests on the CA hierarchy write.

`Effect` lists the writes, each with what the code has checked when it gets there; `step_effects` says that every request is
a chain of them. A write that only some requests make carries a `Liberty`. Two writes meet a revoked CA by accident only if
the tables are not tidy: the CRL of the CA of a revoked leaf, and that of the parent of a revoked CA.
-/
import Mathlib.Tactic
import Chancery.Routes.Ca

namespace Chancery.Pki

open Chancery.Core Relation

/-! ## The hierarchy -/

/-- **Cascaded.** What a revoked CA issued is revoked. -/
structure Cascaded (s : Db) : Prop where
  cas : ∀ ca ∈ s.cas, ca.isRevoked = true → ∀ sub ∈ s.cas, sub.parentId = some ca.id → sub.isRevoked = true
  leaves : ∀ ca ∈ s.cas, ca.isRevoked = true → ∀ c ∈ s.leaves, c.caId = ca.id → c.isRevoked = true

/-- **Forest.** Parents are in the table, and above their children. -/
structure Forest (s : Db) : Prop where
  parents : ∀ sub ∈ s.cas, ∀ p, sub.parentId = some p → ∃ parent, s.cas.get? p = some parent
  depth : ∃ depth : ℤ → ℕ, ∀ sub ∈ s.cas, ∀ p, sub.parentId = some p → depth p < depth sub.id

structure Tidy (s : Db) : Prop where
  cascaded : Cascaded s
  forest : Forest s

/-! ## What the writes of a request are -/

/-- what only some requests may do -/
inductive Liberty
  /-- give a revoked CA a CRL that is not its final one -/
  | shortCrl
  /-- replace the certificate of a revoked CA -/
  | promoteRevoked
  /-- link another certificate of a revoked CA to its issuer -/
  | linkRevoked
  /-- revoke CAs -/
  | sweep
deriving DecidableEq

def Request.liberties (s : Db) : Request → Liberty → Bool
  | .approve caId, .shortCrl => s.caRevoked caId
  | .approveAlternate caId _, .shortCrl => s.caRevoked caId
  | .approveAlternate caId _, .promoteRevoked => s.caRevoked caId
  | .importAlternate caId _, .linkRevoked => s.caRevoked caId
  | .revokeCa _ _, .sweep => true
  | _, _ => false

/-- an unrevoked CA with this id -/
def Live (s : Db) (caId : ℤ) : Prop := ∃ ca, s.cas.get? caId = some ca ∧ ca.isRevoked = false

/-- the columns of a new CA are those of its certificate -/
structure NewCa.Faithful (n : NewCa) : Prop where
  dates : wholeSeconds n.certificate.notAfter = wholeSeconds n.notAfter
  path : n.certificate.basicConstraints = some (true, n.pathLength)

/-- one write -/
inductive Effect (env : Env) (allow : Liberty → Prop) : Db → Db → Prop
  | insertCa {s : Db} (n : NewCa) (hparent : ∀ p, n.parentId = some p → Live s p)
      (hcert : n.Faithful) : Effect env allow s (s.insertCa n)
  | setApproval {s : Db} {ca : CaRow} (status : CaRow → ApprovalStatus) (hca : s.cas.get? ca.id = some ca)
      (hpending : status ca = .pending → ca.isRevoked = false) :
      Effect env allow s (s.updateCa ca.id (fun a => { a with approvalStatus := status a }) fun _ => rfl)
  | setAcme {s : Db} {ca : CaRow} (enable : Bool) (hca : s.cas.get? ca.id = some ca) :
      Effect env allow s (s.updateCa ca.id (fun a => { a with acmeEnabled := enable }) CaRow.setAcme_id)
  | promote {s : Db} {ca : CaRow} (row : CaCertRow) (hca : s.cas.get? ca.id = some ca)
      (hrow : s.alternates.get? row.id = some row) (hof : row.caId = ca.id) (hkind : row.kind = .reissue)
      (hrevoked : ca.isRevoked = true → allow .promoteRevoked) : Effect env allow s (promoteReissue ca row s)
  | insertAlternate {s : Db} (n : NewAlternate)
      (hreissue : n.kind = .reissue → ∃ ca, s.cas.get? n.caId = some ca ∧
        n.certificate.basicConstraints = some (true, ca.pathLength))
      (hrevoked : ∀ ca, s.cas.get? n.caId = some ca → ca.isRevoked = true → n.issuerCaId = none ∨ allow .linkRevoked) :
      Effect env allow s (s.insertAlternate n)
  | approveAlternate {s : Db} (altId : ℤ) : Effect env allow s (s.approveAlternateRow altId)
  | deleteAlternate {s : Db} (altId : ℤ) : Effect env allow s (s.deleteAlternate altId)
  | csrs {s : Db} (t : CsrTable) : Effect env allow s { s with csrs := t }
  | insertLeaf {s : Db} {ca : CaRow} (form : LeafForm) (issued : Issued) (escrowed : Bool) (renewedFrom : Option ℤ)
      (notAfter : DateTime) (hca : s.cas.get? ca.id = some ca) (hlive : ca.isRevoked = false) :
      Effect env allow s { s with
        leaves := s.leaves.insert (newLeaf env ca form issued escrowed renewedFrom notAfter) newLeaf_id }
  | revokeLeaf {s : Db} {c : LeafRow} (reason : String) (hc : s.leaves.get? c.id = some c) (hrev : c.isRevoked = false) :
      Effect env allow s (s.updateLeaf c.id (revokeLeafRow env.now reason) revokeLeafRow_id)
  | sweep {s : Db} {caId : ℤ} {l : List ℤ} (reason : String) (hl : SweptCas s caId l) (hallow : allow .sweep) :
      Effect env allow s (revokeAll env.now reason s l)
  | publish {s : Db} {ca : CaRow} {nextUpdate : DateTime} {crl : Crl} (hca : s.cas.get? ca.id = some ca)
      (hsign : ca.cannotSign = false) (hcrl : buildCrl env.now nextUpdate ca s = .ok crl)
      (hfinal : ca.isRevoked = true → nextUpdate = ca.notAfter ∨ allow .shortCrl) :
      Effect env allow s (s.updateCa ca.id (cacheCrl crl) cacheCrl_id)

/-- the writes of a request, one after the other -/
abbrev Effects (env : Env) (allow : Liberty → Prop) : Db → Db → Prop := Relation.ReflTransGen (Effect env allow)

section Effects

variable {lib : Lib} {env : Env} {allow : Liberty → Prop} {s s' : Db} {ca : CaRow}

theorem effects_one (h : Effect env allow s s') : Effects env allow s s' := .single h

theorem effects_generateCrl {nextUpdate : Option DateTime} (hca : s.cas.get? ca.id = some ca)
    (hfinal : ca.isRevoked = true → nextUpdate = some ca.notAfter ∨ allow .shortCrl)
    (h : generateCrl env ca nextUpdate s = .ok s') : Effects env allow s s' := by
  obtain ⟨hallowed, crl, hcrl, rfl⟩ := generateCrl_ok h
  refine effects_one (.publish hca (crlAllowed_iff.1 hallowed) hcrl fun hrev => ?_)
  rcases hfinal hrev with rfl | hshort
  · exact Or.inl rfl
  · exact Or.inr hshort

/-- a CRL whose failure is skipped -/
theorem effects_tryGenerate (hca : s.cas.get? ca.id = some ca) (hlive : ca.isRevoked = true → allow .shortCrl) :
    Effects env allow s ((generateCrl env ca none s).toOption.getD s) := by
  cases h : generateCrl env ca none s with
  | error e => exact .refl
  | ok s' => exact effects_generateCrl hca (fun hrev => Or.inr (hlive hrev)) h

theorem effects_refreshCrl {ca? : Option CaRow} (hca : ∀ ca, ca? = some ca → s.cas.get? ca.id = some ca)
    (hlive : ∀ ca, ca? = some ca → ca.isRevoked = true → allow .shortCrl) (h : refreshCrl env ca? s = .ok s') :
    Effects env allow s s' := by
  cases ca? with
  | none =>
    cases h
    exact .refl
  | some ca =>
    rw [refreshCrl] at h
    by_cases hsign : ca.cannotSign = true
    · rw [if_pos hsign] at h
      cases h
      exact .refl
    · rw [if_neg hsign] at h
      exact effects_generateCrl (hca ca rfl) (fun hrev => Or.inr (hlive ca rfl hrev)) h

theorem effects_publishInitialCrl {caId : ℤ}
    (hlive : ∀ ca, s.cas.get? caId = some ca → ca.isRevoked = true → allow .shortCrl) :
    Effects env allow s (publishInitialCrl env caId s) := by
  unfold publishInitialCrl
  cases hca : s.cas.get? caId with
  | none => exact .refl
  | some ca =>
    simp only
    split_ifs
    · exact .refl
    · exact effects_tryGenerate (by rwa [Table.key_of_get? hca]) (hlive ca hca)

theorem effects_publishFinalCrl {caId : ℤ} (h : publishFinalCrl env (s.cas.get? caId) s = .ok s') :
    Effects env allow s s' := by
  cases hca : s.cas.get? caId with
  | none =>
    rw [hca] at h
    cases h
    exact .refl
  | some ca =>
    rw [hca, publishFinalCrl] at h
    split_ifs at h
    · cases h
      exact .refl
    · cases h
      exact .refl
    · exact effects_generateCrl (by rwa [Table.key_of_get? hca]) (fun _ => Or.inl rfl) h

theorem effects_publishFinalCrls (ids : List ℤ) : Effects env allow s (publishFinalCrls env ids s).1 := by
  induction ids generalizing s with
  | nil => exact .refl
  | cons i ids ih =>
    rw [publishFinalCrls]
    cases h : publishFinalCrl env (s.cas.get? i) s with
    | error e => exact .refl
    | ok s' => exact (effects_publishFinalCrl h).trans ih

/-! ### New CAs -/

theorem addCa_ok {n : NewCa} (h : addCa n s = .ok s') : s' = s.insertCa n := by
  unfold addCa at h
  split_ifs at h
  exact (Except.ok.inj h).symm

theorem get?_insertCa_new (n : NewCa) : (s.insertCa n).cas.get? s.cas.nextKey = some (n.row s.cas.nextKey) := by
  show (s.cas.insert n.row).get? s.cas.nextKey = _
  rw [Table.get?_insert, if_pos rfl]

theorem get?_insertCa_of_some {n : NewCa} {i : ℤ} (h : s.cas.get? i = some ca) :
    (s.insertCa n).cas.get? i = some ca :=
  @Table.get?_insert_of_some _ _ s.cas n.row (fun _ => rfl) i ca h

theorem mem_insertCa {n : NewCa} : ca ∈ (s.insertCa n).cas ↔ ca ∈ s.cas ∨ ca = n.row s.cas.nextKey :=
  @Table.mem_insert _ _ s.cas n.row (fun _ => rfl) ca

/-- a new CA is not revoked: its first CRL is an ordinary one -/
theorem effects_insertCa {n : NewCa} (hparent : ∀ p, n.parentId = some p → Live s p) (hcert : n.Faithful) :
    Effects env allow s (publishInitialCrl env s.cas.nextKey (s.insertCa n)) := by
  refine .head (.insertCa n hparent hcert) (effects_publishInitialCrl fun ca hca hrev => ?_)
  rw [get?_insertCa_new] at hca
  cases hca
  cases hrev

theorem effects_createRootCa {form : CaForm} (h : createRootCa env form s = .ok s') : Effects env allow s s' := by
  obtain ⟨_, _, h⟩ := bind_eq_ok.1 h
  obtain ⟨_, _, h⟩ := bind_eq_ok.1 h
  obtain ⟨_, _, h⟩ := bind_eq_ok.1 h
  obtain ⟨s1, hs1, h⟩ := bind_eq_ok.1 h
  cases h
  rw [addCa_ok hs1]
  exact effects_insertCa (fun p hp => nomatch hp) ⟨wholeSeconds_wholeSeconds _, rfl⟩

theorem checkParent_ok (h : checkParent env ca = .ok ()) : ca.isRevoked = false := by
  unfold checkParent at h
  split_ifs at h with _ _ hrev
  simpa using hrev

theorem effects_createIntermediateCa {form : CaForm} (hca : s.cas.get? ca.id = some ca)
    (h : createIntermediateCa lib env form ca s = .ok s') : Effects env allow s s' := by
  obtain ⟨_, _, h⟩ := bind_eq_ok.1 h
  obtain ⟨u, hparent, h⟩ := bind_eq_ok.1 h
  cases u
  obtain ⟨_, _, h⟩ := bind_eq_ok.1 h
  obtain ⟨_, _, h⟩ := bind_eq_ok.1 h
  obtain ⟨_, _, h⟩ := bind_eq_ok.1 h
  obtain ⟨_, _, h⟩ := bind_eq_ok.1 h
  split_ifs at h
  obtain ⟨s1, hs1, h⟩ := bind_eq_ok.1 h
  cases h
  rw [addCa_ok hs1]
  refine effects_insertCa (fun p hp => ?_) ⟨wholeSeconds_wholeSeconds _, rfl⟩
  cases hp
  exact ⟨ca, hca, checkParent_ok hparent⟩

/-- the parent of an imported CA is not revoked -/
theorem resolveParent_live {cert : X509} {parentId : Option ℤ} {parent : Option ℤ}
    (h : resolveParent lib cert parentId s = .ok parent) : ∀ p, parent = some p → Live s p := by
  intro p hp
  rw [hp] at h
  unfold resolveParent at h
  cases parentId with
  | some q =>
    cases hq : s.cas.get? q with
    | none =>
      simp only [hq] at h
      cases h
    | some a =>
      simp only [hq] at h
      split_ifs at h with hrev
      cases h
      exact ⟨a, by rwa [Table.key_of_get? hq], by simpa using hrev⟩
  | none =>
    simp only at h
    split_ifs at h
    · cases h
    obtain ⟨a, ha, rfl⟩ := Option.map_eq_some_iff.1 (Except.ok.inj h)
    have hfound := List.find?_some ha
    have hlive : a.isRevoked = false := by simp_all
    exact ⟨a, Table.get?_key (List.mem_of_find?_eq_some ha), hlive⟩

/-- the path length column of an import is read from the certificate -/
theorem checkImport_ok {cert : X509} {key : Option Text} {pathLength : Option ℤ}
    (h : checkImport env cert key = .ok pathLength) : cert.basicConstraints = some (true, pathLength) := by
  unfold checkImport at h
  split at h
  · cases h
  · cases h
  · rename_i n hn
    obtain ⟨_, _, h⟩ := bind_eq_ok.1 h
    split_ifs at h
    cases h
    exact hn

theorem importCaObject_ok {name : Text} {cert : X509} {key : Option Text} {parentId : Option ℤ}
    (h : importCaObject lib env name cert key parentId s = .ok s') :
    ∃ n : NewCa, s' = s.insertCa n ∧ (∀ p, n.parentId = some p → Live s p) ∧ n.Faithful := by
  obtain ⟨pathLength, hcheck, h⟩ := bind_eq_ok.1 h
  obtain ⟨_, _, h⟩ := bind_eq_ok.1 h
  split_ifs at h
  obtain ⟨parent, hparent, h⟩ := bind_eq_ok.1 h
  exact ⟨_, addCa_ok h, resolveParent_live hparent, rfl, checkImport_ok hcheck⟩

theorem effects_importCaObject {name : Text} {cert : X509} {key : Option Text} {parentId : Option ℤ}
    (h : importCaObject lib env name cert key parentId s = .ok s') : Effects env allow s s' := by
  obtain ⟨n, rfl, hparent, hcert⟩ := importCaObject_ok h
  exact effects_one (.insertCa n hparent hcert)

theorem effects_importParents {name : Text} {certs : List X509} {parentId leafParent : Option ℤ}
    (h : importParents lib env name certs parentId s = .ok (s', leafParent)) : Effects env allow s s' := by
  induction certs generalizing s parentId with
  | nil =>
    cases h
    exact .refl
  | cons cert certs ih =>
    rw [importParents] at h
    cases hfind : s.cas.rows.find? (·.serialNumber == formatHex cert.serialNumber) with
    | some existing =>
      rw [hfind] at h
      exact ih h
    | none =>
      rw [hfind] at h
      obtain ⟨s1, hs1, h⟩ := bind_eq_ok.1 h
      exact (effects_importCaObject hs1).trans (ih h)

/-- the newest CA after an import is the imported one -/
theorem get?_lastCa (n : NewCa) : (s.insertCa n).cas.get? (s.insertCa n).lastCa = some (n.row s.cas.nextKey) := by
  have hlast : (s.insertCa n).lastCa = s.cas.nextKey := by
    simp [Db.lastCa, Db.insertCa, NewCa.row]
  rw [hlast, get?_insertCa_new]

/-- what an import does before the approval columns: the imported CA comes last -/
theorem importChain_ok {name : Text} {ordered : List X509} {key : Option Text} {parentId : Option ℤ}
    (h : importChain lib env name ordered key parentId s = .ok s') :
    ∃ (s1 : Db) (n : NewCa), Effects env allow s s1 ∧ s' = s1.insertCa n ∧ (∀ p, n.parentId = some p → Live s1 p) ∧
      n.Faithful := by
  unfold importChain at h
  cases ordered with
  | nil => cases h
  | cons leaf parents =>
    simp only at h
    split_ifs at h
    obtain ⟨⟨s1, leafParent⟩, hs1, h⟩ := bind_eq_ok.1 h
    obtain ⟨n, hn, hparent, hcert⟩ := importCaObject_ok h
    exact ⟨s1, n, effects_importParents hs1, hn, hparent, hcert⟩

theorem effects_importCa {form : ImportForm} (h : importCa lib env form s = .ok s') : Effects env allow s s' := by
  obtain ⟨ordered, _, h⟩ := bind_eq_ok.1 h
  obtain ⟨s2, hs2, h⟩ := bind_eq_ok.1 h
  cases h
  have himported : ∃ (s1 : Db) (n : NewCa), Effects env allow s s1 ∧ s2 = s1.insertCa n ∧
      (∀ p, n.parentId = some p → Live s1 p) ∧ n.Faithful := by
    unfold importRows at hs2
    split at hs2
    · obtain ⟨n, hn, hparent, hcert⟩ := importCaObject_ok hs2
      exact ⟨s, n, .refl, hn, hparent, hcert⟩
    · exact importChain_ok hs2
  obtain ⟨s1, n, hs1, rfl, hparent, hcert⟩ := himported
  have hlast := get?_lastCa (s := s1) n
  have hid : (s1.insertCa n).lastCa = s1.cas.nextKey := (Table.key_of_get? hlast).symm
  rw [hid] at hlast ⊢
  have happroval := @Effect.setApproval env allow _ (n.row s1.cas.nextKey)
    (fun a => if form.approvalStatus = .pending ∧ a.hasSigningKey then .pending else .approved) hlast fun _ => rfl
  refine hs1.trans (.head (.insertCa n hparent hcert) (.head happroval ?_))
  refine effects_publishInitialCrl fun ca hca hrev => ?_
  cases (get?_updateCa_self hlast).symm.trans hca
  cases hrev

/-! ### Alternates -/

theorem reissueIssuer_ok {issuer : CaRow} (h : reissueIssuer env ca s = .ok issuer) : ca.isRevoked = false := by
  unfold reissueIssuer at h
  split_ifs at h with _ hrev
  all_goals simpa using hrev

/-- an alternate of an unrevoked CA -/
theorem effects_insertAlternate {n : NewAlternate} (hca : s.cas.get? n.caId = some ca) (hlive : ca.isRevoked = false)
    (hpath : n.kind = .reissue → n.certificate.basicConstraints = some (true, ca.pathLength)) :
    Effects env allow s (s.insertAlternate n) := by
  refine effects_one (.insertAlternate n (fun hkind => ⟨ca, hca, hpath hkind⟩) fun a ha hrev => ?_)
  rw [hca] at ha
  cases ha
  rw [hlive] at hrev
  cases hrev

/-- a re-issue leaves the CA unrevoked -/
theorem storeReissue_live {n : NewAlternate} (hca : s.cas.get? ca.id = some ca) (hlive : ca.isRevoked = false) {a : CaRow}
    (ha : (storeReissue ca n s).cas.get? ca.id = some a) : a.isRevoked = false := by
  unfold storeReissue at ha
  split_ifs at ha
  · have hself : (promoteReissue ca (n.row s.alternates.nextKey) (s.insertAlternate n)).cas.get? ca.id =
        some (promoted (n.row s.alternates.nextKey) ca) :=
      @get?_updateCa_self (s.insertAlternate n) ca.id (promoted _) (fun _ => rfl) ca hca
    rw [hself] at ha
    cases ha
    exact hlive
  · have hself : (s.insertAlternate n).cas.get? ca.id = some ca := hca
    rw [hself] at ha
    cases ha
    exact hlive

theorem reissue_ok {days : Option ℤ} {status : ApprovalStatus} {serial : ℤ}
    (h : reissueCaCertificate env ca days status serial s = .ok s') :
    ca.isRevoked = false ∧ ∃ n : NewAlternate, n.caId = ca.id ∧ n.kind = .reissue ∧
      n.certificate.basicConstraints = some (true, ca.pathLength) ∧ s' = storeReissue ca n s := by
  obtain ⟨issuer, hissuer, h⟩ := bind_eq_ok.1 h
  obtain ⟨_, _, h⟩ := bind_eq_ok.1 h
  obtain ⟨notAfter, _, h⟩ := bind_eq_ok.1 h
  refine ⟨reissueIssuer_ok hissuer, ?_⟩
  by_cases hkey : issuer.certificate.hasKeyId = true
  · rw [if_neg (by simp [hkey])] at h
    exact ⟨_, rfl, rfl, rfl, (Except.ok.inj h).symm⟩
  · rw [if_pos (by simpa using hkey)] at h
    cases h

theorem effects_reissue {days : Option ℤ} {status : ApprovalStatus} {serial : ℤ} (hca : s.cas.get? ca.id = some ca)
    (h : reissueCaCertificate env ca days status serial s = .ok s') : Effects env allow s s' := by
  obtain ⟨hlive, n, hn, hkind, hpath, rfl⟩ := reissue_ok h
  have hinsert : Effects env allow s (s.insertAlternate n) :=
    effects_insertAlternate (by rwa [hn]) hlive fun _ => hpath
  have hrow : (s.insertAlternate n).alternates.get? s.alternates.nextKey = some (n.row s.alternates.nextKey) := by
    show (s.alternates.insert n.row).get? _ = _
    rw [Table.get?_insert, if_pos rfl]
  unfold storeReissue
  split_ifs
  · exact hinsert.tail (.promote _ hca hrow hn hkind fun hrev => by rw [hlive] at hrev; cases hrev)
  · exact hinsert

theorem checkCrossSign_ok {issuer : CaRow} (h : checkCrossSign env ca issuer s = .ok ()) : ca.isRevoked = false := by
  unfold checkCrossSign at h
  split_ifs at h with _ hrev
  simpa using hrev

theorem effects_crossSign {issuer : CaRow} {days : Option ℤ} {status : ApprovalStatus} {serial : ℤ}
    (hca : s.cas.get? ca.id = some ca) (h : crossSignCa lib env ca issuer days status serial s = .ok s') :
    Effects env allow s s' := by
  obtain ⟨u, hcheck, h⟩ := bind_eq_ok.1 h
  cases u
  obtain ⟨_, _, h⟩ := bind_eq_ok.1 h
  obtain ⟨_, _, h⟩ := bind_eq_ok.1 h
  obtain ⟨_, _, h⟩ := bind_eq_ok.1 h
  obtain ⟨_, _, h⟩ := bind_eq_ok.1 h
  split_ifs at h
  cases h
  exact effects_insertAlternate hca (checkCrossSign_ok hcheck) (by simp)

theorem effects_importAlternate {cert : X509} (hca : s.cas.get? ca.id = some ca)
    (hallow : ca.isRevoked = true → allow .linkRevoked) (h : importAlternateCertificate lib ca cert s = .ok s') :
    Effects env allow s s' := by
  obtain ⟨_, _, h⟩ := bind_eq_ok.1 h
  cases h
  refine effects_one (.insertAlternate _ (by simp) fun a ha hrev => Or.inr (hallow ?_))
  cases hca.symm.trans ha
  exact hrev

/-- what an approval of an alternate commits -/
theorem approveAlternate_ok {row : CaCertRow} (h : approveAlternate ca row s = .ok s') :
    row.approvalStatus = .pending ∧
      (row.kind = .reissue ∧ s' = promoteReissue ca row s ∨ row.kind ≠ .reissue ∧ s' = s.approveAlternateRow row.id) := by
  unfold approveAlternate at h
  split_ifs at h with hpending hkind
  · cases h
    exact ⟨not_not.1 hpending, Or.inl ⟨hkind, rfl⟩⟩
  · cases h
    exact ⟨not_not.1 hpending, Or.inr ⟨hkind, rfl⟩⟩

theorem get?_promoteReissue {row : CaCertRow} (hca : s.cas.get? ca.id = some ca) :
    (promoteReissue ca row s).cas.get? ca.id = some (promoted row ca) :=
  @get?_updateCa_self s ca.id (promoted row) (fun _ => rfl) ca hca

theorem effects_approveAlternate {row : CaCertRow} (hca : s.cas.get? ca.id = some ca)
    (hrow : s.alternates.get? row.id = some row) (hof : row.caId = ca.id)
    (hallow : ca.isRevoked = true → allow .promoteRevoked) (h : approveAlternate ca row s = .ok s') :
    Effects env allow s s' := by
  obtain ⟨_, ⟨hkind, rfl⟩ | ⟨_, rfl⟩⟩ := approveAlternate_ok h
  · exact effects_one (.promote row hca hrow hof hkind hallow)
  · exact effects_one (.approveAlternate row.id)

/-- the approval does not change whether the CA is revoked -/
theorem approveAlternate_isRevoked {row : CaCertRow} (hca : s.cas.get? ca.id = some ca)
    (h : approveAlternate ca row s = .ok s') {a : CaRow} (ha : s'.cas.get? ca.id = some a) :
    a.isRevoked = ca.isRevoked := by
  obtain ⟨_, ⟨_, rfl⟩ | ⟨_, rfl⟩⟩ := approveAlternate_ok h
  · cases (get?_promoteReissue hca).symm.trans ha
    rfl
  · cases hca.symm.trans ha
    rfl

/-- the refresh after a re-issue -/
theorem effects_refreshPrimary {caId : ℤ} (hlive : ∀ ca, s.cas.get? caId = some ca → ca.isRevoked = true → allow .shortCrl)
    (h : refreshPrimary env caId s = .ok s') : Effects env allow s s' := by
  unfold refreshPrimary at h
  cases hca : s.cas.get? caId with
  | none =>
    simp only [hca] at h
    cases h
    exact .refl
  | some ca =>
    simp only [hca] at h
    split_ifs at h
    · cases h
      exact .refl
    · refine effects_refreshCrl ?_ ?_ h
      · rintro _ ⟨⟩
        rwa [Table.key_of_get? hca]
      · rintro _ ⟨⟩
        exact hlive ca hca

/-! ### Leaves -/

theorem effects_addLeaf {form : LeafForm} {issued : Issued} {escrowed : Bool} {renewedFrom : Option ℤ}
    (hca : s.cas.get? ca.id = some ca) (hlive : ca.isRevoked = false)
    (h : addLeaf env ca form issued escrowed renewedFrom s = .ok s') : Effects env allow s s' := by
  obtain ⟨notAfter, _, h⟩ := bind_eq_ok.1 h
  split_ifs at h
  cases h
  exact effects_one (.insertLeaf form issued escrowed renewedFrom notAfter hca hlive)

theorem effects_createCertificate {caId : ℤ} {form : LeafForm} (h : createCertificate lib env caId form s = .ok s') :
    Effects env allow s s' := by
  unfold createCertificate at h
  cases hca : s.cas.get? caId with
  | none =>
    simp only [hca] at h
    cases h
  | some ca =>
    simp only [hca] at h
    split_ifs at h with hrev
    obtain ⟨_, _, h⟩ := bind_eq_ok.1 h
    obtain ⟨_, _, h⟩ := bind_eq_ok.1 h
    exact effects_addLeaf (by rwa [Table.key_of_get? hca]) (by simpa using hrev) h

theorem effects_signRow {row : CsrRow} {form : LeafForm} (hca : s.cas.get? ca.id = some ca) (hlive : ca.isRevoked = false)
    (h : signRow lib env row ca form s = .ok s') : Effects env allow s s' := by
  obtain ⟨_, _, h⟩ := bind_eq_ok.1 h
  obtain ⟨s1, hs1, h⟩ := bind_eq_ok.1 h
  cases h
  exact (effects_addLeaf hca hlive hs1).tail (.csrs _)

theorem effects_signCsr {csrId caId : ℤ} {form : LeafForm} (h : signCsr lib env csrId caId form s = .ok s') :
    Effects env allow s s' := by
  unfold signCsr at h
  cases hrow : s.csrs.get? csrId with
  | none =>
    simp only [hrow] at h
    cases h
  | some row =>
    simp only [hrow] at h
    split_ifs at h
    cases hca : s.cas.get? caId with
    | none =>
      simp only [hca] at h
      cases h
    | some ca =>
      simp only [hca] at h
      split_ifs at h with hrev
      obtain ⟨_, _, h⟩ := bind_eq_ok.1 h
      exact effects_signRow (by rwa [Table.key_of_get? hca]) (by simpa using hrev) h

theorem effects_acmeSign {csrId caId : ℤ} {form : LeafForm} (h : acmeSign lib env csrId caId form s = .ok s') :
    Effects env allow s s' := by
  unfold acmeSign at h
  cases hca : s.cas.get? caId with
  | none =>
    simp only [hca] at h
    cases h
  | some ca =>
    simp only [hca] at h
    split_ifs at h with hav
    have hlive : ca.isRevoked = false := by
      simp only [CaRow.acmeAvailable, Bool.not_eq_true', Bool.not_eq_false, Bool.and_eq_true] at hav
      exact hav.1.1.2
    cases hrow : s.csrs.get? csrId with
    | none =>
      simp only [hrow] at h
      cases h
    | some row =>
      simp only [hrow] at h
      obtain ⟨_, _, h⟩ := bind_eq_ok.1 h
      exact effects_signRow (by rwa [Table.key_of_get? hca]) hlive h

theorem revokeCertificate_ok {certId : ℤ} {reason : String} (h : revokeCertificate env.now certId reason s = .ok s') :
    ∃ c, s.leaves.get? c.id = some c ∧ c.id = certId ∧ c.isRevoked = false ∧
      s' = s.updateLeaf c.id (revokeLeafRow env.now reason) revokeLeafRow_id := by
  obtain ⟨_, _, h⟩ := bind_eq_ok.1 h
  cases hc : s.leaves.get? certId with
  | none =>
    simp only [hc] at h
    cases h
  | some c =>
    simp only [hc] at h
    split_ifs at h with hrev
    cases h
    have hid := Table.key_of_get? hc
    exact ⟨c, by rwa [hid], hid, by simpa using hrev, by rw [hid]⟩

theorem effects_revokeCertificate {certId : ℤ} {reason : String}
    (h : revokeCertificate env.now certId reason s = .ok s') : Effects env allow s s' := by
  obtain ⟨c, hc, _, hrev, rfl⟩ := revokeCertificate_ok h
  exact effects_one (.revokeLeaf reason hc hrev)

/-- the CA of a renewal is not revoked -/
theorem renewalAllowed_live {x : IssuingCa} {r : CertService.Renewal} (h : CertService.renewalAllowed x r = .ok ()) :
    x.isRevoked = false := by
  unfold CertService.renewalAllowed at h
  split_ifs at h with hrev
  all_goals simpa using hrev

theorem renewLeaf_live {old : LeafRow} {form : RenewForm} (h : renewLeaf lib env old ca form s = .ok s') :
    ca.isRevoked = false := by
  obtain ⟨_, _, h⟩ := bind_eq_ok.1 h
  obtain ⟨_, hissued, _⟩ := bind_eq_ok.1 h
  obtain ⟨u, hallowed, _⟩ := bind_eq_ok.1 hissued
  exact renewalAllowed_live hallowed

theorem addLeaf_cas {form : LeafForm} {issued : Issued} {escrowed : Bool} {renewedFrom : Option ℤ}
    (h : addLeaf env ca form issued escrowed renewedFrom s = .ok s') : s'.cas = s.cas := by
  obtain ⟨notAfter, _, h⟩ := bind_eq_ok.1 h
  split_ifs at h
  cases h
  rfl

theorem renewLeaf_cas {old : LeafRow} {form : RenewForm} (h : renewLeaf lib env old ca form s = .ok s') :
    s'.cas = s.cas := by
  obtain ⟨_, _, h⟩ := bind_eq_ok.1 h
  obtain ⟨_, _, h⟩ := bind_eq_ok.1 h
  obtain ⟨s1, hs1, h⟩ := bind_eq_ok.1 h
  have hcas := addLeaf_cas hs1
  split_ifs at h
  · obtain ⟨_, _, _, _, rfl⟩ := revokeCertificate_ok h
    exact hcas
  · cases h
    exact hcas

theorem effects_renewLeaf {old : LeafRow} {form : RenewForm} (hca : s.cas.get? ca.id = some ca)
    (h : renewLeaf lib env old ca form s = .ok s') : Effects env allow s s' := by
  have hlive := renewLeaf_live h
  obtain ⟨_, _, h⟩ := bind_eq_ok.1 h
  obtain ⟨_, _, h⟩ := bind_eq_ok.1 h
  obtain ⟨s1, hs1, h⟩ := bind_eq_ok.1 h
  split_ifs at h
  · exact (effects_addLeaf hca hlive hs1).trans (effects_revokeCertificate h)
  · cases h
    exact effects_addLeaf hca hlive hs1

/-! ### Revocations -/

/-- what a revocation reaches lies below -/
theorem depth_le_of_reached {l : List ℤ} {depth : ℤ → ℕ} {i j : ℤ}
    (hdepth : ∀ sub ∈ s.cas, ∀ p, sub.parentId = some p → depth p < depth sub.id)
    (h : ReflTransGen ((revocation 0 "").Into ⟨s, [], 0⟩ l) i j) : depth i ≤ depth j := by
  induction h with
  | refl => exact le_rfl
  | tail _ hinto ih =>
    obtain ⟨sub, hsub, hparent, rfl⟩ := mem_children.1 hinto.1
    exact ih.trans (hdepth sub hsub _ hparent).le

/-- the parent of a CA that is being revoked is not revoked -/
theorem parent_live (htidy : Tidy s) (hca : s.cas.get? ca.id = some ca) (hlive : ca.isRevoked = false) {l : List ℤ}
    (hl : SweptCas s ca.id l) {p : ℤ} (hp : ca.parentId = some p) {parent : CaRow} {now : DateTime} {reason : String}
    (hparent : (revokeAll now reason s l).cas.get? p = some parent) : parent.isRevoked = false := by
  have hmem : ca ∈ s.cas := Table.mem_of_get? hca
  obtain ⟨depth, hdepth⟩ := htidy.forest.depth
  have hout : p ∉ l := by
    intro hin
    obtain ⟨i, hi, _, hwalk⟩ := hl.reached p hin
    rw [List.mem_singleton.1 hi] at hwalk
    have hle := depth_le_of_reached hdepth hwalk
    have hlt := hdepth ca hmem p hp
    omega
  rw [get?_revokeAll, if_neg hout] at hparent
  by_contra hrev
  have hid := Table.key_of_get? hparent
  have hsub := htidy.cascaded.cas parent (Table.mem_of_get? hparent) (by simpa using hrev) ca hmem (by rw [hid, hp])
  rw [hlive] at hsub
  cases hsub

theorem effects_revokeCaRequest {caId : ℤ} {reason : String} (hallow : allow .sweep)
    (htidy : ¬ allow .shortCrl → Tidy s) : Effects env allow s (revokeCaRequest env caId reason s).1 := by
  unfold revokeCaRequest
  cases hx : env.checks >>= fun _ => sweepCa env.now caId reason s with
  | error e => exact .refl
  | ok x =>
    obtain ⟨_, _, hrevoke⟩ := bind_eq_ok.1 hx
    obtain ⟨hcheck, l, hdb, hl⟩ := sweepCa_ok hrevoke
    obtain ⟨_, ca, hca, hlive⟩ := checkRevocable_ok hcheck
    have hid := Table.key_of_get? hca
    rw [← hid] at hl hca
    simp only
    rw [hdb, ← hid]
    refine .head (.sweep reason hl hallow) ?_
    unfold publishRevocationCrls
    cases hr : refreshCrl env ((((revokeAll env.now reason s l).cas.get? ca.id).bind (·.parentId)).bind
        (revokeAll env.now reason s l).cas.get?) (revokeAll env.now reason s l) with
    | error e => exact .refl
    | ok s1 =>
      have hparent : Effects env allow (revokeAll env.now reason s l) s1 := by
        refine effects_refreshCrl ?_ ?_ hr
        · intro parent hp
          obtain ⟨p, _, hget⟩ := Option.bind_eq_some_iff.1 hp
          rwa [Table.key_of_get? hget]
        · intro parent hp hrev
          by_contra hshort
          obtain ⟨p, hp, hget⟩ := Option.bind_eq_some_iff.1 hp
          obtain ⟨row, hrow, hp⟩ := Option.bind_eq_some_iff.1 hp
          have hparent : ca.parentId = some p := by
            rw [get?_revokeAll, hca] at hrow
            split_ifs at hrow
            · cases hrow
              exact hp
            · cases hrow
              exact hp
          have hlive' := parent_live (htidy hshort) hca hlive hl hparent hget
          rw [hrev] at hlive'
          cases hlive'
      simp only
      cases revokedSubtree s1 ca.id with
      | none => exact hparent
      | some ids => exact hparent.trans (effects_publishFinalCrls ids)

/-- the CA of a certificate that is being revoked is not revoked -/
theorem leafCa_live (htidy : Tidy s) {c : LeafRow} (hc : s.leaves.get? c.id = some c) (hrev : c.isRevoked = false)
    (hca : s.cas.get? c.caId = some ca) : ca.isRevoked = false := by
  by_contra hn
  have hid := Table.key_of_get? hca
  have h := htidy.cascaded.leaves ca (Table.mem_of_get? hca) (by simpa using hn) c (Table.mem_of_get? hc) hid.symm
  rw [hrev] at h
  cases h

/-- the refresh after the revocation of a certificate -/
theorem effects_refreshLeafCa {c : LeafRow} {reason : String} {certId : ℤ} (htidy : ¬ allow .shortCrl → Tidy s)
    (hc : s.leaves.get? c.id = some c) (hrev : c.isRevoked = false) (hid : c.id = certId) {s1 : Db}
    (hs1 : s1 = s.updateLeaf c.id (revokeLeafRow env.now reason) revokeLeafRow_id)
    (h : refreshCrl env ((s1.leaves.get? certId).bind fun c => s1.cas.get? c.caId) s1 = .ok s') :
    Effects env allow s1 s' := by
  have hrow : s1.leaves.get? certId = some (revokeLeafRow env.now reason c) := by
    have hupdate := @Table.get?_update_self _ _ s.leaves (revokeLeafRow env.now reason) (fun _ => rfl) c.id
    rw [hc] at hupdate
    rw [hs1, ← hid]
    exact hupdate
  rw [hrow, Option.bind_some] at h
  have hcas : s1.cas = s.cas := by rw [hs1]; rfl
  refine effects_refreshCrl ?_ ?_ h
  · intro ca hca
    rwa [Table.key_of_get? hca]
  · intro ca hca hr
    by_contra hshort
    rw [hcas] at hca
    have hlive := leafCa_live (htidy hshort) hc hrev hca
    rw [hr] at hlive
    cases hlive

/-! ### Refreshes -/

theorem effects_currentCrl (hca : s.cas.get? ca.id = some ca) : Effects env allow s (currentCrl env ca s) := by
  unfold currentCrl
  cases ca.crl with
  | none => exact .refl
  | some crl =>
    simp only
    split_ifs with h
    · exact effects_tryGenerate hca fun hrev => by rw [h.2.1] at hrev; cases hrev
    · exact .refl

theorem effects_refreshStale {caId : ℤ} : Effects env allow s (refreshStale env s caId) := by
  unfold refreshStale
  cases hcap : capable? caId s with
  | none => exact .refl
  | some ca =>
    obtain ⟨hca, hsign⟩ := Option.filter_eq_some_iff.1 hcap
    simp only
    split_ifs
    · refine effects_tryGenerate (by rwa [Table.key_of_get? hca]) fun hrev => ?_
      simp [CaRow.signingCapable, hrev] at hsign
    · exact .refl

theorem effects_crlRefreshJob (ids : List ℤ) : Effects env allow s (ids.foldl (refreshStale env) s) := by
  induction ids generalizing s with
  | nil => exact .refl
  | cons i ids ih => exact effects_refreshStale.trans ih

theorem effects_crlRefreshCli {all : Bool} (ids : List ℤ) : Effects env allow s (crlRefreshCli env all ids s).1 := by
  induction ids generalizing s with
  | nil => exact .refl
  | cons i ids ih =>
    rw [crlRefreshCli]
    cases hf : (s.cas.get? i).filter
        (fun ca => !ca.isRevoked && !ca.cannotSign && (all || crlIsStale ca env.now 0)) with
    | none => exact ih
    | some ca =>
      obtain ⟨hca, hsign⟩ := Option.filter_eq_some_iff.1 hf
      have hlive : ca.isRevoked = false := by
        simp only [Bool.and_eq_true, Bool.not_eq_true'] at hsign
        exact hsign.1.1
      simp only
      cases hg : generateCrl env ca none s with
      | error e => exact .refl
      | ok s1 =>
        have hone : Effects env allow s s1 :=
          effects_generateCrl (by rwa [Table.key_of_get? hca]) (fun hrev => by rw [hlive] at hrev; cases hrev) hg
        exact hone.trans ih

/-! ### Requests -/

theorem effects_of {r : Except PyError Db} (h : ∀ s', r = .ok s' → Effects env allow s s') :
    Effects env allow s (Result.of s r).1 := by
  cases r with
  | error e => exact .refl
  | ok s' => exact h s' rfl

theorem effects_afterCommit {r : Except PyError Db} {refresh : Db → Except PyError Db}
    (h : ∀ s1, r = .ok s1 → Effects env allow s s1)
    (hrefresh : ∀ s1 s2, r = .ok s1 → refresh s1 = .ok s2 → Effects env allow s1 s2) :
    Effects env allow s (afterCommit s r refresh).1 := by
  cases r with
  | error e => exact .refl
  | ok s1 => exact (h s1 rfl).trans (effects_of fun s2 hs2 => hrefresh s1 s2 rfl hs2)

theorem effects_withCa {caId : ℤ} {f : CaRow → Result}
    (h : ∀ ca, s.cas.get? ca.id = some ca → ca.id = caId → Effects env allow s (f ca).1) :
    Effects env allow s (withCa caId s f).1 := by
  unfold withCa
  cases hca : s.cas.get? caId with
  | none => exact .refl
  | some ca =>
    have hid := Table.key_of_get? hca
    exact h ca (by rwa [hid]) hid

theorem effects_withAlternate {altId : ℤ} {f : CaCertRow → Result}
    (h : ∀ row, s.alternates.get? row.id = some row → row.caId = ca.id → Effects env allow s (f row).1) :
    Effects env allow s (withAlternate ca altId s f).1 := by
  unfold withAlternate
  cases hrow : s.alternates.get? altId with
  | none => exact .refl
  | some row =>
    simp only
    split_ifs with hof
    · exact .refl
    · exact h row (by rwa [Table.key_of_get? hrow]) (not_not.1 hof)

theorem effects_approveCa (hca : s.cas.get? ca.id = some ca) (hallow : ca.isRevoked = true → allow .shortCrl) :
    Effects env allow s (approveCa env ca s).1 := by
  unfold approveCa
  split_ifs
  · exact .refl
  · cases env.checks with
    | error e => exact .refl
    | ok _ =>
      refine .head (.setApproval (fun _ => .approved) hca (by simp)) (effects_publishInitialCrl ?_)
      intro a ha hrev
      cases (get?_updateCa_self hca).symm.trans ha
      exact hallow hrev

theorem effects_setAcme {enable : Bool} (hca : s.cas.get? ca.id = some ca) (h : setAcme env ca enable s = .ok s') :
    Effects env allow s s' := by
  unfold setAcme at h
  split_ifs at h
  obtain ⟨_, _, h⟩ := bind_eq_ok.1 h
  cases h
  exact effects_one (.setAcme enable hca)

theorem effects_generateCrlRoute (hca : s.cas.get? ca.id = some ca) :
    Effects env allow s (if ca.isRevoked then (s, .error (.other "Cannot generate CRL for a revoked CA."))
      else Result.of s (generateCrl env ca none s)).1 := by
  split_ifs with hrev
  · exact .refl
  · exact effects_of fun s' hs' => effects_generateCrl hca (fun h => absurd h hrev) hs'

/-- **What a request does:** a chain of writes. -/
theorem step_effects {r : Request} (hallow : ∀ l, r.liberties s l = true → allow l)
    (htidy : ¬ allow .shortCrl → Tidy s) : Effects env allow s (handle lib s env r).1 := by
  cases r with
  | createRoot form => exact effects_of fun _ => effects_createRootCa
  | createIntermediate parentId form =>
    unfold handle
    simp only
    cases hcap : capable? parentId s with
    | none => exact .refl
    | some parent =>
      obtain ⟨hca, _⟩ := Option.filter_eq_some_iff.1 hcap
      exact effects_of fun _ => effects_createIntermediateCa (by rwa [Table.key_of_get? hca])
  | importCa form => exact effects_of fun _ => effects_importCa
  | createCertificate caId form => exact effects_of fun _ => effects_createCertificate
  | importCsr csr =>
    refine effects_of fun s' h => ?_
    cases hchecks : env.checks with
    | error e =>
      rw [hchecks] at h
      cases h
    | ok u =>
      rw [hchecks] at h
      cases h
      exact effects_one (.csrs _)
  | signCsr csrId caId form => exact effects_of fun _ => effects_signCsr
  | acmeSign csrId caId form => exact effects_of fun _ => effects_acmeSign
  | renew certId form =>
    unfold handle
    simp only
    cases s.leaves.get? certId with
    | none => exact .refl
    | some old =>
      refine effects_withCa fun ca hca hid => effects_afterCommit (fun _ => effects_renewLeaf hca) ?_
      intro s1 s2 hs1 h
      split_ifs at h
      · rw [renewLeaf_cas hs1, ← hid, hca] at h
        refine effects_refreshCrl ?_ ?_ h
        · rintro _ ⟨⟩
          rwa [renewLeaf_cas hs1]
        · rintro _ ⟨⟩ hrev
          rw [renewLeaf_live hs1] at hrev
          cases hrev
      · cases h
        exact .refl
  | reissue caId days status serial =>
    refine effects_withCa fun ca hca hid => effects_afterCommit (fun _ => effects_reissue hca) ?_
    intro s1 s2 hs1 h
    obtain ⟨hlive, n, _, _, _, rfl⟩ := reissue_ok hs1
    split_ifs at h
    · refine effects_refreshPrimary (fun a ha hrev => ?_) h
      rw [← hid] at ha
      rw [storeReissue_live hca hlive ha] at hrev
      cases hrev
    · cases h
      exact .refl
  | crossSign caId issuerId days status serial =>
    refine effects_withCa fun ca hca hid => ?_
    cases capable? issuerId s with
    | none => exact .refl
    | some issuer => exact effects_of fun _ => effects_crossSign hca
  | importAlternate caId cert =>
    refine effects_withCa fun ca hca hid => effects_of fun _ => effects_importAlternate hca fun hrev => hallow _ ?_
    rwa [Request.liberties, ← hid, caRevoked_of_get? hca]
  | approve caId =>
    refine effects_withCa fun ca hca hid => effects_approveCa hca fun hrev => hallow _ ?_
    rwa [Request.liberties, ← hid, caRevoked_of_get? hca]
  | approveAlternate caId altId =>
    refine effects_withCa fun ca hca hid => effects_withAlternate fun row hrow hof => effects_afterCommit ?_ ?_
    · intro s1 h
      obtain ⟨_, _, h⟩ := bind_eq_ok.1 h
      refine effects_approveAlternate hca hrow hof (fun hrev => hallow _ ?_) h
      rwa [Request.liberties, ← hid, caRevoked_of_get? hca]
    · intro s1 s2 hs1 h
      obtain ⟨_, _, hs1⟩ := bind_eq_ok.1 hs1
      split_ifs at h
      · refine effects_refreshPrimary (fun a ha hrev => hallow _ ?_) h
        rw [← hid] at ha
        rwa [Request.liberties, ← hid, caRevoked_of_get? hca, ← approveAlternate_isRevoked hca hs1 ha]
      · cases h
        exact .refl
  | deleteAlternate caId altId =>
    exact effects_withCa fun ca hca hid => effects_withAlternate fun row _ _ => effects_one (.deleteAlternate row.id)
  | setAcme caId enable => exact effects_withCa fun ca hca hid => effects_of fun _ => effects_setAcme hca
  | revokeCertificate certId reason =>
    refine effects_afterCommit ?_ ?_
    · intro s1 h
      obtain ⟨_, _, h⟩ := bind_eq_ok.1 h
      exact effects_revokeCertificate h
    · intro s1 s2 hs1 h
      obtain ⟨_, _, hs1⟩ := bind_eq_ok.1 hs1
      obtain ⟨c, hc, hid, hrev, hs1⟩ := revokeCertificate_ok hs1
      exact effects_refreshLeafCa htidy hc hrev hid hs1 h
  | revokeCa caId reason => exact effects_revokeCaRequest (hallow _ rfl) htidy
  | generateCrl caId => exact effects_withCa fun ca hca hid => effects_generateCrlRoute hca
  | currentCrl caId => exact effects_withCa fun ca hca hid => effects_currentCrl hca
  | crlRefreshJob => exact effects_crlRefreshJob _
  | crlRefreshCli all => exact effects_crlRefreshCli _

end Effects

end Chancery.Pki
