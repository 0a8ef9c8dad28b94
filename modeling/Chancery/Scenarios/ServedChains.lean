/-
Is a served chain a chain.

(1) `Named`: in every state, a CA's certificate is issued in the name of its parent, a previous or re-issued one too, and a
cross-certificate in the name of the CA it is linked to. Every request keeps it (`named_step`), so it holds after every run.
(2) `served_chain_iff`: the loop of `chain_pems` ends, and what it makes is a real chain (`RealChain`) exactly when the
alternate it is asked to go through is one it gets to, with the subject its CA has (`Fits`).
(3) `unfit_alternates`: an alternate of another CA is left out without a word, and an imported one with another subject
breaks the chain.
-/
import Mathlib.Tactic
import Chancery.Services.CaChain
import Chancery.Scenarios.CertificateEnds
import Chancery.Scenarios.PathLengths

namespace Chancery.Pki.ServedChains

open Chancery.Core

/-! ## (1) Names -/

/-- the subject of a CA -/
def subjectOf (s : Db) (i : ℤ) : Option Text := (s.cas.get? i).map (·.certificate.subject)

/-- **Named.** Who issued a certificate is who its row says. -/
structure Named (s : Db) : Prop where
  roots : ∀ ca ∈ s.cas, ca.isRoot = true → ca.parentId = none
  primary : ∀ ca ∈ s.cas, ∀ p, ca.parentId = some p → subjectOf s p = some ca.certificate.issuer
  reissues : ∀ a ∈ s.alternates, a.kind ≠ .cross → ∃ ca, s.cas.get? a.caId = some ca ∧
    a.certificate.subject = ca.certificate.subject ∧ ∀ p, ca.parentId = some p → subjectOf s p = some a.certificate.issuer
  crosses : ∀ a ∈ s.alternates, a.kind = .cross → ∀ i, a.issuerCaId = some i → subjectOf s i = some a.certificate.issuer

/-- CAs stay, with their subjects and parents -/
def KeepsNames (s s' : Db) : Prop :=
  ∀ i ca, s.cas.get? i = some ca → ∃ ca', s'.cas.get? i = some ca' ∧ ca'.certificate.subject = ca.certificate.subject ∧
    ca'.parentId = ca.parentId

/-- the columns of a CA that a chain is made of -/
def link (ca : CaRow) : X509 × Option ℤ × Bool := (ca.certificate, ca.parentId, ca.isRoot)

/-- writes that a chain does not notice -/
structure Same (s s' : Db) : Prop where
  cas : ∀ i, (s'.cas.get? i).map link = (s.cas.get? i).map link
  alternates : s'.alternates = s.alternates

section Names

variable {lib : Lib} {env : Env} {s s' : Db} {ca : CaRow} {i : ℤ}

theorem KeepsNames.subjectOf (h : KeepsNames s s') {t : Text} (ht : subjectOf s i = some t) : subjectOf s' i = some t := by
  obtain ⟨ca, hca, rfl⟩ := Option.map_eq_some_iff.1 ht
  obtain ⟨ca', hca', hsubject, _⟩ := h i ca hca
  rw [ServedChains.subjectOf, hca', Option.map_some, hsubject]

theorem Same.get? (h : Same s s') (hca : s.cas.get? i = some ca) : ∃ ca', s'.cas.get? i = some ca' ∧ link ca' =
    link ca := by
  have hcas := h.cas i
  rw [hca, Option.map_some] at hcas
  exact Option.map_eq_some_iff.1 hcas

theorem Same.symm (h : Same s s') : Same s' s := ⟨fun i => (h.cas i).symm, h.alternates.symm⟩

theorem Same.refl (s : Db) : Same s s := ⟨fun _ => rfl, rfl⟩

theorem Same.trans {s'' : Db} (h : Same s s') (h' : Same s' s'') : Same s s'' :=
  ⟨fun i => (h'.cas i).trans (h.cas i), h'.alternates.trans h.alternates⟩

theorem Same.keepsNames (h : Same s s') : KeepsNames s s' := by
  intro i ca hca
  obtain ⟨ca', hca', hlink⟩ := h.get? hca
  simp only [link, Prod.mk.injEq] at hlink
  exact ⟨ca', hca', congrArg X509.subject hlink.1, hlink.2.1⟩

/-- **Same.** What a chain does not notice keeps the names. -/
theorem Named.same (hs : Named s) (h : Same s s') : Named s' := by
  have hkeep := h.keepsNames
  have hrow : ∀ ca' ∈ s'.cas, ∃ ca ∈ s.cas, ca.certificate = ca'.certificate ∧ ca.parentId = ca'.parentId ∧
      ca.isRoot = ca'.isRoot := by
    intro ca' hca'
    obtain ⟨ca, hca, hlink⟩ := h.symm.get? (Table.get?_key hca')
    simp only [link, Prod.mk.injEq] at hlink
    exact ⟨ca, Table.mem_of_get? hca, hlink⟩
  constructor
  · intro ca' hca' hroot
    obtain ⟨ca, hca, _, hparent, hisRoot⟩ := hrow ca' hca'
    rw [← hparent]
    exact hs.roots ca hca (hisRoot.trans hroot)
  · intro ca' hca' p hp
    obtain ⟨ca, hca, hcert, hparent, _⟩ := hrow ca' hca'
    rw [← hcert]
    exact hkeep.subjectOf (hs.primary ca hca p (hparent.trans hp))
  · intro a ha hkind
    rw [h.alternates] at ha
    obtain ⟨ca, hca, hsubject, hissuer⟩ := hs.reissues a ha hkind
    obtain ⟨ca', hca', hsubject', hparent⟩ := hkeep _ ca hca
    exact ⟨ca', hca', hsubject.trans hsubject'.symm, fun p hp => hkeep.subjectOf (hissuer p (hparent.symm.trans hp))⟩
  · intro a ha hkind j hj
    rw [h.alternates] at ha
    exact hkeep.subjectOf (hs.crosses a ha hkind j hj)

/-! ### Writes that a chain does not notice -/

theorem same_withoutCrls (h : s'.withoutCrls = s.withoutCrls) : Same s s' := by
  refine ⟨fun i => ?_, ?_⟩
  · have hlink : ∀ t : Db, (t.cas.get? i).map link = (t.withoutCrls.cas.get? i).map link := by
      intro t
      rw [get?_withoutCrls, Option.map_map]
      rfl
    rw [hlink, h, ← hlink]
  · have halternates := congrArg Db.alternates h
    exact halternates

theorem same_updateCa {f : CaRow → CaRow} {hf : ∀ a, (f a).id = a.id} (hlink : ∀ a, link (f a) = link a) :
    Same s (s.updateCa i f hf) := by
  refine ⟨fun j => ?_, rfl⟩
  rw [get?_updateCa]
  split_ifs
  · rw [Option.map_map]
    exact congrArg (fun g => Option.map g (s.cas.get? j)) (funext hlink)
  · rfl

theorem same_revokeAll {now : DateTime} {reason : String} {l : List ℤ} : Same s (revokeAll now reason s l) := by
  refine ⟨fun j => ?_, alternates_revokeAll⟩
  rw [get?_revokeAll]
  split_ifs
  · rw [Option.map_map]
    rfl
  · rfl

theorem same_tables (hcas : s'.cas = s.cas) (halternates : s'.alternates = s.alternates) : Same s s' :=
  ⟨fun i => by rw [hcas], halternates⟩

/-! ### Writes that a chain notices -/

theorem keepsNames_insertCa (n : NewCa) : KeepsNames s (s.insertCa n) :=
  fun _ ca hca => ⟨ca, get?_insertCa_of_some hca, rfl, rfl⟩

theorem Named.insertCa (hs : Named s) {n : NewCa} (hroot : n.isRoot = true → n.parentId = none)
    (hparent : ∀ p, n.parentId = some p → subjectOf s p = some n.certificate.issuer) : Named (s.insertCa n) := by
  have hkeep := @keepsNames_insertCa s n
  constructor
  · intro ca hca hr
    rcases mem_insertCa.1 hca with hca | rfl
    · exact hs.roots ca hca hr
    · exact hroot hr
  · intro ca hca p hp
    rcases mem_insertCa.1 hca with hca | rfl
    · exact hkeep.subjectOf (hs.primary ca hca p hp)
    · exact hkeep.subjectOf (hparent p hp)
  · intro a ha hkind
    obtain ⟨ca, hca, hsubject, hissuer⟩ := hs.reissues a ha hkind
    exact ⟨ca, get?_insertCa_of_some hca, hsubject, fun p hp => hkeep.subjectOf (hissuer p hp)⟩
  · exact fun a ha hkind j hj => hkeep.subjectOf (hs.crosses a ha hkind j hj)

theorem Named.insertAlternate (hs : Named s) {n : NewAlternate}
    (hreissue : n.kind ≠ .cross → ∃ ca, s.cas.get? n.caId = some ca ∧ n.certificate.subject = ca.certificate.subject ∧
      ∀ p, ca.parentId = some p → subjectOf s p = some n.certificate.issuer)
    (hcross : n.kind = .cross → ∀ i, n.issuerCaId = some i → subjectOf s i = some n.certificate.issuer) :
    Named (s.insertAlternate n) := by
  have hmem : ∀ a ∈ (s.insertAlternate n).alternates, a ∈ s.alternates ∨ a = n.row s.alternates.nextKey := by
    intro a ha
    exact (@Table.mem_insert _ _ s.alternates n.row (fun _ => rfl) a).1 ha
  refine ⟨hs.roots, hs.primary, fun a ha hkind => ?_, fun a ha hkind => ?_⟩
  · rcases hmem a ha with hold | rfl
    · exact hs.reissues a hold hkind
    · exact hreissue hkind
  · rcases hmem a ha with hold | rfl
    · exact hs.crosses a hold hkind
    · exact hcross hkind

theorem Named.approveAlternate (hs : Named s) (altId : ℤ) : Named (s.approveAlternateRow altId) := by
  refine ⟨hs.roots, hs.primary, fun a ha hkind => ?_, fun a ha hkind => ?_⟩
  · obtain ⟨b, hb, rfl⟩ := List.mem_map.1 ha
    split_ifs at hkind ⊢ <;> exact hs.reissues b hb hkind
  · obtain ⟨b, hb, rfl⟩ := List.mem_map.1 ha
    split_ifs at hkind ⊢ <;> exact hs.crosses b hb hkind

theorem Named.deleteAlternate (hs : Named s) (altId : ℤ) : Named (s.deleteAlternate altId) :=
  ⟨hs.roots, hs.primary, fun a ha => hs.reissues a (Table.mem_filter.1 ha).1, fun a ha =>
    hs.crosses a (Table.mem_filter.1 ha).1⟩

/-- **Promote.** The re-issued certificate has the subject and the issuer the primary had. -/
theorem Named.promote (hs : Named s) {row : CaCertRow} (hca : s.cas.get? ca.id = some ca) (hrow : row ∈ s.alternates)
    (hof : row.caId = ca.id) (hkind : row.kind ≠ .cross) : Named (promoteReissue ca row s) := by
  have hmem : ca ∈ s.cas := Table.mem_of_get? hca
  obtain ⟨ca', hca', hsubject, hissuer⟩ := hs.reissues row hrow hkind
  rw [hof, hca] at hca'
  cases hca'
  have hget : ∀ i, (promoteReissue ca row s).cas.get? i =
      if i = ca.id then (s.cas.get? i).map (promoted row) else s.cas.get? i :=
    fun i => @get?_updateCa s ca.id i (promoted row) (fun _ => rfl)
  have hkeep : KeepsNames s (promoteReissue ca row s) := by
    intro i a ha
    rw [hget]
    split_ifs with hi
    · rw [hi, hca] at ha
      cases ha
      exact ⟨promoted row ca, by rw [hi, hca]; rfl, hsubject, rfl⟩
    · exact ⟨a, ha, rfl, rfl⟩
  have hcas : ∀ a ∈ (promoteReissue ca row s).cas, a ∈ s.cas ∨ a = promoted row ca := by
    intro a ha
    obtain ⟨b, hb, rfl⟩ := (@mem_updateCa s ca.id (promoted row) (fun _ => rfl) a).1 ha
    split_ifs with hid
    · rw [Table.eq_of_key hb hmem hid]
      exact .inr rfl
    · exact .inl hb
  have halternates : ∀ a ∈ (promoteReissue ca row s).alternates, a ∈ s.alternates ∨ ∃ id, a = previousOf ca id := by
    intro a ha
    have hin := (Table.mem_filter.1 ha).1
    rcases (@Table.mem_insert _ _ s.alternates (previousOf ca) (fun _ => rfl) a).1 hin with hold | hnew
    · exact .inl hold
    · exact .inr ⟨_, hnew⟩
  constructor
  · intro a ha hroot
    rcases hcas a ha with hold | rfl
    · exact hs.roots a hold hroot
    · exact hs.roots ca hmem hroot
  · intro a ha p hp
    rcases hcas a ha with hold | rfl
    · exact hkeep.subjectOf (hs.primary a hold p hp)
    · exact hkeep.subjectOf (hissuer p hp)
  · intro a ha hne
    rcases halternates a ha with hold | ⟨id, rfl⟩
    · obtain ⟨b, hb, hsame, hnames⟩ := hs.reissues a hold hne
      obtain ⟨b', hb', hsubject', hparent⟩ := hkeep _ b hb
      exact ⟨b', hb', hsame.trans hsubject'.symm, fun p hp => hkeep.subjectOf (hnames p (hparent.symm.trans hp))⟩
    · refine ⟨promoted row ca, by rw [hget]; exact (if_pos rfl).trans (congrArg _ hca), hsubject.symm, fun p hp => ?_⟩
      exact hkeep.subjectOf (hs.primary ca hmem p hp)
  · intro a ha hcross j hj
    rcases halternates a ha with hold | ⟨id, rfl⟩
    · exact hkeep.subjectOf (hs.crosses a hold hcross j hj)
    · cases hcross

/-! ### Requests that a chain notices -/

theorem Named.withoutCrls (hs : Named s) (h : s'.withoutCrls = s.withoutCrls) : Named s' := hs.same (same_withoutCrls h)

theorem named_createRootCa (hs : Named s) {form : CaForm} (h : createRootCa env form s = .ok s') : Named s' := by
  obtain ⟨_, _, h⟩ := bind_eq_ok.1 h
  obtain ⟨_, _, h⟩ := bind_eq_ok.1 h
  obtain ⟨_, _, h⟩ := bind_eq_ok.1 h
  obtain ⟨s₁, hs₁, h⟩ := bind_eq_ok.1 h
  cases h
  rw [addCa_ok hs₁]
  refine (hs.insertCa (fun _ => rfl) fun p hp => ?_).withoutCrls withoutCrls_publishInitialCrl
  cases hp

theorem named_createIntermediateCa (hs : Named s) (hca : s.cas.get? ca.id = some ca) {form : CaForm}
    (h : createIntermediateCa lib env form ca s = .ok s') : Named s' := by
  obtain ⟨_, _, h⟩ := bind_eq_ok.1 h
  obtain ⟨_, _, h⟩ := bind_eq_ok.1 h
  obtain ⟨_, _, h⟩ := bind_eq_ok.1 h
  obtain ⟨_, _, h⟩ := bind_eq_ok.1 h
  obtain ⟨_, _, h⟩ := bind_eq_ok.1 h
  obtain ⟨_, _, h⟩ := bind_eq_ok.1 h
  split_ifs at h
  obtain ⟨s₁, hs₁, h⟩ := bind_eq_ok.1 h
  cases h
  rw [addCa_ok hs₁]
  refine (hs.insertCa (fun hroot => absurd hroot Bool.false_ne_true) fun p hp => ?_).withoutCrls
    withoutCrls_publishInitialCrl
  cases hp
  rw [subjectOf, hca]
  rfl

/-- the issuer that is found in the table has the issuer's name -/
theorem findParentByIssuer_named {cert : X509} {p : ℤ} (h : findParentByIssuer lib cert s = some p) :
    subjectOf s p = some cert.issuer := by
  obtain ⟨a, ha, rfl⟩ := Option.map_eq_some_iff.1 h
  have hfound := List.find?_some ha
  simp only [Bool.and_eq_true, beq_iff_eq] at hfound
  rw [subjectOf, Table.get?_key (List.mem_of_find?_eq_some ha), Option.map_some, hfound.1.2]

section Library

variable (hlib : ∀ cert issuer, lib.directlyIssued cert issuer = true → cert.issuer = issuer.subject)

include hlib

theorem resolveParent_named {cert : X509} {parentId parent : Option ℤ} (h : resolveParent lib cert parentId s = .ok parent)
    {p : ℤ} (hp : parent = some p) : subjectOf s p = some cert.issuer := by
  subst hp
  unfold resolveParent at h
  cases parentId with
  | some q =>
    cases hq : s.cas.get? q with
    | none =>
      simp only [hq] at h
      cases h
    | some a =>
      simp only [hq] at h
      split_ifs at h with hrev hissued
      cases h
      rw [subjectOf, Table.key_of_get? hq, hq, Option.map_some, hlib cert a.certificate (by simpa using hissued)]
  | none =>
    simp only at h
    split_ifs at h
    · cases h
    · exact findParentByIssuer_named (Except.ok.inj h)

theorem named_importCaObject (hs : Named s) {name : Text} {cert : X509} {key : Option Text} {parentId : Option ℤ}
    (h : importCaObject lib env name cert key parentId s = .ok s') : Named s' := by
  obtain ⟨_, _, h⟩ := bind_eq_ok.1 h
  obtain ⟨_, _, h⟩ := bind_eq_ok.1 h
  split_ifs at h
  obtain ⟨parent, hparent, h⟩ := bind_eq_ok.1 h
  rw [addCa_ok h]
  refine hs.insertCa (fun hroot => ?_) fun p hp => resolveParent_named hlib hparent hp
  simpa using (Bool.and_eq_true_iff.1 hroot).2

theorem named_importParents {name : Text} {certs : List X509} {parentId leafParent : Option ℤ} (hs : Named s)
    (h : importParents lib env name certs parentId s = .ok (s', leafParent)) : Named s' := by
  induction certs generalizing s parentId with
  | nil =>
    cases h
    exact hs
  | cons cert certs ih =>
    rw [importParents] at h
    cases hfind : s.cas.rows.find? (·.serialNumber == formatHex cert.serialNumber) with
    | some existing =>
      rw [hfind] at h
      exact ih hs h
    | none =>
      rw [hfind] at h
      obtain ⟨s₁, hs₁, h⟩ := bind_eq_ok.1 h
      exact ih (named_importCaObject hlib hs hs₁) h

theorem named_importRows (hs : Named s) {form : ImportForm} {ordered : List X509}
    (h : importRows lib env form ordered s = .ok s') : Named s' := by
  unfold importRows at h
  split at h
  · exact named_importCaObject hlib hs h
  · unfold importChain at h
    cases ordered with
    | nil => cases h
    | cons leaf parents =>
      simp only at h
      split_ifs at h
      obtain ⟨⟨s₁, leafParent⟩, hs₁, h⟩ := bind_eq_ok.1 h
      exact named_importCaObject hlib (named_importParents hlib hs hs₁) h

theorem named_importCa (hs : Named s) {form : ImportForm} (h : importCa lib env form s = .ok s') : Named s' := by
  obtain ⟨ordered, _, h⟩ := bind_eq_ok.1 h
  obtain ⟨s₁, hs₁, h⟩ := bind_eq_ok.1 h
  cases h
  have happroval : Same s₁
    (s₁.updateCa s₁.lastCa (applyImportApproval form.approvalStatus) form.applyImportApproval_id) :=
      same_updateCa fun _ => rfl
  exact ((named_importRows hlib hs hs₁).same happroval).withoutCrls withoutCrls_publishInitialCrl

end Library

/-- a re-issued certificate has the subject of the CA, and the name of who signs it -/
theorem reissue_names {days : Option ℤ} {status : ApprovalStatus} {serial : ℤ}
    (h : reissueCaCertificate env ca days status serial s = .ok s') :
    ∃ (issuer : CaRow) (n : NewAlternate), reissueIssuer env ca s = .ok issuer ∧ n.caId = ca.id ∧ n.kind = .reissue ∧
      n.certificate.subject = ca.certificate.subject ∧ n.certificate.issuer = issuer.certificate.subject ∧
      s' = storeReissue ca n s := by
  obtain ⟨issuer, hissuer, h⟩ := bind_eq_ok.1 h
  obtain ⟨_, _, h⟩ := bind_eq_ok.1 h
  obtain ⟨notAfter, _, h⟩ := bind_eq_ok.1 h
  by_cases hkey : issuer.certificate.hasKeyId = true
  · rw [if_neg (by simp [hkey])] at h
    exact ⟨issuer, _, hissuer, rfl, rfl, rfl, rfl, (Except.ok.inj h).symm⟩
  · rw [if_pos (by simpa using hkey)] at h
    cases h

theorem named_reissue (hs : Named s) (hca : s.cas.get? ca.id = some ca) {days : Option ℤ} {status : ApprovalStatus}
    {serial : ℤ} (h : reissueCaCertificate env ca days status serial s = .ok s') : Named s' := by
  obtain ⟨issuer, n, hissuer, hof, hkind, hsubject, hname, rfl⟩ := reissue_names h
  have hnames : ∀ p, ca.parentId = some p → subjectOf s p = some n.certificate.issuer := by
    intro p hp
    -- a root has no parent
    by_cases hroot : ca.isRoot = true
    · rw [hs.roots ca (Table.mem_of_get? hca) hroot] at hp
      cases hp
    · have hparent := reissueIssuer_parent (by simpa using hroot) hissuer
      rw [hp, Option.bind_some] at hparent
      rw [subjectOf, hparent, Option.map_some, hname]
  have hne : n.kind ≠ .cross := by
    rw [hkind]
    exact fun hcross => nomatch hcross
  have hinsert : Named (s.insertAlternate n) :=
    hs.insertAlternate (fun _ => ⟨ca, by rw [hof, hca], hsubject, hnames⟩) fun hcross => absurd hcross hne
  unfold storeReissue
  split_ifs
  · have hmem : n.row s.alternates.nextKey ∈ (s.insertAlternate n).alternates :=
      (@Table.mem_insert _ _ s.alternates n.row (fun _ => rfl) _).2 (.inr rfl)
    exact hinsert.promote hca hmem hof hne
  · exact hinsert

theorem named_crossSign {issuer : CaRow} (hs : Named s) (hissuer : s.cas.get? issuer.id = some issuer) {days : Option ℤ}
    {status : ApprovalStatus} {serial : ℤ} (h : crossSignCa lib env ca issuer days status serial s = .ok s') : Named
      s' := by
  obtain ⟨_, _, h⟩ := bind_eq_ok.1 h
  obtain ⟨_, _, h⟩ := bind_eq_ok.1 h
  obtain ⟨_, _, h⟩ := bind_eq_ok.1 h
  obtain ⟨_, _, h⟩ := bind_eq_ok.1 h
  obtain ⟨_, _, h⟩ := bind_eq_ok.1 h
  split_ifs at h
  cases h
  refine hs.insertAlternate (fun hkind => absurd rfl hkind) fun _ i hi => ?_
  cases hi
  rw [subjectOf, hissuer]
  rfl

theorem named_importAlternate (hs : Named s) {cert : X509} (h : importAlternateCertificate lib ca cert s = .ok s') :
    Named s' := by
  obtain ⟨_, _, h⟩ := bind_eq_ok.1 h
  cases h
  refine hs.insertAlternate (fun hkind => absurd rfl hkind) fun _ i hi => ?_
  split_ifs at hi
  exact findParentByIssuer_named hi

theorem named_approveAlternate (hs : Named s) {row : CaCertRow} (hca : s.cas.get? ca.id = some ca)
    (hrow : s.alternates.get? row.id = some row) (hof : row.caId = ca.id) (h : approveAlternate ca row s = .ok s') :
    Named s' := by
  obtain ⟨_, ⟨hkind, rfl⟩ | ⟨_, rfl⟩⟩ := approveAlternate_ok h
  · exact hs.promote hca (Table.mem_of_get? hrow) hof (by rw [hkind]; exact fun h => nomatch h)
  · exact hs.approveAlternate row.id

/-! ### Requests that a chain does not notice -/

theorem same_addLeaf {form : LeafForm} {x : Issued} {escrowed : Bool} {renewedFrom : Option ℤ}
    (h : addLeaf env ca form x escrowed renewedFrom s = .ok s') : Same s s' := by
  obtain ⟨notAfter, _, h⟩ := bind_eq_ok.1 h
  split_ifs at h
  cases h
  exact same_tables rfl rfl

theorem same_createCertificate {caId : ℤ} {form : LeafForm} (h : createCertificate lib env caId form s = .ok s') :
    Same s s' := by
  unfold createCertificate at h
  cases hca : s.cas.get? caId with
  | none =>
    simp only [hca] at h
    cases h
  | some ca =>
    simp only [hca] at h
    split_ifs at h
    obtain ⟨_, _, h⟩ := bind_eq_ok.1 h
    obtain ⟨_, _, h⟩ := bind_eq_ok.1 h
    exact same_addLeaf h

theorem same_signRow {row : CsrRow} {form : LeafForm} (h : signRow lib env row ca form s = .ok s') : Same s s' := by
  obtain ⟨_, _, h⟩ := bind_eq_ok.1 h
  obtain ⟨s₁, hs₁, h⟩ := bind_eq_ok.1 h
  cases h
  exact (same_addLeaf hs₁).trans (same_tables rfl rfl)

theorem same_signCsr {csrId caId : ℤ} {form : LeafForm} (h : signCsr lib env csrId caId form s = .ok s') : Same s s' := by
  unfold signCsr at h
  cases hrow : s.csrs.get? csrId with
  | none =>
    simp only [hrow] at h
    cases h
  | some row =>
    simp only [hrow] at h
    split_ifs at h
    cases hca : s.cas.get? caId with
    | none =>
      simp only [hca] at h
      cases h
    | some ca =>
      simp only [hca] at h
      split_ifs at h
      obtain ⟨_, _, h⟩ := bind_eq_ok.1 h
      exact same_signRow h

theorem same_acmeSign {csrId caId : ℤ} {form : LeafForm} (h : acmeSign lib env csrId caId form s = .ok s') : Same s s' := by
  unfold acmeSign at h
  cases hca : s.cas.get? caId with
  | none =>
    simp only [hca] at h
    cases h
  | some ca =>
    simp only [hca] at h
    split_ifs at h
    cases hrow : s.csrs.get? csrId with
    | none =>
      simp only [hrow] at h
      cases h
    | some row =>
      simp only [hrow] at h
      obtain ⟨_, _, h⟩ := bind_eq_ok.1 h
      exact same_signRow h

theorem same_revokeCertificate {certId : ℤ} {reason : String} (h : revokeCertificate env.now certId reason s = .ok s') :
    Same s s' := by
  obtain ⟨c, _, _, _, rfl⟩ := revokeCertificate_ok h
  exact same_tables rfl rfl

theorem same_renewLeaf {old : LeafRow} {form : RenewForm} (h : renewLeaf lib env old ca form s = .ok s') : Same s s' := by
  obtain ⟨_, _, h⟩ := bind_eq_ok.1 h
  obtain ⟨_, _, h⟩ := bind_eq_ok.1 h
  obtain ⟨s₁, hs₁, h⟩ := bind_eq_ok.1 h
  split_ifs at h
  · exact (same_addLeaf hs₁).trans (same_revokeCertificate h)
  · cases h
    exact same_addLeaf hs₁

theorem same_refreshCrl {ca? : Option CaRow} (h : refreshCrl env ca? s = .ok s') : Same s s' :=
  same_withoutCrls (withoutCrls_refreshCrl h)

theorem same_refreshPrimary {caId : ℤ} (h : refreshPrimary env caId s = .ok s') : Same s s' :=
  same_withoutCrls (withoutCrls_refreshPrimary h)

theorem same_generateCrl {nextUpdate : Option DateTime} (h : generateCrl env ca nextUpdate s = .ok s') : Same s s' :=
  same_withoutCrls (withoutCrls_generateCrl h)

theorem same_tryGenerate : Same s ((generateCrl env ca none s).toOption.getD s) := by
  cases h : generateCrl env ca none s with
  | error e => exact .refl s
  | ok s' => exact same_generateCrl h

theorem same_revokeCaRequest {caId : ℤ} {reason : String} : Same s (revokeCaRequest env caId reason s).1 := by
  unfold revokeCaRequest
  cases hx : env.checks >>= fun _ => sweepCa env.now caId reason s with
  | error e => exact .refl s
  | ok x =>
    obtain ⟨_, _, hrevoke⟩ := bind_eq_ok.1 hx
    obtain ⟨_, l, hdb, _⟩ := sweepCa_ok hrevoke
    have hswept : Same s x.db := by
      rw [hdb]
      exact same_revokeAll
    exact hswept.trans (same_withoutCrls withoutCrls_publishRevocationCrls)

theorem same_currentCrl : Same s (currentCrl env ca s) := by
  unfold currentCrl
  cases ca.crl with
  | none => exact .refl s
  | some crl =>
    simp only
    split_ifs
    · exact same_tryGenerate
    · exact .refl s

theorem same_refreshStale {caId : ℤ} : Same s (refreshStale env s caId) := by
  unfold refreshStale
  cases capable? caId s with
  | none => exact .refl s
  | some ca =>
    simp only
    split_ifs
    · exact same_tryGenerate
    · exact .refl s

theorem same_crlRefreshJob (ids : List ℤ) : Same s (ids.foldl (refreshStale env) s) := by
  induction ids generalizing s with
  | nil => exact .refl s
  | cons j ids ih => exact same_refreshStale.trans ih

theorem same_crlRefreshCli {all : Bool} (ids : List ℤ) : Same s (crlRefreshCli env all ids s).1 := by
  induction ids generalizing s with
  | nil => exact .refl s
  | cons j ids ih =>
    rw [crlRefreshCli]
    cases (s.cas.get? j).filter (fun ca => !ca.isRevoked && !ca.cannotSign && (all || crlIsStale ca env.now 0)) with
    | none => exact ih
    | some ca =>
      simp only
      cases hg : generateCrl env ca none s with
      | error e => exact .refl s
      | ok s₁ => exact (same_generateCrl hg).trans ih

/-! ### One request -/

theorem named_of (hs : Named s) {r : Except PyError Db} (h : ∀ s', r = .ok s' → Named s') : Named (Result.of s r).1 := by
  cases r with
  | error e => exact hs
  | ok s' => exact h s' rfl

theorem named_afterCommit (hs : Named s) {r : Except PyError Db} {refresh : Db → Except PyError Db}
    (h : ∀ s₁, r = .ok s₁ → Named s₁) (hrefresh : ∀ s₁ s₂, refresh s₁ = .ok s₂ → Same s₁ s₂) :
    Named (afterCommit s r refresh).1 := by
  cases r with
  | error e => exact hs
  | ok s₁ => exact named_of (h s₁ rfl) fun s₂ hs₂ => (h s₁ rfl).same (hrefresh s₁ s₂ hs₂)

theorem named_withCa (hs : Named s) {caId : ℤ} {f : CaRow → Result}
    (h : ∀ ca, s.cas.get? ca.id = some ca → Named (f ca).1) : Named (withCa caId s f).1 := by
  unfold withCa
  cases hca : s.cas.get? caId with
  | none => exact hs
  | some ca => exact h ca (by rwa [Table.key_of_get? hca])

theorem named_withAlternate (hs : Named s) {altId : ℤ} {f : CaCertRow → Result}
    (h : ∀ row, s.alternates.get? row.id = some row → row.caId = ca.id → Named (f row).1) :
    Named (withAlternate ca altId s f).1 := by
  unfold withAlternate
  cases hrow : s.alternates.get? altId with
  | none => exact hs
  | some row =>
    simp only
    split_ifs with hof
    · exact hs
    · exact h row (by rwa [Table.key_of_get? hrow]) (not_not.1 hof)

/-- **One request keeps the names.** -/
theorem named_step (hlib : ∀ cert issuer, lib.directlyIssued cert issuer = true → cert.issuer = issuer.subject)
    (hs : Named s) (o : Env × Request) : Named (step lib s o) := by
  obtain ⟨env, r⟩ := o
  show Named (handle lib s env r).1
  cases r with
  | createRoot form => exact named_of hs fun _ => named_createRootCa hs
  | createIntermediate parentId form =>
    unfold handle
    simp only
    cases hcap : capable? parentId s with
    | none => exact hs
    | some parent => exact named_of hs fun _ => named_createIntermediateCa hs (capable_get? hcap)
  | importCa form => exact named_of hs fun _ => named_importCa hlib hs
  | createCertificate caId form => exact named_of hs fun _ h => hs.same (same_createCertificate h)
  | importCsr csr =>
    refine named_of hs fun s' h => ?_
    cases hchecks : env.checks with
    | error e =>
      rw [hchecks] at h
      cases h
    | ok u =>
      rw [hchecks] at h
      cases h
      exact hs.same (same_tables rfl rfl)
  | signCsr csrId caId form => exact named_of hs fun _ h => hs.same (same_signCsr h)
  | acmeSign csrId caId form => exact named_of hs fun _ h => hs.same (same_acmeSign h)
  | renew certId form =>
    unfold handle
    simp only
    cases s.leaves.get? certId with
    | none => exact hs
    | some old =>
      refine named_withCa hs fun ca hca => named_afterCommit hs (fun _ h => hs.same (same_renewLeaf h)) ?_
      intro s₁ s₂ h
      split_ifs at h
      · exact same_refreshCrl h
      · cases h
        exact .refl s₁
  | reissue caId days status serial =>
    refine named_withCa hs fun ca hca => named_afterCommit hs (fun _ => named_reissue hs hca) ?_
    intro s₁ s₂ h
    split_ifs at h
    · exact same_refreshPrimary h
    · cases h
      exact .refl s₁
  | crossSign caId issuerId days status serial =>
    refine named_withCa hs fun ca hca => ?_
    cases hcap : capable? issuerId s with
    | none => exact hs
    | some issuer => exact named_of hs fun _ => named_crossSign hs (capable_get? hcap)
  | importAlternate caId cert =>
    exact named_withCa hs fun ca _ => named_of hs fun _ => named_importAlternate hs
  | approve caId =>
    refine named_withCa hs fun ca _ => ?_
    show Named (approveCa env ca s).1
    unfold approveCa
    split_ifs
    · exact hs
    · cases env.checks with
      | error e => exact hs
      | ok _ =>
        have happroved : Same s (s.updateCa ca.id (fun a => { a with approvalStatus := .approved }) CaRow.approve_id) :=
          same_updateCa fun _ => rfl
        exact (hs.same happroved).withoutCrls withoutCrls_publishInitialCrl
  | approveAlternate caId altId =>
    refine named_withCa hs fun ca hca => named_withAlternate hs fun row hrow hof => named_afterCommit hs ?_ ?_
    · intro s₁ h
      obtain ⟨_, _, h⟩ := bind_eq_ok.1 h
      exact named_approveAlternate hs hca hrow hof h
    · intro s₁ s₂ h
      split_ifs at h
      · exact same_refreshPrimary h
      · cases h
        exact .refl s₁
  | deleteAlternate caId altId =>
    exact named_withCa hs fun ca _ => named_withAlternate hs fun row _ _ => hs.deleteAlternate row.id
  | setAcme caId enable =>
    refine named_withCa hs fun ca _ => named_of hs fun s' h => ?_
    unfold setAcme at h
    split_ifs at h
    obtain ⟨_, _, h⟩ := bind_eq_ok.1 h
    cases h
    exact hs.same (same_updateCa fun _ => rfl)
  | revokeCertificate certId reason =>
    refine named_afterCommit hs (fun s₁ h => ?_) fun s₁ s₂ => same_refreshCrl
    obtain ⟨_, _, h⟩ := bind_eq_ok.1 h
    exact hs.same (same_revokeCertificate h)
  | revokeCa caId reason => exact hs.same same_revokeCaRequest
  | generateCrl caId =>
    refine named_withCa hs fun ca _ => ?_
    split_ifs
    · exact hs
    · exact named_of hs fun _ h => hs.same (same_generateCrl h)
  | currentCrl caId => exact named_withCa hs fun ca _ => hs.same same_currentCrl
  | crlRefreshJob => exact hs.same (same_crlRefreshJob _)
  | crlRefreshCli all => exact hs.same (same_crlRefreshCli _)

theorem named_empty : Named Db.empty :=
  ⟨fun _ h => absurd h List.not_mem_nil, fun _ h => absurd h List.not_mem_nil, fun _ h => absurd h List.not_mem_nil,
    fun _ h => absurd h List.not_mem_nil⟩

/-- **(1) Every run keeps the names.** -/
theorem named_run (hlib : ∀ cert issuer, lib.directlyIssued cert issuer = true → cert.issuer = issuer.subject)
    (ops : List (Env × Request)) : Named (run (step lib) Db.empty ops) :=
  run_invariant (I := Named) (fun _ o hs => named_step hlib hs o) named_empty ops

end Names

/-! ## (2) Chains -/

/-- the CAs above a CA, itself included -/
def Above (s : Db) : CaRow → CaRow → Prop := LeadsTo fun ca => ca.parent s

/-- a certificate of the CA: its own, or the alternate that was asked for -/
def CertificateOf (via : Option CaCertRow) (ca : CaRow) (cert : X509) : Prop :=
  cert = ca.certificate ∨ ∃ row, via = some row ∧ row.caId = ca.id ∧ cert = row.certificate

/-- **A real chain.** It goes from the CA over others, none twice, each certificate is issued in the name of the next one,
and the alternate is in it. -/
structure RealChain (s : Db) (ca : CaRow) (via : Option CaCertRow) (chain : List X509) : Prop where
  listed : ∃ cas : List CaRow, List.Forall₂ (CertificateOf via) cas chain ∧ cas.head? = some ca ∧
    (∀ a ∈ cas, s.cas.get? a.id = some a) ∧ (cas.map CaRow.id).Nodup
  linked : chain.IsChain fun a b => a.issuer = b.subject
  routed : ∀ row, via = some row → row.certificate ∈ chain

/-- the chain ends, and is a real one unless the alternate is refused -/
def Real (s : Db) (n : ℕ) (ca : CaRow) (via : Option CaCertRow) : Prop :=
  match chainPems s n ca via with
  | .error _ => True
  | .ok none => False
  | .ok (some chain) => RealChain s ca via chain

/-- **Fits.** The alternate belongs to a CA above and has its subject, unless it is the first; or none above has an
alternate to go through, and one of them has the certificate anyway. -/
def Fits (s : Db) (ca : CaRow) (row : CaCertRow) : Prop :=
  (∃ owner, Above s ca owner ∧ owner.id = row.caId ∧ (owner = ca ∨ owner.certificate.subject = row.certificate.subject)) ∨
  (∀ a, Above s ca a → a.id ≠ row.caId) ∧ ∃ a, Above s ca a ∧ a.certificate = row.certificate

section Chains

variable {s : Db} {via : Option CaCertRow} {row : CaCertRow} {ca a b : CaRow} {n : ℕ}

theorem certificateOf_served : CertificateOf via a (served via a) := by
  unfold served
  cases via with
  | none => exact .inl rfl
  | some row =>
    simp only
    split_ifs with hof
    · exact .inr ⟨row, rfl, hof, rfl⟩
    · exact .inl rfl

theorem parent_subject {p : Option ℤ} {name : Text} (hb : p.bind s.cas.get? = some b)
    (hname : ∀ i, p = some i → subjectOf s i = some name) : name = b.certificate.subject := by
  obtain ⟨i, hi, hget⟩ := Option.bind_eq_some_iff.1 hb
  have hsubject := hname i hi
  rw [subjectOf, hget] at hsubject
  exact (Option.some.inj hsubject).symm

/-- the certificate a CA is served with is issued in the name of the next CA -/
theorem issuer_served (hs : Named s) (ha : s.cas.get? a.id = some a) (hvia : ∀ row, via = some row → row ∈ s.alternates)
    (h : onward s via a = some b) : (served via a).issuer = b.certificate.subject := by
  have hprimary := hs.primary a (Table.mem_of_get? ha)
  cases via with
  | none => exact parent_subject h hprimary
  | some row =>
    have hrow := hvia row rfl
    simp only [onward, served] at h ⊢
    by_cases hof : row.caId = a.id
    · rw [if_pos hof]
      by_cases hcross : row.kind = .cross
      · rw [if_pos ⟨hof, hcross⟩] at h
        exact parent_subject h (hs.crosses row hrow hcross)
      · rw [if_neg fun hc => hcross hc.2] at h
        obtain ⟨a', ha', _, hnames⟩ := hs.reissues row hrow hcross
        rw [hof, ha] at ha'
        cases ha'
        exact parent_subject h hnames
    · rw [if_neg fun hc => hof hc.1] at h
      rw [if_neg hof]
      exact parent_subject h hprimary

/-- the route is the same up to the CA of the alternate -/
theorem onward_agrees (hne : ¬a.id = row.caId) : onward s (some row) a = a.parent s :=
  if_neg fun hc => hne hc.1.symm

theorem same_owner (hca : s.cas.get? ca.id = some ca) {via via' : Option CaCertRow} (ha : LeadsTo (onward s via) ca a)
    (hb : LeadsTo (onward s via') ca b) (hid : a.id = b.id) : a = b :=
  Table.eq_of_key (Table.mem_of_get? (leadsTo_mem hca ha)) (Table.mem_of_get? (leadsTo_mem hca hb)) hid

/-- the route gets to the CA of the alternate when it is above -/
theorem leadsTo_owner_iff (hca : s.cas.get? ca.id = some ca) (hid : a.id = row.caId) :
    LeadsTo (onward s (some row)) ca a ↔ Above s ca a := by
  constructor
  · intro h
    rcases h.or_stop fun _ => @onward_agrees s row _ with ⟨c, hc, hfrom, habove⟩ | habove
    · rwa [same_owner hca hfrom h (hc.trans hid.symm)] at habove
    · exact habove
  · intro h
    rcases LeadsTo.or_stop h fun _ hne => (@onward_agrees s row _ hne).symm with ⟨c, hc, habove, hfrom⟩ | hfrom
    · have hreach : LeadsTo (onward s none) ca c := habove
      have howner : LeadsTo (onward s none) ca a := h
      rwa [same_owner hca hreach howner (hc.trans hid.symm)] at hfrom
    · exact hfrom

/-- without the CA of the alternate the route is what is above -/
theorem leadsTo_iff_above (hnone : ∀ a, Above s ca a → a.id ≠ row.caId) :
    LeadsTo (onward s (some row)) ca a ↔ Above s ca a := by
  constructor
  · intro h
    rcases h.or_stop fun _ => @onward_agrees s row _ with ⟨c, hc, _, habove⟩ | habove
    · exact absurd hc (hnone c habove)
    · exact habove
  · intro h
    rcases LeadsTo.or_stop h fun _ hne => (@onward_agrees s row _ hne).symm with ⟨c, hc, habove, _⟩ | hfrom
    · exact absurd hc (hnone c habove)
    · exact hfrom

/-- the steps of a route fit when its CAs but the first are served with their subjects -/
theorem linked_iff (hs : Named s) (hca : s.cas.get? ca.id = some ca) (hvia : ∀ row, via = some row → row ∈ s.alternates)
    {cas : List CaRow} (hroute : route s via n ca = some cas) :
    ((cas.map (served via)).IsChain fun a b => a.issuer = b.subject) ↔
      ∀ b ∈ cas.tail, b.certificate.subject = (served via b).subject := by
  have hmem : ∀ a ∈ cas, s.cas.get? a.id = some a := fun a ha => leadsTo_mem hca ((mem_route hca hroute).1 ha)
  have hchain := isChain_follow hroute
  rw [List.isChain_map]
  -- a step of the route, with its CA in the table
  have hsteps : cas.IsChain fun a b => onward s via a = some b ∧ s.cas.get? a.id = some a :=
    hchain.imp_of_mem_imp fun a b ha _ hab => ⟨hab, hmem a ha⟩
  refine isChain_iff_tail (fun a b hab => ?_) hsteps
  rw [issuer_served hs hab.2 hvia hab.1]

/-- with an alternate, only its CA is served with another subject -/
theorem linked_via_iff (hs : Named s) (hca : s.cas.get? ca.id = some ca) (hrow : row ∈ s.alternates) {cas : List CaRow}
    (hroute : route s (some row) n ca = some cas) :
    ((cas.map (served (some row))).IsChain fun a b => a.issuer = b.subject) ↔
      ∀ owner ∈ cas, owner.id = row.caId → owner = ca ∨ owner.certificate.subject = row.certificate.subject := by
  rw [linked_iff hs hca (fun _ hr => Option.some.inj hr ▸ hrow) hroute]
  obtain ⟨rest, rfl⟩ : ∃ rest, cas = ca :: rest := List.head?_eq_some_iff.1 (follow_head? hroute)
  have hnodup := nodup_follow hroute
  rw [List.map_cons, List.nodup_cons] at hnodup
  rw [List.tail_cons]
  constructor
  · intro h owner howner hid
    rcases List.mem_cons.1 howner with rfl | hin
    · exact .inl rfl
    · have hsubject := h owner hin
      rw [served, if_pos hid.symm] at hsubject
      exact .inr hsubject
  · intro h b hb
    by_cases hid : row.caId = b.id
    · rw [served, if_pos hid]
      rcases h b (List.mem_cons_of_mem _ hb) hid.symm with rfl | hsubject
      · exact absurd (List.mem_map_of_mem hb) hnodup.1
      · exact hsubject
    · rw [served, if_neg hid]

/-- the alternate is in the chain when its CA is on the route, or a CA with its certificate is -/
theorem routed_iff {cas : List CaRow} : row.certificate ∈ cas.map (served (some row)) ↔
    (∃ owner ∈ cas, owner.id = row.caId) ∨ ∃ a ∈ cas, a.certificate = row.certificate := by
  constructor
  · intro h
    obtain ⟨a, ha, hserved⟩ := List.mem_map.1 h
    by_cases hid : row.caId = a.id
    · exact .inl ⟨a, ha, hid.symm⟩
    · rw [served, if_neg hid] at hserved
      exact .inr ⟨a, ha, hserved⟩
  · rintro (⟨owner, howner, hid⟩ | ⟨a, ha, hcert⟩)
    · exact List.mem_map.2 ⟨owner, howner, if_pos hid.symm⟩
    · refine List.mem_map.2 ⟨a, ha, ?_⟩
      rw [served, hcert, ite_self]

/-- what the loop lists is listed as a real chain is -/
theorem realChain_iff (hca : s.cas.get? ca.id = some ca) {cas : List CaRow} (hroute : route s via n ca = some cas) :
    RealChain s ca via (cas.map (served via)) ↔ ((cas.map (served via)).IsChain fun a b => a.issuer = b.subject) ∧
      ∀ row, via = some row → row.certificate ∈ cas.map (served via) := by
  refine ⟨fun h => ⟨h.linked, h.routed⟩, fun h => ⟨⟨cas, ?_, ?_, ?_, ?_⟩, h.1, h.2⟩⟩
  · rw [List.forall₂_map_right_iff]
    exact List.forall₂_same.2 fun a _ => certificateOf_served
  · exact follow_head? hroute
  · exact fun a ha => leadsTo_mem hca ((mem_route hca hroute).1 ha)
  · exact nodup_follow hroute

theorem fits_iff (hca : s.cas.get? ca.id = some ca) {cas : List CaRow} (hroute : route s (some row) n ca = some cas) :
    Fits s ca row ↔
      (∀ owner ∈ cas, owner.id = row.caId → owner = ca ∨ owner.certificate.subject = row.certificate.subject) ∧
        ((∃ owner ∈ cas, owner.id = row.caId) ∨ ∃ a ∈ cas, a.certificate = row.certificate) := by
  have howner : ∀ {a : CaRow}, a.id = row.caId → (a ∈ cas ↔ Above s ca a) := fun hid =>
    (mem_route hca hroute).trans (leadsTo_owner_iff hca hid)
  constructor
  · rintro (⟨owner, habove, hid, hfit⟩ | ⟨hnone, a, ha, hcert⟩)
    · have hin := (howner hid).2 habove
      refine ⟨fun other hother hother_id => ?_, .inl ⟨owner, hin, hid⟩⟩
      have hsame := same_owner hca ((mem_route hca hroute).1 hother) ((mem_route hca hroute).1 hin)
        (hother_id.trans hid.symm)
      rwa [hsame]
    · have hin : a ∈ cas := (mem_route hca hroute).2 ((leadsTo_iff_above hnone).2 ha)
      exact ⟨fun owner hin hid => absurd hid (hnone owner ((howner hid).1 hin)), .inr ⟨a, hin, hcert⟩⟩
  · rintro ⟨hsubjects, hrouted⟩
    by_cases hexists : ∃ owner ∈ cas, owner.id = row.caId
    · obtain ⟨owner, hin, hid⟩ := hexists
      exact .inl ⟨owner, (howner hid).1 hin, hid, hsubjects owner hin hid⟩
    · have hnone : ∀ a, Above s ca a → a.id ≠ row.caId := fun a ha hid => hexists ⟨a, (howner hid).2 ha, hid⟩
      obtain ⟨a, ha, hcert⟩ := hrouted.resolve_left hexists
      exact .inr ⟨hnone, a, (leadsTo_iff_above hnone).1 ((mem_route hca hroute).1 ha), hcert⟩

/-- **(2) One chain.** -/
theorem real_iff (hs : Named s) (hca : s.cas.get? ca.id = some ca) (hvia : ∀ row, via = some row → row ∈ s.alternates)
    (hn : s.cas.rows.length < n) :
    Real s n ca via ↔ ∀ row, via = some row → row.isUsable s = true → Fits s ca row := by
  by_cases husable : ∀ row, via = some row → row.isUsable s = true
  · obtain ⟨cas, hroute⟩ := Option.isSome_iff_exists.1 (@route_isSome s via n ca hca hn)
    rw [Real, chainPems_eq husable, hroute]
    show RealChain s ca via (cas.map (served via)) ↔ _
    rw [realChain_iff hca hroute]
    cases via with
    | none =>
      have hlinked := (linked_iff hs hca hvia hroute).2 fun _ _ => rfl
      exact iff_of_true ⟨hlinked, fun _ hr => nomatch hr⟩ fun _ hr => nomatch hr
    | some row =>
      have hlinked := linked_via_iff hs hca (hvia row rfl) hroute
      have hfits := fits_iff hca hroute
      constructor
      · rintro ⟨hchain, hrouted⟩ _ ⟨⟩ _
        exact hfits.2 ⟨hlinked.1 hchain, routed_iff.1 (hrouted row rfl)⟩
      · intro h
        obtain ⟨hsubjects, hrouted⟩ := hfits.1 (h row rfl (husable row rfl))
        exact ⟨hlinked.2 hsubjects, fun _ hr => Option.some.inj hr ▸ routed_iff.2 hrouted⟩
  · push Not at husable
    obtain ⟨row, rfl, hunusable⟩ := husable
    have hrefused : chainPems s n ca (some row) = .error notUsable := if_pos (by simpa using hunusable)
    rw [Real, hrefused]
    exact iff_of_true trivial fun _ hr husable => absurd (Option.some.inj hr ▸ husable) hunusable

end Chains

/-- **(2) Every hierarchy.** -/
theorem served_chain_iff {lib : Lib}
    (hlib : ∀ cert issuer, lib.directlyIssued cert issuer = true → cert.issuer = issuer.subject)
    (ops : List (Env × Request)) {n : ℕ} {ca : CaRow} {via : Option CaCertRow}
    (hca : ca ∈ (run (step lib) Db.empty ops).cas)
    (hvia : ∀ row, via = some row → row ∈ (run (step lib) Db.empty ops).alternates)
    (hn : (run (step lib) Db.empty ops).cas.rows.length < n) :
    Real (run (step lib) Db.empty ops) n ca via ↔
      ∀ row, via = some row → row.isUsable (run (step lib) Db.empty ops) = true →
        Fits (run (step lib) Db.empty ops) ca row :=
  real_iff (named_run hlib ops) (Table.get?_key hca) hvia hn

/-- a CA is issued by who has the issuer's name -/
def namingLib : Lib := { sampleLib with directlyIssued := fun cert issuer => cert.issuer == issuer.subject }

theorem namingLib_names (cert issuer : X509) (h : namingLib.directlyIssued cert issuer = true) :
    cert.issuer = issuer.subject := eq_of_beq h

/-- two roots, the first cross-signed by the second -/
def crossedRoots : List (Env × Request) :=
  [(Env.at 0, .createRoot (sampleForm "root" 16 none)), (Env.at 0, .createRoot (sampleForm "other" 32 none)),
    (Env.at day, .crossSign 1 2 none .approved 48)]

theorem served_chain_crossed : ∃ ca row, (run (step namingLib) Db.empty crossedRoots).cas.get? 1 = some ca ∧
    (run (step namingLib) Db.empty crossedRoots).alternates.get? 1 = some row ∧
    Real (run (step namingLib) Db.empty crossedRoots) 3 ca (some row) := by
  obtain ⟨ca, hca⟩ := Option.isSome_iff_exists.1
    (by decide +kernel : ((run (step namingLib) Db.empty crossedRoots).cas.get? 1).isSome)
  obtain ⟨row, hrow⟩ := Option.isSome_iff_exists.1
    (by decide +kernel : ((run (step namingLib) Db.empty crossedRoots).alternates.get? 1).isSome)
  have hof : ((run (step namingLib) Db.empty crossedRoots).alternates.get? 1).map (·.caId) = some 1 := by decide +kernel
  rw [hrow] at hof
  have hvia : ∀ a, some row = some a → a ∈ (run (step namingLib) Db.empty crossedRoots).alternates :=
    fun _ ha => Option.some.inj ha ▸ Table.mem_of_get? hrow
  refine ⟨ca, row, hca, hrow, (served_chain_iff namingLib_names crossedRoots (Table.mem_of_get? hca) hvia
    (by decide +kernel)).2 ?_⟩
  -- the alternate belongs to the CA itself
  rintro _ ⟨⟩ _
  exact .inl ⟨ca, .refl, (Table.key_of_get? hca).trans (Option.some.inj hof).symm, .inl rfl⟩

/-! ## (3) Alternates that do not fit -/

/-- a root with an imported alternate of another name, and a sub-CA -/
def renamedRoot : List (Env × Request) :=
  [(Env.at 0, .createRoot (sampleForm "root" 16 none)), (Env.at 0, .createIntermediate 1 (sampleForm "sub" 32 none)),
    (Env.at day, .importAlternate 1
      { sampleCertificate "old root" "legacy" 48 0 (3650 * day) with publicKey := "root".toList })]

/-- the chain of a CA through an alternate -/
def chainThrough (s : Db) (caId altId : ℤ) : Option (List X509) := do
  let ca ← s.cas.get? caId
  let row ← s.alternates.get? altId
  (chainPems s 3 ca (some row)).toOption.join

/-- a chain that is not linked or leaves out the alternate -/
theorem not_real {s : Db} {caId altId : ℤ} (h : ((s.alternates.get? altId).bind fun row => (chainThrough s caId altId).map
      fun chain => decide (chain.IsChain fun a b => a.issuer = b.subject) && decide (row.certificate ∈ chain)) =
        some false) :
    ∃ ca row, s.cas.get? caId = some ca ∧ s.alternates.get? altId = some row ∧ ¬Real s 3 ca (some row) := by
  obtain ⟨row, hrow, h⟩ := Option.bind_eq_some_iff.1 h
  obtain ⟨chain, hchain, hbad⟩ := Option.map_eq_some_iff.1 h
  obtain ⟨ca, hca, hchain⟩ := Option.bind_eq_some_iff.1 hchain
  rw [hrow] at hchain
  refine ⟨ca, row, hca, hrow, fun hreal => ?_⟩
  unfold Real at hreal
  cases hx : chainPems s 3 ca (some row) with
  | error e =>
    rw [Option.bind_eq_bind, Option.bind_some, hx] at hchain
    cases hchain
  | ok chain? =>
    rw [Option.bind_eq_bind, Option.bind_some, hx] at hchain
    have hsome : chain? = some chain := hchain
    rw [hx, hsome] at hreal
    simp [hreal.linked, hreal.routed row rfl] at hbad

/-- **(3)** The chain of the other root leaves out the alternate of the first one; the chain of the sub-CA goes on with a
certificate of another name. -/
theorem unfit_alternates :
    (∃ ca row, (run (step namingLib) Db.empty crossedRoots).cas.get? 2 = some ca ∧
      (run (step namingLib) Db.empty crossedRoots).alternates.get? 1 = some row ∧
      ¬Real (run (step namingLib) Db.empty crossedRoots) 3 ca (some row)) ∧
    ∃ ca row, (run (step namingLib) Db.empty renamedRoot).cas.get? 2 = some ca ∧
      (run (step namingLib) Db.empty renamedRoot).alternates.get? 1 = some row ∧
      ¬Real (run (step namingLib) Db.empty renamedRoot) 3 ca (some row) :=
  ⟨not_real (by decide +kernel), not_real (by decide +kernel)⟩

end Chancery.Pki.ServedChains
