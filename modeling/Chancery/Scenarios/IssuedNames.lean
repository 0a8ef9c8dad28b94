/-
Name constraints of issued certificates: every issuance path, any CA hierarchy, any stored constraints.

`enforce` sees the SAN strings and ONE common name: the request's (direct issuance), the CSR row's (signing, ACME) or the
old row's (renewal). The SANs of the certificate are built from the same strings, but its subject is the CSR's or the old
certificate's whole subject.

(1) `respects_constraints_iff`: an issued certificate respects the constraints of its whole chain exactly when the
hostname-like common names of the subject other than the checked one are accepted (`OthersAccepted`); direct issuance
always does.
(2) `unchecked_common_name_escapes`: a CSR with two common names gets its first one past the constraints.
-/
import Mathlib.Tactic
import Chancery.Scenarios.AcmeCertificateNames

namespace Chancery

open Chancery.Core

namespace IssuedNames

open San (Kind)
open NameConstraints (ChainAccepts looksLikeHostname commonNameAsDns)

/-! ## Requests -/

/-- where a certificate is issued: the libraries, the table of CAs and the issuing CA -/
structure Site where
  names : NameLib
  cas : CaTable
  ca : IssuingCa

/-- the certificate that a finalize request adds to the table; it stays there when the request fails at its last commit -/
def acmeCertificate (E : Acme.Env) (f : Acme.Finalization) (plan : Acme.Phase → Acme.Tick) (s : Acme.Session) :
    Option Issued :=
  ((Acme.finalize E f plan s).1.db.certificates.get? s.db.certificates.nextKey).map (·.issued)

inductive Request
  | create (site : Site) (attrs : CertService.SubjectAttrs) (sanList : List Text) (v : Verdicts) (now : DateTime)
  | sign (site : Site) (row : CsrRow) (sanList : List Text) (v : Verdicts) (now : DateTime)
  | acme (f : Acme.Finalization) (plan : Acme.Phase → Acme.Tick) (s : Acme.Session)
  | renew (site : Site) (old : Issued) (options : CertService.Renewal) (v : Verdicts) (now : DateTime)

namespace Request

def site : Request → Site
  | create site _ _ _ _ => site
  | sign site _ _ _ _ => site
  | acme f _ _ => ⟨f.server.names, f.server.cas, f.server.ca⟩
  | renew site _ _ _ _ => site

/-- the certificate, if one is issued -/
def outcome (E : Acme.Env) : Request → Option Issued
  | create x attrs sanList v now => (CertService.createCertificate x.names x.cas x.ca attrs sanList v now).toOption
  | sign x row sanList v now => (CertService.signCsr x.names x.cas x.ca row sanList v now).toOption
  | acme f plan s => acmeCertificate E f plan s
  | renew x old options v now => (CertService.renewCertificate x.names x.cas x.ca old options v now).toOption

end Request

/-! ## Respecting the constraints -/

/-- the names `check_names` knows a general name by; an address is known by any text that spells it -/
def NamedBy (L : NameLib) : GeneralName → Kind × Text → Prop
  | .dns v, n => n = (.dns, v)
  | .ip a, n => n.1 = .ip ∧ L.ipAddress n.2 = some a
  | .email v, n => n = (.email, v)
  | .uri v, n => n = (.uri, v)
  | _, _ => False

/-- the CA and every CA above it accept every SAN of a constrained kind and every hostname-like common name -/
def Respects (x : Site) (cert : Issued) : Prop :=
  (∀ g ∈ cert.san.getD [], ∀ n, NamedBy x.names g n → ChainAccepts x.names x.cas x.ca n) ∧
    ∀ cn ∈ commonNames cert.subject, looksLikeHostname cn = true →
      ChainAccepts x.names x.cas x.ca (.dns, commonNameAsDns x.names.uni cn)

/-- the hostname-like common names of a subject other than the checked one are accepted -/
def OthersAccepted (x : Site) (checked : Text) (subject : Subject) : Prop :=
  ∀ cn ∈ commonNames subject, looksLikeHostname cn = true →
    ¬ (looksLikeHostname checked = true ∧ commonNameAsDns x.names.uni cn = commonNameAsDns x.names.uni checked) →
      ChainAccepts x.names x.cas x.ca (.dns, commonNameAsDns x.names.uni cn)

/-- the condition on a request: which common name is checked, and which subject is certified -/
def Request.Condition : Request → Prop
  | .create _ _ _ _ _ => True
  | .sign x row _ _ _ => OthersAccepted x row.commonName row.csr.subject
  | .acme f plan s => ∀ csr o cn, Acme.decodeCsr f = .ok csr → s.db.orders.get? f.orderId = some o →
      Acme.rowCommonName f.server.names.uni csr o.identifiers = .ok cn →
        OthersAccepted (Request.acme f plan s).site cn csr.subject
  | .renew x old _ _ _ => OthersAccepted x old.commonName old.subject

/-! ## What the check covers -/

theorem requestedSans_mem {uni : Unicode} {san : List Text} {names : List (Kind × Text)}
    (h : NameConstraints.requestedSans uni san = .ok names) {entry : Text} (he : entry ∈ san) {kind : Kind} {value : Text}
    (hp : San.parseEntry uni entry = .ok (some (kind, value))) (hk : NameConstraints.constrained kind = true) :
    (kind, value) ∈ names := by
  induction san generalizing names with
  | nil => cases he
  | cons e rest ih =>
    obtain ⟨parsed, hparsed, h⟩ := bind_eq_ok.1 h
    obtain ⟨more, hmore, h⟩ := bind_eq_ok.1 h
    rcases List.mem_cons.1 he with rfl | he
    · rw [hp] at hparsed
      cases hparsed
      simp only [hk, if_true] at h
      cases h
      exact List.mem_cons_self
    · have hmem := ih hmore he
      cases parsed with
      | none => cases h; exact hmem
      | some kv =>
        simp only at h
        split_ifs at h
        · cases h; exact List.mem_cons_of_mem _ hmem
        · cases h; exact hmem

/-- what a passed check says: the SAN names and the given common name are accepted by the chain -/
theorem accepted_of_enforce {x : Site} (hca : x.ca ∈ x.cas) {cn : Option Text} {san : List Text}
    (h : NameConstraints.enforce x.names x.cas x.ca cn san = .ok ()) :
    (∀ entry ∈ san, ∀ kind value, San.parseEntry x.names.uni entry = .ok (some (kind, value)) →
      NameConstraints.constrained kind = true → ChainAccepts x.names x.cas x.ca (kind, value)) ∧
    ∀ c, cn = some c → looksLikeHostname c = true →
      ChainAccepts x.names x.cas x.ca (.dns, commonNameAsDns x.names.uni c) := by
  obtain ⟨names, hnames, hall⟩ := (NameConstraints.enforce_ok_iff hca).1 h
  obtain ⟨sans, hsans, hnames⟩ := bind_eq_ok.1 hnames
  have hsub : ∀ n ∈ sans, n ∈ names := by
    intro n hn
    cases cn with
    | none => cases hnames; exact hn
    | some c =>
      simp only at hnames
      split_ifs at hnames
      · cases hnames; exact List.mem_append_left _ hn
      · cases hnames; exact hn
  refine ⟨fun entry he kind value hp hk => hall _ (hsub _ (requestedSans_mem hsans he hp hk)), ?_⟩
  rintro c rfl hc
  simp only [hc, if_true] at hnames
  cases hnames
  exact hall _ (List.mem_append_right _ (List.mem_singleton.2 rfl))

/-- the names of an encoded entry are the entry, or other spellings of its address -/
theorem named_of_toGeneralName {L : NameLib} {kind : Kind} {value : Text} {g : GeneralName} {n : Kind × Text}
    (h : San.toGeneralName L kind value = .ok g) (hn : NamedBy L g n) :
    NameConstraints.constrained kind = true ∧
      (n = (kind, value) ∨ kind = .ip ∧ n.1 = .ip ∧ L.ipAddress value = L.ipAddress n.2) := by
  cases kind with
  | dns =>
    rw [San.toGeneralName_dns h] at hn
    exact ⟨rfl, Or.inl hn⟩
  | ip =>
    unfold San.toGeneralName at h
    simp only at h
    cases ha : L.ipAddress value with
    | none => rw [ha] at h; cases h
    | some a =>
      rw [ha] at h
      cases h
      exact ⟨rfl, Or.inr ⟨rfl, hn.1, hn.2.symm⟩⟩
  | email =>
    simp only [San.toGeneralName] at h
    split_ifs at h
    cases h
    exact ⟨rfl, Or.inl hn⟩
  | uri =>
    simp only [San.toGeneralName] at h
    split_ifs at h
    cases h
    exact ⟨rfl, Or.inl hn⟩
  | upn =>
    cases h
    exact absurd hn (by simp [NamedBy])

/-- the SANs of a certificate are accepted when its SAN strings passed the check -/
theorem sans_accepted {x : Site} (hca : x.ca ∈ x.cas) {cn : Option Text} {san : List Text}
    (hen : NameConstraints.enforce x.names x.cas x.ca cn san = .ok ()) {gs : List GeneralName}
    (hgs : San.buildGeneralNames x.names san = .ok gs) {g : GeneralName} (hg : g ∈ gs) {n : Kind × Text}
    (hn : NamedBy x.names g n) : ChainAccepts x.names x.cas x.ca n := by
  obtain ⟨entry, hentry, kind, value, hparse, hto⟩ := San.mem_buildGeneralNames hgs hg
  obtain ⟨hk, heq⟩ := named_of_toGeneralName hto hn
  have haccept := (accepted_of_enforce hca hen).1 entry hentry kind value hparse hk
  rcases heq with heq | ⟨hip, hn1, haddr⟩
  · rw [heq]
    exact haccept
  · obtain ⟨nkind, nvalue⟩ := n
    cases hn1
    cases hip
    intro a ha
    exact NameConstraints.accepts_ip_congr haddr (haccept a ha)

/-! ## (1) One checked common name -/

/-- a certificate over a subject and checked SAN strings, with one checked common name -/
theorem respects_iff_of_leaf {x : Site} (hca : x.ca ∈ x.cas) {v : Verdicts} {now : DateTime} {subject : Subject}
    {checked commonName : Text} {san : List Text} {sanJson : Option (List Text)} {cert : Issued}
    (hen : NameConstraints.enforce x.names x.cas x.ca (some checked) san = .ok ())
    (hleaf : CertService.leafCertificate x.names x.ca v now subject san commonName sanJson = .ok cert) :
    Respects x cert ↔ OthersAccepted x checked subject := by
  have hsans : ∀ g ∈ cert.san.getD [], ∀ n, NamedBy x.names g n → ChainAccepts x.names x.cas x.ca n := by
    intro g hg n hn
    exact sans_accepted hca hen (CertService.buildGeneralNames_of_leafCertificate hleaf) hg hn
  have hchecked := (accepted_of_enforce hca hen).2 checked rfl
  unfold Respects OthersAccepted
  rw [(CertService.leafCertificate_ok hleaf).1]
  constructor
  · intro h cn hcn hlooks _
    exact h.2 cn hcn hlooks
  · intro h
    refine ⟨hsans, fun cn hcn hlooks => ?_⟩
    by_cases hsame : looksLikeHostname checked = true ∧
        commonNameAsDns x.names.uni cn = commonNameAsDns x.names.uni checked
    · rw [hsame.2]
      exact hchecked hsame.1
    · exact h cn hcn hlooks hsame

/-! ### Direct issuance -/

theorem subjectAttr_ok {L : NameLib} {attrs : CertService.SubjectAttrs} {key label oid : String} {l : List NameAttr}
    (h : CertService.subjectAttr L attrs key label oid = .ok l) :
    ∀ a ∈ l, a.oid = oid ∧ ∃ raw, attrs.lookup key = some raw ∧ a.value = strip raw ∧ strip raw ≠ [] := by
  unfold CertService.subjectAttr at h
  cases hl : attrs.lookup key with
  | none =>
    rw [hl] at h
    cases h
    simp
  | some raw =>
    simp only [hl] at h
    split_ifs at h with hempty
    · cases h
      simp
    · cases h
      simpa using hempty

theorem subjectFrom_mem {L : NameLib} {attrs : CertService.SubjectAttrs} {keys : List (String × String × String)}
    {subject : Subject} (h : CertService.subjectFrom L attrs keys = .ok subject) {a : NameAttr} (ha : a ∈ subject) :
    ∃ k ∈ keys, a.oid = k.2.2 ∧ ∃ raw, attrs.lookup k.1 = some raw ∧ a.value = strip raw ∧ strip raw ≠ [] := by
  induction keys generalizing subject with
  | nil => cases h; cases ha
  | cons k rest ih =>
    obtain ⟨l, hl, h⟩ := bind_eq_ok.1 h
    obtain ⟨s, hs, h⟩ := bind_eq_ok.1 h
    cases h
    rcases List.mem_append.1 ha with ha | ha
    · exact ⟨k, List.mem_cons_self, subjectAttr_ok hl a ha⟩
    · obtain ⟨k', hk', h'⟩ := ih hs ha
      exact ⟨k', List.mem_cons_of_mem _ hk', h'⟩

/-- the common name of a directly issued certificate is the requested one, stripped -/
theorem commonName_of_buildSubject {L : NameLib} {attrs : CertService.SubjectAttrs} {subject : Subject}
    (h : CertService.buildSubject L attrs = .ok subject) {cn : Text} (hcn : cn ∈ commonNames subject) :
    ∃ raw, CertService.requestedCn attrs = some raw ∧ cn = strip raw ∧ strip raw ≠ [] := by
  obtain ⟨a, ha, rfl⟩ := List.mem_map.1 hcn
  obtain ⟨hmem, hoid⟩ := List.mem_filter.1 ha
  obtain ⟨k, hk, hkoid, raw, hraw, hval, hne⟩ := subjectFrom_mem h hmem
  have hkey : k.1 = "CN" := by
    rw [beq_iff_eq.1 hoid] at hkoid
    simp only [CertService.subjectKeys, List.mem_cons, List.not_mem_nil, or_false] at hk
    rcases hk with rfl | rfl | rfl | rfl | rfl | rfl
    · rfl
    all_goals exact absurd hkoid (by decide)
  rw [hkey] at hraw
  refine ⟨raw, ?_, hval, hne⟩
  unfold CertService.requestedCn
  simp only [hraw]
  rw [if_neg]
  rintro rfl
  exact hne rfl

theorem looksLikeHostname_strip {raw : Text} (hne : strip raw ≠ []) :
    looksLikeHostname (strip raw) = looksLikeHostname raw := by
  have hraw : raw ≠ [] := by
    rintro rfl
    exact hne rfl
  unfold looksLikeHostname
  rw [strip_strip, bne_iff_ne.2 hne, bne_iff_ne.2 hraw]

/-- direct issuance checks the common name it certifies -/
theorem respects_of_create {x : Site} (hca : x.ca ∈ x.cas) {attrs : CertService.SubjectAttrs} {sanList : List Text}
    {v : Verdicts} {now : DateTime} {cert : Issued}
    (h : CertService.createCertificate x.names x.cas x.ca attrs sanList v now = .ok cert) : Respects x cert := by
  obtain ⟨subject, hsub, hen, hleaf⟩ := CertService.createCertificate_ok h
  constructor
  · intro g hg n hn
    exact sans_accepted hca hen (CertService.buildGeneralNames_of_leafCertificate hleaf) hg hn
  · intro cn hcn hlooks
    rw [(CertService.leafCertificate_ok hleaf).1] at hcn
    obtain ⟨raw, hraw, rfl, hne⟩ := commonName_of_buildSubject hsub hcn
    rw [looksLikeHostname_strip hne] at hlooks
    have haccept := (accepted_of_enforce hca hen).2 raw hraw hlooks
    unfold commonNameAsDns at haccept ⊢
    rw [strip_strip]
    exact haccept

/-! ### All paths -/

theorem acmeCertificate_some {E : Acme.Env} {f : Acme.Finalization} {plan : Acme.Phase → Acme.Tick} {s : Acme.Session}
    {cert : Issued} (h : acmeCertificate E f plan s = some cert) :
    ∃ o csr, s.db.orders.get? f.orderId = some o ∧ Acme.decodeCsr f = .ok csr ∧
      Acme.Signed f csr o.identifiers cert := by
  obtain ⟨row, hrow, rfl⟩ := Option.map_eq_some_iff.1 h
  obtain ⟨csr, wanted, hb, hsigned⟩ := Acme.finalize_adds hrow
  obtain ⟨o, order, hload, horder, -, hcheck, rfl⟩ := Acme.begin_checked hb
  have ho := (Acme.loadOrder_ok hload).1
  have hid : o.id = f.orderId := Table.key_of_get? ho
  obtain ⟨order', horder', hids, -⟩ := @Acme.refreshTwice_get? (plan .start) o s.db (by rw [hid]; exact ho)
  rw [hid, horder] at horder'
  cases horder'
  exact ⟨o, csr, ho, (Acme.CertificateNames.checkRequest_ok hcheck).1, hids ▸ hsigned⟩

theorem toOption_eq_some {ε α : Type} {x : Except ε α} {a : α} (h : x.toOption = some a) : x = .ok a := by
  cases x with
  | error e => cases h
  | ok b => cases h; rfl

/-- **(1) Issued names.** A certificate issued by a CA of the table respects the constraints of its whole chain exactly
when the request meets the condition of its path. -/
theorem respects_constraints_iff {E : Acme.Env} {r : Request} (hca : r.site.ca ∈ r.site.cas) {cert : Issued}
    (h : r.outcome E = some cert) : Respects r.site cert ↔ r.Condition := by
  cases r with
  | create x attrs sanList v now => exact iff_of_true (respects_of_create hca (toOption_eq_some h)) trivial
  | sign x row sanList v now =>
    obtain ⟨hcheck, _, hsigned⟩ := CertService.signCsr_ok (toOption_eq_some h)
    exact respects_iff_of_leaf hca (CertService.checkCsr_ok hcheck).2 hsigned
  | acme f plan s =>
    obtain ⟨o, csr, ho, hdec, cn, now, sanJson, hcn, hen, hleaf⟩ := acmeCertificate_some h
    rw [respects_iff_of_leaf hca hen hleaf]
    constructor
    · intro hothers csr' o' cn' hdec' ho' hcn'
      rw [hdec] at hdec'
      cases hdec'
      rw [ho] at ho'
      cases ho'
      rw [hcn] at hcn'
      cases hcn'
      exact hothers
    · intro hcond
      exact hcond csr o cn hdec ho hcn
  | renew x old options v now =>
    obtain ⟨hen, hleaf⟩ := CertService.renewCertificate_ok (toOption_eq_some h)
    exact respects_iff_of_leaf hca hen hleaf

/-! ## (2) An unchecked common name -/

/-- names as in the other samples, addresses not used -/
def plainNames : NameLib := Acme.CertificateNames.sampleServer.names

/-- a CA that may only issue below inside.example -/
def insideCa : IssuingCa :=
  ⟨1, "Inside".toList, none, true, false, false, 1000 * day, some ⟨["DNS:inside.example".toList], []⟩⟩

def insideSite : Site := ⟨plainNames, Table.empty.insert fun id => { insideCa with id := id }, insideCa⟩

def csrWith (subject : Subject) : Csr := ⟨subject, none, true⟩

/-- the last common name is the one the row stores -/
def escapingCsr : Csr :=
  csrWith [⟨"commonName", "www.victim.example".toList⟩, ⟨"commonName", "www.inside.example".toList⟩]

def insideCsr : Csr := csrWith [⟨"commonName", "www.inside.example".toList⟩]

/-- sign the row imported for a CSR -/
def signed (csr : Csr) : Request := .sign insideSite (CertService.importCsr plainNames csr 1) [] .pass 0

/-- the theorem applies: a single common name inside the constraints -/
theorem respects_constraints_inside :
    Respects insideSite ⟨insideCsr.subject, none, "www.inside.example".toList, none⟩ := by
  refine (@respects_constraints_iff Acme.CertificateNames.sampleEnv (signed insideCsr) (List.Mem.head _) _ rfl).2 ?_
  intro cn hcn hlooks hother
  have hname : cn = "www.inside.example".toList := List.mem_singleton.1 hcn
  exact absurd ⟨by decide, by rw [hname]; rfl⟩ hother

/-- **An unchecked common name escapes.** The CA may only issue below inside.example, and it signs a certificate with the
common name www.victim.example. -/
theorem unchecked_common_name_escapes :
    ∃ cert, (signed escapingCsr).outcome Acme.CertificateNames.sampleEnv = some cert ∧ ¬ Respects insideSite cert := by
  refine ⟨⟨escapingCsr.subject, none, "www.inside.example".toList, none⟩, rfl, fun h => ?_⟩
  have haccept := h.2 "www.victim.example".toList (by decide) (by decide) _ (.self _)
  exact absurd (congrArg Except.isOk haccept) (by decide)

end IssuedNames

end Chancery
