/-
Which names an ACME certificate certifies, for any order, any CSR and any plan of the signing.

finalize compares the order's identifiers with the CSR's FIRST common name and its dNSNames as they are written. The
certificate carries the CSR's whole subject, and its dNSNames are read back from `DNS:` strings, which strips whitespace.

(1) `certifies_only_identifiers_iff`: after a successful finalize the order is linked to a certificate whose SANs are all
dNSNames, and it names identifiers of the order only, exactly when the common names that were not compared are
identifiers and the dNSNames still are once stripped (`PlainNames`).
(2) `second_common_name_certified`: a CSR with a second common name gets a certificate for a name nobody validated.
-/
import Mathlib.Tactic
import Chancery.Services.Acme.Finalize

namespace Chancery.Acme

open Chancery.Core

namespace CertificateNames

/-! ## Names -/

/-- every common name and every SAN of the certificate is one of the identifiers, up to case and trailing dots -/
def CertifiesOnly (uni : Unicode) (identifiers : List Text) (cert : Issued) : Prop :=
  (∀ cn ∈ commonNames cert.subject, normalName uni cn ∈ identifiers) ∧
    ∀ g ∈ cert.san.getD [], ∃ v, g = .dns v ∧ normalName uni v ∈ identifiers

/-- the common names `finalize` does not compare: all but the first, and the first if nothing is left of it -/
def unchecked (uni : Unicode) (csr : Csr) : List Text :=
  match commonNames csr.subject with
  | [] => []
  | cn :: rest => if normalName uni cn = [] then cn :: rest else rest

/-- the names of the CSR that the comparison does not see as they will be certified are identifiers too -/
def PlainNames (uni : Unicode) (identifiers : List Text) (csr : Csr) : Prop :=
  (∀ cn ∈ unchecked uni csr, normalName uni cn ∈ identifiers) ∧
    ∀ v ∈ dnsValues (csr.san.getD []), normalName uni (strip v) ∈ identifiers

variable {E : Env}

theorem checkCsrNames_ok {uni : Unicode} {wanted : List Text} {csr : Csr} (h : checkCsrNames E uni wanted csr = .ok ()) :
    (∀ g ∈ csr.san.getD [], isDnsName g = true) ∧ (∀ cn ∈ firstCn uni csr, cn ∈ wanted) ∧
      (∀ n ∈ csrDns uni csr, n ∈ wanted) ∧ ∀ n ∈ wanted, n ∈ csrDns uni csr := by
  unfold checkCsrNames at h
  split_ifs at h with hothers hcn hdns
  rw [not_or, not_not, not_not] at hdns
  refine ⟨?_, hcn, hdns.1, hdns.2⟩
  simpa using hothers

theorem checkRequest_ok {f : Finalization} {order : AcmeOrder} {csr : Csr} (h : checkRequest E f order = .ok csr) :
    decodeCsr f = .ok csr ∧ checkCsrNames E f.server.names.uni order.identifiers csr = .ok () := by
  obtain ⟨csr', hdec, h⟩ := bind_eq_ok.1 h
  obtain ⟨u, hnames, h⟩ := bind_eq_ok.1 h
  split_ifs at h
  cases h
  exact ⟨hdec, hnames⟩

/-- the common names are the one that was compared and the others -/
theorem commonNames_iff {uni : Unicode} {csr : Csr} {wanted : List Text} (hfirst : ∀ cn ∈ firstCn uni csr, cn ∈ wanted) :
    (∀ cn ∈ commonNames csr.subject, normalName uni cn ∈ wanted) ↔ ∀ cn ∈ unchecked uni csr,
      normalName uni cn ∈ wanted := by
  unfold unchecked
  unfold firstCn at hfirst
  cases hcns : commonNames csr.subject with
  | nil => simp
  | cons cn rest =>
    rw [hcns] at hfirst
    by_cases hcn : normalName uni cn = []
    · simp only [if_pos hcn]
    · have hmem : normalName uni cn ∈ wanted := hfirst _ (by simp [Option.filter, hcn])
      simp only [if_neg hcn, List.forall_mem_cons]
      exact and_iff_right hmem

/-- the SAN strings of a CSR that has dNSNames only -/
theorem csrSans_eq {L : NameLib} {csr : Csr} (h : ∀ g ∈ csr.san.getD [], isDnsName g = true) :
    CertService.csrSans L csr = (dnsValues (csr.san.getD [])).map ("DNS:".toList ++ ·) := by
  have hsans : CertService.csrSans L csr = San.extensionToStrings L (csr.san.getD []) := by
    unfold CertService.csrSans
    cases csr.san <;> rfl
  rw [hsans]
  unfold San.extensionToStrings dnsValues
  rw [List.map_filterMap]
  apply List.filterMap_congr
  intro g hg
  have hdns := h g hg
  cases g with
  | dns v => rfl
  | _ => cases hdns

/-- the dNSNames of the certificate are those of the CSR, stripped -/
theorem san_iff {L : NameLib} {csr : Csr} (hdns : ∀ g ∈ csr.san.getD [], isDnsName g = true) {gs : List GeneralName}
    (h : San.buildGeneralNames L (CertService.csrSans L csr) = .ok gs) {g : GeneralName} :
    g ∈ gs ↔ ∃ v ∈ dnsValues (csr.san.getD []), g = .dns (strip v) := by
  rw [csrSans_eq hdns] at h
  constructor
  · intro hg
    obtain ⟨entry, hentry, kind, value, hparse, hto⟩ := San.mem_buildGeneralNames h hg
    obtain ⟨v, hv, rfl⟩ := List.mem_map.1 hentry
    rw [San.parseEntry_dns] at hparse
    split_ifs at hparse with hempty
    cases hparse
    exact ⟨v, hv, San.toGeneralName_dns hto⟩
  · rintro ⟨v, hv, rfl⟩
    have hentry := San.entry_of_buildGeneralNames h (List.mem_map_of_mem hv)
    rw [San.parseEntry_dns] at hentry
    rcases hentry with hnone | ⟨kind, value, g, hparse, hg, hto⟩
    · split_ifs at hnone
      cases hnone
    · split_ifs at hparse
      cases hparse
      rw [← San.toGeneralName_dns hto]
      exact hg

/-! ## (1) What a certificate names -/

/-- a request that was answered with an error does not succeed -/
theorem answered_error {f : Finalization} {plan : Phase → Tick} {n : ℕ} {s s' : Session} {e : Exc} {before after : Db} :
    drive E f plan (n + 1) (s, .answered (.error e) before after) ≠ (s', .ended (.ok ())) := by
  intro h
  rw [drive_succ] at h
  exact absurd (not_failed_of_ok h) (by simp [Phase.failed])

/-- a request on an order that is not valid yet, and that succeeds, has passed the checks -/
theorem begin_of_ok {f : Finalization} {plan : Phase → Tick} {s s' : Session} {o : AcmeOrder}
    (h : finalize E f plan s = (s', .ended (.ok ()))) (ho : s.db.orders.get? f.orderId = some o) (hst : o.status ≠ .valid) :
    ∃ csr, begin E f (plan .start) s.db = .checked csr o.identifiers ∧ decodeCsr f = .ok csr ∧
      checkCsrNames E f.server.names.uni o.identifiers csr = .ok () := by
  have hid : o.id = f.orderId := Table.key_of_get? ho
  unfold finalize at h
  rw [drive_succ] at h
  simp only [advance] at h
  unfold begin at h ⊢
  cases hload : loadOrder f.server.ca.id f.accountId f.orderId s.db with
  | error e =>
    simp only [hload] at h
    exact absurd (not_failed_of_ok h) (by simp [Phase.failed])
  | ok o' =>
    simp only [hload] at h ⊢
    have ho' := (loadOrder_ok hload).1
    rw [ho] at ho'
    cases ho'
    obtain ⟨order, hget, hids, hvalid⟩ := @refreshTwice_get? (plan .start) o s.db (by rw [hid]; exact ho)
    rw [hid] at hget
    simp only [hget] at h ⊢
    cases hs : order.status with
    | valid => exact absurd (hvalid hs) hst
    | ready =>
      simp only [hs] at h ⊢
      cases hcheck : checkRequest E f order with
      | error e =>
        simp only [hcheck] at h
        exact absurd h answered_error
      | ok csr =>
        have hnames := checkRequest_ok hcheck
        rw [hids] at hnames
        exact ⟨csr, by rw [hids], hnames⟩
    | _ =>
      simp only [hs] at h
      exact absurd h answered_error

/-- **(1) What an ACME certificate certifies.** After a successful finalize of an order that was not valid yet, the order
is linked to a certificate whose SANs are dNSNames, and the certificate names identifiers of the order only exactly when
the names that `finalize` does not compare as they are certified are identifiers. -/
theorem certifies_only_identifiers_iff {f : Finalization} {plan : Phase → Tick} {s s' : Session} {o : AcmeOrder}
    (h : finalize E f plan s = (s', .ended (.ok ()))) (ho : s.db.orders.get? f.orderId = some o) (hst : o.status ≠ .valid) :
    ∃ csr order cert, decodeCsr f = .ok csr ∧ s'.db.orders.get? f.orderId = some order ∧
      order.certificateId = some cert.id ∧ s'.db.certificates.get? cert.id = some cert ∧
      (∀ g ∈ cert.issued.san.getD [], isDnsName g = true) ∧
      (CertifiesOnly f.server.names.uni o.identifiers cert.issued ↔ PlainNames f.server.names.uni o.identifiers csr) := by
  obtain ⟨csr, hb, hdec, hnames⟩ := begin_of_ok h ho hst
  obtain ⟨order, cert, ⟨cn, now, sanJson, _, _, hleaf⟩, horder, _, hlink, hcert, _⟩ := finalize_issues h hb
  obtain ⟨hdns, hfirst, _, _⟩ := checkCsrNames_ok hnames
  have hsan := fun g => @san_iff _ _ hdns _ (CertService.buildGeneralNames_of_leafCertificate hleaf) g
  refine ⟨csr, order, cert, hdec, horder, hlink, hcert, ?_, ?_⟩
  · intro g hg
    obtain ⟨v, _, rfl⟩ := (hsan g).1 hg
    rfl
  · unfold CertifiesOnly PlainNames
    rw [(CertService.leafCertificate_ok hleaf).1, commonNames_iff hfirst]
    refine and_congr_right fun _ => ⟨fun hcerts v hv => ?_, fun hplain g hg => ?_⟩
    · obtain ⟨w, hw, hmem⟩ := hcerts _ ((hsan _).2 ⟨v, hv, rfl⟩)
      cases hw
      exact hmem
    · obtain ⟨v, hv, rfl⟩ := (hsan g).1 hg
      exact ⟨_, rfl, hplain v hv⟩

/-! ## (2) A second common name -/

/-- libraries that accept everything -/
def sampleEnv : Env where
  sha := .echo
  uni := .ascii
  keys := ⟨fun _ _ => .ok (), fun _ _ _ => .ok ()⟩
  repr := fun _ => "?"
  loads := fun _ => .error (.valueError "Expecting value")
  hmac := fun _ _ _ => []
  decryptSecret := fun _ => .error (.valueError "Invalid token")
  base := "https://ca.example"

/-- a network that answers nothing -/
def silentNet : Net where
  urlsplit := fun _ => .ok ⟨"http".toList, "a.example".toList, "a.example".toList⟩
  urljoin := fun _ url => .ok url
  checkTarget := fun _ _ _ => .ok ()
  openUrl := fun _ _ => .failure "timed out"
  decode := fun _ => []
  resolvers := .ok (.ok [])
  lookupTxt := fun _ _ => .ok []

/-- one CA without name constraints, wildcards allowed -/
def sampleServer : Server where
  config := ⟨[.http01, .dns01], 168, 100, 80, false, none, 10, 10⟩
  names := ⟨.ascii, fun _ => none, fun _ => none, fun _ => [], fun _ => .ok [], fun _ => true, fun _ _ => true⟩
  cas := Table.empty
  ca := ⟨1, "CA".toList, none, true, false, false, 1000 * day, none⟩
  requireEab := false
  allowWildcards := true
  net := silentNet
  token := fun id => ("token" ++ toString id).toList

/-- a finalize request of account 1 for order 1 -/
def sampleRequest (csr : Csr) : Finalization where
  server := sampleServer
  accountId := 1
  orderId := 1
  payload := some [("csr", .str "")]
  loadCsr := fun _ => .ok csr
  profileUsable := true
  importable := .ok ()
  urls := .ok ()
  verdicts := .pass

/-- an order for a.example whose authorizations are valid -/
def readyOrder (id : ℤ) : AcmeOrder := ⟨id, 1, 1, .ready, ["a.example".toList], day, none, none, none, none⟩

def readyDb : Db where
  accounts := Table.empty
  eabKeys := Table.empty
  orders := Table.empty.insert readyOrder
  authzs := Table.empty.insert fun id => ⟨id, 1, 1, 1, "a.example".toList, false, .valid, day⟩
  challenges := Table.empty
  csrs := Table.empty
  certificates := Table.empty

/-- nothing goes wrong -/
def smoothPlan : Phase → Tick := fun _ => ⟨0, 0, none⟩

/-- the identifier as common name and as SAN, written another way -/
def oneNameCsr : Csr where
  subject := [⟨"commonName", "A.example.".toList⟩]
  san := some [.dns "a.Example".toList]
  isSignatureValid := true

/-- the theorem applies: this certificate names the identifier only -/
theorem certifies_only_identifiers_oneName :
    ∃ cert ∈ (finalize sampleEnv (sampleRequest oneNameCsr) smoothPlan ⟨readyDb, []⟩).1.db.certificates,
      CertifiesOnly .ascii ["a.example".toList] cert.issued := by
  obtain ⟨csr, order, cert, hcsr, _, _, hcert, _, hiff⟩ := @certifies_only_identifiers_iff sampleEnv
    (sampleRequest oneNameCsr) smoothPlan ⟨readyDb, []⟩ _ (readyOrder 1) rfl rfl (by decide)
  have hone : decodeCsr (sampleRequest oneNameCsr) = .ok oneNameCsr := rfl
  rw [hone] at hcsr
  cases hcsr
  exact ⟨cert, Table.mem_of_get? hcert, hiff.2 ⟨by decide, by decide⟩⟩

/-- the identifier as the first common name and as SAN, and a second common name -/
def twoNamesCsr : Csr where
  subject := [⟨"commonName", "a.example".toList⟩, ⟨"commonName", "victim.example".toList⟩]
  san := some [.dns "a.example".toList]
  isSignatureValid := true

/-- **A second common name is certified.** finalize succeeds, and the certificate names a host that is not an identifier of
the order. -/
theorem second_common_name_certified :
    ∃ s', finalize sampleEnv (sampleRequest twoNamesCsr) smoothPlan ⟨readyDb, []⟩ = (s', .ended (.ok ())) ∧
      ∃ cert ∈ s'.db.certificates, ¬ CertifiesOnly .ascii ["a.example".toList] cert.issued := by
  refine ⟨_, rfl, ⟨1, 1, ⟨twoNamesCsr.subject, some [.dns "a.example".toList], "a.example".toList,
    some ["DNS:a.example".toList]⟩, some "acme", some 1⟩, List.Mem.head _, ?_⟩
  intro h
  have hvictim := h.1 "victim.example".toList (by decide)
  exact absurd hvictim (by decide)

end CertificateNames

end Chancery.Acme
