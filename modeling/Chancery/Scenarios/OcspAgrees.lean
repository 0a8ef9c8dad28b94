/-
OCSP answers and CRLs of one CA, from the same tables at the same time.

(1) `ocsp_agrees_with_crl`: for every serial number, the answer is REVOKED exactly when the serial is listed, with the date
and the reason of the entry; GOOD exactly when it is that of an unrevoked leaf or sub-CA, which is then not listed; and
unauthorized exactly when it is no leaf's and no sub-CA's, which is then not listed.
(2) `exists_buildCrl`: such a CRL can be built whenever the revoked serial numbers fit and no revocation predates 1950.
-/
import Mathlib.Tactic
import Chancery.Services.Ocsp

namespace Chancery.Pki

open Chancery.Core

/-! ## Serial numbers -/

/-- the leaves and the sub-CAs of a CA: the serial number of each, and what the answer reads of it -/
def issuedRows (s : Db) (caId : ℤ) : List (Text × OcspSubject) :=
  (s.leaves.rows.filter (·.caId == caId)).map (fun c => (c.serialNumber, leafSubject c)) ++
    (s.cas.rows.filter (·.parentId == some caId)).map (fun sub => (sub.serialNumber, caSubject sub))

/-- the serial numbers of one issuer are distinct -/
def UniqueSerials (s : Db) (caId : ℤ) : Prop := ((issuedRows s caId).map (·.1)).Nodup

/-- they are stored as `format(serial, "x")` writes them -/
def CanonicalSerials (s : Db) (caId : ℤ) : Prop := ∀ row ∈ issuedRows s caId, ∃ n, row.1 = formatHex n

variable {s : Db} {caId : ℤ} {now : DateTime} {ca : CaRow}

theorem mem_issuedRows {row : Text × OcspSubject} :
    row ∈ issuedRows s caId ↔ (∃ c ∈ s.leaves, c.caId = caId ∧ row = (c.serialNumber, leafSubject c)) ∨
      ∃ sub ∈ s.cas, sub.parentId = some caId ∧ row = (sub.serialNumber, caSubject sub) := by
  simp only [issuedRows, List.mem_append, List.mem_map, List.mem_filter, beq_iff_eq, and_assoc, Table.mem_def,
    @eq_comm _ _ row]

/-- one serial number, one row -/
theorem issuedRows_unique (hu : UniqueSerials s caId) {t : Text} {a b : OcspSubject} (ha : (t, a) ∈ issuedRows s caId)
    (hb : (t, b) ∈ issuedRows s caId) : a = b := by
  have h := List.inj_on_of_nodup_map hu ha hb rfl
  exact congrArg Prod.snd h

/-- the subject of an answer is the row with its serial number -/
theorem ocspSubject_eq_some (hu : UniqueSerials s caId) {t : Text} {subject : OcspSubject} :
    ocspSubject s caId t = some subject ↔ (t, subject) ∈ issuedRows s caId := by
  have hfound : ∀ found, ocspSubject s caId t = some found → (t, found) ∈ issuedRows s caId := by
    intro found h
    unfold ocspSubject at h
    split at h
    · rename_i c hc
      cases h
      have hp : c.serialNumber = t ∧ c.caId = caId := by simpa using List.find?_some hc
      exact mem_issuedRows.2 (Or.inl ⟨c, List.mem_of_find?_eq_some hc, hp.2, by rw [hp.1]⟩)
    · obtain ⟨sub, hsub, rfl⟩ := Option.map_eq_some_iff.1 h
      have hp : sub.serialNumber = t ∧ sub.parentId = some caId := by simpa using List.find?_some hsub
      exact mem_issuedRows.2 (Or.inr ⟨sub, List.mem_of_find?_eq_some hsub, hp.2, by rw [hp.1]⟩)
  refine ⟨hfound subject, fun h => ?_⟩
  cases ho : ocspSubject s caId t with
  | some found => rw [issuedRows_unique hu (hfound found ho) h]
  | none =>
    exfalso
    unfold ocspSubject at ho
    split at ho
    · cases ho
    · rename_i hleaf
      rw [Option.map_eq_none_iff] at ho
      rcases mem_issuedRows.1 h with ⟨c, hc, hca, heq⟩ | ⟨sub, hsub, hparent, heq⟩
      · have ht : c.serialNumber = t := (congrArg Prod.fst heq).symm
        exact List.find?_eq_none.1 hleaf c hc (by simp [ht, hca])
      · have ht : sub.serialNumber = t := (congrArg Prod.fst heq).symm
        exact List.find?_eq_none.1 ho sub hsub (by simp [ht, hparent])

theorem ocspSubject_eq_none (hu : UniqueSerials s caId) {t : Text} :
    ocspSubject s caId t = none ↔ ∀ subject, (t, subject) ∉ issuedRows s caId := by
  rw [Option.eq_none_iff_forall_ne_some]
  exact forall_congr' fun subject => not_congr (ocspSubject_eq_some hu)

/-- the rows of a CRL are the revoked ones among those -/
theorem mem_revokedRows_iff {row : RevokedRow} :
    row ∈ revokedRows s caId ↔ ∃ subject, (row.1, subject) ∈ issuedRows s caId ∧ subject.isRevoked = true ∧
      row.2 = (subject.revokedAt, subject.revocationReason) := by
  rw [mem_revokedRows]
  constructor
  · rintro (⟨c, hc, hca, hrev, rfl⟩ | ⟨sub, hsub, hparent, hrev, rfl⟩)
    · exact ⟨leafSubject c, mem_issuedRows.2 (Or.inl ⟨c, hc, hca, rfl⟩), hrev, rfl⟩
    · exact ⟨caSubject sub, mem_issuedRows.2 (Or.inr ⟨sub, hsub, hparent, rfl⟩), hrev, rfl⟩
  · rintro ⟨subject, hmem, hrev, heq⟩
    rcases mem_issuedRows.1 hmem with ⟨c, hc, hca, hrow⟩ | ⟨sub, hsub, hparent, hrow⟩
    · obtain ⟨hserial, rfl⟩ := Prod.mk.inj hrow
      exact Or.inl ⟨c, hc, hca, hrev, Prod.ext hserial heq⟩
    · obtain ⟨hserial, rfl⟩ := Prod.mk.inj hrow
      exact Or.inr ⟨sub, hsub, hparent, hrev, Prod.ext hserial heq⟩

/-! ## Entries -/

/-- a serial number is listed, with this date and this reason -/
def Listed (crl : Crl) (serial : ℤ) (time : DateTime) (reason : ReasonFlag) : Prop :=
  ⟨serial, time, reason⟩ ∈ crl.entries

instance (crl : Crl) (serial : ℤ) (time : DateTime) (reason : ReasonFlag) : Decidable (Listed crl serial time reason) :=
  inferInstanceAs (Decidable (_ ∈ crl.entries))

/-- the entry of a revoked row and the status of the same row -/
theorem certStatus_of_crlEntry {n : ℤ} {subject : OcspSubject} {e : CrlEntry} (hrev : subject.isRevoked = true)
    (h : crlEntry now (formatHex n, subject.revokedAt, subject.revocationReason) = .ok e) :
    e.serialNumber = n ∧ certStatus now subject = .ok (.revoked e.revocationDate e.reason) := by
  obtain ⟨serial, hserial, h⟩ := bind_eq_ok.1 h
  have hn : n = serial := Except.ok.inj ((intHex_formatHex n).symm.trans hserial)
  split_ifs at h with _ _ hdate
  cases h
  refine ⟨hn.symm, ?_⟩
  rw [certStatus, if_pos hrev, if_neg hdate, ocspReason_eq]

/-- what is listed: the revoked rows -/
theorem listed_iff (hc : CanonicalSerials s ca.id) {nextUpdate : DateTime} {crl : Crl}
    (h : buildCrl now nextUpdate ca s = .ok crl) {serial : ℤ} {time : DateTime} {reason : ReasonFlag} :
    Listed crl serial time reason ↔ ∃ subject, (formatHex serial, subject) ∈ issuedRows s ca.id ∧
      certStatus now subject = .ok (.revoked time reason) := by
  have hentries := (buildCrl_ok h).2.2
  unfold Listed
  rw [mem_crlEntries hentries]
  constructor
  · rintro ⟨row, hrow, hentry⟩
    obtain ⟨subject, hmem, hrev, heq⟩ := mem_revokedRows_iff.1 hrow
    obtain ⟨n, hn⟩ := hc _ hmem
    have hform : row = (formatHex n, subject.revokedAt, subject.revocationReason) := Prod.ext hn heq
    rw [hform] at hentry hmem
    obtain ⟨hserial, hstatus⟩ := certStatus_of_crlEntry hrev hentry
    have hsame : serial = n := hserial
    rw [hsame]
    exact ⟨subject, hmem, hstatus⟩
  · rintro ⟨subject, hmem, hstatus⟩
    have hrev : subject.isRevoked = true := by
      by_contra hn
      rw [certStatus, if_neg hn] at hstatus
      cases hstatus
    have hrow : (formatHex serial, subject.revokedAt, subject.revocationReason) ∈ revokedRows s ca.id :=
      mem_revokedRows_iff.2 ⟨subject, hmem, hrev, rfl⟩
    obtain ⟨e, he⟩ := crlEntry_of_mem hentries hrow
    obtain ⟨hserial, hsame⟩ := certStatus_of_crlEntry hrev he
    rw [hstatus] at hsame
    injection Except.ok.inj hsame with htime hreason
    refine ⟨_, hrow, ?_⟩
    rw [he, htime, hreason, ← hserial]

/-- the status of a row a CRL was built over is within the library's range -/
theorem certStatus_isOk {nextUpdate : DateTime} {crl : Crl} (h : buildCrl now nextUpdate ca s = .ok crl) {t : Text}
    {subject : OcspSubject} (hc : CanonicalSerials s ca.id) (hmem : (t, subject) ∈ issuedRows s ca.id) :
    ∃ status, certStatus now subject = .ok status := by
  by_cases hrev : subject.isRevoked = true
  · obtain ⟨n, hn⟩ := hc _ hmem
    have hrow : (t, subject.revokedAt, subject.revocationReason) ∈ revokedRows s ca.id :=
      mem_revokedRows_iff.2 ⟨subject, hmem, hrev, rfl⟩
    obtain ⟨e, he⟩ := crlEntry_of_mem (buildCrl_ok h).2.2 hrow
    have ht : t = formatHex n := hn
    rw [ht] at he
    exact ⟨_, (certStatus_of_crlEntry hrev he).2⟩
  · exact ⟨.good, by rw [certStatus, if_neg hrev]⟩

/-- such a CRL can be built when no revoked row is out of the library's range -/
theorem exists_buildCrl {nextUpdate : DateTime} (hnext : now ≤ nextUpdate) (hkey : ca.certificate.hasKeyId = true)
    (hrows : ∀ row ∈ revokedRows s ca.id, ∃ n : ℤ, row.1 = formatHex n ∧ 0 < n ∧ n < 2 ^ 159 ∧
      earliestTime ≤ row.2.1.getD now) : ∃ crl, buildCrl now nextUpdate ca s = .ok crl := by
  have hentries : ∀ rows : List RevokedRow, (∀ row ∈ rows, ∃ n : ℤ, row.1 = formatHex n ∧ 0 < n ∧ n < 2 ^ 159 ∧
      earliestTime ≤ row.2.1.getD now) → ∃ es, crlEntries now rows = .ok es := by
    intro rows
    induction rows with
    | nil => exact fun _ => ⟨[], rfl⟩
    | cons row rows ih =>
      intro hall
      obtain ⟨es, hes⟩ := ih fun r hr => hall r (List.mem_cons_of_mem _ hr)
      obtain ⟨n, hn, hpos, hlt, hdate⟩ := hall row List.mem_cons_self
      have hentry : crlEntry now row = .ok ⟨n, wholeSeconds (row.2.1.getD now), crlReason row.2.2⟩ := by
        rw [crlEntry, hn, intHex_formatHex]
        show (if n ≤ 0 then _ else _) = _
        rw [if_neg (not_le.2 hpos), if_neg (not_le.2 hlt), if_neg (not_lt.2 hdate)]
      exact ⟨_, by rw [crlEntries, hentry, hes]; rfl⟩
  obtain ⟨es, hes⟩ := hentries _ hrows
  refine ⟨⟨ca.crlNumber + 1, wholeSeconds now, wholeSeconds nextUpdate, es⟩, ?_⟩
  rw [buildCrl, if_neg (not_lt.2 hnext), if_neg (by simp [hkey]), hes]
  rfl

/-! ## The answers -/

/-- the serial number is that of a leaf or a sub-CA of this CA, revoked or not -/
def IssuedSerial (s : Db) (caId serial : ℤ) (revoked : Bool) : Prop :=
  (∃ c ∈ s.leaves, c.caId = caId ∧ c.serialNumber = formatHex serial ∧ c.isRevoked = revoked) ∨
    ∃ sub ∈ s.cas, sub.parentId = some caId ∧ sub.serialNumber = formatHex serial ∧ sub.isRevoked = revoked

theorem issuedSerial_iff {serial : ℤ} {revoked : Bool} :
    IssuedSerial s caId serial revoked ↔ ∃ subject, (formatHex serial, subject) ∈ issuedRows s caId ∧
      subject.isRevoked = revoked := by
  constructor
  · rintro (⟨c, hc, hca, hserial, hrev⟩ | ⟨sub, hsub, hparent, hserial, hrev⟩)
    · exact ⟨leafSubject c, mem_issuedRows.2 (Or.inl ⟨c, hc, hca, by rw [hserial]⟩), hrev⟩
    · exact ⟨caSubject sub, mem_issuedRows.2 (Or.inr ⟨sub, hsub, hparent, by rw [hserial]⟩), hrev⟩
  · rintro ⟨subject, hmem, hrev⟩
    rcases mem_issuedRows.1 hmem with ⟨c, hc, hca, heq⟩ | ⟨sub, hsub, hparent, heq⟩
    · obtain ⟨hserial, rfl⟩ := Prod.mk.inj heq
      exact Or.inl ⟨c, hc, hca, hserial.symm, hrev⟩
    · obtain ⟨hserial, rfl⟩ := Prod.mk.inj heq
      exact Or.inr ⟨sub, hsub, hparent, hserial.symm, hrev⟩

/-- the certificate status of an answer -/
def OcspAnswer.status? : OcspAnswer → Option CertStatus
  | .unauthorized => none
  | .answered r => some r.status

/-- the answer about a subject -/
theorem buildOcspResponse_some (hsign : ca.cannotSign = false) {req : OcspRequest} {subject : OcspSubject}
    {status : CertStatus} (hsub : ocspSubject s ca.id (formatHex req.serialNumber) = some subject)
    (hstatus : certStatus now subject = .ok status) :
    ∃ answer, buildOcspResponse now (.ok ()) (some req) ca s = .ok answer ∧ answer.status? = some status := by
  refine ⟨.answered ⟨status, wholeSeconds now, wholeSeconds (now + responseValidity), requestHashAlgorithm req⟩, ?_, rfl⟩
  simp only [buildOcspResponse, hsign, hsub, hstatus]
  rfl

/-- **OCSP and CRL agree**, serial number by serial number. -/
theorem ocsp_agrees_with_crl {env : Env} {nextUpdate : Option DateTime} {s' : Db} {crl : Crl} (hmem : ca ∈ s.cas)
    (hu : UniqueSerials s ca.id) (hc : CanonicalSerials s ca.id) (hgen : generateCrl env ca nextUpdate s = .ok s')
    (hcrl : (s'.cas.get? ca.id).bind (·.crl) = some crl) (req : OcspRequest) :
    ∃ answer, buildOcspResponse env.now (.ok ()) (some req) ca s = .ok answer ∧
      (∀ time reason, answer.status? = some (.revoked time reason) ↔ Listed crl req.serialNumber time reason) ∧
      (answer.status? = some .good ↔ IssuedSerial s ca.id req.serialNumber false) ∧
      (answer.status? = some .good → ∀ time reason, ¬ Listed crl req.serialNumber time reason) ∧
      (answer = .unauthorized ↔ ∀ revoked, ¬ IssuedSerial s ca.id req.serialNumber revoked) ∧
      (answer = .unauthorized → ∀ time reason, ¬ Listed crl req.serialNumber time reason) := by
  obtain ⟨hallowed, built, hbuilt, rfl⟩ := generateCrl_ok hgen
  have hsign := crlAllowed_iff.1 hallowed
  have hsame : built = crl := by
    rw [get?_updateCa_self (Table.get?_key hmem)] at hcrl
    exact Option.some.inj hcrl
  rw [hsame] at hbuilt
  have hlisted : ∀ time reason, Listed crl req.serialNumber time reason ↔
      ∃ subject, (formatHex req.serialNumber, subject) ∈ issuedRows s ca.id ∧
        certStatus env.now subject = .ok (.revoked time reason) := fun _ _ => listed_iff hc hbuilt
  cases hsub : ocspSubject s ca.id (formatHex req.serialNumber) with
  | none =>
    have hnone := (ocspSubject_eq_none hu).1 hsub
    have hunlisted : ∀ time reason, ¬ Listed crl req.serialNumber time reason := by
      intro time reason h
      obtain ⟨subject, hmem, _⟩ := (hlisted time reason).1 h
      exact hnone subject hmem
    have hunissued : ∀ revoked, ¬ IssuedSerial s ca.id req.serialNumber revoked := by
      intro revoked h
      obtain ⟨subject, hmem, _⟩ := issuedSerial_iff.1 h
      exact hnone subject hmem
    refine ⟨.unauthorized, by simp only [buildOcspResponse, hsign, hsub]; rfl, ?_, ?_, fun _ => hunlisted, ?_,
      fun _ => hunlisted⟩
    · exact fun time reason => iff_of_false (by simp [OcspAnswer.status?]) (hunlisted time reason)
    · exact iff_of_false (by simp [OcspAnswer.status?]) (hunissued false)
    · exact iff_of_true rfl hunissued
  | some subject =>
    have hrow := (ocspSubject_eq_some hu).1 hsub
    obtain ⟨status, hstatus⟩ := certStatus_isOk hbuilt hc hrow
    obtain ⟨answer, hanswer, hanswered⟩ := buildOcspResponse_some hsign hsub hstatus
    have hrevoked : ∀ time reason, status = .revoked time reason ↔ Listed crl req.serialNumber time reason := by
      intro time reason
      rw [hlisted]
      constructor
      · intro h
        exact ⟨subject, hrow, by rw [hstatus, h]⟩
      · rintro ⟨other, hother, h⟩
        rw [issuedRows_unique hu hother hrow, hstatus] at h
        exact Except.ok.inj h
    have hgood : status = .good ↔ subject.isRevoked = false := by
      rw [certStatus] at hstatus
      by_cases hrev : subject.isRevoked = true
      · rw [if_pos hrev] at hstatus
        split_ifs at hstatus
        cases hstatus
        simp [hrev]
      · rw [if_neg hrev] at hstatus
        cases hstatus
        simpa using hrev
    have hanswerable : answer ≠ .unauthorized := by
      rintro rfl
      cases hanswered
    have hissued : IssuedSerial s ca.id req.serialNumber subject.isRevoked := issuedSerial_iff.2 ⟨subject, hrow, rfl⟩
    refine ⟨answer, hanswer, ?_, ?_, ?_, ?_, fun h => absurd h hanswerable⟩
    · intro time reason
      rw [hanswered, Option.some_inj]
      exact hrevoked time reason
    · rw [hanswered, Option.some_inj, hgood, issuedSerial_iff]
      constructor
      · exact fun h => ⟨subject, hrow, h⟩
      · rintro ⟨other, hother, h⟩
        rwa [issuedRows_unique hu hother hrow] at h
    · intro h time reason hl
      rw [hanswered, Option.some_inj, (hrevoked time reason).2 hl] at h
      cases h
    · exact iff_of_false hanswerable fun h => h _ hissued

/-- a root with a sub-CA revoked without a date and a certificate revoked for a reason unknown to the tables -/
def mixedDb : Db where
  cas := ⟨[sampleRoot, { sampleSub with isRevoked := true }], by decide⟩
  leaves := ⟨[{ sampleLeaf 1 1 with isRevoked := true, revokedAt := some 5, revocationReason := some "lost" },
    sampleLeaf 2 1], by decide⟩
  alternates := Table.empty
  csrs := Table.empty

def mixedCrl : Crl :=
  ⟨1, day, 8 * day, [⟨256, 0, .unspecified⟩, ⟨32, day, .unspecified⟩]⟩

theorem ocsp_agrees_with_crl_mixed : UniqueSerials mixedDb 1 ∧ CanonicalSerials mixedDb 1 ∧ ∀ req : OcspRequest,
    ∃ answer, buildOcspResponse day (.ok ()) (some req) sampleRoot mixedDb = .ok answer ∧
      (answer.status? = some .good ↔ IssuedSerial mixedDb 1 req.serialNumber false) ∧
      ∀ time reason, answer.status? = some (.revoked time reason) ↔ Listed mixedCrl req.serialNumber time reason := by
  have hserials : issuedRows mixedDb 1 = [(formatHex 256, ⟨true, some 5, some "lost"⟩),
      (formatHex 512, ⟨false, none, none⟩), (formatHex 32, ⟨true, none, none⟩)] := rfl
  have hunique : UniqueSerials mixedDb 1 := by
    rw [UniqueSerials, hserials]
    decide
  have hcanonical : CanonicalSerials mixedDb 1 := by
    intro row hrow
    rw [hserials] at hrow
    simp only [List.mem_cons, List.not_mem_nil, or_false] at hrow
    rcases hrow with rfl | rfl | rfl
    · exact ⟨256, rfl⟩
    · exact ⟨512, rfl⟩
    · exact ⟨32, rfl⟩
  have hgen : generateCrl (Env.at day) sampleRoot none mixedDb = .ok (mixedDb.updateCa 1 (cacheCrl mixedCrl) cacheCrl_id) :=
    generateCrl_eq rfl (by decide) rfl
  refine ⟨hunique, hcanonical, fun req => ?_⟩
  obtain ⟨answer, hanswer, hrevoked, hgood, _⟩ :=
    ocsp_agrees_with_crl List.mem_cons_self hunique hcanonical hgen rfl req
  exact ⟨answer, hanswer, hgood, hrevoked⟩

end Chancery.Pki
