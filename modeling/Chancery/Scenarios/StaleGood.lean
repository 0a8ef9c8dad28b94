/-
OCSP responses served from the cache or signed afresh, in any interleaving of requests, revocations and rotations.

(1) The tables only revoke (`OnlyRevoked`): the row that a request finds is the row that the tables had when it began, and a
revocation that had committed by then is still there, whether the row is read again or not.
(2) An entry of the response cache is determined by its key (`StoreOk`): a reply under `is_revoked = true` does not say
GOOD, and its signer has the serial number that is in the key. It is the signer of the request where no two responders share
a serial number, and no two of their encrypted keys a hash (`Distinct`).
(3) The time tests bound the age of a reply by the lifetime of an entry, and by how long a request is at work (`Prompt`).
`no_stale_good` is the result: what is said of every served response needs no assumption (`Sound`), its signer needs
`Distinct` (`Authentic`), the end of its window needs `Prompt` (`Current`). Without (3) a reply can be stored long after it
was dated: `late_reply`.
-/
import Mathlib.Tactic
import Chancery.Services.OcspWorkers

namespace Chancery.Pki

open Chancery.Core

/-! ## Tables that only revoke -/

structure LeafKept (c d : LeafRow) : Prop where
  id : d.id = c.id
  serialNumber : d.serialNumber = c.serialNumber
  caId : d.caId = c.caId
  isRevoked : c.isRevoked = true → d.isRevoked = true

structure CaKept (a b : CaRow) : Prop where
  id : b.id = a.id
  serialNumber : b.serialNumber = a.serialNumber
  parentId : b.parentId = a.parentId
  isRevoked : a.isRevoked = true → b.isRevoked = true

/-- **Only revoked.** The same rows, and what was revoked is revoked. -/
structure OnlyRevoked (s t : Db) : Prop where
  leaves : s.leaves.Evolves LeafKept t.leaves
  cas : s.cas.Evolves CaKept t.cas

section OnlyRevoked

variable {s t u : Db}

theorem LeafKept.refl (c : LeafRow) : LeafKept c c := ⟨rfl, rfl, rfl, fun h => h⟩

theorem LeafKept.trans {c d e : LeafRow} (h : LeafKept c d) (h' : LeafKept d e) : LeafKept c e :=
  ⟨h'.id.trans h.id, h'.serialNumber.trans h.serialNumber, h'.caId.trans h.caId, fun hc => h'.isRevoked (h.isRevoked hc)⟩

theorem CaKept.refl (a : CaRow) : CaKept a a := ⟨rfl, rfl, rfl, fun h => h⟩

theorem CaKept.trans {a b c : CaRow} (h : CaKept a b) (h' : CaKept b c) : CaKept a c :=
  ⟨h'.id.trans h.id, h'.serialNumber.trans h.serialNumber, h'.parentId.trans h.parentId,
    fun ha => h'.isRevoked (h.isRevoked ha)⟩

theorem OnlyRevoked.refl (s : Db) : OnlyRevoked s s := ⟨.refl LeafKept.refl _, .refl CaKept.refl _⟩

theorem OnlyRevoked.trans (h : OnlyRevoked s t) (h' : OnlyRevoked t u) : OnlyRevoked s u :=
  ⟨h.leaves.trans (fun _ _ _ => LeafKept.trans) h'.leaves, h.cas.trans (fun _ _ _ => CaKept.trans) h'.cas⟩

theorem kept_revokeLeafRow {now : DateTime} {reason : String} (c : LeafRow) : LeafKept c (revokeLeafRow now reason c) :=
  ⟨rfl, rfl, rfl, fun _ => rfl⟩

theorem kept_revokeCertificate {now : DateTime} {certId : ℤ} {reason : String}
    (h : revokeCertificate now certId reason s = .ok t) : OnlyRevoked s t := by
  obtain ⟨_, _, h⟩ := bind_eq_ok.1 h
  cases hc : s.leaves.get? certId with
  | none =>
    rw [hc] at h
    cases h
  | some c =>
    rw [hc] at h
    by_cases hr : c.isRevoked = true
    · simp only [hr, if_true] at h
      cases h
    · simp only [hr] at h
      cases h
      have hleaves : s.leaves.Evolves LeafKept (s.leaves.update certId (revokeLeafRow now reason) revokeLeafRow_id) :=
        @Table.evolves_update _ _ _ s.leaves certId (revokeLeafRow now reason) (fun _ => rfl) LeafKept.refl
          kept_revokeLeafRow
      exact ⟨hleaves, (OnlyRevoked.refl s).cas⟩

theorem kept_revokeOne {now : DateTime} {reason : String} {caId : ℤ} : OnlyRevoked s (revokeOne now reason s caId) := by
  have hcas : s.cas.Evolves CaKept (s.cas.update caId (revokeCaRow now reason)) :=
    @Table.evolves_update _ _ _ s.cas caId (revokeCaRow now reason) (fun _ => rfl) CaKept.refl fun _ =>
      ⟨rfl, rfl, rfl, fun _ => rfl⟩
  have hleaf : ∀ c, LeafKept c (if activeLeaf caId c then revokeLeafRow now reason c else c) := by
    intro c
    by_cases hc : activeLeaf caId c = true
    · rw [if_pos hc]
      exact kept_revokeLeafRow c
    · rw [if_neg hc]
      exact .refl c
  exact ⟨@Table.evolves_mapRows _ _ _ s.leaves _ (fun c => (hleaf c).id) hleaf, hcas⟩

theorem kept_sweepCa {now : DateTime} {caId : ℤ} {reason : String} {x : Sweep} (h : sweepCa now caId reason s = .ok x) :
    OnlyRevoked s x.db := by
  obtain ⟨_, l, hl, _⟩ := sweepCa_ok h
  rw [hl]
  exact run_rel OnlyRevoked.refl OnlyRevoked.trans (fun _ _ => kept_revokeOne) s l

/-! ## The subject of a request -/

/-- the row is there, and revoked -/
def RefRevoked (s : Db) (ref : SubjectRef) : Prop := ∃ subject, readSubject s ref = some subject ∧ subject.isRevoked = true

/-- what a request about this serial number finds is revoked -/
def RevokedIn (s : Db) (caId : ℤ) (serial : Text) : Prop :=
  ∃ subject, ocspSubject s caId serial = some subject ∧ subject.isRevoked = true

theorem readSubject_of_find {caId : ℤ} {serial : Text} {ref : SubjectRef} {subject : OcspSubject}
    (h : findSubject s caId serial = some (ref, subject)) : readSubject s ref = some subject := by
  unfold findSubject at h
  cases hleaf : s.leaves.rows.find? (fun c => c.serialNumber == serial && c.caId == caId) with
  | some c =>
    rw [hleaf] at h
    cases h
    have hget : s.leaves.get? c.id = some c := Table.get?_key (t := s.leaves) (List.mem_of_find?_eq_some hleaf)
    exact congrArg (Option.map leafSubject) hget
  | none =>
    rw [hleaf] at h
    obtain ⟨sub, hsub, heq⟩ := Option.map_eq_some_iff.1 h
    cases heq
    have hget : s.cas.get? sub.id = some sub := Table.get?_key (t := s.cas) (List.mem_of_find?_eq_some hsub)
    exact congrArg (Option.map caSubject) hget

theorem RefRevoked.kept {ref : SubjectRef} (hkept : OnlyRevoked s t) (h : RefRevoked s ref) : RefRevoked t ref := by
  obtain ⟨subject, hread, hrev⟩ := h
  cases ref with
  | leaf i =>
    obtain ⟨c, hc, rfl⟩ := Option.map_eq_some_iff.1 hread
    have hrel := hkept.leaves.get? (k := i) fun _ _ h => h.id
    rw [hc] at hrel
    cases hd : t.leaves.get? i with
    | none =>
      rw [hd] at hrel
      exact nomatch hrel
    | some d =>
      rw [hd, Option.rel_some_some] at hrel
      exact ⟨leafSubject d, congrArg (Option.map leafSubject) hd, hrel.isRevoked hrev⟩
  | ca i =>
    obtain ⟨a, ha, rfl⟩ := Option.map_eq_some_iff.1 hread
    have hrel := hkept.cas.get? (k := i) fun _ _ h => h.id
    rw [ha] at hrel
    cases hb : t.cas.get? i with
    | none =>
      rw [hb] at hrel
      exact nomatch hrel
    | some b =>
      rw [hb, Option.rel_some_some] at hrel
      exact ⟨caSubject b, congrArg (Option.map caSubject) hb, hrel.isRevoked hrev⟩

/-- **What was revoked is found revoked**, in the tables of any later time. -/
theorem isRevoked_of_find {caId : ℤ} {serial : Text} {ref : SubjectRef} {subject : OcspSubject} (hkept : OnlyRevoked s t)
    (hrev : RevokedIn s caId serial) (h : findSubject t caId serial = some (ref, subject)) : subject.isRevoked = true := by
  obtain ⟨old, hold, hrev⟩ := hrev
  have hleaves := hkept.leaves.find? (p := fun c => c.serialNumber == serial && c.caId == caId) fun c d hcd => by
    rw [hcd.serialNumber, hcd.caId]
  have hcas := hkept.cas.find? (p := fun sub => sub.serialNumber == serial && sub.parentId == some caId) fun a b hab => by
    rw [hab.serialNumber, hab.parentId]
  unfold ocspSubject at hold
  unfold findSubject at h
  cases hc : s.leaves.rows.find? (fun c => c.serialNumber == serial && c.caId == caId) with
  | some c =>
    cases hd : t.leaves.rows.find? (fun c => c.serialNumber == serial && c.caId == caId) with
    | none =>
      rw [hc, hd] at hleaves
      exact nomatch hleaves
    | some d =>
      rw [hc, hd, Option.rel_some_some] at hleaves
      rw [hc] at hold
      rw [hd] at h
      cases hold
      cases h
      exact hleaves.isRevoked hrev
  | none =>
    cases hd : t.leaves.rows.find? (fun c => c.serialNumber == serial && c.caId == caId) with
    | some d =>
      rw [hc, hd] at hleaves
      exact nomatch hleaves
    | none =>
      rw [hc] at hold
      rw [hd] at h
      obtain ⟨a, ha, rfl⟩ := Option.map_eq_some_iff.1 hold
      obtain ⟨b, hb, heq⟩ := Option.map_eq_some_iff.1 h
      cases heq
      rw [ha, hb, Option.rel_some_some] at hcas
      exact hcas.isRevoked hrev

end OnlyRevoked

/-! ## What a phase holds -/

/-- the subject was revoked when the request began -/
def OcspRun.Doomed (x : OcspRun) : Prop := RevokedIn x.atStart x.ca.id x.serial

/-- the reply was dated `t` -/
structure Reply.DatedAt (reply : Reply) (t : DateTime) : Prop where
  thisUpdate : reply.response.thisUpdate = wholeSeconds t
  nextUpdate : reply.response.nextUpdate = wholeSeconds (t + responseValidity)

section Phases

variable (cfg : OcspConfig) (s : OcspStore)

structure RunOk (x : OcspRun) : Prop where
  kept : OnlyRevoked x.atStart s.db
  began : x.began ≤ s.now
  columns : ∀ r, x.columns = some r → r ∈ s.drawn

structure FoundOk (x : OcspRun) (f : Found) : Prop extends RunOk s x where
  ref : x.Doomed → RefRevoked s.db f.ref
  row : x.Doomed → ∀ subject, f.row = some subject → subject.isRevoked = true

/-- the key of a responder is the one in its columns, or in columns with the same hash -/
def SignerOk : Signer → Prop
  | .caKey => True
  | .responder r key =>
    r ∈ s.drawn ∧ ∃ r' ∈ s.drawn, cfg.fingerprint r'.keyEnc = cfg.fingerprint r.keyEnc ∧ cfg.decrypt r'.keyEnc = .ok key

/-- **A reply fits a request.** -/
structure ReplyOk (x : OcspRun) (signer : Signer) (reply : Reply) : Prop extends RunOk s x where
  caId : reply.caId = x.ca.id
  serial : reply.serial = x.serial
  label : reply.signer.label = signer.label
  made : SignerOk cfg s reply.signer
  opens : SignerOk cfg s signer
  status : x.Doomed → reply.response.status ≠ .good

/-- **A reply fits a key of the cache.** -/
structure EntryOk (key : CacheKey) (reply : Reply) : Prop where
  caId : reply.caId = key.caId
  serial : reply.serial = key.serial
  label : reply.signer.label = key.signer
  opens : SignerOk cfg s reply.signer
  status : key.isRevoked = true → reply.response.status ≠ .good

def PhaseOk : OcspPhase → Prop
  | .idle => True
  | .opened x => RunOk s x
  | .found x f => FoundOk s x f
  | .stale x f => FoundOk s x f
  | .forgetting x ref new => FoundOk s x ⟨ref, none⟩ ∧ new ∈ s.drawn
  | .rotating x ref new => FoundOk s x ⟨ref, none⟩ ∧ new ∈ s.drawn
  | .expired x ref _ => FoundOk s x ⟨ref, none⟩
  | .opening x f r => FoundOk s x f ∧ r ∈ s.drawn
  | .decrypted x f r key => FoundOk s x f ∧ r ∈ s.drawn ∧ cfg.decrypt r.keyEnc = .ok key
  | .chosen x f signer => FoundOk s x f ∧ SignerOk cfg s signer
  | .keyed x subject signer => RunOk s x ∧ (x.Doomed → subject.isRevoked = true) ∧ SignerOk cfg s signer
  | .missed x subject signer => RunOk s x ∧ (x.Doomed → subject.isRevoked = true) ∧ SignerOk cfg s signer
  | .signed x key signer reply =>
    ReplyOk cfg s x signer reply ∧ EntryOk cfg s key reply ∧ ∃ t, reply.DatedAt t ∧ x.began ≤ t ∧ t ≤ s.now
  | .answering x signer reply =>
    ReplyOk cfg s x signer reply ∧ reply.response.thisUpdate ≤ s.now
  | .rotation _ _ _ => True
  | .clearing _ new => new ∈ s.drawn
  | .renewing _ new => new ∈ s.drawn

/-- **Sound.** A response that was served: it is about the certificate asked for, not from the future, and not GOOD for
what was revoked when the request began. -/
structure Sound (a : Served) : Prop where
  caId : a.reply.caId = a.caId
  serial : a.reply.serial = a.serial
  dated : a.reply.response.thisUpdate ≤ a.servedAt
  status : RevokedIn a.atStart a.caId a.serial → a.reply.response.status ≠ .good

/-- **Authentic.** It is signed by the signer of its request, with the key in the signer's columns. -/
structure Authentic (a : Served) : Prop where
  signer : a.reply.signer = a.selected
  opens : ∀ r key, a.selected = .responder r key → cfg.decrypt r.keyEnc = .ok key

/-- **Current.** It has not expired. -/
def Current (a : Served) : Prop := a.servedAt < a.reply.response.nextUpdate

/-- the signer selected, and the one of the reply, have one serial number -/
structure ServedOk (a : Served) : Prop extends Sound a where
  label : a.reply.signer.label = a.selected.label
  made : SignerOk cfg s a.reply.signer
  opens : SignerOk cfg s a.selected

structure StoreOk : Prop where
  entries : ∀ key reply expiresAt, s.responses key = some (reply, expiresAt) → EntryOk cfg s key reply ∧
    reply.response.thisUpdate ≤ s.now
  keys : ∀ caId entry, s.keys caId = some entry →
    ∃ r ∈ s.drawn, entry.fingerprint = cfg.fingerprint r.keyEnc ∧ cfg.decrypt r.keyEnc = .ok entry.key
  responders : ∀ caId r, s.responders caId = some r → r ∈ s.drawn
  served : ∀ a ∈ s.served, ServedOk cfg s a

/-- **Distinct.** Responders do not share a serial number, and their encrypted keys do not share a hash. -/
structure Distinct (drawn : Set Responder) : Prop where
  serial : Set.InjOn (fun r => r.certificate.serialNumber) drawn
  fingerprint : Set.InjOn (fun r => cfg.fingerprint r.keyEnc) drawn

/-- when the request at work began -/
def OcspPhase.began? : OcspPhase → Option DateTime
  | .opened x => some x.began
  | .found x _ => some x.began
  | .stale x _ => some x.began
  | .forgetting x _ _ => some x.began
  | .rotating x _ _ => some x.began
  | .expired x _ _ => some x.began
  | .opening x _ _ => some x.began
  | .decrypted x _ _ _ => some x.began
  | .chosen x _ _ => some x.began
  | .keyed x _ _ => some x.began
  | .missed x _ _ => some x.began
  | .signed x _ _ _ => some x.began
  | .answering x _ _ => some x.began
  | _ => none

end Phases

/-- **Prompt.** No request has been at work for longer than `D`. -/
def Prompt (D : ℤ) (r : OcspProcess) : Prop := ∀ w began, (r.workers w).began? = some began → r.shared.now ≤ began + D

/-! ## Later stores -/

structure Later (s t : OcspStore) : Prop where
  db : OnlyRevoked s.db t.db
  drawn : s.drawn ⊆ t.drawn
  now : s.now ≤ t.now

section Later

variable {cfg : OcspConfig} {s t : OcspStore} {x : OcspRun}

theorem Later.refl (s : OcspStore) : Later s s := ⟨.refl _, subset_rfl, le_rfl⟩

/-- nothing a phase relies on has changed -/
theorem Later.same (hdb : t.db = s.db) (hdrawn : t.drawn = s.drawn) (hnow : t.now = s.now) : Later s t :=
  ⟨hdb ▸ .refl _, hdrawn ▸ subset_rfl, hnow ▸ le_rfl⟩

theorem RunOk.later (h : Later s t) (hx : RunOk s x) : RunOk t x :=
  ⟨hx.kept.trans h.db, hx.began.trans h.now, fun r hr => h.drawn (hx.columns r hr)⟩

theorem FoundOk.later {f : Found} (h : Later s t) (hf : FoundOk s x f) : FoundOk t x f :=
  ⟨hf.toRunOk.later h, fun hd => (hf.ref hd).kept h.db, hf.row⟩

theorem SignerOk.later {signer : Signer} (h : Later s t) (hsigner : SignerOk cfg s signer) : SignerOk cfg t signer := by
  cases signer with
  | caKey => trivial
  | responder r key =>
    obtain ⟨hr, r', hr', hkey⟩ := hsigner
    exact ⟨h.drawn hr, r', h.drawn hr', hkey⟩

theorem ReplyOk.later {signer : Signer} {reply : Reply} (h : Later s t) (hreply : ReplyOk cfg s x signer reply) :
    ReplyOk cfg t x signer reply :=
  ⟨hreply.toRunOk.later h, hreply.caId, hreply.serial, hreply.label, hreply.made.later h, hreply.opens.later h,
    hreply.status⟩

theorem EntryOk.later {key : CacheKey} {reply : Reply} (h : Later s t) (hentry : EntryOk cfg s key reply) :
    EntryOk cfg t key reply := ⟨hentry.caId, hentry.serial, hentry.label, hentry.opens.later h, hentry.status⟩

theorem PhaseOk.later {p : OcspPhase} (h : Later s t) (hp : PhaseOk cfg s p) : PhaseOk cfg t p := by
  cases p with
  | idle => trivial
  | opened x => exact RunOk.later h hp
  | found x f => exact FoundOk.later h hp
  | stale x f => exact FoundOk.later h hp
  | forgetting x ref new => exact ⟨hp.1.later h, h.drawn hp.2⟩
  | rotating x ref new => exact ⟨hp.1.later h, h.drawn hp.2⟩
  | expired x ref committed => exact FoundOk.later h hp
  | opening x f r => exact ⟨hp.1.later h, h.drawn hp.2⟩
  | decrypted x f r key => exact ⟨hp.1.later h, h.drawn hp.2.1, hp.2.2⟩
  | chosen x f signer => exact ⟨hp.1.later h, hp.2.later h⟩
  | keyed x subject signer => exact ⟨hp.1.later h, hp.2.1, hp.2.2.later h⟩
  | missed x subject signer => exact ⟨hp.1.later h, hp.2.1, hp.2.2.later h⟩
  | signed x key signer reply =>
    obtain ⟨hreply, hentry, at_, hdated, hbegan, hnow⟩ := hp
    exact ⟨hreply.later h, hentry.later h, at_, hdated, hbegan, hnow.trans h.now⟩
  | answering x signer reply => exact ⟨hp.1.later h, hp.2.trans h.now⟩
  | rotation ca columns force => trivial
  | clearing caId new => exact h.drawn hp
  | renewing caId new => exact h.drawn hp

theorem ServedOk.later {a : Served} (h : Later s t) (ha : ServedOk cfg s a) : ServedOk cfg t a :=
  ⟨ha.toSound, ha.label, ha.made.later h, ha.opens.later h⟩

/-- entries may disappear, and a responder that was made may be installed -/
theorem StoreOk.later (h : Later s t) (hs : StoreOk cfg s)
    (hentries : ∀ key v, t.responses key = some v → s.responses key = some v)
    (hkeys : ∀ caId v, t.keys caId = some v → s.keys caId = some v)
    (hresponders : ∀ caId r, t.responders caId = some r → r ∈ t.drawn) (hserved : t.served = s.served) :
    StoreOk cfg t := by
  refine ⟨fun key reply expiresAt hkey => ?_, fun caId entry hkey => ?_, hresponders, ?_⟩
  · obtain ⟨hentry, hdate⟩ := hs.entries key reply expiresAt (hentries key _ hkey)
    exact ⟨hentry.later h, hdate.trans h.now⟩
  · obtain ⟨r, hr, hentry⟩ := hs.keys caId entry (hkeys caId entry hkey)
    exact ⟨r, h.drawn hr, hentry⟩
  · rw [hserved]
    exact fun a ha => (hs.served a ha).later h

end Later

/-! ## One access -/

/-- what a step that leads to `r` leaves -/
structure StepOk (cfg : OcspConfig) (s : OcspStore) (r : OcspStore × OcspPhase) : Prop where
  later : Later s r.1
  store : StoreOk cfg r.1
  phase : PhaseOk cfg r.1 r.2

section Access

variable {cfg : OcspConfig} {s : OcspStore} {x : OcspRun} {f : Found} {p : OcspPhase} {draw : KeyDraw}

theorem StepOk.stay (hs : StoreOk cfg s) (hp : PhaseOk cfg s p) : StepOk cfg s (s, p) := ⟨.refl s, hs, hp⟩

/-- the row of the subject is not loaded any more -/
theorem FoundOk.expire (hf : FoundOk s x f) : FoundOk s x ⟨f.ref, none⟩ := ⟨hf.toRunOk, hf.ref, fun _ _ h => nomatch h⟩

theorem phaseOk_openResponder (hf : FoundOk s x f) : PhaseOk cfg s (openResponder x f) := by
  unfold openResponder
  cases hr : x.columns with
  | none => exact hf.expire
  | some r => exact ⟨hf, hf.columns r hr⟩

theorem phaseOk_select (hf : FoundOk s x f) : PhaseOk cfg s (selectResponder cfg s x f) := by
  unfold selectResponder
  by_cases hdelegation : (!s.delegation) = true
  · rw [if_pos hdelegation]
    exact ⟨hf, trivial⟩
  rw [if_neg hdelegation]
  by_cases hexpired : x.ca.expired s.now = true
  · rw [if_pos hexpired]
    exact ⟨hf, trivial⟩
  rw [if_neg hexpired]
  by_cases hstale : responderNeedsRotation cfg.lib (s.env cfg) cfg.responder x.ca (x.columns.map (·.certificate)) = true
  · rw [if_pos hstale]
    exact hf
  · rw [if_neg hstale]
    exact phaseOk_openResponder hf

/-- a new responder is drawn, and its CA has no key in the cache -/
theorem stepOk_forgetKey {caId : ℤ} {new : Responder} (hs : StoreOk cfg s)
    (hp : PhaseOk cfg (s.forgetKey caId new) p) : StepOk cfg s (s.forgetKey caId new, p) := by
  have hlater : Later s (s.forgetKey caId new) := ⟨.refl _, Set.subset_insert _ _, le_rfl⟩
  refine ⟨hlater, hs.later hlater (fun _ _ h => h) (fun i v h => ?_) (fun i r hr => .inr (hs.responders i r hr)) rfl, hp⟩
  change Function.update s.keys caId none i = some v at h
  by_cases hi : i = caId
  · rw [hi, Function.update_self] at h
    cases h
  · rwa [Function.update_of_ne hi] at h

theorem stepOk_rotateLazily (hs : StoreOk cfg s) (hf : FoundOk s x f) : StepOk cfg s (rotateLazily cfg s draw x f) := by
  unfold rotateLazily
  rcases renewResponder cfg s x.ca x.columns false draw with _ | _ | new
  · exact .stay hs hf.expire
  · exact .stay hs ⟨hf, trivial⟩
  · have hlater : Later s (s.forgetKey x.ca.id new) := ⟨.refl _, Set.subset_insert _ _, le_rfl⟩
    exact stepOk_forgetKey hs ⟨hf.expire.later hlater, Set.mem_insert _ _⟩

theorem stepOk_rotate {ca : CaRow} {columns : Option Responder} {force : Bool} (hs : StoreOk cfg s) :
    StepOk cfg s (rotateResponder cfg s draw ca columns force) := by
  unfold rotateResponder
  rcases renewResponder cfg s ca columns force draw with _ | _ | new
  · exact .stay hs trivial
  · exact .stay hs trivial
  · exact stepOk_forgetKey hs (Set.mem_insert _ _)

theorem stepOk_clear (hs : StoreOk cfg s) (hp : PhaseOk cfg s p) : StepOk cfg s (s.clear, p) := by
  have hlater : Later s s.clear := .same rfl rfl rfl
  exact ⟨hlater, hs.later hlater (fun _ _ h => nomatch h) (fun _ _ h => h) hs.responders rfl, hp.later hlater⟩

theorem stepOk_install {caId : ℤ} {new : Responder} (hs : StoreOk cfg s) (hnew : new ∈ s.drawn)
    (hp : PhaseOk cfg s p) : StepOk cfg s (s.install caId new, p) := by
  have hlater : Later s (s.install caId new) := .same rfl rfl rfl
  refine ⟨hlater, hs.later hlater (fun _ _ h => h) (fun _ _ h => h) (fun i r hr => ?_) rfl, hp.later hlater⟩
  change Function.update s.responders caId (some new) i = some r at hr
  by_cases hi : i = caId
  · rw [hi, Function.update_self] at hr
    cases hr
    exact hnew
  · rw [Function.update_of_ne hi] at hr
    exact hs.responders i r hr

theorem phaseOk_reload {ref : SubjectRef} {committed : Bool} (hs : StoreOk cfg s) (hf : FoundOk s x ⟨ref, none⟩) :
    PhaseOk cfg s (reload s x ref committed) := by
  unfold reload
  cases hca : s.db.cas.get? x.ca.id with
  | none => trivial
  | some ca =>
    have hid : ca.id = x.ca.id := Table.key_of_get? hca
    have hdoomed : OcspRun.Doomed { x with ca := ca, columns := s.responders ca.id } → x.Doomed := by
      unfold OcspRun.Doomed
      show RevokedIn x.atStart ca.id x.serial → _
      rw [hid]
      exact id
    have hfound : FoundOk s { x with ca := ca, columns := s.responders ca.id } ⟨ref, none⟩ :=
      ⟨⟨hf.kept, hf.began, hs.responders ca.id⟩, fun hd => hf.ref (hdoomed hd), fun _ _ h => nomatch h⟩
    cases committed with
    | false => exact ⟨hfound, trivial⟩
    | true => exact phaseOk_openResponder hfound

/-- a key that was decrypted just now -/
theorem signerOk_of_decrypt {r : Responder} {key : Text} (hr : r ∈ s.drawn) (hkey : cfg.decrypt r.keyEnc = .ok key) :
    SignerOk cfg s (.responder r key) := ⟨hr, r, hr, rfl, hkey⟩

/-- the cached key is that of columns with the hash of these -/
theorem signerOk_cachedKey {caId : ℤ} {r : Responder} {key : Text} (hs : StoreOk cfg s) (hr : r ∈ s.drawn)
    (h : s.cachedKey cfg caId r = some key) : SignerOk cfg s (.responder r key) := by
  unfold OcspStore.cachedKey at h
  by_cases httl : cfg.keyTtlSeconds ≤ 0
  · rw [if_pos httl] at h
    cases h
  rw [if_neg httl] at h
  cases hentry : s.keys caId with
  | none =>
    rw [hentry] at h
    cases h
  | some entry =>
    simp only [hentry] at h
    by_cases hfit : entry.fingerprint = cfg.fingerprint r.keyEnc ∧ s.now < entry.expiresAt
    · rw [if_pos hfit] at h
      cases h
      obtain ⟨r', hr', hfingerprint, hopens⟩ := hs.keys caId entry hentry
      exact ⟨hr, r', hr', hfingerprint.symm.trans hfit.1, hopens⟩
    · rw [if_neg hfit] at h
      cases h

theorem later_storeKey {caId : ℤ} {r : Responder} {key : Text} : Later s (s.storeKey cfg caId r key) := by
  unfold OcspStore.storeKey
  split_ifs
  · exact .refl s
  · exact .same rfl rfl rfl

theorem stepOk_storeKey {caId : ℤ} {r : Responder} {key : Text} (hs : StoreOk cfg s)
    (hr : r ∈ s.drawn) (hkey : cfg.decrypt r.keyEnc = .ok key) (hp : PhaseOk cfg s p) :
    StepOk cfg s (s.storeKey cfg caId r key, p) := by
  have hlater : Later s (s.storeKey cfg caId r key) := later_storeKey
  unfold OcspStore.storeKey at hlater ⊢
  by_cases httl : cfg.keyTtlSeconds ≤ 0
  · rw [if_pos httl]
    exact .stay hs hp
  rw [if_neg httl] at hlater ⊢
  refine ⟨hlater, ⟨fun k v e hk => ?_, fun i entry hentry => ?_, hs.responders, fun a ha => (hs.served a ha).later hlater⟩,
    hp.later hlater⟩
  · obtain ⟨hold, hdate⟩ := hs.entries k v e hk
    exact ⟨hold.later hlater, hdate⟩
  change Function.update s.keys caId _ i = some entry at hentry
  by_cases hi : i = caId
  · rw [hi, Function.update_self] at hentry
    cases hentry
    exact ⟨r, hr, rfl, hkey⟩
  · rw [Function.update_of_ne hi] at hentry
    exact hs.keys i entry hentry

/-! ## Labels -/

theorem formatHex_ne_caKey (n : ℤ) : formatHex n ≠ "ca-key".toList := by
  intro h
  have hint := intHex_formatHex n
  rw [h] at hint
  have hno : (intHex "ca-key".toList).toOption = none := by decide
  rw [hint] at hno
  cases hno

theorem formatHex_injective : Function.Injective formatHex := by
  intro m n h
  have hm := intHex_formatHex m
  rw [h, intHex_formatHex] at hm
  exact (Except.ok.inj hm).symm

/-- **The key is the key of the columns**: no other key of a responder has its hash. -/
theorem decrypt_of_distinct (hdist : Distinct cfg s.drawn) {r : Responder} {key : Text}
    (h : SignerOk cfg s (.responder r key)) : cfg.decrypt r.keyEnc = .ok key := by
  obtain ⟨hr, r', hr', hfingerprint, hkey⟩ := h
  rw [← hdist.fingerprint hr' hr hfingerprint]
  exact hkey

/-- **The label identifies the signer.** -/
theorem signer_eq_of_label (hdist : Distinct cfg s.drawn) {a b : Signer} (ha : SignerOk cfg s a) (hb : SignerOk cfg s b)
    (h : a.label = b.label) : a = b := by
  cases a with
  | caKey =>
    cases b with
    | caKey => rfl
    | responder r key => exact absurd h.symm (formatHex_ne_caKey _)
  | responder r key =>
    cases b with
    | caKey => exact absurd h (formatHex_ne_caKey _)
    | responder r' key' =>
      have hr : r = r' := hdist.serial ha.1 hb.1 (formatHex_injective h)
      have hkey : (.ok key : Except PyError Text) = .ok key' := by
        calc (.ok key : Except PyError Text)
            = cfg.decrypt r.keyEnc := (decrypt_of_distinct hdist ha).symm
          _ = cfg.decrypt r'.keyEnc := by rw [hr]
          _ = .ok key' := decrypt_of_distinct hdist hb
      rw [hr, Except.ok.inj hkey]

theorem ServedOk.authentic {a : Served} (hdist : Distinct cfg s.drawn) (h : ServedOk cfg s a) : Authentic cfg a := by
  refine ⟨signer_eq_of_label hdist h.made h.opens h.label, ?_⟩
  intro r key hselected
  have hopens := h.opens
  rw [hselected] at hopens
  exact decrypt_of_distinct hdist hopens

/-! ## Lookups -/

/-- a lookup deletes nothing but entries of the cache -/
theorem lookup_fst (key : CacheKey) : ∃ responses, (s.lookup cfg key).1 = { s with responses := responses } ∧
    ∀ k v, responses k = some v → s.responses k = some v := by
  have hsame : ∃ responses, s = { s with responses := responses } ∧ ∀ k v, responses k = some v → s.responses k = some v :=
    ⟨s.responses, rfl, fun _ _ h => h⟩
  unfold OcspStore.lookup
  split_ifs with httl
  · exact hsame
  cases hentry : s.responses key with
  | none => exact hsame
  | some v =>
    simp only
    split_ifs with hold
    · refine ⟨Function.update s.responses key none, rfl, fun k v h => ?_⟩
      by_cases hk : k = key
      · rw [hk, Function.update_self] at h
        cases h
      · rwa [Function.update_of_ne hk] at h
    · exact hsame

/-- what it returns is an entry that has not expired -/
theorem lookup_snd {key : CacheKey} {reply : Reply} (h : (s.lookup cfg key).2 = some reply) :
    ∃ expiresAt, s.responses key = some (reply, expiresAt) ∧ s.now < expiresAt := by
  unfold OcspStore.lookup at h
  split_ifs at h with httl
  cases hentry : s.responses key with
  | none =>
    rw [hentry] at h
    cases h
  | some v =>
    rw [hentry] at h
    simp only at h
    split_ifs at h with hold
    cases h
    exact ⟨v.2, rfl, not_le.1 hold⟩

theorem stepOk_keyed {subject : OcspSubject} {signer : Signer} (hs : StoreOk cfg s)
    (hp : PhaseOk cfg s (.keyed x subject signer)) : StepOk cfg s (ocspNext cfg draw s (.keyed x subject signer)) := by
  obtain ⟨hrun, hdoomed, hopens⟩ := hp
  obtain ⟨responses, hstore, hentries⟩ := @lookup_fst cfg s (cacheKey x subject signer)
  have hlater : Later s { s with responses := responses } := .same rfl rfl rfl
  have hs' : StoreOk cfg { s with responses := responses } :=
    hs.later hlater hentries (fun _ _ h => h) hs.responders rfl
  simp only [ocspNext]
  rcases hl : s.lookup cfg (cacheKey x subject signer) with ⟨s', _ | reply⟩
  · rw [hl] at hstore
    cases hstore
    exact ⟨hlater, hs', hrun.later hlater, hdoomed, hopens.later hlater⟩
  · obtain ⟨expiresAt, hentry, _⟩ := lookup_snd (congrArg (·.2) hl)
    rw [hl] at hstore
    cases hstore
    obtain ⟨hok, hdate⟩ := hs.entries _ _ _ hentry
    have hreply : ReplyOk cfg s x signer reply :=
      ⟨hrun, hok.caId, hok.serial, hok.label, hok.opens, hopens, fun hd => hok.status (hdoomed hd)⟩
    exact ⟨hlater, hs', hreply.later hlater, hdate⟩

/-- what is signed is dated now, about the subject that was read -/
theorem phaseOk_sign {subject : OcspSubject} {signer : Signer} {status : CertStatus} (hrun : RunOk s x)
    (hdoomed : x.Doomed → subject.isRevoked = true) (hopens : SignerOk cfg s signer)
    (hstatus : certStatus s.now subject = .ok status) :
    PhaseOk cfg s (.signed x (cacheKey x subject signer) signer (signReply s x status signer)) := by
  have hrevoked : subject.isRevoked = true → status ≠ .good := by
    intro hrev
    unfold certStatus at hstatus
    rw [if_pos hrev] at hstatus
    split_ifs at hstatus
    cases hstatus
    exact fun h => nomatch h
  refine ⟨⟨hrun, rfl, rfl, rfl, hopens, hopens, fun hd => hrevoked (hdoomed hd)⟩, ⟨rfl, rfl, rfl, hopens, hrevoked⟩,
    s.now, ⟨rfl, rfl⟩, hrun.began, le_rfl⟩

theorem later_put {key : CacheKey} {reply : Reply} : Later s (s.put cfg key reply) := by
  unfold OcspStore.put
  split_ifs
  · exact .refl s
  · exact .same rfl rfl rfl

theorem stepOk_put {key : CacheKey} {signer : Signer} {reply : Reply} (hs : StoreOk cfg s)
    (hp : PhaseOk cfg s (.signed x key signer reply)) : StepOk cfg s (s.put cfg key reply, .answering x signer reply) := by
  obtain ⟨hreply, hentry, at_, hdated, _, hat⟩ := hp
  have hthis : reply.response.thisUpdate ≤ s.now := by
    rw [hdated.thisUpdate]
    exact (wholeSeconds_le at_).trans hat
  have hanswer : PhaseOk cfg s (.answering x signer reply) := ⟨hreply, hthis⟩
  have hlater : Later s (s.put cfg key reply) := later_put
  unfold OcspStore.put at hlater ⊢
  by_cases httl : cfg.ttlSeconds ≤ 0
  · rw [if_pos httl]
    exact .stay hs hanswer
  rw [if_neg httl] at hlater ⊢
  refine ⟨hlater, ⟨fun k r e hk => ?_, hs.keys, hs.responders, fun a ha => (hs.served a ha).later hlater⟩,
    hanswer.later hlater⟩
  change Function.update s.responses key _ k = some (r, e) at hk
  by_cases hkey : k = key
  · rw [hkey, Function.update_self] at hk
    cases hk
    exact ⟨by rw [hkey]; exact hentry.later hlater, hthis⟩
  · rw [Function.update_of_ne hkey] at hk
    obtain ⟨hold, hdate⟩ := hs.entries k r e hk
    exact ⟨hold.later hlater, hdate⟩

/-- **Served.** What is handed out is sound. -/
theorem stepOk_answer {signer : Signer} {reply : Reply} (hs : StoreOk cfg s)
    (hp : PhaseOk cfg s (.answering x signer reply)) : StepOk cfg s (ocspNext cfg draw s (.answering x signer reply)) := by
  obtain ⟨hreply, hthis⟩ := hp
  have hlater : Later s (ocspNext cfg draw s (.answering x signer reply)).1 := .same rfl rfl rfl
  refine ⟨hlater, ⟨fun k v e hk => ?_, hs.keys, hs.responders, fun a ha => ?_⟩, trivial⟩
  · obtain ⟨hentry, hdate⟩ := hs.entries k v e hk
    exact ⟨hentry.later hlater, hdate⟩
  rcases List.mem_append.1 ha with ha | ha
  · exact (hs.served a ha).later hlater
  · rw [List.mem_singleton.1 ha]
    exact ⟨⟨hreply.caId, hreply.serial, hthis, hreply.status⟩, hreply.label, hreply.made.later hlater,
      hreply.opens.later hlater⟩

/-- a request that finds its subject finds the row of its beginning -/
theorem phaseOk_found {ref : SubjectRef} {row : OcspSubject} (hrun : RunOk s x)
    (h : findSubject s.db x.ca.id x.serial = some (ref, row)) : PhaseOk cfg s (.found x ⟨ref, some row⟩) := by
  have hrow : x.Doomed → row.isRevoked = true := fun hd => isRevoked_of_find hrun.kept hd h
  refine ⟨hrun, fun hd => ⟨row, readSubject_of_find h, hrow hd⟩, fun hd subject heq => ?_⟩
  cases heq
  exact hrow hd

/-- the subject that is read, loaded or not, is revoked if it was -/
theorem phaseOk_keyed {signer : Signer} {subject : OcspSubject} (hf : FoundOk s x f) (hopens : SignerOk cfg s signer)
    (h : f.row.or (readSubject s.db f.ref) = some subject) : PhaseOk cfg s (.keyed x subject signer) := by
  refine ⟨hf.toRunOk, fun hd => ?_, hopens⟩
  cases hrow : f.row with
  | some row =>
    rw [hrow] at h
    cases h
    exact hf.row hd _ hrow
  | none =>
    rw [hrow, Option.none_or] at h
    obtain ⟨subject', hread, hrev⟩ := hf.ref hd
    rw [h] at hread
    cases hread
    exact hrev

/-- **Step.** One access. -/
theorem stepOk_next (hs : StoreOk cfg s) (hp : PhaseOk cfg s p) : StepOk cfg s (ocspNext cfg draw s p) := by
  cases p with
  | idle => exact .stay hs trivial
  | opened x =>
    unfold ocspNext
    cases hfind : findSubject s.db x.ca.id x.serial with
    | none =>
      simp only [hfind]
      exact .stay hs trivial
    | some v =>
      simp only [hfind]
      exact .stay hs (phaseOk_found hp hfind)
  | found x f => exact .stay hs (phaseOk_select hp)
  | stale x f => exact stepOk_rotateLazily hs hp
  | forgetting x ref new => exact stepOk_clear hs hp
  | rotating x ref new => exact stepOk_install hs hp.2 hp.1
  | expired x ref committed => exact .stay hs (phaseOk_reload hs hp)
  | opening x f r =>
    unfold ocspNext
    cases hcached : s.cachedKey cfg x.ca.id r with
    | some key =>
      simp only [hcached]
      exact .stay hs ⟨hp.1, signerOk_cachedKey hs hp.2 hcached⟩
    | none =>
      simp only [hcached]
      cases hkey : cfg.decrypt r.keyEnc with
      | error err => exact .stay hs hp.1.expire
      | ok key => exact .stay hs ⟨hp.1, hp.2, hkey⟩
  | decrypted x f r key => exact stepOk_storeKey hs hp.2.1 hp.2.2 ⟨hp.1, signerOk_of_decrypt hp.2.1 hp.2.2⟩
  | chosen x f signer =>
    unfold ocspNext
    cases hread : f.row.or (readSubject s.db f.ref) with
    | none =>
      simp only [hread]
      exact .stay hs trivial
    | some subject =>
      simp only [hread]
      exact .stay hs (phaseOk_keyed hp.1 hp.2 hread)
  | keyed x subject signer => exact stepOk_keyed hs hp
  | missed x subject signer =>
    unfold ocspNext
    cases hstatus : certStatus s.now subject with
    | error err =>
      simp only [hstatus]
      exact .stay hs trivial
    | ok status =>
      simp only [hstatus]
      exact .stay hs (phaseOk_sign hp.1 hp.2.1 hp.2.2 hstatus)
  | signed x key signer reply => exact stepOk_put hs hp
  | answering x signer reply => exact stepOk_answer hs hp
  | rotation ca columns force => exact stepOk_rotate hs
  | clearing caId new => exact stepOk_clear hs hp
  | renewing caId new => exact stepOk_install hs hp trivial

theorem phaseOk_fail (hp : PhaseOk cfg s p) : PhaseOk cfg s (ocspFail p) := by
  cases p with
  | found x f => exact FoundOk.expire hp
  | stale x f => exact FoundOk.expire hp
  | forgetting x ref new => exact hp.1
  | rotating x ref new => exact hp.1
  | expired x ref committed =>
    cases committed with
    | false => trivial
    | true => exact hp
  | opening x f r => exact hp.1.expire
  | decrypted x f r key => exact hp.1.expire
  | _ => trivial

end Access

/-! ## Interleavings -/

section Interleavings

variable {cfg : OcspConfig} {s : OcspStore} {p : OcspPhase} {r : OcspProcess}

theorem kept_commit {res : Except PyError Db} (h : ∀ t, res = .ok t → OnlyRevoked s.db t) :
    OnlyRevoked s.db (s.commit res).db := by
  cases res with
  | error err => exact .refl _
  | ok t => exact h t rfl

/-- a step of the environment of the request: a revocation, the switch, the clock -/
theorem stepOk_outside {t : OcspStore} (hs : StoreOk cfg s) (hp : PhaseOk cfg s p) (hlater : Later s t)
    (hentries : t.responses = s.responses) (hkeys : t.keys = s.keys) (hresponders : t.responders = s.responders)
    (hserved : t.served = s.served) : StepOk cfg s (t, p) := by
  refine ⟨hlater, hs.later hlater ?_ ?_ ?_ hserved, hp.later hlater⟩
  · rw [hentries]
    exact fun _ _ h => h
  · rw [hkeys]
    exact fun _ _ h => h
  · rw [hresponders]
    exact fun i r hr => hlater.drawn (hs.responders i r hr)

theorem phaseOk_begin {caId : ℤ} {req : Option OcspRequest} (hs : StoreOk cfg s) :
    PhaseOk cfg s (beginRequest s caId req) := by
  unfold beginRequest
  cases s.db.cas.get? caId with
  | none => trivial
  | some ca =>
    by_cases hsign : ca.cannotSign = true
    · simp only [hsign, if_true]
      trivial
    · simp only [hsign]
      cases req with
      | none => trivial
      | some req => exact ⟨.refl _, le_rfl, hs.responders caId⟩

theorem stepOk_step (hs : StoreOk cfg s) (hp : PhaseOk cfg s p) (w : ℕ) (e : OcspAction) :
    StepOk cfg s (ocspStep cfg w e s p) := by
  cases e with
  | request caId req =>
    cases p with
    | idle => exact .stay hs (phaseOk_begin hs)
    | _ => exact .stay hs hp
  | rotate caId force =>
    cases p with
    | idle =>
      refine .stay hs ?_
      unfold beginRotation
      cases s.db.cas.get? caId <;> trivial
    | _ => exact .stay hs hp
  | next draw => exact stepOk_next hs hp
  | fail => exact .stay hs (phaseOk_fail hp)
  | revokeCertificate certId reason =>
    have hkept : OnlyRevoked s.db (s.commit (revokeCertificate s.now certId reason s.db)).db :=
      kept_commit fun t ht => kept_revokeCertificate ht
    exact stepOk_outside hs hp ⟨hkept, subset_rfl, le_rfl⟩ rfl rfl rfl rfl
  | revokeCa caId reason =>
    have hkept : OnlyRevoked s.db (s.commit ((sweepCa s.now caId reason s.db).map (·.db))).db := by
      refine kept_commit fun t ht => ?_
      cases hx : sweepCa s.now caId reason s.db with
      | error err =>
        rw [hx] at ht
        cases ht
      | ok x =>
        rw [hx] at ht
        cases ht
        exact kept_sweepCa hx
    exact stepOk_outside hs hp ⟨hkept, subset_rfl, le_rfl⟩ rfl rfl rfl rfl
  | delegate on => exact stepOk_outside hs hp (.same rfl rfl rfl) rfl rfl rfl rfl
  | tick n => exact stepOk_outside hs hp ⟨.refl _, subset_rfl, by linarith [Int.natCast_nonneg n]⟩ rfl rfl rfl rfl

/-- **The invariant.** -/
structure ProcessOk (cfg : OcspConfig) (r : OcspProcess) : Prop where
  store : StoreOk cfg r.shared
  phases : ∀ w, PhaseOk cfg r.shared (r.workers w)

theorem processOk_start {db : Db} {responders : ℤ → Option Responder} {delegation : Bool} {now : DateTime} :
    ProcessOk cfg (OcspProcess.start db responders delegation now) :=
  ⟨{ entries := fun _ _ _ h => nomatch h
     keys := fun _ _ h => nomatch h
     responders := fun i _ hr => ⟨i, hr⟩
     served := fun _ h => absurd h List.not_mem_nil }, fun _ => trivial⟩

theorem processOk_step (h : ProcessOk cfg r) (o : ℕ × OcspAction) : ProcessOk cfg (r.step cfg o) := by
  have hstep := stepOk_step h.store (h.phases o.1) o.1 o.2
  exact ⟨hstep.store, Pool.forall_workers (P := fun s _ p => PhaseOk cfg s p) hstep.phase
    (fun _ _ hp => hp.later hstep.later) h.phases⟩

end Interleavings

/-! ## Replies in time -/

section Time

variable {cfg : OcspConfig} {D : ℤ} {s t : OcspStore} {x : OcspRun} {p : OcspPhase} {r : OcspProcess} {draw : KeyDraw}

/-- entries expire not long after their reply was dated, and nothing was served after its end -/
structure InTime (cfg : OcspConfig) (D : ℤ) (s : OcspStore) : Prop where
  entries : ∀ key reply expiresAt, s.responses key = some (reply, expiresAt) →
    ∃ t, reply.DatedAt t ∧ expiresAt ≤ t + D + cfg.ttlSeconds * second
  served : ∀ a ∈ s.served, Current a

/-- a reply about to be served is good for as long as its request is prompt -/
def OcspPhase.InTime (D : ℤ) : OcspPhase → Prop
  | .answering x _ reply => x.began + D < reply.response.nextUpdate
  | _ => True

theorem InTime.later (hs : InTime cfg D s) (hentries : ∀ key v, t.responses key = some v → s.responses key = some v)
    (hserved : t.served = s.served) : InTime cfg D t := by
  refine ⟨fun key reply expiresAt hkey => hs.entries key reply expiresAt (hentries key _ hkey), ?_⟩
  rw [hserved]
  exact hs.served

/-- what was dated `t` is good for long after -/
theorem lt_nextUpdate {reply : Reply} {t u : DateTime} (h : reply.DatedAt t) (hu : u + second ≤ t + responseValidity) :
    u < reply.response.nextUpdate := by
  rw [h.nextUpdate]
  have hwhole := lt_wholeSeconds_add (t + responseValidity)
  linarith

theorem inTime_openResponder {f : Found} : (openResponder x f).InTime D := by
  unfold openResponder
  cases x.columns <;> trivial

theorem inTime_select {f : Found} : (selectResponder cfg s x f).InTime D := by
  unfold selectResponder
  split_ifs
  · trivial
  · trivial
  · trivial
  · exact inTime_openResponder

theorem inTime_reload {ref : SubjectRef} {committed : Bool} : (reload s x ref committed).InTime D := by
  unfold reload
  cases s.db.cas.get? x.ca.id with
  | none => trivial
  | some ca =>
    cases committed with
    | false => trivial
    | true => exact inTime_openResponder

/-- a hit: the entry was stored by a prompt request -/
theorem inTime_keyed {subject : OcspSubject} {signer : Signer}
    (hD : max 0 cfg.ttlSeconds * second + 2 * D + second ≤ responseValidity) (hbegan : x.began ≤ s.now)
    (hs : InTime cfg D s) : InTime cfg D (ocspNext cfg draw s (.keyed x subject signer)).1 ∧
      (ocspNext cfg draw s (.keyed x subject signer)).2.InTime D := by
  obtain ⟨responses, hstore, hentries⟩ := @lookup_fst cfg s (cacheKey x subject signer)
  have hs' : InTime cfg D { s with responses := responses } := hs.later hentries rfl
  simp only [ocspNext]
  rcases hl : s.lookup cfg (cacheKey x subject signer) with ⟨s', _ | reply⟩
  · rw [hl] at hstore
    cases hstore
    exact ⟨hs', trivial⟩
  · obtain ⟨expiresAt, hentry, hfresh⟩ := lookup_snd (congrArg (·.2) hl)
    rw [hl] at hstore
    cases hstore
    obtain ⟨at_, hdated, hexpires⟩ := hs.entries _ _ _ hentry
    have httl : cfg.ttlSeconds * second ≤ max 0 cfg.ttlSeconds * second :=
      mul_le_mul_of_nonneg_right (le_max_right _ _) (by decide)
    exact ⟨hs', lt_nextUpdate hdated (by linarith)⟩

/-- a store: the reply was dated by the same request -/
theorem inTime_signed {key : CacheKey} {signer : Signer} {reply : Reply}
    (hD : max 0 cfg.ttlSeconds * second + 2 * D + second ≤ responseValidity) (hprompt : s.now ≤ x.began + D)
    (hp : PhaseOk cfg s (.signed x key signer reply)) (hs : InTime cfg D s) :
    InTime cfg D (s.put cfg key reply) ∧ (OcspPhase.answering x signer reply).InTime D := by
  obtain ⟨_, _, at_, hdated, hbegan, hat⟩ := hp
  have hnext : x.began + D < reply.response.nextUpdate := by
    have httl : 0 ≤ max 0 cfg.ttlSeconds * second := mul_nonneg (le_max_left _ _) (by decide)
    exact lt_nextUpdate hdated (by linarith)
  refine ⟨?_, hnext⟩
  unfold OcspStore.put
  split_ifs
  · exact hs
  refine ⟨fun k v e hk => ?_, hs.served⟩
  change Function.update s.responses key _ k = some (v, e) at hk
  by_cases hkey : k = key
  · rw [hkey, Function.update_self] at hk
    cases hk
    exact ⟨at_, hdated, by linarith⟩
  · rw [Function.update_of_ne hkey] at hk
    exact hs.entries k v e hk

/-- **Step.** One access of a request that is not late. -/
theorem inTime_next (hD : max 0 cfg.ttlSeconds * second + 2 * D + second ≤ responseValidity)
    (hprompt : ∀ began, p.began? = some began → s.now ≤ began + D) (hok : PhaseOk cfg s p) (hs : InTime cfg D s)
    (hp : p.InTime D) : InTime cfg D (ocspNext cfg draw s p).1 ∧ (ocspNext cfg draw s p).2.InTime D := by
  cases p with
  | idle => exact ⟨hs, trivial⟩
  | opened x =>
    unfold ocspNext
    cases hfind : findSubject s.db x.ca.id x.serial <;> simp only [hfind] <;> exact ⟨hs, trivial⟩
  | found x f => exact ⟨hs, inTime_select⟩
  | stale x f =>
    show InTime cfg D (rotateLazily cfg s draw x f).1 ∧ (rotateLazily cfg s draw x f).2.InTime D
    unfold rotateLazily
    rcases renewResponder cfg s x.ca x.columns false draw with _ | _ | new <;> exact ⟨⟨hs.entries, hs.served⟩, trivial⟩
  | forgetting x ref new => exact ⟨hs.later (fun _ _ h => nomatch h) rfl, trivial⟩
  | rotating x ref new => exact ⟨⟨hs.entries, hs.served⟩, trivial⟩
  | expired x ref committed => exact ⟨hs, inTime_reload⟩
  | opening x f r =>
    unfold ocspNext
    cases hcached : s.cachedKey cfg x.ca.id r with
    | some key =>
      simp only [hcached]
      exact ⟨hs, trivial⟩
    | none =>
      simp only [hcached]
      cases cfg.decrypt r.keyEnc <;> exact ⟨hs, trivial⟩
  | decrypted x f r key =>
    show InTime cfg D (s.storeKey cfg x.ca.id r key) ∧ True
    unfold OcspStore.storeKey
    split_ifs
    · exact ⟨hs, trivial⟩
    · exact ⟨⟨hs.entries, hs.served⟩, trivial⟩
  | chosen x f signer =>
    unfold ocspNext
    cases hread : f.row.or (readSubject s.db f.ref) <;> simp only [hread] <;> exact ⟨hs, trivial⟩
  | keyed x subject signer => exact inTime_keyed hD hok.1.began hs
  | missed x subject signer =>
    unfold ocspNext
    cases hstatus : certStatus s.now subject <;> simp only [hstatus] <;> exact ⟨hs, trivial⟩
  | signed x key signer reply => exact inTime_signed hD (hprompt x.began rfl) hok hs
  | answering x signer reply =>
    refine ⟨⟨hs.entries, fun a ha => ?_⟩, trivial⟩
    rcases List.mem_append.1 ha with ha | ha
    · exact hs.served a ha
    · rw [List.mem_singleton.1 ha]
      exact (hprompt x.began rfl).trans_lt hp
  | rotation ca columns force =>
    show InTime cfg D (rotateResponder cfg s draw ca columns force).1 ∧
      (rotateResponder cfg s draw ca columns force).2.InTime D
    unfold rotateResponder
    rcases renewResponder cfg s ca columns force draw with _ | _ | new <;> exact ⟨⟨hs.entries, hs.served⟩, trivial⟩
  | clearing caId new => exact ⟨hs.later (fun _ _ h => nomatch h) rfl, trivial⟩
  | renewing caId new => exact ⟨⟨hs.entries, hs.served⟩, trivial⟩

theorem inTime_fail (hp : p.InTime D) : (ocspFail p).InTime D := by
  cases p with
  | expired x ref committed => cases committed <;> trivial
  | _ => trivial

theorem inTime_step (hD : max 0 cfg.ttlSeconds * second + 2 * D + second ≤ responseValidity)
    (hprompt : ∀ began, p.began? = some began → s.now ≤ began + D) (hok : PhaseOk cfg s p) (hs : InTime cfg D s)
    (hp : p.InTime D) (w : ℕ) (e : OcspAction) :
    InTime cfg D (ocspStep cfg w e s p).1 ∧ (ocspStep cfg w e s p).2.InTime D := by
  cases e with
  | request caId req =>
    cases p with
    | idle =>
      refine ⟨hs, ?_⟩
      show (beginRequest s caId req).InTime D
      unfold beginRequest
      cases s.db.cas.get? caId with
      | none => trivial
      | some ca =>
        simp only
        split_ifs
        · trivial
        · cases req <;> trivial
    | _ => exact ⟨hs, hp⟩
  | rotate caId force =>
    cases p with
    | idle =>
      refine ⟨hs, ?_⟩
      show (beginRotation s caId force).InTime D
      unfold beginRotation
      cases s.db.cas.get? caId <;> trivial
    | _ => exact ⟨hs, hp⟩
  | next draw => exact inTime_next hD hprompt hok hs hp
  | fail => exact ⟨hs, inTime_fail hp⟩
  | revokeCertificate certId reason => exact ⟨⟨hs.entries, hs.served⟩, hp⟩
  | revokeCa caId reason => exact ⟨⟨hs.entries, hs.served⟩, hp⟩
  | delegate on => exact ⟨⟨hs.entries, hs.served⟩, hp⟩
  | tick n => exact ⟨⟨hs.entries, hs.served⟩, hp⟩

/-- **The invariant of prompt requests.** -/
structure Timely (cfg : OcspConfig) (D : ℤ) (r : OcspProcess) : Prop extends ProcessOk cfg r where
  inTime : InTime cfg D r.shared
  phasesInTime : ∀ w, (r.workers w).InTime D

theorem timely_step (hD : max 0 cfg.ttlSeconds * second + 2 * D + second ≤ responseValidity) (hprompt : Prompt D r)
    (h : Timely cfg D r) (o : ℕ × OcspAction) : Timely cfg D (r.step cfg o) := by
  obtain ⟨hstore, hphase⟩ := inTime_step hD (hprompt o.1) (h.phases o.1) h.inTime (h.phasesInTime o.1) o.1 o.2
  exact ⟨processOk_step h.toProcessOk o, hstore,
    Pool.forall_workers (P := fun _ _ p => OcspPhase.InTime D p) hphase (fun _ _ hp => hp) h.phasesInTime⟩

/-- **No stale GOOD.** In any interleaving every response that is served is about the certificate asked for, not from the
future, and does not say GOOD about what was revoked when the request began. Where the responders are distinct, it is signed
by the signer selected for its request. Where no request is at work for longer than `D`, and an entry of the cache and
twice `D` fit in the validity of a response, it has not expired. -/
theorem no_stale_good (cfg : OcspConfig) (db : Db) (responders : ℤ → Option Responder) (delegation : Bool) (now : DateTime)
    (steps : List (ℕ × OcspAction)) :
    let r := run (OcspProcess.step cfg) (OcspProcess.start db responders delegation now) steps
    (∀ a ∈ r.shared.served, Sound a) ∧
    (Distinct cfg r.shared.drawn → ∀ a ∈ r.shared.served, Authentic cfg a) ∧
    ∀ D, max 0 cfg.ttlSeconds * second + 2 * D + second ≤ responseValidity →
      Meets (OcspProcess.step cfg) (fun r _ => Prompt D r) (OcspProcess.start db responders delegation now) steps →
      ∀ a ∈ r.shared.served, Current a := by
  intro r
  have hr : ProcessOk cfg r :=
    @run_invariant _ _ (OcspProcess.step cfg) (ProcessOk cfg) (fun _ o h => processOk_step h o) _ processOk_start steps
  refine ⟨fun a ha => (hr.store.served a ha).toSound, ?_, ?_⟩
  · intro hdist a ha
    exact (hr.store.served a ha).authentic hdist
  · intro D hD hprompt
    have hstart : Timely cfg D (OcspProcess.start db responders delegation now) :=
      ⟨processOk_start, ⟨fun _ _ _ h => (nomatch h), fun _ h => absurd h List.not_mem_nil⟩, fun _ => trivial⟩
    exact (run_invariant_of_meets (I := Timely cfg D) (fun _ o hC h => timely_step hD hC h o) hstart hprompt).inTime.served

end Time

/-! ## Runs in which no responder is made -/

section Quiet

variable {cfg : OcspConfig} {D : ℤ} {s : OcspStore} {p : OcspPhase} {r : OcspProcess}

/-- no responder is made in this phase -/
def OcspPhase.quiet : OcspPhase → Bool
  | .stale _ _ => false
  | .rotation _ _ _ => false
  | _ => true

theorem drawn_next {draw : KeyDraw} (h : p.quiet = true) : (ocspNext cfg draw s p).1.drawn = s.drawn := by
  cases p with
  | stale x f => cases h
  | rotation ca columns force => cases h
  | opened x =>
    unfold ocspNext
    cases hfind : findSubject s.db x.ca.id x.serial <;> simp only [hfind]
  | opening x f r =>
    unfold ocspNext
    cases hcached : s.cachedKey cfg x.ca.id r with
    | some key => simp only [hcached]
    | none =>
      simp only [hcached]
      cases cfg.decrypt r.keyEnc <;> rfl
  | decrypted x f r key =>
    show (s.storeKey cfg x.ca.id r key).drawn = s.drawn
    unfold OcspStore.storeKey
    split_ifs <;> rfl
  | chosen x f signer =>
    unfold ocspNext
    cases hread : f.row.or (readSubject s.db f.ref) <;> simp only [hread]
  | keyed x subject signer =>
    have hlookup : (s.lookup cfg (cacheKey x subject signer)).1.drawn = s.drawn := by
      unfold OcspStore.lookup
      split_ifs with httl
      · rfl
      cases s.responses (cacheKey x subject signer) with
      | none => rfl
      | some v =>
        dsimp only
        split_ifs <;> rfl
    unfold ocspNext
    rcases hl : s.lookup cfg (cacheKey x subject signer) with ⟨s', _ | reply⟩ <;> rw [hl] at hlookup <;> simp only [hl] <;>
      exact hlookup
  | missed x subject signer =>
    unfold ocspNext
    cases hstatus : certStatus s.now subject <;> simp only [hstatus]
  | signed x key signer reply =>
    show (s.put cfg key reply).drawn = s.drawn
    unfold OcspStore.put
    split_ifs <;> rfl
  | _ => rfl

theorem drawn_step {o : ℕ × OcspAction} (h : (r.workers o.1).quiet = true) :
    (r.step cfg o).shared.drawn = r.shared.drawn := by
  show (ocspStep cfg o.1 o.2 r.shared (r.workers o.1)).1.drawn = r.shared.drawn
  cases o.2 with
  | next draw => exact drawn_next h
  | request caId req => cases r.workers o.1 <;> rfl
  | rotate caId force => cases r.workers o.1 <;> rfl
  | _ => rfl

/-- where no responder is made, there are those of the start -/
theorem drawn_run {steps : List (ℕ × OcspAction)}
    (h : Meets (OcspProcess.step cfg) (fun r o => (r.workers o.1).quiet = true) r steps) :
    (run (OcspProcess.step cfg) r steps).shared.drawn = r.shared.drawn :=
  run_invariant_of_meets (I := fun t => t.shared.drawn = r.shared.drawn)
    (fun _ _ hquiet ht => (drawn_step hquiet).trans ht) rfl h

/-- a phase that is not late -/
def OcspPhase.promptAt (D : ℤ) (now : DateTime) (p : OcspPhase) : Bool := p.began?.all fun began => decide (now ≤ began + D)

/-- the only thread that does anything is prompt -/
theorem meets_prompt_alone {steps : List (ℕ × OcspAction)} (hidle : ∀ w, w ≠ 0 → r.workers w = .idle)
    (h : Meets (OcspProcess.step cfg) (fun r o => o.1 = 0 ∧ (r.workers 0).promptAt D r.shared.now = true) r steps) :
    Meets (OcspProcess.step cfg) (fun r _ => Prompt D r) r steps := by
  refine Meets.mono (I := fun t => ∀ w, w ≠ 0 → t.workers w = .idle) (fun t o ht ho w hw => ?_)
    (fun t o ht ho => ?_) hidle h
  · exact (Pool.act_other (by rw [ho.1]; exact hw)).trans (ht w hw)
  · intro w began hbegan
    by_cases hw : w = 0
    · have hprompt := ho.2
      rw [hw] at hbegan
      unfold OcspPhase.promptAt at hprompt
      rw [hbegan] at hprompt
      exact of_decide_eq_true hprompt
    · rw [ht w hw] at hbegan
      cases hbegan

end Quiet

/-! ## Two runs -/

/-- a responder of the sub-CA, good until day 30 -/
def sampleResponder : Responder := ⟨sampleCertificate "sub OCSP Responder" "sub" 4096 0 (30 * day), "key".toList⟩

/-- responses are cached for a minute, and an encrypted key is the key -/
def sampleOcsp : OcspConfig :=
  ⟨sampleLib, Env.at 0, .standard, 60, 300, fun keyEnc => .ok keyEnc, fun keyEnc => keyEnc.map fun c => c.toNat.toUInt8⟩

def noDraw : KeyDraw := ⟨⟨[], 0, []⟩, []⟩

/-- the request about the certificate of `sampleForest`, and `n` accesses of thread `w` -/
def ask (w : ℕ) : ℕ × OcspAction := (w, .request 2 (some ⟨256, some .sha1⟩))

def accesses (w n : ℕ) : List (ℕ × OcspAction) := List.replicate n (w, .next noDraw)

def sampleOcspStart (delegation : Bool) : OcspProcess :=
  .start sampleForest (fun caId => if caId = 2 then some sampleResponder else none) delegation day

theorem sampleOcsp_distinct (delegation : Bool) : Distinct sampleOcsp (sampleOcspStart delegation).shared.drawn := by
  have hsub : (sampleOcspStart delegation).shared.drawn.Subsingleton := by
    rintro a ⟨i, hi⟩ b ⟨j, hj⟩
    change (if i = 2 then some sampleResponder else none) = some a at hi
    change (if j = 2 then some sampleResponder else none) = some b at hj
    split_ifs at hi hj
    exact Option.some.inj (hi.symm.trans hj)
  exact ⟨hsub.injOn _, hsub.injOn _⟩

/-- a response is signed and cached, served again half a minute later, and the certificate is revoked -/
def fillHitRevoke : List (ℕ × OcspAction) :=
  ask 0 :: accesses 0 9 ++ (0, .tick 30000000) :: ask 0 :: accesses 0 6 ++
    (0, .revokeCertificate 1 "key_compromise") :: ask 0 :: accesses 0 8

theorem no_stale_good_fillHitRevoke :
    (∀ a ∈ (run (OcspProcess.step sampleOcsp) (sampleOcspStart true) fillHitRevoke).shared.served,
        Sound a ∧ Authentic sampleOcsp a ∧ Current a) ∧
      (run (OcspProcess.step sampleOcsp) (sampleOcspStart true) fillHitRevoke).shared.served.map
          (fun a => (a.reply.response.status, a.servedAt - a.reply.response.thisUpdate)) =
        [(.good, 0), (.good, 30 * second), (.revoked (day + 30 * second) .keyCompromise, 0)] := by
  obtain ⟨hsound, hauthentic, hcurrent⟩ := no_stale_good sampleOcsp sampleForest
    (fun caId => if caId = 2 then some sampleResponder else none) true day fillHitRevoke
  have hdist : Distinct sampleOcsp
    (run (OcspProcess.step sampleOcsp) (sampleOcspStart true) fillHitRevoke).shared.drawn := by
    rw [drawn_run (by decide +kernel)]
    exact sampleOcsp_distinct true
  have hprompt : Meets (OcspProcess.step sampleOcsp) (fun r _ => Prompt second r) (sampleOcspStart true) fillHitRevoke :=
    meets_prompt_alone (fun _ _ => rfl) (by decide +kernel)
  refine ⟨fun a ha => ?_, by decide +kernel⟩
  exact ⟨hsound a ha, hauthentic hdist a ha, hcurrent second (by decide) hprompt a ha⟩

/-- a thread stops for a day after it has signed; what it stores then is served by another one -/
def lateStore : List (ℕ × OcspAction) :=
  ask 0 :: accesses 0 5 ++ (0, .tick 86390000000) :: (0, .next noDraw) :: (0, .tick 20000000) :: ask 1 :: accesses 1 5

/-- **A late reply.** The lifetime of an entry alone does not bound the age of a reply. -/
theorem late_reply :
    ¬ ∀ (cfg : OcspConfig) (db : Db) (responders : ℤ → Option Responder) (delegation : Bool) (now : DateTime)
      (steps : List (ℕ × OcspAction)), cfg.ttlSeconds * second < responseValidity →
      Distinct cfg (run (OcspProcess.step cfg) (OcspProcess.start db responders delegation now) steps).shared.drawn →
      ∀ a ∈ (run (OcspProcess.step cfg) (OcspProcess.start db responders delegation now) steps).shared.served,
        Sound a ∧ Authentic cfg a ∧ Current a := by
  intro h
  have hdist : Distinct sampleOcsp (run (OcspProcess.step sampleOcsp) (sampleOcspStart false) lateStore).shared.drawn := by
    rw [drawn_run (by decide +kernel)]
    exact sampleOcsp_distinct false
  have hserved := h sampleOcsp sampleForest (fun caId => if caId = 2 then some sampleResponder else none) false day
    lateStore
    (by decide) hdist
  have hlate : ((run (OcspProcess.step sampleOcsp) (sampleOcspStart false) lateStore).shared.served.any fun a =>
      decide (a.reply.response.nextUpdate ≤ a.servedAt)) = true := by decide +kernel
  obtain ⟨a, ha, hage⟩ := List.any_eq_true.1 hlate
  exact absurd (hserved a ha).2.2 (not_lt.2 (of_decide_eq_true hage))

end Chancery.Pki
