/-
The CRLs of a CA, one after the other.

What is to be listed under a CA is read off the tables (`revokedRows`): its revoked certificates, and the current
certificates of its revoked sub-CAs. `crlBulletin` takes that and the cached CRLs for a `Bulletin`, and every request
advances it (`Effect.wrote`), one request excepted: approving the re-issued certificate of a CA that is revoked already
replaces the serial number its parent was listing (`Unpromoted`).
(1) `revoked_leaf_listed`: once a certificate is revoked, every CRL its CA publishes afterwards lists it, with the date and
the reason it was revoked with. No request can undo that.
(2) `crl_kept`: in a run without such an approval, what one CRL of a CA lists, every later CRL of that CA lists, unchanged,
and the later CRL has a higher number.
(3) `listed_revoked`: in such a run a CRL lists nothing but what is revoked, with its present date and reason.
-/
import Mathlib.Tactic
import Chancery.Core.Bulletin
import Chancery.Routes.CaEffects

namespace Chancery.Pki

open Chancery.Core Relation

/-! ## What is to be listed -/

/-- the columns of a row that a CRL is made of -/
structure ListRow where
  /-- who lists it once it is revoked -/
  issuer : Option ℤ
  isRevoked : Bool
  row : RevokedRow

def LeafRow.listed (c : LeafRow) : ListRow :=
  ⟨some c.caId, c.isRevoked, (c.serialNumber, c.revokedAt, c.revocationReason)⟩

def CaRow.listed (ca : CaRow) : ListRow :=
  ⟨ca.parentId, ca.isRevoked, (ca.serialNumber, ca.revokedAt, ca.revocationReason)⟩

/-- a revoked row stays as it is, a row that becomes revoked gets a date -/
structure RowKept (a b : ListRow) : Prop where
  issuer : b.issuer = a.issuer
  revoked : a.isRevoked = true → b = a
  dated : b.isRevoked = true → a.isRevoked = false → b.row.2.1.isSome = true

theorem RowKept.refl (a : ListRow) : RowKept a a := ⟨rfl, fun _ => rfl, fun h h' => by rw [h] at h'; cases h'⟩

/-- a row that is not revoked may change, as long as it gets a date when it becomes revoked -/
theorem RowKept.of_free {a b : ListRow} (hfree : a.isRevoked = false) (hissuer : b.issuer = a.issuer)
    (hdated : b.isRevoked = true → b.row.2.1.isSome = true) : RowKept a b := by
  refine ⟨hissuer, fun hrev => ?_, fun hrev _ => hdated hrev⟩
  rw [hfree] at hrev
  cases hrev

/-- no row is lost, and a new one is not revoked -/
structure Grows (l l' : List ListRow) : Prop where
  kept : ∀ a ∈ l, ∃ b ∈ l', RowKept a b
  back : ∀ b ∈ l', b.isRevoked = false ∨ ∃ a ∈ l, RowKept a b

theorem Grows.refl (l : List ListRow) : Grows l l :=
  ⟨fun a ha => ⟨a, ha, .refl a⟩, fun a ha => Or.inr ⟨a, ha, .refl a⟩⟩

theorem Grows.revoked {l l' : List ListRow} (h : Grows l l') {a : ListRow} (ha : a ∈ l) (hrev : a.isRevoked = true) :
    a ∈ l' := by
  obtain ⟨b, hb, hab⟩ := h.kept a ha
  rwa [hab.revoked hrev] at hb

/-- every revoked row has a date -/
def AllDated (l : List ListRow) : Prop := ∀ a ∈ l, a.isRevoked = true → a.row.2.1.isSome = true

theorem AllDated.grows {l l' : List ListRow} (h : AllDated l) (hl : Grows l l') : AllDated l' := by
  intro b hb hrev
  rcases hl.back b hb with hfree | ⟨a, ha, hab⟩
  · rw [hrev] at hfree
    cases hfree
  · by_cases hold : a.isRevoked = true
    · rw [hab.revoked hold]
      exact h a ha hold
    · exact hab.dated hrev (by simpa using hold)

section Tables

variable {α : Type} {key : α → ℤ} {t t' : Table key} {listed : α → ListRow}

/-- rows that are rewritten in place -/
theorem grows_of_get? {g : ℤ → α → α} (hget : ∀ k, t'.get? k = (t.get? k).map (g k))
    (hrows : ∀ a ∈ t, RowKept (listed a) (listed (g (key a) a))) :
    Grows (t.rows.map listed) (t'.rows.map listed) := by
  constructor
  · intro x hx
    obtain ⟨a, ha, rfl⟩ := List.mem_map.1 hx
    have hnew : t'.get? (key a) = some (g (key a) a) := by
      rw [hget, Table.get?_key ha]
      rfl
    exact ⟨_, List.mem_map.2 ⟨_, Table.mem_of_get? hnew, rfl⟩, hrows a ha⟩
  · intro y hy
    obtain ⟨b, hb, rfl⟩ := List.mem_map.1 hy
    have hold := Table.get?_key (show b ∈ t' from hb)
    rw [hget] at hold
    obtain ⟨a, ha, hab⟩ := Option.map_eq_some_iff.1 hold
    have hkey : key a = key b := Table.key_of_get? ha
    refine Or.inr ⟨listed a, List.mem_map.2 ⟨a, Table.mem_of_get? ha, rfl⟩, ?_⟩
    rw [← hab, ← hkey]
    exact hrows a (Table.mem_of_get? ha)

theorem grows_update {k : ℤ} {f : α → α} (hf : ∀ a, key (f a) = key a)
    (hrows : ∀ a ∈ t, key a = k → RowKept (listed a) (listed (f a))) :
    Grows (t.rows.map listed) ((t.update k f hf).rows.map listed) := by
  refine grows_of_get? (g := fun i a => if i = k then f a else a) (fun i => ?_) fun a ha => ?_
  · rw [Table.get?_update]
    by_cases hi : i = k
    · simp only [if_pos hi]
    · simp only [if_neg hi, Option.map_id']
  · by_cases hk : key a = k
    · rw [if_pos hk]
      exact hrows a ha hk
    · rw [if_neg hk]
      exact .refl _

theorem grows_insert {mk : ℤ → α} (hmk : ∀ k, key (mk k) = k) (hnew : (listed (mk t.nextKey)).isRevoked = false) :
    Grows (t.rows.map listed) ((t.insert mk hmk).rows.map listed) := by
  rw [Table.rows_insert, List.map_append]
  constructor
  · intro a ha
    exact ⟨a, List.mem_append_left _ ha, .refl a⟩
  · intro b hb
    rcases List.mem_append.1 hb with hb | hb
    · exact Or.inr ⟨b, hb, .refl b⟩
    · rw [List.mem_singleton.1 hb]
      exact Or.inl hnew

end Tables

def Db.leafListing (s : Db) : List ListRow := s.leaves.rows.map LeafRow.listed

def Db.caListing (s : Db) : List ListRow := s.cas.rows.map CaRow.listed

theorem mem_revokedRows_listing {s : Db} {caId : ℤ} {row : RevokedRow} :
    row ∈ revokedRows s caId ↔ ⟨some caId, true, row⟩ ∈ s.leafListing ∨ ⟨some caId, true, row⟩ ∈ s.caListing := by
  have hleaf : (∃ c ∈ s.leaves, c.caId = caId ∧ c.isRevoked = true ∧
      row = (c.serialNumber, c.revokedAt, c.revocationReason)) ↔ ⟨some caId, true, row⟩ ∈ s.leafListing := by
    simp only [Db.leafListing, List.mem_map, Table.mem_def, LeafRow.listed, ListRow.mk.injEq, Option.some.injEq,
      @eq_comm _ row]
  have hca : (∃ sub ∈ s.cas, sub.parentId = some caId ∧ sub.isRevoked = true ∧
      row = (sub.serialNumber, sub.revokedAt, sub.revocationReason)) ↔ ⟨some caId, true, row⟩ ∈ s.caListing := by
    simp only [Db.caListing, List.mem_map, Table.mem_def, CaRow.listed, ListRow.mk.injEq, @eq_comm _ row]
  rw [mem_revokedRows, hleaf, hca]

/-! ## What a write does to it -/

variable {lib : Lib} {env : Env} {allow : Liberty → Prop} {s s' : Db} {ca ca' : CaRow}

/-- the cached CRL is as it was -/
def SameCrl (ca ca' : CaRow) : Prop := ca'.crlNumber = ca.crlNumber ∧ ca'.crl = ca.crl

/-- a new CRL, built from the tables -/
def NewCrl (s : Db) (ca ca' : CaRow) : Prop :=
  ∃ now crl, ca'.crl = some crl ∧ ca'.crlNumber = crl.number ∧ crl.number = ca.crlNumber + 1 ∧
    crlEntries now (revokedRows s ca.id) = .ok crl.entries

/-- **Wrote.** What a write does to what is listed, and to the CRLs. The rows of CAs only settle when no revoked CA is
promoted. -/
structure Wrote (unpromoted : Prop) (s s' : Db) : Prop where
  leaves : Grows s.leafListing s'.leafListing
  cas : unpromoted → Grows s.caListing s'.caListing
  kept : ∀ i ca, s.cas.get? i = some ca → ∃ ca', s'.cas.get? i = some ca' ∧ (SameCrl ca ca' ∨ NewCrl s ca ca')
  back : ∀ i ca', s'.cas.get? i = some ca' →
    ca'.crl = none ∨ ∃ ca, s.cas.get? i = some ca ∧ (SameCrl ca ca' ∨ NewCrl s ca ca')

theorem SameCrl.refl : SameCrl ca ca := ⟨rfl, rfl⟩

/-- a write on other tables -/
theorem Wrote.of_cas {p : Prop} (hcas : s'.cas = s.cas) (hleaves : Grows s.leafListing s'.leafListing) : Wrote p s s' := by
  refine ⟨hleaves, fun _ => ?_, fun i ca hca => ?_, fun i ca hca => ?_⟩
  · rw [Db.caListing, Db.caListing, hcas]
    exact .refl _
  · exact ⟨ca, by rw [hcas]; exact hca, Or.inl .refl⟩
  · exact Or.inr ⟨ca, by rw [← hcas]; exact hca, Or.inl .refl⟩

/-- CAs are rewritten in place, one after the other -/
theorem Wrote.of_get? {p : Prop} {g : ℤ → CaRow → CaRow} (hget : ∀ k, s'.cas.get? k = (s.cas.get? k).map (g k))
    (hleaves : Grows s.leafListing s'.leafListing)
    (hrows : p → ∀ ca ∈ s.cas, RowKept ca.listed (g ca.id ca).listed)
    (hcrl : ∀ ca ∈ s.cas, SameCrl ca (g ca.id ca) ∨ NewCrl s ca (g ca.id ca)) : Wrote p s s' := by
  refine ⟨hleaves, fun hp => grows_of_get? hget (hrows hp), fun i ca hca => ?_, fun i ca' hca' => ?_⟩
  · have hmem := Table.mem_of_get? hca
    have hid : ca.id = i := Table.key_of_get? hca
    refine ⟨g i ca, by rw [hget, hca]; rfl, ?_⟩
    rw [← hid]
    exact hcrl ca hmem
  · rw [hget] at hca'
    obtain ⟨ca, hca, rfl⟩ := Option.map_eq_some_iff.1 hca'
    have hid : ca.id = i := Table.key_of_get? hca
    refine Or.inr ⟨ca, hca, ?_⟩
    rw [← hid]
    exact hcrl ca (Table.mem_of_get? hca)

theorem Wrote.updateCa {p : Prop} {caId : ℤ} {f : CaRow → CaRow} {hf : ∀ a, (f a).id = a.id}
    (hrows : p → ∀ a ∈ s.cas, a.id = caId → RowKept a.listed (f a).listed)
    (hcrl : ∀ a ∈ s.cas, a.id = caId → SameCrl a (f a) ∨ NewCrl s a (f a)) : Wrote p s (s.updateCa caId f hf) := by
  refine Wrote.of_get? (g := fun i a => if i = caId then f a else a) (fun k => ?_) (.refl _) (fun hp a ha => ?_)
    fun a ha => ?_
  · rw [get?_updateCa]
    by_cases hk : k = caId
    · simp only [if_pos hk]
    · simp only [if_neg hk, Option.map_id']
  · by_cases hid : a.id = caId
    · rw [if_pos hid]
      exact hrows hp a ha hid
    · rw [if_neg hid]
      exact .refl _
  · by_cases hid : a.id = caId
    · rw [if_pos hid]
      exact hcrl a ha hid
    · rw [if_neg hid]
      exact Or.inl .refl

theorem Wrote.insertCa {p : Prop} (n : NewCa) : Wrote p s (s.insertCa n) := by
  refine ⟨.refl _, fun _ => grows_insert (fun _ => rfl) rfl, fun i ca hca => ?_, fun i ca' hca' => ?_⟩
  · exact ⟨ca, get?_insertCa_of_some hca, Or.inl .refl⟩
  · have hid : ca'.id = i := Table.key_of_get? hca'
    rcases mem_insertCa.1 (Table.mem_of_get? hca') with hold | rfl
    · exact Or.inr ⟨ca', by rw [← hid]; exact Table.get?_key hold, Or.inl .refl⟩
    · exact Or.inl rfl

theorem Wrote.publish {p : Prop} {nextUpdate : DateTime} {crl : Crl} (hca : s.cas.get? ca.id = some ca)
    (hcrl : buildCrl env.now nextUpdate ca s = .ok crl) : Wrote p s (s.updateCa ca.id (cacheCrl crl) cacheCrl_id) := by
  obtain ⟨hnumber, -, hentries⟩ := buildCrl_ok hcrl
  refine Wrote.updateCa (fun _ a _ _ => .refl _) fun a ha hid => Or.inr ?_
  have heq : a = ca := Table.eq_of_key ha (Table.mem_of_get? hca) hid
  subst heq
  exact ⟨env.now, crl, rfl, rfl, hnumber, hentries⟩

/-- a revoked CA keeps the certificate that is listed -/
theorem Wrote.promote (row : CaCertRow) (hca : s.cas.get? ca.id = some ca) :
    Wrote (ca.isRevoked = false) s (promoteReissue ca row s) := by
  have hupdate : Wrote (ca.isRevoked = false) s (s.updateCa ca.id (promoted row)) := by
    refine Wrote.updateCa (fun hlive a ha hid => ?_) fun a _ _ => Or.inl ⟨rfl, rfl⟩
    have heq : a = ca := Table.eq_of_key ha (Table.mem_of_get? hca) hid
    have hfree : a.listed.isRevoked = false := by
      rw [heq]
      exact hlive
    have hstill : (promoted row a).listed.isRevoked = false := hfree
    refine .of_free hfree rfl fun hrev => ?_
    rw [hstill] at hrev
    cases hrev
  exact ⟨hupdate.leaves, hupdate.cas, hupdate.kept, hupdate.back⟩

theorem rowKept_revokeLeafRow {now : DateTime} {reason : String} {c : LeafRow} (hlive : c.isRevoked = false) :
    RowKept c.listed (revokeLeafRow now reason c).listed := .of_free hlive rfl fun _ => rfl

theorem rowKept_revokeCaRow {now : DateTime} {reason : String} (hlive : ca.isRevoked = false) :
    RowKept ca.listed (revokeCaRow now reason ca).listed := .of_free hlive rfl fun _ => rfl

/-- the sweep revokes what is not revoked yet -/
theorem Wrote.sweep {p : Prop} {now : DateTime} {reason : String} {caId : ℤ} {l : List ℤ} (hl : SweptCas s caId l) :
    Wrote p s (revokeAll now reason s l) := by
  refine Wrote.of_get? (g := fun i a => if i ∈ l then revokeCaRow now reason a else a) (fun k => ?_) ?_ (fun _ a ha => ?_)
    fun a ha => ?_
  · rw [get?_revokeAll]
    by_cases hk : k ∈ l
    · simp only [if_pos hk]
    · simp only [if_neg hk, Option.map_id']
  · refine grows_of_get? (g := fun _ => sweepLeaf now reason l) (fun k => get?_leaves_revokeAll) fun c hc => ?_
    unfold sweepLeaf
    split_ifs with hcond
    · exact rowKept_revokeLeafRow hcond.2
    · exact .refl _
  · by_cases hin : a.id ∈ l
    · rw [if_pos hin]
      have hfree : s.caRevoked a.id = false := hl.fresh a.id hin
      exact rowKept_revokeCaRow ((caRevoked_of_get? (Table.get?_key ha)).symm.trans hfree)
    · rw [if_neg hin]
      exact .refl _
  · by_cases hin : a.id ∈ l
    · rw [if_pos hin]
      exact Or.inl ⟨rfl, rfl⟩
    · rw [if_neg hin]
      exact Or.inl .refl

/-- **Every write**, one case for each. -/
theorem Effect.wrote (h : Effect env allow s s') : Wrote (¬ allow .promoteRevoked) s s' := by
  cases h with
  | insertCa n hparent hcert => exact .insertCa n
  | setApproval status hca hpending => exact .updateCa (fun _ a _ _ => .refl _) fun a _ _ => Or.inl ⟨rfl, rfl⟩
  | setAcme enable hca => exact .updateCa (fun _ a _ _ => .refl _) fun a _ _ => Or.inl ⟨rfl, rfl⟩
  | @promote ca row hca hrow hof hkind hrevoked =>
    have hwrote := Wrote.promote row hca
    refine ⟨hwrote.leaves, fun hforbidden => hwrote.cas ?_, hwrote.kept, hwrote.back⟩
    cases hrev : ca.isRevoked with
    | false => rfl
    | true => exact absurd (hrevoked hrev) hforbidden
  | insertAlternate n _ hrevoked => exact .of_cas rfl (.refl _)
  | approveAlternate altId => exact .of_cas rfl (.refl _)
  | deleteAlternate altId => exact .of_cas rfl (.refl _)
  | csrs t => exact .of_cas rfl (.refl _)
  | insertLeaf form issued escrowed renewedFrom notAfter hca hlive => exact .of_cas rfl (grows_insert (fun _ => rfl) rfl)
  | @revokeLeaf c reason hc hrev =>
    have hrows : ∀ a ∈ s.leaves, a.id = c.id → RowKept a.listed (revokeLeafRow env.now reason a).listed := by
      intro a ha hid
      have heq : a = c := Table.eq_of_key ha (Table.mem_of_get? hc) hid
      rw [heq]
      exact rowKept_revokeLeafRow hrev
    exact .of_cas rfl (grows_update (f := revokeLeafRow env.now reason) revokeLeafRow_id hrows)
  | sweep reason hl hallow => exact .sweep hl
  | publish hca hsign hcrl hfinal => exact .publish hca hcrl

/-! ## The bulletins -/

/-- a CRL lists a row: it has the entry that is made of it -/
def Crl.has (crl : Crl) (row : RevokedRow) : Prop := ∃ now, ∃ e ∈ crl.entries, crlEntry now row = .ok e

/-- the CRLs, and what they are to list -/
def crlBulletin (facts : Db → ℤ → RevokedRow → Prop) : Bulletin Db ℤ RevokedRow Crl where
  facts := facts
  edition s i := (s.cas.get? i).map fun ca => (ca.crlNumber, ca.crl)
  lists := Crl.has

def leafFacts (s : Db) (i : ℤ) (row : RevokedRow) : Prop := ⟨some i, true, row⟩ ∈ s.leafListing

def allFacts (s : Db) (i : ℤ) (row : RevokedRow) : Prop := row ∈ revokedRows s i

theorem Wrote.follows {p : Prop} (h : Wrote p s s') {facts : Db → ℤ → RevokedRow → Prop}
    (hfacts : ∀ i row, facts s i row → row ∈ revokedRows s i) {i : ℤ} {e : ℤ × Option Crl}
    (he : (crlBulletin facts).edition s i = some e) :
    ∃ e', (crlBulletin facts).edition s' i = some e' ∧ (e' = e ∨ (crlBulletin facts).Follows s i e e') := by
  obtain ⟨ca, hca, rfl⟩ := Option.map_eq_some_iff.1 he
  obtain ⟨ca', hca', hcase⟩ := h.kept i ca hca
  refine ⟨(ca'.crlNumber, ca'.crl), by simp only [crlBulletin, hca', Option.map_some], ?_⟩
  rcases hcase with ⟨hnumber, hcrl⟩ | ⟨now, crl, hcrl, hnumber, hnext, hentries⟩
  · exact Or.inl (by rw [hnumber, hcrl])
  · refine Or.inr ⟨by show ca.crlNumber < ca'.crlNumber; omega, crl, hcrl, fun row hrow => ?_⟩
    have hid : ca.id = i := Table.key_of_get? hca
    have hmem : row ∈ revokedRows s ca.id := hid ▸ hfacts i row hrow
    obtain ⟨e, hentry⟩ := crlEntry_of_mem hentries hmem
    exact ⟨now, e, (mem_crlEntries hentries).2 ⟨row, hmem, hentry⟩, hentry⟩

theorem Wrote.leafAdvances {p : Prop} (h : Wrote p s s') : (crlBulletin leafFacts).Advances s s' where
  facts _ _ hrow := h.leaves.revoked hrow rfl
  edition _ _ he := h.follows (fun _ _ hrow => mem_revokedRows_listing.2 (Or.inl hrow)) he

theorem Wrote.allFacts {p : Prop} (h : Wrote p s s') (hp : p) {i : ℤ} {row : RevokedRow} (hrow : row ∈ revokedRows s i) :
    row ∈ revokedRows s' i :=
  mem_revokedRows_listing.2 <| (mem_revokedRows_listing.1 hrow).imp (fun hleaf => h.leaves.revoked hleaf rfl) fun hca =>
    (h.cas hp).revoked hca rfl

theorem Wrote.allAdvances {p : Prop} (h : Wrote p s s') (hp : p) : (crlBulletin Pki.allFacts).Advances s s' where
  facts _ _ hrow := h.allFacts hp hrow
  edition _ _ he := h.follows (fun _ _ hrow => hrow) he

/-- **Sound.** A cached CRL has the number of its row, and every entry is that of a row that is to be listed. -/
structure CrlSound (s : Db) : Prop where
  leavesDated : AllDated s.leafListing
  casDated : AllDated s.caListing
  number : ∀ i ca crl, s.cas.get? i = some ca → ca.crl = some crl → crl.number = ca.crlNumber
  entries : ∀ i ca crl, s.cas.get? i = some ca → ca.crl = some crl →
    ∀ e ∈ crl.entries, ∃ row ∈ revokedRows s i, ∃ now, crlEntry now row = .ok e

theorem CrlSound.wrote {p : Prop} (hs : CrlSound s) (h : Wrote p s s') (hp : p) : CrlSound s' where
  leavesDated := hs.leavesDated.grows h.leaves
  casDated := hs.casDated.grows (h.cas hp)
  number := by
    intro i ca' crl hca' hcrl
    rcases h.back i ca' hca' with hnone | ⟨ca, hca, ⟨hnumber, hsame⟩ | ⟨now, new, hnew, hnumber, -, -⟩⟩
    · rw [hnone] at hcrl
      cases hcrl
    · rw [hnumber]
      exact hs.number i ca crl hca (hsame ▸ hcrl)
    · rw [hcrl] at hnew
      cases hnew
      exact hnumber.symm
  entries := by
    intro i ca' crl hca' hcrl e he
    rcases h.back i ca' hca' with hnone | ⟨ca, hca, ⟨-, hsame⟩ | ⟨now, new, hnew, -, -, hentries⟩⟩
    · rw [hnone] at hcrl
      cases hcrl
    · obtain ⟨row, hrow, hentry⟩ := hs.entries i ca crl hca (hsame ▸ hcrl) e he
      exact ⟨row, h.allFacts hp hrow, hentry⟩
    · rw [hcrl] at hnew
      cases hnew
      have hid : ca.id = i := Table.key_of_get? hca
      obtain ⟨row, hrow, hentry⟩ := (mem_crlEntries hentries).1 he
      exact ⟨row, h.allFacts hp (hid ▸ hrow), now, hentry⟩

theorem CrlSound.dated (hs : CrlSound s) {i : ℤ} {row : RevokedRow} (hrow : row ∈ revokedRows s i) :
    ∃ t, row.2.1 = some t := by
  rcases mem_revokedRows_listing.1 hrow with hleaf | hca
  · exact Option.isSome_iff_exists.1 (hs.leavesDated _ hleaf rfl)
  · exact Option.isSome_iff_exists.1 (hs.casDated _ hca rfl)

/-- the entry of a dated row does not depend on the clock -/
theorem crlEntry_dated {row : RevokedRow} {t : DateTime} (h : row.2.1 = some t) (now now' : DateTime) :
    crlEntry now row = crlEntry now' row := by
  unfold crlEntry
  rw [h]
  rfl

/-! ## Runs -/

/-- the request approves no certificate of a CA that is revoked already -/
def Unpromoted (s : Db) (o : Env × Request) : Prop := o.2.liberties s .promoteRevoked = false

instance (s : Db) (o : Env × Request) : Decidable (Unpromoted s o) :=
  inferInstanceAs (Decidable (o.2.liberties s .promoteRevoked = false))

/-- the writes of a request, but not promoting a revoked CA when the request does not -/
theorem step_effects_unpromoted (lib : Lib) {o : Env × Request} (h : Unpromoted s o) :
    Effects o.1 (fun l => l ≠ .promoteRevoked) s (step lib s o) := by
  refine step_effects (fun l hl heq => ?_) fun hshort => absurd (by decide) hshort
  rw [heq, h] at hl
  cases hl

theorem Effects.leafAdvances (h : Effects env allow s s') : (crlBulletin leafFacts).Advances s s' := by
  induction h with
  | refl => exact .refl
  | tail _ heffect ih => exact ih.trans heffect.wrote.leafAdvances

theorem Effects.allAdvances (h : Effects env allow s s') (hallow : ¬ allow .promoteRevoked) :
    (crlBulletin allFacts).Advances s s' := by
  induction h with
  | refl => exact .refl
  | tail _ heffect ih => exact ih.trans (heffect.wrote.allAdvances hallow)

theorem Effects.sound (h : Effects env allow s s') (hallow : ¬ allow .promoteRevoked) (hs : CrlSound s) : CrlSound s' := by
  induction h with
  | refl => exact hs
  | tail _ heffect ih => exact ih.wrote heffect.wrote hallow

theorem Effects.leavesDated (h : Effects env allow s s') (hs : AllDated s.leafListing) : AllDated s'.leafListing := by
  induction h with
  | refl => exact hs
  | tail _ heffect ih => exact ih.grows heffect.wrote.leaves

theorem step_writes (lib : Lib) (s : Db) (o : Env × Request) : Effects o.1 (fun _ => True) s (step lib s o) :=
  step_effects (fun _ _ => trivial) fun h => absurd trivial h

theorem dated_run (lib : Lib) (ops : List (Env × Request)) : AllDated (run (step lib) Db.empty ops).leafListing :=
  run_invariant (I := fun s : Db => AllDated s.leafListing) (fun s o hs => Effects.leavesDated (step_writes lib s o) hs)
    (fun _ ha => absurd ha (List.not_mem_nil)) ops

theorem sound_empty : CrlSound Db.empty := by
  refine ⟨fun _ ha => absurd ha List.not_mem_nil, fun _ ha => absurd ha List.not_mem_nil, ?_, ?_⟩
  · intro i ca crl hca
    cases hca
  · intro i ca crl hca
    cases hca

theorem sound_run {ops : List (Env × Request)} (hops : Meets (step lib) Unpromoted Db.empty ops) :
    CrlSound (run (step lib) Db.empty ops) :=
  run_invariant_of_meets (fun _ _ hkept hs => Effects.sound (step_effects_unpromoted lib hkept) (by simp) hs)
    sound_empty hops

/-- **(1) Revoked certificates.** -/
theorem revoked_leaf_listed (lib : Lib) (before after : List (Env × Request)) {c : LeafRow} {ca : CaRow}
    (hc : c ∈ (run (step lib) Db.empty before).leaves) (hrev : c.isRevoked = true)
    (hca : (run (step lib) Db.empty before).cas.get? c.caId = some ca) :
    ∃ ca', (run (step lib) Db.empty (before ++ after)).cas.get? c.caId = some ca' ∧
      (ca'.crlNumber = ca.crlNumber ∧ ca'.crl = ca.crl ∨
        ca.crlNumber < ca'.crlNumber ∧ ∃ crl serial t, ca'.crl = some crl ∧ c.revokedAt = some t ∧
          intHex c.serialNumber = .ok serial ∧
          ⟨serial, wholeSeconds t, crlReason c.revocationReason⟩ ∈ crl.entries) := by
  have hadvances : (crlBulletin leafFacts).Advances (run (step lib) Db.empty before)
      (run (step lib) (run (step lib) Db.empty before) after) :=
    run_rel (fun _ => .refl) (fun h h' => h.trans h') (fun s o => Effects.leafAdvances (step_writes lib s o)) _ after
  have hlisted : c.listed = ⟨some c.caId, true, (c.serialNumber, c.revokedAt, c.revocationReason)⟩ := by
    rw [LeafRow.listed, hrev]
  have hfact : leafFacts (run (step lib) Db.empty before) c.caId (c.serialNumber, c.revokedAt, c.revocationReason) :=
    List.mem_map.2 ⟨c, hc, hlisted⟩
  obtain ⟨t, ht⟩ := Option.isSome_iff_exists.1 (dated_run lib before _ hfact rfl)
  have hedition : (crlBulletin leafFacts).edition (run (step lib) Db.empty before) c.caId =
      some (ca.crlNumber, ca.crl) := by
    simp only [crlBulletin, hca, Option.map_some]
  obtain ⟨e', he', hcase⟩ := hadvances.listed hfact hedition
  obtain ⟨ca', hca', rfl⟩ := Option.map_eq_some_iff.1 he'
  refine ⟨ca', by rw [run_append]; exact hca', ?_⟩
  rcases hcase with heq | ⟨hlt, crl, hcrl, now, e, he, hentry⟩
  · exact Or.inl ⟨congrArg Prod.fst heq, congrArg Prod.snd heq⟩
  · refine Or.inr ⟨hlt, crl, e.serialNumber, t, hcrl, ht, (crlEntry_ok hentry).1, ?_⟩
    have hdate : e.revocationDate = wholeSeconds t := by
      have hraw := (crlEntry_ok hentry).2.1
      simp only [show c.revokedAt = some t from ht, Option.getD_some] at hraw
      exact hraw
    have hreason : e.reason = crlReason c.revocationReason := (crlEntry_ok hentry).2.2
    rw [← hdate, ← hreason]
    exact he

/-! ## A root, a certificate and a sub-CA -/

def sampleAuthority (name : String) (serial : ℤ) : CaForm :=
  ⟨name.toList, name.toList, name.toList, 3650, none, none, .approved, serial, name.toList⟩

/-- a certificate of a new root is revoked -/
def leafHistory : List (Env × Request) :=
  [(Env.at 0, .createRoot (sampleAuthority "root" 16)),
    (Env.at day, .createCertificate 1 ⟨[("CN", "a.example".toList)], [], 30, Verdicts.pass, 999⟩),
    (Env.at (2 * day), .revokeCertificate 1 "superseded")]

/-- a sub-CA of a new root is revoked -/
def subHistory : List (Env × Request) :=
  [(Env.at 0, .createRoot (sampleAuthority "root" 16)), (Env.at day, .createIntermediate 1 (sampleAuthority "sub" 32)),
    (Env.at (2 * day), .revokeCa 2 "superseded")]

/-- the CRL that follows lists the certificate -/
theorem leafHistory_listed :
    ∃ ca' ∈ (run (step sampleLib) Db.empty (leafHistory ++ [(Env.at (3 * day), .generateCrl 1)])).cas,
    ∃ crl ∈ ca'.crl, ⟨999, 2 * day, .superseded⟩ ∈ crl.entries := by
  have hleaf : ∃ c ∈ (run (step sampleLib) Db.empty leafHistory).leaves, c.isRevoked = true ∧ c.caId = 1 ∧
      c.serialNumber = "3e7".toList ∧ c.revokedAt = some (2 * day) ∧ c.revocationReason = some "superseded" := by
    decide +kernel
  obtain ⟨c, hc, hrev, hissuer, hserial, hdate, hreason⟩ := hleaf
  have hroot : ((run (step sampleLib) Db.empty leafHistory).cas.get? 1).map (·.crlNumber) = some 2 := by decide +kernel
  obtain ⟨ca, hca, hnumber⟩ := Option.map_eq_some_iff.1 hroot
  have hnext : ∀ ca' ∈ (run (step sampleLib) Db.empty (leafHistory ++ [(Env.at (3 * day), .generateCrl 1)])).cas,
      ca'.crlNumber = 3 := by decide +kernel
  obtain ⟨ca', hca', hcase⟩ := revoked_leaf_listed sampleLib leafHistory [(Env.at (3 * day), .generateCrl 1)] hc hrev
    (by rw [hissuer]; exact hca)
  have hmem := Table.mem_of_get? hca'
  refine ⟨ca', hmem, ?_⟩
  rcases hcase with ⟨hsame, -⟩ | ⟨-, crl, serial, t, hcrl, ht, hhex, he⟩
  · rw [hnext ca' hmem, hnumber] at hsame
    cases hsame
  · refine ⟨crl, hcrl, ?_⟩
    rw [hdate] at ht
    cases ht
    rw [hserial] at hhex
    have hvalue : intHex "3e7".toList = .ok 999 := by decide +kernel
    rw [hvalue] at hhex
    cases hhex
    rw [hreason] at he
    exact he

/-- **(2) Kept.** -/
theorem crl_kept (lib : Lib) (before after : List (Env × Request))
    (hkept : Meets (step lib) Unpromoted Db.empty (before ++ after)) {ca : CaRow} {crl : Crl}
    (hca : ca ∈ (run (step lib) Db.empty before).cas) (hcrl : ca.crl = some crl) :
    ∃ ca' crl', (run (step lib) Db.empty (before ++ after)).cas.get? ca.id = some ca' ∧ ca'.crl = some crl' ∧
      (crl' = crl ∨ crl.number < crl'.number) ∧ ∀ e ∈ crl.entries, e ∈ crl'.entries := by
  obtain ⟨hbefore, hafter⟩ := meets_append.1 hkept
  have hsound := sound_run hbefore
  have hsound' := sound_run hkept
  have hget := Table.get?_key hca
  have hadvances : (crlBulletin allFacts).Advances (run (step lib) Db.empty before)
      (run (step lib) (run (step lib) Db.empty before) after) :=
    Bulletin.advances_run (fun _ _ h => Effects.allAdvances (step_effects_unpromoted lib h) (by simp)) hafter
  have hedition : (crlBulletin allFacts).edition (run (step lib) Db.empty before) ca.id =
      some (ca.crlNumber, some crl) := by
    simp only [crlBulletin, hget, Option.map_some, hcrl]
  obtain ⟨n', crl', he', hnumber, hlists⟩ := hadvances.kept hedition
  obtain ⟨ca', hca', heq⟩ := Option.map_eq_some_iff.1 he'
  rw [← run_append] at hca'
  obtain ⟨rfl, hcrl'⟩ := Prod.mk.inj heq
  refine ⟨ca', crl', hca', hcrl', ?_, fun e he => ?_⟩
  · rcases hnumber with ⟨-, rfl⟩ | hlt
    · exact Or.inl rfl
    · rw [hsound.number _ _ _ hget hcrl, hsound'.number _ _ _ hca' hcrl']
      exact Or.inr hlt
  · obtain ⟨row, hrow, now, hentry⟩ := hsound.entries _ _ _ hget hcrl e he
    obtain ⟨t, ht⟩ := hsound.dated hrow
    obtain ⟨now', e', he', hentry'⟩ := hlists row ⟨now, e, he, hentry⟩ hrow
    rw [crlEntry_dated ht now' now, hentry] at hentry'
    rw [Except.ok.inj hentry']
    exact he'

theorem subHistory_unpromoted :
    Meets (step sampleLib) Unpromoted Db.empty (subHistory ++ [(Env.at (3 * day), .generateCrl 1)]) := by decide +kernel

theorem subHistory_crl : ∃ ca ∈ (run (step sampleLib) Db.empty subHistory).cas, ca.id = 1 ∧ ca.crl =
    some ⟨2, 2 * day, 9 * day, [⟨32, 2 * day, .superseded⟩]⟩ := by decide +kernel

/-- the sub-CA stays on the CRL of the root -/
theorem subHistory_kept : ∃ ca' ∈ (run (step sampleLib) Db.empty (subHistory ++ [(Env.at (3 * day), .generateCrl 1)])).cas,
    ∃ crl' ∈ ca'.crl, ⟨32, 2 * day, .superseded⟩ ∈ crl'.entries := by
  obtain ⟨ca, hca, -, hcrl⟩ := subHistory_crl
  obtain ⟨ca', crl', hca', hcrl', -, hentries⟩ :=
    crl_kept sampleLib subHistory [(Env.at (3 * day), .generateCrl 1)] subHistory_unpromoted hca hcrl
  exact ⟨ca', Table.mem_of_get? hca', crl', hcrl', hentries _ (List.mem_singleton.2 rfl)⟩

/-- a certificate of the sub-CA is re-issued before it is revoked, and approved afterwards: the next CRL of the root has
another serial number -/
example : ∃ ca ∈ (run (step sampleLib) Db.empty
    [(Env.at 0, .createRoot (sampleAuthority "root" 16)), (Env.at day, .createIntermediate 1 (sampleAuthority "sub" 32)),
      (Env.at day, .reissue 2 none .pending 48), (Env.at (2 * day), .revokeCa 2 "superseded"),
      (Env.at (3 * day), .approveAlternate 2 1), (Env.at (4 * day), .generateCrl 1)]).cas,
    ca.id = 1 ∧ ca.crl.map (·.entries) = some [⟨48, 2 * day, .superseded⟩] := by decide +kernel

/-- **(3) Nothing else.** -/
theorem listed_revoked (lib : Lib) (ops : List (Env × Request)) (hops : Meets (step lib) Unpromoted Db.empty ops)
    {ca : CaRow} {crl : Crl} (hca : ca ∈ (run (step lib) Db.empty ops).cas) (hcrl : ca.crl = some crl) :
    ∀ e ∈ crl.entries, ∃ serial t reason,
      ((∃ c ∈ (run (step lib) Db.empty ops).leaves, c.caId = ca.id ∧ c.isRevoked = true ∧ c.serialNumber = serial ∧
          c.revokedAt = some t ∧ c.revocationReason = reason) ∨
        ∃ sub ∈ (run (step lib) Db.empty ops).cas, sub.parentId = some ca.id ∧ sub.isRevoked = true ∧
          sub.serialNumber = serial ∧ sub.revokedAt = some t ∧ sub.revocationReason = reason) ∧
      intHex serial = .ok e.serialNumber ∧ e.revocationDate = wholeSeconds t ∧ e.reason = crlReason reason := by
  intro e he
  have hsound := sound_run hops
  obtain ⟨row, hrow, now, hentry⟩ := hsound.entries _ _ _ (Table.get?_key hca) hcrl e he
  obtain ⟨t, ht⟩ := hsound.dated hrow
  obtain ⟨hserial, hdate, hreason⟩ := crlEntry_ok hentry
  rw [ht, Option.getD_some] at hdate
  refine ⟨row.1, t, row.2.2, ?_, hserial, hdate, hreason⟩
  rcases mem_revokedRows.1 hrow with ⟨c, hc, hissuer, hrev, rfl⟩ | ⟨sub, hsub, hissuer, hrev, rfl⟩
  · exact Or.inl ⟨c, hc, hissuer, hrev, rfl, ht, rfl⟩
  · exact Or.inr ⟨sub, hsub, hissuer, hrev, rfl, ht, rfl⟩

/-- what the CRL of the root lists is revoked -/
theorem subHistory_revoked : ∃ sub ∈ (run (step sampleLib) Db.empty subHistory).cas, sub.isRevoked = true := by
  have hunpromoted : Meets (step sampleLib) Unpromoted Db.empty subHistory := by decide +kernel
  have hleaves : (run (step sampleLib) Db.empty subHistory).leaves.rows = [] := by decide +kernel
  obtain ⟨ca, hca, -, hcrl⟩ := subHistory_crl
  obtain ⟨serial, t, reason, hrow, -⟩ :=
    listed_revoked sampleLib subHistory hunpromoted hca hcrl _ (List.mem_singleton.2 rfl)
  rcases hrow with ⟨c, hc, -⟩ | ⟨sub, hsub, -, hrev, -⟩
  · rw [Table.mem_def, hleaves] at hc
    cases hc
  · exact ⟨sub, hsub, hrev⟩

end Chancery.Pki
