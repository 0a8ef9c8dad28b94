/-
Is a CA restricted from its first committed row on?

While dual control is active, a CA that an admin creates or imports with a key should be pending, with its allow-list, in
every state the request commits, until another admin approves it. The rows, the approval columns of an import and the
allow-list are three commits. So (`held_iff`) it is restricted in every committed state exactly when there is nothing to
wait for: the request is refused before its rows, it brings no key, or it generates the key and asks for no allow-list.

Witness `imported_key_is_usable`: after the first commit of an import with a key, the CA is approved and signs.
-/
import Mathlib.Tactic
import Chancery.Routes.CaCommits

namespace Chancery.Pki

open Chancery.Core

/-! ## The property -/

/-- the request added this CA -/
def AddedBy (s : Server) (ca : CaRow) : Prop := s.db.cas.get? ca.id = none

/-- the CA waits for approval, with the allow-list that was asked for -/
def Restricted (r : CreateRequest) (t : Server) (ca : CaRow) : Prop :=
  ca.approvalStatus = .pending ∧ (t.stamps ca.id).allowedProfiles = allowList r.allowedProfiles

/-- an admin other than the one who asked has approved the CA -/
def ApprovedByAnother (r : CreateRequest) (t : Server) (ca : CaRow) : Prop :=
  ∃ u, u ≠ r.creator ∧ (t.stamps ca.id).approvedBy = some u

/-- every CA with a key that the request added is restricted until another admin approves it -/
def Held (r : CreateRequest) (s t : Server) : Prop :=
  ∀ ca ∈ t.db.cas, AddedBy s ca → ca.hasSigningKey = true → Restricted r t ca ∨ ApprovedByAnother r t ca

/-! ## What the first commit adds -/

section Rows

variable {lib : Lib} {env : Env} {s s' : Db}

/-- no row is lost, and the new ones have no key -/
structure GrownKeyless (s s' : Db) : Prop where
  kept : ∀ ca ∈ s.cas, ca ∈ s'.cas
  added : ∀ ca ∈ s'.cas, ca ∈ s.cas ∨ ca.hasSigningKey = false

theorem GrownKeyless.refl : GrownKeyless s s := ⟨fun _ h => h, fun _ h => Or.inl h⟩

theorem GrownKeyless.trans {u : Db} (h : GrownKeyless s s') (h' : GrownKeyless s' u) : GrownKeyless s u := by
  refine ⟨fun ca hca => h'.kept ca (h.kept ca hca), fun ca hca => ?_⟩
  rcases h'.added ca hca with hold | hkey
  · exact h.added ca hold
  · exact Or.inr hkey

theorem grownKeyless_insertCa {n : NewCa} (h : n.hasSigningKey = false) : GrownKeyless s (s.insertCa n) := by
  refine ⟨fun ca hca => mem_insertCa.2 (Or.inl hca), fun ca hca => ?_⟩
  rcases mem_insertCa.1 hca with hold | rfl
  · exact Or.inl hold
  · exact Or.inr h

theorem importCaObject_key {name : Text} {cert : X509} {key : Option Text} {parentId : Option ℤ}
    (h : importCaObject lib env name cert key parentId s = .ok s') :
    ∃ n : NewCa, s' = s.insertCa n ∧ n.hasSigningKey = key.isSome ∧ n.approvalStatus = .approved := by
  obtain ⟨pathLength, _, h⟩ := bind_eq_ok.1 h
  obtain ⟨_, _, h⟩ := bind_eq_ok.1 h
  split_ifs at h
  obtain ⟨parent, _, h⟩ := bind_eq_ok.1 h
  exact ⟨_, addCa_ok h, rfl, rfl⟩

/-- the parents of a bundle are imported without a key -/
theorem importParents_keyless {name : Text} {certs : List X509} {parentId leafParent : Option ℤ}
    (h : importParents lib env name certs parentId s = .ok (s', leafParent)) : GrownKeyless s s' := by
  induction certs generalizing s parentId with
  | nil =>
    cases h
    exact .refl
  | cons cert certs ih =>
    rw [importParents] at h
    cases hfind : s.cas.rows.find? (·.serialNumber == formatHex cert.serialNumber) with
    | some existing =>
      rw [hfind] at h
      exact ih h
    | none =>
      rw [hfind] at h
      obtain ⟨s1, hs1, h⟩ := bind_eq_ok.1 h
      obtain ⟨n, rfl, hkey, _⟩ := importCaObject_key hs1
      exact (grownKeyless_insertCa hkey).trans (ih h)

/-- the imported CA comes last, approved -/
theorem importRows_ok {form : ImportForm} {ordered : List X509} (h : importRows lib env form ordered s = .ok s') :
    ∃ (s1 : Db) (n : NewCa), GrownKeyless s s1 ∧ s' = s1.insertCa n ∧ n.hasSigningKey = form.key.isSome ∧
      n.approvalStatus = .approved := by
  unfold importRows at h
  split at h
  · obtain ⟨n, hn, hkey, hstatus⟩ := importCaObject_key h
    exact ⟨s, n, .refl, hn, hkey, hstatus⟩
  · unfold importChain at h
    split at h
    · cases h
    split_ifs at h
    obtain ⟨⟨s1, leafParent⟩, hs1, h⟩ := bind_eq_ok.1 h
    obtain ⟨n, hn, hkey, hstatus⟩ := importCaObject_key h
    exact ⟨s1, n, importParents_keyless hs1, hn, hkey, hstatus⟩

theorem addRootCa_ok {form : CaForm} (h : addRootCa env form s = .ok s') :
    ∃ n : NewCa, s' = s.insertCa n ∧ n.hasSigningKey = true ∧ n.approvalStatus = form.approvalStatus := by
  obtain ⟨_, _, h⟩ := bind_eq_ok.1 h
  obtain ⟨_, _, h⟩ := bind_eq_ok.1 h
  obtain ⟨_, _, h⟩ := bind_eq_ok.1 h
  exact ⟨_, addCa_ok h, rfl, rfl⟩

theorem addIntermediateCa_ok {form : CaForm} {parent : CaRow} (h : addIntermediateCa lib env form parent s = .ok s') :
    ∃ n : NewCa, s' = s.insertCa n ∧ n.hasSigningKey = true ∧ n.approvalStatus = form.approvalStatus := by
  obtain ⟨_, _, h⟩ := bind_eq_ok.1 h
  obtain ⟨_, _, h⟩ := bind_eq_ok.1 h
  obtain ⟨_, _, h⟩ := bind_eq_ok.1 h
  obtain ⟨_, _, h⟩ := bind_eq_ok.1 h
  obtain ⟨_, _, h⟩ := bind_eq_ok.1 h
  obtain ⟨_, _, h⟩ := bind_eq_ok.1 h
  split_ifs at h
  exact ⟨_, addCa_ok h, rfl, rfl⟩

variable {status : ApprovalStatus} {m : Material} {caId : ℤ}

/-- a generated CA: one row, with the status of the request -/
theorem addRows_generated (hm : m.generated = true) (h : addRows lib env status s m = .ok (s', caId)) :
    ∃ n : NewCa, s' = s.insertCa n ∧ n.hasSigningKey = true ∧ n.approvalStatus = status := by
  cases m with
  | root form =>
    obtain ⟨s1, hs1, h⟩ := bind_eq_ok.1 h
    cases h
    exact addRootCa_ok hs1
  | intermediate parentId form =>
    rw [addRows] at h
    split at h
    · cases h
    obtain ⟨s1, hs1, h⟩ := bind_eq_ok.1 h
    cases h
    exact addIntermediateCa_ok hs1
  | pem form => cases hm
  | pkcs12 form => cases hm

/-- an imported CA: the last row, approved; the others have no key -/
theorem addRows_imported (hm : m.generated = false) (h : addRows lib env status s m = .ok (s', caId)) :
    ∃ (s1 : Db) (n : NewCa), GrownKeyless s s1 ∧ s' = s1.insertCa n ∧ n.hasSigningKey = m.keyed ∧
      n.approvalStatus = .approved := by
  cases m with
  | root form => cases hm
  | intermediate parentId form => cases hm
  | pem form =>
    obtain ⟨ordered, _, h⟩ := bind_eq_ok.1 h
    obtain ⟨s2, hs2, h⟩ := bind_eq_ok.1 h
    cases h
    exact importRows_ok hs2
  | pkcs12 form =>
    obtain ⟨_, _, h⟩ := bind_eq_ok.1 h
    obtain ⟨ordered, _, h⟩ := bind_eq_ok.1 h
    obtain ⟨s2, hs2, h⟩ := bind_eq_ok.1 h
    cases h
    exact importRows_ok hs2

end Rows

/-! ## What the later commits and the approvals keep -/

/-- the later rows are earlier ones, with the same key and the same approval state -/
def SameColumns (s s' : Db) : Prop :=
  ∀ ca' ∈ s'.cas, ∃ ca ∈ s.cas, ca.id = ca'.id ∧ ca.hasSigningKey = ca'.hasSigningKey ∧
    ca.approvalStatus = ca'.approvalStatus

/-- the later rows are earlier ones, with the same key -/
def SameKeys (s s' : Db) : Prop := ∀ ca' ∈ s'.cas, ∃ ca ∈ s.cas, ca.id = ca'.id ∧ ca.hasSigningKey = ca'.hasSigningKey

section Moves

variable {env : Env} {s s' : Db}

theorem SameColumns.refl (s : Db) : SameColumns s s := fun ca h => ⟨ca, h, rfl, rfl, rfl⟩

theorem SameColumns.sameKeys (h : SameColumns s s') : SameKeys s s' := by
  intro ca' hca'
  obtain ⟨ca, hca, hid, hkey, _⟩ := h ca' hca'
  exact ⟨ca, hca, hid, hkey⟩

theorem SameKeys.trans {u : Db} (h : SameKeys s s') (h' : SameKeys s' u) : SameKeys s u := by
  intro c hc
  obtain ⟨b, hb, hidb, hkeyb⟩ := h' c hc
  obtain ⟨a, ha, hida, hkeya⟩ := h b hb
  exact ⟨a, ha, hida.trans hidb, hkeya.trans hkeyb⟩

/-- an update of one row keeps what it does not write -/
theorem sameKeys_updateCa {caId : ℤ} {f : CaRow → CaRow} {hf : ∀ a, (f a).id = a.id}
    (hkey : ∀ a, (f a).hasSigningKey = a.hasSigningKey) : SameKeys s (s.updateCa caId f hf) := by
  intro ca' hca'
  obtain ⟨ca, hca, rfl⟩ := mem_updateCa.1 hca'
  refine ⟨ca, hca, ?_⟩
  split_ifs
  · exact ⟨(hf ca).symm, (hkey ca).symm⟩
  · exact ⟨rfl, rfl⟩

theorem sameColumns_publishInitialCrl (env : Env) (caId : ℤ) (s : Db) : SameColumns s (publishInitialCrl env caId s) := by
  unfold publishInitialCrl
  split
  · exact .refl s
  split_ifs
  · exact .refl s
  cases h : generateCrl env _ none s with
  | error e => exact .refl s
  | ok s' =>
    obtain ⟨_, crl, _, rfl⟩ := generateCrl_ok h
    intro ca' hca'
    obtain ⟨ca, hca, rfl⟩ := mem_updateCa.1 hca'
    refine ⟨ca, hca, ?_⟩
    split_ifs <;> exact ⟨rfl, rfl, rfl⟩

variable {r : CreateRequest} {t : Server}

theorem Commit.sameKeys (c : Commit) (status : ApprovalStatus) (caId : ℤ) :
    SameKeys t.db (c.apply env r status caId t).db := by
  cases c with
  | approval => exact sameKeys_updateCa fun _ => rfl
  | initialCrl => exact (sameColumns_publishInitialCrl env caId t.db).sameKeys
  | allowList => exact (SameColumns.refl t.db).sameKeys

theorem Server.approve_sameKeys (aenv : Auth.Env) (admin : Auth.User) (caId : ℤ) :
    SameKeys t.db (t.approve env aenv admin caId).db := by
  unfold Server.approve
  split
  · exact (SameColumns.refl t.db).sameKeys
  split_ifs
  · exact (SameColumns.refl t.db).sameKeys
  · exact (SameColumns.refl t.db).sameKeys
  · refine SameKeys.trans ?_ (sameColumns_publishInitialCrl env caId _).sameKeys
    exact sameKeys_updateCa fun _ => rfl

/-- none of the CAs that the request added has a key -/
def Keyless (s t : Server) : Prop := ∀ ca ∈ t.db.cas, AddedBy s ca → ca.hasSigningKey = false

variable {s t t' : Server}

theorem Keyless.held (h : Keyless s t) : Held r s t := by
  intro ca hca hadded hkey
  rw [h ca hca hadded] at hkey
  cases hkey

theorem Keyless.of_sameKeys (h : Keyless s t) (hsame : SameKeys t.db t'.db) : Keyless s t' := by
  intro ca' hca' hadded
  obtain ⟨ca, hca, hid, hkey⟩ := hsame ca' hca'
  rw [← hkey]
  refine h ca hca ?_
  rw [AddedBy, hid]
  exact hadded

/-- the restriction reads the approval columns and the allow-list only -/
theorem Held.of_sameColumns (h : Held r s t) (hsame : SameColumns t.db t'.db)
    (hallowed : ∀ i, (t'.stamps i).allowedProfiles = (t.stamps i).allowedProfiles)
    (happroved : ∀ i, (t'.stamps i).approvedBy = (t.stamps i).approvedBy) : Held r s t' := by
  intro ca' hca' hadded hkey'
  obtain ⟨ca, hca, hid, hkey, hstatus⟩ := hsame ca' hca'
  have hold := h ca hca (by rwa [AddedBy, hid]) (hkey.trans hkey')
  rw [Restricted, ApprovedByAnother, hstatus, hid] at hold
  rw [Restricted, ApprovedByAnother, hallowed, happroved]
  exact hold

/-- an approval releases the CA it approves, and no other -/
theorem Held.approve (h : Held r s t) (aenv : Auth.Env) {admin : Auth.User} (hadmin : admin.id ≠ r.creator) (caId : ℤ) :
    Held r s (t.approve env aenv admin caId) := by
  unfold Server.approve
  split
  · exact h
  split_ifs
  · exact h
  · exact h
  intro ca' hca' hadded hkey'
  obtain ⟨ca1, hca1, hid1, hkey1, hstatus1⟩ := sameColumns_publishInitialCrl _ _ _ ca' hca'
  by_cases hthis : ca'.id = caId
  · refine Or.inr ⟨admin.id, hadmin, ?_⟩
    simp [Server.stamp, hthis]
  · obtain ⟨ca, hca, rfl⟩ := mem_updateCa.1 hca1
    have hne : ca.id ≠ caId := by
      intro heq
      rw [if_pos heq] at hid1
      exact hthis (hid1.symm.trans heq)
    rw [if_neg hne] at hid1 hkey1 hstatus1
    have hold := h ca hca (by rwa [AddedBy, hid1]) (hkey1.trans hkey')
    rw [Restricted, ApprovedByAnother, hstatus1, hid1] at hold
    simpa [Restricted, ApprovedByAnother, Server.stamp, hthis] using hold

/-- what a request without a reason to wait keeps -/
def Released (r : CreateRequest) (s : Server) (p : Progress) : Prop :=
  Keyless s p.server ∨ (Held r s p.server ∧ Commit.approval ∉ p.left)

theorem Released.held {p : Progress} (h : Released r s p) : Held r s p.server := by
  rcases h with hkeyless | ⟨hheld, _⟩
  · exact hkeyless.held
  · exact hheld

theorem Released.move {p : Progress} (h : Released r s p) (m : Move r.creator) : Released r s (move r p m) := by
  rcases h with hkeyless | ⟨hheld, hleft⟩
  · refine Or.inl (hkeyless.of_sameKeys ?_)
    cases m with
    | commit env =>
      unfold Pki.move
      simp only
      split
      · exact (SameColumns.refl _).sameKeys
      · exact Commit.sameKeys _ _ _
    | abort => exact (SameColumns.refl _).sameKeys
    | approve env aenv admin caId => exact Server.approve_sameKeys aenv _ caId
  · refine Or.inr ?_
    cases m with
    | commit env =>
      unfold Pki.move
      simp only
      cases hp : p.left with
      | nil => exact ⟨hheld, hleft⟩
      | cons c rest =>
        rw [hp] at hleft
        refine ⟨?_, fun hin => hleft (List.mem_cons_of_mem c hin)⟩
        cases c with
        | approval => exact absurd List.mem_cons_self hleft
        | initialCrl =>
          exact hheld.of_sameColumns (sameColumns_publishInitialCrl env _ _) (fun _ => rfl) fun _ => rfl
        | allowList =>
          -- the list is the one the columns have already
          intro ca hca hadded hkey
          have hold := hheld ca hca hadded hkey
          by_cases hthis : ca.id = p.caId
          · simp only [Restricted, ApprovedByAnother, Commit.apply, Server.stamp, hthis, Function.update_self] at hold ⊢
            rcases hold with hrestricted | happroved
            · exact Or.inl ⟨hrestricted.1, trivial⟩
            · exact Or.inr happroved
          · simpa [Restricted, ApprovedByAnother, Commit.apply, Server.stamp, hthis] using hold
    | abort => exact ⟨hheld, List.not_mem_nil⟩
    | approve env aenv admin caId => exact ⟨hheld.approve aenv admin.2 caId, hleft⟩

end Moves

/-! ## The result -/

section Result

variable {lib : Lib} {env : Env} {aenv : Auth.Env} {r : CreateRequest} {s : Server} {p : Progress}

/-- refused before anything is committed -/
def Refused (lib : Lib) (env : Env) (r : CreateRequest) (s : Server) : Prop :=
  ∃ e, addRows lib env .pending s.db r.material = .error e

/-- no CA that can sign, or a generated one that any profile may use -/
def NothingToWaitFor (r : CreateRequest) : Prop :=
  r.material.keyed = false ∨ (r.material.generated = true ∧ allowList r.allowedProfiles = none)

/-- a new row is not one of the earlier rows -/
theorem addedBy_new {s1 : Db} {n : NewCa} (hgrown : GrownKeyless s.db s1) : AddedBy s (n.row s1.cas.nextKey) := by
  rw [AddedBy, Table.get?_eq_none]
  intro ca hca
  exact (Table.key_lt_nextKey (hgrown.kept ca hca)).ne

theorem addedBy_of_mem {s1 : Db} {ca : CaRow} (hadded : AddedBy s ca) (hgrown : GrownKeyless s.db s1) (h : ca ∈ s1.cas) :
    ca.hasSigningKey = false := by
  rcases hgrown.added ca h with hold | hkey
  · rw [AddedBy, Table.get?_key hold] at hadded
    cases hadded
  · exact hkey

/-- after the first commit an added CA has no allow-list, and nobody has approved it -/
theorem restricted_start {t : Server} {ca : CaRow} (hadded : AddedBy s ca) (ht : t.stamps = s.withNew .pending r) :
    Restricted r t ca ∨ ApprovedByAnother r t ca ↔ ca.approvalStatus = .pending ∧ allowList r.allowedProfiles = none := by
  have hstamp : t.stamps ca.id = newStamp .pending r := by
    rw [ht, Server.withNew, hadded]
    rfl
  have hlist : (newStamp .pending r).allowedProfiles = none := by
    cases hgen : r.material.generated <;> simp [newStamp, hgen, CaStamp.new]
  have happroved : (newStamp .pending r).approvedBy = none := by
    cases hgen : r.material.generated <;> simp [newStamp, hgen, CaStamp.new]
  simp [Restricted, ApprovedByAnother, hstamp, hlist, happroved, eq_comm]

/-- after the first commit, the new CAs are restricted exactly when there is nothing to wait for -/
theorem held_start (hactive : DualControl.isActive aenv s.ldap s.users = true) (h : start lib env aenv r s = .ok p) :
    (Held r s p.server → NothingToWaitFor r) ∧ (NothingToWaitFor r → Released r s p) := by
  have hpending : requestStatus aenv s = .pending := by rw [requestStatus, if_pos hactive]
  obtain ⟨db, caId, hadd, rfl⟩ := start_ok h
  rw [hpending] at hadd ⊢
  cases hgen : r.material.generated with
  | true =>
    obtain ⟨n, rfl, hkey, hstatus⟩ := addRows_generated hgen hadd
    have hnew : AddedBy s (n.row s.db.cas.nextKey) := addedBy_new .refl
    constructor
    · intro hheld
      have hrow := hheld _ (mem_insertCa.2 (Or.inr rfl)) hnew hkey
      exact Or.inr ⟨hgen, ((restricted_start hnew rfl).1 hrow).2⟩
    · intro hnothing
      have hnone : allowList r.allowedProfiles = none := by
        rcases hnothing with hkeyless | ⟨_, hnone⟩
        · cases hm : r.material <;> simp [hm, Material.keyed, Material.generated] at hkeyless hgen
        · exact hnone
      refine Or.inr ⟨fun ca hca hadded hkey => ?_, by simp [Material.rest, hgen]⟩
      refine (restricted_start hadded rfl).2 ⟨?_, hnone⟩
      rcases mem_insertCa.1 hca with hold | rfl
      · rw [addedBy_of_mem hadded .refl hold] at hkey
        cases hkey
      · exact hstatus
  | false =>
    obtain ⟨s1, n, hgrown, rfl, hkey, hstatus⟩ := addRows_imported hgen hadd
    have hnew : AddedBy s (n.row s1.cas.nextKey) := addedBy_new hgrown
    constructor
    · intro hheld
      refine Or.inl ?_
      by_contra hkeyed
      have hrow := hheld _ (mem_insertCa.2 (Or.inr rfl)) hnew (hkey.trans (by simpa using hkeyed))
      have hpend : n.approvalStatus = .pending := ((restricted_start hnew rfl).1 hrow).1
      rw [hstatus] at hpend
      cases hpend
    · intro hnothing
      refine Or.inl fun ca hca hadded => ?_
      rcases mem_insertCa.1 hca with hold | rfl
      · exact addedBy_of_mem hadded hgrown hold
      · rcases hnothing with hkeyless | ⟨hgenerated, _⟩
        · exact hkey.trans hkeyless
        · rw [hgen] at hgenerated
          cases hgenerated

/-- **Restricted from the first row on.** While dual control is active, every CA with a key that a request adds is pending,
with its allow-list, in every state that the request commits and until another admin approves it, exactly when the
request is refused before its first commit or has nothing to wait for. -/
theorem held_iff (hactive : DualControl.isActive aenv s.ldap s.users = true) :
    (∀ t, Committed lib env aenv r s t → Held r s t) ↔ Refused lib env r s ∨ NothingToWaitFor r := by
  have hpending : requestStatus aenv s = .pending := by rw [requestStatus, if_pos hactive]
  constructor
  · intro hheld
    cases hadd : addRows lib env .pending s.db r.material with
    | error e => exact Or.inl ⟨e, hadd⟩
    | ok x =>
      have hstart : ∃ p, start lib env aenv r s = .ok p := by
        rw [start, hpending, hadd]
        exact ⟨_, rfl⟩
      obtain ⟨p, hp⟩ := hstart
      exact Or.inr ((held_start hactive hp).1 (hheld p.server ⟨p, hp, [], rfl⟩))
  · rintro hcond t ⟨p, hp, moves, rfl⟩
    obtain ⟨db, caId, hadd, _⟩ := start_ok hp
    rw [hpending] at hadd
    rcases hcond with ⟨e, he⟩ | hnothing
    · rw [hadd] at he
      cases he
    · have hreleased := @run_invariant _ _ (move r) (Released r s) (fun q m hq => hq.move m) p
        ((held_start hactive hp).2 hnothing) moves
      exact hreleased.held

end Result

/-- a server with two admins, dual control on -/
def sampleServer : Server := ⟨Db.empty, fun _ => CaStamp.new, Auth.sampleAdmins, none⟩

/-- the first admin imports a root with its key -/
def keyedImport : CreateRequest :=
  ⟨1, .pem ⟨"root".toList, [sampleCertificate "root" "root" 16 0 (3650 * day)], some "root".toList, none, .approved⟩,
    some [1]⟩

/-- the first admin creates a root, without an allow-list -/
def generatedRoot : CreateRequest :=
  ⟨1, .root ⟨"root".toList, "root".toList, "root".toList, 3650, none, none, .approved, 16, "root".toList⟩, none⟩

/-- a generated root has nothing to wait for: it is committed with its key, and pending from then on -/
theorem held_iff_generated : DualControl.isActive (Auth.Env.at 0) sampleServer.ldap sampleServer.users = true ∧
    (start sampleLib (Env.at 0) (Auth.Env.at 0) generatedRoot sampleServer).toOption.map
        (fun p => p.server.db.cas.rows.map fun ca => (ca.hasSigningKey, ca.approvalStatus)) = some [(true, .pending)] ∧
    ∀ t, Committed sampleLib (Env.at 0) (Auth.Env.at 0) generatedRoot sampleServer t → Held generatedRoot sampleServer t :=
  ⟨by decide +kernel, by decide +kernel, (held_iff (by decide +kernel)).2 (Or.inr (Or.inr ⟨rfl, rfl⟩))⟩

/-- the first commit of the import -/
def keyedImportStart : Except PyError Progress := start sampleLib (Env.at 0) (Auth.Env.at 0) keyedImport sampleServer

/-- **The imported CA can sign.** Dual control is active, and the first committed state has an approved CA with a key that
nobody has approved. -/
theorem imported_key_is_usable :
    DualControl.isActive (Auth.Env.at 0) sampleServer.ldap sampleServer.users = true ∧
      ∃ t, Committed sampleLib (Env.at 0) (Auth.Env.at 0) keyedImport sampleServer t ∧
        (∃ ca ∈ t.db.cas, ca.signingCapable = true) ∧ ¬ Held keyedImport sampleServer t := by
  have hcommitted : keyedImportStart.toOption.any (fun p => p.server.db.cas.rows.any (·.signingCapable)) = true := by
    decide +kernel
  obtain ⟨p, hp, hsign⟩ := (Option.any_eq_true _ _).1 hcommitted
  have hstart : start sampleLib (Env.at 0) (Auth.Env.at 0) keyedImport sampleServer = .ok p := by
    show keyedImportStart = .ok p
    cases h : keyedImportStart with
    | error e =>
      rw [h] at hp
      cases hp
    | ok q =>
      rw [h] at hp
      cases hp
      rfl
  obtain ⟨ca, hca, hcapable⟩ := List.any_eq_true.1 hsign
  refine ⟨by decide +kernel, p.server, ⟨p, hstart, [], rfl⟩, ⟨ca, hca, hcapable⟩, fun hheld => ?_⟩
  have hnothing := (held_start (by decide +kernel) hstart).1 hheld
  rcases hnothing with hkeyless | ⟨hgenerated, _⟩
  · cases hkeyless
  · cases hgenerated

end Chancery.Pki
