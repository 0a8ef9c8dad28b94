/-
Revocation over the CA hierarchy: every run of requests, any hierarchy to start with.

(1) `revocation_cascades`: in every reachable state, a revoked CA has only revoked CAs below it, and it and they have only
revoked certificates. Every request that adds a CA or a certificate looks at the CA above it when it commits: what is
prepared (a CSR, a pending re-issue) and committed after a revocation is looked at then.
(2) In every such state `revoke_ca` ends, with the CRLs published afterwards or without: the sweep whatever the graph of CAs
looks like, the publication on a forest. The CA and what of its subtree was not revoked end revoked. A CA outside the
subtree is as it was, its parent but for the CRL published on it; a CA that was revoked already keeps every column but its
CRL; a certificate outside the subtree, or revoked already, keeps every column.
(3) `revoke_publishes_parent`: the parent's row does change.
-/
import Mathlib.Tactic
import Chancery.Routes.CaEffects

namespace Chancery.Pki

open Chancery.Core Relation

variable {lib : Lib} {env : Env} {allow : Liberty → Prop} {s s' : Db} {ca : CaRow}

/-! ## Every write keeps the cascade -/

theorem mem_cas_iff {b : CaRow} : b ∈ s.cas ↔ s.cas.get? b.id = some b :=
  ⟨Table.get?_key, Table.mem_of_get?⟩

/-- revoked or not, an id is that of one CA -/
theorem not_revoked_of_live {caId : ℤ} (h : Live s caId) {a : CaRow} (ha : a ∈ s.cas) (hid : a.id = caId) :
    a.isRevoked = false := by
  obtain ⟨b, hb, hlive⟩ := h
  rw [← hid, Table.get?_key ha] at hb
  cases hb
  exact hlive

theorem Cascaded.congr (h : Cascaded s) (hcas : s'.cas = s.cas) (hleaves : s'.leaves = s.leaves) : Cascaded s' := by
  constructor
  · rw [hcas]
    exact h.cas
  · rw [hcas, hleaves]
    exact h.leaves

/-- an update of other columns -/
theorem Cascaded.updateCa (h : Cascaded s) {caId : ℤ} {f : CaRow → CaRow} {hf : ∀ a, (f a).id = a.id}
    (hparent : ∀ a, (f a).parentId = a.parentId) (hrevoked : ∀ a, (f a).isRevoked = a.isRevoked) :
    Cascaded (s.updateCa caId f hf) := by
  have hold : ∀ b ∈ (s.updateCa caId f hf).cas, ∃ a ∈ s.cas, a.id = b.id ∧ a.parentId = b.parentId ∧
      a.isRevoked = b.isRevoked := by
    intro b hb
    obtain ⟨a, ha, rfl⟩ := mem_updateCa.1 hb
    refine ⟨a, ha, ?_⟩
    split_ifs
    · exact ⟨(hf a).symm, (hparent a).symm, (hrevoked a).symm⟩
    · exact ⟨rfl, rfl, rfl⟩
  constructor
  · intro b hb hrev sub hsub hp
    obtain ⟨a, ha, hid, _, hr⟩ := hold b hb
    obtain ⟨c, hc, _, hpc, hrc⟩ := hold sub hsub
    rw [← hrc]
    exact h.cas a ha (hr.trans hrev) c hc (by rw [hpc, hp, hid])
  · intro b hb hrev c hc hp
    obtain ⟨a, ha, hid, _, hr⟩ := hold b hb
    exact h.leaves a ha (hr.trans hrev) c hc (hp.trans hid.symm)

theorem Cascaded.insertCa (h : Cascaded s) {n : NewCa} (hparent : ∀ p, n.parentId = some p → Live s p) :
    Cascaded (s.insertCa n) := by
  constructor
  · intro a ha hrev sub hsub hp
    rcases mem_insertCa.1 ha with ha | rfl
    swap
    · cases hrev
    rcases mem_insertCa.1 hsub with hsub | rfl
    · exact h.cas a ha hrev sub hsub hp
    · have hlive := not_revoked_of_live (hparent a.id hp) ha rfl
      rw [hrev] at hlive
      cases hlive
  · intro a ha hrev c hc hp
    rcases mem_insertCa.1 ha with ha | rfl
    · exact h.leaves a ha hrev c hc hp
    · cases hrev

theorem Cascaded.insertLeaf (h : Cascaded s) {mk : ℤ → LeafRow} {hmk : ∀ k, (mk k).id = k} {caId : ℤ}
    (hca : ∀ k, (mk k).caId = caId) (hlive : Live s caId) :
    Cascaded { s with leaves := s.leaves.insert mk hmk } := by
  refine ⟨h.cas, ?_⟩
  have hrows : ∀ c, c ∈ s.leaves.insert mk hmk → c ∈ s.leaves ∨ c = mk s.leaves.nextKey := fun c hc => by
    simpa [Table.mem_def] using hc
  intro a ha hrev c hc hp
  rcases hrows c hc with hc | rfl
  · exact h.leaves a ha hrev c hc hp
  · have hl := not_revoked_of_live hlive ha (by rw [← hp, hca])
    rw [hrev] at hl
    cases hl

theorem Cascaded.revokeLeaf (h : Cascaded s) {certId : ℤ} {now : DateTime} {reason : String} :
    Cascaded (s.updateLeaf certId (revokeLeafRow now reason) revokeLeafRow_id) := by
  refine ⟨h.cas, ?_⟩
  intro a ha hrev c hc hp
  obtain ⟨b, hb, rfl⟩ := List.mem_map.1 hc
  split_ifs at hp ⊢
  · rfl
  · exact h.leaves a ha hrev b hb hp

/-- **The sweep.** What it revokes has nothing unrevoked under it. -/
theorem Cascaded.revokeAll (h : Cascaded s) {now : DateTime} {reason : String} {caId : ℤ} {l : List ℤ}
    (hl : SweptCas s caId l) : Cascaded (revokeAll now reason s l) := by
  -- a CA of the list was in the table, an other one is as it was
  have hrow : ∀ b ∈ (Pki.revokeAll now reason s l).cas, ∃ a ∈ s.cas, a.id = b.id ∧ a.parentId = b.parentId ∧
      (b.id ∈ l ∧ b.isRevoked = true ∨ b.id ∉ l ∧ b = a) := by
    intro b hb
    have hget := mem_cas_iff.1 hb
    rw [get?_revokeAll] at hget
    by_cases hin : b.id ∈ l
    · rw [if_pos hin] at hget
      obtain ⟨a, ha, hab⟩ := Option.map_eq_some_iff.1 hget
      refine ⟨a, Table.mem_of_get? ha, Table.key_of_get? ha, by rw [← hab]; rfl, Or.inl ⟨hin, by rw [← hab]; rfl⟩⟩
    · rw [if_neg hin] at hget
      exact ⟨b, Table.mem_of_get? hget, rfl, rfl, Or.inr ⟨hin, rfl⟩⟩
  constructor
  · intro b hb hrev sub hsub hp
    obtain ⟨a, ha, hid, _, hcase⟩ := hrow b hb
    obtain ⟨c, hc, hidc, hpc, hsubcase⟩ := hrow sub hsub
    rcases hsubcase with ⟨_, hdone⟩ | ⟨hout, rfl⟩
    · exact hdone
    rcases hcase with ⟨hin, _⟩ | ⟨_, rfl⟩
    · have hchild : sub.id ∈ s.children b.id := mem_children.2 ⟨sub, hc, hp, rfl⟩
      rcases hl.closed b.id hin sub.id hchild with hmarked | hmem
      · exact (caRevoked_of_get? (Table.get?_key hc)).symm.trans hmarked
      · exact absurd hmem hout
    · exact h.cas b ha hrev sub hc hp
  · intro b hb hrev c' hc' hp
    have hget := Table.get?_key hc'
    rw [get?_leaves_revokeAll] at hget
    obtain ⟨c, hc, rfl⟩ := Option.map_eq_some_iff.1 hget
    have hca : c.caId = b.id := by
      rw [← hp]
      unfold sweepLeaf
      split_ifs <;> rfl
    unfold sweepLeaf
    split_ifs with hcond
    · rfl
    · obtain ⟨a, ha, _, _, hcase⟩ := hrow b hb
      rcases hcase with ⟨hin, _⟩ | ⟨_, rfl⟩
      · by_contra hn
        exact hcond ⟨by rwa [hca], by simpa using hn⟩
      · exact h.leaves b ha hrev c (Table.mem_of_get? hc) hca

theorem Effect.cascaded (h : Effect env allow s s') (hs : Cascaded s) : Cascaded s' := by
  cases h with
  | insertCa n hparent hcert => exact hs.insertCa hparent
  | setApproval status hca hpending => exact hs.updateCa (fun _ => rfl) fun _ => rfl
  | setAcme enable hca => exact hs.updateCa (fun _ => rfl) fun _ => rfl
  | @promote ca row hca _ _ _ hrevoked =>
    have hcas : Cascaded (s.updateCa ca.id (promoted row)) := hs.updateCa (fun _ => rfl) fun _ => rfl
    exact hcas.congr rfl rfl
  | insertAlternate n _ hrevoked => exact hs.congr rfl rfl
  | approveAlternate altId => exact hs.congr rfl rfl
  | deleteAlternate altId => exact hs.congr rfl rfl
  | csrs t => exact hs.congr rfl rfl
  | @insertLeaf ca form issued escrowed renewedFrom notAfter hca hlive =>
    exact hs.insertLeaf (fun _ => rfl) ⟨ca, hca, hlive⟩
  | revokeLeaf reason hc hrev => exact hs.revokeLeaf
  | sweep reason hl hallow => exact hs.revokeAll hl
  | publish hca hsign hcrl hfinal => exact hs.updateCa (fun _ => rfl) fun _ => rfl

theorem Effects.cascaded (h : Effects env allow s s') (hs : Cascaded s) : Cascaded s' := by
  induction h with
  | refl => exact hs
  | tail _ heffect ih => exact heffect.cascaded ih

/-- **Every request keeps the cascade.** -/
theorem step_cascaded (lib : Lib) (o : Env × Request) (hs : Cascaded s) : Cascaded (step lib s o) := by
  have heffects : Effects o.1 (fun _ => True) s (step lib s o) :=
    step_effects (fun _ _ => trivial) fun h => absurd trivial h
  exact Effects.cascaded heffects hs

/-! ## Every write keeps the forest -/

/-- other columns of the same CAs -/
theorem Forest.congr (h : Forest s) (hrows : ∀ b ∈ s'.cas, ∃ a ∈ s.cas, a.id = b.id ∧ a.parentId = b.parentId)
    (hkept : ∀ a ∈ s.cas, ∃ b, s'.cas.get? a.id = some b) : Forest s' where
  parents := by
    intro sub hsub p hp
    obtain ⟨a, ha, _, hparent⟩ := hrows sub hsub
    obtain ⟨parent, hget⟩ := h.parents a ha p (hparent.trans hp)
    rw [← Table.key_of_get? hget]
    exact hkept parent (Table.mem_of_get? hget)
  depth := by
    obtain ⟨depth, hdepth⟩ := h.depth
    refine ⟨depth, ?_⟩
    intro sub hsub p hp
    obtain ⟨a, ha, hid, hparent⟩ := hrows sub hsub
    rw [← hid]
    exact hdepth a ha p (hparent.trans hp)

theorem Forest.updateCa (h : Forest s) {caId : ℤ} {f : CaRow → CaRow} {hf : ∀ a, (f a).id = a.id}
    (hparent : ∀ a, (f a).parentId = a.parentId) : Forest (s.updateCa caId f hf) := by
  refine h.congr (fun b hb => ?_) fun a ha => ?_
  · obtain ⟨a, ha, rfl⟩ := mem_updateCa.1 hb
    refine ⟨a, ha, ?_⟩
    split_ifs
    · exact ⟨(hf a).symm, (hparent a).symm⟩
    · exact ⟨rfl, rfl⟩
  · rw [get?_updateCa, Table.get?_key ha]
    split_ifs
    · exact ⟨_, rfl⟩
    · exact ⟨_, rfl⟩

theorem Forest.revokeAll (h : Forest s) {now : DateTime} {reason : String} {l : List ℤ} :
    Forest (revokeAll now reason s l) := by
  refine h.congr (fun b hb => ?_) fun a ha => ?_
  · have hget := mem_cas_iff.1 hb
    rw [get?_revokeAll] at hget
    split_ifs at hget
    · obtain ⟨a, ha, hab⟩ := Option.map_eq_some_iff.1 hget
      exact ⟨a, Table.mem_of_get? ha, Table.key_of_get? ha, by rw [← hab]; rfl⟩
    · exact ⟨b, Table.mem_of_get? hget, rfl, rfl⟩
  · rw [get?_revokeAll, Table.get?_key ha]
    split_ifs
    · exact ⟨_, rfl⟩
    · exact ⟨_, rfl⟩

/-- a new CA is below its parent, and nothing is below it yet -/
theorem Forest.insertCa (h : Forest s) {n : NewCa} (hparent : ∀ p, n.parentId = some p → Live s p) :
    Forest (s.insertCa n) := by
  -- the parents that occur are old
  have hexists : ∀ sub ∈ (s.insertCa n).cas, ∀ p, sub.parentId = some p → ∃ a, s.cas.get? p = some a := by
    intro sub hsub p hp
    rcases mem_insertCa.1 hsub with hsub | rfl
    · exact h.parents sub hsub p hp
    · obtain ⟨a, ha, _⟩ := hparent p hp
      exact ⟨a, ha⟩
  constructor
  · intro sub hsub p hp
    obtain ⟨a, ha⟩ := hexists sub hsub p hp
    exact ⟨a, get?_insertCa_of_some ha⟩
  · obtain ⟨depth, hdepth⟩ := h.depth
    let below : ℕ := (n.parentId.map fun p => depth p + 1).getD 0
    refine ⟨fun i => if i = s.cas.nextKey then below else depth i, ?_⟩
    intro sub hsub p hp
    obtain ⟨a, ha⟩ := hexists sub hsub p hp
    have hpne : p ≠ s.cas.nextKey := by
      intro heq
      rw [heq, Table.get?_nextKey] at ha
      cases ha
    simp only [if_neg hpne]
    rcases mem_insertCa.1 hsub with hsub | rfl
    · rw [if_neg (Table.key_lt_nextKey hsub).ne]
      exact hdepth sub hsub p hp
    · have hnp : n.parentId = some p := hp
      have hbelow : below = depth p + 1 := by simp [below, hnp]
      rw [if_pos (show (n.row s.cas.nextKey).id = s.cas.nextKey from rfl), hbelow]
      omega

theorem Effect.forest (h : Effect env allow s s') (hs : Forest s) : Forest s' := by
  cases h with
  | insertCa n hparent hcert => exact hs.insertCa hparent
  | setApproval status hca hpending => exact hs.updateCa fun _ => rfl
  | setAcme enable hca => exact hs.updateCa fun _ => rfl
  | @promote ca row hca _ _ _ hrevoked =>
    have hcas : Forest (s.updateCa ca.id (promoted row)) := hs.updateCa fun _ => rfl
    exact ⟨hcas.parents, hcas.depth⟩
  | insertAlternate n _ hrevoked => exact ⟨hs.parents, hs.depth⟩
  | approveAlternate altId => exact ⟨hs.parents, hs.depth⟩
  | deleteAlternate altId => exact ⟨hs.parents, hs.depth⟩
  | csrs t => exact ⟨hs.parents, hs.depth⟩
  | insertLeaf form issued escrowed renewedFrom notAfter hca hlive => exact ⟨hs.parents, hs.depth⟩
  | revokeLeaf reason hc hrev => exact ⟨hs.parents, hs.depth⟩
  | sweep reason hl hallow => exact hs.revokeAll
  | publish hca hsign hcrl hfinal => exact hs.updateCa fun _ => rfl

theorem Effects.forest (h : Effects env allow s s') (hs : Forest s) : Forest s' := by
  induction h with
  | refl => exact hs
  | tail _ heffect ih => exact heffect.forest ih

theorem Effects.tidy (h : Effects env allow s s') (hs : Tidy s) : Tidy s' :=
  ⟨Effects.cascaded h hs.cascaded, Effects.forest h hs.forest⟩

/-- **Every request keeps the forest.** -/
theorem step_forest (lib : Lib) (o : Env × Request) (hs : Forest s) : Forest (step lib s o) := by
  have heffects : Effects o.1 (fun _ => True) s (step lib s o) :=
    step_effects (fun _ _ => trivial) fun h => absurd trivial h
  exact Effects.forest heffects hs

/-! ## Descendants -/

/-- `j` is the CA `i` or below it -/
def Descends (s : Db) (i j : ℤ) : Prop := ReflTransGen (fun a b => b ∈ s.children a) i j

/-- the CAs below a revoked CA are revoked -/
theorem Cascaded.descendant (h : Cascaded s) {a : CaRow} (ha : a ∈ s.cas) (hrev : a.isRevoked = true) {j : ℤ}
    (hj : Descends s a.id j) : ∃ d ∈ s.cas, d.id = j ∧ d.isRevoked = true := by
  induction hj with
  | refl => exact ⟨a, ha, rfl, hrev⟩
  | tail _ hchild ih =>
    obtain ⟨d, hd, hid, hdrev⟩ := ih
    obtain ⟨sub, hsub, hparent, hsubid⟩ := mem_children.1 hchild
    exact ⟨sub, hsub, hsubid, h.cas d hd hdrev sub hsub (by rw [hparent, hid])⟩

/-- what a revocation reaches is in the subtree -/
theorem SweptCas.descends {caId : ℤ} {l : List ℤ} (hl : SweptCas s caId l) {j : ℤ} (hj : j ∈ l) : Descends s caId j := by
  obtain ⟨i, hi, _, hwalk⟩ := hl.reached j hj
  rw [← List.mem_singleton.1 hi]
  exact hwalk.lift id fun _ _ hinto => hinto.1

/-- nothing outside the subtree of `caId`, and nothing that was revoked already, differs -/
structure Within (s : Db) (caId : ℤ) (s' : Db) : Prop where
  cas : ∀ a ∈ s.cas, ¬ Descends s caId a.id ∨ a.isRevoked = true → s'.cas.get? a.id = some a
  leaves : ∀ c ∈ s.leaves, ¬ Descends s caId c.caId ∨ c.isRevoked = true → s'.leaves.get? c.id = some c
  alternates : s'.alternates = s.alternates
  csrs : s'.csrs = s.csrs

/-- **Frame.** -/
theorem within_revokeAll {now : DateTime} {reason : String} {caId : ℤ} {l : List ℤ} (hl : SweptCas s caId l) :
    Within s caId (revokeAll now reason s l) where
  cas := by
    intro a ha hcase
    have hout : a.id ∉ l := by
      intro hin
      rcases hcase with hfar | hrev
      · exact hfar (SweptCas.descends hl hin)
      · have hfresh : s.caRevoked a.id = false := hl.fresh a.id hin
        rw [caRevoked_of_get? (Table.get?_key ha), hrev] at hfresh
        cases hfresh
    rw [get?_revokeAll, if_neg hout]
    exact Table.get?_key ha
  leaves := by
    intro c hc hcase
    have hout : ¬ (c.caId ∈ l ∧ c.isRevoked = false) := by
      rintro ⟨hin, hactive⟩
      rcases hcase with hfar | hrev
      · exact hfar (SweptCas.descends hl hin)
      · rw [hrev] at hactive
        cases hactive
    have hget : s.leaves.get? c.id = some c := Table.get?_key hc
    rw [get?_leaves_revokeAll, hget, Option.map_some, sweepLeaf, if_neg hout]
  alternates := alternates_revokeAll
  csrs := csrs_revokeAll

/-- what a revocation reaches on a cascade: the subtree, but for what is revoked already -/
theorem SweptCas.covers_descendant (hs : Cascaded s) {l : List ℤ} (hl : SweptCas s ca.id l)
    (hca : s.cas.get? ca.id = some ca) {j : ℤ} (hj : Descends s ca.id j) :
    j ∈ l ∨ ∃ a, s.cas.get? j = some a ∧ a.isRevoked = true := by
  have hmarked : ∀ a, s.cas.get? a.id = some a → s.caRevoked a.id = true → ∃ b, s.cas.get? a.id = some b ∧
      b.isRevoked = true := by
    intro a ha hrev
    exact ⟨a, ha, (caRevoked_of_get? ha).symm.trans hrev⟩
  induction hj with
  | refl => exact (hl.covers ca.id (List.mem_singleton.2 rfl)).symm.imp_right (hmarked ca hca)
  | @tail b c _ hchild ih =>
    obtain ⟨sub, hsub, hparent, hid⟩ := mem_children.1 hchild
    rw [← hid] at hchild ⊢
    obtain hin | ⟨a, ha, hrev⟩ := ih
    · exact (hl.closed b hin sub.id hchild).symm.imp_right (hmarked sub (Table.get?_key hsub))
    · have hsubrev := hs.cas a (Table.mem_of_get? ha) hrev sub hsub (by rw [hparent, Table.key_of_get? ha])
      exact Or.inr ⟨sub, Table.get?_key hsub, hsubrev⟩

/-! ## The publication -/

section Publication

variable {caId i : ℤ} {ids : List ℤ}

theorem get?_generateCrl_of_ne {nextUpdate : Option DateTime} (hne : i ≠ ca.id)
    (h : generateCrl env ca nextUpdate s = .ok s') : s'.cas.get? i = s.cas.get? i := by
  obtain ⟨_, crl, _, rfl⟩ := generateCrl_ok h
  exact get?_updateCa_of_ne hne

theorem get?_refreshCrl_of_ne {ca? : Option CaRow} (hne : ∀ ca ∈ ca?, i ≠ ca.id) (h : refreshCrl env ca? s = .ok s') :
    s'.cas.get? i = s.cas.get? i := by
  unfold refreshCrl at h
  cases ca? with
  | none =>
    cases h
    rfl
  | some ca =>
    simp only at h
    split_ifs at h
    · cases h
      rfl
    · exact get?_generateCrl_of_ne (hne ca rfl) h

theorem get?_publishFinalCrl_of_ne {ca? : Option CaRow} (hne : ∀ ca ∈ ca?, i ≠ ca.id)
    (h : publishFinalCrl env ca? s = .ok s') : s'.cas.get? i = s.cas.get? i := by
  unfold publishFinalCrl at h
  cases ca? with
  | none =>
    cases h
    rfl
  | some ca =>
    simp only at h
    split_ifs at h
    · cases h
      rfl
    · cases h
      rfl
    · exact get?_generateCrl_of_ne (hne ca rfl) h

theorem get?_publishFinalCrls (hi : i ∉ ids) : (publishFinalCrls env ids s).1.cas.get? i = s.cas.get? i := by
  induction ids generalizing s with
  | nil => rfl
  | cons j ids ih =>
    rw [List.mem_cons, not_or] at hi
    rw [publishFinalCrls]
    cases h : publishFinalCrl env (s.cas.get? j) s with
    | error e => rfl
    | ok s1 =>
      apply (ih hi.2).trans
      refine get?_publishFinalCrl_of_ne (fun ca hca => ?_) h
      rw [Table.key_of_get? hca]
      exact hi.1

theorem descends_of_mem_revokedSubtree (h : revokedSubtree s caId = some ids) (hi : i ∈ ids) : Descends s caId i :=
  ((mem_collect h).1 hi).lift id fun _ _ hchild => hchild.1

/-- **What is published:** CRLs of the subtree and of the parent. -/
theorem get?_publishRevocationCrls (hout : ¬ Descends s caId i)
    (hparent : (s.cas.get? caId).bind (·.parentId) ≠ some i) :
    (publishRevocationCrls env caId s).1.cas.get? i = s.cas.get? i := by
  unfold publishRevocationCrls
  cases hr : refreshCrl env (((s.cas.get? caId).bind (·.parentId)).bind s.cas.get?) s with
  | error e => rfl
  | ok s1 =>
    have hrow : s1.cas.get? i = s.cas.get? i := by
      refine get?_refreshCrl_of_ne (fun ca hca => ?_) hr
      obtain ⟨p, hp, hget⟩ := Option.bind_eq_some_iff.1 hca
      rw [Table.key_of_get? hget]
      rintro rfl
      exact hparent hp
    have hchildren : s1.children = s.children := by
      rw [← children_withoutCrls, withoutCrls_refreshCrl hr, children_withoutCrls]
    simp only
    cases hids : revokedSubtree s1 caId with
    | none => exact hrow
    | some ids =>
      refine (get?_publishFinalCrls fun hi => hout ?_).trans hrow
      have hbelow := descends_of_mem_revokedSubtree hids hi
      rwa [Descends, hchildren] at hbelow

/-- `_revoked_subtree` ends on a forest -/
theorem Forest.revokedSubtree (h : Forest s) (caId : ℤ) : ∃ ids, revokedSubtree s caId = some ids := by
  obtain ⟨depth, hdepth⟩ := h.depth
  have hnodes : ∀ j, ∀ c ∈ s.children j, c ∈ s.cas.rows.map (·.id) := by
    intro j c hc
    obtain ⟨sub, hsub, _, hid⟩ := mem_children.1 hc
    exact List.mem_map.2 ⟨sub, hsub, hid⟩
  have hdeeper : ∀ j, ∀ c ∈ s.children j, depth j < depth c := by
    intro j c hc
    obtain ⟨sub, hsub, hparent, rfl⟩ := mem_children.1 hc
    exact hdepth sub hsub j hparent
  refine collect_isSome depth hnodes hdeeper (Nat.lt_succ_of_le ?_)
  apply (List.length_filter_le _ _).trans
  rw [List.length_map]

/-- an error that a CRL was refused with -/
def CrlRefused (env : Env) (e : PyError) : Prop := ∃ ca nextUpdate s, generateCrl env ca nextUpdate s = .error e

theorem refreshCrl_error {ca? : Option CaRow} {e : PyError} (h : refreshCrl env ca? s = .error e) : CrlRefused env e := by
  unfold refreshCrl at h
  cases ca? with
  | none => cases h
  | some ca =>
    simp only at h
    split_ifs at h
    exact ⟨ca, none, s, h⟩

theorem publishFinalCrls_error {e : PyError} (h : (publishFinalCrls env ids s).2 = .error e) : CrlRefused env e := by
  induction ids generalizing s with
  | nil => cases h
  | cons j ids ih =>
    rw [publishFinalCrls] at h
    cases hone : publishFinalCrl env (s.cas.get? j) s with
    | ok s1 =>
      rw [hone] at h
      exact ih h
    | error e' =>
      rw [hone] at h
      cases h
      unfold publishFinalCrl at hone
      cases hca : s.cas.get? j with
      | none =>
        rw [hca] at hone
        cases hone
      | some ca =>
        rw [hca] at hone
        simp only at hone
        split_ifs at hone
        exact ⟨ca, some ca.notAfter, s, hone⟩

/-- **The publication ends** on a forest, unless a CRL is refused. -/
theorem publishRevocationCrls_error (hforest : Forest s) {e : PyError}
    (h : (publishRevocationCrls env caId s).2 = .error e) : CrlRefused env e := by
  unfold publishRevocationCrls at h
  cases hr : refreshCrl env (((s.cas.get? caId).bind (·.parentId)).bind s.cas.get?) s with
  | error e' =>
    rw [hr] at h
    cases h
    exact refreshCrl_error hr
  | ok s1 =>
    have hrefresh : Effects env (fun _ => True) s s1 := by
      refine effects_refreshCrl (fun ca hca => ?_) (fun _ _ _ => trivial) hr
      obtain ⟨p, _, hget⟩ := Option.bind_eq_some_iff.1 hca
      rwa [Table.key_of_get? hget]
    obtain ⟨ids, hids⟩ := (Effects.forest hrefresh hforest).revokedSubtree caId
    rw [hr] at h
    simp only [hids] at h
    exact publishFinalCrls_error h

end Publication

/-! ## The revocation -/

/-- what a revocation of `caId` makes of the tables -/
structure Revocation (s : Db) (now : DateTime) (caId : ℤ) (reason : String) (s' : Db) : Prop where
  /-- outside the subtree only the parent has another row -/
  outside : ∀ a ∈ s.cas, ¬ Descends s caId a.id → (s.cas.get? caId).bind (·.parentId) ≠ some a.id →
    s'.cas.get? a.id = some a
  /-- the parent, and what was revoked already, differ in their CRLs -/
  kept : ∀ a ∈ s.cas, ¬ Descends s caId a.id ∨ a.isRevoked = true → ∃ b, s'.cas.get? a.id = some b ∧ clearCrl b = clearCrl a
  revoked : ∀ a ∈ s.cas, Descends s caId a.id → a.isRevoked = false →
    ∃ b, s'.cas.get? a.id = some b ∧ clearCrl b = clearCrl (revokeCaRow now reason a)
  leavesKept : ∀ c ∈ s.leaves, ¬ Descends s caId c.caId ∨ c.isRevoked = true → s'.leaves.get? c.id = some c
  leavesRevoked : ∀ c ∈ s.leaves, Descends s caId c.caId → c.isRevoked = false →
    s'.leaves.get? c.id = some (revokeLeafRow now reason c)
  /-- no row is new -/
  casOld : ∀ b ∈ s'.cas, ∃ a ∈ s.cas, a.id = b.id
  leavesOld : ∀ c ∈ s'.leaves, ∃ a ∈ s.leaves, a.id = c.id
  alternates : s'.alternates = s.alternates
  csrs : s'.csrs = s.csrs

/-- the sweep -/
theorem revocation_revokeAll (hs : Cascaded s) {now : DateTime} {reason : String} {l : List ℤ}
    (hca : s.cas.get? ca.id = some ca) (hl : SweptCas s ca.id l) :
    Revocation s now ca.id reason (revokeAll now reason s l) where
  outside a ha hout _ := (within_revokeAll hl).cas a ha (Or.inl hout)
  kept a ha hcase := ⟨a, (within_revokeAll hl).cas a ha hcase, rfl⟩
  revoked := by
    intro a ha hbelow hlive
    have hin : a.id ∈ l := by
      apply (SweptCas.covers_descendant hs hl hca hbelow).resolve_right
      rintro ⟨b, hb, hrev⟩
      rw [Table.get?_key ha] at hb
      cases hb
      rw [hlive] at hrev
      cases hrev
    exact ⟨revokeCaRow now reason a, by rw [get?_revokeAll, if_pos hin, Table.get?_key ha, Option.map_some], rfl⟩
  leavesKept := (within_revokeAll hl).leaves
  leavesRevoked := by
    intro c hc hbelow hlive
    have hin : c.caId ∈ l := by
      apply (SweptCas.covers_descendant hs hl hca hbelow).resolve_right
      rintro ⟨a, ha, harev⟩
      have hcrev := hs.leaves a (Table.mem_of_get? ha) harev c hc (Table.key_of_get? ha).symm
      rw [hlive] at hcrev
      cases hcrev
    have hget : s.leaves.get? c.id = some c := Table.get?_key hc
    rw [get?_leaves_revokeAll, hget, Option.map_some, sweepLeaf, if_pos ⟨hin, hlive⟩]
  casOld := by
    intro b hb
    have hget := mem_cas_iff.1 hb
    rw [get?_revokeAll] at hget
    split_ifs at hget
    · obtain ⟨a, ha, _⟩ := Option.map_eq_some_iff.1 hget
      exact ⟨a, Table.mem_of_get? ha, Table.key_of_get? ha⟩
    · exact ⟨b, Table.mem_of_get? hget, rfl⟩
  leavesOld := by
    intro c hc
    have hget := Table.get?_key hc
    rw [get?_leaves_revokeAll] at hget
    obtain ⟨a, ha, _⟩ := Option.map_eq_some_iff.1 hget
    obtain ⟨hmem, hid⟩ := Table.get?_eq_some.1 ha
    exact ⟨a, hmem, hid⟩
  alternates := alternates_revokeAll
  csrs := csrs_revokeAll

/-- the CRLs that are published afterwards -/
theorem Revocation.published {now : DateTime} {reason : String} {caId : ℤ} {l : List ℤ}
    (h : Revocation s now caId reason (revokeAll now reason s l)) :
    Revocation s now caId reason (publishRevocationCrls env caId (revokeAll now reason s l)).1 := by
  have hclear : (publishRevocationCrls env caId (revokeAll now reason s l)).1.withoutCrls =
    (revokeAll now reason s l).withoutCrls := withoutCrls_publishRevocationCrls
  obtain ⟨hleaves, halternates, hcsrs⟩ := tables_of_withoutCrls hclear
  constructor
  · intro a ha hout hparent
    apply (get?_publishRevocationCrls ?_ ?_).trans (h.outside a ha hout hparent)
    · rwa [Descends, children_revokeAll]
    · rw [get?_revokeAll]
      split_ifs
      · cases hca : s.cas.get? caId with
        | none => simp
        | some ca =>
          rw [hca] at hparent
          exact hparent
      · exact hparent
  · intro a ha hcase
    obtain ⟨b, hb, hab⟩ := h.kept a ha hcase
    obtain ⟨c, hc, hbc⟩ := get?_of_withoutCrls hclear hb
    exact ⟨c, hc, hbc.trans hab⟩
  · intro a ha hbelow hlive
    obtain ⟨b, hb, hab⟩ := h.revoked a ha hbelow hlive
    obtain ⟨c, hc, hbc⟩ := get?_of_withoutCrls hclear hb
    exact ⟨c, hc, hbc.trans hab⟩
  · rw [hleaves]
    exact h.leavesKept
  · rw [hleaves]
    exact h.leavesRevoked
  · intro b hb
    obtain ⟨c, hc, _⟩ := get?_of_withoutCrls hclear.symm (mem_cas_iff.1 hb)
    obtain ⟨a, ha, hid⟩ := h.casOld c (Table.mem_of_get? hc)
    exact ⟨a, ha, hid.trans (Table.key_of_get? hc)⟩
  · rw [hleaves]
    exact h.leavesOld
  · exact halternates.trans h.alternates
  · exact hcsrs.trans h.csrs

/-- **What `revoke_ca` does**, with the CRLs or without. -/
theorem revokeCa_revocation (hs : Cascaded s) {refresh : Bool} {caId : ℤ} {reason : String}
    (hcheck : checkRevocable caId reason s = .ok ()) :
    Revocation s env.now caId reason (revokeCa env refresh caId reason s).1 := by
  obtain ⟨x, hx⟩ := sweepCa_ends env.now hcheck
  obtain ⟨_, l, hdb, hl⟩ := sweepCa_ok hx
  obtain ⟨_, ca, hca, _⟩ := checkRevocable_ok hcheck
  have hswept : Revocation s env.now caId reason (revokeAll env.now reason s l) := by
    have hid : ca.id = caId := Table.key_of_get? hca
    subst hid
    exact revocation_revokeAll hs hca hl
  simp only [revokeCa, hx, hdb]
  split_ifs
  · exact hswept.published
  · exact hswept

/-- **`revoke_ca` ends** on a forest: with its counters, or with the error a CRL was refused with. -/
theorem revokeCa_error (hs : Forest s) {refresh : Bool} {caId : ℤ} {reason : String}
    (hcheck : checkRevocable caId reason s = .ok ()) {e : PyError}
    (h : (revokeCa env refresh caId reason s).2 = .error e) : CrlRefused env e := by
  obtain ⟨x, hx⟩ := sweepCa_ends env.now hcheck
  obtain ⟨_, l, hdb, _⟩ := sweepCa_ok hx
  simp only [revokeCa, hx, hdb] at h
  split_ifs at h
  cases hp : (publishRevocationCrls env caId (revokeAll env.now reason s l)).2 with
  | ok u =>
    rw [hp] at h
    cases h
  | error e' =>
    rw [hp] at h
    cases h
    exact publishRevocationCrls_error hs.revokeAll hp

/-- the request commits what `revoke_ca` does when it publishes the CRLs itself -/
theorem revokeCaRequest_eq {caId : ℤ} {reason : String} (hchecks : env.checks = .ok ()) :
    (revokeCaRequest env caId reason s).1 = (revokeCa env true caId reason s).1 := by
  have hsweep : (env.checks >>= fun _ => sweepCa env.now caId reason s) = sweepCa env.now caId reason s := by
    rw [hchecks]
    rfl
  unfold revokeCaRequest revokeCa
  rw [hsweep]
  cases sweepCa env.now caId reason s <;> rfl

/-- **Revocation cascades and stays inside the subtree.** -/
theorem revocation_cascades (lib : Lib) {s₀ : Db} (h₀ : Cascaded s₀) (ops : List (Env × Request)) :
    let s := run (step lib) s₀ ops
    (∀ a ∈ s.cas, a.isRevoked = true → ∀ j, Descends s a.id j →
      (∀ d ∈ s.cas, d.id = j → d.isRevoked = true) ∧ ∀ c ∈ s.leaves, c.caId = j → c.isRevoked = true) ∧
    (∀ env refresh caId reason, checkRevocable caId reason s = .ok () →
      Revocation s env.now caId reason (revokeCa env refresh caId reason s).1 ∧
      (Forest s₀ → ∀ e, (revokeCa env refresh caId reason s).2 = .error e → CrlRefused env e)) ∧
    ∀ env caId reason, env.checks = .ok () →
      step lib s (env, .revokeCa caId reason) = (revokeCa env true caId reason s).1 := by
  intro s
  have hs : Cascaded s := @run_invariant _ _ (step lib) Cascaded (fun _ o => step_cascaded lib o) s₀ h₀ ops
  refine ⟨?_, ?_, ?_⟩
  · intro a ha hrev j hj
    obtain ⟨d, hd, hid, hdrev⟩ := hs.descendant ha hrev hj
    constructor
    · intro d' hd' hid'
      rw [Table.eq_of_key hd' hd (hid'.trans hid.symm)]
      exact hdrev
    · intro c hc hca
      exact hs.leaves d hd hdrev c hc (hca.trans hid.symm)
  · intro env refresh caId reason hcheck
    refine ⟨revokeCa_revocation hs hcheck, ?_⟩
    intro hforest e herror
    have hs' : Forest s := @run_invariant _ _ (step lib) Forest (fun _ o => step_forest lib o) s₀ hforest ops
    exact revokeCa_error hs' hcheck herror
  · intro env caId reason hchecks
    exact revokeCaRequest_eq hchecks

theorem sampleForest_tidy : Tidy sampleForest where
  cascaded := ⟨by decide, by decide⟩
  forest := by
    have hrows : ∀ sub ∈ sampleForest.cas, sub.parentId = none ∨ sub.id = 2 ∧ sub.parentId = some 1 := by decide
    constructor
    · intro sub hsub p hp
      obtain hroot | ⟨_, hparent⟩ := hrows sub hsub
      · rw [hroot] at hp
        cases hp
      · rw [hparent] at hp
        cases hp
        exact ⟨sampleRoot, rfl⟩
    · refine ⟨Int.toNat, ?_⟩
      intro sub hsub p hp
      obtain hroot | ⟨hid, hparent⟩ := hrows sub hsub
      · rw [hroot] at hp
        cases hp
      · rw [hparent] at hp
        cases hp
        rw [hid]
        decide

/-- the root of the sample is revoked: so is the certificate below its sub-CA, and the sub-CA itself -/
theorem revocation_cascades_sample :
    ((∃ a ∈ (run (step sampleLib) sampleForest [(Env.at day, .revokeCa 1 "superseded")]).cas, a.id = 1 ∧
        a.isRevoked = true) ∧
      ∀ c ∈ (run (step sampleLib) sampleForest [(Env.at day, .revokeCa 1 "superseded")]).leaves, c.caId = 2 →
        c.isRevoked = true) ∧
    (∃ b, (revokeCa (Env.at day) true 1 "superseded" sampleForest).1.cas.get? 2 = some b ∧
      clearCrl b = clearCrl (revokeCaRow day "superseded" sampleSub)) ∧
    ∀ e, (revokeCa (Env.at day) true 1 "superseded" sampleForest).2 = .error e → CrlRefused (Env.at day) e := by
  have hroot : ∃ a ∈ (run (step sampleLib) sampleForest [(Env.at day, .revokeCa 1 "superseded")]).cas,
      a.id = 1 ∧ a.isRevoked = true := by decide +kernel
  obtain ⟨hrevocation, hends⟩ :=
    (revocation_cascades sampleLib sampleForest_tidy.cascaded []).2.1 (Env.at day) true 1 "superseded" rfl
  refine ⟨⟨hroot, ?_⟩, ?_, hends sampleForest_tidy.forest⟩
  · obtain ⟨a, ha, hid, hrev⟩ := hroot
    have hbelow : Descends (run (step sampleLib) sampleForest [(Env.at day, .revokeCa 1 "superseded")]) a.id 2 := by
      rw [hid]
      exact .single (by decide +kernel)
    exact ((revocation_cascades sampleLib sampleForest_tidy.cascaded _).1 a ha hrev 2 hbelow).2
  · have hbelow : Descends sampleForest 1 sampleSub.id := .single (by decide +kernel)
    exact hrevocation.revoked sampleSub (by simp [Table.mem_def, run, sampleForest]) hbelow rfl

/-- the sub-CA of the sample is revoked: its parent, above it, has another row, with a CRL -/
theorem revoke_publishes_parent :
    checkRevocable 2 "superseded" sampleForest = .ok () ∧
      ¬ ∀ a ∈ sampleForest.cas, ¬ Descends sampleForest 2 a.id →
        (revokeCa (Env.at day) true 2 "superseded" sampleForest).1.cas.get? a.id = some a := by
  refine ⟨rfl, ?_⟩
  intro hframe
  have habove : ¬ Descends sampleForest 2 sampleRoot.id := by
    intro hwalk
    obtain heq | ⟨c, hc, _⟩ := ReflTransGen.cases_head hwalk
    · revert heq
      decide
    · have hnone : sampleForest.children 2 = [] := rfl
      rw [hnone] at hc
      cases hc
  have hrow := hframe sampleRoot (by simp [Table.mem_def, sampleForest]) habove
  have hnumber := congrArg (Option.map CaRow.crlNumber) hrow
  revert hnumber
  decide +kernel

end Chancery.Pki
