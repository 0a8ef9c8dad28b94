/-
Do the path length constraints hold along whole chains, over any run of requests.

A hierarchy is `Good` when every CA lies at most n levels below each CA above it whose certificate has pathLenConstraint n.
The service looks at the constraint of the issuing CA alone, and gives a new CA a smaller one.

(1) `Lengths`: the path length column of a CA is the constraint in its certificate, also after a re-issue.
(2) `honoured_iff`: creating an intermediate CA in a good hierarchy leaves it good, and a cross-certificate keeps within the
constraints above its issuer, exactly when no constraint further up than the issuing CA is used up.
(3) `path_length_honoured_iff`: over runs; and if every CA that is imported below a constraint carries a smaller one,
nothing is ever used up unseen.
(4) `unconstrained_import_breaks_chain`: an imported CA without a constraint below a root with pathLenConstraint 1.
-/
import Mathlib.Tactic
import Chancery.Core.Levels
import Chancery.Scenarios.CertificateEnds

namespace Chancery.Pki

open Chancery.Core

/-! ## The chain above a CA -/

def parentId? (s : Db) (i : ℤ) : Option ℤ := (s.cas.get? i).bind (·.parentId)

/-- the pathLenConstraint of the primary certificate -/
def pathLen? (s : Db) (i : ℤ) : Option ℤ := (s.cas.get? i).bind fun ca => ca.certificate.basicConstraints.bind (·.2)

/-- every CA lies at most n levels below each of its ancestors whose certificate has pathLenConstraint n -/
def Good (s : Db) : Prop := InLimits (parentId? s) (pathLen? s)

/-- the CA below which a request puts a CA, when the service accepts it -/
def Admits (lib : Lib) (s : Db) (env : Env) (issuer : CaRow) : Request → Prop
  | .createIntermediate parentId form =>
    capable? parentId s = some issuer ∧ ∃ s', createIntermediateCa lib env form issuer s = .ok s'
  | .crossSign caId issuerId days status serial =>
    capable? issuerId s = some issuer ∧
      ∃ ca s', s.cas.get? caId = some ca ∧ crossSignCa lib env ca issuer days status serial s = .ok s'
  | _ => False

/-- **Honoured.** From a good hierarchy a new intermediate CA leads to a good one, and a cross-certificate puts its subject,
one level below its issuer, within the constraints of the issuer and of every CA above it. -/
def Honoured (lib : Lib) (s : Db) (o : Env × Request) : Prop :=
  Good s → match o.2 with
    | .createIntermediate _ _ => Good (step lib s o)
    | .crossSign .. => ∀ issuer, Admits lib s o.1 issuer o.2 → RoomFrom (parentId? s) (pathLen? s) 0 issuer.id
    | _ => True

/-- above the CA that an accepted request puts a CA below, no constraint is used up -/
def RoomAbove (lib : Lib) (s : Db) (o : Env × Request) : Prop :=
  Good s → ∀ issuer, Admits lib s o.1 issuer o.2 → RoomFrom (parentId? s) (pathLen? s) 1 issuer.id

/-- below a constraint there is a level left, and the path length there is smaller -/
def Tight (budget own : Option ℤ) : Prop := ∀ n, budget = some n → 1 ≤ n ∧ ∃ m, own = some m ∧ m < n

/-- the CAs that appear otherwise than by creation under a parent (roots, imports) are tight below their parents -/
def TightImport (lib : Lib) (s : Db) (o : Env × Request) : Prop :=
  (∀ parentId form, o.2 ≠ .createIntermediate parentId form) → ∀ b ∈ (step lib s o).cas, s.cas.get? b.id = none →
    ∀ p parent, b.parentId = some p → (step lib s o).cas.get? p = some parent → Tight parent.pathLength b.pathLength

/-! ## (1) The path length column -/

/-- **Lengths.** The column is the constraint of the certificate, and of every re-issue that may replace it. -/
structure Lengths (s : Db) : Prop where
  primary : ∀ ca ∈ s.cas, ca.certificate.basicConstraints = some (true, ca.pathLength)
  reissues : ∀ a ∈ s.alternates, a.kind = .reissue → ∃ ca, s.cas.get? a.caId = some ca ∧
    a.certificate.basicConstraints = some (true, ca.pathLength)

/-- the rows of `s` keep their parents and their path lengths -/
def KeepsRows (s s' : Db) : Prop :=
  ∀ i a, s.cas.get? i = some a → ∃ b, s'.cas.get? i = some b ∧ b.parentId = a.parentId ∧ b.pathLength = a.pathLength

section Lengths

variable {env : Env} {allow : Liberty → Prop} {s s' : Db} {i : ℤ}

theorem KeepsRows.refl : KeepsRows s s := fun _ a ha => ⟨a, ha, rfl, rfl⟩

theorem KeepsRows.trans {s'' : Db} (h : KeepsRows s s') (h' : KeepsRows s' s'') : KeepsRows s s'' := by
  intro i a ha
  obtain ⟨b, hb, hparent, hlength⟩ := h i a ha
  obtain ⟨c, hc, hparent', hlength'⟩ := h' i b hb
  exact ⟨c, hc, hparent'.trans hparent, hlength'.trans hlength⟩

theorem KeepsRows.updateCa {f : CaRow → CaRow} {hf : ∀ a, (f a).id = a.id}
    (hkeep : ∀ a, (f a).parentId = a.parentId ∧ (f a).pathLength = a.pathLength) : KeepsRows s (s.updateCa i f hf) := by
  intro j a ha
  rw [get?_updateCa]
  split_ifs
  · rw [ha]
    exact ⟨f a, rfl, hkeep a⟩
  · exact ⟨a, ha, rfl, rfl⟩

theorem KeepsRows.revokeAll {now : DateTime} {reason : String} {l : List ℤ} : KeepsRows s (revokeAll now reason s l) := by
  intro j a ha
  rw [get?_revokeAll]
  split_ifs
  · rw [ha]
    exact ⟨_, rfl, rfl, rfl⟩
  · exact ⟨a, ha, rfl, rfl⟩

theorem Effect.keepsRows (h : Effect env allow s s') : KeepsRows s s' := by
  cases h with
  | insertCa n _ _ => exact fun _ a ha => ⟨a, get?_insertCa_of_some ha, rfl, rfl⟩
  | setApproval status _ _ => exact .updateCa fun _ => ⟨rfl, rfl⟩
  | setAcme enable _ => exact .updateCa fun _ => ⟨rfl, rfl⟩
  | @promote ca row _ _ _ _ _ =>
    have hcas : KeepsRows s (s.updateCa ca.id (promoted row)) := .updateCa fun _ => ⟨rfl, rfl⟩
    exact hcas
  | sweep reason _ _ => exact .revokeAll
  | publish _ _ _ _ => exact .updateCa fun _ => ⟨rfl, rfl⟩
  | _ => exact fun _ a ha => ⟨a, ha, rfl, rfl⟩

theorem Effects.keepsRows (h : Effects env allow s s') : KeepsRows s s' := by
  induction h with
  | refl => exact .refl
  | tail _ heffect ih => exact ih.trans heffect.keepsRows

/-- a re-issue still matches when the CAs keep their path lengths -/
theorem reissues_of_keepsRows (hs : Lengths s) (hkeep : KeepsRows s s') {a : CaCertRow} (ha : a ∈ s.alternates)
    (hkind : a.kind = .reissue) :
    ∃ ca, s'.cas.get? a.caId = some ca ∧ a.certificate.basicConstraints = some (true, ca.pathLength) := by
  obtain ⟨ca, hca, hpath⟩ := hs.reissues a ha hkind
  obtain ⟨b, hb, _, hlength⟩ := hkeep _ ca hca
  exact ⟨b, hb, by rw [hpath, hlength]⟩

/-- an update that leaves the certificates alone -/
theorem Lengths.updateCa (hs : Lengths s) {f : CaRow → CaRow} {hf : ∀ a, (f a).id = a.id}
    (hkeep : ∀ a, (f a).parentId = a.parentId ∧ (f a).pathLength = a.pathLength)
    (hcert : ∀ a, (f a).certificate = a.certificate) : Lengths (s.updateCa i f hf) where
  primary b hb := by
    obtain ⟨a, ha, rfl⟩ := mem_updateCa.1 hb
    split_ifs
    · rw [hcert, (hkeep a).2]
      exact hs.primary a ha
    · exact hs.primary a ha
  reissues a ha hkind := reissues_of_keepsRows hs (.updateCa hkeep) ha hkind

theorem Effect.lengths (h : Effect env allow s s') (hs : Lengths s) : Lengths s' := by
  have hkeep := h.keepsRows
  cases h with
  | insertCa n _ hcert =>
    refine ⟨fun ca hca => ?_, fun a ha hkind => reissues_of_keepsRows hs hkeep ha hkind⟩
    rcases mem_insertCa.1 hca with hca | rfl
    · exact hs.primary ca hca
    · exact hcert.path
  | setApproval status _ _ => exact hs.updateCa (fun _ => ⟨rfl, rfl⟩) fun _ => rfl
  | setAcme enable _ => exact hs.updateCa (fun _ => ⟨rfl, rfl⟩) fun _ => rfl
  | @promote ca row hca hrow hof hkind _ =>
    obtain ⟨x, hx, hpath⟩ := hs.reissues row (Table.mem_of_get? hrow) hkind
    rw [hof] at hx
    cases hca.symm.trans hx
    constructor
    · intro b hb
      obtain ⟨a, ha, rfl⟩ := List.mem_map.1 hb
      split_ifs with hid
      · -- the promoted CA is the one the re-issue belongs to
        have hsame : a = ca := Table.eq_of_key ha (Table.mem_of_get? hca) hid
        rw [hsame]
        exact hpath
      · exact hs.primary a ha
    · intro a ha hkind'
      obtain ⟨hin, _⟩ := Table.mem_filter.1 ha
      rcases (@Table.mem_insert _ _ s.alternates (previousOf ca) (fun _ => rfl) a).1 hin with hold | rfl
      · exact reissues_of_keepsRows hs hkeep hold hkind'
      · cases hkind'
  | insertAlternate n hreissue _ =>
    refine ⟨hs.primary, fun a ha hkind => ?_⟩
    rcases (@Table.mem_insert _ _ s.alternates n.row (fun _ => rfl) a).1 ha with hold | rfl
    · exact hs.reissues a hold hkind
    · exact hreissue hkind
  | approveAlternate altId =>
    refine ⟨hs.primary, fun a ha hkind => ?_⟩
    obtain ⟨b, hb, rfl⟩ := List.mem_map.1 ha
    split_ifs at hkind ⊢
    · exact hs.reissues b hb hkind
    · exact hs.reissues b hb hkind
  | deleteAlternate altId => exact ⟨hs.primary, fun a ha hkind => hs.reissues a (Table.mem_filter.1 ha).1 hkind⟩
  | sweep reason _ _ =>
    refine ⟨fun b hb => ?_, fun a ha hkind => ?_⟩
    · have hget := mem_cas_iff.1 hb
      rw [get?_revokeAll] at hget
      split_ifs at hget
      · obtain ⟨a, ha, rfl⟩ := Option.map_eq_some_iff.1 hget
        exact hs.primary a (Table.mem_of_get? ha)
      · exact hs.primary b (Table.mem_of_get? hget)
    · rw [alternates_revokeAll] at ha
      exact reissues_of_keepsRows hs hkeep ha hkind
  | publish _ _ _ _ => exact hs.updateCa (fun _ => ⟨rfl, rfl⟩) fun _ => rfl
  | csrs t => exact ⟨hs.primary, hs.reissues⟩
  | insertLeaf form issued escrowed renewedFrom notAfter _ _ => exact ⟨hs.primary, hs.reissues⟩
  | revokeLeaf reason _ _ => exact ⟨hs.primary, hs.reissues⟩

theorem Effects.lengths (h : Effects env allow s s') (hs : Lengths s) : Lengths s' := by
  induction h with
  | refl => exact hs
  | tail _ heffect ih => exact heffect.lengths ih

end Lengths

/-! ## (2) One step -/

section Step

variable {lib : Lib} {env : Env} {s s' : Db} {ca issuer : CaRow}

theorem parentId?_congr (h : s'.withoutCrls = s.withoutCrls) : parentId? s' = parentId? s := by
  funext i
  have hrow : (s'.cas.get? i).map clearCrl = (s.cas.get? i).map clearCrl := by
    rw [← get?_withoutCrls, h, get?_withoutCrls]
  have hcol : ∀ t : Db, parentId? t i = ((t.cas.get? i).map clearCrl).bind (·.parentId) := by
    intro t
    rw [parentId?, Option.bind_map]
    rfl
  rw [hcol, hrow, ← hcol]

theorem pathLen?_congr (h : s'.withoutCrls = s.withoutCrls) : pathLen? s' = pathLen? s := by
  funext i
  have hrow : (s'.cas.get? i).map clearCrl = (s.cas.get? i).map clearCrl := by
    rw [← get?_withoutCrls, h, get?_withoutCrls]
  have hcol : ∀ t : Db, pathLen? t i =
      ((t.cas.get? i).map clearCrl).bind fun ca => ca.certificate.basicConstraints.bind (·.2) := by
    intro t
    rw [pathLen?, Option.bind_map]
    rfl
  rw [hcol, hrow, ← hcol]

theorem get?_insertCa (n : NewCa) (i : ℤ) :
    (s.insertCa n).cas.get? i = if i = s.cas.nextKey then some (n.row s.cas.nextKey) else s.cas.get? i :=
  @Table.get?_insert _ _ s.cas n.row (fun _ => rfl) i

theorem parentId?_insertCa (n : NewCa) :
    parentId? (s.insertCa n) = Function.update (parentId? s) s.cas.nextKey n.parentId := by
  funext i
  rw [parentId?, get?_insertCa, Function.update_apply]
  split_ifs <;> rfl

theorem pathLen?_insertCa {n : NewCa} (hpath : n.certificate.basicConstraints = some (true, n.pathLength)) :
    pathLen? (s.insertCa n) = Function.update (pathLen? s) s.cas.nextKey n.pathLength := by
  funext i
  rw [pathLen?, get?_insertCa, Function.update_apply]
  split_ifs
  · show n.certificate.basicConstraints.bind (·.2) = n.pathLength
    rw [hpath]
    rfl
  · rfl

/-- the constraint of a CA in the table is its column -/
theorem Lengths.pathLen?_eq (hs : Lengths s) {i : ℤ} (hca : s.cas.get? i = some ca) : pathLen? s i = ca.pathLength := by
  rw [pathLen?, hca, Option.bind_some, hs.primary ca (Table.mem_of_get? hca)]
  rfl

/-- the code gives a sub-CA less than its issuer has -/
theorem clampPathLength_tight {refusal : String} {budget requested own : Option ℤ}
    (h : clampPathLength refusal budget requested = .ok own) : Tight budget own := by
  intro n hn
  subst hn
  simp only [clampPathLength] at h
  split_ifs at h with hpos
  cases h
  refine ⟨by omega, _, rfl, ?_⟩
  cases requested with
  | none => exact Int.sub_one_lt_iff.2 le_rfl
  | some r => exact (min_le_left _ _).trans_lt (Int.sub_one_lt_iff.2 le_rfl)

/-- an accepted creation adds one CA, tight below its parent -/
theorem createIntermediateCa_ok {form : CaForm} (h : createIntermediateCa lib env form ca s = .ok s') :
    ∃ n : NewCa, s'.withoutCrls = (s.insertCa n).withoutCrls ∧ n.parentId = some ca.id ∧
      n.certificate.basicConstraints = some (true, n.pathLength) ∧ Tight ca.pathLength n.pathLength := by
  obtain ⟨_, _, h⟩ := bind_eq_ok.1 h
  obtain ⟨_, _, h⟩ := bind_eq_ok.1 h
  obtain ⟨_, _, h⟩ := bind_eq_ok.1 h
  obtain ⟨_, _, h⟩ := bind_eq_ok.1 h
  obtain ⟨pathLength, hclamp, h⟩ := bind_eq_ok.1 h
  obtain ⟨notAfter, _, h⟩ := bind_eq_ok.1 h
  split_ifs at h
  obtain ⟨s₁, hs₁, h⟩ := bind_eq_ok.1 h
  cases h
  have hclear : (publishInitialCrl env s.cas.nextKey s₁).withoutCrls = s₁.withoutCrls := withoutCrls_publishInitialCrl
  rw [addCa_ok hs₁] at hclear ⊢
  exact ⟨_, hclear, rfl, rfl, clampPathLength_tight hclamp⟩

/-- an accepted cross-signing finds a level left below its issuer -/
theorem crossSignCa_tight {days : Option ℤ} {status : ApprovalStatus} {serial : ℤ}
    (h : crossSignCa lib env ca issuer days status serial s = .ok s') : ∃ own, Tight issuer.pathLength own := by
  obtain ⟨_, _, h⟩ := bind_eq_ok.1 h
  obtain ⟨_, _, h⟩ := bind_eq_ok.1 h
  obtain ⟨_, _, h⟩ := bind_eq_ok.1 h
  obtain ⟨pathLength, hclamp, _⟩ := bind_eq_ok.1 h
  exact ⟨pathLength, clampPathLength_tight hclamp⟩

/-- nothing is below the CA that comes next -/
theorem Forest.fresh (hs : Forest s) (i : ℤ) : parentId? s i ≠ some s.cas.nextKey := by
  intro h
  obtain ⟨ca, hca, hp⟩ := Option.bind_eq_some_iff.1 h
  obtain ⟨parent, hparent⟩ := hs.parents ca (Table.mem_of_get? hca) _ hp
  rw [Table.get?_nextKey] at hparent
  cases hparent

theorem key_ne_nextKey {i : ℤ} (hca : s.cas.get? i = some ca) : i ≠ s.cas.nextKey := by
  rintro rfl
  rw [Table.get?_nextKey] at hca
  cases hca

theorem parentId?_nextKey : parentId? s s.cas.nextKey = none := by rw [parentId?, Table.get?_nextKey]; rfl

/-- a creation keeps a good hierarchy good when the whole chain has room -/
theorem good_createIntermediateCa_iff (hs : Forest s) (hca : s.cas.get? ca.id = some ca) {form : CaForm}
    (h : createIntermediateCa lib env form ca s = .ok s') :
    Good s' ↔ Good s ∧ RoomFrom (parentId? s) (pathLen? s) 0 ca.id := by
  obtain ⟨n, hclear, hparent, hpath, _⟩ := createIntermediateCa_ok h
  unfold Good
  rw [parentId?_congr hclear, pathLen?_congr hclear, parentId?_insertCa, pathLen?_insertCa hpath, hparent]
  exact inLimits_update hs.fresh parentId?_nextKey (key_ne_nextKey hca)

/-- below an issuer the code has checked, only the constraints further up matter -/
theorem room_iff (hl : Lengths s) (hca : s.cas.get? ca.id = some ca) {own : Option ℤ} (htight : Tight ca.pathLength own) :
    RoomFrom (parentId? s) (pathLen? s) 0 ca.id ↔ RoomFrom (parentId? s) (pathLen? s) 1 ca.id := by
  rw [roomFrom_zero_iff]
  refine and_iff_right fun n hn => ?_
  rw [hl.pathLen?_eq hca] at hn
  exact (htight n hn).1

theorem capable_get? {caId : ℤ} (h : capable? caId s = some ca) : s.cas.get? ca.id = some ca := by
  obtain ⟨hget, _⟩ := mem_of_capable h
  rwa [Table.key_of_get? hget]

/-- **(2) One step.** -/
theorem honoured_iff (hs : Forest s) (hl : Lengths s) (o : Env × Request) : Honoured lib s o ↔ RoomAbove lib s o := by
  obtain ⟨env, r⟩ := o
  refine forall_congr' fun hgood => ?_
  cases r with
  | createIntermediate parentId form =>
    show Good (handle lib s env (.createIntermediate parentId form)).1 ↔ _
    simp only [handle, Admits]
    cases hcap : capable? parentId s with
    | none => simp [hgood]
    | some parent =>
      have hget := capable_get? hcap
      simp only [Option.some.injEq]
      cases h : createIntermediateCa lib env form parent s with
      | error e =>
        refine iff_of_true hgood ?_
        rintro issuer ⟨rfl, s', hs'⟩
        rw [h] at hs'
        cases hs'
      | ok s' =>
        show Good s' ↔ _
        rw [good_createIntermediateCa_iff hs hget h]
        obtain ⟨n, _, _, _, htight⟩ := createIntermediateCa_ok h
        rw [room_iff hl hget htight]
        constructor
        · rintro ⟨_, hroom⟩ issuer ⟨rfl, _⟩
          exact hroom
        · intro hroom
          exact ⟨hgood, hroom parent ⟨rfl, s', h⟩⟩
  | crossSign caId issuerId days status serial =>
    refine forall_congr' fun issuer => forall_congr' fun hadmits => ?_
    obtain ⟨hcap, ca, s', _, h⟩ := hadmits
    obtain ⟨own, htight⟩ := crossSignCa_tight h
    exact room_iff hl (capable_get? hcap) htight
  | _ => exact iff_of_true trivial fun _ hadmits => hadmits.elim

end Step

/-! ## (3) Runs -/

/-- what every request keeps -/
structure Rooted (s : Db) : Prop where
  tidy : Tidy s
  lengths : Lengths s

theorem rooted_empty : Rooted Db.empty where
  tidy :=
    { cascaded := ⟨fun ca hca => absurd hca (Table.not_mem_empty ca), fun ca hca => absurd hca (Table.not_mem_empty ca)⟩
      forest := ⟨fun ca hca => absurd hca (Table.not_mem_empty ca), fun _ => 0, fun ca hca =>
        absurd hca (Table.not_mem_empty ca)⟩ }
  lengths := ⟨fun ca hca => absurd hca (Table.not_mem_empty ca), fun a ha => absurd ha (Table.not_mem_empty a)⟩

section Runs

variable {lib : Lib} {s : Db}

/-- the writes of a request, with every liberty -/
theorem step_effects_all (lib : Lib) (s : Db) (o : Env × Request) : Effects o.1 (fun _ => True) s (step lib s o) :=
  step_effects (fun _ _ => trivial) fun hn => absurd trivial hn

theorem Rooted.step (h : Rooted s) (o : Env × Request) : Rooted (step lib s o) :=
  ⟨Effects.tidy (step_effects_all lib s o) h.tidy, Effects.lengths (step_effects_all lib s o) h.lengths⟩

/-- **Nested.** A request keeps a nested hierarchy nested when the CAs it adds are tight below their parents. -/
theorem nested_step (h : Rooted s) (hnested : Nested (parentId? s) (pathLen? s)) {o : Env × Request}
    (htight : TightImport lib s o) : Nested (parentId? (step lib s o)) (pathLen? (step lib s o)) := by
  obtain ⟨env, r⟩ := o
  by_cases hcreate : ∃ parentId form, r = .createIntermediate parentId form
  · obtain ⟨parentId, form, rfl⟩ := hcreate
    show Nested (parentId? (handle lib s env _).1) (pathLen? (handle lib s env _).1)
    simp only [handle]
    cases hcap : capable? parentId s with
    | none => exact hnested
    | some parent =>
      simp only
      cases hok : createIntermediateCa lib env form parent s with
      | error e => exact hnested
      | ok s' =>
        obtain ⟨n, hclear, hparent, hpath, hown⟩ := createIntermediateCa_ok hok
        have hget := capable_get? hcap
        show Nested (parentId? s') (pathLen? s')
        rw [parentId?_congr hclear, pathLen?_congr hclear, parentId?_insertCa, pathLen?_insertCa hpath, hparent]
        refine hnested.update h.tidy.forest.fresh (key_ne_nextKey hget) fun m hm => hown m ?_
        rwa [h.lengths.pathLen?_eq hget] at hm
  · have hlengths := (@Rooted.step lib s h (env, r)).lengths
    have hkeep := Effects.keepsRows (step_effects_all lib s (env, r))
    intro i p n hp hn
    obtain ⟨b, hb, hbp⟩ := Option.bind_eq_some_iff.1 hp
    cases hold : s.cas.get? i with
    | none =>
      -- a CA that was not there
      obtain ⟨parent, hparent, _⟩ := Option.bind_eq_some_iff.1 hn
      rw [hlengths.pathLen?_eq hparent] at hn
      rw [hlengths.pathLen?_eq hb]
      refine htight (fun parentId form heq => hcreate ⟨parentId, form, heq⟩) b (Table.mem_of_get? hb) ?_ p parent hbp
        hparent n hn
      rwa [Table.key_of_get? hb]
    | some a =>
      -- a CA that was there, and its parent
      obtain ⟨b', hb', hparent, hlength⟩ := hkeep i a hold
      cases hb.symm.trans hb'
      obtain ⟨q, hq⟩ := h.tidy.forest.parents a (Table.mem_of_get? hold) p (hparent ▸ hbp)
      obtain ⟨q', hq', _, hqlength⟩ := hkeep p q hq
      rw [hlengths.pathLen?_eq hq', hqlength, ← h.lengths.pathLen?_eq hq] at hn
      rw [hlengths.pathLen?_eq hb, hlength, ← h.lengths.pathLen?_eq hold]
      refine hnested i p n ?_ hn
      rw [parentId?, hold, Option.bind_some, ← hparent]
      exact hbp

/-- **(3) Path lengths along whole chains.** In every run from an empty server, each creation of an intermediate CA and each
cross-signing honours the constraints of the whole chain exactly when none of those above the issuing CA is used up. It does
if every imported CA is tight below its parent. -/
theorem path_length_honoured_iff (lib : Lib) (ops : List (Env × Request)) :
    (Meets (step lib) (Honoured lib) Db.empty ops ↔ Meets (step lib) (RoomAbove lib) Db.empty ops) ∧
      (Meets (step lib) (TightImport lib) Db.empty ops → Meets (step lib) (Honoured lib) Db.empty ops) := by
  have hiff : ∀ s o, Rooted s → (Honoured lib s o ↔ RoomAbove lib s o) :=
    fun s o h => honoured_iff h.tidy.forest h.lengths o
  refine ⟨@meets_congr _ _ (step lib) Rooted _ _ (fun _ o h => h.step o) hiff _ rooted_empty ops, fun htight => ?_⟩
  refine @Meets.mono _ _ (step lib) (fun s => Rooted s ∧ Nested (parentId? s) (pathLen? s)) _ _ ?_ ?_ _ ?_ ops htight
  · exact fun s o h htight => ⟨h.1.step o, nested_step h.1 h.2 htight⟩
  · intro s o h _
    rw [hiff s o h.1]
    intro _ issuer hadmits
    have hroom : ∀ own, Tight issuer.pathLength own → s.cas.get? issuer.id = some issuer →
        RoomFrom (parentId? s) (pathLen? s) 0 issuer.id := by
      intro own hown hget
      refine h.2.room fun n hn => ?_
      rw [h.1.lengths.pathLen?_eq hget] at hn
      exact (hown n hn).1
    obtain ⟨env, r⟩ := o
    cases r with
    | createIntermediate parentId form =>
      obtain ⟨hcap, s', hok⟩ := hadmits
      obtain ⟨n, _, _, _, hown⟩ := createIntermediateCa_ok hok
      exact (roomFrom_zero_iff.1 (hroom _ hown (capable_get? hcap))).2
    | crossSign caId issuerId days status serial =>
      obtain ⟨hcap, ca, s', _, hok⟩ := hadmits
      obtain ⟨own, hown⟩ := crossSignCa_tight hok
      exact (roomFrom_zero_iff.1 (hroom own hown (capable_get? hcap))).2
    | _ => exact hadmits.elim
  · refine ⟨rooted_empty, fun i p n hp => ?_⟩
    cases hp

end Runs

/-! ## (4) An import without a constraint -/

/-- a generated CA for ten years -/
def sampleForm (name : String) (serial : ℤ) (pathLength : Option ℤ) : CaForm :=
  ⟨name.toList, name.toList, name.toList, 3650, pathLength, none, .approved, serial, name.toList⟩

/-- a root with pathLenConstraint 1, and below it an imported CA that has none -/
def unconstrainedImport : List (Env × Request) :=
  [(Env.at 0, .createRoot (sampleForm "root" 16 (some 1))),
    (Env.at day, .importCa ⟨"mid".toList, [sampleCertificate "mid" "root" 32 0 (3650 * day)], some "mid".toList, none,
      .approved⟩)]

/-- an intermediate CA below the imported one -/
def deepCreation : Env × Request := (Env.at (2 * day), .createIntermediate 2 (sampleForm "deep" 48 none))

theorem unconstrainedImport_good : Good (run (step sampleLib) Db.empty unconstrainedImport) := by
  have hparents : ∀ ca ∈ (run (step sampleLib) Db.empty unconstrainedImport).cas.rows,
      ca.parentId = none ∨ ca.id = 2 ∧ ca.parentId = some 1 := by decide +kernel
  have hlimits : ∀ ca ∈ (run (step sampleLib) Db.empty unconstrainedImport).cas.rows,
      ca.certificate.basicConstraints.bind (·.2) = none ∨ ca.certificate.basicConstraints.bind (·.2) = some 1 := by
    decide +kernel
  have hparent : ∀ i p, parentId? (run (step sampleLib) Db.empty unconstrainedImport) i = some p → i = 2 ∧ p = 1 := by
    intro i p h
    obtain ⟨ca, hca, hp⟩ := Option.bind_eq_some_iff.1 h
    rcases hparents ca (Table.mem_of_get? hca) with hnone | ⟨hid, hone⟩
    · cases hnone.symm.trans hp
    · cases hone.symm.trans hp
      exact ⟨(Table.key_of_get? hca).symm.trans hid, rfl⟩
  intro i d a n hd ha hn
  obtain ⟨d, rfl⟩ := Nat.exists_eq_add_of_le' hd
  obtain ⟨p, hp, hup⟩ := Option.bind_eq_some_iff.1 ha
  obtain ⟨rfl, rfl⟩ := hparent i p hp
  cases d with
  | succ d =>
    obtain ⟨q, hq, _⟩ := Option.bind_eq_some_iff.1 hup
    exact absurd (hparent 1 q hq).1 (by decide)
  | zero =>
    obtain ⟨ca, hca, hlimit⟩ := Option.bind_eq_some_iff.1 hn
    rcases hlimits ca (Table.mem_of_get? hca) with hnone | hone
    · cases hnone.symm.trans hlimit
    · cases hone.symm.trans hlimit
      decide

/-- **(4)** The creation is accepted, and the new CA is two levels below a root that allows one. -/
theorem unconstrained_import_breaks_chain :
    ¬ Meets (step sampleLib) (Honoured sampleLib) Db.empty (unconstrainedImport ++ [deepCreation]) := by
  have habove : levelsUp (parentId? (run (step sampleLib) Db.empty (unconstrainedImport ++ [deepCreation]))) 2 3 =
    some 1 := by
    decide +kernel
  have hlimit : pathLen? (run (step sampleLib) Db.empty (unconstrainedImport ++ [deepCreation])) 1 = some 1 := by
    decide +kernel
  rw [run_snoc] at habove hlimit
  intro h
  have hgood := (meets_append.1 h).2.1 unconstrainedImport_good
  have hle := hgood 3 2 1 1 (by decide) habove hlimit
  exact absurd hle (by decide)

end Chancery.Pki
