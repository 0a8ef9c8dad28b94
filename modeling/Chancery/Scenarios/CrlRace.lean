/-
CRLs and revocations of one CA by any number of workers, in any interleaving.

(1) The numbers of the committed CRLs increase, and the cached CRL is the last of them (`Numbers`): whoever has taken a
number has written the row of the CA, and is alone in that until the commit.
(2) A revocation that has committed is in every CRL that is cached once a run of `generate_crl` that started after it has
committed (`Covered`): a run that read the tables before the revocation and is still at work then would have had to hold the
row while the later run held it.
`no_revocation_lost` is the result.
-/
import Mathlib.Tactic
import Chancery.Services.CrlWorkers

namespace Chancery.Pki

open Chancery.Core

/-! ## What a phase holds -/

/-- the worker has written the row of the CA -/
def CrlPhase.writes (caId : ℤ) : CrlPhase → Bool
  | .numbered _ _ => true
  | .leavesRead _ _ _ => true
  | .subsRead _ _ _ => true
  | .signed _ _ => true
  | .walking walk => decide (caId ∈ walk.cas)
  | _ => false

/-- the number of the CRL at work -/
def CrlPhase.number? : CrlPhase → Option ℤ
  | .numbered _ number => some number
  | .leavesRead _ number _ => some number
  | .subsRead _ number _ => some number
  | .signed _ crl => some crl.number
  | _ => none

/-- when the run of `generate_crl` started -/
def CrlPhase.started? : CrlPhase → Option ℕ
  | .loaded g => some g.started
  | .numbered g _ => some g.started
  | .leavesRead g _ _ => some g.started
  | .subsRead g _ _ => some g.started
  | .signed started _ => some started
  | _ => none

def cachedCrl (s : Db) (caId : ℤ) : Option Crl := (s.cas.get? caId).bind (·.crl)

/-- the columns of the CA that only `generate_crl` writes -/
def crlColumns (s : Db) (caId : ℤ) : Option (ℤ × Option Crl) := (s.cas.get? caId).map fun a => (a.crlNumber, a.crl)

theorem writes_of_number {caId : ℤ} {p : CrlPhase} {k : ℤ} (h : p.number? = some k) : p.writes caId = true := by
  cases p <;> first | rfl | cases h

section Race

variable {caId : ℤ} {w : ℕ} {e : CrlAction} {s s' : CrlStore} {p : CrlPhase} {r : CrlRace}

/-! ## Writes -/

theorem crlColumns_revokeMarked {walk : CrlWalk} {db : Db} : crlColumns (revokeMarked walk db) caId =
    crlColumns db caId := by
  have hget : (revokeMarked walk db).cas.get? caId =
      (db.cas.get? caId).map fun a => if a.id ∈ walk.cas then revokeCaRow walk.now walk.reason a else a :=
    @Table.get?_mapRows _ _ db.cas _ (by intro a; split_ifs <;> rfl) caId
  unfold crlColumns
  rw [hget, Option.map_map]
  congr 1
  funext a
  rw [Function.comp_apply]
  split_ifs <;> rfl

theorem crlColumns_cacheCrl {db : Db} {crl : Crl} :
    crlColumns (db.updateCa caId (cacheCrl crl) cacheCrl_id) caId = (crlColumns db caId).map fun _ =>
      (crl.number, some crl) := by
  unfold crlColumns
  rw [get?_updateCa, if_pos rfl, Option.map_map, Option.map_map]
  rfl

theorem cachedCrl_eq {db : Db} : cachedCrl db caId = (crlColumns db caId).bind (·.2) := by
  unfold cachedCrl crlColumns
  cases db.cas.get? caId <;> rfl

/-! ## One step -/

/-- what a step of worker `w` in phase `p` does to the store -/
structure Change (caId : ℤ) (w : ℕ) (p : CrlPhase) (s s' : CrlStore) : Prop where
  writer : ∀ j, j ≠ w → s.writer = some j → s'.writer = some j
  crl : crlColumns s'.db caId = crlColumns s.db caId ∧ s'.log = s.log ∨
    ∃ started crl, p = .signed started crl ∧ s'.log = s.log ++ [(started, crl)] ∧ s'.writer = none ∧
      crlColumns s'.db caId = (crlColumns s.db caId).map fun _ => (crl.number, some crl)

/-- **Fits.** Who has written the row is the writer, with the next number. -/
structure Fits (caId : ℤ) (s : CrlStore) (w : ℕ) (p : CrlPhase) : Prop where
  writes : p.writes caId = true → s.writer = some w
  number : ∀ k, p.number? = some k → ∃ crl, crlColumns s.db caId = some (k - 1, crl)

theorem fits_of_quiet (hwrites : p.writes caId = false) : Fits caId s w p := by
  refine ⟨fun h => ?_, fun k hk => ?_⟩
  · rw [hwrites] at h
    cases h
  · rw [writes_of_number hk] at hwrites
    cases hwrites

theorem Change.same (hdb : crlColumns s'.db caId = crlColumns s.db caId) (hlog : s'.log = s.log)
    (hwriter : ∀ j, j ≠ w → s.writer = some j → s'.writer = some j) : Change caId w p s s' := ⟨hwriter, .inl ⟨hdb, hlog⟩⟩

theorem Change.release : Change caId w p s (s.release w) := by
  refine .same rfl rfl fun j hj hw => ?_
  have hne : s.writer ≠ some w := by
    rw [hw]
    exact fun h => hj (Option.some.inj h)
  show (if s.writer = some w then none else s.writer) = some j
  rw [if_neg hne, hw]

theorem Change.refl : Change caId w p s s := .same rfl rfl fun _ _ h => h

/-- **Step.** The next access of a transaction. -/
theorem crlNext_fits (h : Fits caId s w p) :
    Change caId w p s (crlNext caId w s p).1 ∧ Fits caId (crlNext caId w s p).1 w (crlNext caId w s p).2 := by
  cases p with
  | idle => exact ⟨.refl, fits_of_quiet rfl⟩
  | loaded g =>
    unfold crlNext
    simp only
    split_ifs with hfree
    · exact ⟨.refl, h⟩
    · have hnone : s.writer = none := not_not.1 hfree
      cases hrow : s.db.cas.get? caId with
      | none => exact ⟨.refl, fits_of_quiet rfl⟩
      | some row =>
        refine ⟨.same rfl rfl fun j _ hj => ?_, fun _ => rfl, ?_⟩
        · rw [hnone] at hj
          cases hj
        · rintro k ⟨⟩
          exact ⟨row.crl, by simp [crlColumns, hrow]⟩
  | numbered g number => exact ⟨.refl, h.writes, h.number⟩
  | leavesRead g number rows => exact ⟨.refl, h.writes, h.number⟩
  | subsRead g number rows =>
    unfold crlNext
    simp only
    cases hcrl : crlOf g.now g.nextUpdate g.row.certificate number rows with
    | error e => exact ⟨.release, fits_of_quiet rfl⟩
    | ok crl =>
      refine ⟨.refl, h.writes, ?_⟩
      rintro k ⟨⟩
      rw [(crlOf_ok hcrl).1]
      exact h.number number rfl
  | signed started crl =>
    have hown : s.writer = some w := h.writes rfl
    refine ⟨⟨fun j hj hw => ?_, .inr ⟨started, crl, rfl, rfl, rfl, crlColumns_cacheCrl⟩⟩, fits_of_quiet rfl⟩
    rw [hown] at hw
    exact absurd (Option.some.inj hw).symm hj
  | revoking certId now reason => exact ⟨.same rfl rfl fun _ _ hj => hj, fits_of_quiet rfl⟩
  | walking walk =>
    unfold crlNext
    simp only
    cases htodo : walk.todo with
    | nil =>
      exact ⟨.same crlColumns_revokeMarked rfl (@Change.release caId _ _ .idle).writer, fits_of_quiet rfl⟩
    | cons j todo =>
      simp only
      split_ifs with hseen hother hfree
      · exact ⟨.refl, h.writes, h.number⟩
      · refine ⟨.refl, fun hw => h.writes ?_, h.number⟩
        simp only [CrlPhase.writes, CrlWalk.visit, decide_eq_true_eq, List.mem_append, List.mem_singleton] at hw ⊢
        exact hw.resolve_right fun heq => hother heq.symm
      · exact ⟨.refl, h⟩
      · refine ⟨.same rfl rfl fun i _ hi => ?_, fun _ => rfl, fun k hk => nomatch hk⟩
        rw [not_not.1 hfree] at hi
        cases hi

theorem startGenerate_quiet {now nextUpdate : DateTime} : (startGenerate caId now nextUpdate s).writes caId = false := by
  unfold startGenerate
  cases s.db.cas.get? caId with
  | none => rfl
  | some row => cases hallowed : crlAllowed row <;> simp [hallowed, CrlPhase.writes]

theorem startRevoke_quiet {certId : ℤ} {now : DateTime} {reason : String} :
    (startRevoke certId now reason s).writes caId = false := by
  unfold startRevoke
  cases revokeCertificate now certId reason s.db <;> rfl

theorem startWalk_quiet {target : ℤ} {now : DateTime} {reason : String} :
    (startWalk target now reason s).writes caId = false := by
  unfold startWalk
  cases checkRevocable target reason s.db <;> rfl

theorem crlAct_fits (h : Fits caId s w p) :
    Change caId w p s (crlAct caId w e s p).1 ∧ Fits caId (crlAct caId w e s p).1 w (crlAct caId w e s p).2 := by
  cases e with
  | next => exact crlNext_fits h
  | rollback => exact ⟨.release, fits_of_quiet rfl⟩
  | generate now nextUpdate =>
    cases p with
    | idle => exact ⟨.refl, fits_of_quiet startGenerate_quiet⟩
    | _ => exact ⟨.refl, h⟩
  | revokeCertificate certId now reason =>
    cases p with
    | idle => exact ⟨.refl, fits_of_quiet startRevoke_quiet⟩
    | _ => exact ⟨.refl, h⟩
  | revokeCa target now reason =>
    cases p with
    | idle => exact ⟨.refl, fits_of_quiet startWalk_quiet⟩
    | _ => exact ⟨.refl, h⟩

/-- the other workers -/
theorem Change.fits {j : ℕ} {q : CrlPhase} (hc : Change caId w p s s') (hown : Fits caId s w p) (hj : j ≠ w)
    (h : Fits caId s j q) : Fits caId s' j q where
  writes := fun hw => hc.writer j hj (h.writes hw)
  number := by
    intro k hk
    rcases hc.crl with ⟨hcols, _⟩ | ⟨_, _, hp, _⟩
    · rw [hcols]
      exact h.number k hk
    · have hw : s.writer = some w := hown.writes (by rw [hp]; rfl)
      rw [h.writes (writes_of_number hk)] at hw
      exact absurd (Option.some.inj hw) hj

/-! ## (1) Numbers -/

structure Numbers (caId : ℤ) (s₀ : Db) (r : CrlRace) : Prop where
  fits : ∀ w, Fits caId r.shared w (r.workers w)
  sorted : (r.shared.log.map (·.2.number)).Pairwise (· < ·)
  below : ∀ e ∈ r.shared.log, ∀ c, crlColumns r.shared.db caId = some c → e.2.number ≤ c.1
  base : ∀ c₀, crlColumns s₀ caId = some c₀ → ∃ c, crlColumns r.shared.db caId = some c ∧ c₀.1 ≤ c.1
  above : ∀ e ∈ r.shared.log, ∀ c₀, crlColumns s₀ caId = some c₀ → c₀.1 < e.2.number
  cached : cachedCrl r.shared.db caId = (r.shared.log.getLast?.map (·.2)).or (cachedCrl s₀ caId)

theorem Numbers.step {s₀ : Db} (h : Numbers caId s₀ r) (o : ℕ × CrlAction) : Numbers caId s₀ (r.step caId o) := by
  obtain ⟨w, e⟩ := o
  obtain ⟨hc, hself⟩ := crlAct_fits (e := e) (h.fits w)
  have hfits : ∀ j, Fits caId (r.step caId (w, e)).shared j ((r.step caId (w, e)).workers j) := by
    intro j
    by_cases hj : j = w
    · subst hj
      have hworker : (r.step caId (j, e)).workers j = (crlAct caId j e r.shared (r.workers j)).2 := Pool.act_self
      rw [hworker]
      exact ⟨hself.writes, hself.number⟩
    · have hworker : (r.step caId (w, e)).workers j = r.workers j := Pool.act_other hj
      rw [hworker]
      have hother := hc.fits (h.fits w) hj (h.fits j)
      exact ⟨hother.writes, hother.number⟩
  have hdb : (r.step caId (w, e)).shared.db = (crlAct caId w e r.shared (r.workers w)).1.db := rfl
  have hlog : (r.step caId (w, e)).shared.log = (crlAct caId w e r.shared (r.workers w)).1.log := rfl
  rcases hc.crl with ⟨hcols, hsame⟩ | ⟨started, crl, hp, hmore, _, hcols⟩
  · refine ⟨hfits, ?_, ?_, ?_, ?_, ?_⟩
    · rw [hlog, hsame]
      exact h.sorted
    · rw [hlog, hsame, hdb, hcols]
      exact h.below
    · rw [hdb, hcols]
      exact h.base
    · rw [hlog, hsame]
      exact h.above
    · rw [hlog, hsame, hdb, cachedCrl_eq, hcols, ← cachedCrl_eq]
      exact h.cached
  · -- the commit of a CRL: its number is the next one
    obtain ⟨old, hold⟩ := (h.fits w).number crl.number (by rw [hp]; rfl)
    rw [hold, Option.map_some] at hcols
    have hbelow : ∀ e' ∈ r.shared.log, e'.2.number < crl.number := by
      intro e' he'
      have hle := h.below e' he' _ hold
      simp only at hle
      omega
    have hbase : ∀ c₀, crlColumns s₀ caId = some c₀ → c₀.1 < crl.number := by
      intro c₀ hc₀
      obtain ⟨c, hcur, hle⟩ := h.base c₀ hc₀
      cases hold.symm.trans hcur
      simp only at hle
      omega
    refine ⟨hfits, ?_, ?_, ?_, ?_, ?_⟩
    · rw [hlog, hmore, List.map_append]
      refine List.pairwise_append.2 ⟨h.sorted, by simp, ?_⟩
      intro a ha b hb
      obtain ⟨e', he', rfl⟩ := List.mem_map.1 ha
      simp only [List.map_cons, List.map_nil, List.mem_singleton] at hb
      rw [hb]
      exact hbelow e' he'
    · rw [hlog, hmore, hdb, hcols]
      rintro e' he' c ⟨⟩
      rcases List.mem_append.1 he' with he' | he'
      · exact (hbelow e' he').le
      · rw [List.mem_singleton.1 he']
    · rw [hdb, hcols]
      intro c₀ hc₀
      exact ⟨_, rfl, (hbase c₀ hc₀).le⟩
    · rw [hlog, hmore]
      intro e' he' c₀ hc₀
      rcases List.mem_append.1 he' with he' | he'
      · exact h.above e' he' c₀ hc₀
      · rw [List.mem_singleton.1 he']
        exact hbase c₀ hc₀
    · rw [hlog, hmore, hdb, cachedCrl_eq, hcols]
      simp

theorem Numbers.init (s₀ : Db) : Numbers caId s₀ (CrlRace.start s₀) where
  fits := fun _ => fits_of_quiet rfl
  sorted := .nil
  below := fun _ he => nomatch he
  base := fun c₀ hc₀ => ⟨c₀, hc₀, le_rfl⟩
  above := fun _ he => nomatch he
  cached := rfl

/-! ## (2) Revocations -/

/-- the CRL has an entry for this serial number -/
def Lists (crl : Crl) (serial : Text) : Prop := ∃ e ∈ crl.entries, intHex serial = .ok e.serialNumber

/-- the revoked rows of the CA: its leaves, or its sub-CAs -/
def revokedOf (leaf : Bool) (s : Db) (caId : ℤ) : List RevokedRow :=
  if leaf then revokedLeaves s caId else revokedSubs s caId

/-- the serial number is that of a revoked row -/
def Revoked (leaf : Bool) (serial : Text) (s : Db) (caId : ℤ) : Prop := serial ∈ (revokedOf leaf s caId).map (·.1)

theorem revoked_leaf {serial : Text} {db : Db} : Revoked true serial db caId ↔
    ∃ c ∈ db.leaves, c.caId = caId ∧ c.isRevoked = true ∧ c.serialNumber = serial := by
  simp [Revoked, revokedOf, revokedLeaves, Table.mem_def, and_assoc]

theorem revoked_sub {serial : Text} {db : Db} : Revoked false serial db caId ↔
    ∃ sub ∈ db.cas, sub.parentId = some caId ∧ sub.isRevoked = true ∧ sub.serialNumber = serial := by
  simp [Revoked, revokedOf, revokedSubs, Table.mem_def, and_assoc]

/-- rows that are written keep their serial numbers, and stay revoked -/
theorem Revoked.mapRows {leaf : Bool} {serial : Text} {db db' : Db} (h : Revoked leaf serial db caId)
    (hleaves : ∀ c ∈ db.leaves, ∃ c' ∈ db'.leaves, c'.caId = c.caId ∧ c'.serialNumber = c.serialNumber ∧
      (c.isRevoked = true → c'.isRevoked = true))
    (hcas : ∀ a ∈ db.cas, ∃ a' ∈ db'.cas, a'.parentId = a.parentId ∧ a'.serialNumber = a.serialNumber ∧
      (a.isRevoked = true → a'.isRevoked = true)) : Revoked leaf serial db' caId := by
  cases leaf with
  | true =>
    obtain ⟨c, hc, hca, hrev, hserial⟩ := revoked_leaf.1 h
    obtain ⟨c', hc', hca', hserial', hrev'⟩ := hleaves c hc
    exact revoked_leaf.2 ⟨c', hc', hca'.trans hca, hrev' hrev, hserial'.trans hserial⟩
  | false =>
    obtain ⟨a, ha, hparent, hrev, hserial⟩ := revoked_sub.1 h
    obtain ⟨a', ha', hparent', hserial', hrev'⟩ := hcas a ha
    exact revoked_sub.2 ⟨a', ha', hparent'.trans hparent, hrev' hrev, hserial'.trans hserial⟩

theorem Revoked.publish {leaf : Bool} {serial : Text} {db : Db} {crl : Crl} (h : Revoked leaf serial db caId) :
    Revoked leaf serial (db.updateCa caId (cacheCrl crl) cacheCrl_id) caId := by
  refine h.mapRows (fun c hc => ⟨c, hc, rfl, rfl, id⟩) fun a ha => ⟨_, mem_updateCa.2 ⟨a, ha, rfl⟩, ?_⟩
  split_ifs
  · exact ⟨rfl, rfl, id⟩
  · exact ⟨rfl, rfl, id⟩

theorem Revoked.revokeLeaf {leaf : Bool} {serial : Text} {db : Db} {certId : ℤ} {now : DateTime} {reason : String}
    (h : Revoked leaf serial db caId) : Revoked leaf serial
      (db.updateLeaf certId (revokeLeafRow now reason) revokeLeafRow_id) caId := by
  refine h.mapRows (fun c hc => ⟨_, List.mem_map.2 ⟨c, hc, rfl⟩, ?_⟩) fun a ha => ⟨a, ha, rfl, rfl, id⟩
  split_ifs
  · exact ⟨rfl, rfl, fun _ => rfl⟩
  · exact ⟨rfl, rfl, id⟩

theorem Revoked.revokeMarked {leaf : Bool} {serial : Text} {db : Db} {walk : CrlWalk}
    (h : Revoked leaf serial db caId) : Revoked leaf serial (revokeMarked walk db) caId := by
  refine h.mapRows (fun c hc => ⟨_, List.mem_map.2 ⟨c, hc, rfl⟩, ?_⟩) fun a ha => ⟨_, List.mem_map.2 ⟨a, ha, rfl⟩, ?_⟩
  · split_ifs
    · exact ⟨rfl, rfl, fun _ => rfl⟩
    · exact ⟨rfl, rfl, id⟩
  · split_ifs
    · exact ⟨rfl, rfl, fun _ => rfl⟩
    · exact ⟨rfl, rfl, id⟩

/-- **A revocation stays** through every step. -/
theorem crlNext_revoked {leaf : Bool} {serial : Text} (h : Revoked leaf serial s.db caId) :
    Revoked leaf serial (crlNext caId w s p).1.db caId := by
  cases p with
  | loaded g =>
    unfold crlNext
    simp only
    split_ifs
    · exact h
    · cases s.db.cas.get? caId <;> exact h
  | subsRead g number rows =>
    unfold crlNext
    simp only
    cases crlOf g.now g.nextUpdate g.row.certificate number rows <;> exact h
  | signed started crl => exact h.publish
  | revoking certId now reason => exact h.revokeLeaf
  | walking walk =>
    unfold crlNext
    simp only
    cases walk.todo with
    | nil => exact h.revokeMarked
    | cons j todo =>
      simp only
      split_ifs <;> exact h
  | _ => exact h

theorem crlAct_revoked {leaf : Bool} {serial : Text} (h : Revoked leaf serial s.db caId) :
    Revoked leaf serial (crlAct caId w e s p).1.db caId := by
  cases e with
  | next => exact crlNext_revoked h
  | _ => cases p <;> exact h

/-- what was read so far has the serial number, where it is to be found -/
def Complete (leaf : Bool) (serial : Text) : CrlPhase → Prop
  | .leavesRead _ _ rows => leaf = true → serial ∈ rows.map (·.1)
  | .subsRead _ _ rows => serial ∈ rows.map (·.1)
  | .signed _ crl => Lists crl serial
  | _ => True

theorem lists_of_crlOf {now nextUpdate : DateTime} {cert : X509} {number : ℤ} {rows : List RevokedRow} {crl : Crl}
    {serial : Text} (h : crlOf now nextUpdate cert number rows = .ok crl) (hserial : serial ∈ rows.map (·.1)) :
    Lists crl serial := by
  obtain ⟨_, hentries⟩ := crlOf_ok h
  obtain ⟨row, hrow, rfl⟩ := List.mem_map.1 hserial
  obtain ⟨entry, hentry⟩ := crlEntry_of_mem hentries hrow
  exact ⟨entry, (mem_crlEntries hentries).2 ⟨row, hrow, hentry⟩, (crlEntry_ok hentry).1⟩

/-- what is read while the revocation is in the tables is complete -/
theorem crlNext_complete {leaf : Bool} {serial : Text} (hrev : Revoked leaf serial s.db caId)
    (hp : Complete leaf serial p) : Complete leaf serial (crlNext caId w s p).2 := by
  cases p with
  | idle => trivial
  | loaded g =>
    unfold crlNext
    simp only
    split_ifs
    · trivial
    · cases s.db.cas.get? caId <;> trivial
  | numbered g number =>
    intro hleaf
    rw [hleaf] at hrev
    exact hrev
  | leavesRead g number rows =>
    show serial ∈ (rows ++ revokedSubs s.db caId).map (·.1)
    rw [List.map_append, List.mem_append]
    cases leaf with
    | true => exact Or.inl (hp rfl)
    | false => exact Or.inr hrev
  | subsRead g number rows =>
    unfold crlNext
    simp only
    cases hcrl : crlOf g.now g.nextUpdate g.row.certificate number rows with
    | error e => trivial
    | ok crl => exact lists_of_crlOf hcrl hp
  | signed started crl => trivial
  | revoking certId now reason => trivial
  | walking walk =>
    unfold crlNext
    simp only
    cases walk.todo with
    | nil => trivial
    | cons j todo =>
      simp only
      split_ifs <;> trivial

/-- a phase in which nothing of a CRL has been read -/
theorem complete_of_quiet {leaf : Bool} {serial : Text} (h : p.number? = none) : Complete leaf serial p := by
  cases p with
  | leavesRead g number rows => cases h
  | subsRead g number rows => cases h
  | signed started crl => cases h
  | _ => trivial

theorem number_of_quiet (h : p.writes caId = false) : p.number? = none := by
  cases hk : p.number? with
  | none => rfl
  | some k =>
    rw [writes_of_number hk] at h
    cases h

theorem crlAct_complete {leaf : Bool} {serial : Text} (hrev : Revoked leaf serial s.db caId)
    (hp : Complete leaf serial p) : Complete leaf serial (crlAct caId w e s p).2 := by
  cases e with
  | next => exact crlNext_complete hrev hp
  | rollback => trivial
  | generate now nextUpdate =>
    cases p with
    | idle => exact complete_of_quiet (number_of_quiet (@startGenerate_quiet caId _ _ _))
    | _ => exact hp
  | revokeCertificate certId now reason =>
    cases p with
    | idle => exact complete_of_quiet (number_of_quiet (@startRevoke_quiet caId _ _ _ _))
    | _ => exact hp
  | revokeCa target now reason =>
    cases p with
    | idle => exact complete_of_quiet (number_of_quiet (@startWalk_quiet caId _ _ _ _))
    | _ => exact hp

theorem crlNext_started {t : ℕ} (h : (crlNext caId w s p).2.started? = some t) : p.started? = some t := by
  cases p with
  | idle => cases h
  | loaded g =>
    unfold crlNext at h
    simp only at h
    split_ifs at h
    · exact h
    · cases hrow : s.db.cas.get? caId with
      | none =>
        rw [hrow] at h
        cases h
      | some row =>
        rw [hrow] at h
        exact h
  | numbered g number => exact h
  | leavesRead g number rows => exact h
  | subsRead g number rows =>
    unfold crlNext at h
    simp only at h
    cases hcrl : crlOf g.now g.nextUpdate g.row.certificate number rows with
    | error e =>
      rw [hcrl] at h
      cases h
    | ok crl =>
      rw [hcrl] at h
      exact h
  | signed started crl => cases h
  | revoking certId now reason => cases h
  | walking walk =>
    unfold crlNext at h
    simp only at h
    cases htodo : walk.todo with
    | nil =>
      rw [htodo] at h
      cases h
    | cons j todo =>
      rw [htodo] at h
      simp only at h
      split_ifs at h <;> cases h

/-- a run keeps the time it started at; a new one starts now -/
theorem crlAct_started {t : ℕ} (h : (crlAct caId w e s p).2.started? = some t) :
    p.started? = some t ∨ t = s.clock ∧ p.number? = none := by
  cases e with
  | next => exact Or.inl (crlNext_started h)
  | rollback => cases h
  | generate now nextUpdate =>
    cases p with
    | idle =>
      refine Or.inr ?_
      unfold crlAct startGenerate at h
      simp only at h
      cases hrow : s.db.cas.get? caId with
      | none =>
        rw [hrow] at h
        cases h
      | some row =>
        rw [hrow] at h
        simp only at h
        cases hallowed : crlAllowed row with
        | error e =>
          rw [hallowed] at h
          cases h
        | ok u =>
          rw [hallowed] at h
          exact ⟨(Option.some.inj h).symm, rfl⟩
    | _ => exact Or.inl h
  | revokeCertificate certId now reason =>
    cases p with
    | idle =>
      unfold crlAct startRevoke at h
      simp only at h
      cases hcert : revokeCertificate now certId reason s.db with
      | error e =>
        rw [hcert] at h
        cases h
      | ok db =>
        rw [hcert] at h
        cases h
    | _ => exact Or.inl h
  | revokeCa target now reason =>
    cases p with
    | idle =>
      unfold crlAct startWalk at h
      simp only at h
      cases hcheck : checkRevocable target reason s.db with
      | error e =>
        rw [hcheck] at h
        cases h
      | ok u =>
        rw [hcheck] at h
        cases h
    | _ => exact Or.inl h

/-- what started, started in the past -/
structure Past (r : CrlRace) : Prop where
  runs : ∀ w t, (r.workers w).started? = some t → t < r.shared.clock
  log : ∀ e ∈ r.shared.log, e.1 < r.shared.clock

theorem Past.step {s₀ : Db} (hnum : Numbers caId s₀ r) (h : Past r) (o : ℕ × CrlAction) : Past (r.step caId o) := by
  obtain ⟨w, e⟩ := o
  have hclock : (r.step caId (w, e)).shared.clock = r.shared.clock + 1 := rfl
  have hlog : (r.step caId (w, e)).shared.log = (crlAct caId w e r.shared (r.workers w)).1.log := rfl
  obtain ⟨hc, _⟩ := crlAct_fits (e := e) (hnum.fits w)
  constructor
  · intro j t ht
    rw [hclock]
    by_cases hj : j = w
    · subst hj
      have hworker : (r.step caId (j, e)).workers j = (crlAct caId j e r.shared (r.workers j)).2 := Pool.act_self
      rw [hworker] at ht
      rcases crlAct_started ht with hold | ⟨hnow, _⟩
      · exact (h.runs j t hold).trans (Nat.lt_succ_self _)
      · omega
    · have hworker : (r.step caId (w, e)).workers j = r.workers j := Pool.act_other hj
      rw [hworker] at ht
      exact (h.runs j t ht).trans (Nat.lt_succ_self _)
  · intro e' he'
    rw [hclock]
    rw [hlog] at he'
    rcases hc.crl with ⟨_, hsame⟩ | ⟨started, crl, hp, hmore, _⟩
    · rw [hsame] at he'
      exact (h.log e' he').trans (Nat.lt_succ_self _)
    · rw [hmore] at he'
      rcases List.mem_append.1 he' with he' | he'
      · exact (h.log e' he').trans (Nat.lt_succ_self _)
      · rw [List.mem_singleton.1 he']
        exact (h.runs w started (by rw [hp]; rfl)).trans (Nat.lt_succ_self _)

/-- **Covered.** From time `t` on the serial number is revoked; whoever started later has read it, and once such a run has
committed, so have the cached CRL and whoever is at work on another one. -/
structure Covered (caId : ℤ) (leaf : Bool) (serial : Text) (t : ℕ) (r : CrlRace) : Prop where
  revoked : Revoked leaf serial r.shared.db caId
  later : ∀ w u, (r.workers w).started? = some u → t ≤ u → Complete leaf serial (r.workers w)
  cached : (∃ e ∈ r.shared.log, t ≤ e.1) → (∃ crl, cachedCrl r.shared.db caId = some crl ∧ Lists crl serial) ∧
    ∀ w, Complete leaf serial (r.workers w)

theorem Covered.step {s₀ : Db} {leaf : Bool} {serial : Text} {t : ℕ} (hnum : Numbers caId s₀ r)
    (h : Covered caId leaf serial t r) (o : ℕ × CrlAction) : Covered caId leaf serial t (r.step caId o) := by
  have hnum' := hnum.step o
  obtain ⟨w, e⟩ := o
  obtain ⟨hc, _⟩ := crlAct_fits (e := e) (hnum.fits w)
  have hdb : (r.step caId (w, e)).shared.db = (crlAct caId w e r.shared (r.workers w)).1.db := rfl
  have hlog : (r.step caId (w, e)).shared.log = (crlAct caId w e r.shared (r.workers w)).1.log := rfl
  have hwriter : (r.step caId (w, e)).shared.writer = (crlAct caId w e r.shared (r.workers w)).1.writer := rfl
  have hself : (r.step caId (w, e)).workers w = (crlAct caId w e r.shared (r.workers w)).2 := Pool.act_self
  have hother : ∀ j, j ≠ w → (r.step caId (w, e)).workers j = r.workers j := fun j hj => Pool.act_other hj
  have hacting : Complete leaf serial (r.workers w) → Complete leaf serial ((r.step caId (w, e)).workers w) := by
    intro hp
    rw [hself]
    exact crlAct_complete h.revoked hp
  refine ⟨?_, ?_, ?_⟩
  · rw [hdb]
    exact crlAct_revoked h.revoked
  · intro j u hu ht
    by_cases hj : j = w
    · subst hj
      rw [hself] at hu
      refine hacting ?_
      rcases crlAct_started hu with hold | ⟨_, hquiet⟩
      · exact h.later j u hold ht
      · exact complete_of_quiet hquiet
    · rw [hother j hj] at hu ⊢
      exact h.later j u hu ht
  · rintro ⟨e', he', ht⟩
    rw [hlog] at he'
    rcases hc.crl with ⟨hcols, hsame⟩ | ⟨started, crl, hp, hmore, hfree, hcols⟩
    · rw [hsame] at he'
      obtain ⟨⟨crl, hcrl, hlists⟩, hall⟩ := h.cached ⟨e', he', ht⟩
      refine ⟨⟨crl, ?_, hlists⟩, fun j => ?_⟩
      · rw [hdb, cachedCrl_eq, hcols, ← cachedCrl_eq, hcrl]
      · by_cases hj : j = w
        · rw [hj]
          exact hacting (hall w)
        · rw [hother j hj]
          exact hall j
    · -- the run that commits started after `t`, or took the row after one that did had committed
      have hcomplete : Complete leaf serial (r.workers w) := by
        by_cases hlate : t ≤ started
        · exact h.later w started (by rw [hp]; rfl) hlate
        · rw [hmore] at he'
          rcases List.mem_append.1 he' with hold | hnew
          · exact (h.cached ⟨e', hold, ht⟩).2 w
          · rw [List.mem_singleton.1 hnew] at ht
            exact absurd ht hlate
      have hlists : Lists crl serial := by
        rw [hp] at hcomplete
        exact hcomplete
      obtain ⟨old, hold⟩ := (hnum.fits w).number crl.number (by rw [hp]; rfl)
      refine ⟨⟨crl, ?_, hlists⟩, fun j => ?_⟩
      · rw [hdb, cachedCrl_eq, hcols, hold]
        rfl
      · by_cases hj : j = w
        · rw [hj]
          exact hacting hcomplete
        · refine complete_of_quiet ?_
          cases hk : ((r.step caId (w, e)).workers j).number? with
          | none => rfl
          | some k =>
            have hheld := (hnum'.fits j).writes (writes_of_number hk)
            rw [hwriter, hfree] at hheld
            cases hheld

end Race

/-! ## The result -/

theorem numbers_run (caId : ℤ) (s₀ : Db) (ops : List (ℕ × CrlAction)) :
    Numbers caId s₀ (run (CrlRace.step caId) (CrlRace.start s₀) ops) :=
  run_invariant (fun _ o h => h.step o) (Numbers.init s₀) ops

theorem past_run (caId : ℤ) (s₀ : Db) (ops : List (ℕ × CrlAction)) :
    Past (run (CrlRace.step caId) (CrlRace.start s₀) ops) := by
  have hboth := @run_invariant _ _ (CrlRace.step caId) (fun r => Numbers caId s₀ r ∧ Past r)
    (fun _ o h => ⟨h.1.step o, h.2.step h.1 o⟩) (CrlRace.start s₀)
    ⟨.init s₀, ⟨(fun _ _ h => nomatch h), (fun _ h => nomatch h)⟩⟩ ops
  exact hboth.2

theorem clock_run (caId : ℤ) (r : CrlRace) (ops : List (ℕ × CrlAction)) :
    (run (CrlRace.step caId) r ops).shared.clock = r.shared.clock + ops.length := by
  induction ops generalizing r with
  | nil => rfl
  | cons o ops ih =>
    rw [run_cons, ih, List.length_cons]
    have hstep : (r.step caId o).shared.clock = r.shared.clock + 1 := rfl
    omega

/-- **No revocation is lost.** In every interleaving: the numbers of the CRLs in commit order increase, and are new; the
cached CRL is the last one; and when a serial number was that of a revoked row after the steps `pre`, and a run that started
after them has committed, the cached CRL lists it. -/
theorem no_revocation_lost (caId : ℤ) (s₀ : Db) (ops : List (ℕ × CrlAction)) :
    let r := run (CrlRace.step caId) (CrlRace.start s₀) ops
    ((r.shared.log.map (·.2.number)).Pairwise (· < ·) ∧
      ∀ ca, s₀.cas.get? caId = some ca → ∀ e ∈ r.shared.log, ca.crlNumber < e.2.number) ∧
    cachedCrl r.shared.db caId = (r.shared.log.getLast?.map (·.2)).or (cachedCrl s₀ caId) ∧
    ∀ pre post serial, ops = pre ++ post →
      serial ∈ (revokedRows (run (CrlRace.step caId) (CrlRace.start s₀) pre).shared.db caId).map (·.1) →
      (∃ e ∈ r.shared.log, pre.length ≤ e.1) →
      ∃ crl, cachedCrl r.shared.db caId = some crl ∧ Lists crl serial := by
  intro r
  have hnum := numbers_run caId s₀ ops
  refine ⟨⟨hnum.sorted, ?_⟩, hnum.cached, ?_⟩
  · intro ca hca e he
    exact hnum.above e he (ca.crlNumber, ca.crl) (by simp [crlColumns, hca])
  intro pre post serial hops hserial hlate
  -- the leaves and the sub-CAs are read one after the other
  rw [revokedRows_eq, List.map_append, List.mem_append] at hserial
  have hleaf : ∃ leaf, Revoked leaf serial (run (CrlRace.step caId) (CrlRace.start s₀) pre).shared.db caId := by
    rcases hserial with hserial | hserial
    · exact ⟨true, hserial⟩
    · exact ⟨false, hserial⟩
  obtain ⟨leaf, hrev⟩ := hleaf
  have hclock : (run (CrlRace.step caId) (CrlRace.start s₀) pre).shared.clock = pre.length := by
    rw [clock_run]
    exact Nat.zero_add _
  have hpast := past_run caId s₀ pre
  rw [← hclock] at hlate
  -- nothing has started after `pre` when `pre` ends
  have hstart : Covered caId leaf serial (run (CrlRace.step caId) (CrlRace.start s₀) pre).shared.clock
      (run (CrlRace.step caId) (CrlRace.start s₀) pre) := by
    refine ⟨hrev, fun w u hu hle => ?_, ?_⟩
    · exact absurd (hpast.runs w u hu) (not_lt.2 hle)
    · rintro ⟨e, he, hle⟩
      exact absurd (hpast.log e he) (not_lt.2 hle)
  have hend := @run_invariant _ _ (CrlRace.step caId)
    (fun r => Numbers caId s₀ r ∧
      Covered caId leaf serial (run (CrlRace.step caId) (CrlRace.start s₀) pre).shared.clock r)
    (fun _ o h => ⟨h.1.step o, h.2.step h.1 o⟩) _ ⟨numbers_run caId s₀ pre, hstart⟩ post
  rw [← run_append, ← hops] at hend
  exact (hend.2.cached hlate).1

/-- worker 0 revokes the certificate of the sub-CA while worker 1 has read the row of the sub-CA; worker 2 starts later -/
def overlap : List (ℕ × CrlAction) :=
  [(1, .generate day (8 * day)), (0, .revokeCertificate 1 day "superseded"), (0, .next)]

def overlapEnd : List (ℕ × CrlAction) :=
  [(2, .generate day (8 * day)), (2, .next), (1, .next), (2, .next), (2, .next), (2, .next), (2, .next), (1, .next),
    (1, .next), (1, .next), (1, .next), (1, .next)]

theorem no_revocation_lost_overlap : ∃ crl,
    cachedCrl (run (CrlRace.step 2) (CrlRace.start sampleForest) (overlap ++ overlapEnd)).shared.db 2 = some crl ∧
      Lists crl (formatHex 256) := by
  refine (no_revocation_lost 2 sampleForest (overlap ++ overlapEnd)).2.2 overlap overlapEnd (formatHex 256) rfl ?_ ?_
  · decide +kernel
  · decide +kernel

end Chancery.Pki
