/-
What a report of `verify` is worth, for any content of the audit table.

(1) The walk (`verifyLoop_ok_iff`): from a given hash and id the loop reports ok exactly when the rows are a sealed
chain continuing from there, followed by unsealed rows only (`Vouched`).
(2) Soundness (`verify_sound_iff`): an ok report over a table with a sealed row means what it should (`Sound`) exactly
when the FIRST row is sealed. With an unsealed first row `verify` answers ok before it looks at any hash, although the
same shape one row later ("unsealed row inside the sealed range") is an error: `unsealed_front_hides_forgery`.
-/
import Mathlib.Tactic
import Chancery.Services.AuditChain

namespace Chancery.AuditChain

open Chancery.Core

/-! ## Hashes -/

theorem orElse_some_of_ne {s d : String} (h : s ≠ "") : orElse (some s) d = s := by simp [orElse, h]

@[simp] theorem orElse_none (d : String) : orElse none d = d := rfl

/-- a non-empty value can only come from the column itself -/
theorem eq_some_of_orElse {v : Option String} {s : String} (h : orElse v genesis = s) (hs : s ≠ "") : v = some s := by
  cases v with
  | none => exact absurd h.symm hs
  | some w =>
    simp only [orElse] at h
    split_ifs at h with hw
    · exact absurd h.symm hs
    · rw [h]

theorem orElse_orElse (v : Option String) : orElse (some (orElse v genesis)) genesis = orElse v genesis := by
  cases v with
  | none => rfl
  | some s => by_cases h : s = "" <;> simp [orElse, h, genesis]

/-- a hash is never the empty genesis text -/
theorem computeHash_ne_empty {H : Sha256} {r : AuditLog} {p : Option String} {h : String}
    (hc : computeHash H r p = .ok h) : h ≠ "" := by
  simp only [computeHash] at hc
  split_ifs at hc
  cases hc
  exact H.hexdigest_ne_empty _

theorem computeHash_orElse (H : Sha256) (r : AuditLog) (p : Option String) :
    computeHash H r (some (orElse p genesis)) = computeHash H r p := by
  simp only [computeHash, orElse_orElse]

/-! ## (1) The walk -/

/-- the rows continue a chain whose last hash is `prev`, ids from `next` on: sealed rows first, then unsealed ones -/
def Vouched (H : Sha256) : String → ℤ → List AuditLog → Prop
  | _, _, [] => True
  | prev, next, row :: rest =>
    match row.entryHash with
    | none => ∀ r ∈ rest, r.isSealed = false
    | some h =>
      row.id = next ∧ orElse row.prevHash genesis = prev ∧ computeHash H row (some prev) = .ok h ∧
        Vouched H h (row.id + 1) rest

theorem vouched_of_unsealed {H : Sha256} {prev : String} {next : ℤ} {rows : List AuditLog}
    (h : ∀ r ∈ rows, r.isSealed = false) : Vouched H prev next rows := by
  cases rows with
  | nil => trivial
  | cons row rest =>
    have hrow : row.entryHash = none := by simpa [AuditLog.isSealed] using h row (by simp)
    simp only [Vouched, hrow]
    exact fun r hr => h r (List.mem_cons_of_mem _ hr)

/-- in a sorted table the sealed rows with a larger id are the sealed rows further on -/
theorem any_sealed_after {pre rest : List AuditLog} {row : AuditLog}
    (hs : (pre ++ row :: rest).Pairwise (fun a b => a.id < b.id)) :
    ((pre ++ row :: rest).any fun r => decide (row.id < r.id) && r.isSealed) = rest.any (·.isSealed) := by
  obtain ⟨_, hrest, hpre⟩ := List.pairwise_append.1 hs
  have hlt : ∀ r ∈ rest, row.id < r.id := (List.pairwise_cons.1 hrest).1
  rw [Bool.eq_iff_iff, List.any_eq_true, List.any_eq_true]
  constructor
  · rintro ⟨r, hr, hp⟩
    simp only [Bool.and_eq_true, decide_eq_true_eq] at hp
    refine ⟨r, ?_, hp.2⟩
    rcases List.mem_append.1 hr with hr | hr
    · have := hpre r hr row List.mem_cons_self
      omega
    · rcases List.mem_cons.1 hr with rfl | hr
      · omega
      · exact hr
  · rintro ⟨r, hr, hp⟩
    exact ⟨r, by simp [hr], by simp [hlt r hr, hp]⟩

/-- **(1) The walk.** From an ok report the loop ends in an ok report exactly on the rows that continue the chain. -/
theorem verifyLoop_ok_iff {H : Sha256} {pre rest : List AuditLog} {prev : String} {next : ℤ} {report : Report}
    (hs : (pre ++ rest).Pairwise (fun a b => a.id < b.id)) (hok : report.ok = true) :
    (∃ r, verifyLoop H (pre ++ rest) rest prev next report = .ok r ∧ r.ok = true) ↔ Vouched H prev next rest := by
  induction rest generalizing pre prev next report with
  | nil => simp [verifyLoop, Vouched, hok]
  | cons row rest ih =>
    have hs' : (pre ++ [row] ++ rest).Pairwise (fun a b => a.id < b.id) := by simpa using hs
    have ih' : ∀ p n (rep : Report), rep.ok = true →
        ((∃ r, verifyLoop H (pre ++ row :: rest) rest p n rep = .ok r ∧ r.ok = true) ↔ Vouched H p n rest) := by
      intro p n rep h
      simpa using @ih (pre ++ [row]) p n rep hs' h
    cases he : row.entryHash with
    | none =>
      simp only [verifyLoop, Vouched, he, any_sealed_after hs]
      split_ifs with hany
      · obtain ⟨r, hr, hrs⟩ := List.any_eq_true.1 hany
        constructor
        · rintro ⟨rep, hrep, hrok⟩
          cases hrep
          cases hrok
        · intro h
          rw [h r hr] at hrs
          cases hrs
      · have huns : ∀ r ∈ rest, r.isSealed = false := by simpa using hany
        exact (ih' prev next { report with unsealed := report.unsealed + 1 } hok).trans
          ⟨fun _ => huns, fun _ => vouched_of_unsealed huns⟩
    | some h =>
      simp only [verifyLoop, Vouched, he]
      by_cases hid : row.id = next
      · by_cases hprev : orElse row.prevHash genesis = prev
        · cases hc : computeHash H row (some prev) with
          | error e => simp [hid, hprev]
          | ok c =>
            by_cases hch : c = h
            · subst hch
              have := ih' c (row.id + 1)
                { report with checked := report.checked + 1, headId := some row.id, headHash := some c } hok
              simpa [hid, hprev] using this
            · simp [hid, hprev, hch, Report.fail]
        · simp [hid, hprev, Report.fail]
      · simp [hid, Report.fail]

/-! ## (2) Soundness of a report -/

/-- the rows up to the highest sealed id -/
def covered (t : AuditTable) : List AuditLog :=
  t.rows.filter fun r => t.rows.any fun s => s.isSealed && decide (r.id ≤ s.id)

/-- a checkpoint row that records `first` as the row after the last pruned one, and its `prev_hash` -/
def VouchesFor (loads : Json.Loads) (cp first : AuditLog) : Prop :=
  cp.action = "audit_checkpoint" ∧ ∃ items, loads (orElse cp.details "\x7b\x7d") = .ok (.obj items) ∧
    (Json.get items "pruned_through_id").eqInt (first.id - 1) = true ∧
    (Json.get items "pruned_through_hash").eqStr (orElse first.prevHash genesis) = true

/-- what an ok report promises about the table -/
structure Sound (H : Sha256) (loads : Json.Loads) (t : AuditTable) : Prop where
  noHole : ∀ r ∈ covered t, r.isSealed = true
  contiguous : ((covered t).map (·.id)).IsChain (fun i j => j = i + 1)
  fromFirst : (covered t).head? = t.rows.head?
  hashes : ∀ r ∈ covered t, ∃ h, computeHash H r r.prevHash = .ok h ∧ r.entryHash = some h
  links : (covered t).IsChain (fun a b => b.prevHash = a.entryHash)
  start : ∀ first ∈ t.rows.head?, orElse first.prevHash genesis = genesis ∨ ∃ cp ∈ t, VouchesFor loads cp first

def StartsSealed (t : AuditTable) : Prop := ∀ first ∈ t.rows.head?, first.isSealed = true

/-- a sealed chain from the hash `prev` and the id `next` -/
def Chained (H : Sha256) : String → ℤ → List AuditLog → Prop
  | _, _, [] => True
  | prev, next, row :: rest =>
    row.id = next ∧ orElse row.prevHash genesis = prev ∧
      ∃ h, row.entryHash = some h ∧ computeHash H row (some prev) = .ok h ∧ Chained H h (row.id + 1) rest

/-- the two parts of a vouched table -/
theorem Vouched.split {H : Sha256} {prev : String} {next : ℤ} {rows : List AuditLog} (h : Vouched H prev next rows) :
    ∃ done tail, rows = done ++ tail ∧ Chained H prev next done ∧ ∀ r ∈ tail, r.isSealed = false := by
  induction rows generalizing prev next with
  | nil => exact ⟨[], [], rfl, trivial, by simp⟩
  | cons row rest ih =>
    cases he : row.entryHash with
    | none =>
      simp only [Vouched, he] at h
      exact ⟨[], row :: rest, rfl, trivial, by
        rintro r (_ | ⟨_, hr⟩)
        · simp [AuditLog.isSealed, he]
        · exact h r hr⟩
    | some c =>
      simp only [Vouched, he] at h
      obtain ⟨hid, hprev, hc, hrest⟩ := h
      obtain ⟨done, tail, rfl, hdone, htail⟩ := ih hrest
      exact ⟨row :: done, tail, rfl, ⟨hid, hprev, c, he, hc, hdone⟩, htail⟩

namespace Chained

variable {H : Sha256} {prev : String} {next : ℤ} {rows : List AuditLog}

theorem all_sealed (h : Chained H prev next rows) : ∀ r ∈ rows, r.isSealed = true := by
  induction rows generalizing prev next with
  | nil => simp
  | cons row rest ih =>
    obtain ⟨_, _, c, he, _, hrest⟩ := h
    rintro r (_ | ⟨_, hr⟩)
    · simp [AuditLog.isSealed, he]
    · exact ih hrest r hr

theorem all_hashed (h : Chained H prev next rows) :
    ∀ r ∈ rows, ∃ c, computeHash H r r.prevHash = .ok c ∧ r.entryHash = some c := by
  induction rows generalizing prev next with
  | nil => simp
  | cons row rest ih =>
    obtain ⟨_, hprev, c, he, hc, hrest⟩ := h
    rintro r (_ | ⟨_, hr⟩)
    · exact ⟨c, by rw [← hc, ← hprev, computeHash_orElse], he⟩
    · exact ih hrest r hr

theorem ids (h : Chained H prev next rows) : (rows.map (·.id)).IsChain (fun i j => j = i + 1) := by
  induction rows generalizing prev next with
  | nil => simp
  | cons row rest ih =>
    obtain ⟨_, _, c, _, _, hrest⟩ := h
    cases rest with
    | nil => simp
    | cons row' rest' => exact List.isChain_cons_cons.2 ⟨hrest.1, ih hrest⟩

theorem links (h : Chained H prev next rows) : rows.IsChain (fun a b => b.prevHash = a.entryHash) := by
  induction rows generalizing prev next with
  | nil => simp
  | cons row rest ih =>
    obtain ⟨_, _, c, he, hc, hrest⟩ := h
    cases rest with
    | nil => simp
    | cons row' rest' =>
      have hlink := eq_some_of_orElse hrest.2.1 (computeHash_ne_empty hc)
      exact List.isChain_cons_cons.2 ⟨hlink.trans he.symm, ih hrest⟩

end Chained

/-- the covered rows of a table made of sealed rows followed by unsealed ones -/
theorem covered_eq {t : AuditTable} {done tail : List AuditLog} (ht : t.rows = done ++ tail)
    (hdone : ∀ r ∈ done, r.isSealed = true) (htail : ∀ r ∈ tail, r.isSealed = false) : covered t = done := by
  have hs := t.sorted
  rw [ht] at hs
  have hlt := (List.pairwise_append.1 hs).2.2
  simp only [covered, ht]
  rw [List.filter_append, List.filter_eq_self.2, List.filter_eq_nil_iff.2, List.append_nil]
  · intro r hr
    simp only [List.any_eq_true, Bool.and_eq_true, decide_eq_true_eq, not_exists, not_and]
    intro s hsm hss
    rcases List.mem_append.1 hsm with h | h
    · exact not_le.2 (hlt s h r hr)
    · rw [htail s h] at hss
      cases hss
  · intro r hr
    exact List.any_eq_true.2 ⟨r, by simp [hr], by simp [hdone r hr]⟩

/-- what the walk's start has checked about the first row -/
theorem checkpointLoop_vouches {loads : Json.Loads} {first cp : AuditLog} {items : List (String × Json)}
    {rows : List AuditLog} (h : checkpointLoop loads (first.id - 1) rows = .ok (some (cp, items))) :
    cp ∈ rows ∧ loads (orElse cp.details "\x7b\x7d") = .ok (.obj items) ∧
      (Json.get items "pruned_through_id").eqInt (first.id - 1) = true := by
  induction rows with
  | nil => simp [checkpointLoop] at h
  | cons row rest ih =>
    simp only [checkpointLoop] at h
    split at h
    · split_ifs at h
      exact (ih h).imp_left (List.mem_cons_of_mem _)
    · rename_i its hl
      split_ifs at h with hid
      · cases h
        exact ⟨List.mem_cons_self, hl, hid⟩
      · exact (ih h).imp_left (List.mem_cons_of_mem _)
    · cases h

theorem verifyStart_inl {loads : Json.Loads} {t : AuditTable} {first : AuditLog} {prev : String} {report : Report}
    (h : verifyStart loads t none first = .ok (.inl (prev, report))) :
    report.ok = true ∧ prev = orElse first.prevHash genesis ∧
      (orElse first.prevHash genesis = genesis ∨ ∃ cp ∈ t, VouchesFor loads cp first) := by
  simp only [verifyStart, Option.getD_none, ne_eq, not_true_eq_false, if_false] at h
  split_ifs at h with hg
  · cases h
    exact ⟨rfl, hg.symm, Or.inl hg⟩
  · obtain ⟨o, hcp, h⟩ := bind_eq_ok.1 h
    rcases o with _ | ⟨cp, items⟩
    · cases h
    · simp only at h
      split_ifs at h with hh
      · cases h
        obtain ⟨hmem, hl, hid⟩ := checkpointLoop_vouches hcp
        simp only [checkpoints, List.mem_filter, List.mem_reverse, beq_iff_eq] at hmem
        exact ⟨rfl, rfl, Or.inr ⟨cp, hmem.1, hmem.2, items, hl, hid, hh⟩⟩
      · cases h

theorem verifyStart_inr {loads : Json.Loads} {t : AuditTable} {first : AuditLog} {report : Report}
    (h : verifyStart loads t none first = .ok (.inr report)) : report.ok = false := by
  simp only [verifyStart, Option.getD_none, ne_eq, not_true_eq_false, if_false] at h
  split_ifs at h with hg
  · cases h
  · obtain ⟨o, hcp, h⟩ := bind_eq_ok.1 h
    rcases o with _ | ⟨cp, items⟩
    · cases h
      rfl
    · simp only at h
      split_ifs at h
      · cases h
      · cases h
        rfl

/-- an ok report over a table that starts sealed has checked all of `Sound` -/
theorem sound_of_starts_sealed {H : Sha256} {loads : Json.Loads} {t : AuditTable} {report : Report}
    (hv : verify H loads t none = .ok report) (hok : report.ok = true) (hstart : StartsSealed t) :
    Sound H loads t := by
  simp only [verify, Option.getD_none, ne_eq, not_true_eq_false, if_false] at hv
  cases hrows : t.rows with
  | nil => exact ⟨by simp [covered, hrows], by simp [covered, hrows], by simp [covered, hrows],
      by simp [covered, hrows], by simp [covered, hrows], by simp [hrows]⟩
  | cons first rest =>
    have hfirst : first.entryHash.isNone = false := by simpa [hrows, AuditLog.isSealed] using hstart first (by simp [hrows])
    simp only [hrows, hfirst] at hv
    obtain ⟨o, ho, hv⟩ := bind_eq_ok.1 hv
    rcases o with ⟨prev, rep⟩ | rep
    · obtain ⟨hrep, hprev, hst⟩ := verifyStart_inl ho
      have hsorted : ([] ++ (first :: rest)).Pairwise (fun a b : AuditLog => a.id < b.id) := by
        simpa [hrows] using t.sorted
      have hvouched := (verifyLoop_ok_iff hsorted hrep).1 ⟨report, hv, hok⟩
      obtain ⟨done, tail, heq, hchain, htail⟩ := hvouched.split
      have hcov : covered t = done := covered_eq (hrows.trans heq) hchain.all_sealed htail
      -- the first row is sealed, so it is in the sealed part
      obtain ⟨r, done', rfl⟩ : ∃ r done', done = r :: done' := by
        cases done with
        | nil =>
          have := htail first (by rw [← List.nil_append tail, ← heq]; simp)
          simp [AuditLog.isSealed, Option.isNone_iff_eq_none] at this hfirst
          simp [this] at hfirst
        | cons r done' => exact ⟨r, done', rfl⟩
      refine ⟨?_, ?_, ?_, ?_, ?_, ?_⟩
      · rw [hcov]; exact hchain.all_sealed
      · rw [hcov]; exact hchain.ids
      · rw [hcov, hrows, heq]; rfl
      · rw [hcov]; exact hchain.all_hashed
      · rw [hcov]; exact hchain.links
      · simpa [hrows] using hst
    · cases hv
      rw [verifyStart_inr ho] at hok
      cases hok

/-- **(2) Soundness of the verifier.** Where `verify` says ok and a sealed row exists, the table is what the report
promises exactly when its first row is sealed. -/
theorem verify_sound_iff {H : Sha256} {loads : Json.Loads} {t : AuditTable} {report : Report}
    (hv : verify H loads t none = .ok report) (hok : report.ok = true) (hs : ∃ r ∈ t, r.isSealed = true) :
    Sound H loads t ↔ StartsSealed t := by
  refine ⟨fun h first hf => ?_, sound_of_starts_sealed hv hok⟩
  obtain ⟨r, hr, hrs⟩ := hs
  refine h.noHole first (List.mem_filter.2 ⟨List.mem_of_mem_head? hf, List.any_eq_true.2 ⟨r, hr, ?_⟩⟩)
  have hle : first.id ≤ r.id := by
    obtain ⟨rest, hrows⟩ : ∃ rest, t.rows = first :: rest := List.head?_eq_some_iff.1 hf
    have hsorted := t.sorted
    rw [Table.mem_def, hrows] at hr
    rw [hrows] at hsorted
    rcases List.mem_cons.1 hr with rfl | hr
    · exact le_rfl
    · exact ((List.pairwise_cons.1 hsorted).1 r hr).le
  simp [hrs, hle]

/-! ### Two tables -/

/-- no stored text parses -/
def noLoads : Json.Loads := fun _ => .error (.valueError "Expecting value")

def plainRow (id : ℤ) : AuditLog :=
  ⟨id, some 0, none, "cli", "test_event", none, none, none, "local", none, none⟩

/-- the hash of a plain row behind `prev` -/
def rowHash (H : Sha256) (id : ℤ) (prev : String) : String := H.hexdigest (prev ++ "\n" ++ canonical (plainRow id))

/-- one more row, sealed behind `prev` -/
def appendSealed (H : Sha256) (prev : String) (t : AuditTable) : AuditTable :=
  t.insert fun id => (plainRow id).sealWith prev (rowHash H id prev)

/-- three sealed rows, the first one behind the genesis text -/
def sealedTable (H : Sha256) : AuditTable :=
  appendSealed H (rowHash H 2 (rowHash H 1 genesis)) (appendSealed H (rowHash H 1 genesis)
    (appendSealed H genesis Table.empty))

/-- a plain row behind its hash passes -/
theorem verifyLoop_plainRow (H : Sha256) {prev : String} (hprev : isAscii prev.toList = true) (all rest : List AuditLog)
    (id : ℤ) (report : Report) :
    verifyLoop H all ((plainRow id).sealWith prev (rowHash H id prev) :: rest) prev id report =
      verifyLoop H all rest (rowHash H id prev) (id + 1)
        { report with checked := report.checked + 1, headId := some id, headHash := some (rowHash H id prev) } := by
  have hbehind : orElse (some prev) genesis = prev := by
    by_cases hempty : prev = ""
    · rw [hempty]
      rfl
    · simp [orElse, hempty]
  have hhash : computeHash H ((plainRow id).sealWith prev (rowHash H id prev)) (some prev) = .ok (rowHash H id prev) := by
    unfold computeHash
    rw [hbehind, if_pos hprev]
    rfl
  have hid : ((plainRow id).sealWith prev (rowHash H id prev)).id = id := rfl
  have hentry : ((plainRow id).sealWith prev (rowHash H id prev)).entryHash = some (rowHash H id prev) := rfl
  have hlink : ((plainRow id).sealWith prev (rowHash H id prev)).prevHash = some prev := rfl
  simp only [verifyLoop, hentry, hid, hlink, hbehind, hhash, ne_eq, not_true_eq_false, if_false]

theorem verify_sealedTable (H : Sha256) :
    verify H noLoads (sealedTable H) none = .ok ⟨true, 3, none, none, some "genesis", some 3,
      some (rowHash H 3 (rowHash H 2 (rowHash H 1 genesis))), 0⟩ := by
  have hascii : ∀ id prev, isAscii (rowHash H id prev).toList = true := fun id prev => H.isAscii_hexdigest _
  calc verify H noLoads (sealedTable H) none
      = verifyLoop H (sealedTable H).rows (sealedTable H).rows genesis 1
          { Report.initial with start := some "genesis" } := rfl
    _ = verifyLoop H (sealedTable H).rows (sealedTable H).rows.tail (rowHash H 1 genesis) (1 + 1) _ :=
      verifyLoop_plainRow H rfl _ _ 1 _
    _ = verifyLoop H (sealedTable H).rows (sealedTable H).rows.tail.tail (rowHash H 2 (rowHash H 1 genesis)) (2 + 1) _ :=
      verifyLoop_plainRow H (hascii 1 genesis) _ _ 2 _
    _ = verifyLoop H (sealedTable H).rows [] (rowHash H 3 (rowHash H 2 (rowHash H 1 genesis))) (3 + 1) _ :=
      verifyLoop_plainRow H (hascii 2 (rowHash H 1 genesis)) _ _ 3 _
    _ = _ := rfl

/-- the theorem applies to an honest table -/
theorem verify_sound_sealedTable : (sealedTable Sha256.echo).rows.length = 3 ∧
    Sound Sha256.echo noLoads (sealedTable Sha256.echo) :=
  ⟨rfl, (verify_sound_iff (verify_sealedTable Sha256.echo) rfl ⟨_, List.mem_cons_self, rfl⟩).2 (by rintro _ ⟨⟩; rfl)⟩

/-- an unsealed row in front of a sealed one whose hashes are made up -/
def forgedTable : AuditTable :=
  ((Table.empty : AuditTable).insert plainRow).insert fun id => (plainRow id).sealWith "forged" "forged"

/-- **An unsealed front hides a forgery.** `verify` says ok without looking at the sealed row behind it. -/
theorem unsealed_front_hides_forgery :
    verify Sha256.echo noLoads forgedTable none =
        .ok { Report.initial with unsealed := 1, start := some "unsealed" } ∧
      (∃ r ∈ forgedTable, r.isSealed = true) ∧ ¬ Sound Sha256.echo noLoads forgedTable := by
  refine ⟨by rfl, ⟨(plainRow 2).sealWith "forged" "forged", by decide, rfl⟩, fun h => ?_⟩
  exact absurd (h.noHole (plainRow 1) (by decide)) (by decide)

end Chancery.AuditChain
