/-
Does `verify` raise a false alarm on a log that only the application has written?

(1) `verify_of_accepted`: the table carries the rows archived since the chain last started (`Accepted`); where they are
not empty, the newest checkpoint that records a prune records the last of them. On such a table `verify` is ok.
(2) `verify_ok`: every operation keeps that, whatever the retention, the grace period and the order, provided that no
appended entry poses as the record of a prune (`Genuine`). A seal that finds no sealed row starts a new chain, and the
rows archived before no longer matter to the verifier.
(3) `posing_entry_alarms`: `verify` believes the newest `audit_checkpoint` row that names the right id, whoever wrote it.
-/
import Mathlib.Tactic
import Chancery.Core.JsonLoads
import Chancery.Scenarios.AuditSealing

namespace Chancery.AuditChain.FalseAlarm

open Chancery.Core
open Sealing (contents contents_id sealLoop_contents)

variable {H : Sha256} {floats : Json.Floats}

/-! ## Entries -/

/-- an entry of the checkpoint action has a dict for its details, and it names no pruned id -/
def Genuine (floats : Json.Floats) (e : Entry) : Prop :=
  e.action = "audit_checkpoint" →
    ∀ items ∈ e.details, Json.Written floats (.obj items) ∧ "pruned_through_id" ∉ items.map (·.1)

/-- the appended entries are genuine; the other operations are free -/
def Plain (floats : Json.Floats) : Op → Prop
  | .append _ e _ => Genuine floats e
  | _ => True

/-- the stored details read back; no details count as an empty dict -/
theorem loads_storeDetails {details : Option (List (String × Json))}
    (h : ∀ items ∈ details, Json.Written floats (.obj items)) :
    Json.loads floats (orElse (storeDetails details) "\x7b\x7d") = .ok (.obj (details.getD [])) := by
  have hempty : Json.loads floats "\x7b\x7d" = .ok (.obj []) :=
    @Json.loads_dumps floats (.obj []) ⟨List.nodup_nil, trivial⟩
  match details, h with
  | none, _ => exact hempty
  | some [], _ => exact hempty
  | some (item :: items), h =>
    have hw : Json.Written floats (.obj (item :: items)) := h _ rfl
    have hne : Json.dumps .default (.obj (item :: items)) ≠ "" := by
      obtain ⟨c, t, hhead, -⟩ := Json.dumpsText_head hw
      intro he
      have hl := congrArg String.toList he
      rw [Json.dumps, String.toList_ofList, hhead] at hl
      exact absurd hl (List.cons_ne_nil c t)
    show Json.loads floats (orElse (some _) _) = _
    rw [orElse_some_of_ne hne]
    exact Json.loads_dumps hw

theorem logAction_action (e : Entry) (c : Caller) (now : DateTime) (id : ℤ) : (logAction e c now id).action = e.action := by
  cases c <;> rfl

theorem logAction_details (e : Entry) (c : Caller) (now : DateTime) (id : ℤ) :
    (logAction e c now id).details = storeDetails e.details := by
  cases c <;> rfl

/-! ## Checkpoints -/

/-- the newest checkpoint that records a prune through `before` records this hash -/
def Records (loads : Json.Loads) (t : AuditTable) (before : ℤ) (hash : String) : Prop :=
  ∃ cp items, checkpointLoop loads before (checkpoints t) = .ok (some (cp, items)) ∧
    (Json.get items "pruned_through_hash").eqStr hash = true

/-- the checkpoints after an append: the new row is the newest -/
theorem checkpoints_append (t : AuditTable) (e : Entry) (c : Caller) (now : DateTime) :
    checkpoints (append t e c now) =
      if e.action = "audit_checkpoint" then logAction e c now t.nextKey :: checkpoints t else checkpoints t := by
  unfold checkpoints append
  rw [Table.rows_insert, List.reverse_append, List.reverse_singleton, List.singleton_append, List.filter_cons,
    logAction_action]
  split_ifs with h h' h'
  · rfl
  · exact absurd (eq_of_beq h) h'
  · exact absurd (beq_of_eq h') h
  · rfl

/-- a genuine entry hides no checkpoint -/
theorem Records.append {t : AuditTable} {before : ℤ} {hash : String} (h : Records (Json.loads floats) t before hash)
    {e : Entry} (he : Genuine floats e) (c : Caller) (now : DateTime) :
    Records (Json.loads floats) (AuditChain.append t e c now) before hash := by
  unfold Records
  rw [checkpoints_append]
  split_ifs with hact
  · have hgen := he hact
    have hload := loads_storeDetails fun items hi => (hgen items hi).1
    have hget : Json.get (e.details.getD []) "pruned_through_id" = .null := by
      unfold Json.get
      rw [List.lookup_eq_none_iff.2, Option.getD_none]
      intro p hp
      cases hd : e.details with
      | none =>
        rw [hd] at hp
        exact absurd hp List.not_mem_nil
      | some items =>
        rw [hd] at hp
        have hne : "pruned_through_id" ≠ p.1 := fun hk => (hgen items hd).2 (hk ▸ List.mem_map_of_mem hp)
        simpa using hne
    obtain ⟨cp, items, hloop, hhash⟩ := h
    refine ⟨cp, items, ?_, hhash⟩
    rw [checkpointLoop, logAction_details, hload]
    simp only [hget, Json.eqInt, Bool.false_eq_true, if_false]
    exact hloop
  · exact h

/-- the checkpoint of a prune records the last pruned row -/
theorem records_prune (kept : AuditTable) (first last : AuditLog) (rows : List AuditLog) (now later : DateTime)
    (days : ℤ) (c : Caller) {hash : String} (hlast : last.entryHash = some hash) :
    Records (Json.loads floats) (append kept (checkpointEntry first last rows now days) c later) last.id hash := by
  unfold Records
  rw [checkpoints_append, if_pos (by rfl), checkpointLoop, logAction_details, loads_storeDetails]
  · refine ⟨_, _, if_pos ?_, ?_⟩
    · show (Json.num last.id).eqInt last.id = true
      exact beq_self_eq_true last.id
    · show (Json.ofStr last.entryHash).eqStr hash = true
      rw [hlast]
      exact beq_self_eq_true hash
  · rintro items hi
    cases hi
    refine ⟨by simp, trivial, trivial, ?_, trivial, trivial, trivial, trivial⟩
    rw [hlast]
    exact trivial

/-- the search reads only what a seal does not change -/
theorem checkpointLoop_map {loads : Json.Loads} {f : AuditLog → AuditLog} {rows : List AuditLog}
    (hf : ∀ r ∈ rows, contents (f r) = contents r) {before : ℤ} {cp : AuditLog} {items : List (String × Json)}
    (h : checkpointLoop loads before rows = .ok (some (cp, items))) :
    ∃ cp', checkpointLoop loads before (rows.map f) = .ok (some (cp', items)) := by
  induction rows with
  | nil => cases h
  | cons row rest ih =>
    have hdetails : (f row).details = row.details := by
      change (contents (f row)).details = (contents row).details
      rw [hf row List.mem_cons_self]
    have hrest := ih fun r hr => hf r (List.mem_cons_of_mem _ hr)
    rw [List.map_cons]
    simp only [checkpointLoop, hdetails] at h ⊢
    split at h
    · split_ifs at h with hv
      rw [if_pos hv]
      exact hrest h
    · split_ifs at h with hid
      · cases h
        rw [if_pos hid]
        exact ⟨_, rfl⟩
      · rw [if_neg hid]
        exact hrest h
    · cases h

/-- writing sealed rows back changes no checkpoint's details -/
theorem Records.writeBack {loads : Json.Loads} {t : AuditTable} {before : ℤ} {hash : String}
    (h : Records loads t before hash) {done : List AuditLog} (hdone : ∀ d ∈ done, ∃ row ∈ t, contents row = contents d) :
    Records loads (AuditChain.writeBack t done) before hash := by
  obtain ⟨cp, items, hloop, hhash⟩ := h
  let f : AuditLog → AuditLog := fun r => (done.find? (·.id == r.id)).getD r
  have hf : ∀ r ∈ t, contents (f r) = contents r := by
    intro r hr
    show contents ((done.find? (·.id == r.id)).getD r) = _
    cases hfind : done.find? (·.id == r.id) with
    | none => rfl
    | some d =>
      obtain ⟨row, hrow, hc⟩ := hdone d (List.mem_of_find?_eq_some hfind)
      have hid : d.id = r.id := by simpa using List.find?_some hfind
      have hrr : row = r := Table.eq_of_key hrow hr ((contents_id hc).trans hid)
      rw [Option.getD_some, ← hc, hrr]
  have hcheck : checkpoints (AuditChain.writeBack t done) = (checkpoints t).map f := by
    unfold checkpoints AuditChain.writeBack
    rw [Table.rows_mapRows, ← List.map_reverse, List.filter_map]
    congr 1
    refine List.filter_congr fun r hr => ?_
    have haction : (f r).action = r.action := by
      change (contents (f r)).action = (contents r).action
      rw [hf r (List.mem_reverse.1 hr)]
    show ((f r).action == _) = _
    rw [haction]
  obtain ⟨cp', hloop'⟩ := checkpointLoop_map (fun r hr => hf r (by
    unfold checkpoints at hr
    exact List.mem_reverse.1 (List.mem_of_mem_filter hr))) hloop
  exact ⟨cp', items, by rw [hcheck]; exact hloop', hhash⟩

/-! ## (1) Accepted tables -/

/-- `epoch`: the rows archived since the chain last started -/
structure Accepted (H : Sha256) (loads : Json.Loads) (t : AuditTable) (epoch : List AuditLog) : Prop where
  inv : Inv ⟨t, epoch, 0⟩
  computed : ∀ r ∈ sealedRows t, ∃ h, computeHash H r r.prevHash = .ok h ∧ r.entryHash = some h
  recorded : ∀ last ∈ epoch.getLast?, ∀ hash ∈ last.entryHash, Records loads t last.id hash

/-- contiguous linked rows with the right hashes, then unsealed rows, are what the walk accepts -/
theorem vouched_of_links {rows tail : List AuditLog} (hids : (rows.map (·.id)).IsChain (fun i j => j = i + 1))
    (hlinks : rows.IsChain (fun a b => b.prevHash = a.entryHash))
    (hcomputed : ∀ r ∈ rows, ∃ h, computeHash H r r.prevHash = .ok h ∧ r.entryHash = some h)
    (htail : ∀ r ∈ tail, r.isSealed = false) {prev : String} {next : ℤ}
    (hnext : ∀ r ∈ rows.head?, r.id = next ∧ orElse r.prevHash genesis = prev) :
    Vouched H prev next (rows ++ tail) := by
  induction rows generalizing prev next with
  | nil => exact vouched_of_unsealed htail
  | cons row rest ih =>
    obtain ⟨h, hc, he⟩ := hcomputed row List.mem_cons_self
    obtain ⟨hid, hprev⟩ := hnext row rfl
    rw [List.map_cons] at hids
    have hrest : Vouched H h (row.id + 1) (rest ++ tail) := by
      refine ih hids.of_cons hlinks.of_cons (fun r hr => hcomputed r (List.mem_cons_of_mem _ hr)) ?_
      intro r hr
      have hlink : r.prevHash = row.entryHash := hlinks.rel_head? hr
      have hnextid : r.id = row.id + 1 := hids.rel_head? (by simp [Option.mem_def.1 hr])
      refine ⟨hnextid, ?_⟩
      rw [hlink, he, orElse_some_of_ne (computeHash_ne_empty hc)]
    simp only [List.cons_append, Vouched, he]
    refine ⟨hid, hprev, ?_, hrest⟩
    rw [← hprev, computeHash_orElse]
    exact hc

/-- a sealed first row starts the chain, or the newest checkpoint that names its predecessor has its hash -/
theorem Accepted.start {loads : Json.Loads} {t : AuditTable} {epoch : List AuditLog} (h : Accepted H loads t epoch)
    {first : AuditLog} (hfirst : (sealedRows t).head? = some first) :
    orElse first.prevHash genesis = genesis ∨
      Records loads t (first.id - 1) (orElse first.prevHash genesis) := by
  have hone : OneChain (epoch ++ sealedRows t) := h.inv.one
  cases hlast : epoch.getLast? with
  | none =>
    have hnil : epoch = [] := List.getLast?_eq_none_iff.1 hlast
    have hat : (epoch ++ sealedRows t)[0]? = some first := by
      rw [hnil, List.nil_append, ← List.head?_eq_getElem?]
      exact hfirst
    left
    rw [(hone.start 0 first hat).2 rfl]
    rfl
  | some last =>
    have hmem : last ∈ epoch := List.mem_of_getLast? hlast
    obtain ⟨hash, he, hne, -⟩ := h.inv.hashed last (List.mem_append_left _ hmem)
    have hlink : first.prevHash = last.entryHash := (List.isChain_append.1 hone.links).2.2 last hlast first hfirst
    have hid : first.id = last.id + 1 := by
      have hids := hone.ids
      rw [List.map_append] at hids
      exact (List.isChain_append.1 hids).2.2 last.id (by simp [hlast]) first.id (by simp [hfirst])
    right
    rw [hlink, he, orElse_some_of_ne hne, hid, add_sub_cancel_right]
    exact h.recorded last hlast hash he

/-- **(1) Accepted tables verify.** -/
theorem verify_of_accepted {loads : Json.Loads} {t : AuditTable} {epoch : List AuditLog}
    (h : Accepted H loads t epoch) : ∃ report, verify H loads t none = .ok report ∧ report.ok = true := by
  have hsplit : t.rows = sealedRows t ++ unsealedRows t := h.inv.rows_eq
  unfold verify
  simp only [Option.getD_none, ne_eq, not_true_eq_false, if_false]
  cases hrows : t.rows with
  | nil => exact ⟨_, rfl, rfl⟩
  | cons first rest =>
    simp only []
    by_cases hsealed : first.isSealed = true
    · have hfirst : (sealedRows t).head? = some first := by
        rw [sealedRows, hrows, List.filter_cons_of_pos hsealed]
        rfl
      have hnone : first.entryHash.isNone = false := by
        rw [AuditLog.isSealed] at hsealed
        rw [← Option.not_isSome, hsealed]
        rfl
      -- where the walk starts
      obtain ⟨report, hstart, hok⟩ : ∃ report, verifyStart loads t none first =
          .ok (.inl (orElse first.prevHash genesis, report)) ∧ report.ok = true := by
        unfold verifyStart
        simp only [Option.getD_none, ne_eq, not_true_eq_false, if_false]
        by_cases hg : orElse first.prevHash genesis = genesis
        · rw [if_pos hg, hg]
          exact ⟨_, rfl, rfl⟩
        · rw [if_neg hg]
          obtain ⟨cp, items, hloop, hhash⟩ := (h.start hfirst).resolve_left hg
          unfold checkpointFor
          rw [hloop]
          simp only [bind, Except.bind, hhash, if_true]
          exact ⟨_, rfl, rfl⟩
      -- and what it walks over
      have hvouched : Vouched H (orElse first.prevHash genesis) first.id (first :: rest) := by
        have hone : OneChain (epoch ++ sealedRows t) := h.inv.one
        have hids := hone.ids
        rw [List.map_append] at hids
        rw [← hrows, hsplit]
        refine vouched_of_links (List.isChain_append.1 hids).2.1 (List.isChain_append.1 hone.links).2.1 h.computed
          (fun r hr => ?_) fun r hr => ?_
        · simpa using List.of_mem_filter hr
        · cases hfirst.symm.trans hr
          exact ⟨rfl, rfl⟩
      have hsorted : ([] ++ (first :: rest)).Pairwise (fun a b : AuditLog => a.id < b.id) := by
        rw [List.nil_append, ← hrows]
        exact t.sorted
      rw [hnone, hstart]
      exact (verifyLoop_ok_iff hsorted hok).2 hvouched
    · have hnone : first.entryHash.isNone = true := by
        rw [AuditLog.isSealed, Bool.not_eq_true] at hsealed
        rw [← Option.not_isSome, hsealed]
        rfl
      rw [hnone]
      exact ⟨_, rfl, rfl⟩

/-! ## (2) Every operation keeps the table accepted -/

theorem accepted_empty (loads : Json.Loads) : Accepted H loads Table.empty [] :=
  ⟨inv_init 0, fun _ hr => absurd hr List.not_mem_nil, fun _ hl => nomatch hl⟩

/-- the invariant does not look at the clock -/
theorem Accepted.at_ {loads : Json.Loads} {t : AuditTable} {epoch : List AuditLog} (h : Accepted H loads t epoch)
    (now : DateTime) : Inv ⟨t, epoch, now⟩ :=
  ⟨h.inv.pos, h.inv.ids, h.inv.front, h.inv.hashed, h.inv.one⟩

theorem Accepted.append {t : AuditTable} {epoch : List AuditLog} (h : Accepted H (Json.loads floats) t epoch)
    {e : Entry} (he : Genuine floats e) (c : Caller) (now : DateTime) :
    Accepted H (Json.loads floats) (AuditChain.append t e c now) epoch := by
  have hinv : Inv ⟨AuditChain.append t e c now, epoch, 0⟩ := h.inv.append rfl rfl
  refine ⟨hinv, ?_, fun last hl hash hh => (h.recorded last hl hash hh).append he c now⟩
  rw [sealedRows_append]
  exact h.computed

/-- an anchor is no checkpoint -/
theorem genuine_anchor (t : AuditTable) : Genuine floats (anchorEntry t) := by
  intro haction
  have hanchor : (anchorEntry t).action = "audit_anchor" := rfl
  rw [hanchor] at haction
  exact absurd haction (by decide)

theorem Accepted.prune {t : AuditTable} {epoch : List AuditLog} (h : Accepted H (Json.loads floats) t epoch)
    (now later : DateTime) (days : ℤ) (dryRun : Bool) (actor : String) :
    ∃ epoch', Accepted H (Json.loads floats) (AuditChain.prune t now later days dryRun actor).2 epoch' := by
  rcases prune_cases h.inv.ids now later days dryRun actor with hp | ⟨rows, kept, first, last, hrows, hs, hlast, hp⟩
  · rw [hp]
    exact ⟨epoch, h⟩
  · rw [hp]
    have hchain : chain ⟨kept, epoch ++ rows, 0⟩ = chain ⟨t, epoch, 0⟩ := (prune_chain hrows hs).symm
    have hids := h.inv.ids
    have hfront := h.inv.front
    rw [hrows] at hids hfront
    rw [List.map_append] at hids
    have hkept : ∀ r ∈ kept, r ∈ t := fun r hr => by
      rw [Table.mem_def, hrows]
      exact List.mem_append_right _ hr
    have hmid : Inv ⟨kept, epoch ++ rows, 0⟩ := by
      refine ⟨fun r hr => h.inv.pos r (hkept r hr), (List.isChain_append.1 hids).2.1,
        (List.pairwise_append.1 hfront).2.1, ?_, ?_⟩
      · rw [hchain]; exact h.inv.hashed
      · rw [hchain]; exact h.inv.one
    refine ⟨epoch ++ rows, hmid.append rfl rfl, ?_, ?_⟩
    · rw [sealedRows_append]
      intro r hr
      obtain ⟨hr, hsealed⟩ := List.mem_filter.1 hr
      exact h.computed r (List.mem_filter.2 ⟨hkept r hr, hsealed⟩)
    · intro l hl hash hhash
      have hll : l = last := by
        rw [List.getLast?_append, hlast] at hl
        exact (Option.some.inj hl).symm
      rw [hll] at hhash ⊢
      exact records_prune kept first last rows now later days _ hhash

/-- without a sealed row in the table the chain starts anew: what was archived before is no part of it -/
theorem Accepted.restart {loads : Json.Loads} {t : AuditTable} {epoch : List AuditLog} (h : Accepted H loads t epoch) :
    ∃ epoch', Accepted H loads t epoch' ∧ (epoch' = [] ∨ ∃ r ∈ t, r.isSealed = true) := by
  cases hs : sealedRows t with
  | nil =>
    have hchain : chain ⟨t, [], 0⟩ = [] := hs
    refine ⟨[], ⟨⟨h.inv.pos, h.inv.ids, h.inv.front, ?_, ?_⟩, h.computed, fun _ hl => nomatch hl⟩, Or.inl rfl⟩
    · rw [hchain]
      exact fun _ hr => absurd hr List.not_mem_nil
    · rw [hchain]
      exact oneChain_nil
  | cons r rest =>
    have hr : r ∈ sealedRows t := by
      rw [hs]
      exact List.mem_cons_self
    exact ⟨epoch, h, Or.inr ⟨r, List.mem_of_mem_filter hr, (List.mem_filter.1 hr).2⟩⟩

theorem Accepted.sealRows {loads : Json.Loads} {s : St} {epoch : List AuditLog} (h : Accepted H loads s.table epoch)
    (wait : ℕ) (grace : ℤ) : ∃ epoch', Accepted H loads (step H s (.sealRows wait grace)).table epoch' := by
  obtain ⟨epoch, h, hstart⟩ := h.restart
  have hinv : Inv ⟨s.table, epoch, s.now⟩ := h.at_ s.now
  have hsafe : SealSafe ⟨s.table, epoch, s.now⟩ (.sealRows wait grace) := hstart.imp_right Or.inl
  have hnext := @Inv.seal _ hinv H wait grace hsafe
  obtain ⟨done, stopped, hloop, hstep⟩ := hinv.seal_step H wait grace
  obtain ⟨hids, -, hprevs, hchained⟩ := sealLoop_spec hloop
  have hnew : Chained H (head s.table).2 ((done.head?.map (·.id)).getD 0) done :=
    hchained _ fun d hd => by simp [Option.mem_def.1 hd]
  have htable : (step H s (.sealRows wait grace)).table = writeBack s.table done := by
    calc (step H s (.sealRows wait grace)).table
        = (step H ⟨s.table, epoch, s.now⟩ (.sealRows wait grace)).table := by
          simp only [step]
          cases AuditChain.sealRows H s.table (s.now + wait) grace <;> rfl
      _ = writeBack s.table done := by rw [hstep]
  have hsealed : sealedRows (writeBack s.table done) = sealedRows s.table ++ done := by
    have hchain := hinv.seal_chain hids hnew.all_sealed 0
    rw [chain, chain, List.append_assoc] at hchain
    exact List.append_cancel_left hchain
  rw [hstep] at hnext
  rw [htable]
  refine ⟨epoch, ⟨hnext.pos, hnext.ids, hnext.front, hnext.hashed, hnext.one⟩, ?_, fun last hl hash hh => ?_⟩
  · rw [hsealed]
    intro r hr
    rcases List.mem_append.1 hr with hr | hr
    · exact h.computed r hr
    · exact hnew.all_hashed r hr
  · refine (h.recorded last hl hash hh).writeBack fun d hd => ?_
    obtain ⟨row, hrow, hc⟩ := sealLoop_contents hloop d hd
    exact ⟨row, List.mem_of_mem_filter hrow, hc⟩

theorem accepted_step {s : St} {o : Op} (h : ∃ epoch, Accepted H (Json.loads floats) s.table epoch)
    (ho : Plain floats o) : ∃ epoch, Accepted H (Json.loads floats) (step H s o).table epoch := by
  obtain ⟨epoch, h⟩ := h
  cases o with
  | append wait e c => exact ⟨epoch, h.append ho c (s.now + wait)⟩
  | sealRows wait grace => exact h.sealRows wait grace
  | anchor wait actor => exact ⟨epoch, h.append (genuine_anchor s.table) (.actor actor) (s.now + wait)⟩
  | prune wait lag days dryRun actor => exact h.prune (s.now + wait) (s.now + wait + lag) days dryRun actor

/-- **(2) No false alarm.** After any appends, seals, anchors and prunes, `verify` is ok. -/
theorem verify_ok (H : Sha256) (floats : Json.Floats) (now : DateTime) (ops : List Op)
    (hops : ∀ o ∈ ops, Plain floats o) :
    ∃ report, verify H (Json.loads floats) (run (step H) (init now) ops).table none = .ok report ∧
      report.ok = true := by
  have hrun : ∃ epoch, Accepted H (Json.loads floats) (run (step H) (init now) ops).table epoch := by
    induction ops using List.reverseRecOn with
    | nil => exact ⟨[], accepted_empty _⟩
    | append_singleton ops o ih =>
      rw [run_snoc]
      exact accepted_step (ih fun o' ho' => hops o' (List.mem_append_left _ ho')) (hops o (by simp))
  obtain ⟨epoch, h⟩ := hrun
  exact verify_of_accepted h

/-! ## (3) An entry that poses as the record of a prune -/

/-- an entry of the checkpoint action that names an id and a hash -/
def posing (through : ℤ) (hash : String) : Entry :=
  ⟨"audit_checkpoint", none, none, some [("pruned_through_id", .num through), ("pruned_through_hash", .str hash)]⟩

/-- on a table that starts after a prune, an entry with the right id and another hash makes `verify` fail -/
theorem posing_alarms (H : Sha256) (floats : Json.Floats) {t : AuditTable} {first : AuditLog} {prev hash : String}
    (hfirst : t.rows.head? = some first) (hsealed : first.isSealed = true) (hprev : first.prevHash = some prev)
    (hne : prev ≠ "") (hhash : hash ≠ prev) (c : Caller) (now : DateTime) :
    ∃ report, verify H (Json.loads floats) (append t (posing (first.id - 1) hash) c now) none = .ok report ∧
      report.ok = false := by
  have hor : orElse first.prevHash genesis = prev := by
    rw [hprev]
    exact orElse_some_of_ne hne
  have hloop : ∃ cp items, checkpointFor (Json.loads floats) (append t (posing (first.id - 1) hash) c now) first =
      .ok (some (cp, items)) ∧ (Json.get items "pruned_through_hash").eqStr prev = false := by
    unfold checkpointFor
    rw [checkpoints_append, if_pos (by rfl), checkpointLoop, logAction_details, loads_storeDetails]
    · refine ⟨_, _, if_pos ?_, ?_⟩
      · show (Json.num (first.id - 1)).eqInt (first.id - 1) = true
        exact beq_self_eq_true _
      · show (Json.str hash).eqStr prev = false
        exact beq_eq_false_iff_ne.2 hhash
    · rintro items hi
      cases hi
      exact ⟨by simp, trivial, trivial, trivial⟩
  obtain ⟨cp, items, hloop, hitems⟩ := hloop
  obtain ⟨rest, hrows⟩ := List.head?_eq_some_iff.1 hfirst
  have hnone : first.entryHash.isNone = false := by
    rw [AuditLog.isSealed] at hsealed
    rw [← Option.not_isSome, hsealed]
    rfl
  have hstart : ∃ report, verifyStart (Json.loads floats) (append t (posing (first.id - 1) hash) c now) none first =
      .ok (.inr report) ∧ report.ok = false := by
    unfold verifyStart
    rw [hor, hloop]
    simp only [Option.getD_none, ne_eq, not_true_eq_false, if_false, genesis, hne, bind, Except.bind, hitems,
      Bool.false_eq_true]
    exact ⟨_, rfl, rfl⟩
  obtain ⟨report, hstart, hok⟩ := hstart
  refine ⟨report, ?_, hok⟩
  unfold verify
  simp only [Option.getD_none, ne_eq, not_true_eq_false, if_false, append, Table.rows_insert, hrows, List.cons_append,
    hnone, Bool.false_eq_true]
  unfold append at hstart
  rw [hstart]
  rfl

def firstRow : AuditLog := logAction ⟨"login_success", none, none, none⟩ (.actor "cli") 0 1

def secondRow : AuditLog := logAction ⟨"logout", none, none, none⟩ (.actor "cli") (2 * day) 2

/-- the hash of the first row, and of the second one after it -/
def firstHash (H : Sha256) : String := H.hexdigest ("" ++ "\n" ++ canonical firstRow)

def secondHash (H : Sha256) : String := H.hexdigest (firstHash H ++ "\n" ++ canonical secondRow)

/-- two rows are sealed and the first is pruned -/
def prunedRun : List Op :=
  [.append 0 ⟨"login_success", none, none, none⟩ (.actor "cli"),
    .append (2 * 86400 * 1000000) ⟨"logout", none, none, none⟩ (.actor "cli"),
    .sealRows (10 * 1000000) 5, .prune 0 0 1 false "scheduler"]

/-- the table that is left starts with the second row, linked to the first -/
theorem prunedRun_head (H : Sha256) :
    (run (step H) (init 0) prunedRun).table.rows.head? = some (secondRow.sealWith (firstHash H) (secondHash H)) := by
  have hloop : sealLoop H (2 * day + 10 * second - 5 * second) [firstRow, secondRow] none "" =
      .ok ([firstRow.sealWith "" (firstHash H), secondRow.sealWith (firstHash H) (secondHash H)], none) := by
    have hfirst : computeHash H firstRow (some "") = .ok (firstHash H) := rfl
    have hsecond : computeHash H secondRow (some (firstHash H)) = .ok (secondHash H) := by
      have hor : orElse (some (firstHash H)) genesis = firstHash H := orElse_some_of_ne (H.hexdigest_ne_empty _)
      rw [computeHash, hor]
      exact if_pos (H.isAscii_hexdigest _)
    rw [sealLoop, if_neg (by decide), if_neg (by decide +kernel), hfirst]
    simp only [bind, Except.bind]
    rw [sealLoop, if_neg (by decide), if_neg (by decide +kernel), hsecond]
    rfl
  have hseal : step H (run (step H) (init 0) (prunedRun.take 2)) (.sealRows (10 * 1000000) 5) =
      ⟨writeBack (run (step H) (init 0) (prunedRun.take 2)).table
        [firstRow.sealWith "" (firstHash H), secondRow.sealWith (firstHash H) (secondHash H)], [],
          2 * day + 10 * second⟩ := by
    have hpending : pending (run (step H) (init 0) (prunedRun.take 2)).table = [firstRow, secondRow] := rfl
    have hhead : head (run (step H) (init 0) (prunedRun.take 2)).table = (none, "") := rfl
    have hnow : (run (step H) (init 0) (prunedRun.take 2)).now + ↑(10 * 1000000 : ℕ) - 5 * second =
        2 * day + 10 * second - 5 * second := rfl
    simp only [step, sealRows, hpending, hhead, hnow, Option.map_none, hloop]
    rfl
  have hrun : run (step H) (init 0) prunedRun = step H
      (step H (run (step H) (init 0) (prunedRun.take 2)) (.sealRows (10 * 1000000) 5)) (.prune 0 0 1 false "scheduler") :=
    rfl
  rw [hrun, hseal]
  rfl

/-- the run verifies -/
theorem verify_ok_prunedRun : ∃ report, verify Sha256.echo (Json.loads fun _ => (none, "NaN"))
    (run (step Sha256.echo) (init 0) prunedRun).table none = .ok report ∧ report.ok = true :=
  verify_ok Sha256.echo (fun _ => (none, "NaN")) 0 prunedRun (by
    intro o ho
    simp only [prunedRun, List.mem_cons, List.not_mem_nil, or_false] at ho
    rcases ho with rfl | rfl | rfl | rfl
    · exact fun haction => absurd haction (by decide)
    · exact fun haction => absurd haction (by decide)
    · trivial
    · trivial)

/-- **(3) A posing entry alarms.** Whatever the hash function, an entry with the checkpoint action and the pruned id
but another hash makes `verify` fail, although only the application has written to the log. -/
theorem posing_entry_alarms :
    ¬ ∃ (H : Sha256) (floats : Json.Floats), ∀ (now : DateTime) (ops : List Op), ∃ report,
      verify H (Json.loads floats) (run (step H) (init now) ops).table none = .ok report ∧ report.ok = true := by
  rintro ⟨H, floats, h⟩
  have hne : firstHash H ≠ "" := H.hexdigest_ne_empty _
  obtain ⟨report, hv, hok⟩ := h 0 (prunedRun ++ [.append 0 (posing 1 "") (.actor "cli")])
  obtain ⟨alarm, ha, hbad⟩ := posing_alarms H floats (prunedRun_head H) rfl rfl hne hne.symm
    (.actor "cli") ((run (step H) (init 0) prunedRun).now + (0 : ℕ))
  rw [run_snoc] at hv
  cases ha.symm.trans hv
  rw [hbad] at hok
  cases hok

end Chancery.AuditChain.FalseAlarm
