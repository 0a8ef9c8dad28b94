/-
What the exports and the archive of the audit log still say.

(1) `csv_kept`: `csv.reader` gives back the rows of the CSV export, whatever their texts hold, and two exports are the same
exactly when the rows are, up to texts that are empty or missing (`blanked`).
(2) `Stored`: along every run of appends, seals, anchors and prunes, the details of each row are `json.dumps` of a
dictionary.
(3) `archive_kept`: the archive reads back line by line, the JSON export as one array, with the keys sorted at every
level. A row's hashed text can be computed again from its archived line exactly when the keys of its details were sorted
when it was written.
-/
import Mathlib.Tactic
import Chancery.Services.AuditExport
import Chancery.Scenarios.AuditTampering

namespace Chancery.AuditChain.Exports

open Chancery.Core
open FalseAlarm (logAction_details loads_storeDetails)
open Tampering (canonical_injective details_writeBack written_anchor scalar_ofStr scalar_ofNum)
open Sealing (contents sealLoop_contents)

variable {floats : Json.Floats}

/-! ## (1) CSV -/

/-- a missing text where the export writes nothing -/
def blankText (v : Option String) : Option String := v.filter (· ≠ "")

/-- empty texts count as missing -/
def blanked (r : AuditLog) : AuditLog :=
  { r with
    targetType := blankText r.targetType
    details := blankText r.details
    prevHash := blankText r.prevHash
    entryHash := blankText r.entryHash }

theorem csvText_eq_iff {v w : Option String} : csvText v = csvText w ↔ blankText v = blankText w := by
  have hkey : ∀ u : Option String, blankText u = if u.getD "" = "" then none else some (u.getD "") := by
    intro u
    cases u with
    | none => rfl
    | some s => by_cases hs : s = "" <;> simp [blankText, Option.filter, hs]
  have htext : csvText v = csvText w ↔ v.getD "" = w.getD "" := String.toList_inj
  rw [htext, hkey, hkey]
  constructor
  · intro h
    rw [h]
  · intro h
    split_ifs at h with hv hw
    · rw [hv, hw]
    · exact Option.some.inj h

theorem orElse_eq (v : Option String) : (orElse v "").toList = csvText v := by
  cases v with
  | none => rfl
  | some s =>
    show (if s = "" then "" else s).toList = s.toList
    split_ifs with hs
    · rw [hs]
    · rfl

/-- a column whose values never are the empty text -/
theorem csvText_injective {α : Type} {f : α → String} (hf : Function.Injective f) (hne : ∀ a, f a ≠ "") {v w : Option α}
    (h : csvText (v.map f) = csvText (w.map f)) : v = w := by
  have hkeep : ∀ u : Option α, blankText (u.map f) = u.map f := by
    intro u
    cases u with
    | none => rfl
    | some a => simp [blankText, Option.filter, hne a]
  have hblank := csvText_eq_iff.1 h
  rw [hkeep, hkeep] at hblank
  exact Option.map_injective hf hblank

theorem csvNumber_injective {v w : Option ℤ} (h : csvNumber v = csvNumber w) : v = w := by
  refine csvText_injective Json.toString_int_injective (fun n hn => ?_) h
  have htoken := Json.intToken_toString n
  rw [hn] at htoken
  cases htoken

theorem csvTime_injective {s t : Option DateTime} (h : csvText (s.map isoformat) = csvText (t.map isoformat)) : s = t := by
  refine csvText_injective isoformat_injective (fun u hu => ?_) h
  have hlen := congrArg (fun x : String => 'T' ∈ x.toList) hu
  simp [isoformat] at hlen

theorem csvFields_eq_iff {r s : AuditLog} : csvFields r = csvFields s ↔ blanked r = blanked s := by
  simp only [csvFields, orElse_eq, List.cons.injEq, and_true, csvText_eq_iff, String.toList_inj]
  constructor
  · rintro ⟨hid, htime, hname, huser, haction, htype, htarget, hip, hdetails, hprev, hentry⟩
    have hid := Option.some.inj (csvNumber_injective hid)
    have htime := csvTime_injective (csvText_eq_iff.2 htime)
    have huser := csvNumber_injective huser
    have htarget := csvNumber_injective htarget
    simp only [blanked, hid, htime, hname, huser, haction, htype, htarget, hip, hdetails, hprev, hentry]
  · intro h
    simp only [blanked, AuditLog.mk.injEq] at h
    obtain ⟨hid, htime, huser, hname, haction, htype, htarget, hdetails, hip, hprev, hentry⟩ := h
    exact ⟨by rw [hid], by rw [htime], hname, by rw [huser], haction, htype, by rw [htarget], hip, hdetails, hprev, hentry⟩

theorem map_eq_map_iff {α β γ : Type} {f : α → β} {g : α → γ} (h : ∀ a b, f a = f b ↔ g a = g b) (l l' : List α) :
    l.map f = l'.map f ↔ l.map g = l'.map g := by
  induction l generalizing l' with
  | nil =>
    cases l' with
    | nil => simp
    | cons b l' => simp
  | cons a l ih =>
    cases l' with
    | nil => simp
    | cons b l' => rw [List.map_cons, List.map_cons, List.map_cons, List.map_cons, List.cons.injEq, List.cons.injEq, h, ih]

/-- **(1) CSV.** The export reads back, and says everything but whether an empty text is missing. -/
theorem csv_kept (rows : List AuditLog) :
    Csv.reader (Csv.splitLines (iterCsv rows)) .init = .ok (exportColumns :: rows.map csvFields) ∧
    ∀ rows', iterCsv rows = iterCsv rows' ↔ rows.map blanked = rows'.map blanked := by
  refine ⟨Csv.reader_writeRows _, fun rows' => ?_⟩
  have hfields := map_eq_map_iff (fun r s => @csvFields_eq_iff r s) rows rows'
  rw [← hfields]
  constructor
  · intro h
    have hread := Csv.reader_writeRows (exportColumns :: rows.map csvFields)
    rw [show Csv.writeRows (exportColumns :: rows.map csvFields) = Csv.writeRows (exportColumns :: rows'.map csvFields)
      from h, Csv.reader_writeRows] at hread
    exact (List.cons.inj (Except.ok.inj hread)).2.symm
  · intro h
    rw [iterCsv, iterCsv, h]

/-! ## (2) Details as the application writes them -/

/-- the details of the row are `json.dumps` of these items; none for an empty dictionary -/
def Stored (floats : Json.Floats) (r : AuditLog) (items : List (String × Json)) : Prop :=
  r.details = storeDetails (some items) ∧ Json.Written floats (.obj items)

/-- every row, archived or not -/
def AllStored (floats : Json.Floats) (s : St) : Prop := ∀ r, r ∈ s.archive ∨ r ∈ s.table → ∃ items, Stored floats r items

/-- appended details are dictionaries that `json.loads` can return; the other operations are free -/
def Writes (floats : Json.Floats) : Op → Prop
  | .append _ e _ => ∀ items ∈ e.details, Json.Written floats (.obj items)
  | _ => True

theorem stored_logAction {e : Entry} (he : ∀ items ∈ e.details, Json.Written floats (.obj items)) (c : Caller)
    (now : DateTime) (id : ℤ) : ∃ items, Stored floats (logAction e c now id) items := by
  cases hd : e.details with
  | none => exact ⟨[], by rw [logAction_details, hd]; rfl, List.nodup_nil, trivial⟩
  | some items => exact ⟨items, by rw [logAction_details, hd], he items hd⟩

theorem AllStored.append {s : St} (h : AllStored floats s) {e : Entry}
    (he : ∀ items ∈ e.details, Json.Written floats (.obj items)) (c : Caller) (now later : DateTime) :
    AllStored floats ⟨AuditChain.append s.table e c now, s.archive, later⟩ := by
  rintro r (hr | hr)
  · exact h r (Or.inl hr)
  · have hmem : r ∈ s.table.insert (logAction e c now) (logAction_id e c now) := hr
    rcases Table.mem_insert.1 hmem with hr | rfl
    · exact h r (Or.inr hr)
    · exact stored_logAction he c now _

/-- the details of a checkpoint are a dictionary of its own making -/
theorem written_checkpoint (first last : AuditLog) (rows : List AuditLog) (now : DateTime) (days : ℤ) :
    ∀ items ∈ (checkpointEntry first last rows now days).details, Json.Written floats (.obj items) := by
  intro items hitems
  cases hitems
  exact ⟨by simp, trivial, trivial, Json.written_of_scalar (scalar_ofStr _), trivial, trivial, trivial, trivial⟩

theorem contiguousFrom_subset (e : ℤ) (l : List AuditLog) : ∀ r ∈ contiguousFrom e l, r ∈ l := by
  induction l generalizing e with
  | nil => exact fun r hr => hr
  | cons a l ih =>
    intro r hr
    rw [contiguousFrom] at hr
    split_ifs at hr
    · rcases List.mem_cons.1 hr with rfl | hr
      · exact List.mem_cons_self
      · exact List.mem_cons_of_mem _ (ih _ r hr)
    · exact absurd hr List.not_mem_nil

theorem prunable_subset (t : AuditTable) (cutoff : DateTime) : ∀ r ∈ prunable t cutoff, r ∈ t := by
  intro r hr
  unfold prunable at hr
  simp only at hr
  split at hr
  · split_ifs at hr
    · exact List.mem_of_mem_filter (contiguousFrom_subset _ _ r hr)
    · exact absurd hr List.not_mem_nil
  · exact absurd hr List.not_mem_nil

theorem AllStored.prune {s : St} (h : AllStored floats s) (H : Sha256) (wait lag : ℕ) (days : ℤ) (dryRun : Bool)
    (actor : String) : AllStored floats (step H s (.prune wait lag days dryRun actor)) := by
  have hnothing : AllStored floats ⟨s.table, s.archive ++ [], s.now + wait + lag⟩ := by
    rw [List.append_nil]
    exact h
  show AllStored floats ⟨(AuditChain.prune _ _ _ _ _ _).2, s.archive ++ (AuditChain.prune _ _ _ _ _ _).1, _⟩
  unfold AuditChain.prune
  split_ifs with hdays hdry
  · exact hnothing
  · simp only
    split
    · exact hnothing
    · exact hnothing
  · simp only
    split
    · have hsub := prunable_subset s.table (s.now + wait - days * day)
      have hkept : AllStored floats ⟨s.table.filter fun r => !((prunable s.table (s.now + wait - days * day)).map
          (·.id)).contains r.id, s.archive ++ prunable s.table (s.now + wait - days * day), s.now⟩ := by
        rintro r (hr | hr)
        · rcases List.mem_append.1 hr with hr | hr
          · exact h r (Or.inl hr)
          · exact h r (Or.inr (hsub r hr))
        · exact h r (Or.inr (List.mem_of_mem_filter hr))
      exact hkept.append (written_checkpoint _ _ _ _ _) _ _ _
    · exact hnothing

theorem AllStored.sealRows {s : St} (h : AllStored floats s) (H : Sha256) (wait : ℕ) (grace : ℤ) :
    AllStored floats (step H s (.sealRows wait grace)) := by
  simp only [step]
  cases hseal : AuditChain.sealRows H s.table (s.now + wait) grace with
  | error e => exact h
  | ok p =>
    simp only [AuditChain.sealRows] at hseal
    obtain ⟨⟨done, stopped⟩, hloop, hseal⟩ := bind_eq_ok.1 hseal
    cases hseal
    have hdone : ∀ d ∈ done, ∃ row ∈ s.table, contents row = contents d := by
      intro d hd
      obtain ⟨row, hrow, hc⟩ := sealLoop_contents hloop d hd
      exact ⟨row, List.mem_of_mem_filter hrow, hc⟩
    rintro r (hr | hr)
    · exact h r (Or.inl hr)
    · obtain ⟨row, hrow, hdetails⟩ := details_writeBack hdone r hr
      obtain ⟨items, hitems⟩ := h row (Or.inr hrow)
      exact ⟨items, hdetails ▸ hitems.1, hitems.2⟩

theorem allStored_run (H : Sha256) (now : DateTime) {ops : List Op} (hops : ∀ o ∈ ops, Writes floats o) :
    AllStored floats (run (step H) (init now) ops) := by
  induction ops using List.reverseRecOn with
  | nil => exact fun r hr => hr.elim (fun h => absurd h List.not_mem_nil) fun h => absurd h List.not_mem_nil
  | append_singleton ops o ih =>
    rw [run_snoc]
    have h := ih fun o' ho' => hops o' (List.mem_append_left _ ho')
    have ho := hops o (by simp)
    cases o with
    | append wait e c => exact h.append ho c _ _
    | sealRows wait grace => exact h.sealRows H wait grace
    | anchor wait actor => exact h.append (written_anchor _) _ _ _
    | prune wait lag days dryRun actor => exact h.prune H wait lag days dryRun actor

/-! ## (3) Lines -/

/-- what `json_or_none` makes of stored details -/
def detailsValue (items : List (String × Json)) : Json := if items = [] then .null else .obj items

theorem jsonOrNone_stored {r : AuditLog} {items : List (String × Json)} (h : Stored floats r items) :
    jsonOrNone (Json.loads floats) r.details = .ok (detailsValue items) := by
  rw [h.1]
  cases items with
  | nil => rfl
  | cons item items =>
    have hload := Json.loads_dumps h.2
    have hne : Json.dumps .default (.obj (item :: items)) ≠ "" := by
      intro he
      rw [he] at hload
      cases hload
    show (if _ = "" then _ else _) = _
    rw [if_neg hne, hload]
    rfl

/-- the stored text says which dictionary it was -/
theorem storeDetails_injective {a b : List (String × Json)} (ha : Json.Written floats (.obj a))
    (hb : Json.Written floats (.obj b)) (h : storeDetails (some a) = storeDetails (some b)) : a = b := by
  have hloada := @loads_storeDetails floats (some a) fun _ hi => Option.some.inj hi ▸ ha
  have hloadb := @loads_storeDetails floats (some b) fun _ hi => Option.some.inj hi ▸ hb
  rw [h, hloadb] at hloada
  exact (Json.obj.inj (Except.ok.inj hloada)).symm

theorem written_detailsValue {items : List (String × Json)} (h : Json.Written floats (.obj items)) :
    Json.Written floats (detailsValue items) := by
  unfold detailsValue
  split_ifs
  · trivial
  · exact h

theorem written_dictOf (r : AuditLog) {d : Json} (hd : Json.Written floats d) : Json.Written floats (dictOf r d) := by
  have hnum : ∀ v, Json.Written floats (Json.ofNum v) := fun v => Json.written_of_scalar (scalar_ofNum v)
  have hstr : ∀ v, Json.Written floats (Json.ofStr v) := fun v => Json.written_of_scalar (scalar_ofStr v)
  exact ⟨by simp, trivial, hstr _, hnum _, trivial, trivial, hstr _, hnum _, hd, trivial, hstr _, hstr _, trivial⟩

/-- the items of an archived line, in the order of their keys -/
def lineFields (r : AuditLog) (d : Json) : List (String × Json) :=
  [("action", .str r.action), ("details", d), ("entry_hash", Json.ofStr r.entryHash), ("id", .num r.id),
    ("ip_address", .str r.ipAddress), ("prev_hash", Json.ofStr r.prevHash), ("target_id", Json.ofNum r.targetId),
    ("target_type", Json.ofStr r.targetType), ("timestamp", Json.ofStr (r.timestamp.map isoformat)),
    ("user_id", Json.ofNum r.userId), ("username", .str r.username)]

theorem sorted_ofStr (v : Option String) : (Json.ofStr v).sorted = Json.ofStr v := by
  cases v with
  | none => rfl
  | some s => rfl

theorem sorted_ofNum (v : Option ℤ) : (Json.ofNum v).sorted = Json.ofNum v := by
  cases v with
  | none => rfl
  | some n => rfl

theorem sorted_dictOf (r : AuditLog) (d : Json) : (dictOf r d).sorted = .obj (lineFields r d.sorted) := by
  simp only [dictOf, Json.sorted, Json.sortedFields, sorted_ofStr, sorted_ofNum]
  apply congrArg Json.obj
  simp [Json.sortFields, List.insertionSort, List.orderedInsert, lineFields]

/-- the text to hash, from a line of the archive: the details go through `json.dumps` once more -/
def rehashed (line : List (String × Json)) : String :=
  let details := match Json.get line "details" with
    | .null => .null
    | d => .str (Json.dumps .default d)
  Json.dumps .canonical (.obj [("id", Json.get line "id"), ("timestamp", Json.get line "timestamp"),
    ("user_id", Json.get line "user_id"), ("username", Json.get line "username"), ("action", Json.get line "action"),
    ("target_type", Json.get line "target_type"), ("target_id", Json.get line "target_id"), ("details", details),
    ("ip_address", Json.get line "ip_address")])

/-- the row with the keys of its details sorted -/
def sortedRow (r : AuditLog) (items : List (String × Json)) : AuditLog :=
  { r with details := storeDetails (some (Json.sortFields (Json.sortedFields items))) }

theorem rehashed_lineFields (r : AuditLog) (items : List (String × Json)) :
    rehashed (lineFields r (detailsValue items).sorted) = canonical (sortedRow r items) := by
  have hdetails : Json.ofStr (sortedRow r items).details = match (detailsValue items).sorted with
      | .null => .null
      | d => .str (Json.dumps .default d) := by
    cases items with
    | nil => rfl
    | cons item items =>
      have hne : Json.sortFields (Json.sortedFields (item :: items)) ≠ [] := by
        intro h
        have hlen :=
          (List.perm_insertionSort (fun a b : String × Json => a.1 ≤ b.1) (Json.sortedFields (item :: items))).length_eq
        rw [show List.insertionSort _ _ = Json.sortFields _ from rfl, h] at hlen
        cases hlen
      obtain ⟨first, rest, hsorted⟩ := List.exists_cons_of_ne_nil hne
      simp only [sortedRow, detailsValue, hsorted, storeDetails, Json.ofStr]
      simp [Json.sorted, hsorted]
  unfold canonical rehashed
  rw [hdetails]
  simp [lineFields, Json.get, List.lookup_cons, sortedRow]

/-- the hashed text comes back exactly when the keys were sorted -/
theorem rehashed_iff {r : AuditLog} {items : List (String × Json)} (h : Stored floats r items) :
    rehashed (lineFields r (detailsValue items).sorted) = canonical r ↔ (Json.obj items).sorted = .obj items := by
  rw [rehashed_lineFields, Json.sorted, Json.obj.injEq]
  constructor
  · intro heq
    have hdetails : (contents (sortedRow r items)).details = (contents r).details :=
      congrArg AuditLog.details (canonical_injective heq)
    exact storeDetails_injective (Json.written_sorted _ h.2) h.2 (hdetails.trans h.1)
  · intro heq
    unfold sortedRow
    rw [heq, ← h.1]

/-! ## Whole files -/

section

variable {rows : List AuditLog} {details : AuditLog → List (String × Json)}
  (hrows : ∀ r ∈ rows, Stored floats r (details r))

/-- the value of a row in the exports -/
def valueOf (details : AuditLog → List (String × Json)) (r : AuditLog) : Json := dictOf r (detailsValue (details r))

theorem toDict_stored {r : AuditLog} {items : List (String × Json)} (h : Stored floats r items) :
    toDict (Json.loads floats) r = .ok (dictOf r (detailsValue items)) := by
  rw [toDict, jsonOrNone_stored h]
  rfl

include hrows

theorem written_valueOf : ∀ r ∈ rows, Json.Written floats (valueOf details r) :=
  fun r hr => written_dictOf r (written_detailsValue (hrows r hr).2)

theorem iterJsonl_stored : iterJsonl (Json.loads floats) rows =
    .ok (rows.flatMap fun r => Json.dumpsText .sorted (valueOf details r) ++ ['\n']) := by
  induction rows with
  | nil => rfl
  | cons r rows ih =>
    have hline : jsonLine (Json.loads floats) r = .ok (Json.dumpsText .sorted (valueOf details r) ++ ['\n']) := by
      rw [jsonLine, toDict_stored (hrows r List.mem_cons_self)]
      rfl
    rw [iterJsonl, hline, ih fun s hs => hrows s (List.mem_cons_of_mem _ hs)]
    rfl

theorem jsonItems_rest : jsonItems (Json.loads floats) false rows =
    .ok (rows.flatMap fun r => [',', '\n'] ++ Json.dumpsText .sorted (valueOf details r)) := by
  induction rows with
  | nil => rfl
  | cons r rows ih =>
    rw [jsonItems, toDict_stored (hrows r List.mem_cons_self), ih fun s hs => hrows s (List.mem_cons_of_mem _ hs)]
    rfl

theorem jsonItems_stored : jsonItems (Json.loads floats) true rows =
    .ok (Json.joinWith [',', '\n'] (rows.map fun r => Json.dumpsText .sorted (valueOf details r))) := by
  cases rows with
  | nil => rfl
  | cons r rows =>
    have hjoin : ∀ (t : Text) (l : List AuditLog), Json.joinWith [',', '\n']
        (t :: l.map fun r => Json.dumpsText .sorted (valueOf details r)) =
          t ++ l.flatMap fun r => [',', '\n'] ++ Json.dumpsText .sorted (valueOf details r) := by
      intro t l
      induction l generalizing t with
      | nil => rw [List.map_nil, Json.joinWith_singleton, List.flatMap_nil, List.append_nil]
      | cons s l ih => rw [List.map_cons, Json.joinWith_cons_cons, ih, List.flatMap_cons, List.append_assoc]
    rw [jsonItems, toDict_stored (hrows r List.mem_cons_self),
      jsonItems_rest fun s hs => hrows s (List.mem_cons_of_mem _ hs), List.map_cons, hjoin]
    rfl

/-- the archive and the JSON lines export, line by line -/
theorem jsonl_reads_back : ∃ text, iterJsonl (Json.loads floats) rows = .ok text ∧
    (Csv.splitLines text).map (fun l => Json.loads floats (String.ofList l)) =
      rows.map fun r => .ok (.obj (lineFields r (detailsValue (details r)).sorted)) := by
  have hwritten := written_valueOf hrows
  have hst : Json.Style.sorted.OneLine := ⟨by decide, by decide⟩
  have hlines := Csv.splitLines_flatMap (f := fun r => Json.dumpsText .sorted (valueOf details r))
    fun r hr => Json.newline_not_mem_dumpsText hst _ (hwritten r hr)
  have hvalue : ∀ r ∈ rows, Json.loads floats (String.ofList (Json.dumpsText .sorted (valueOf details r) ++ ['\n'])) =
      .ok (.obj (lineFields r (detailsValue (details r)).sorted)) := by
    intro r hr
    rw [← sorted_dictOf]
    exact Json.loads_line (hwritten r hr)
  refine ⟨_, iterJsonl_stored hrows, ?_⟩
  rw [hlines, List.map_map]
  refine List.map_congr_left fun r hr => ?_
  rw [Function.comp_apply]
  exact hvalue r hr

/-- the JSON export, as one array -/
theorem json_reads_back : ∃ text, iterJson (Json.loads floats) rows = .ok text ∧ Json.loads floats (String.ofList text) =
    .ok (.arr (rows.map fun r => .obj (lineFields r (detailsValue (details r)).sorted))) := by
  have hwritten := written_valueOf hrows
  have htexts : (rows.map fun r => Json.dumpsText .sorted (valueOf details r)) =
      (rows.map fun r => (valueOf details r).sorted).map (Json.dumpsText .default) := by
    rw [List.map_map]
    exact List.map_congr_left fun r _ => Json.dumpsText_sorted ", " ": " _
  have hvalues : (rows.map fun r => Json.obj (lineFields r (detailsValue (details r)).sorted)) =
      rows.map fun r => (valueOf details r).sorted := List.map_congr_left fun r _ => (sorted_dictOf r _).symm
  refine ⟨_, by rw [iterJson, jsonItems_stored hrows]; rfl, ?_⟩
  rw [htexts, hvalues]
  refine Json.loads_lines ?_
  rw [List.forall_mem_map]
  exact fun r hr => Json.written_sorted _ (hwritten r hr)

end

/-- **(3) Kept evidence.** Whatever rows of a run are exported or archived, the files read back with the keys sorted, and
the hashed text of a row can be computed from its line exactly when the keys of its details were sorted. -/
theorem archive_kept (H : Sha256) (floats : Json.Floats) (now : DateTime) (ops : List Op)
    (hops : ∀ o ∈ ops, Writes floats o) (rows : List AuditLog)
    (hrows : ∀ r ∈ rows, r ∈ (run (step H) (init now) ops).archive ∨ r ∈ (run (step H) (init now) ops).table) :
    ∃ details : AuditLog → List (String × Json), (∀ r ∈ rows, Stored floats r (details r)) ∧
      (∃ text, iterJsonl (Json.loads floats) rows = .ok text ∧
        (Csv.splitLines text).map (fun l => Json.loads floats (String.ofList l)) =
          rows.map fun r => .ok (.obj (lineFields r (detailsValue (details r)).sorted))) ∧
      (∃ text, iterJson (Json.loads floats) rows = .ok text ∧ Json.loads floats (String.ofList text) =
        .ok (.arr (rows.map fun r => .obj (lineFields r (detailsValue (details r)).sorted)))) ∧
      ∀ r ∈ rows, rehashed (lineFields r (detailsValue (details r)).sorted) = canonical r ↔
        (Json.obj (details r)).sorted = .obj (details r) := by
  have hstored : ∀ r ∈ rows, ∃ items, Stored floats r items := fun r hr => allStored_run H now hops r (hrows r hr)
  choose! details hdetails using hstored
  exact ⟨details, hdetails, jsonl_reads_back hdetails, json_reads_back hdetails, fun r hr => rehashed_iff (hdetails r hr)⟩

/-- a sign-in whose details are out of order, archived after a month -/
def archivedRun : List Op :=
  [.append 0 ⟨"login_success", none, none, some [("method", .str "totp"), ("auth", .str "local")]⟩ (.actor "cli"),
    .sealRows (10 * 1000000) 5, .prune (31 * 86400 * 1000000) 0 30 false "cli"]

theorem archivedRun_kept : ∃ details : AuditLog → List (String × Json),
    ∀ r ∈ (run (step Sha256.echo) (init 0) archivedRun).archive,
      rehashed (lineFields r (detailsValue (details r)).sorted) = canonical r ↔
        (Json.obj (details r)).sorted = .obj (details r) := by
  have hops : ∀ o ∈ archivedRun, Writes (fun _ => (none, "NaN")) o := by
    intro o ho
    simp only [archivedRun, List.mem_cons, List.not_mem_nil, or_false] at ho
    rcases ho with rfl | rfl | rfl
    · rintro items hitems
      cases hitems
      exact ⟨by simp, trivial, trivial, trivial⟩
    · trivial
    · trivial
  obtain ⟨details, -, -, -, h⟩ := archive_kept Sha256.echo (fun _ => (none, "NaN")) 0 archivedRun hops
    (run (step Sha256.echo) (init 0) archivedRun).archive fun r hr => Or.inl hr
  exact ⟨details, h⟩

end Chancery.AuditChain.Exports
