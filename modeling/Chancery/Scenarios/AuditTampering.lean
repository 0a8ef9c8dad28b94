/-
What `verify` finds when somebody changes the audit table behind the application's back.

(1) `canonical_injective`: the hashed text of a row determines all of its columns but the two hashes.
(2) `Grown`: what appends, anchors and seals make of an empty table is a chain from the genesis hash, followed by rows that
are not sealed yet.
(3) `edit_detected`: a sealed row that has been changed in any column but its hashes is reported, by its id.
(4) `deletion_detected`: when sealed rows are gone, but not the first and not the last, the first row after the first gap is
reported.
(5) `truncation_detected`: when the first sealed rows are gone, and no checkpoint records the last of them, the report
fails.

The last three assume that SHA-256 has no collisions, where they need it; `tampering_detected` states them over runs.
-/
import Mathlib.Tactic
import Chancery.Core.Faithful
import Chancery.Scenarios.AuditFalseAlarm

namespace Chancery.AuditChain.Tampering

open Chancery.Core
open FalseAlarm (Accepted vouched_of_links logAction_details loads_storeDetails)
open Sealing (contents contents_id eq_of_contents sealLoop_contents)

variable {H : Sha256} {floats : Json.Floats}

/-! ## (1) The hashed text -/

/-- the fields of the hashed text, in the order of their keys -/
def hashedFields (r : AuditLog) : List (String × Json) :=
  [("action", .str r.action), ("details", Json.ofStr r.details), ("id", .num r.id), ("ip_address", .str r.ipAddress),
    ("target_id", Json.ofNum r.targetId), ("target_type", Json.ofStr r.targetType),
    ("timestamp", Json.ofStr (r.timestamp.map isoformat)), ("user_id", Json.ofNum r.userId), ("username", .str r.username)]

theorem dumpsText_ofStr (st : Json.Style) (v : Option String) :
    Json.dumpsText st (Json.ofStr v) = Json.dumpsText .default (Json.ofStr v) := by
  cases v with
  | none => simp [Json.ofStr, Json.dumpsText]
  | some s => simp [Json.ofStr, Json.dumpsText]

theorem dumpsText_ofNum (st : Json.Style) (v : Option ℤ) :
    Json.dumpsText st (Json.ofNum v) = Json.dumpsText .default (Json.ofNum v) := by
  cases v with
  | none => simp [Json.ofNum, Json.dumpsText]
  | some n => simp [Json.ofNum, Json.dumpsText]

theorem sortItems_hashed (a b c d e f g h i : Text) :
    Json.sortItems [("id", a), ("timestamp", b), ("user_id", c), ("username", d), ("action", e), ("target_type", f),
      ("target_id", g), ("details", h), ("ip_address", i)] =
    [("action", e), ("details", h), ("id", a), ("ip_address", i), ("target_id", g), ("target_type", f), ("timestamp", b),
      ("user_id", c), ("username", d)] := by
  simp [Json.sortItems, List.insertionSort, List.orderedInsert]

theorem canonical_eq (r : AuditLog) : canonical r = String.ofList (Json.openBrace :: Json.compact (hashedFields r)) := by
  have hcomma : ("," : String).toList = [','] := rfl
  have hcolon : (":" : String).toList = [':'] := rfl
  unfold canonical Json.dumps
  apply congrArg String.ofList
  simp only [Json.dumpsText, Json.dumpsFields, dumpsText_ofStr, dumpsText_ofNum, Json.Style.canonical, if_true,
    sortItems_hashed, hcomma, hcolon]
  simp [Json.joinWith, Json.compact, hashedFields, Json.openBrace, Json.closeBrace, Json.dumpsText]

theorem ofStr_injective : Function.Injective Json.ofStr := by
  intro v w h
  cases v with
  | none =>
    cases w with
    | none => rfl
    | some t => cases h
  | some s =>
    cases w with
    | none => cases h
    | some t => exact congrArg some (Json.str.inj h)

theorem ofNum_injective : Function.Injective Json.ofNum := by
  intro v w h
  cases v with
  | none =>
    cases w with
    | none => rfl
    | some n => cases h
  | some m =>
    cases w with
    | none => cases h
    | some n => exact congrArg some (Json.num.inj h)

theorem scalar_ofStr (v : Option String) : Json.Scalar (Json.ofStr v) := by
  cases v with
  | none => trivial
  | some s => trivial

theorem scalar_ofNum (v : Option ℤ) : Json.Scalar (Json.ofNum v) := by
  cases v with
  | none => trivial
  | some n => trivial

theorem hashedFields_scalar (r : AuditLog) : ∀ p ∈ hashedFields r, Json.Scalar p.2 := by
  intro p hp
  simp only [hashedFields, List.mem_cons, List.not_mem_nil, or_false] at hp
  rcases hp with rfl | rfl | rfl | rfl | rfl | rfl | rfl | rfl | rfl
  · trivial
  · exact scalar_ofStr _
  · trivial
  · trivial
  · exact scalar_ofNum _
  · exact scalar_ofStr _
  · exact scalar_ofStr _
  · exact scalar_ofNum _
  · trivial

/-- **(1) The hashed text.** Rows with the same hashed text differ in their hashes at most. -/
theorem canonical_injective {r s : AuditLog} (h : canonical r = canonical s) : contents r = contents s := by
  rw [canonical_eq, canonical_eq] at h
  have htext : Json.compact (hashedFields r) = Json.compact (hashedFields s) :=
    (List.cons.inj (String.ofList_injective h)).2
  have hfields : hashedFields r = hashedFields s :=
    Json.compact_injective rfl (hashedFields_scalar r) (hashedFields_scalar s) htext
  simp only [hashedFields, List.cons.injEq, Prod.mk.injEq, true_and, and_true, Json.str.injEq, Json.num.injEq] at hfields
  obtain ⟨haction, hdetails, hid, hip, htid, httype, htime, huid, hname⟩ := hfields
  have htimestamp : r.timestamp = s.timestamp := Option.map_injective isoformat_injective (ofStr_injective htime)
  cases r
  cases s
  simp only at haction hid hip hname htimestamp
  simp only [contents, AuditLog.mk.injEq, and_true]
  exact ⟨hid, htimestamp, ofNum_injective huid, hname, haction, ofStr_injective httype, ofNum_injective htid,
    ofStr_injective hdetails, hip⟩

theorem byteHex_injective : Function.Injective Sha256.byteHex := by
  have hdigit : ∀ m < 16, ∀ n < 16, Json.hexDigit m = Json.hexDigit n → m = n := by decide
  intro a b h
  have ha := a.toNat_lt
  have hb := b.toNat_lt
  simp only [Sha256.byteHex, List.cons.injEq, and_true] at h
  have hhigh := hdigit (a.toNat / 16) (by omega) (b.toNat / 16) (by omega) h.1
  have hlow := hdigit (a.toNat % 16) (by omega) (b.toNat % 16) (by omega) h.2
  exact UInt8.toNat_inj.1 (by omega)

theorem hexdigest_injective (hinj : Function.Injective H.digest) : Function.Injective H.hexdigest := by
  intro m n h
  have hbytes : (H.digest m).flatMap Sha256.byteHex = (H.digest n).flatMap Sha256.byteHex := String.ofList_injective h
  exact hinj (flatMap_injective (n := 2) (by norm_num) (fun _ => rfl) byteHex_injective hbytes)

/-- a changed row has another hash, after the same previous one -/
theorem computeHash_changed (hinj : Function.Injective H.digest) {r r' : AuditLog} {prev c : String}
    (hc : computeHash H r (some prev) = .ok c) (hne : contents r' ≠ contents r) :
    ∃ c', computeHash H r' (some prev) = .ok c' ∧ c' ≠ c := by
  simp only [computeHash] at hc ⊢
  by_cases hascii : isAscii (orElse (some prev) genesis).toList = true
  · rw [if_pos hascii] at hc ⊢
    refine ⟨_, rfl, fun heq => hne ?_⟩
    have hdigest := hexdigest_injective hinj (heq.trans (Except.ok.inj hc).symm)
    have htext := congrArg String.toList hdigest
    rw [String.toList_append, String.toList_append (s := orElse (some prev) genesis ++ "\n")] at htext
    exact canonical_injective (String.toList_inj.1 (List.append_cancel_left htext))
  · rw [if_neg hascii] at hc
    cases hc

/-! ## (2) Tables that have only grown -/

/-- the details of every row read back as an object -/
def Readable (floats : Json.Floats) (t : AuditTable) : Prop :=
  ∀ r ∈ t, ∃ items, Json.loads floats (orElse r.details "\x7b\x7d") = .ok (.obj items)

/-- appends of dictionaries, anchors and seals; no prune -/
def Growing (floats : Json.Floats) : Op → Prop
  | .append _ e _ => ∀ items ∈ e.details, Json.Written floats (.obj items)
  | .prune _ _ _ _ _ => False
  | _ => True

/-- a sealed chain from the genesis hash, then unsealed rows -/
structure Grown (H : Sha256) (floats : Json.Floats) (s : St) : Prop where
  inv : Inv s
  whole : s.archive = []
  computed : ∀ r ∈ sealedRows s.table, ∃ h, computeHash H r r.prevHash = .ok h ∧ r.entryHash = some h
  readable : Readable floats s.table

theorem readable_append {t : AuditTable} (h : Readable floats t) {e : Entry}
    (he : ∀ items ∈ e.details, Json.Written floats (.obj items)) (c : Caller) (now : DateTime) :
    Readable floats (append t e c now) := by
  intro r hr
  rcases Table.mem_insert.1 hr with hr | rfl
  · exact h r hr
  · rw [logAction_details]
    exact ⟨_, loads_storeDetails he⟩

/-- an anchor's details are a dictionary of its own making -/
theorem written_anchor (t : AuditTable) : ∀ items ∈ (anchorEntry t).details, Json.Written floats (.obj items) := by
  have hnum : ∀ v, Json.Written floats (Json.ofNum v) := fun v => Json.written_of_scalar (scalar_ofNum v)
  have hstr : ∀ v, Json.Written floats (Json.ofStr v) := fun v => Json.written_of_scalar (scalar_ofStr v)
  intro items hitems
  cases hitems
  exact ⟨by simp, hnum _, hstr _, trivial, trivial⟩

/-- a seal keeps the details of every row -/
theorem details_writeBack {t : AuditTable} {done : List AuditLog}
    (hdone : ∀ d ∈ done, ∃ row ∈ t, contents row = contents d) :
    ∀ r ∈ writeBack t done, ∃ row ∈ t, row.details = r.details := by
  intro r hr
  obtain ⟨row, hrow, heq⟩ := List.mem_map.1 hr
  cases hfind : done.find? (·.id == row.id) with
  | none =>
    rw [hfind, Option.getD_none] at heq
    exact ⟨row, hrow, by rw [heq]⟩
  | some d =>
    rw [hfind, Option.getD_some] at heq
    obtain ⟨source, hsource, hc⟩ := hdone d (List.mem_of_find?_eq_some hfind)
    refine ⟨source, hsource, ?_⟩
    rw [← heq]
    change (contents source).details = (contents d).details
    rw [hc]

theorem readable_writeBack {t : AuditTable} (h : Readable floats t) {done : List AuditLog}
    (hdone : ∀ d ∈ done, ∃ row ∈ t, contents row = contents d) : Readable floats (writeBack t done) := by
  intro r hr
  obtain ⟨row, hrow, hdetails⟩ := details_writeBack hdone r hr
  rw [← hdetails]
  exact h row hrow

theorem grown_init (now : DateTime) : Grown H floats (init now) :=
  ⟨inv_init now, rfl, fun _ hr => absurd hr List.not_mem_nil, fun _ hr => absurd hr List.not_mem_nil⟩

theorem Grown.append {s : St} (h : Grown H floats s) {e : Entry}
    (he : ∀ items ∈ e.details, Json.Written floats (.obj items)) (c : Caller) (now later : DateTime) :
    Grown H floats ⟨AuditChain.append s.table e c now, s.archive, later⟩ := by
  refine ⟨h.inv.append rfl rfl, h.whole, ?_, readable_append h.readable he c now⟩
  rw [sealedRows_append]
  exact h.computed

theorem Grown.sealRows {s : St} (h : Grown H floats s) (wait : ℕ) (grace : ℤ) :
    Grown H floats (step H s (.sealRows wait grace)) := by
  have hinv : Inv (step H s (.sealRows wait grace)) := h.inv.seal (Or.inl h.whole)
  have haccepted : Accepted H (Json.loads floats) s.table [] :=
    ⟨⟨h.inv.pos, h.inv.ids, h.inv.front, by simpa only [chain, h.whole] using h.inv.hashed,
      by simpa only [chain, h.whole] using h.inv.one⟩, h.computed, fun _ hl => absurd hl (Option.not_mem_none _)⟩
  obtain ⟨epoch, hnext⟩ := haccepted.sealRows wait grace
  obtain ⟨done, stopped, hloop, hstep⟩ := h.inv.seal_step H wait grace
  refine ⟨hinv, ?_, hnext.computed, ?_⟩
  · rw [hstep]
    exact h.whole
  · rw [hstep]
    refine readable_writeBack h.readable fun d hd => ?_
    obtain ⟨row, hrow, hc⟩ := sealLoop_contents hloop d hd
    exact ⟨row, List.mem_of_mem_filter hrow, hc⟩

theorem grown_run (now : DateTime) {ops : List Op} (hops : ∀ o ∈ ops, Growing floats o) :
    Grown H floats (run (step H) (init now) ops) := by
  induction ops using List.reverseRecOn with
  | nil => exact grown_init now
  | append_singleton ops o ih =>
    rw [run_snoc]
    have h := ih fun o' ho' => hops o' (List.mem_append_left _ ho')
    have ho := hops o (by simp)
    cases o with
    | append wait e c => exact h.append ho c _ _
    | sealRows wait grace => exact h.sealRows wait grace
    | anchor wait actor => exact h.append (written_anchor _) _ _ _
    | prune wait lag days dryRun actor => exact ho.elim

/-! ## Walks -/

/-- the hash and the id that a walk over these rows expects next -/
def walked (prev : String) (next : ℤ) : List AuditLog → String × ℤ
  | [] => (prev, next)
  | row :: rest => walked (row.entryHash.getD genesis) (row.id + 1) rest

theorem chained_append {prev : String} {next : ℤ} {pre rest : List AuditLog} :
    Chained H prev next (pre ++ rest) ↔
      Chained H prev next pre ∧ Chained H (walked prev next pre).1 (walked prev next pre).2 rest := by
  induction pre generalizing prev next with
  | nil => simp [Chained, walked]
  | cons row pre ih =>
    constructor
    · rintro ⟨hid, hprev, c, he, hc, hrest⟩
      obtain ⟨hpre, hrest⟩ := ih.1 hrest
      refine ⟨⟨hid, hprev, c, he, hc, hpre⟩, ?_⟩
      rw [walked, he]
      exact hrest
    · rintro ⟨⟨hid, hprev, c, he, hc, hpre⟩, hrest⟩
      rw [walked, he] at hrest
      exact ⟨hid, hprev, c, he, hc, ih.2 ⟨hpre, hrest⟩⟩

/-- the walk passes over a chain -/
theorem verifyLoop_chained {prev : String} {next : ℤ} {all pre : List AuditLog} (h : Chained H prev next pre)
    (rest : List AuditLog) (report : Report) : ∃ report', verifyLoop H all (pre ++ rest) prev next report =
      verifyLoop H all rest (walked prev next pre).1 (walked prev next pre).2 report' := by
  induction pre generalizing prev next report with
  | nil => exact ⟨report, rfl⟩
  | cons row pre ih =>
    obtain ⟨hid, hprev, c, he, hc, hpre⟩ := h
    obtain ⟨report', hwalk⟩ := ih hpre { report with
      checked := report.checked + 1, headId := some row.id, headHash := some c }
    refine ⟨report', ?_⟩
    rw [List.cons_append, verifyLoop, he]
    simp only [hid, hprev, hc, ne_eq, not_true_eq_false, if_false, walked, he, Option.getD_some]
    rw [← hid]
    exact hwalk

/-- a sealed row with another id than the expected one ends the walk -/
theorem verifyLoop_missing {prev : String} {next : ℤ} {all rest : List AuditLog} {row : AuditLog}
    (hsealed : row.isSealed = true) (hid : row.id ≠ next) (report : Report) : ∃ report',
    verifyLoop H all (row :: rest) prev next report = .ok report' ∧ report'.ok = false ∧ report'.firstBadId =
      some row.id := by
  obtain ⟨c, he⟩ := Option.isSome_iff_exists.1 hsealed
  rw [verifyLoop, he]
  simp only [if_pos hid]
  exact ⟨_, rfl, rfl, rfl⟩

/-- `verify` walks over a chain from the genesis hash and looks at the row after it -/
theorem verify_walk {loads : Json.Loads} {t : AuditTable} {pre rest : List AuditLog} {row : AuditLog} {next : ℤ}
    (hrows : t.rows = pre ++ row :: rest) (hpre : Chained H genesis next pre)
    (hfirst : pre = [] → row.isSealed = true ∧ orElse row.prevHash genesis = genesis ∧ row.id = next) :
    ∃ report, verify H loads t none =
      verifyLoop H t.rows (row :: rest) (walked genesis next pre).1 (walked genesis next pre).2 report := by
  obtain ⟨first, tail, hhead, hsealed, hprev, hid⟩ : ∃ first tail, t.rows = first :: tail ∧ first.isSealed = true ∧
      orElse first.prevHash genesis = genesis ∧ first.id = next := by
    cases pre with
    | nil => exact ⟨row, rest, hrows, hfirst rfl⟩
    | cons first pre =>
      exact ⟨first, pre ++ row :: rest, hrows, hpre.all_sealed first List.mem_cons_self, hpre.2.1, hpre.1⟩
  have hnone : first.entryHash.isNone = false := by
    rw [AuditLog.isSealed] at hsealed
    rw [← Option.not_isSome, hsealed]
    rfl
  have hstart : verify H loads t none =
      verifyLoop H t.rows t.rows genesis next { Report.initial with start := some "genesis" } := by
    unfold verify
    simp only [Option.getD_none, ne_eq, not_true_eq_false, if_false]
    rw [hhead]
    simp only [hnone, Bool.false_eq_true, if_false, verifyStart, hprev, if_true, Option.getD_none, ne_eq,
      not_true_eq_false, bind, Except.bind, hid]
  obtain ⟨report, hwalk⟩ := @verifyLoop_chained H genesis next t.rows pre hpre (row :: rest)
    { Report.initial with start := some "genesis" }
  refine ⟨report, ?_⟩
  calc verify H loads t none
      = verifyLoop H t.rows t.rows genesis next { Report.initial with start := some "genesis" } := hstart
    _ = verifyLoop H t.rows (pre ++ row :: rest) genesis next { Report.initial with start := some "genesis" } := by
      rw [← hrows]
    _ = _ := hwalk

theorem Grown.rows_eq {s : St} (h : Grown H floats s) : s.table.rows = sealedRows s.table ++ unsealedRows s.table :=
  h.inv.rows_eq

/-- the sealed rows are one chain from the genesis hash -/
theorem Grown.chained {s : St} (h : Grown H floats s) : ∃ next, Chained H genesis next (sealedRows s.table) := by
  have hone : OneChain (sealedRows s.table) := by
    have hchain := h.inv.one
    rwa [chain, h.whole, List.nil_append] at hchain
  refine ⟨((sealedRows s.table).head?.map (·.id)).getD 0, ?_⟩
  have hvouched := @vouched_of_links H _ [] hone.ids hone.links h.computed (fun _ hr => absurd hr List.not_mem_nil)
    genesis (((sealedRows s.table).head?.map (·.id)).getD 0) (fun r hr => by
      have hat : (sealedRows s.table)[0]? = some r := by
        rw [← List.head?_eq_getElem?]
        exact hr
      refine ⟨by rw [Option.mem_def.1 hr]; rfl, ?_⟩
      rw [(hone.start 0 r hat).2 rfl]
      rfl)
  rw [List.append_nil] at hvouched
  obtain ⟨done, tail, hsplit, hdone, htail⟩ := hvouched.split
  cases tail with
  | nil =>
    rw [List.append_nil] at hsplit
    rw [hsplit] at hdone ⊢
    exact hdone
  | cons r tail =>
    have hr : r ∈ sealedRows s.table := by
      rw [hsplit]
      exact List.mem_append_right _ List.mem_cons_self
    have hsealed := (List.mem_filter.1 hr).2
    rw [htail r List.mem_cons_self] at hsealed
    cases hsealed

/-! ## (3) Edits -/

theorem rows_place {t : AuditTable} {pre post : List AuditLog} {r r' : AuditLog} (hrows : t.rows = pre ++ r :: post)
    (hid : r'.id = r.id) : (t.place r').rows = pre ++ r' :: post := by
  have hsorted := t.sorted
  rw [hrows, List.pairwise_append, List.pairwise_cons] at hsorted
  obtain ⟨-, ⟨hpost, -⟩, hpre⟩ := hsorted
  have hbefore : ∀ x ∈ pre, x.id < r.id := fun x hx => hpre x hx r List.mem_cons_self
  have hlow : t.rows.filter (fun x => decide (x.id < r'.id)) = pre := by
    rw [hrows, List.filter_append, List.filter_eq_self.2, List.filter_eq_nil_iff.2, List.append_nil]
    · intro x hx
      rw [decide_eq_true_eq, hid, not_lt]
      rcases List.mem_cons.1 hx with rfl | hx
      · exact le_rfl
      · exact (hpost x hx).le
    · intro x hx
      rw [decide_eq_true_eq, hid]
      exact hbefore x hx
  have hhigh : t.rows.filter (fun x => decide (r'.id < x.id)) = post := by
    rw [hrows, List.filter_append, List.filter_eq_nil_iff.2, List.nil_append, List.filter_cons_of_neg,
      List.filter_eq_self.2]
    · intro x hx
      rw [decide_eq_true_eq, hid]
      exact hpost x hx
    · rw [decide_eq_true_eq, hid]
      exact lt_irrefl _
    · intro x hx
      rw [decide_eq_true_eq, hid, not_lt]
      exact (hbefore x hx).le
  calc (t.place r').rows
      = t.rows.filter (fun x => decide (x.id < r'.id)) ++ r' :: t.rows.filter (fun x => decide (r'.id < x.id)) := rfl
    _ = pre ++ r' :: post := by rw [hlow, hhigh]

/-- **(3) Edits.** The report names the row that was changed. -/
theorem edit_detected (hinj : Function.Injective H.digest) {s : St} (h : Grown H floats s) (loads : Json.Loads)
    {r r' : AuditLog} (hr : r ∈ sealedRows s.table) (hid : r'.id = r.id) (hprev : r'.prevHash = r.prevHash)
    (hhash : r'.entryHash = r.entryHash) (hne : r' ≠ r) :
    ∃ report, verify H loads (s.table.place r') none = .ok report ∧ report.ok = false ∧ report.firstBadId = some r.id := by
  obtain ⟨next, hchained⟩ := h.chained
  obtain ⟨pre, post, hsplit⟩ := List.append_of_mem hr
  rw [hsplit, chained_append] at hchained
  obtain ⟨hpre, hexpected, hlink, c, he, hc, -⟩ := hchained
  have hrows : s.table.rows = pre ++ r :: (post ++ unsealedRows s.table) := by
    rw [h.rows_eq, hsplit, List.append_assoc, List.cons_append]
  have hsealed : r'.isSealed = true := by
    rw [AuditLog.isSealed, hhash]
    exact (List.mem_filter.1 hr).2
  obtain ⟨report, hwalk⟩ := @verify_walk H loads _ _ _ _ next (rows_place hrows hid) hpre (by
    rintro rfl
    exact ⟨hsealed, by rw [hprev]; exact hlink, hid.trans hexpected⟩)
  have hcontents : contents r' ≠ contents r := fun hsame => hne (eq_of_contents hsame hprev hhash)
  obtain ⟨c', hc', hwrong⟩ := computeHash_changed hinj hc hcontents
  refine ⟨report.fail r' "entry_hash does not match the row's contents", ?_, rfl, congrArg some hid⟩
  rw [hwalk, verifyLoop, hhash, he]
  simp only [hid, hexpected, hprev, hlink, hc', ne_eq, not_true_eq_false, if_false, hwrong, not_false_eq_true, if_true]

/-! ## (4) Deletions -/

/-- the first row left after the first gap -/
def firstAfterGap (gone : AuditLog → Bool) (rows : List AuditLog) : Option AuditLog :=
  (rows.dropWhile (!gone ·)).find? (!gone ·)

theorem firstAfterGap_spec {gone : AuditLog → Bool} {rows : List AuditLog} (hlast : ∀ r ∈ rows.getLast?, gone r = false)
    (hsome : ∃ r ∈ rows, gone r = true) : ∃ pre gap next post, rows = pre ++ gap ++ next :: post ∧
      (∀ r ∈ pre, gone r = false) ∧ gap ≠ [] ∧ (∀ r ∈ gap, gone r = true) ∧ gone next = false ∧
      firstAfterGap gone rows = some next := by
  have hpre : ∀ r ∈ rows.takeWhile (!gone ·), gone r = false := fun r hr => by simpa using List.mem_takeWhile_imp hr
  have hdrop := (List.takeWhile_append_dropWhile (p := (!gone ·)) (l := rows)).symm
  obtain ⟨x, hx, hgone⟩ := hsome
  cases hrest : rows.dropWhile (!gone ·) with
  | nil =>
    rw [hrest, List.append_nil] at hdrop
    rw [hdrop] at hx
    rw [hpre x hx] at hgone
    cases hgone
  | cons first rest =>
    have hfirst : gone first = true := by
      have hhead := List.head?_dropWhile_not (!gone ·) rows
      rw [hrest] at hhead
      simpa using hhead
    have hsplit := (List.takeWhile_append_dropWhile (p := gone) (l := rest)).symm
    cases hpost : rest.dropWhile gone with
    | nil =>
      -- then the last row would be gone
      rw [hpost, List.append_nil] at hsplit
      have hall : ∀ r ∈ first :: rest, gone r = true := fun r hr => by
        rcases List.mem_cons.1 hr with rfl | hr
        · exact hfirst
        · rw [hsplit] at hr
          exact List.mem_takeWhile_imp hr
      obtain ⟨last, hl⟩ : ∃ last, (first :: rest).getLast? = some last := ⟨_, List.getLast?_eq_some_getLast (by simp)⟩
      have hrows : rows.getLast? = some last := by
        rw [hdrop, hrest, List.getLast?_append, hl]
        rfl
      have hkept := hlast last hrows
      rw [hall last (List.mem_of_getLast? hl)] at hkept
      cases hkept
    | cons next post =>
      have hnext : gone next = false := by
        have hhead := List.head?_dropWhile_not gone rest
        rw [hpost] at hhead
        simpa using hhead
      refine ⟨rows.takeWhile (!gone ·), first :: rest.takeWhile gone, next, post, ?_, hpre, List.cons_ne_nil _ _, ?_, hnext,
        ?_⟩
      · rw [List.append_assoc, List.cons_append, ← hpost, List.takeWhile_append_dropWhile, ← hrest,
          List.takeWhile_append_dropWhile]
      · intro r hr
        rcases List.mem_cons.1 hr with rfl | hr
        · exact hfirst
        · exact List.mem_takeWhile_imp hr
      · have htake : (rest.takeWhile gone).find? (!gone ·) = none := by
          refine List.find?_eq_none.2 fun r hr => ?_
          simpa using List.mem_takeWhile_imp hr
        calc firstAfterGap gone rows
            = (first :: rest).find? (!gone ·) := by rw [firstAfterGap, hrest]
          _ = rest.find? (!gone ·) := by simp [hfirst]
          _ = (next :: post).find? (!gone ·) := by rw [hsplit, hpost, List.find?_append, htake, Option.none_or]
          _ = some next := by simp [hnext]

/-- **(4) Deletions.** The report names the first row after the first gap. -/
theorem deletion_detected {s : St} (h : Grown H floats s) (loads : Json.Loads) {gone : AuditLog → Bool}
    (hfirst : ∀ r ∈ (sealedRows s.table).head?, gone r = false)
      (hlast : ∀ r ∈ (sealedRows s.table).getLast?, gone r = false)
    (hsome : ∃ r ∈ sealedRows s.table, gone r = true) :
    ∃ next report, firstAfterGap gone (sealedRows s.table) = some next ∧
      verify H loads (s.table.filter (!gone ·)) none = .ok report ∧ report.ok = false ∧ report.firstBadId =
        some next.id := by
  obtain ⟨start, hchained⟩ := h.chained
  obtain ⟨pre, gap, next, post, hsplit, hpre, hne, hgap, hnext, hfound⟩ := firstAfterGap_spec hlast hsome
  have hsealed : next.isSealed = true := by
    have hmem : next ∈ sealedRows s.table := by
      rw [hsplit]
      exact List.mem_append_right _ List.mem_cons_self
    exact (List.mem_filter.1 hmem).2
  rw [hsplit, List.append_assoc, chained_append] at hchained
  obtain ⟨hbefore, hafter⟩ := hchained
  obtain ⟨lost, gap, rfl⟩ := List.exists_cons_of_ne_nil hne
  obtain ⟨hexpected, -, c, -, -, hrest⟩ := hafter
  have hlater : lost.id + 1 ≤ next.id := Sealing.chained_le hrest next (List.mem_append_right _ List.mem_cons_self)
  -- what is left: the rows before the gap, then the next one
  have hrows : (s.table.filter (!gone ·)).rows = pre ++ next :: (post ++ unsealedRows s.table).filter (!gone ·) := by
    rw [Table.rows_filter, h.rows_eq, hsplit, List.append_assoc, List.append_assoc, List.filter_append, List.filter_append,
      List.filter_eq_self.2, List.filter_eq_nil_iff.2, List.nil_append, List.cons_append, List.filter_cons_of_pos]
    · simp [hnext]
    · intro r hr
      simp [hgap r hr]
    · intro r hr
      simp [hpre r hr]
  obtain ⟨report, hwalk⟩ := @verify_walk H loads _ _ _ _ start hrows hbefore (by
    rintro rfl
    have hhead := hfirst lost (by rw [hsplit]; rfl)
    rw [hgap lost List.mem_cons_self] at hhead
    cases hhead)
  have hgapped : next.id ≠ (walked genesis start pre).2 := by omega
  obtain ⟨report', hloop, hok, hbad⟩ :=
    @verifyLoop_missing H (walked genesis start pre).1 _ (s.table.filter (!gone ·)).rows _ next hsealed hgapped
    report
  exact ⟨next, report', hfound, hwalk.trans hloop, hok, hbad⟩

/-! ## (5) A missing front -/

/-- a checkpoint row that records this row as the last pruned one -/
def RecordsLast (loads : Json.Loads) (cp last : AuditLog) : Prop :=
  cp.action = "audit_checkpoint" ∧ ∃ items, loads (orElse cp.details "\x7b\x7d") = .ok (.obj items) ∧
    (Json.get items "pruned_through_id").eqInt last.id = true ∧
    (Json.get items "pruned_through_hash").eqStr (orElse last.entryHash genesis) = true

/-- where every row is readable, the search for a checkpoint raises nothing -/
theorem checkpointLoop_readable {loads : Json.Loads} {before : ℤ} {rows : List AuditLog}
    (h : ∀ r ∈ rows, ∃ items, loads (orElse r.details "\x7b\x7d") = .ok (.obj items)) :
    ∃ found, checkpointLoop loads before rows = .ok found := by
  induction rows with
  | nil => exact ⟨none, rfl⟩
  | cons row rest ih =>
    obtain ⟨items, hload⟩ := h row List.mem_cons_self
    rw [checkpointLoop, hload]
    simp only []
    split_ifs with hid
    · exact ⟨_, rfl⟩
    · exact ih fun r hr => h r (List.mem_cons_of_mem _ hr)

/-- a first row that links to nothing that is recorded ends the walk before it starts -/
theorem verify_unrecorded {loads : Json.Loads} {t : AuditTable} {first : AuditLog} {rest : List AuditLog}
    (hrows : t.rows = first :: rest) (hsealed : first.isSealed = true) (hlink : orElse first.prevHash genesis ≠ genesis)
    (hreadable : ∀ r ∈ t, ∃ items, loads (orElse r.details "\x7b\x7d") = .ok (.obj items))
    (hnone : ∀ cp ∈ t, ¬ VouchesFor loads cp first) :
    ∃ report, verify H loads t none = .ok report ∧ report.ok = false ∧ report.firstBadId = some first.id := by
  have hmem : ∀ cp ∈ checkpoints t, cp ∈ t ∧ cp.action = "audit_checkpoint" := fun cp hcp => by
    obtain ⟨hcp, haction⟩ := List.mem_filter.1 hcp
    exact ⟨List.mem_reverse.1 hcp, eq_of_beq haction⟩
  have hisNone : first.entryHash.isNone = false := by
    rw [AuditLog.isSealed] at hsealed
    rw [← Option.not_isSome, hsealed]
    rfl
  obtain ⟨found, hfound⟩ := @checkpointLoop_readable loads (first.id - 1) (checkpoints t)
    fun r hr => hreadable r (hmem r hr).1
  have hstart : ∃ report, verifyStart loads t none first = .ok (.inr report) ∧ report.ok = false ∧
      report.firstBadId = some first.id := by
    unfold verifyStart checkpointFor
    simp only [Option.getD_none, ne_eq, not_true_eq_false, if_false, if_neg hlink, hfound, bind, Except.bind]
    rcases found with _ | ⟨cp, items⟩
    · exact ⟨_, rfl, rfl, rfl⟩
    · obtain ⟨hcp, hload, hid⟩ := checkpointLoop_vouches hfound
      obtain ⟨hcp, haction⟩ := hmem cp hcp
      have hhash : ¬ (Json.get items "pruned_through_hash").eqStr (orElse first.prevHash genesis) = true := fun hhash =>
        hnone cp hcp ⟨haction, items, hload, hid, hhash⟩
      simp only [if_neg hhash]
      exact ⟨_, rfl, rfl, rfl⟩
  obtain ⟨report, hstart, hok, hbad⟩ := hstart
  refine ⟨report, ?_, hok, hbad⟩
  unfold verify
  simp only [Option.getD_none, ne_eq, not_true_eq_false, if_false]
  rw [hrows]
  simp only [hisNone, Bool.false_eq_true, if_false, hstart, bind, Except.bind]

/-- **(5) A missing front.** The report fails at the first row that is left. -/
theorem truncation_detected {s : St} (h : Grown H floats s) {last : AuditLog} (hlast : last ∈ sealedRows s.table)
    (hmore : ∃ r ∈ sealedRows s.table, last.id < r.id)
    (hnone : ∀ cp ∈ s.table, ¬ RecordsLast (Json.loads floats) cp last) :
    ∃ report, verify H (Json.loads floats) (s.table.filter (decide <| last.id < ·.id)) none = .ok report ∧
      report.ok = false := by
  obtain ⟨start, hchained⟩ := h.chained
  obtain ⟨pre, post, hsplit⟩ := List.append_of_mem hlast
  have hrows : s.table.rows = pre ++ last :: (post ++ unsealedRows s.table) := by
    rw [h.rows_eq, hsplit, List.append_assoc, List.cons_append]
  have hsorted := s.table.sorted
  rw [hrows, List.pairwise_append, List.pairwise_cons] at hsorted
  obtain ⟨-, ⟨hafter, -⟩, hbefore⟩ := hsorted
  rw [hsplit, chained_append] at hchained
  obtain ⟨-, -, -, c, he, hc, hrest⟩ := hchained
  obtain ⟨next, post, rfl⟩ : ∃ next tail, post = next :: tail := by
    cases post with
    | cons next tail => exact ⟨next, tail, rfl⟩
    | nil =>
      obtain ⟨r, hr, hlt⟩ := hmore
      rw [hsplit] at hr
      rcases List.mem_append.1 hr with hr | hr
      · exact absurd (hbefore r hr last List.mem_cons_self) (by omega)
      · rw [List.mem_singleton.1 hr] at hlt
        exact absurd hlt (lt_irrefl _)
  obtain ⟨hid, hlink, -⟩ := hrest
  have hkept : (s.table.filter (decide <| last.id < ·.id)).rows = next :: (post ++ unsealedRows s.table) := by
    rw [Table.rows_filter, hrows, List.filter_append, List.filter_eq_nil_iff.2, List.nil_append, List.filter_cons_of_neg,
      List.filter_eq_self.2]
    · rfl
    · exact fun x hx => decide_eq_true (hafter x hx)
    · simp
    · intro x hx
      have hlt := hbefore x hx last List.mem_cons_self
      simp only [decide_eq_true_eq, not_lt]
      omega
  have hsealed : next.isSealed = true := by
    have hmem : next ∈ sealedRows s.table := by
      rw [hsplit]
      simp
    exact (List.mem_filter.1 hmem).2
  have hhash : orElse last.entryHash genesis = c := by
    rw [he]
    exact orElse_some_of_ne (computeHash_ne_empty hc)
  obtain ⟨report, hv, hok, -⟩ := @verify_unrecorded H (Json.loads floats) _ next _ hkept hsealed
    (by rw [hlink]; exact computeHash_ne_empty hc) (fun r hr => h.readable r (Table.mem_filter.1 hr).1)
    (by
      rintro cp hcp ⟨haction, items, hload, hpid, hphash⟩
      refine hnone cp (Table.mem_filter.1 hcp).1 ⟨haction, items, hload, ?_, ?_⟩
      · rw [hid, add_sub_cancel_right] at hpid
        exact hpid
      · rw [hhash, ← hlink]
        exact hphash)
  exact ⟨report, hv, hok⟩

/-! ## Runs -/

/-- **Tampering.** Whatever has been appended, anchored and sealed: an edit, a gap and a missing front show. -/
theorem tampering_detected (H : Sha256) (hinj : Function.Injective H.digest) (floats : Json.Floats) (now : DateTime)
    (ops : List Op) (hops : ∀ o ∈ ops, Growing floats o) :
    let t := (run (step H) (init now) ops).table
    (∀ r ∈ sealedRows t, ∀ r', r'.id = r.id → r'.prevHash = r.prevHash → r'.entryHash = r.entryHash → r' ≠ r →
      ∃ report, verify H (Json.loads floats) (t.place r') none = .ok report ∧ report.ok = false ∧
        report.firstBadId = some r.id) ∧
    (∀ gone : AuditLog → Bool, (∀ r ∈ (sealedRows t).head?, gone r = false) →
      (∀ r ∈ (sealedRows t).getLast?, gone r = false) → (∃ r ∈ sealedRows t, gone r = true) →
      ∃ next report, firstAfterGap gone (sealedRows t) = some next ∧
        verify H (Json.loads floats) (t.filter (!gone ·)) none = .ok report ∧ report.ok = false ∧
        report.firstBadId = some next.id) ∧
    ∀ last ∈ sealedRows t, (∃ r ∈ sealedRows t, last.id < r.id) →
      (∀ cp ∈ t, ¬ RecordsLast (Json.loads floats) cp last) →
      ∃ report, verify H (Json.loads floats) (t.filter (decide <| last.id < ·.id)) none = .ok report ∧
        report.ok = false := by
  have hgrown : Grown H floats (run (step H) (init now) ops) := grown_run now hops
  intro t
  refine ⟨?_, ?_, ?_⟩
  · intro r hr r' hid hprev hhash hne
    exact edit_detected hinj hgrown _ hr hid hprev hhash hne
  · intro gone hfirst hlast hsome
    exact deletion_detected hgrown _ hfirst hlast hsome
  · intro last hlast hmore hnone
    exact truncation_detected hgrown hlast hmore hnone

/-- three entries, the first two sealed -/
def sampleRun : List Op :=
  [.append 0 ⟨"login_success", none, none, some [("method", .str "totp")]⟩ (.actor "cli"), .sealRows (10 * 1000000) 5,
    .append 0 ⟨"login_success", none, none, none⟩ (.actor "cli")]

/-- somebody else's name on a sealed row is noticed -/
theorem sample_edit_detected : ∃ r ∈ sealedRows (run (step Sha256.echo) (init 0) sampleRun).table, ∃ report,
    verify Sha256.echo (Json.loads fun _ => (none, "NaN"))
      ((run (step Sha256.echo) (init 0) sampleRun).table.place { r with username := "mallory" }) none = .ok report ∧
      report.ok = false ∧ report.firstBadId = some r.id := by
  obtain ⟨r, hr, hname⟩ : ∃ r ∈ sealedRows (run (step Sha256.echo) (init 0) sampleRun).table, r.username = "cli" := by
    decide +kernel
  refine ⟨r, hr, (tampering_detected Sha256.echo Sha256.echo_injective (fun _ => (none, "NaN")) 0 sampleRun ?_).1 r hr
    { r with username := "mallory" } rfl rfl rfl ?_⟩
  · intro o ho
    simp only [sampleRun, List.mem_cons, List.not_mem_nil, or_false] at ho
    rcases ho with rfl | rfl | rfl
    · rintro items hitems
      cases hitems
      exact ⟨by simp, trivial, trivial⟩
    · trivial
    · exact fun items hitems => absurd hitems (Option.not_mem_none items)
  · intro heq
    have hmallory : "mallory" = r.username := congrArg AuditLog.username heq
    have hne : "mallory" ≠ "cli" := by decide
    exact hne (hmallory.trans hname)

end Chancery.AuditChain.Tampering
