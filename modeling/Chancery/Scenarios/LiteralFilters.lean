/-
Text filters and the characters that LIKE treats as special.

The lists escape their `q`; the audit log puts the text of `action` (written `x*`), `user` and `q` into the pattern as it
is.

(1) `searched_iff` (Services/Listing): a list's `q` selects the rows with a column that has the text in it.
(2) `selected_iff`: what an audit request selects, criterion by criterion.
(3) `filters_literal_iff`: the lists are always literal. An audit request selects exactly the rows that meet its filters
literally if and only if the three texts have no `%` and no `_`, or its dates leave no moment between them, so that it
selects nothing at all.
(4) `underscore_selects_more`: `user=a_b` also selects the rows of the user `axb`.
-/
import Mathlib.Tactic
import Chancery.Routes.AuditFilters

namespace Chancery.LiteralFilters

open Chancery.Core
open Chancery.Core.Like
open Chancery.AuditChain (AuditLog)
open Chancery.Listing
open Chancery.AuditFilters

/-! ## LIKE without an escape character -/

section Like

variable {L : Letters} {text value : Text}

theorem like_head : like L none (text ++ ['%']) value = likes L.same (text.map (pieceOf sqlSpecials) ++ [.many]) value := by
  rw [like, pieces_none, List.map_append]
  rfl

theorem like_inside : like L none (['%'] ++ text ++ ['%']) value =
    likes L.same (.many :: (text.map (pieceOf sqlSpecials) ++ [.many])) value := by
  rw [like, pieces_none, List.map_append, List.map_append]
  rfl

theorem like_head_iff (h : Literal sqlSpecials text) :
    like L none (text ++ ['%']) value = true ↔ StartsWith L.same text value := by
  rw [like_head, map_pieceOf h, likes_startsWith_iff]

theorem like_inside_iff (h : Literal sqlSpecials text) :
    like L none (['%'] ++ text ++ ['%']) value = true ↔ Contains L.same text value := by
  rw [like_inside, map_pieceOf h, likes_contains_iff]

/-- a value that the text matches as a pattern -/
def filled (text : Text) : Text := fill sqlSpecials 'a' text

theorem like_head_filled : like L none (text ++ ['%']) (filled text) = true := by
  rw [like_head]
  have h := @likes_fill Char _ sqlSpecials L.same text 'a' L.same_self [.many] [] likes_all
  rwa [List.append_nil] at h

theorem like_inside_filled : like L none (['%'] ++ text ++ ['%']) (filled text) = true := by
  have h := @like_head_filled L text
  rw [like_head] at h
  rw [like_inside, likes_many_iff]
  exact ⟨[], filled text, rfl, h⟩

/-- which has the text in it only if nothing in the text is special -/
theorem literal_of_contains_filled (h : Contains L.same text (filled text)) : Literal sqlSpecials text := by
  apply not_contains_fill _ h
  apply Bool.eq_false_of_not_eq_true
  intro hsame
  have hletter := L.same_underscore 'a' hsame
  cases hletter

end Like

/-! ## What a request asks for -/

section Request

variable (lib : FilterLib) (likeLetters ilikeLetters : Letters) (args : AuditArgs)

/-- the action is a prefix -/
def starred : Bool := (argText args.action).getLast? = some '*'

/-- the filters without LIKE -/
structure Exact (r : AuditLog) : Prop where
  fromDay : ∀ start, dayArg lib "from" args.fromDay = .ok (some start) → ∃ t, r.timestamp = some t ∧ start ≤ t
  toDay : ∀ stop, dayArg lib "to" args.toDay = .ok (some stop) → ∃ t, r.timestamp = some t ∧ t < stop + day
  action : argText args.action ≠ [] → starred args = false → r.action.toList = argText args.action
  targetType : argText args.targetType ≠ [] → ∃ v, r.targetType = some v ∧ v.toList = argText args.targetType
  targetId : argText args.targetId ≠ [] → ∀ n, lib.parseInt (argText args.targetId) = .ok n → r.targetId = some n

/-- the filters with LIKE, literally -/
structure Texts (r : AuditLog) : Prop where
  action : starred args = true → StartsWith likeLetters.same (argText args.action).dropLast r.action.toList
  user : argText args.user ≠ [] → Contains ilikeLetters.same (argText args.user) r.username.toList
  q : argText args.q ≠ [] → ∃ v, r.details = some v ∧ Contains ilikeLetters.same (argText args.q) v.toList

/-- the filters with LIKE, as they are evaluated -/
structure Patterns (r : AuditLog) : Prop where
  action : starred args = true → like likeLetters none ((argText args.action).dropLast ++ ['%']) r.action.toList = true
  user : argText args.user ≠ [] → like ilikeLetters none (['%'] ++ argText args.user ++ ['%']) r.username.toList = true
  q : argText args.q ≠ [] →
    ∃ v, r.details = some v ∧ like ilikeLetters none (['%'] ++ argText args.q ++ ['%']) v.toList = true

/-- no text that goes into a pattern has a `%` or a `_` -/
structure PlainTexts : Prop where
  action : starred args = true → Literal sqlSpecials (argText args.action).dropLast
  user : Literal sqlSpecials (argText args.user)
  q : Literal sqlSpecials (argText args.q)

/-- there are moments between the dates -/
def Datable : Prop := ∃ t : DateTime, (∀ start, dayArg lib "from" args.fromDay = .ok (some start) → start ≤ t) ∧
  ∀ stop, dayArg lib "to" args.toDay = .ok (some stop) → t < stop + day

end Request

/-! ## (2) What a request selects -/

section Selection

variable {lib : FilterLib} {L I : Letters} {args : AuditArgs} {r : AuditLog} {criteria : List AuditCriterion}
  {filters : List (String × Text)}

theorem all_since {start : Option DateTime} : (start.toList.map AuditCriterion.since).all (·.selects L I r) = true ↔
    ∀ s, start = some s → ∃ t, r.timestamp = some t ∧ s ≤ t := by
  cases start <;> simp [AuditCriterion.selects, Option.any_eq_true]

theorem all_before {stop : Option DateTime} (h : beforeCriteria stop = .ok criteria) :
    criteria.all (·.selects L I r) = true ↔ ∀ s, stop = some s → ∃ t, r.timestamp = some t ∧ t < s + day := by
  cases stop with
  | none =>
    cases h
    simp
  | some s =>
    change (addDays s 1).map _ = _ at h
    cases hnext : addDays s 1 with
    | error e =>
      rw [hnext] at h
      cases h
    | ok next =>
      rw [hnext] at h
      cases h
      simp [AuditCriterion.selects, Option.any_eq_true, (addDays_eq_ok.1 hnext).1]

theorem all_action {text : Text} : (actionCriteria text).all (·.selects L I r) = true ↔
    (text ≠ [] → decide (text.getLast? = some '*') = false → r.action.toList = text) ∧
      (decide (text.getLast? = some '*') = true → like L none (text.dropLast ++ ['%']) r.action.toList = true) := by
  unfold actionCriteria
  by_cases hnil : text = []
  · subst hnil
    simp
  · by_cases hstar : text.getLast? = some '*' <;> simp [hnil, hstar, AuditCriterion.selects]

theorem all_text {criterion : Text → AuditCriterion} {text : Text} :
    (textCriteria criterion text).all (·.selects L I r) = true ↔ (text ≠ [] → (criterion text).selects L I r = true) := by
  unfold textCriteria
  split_ifs with h <;> simp [h]

theorem all_targetId {text : Text} (h : targetIdCriteria lib text = .ok criteria) :
    criteria.all (·.selects L I r) = true ↔ (text ≠ [] → ∀ n, lib.parseInt text = .ok n → r.targetId = some n) := by
  unfold targetIdCriteria at h
  by_cases hnil : text = []
  · rw [if_pos hnil] at h
    cases h
    simp [hnil]
  · rw [if_neg hnil] at h
    split_ifs at h
    split at h
    · rename_i n hn
      cases h
      simp [AuditCriterion.selects, hnil, hn]
    · cases h

/-- **Selection.** A request selects the rows that meet all of its filters, the patterns as LIKE matches them. -/
theorem selected_iff (h : auditFilters lib args = .ok (criteria, filters)) :
    criteria.all (·.selects L I r) = true ↔ Exact lib args r ∧ Patterns L I args r := by
  unfold auditFilters at h
  obtain ⟨start, hstart, h⟩ := bind_eq_ok.1 h
  obtain ⟨stop, hstop, h⟩ := bind_eq_ok.1 h
  obtain ⟨before, hbefore, h⟩ := bind_eq_ok.1 h
  obtain ⟨targetId, htargetId, h⟩ := bind_eq_ok.1 h
  have hok (x : Option DateTime) (s : DateTime) : (Except.ok x : Except PyError (Option DateTime)) = .ok (some s) ↔ x =
    some s :=
    ⟨Except.ok.inj, congrArg Except.ok⟩
  cases h
  simp only [List.all_append, Bool.and_eq_true, all_since, all_before hbefore, all_action, all_text, all_targetId htargetId]
  simp only [AuditCriterion.selects, Option.any_eq_true, decide_eq_true_eq]
  constructor
  · rintro ⟨⟨⟨⟨⟨⟨hfrom, hto⟩, haction, hprefixed⟩, huser⟩, htype⟩, hid⟩, hq⟩
    refine ⟨⟨?_, ?_, haction, htype, hid⟩, fun hstar => hprefixed (of_decide_eq_true hstar), huser, hq⟩
    · intro s hs
      exact hfrom s ((hok _ _).1 (hstart.symm.trans hs))
    · intro s hs
      exact hto s ((hok _ _).1 (hstop.symm.trans hs))
  · rintro ⟨hexact, hpatterns⟩
    refine ⟨⟨⟨⟨⟨⟨?_, ?_⟩, hexact.action, fun hstar => hpatterns.action (decide_eq_true hstar)⟩, hpatterns.user⟩,
      hexact.targetType⟩, hexact.targetId⟩, hpatterns.q⟩
    · intro s hs
      exact hexact.fromDay s (hstart.trans ((hok _ _).2 hs))
    · intro s hs
      exact hexact.toDay s (hstop.trans ((hok _ _).2 hs))

end Selection

/-! ## (3) Literal requests -/

section Literal

variable {lib : FilterLib} {L I : Letters} {args : AuditArgs} {r : AuditLog}

/-- patterns without special characters are matched as they are -/
theorem PlainTexts.patterns_iff (h : PlainTexts args) : Patterns L I args r ↔ Texts L I args r := by
  constructor
  · intro hp
    refine ⟨fun hstar => (like_head_iff (h.action hstar)).1 (hp.action hstar), fun hne =>
      (like_inside_iff h.user).1 (hp.user hne),
      fun hne => ?_⟩
    obtain ⟨v, hv, hlike⟩ := hp.q hne
    exact ⟨v, hv, (like_inside_iff h.q).1 hlike⟩
  · intro ht
    refine ⟨fun hstar => (like_head_iff (h.action hstar)).2 (ht.action hstar), fun hne =>
      (like_inside_iff h.user).2 (ht.user hne),
      fun hne => ?_⟩
    obtain ⟨v, hv, hcontains⟩ := ht.q hne
    exact ⟨v, hv, (like_inside_iff h.q).2 hcontains⟩

/-- a row that the request selects by its patterns -/
def filledRow (lib : FilterLib) (args : AuditArgs) (t : DateTime) : AuditLog where
  id := 1
  timestamp := some t
  userId := none
  username := String.ofList (filled (argText args.user))
  action := String.ofList (if starred args then filled (argText args.action).dropLast else argText args.action)
  targetType := some (String.ofList (argText args.targetType))
  targetId := (lib.parseInt (argText args.targetId)).toOption
  details := some (String.ofList (filled (argText args.q)))
  ipAddress := ""
  prevHash := none
  entryHash := none

theorem filledRow_exact {t : DateTime} (hfrom : ∀ start, dayArg lib "from" args.fromDay = .ok (some start) → start ≤ t)
    (hto : ∀ stop, dayArg lib "to" args.toDay = .ok (some stop) → t < stop + day) : Exact lib args
      (filledRow lib args t) where
  fromDay start h := ⟨t, rfl, hfrom start h⟩
  toDay stop h := ⟨t, rfl, hto stop h⟩
  action _ hstar := by simp [filledRow, hstar]
  targetType _ := ⟨_, rfl, String.toList_ofList⟩
  targetId _ n hn := by simp [filledRow, hn, Except.toOption]

theorem filledRow_patterns {t : DateTime} : Patterns L I args (filledRow lib args t) where
  action hstar := by
    simp only [filledRow, hstar, if_true, String.toList_ofList]
    exact like_head_filled
  user _ := by
    simp only [filledRow, String.toList_ofList]
    exact like_inside_filled
  q _ := by
    refine ⟨_, rfl, ?_⟩
    rw [String.toList_ofList]
    exact like_inside_filled

/-- if it is selected literally, the texts have no special characters -/
theorem plainTexts_of_filledRow {t : DateTime} (h : Texts L I args (filledRow lib args t)) : PlainTexts args where
  action hstar := by
    have haction := h.action hstar
    simp only [filledRow, hstar, if_true, String.toList_ofList] at haction
    exact literal_of_contains_filled haction.contains
  user := by
    by_cases hne : argText args.user = []
    · rw [hne]
      exact fun c hc => absurd hc List.not_mem_nil
    · have huser := h.user hne
      simp only [filledRow, String.toList_ofList] at huser
      exact literal_of_contains_filled huser
  q := by
    by_cases hne : argText args.q = []
    · rw [hne]
      exact fun c hc => absurd hc List.not_mem_nil
    · obtain ⟨v, hv, hq⟩ := h.q hne
      cases hv
      rw [String.toList_ofList] at hq
      exact literal_of_contains_filled hq

theorem Exact.datable (h : Exact lib args r) : Datable lib args := by
  cases hr : r.timestamp with
  | some t =>
    refine ⟨t, fun start hstart => ?_, fun stop hstop => ?_⟩
    · obtain ⟨t', ht', hle⟩ := h.fromDay start hstart
      rw [hr] at ht'
      cases ht'
      exact hle
    · obtain ⟨t', ht', hlt⟩ := h.toDay stop hstop
      rw [hr] at ht'
      cases ht'
      exact hlt
  | none =>
    -- a row without a time is selected only when there are no dates
    refine ⟨0, fun start hstart => ?_, fun stop hstop => ?_⟩
    · obtain ⟨t', ht', _⟩ := h.fromDay start hstart
      rw [hr] at ht'
      cases ht'
    · obtain ⟨t', ht', _⟩ := h.toDay stop hstop
      rw [hr] at ht'
      cases ht'

/-- **Literal filters.** The lists search for the text as it is. An audit request does so for every row if and only if no
text that goes into a pattern has a `%` or a `_`, or the dates leave no moment between them. -/
theorem filters_literal_iff (lib : FilterLib) (L I : Letters) :
    (∀ (q : Text) (columns : List (Option Text)),
      searched I (some q) columns = true ↔ ∃ value, some value ∈ columns ∧ Contains I.same q value) ∧
    ∀ args criteria filters, auditFilters lib args = .ok (criteria, filters) →
      ((∀ r, criteria.all (·.selects L I r) = true ↔ Exact lib args r ∧ Texts L I args r) ↔
        (Datable lib args → PlainTexts args)) := by
  refine ⟨fun q columns => searched_iff, fun args criteria filters h => ?_⟩
  constructor
  · rintro hliteral ⟨t, hfrom, hto⟩
    have hselected : criteria.all (·.selects L I (filledRow lib args t)) = true :=
      (selected_iff h).2 ⟨filledRow_exact hfrom hto, filledRow_patterns⟩
    exact plainTexts_of_filledRow ((hliteral _).1 hselected).2
  · intro hplain r
    rw [selected_iff h]
    constructor
    · rintro ⟨hexact, hpatterns⟩
      exact ⟨hexact, ((hplain hexact.datable).patterns_iff).1 hpatterns⟩
    · rintro ⟨hexact, htexts⟩
      exact ⟨hexact, ((hplain hexact.datable).patterns_iff).2 htexts⟩

end Literal

/-! ## (4) Concrete requests -/

def sampleLib : FilterLib where
  decimal c := if c.isDigit then some (c.toNat - 48) else none
  isDigit := Char.isDigit
  parseInt t := .ok (Nat.ofDigitChars 10 t 0)

def noArgs : AuditArgs := ⟨none, none, none, none, none, none, none⟩

/-- `?from=2026-01-01&action=delete*&user=alice&target_id=7` -/
def deletedByAlice : AuditArgs :=
  { noArgs with
    fromDay := some "2026-01-01".toList, action := some "delete*".toList, user := some " alice ".toList,
    targetId := some "7".toList }

def deletedByAliceCriteria : List AuditCriterion :=
  [.since (20454 * day), .actionPrefix "delete".toList, .user "alice".toList, .targetId 7]

def deletedByAliceFilters : List (String × Text) :=
  [("from", "2026-01-01".toList), ("action", "delete*".toList), ("user", "alice".toList), ("target_id", "7".toList)]

theorem deletedByAlice_filters : auditFilters sampleLib deletedByAlice =
    .ok (deletedByAliceCriteria, deletedByAliceFilters) := by
  have hfrom : dayArg sampleLib "from" deletedByAlice.fromDay = .ok (some (20454 * day)) := by decide +kernel
  unfold auditFilters
  rw [hfrom]
  rfl

theorem deletedByAlice_plain : PlainTexts deletedByAlice where
  action _ := by decide
  user := by decide
  q := by decide

theorem deletedByAlice_literal : auditFilters sampleLib deletedByAlice =
    .ok (deletedByAliceCriteria, deletedByAliceFilters) ∧
    ∀ r, deletedByAliceCriteria.all (·.selects Letters.sqlite Letters.sqlite r) = true ↔
      Exact sampleLib deletedByAlice r ∧ Texts Letters.sqlite Letters.sqlite deletedByAlice r :=
  ⟨deletedByAlice_filters,
    ((filters_literal_iff sampleLib Letters.sqlite Letters.sqlite).2 deletedByAlice deletedByAliceCriteria
      deletedByAliceFilters
    deletedByAlice_filters).2 fun _ => deletedByAlice_plain⟩

/-- `?user=a_b` -/
def underscored : AuditArgs := { noArgs with user := some "a_b".toList }

def axbRow : AuditLog := ⟨1, some 0, some 1, "axb", "login", none, none, none, "127.0.0.1", none, none⟩

/-- an underscore stands for any character -/
theorem underscore_selects_more : ∃ criteria filters, auditFilters sampleLib underscored = .ok (criteria, filters) ∧
    criteria.all (·.selects Letters.sqlite Letters.sqlite axbRow) = true ∧
    ¬ Contains Letters.sqlite.same (argText underscored.user) axbRow.username.toList := by
  refine ⟨[.user "a_b".toList], [("user", "a_b".toList)], rfl, by decide, ?_⟩
  rw [← likes_contains_iff]
  decide

end Chancery.LiteralFilters
