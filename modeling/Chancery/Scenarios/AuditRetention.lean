/-
The audit chain over whole runs of appends, seals, anchors and prunes.

The chain ever sealed is the archive followed by the sealed rows still in the table (`chain`); it is unbroken
(`OneChain`) when its ids are contiguous, every row carries the hash of the row before it, and only the first row carries
the empty genesis hash.

(1) What one operation does to the chain: appending, anchoring and pruning leave it as it is (`prune_chain`), sealing
extends it (`seal_chain`).
(2) `one_chain_iff`: along a run the chain stays unbroken exactly when no `seal` starts over (`SealSafe`). `seal` takes
its start from the last sealed row in the TABLE; once a prune has archived every sealed row, the next seal begins again
with the genesis hash (`prune_restarts_chain`), and when the table was empty the ids begin again at 1 too.
-/
import Mathlib.Tactic
import Chancery.Scenarios.AuditVerifier

namespace Chancery.AuditChain

open Chancery.Core

/-! ## The system -/

structure St where
  table : AuditTable
  archive : List AuditLog
  now : DateTime

/-- one call; `wait` is the time since the call before it, `lag` the time between two readings of the clock -/
inductive Op
  | append (wait : ℕ) (entry : Entry) (caller : Caller)
  | sealRows (wait : ℕ) (graceSeconds : ℤ)
  | anchor (wait : ℕ) (actor : String)
  | prune (wait lag : ℕ) (days : ℤ) (dryRun : Bool) (actor : String)

def init (now : DateTime) : St := ⟨Table.empty, [], now⟩

def step (H : Sha256) (s : St) : Op → St
  | .append wait e c => ⟨AuditChain.append s.table e c (s.now + wait), s.archive, s.now + wait⟩
  | .sealRows wait grace =>
    match sealRows H s.table (s.now + wait) grace with
    | .ok (t, _) => ⟨t, s.archive, s.now + wait⟩
    | .error _ => ⟨s.table, s.archive, s.now + wait⟩
  | .anchor wait actor =>
    ⟨AuditChain.append s.table (anchorEntry s.table) (.actor actor) (s.now + wait), s.archive, s.now + wait⟩
  | .prune wait lag days dryRun actor =>
    let (rows, t) := AuditChain.prune s.table (s.now + wait) (s.now + wait + lag) days dryRun actor
    ⟨t, s.archive ++ rows, s.now + wait + lag⟩

def sealedRows (t : AuditTable) : List AuditLog := t.rows.filter (·.isSealed)

/-- every row ever sealed, in order -/
def chain (s : St) : List AuditLog := s.archive ++ sealedRows s.table

/-- one unbroken chain -/
structure OneChain (l : List AuditLog) : Prop where
  ids : (l.map (·.id)).IsChain (fun i j => j = i + 1)
  distinct : (l.map (·.id)).Nodup
  links : l.IsChain (fun a b => b.prevHash = a.entryHash)
  start : ∀ i r, l[i]? = some r → (r.prevHash = some genesis ↔ i = 0)

/-- a seal continues the chain: nothing was archived yet, or a sealed row is still in the table, or there is nothing to
seal because the first row is younger than the grace period -/
def SealSafe (s : St) : Op → Prop
  | .sealRows wait grace => s.archive = [] ∨ (∃ r ∈ s.table, r.isSealed = true) ∨
      ∀ first ∈ s.table.rows.head?, first.timestamp.any (s.now + wait - grace * second < ·) = true
  | _ => True

/-! ## Chains -/

theorem oneChain_nil : OneChain [] := ⟨by simp, by simp, by simp, by simp⟩

/-- consecutive ids never repeat -/
theorem nodup_of_consecutive {l : List ℤ} (h : l.IsChain (fun i j => j = i + 1)) : l.Nodup := by
  have hlt : l.IsChain (· < ·) := h.imp fun i j hij => by omega
  exact hlt.pairwise.imp fun h => h.ne

theorem OneChain.snoc {l : List AuditLog} {r : AuditLog} (h : OneChain l)
    (hid : ∀ a ∈ l.getLast?, r.id = a.id + 1) (hlink : ∀ a ∈ l.getLast?, r.prevHash = a.entryHash)
    (hstart : r.prevHash = some genesis ↔ l = []) : OneChain (l ++ [r]) := by
  have hids : ((l ++ [r]).map (·.id)).IsChain (fun i j => j = i + 1) := by
    rw [List.map_append, List.isChain_append]
    refine ⟨h.ids, by simp, ?_⟩
    rintro i hi j hj
    simp only [List.getLast?_map, Option.mem_def, Option.map_eq_some_iff] at hi
    obtain ⟨a, ha, rfl⟩ := hi
    simp only [List.map_cons, List.map_nil, List.head?_cons, Option.mem_def, Option.some.injEq] at hj
    rw [← hj, hid a ha]
  refine ⟨hids, nodup_of_consecutive hids, ?_, ?_⟩
  · rw [List.isChain_append]
    refine ⟨h.links, by simp, ?_⟩
    rintro a ha b hb
    simp only [List.head?_cons, Option.mem_def, Option.some.injEq] at hb
    rw [← hb, hlink a ha]
  · intro i x hx
    rcases lt_trichotomy i l.length with hi | hi | hi
    · rw [List.getElem?_append_left hi] at hx
      exact h.start i x hx
    · subst hi
      simp only [List.getElem?_concat_length, Option.some.injEq] at hx
      rw [← hx, hstart, List.length_eq_zero_iff]
    · rw [List.getElem?_append_right hi.le, List.getElem?_eq_none (by simp; omega)] at hx
      cases hx

/-- a sealed chain that starts where `l` ends extends it -/
theorem OneChain.append_chained {H : Sha256} {l new : List AuditLog} {prev : String} {next : ℤ} (h : OneChain l)
    (hnew : Chained H prev next new) (hprevs : ∀ r ∈ new, r.prevHash.isSome = true)
    (hjoin : (l = [] ∧ prev = genesis) ∨ prev ≠ genesis ∧ ∃ a, l.getLast? = some a ∧ next = a.id + 1 ∧ a.entryHash =
      some prev) :
    OneChain (l ++ new) := by
  induction new generalizing l prev next with
  | nil => simpa using h
  | cons r rest ih =>
    obtain ⟨hid, hprev, c, he, hc, hrest⟩ := hnew
    obtain ⟨p, hp⟩ := Option.isSome_iff_exists.1 (hprevs r List.mem_cons_self)
    have hpp : p = prev := by
      rw [hp] at hprev
      by_cases hpe : p = ""
      · rw [hpe] at hprev ⊢
        exact hprev
      · rw [← hprev, orElse_some_of_ne hpe]
    subst hpp
    have hone : OneChain (l ++ [r]) := by
      rcases hjoin with ⟨rfl, rfl⟩ | ⟨hne, a, ha, hnext, hae⟩
      · exact h.snoc (by simp) (by simp) (by simp [hp])
      · refine h.snoc ?_ ?_ ?_
        · rintro b hb
          cases ha.symm.trans hb
          rw [hid, hnext]
        · rintro b hb
          cases ha.symm.trans hb
          rw [hp, hae]
        · rw [hp]
          refine ⟨fun hg => absurd (Option.some.inj hg) hne, ?_⟩
          rintro rfl
          cases ha
    have := ih hone hrest (fun x hx => hprevs x (List.mem_cons_of_mem _ hx))
      (Or.inr ⟨computeHash_ne_empty hc, r, by simp, rfl, he⟩)
    simpa using this

/-! ## The invariant -/

/-- a sealed row's hash is a real one -/
def Hashed (r : AuditLog) : Prop := ∃ h, r.entryHash = some h ∧ h ≠ genesis ∧ isAscii h.toList = true

theorem hashed_of_computed {H : Sha256} {r : AuditLog} {p : Option String} {h : String}
    (hc : computeHash H r p = .ok h) (he : r.entryHash = some h) : Hashed r := by
  refine ⟨h, he, computeHash_ne_empty hc, ?_⟩
  simp only [computeHash] at hc
  split_ifs at hc
  cases hc
  exact H.isAscii_hexdigest _

structure Inv (s : St) : Prop where
  pos : ∀ r ∈ s.table, 0 < r.id
  ids : (s.table.rows.map (·.id)).IsChain (fun i j => j = i + 1)
  front : s.table.rows.Pairwise (fun a b => b.isSealed = true → a.isSealed = true)
  hashed : ∀ r ∈ chain s, Hashed r
  one : OneChain (chain s)

/-- sealed rows come first, so the table is its sealed rows followed by the unsealed ones -/
theorem rows_eq_of_front {l : List AuditLog} (h : l.Pairwise (fun a b => b.isSealed = true → a.isSealed = true)) :
    l = l.filter (·.isSealed) ++ l.filter (!·.isSealed) := by
  induction l with
  | nil => rfl
  | cons r rest ih =>
    obtain ⟨hr, hrest⟩ := List.pairwise_cons.1 h
    cases hs : r.isSealed with
    | true => simpa [hs] using ih hrest
    | false =>
      have hall : ∀ x ∈ rest, x.isSealed = false := fun x hx => by
        by_contra hne
        rw [hr x hx (by simpa using hne)] at hs
        cases hs
      have h1 : rest.filter (·.isSealed) = [] := List.filter_eq_nil_iff.2 fun x hx => by simp [hall x hx]
      have h2 : rest.filter (!·.isSealed) = rest := List.filter_eq_self.2 fun x hx => by simp [hall x hx]
      simp [hs, h1, h2]

theorem front_of_split {l m : List AuditLog} (hl : ∀ r ∈ l, r.isSealed = true) (hm : ∀ r ∈ m, r.isSealed = false) :
    (l ++ m).Pairwise (fun a b => b.isSealed = true → a.isSealed = true) := by
  refine List.pairwise_append.2 ⟨?_, ?_, fun a ha _ _ _ => hl a ha⟩
  · exact List.pairwise_of_forall_mem_list fun a ha b _ _ => hl a ha
  · exact List.pairwise_of_forall_mem_list fun a _ b hb hbs => absurd hbs (by simp [hm b hb])

theorem inv_init (now : DateTime) : Inv (init now) := by
  refine ⟨by simp [init], by simp [init], by simp [init], ?_, ?_⟩
  · simp [chain, init, sealedRows]
  · simpa [chain, init, sealedRows] using oneChain_nil

/-! ## (1) Appending -/

theorem sealedRows_append (t : AuditTable) (e : Entry) (c : Caller) (now : DateTime) :
    sealedRows (append t e c now) = sealedRows t := by
  simp [sealedRows, append, AuditLog.isSealed]

theorem nextKey_pos {t : AuditTable} (h : ∀ r ∈ t, 0 < r.id) : 0 < t.nextKey := by
  unfold Table.nextKey
  cases hl : t.rows.getLast? with
  | none => decide
  | some r =>
    have := h r (List.mem_of_getLast? hl)
    show 0 < r.id + 1
    omega

/-- an appended row keeps the table's ids contiguous and its sealed rows in front -/
theorem Inv.append {s s' : St} (h : Inv s) {e : Entry} {c : Caller} {at_ : DateTime}
    (ht : s'.table = AuditChain.append s.table e c at_) (ha : s'.archive = s.archive) : Inv s' := by
  have hchain : chain s' = chain s := by rw [chain, chain, ht, ha, sealedRows_append]
  refine ⟨?_, ?_, ?_, by rw [hchain]; exact h.hashed, by rw [hchain]; exact h.one⟩
  · intro r hr
    rw [ht] at hr
    rcases Table.mem_insert.1 hr with hr | rfl
    · exact h.pos r hr
    · rw [logAction_id]
      exact nextKey_pos h.pos
  · rw [ht, AuditChain.append, Table.rows_insert, List.map_append, List.isChain_append]
    refine ⟨h.ids, by simp, ?_⟩
    rintro i hi j hj
    simp only [List.getLast?_map, Option.mem_def, Option.map_eq_some_iff] at hi
    obtain ⟨a, hlast, rfl⟩ := hi
    simp only [List.map_cons, List.map_nil, List.head?_cons, Option.mem_def, Option.some.injEq, logAction_id] at hj
    rw [← hj, Table.nextKey, hlast]
  · rw [ht, AuditChain.append, Table.rows_insert, List.pairwise_append]
    refine ⟨h.front, by simp, ?_⟩
    rintro a _ b hb hbs
    rw [List.mem_singleton.1 hb] at hbs
    simp [AuditLog.isSealed] at hbs

/-! ## (1) Pruning -/

theorem contiguousFrom_eq_nil {e : ℤ} {l : List AuditLog} (h : ∀ r ∈ l, r.id ≠ e) : contiguousFrom e l = [] := by
  cases l with
  | nil => rfl
  | cons r rest => simp [contiguousFrom, h r List.mem_cons_self]

/-- the contiguous part of the matching rows is the front of the table that matches -/
theorem contiguousFrom_filter {p : AuditLog → Bool} {l : List AuditLog} {e : ℤ}
    (hs : l.Pairwise (fun a b => a.id < b.id)) (hids : (l.map (·.id)).IsChain (fun i j => j = i + 1))
    (he : ∀ r ∈ l.head?, r.id = e) : contiguousFrom e (l.filter p) = l.takeWhile p := by
  induction l generalizing e with
  | nil => rfl
  | cons r rest ih =>
    obtain ⟨hlt, hrest⟩ := List.pairwise_cons.1 hs
    have hre : r.id = e := he r (by simp)
    cases hp : p r with
    | true =>
      have hnext : ∀ x ∈ rest.head?, x.id = r.id + 1 := by
        intro x hx
        rw [List.map_cons] at hids
        exact hids.rel_head? (by simp [Option.mem_def.1 hx])
      have hids' : (rest.map (·.id)).IsChain (fun i j => j = i + 1) := by
        rw [List.map_cons] at hids
        exact hids.of_cons
      simp only [List.filter_cons_of_pos hp, List.takeWhile_cons_of_pos hp, contiguousFrom, if_pos hre]
      rw [ih hrest hids' hnext]
    | false =>
      have hp' : ¬ p r = true := by simp [hp]
      rw [List.filter_cons_of_neg hp', List.takeWhile_cons_of_neg hp']
      refine contiguousFrom_eq_nil fun x hx => ?_
      have := hlt x (List.mem_of_mem_filter hx)
      omega

def prunes (cutoff : DateTime) (r : AuditLog) : Bool := r.isSealed && r.timestamp.any (· < cutoff)

theorem prunable_eq {t : AuditTable} (hids : (t.rows.map (·.id)).IsChain (fun i j => j = i + 1)) (cutoff : DateTime) :
    prunable t cutoff = t.rows.takeWhile (prunes cutoff) := by
  have hfilter := contiguousFrom_filter (p := prunes cutoff) (e := (t.rows.head?.map (·.id)).getD 0) t.sorted hids
    (by intro r hr; simp [Option.mem_def.1 hr])
  unfold prunable
  simp only [show (fun r : AuditLog => r.isSealed && r.timestamp.any (· < cutoff)) = prunes cutoff from rfl]
  cases hrows : t.rows with
  | nil => simp
  | cons first rest =>
    rw [hrows] at hfilter
    cases hf : (first :: rest).filter (prunes cutoff) with
    | nil =>
      rw [hf] at hfilter
      simpa [contiguousFrom] using hfilter
    | cons r rows =>
      rw [hf] at hfilter
      simp only [List.head?_cons, Option.map_some, Option.getD_some] at hfilter
      simp only
      split_ifs with hid
      · exact hfilter
      · rw [← hfilter, contiguousFrom, if_neg hid]

/-- deleting the pruned ids leaves the rest of the table -/
theorem filter_not_taken {l : List AuditLog} (hd : (l.map (·.id)).Nodup) (p : AuditLog → Bool) :
    (l.filter fun r => !((l.takeWhile p).map (·.id)).contains r.id) = l.dropWhile p := by
  conv_lhs => rw [← List.takeWhile_append_dropWhile (p := p) (l := l)]
  rw [← List.takeWhile_append_dropWhile (p := p) (l := l), List.map_append] at hd
  have hdisj := List.disjoint_of_nodup_append hd
  rw [List.filter_append, List.filter_eq_nil_iff.2, List.filter_eq_self.2, List.nil_append]
  · intro r hr
    simp only [List.takeWhile_append_dropWhile, Bool.not_eq_true', List.contains_eq_mem, decide_eq_false_iff_not]
    exact fun hmem => hdisj hmem (List.mem_map_of_mem hr)
  · intro r hr
    simp only [List.takeWhile_append_dropWhile, Bool.not_eq_true', List.contains_eq_mem, decide_eq_false_iff_not,
      not_not]
    exact List.mem_map_of_mem hr

/-- what a prune does: nothing, or it moves a front of sealed rows to the archive and appends a checkpoint for them -/
theorem prune_cases {t : AuditTable} (hids : (t.rows.map (·.id)).IsChain (fun i j => j = i + 1))
    (now later : DateTime) (days : ℤ) (dryRun : Bool) (actor : String) :
    prune t now later days dryRun actor = ([], t) ∨
      ∃ rows kept first last, t.rows = rows ++ kept.rows ∧ (∀ r ∈ rows, r.isSealed = true) ∧
        rows.getLast? = some last ∧ prune t now later days dryRun actor =
          (rows, append kept (checkpointEntry first last rows now days) (.actor actor) later) := by
  unfold prune
  by_cases hd : days ≤ 0
  · exact Or.inl (if_pos hd)
  rw [if_neg hd]
  dsimp only
  split
  · rename_i first last _ hlast
    cases dryRun with
    | true => exact Or.inl rfl
    | false =>
      refine Or.inr ⟨_, _, first, last, ?_, ?_, hlast, rfl⟩
      · rw [prunable_eq hids, Table.rows_filter, filter_not_taken t.nodup_keys, List.takeWhile_append_dropWhile]
      · intro r hr
        rw [prunable_eq hids] at hr
        have := List.mem_takeWhile_imp hr
        simp only [prunes, Bool.and_eq_true] at this
        exact this.1
  · exact Or.inl rfl

/-- pruning moves rows from the table to the archive; the chain stays as it is -/
theorem prune_chain {t kept : AuditTable} {rows archive : List AuditLog} (hrows : t.rows = rows ++ kept.rows)
    (hs : ∀ r ∈ rows, r.isSealed = true) : archive ++ sealedRows t = archive ++ rows ++ sealedRows kept := by
  simp only [sealedRows, hrows, List.filter_append, List.filter_eq_self.2 hs, List.append_assoc]

theorem Inv.prune {s : St} (h : Inv s) {wait lag : ℕ} {days : ℤ} {dryRun : Bool} {actor : String} {H : Sha256} :
    Inv (step H s (.prune wait lag days dryRun actor)) := by
  simp only [step]
  rcases prune_cases h.ids (s.now + wait) (s.now + wait + lag) days dryRun actor with
    hp | ⟨rows, kept, first, last, hrows, hs, -, hp⟩
  · rw [hp]
    exact ⟨h.pos, h.ids, h.front, by simpa [chain] using h.hashed, by simpa [chain] using h.one⟩
  · rw [hp]
    have hids := h.ids
    have hfront := h.front
    rw [hrows] at hids hfront
    rw [List.map_append] at hids
    have hchain : chain ⟨kept, s.archive ++ rows, s.now⟩ = chain s := (prune_chain hrows hs).symm
    -- the state between the deletion and the checkpoint
    have hmid : Inv ⟨kept, s.archive ++ rows, s.now⟩ :=
      ⟨fun r hr => h.pos r (by rw [Table.mem_def, hrows]; exact List.mem_append_right _ hr),
        (List.isChain_append.1 hids).2.1, (List.pairwise_append.1 hfront).2.1,
        by rw [hchain]; exact h.hashed, by rw [hchain]; exact h.one⟩
    show Inv ⟨AuditChain.append kept (checkpointEntry first last rows (s.now + wait) days) (.actor actor)
      (s.now + wait + lag), s.archive ++ rows, s.now + wait + lag⟩
    exact hmid.append rfl rfl

/-! ## (1) Sealing -/

/-- the loop seals a front of the pending rows into a chain from the given hash -/
theorem sealLoop_spec {H : Sha256} {cutoff : DateTime} {rows done : List AuditLog} {expected : Option ℤ}
    {prev : String} {stopped : Option String} (h : sealLoop H cutoff rows expected prev = .ok (done, stopped)) :
    done.map (·.id) = (rows.take done.length).map (·.id) ∧ (∀ e ∈ expected, ∀ d ∈ done.head?, d.id = e) ∧
      (∀ r ∈ done, r.prevHash.isSome = true) ∧ ∀ next, (∀ d ∈ done.head?, d.id = next) → Chained H prev next done := by
  induction rows generalizing done expected prev stopped with
  | nil =>
    simp only [sealLoop, Except.ok.injEq, Prod.mk.injEq] at h
    obtain ⟨rfl, _⟩ := h
    exact ⟨rfl, by simp, by simp, fun _ _ => trivial⟩
  | cons row rest ih =>
    simp only [sealLoop] at h
    split_ifs at h with hgap hyoung
    · simp only [Except.ok.injEq, Prod.mk.injEq] at h
      obtain ⟨rfl, _⟩ := h
      exact ⟨rfl, by simp, by simp, fun _ _ => trivial⟩
    · simp only [Except.ok.injEq, Prod.mk.injEq] at h
      obtain ⟨rfl, _⟩ := h
      exact ⟨rfl, by simp, by simp, fun _ _ => trivial⟩
    · obtain ⟨c, hc, h⟩ := bind_eq_ok.1 h
      obtain ⟨⟨done', stopped'⟩, hloop, h⟩ := bind_eq_ok.1 h
      cases h
      obtain ⟨hids, hexp, hprevs, hchain⟩ := ih hloop
      refine ⟨by simpa using hids, ?_, ?_, ?_⟩
      · rintro e he d hd
        simp only [List.head?_cons, Option.mem_def, Option.some.injEq] at hd
        rw [← hd, AuditLog.sealWith_id]
        have heq : e = row.id := by simpa [Option.mem_def.1 he] using hgap
        exact heq.symm
      · rintro r (_ | ⟨_, hr⟩)
        · rfl
        · exact hprevs r hr
      · intro next hnext
        have hprev : orElse (some prev) genesis = prev := by
          by_cases hp : prev = ""
          · rw [hp]; rfl
          · exact orElse_some_of_ne hp
        exact ⟨hnext _ rfl, hprev, c, rfl, hc, hchain _ (hexp _ rfl)⟩

/-- ASCII hashes never make the loop fail -/
theorem sealLoop_ok (H : Sha256) (cutoff : DateTime) (rows : List AuditLog) (expected : Option ℤ) {prev : String}
    (hp : isAscii prev.toList = true) : ∃ res, sealLoop H cutoff rows expected prev = .ok res := by
  induction rows generalizing expected prev with
  | nil => exact ⟨_, rfl⟩
  | cons row rest ih =>
    simp only [sealLoop]
    split_ifs
    · exact ⟨_, rfl⟩
    · exact ⟨_, rfl⟩
    · have hor : orElse (some prev) genesis = prev := by
        by_cases hpe : prev = ""
        · rw [hpe]; rfl
        · exact orElse_some_of_ne hpe
      have hc : computeHash H row (some prev) = .ok (H.hexdigest (prev ++ "\n" ++ canonical row)) := by
        simp [computeHash, hor, hp]
      obtain ⟨⟨done, stopped⟩, hd⟩ := ih (some (row.id + 1)) (H.isAscii_hexdigest (prev ++ "\n" ++ canonical row))
      exact ⟨(row.sealWith prev (H.hexdigest (prev ++ "\n" ++ canonical row)) :: done, stopped),
        bind_eq_ok.2 ⟨_, hc, bind_eq_ok.2 ⟨_, hd, rfl⟩⟩⟩

/-- writing rows back: each row is replaced by the sealed row with its id -/
theorem map_writeBack {rows done : List AuditLog} (hd : (rows.map (·.id)).Nodup)
    (hids : done.map (·.id) = (rows.take done.length).map (·.id)) :
    rows.map (fun r => (done.find? (·.id == r.id)).getD r) = done ++ rows.drop done.length := by
  induction rows generalizing done with
  | nil =>
    have : done = [] := by simpa using hids
    simp [this]
  | cons r rest ih =>
    cases done with
    | nil => simp
    | cons d done =>
      simp only [List.map_cons, List.length_cons, List.take_succ_cons, List.cons.injEq] at hids
      obtain ⟨hdr, hids⟩ := hids
      simp only [List.map_cons, List.nodup_cons] at hd
      have htail : rest.map (fun x => ((d :: done).find? (·.id == x.id)).getD x) =
          rest.map (fun x => (done.find? (·.id == x.id)).getD x) := by
        refine List.map_congr_left fun x hx => ?_
        have hne : d.id ≠ x.id := by
          rw [hdr]
          exact fun h => hd.1 (h ▸ List.mem_map_of_mem hx)
        simp [hne]
      simp only [List.map_cons, htail, ih hd.2 hids]
      simp [hdr]

def unsealedRows (t : AuditTable) : List AuditLog := t.rows.filter (!·.isSealed)

theorem Inv.rows_eq {s : St} (h : Inv s) : s.table.rows = sealedRows s.table ++ unsealedRows s.table :=
  rows_eq_of_front h.front

/-- the head is the last row of the sealed front -/
theorem Inv.headRow_eq {s : St} (h : Inv s) : headRow s.table = (sealedRows s.table).getLast? := by
  have htail : (unsealedRows s.table).reverse.find? (·.isSealed) = none := by
    rw [List.find?_eq_none]
    intro r hr
    have := List.of_mem_filter (List.mem_reverse.1 hr)
    simpa using this
  have hfront : ∀ r ∈ (sealedRows s.table).reverse.head?, r.isSealed = true := fun r hr =>
    List.of_mem_filter (List.mem_reverse.1 (List.mem_of_mem_head? hr))
  rw [headRow, h.rows_eq, List.reverse_append, List.find?_append, htail, Option.none_or, ← List.head?_reverse]
  cases hd : (sealedRows s.table).reverse with
  | nil => rfl
  | cons r rest => simp [hfront r (by simp [hd])]

/-- everything unsealed is pending -/
theorem Inv.pending_eq {s : St} (h : Inv s) : pending s.table = unsealedRows s.table := by
  refine List.filter_congr fun r hr => ?_
  cases hrs : r.isSealed with
  | true => rfl
  | false =>
    have hmem : r ∈ unsealedRows s.table := List.mem_filter.2 ⟨hr, by simp [hrs]⟩
    have hs := s.table.sorted
    rw [h.rows_eq] at hs
    have hlt : (head s.table).1.getD 0 < r.id := by
      simp only [head, h.headRow_eq]
      cases hl : (sealedRows s.table).getLast? with
      | none => exact h.pos r hr
      | some a => exact (List.pairwise_append.1 hs).2.2 a (List.mem_of_getLast? hl) r hmem
    simp [hlt]

theorem Inv.head_ascii {s : St} (h : Inv s) : isAscii (head s.table).2.toList = true := by
  simp only [head, h.headRow_eq]
  cases hl : (sealedRows s.table).getLast? with
  | none => rfl
  | some a =>
    obtain ⟨c, hc, _, hca⟩ := h.hashed a (List.mem_append_right _ (List.mem_of_getLast? hl))
    simp only [hc, Option.getD_some]
    exact hca

theorem writeBack_ids (t : AuditTable) (done : List AuditLog) :
    (writeBack t done).rows.map (·.id) = t.rows.map (·.id) := by
  rw [writeBack, Table.rows_mapRows, List.map_map]
  refine List.map_congr_left fun r _ => ?_
  cases hf : done.find? (·.id == r.id) with
  | none => simp [hf]
  | some d =>
    have : d.id = r.id := by simpa using List.find?_some hf
    simp [hf, this]

/-- writing back the rows sealed from the front of the unsealed ones touches nothing else -/
theorem Inv.writeBack_rows {s : St} (h : Inv s) {done : List AuditLog}
    (hids : done.map (·.id) = ((unsealedRows s.table).take done.length).map (·.id)) :
    (writeBack s.table done).rows = sealedRows s.table ++ (done ++ (unsealedRows s.table).drop done.length) := by
  have hnodup := s.table.nodup_keys
  rw [h.rows_eq, List.map_append] at hnodup
  have hkeep : (sealedRows s.table).map (fun r => (done.find? (·.id == r.id)).getD r) = sealedRows s.table := by
    conv_rhs => rw [← List.map_id (sealedRows s.table)]
    refine List.map_congr_left fun r hr => ?_
    have hnone : done.find? (·.id == r.id) = none := by
      refine List.find?_eq_none.2 fun d hd heq => List.disjoint_of_nodup_append hnodup (List.mem_map_of_mem hr) ?_
      have hdm : d.id ∈ done.map (·.id) := List.mem_map_of_mem hd
      rw [hids, List.map_take] at hdm
      rw [← eq_of_beq heq]
      exact List.mem_of_mem_take hdm
    simp [hnone]
  rw [writeBack, Table.rows_mapRows]
  conv_lhs => rw [h.rows_eq]
  rw [List.map_append, hkeep, map_writeBack (List.nodup_append.1 hnodup).2.1 hids]

/-- **(1) What a seal does.** It turns a front of the unsealed rows into the rows `sealLoop` built. -/
theorem Inv.seal_step {s : St} (h : Inv s) (H : Sha256) (wait : ℕ) (grace : ℤ) :
    ∃ done stopped, sealLoop H (s.now + wait - grace * second) (unsealedRows s.table)
        ((head s.table).1.map (· + 1)) (head s.table).2 = .ok (done, stopped) ∧
      step H s (.sealRows wait grace) = ⟨writeBack s.table done, s.archive, s.now + wait⟩ := by
  obtain ⟨⟨done, stopped⟩, hloop⟩ := sealLoop_ok H (s.now + wait - grace * second) (unsealedRows s.table)
    ((head s.table).1.map (· + 1)) h.head_ascii
  refine ⟨done, stopped, hloop, ?_⟩
  rw [← h.pending_eq] at hloop
  simp only [step, sealRows, hloop]
  rfl

/-- the sealed rows after a seal -/
theorem Inv.seal_chain {s : St} (h : Inv s) {done : List AuditLog}
    (hids : done.map (·.id) = ((unsealedRows s.table).take done.length).map (·.id))
    (hdone : ∀ r ∈ done, r.isSealed = true) (now : DateTime) :
    chain ⟨writeBack s.table done, s.archive, now⟩ = chain s ++ done := by
  have htail : ∀ r ∈ (unsealedRows s.table).drop done.length, ¬ r.isSealed = true := fun r hr => by
    simpa using List.of_mem_filter (List.mem_of_mem_drop hr)
  have hfront : ∀ r ∈ sealedRows s.table, r.isSealed = true := fun r hr => List.of_mem_filter hr
  rw [chain, sealedRows, h.writeBack_rows hids, List.filter_append, List.filter_append, List.filter_eq_self.2 hdone,
    List.filter_eq_nil_iff.2 htail, List.filter_eq_self.2 hfront, List.append_nil, chain, List.append_assoc]

/-- a first row younger than the grace period stops the loop at once -/
theorem sealLoop_young {H : Sha256} {cutoff : DateTime} {rows done : List AuditLog} {expected : Option ℤ}
    {prev : String} {stopped : Option String} (h : sealLoop H cutoff rows expected prev = .ok (done, stopped))
    (hy : ∀ first ∈ rows.head?, first.timestamp.any (cutoff < ·) = true) : done = [] := by
  cases rows with
  | nil =>
    simp only [sealLoop, Except.ok.injEq, Prod.mk.injEq] at h
    exact h.1.symm
  | cons row rest =>
    have hrow := hy row (by simp)
    simp only [sealLoop, hrow, if_true] at h
    split_ifs at h <;> (simp only [Except.ok.injEq, Prod.mk.injEq] at h; exact h.1.symm)

/-- the head after the last row of a non-empty sealed front -/
theorem Inv.head_some {s : St} (h : Inv s) {a : AuditLog} (ha : (sealedRows s.table).getLast? = some a) :
    ∃ c, a.entryHash = some c ∧ c ≠ genesis ∧ head s.table = (some a.id, c) := by
  obtain ⟨c, hc, hne, _⟩ := h.hashed a (List.mem_append_right _ (List.mem_of_getLast? ha))
  exact ⟨c, hc, hne, by simp [head, h.headRow_eq, ha, hc]⟩

theorem Inv.head_none {s : St} (h : Inv s) (hs : sealedRows s.table = []) : head s.table = (none, genesis) := by
  simp [head, h.headRow_eq, hs]

/-- a safe seal keeps the invariant -/
theorem Inv.seal {s : St} (h : Inv s) {H : Sha256} {wait : ℕ} {grace : ℤ} (hsafe : SealSafe s (.sealRows wait grace)) :
    Inv (step H s (.sealRows wait grace)) := by
  obtain ⟨done, stopped, hloop, hstep⟩ := h.seal_step H wait grace
  obtain ⟨hids, hexp, hprevs, hchained⟩ := sealLoop_spec hloop
  have hnew : Chained H (head s.table).2 ((done.head?.map (·.id)).getD 0) done :=
    hchained _ fun d hd => by simp [Option.mem_def.1 hd]
  have hchain := h.seal_chain hids hnew.all_sealed (s.now + wait)
  have hrows := h.writeBack_rows hids
  have hmap := writeBack_ids s.table done
  -- how the new rows join the chain so far
  have hjoin : done = [] ∨ (chain s = [] ∧ (head s.table).2 = genesis) ∨ (head s.table).2 ≠ genesis ∧
      ∃ a, (chain s).getLast? = some a ∧ (done.head?.map (·.id)).getD 0 = a.id + 1 ∧
        a.entryHash = some (head s.table).2 := by
    cases hl : (sealedRows s.table).getLast? with
    | none =>
      have hnil := List.getLast?_eq_none_iff.1 hl
      rcases hsafe with ha | ⟨r, hr, hrs⟩ | hyoung
      · exact Or.inr (Or.inl ⟨by simp [chain, ha, hnil], by rw [h.head_none hnil]⟩)
      · have : r ∈ sealedRows s.table := List.mem_filter.2 ⟨hr, hrs⟩
        rw [hnil] at this
        cases this
      · refine Or.inl (sealLoop_young hloop ?_)
        rwa [h.rows_eq, hnil, List.nil_append] at hyoung
    | some a =>
      cases hd : done with
      | nil => exact Or.inl rfl
      | cons d rest =>
        obtain ⟨c, hc, hne, hhead⟩ := h.head_some hl
        refine Or.inr (Or.inr ⟨by rw [hhead]; exact hne, a, by simp [chain, hl], ?_, by rw [hhead]; exact hc⟩)
        have := hexp (a.id + 1) (by simp [hhead]) d (by simp [hd])
        simpa using this
  rw [hstep]
  refine ⟨?_, ?_, ?_, ?_, ?_⟩
  · intro r hr
    have : r.id ∈ s.table.rows.map (·.id) := hmap ▸ List.mem_map_of_mem hr
    obtain ⟨r', hr', hid⟩ := List.mem_map.1 this
    rw [← hid]
    exact h.pos r' hr'
  · show ((writeBack s.table done).rows.map (·.id)).IsChain _
    rw [hmap]
    exact h.ids
  · show (writeBack s.table done).rows.Pairwise _
    rw [hrows, ← List.append_assoc]
    refine front_of_split (fun r hr => ?_) fun r hr => by simpa using List.of_mem_filter (List.mem_of_mem_drop hr)
    rcases List.mem_append.1 hr with hr | hr
    · exact List.of_mem_filter hr
    · exact hnew.all_sealed r hr
  · rw [hchain]
    rintro r hr
    rcases List.mem_append.1 hr with hr | hr
    · exact h.hashed r hr
    · obtain ⟨c, hc, he⟩ := hnew.all_hashed r hr
      exact hashed_of_computed hc he
  · rw [hchain]
    rcases hjoin with hnil | hjoin
    · simpa [hnil] using h.one
    · exact h.one.append_chained hnew hprevs hjoin

/-- a seal that is not safe starts a second chain: the first row it seals has the genesis hash -/
theorem Inv.seal_restarts {s : St} (h : Inv s) {H : Sha256} {wait : ℕ} {grace : ℤ}
    (hbad : ¬ SealSafe s (.sealRows wait grace)) : ¬ OneChain (chain (step H s (.sealRows wait grace))) := by
  simp only [SealSafe, not_or, not_exists, not_and, not_forall] at hbad
  obtain ⟨harch, hnone, first, hfirst, hold⟩ := hbad
  obtain ⟨done, stopped, hloop, hstep⟩ := h.seal_step H wait grace
  obtain ⟨hids, hexp, hprevs, hchained⟩ := sealLoop_spec hloop
  have hnew : Chained H (head s.table).2 ((done.head?.map (·.id)).getD 0) done :=
    hchained _ fun d hd => by simp [Option.mem_def.1 hd]
  have hnil : sealedRows s.table = [] := List.filter_eq_nil_iff.2 hnone
  rw [hstep, h.seal_chain hids hnew.all_sealed]
  -- the loop starts at the first row of the table, from the genesis hash
  obtain ⟨rest, hrows⟩ : ∃ rest, unsealedRows s.table = first :: rest := by
    refine List.head?_eq_some_iff.1 ?_
    rw [← Option.mem_def.1 hfirst, h.rows_eq, hnil, List.nil_append]
  rw [h.head_none hnil, hrows] at hloop
  simp only [sealLoop, Option.map_none, Option.any_none, Bool.false_eq_true, if_false, if_neg hold] at hloop
  obtain ⟨c, _, hloop⟩ := bind_eq_ok.1 hloop
  obtain ⟨⟨done', stopped'⟩, _, hloop⟩ := bind_eq_ok.1 hloop
  cases hloop
  intro hone
  have hat : (chain s ++ first.sealWith genesis c :: done')[(chain s).length]? = some (first.sealWith genesis c) := by
    simp
  have hlen := (hone.start _ _ hat).1 rfl
  simp [chain, harch] at hlen

/-! ## (2) The chain along a run -/

theorem Inv.step {s : St} (h : Inv s) {H : Sha256} {o : Op} (hsafe : SealSafe s o) : Inv (step H s o) := by
  cases o with
  | append wait e c => exact h.append rfl rfl
  | sealRows wait grace => exact h.seal hsafe
  | anchor wait actor => exact h.append rfl rfl
  | prune wait lag days dryRun actor => exact h.prune

theorem Inv.step_restarts {s : St} (h : Inv s) {H : Sha256} {o : Op} (hbad : ¬ SealSafe s o) :
    ¬ OneChain (chain (AuditChain.step H s o)) := by
  cases o with
  | sealRows wait grace => exact h.seal_restarts hbad
  | append wait e c => exact absurd trivial hbad
  | anchor wait actor => exact absurd trivial hbad
  | prune wait lag days dryRun actor => exact absurd trivial hbad

/-- **(2) One unbroken chain.** From an empty log, the archive and the sealed rows form one chain all along a run
exactly when every seal of the run continues the chain. -/
theorem one_chain_iff (H : Sha256) (now : DateTime) (ops : List Op) :
    (∀ l, l <+: ops → OneChain (chain (run (step H) (init now) l))) ↔ Meets (step H) SealSafe (init now) ops :=
  forall_prefix_iff_meets (fun _ h => h.one) (fun _ _ h => h.step) (fun _ _ h => h.step_restarts) (inv_init now) ops

/-- append one row, seal it, prune it after two days (retention one day), seal the checkpoint -/
def restartRun : List Op :=
  [.append 0 ⟨"test_event", none, none, none⟩ (.actor "cli"), .sealRows (10 * 1000000) 5,
    .prune (2 * 86400 * 1000000) 0 1 false "scheduler", .sealRows (10 * 1000000) 5]

/-- **Pruning everything restarts the chain.** The archived row and the checkpoint both have id 1. -/
theorem prune_restarts_chain :
    (chain (run (step Sha256.echo) (init 0) restartRun)).map (·.id) = [1, 1] ∧
      ¬ OneChain (chain (run (step Sha256.echo) (init 0) restartRun)) := by
  have hids : (chain (run (step Sha256.echo) (init 0) restartRun)).map (·.id) = [1, 1] := by decide +kernel
  refine ⟨hids, fun h => ?_⟩
  have := h.distinct
  rw [hids] at this
  exact absurd this (by decide)

end Chancery.AuditChain
