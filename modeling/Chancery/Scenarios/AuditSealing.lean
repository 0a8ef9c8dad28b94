/-
Is the audit chain sealed once, in order, by sealers that run at the same time?

(1) A seal that has found a sealed row extends its chain and nothing else, whatever the others do: the ids it may seal are
contiguous from the head, and what it writes is determined by them (`chained_determined`).

(2) A seal that has found no sealed row takes the first row it sees. If then no row is sealed yet and no insert below that
row is still in flight (`StartsFirst`), the sealed rows are one chain in id order, their hashes never change, and every row
below the sealed head is sealed (`sealed_one_chain`).

(3) `late_commit`: on an empty log, a seal passes over a row in flight, which commits below the sealed head.
-/
import Mathlib.Tactic
import Chancery.Services.AuditSealing
import Chancery.Scenarios.AuditRetention

namespace Chancery.AuditChain

open Chancery.Core

namespace Sealing

/-! ## (1) What a seal writes -/

/-- what a seal does not change -/
def contents (r : AuditLog) : AuditLog := { r with prevHash := none, entryHash := none }

theorem contents_id {r s : AuditLog} (h : contents r = contents s) : r.id = s.id := by
  have hid : (contents r).id = (contents s).id := by rw [h]
  exact hid

theorem computeHash_contents {H : Sha256} {r s : AuditLog} (h : contents r = contents s) (p : Option String) :
    computeHash H r p = computeHash H s p := by
  calc computeHash H r p = computeHash H (contents r) p := rfl
    _ = computeHash H (contents s) p := by rw [h]
    _ = computeHash H s p := rfl

theorem eq_of_contents {r s : AuditLog} (h : contents r = contents s) (hp : r.prevHash = s.prevHash)
    (he : r.entryHash = s.entryHash) : r = s := by
  cases r
  cases s
  simp only [contents, AuditLog.mk.injEq] at h ⊢
  simp only at hp he
  simp only [h, hp, he, and_self]

/-- a row with both hashes, and the entry hash is the right one -/
def Hashes (H : Sha256) (r : AuditLog) : Prop :=
  ∃ q h, r.prevHash = some q ∧ r.entryHash = some h ∧ computeHash H r (some q) = .ok h

theorem Hashes.eq {H : Sha256} {r s : AuditLog} (hr : Hashes H r) (hs : Hashes H s) (hc : contents r = contents s)
    (hp : r.prevHash = s.prevHash) : r = s := by
  obtain ⟨q, h, hq, hh, hcompute⟩ := hr
  obtain ⟨q', h', hq', hh', hcompute'⟩ := hs
  have hqq : q = q' := Option.some.inj (hq.symm.trans (hp.trans hq'))
  have heq : Except.ok (ε := PyError) h = .ok h' := by
    calc Except.ok h = computeHash H r (some q) := hcompute.symm
      _ = computeHash H s (some q') := by rw [computeHash_contents hc, hqq]
      _ = .ok h' := hcompute'
  have hhh : h = h' := by injection heq
  exact eq_of_contents hc hp (by rw [hh, hh', hhh])

section Chains

variable {H : Sha256} {prev : String} {next : ℤ} {rows : List AuditLog}

theorem prevHash_of_orElse {r : AuditLog} (hp : orElse r.prevHash genesis = prev) (hsome : r.prevHash.isSome = true) :
    r.prevHash = some prev := by
  obtain ⟨p, hpe⟩ := Option.isSome_iff_exists.1 hsome
  rw [hpe] at hp ⊢
  by_cases hempty : p = ""
  · rw [hempty] at hp ⊢
    exact congrArg some hp
  · rw [← hp, orElse_some_of_ne hempty]

theorem chained_le (h : Chained H prev next rows) : ∀ r ∈ rows, next ≤ r.id := by
  induction rows generalizing prev next with
  | nil => exact fun r hr => absurd hr List.not_mem_nil
  | cons row rest ih =>
    obtain ⟨hid, _, c, _, _, hrest⟩ := h
    intro r hr
    rcases List.mem_cons.1 hr with rfl | hr
    · exact hid.ge
    · have hle := ih hrest r hr
      omega

theorem chained_hashes (h : Chained H prev next rows) (hsome : ∀ r ∈ rows, r.prevHash.isSome = true) :
    ∀ r ∈ rows, Hashes H r := by
  intro r hr
  obtain ⟨c, hc, he⟩ := h.all_hashed r hr
  obtain ⟨q, hq⟩ := Option.isSome_iff_exists.1 (hsome r hr)
  exact ⟨q, c, hq, he, hq ▸ hc⟩

/-- every row but the first carries the hash of the row before it -/
theorem chained_pred (h : Chained H prev next rows) (hsome : ∀ r ∈ rows, r.prevHash.isSome = true) :
    ∀ r ∈ rows, (r.id = next ∧ r.prevHash = some prev) ∨ ∃ y ∈ rows, y.id = r.id - 1 ∧ r.prevHash = y.entryHash := by
  induction rows generalizing prev next with
  | nil => exact fun r hr => absurd hr List.not_mem_nil
  | cons row rest ih =>
    obtain ⟨hid, hprev, c, he, hc, hrest⟩ := h
    intro r hr
    rcases List.mem_cons.1 hr with rfl | hr
    · exact Or.inl ⟨hid, prevHash_of_orElse hprev (hsome r List.mem_cons_self)⟩
    · rcases ih hrest (fun x hx => hsome x (List.mem_cons_of_mem _ hx)) r hr with ⟨hrid, hrprev⟩ | ⟨y, hy, hyid, hlink⟩
      · refine Or.inr ⟨row, List.mem_cons_self, ?_, hrprev.trans he.symm⟩
        omega
      · exact Or.inr ⟨y, List.mem_cons_of_mem _ hy, hyid, hlink⟩

theorem chained_ids_inj (h : Chained H prev next rows) {r s : AuditLog} (hr : r ∈ rows) (hs : s ∈ rows)
    (hid : r.id = s.id) : r = s :=
  List.inj_on_of_nodup_map (nodup_of_consecutive h.ids) hr hs hid

/-- **Sealing is determined.** Let the rows of `V` with an id from `f` on have right hashes, each but the one with the id
`f` linked to the row before it. If they go on from `next` as the chain does, and have its contents, they are its rows. -/
theorem chained_determined {V : AuditLog → Prop} {f : ℤ} (h : Chained H prev next rows)
    (hsome : ∀ r ∈ rows, r.prevHash.isSome = true) (hhash : ∀ y, V y → Hashes H y)
    (hlink : ∀ y, V y → y.id ≠ f → ∃ z, V z ∧ z.id = y.id - 1 ∧ y.prevHash = z.entryHash) (hf : f ≤ next)
    (hstart : ∀ y, V y → y.id = next → y.prevHash = some prev)
    (hcontents : ∀ r ∈ rows, ∀ y, V y → y.id = r.id → contents y = contents r) :
    ∀ r ∈ rows, ∀ y, V y → y.id = r.id → y = r := by
  induction rows generalizing prev next with
  | nil => exact fun r hr => absurd hr List.not_mem_nil
  | cons row rest ih =>
    have hrow := chained_hashes h hsome row List.mem_cons_self
    obtain ⟨hid, hprev, c, he, hc, hrest⟩ := h
    have hfirst : ∀ y, V y → y.id = row.id → y = row := by
      intro y hy hyid
      have hlinked : y.prevHash = row.prevHash :=
        (hstart y hy (hyid.trans hid)).trans (prevHash_of_orElse hprev (hsome row List.mem_cons_self)).symm
      exact (hhash y hy).eq hrow (hcontents row List.mem_cons_self y hy hyid) hlinked
    intro r hr
    rcases List.mem_cons.1 hr with rfl | hr
    · exact hfirst
    · refine ih hrest (fun x hx => hsome x (List.mem_cons_of_mem _ hx)) (by omega) (fun y hy hyid => ?_)
        (fun x hx => hcontents x (List.mem_cons_of_mem _ hx)) r hr
      -- the row before `y` is the first row of the chain
      obtain ⟨z, hz, hzid, hyz⟩ := hlink y hy (by omega)
      have hzrow : z = row := hfirst z hz (by omega)
      rw [hyz, hzrow, he]

end Chains

/-! ## (2) The invariant -/

/-- a row that is sealed in the table -/
def SealedIn (t : AuditTable) (x : AuditLog) : Prop := x ∈ t ∧ x.isSealed = true

/-- a sealed row, in the table or in a session -/
def Version (r : SealRace) (x : AuditLog) : Prop := SealedIn r.shared.rows x ∨ ∃ i, x ∈ (r.workers i).done

/-- ids are given out in order, and a head that was read is still sealed -/
structure Tidy (r : SealRace) : Prop where
  nextPos : 0 < r.shared.nextId
  pos : ∀ x ∈ r.shared.rows, 0 < x.id
  below : ∀ x ∈ r.shared.rows, x.id < r.shared.nextId
  flightBelow : ∀ x ∈ r.shared.inFlight, 0 < x.id ∧ x.id < r.shared.nextId
  flightUnsealed : ∀ x ∈ r.shared.inFlight, x.isSealed = false
  flightApart : ∀ x ∈ r.shared.inFlight, ∀ y ∈ r.shared.rows, y.id ≠ x.id
  flightOnce : (r.shared.inFlight.map (·.id)).Nodup
  heads : ∀ i cutoff h prev, r.workers i = .headRead cutoff (some h) prev →
    ∃ x, SealedIn r.shared.rows x ∧ x.id = h ∧ x.entryHash = some prev
  noHead : ∀ i cutoff prev, r.workers i = .headRead cutoff none prev → prev = genesis

/-- the chain that starts at the id `f` with the hash `p`, in the table and in the sessions -/
structure Grows (H : Sha256) (f : ℤ) (p : String) (r : SealRace) : Prop where
  low : ∀ x ∈ r.shared.rows, f ≤ x.id
  lowFlight : ∀ x ∈ r.shared.inFlight, f ≤ x.id
  lowNext : f < r.shared.nextId
  hashes : ∀ x, Version r x → Hashes H x
  stored : ∀ x, Version r x → ∃ y ∈ r.shared.rows, contents y = contents x
  start : ∀ x, Version r x → x.id = f → x.prevHash = some p
  link : ∀ x, SealedIn r.shared.rows x → x.id ≠ f →
    ∃ y, SealedIn r.shared.rows y ∧ y.id = x.id - 1 ∧ x.prevHash = y.entryHash
  linkDone : ∀ i, ∀ x ∈ (r.workers i).done, x.id ≠ f →
    ∃ y, (SealedIn r.shared.rows y ∨ y ∈ (r.workers i).done) ∧ y.id = x.id - 1 ∧ x.prevHash = y.entryHash
  agree : ∀ x y, Version r x → Version r y → x.id = y.id → x = y
  fresh : (∀ x, ¬ SealedIn r.shared.rows x) → p = genesis

/-- nothing is sealed yet, or there is one chain -/
def Chain (H : Sha256) (r : SealRace) : Prop := (∀ x, ¬ Version r x) ∨ ∃ f p, Grows H f p r

/-- no row is sealed and no insert below the first pending row is in flight, or that row is too young to be sealed -/
def FirstClear (s : LogDb) (cutoff : DateTime) : Prop :=
  ∀ first ∈ (pendingAfter s.rows none).head?, first.timestamp.any (cutoff < ·) = false →
    (∀ x ∈ s.rows.rows, x.isSealed = false) ∧ ∀ x ∈ s.inFlight, first.id < x.id

/-- the worker that takes a step -/
def sealer? : LogOp → Option ℕ
  | .sealing i _ _ => some i
  | _ => none

/-- a seal that found no sealed row and is about to read the pending rows, with its cutoff -/
def headless? : SealPhase → Option DateTime
  | .headRead cutoff none _ => some cutoff
  | _ => none

/-- a seal that found no sealed row reads the pending rows when the first of them is clear -/
def StartsFirst (r : SealRace) (o : LogOp) : Prop :=
  ∀ i ∈ sealer? o, ∀ cutoff ∈ headless? (r.workers i), FirstClear r.shared cutoff

instance (s : LogDb) (cutoff : DateTime) : Decidable (FirstClear s cutoff) :=
  inferInstanceAs (Decidable (∀ first ∈ (pendingAfter s.rows none).head?, _ → _ ∧ _))

instance (r : SealRace) (o : LogOp) : Decidable (StartsFirst r o) :=
  inferInstanceAs (Decidable (∀ i ∈ sealer? o, ∀ cutoff ∈ headless? (r.workers i), _))

section Frame

variable {H : Sha256} {f : ℤ} {p : String} {r r' : SealRace}

theorem Grows.version_ge (h : Grows H f p r) {x : AuditLog} (hx : Version r x) : f ≤ x.id := by
  obtain ⟨y, hy, hc⟩ := h.stored x hx
  have hid := contents_id hc
  have hle := h.low y hy
  omega

/-- a version's predecessor is a version -/
theorem Grows.version_link (h : Grows H f p r) {x : AuditLog} (hx : Version r x) (hf : x.id ≠ f) :
    ∃ y, Version r y ∧ y.id = x.id - 1 ∧ x.prevHash = y.entryHash := by
  rcases hx with hx | ⟨i, hx⟩
  · obtain ⟨y, hy, hid, hlink⟩ := h.link x hx hf
    exact ⟨y, Or.inl hy, hid, hlink⟩
  · obtain ⟨y, hy, hid, hlink⟩ := h.linkDone i x hx hf
    exact ⟨y, hy.imp_right fun hy => ⟨i, hy⟩, hid, hlink⟩

/-- every id from the start of the chain to a version has a version -/
theorem Grows.version_below (h : Grows H f p r) (n : ℕ) :
    ∀ x, Version r x → x.id = f + n → ∀ k : ℕ, k ≤ n → ∃ y, Version r y ∧ y.id = f + k := by
  induction n with
  | zero =>
    intro x hx hid k hk
    exact ⟨x, hx, by rw [hid, Nat.le_zero.1 hk]⟩
  | succ n ih =>
    intro x hx hid k hk
    by_cases hkn : k = n + 1
    · exact ⟨x, hx, by rw [hid, hkn]⟩
    · obtain ⟨y, hy, hyid, _⟩ := h.version_link hx (by omega)
      exact ih y hy (by omega) k (by omega)

/-- a sealed row's predecessors are sealed -/
theorem Grows.sealed_below (h : Grows H f p r) (n : ℕ) :
    ∀ x, SealedIn r.shared.rows x → ∀ i : ℤ, f ≤ i → x.id = i + n → ∃ y, SealedIn r.shared.rows y ∧ y.id = i := by
  induction n with
  | zero =>
    intro x hx i _ hid
    exact ⟨x, hx, by omega⟩
  | succ n ih =>
    intro x hx i hi hid
    obtain ⟨y, hy, hyid, _⟩ := h.link x hx (by omega)
    exact ih y hy i hi (by omega)

/-- a step that changes neither the sealed rows nor what the sessions hold, and loses no row -/
theorem Grows.frame (h : Grows H f p r) (hsealed : ∀ x, SealedIn r'.shared.rows x ↔ SealedIn r.shared.rows x)
    (hdone : ∀ i, (r'.workers i).done = (r.workers i).done) (hkeep : ∀ x ∈ r.shared.rows, x ∈ r'.shared.rows)
    (hlow : ∀ x ∈ r'.shared.rows, f ≤ x.id) (hflight : ∀ x ∈ r'.shared.inFlight, f ≤ x.id)
    (hnext : f < r'.shared.nextId) : Grows H f p r' := by
  have hversion : ∀ x, Version r' x ↔ Version r x := by
    intro x
    unfold Version
    simp only [hsealed, hdone]
  refine ⟨hlow, hflight, hnext, fun x hx => h.hashes x ((hversion x).1 hx), fun x hx => ?_,
    fun x hx => h.start x ((hversion x).1 hx), fun x hx hf => ?_, fun i x hx hf => ?_,
    fun x y hx hy => h.agree x y ((hversion x).1 hx) ((hversion y).1 hy), fun hno => ?_⟩
  · obtain ⟨y, hy, hc⟩ := h.stored x ((hversion x).1 hx)
    exact ⟨y, hkeep y hy, hc⟩
  · obtain ⟨y, hy, hlink⟩ := h.link x ((hsealed x).1 hx) hf
    exact ⟨y, (hsealed y).2 hy, hlink⟩
  · rw [hdone] at hx ⊢
    obtain ⟨y, hy, hlink⟩ := h.linkDone i x hx hf
    exact ⟨y, hy.imp_left (hsealed y).2, hlink⟩
  · exact h.fresh fun x hx => hno x ((hsealed x).2 hx)

theorem Chain.frame (h : Chain H r) (hsealed : ∀ x, SealedIn r'.shared.rows x ↔ SealedIn r.shared.rows x)
    (hdone : ∀ i, (r'.workers i).done = (r.workers i).done) (hkeep : ∀ x ∈ r.shared.rows, x ∈ r'.shared.rows)
    (hlow : ∀ f, (∀ x ∈ r.shared.rows, f ≤ x.id) → (∀ x ∈ r.shared.inFlight, f ≤ x.id) → f < r.shared.nextId →
      (∀ x ∈ r'.shared.rows, f ≤ x.id) ∧ (∀ x ∈ r'.shared.inFlight, f ≤ x.id) ∧ f < r'.shared.nextId) : Chain H r' := by
  rcases h with hnone | ⟨f, p, h⟩
  · refine Or.inl fun x hx => hnone x ?_
    unfold Version at hx ⊢
    simpa only [hsealed, hdone] using hx
  · obtain ⟨hrows, hflight, hnext⟩ := hlow f h.low h.lowFlight h.lowNext
    exact Or.inr ⟨f, p, h.frame hsealed hdone hkeep hrows hflight hnext⟩

end Frame

/-! ## (2) Transactions -/

section Transactions

variable {H : Sha256} {r : SealRace}

/-- what a commit does -/
theorem commitRow_cases (s : LogDb) (id : ℤ) :
    commitRow s id = s ∨ ∃ row ∈ s.inFlight, row.id = id ∧
      commitRow s id = { s with rows := s.rows.place row, inFlight := s.inFlight.filter (·.id != id) } := by
  unfold commitRow
  cases hfind : s.inFlight.find? (·.id == id) with
  | none => exact Or.inl rfl
  | some row =>
    have hid : row.id = id := by simpa using List.find?_some hfind
    exact Or.inr ⟨row, List.mem_of_find?_eq_some hfind, hid, rfl⟩

theorem Tidy.insert (h : Tidy r) (e : Entry) (c : Caller) (now : DateTime) :
    Tidy (logStep H r (.insert e c now)) := by
  have hflight : ∀ x, x ∈ r.shared.inFlight ++ [logAction e c now r.shared.nextId] →
      x ∈ r.shared.inFlight ∨ (x.id = r.shared.nextId ∧ x.isSealed = false) := by
    intro x hx
    rcases List.mem_append.1 hx with hx | hx
    · exact Or.inl hx
    · rw [List.mem_singleton.1 hx]
      exact Or.inr ⟨logAction_id .., by simp [AuditLog.isSealed]⟩
  have hnext := h.nextPos
  have honce : ((r.shared.inFlight ++ [logAction e c now r.shared.nextId]).map (·.id)).Nodup := by
    rw [List.map_append, List.nodup_append]
    refine ⟨h.flightOnce, List.nodup_singleton _, fun a ha b hb => ?_⟩
    obtain ⟨x, hx, rfl⟩ := List.mem_map.1 ha
    have hlt := (h.flightBelow x hx).2
    simp only [List.map_cons, List.map_nil, logAction_id, List.mem_singleton] at hb
    omega
  refine ⟨hnext.trans (lt_add_one _), h.pos, fun x hx => (h.below x hx).trans (lt_add_one _), fun x hx => ?_,
    fun x hx => ?_, fun x hx y hy => ?_, honce, h.heads, h.noHead⟩
  · rcases hflight x hx with hx | ⟨hid, _⟩
    · exact ⟨(h.flightBelow x hx).1, (h.flightBelow x hx).2.trans (lt_add_one _)⟩
    · rw [hid]
      exact ⟨hnext, lt_add_one _⟩
  · rcases hflight x hx with hx | ⟨_, hsealed⟩
    · exact h.flightUnsealed x hx
    · exact hsealed
  · rcases hflight x hx with hx | ⟨hid, _⟩
    · exact h.flightApart x hx y hy
    · rw [hid]
      exact (h.below y hy).ne

/-- a row in flight is put among the others, unsealed -/
theorem sealedIn_place (h : Tidy r) {row : AuditLog} (hrow : row ∈ r.shared.inFlight) (x : AuditLog) :
    SealedIn (r.shared.rows.place row) x ↔ SealedIn r.shared.rows x := by
  unfold SealedIn
  rw [Table.mem_place]
  constructor
  · rintro ⟨rfl | ⟨hx, _⟩, hsealed⟩
    · rw [h.flightUnsealed x hrow] at hsealed
      cases hsealed
    · exact ⟨hx, hsealed⟩
  · rintro ⟨hx, hsealed⟩
    exact ⟨Or.inr ⟨hx, h.flightApart row hrow x hx⟩, hsealed⟩

theorem Tidy.commit (h : Tidy r) (id : ℤ) : Tidy (logStep H r (.commit id)) := by
  rcases commitRow_cases r.shared id with hsame | ⟨row, hrow, hid, hcommit⟩
  · unfold logStep
    simp only [hsame]
    exact h
  unfold logStep
  simp only [hcommit]
  have hrows : ∀ x, x ∈ r.shared.rows.place row → x = row ∨ x ∈ r.shared.rows := fun x hx =>
    (Table.mem_place.1 hx).imp_right And.left
  have hflight : ∀ x, x ∈ r.shared.inFlight.filter (·.id != id) → x ∈ r.shared.inFlight ∧ x.id ≠ id := fun x hx =>
    ⟨List.mem_of_mem_filter hx, by simpa using List.of_mem_filter hx⟩
  refine ⟨h.nextPos, fun x hx => ?_, fun x hx => ?_, fun x hx => h.flightBelow x (hflight x hx).1,
    fun x hx => h.flightUnsealed x (hflight x hx).1, fun x hx y hy => ?_,
    h.flightOnce.sublist (List.filter_sublist.map _), fun i cutoff k prev hi => ?_, h.noHead⟩
  · rcases hrows x hx with rfl | hx
    · exact (h.flightBelow x hrow).1
    · exact h.pos x hx
  · rcases hrows x hx with rfl | hx
    · exact (h.flightBelow x hrow).2
    · exact h.below x hx
  · rcases hrows y hy with rfl | hy
    · rw [hid]
      exact (hflight x hx).2.symm
    · exact h.flightApart x (hflight x hx).1 y hy
  · obtain ⟨x, hx, hhead⟩ := h.heads i cutoff k prev hi
    exact ⟨x, (sealedIn_place h hrow x).2 hx, hhead⟩

theorem Tidy.rollback (h : Tidy r) (id : ℤ) : Tidy (logStep H r (.rollback id)) := by
  have hflight : ∀ x, x ∈ r.shared.inFlight.filter (·.id != id) → x ∈ r.shared.inFlight := fun x hx =>
    List.mem_of_mem_filter hx
  exact ⟨h.nextPos, h.pos, h.below, fun x hx => h.flightBelow x (hflight x hx),
    fun x hx => h.flightUnsealed x (hflight x hx), fun x hx => h.flightApart x (hflight x hx),
    h.flightOnce.sublist (List.filter_sublist.map _), h.heads, h.noHead⟩

theorem Chain.insert (h : Chain H r) (e : Entry) (c : Caller) (now : DateTime) :
    Chain H (logStep H r (.insert e c now)) := by
  refine h.frame (fun _ => Iff.rfl) (fun _ => rfl) (fun _ hx => hx) fun f hrows hflight hnext => ⟨hrows, fun x hx => ?_, ?_⟩
  · rcases List.mem_append.1 hx with hx | hx
    · exact hflight x hx
    · rw [List.mem_singleton.1 hx, logAction_id]
      exact hnext.le
  · exact hnext.trans (lt_add_one _)

theorem Chain.commit (h : Chain H r) (htidy : Tidy r) (id : ℤ) : Chain H (logStep H r (.commit id)) := by
  rcases commitRow_cases r.shared id with hsame | ⟨row, hrow, hid, hcommit⟩
  · unfold logStep
    simp only [hsame]
    exact h
  unfold logStep
  simp only [hcommit]
  refine h.frame (sealedIn_place htidy hrow) (fun _ => rfl) (fun x hx => ?_) fun f hrows hflight hnext =>
    ⟨fun x hx => ?_, fun x hx => hflight x (List.mem_of_mem_filter hx), hnext⟩
  · exact Table.mem_place.2 (Or.inr ⟨hx, htidy.flightApart row hrow x hx⟩)
  · rcases Table.mem_place.1 hx with rfl | ⟨hx, _⟩
    · exact hflight x hrow
    · exact hrows x hx

theorem Chain.rollback (h : Chain H r) (id : ℤ) : Chain H (logStep H r (.rollback id)) :=
  h.frame (fun _ => Iff.rfl) (fun _ => rfl) (fun _ hx => hx) fun _ hrows hflight hnext =>
    ⟨hrows, fun x hx => hflight x (List.mem_of_mem_filter hx), hnext⟩

end Transactions

/-! ## (2) Seals -/

section Seals

variable {H : Sha256} {r : SealRace} {i : ℕ}

theorem head_sealed {t : AuditTable} {h : ℤ} (hhead : (head t).1 = some h) :
    ∃ x, SealedIn t x ∧ x.id = h ∧ x.entryHash = some (head t).2 := by
  unfold head at hhead ⊢
  cases hrow : headRow t with
  | none => rw [hrow] at hhead; cases hhead
  | some x =>
    rw [hrow] at hhead
    have hsealed : x.isSealed = true := List.find?_some hrow
    obtain ⟨e, he⟩ := Option.isSome_iff_exists.1 hsealed
    refine ⟨x, ⟨List.mem_reverse.1 (List.mem_of_find?_eq_some hrow), hsealed⟩, Option.some.inj hhead, ?_⟩
    simp only [he, Option.getD_some]

theorem head_unsealed {t : AuditTable} (hhead : (head t).1 = none) : (head t).2 = genesis := by
  unfold head at hhead ⊢
  cases hrow : headRow t with
  | none => rfl
  | some x => rw [hrow] at hhead; cases hhead

/-- a worker's step that keeps the ids and the sealed rows -/
theorem Tidy.worker (h : Tidy r) {rows : AuditTable} {ph : SealPhase}
    (hids : ∀ x ∈ rows, ∃ y ∈ r.shared.rows, y.id = x.id) (hkeep : ∀ x, SealedIn r.shared.rows x → SealedIn rows x)
    (hhead : ∀ cutoff k prev, ph = .headRead cutoff (some k) prev →
      ∃ x, SealedIn r.shared.rows x ∧ x.id = k ∧ x.entryHash = some prev)
    (hnone : ∀ cutoff prev, ph = .headRead cutoff none prev → prev = genesis) :
    Tidy ⟨{ r.shared with rows := rows }, Function.update r.workers i ph⟩ := by
  have hcase : ∀ {j ph'}, Function.update r.workers i ph j = ph' → ph = ph' ∨ r.workers j = ph' := by
    intro j ph' hj
    by_cases hji : j = i
    · rw [hji, Function.update_self] at hj
      exact Or.inl hj
    · rw [Function.update_of_ne hji] at hj
      exact Or.inr hj
  refine ⟨h.nextPos, fun x hx => ?_, fun x hx => ?_, h.flightBelow, h.flightUnsealed, fun x hx y hy => ?_, h.flightOnce,
    fun j cutoff k prev hj => ?_, fun j cutoff prev hj => ?_⟩
  · obtain ⟨y, hy, hid⟩ := hids x hx
    exact hid ▸ h.pos y hy
  · obtain ⟨y, hy, hid⟩ := hids x hx
    exact hid ▸ h.below y hy
  · obtain ⟨z, hz, hid⟩ := hids y hy
    exact hid ▸ h.flightApart x hx z hz
  · have hold : ∃ x, SealedIn r.shared.rows x ∧ x.id = k ∧ x.entryHash = some prev := by
      rcases hcase hj with hj | hj
      · exact hhead cutoff k prev hj
      · exact h.heads j cutoff k prev hj
    obtain ⟨x, hx, hspec⟩ := hold
    exact ⟨x, hkeep x hx, hspec⟩
  · rcases hcase hj with hj | hj
    · exact hnone cutoff prev hj
    · exact h.noHead j cutoff prev hj

/-- a worker's step that leaves the table and what the worker holds -/
theorem Chain.worker (h : Chain H r) {ph : SealPhase} (hdone : ph.done = (r.workers i).done) :
    Chain H ⟨r.shared, Function.update r.workers i ph⟩ := by
  refine h.frame (fun _ => Iff.rfl) (fun j => ?_) (fun _ hx => hx) fun _ hrows hflight hnext => ⟨hrows, hflight, hnext⟩
  by_cases hji : j = i
  · rw [hji]
    simp only [Function.update_self, hdone]
  · simp only [Function.update_of_ne hji]

/-- the rows a seal takes are pending rows with hashes -/
theorem sealLoop_contents {cutoff : DateTime} {rows done : List AuditLog} {expected : Option ℤ} {prev : String}
    {stopped : Option String} (h : sealLoop H cutoff rows expected prev = .ok (done, stopped)) :
    ∀ d ∈ done, ∃ row ∈ rows, contents row = contents d := by
  induction rows generalizing done expected prev stopped with
  | nil =>
    simp only [sealLoop, Except.ok.injEq, Prod.mk.injEq] at h
    rw [← h.1]
    exact fun d hd => absurd hd List.not_mem_nil
  | cons row rest ih =>
    simp only [sealLoop] at h
    split_ifs at h
    · simp only [Except.ok.injEq, Prod.mk.injEq] at h
      rw [← h.1]
      exact fun d hd => absurd hd List.not_mem_nil
    · simp only [Except.ok.injEq, Prod.mk.injEq] at h
      rw [← h.1]
      exact fun d hd => absurd hd List.not_mem_nil
    · obtain ⟨c, _, h⟩ := bind_eq_ok.1 h
      obtain ⟨⟨done', stopped'⟩, hloop, h⟩ := bind_eq_ok.1 h
      cases h
      intro d hd
      rcases List.mem_cons.1 hd with rfl | hd
      · exact ⟨row, List.mem_cons_self, rfl⟩
      · obtain ⟨x, hx, hc⟩ := ih hloop d hd
        exact ⟨x, List.mem_cons_of_mem _ hx, hc⟩

/-- what a worker holds after a step of worker `i` -/
theorem version_update {done : List AuditLog} (hnone : (r.workers i).done = []) (x : AuditLog) :
    Version ⟨r.shared, Function.update r.workers i (.computed done)⟩ x ↔ Version r x ∨ x ∈ done := by
  unfold Version
  constructor
  · rintro (hx | ⟨j, hx⟩)
    · exact Or.inl (Or.inl hx)
    · by_cases hji : j = i
      · rw [hji] at hx
        simp only [Function.update_self] at hx
        exact Or.inr hx
      · simp only [Function.update_of_ne hji] at hx
        exact Or.inl (Or.inr ⟨j, hx⟩)
  · rintro ((hx | ⟨j, hx⟩) | hx)
    · exact Or.inl hx
    · have hji : j ≠ i := by
        intro heq
        rw [heq, hnone] at hx
        exact List.not_mem_nil hx
      refine Or.inr ⟨j, ?_⟩
      simp only [Function.update_of_ne hji]
      exact hx
    · refine Or.inr ⟨i, ?_⟩
      simp only [Function.update_self]
      exact hx

/-- a session seals rows that go on from `next`, as the chain of the others does -/
theorem Grows.compute {f : ℤ} {p : String} (h : Grows H f p r) {done : List AuditLog} {prev : String} {next : ℤ}
    (hnone : (r.workers i).done = []) (hchained : Chained H prev next done)
    (hsome : ∀ d ∈ done, d.prevHash.isSome = true)
    (hstored : ∀ d ∈ done, ∃ y ∈ r.shared.rows, contents y = contents d) (hf : f ≤ next)
    (hstart : ∀ y, Version r y → y.id = next → y.prevHash = some prev)
    (hbefore : next = f ∧ prev = p ∨ ∃ y, SealedIn r.shared.rows y ∧ y.id = next - 1 ∧ y.entryHash = some prev) :
    Grows H f p ⟨r.shared, Function.update r.workers i (.computed done)⟩ := by
  have hcontents : ∀ d ∈ done, ∀ y, Version r y → y.id = d.id → contents y = contents d := by
    intro d hd y hy hid
    obtain ⟨a, ha, hac⟩ := h.stored y hy
    obtain ⟨b, hb, hbc⟩ := hstored d hd
    have hab : a = b := by
      apply Table.eq_of_key ha hb
      calc a.id = y.id := contents_id hac
        _ = d.id := hid
        _ = b.id := (contents_id hbc).symm
    rw [← hac, ← hbc, hab]
  have hdetermined := chained_determined hchained hsome h.hashes (fun y hy => h.version_link hy) hf hstart hcontents
  have hpred := chained_pred hchained hsome
  have hge := chained_le hchained
  refine ⟨h.low, h.lowFlight, h.lowNext, fun x hx => ?_, fun x hx => ?_, fun x hx hid => ?_, h.link, fun j x hx hid => ?_,
    fun x y hx hy hid => ?_, h.fresh⟩
  · rcases (version_update hnone x).1 hx with hx | hx
    · exact h.hashes x hx
    · exact chained_hashes hchained hsome x hx
  · rcases (version_update hnone x).1 hx with hx | hx
    · exact h.stored x hx
    · exact hstored x hx
  · rcases (version_update hnone x).1 hx with hx | hx
    · exact h.start x hx hid
    · -- a row at the start of the chain is the first that was sealed
      have hle := hge x hx
      rcases hpred x hx with ⟨hnext, hprev⟩ | ⟨y, hy, hyid, _⟩
      · rcases hbefore with ⟨_, hp⟩ | ⟨y, hy, hyid, _⟩
        · rw [hprev, hp]
        · have hfy := h.low y hy.1
          omega
      · have hley := hge y hy
        omega
  · by_cases hji : j = i
    · rw [hji] at hx ⊢
      simp only [Function.update_self] at hx ⊢
      rcases hpred x hx with ⟨hnext, hprev⟩ | ⟨y, hy, hyid, hlink⟩
      · rcases hbefore with ⟨hnf, _⟩ | ⟨y, hy, hyid, hhash⟩
        · exact absurd (hnext.trans hnf) hid
        · exact ⟨y, Or.inl hy, by omega, hprev.trans hhash.symm⟩
      · exact ⟨y, Or.inr hy, hyid, hlink⟩
    · simp only [Function.update_of_ne hji] at hx ⊢
      exact h.linkDone j x hx hid
  · rcases (version_update hnone x).1 hx with hx | hx <;> rcases (version_update hnone y).1 hy with hy | hy
    · exact h.agree x y hx hy hid
    · exact hdetermined y hy x hx hid
    · exact (hdetermined x hx y hy hid.symm).symm
    · exact chained_ids_inj hchained hx hy hid

/-- the first row of a chain, when nothing is sealed anywhere -/
theorem grows_first (htidy : Tidy r) (hnone : ∀ x, ¬ Version r x) {first : AuditLog} {done : List AuditLog}
    (hfirst : first ∈ r.shared.rows) (hlow : ∀ x ∈ r.shared.rows, first.id ≤ x.id)
    (hflight : ∀ x ∈ r.shared.inFlight, first.id < x.id) (hidle : (r.workers i).done = [])
    (hchained : Chained H genesis first.id done) (hsome : ∀ d ∈ done, d.prevHash.isSome = true)
    (hstored : ∀ d ∈ done, ∃ y ∈ r.shared.rows, contents y = contents d) :
    Grows H first.id genesis ⟨r.shared, Function.update r.workers i (.computed done)⟩ := by
  have hempty : Grows H first.id genesis r :=
    ⟨hlow, fun x hx => (hflight x hx).le, htidy.below first hfirst, fun x hx => absurd hx (hnone x),
      fun x hx => absurd hx (hnone x), fun x hx => absurd hx (hnone x), fun x hx => absurd (Or.inl hx) (hnone x),
      fun j x hx => absurd (Or.inr ⟨j, hx⟩) (hnone x), fun x _ hx => absurd hx (hnone x), fun _ => rfl⟩
  exact hempty.compute hidle hchained hsome hstored le_rfl (fun y hy => absurd hy (hnone y)) (Or.inl ⟨rfl, rfl⟩)

/-- a seal that found the head `k` -/
theorem Chain.compute_after (h : Chain H r) {k : ℤ} {prev : String} {done : List AuditLog} {x : AuditLog}
    (hx : SealedIn r.shared.rows x) (hid : x.id = k) (hhash : x.entryHash = some prev) (hidle : (r.workers i).done = [])
    (hchained : Chained H prev (k + 1) done) (hsome : ∀ d ∈ done, d.prevHash.isSome = true)
    (hstored : ∀ d ∈ done, ∃ y ∈ r.shared.rows, contents y = contents d) :
    Chain H ⟨r.shared, Function.update r.workers i (.computed done)⟩ := by
  rcases h with hnone | ⟨f, p, h⟩
  · exact absurd (Or.inl hx) (hnone x)
  have hfx := h.low x hx.1
  refine Or.inr ⟨f, p, h.compute hidle hchained hsome hstored (by omega) (fun y hy hyid => ?_)
    (Or.inr ⟨x, hx, by omega, hhash⟩)⟩
  -- the row after the head is linked to it
  obtain ⟨z, hz, hzid, hyz⟩ := h.version_link hy (by omega)
  have hzx : z = x := h.agree z x hz (Or.inl hx) (by omega)
  rw [hyz, hzx, hhash]

/-- a seal that found no sealed row -/
theorem Chain.compute_first (h : Chain H r) (htidy : Tidy r) {first : AuditLog} {done : List AuditLog}
    (hfirst : first ∈ r.shared.rows) (hlow : ∀ x ∈ r.shared.rows, first.id ≤ x.id)
    (hunsealed : ∀ x ∈ r.shared.rows, x.isSealed = false) (hflight : ∀ x ∈ r.shared.inFlight, first.id < x.id)
    (hidle : (r.workers i).done = []) (hchained : Chained H genesis first.id done)
    (hsome : ∀ d ∈ done, d.prevHash.isSome = true)
    (hstored : ∀ d ∈ done, ∃ y ∈ r.shared.rows, contents y = contents d) :
    Chain H ⟨r.shared, Function.update r.workers i (.computed done)⟩ := by
  by_cases hnone : ∀ x, ¬ Version r x
  · exact Or.inr ⟨_, _, grows_first htidy hnone hfirst hlow hflight hidle hchained hsome hstored⟩
  rcases h with hno | ⟨f, p, h⟩
  · exact absurd hno hnone
  -- another session has sealed the same first row
  have hp : p = genesis := h.fresh fun x hx => by
    have hfalse := hunsealed x hx.1
    rw [hx.2] at hfalse
    cases hfalse
  have hf : f = first.id := by
    obtain ⟨x, hx⟩ := not_forall.1 hnone
    have hv : Version r x := not_not.1 hx
    have hge := h.version_ge hv
    obtain ⟨y, hy, hyid⟩ := h.version_below (x.id - f).toNat x hv (by omega) 0 (Nat.zero_le _)
    obtain ⟨z, hz, hc⟩ := h.stored y hy
    have hzid := contents_id hc
    have hle := hlow z hz
    have hfle := h.low first hfirst
    omega
  refine Or.inr ⟨f, p, h.compute hidle (hf ▸ hchained) hsome hstored le_rfl (fun y hy hyid => ?_) (Or.inl ⟨rfl, hp.symm⟩)⟩
  rw [h.start y hy hyid, hp]

theorem Chain.compute_nothing (h : Chain H r) (hidle : (r.workers i).done = []) :
    Chain H ⟨r.shared, Function.update r.workers i (.computed [])⟩ := h.worker hidle.symm

/-- with no head, the first pending row is the first row of the table -/
theorem pendingAfter_none {t : AuditTable} (hpos : ∀ x ∈ t, 0 < x.id) (hunsealed : ∀ x ∈ t, x.isSealed = false) :
    pendingAfter t none = t.rows := by
  refine List.filter_eq_self.2 fun x hx => ?_
  have hp := hpos x hx
  simp [hunsealed x hx, hp]

theorem head?_le {t : AuditTable} {first : AuditLog} (h : t.rows.head? = some first) : ∀ x ∈ t, first.id ≤ x.id := by
  obtain ⟨rows, hsorted⟩ := t
  cases rows with
  | nil => cases h
  | cons a rest =>
    cases h
    intro x hx
    rcases List.mem_cons.1 hx with rfl | hx
    · exact le_rfl
    · exact ((List.pairwise_cons.1 hsorted).1 x hx).le

/-- the rows a seal takes start with the first pending row, which is old enough -/
theorem sealLoop_first {cutoff : DateTime} {rows done : List AuditLog} {expected : Option ℤ} {prev : String}
    {stopped : Option String} (h : sealLoop H cutoff rows expected prev = .ok (done, stopped)) :
    done = [] ∨ ∃ first, rows.head? = some first ∧ first.timestamp.any (cutoff < ·) = false ∧
      ∀ d ∈ done.head?, d.id = first.id := by
  cases rows with
  | nil =>
    simp only [sealLoop, Except.ok.injEq, Prod.mk.injEq] at h
    exact Or.inl h.1.symm
  | cons row rest =>
    simp only [sealLoop] at h
    split_ifs at h with hgap hyoung
    · simp only [Except.ok.injEq, Prod.mk.injEq] at h
      exact Or.inl h.1.symm
    · simp only [Except.ok.injEq, Prod.mk.injEq] at h
      exact Or.inl h.1.symm
    · obtain ⟨c, _, h⟩ := bind_eq_ok.1 h
      obtain ⟨⟨done', stopped'⟩, _, h⟩ := bind_eq_ok.1 h
      cases h
      refine Or.inr ⟨row, rfl, by simpa using hyoung, fun d hd => ?_⟩
      cases hd
      rfl

theorem Chain.compute (h : Chain H r) (htidy : Tidy r) {cutoff : DateTime} {headId : Option ℤ} {prev : String}
    (hi : r.workers i = .headRead cutoff headId prev) {done : List AuditLog} {stopped : Option String}
    (hloop : sealLoop H cutoff (pendingAfter r.shared.rows headId) (headId.map (· + 1)) prev = .ok (done, stopped))
    (hC : headId = none → FirstClear r.shared cutoff) :
    Chain H ⟨r.shared, Function.update r.workers i (.computed done)⟩ := by
  have hidle : (r.workers i).done = [] := by rw [hi]; rfl
  obtain ⟨_, hexpected, hsome, hchained⟩ := sealLoop_spec hloop
  have hstored : ∀ d ∈ done, ∃ y ∈ r.shared.rows, contents y = contents d := by
    intro d hd
    obtain ⟨row, hrow, hc⟩ := sealLoop_contents hloop d hd
    exact ⟨row, List.mem_of_mem_filter hrow, hc⟩
  rcases sealLoop_first hloop with hnil | ⟨first, hfirst, hold, hdone⟩
  · rw [hnil]
    exact h.compute_nothing hidle
  cases headId with
  | some k =>
    obtain ⟨x, hx, hid, hhash⟩ := htidy.heads i cutoff k prev hi
    exact h.compute_after hx hid hhash hidle (hchained _ fun d hd => hexpected _ rfl d hd) hsome hstored
  | none =>
    obtain ⟨hunsealed, hflight⟩ := hC rfl first hfirst hold
    rw [pendingAfter_none htidy.pos hunsealed] at hfirst
    have hprev := htidy.noHead i cutoff prev hi
    subst hprev
    exact h.compute_first htidy (List.mem_of_mem_head? hfirst) (head?_le hfirst) hunsealed hflight hidle
      (hchained _ hdone) hsome hstored

/-! ### Writing back -/

/-- the rows after a write: those of the session, and the others as they were -/
theorem mem_writeBack {t : AuditTable} {done : List AuditLog} {x : AuditLog} :
    x ∈ writeBack t done ↔ ∃ y ∈ t, (done.find? (·.id == y.id)).getD y = x := List.mem_map

/-- the sealed rows after a write are those before it and those of the session -/
theorem Grows.sealedIn_writeBack {f : ℤ} {p : String} (h : Grows H f p r) (x : AuditLog) :
    SealedIn (writeBack r.shared.rows (r.workers i).done) x ↔
      SealedIn r.shared.rows x ∨ x ∈ (r.workers i).done := by
  have hdone : ∀ d ∈ (r.workers i).done, Version r d := fun d hd => Or.inr ⟨i, hd⟩
  have hsame : ∀ d, Version r d → ∀ d', (r.workers i).done.find? (·.id == d.id) = some d' → d' = d := by
    intro d hd d' hfind
    have hid : d'.id = d.id := by simpa using List.find?_some hfind
    exact h.agree d' d (hdone d' (List.mem_of_find?_eq_some hfind)) hd hid
  constructor
  · rintro ⟨hx, hsealed⟩
    obtain ⟨y, hy, hyx⟩ := mem_writeBack.1 hx
    cases hfind : (r.workers i).done.find? (·.id == y.id) with
    | none =>
      rw [hfind, Option.getD_none] at hyx
      rw [hyx] at hy
      exact Or.inl ⟨hy, hsealed⟩
    | some d =>
      rw [hfind, Option.getD_some] at hyx
      rw [← hyx]
      exact Or.inr (List.mem_of_find?_eq_some hfind)
  · rintro (⟨hx, hsealed⟩ | hx)
    · refine ⟨mem_writeBack.2 ⟨x, hx, ?_⟩, hsealed⟩
      cases hfind : (r.workers i).done.find? (·.id == x.id) with
      | none => rfl
      | some d => exact hsame x (Or.inl ⟨hx, hsealed⟩) d hfind
    · obtain ⟨y, hy, hc⟩ := h.stored x (hdone x hx)
      have hid := contents_id hc
      obtain ⟨q, e, _, he, _⟩ := h.hashes x (hdone x hx)
      refine ⟨mem_writeBack.2 ⟨y, hy, ?_⟩, by rw [AuditLog.isSealed, he]; rfl⟩
      rw [hid]
      cases hfind : (r.workers i).done.find? (·.id == x.id) with
      | none => exact absurd (beq_self_eq_true x.id) (List.find?_eq_none.1 hfind x hx)
      | some d => exact hsame x (hdone x hx) d hfind

theorem writeBack_id {t : AuditTable} {done : List AuditLog} {x : AuditLog} (hx : x ∈ writeBack t done) :
    ∃ y ∈ t, y.id = x.id := by
  obtain ⟨y, hy, hyx⟩ := mem_writeBack.1 hx
  refine ⟨y, hy, ?_⟩
  rw [← hyx]
  cases hfind : done.find? (·.id == y.id) with
  | none => rfl
  | some d =>
    have hid : d.id = y.id := by simpa using List.find?_some hfind
    exact hid.symm

/-- what the others hold after worker `i` has written what it held -/
theorem done_ended {result : Except PyError Unit} {j : ℕ} {x : AuditLog}
    (hx : x ∈ (Function.update r.workers i (.ended result) j).done) : j ≠ i ∧ x ∈ (r.workers j).done := by
  by_cases hji : j = i
  · rw [hji, Function.update_self] at hx
    exact absurd hx List.not_mem_nil
  · rw [Function.update_of_ne hji] at hx
    exact ⟨hji, hx⟩

theorem Grows.write {f : ℤ} {p : String} (h : Grows H f p r) (result : Except PyError Unit) :
    Grows H f p ⟨{ r.shared with rows := writeBack r.shared.rows (r.workers i).done },
      Function.update r.workers i (.ended result)⟩ := by
  have hsealed := fun x => h.sealedIn_writeBack (i := i) x
  have hversion : ∀ x, Version ⟨{ r.shared with rows := writeBack r.shared.rows (r.workers i).done },
      Function.update r.workers i (.ended result)⟩ x → Version r x := by
    rintro x (hx | ⟨j, hx⟩)
    · exact ((hsealed x).1 hx).imp_right fun hx => ⟨i, hx⟩
    · exact Or.inr ⟨j, (done_ended hx).2⟩
  have hlow : ∀ x ∈ writeBack r.shared.rows (r.workers i).done, f ≤ x.id := by
    intro x hx
    obtain ⟨y, hy, hid⟩ := writeBack_id hx
    exact hid ▸ h.low y hy
  refine ⟨hlow, h.lowFlight, h.lowNext, fun x hx => h.hashes x (hversion x hx), fun x hx => ?_,
    fun x hx => h.start x (hversion x hx), fun x hx hid => ?_, fun j x hx hid => ?_,
    fun x y hx hy => h.agree x y (hversion x hx) (hversion y hy), fun hno => ?_⟩
  · obtain ⟨y, hy, hc⟩ := h.stored x (hversion x hx)
    refine ⟨_, mem_writeBack.2 ⟨y, hy, rfl⟩, ?_⟩
    cases hfind : (r.workers i).done.find? (·.id == y.id) with
    | none => exact hc
    | some d =>
      have hdid : d.id = y.id := by simpa using List.find?_some hfind
      obtain ⟨z, hz, hzc⟩ := h.stored d (Or.inr ⟨i, List.mem_of_find?_eq_some hfind⟩)
      have hzy : z = y := Table.eq_of_key hz hy ((contents_id hzc).trans hdid)
      rw [Option.getD_some, ← hzc, hzy, hc]
  · rcases (hsealed x).1 hx with hx | hx
    · obtain ⟨y, hy, hlink⟩ := h.link x hx hid
      exact ⟨y, (hsealed y).2 (Or.inl hy), hlink⟩
    · obtain ⟨y, hy, hlink⟩ := h.linkDone i x hx hid
      exact ⟨y, (hsealed y).2 hy, hlink⟩
  · obtain ⟨hji, hx⟩ := done_ended hx
    obtain ⟨y, hy, hlink⟩ := h.linkDone j x hx hid
    refine ⟨y, ?_, hlink⟩
    rcases hy with hy | hy
    · exact Or.inl ((hsealed y).2 (Or.inl hy))
    · simp only [Function.update_of_ne hji]
      exact Or.inr hy
  · exact h.fresh fun x hx => hno x ((hsealed x).2 (Or.inl hx))

/-- a session that holds nothing writes nothing -/
theorem writeBack_nil (t : AuditTable) : writeBack t [] = t :=
  Table.ext (by simp only [writeBack, Table.rows_mapRows, List.find?_nil, Option.getD_none, List.map_id'])

theorem Chain.write (h : Chain H r) (result : Except PyError Unit) :
    Chain H ⟨{ r.shared with rows := writeBack r.shared.rows (r.workers i).done },
      Function.update r.workers i (.ended result)⟩ := by
  rcases h with hnone | ⟨f, p, h⟩
  · have hnil : (r.workers i).done = [] := List.eq_nil_iff_forall_not_mem.2 fun x hx => hnone x (Or.inr ⟨i, hx⟩)
    rw [hnil, writeBack_nil]
    exact Chain.worker (Or.inl hnone) hnil.symm
  · exact Or.inr ⟨f, p, h.write result⟩

/-- the sealed rows stay as they are -/
theorem Chain.keeps (h : Chain H r) {x : AuditLog} (hx : SealedIn r.shared.rows x) :
    SealedIn (writeBack r.shared.rows (r.workers i).done) x := by
  rcases h with hnone | ⟨f, p, h⟩
  · exact absurd (Or.inl hx) (hnone x)
  · exact (h.sealedIn_writeBack x).2 (Or.inl hx)

end Seals

/-! ## (2) Runs -/

/-- nothing sealed is lost or changed -/
def Kept (s s' : LogDb) : Prop := ∀ x, SealedIn s.rows x → SealedIn s'.rows x

/-- a step of a worker -/
theorem seal_step {H : Sha256} {r : SealRace} {i : ℕ} {now : DateTime} {grace : ℤ}
    (hC : StartsFirst r (.sealing i now grace))
    (htidy : Tidy r) (hchain : Chain H r) :
    Tidy (logStep H r (.sealing i now grace)) ∧ Chain H (logStep H r (.sealing i now grace)) ∧
      Kept r.shared (logStep H r (.sealing i now grace)).shared := by
  unfold logStep Pool.act
  simp only
  cases hi : r.workers i with
  | start =>
    unfold sealStep
    refine ⟨htidy.worker (fun x hx => ⟨x, hx, rfl⟩) (fun _ hx => hx) (fun cutoff k prev heq => ?_)
      (fun cutoff prev heq => ?_), hchain.worker (by rw [hi]; rfl), fun _ hx => hx⟩
    · obtain ⟨_, hhead, hprev⟩ := SealPhase.headRead.inj heq
      rw [← hprev]
      exact head_sealed hhead
    · obtain ⟨_, hhead, hprev⟩ := SealPhase.headRead.inj heq
      rw [← hprev]
      exact head_unsealed hhead
  | headRead cutoff headId prev =>
    unfold sealStep
    simp only
    cases hloop : sealLoop H cutoff (pendingAfter r.shared.rows headId) (headId.map (· + 1)) prev with
    | error e =>
      exact ⟨htidy.worker (fun x hx => ⟨x, hx, rfl⟩) (fun _ hx => hx) nofun nofun, hchain.worker (by rw [hi]; rfl),
        fun _ hx => hx⟩
    | ok res =>
      refine ⟨htidy.worker (fun x hx => ⟨x, hx, rfl⟩) (fun _ hx => hx) nofun nofun,
        hchain.compute htidy hi hloop fun hnone => ?_, fun _ hx => hx⟩
      rw [hnone] at hi
      exact hC i rfl cutoff (by rw [hi]; rfl)
  | computed done =>
    have hdone : (r.workers i).done = done := by rw [hi]; rfl
    unfold sealStep
    simp only [← hdone]
    exact ⟨htidy.worker (fun x hx => writeBack_id hx) (fun x hx => hchain.keeps hx) nofun nofun, hchain.write _,
      fun x hx => hchain.keeps hx⟩
  | ended result =>
    exact ⟨htidy.worker (fun x hx => ⟨x, hx, rfl⟩) (fun _ hx => hx) nofun nofun, hchain.worker (by rw [hi]; rfl),
      fun _ hx => hx⟩

theorem log_step {H : Sha256} (r : SealRace) (o : LogOp) (hC : StartsFirst r o) (htidy : Tidy r) (hchain : Chain H r) :
    Tidy (logStep H r o) ∧ Chain H (logStep H r o) ∧ Kept r.shared (logStep H r o).shared := by
  cases o with
  | insert e c now => exact ⟨htidy.insert e c now, hchain.insert e c now, fun _ hx => hx⟩
  | commit id =>
    refine ⟨htidy.commit id, hchain.commit htidy id, fun x hx => ?_⟩
    rcases commitRow_cases r.shared id with hsame | ⟨row, hrow, _, hcommit⟩
    · unfold logStep
      simp only [hsame]
      exact hx
    · unfold logStep
      simp only [hcommit]
      exact (sealedIn_place htidy hrow x).2 hx
  | rollback id => exact ⟨htidy.rollback id, hchain.rollback id, fun _ hx => hx⟩
  | sealing i now grace => exact seal_step hC htidy hchain

/-! ## (2) One chain -/

/-- the log before the run: nothing in flight, and the sealed rows are one chain with no unsealed row among them -/
structure Ready (H : Sha256) (s : LogDb) : Prop where
  nextPos : 0 < s.nextId
  pos : ∀ x ∈ s.rows, 0 < x.id
  below : ∀ x ∈ s.rows, x.id < s.nextId
  noFlight : s.inFlight = []
  chained : ∃ prev next, Chained H prev next (sealedRows s.rows)
  linked : ∀ x ∈ sealedRows s.rows, x.prevHash.isSome = true
  front : ∀ x ∈ s.rows, ∀ y, SealedIn s.rows y → x.id < y.id → x.isSealed = true

theorem mem_sealedRows {t : AuditTable} {x : AuditLog} : x ∈ sealedRows t ↔ SealedIn t x := List.mem_filter

theorem Ready.tidy {H : Sha256} {s : LogDb} (h : Ready H s) : Tidy (logStart s) := by
  refine ⟨h.nextPos, h.pos, h.below, ?_, ?_, ?_, ?_, nofun, nofun⟩ <;> simp [logStart, h.noFlight]

theorem Ready.chain {H : Sha256} {s : LogDb} (h : Ready H s) : Chain H (logStart s) := by
  by_cases hnone : ∀ x, ¬ SealedIn s.rows x
  · refine Or.inl fun x hx => ?_
    rcases hx with hx | ⟨i, hx⟩
    · exact hnone x hx
    · exact List.not_mem_nil hx
  obtain ⟨y, hy⟩ := not_forall.1 hnone
  have hsealed : SealedIn s.rows y := not_not.1 hy
  obtain ⟨p, f, hchained⟩ := h.chained
  have hge := chained_le hchained
  have hpred := chained_pred hchained h.linked
  have hversion : ∀ x, Version (logStart s) x → x ∈ sealedRows s.rows := by
    rintro x (hx | ⟨i, hx⟩)
    · exact mem_sealedRows.2 hx
    · exact absurd hx List.not_mem_nil
  have hfy : f ≤ y.id := hge y (mem_sealedRows.2 hsealed)
  refine Or.inr ⟨f, p, fun x hx => ?_, by simp [logStart, h.noFlight], hfy.trans_lt (h.below y hsealed.1),
    fun x hx => chained_hashes hchained h.linked x (hversion x hx),
    fun x hx => ⟨x, (mem_sealedRows.1 (hversion x hx)).1, rfl⟩, fun x hx hid => ?_, fun x hx hid => ?_,
    fun i x hx => absurd hx List.not_mem_nil, fun x z hx hz hid => ?_, fun hno => absurd hsealed (hno y)⟩
  · by_contra hlt
    have hxy : x.id < y.id := by omega
    have hle := hge x (mem_sealedRows.2 ⟨hx, h.front x hx y hsealed hxy⟩)
    exact hlt hle
  · rcases hpred x (hversion x hx) with ⟨_, hprev⟩ | ⟨z, hz, hzid, _⟩
    · exact hprev
    · have hle := hge z hz
      omega
  · rcases hpred x (mem_sealedRows.2 hx) with ⟨hxid, _⟩ | ⟨z, hz, hzid, hlink⟩
    · exact absurd hxid hid
    · exact ⟨z, mem_sealedRows.1 hz, hzid, hlink⟩
  · have hx' := mem_sealedRows.1 (hversion x hx)
    have hz' := mem_sealedRows.1 (hversion z hz)
    exact Table.eq_of_key hx'.1 hz'.1 hid

/-- rows in id order, each but the one with the id `next` linked to the row before it, are a chain -/
theorem chained_of_links {H : Sha256} {rows : List AuditLog} {prev : String} {next : ℤ}
    (hsorted : rows.Pairwise fun x y => x.id < y.id) (hhash : ∀ x ∈ rows, Hashes H x) (hge : ∀ x ∈ rows, next ≤ x.id)
    (hstart : ∀ x ∈ rows, x.id = next → x.prevHash = some prev)
    (hlink : ∀ x ∈ rows, x.id ≠ next → ∃ y ∈ rows, y.id = x.id - 1 ∧ x.prevHash = y.entryHash) :
    Chained H prev next rows := by
  induction rows generalizing prev next with
  | nil => trivial
  | cons row rest ih =>
    obtain ⟨hlt, hrest⟩ := List.pairwise_cons.1 hsorted
    have hid : row.id = next := by
      by_contra hne
      obtain ⟨y, hy, hyid, _⟩ := hlink row List.mem_cons_self hne
      rcases List.mem_cons.1 hy with rfl | hy
      · omega
      · have hlty := hlt y hy
        omega
    obtain ⟨q, h, hq, he, hc⟩ := hhash row List.mem_cons_self
    have hqp : q = prev := Option.some.inj (hq.symm.trans (hstart row List.mem_cons_self hid))
    subst hqp
    refine ⟨hid, ?_, h, he, hc, ih hrest (fun x hx => hhash x (List.mem_cons_of_mem _ hx)) (fun x hx => ?_)
      (fun x hx hxid => ?_) fun x hx hxid => ?_⟩
    · rw [hq]
      by_cases hempty : q = ""
      · rw [hempty]
        rfl
      · exact orElse_some_of_ne hempty
    · have hltx := hlt x hx
      omega
    · obtain ⟨y, hy, hyid, hxy⟩ := hlink x (List.mem_cons_of_mem _ hx) (by omega)
      rcases List.mem_cons.1 hy with rfl | hy
      · rw [hxy, he]
      · have hlty := hlt y hy
        omega
    · have hltx := hlt x hx
      obtain ⟨y, hy, hyid, hxy⟩ := hlink x (List.mem_cons_of_mem _ hx) (by omega)
      rcases List.mem_cons.1 hy with rfl | hy
      · omega
      · exact ⟨y, hy, hyid, hxy⟩

theorem Chain.chained {H : Sha256} {r : SealRace} (h : Chain H r) :
    ∃ prev next, Chained H prev next (sealedRows r.shared.rows) := by
  rcases h with hnone | ⟨f, p, h⟩
  · have hnil : sealedRows r.shared.rows = [] :=
      List.eq_nil_iff_forall_not_mem.2 fun x hx => hnone x (Or.inl (mem_sealedRows.1 hx))
    refine ⟨genesis, 0, ?_⟩
    rw [hnil]
    trivial
  · have hversion : ∀ x ∈ sealedRows r.shared.rows, Version r x := fun x hx => Or.inl (mem_sealedRows.1 hx)
    refine ⟨p, f, chained_of_links (r.shared.rows.sorted.filter _) (fun x hx => h.hashes x (hversion x hx))
      (fun x hx => h.version_ge (hversion x hx)) (fun x hx => h.start x (hversion x hx)) fun x hx hid => ?_⟩
    obtain ⟨y, hy, hlink⟩ := h.link x (mem_sealedRows.1 hx) hid
    exact ⟨y, mem_sealedRows.2 hy, hlink⟩

/-- below a sealed row every row is sealed -/
theorem Chain.front {H : Sha256} {r : SealRace} (h : Chain H r) {x y : AuditLog} (hx : x ∈ r.shared.rows)
    (hy : SealedIn r.shared.rows y) (hlt : x.id < y.id) : x.isSealed = true := by
  rcases h with hnone | ⟨f, p, h⟩
  · exact absurd (Or.inl hy) (hnone y)
  · obtain ⟨z, hz, hzid⟩ := h.sealed_below (y.id - x.id).toNat y hy x.id (h.low x hx) (by omega)
    have hzx : z = x := Table.eq_of_key hz.1 hx hzid
    rw [← hzx]
    exact hz.2

theorem run_tidy_chain {H : Sha256} {r : SealRace} (htidy : Tidy r) (hchain : Chain H r) {ops : List LogOp}
    (hC : Meets (logStep H) StartsFirst r ops) :
    Tidy (run (logStep H) r ops) ∧ Chain H (run (logStep H) r ops) ∧ Kept r.shared (run (logStep H) r ops).shared := by
  induction ops generalizing r with
  | nil => exact ⟨htidy, hchain, fun _ hx => hx⟩
  | cons o ops ih =>
    obtain ⟨htidy', hchain', hkept⟩ := log_step r o hC.1 htidy hchain
    obtain ⟨htidy'', hchain'', hkept'⟩ := ih htidy' hchain' hC.2
    exact ⟨htidy'', hchain'', fun x hx => hkept' x (hkept x hx)⟩

/-- the committed rows after a run -/
def rowsAfter (H : Sha256) (s : LogDb) (ops : List LogOp) : AuditTable := (run (logStep H) (logStart s) ops).shared.rows

/-- **(2) One chain.** In every run in which a seal that found no sealed row reads the pending rows while none is sealed and
no insert below the first of them is in flight: in every state the sealed rows are one chain in id order and every row below
a sealed one is sealed, and what is sealed stays as it is. -/
theorem sealed_one_chain {H : Sha256} {s : LogDb} (hs : Ready H s) {ops : List LogOp}
    (hC : Meets (logStep H) StartsFirst (logStart s) ops) :
    (∃ prev next, Chained H prev next (sealedRows (rowsAfter H s ops))) ∧
      (∀ x ∈ rowsAfter H s ops, ∀ y, SealedIn (rowsAfter H s ops) y → x.id < y.id → x.isSealed = true) ∧
      ∀ l m, ops = l ++ m → ∀ x, SealedIn (rowsAfter H s l) x → SealedIn (rowsAfter H s ops) x := by
  obtain ⟨_, hchain, _⟩ := run_tidy_chain hs.tidy hs.chain hC
  refine ⟨hchain.chained, fun x hx y hy hlt => hchain.front hx hy hlt, fun l m hops x hx => ?_⟩
  rw [hops, meets_append] at hC
  obtain ⟨htidy, hmid, _⟩ := run_tidy_chain hs.tidy hs.chain hC.1
  unfold rowsAfter
  rw [hops, run_append]
  exact (run_tidy_chain htidy hmid hC.2).2.2 x hx

def emptyLog : LogDb := ⟨Table.empty, [], 1⟩

theorem ready_emptyLog (H : Sha256) : Ready H emptyLog :=
  ⟨Int.one_pos, fun x hx => absurd hx (Table.not_mem_empty x), fun x hx => absurd hx (Table.not_mem_empty x), rfl,
    ⟨genesis, 0, trivial⟩, fun _ hx => absurd hx List.not_mem_nil, fun x hx => absurd hx (Table.not_mem_empty x)⟩

/-- a short checksum in the place of SHA-256 -/
def checksum : Sha256 :=
  ⟨fun m => [UInt8.ofNat (m.toList.foldl (fun n c => (31 * n + c.toNat) % 256) 7)], fun _ => List.cons_ne_nil _ _⟩

def login : LogOp := .insert ⟨"login", none, none, none⟩ (.actor "cli") 0

/-- three steps of a worker's seal, well after the rows were written -/
def sealBy (worker : ℕ) : List LogOp := List.replicate 3 (.sealing worker second 0)

/-- two rows, sealed by two workers one after another -/
def inTurn : List LogOp := [login, .commit 1] ++ sealBy 0 ++ [login, .commit 2] ++ sealBy 1

def summary (t : AuditTable) : List (ℤ × Bool) := t.rows.map fun x => (x.id, x.isSealed)

/-- the theorem applies, and both rows are sealed -/
theorem sealed_one_chain_inTurn :
    summary (rowsAfter checksum emptyLog inTurn) = [(1, true), (2, true)] ∧
      ∃ prev next, Chained checksum prev next (sealedRows (rowsAfter checksum emptyLog inTurn)) := by
  have hC : Meets (logStep checksum) StartsFirst (logStart emptyLog) inTurn := by decide +kernel
  exact ⟨by decide +kernel, (sealed_one_chain (ready_emptyLog checksum) hC).1⟩

/-! ## (3) The first seal -/

/-- row 1 is in flight when worker 0 reads the pending rows, and committed when worker 1 does -/
def passedOver : List LogOp :=
  [login, login, .commit 2, .sealing 0 second 0, .sealing 0 second 0, .commit 1, .sealing 1 second 0, .sealing 1 second 0,
    .sealing 0 second 0]

/-- **A row is passed over, and a hash changes.** The first seal starts at row 2 while row 1 is in flight, so row 1 commits
below the sealed head; the other worker, which had found no sealed row either, then writes its own hashes over row 2. -/
theorem late_commit :
    Ready checksum emptyLog ∧ summary (rowsAfter checksum emptyLog passedOver) = [(1, false), (2, true)] ∧
      ((rowsAfter checksum emptyLog passedOver).get? 2).map (·.prevHash) = some (some genesis) ∧
      ((rowsAfter checksum emptyLog (passedOver ++ [.sealing 1 second 0])).get? 2).map (·.prevHash) ≠ some (some genesis) :=
  ⟨ready_emptyLog checksum, by decide +kernel, by decide +kernel, by decide +kernel⟩

end Sealing

end Chancery.AuditChain
