/-
How often a worker process asks for the latest release, and what it answers.

(1) `queries_spaced`: in every interleaving of the threads at most one refresh is under way, and two of them never begin
within the interval of each other.
(2) `never_stuck_iff`: `refreshing` is left set with nobody refreshing exactly when a thread could not be started. Then no
refresh begins in this process any more (`stuck_forever`). Whatever the network answers, a refresh under way ends
(`refresh_ends`).
(3) `answers_sound`: an update that a request is told of is a tag that a refresh has received, and greater than the running
version. A request fails only when a thread it wanted could not be started in the run, or after a tag that is not a text.
-/
import Mathlib.Tactic
import Chancery.Core.JsonLoads
import Chancery.Services.UpdateCheck

namespace Chancery.UpdateCheck

open Chancery.Core
open Chancery.Acme (truthy)

variable {cfg : UpdateConfig} {int : Text → Option ℤ} {p : Process}

/-- the refresh is under way -/
def Refresh.Live (r : Refresh) : Prop := r.phase.isEnded = false

/-! ## The list of refreshes -/

section Refreshes

variable {l : List Refresh} {j k : ℕ} {r r' : Refresh}

theorem getElem?_set_cases (h : (l.set j r')[k]? = some r) : k = j ∧ r = r' ∨ k ≠ j ∧ l[k]? = some r := by
  rw [List.getElem?_set] at h
  split_ifs at h with hj hlt
  · exact Or.inl ⟨hj.symm, (Option.some.inj h).symm⟩
  · exact Or.inr ⟨fun hk => hj hk.symm, h⟩

/-- a thread that goes on is still the one that began -/
theorem map_since_set (h : l[j]? = some r) (hsince : r'.since = r.since) :
    (l.set j r').map Refresh.since = l.map Refresh.since := by
  obtain ⟨hlt, rfl⟩ := List.getElem?_eq_some_iff.1 h
  have hlt' : j < (l.map Refresh.since).length := by simpa using hlt
  have hat : (l.map Refresh.since)[j] = l[j].since := List.getElem_map ..
  rw [List.map_set, hsince, ← hat, List.set_getElem_self]

theorem mem_set_cases (h : r ∈ l.set j r') : r = r' ∨ r ∈ l := (List.mem_or_eq_of_mem_set h).symm

end Refreshes

/-! ## (1) One refresh at a time -/

/-- what every interleaving keeps -/
structure Orderly (cfg : UpdateConfig) (p : Process) : Prop where
  spaced : (p.refreshes.map Refresh.since).Pairwise fun a b => a + cfg.interval ≤ b
  begun : ∀ r ∈ p.refreshes, r.since ≤ p.clock
  timed : ∀ i now, p.requests i = .timed now → now ≤ p.clock
  resting : p.state.refreshing = false → ∀ r ∈ p.refreshes, r.phase.isEnded = true ∧ r.since ≤ p.state.checkedAt
  single : ∀ (j k : ℕ) (r r' : Refresh), p.refreshes[j]? = some r → p.refreshes[k]? = some r' → r.Live → r'.Live → j = k

theorem orderly_start (clock : DateTime) : Orderly cfg (start clock) where
  spaced := List.Pairwise.nil
  begun := by simp [start]
  timed := by simp [start]
  resting := by simp [start]
  single := by simp [start]

/-- an answer, or a request that has read the clock by now, changes nothing else -/
theorem Orderly.answer (h : Orderly cfg p) (i : ℕ) {r : Request} (hr : ∀ now, r = .timed now → now ≤ p.clock) :
    Orderly cfg (p.answer i r) := by
  refine ⟨h.spaced, h.begun, fun j now hj => ?_, h.resting, h.single⟩
  by_cases hij : j = i
  · rw [hij, p.answer_self] at hj
    exact hr now hj
  · rw [p.answer_other r hij] at hj
    exact h.timed j now hj

/-- the flag is set, and the thread is not there: nothing that is asked of a set flag is lost -/
theorem Orderly.mark (h : Orderly cfg p) : Orderly cfg { p with state := { p.state with refreshing := true } } :=
  ⟨h.spaced, h.begun, h.timed, fun hr => absurd hr (by simp), h.single⟩

theorem Orderly.begin (h : Orderly cfg p) {now : DateTime} (hnow : now ≤ p.clock) (hstale : p.stale cfg now = true) :
    Orderly cfg { p with state := { p.state with refreshing := true },
                         refreshes := p.refreshes ++ [⟨p.clock, .fetching⟩] } := by
  simp only [Process.stale, Bool.and_eq_true, decide_eq_true_eq, Bool.not_eq_true'] at hstale
  obtain ⟨hinterval, hresting⟩ := hstale
  have hrest := h.resting hresting
  refine ⟨?_, ?_, h.timed, fun hr => absurd hr (by simp), ?_⟩
  · rw [List.map_append, List.pairwise_append]
    refine ⟨h.spaced, List.pairwise_singleton _ _, fun a ha b hb => ?_⟩
    obtain ⟨r, hr, rfl⟩ := List.mem_map.1 ha
    rw [List.map_singleton, List.mem_singleton] at hb
    -- the refresh before ended at `checkedAt`, an interval before the clock was read
    calc r.since + cfg.interval
        ≤ p.state.checkedAt + cfg.interval := add_le_add_left (hrest r hr).2 _
      _ ≤ now := by linarith
      _ ≤ b := by rw [hb]; exact hnow
  · intro r hr
    rcases List.mem_append.1 hr with hold | hnew
    · exact h.begun r hold
    · rw [List.mem_singleton.1 hnew]
  · intro j k r r' hj hk hlive hlive'
    have hlast : ∀ (i : ℕ) (s : Refresh), (p.refreshes ++ [⟨p.clock, .fetching⟩])[i]? = some s → s.Live →
        i = p.refreshes.length := by
      intro i s hi hs
      rcases lt_trichotomy i p.refreshes.length with hlt | heq | hgt
      · rw [List.getElem?_append_left hlt] at hi
        have hended := (hrest s (List.mem_of_getElem? hi)).1
        rw [hs] at hended
        cases hended
      · exact heq
      · rw [List.getElem?_eq_none (by simp; omega)] at hi
        cases hi
    rw [hlast j r hj hlive, hlast k r' hk hlive']

/-- a background thread goes on -/
theorem Orderly.set (h : Orderly cfg p) {j : ℕ} {r r' : Refresh} (hj : p.refreshes[j]? = some r)
    (hlive : r.Live) (hsince : r'.since = r.since) :
    Orderly cfg { p with refreshes := p.refreshes.set j r' } := by
  have hmem := List.mem_of_getElem? hj
  have hbusy : p.state.refreshing ≠ false := by
    intro hresting
    have hended := (h.resting hresting r hmem).1
    rw [hlive] at hended
    cases hended
  refine ⟨?_, fun s hs => ?_, h.timed, fun hr => absurd hr hbusy, ?_⟩
  · simp only
    rw [map_since_set hj hsince]
    exact h.spaced
  · rcases mem_set_cases hs with rfl | hs
    · rw [hsince]
      exact h.begun r hmem
    · exact h.begun s hs
  · -- whoever is under way afterwards was so before
    have hbefore : ∀ (k : ℕ) (s : Refresh), (p.refreshes.set j r')[k]? = some s → s.Live →
        ∃ t : Refresh, p.refreshes[k]? = some t ∧ t.Live := by
      intro k s hk hs
      rcases getElem?_set_cases hk with ⟨rfl, -⟩ | ⟨-, hold⟩
      · exact ⟨r, hj, hlive⟩
      · exact ⟨s, hold, hs⟩
    intro k m s s' hk hm hs hs'
    obtain ⟨t, ht, htlive⟩ := hbefore k s hk hs
    obtain ⟨t', ht', htlive'⟩ := hbefore m s' hm hs'
    exact h.single k m t t' ht ht' htlive htlive'

/-- a refresh that ends leaves none under way -/
theorem Orderly.store (h : Orderly cfg p) {j : ℕ} {since : DateTime} {reply : Option Json}
    (hj : p.refreshes[j]? = some ⟨since, .fetched reply⟩) :
    Orderly cfg { p with state := p.state.store reply p.clock, refreshes := p.refreshes.set j ⟨since, .ended reply⟩ } := by
  have hset := @Orderly.set cfg p h j ⟨since, .fetched reply⟩ ⟨since, .ended reply⟩ hj rfl rfl
  refine ⟨hset.spaced, hset.begun, hset.timed, fun _ s hs => ⟨?_, hset.begun s hs⟩, hset.single⟩
  obtain ⟨k, hk⟩ := List.getElem?_of_mem hs
  rcases getElem?_set_cases hk with ⟨-, rfl⟩ | ⟨hne, hold⟩
  · rfl
  · by_contra hlive
    exact hne (h.single k j s ⟨since, .fetched reply⟩ hold hj (Bool.eq_false_of_not_eq_true hlive) rfl)

theorem Orderly.step (h : Orderly cfg p) (e : UpdateEvent) : Orderly cfg (step cfg int p e) := by
  cases e with
  | wait elapsed =>
    have hle : p.clock ≤ p.clock + elapsed := le_add_of_nonneg_right (Int.natCast_nonneg elapsed)
    exact ⟨h.spaced, fun r hr => (h.begun r hr).trans hle, fun i now hi => (h.timed i now hi).trans hle, h.resting,
      h.single⟩
  | ask i =>
    refine h.answer i fun now hr => ?_
    split_ifs at hr
    injection hr with hnow
    exact hnow.ge
  | look i starts =>
    simp only [UpdateCheck.step]
    cases hi : p.requests i with
    | idle => exact h
    | answered result => exact h
    | timed now =>
      simp only [Process.look]
      by_cases hstale : p.stale cfg now = true
      · rw [if_pos hstale]
        cases starts with
        | true => exact (h.begin (h.timed i now hi) hstale).answer i (by simp)
        | false => exact h.mark.answer i (by simp)
      · rw [if_neg hstale]
        exact h.answer i (by simp)
  | receive j reply =>
    simp only [UpdateCheck.step]
    cases hj : p.refreshes[j]? with
    | none => exact h
    | some r =>
      obtain ⟨since, phase⟩ := r
      cases phase with
      | fetching => exact h.set hj rfl rfl
      | fetched old => exact h
      | ended old => exact h
  | store j =>
    simp only [UpdateCheck.step]
    cases hj : p.refreshes[j]? with
    | none => exact h
    | some r =>
      obtain ⟨since, phase⟩ := r
      cases phase with
      | fetching => exact h
      | fetched reply => exact h.store hj
      | ended old => exact h

/-- **(1) One refresh at a time, and an interval between two.** In every interleaving of the threads of a process. -/
theorem queries_spaced (cfg : UpdateConfig) (int : Text → Option ℤ) (clock : DateTime) (events : List UpdateEvent) :
    let p := run (step cfg int) (start clock) events
    (p.refreshes.map Refresh.since).Pairwise (fun a b => a + cfg.interval ≤ b) ∧
      ∀ (j k : ℕ) (r r' : Refresh), p.refreshes[j]? = some r → p.refreshes[k]? = some r' → r.Live → r'.Live → j = k := by
  have h : Orderly cfg (run (step cfg int) (start clock) events) :=
    run_invariant (fun p e hp => hp.step e) (orderly_start clock) events
  exact ⟨h.spaced, h.single⟩

/-! ## (2) The flag -/

/-- a flag that is set has somebody who will clear it -/
def Attended (p : Process) : Prop := p.state.refreshing = true → ∃ r ∈ p.refreshes, r.Live

/-- the thread that this step wants for the request cannot be started -/
def RefusedTo (cfg : UpdateConfig) (p : Process) (i : ℕ) (e : UpdateEvent) : Prop :=
  ∃ now, e = .look i false ∧ p.requests i = .timed now ∧ p.stale cfg now = true

def Refused (cfg : UpdateConfig) (p : Process) (e : UpdateEvent) : Prop := ∃ i, RefusedTo cfg p i e

theorem attended_step (ha : Attended p) {e : UpdateEvent} (hstarts : ¬ Refused cfg p e) :
    Attended (step cfg int p e) := by
  cases e with
  | wait elapsed => exact ha
  | ask i => exact ha
  | look i starts =>
    simp only [step]
    cases hi : p.requests i with
    | idle => exact ha
    | answered result => exact ha
    | timed now =>
      simp only [Process.look]
      by_cases hstale : p.stale cfg now = true
      · rw [if_pos hstale]
        cases starts with
        | true => exact fun _ => ⟨⟨p.clock, .fetching⟩, List.mem_append_right _ (List.mem_singleton_self _), rfl⟩
        | false => exact absurd ⟨i, now, rfl, hi, hstale⟩ hstarts
      · rw [if_neg hstale]
        exact ha
  | receive j reply =>
    simp only [step]
    cases hj : p.refreshes[j]? with
    | none => exact ha
    | some r =>
      obtain ⟨since, phase⟩ := r
      cases phase with
      | fetching => exact fun _ => ⟨⟨since, .fetched reply⟩, List.mem_set (List.getElem?_eq_some_iff.1 hj).1 _, rfl⟩
      | fetched old => exact ha
      | ended old => exact ha
  | store j =>
    simp only [step]
    cases hj : p.refreshes[j]? with
    | none => exact ha
    | some r =>
      obtain ⟨since, phase⟩ := r
      cases phase with
      | fetching => exact ha
      | fetched reply => exact fun hflag => absurd hflag (by simp [UpdateState.store])
      | ended old => exact ha

/-- nobody refreshes, and the flag says that somebody does -/
structure Stuck (p : Process) : Prop where
  flag : p.state.refreshing = true
  ended : ∀ r ∈ p.refreshes, r.phase.isEnded = true

theorem stuck_of_refused (h : Orderly cfg p) {e : UpdateEvent} (hrefused : Refused cfg p e) : Stuck (step cfg int p e) := by
  obtain ⟨i, now, rfl, hi, hstale⟩ := hrefused
  have hresting : p.state.refreshing = false := by
    simp only [Process.stale, Bool.and_eq_true, Bool.not_eq_true'] at hstale
    exact hstale.2
  simp only [step, hi, Process.look, if_pos hstale]
  exact ⟨rfl, fun r hr => (h.resting hresting r hr).1⟩

theorem Stuck.not_attended (h : Stuck p) : ¬ Attended p := by
  intro ha
  obtain ⟨r, hr, hlive⟩ := ha h.flag
  have hended := h.ended r hr
  rw [hlive] at hended
  cases hended

/-- **(2) The flag is left behind exactly when a thread could not be started.** -/
theorem never_stuck_iff (cfg : UpdateConfig) (int : Text → Option ℤ) (clock : DateTime) (events : List UpdateEvent) :
    (∀ l, l <+: events → Attended (run (step cfg int) (start clock) l)) ↔
      Meets (step cfg int) (fun p e => ¬ Refused cfg p e) (start clock) events := by
  refine @forall_prefix_iff_meets _ _ (step cfg int) (fun p => Orderly cfg p ∧ Attended p) Attended _ (fun p h => h.2)
    (fun p e h hC => ⟨h.1.step e, attended_step h.2 hC⟩) (fun p e h hC => ?_) _
    ⟨orderly_start clock, fun hflag => absurd hflag (by simp [start, UpdateState.initial])⟩ events
  exact (stuck_of_refused h.1 (not_not.1 hC)).not_attended

/-- a step of a stuck process starts nothing -/
theorem Stuck.step (h : Stuck p) (e : UpdateEvent) :
    (step cfg int p e).refreshes = p.refreshes ∧ (step cfg int p e).state.refreshing = true := by
  have hphase : ∀ (j : ℕ) (r : Refresh), p.refreshes[j]? = some r → r.phase.isEnded = true := fun j r hj =>
    h.ended r (List.mem_of_getElem? hj)
  cases e with
  | wait elapsed => exact ⟨rfl, h.flag⟩
  | ask i => exact ⟨rfl, h.flag⟩
  | look i starts =>
    simp only [UpdateCheck.step]
    cases hi : p.requests i with
    | idle => exact ⟨rfl, h.flag⟩
    | answered result => exact ⟨rfl, h.flag⟩
    | timed now =>
      have hstale : ¬ p.stale cfg now = true := by simp [Process.stale, h.flag]
      simp only [Process.look, if_neg hstale]
      exact ⟨rfl, h.flag⟩
  | receive j reply =>
    simp only [UpdateCheck.step]
    cases hj : p.refreshes[j]? with
    | none => exact ⟨rfl, h.flag⟩
    | some r =>
      obtain ⟨since, phase⟩ := r
      cases phase with
      | fetching => exact absurd (hphase j _ hj) (by simp [RefreshPhase.isEnded])
      | fetched old => exact ⟨rfl, h.flag⟩
      | ended old => exact ⟨rfl, h.flag⟩
  | store j =>
    simp only [UpdateCheck.step]
    cases hj : p.refreshes[j]? with
    | none => exact ⟨rfl, h.flag⟩
    | some r =>
      obtain ⟨since, phase⟩ := r
      cases phase with
      | fetching => exact ⟨rfl, h.flag⟩
      | fetched reply => exact absurd (hphase j _ hj) (by simp [RefreshPhase.isEnded])
      | ended old => exact ⟨rfl, h.flag⟩

/-- **Once left behind, the flag stands.** The process asks for no release any more, however long it runs. -/
theorem stuck_forever (h : Stuck p) (events : List UpdateEvent) :
    (run (step cfg int) p events).refreshes = p.refreshes ∧ Stuck (run (step cfg int) p events) := by
  refine run_invariant (I := fun q => q.refreshes = p.refreshes ∧ Stuck q) (fun q e hq => ?_) ⟨rfl, h⟩ events
  obtain ⟨hsame, hflag⟩ := @Stuck.step cfg int q hq.2 e
  exact ⟨hsame.trans hq.1, hflag, fun r hr => hq.2.ended r (hsame ▸ hr)⟩

/-- **Whatever the network answers, a refresh ends**: its last two steps clear the flag. -/
theorem refresh_ends {j : ℕ} {r : Refresh} (hj : p.refreshes[j]? = some r) (hlive : r.Live) (reply : Option Json) :
    (run (step cfg int) p [.receive j reply, .store j]).state.refreshing = false := by
  obtain ⟨since, phase⟩ := r
  have hlt := (List.getElem?_eq_some_iff.1 hj).1
  cases phase with
  | fetching =>
    have hset : (p.refreshes.set j ⟨since, .fetched reply⟩)[j]? = some ⟨since, .fetched reply⟩ := by
      simp [hlt]
    simp [step, hj, hset, UpdateState.store]
  | fetched old => simp [step, hj, UpdateState.store]
  | ended old => cases hlive

/-! ## (3) The answers -/

/-- a refresh has brought this tag -/
def Received (p : Process) (tag : Json) : Prop := ∃ r ∈ p.refreshes, r.phase = .ended (some tag)

/-- what a request may be told; `refused` says that it was not given a thread -/
def AnswerSound (cfg : UpdateConfig) (int : Text → Option ℤ) (p : Process) (refused : Prop) :
    Except PyError (Bool × Option Json) → Prop
  | .ok (available, latest) => (available = true ↔ latest.isSome = true) ∧ ∀ tag, latest = some tag → Received p tag ∧
      ∃ text current newest, tag = .str text ∧ parseText int cfg.version.toList = some current ∧
        parseText int text.toList = some newest ∧ current < newest
  | .error e => e = .other "RuntimeError" ∧ refused ∨ e = .attributeError ∧ ∃ tag, Received p tag ∧ ∀ text, tag ≠ .str text

structure Sound (cfg : UpdateConfig) (int : Text → Option ℤ) (p : Process) (refused : ℕ → Prop) : Prop where
  latest : ∀ tag, p.state.latest = some tag → truthy tag = true ∧ Received p tag
  answers : ∀ i result, p.requests i = .answered result → AnswerSound cfg int p (refused i) result

theorem AnswerSound.mono {p' : Process} {refused refused' : Prop} (hkeeps : ∀ tag, Received p tag → Received p' tag)
    (hrefused : refused → refused') {result : Except PyError (Bool × Option Json)} (h : AnswerSound cfg int p refused result) :
    AnswerSound cfg int p' refused' result := by
  cases result with
  | ok answer =>
    obtain ⟨available, latest⟩ := answer
    exact ⟨h.1, fun tag htag => ⟨hkeeps tag (h.2 tag htag).1, (h.2 tag htag).2⟩⟩
  | error e =>
    rcases h with ⟨h, hr⟩ | ⟨h, tag, htag, htext⟩
    · exact Or.inl ⟨h, hrefused hr⟩
    · exact Or.inr ⟨h, tag, hkeeps tag htag, htext⟩

/-- a thread under way goes on, and every tag is still there -/
theorem Received.set {j : ℕ} {r r' : Refresh} (hj : p.refreshes[j]? = some r) (hlive : r.Live) {tag : Json}
    (h : Received p tag) : ∃ s ∈ p.refreshes.set j r', s.phase = .ended (some tag) := by
  obtain ⟨s, hs, hphase⟩ := h
  obtain ⟨k, hk⟩ := List.getElem?_of_mem hs
  have hne : j ≠ k := by
    rintro rfl
    cases hj.symm.trans hk
    rw [Refresh.Live, hphase] at hlive
    cases hlive
  refine ⟨s, List.mem_of_getElem? (i := k) ?_, hphase⟩
  rw [List.getElem?_set_ne hne, hk]

theorem parseVersion_text (text : String) :
    parseVersion int (some (.str text)) = .ok (if text = "" then none else parseText int text.toList) := by
  have hfilter : (some (Json.str text)).filter truthy = if text = "" then none else some (.str text) := by
    simp [Option.filter, truthy]
  unfold parseVersion
  rw [hfilter]
  split_ifs
  · rfl
  · rfl

theorem answerOf_sound {refused : Prop} (h : ∀ tag, p.state.latest = some tag → truthy tag = true ∧ Received p tag) :
    AnswerSound cfg int p refused (answerOf int cfg.version p.state.latest) := by
  unfold answerOf
  rw [parseVersion_text]
  cases hlatest : p.state.latest with
  | none => simp [parseVersion, isNewer, bind, Except.bind, pure, Except.pure, AnswerSound]
  | some tag =>
    obtain ⟨htruthy, hreceived⟩ := h tag hlatest
    by_cases htext : ∃ text, tag = .str text
    · obtain ⟨text, rfl⟩ := htext
      have hne : text ≠ "" := by simpa [truthy] using htruthy
      rw [parseVersion_text, if_neg hne]
      simp only [bind, Except.bind, pure, Except.pure]
      cases hcurrent : (if cfg.version = "" then none else parseText int cfg.version.toList) with
      | none => simp [AnswerSound, isNewer]
      | some current =>
        cases hnewest : parseText int text.toList with
        | none => simp [AnswerSound, isNewer]
        | some newest =>
          by_cases hlt : current < newest
          · split_ifs at hcurrent with hversion
            simp only [isNewer, hlt, decide_true, if_true]
            refine ⟨by simp, fun tag htag => ?_⟩
            cases htag
            exact ⟨hreceived, text, current, newest, rfl, hcurrent, hnewest, hlt⟩
          · simp [AnswerSound, isNewer, hlt]
    · have herror : parseVersion int (some tag) = .error .attributeError := by
        unfold parseVersion
        rw [Option.filter_some, if_pos htruthy]
        cases tag with
        | str text => exact absurd ⟨text, rfl⟩ htext
        | null => rfl
        | bool b => rfl
        | num n => rfl
        | float q repr => rfl
        | arr items => rfl
        | obj items => rfl
      simp only [herror, bind, Except.bind]
      exact Or.inr ⟨rfl, tag, hreceived, fun text h => htext ⟨text, h⟩⟩

variable {refused : ℕ → Prop}

/-- one more answer -/
theorem Sound.answer (h : Sound cfg int p refused) (i : ℕ) {r : Request}
    (hr : ∀ result, r = .answered result → AnswerSound cfg int p (refused i) result) :
    Sound cfg int (p.answer i r) refused := by
  refine ⟨h.latest, fun j result hj => ?_⟩
  by_cases hij : j = i
  · rw [hij, p.answer_self] at hj
    rw [hij]
    exact hr result hj
  · rw [p.answer_other r hij] at hj
    exact h.answers j result hj

theorem Sound.mono {refused' : ℕ → Prop} (h : Sound cfg int p refused) (hrefused : ∀ i, refused i → refused' i) :
    Sound cfg int p refused' :=
  ⟨h.latest, fun i result hi => (h.answers i result hi).mono (fun _ => id) (hrefused i)⟩

/-- the process goes on with other refreshes, among them every one that has brought a tag -/
theorem Sound.refresh (h : Sound cfg int p refused) {state : UpdateState} {refreshes : List Refresh}
    (hkeeps : ∀ tag, Received p tag → Received { p with state := state, refreshes := refreshes } tag)
    (hlatest : ∀ tag, state.latest = some tag → p.state.latest = some tag ∨
      truthy tag = true ∧ Received { p with state := state, refreshes := refreshes } tag) :
    Sound cfg int { p with state := state, refreshes := refreshes } refused := by
  refine ⟨fun tag htag => ?_, fun i result hi => (h.answers i result hi).mono hkeeps id⟩
  rcases hlatest tag htag with hold | hnew
  · exact ⟨(h.latest tag hold).1, hkeeps tag (h.latest tag hold).2⟩
  · exact hnew

/-- a step keeps the answers sound, and explains the failure of a request by the thread that it was refused -/
theorem Sound.step (h : Sound cfg int p refused) (e : UpdateEvent) :
    Sound cfg int (step cfg int p e) fun i => refused i ∨ RefusedTo cfg p i e := by
  have hmono : Sound cfg int p fun i => refused i ∨ RefusedTo cfg p i e := h.mono fun _ => .inl
  cases e with
  | wait elapsed => exact ⟨hmono.latest, hmono.answers⟩
  | ask i =>
    refine hmono.answer i fun result hr => ?_
    split_ifs at hr
    cases hr
    exact ⟨by simp, fun tag htag => by cases htag⟩
  | look i starts =>
    have hanswer : ∀ {refused : Prop}, AnswerSound cfg int p refused (answerOf int cfg.version p.state.latest) :=
      answerOf_sound h.latest
    simp only [UpdateCheck.step]
    cases hi : p.requests i with
    | idle => exact hmono
    | answered result => exact hmono
    | timed now =>
      simp only [Process.look]
      by_cases hstale : p.stale cfg now = true
      · rw [if_pos hstale]
        cases starts with
        | true =>
          have hkeeps : ∀ tag, Received p tag → Received { p with
              state := { p.state with refreshing := true }
              refreshes := p.refreshes ++ [⟨p.clock, .fetching⟩] } tag := by
            rintro tag ⟨r, hr, hphase⟩
            exact ⟨r, List.mem_append_left _ hr, hphase⟩
          refine (hmono.refresh hkeeps fun tag => .inl).answer i fun result hr => ?_
          cases hr
          exact hanswer.mono hkeeps id
        | false =>
          have hmarked : Sound cfg int { p with state := { p.state with refreshing := true } }
              fun j => refused j ∨ RefusedTo cfg p j (.look i false) := ⟨hmono.latest, hmono.answers⟩
          refine hmarked.answer i fun result hr => ?_
          cases hr
          exact Or.inl ⟨rfl, .inr ⟨now, rfl, hi, hstale⟩⟩
      · rw [if_neg hstale]
        refine hmono.answer i fun result hr => ?_
        cases hr
        exact hanswer
  | receive j reply =>
    simp only [UpdateCheck.step]
    cases hj : p.refreshes[j]? with
    | none => exact hmono
    | some r =>
      obtain ⟨since, phase⟩ := r
      cases phase with
      | fetching => exact hmono.refresh (fun tag htag => htag.set hj rfl) fun tag => .inl
      | fetched old => exact hmono
      | ended old => exact hmono
  | store j =>
    simp only [UpdateCheck.step]
    cases hj : p.refreshes[j]? with
    | none => exact hmono
    | some r =>
      obtain ⟨since, phase⟩ := r
      cases phase with
      | fetching => exact hmono
      | ended old => exact hmono
      | fetched reply =>
        refine hmono.refresh (fun tag htag => htag.set hj rfl) fun tag htag => ?_
        simp only [UpdateState.store] at htag
        split_ifs at htag with hreply
        · obtain ⟨kept, hkept⟩ := Option.isSome_iff_exists.1 hreply
          obtain ⟨hsome, htruthy⟩ := Option.filter_eq_some_iff.1 hkept
          cases htag.symm.trans hsome
          refine .inr ⟨htruthy, ⟨since, .ended reply⟩, List.mem_set (List.getElem?_eq_some_iff.1 hj).1 _, ?_⟩
          rw [htag]
        · exact .inl htag

/-- in the run, the thread that the request wanted could not be started -/
def WasRefused (cfg : UpdateConfig) (int : Text → Option ℤ) (clock : DateTime) (events : List UpdateEvent) (i : ℕ) : Prop :=
  ∃ l e, l ++ [e] <+: events ∧ RefusedTo cfg (run (step cfg int) (start clock) l) i e

theorem sound_run (cfg : UpdateConfig) (int : Text → Option ℤ) (clock : DateTime) (events : List UpdateEvent) :
    Sound cfg int (run (step cfg int) (start clock) events) (WasRefused cfg int clock events) := by
  induction events using List.reverseRecOn with
  | nil => exact ⟨by simp [start, UpdateState.initial], by simp [start]⟩
  | append_singleton events e ih =>
    rw [run_snoc]
    refine (ih.step e).mono fun i hi => ?_
    rcases hi with ⟨l, e', hl, hrefused⟩ | hrefused
    · exact ⟨l, e', hl.trans (List.prefix_append _ _), hrefused⟩
    · exact ⟨events, e, List.prefix_rfl, hrefused⟩

/-- **(3) The answers are sound.** In every interleaving, whatever the network answers. -/
theorem answers_sound (cfg : UpdateConfig) (int : Text → Option ℤ) (clock : DateTime) (events : List UpdateEvent) (i : ℕ)
    (result : Except PyError (Bool × Option Json))
    (h : (run (step cfg int) (start clock) events).requests i = .answered result) :
    AnswerSound cfg int (run (step cfg int) (start clock) events) (WasRefused cfg int clock events i) result :=
  (sound_run cfg int clock events).answers i result h

def sampleConfig : UpdateConfig := ⟨true, 21600, "3.8.4"⟩

/-- two requests six hours apart, and a refresh between them -/
def sampleEvents : List UpdateEvent :=
  [.wait 30000000000, .ask 0, .look 0 true, .receive 0 (some (.str "v3.10.0-rc1")), .store 0, .ask 1, .look 1 true]

theorem sample_answer_sound :
    AnswerSound sampleConfig Json.intToken (run (step sampleConfig Json.intToken) (start 0) sampleEvents)
      (WasRefused sampleConfig Json.intToken 0 sampleEvents 1) (.ok (true, some (.str "v3.10.0-rc1"))) :=
  answers_sound sampleConfig Json.intToken 0 sampleEvents 1 _ rfl

end Chancery.UpdateCheck
