/-
Who is in the job section. Any number of workers tick over one lease row, in any interleaving.

(1) While a tick that is not forced is in its job section and nobody has taken the lease from it, the row names its
worker and expires three ticks after the tick's `now` (`LeaseHeld`): the lease is not renewed while the jobs run.
(2) An UPDATE whose `now` lies past that time succeeds, however long the jobs still take, and then two workers are in the
section. `exclusive_iff_leaseLasts`: the section is exclusive all along a run exactly when no worker tries the UPDATE at
a time at which another one is still in the section with a lease that has run out.
-/
import Mathlib.Tactic
import Chancery.Core.JsonLoads
import Chancery.Services.Scheduler

namespace Chancery.Scheduler

open Chancery.Core

/-- no two workers are in the job section of a tick that is not forced -/
def Exclusive (p : Workers) : Prop :=
  ∀ i j, (p.workers i).phase.inSection?.isSome → (p.workers j).phase.inSection?.isSome → i = j

variable {cfg : SchedulerConfig} {holder : ℕ → String}

/-- the row carries the lease that worker `j` took at `since` -/
def LeaseOf (cfg : SchedulerConfig) (holder : ℕ → String) (s : SchedulerStore) (j : ℕ) (since : DateTime) : Prop :=
  ∃ row, s.lease = some row ∧ row.holder = some (holder j) ∧ row.expiresAt = some (since + cfg.ttl)

/-- worker `j` has the lease if it is in the job section -/
def Leased (cfg : SchedulerConfig) (holder : ℕ → String) (s : SchedulerStore) (j : ℕ) (l : SchedulerWorker) : Prop :=
  ∀ since, l.phase.inSection? = some since → LeaseOf cfg holder s j since

/-- whoever is in the job section has the lease -/
def LeaseHeld (cfg : SchedulerConfig) (holder : ℕ → String) (p : Workers) : Prop :=
  ∀ j, Leased cfg holder p.shared j (p.workers j)

/-- a worker that is about to try the UPDATE meets nobody in the section whose lease has run out -/
def LeaseLasts (cfg : SchedulerConfig) (p : Workers) (o : ℕ × TickEvent) : Prop :=
  o.2 = .next → ∀ now, (p.workers o.1).phase = .ensured now →
    ∀ j, j ≠ o.1 → ∀ since, (p.workers j).phase.inSection? = some since → now ≤ since + cfg.ttl

/-! ## One step -/

/-- what a step of worker `w` does to the lease and to the worker's place in the section -/
inductive Moves (cfg : SchedulerConfig) (holder : ℕ → String) (w : ℕ) (e : TickEvent) (s s' : SchedulerStore)
    (l l' : SchedulerWorker) : Prop
  | keeps (hrow : ∀ j since, LeaseOf cfg holder s j since → LeaseOf cfg holder s' j since)
      (hphase : ∀ now, e = .next → l.phase = .ensured now → ∀ row, s.lease = some row → row.free now (holder w) = false)
      (hin : l'.phase.inSection? = none ∨ l'.phase.inSection? = l.phase.inSection?)
  | takes (now : DateTime) (row : SchedulerLease) (he : e = .next) (hphase : l.phase = .ensured now)
      (hrow : s.lease = some row) (hfree : row.free now (holder w) = true) (hlease : LeaseOf cfg holder s' w now)
      (hin : l'.phase.inSection? = some now)

theorem LeaseOf.ensureLeaseRow {s : SchedulerStore} {j : ℕ} {since : DateTime} (h : LeaseOf cfg holder s j since) :
    LeaseOf cfg holder s.ensureLeaseRow j since := by
  obtain ⟨row, hrow, hfields⟩ := h
  exact ⟨row, by simp [SchedulerStore.ensureLeaseRow, hrow], hfields⟩

theorem LeaseOf.finish {s : SchedulerStore} {j : ℕ} {since : DateTime} (t : Tick) (h : LeaseOf cfg holder s j since) :
    LeaseOf cfg holder (s.finish t) j since := by
  obtain ⟨row, hrow, hholder, hexpires⟩ := h
  refine ⟨{ row with lastError := joined t.errors }, ?_, hholder, hexpires⟩
  simp [SchedulerStore.finish, hrow]

/-- a step that leaves the lease alone, of a worker that is not about to try the UPDATE -/
theorem Moves.of_lease {w : ℕ} {e : TickEvent} {s s' : SchedulerStore} {l l' : SchedulerWorker} (hrow : s'.lease = s.lease)
    (hphase : e = .next → ∀ now, l.phase ≠ .ensured now)
    (hin : l'.phase.inSection? = none ∨ l'.phase.inSection? = l.phase.inSection?) : Moves cfg holder w e s s' l l' := by
  refine .keeps ?_ (fun now he hl => absurd hl (hphase he now)) hin
  rintro j since ⟨row, h, hfields⟩
  exact ⟨row, hrow.trans h, hfields⟩

theorem acquireLease_moves (w : ℕ) (now : DateTime) (s : SchedulerStore) (l : SchedulerWorker)
    (hl : l.phase = .ensured now) :
    Moves cfg holder w .next s (step cfg holder w .next s l).1 l (step cfg holder w .next s l).2 := by
  cases hlease : s.lease with
  | none =>
    refine .keeps ?_ ?_ (.inl ?_)
    · rintro j since ⟨row, h, -⟩
      simp [hlease] at h
    · intro _ _ _ row h
      simp [hlease] at h
    · simp [step, hl, SchedulerStore.acquireLease, hlease, TickPhase.inSection?]
  | some row =>
    cases hfree : row.free now (holder w)
    · refine .keeps ?_ ?_ (.inl ?_)
      · intro j since h
        simpa [step, hl, SchedulerStore.acquireLease, hlease, hfree] using h
      · intro now' _ hl' row' h
        rw [hl] at hl'
        cases hl'
        rw [hlease] at h
        cases h
        exact hfree
      · simp [step, hl, SchedulerStore.acquireLease, hlease, hfree, TickPhase.inSection?]
    · refine .takes now row rfl hl hlease hfree ?_ ?_
      · simp [LeaseOf, step, hl, SchedulerStore.acquireLease, hlease, hfree]
      · simp [step, hl, SchedulerStore.acquireLease, hlease, hfree, TickPhase.inSection?]

/-- **A step.** Only the UPDATE changes whose lease the row carries; only a worker whose UPDATE succeeded comes into the
section. -/
theorem step_moves (w : ℕ) (e : TickEvent) (s : SchedulerStore) (l : SchedulerWorker) :
    Moves cfg holder w e s (step cfg holder w e s l).1 l (step cfg holder w e s l).2 := by
  obtain ⟨phase, held, last, summary⟩ := l
  cases e with
  | pass d => exact .of_lease rfl (fun he => absurd he (by simp)) (.inr rfl)
  | fail => exact .of_lease rfl (fun he => absurd he (by simp)) (.inl rfl)
  | wake force => cases phase <;> exact .of_lease rfl (fun he => absurd he (by simp)) (.inr rfl)
  | returned => cases phase <;> exact .of_lease rfl (fun he => absurd he (by simp)) (.inr rfl)
  | raised cls text => cases phase <;> exact .of_lease rfl (fun he => absurd he (by simp)) (.inr rfl)
  | next =>
    cases phase with
    | idle => exact .of_lease rfl (fun _ now h => by simp at h) (.inr rfl)
    | started now force =>
      cases force <;> exact .keeps (fun _ _ h => h.ensureLeaseRow) (fun _ _ h => by simp at h) (.inl rfl)
    | ensured now => exact acquireLease_moves w now s _ rfl
    | leased t => exact .of_lease rfl (fun _ now h => by simp at h) (.inr rfl)
    | running t name todo => exact .of_lease rfl (fun _ now h => by simp at h) (.inr rfl)
    | choosing t todo =>
      cases todo with
      | nil => exact .keeps (fun _ _ h => h.finish t) (fun _ _ h => by simp at h) (.inl rfl)
      | cons job todo =>
        -- a job that is not due is skipped, and any other is run: the tick stays in its section
        by_cases hdue : (!t.force && (s.job? job.1).any fun row => !jobIsDue row job.2 t.now) = true
        · refine .of_lease ?_ (fun _ now h => by simp at h) (.inr ?_) <;> simp [step, hdue, TickPhase.inSection?]
        · refine .of_lease ?_ (fun _ now h => by simp at h) (.inr ?_) <;> simp [step, hdue, TickPhase.inSection?]

/-! ## Runs -/

theorem leaseHeld_start (s : SchedulerStore) : LeaseHeld cfg holder (Workers.start s) :=
  fun _ _ h => by simp [Workers.start, SchedulerWorker.fresh, TickPhase.inSection?] at h

/-- the row has one holder: whoever has the lease is alone in the section -/
theorem LeaseHeld.exclusive (hholder : Function.Injective holder) {p : Workers} (h : LeaseHeld cfg holder p) :
    Exclusive p := by
  intro i j hi hj
  obtain ⟨since, hi⟩ := Option.isSome_iff_exists.1 hi
  obtain ⟨since', hj⟩ := Option.isSome_iff_exists.1 hj
  obtain ⟨row, hrow, hholder_i, -⟩ := h i since hi
  obtain ⟨row', hrow', hholder_j, -⟩ := h j since' hj
  rw [hrow] at hrow'
  cases hrow'
  rw [hholder_i] at hholder_j
  exact hholder (Option.some.inj hholder_j)

/-- a lease of another worker that has not run out is not free -/
theorem not_free {row : SchedulerLease} {j w : ℕ} {since now : DateTime} (hholder : Function.Injective holder)
    (hj : j ≠ w) (hrow : row.holder = some (holder j)) (hexpires : row.expiresAt = some (since + cfg.ttl))
    (hnow : now ≤ since + cfg.ttl) : row.free now (holder w) = false := by
  have hne : holder j ≠ holder w := fun h => hj (hholder h)
  simp only [SchedulerLease.free, hrow, hexpires, Option.isNone_some, Option.any_some, Bool.or_eq_false_iff,
    decide_eq_false_iff_not, not_lt]
  exact ⟨⟨trivial, hnow⟩, by simpa using hne⟩

/-- while leases last, whoever is in the section keeps the lease -/
theorem act_leaseHeld (hholder : Function.Injective holder) (p : Workers) (o : ℕ × TickEvent)
    (h : LeaseHeld cfg holder p) (hC : LeaseLasts cfg p o) : LeaseHeld cfg holder (p.act (step cfg holder) o) := by
  have hmoves := @step_moves cfg holder o.1 o.2 p.shared (p.workers o.1)
  rcases hmoves with ⟨hrow, -, hin⟩ | ⟨now, row, he, hphase, hrow, hfree, hlease, hin⟩
  · refine Pool.forall_workers (P := Leased cfg holder) ?_ ?_ h
    · intro since hsince
      rcases hin with hnone | hsame
      · rw [hnone] at hsince
        cases hsince
      · exact hrow _ _ (h o.1 since (hsame ▸ hsince))
    · intro i _ hi since hsince
      exact hrow _ _ (hi since hsince)
  · -- the UPDATE succeeded: nobody else is in the section, or the row would have been his
    have hnobody : ∀ j, j ≠ o.1 → ∀ since, (p.workers j).phase.inSection? ≠ some since := by
      intro j hj since hsince
      obtain ⟨row', hrow', hholder_j, hexpires⟩ := h j since hsince
      rw [hrow] at hrow'
      cases hrow'
      rw [not_free hholder hj hholder_j hexpires (hC he now hphase j hj since hsince)] at hfree
      exact absurd hfree (by simp)
    refine Pool.forall_workers (P := Leased cfg holder) ?_ ?_ h
    · intro since hsince
      rw [hin] at hsince
      cases hsince
      exact hlease
    · intro i hi _ since hsince
      exact absurd hsince (hnobody i hi since)

/-- an UPDATE that finds somebody in the section with a lease that has run out brings a second worker into it -/
theorem act_not_exclusive (p : Workers) (o : ℕ × TickEvent) (h : LeaseHeld cfg holder p)
    (hC : ¬ LeaseLasts cfg p o) : ¬ Exclusive (p.act (step cfg holder) o) := by
  unfold LeaseLasts at hC
  push Not at hC
  obtain ⟨he, now, hphase, j, hj, since, hsince, hnow⟩ := hC
  obtain ⟨row, hrow, -, hexpires⟩ := h j since hsince
  have hfree : row.free now (holder o.1) = true := by simp [SchedulerLease.free, hexpires, hnow]
  intro hexcl
  have hj' : ((p.act (step cfg holder) o).workers j).phase.inSection?.isSome := by
    rw [Pool.act_other hj, hsince]
    rfl
  have hmoves := @step_moves cfg holder o.1 o.2 p.shared (p.workers o.1)
  rcases hmoves with ⟨-, hnot, -⟩ | ⟨now', row', -, -, -, -, -, hin⟩
  · have hfalse := hnot now he hphase row hrow
    rw [hfree] at hfalse
    cases hfalse
  · have hw : ((p.act (step cfg holder) o).workers o.1).phase.inSection?.isSome := by
      rw [Pool.act_self, hin]
      rfl
    exact hj (hexcl j o.1 hj' hw)

/-- **The lease excludes exactly while it lasts.** From any content of the two tables and with no worker in a tick, no two
workers are in the job section of a tick that is not forced all along a run, exactly when every UPDATE is tried while the
lease of every other worker in the section lasts. -/
theorem exclusive_iff_leaseLasts (cfg : SchedulerConfig) (holder : ℕ → String) (hholder : Function.Injective holder)
    (s : SchedulerStore) (ops : List (ℕ × TickEvent)) :
    (∀ l, l <+: ops → Exclusive (run (Pool.act (step cfg holder)) (Workers.start s) l)) ↔
      Meets (Pool.act (step cfg holder)) (LeaseLasts cfg) (Workers.start s) ops :=
  forall_prefix_iff_meets (fun _ h => h.exclusive hholder) (act_leaseHeld hholder) act_not_exclusive (leaseHeld_start s) ops

/-- one process on each of any number of hosts -/
def hostIds (i : ℕ) : String := "app-" ++ toString (i : ℤ) ++ ":1:00000000"

theorem hostIds_injective : Function.Injective hostIds := by
  intro i j h
  have hdigits : toString (i : ℤ) = toString (j : ℤ) := by simpa [hostIds, ← String.toList_inj] using h
  exact Int.ofNat.inj (Json.toString_int_injective hdigits)

/-- ticks of 60 seconds, no rows yet, at the turn of the year -/
def minuteTicks : SchedulerConfig := ⟨60⟩

def emptyStore : SchedulerStore := ⟨none, [], 1767225600 * second, []⟩

/-- worker `w` wakes up, takes the lease and starts the first job -/
def intoFirstJob (w : ℕ) : List (ℕ × TickEvent) :=
  [(w, .wake false), (w, .next), (w, .next), (w, .next), (w, .next)]

/-- worker 0 runs all its jobs within its lease; worker 1 takes over four minutes later -/
def handOver : List (ℕ × TickEvent) :=
  intoFirstJob 0 ++ [(0, .returned), (0, .fail), (0, .pass 240000000)] ++ intoFirstJob 1

/-- the theorem applies to the hand-over: every UPDATE comes in time -/
theorem exclusive_iff_leaseLasts_handOver :
    Meets (Pool.act (step minuteTicks hostIds)) (LeaseLasts minuteTicks) (Workers.start emptyStore) handOver := by
  refine (exclusive_iff_leaseLasts minuteTicks hostIds hostIds_injective emptyStore handOver).1 fun l hl => ?_
  have hpair : ∀ l ∈ handOver.inits, ∀ i < 2, ∀ j < 2,
      ((run (Pool.act (step minuteTicks hostIds)) (Workers.start emptyStore) l).workers i).phase.inSection?.isSome →
      ((run (Pool.act (step minuteTicks hostIds)) (Workers.start emptyStore) l).workers j).phase.inSection?.isSome →
        i = j := by
    decide +kernel
  -- nobody but workers 0 and 1 takes a step
  have hsteps : ∀ o ∈ handOver, o.1 < 2 := by decide
  have hlt : ∀ i, ((run (Pool.act (step minuteTicks hostIds)) (Workers.start emptyStore) l).workers
      i).phase.inSection?.isSome → i < 2 := by
    intro i hi
    by_contra hge
    rw [Pool.run_other fun o ho => ne_of_lt ((hsteps o (hl.subset ho)).trans_le (not_lt.1 hge))] at hi
    cases hi
  intro i j hi hj
  exact hpair l ((List.mem_inits _ _).2 hl) i (hlt i hi) j (hlt j hj) hi hj

/-- worker 0 is still at its first job when its lease has run out and worker 1 wakes up -/
def slowJob : List (ℕ × TickEvent) := intoFirstJob 0 ++ [(0, .pass 181000000)] ++ intoFirstJob 1

/-- a job longer than three ticks: two workers are in the job section -/
theorem slow_job_not_exclusive :
    ¬ ∀ (cfg : SchedulerConfig) (holder : ℕ → String), Function.Injective holder →
      ∀ (s : SchedulerStore) (ops : List (ℕ × TickEvent)),
        Exclusive (run (Pool.act (step cfg holder)) (Workers.start s) ops) := by
  intro h
  have hexcl := h minuteTicks hostIds hostIds_injective emptyStore slowJob 0 1
  exact absurd (hexcl (by decide +kernel) (by decide +kernel)) (by decide)

end Chancery.Scheduler
