/-
Failed logins on one account by several workers at once.

A worker reads the row, checks the password, and commits what it has computed from the row it read: the ORM writes the
columns whose value has changed. So two workers that read the same count commit the same next count, and one failure is
lost.

(1) `RaceInv.failedLogin`: a lock, once committed, stands; and the failures are in the counter while every commit is fresh.
(2) `failures_lock`: no interleaving clears a lock; and if every commit finds the count that its worker has read, the
account is locked once as many failures as the threshold have committed.
(3) `five_failures_lost`: five workers read, then five workers commit, and the count is one.
-/
import Mathlib.Tactic
import Chancery.Core.Workers
import Chancery.Services.AuthService

namespace Chancery.Auth

open Chancery.Core

/-! ## Workers -/

/-- the row of the account, the clock, and two values that are not in the code -/
structure RaceRow where
  clock : DateTime
  user : User
  /-- failures committed so far -/
  failures : ℕ
  /-- when the last lock was committed -/
  lockedAt : Option DateTime

/-- a step of a worker, some time after the last step of any: does it end its request with an error -/
structure Tick where
  elapsed : ℕ
  abort : Bool

/-- the end of a lock that starts now -/
def lockEnd (env : Env) (now : DateTime) : DateTime := now + env.lockoutMinutes * minute

/-- the UPDATE of a changed row: the other columns keep what the table has. For an admin the count is written in any case,
because the query for the last active admin flushes the raised count first. -/
def writeChanged (old new row : User) : User :=
  { row with
    failedLoginCount :=
      if new.failedLoginCount = old.failedLoginCount ∧ old.role ≠ .admin then row.failedLoginCount else new.failedLoginCount
    lockedUntil := if new.lockedUntil = old.lockedUntil then row.lockedUntil else new.lockedUntil }

/-- does the failure lock the account -/
def reachesThreshold (env : Env) (u : User) : Bool := decide (env.lockoutThreshold ≤ u.failedLoginCount + 1)

/-- the commit of a failed attempt on the row as it was read; the account is not the last active admin -/
def RaceRow.commit (env : Env) (u : User) (s : RaceRow) : RaceRow :=
  { s with
    user := writeChanged u (countFailure { env with now := s.clock } false u) s.user
    failures := s.failures + 1
    lockedAt := if reachesThreshold env u then some s.clock else s.lockedAt }

def RaceRow.wait (s : RaceRow) (tick : Tick) : RaceRow := { s with clock := s.clock + tick.elapsed }

/-- a worker that has read nothing reads the row, and a locked account is refused; one that has read the row commits -/
def failedLogin (env : Env) (_ : ℕ) (tick : Tick) (s : RaceRow) : Option User → RaceRow × Option User
  | none => if tick.abort || isLocked (s.wait tick).clock s.user then (s.wait tick, none) else (s.wait tick, some s.user)
  | some u => if tick.abort then (s.wait tick, none) else ((s.wait tick).commit env u, none)

abbrev Race := Pool RaceRow (Option User)

def race (env : Env) (p : Race) (o : ℕ × Tick) : Race := p.act (failedLogin env) o

/-- a worker that commits finds the count that it has read -/
def FreshCommit (p : Race) (o : ℕ × Tick) : Prop :=
  ∀ u, p.workers o.1 = some u → o.2.abort = false → p.shared.user.failedLoginCount = u.failedLoginCount

instance (p : Race) (o : ℕ × Tick) : Decidable (FreshCommit p o) :=
  decidable_of_iff (∀ u ∈ p.workers o.1, o.2.abort = false → p.shared.user.failedLoginCount = u.failedLoginCount) Iff.rfl

/-- the last lock stands in full -/
def LockStands (env : Env) (p : Race) : Prop :=
  ∀ t, p.shared.lockedAt = some t → p.shared.user.lockedUntil = some (lockEnd env t)

/-- as many failures as the threshold have locked the account -/
def LockedInTime (env : Env) (p : Race) : Prop :=
  env.lockoutThreshold ≤ p.shared.failures → ∃ t, p.shared.lockedAt = some t

/-! ## One step -/

section Step

variable {env : Env} {p : Race} {o : ℕ × Tick} {s : RaceRow} {u : User}

/-- a row that was read was not locked -/
def SeenUnlocked (clock : DateTime) (seen : Option User) : Prop :=
  ∀ u, seen = some u → ∀ t, u.lockedUntil = some t → t ≤ clock

/-- the lock of the row is the last one committed, and every worker has read an unlocked row -/
structure RaceInv (env : Env) (p : Race) : Prop where
  stands : ∀ t, p.shared.lockedAt = some t → p.shared.user.lockedUntil = some (lockEnd env t)
  seen : ∀ w, SeenUnlocked p.shared.clock (p.workers w)

/-- the failures are in the counter until the account is locked -/
def Tallied (env : Env) (p : Race) : Prop :=
  p.shared.lockedAt = none →
    (p.shared.failures : ℤ) ≤ p.shared.user.failedLoginCount ∧ (p.shared.failures : ℤ) < env.lockoutThreshold

theorem SeenUnlocked.later {clock clock' : DateTime} {seen : Option User} (h : SeenUnlocked clock seen)
    (hle : clock ≤ clock') : SeenUnlocked clock' seen :=
  fun u hu t ht => (h u hu t ht).trans hle

theorem seenUnlocked_none (clock : DateTime) : SeenUnlocked clock none := fun _ h => nomatch h

theorem le_wait (s : RaceRow) (tick : Tick) : s.clock ≤ (s.wait tick).clock :=
  le_add_of_nonneg_right (Int.natCast_nonneg tick.elapsed)

theorem race_clock_le (p : Race) (o : ℕ × Tick) : p.shared.clock ≤ (race env p o).shared.clock := by
  have hwait := le_wait p.shared o.2
  rw [race, Pool.act_shared]
  unfold failedLogin
  split
  · split_ifs <;> exact hwait
  · split_ifs <;> exact hwait

/-- a failure below the threshold leaves the lock -/
theorem commit_lockedUntil_of_lt (h : reachesThreshold env u = false) :
    (s.commit env u).user.lockedUntil = s.user.lockedUntil ∧ (s.commit env u).lockedAt = s.lockedAt := by
  have hlt : ¬ env.lockoutThreshold ≤ u.failedLoginCount + 1 := by simpa [reachesThreshold] using h
  simp [RaceRow.commit, writeChanged, countFailure, hlt, h]

/-- a failure at the threshold locks the account from now on -/
theorem commit_lockedUntil_of_le (h : reachesThreshold env u = true) (hminutes : 0 < env.lockoutMinutes)
    (hseen : SeenUnlocked s.clock (some u)) :
    (s.commit env u).user.lockedUntil = some (lockEnd env s.clock) ∧ (s.commit env u).lockedAt = some s.clock := by
  have hle : env.lockoutThreshold ≤ u.failedLoginCount + 1 := by simpa [reachesThreshold] using h
  have hlater : s.clock < lockEnd env s.clock := lt_add_of_pos_right _ (mul_pos hminutes (by decide))
  have hnew : some (lockEnd env s.clock) ≠ u.lockedUntil :=
    fun heq => absurd (hseen u rfl _ heq.symm) (not_le.2 hlater)
  have hwritten : (countFailure { env with now := s.clock } false u).lockedUntil = some (lockEnd env s.clock) := by
    simp [countFailure, hle, lockEnd]
  constructor
  · simp only [RaceRow.commit, writeChanged]
    rw [hwritten, if_neg hnew]
  · simp [RaceRow.commit, h]

theorem commit_stands (hminutes : 0 < env.lockoutMinutes) (hseen : SeenUnlocked s.clock (some u))
    (h : ∀ t, s.lockedAt = some t → s.user.lockedUntil = some (lockEnd env t)) :
    ∀ t, (s.commit env u).lockedAt = some t → (s.commit env u).user.lockedUntil = some (lockEnd env t) := by
  intro t ht
  cases hreach : reachesThreshold env u with
  | true =>
    obtain ⟨huntil, hat⟩ := commit_lockedUntil_of_le hreach hminutes hseen
    cases hat.symm.trans ht
    exact huntil
  | false =>
    obtain ⟨huntil, hat⟩ := commit_lockedUntil_of_lt (s := s) hreach
    rw [huntil]
    exact h t (hat.symm.trans ht)

/-- **(1) A lock stands.** -/
theorem RaceInv.race (hminutes : 0 < env.lockoutMinutes) (h : RaceInv env p) : RaceInv env (race env p o) := by
  have hclock : p.shared.clock ≤ (Auth.race env p o).shared.clock := race_clock_le p o
  constructor
  · rw [Auth.race, Pool.act_shared]
    unfold failedLogin
    cases hw : p.workers o.1 with
    | none =>
      simp only
      split_ifs <;> exact h.stands
    | some u =>
      simp only
      split_ifs
      · exact h.stands
      · have hseen := (h.seen o.1).later (le_wait p.shared o.2)
        rw [hw] at hseen
        exact commit_stands hminutes hseen h.stands
  · refine @Pool.forall_workers _ _ _ (failedLogin env) p o (fun s _ seen => SeenUnlocked s.clock seen) ?_ ?_ h.seen
    · show SeenUnlocked (Auth.race env p o).shared.clock (failedLogin env o.1 o.2 p.shared (p.workers o.1)).2
      rw [Auth.race, Pool.act_shared]
      unfold failedLogin
      cases hw : p.workers o.1 with
      | none =>
        simp only
        split_ifs with hrefused
        · exact seenUnlocked_none _
        · intro u hu t ht
          cases hu
          have hfree : isLocked (p.shared.wait o.2).clock p.shared.user = false := by
            simp only [Bool.or_eq_true, not_or] at hrefused
            simpa using hrefused.2
          rw [isLocked, ht] at hfree
          simpa using hfree
      | some u =>
        simp only
        split_ifs <;> exact seenUnlocked_none _
    · exact fun i _ hi => hi.later hclock

/-- a fresh commit counts -/
theorem Tallied.race (h : Tallied env p) (hfresh : FreshCommit p o) : Tallied env (race env p o) := by
  intro hat
  rw [Auth.race, Pool.act_shared] at hat ⊢
  unfold failedLogin at hat ⊢
  cases hw : p.workers o.1 with
  | none =>
    rw [hw] at hat
    simp only at hat ⊢
    split_ifs at hat ⊢ <;> exact h hat
  | some u =>
    rw [hw] at hat
    simp only at hat ⊢
    by_cases habort : o.2.abort = true
    · rw [if_pos habort] at hat ⊢
      exact h hat
    rw [if_neg habort] at hat ⊢
    have hcount : p.shared.user.failedLoginCount = u.failedLoginCount := hfresh u hw (by simpa using habort)
    cases hreach : reachesThreshold env u with
    | true => simp [RaceRow.commit, hreach] at hat
    | false =>
      have hlt : ¬ env.lockoutThreshold ≤ u.failedLoginCount + 1 := by simpa [reachesThreshold] using hreach
      have hold := h ((commit_lockedUntil_of_lt (s := p.shared.wait o.2) hreach).2.symm.trans hat)
      have hnew : ((p.shared.wait o.2).commit env u).user.failedLoginCount = u.failedLoginCount + 1 := by
        simp [RaceRow.commit, writeChanged, countFailure, hlt]
      rw [hnew]
      show ((p.shared.failures + 1 : ℕ) : ℤ) ≤ _ ∧ ((p.shared.failures + 1 : ℕ) : ℤ) < _
      push_cast
      omega

end Step

/-! ## Runs -/

section Run

variable {env : Env} {p : Race}

/-- **(2) Failures by several workers.** From an account that no failure of the run has touched, and in every interleaving:
the last lock stands in full; and if every commit finds the count that its worker has read, the account is locked once as
many failures as the threshold have committed. -/
theorem failures_lock (hthreshold : 0 < env.lockoutThreshold) (hminutes : 0 < env.lockoutMinutes)
    (hidle : ∀ w, p.workers w = none) (hcount : 0 ≤ p.shared.user.failedLoginCount) (hfailures : p.shared.failures = 0)
    (hat : p.shared.lockedAt = none) (ops : List (ℕ × Tick)) :
    LockStands env (run (race env) p ops) ∧
      (Meets (race env) FreshCommit p ops → LockedInTime env (run (race env) p ops)) := by
  have hstart : RaceInv env p := ⟨fun t ht => (nomatch ht.symm.trans hat), fun w => hidle w ▸ seenUnlocked_none _⟩
  refine ⟨(run_invariant (fun q o hq => RaceInv.race (o := o) hminutes hq) hstart ops).stands, fun hfresh hreached => ?_⟩
  have htally : Tallied env p := by
    intro _
    rw [hfailures]
    exact ⟨hcount, hthreshold⟩
  have hend := run_invariant_of_meets (fun q o hC hq => Tallied.race hq hC) htally hfresh
  cases hlocked : (run (race env) p ops).shared.lockedAt with
  | some t => exact ⟨t, rfl⟩
  | none => exact absurd hreached (not_le.2 (hend hlocked).2)

end Run

/-- no worker has read the row of a requester's account -/
def sampleRace : Race := ⟨⟨0, sampleUser 3 "alice" .csrRequester, 0, none⟩, fun _ => none⟩

/-- five workers in turn, each of which commits what it has read before the next one reads -/
def fiveInTurn : List (ℕ × Tick) := (List.range 5).flatMap fun w => [(w, ⟨1, false⟩), (w, ⟨1, false⟩)]

/-- five failures in turn lock the account -/
theorem failures_lock_sample :
    Meets (race (Env.at 0)) FreshCommit sampleRace fiveInTurn ∧
      (run (race (Env.at 0)) sampleRace fiveInTurn).shared.failures = 5 ∧
      ∃ t, (run (race (Env.at 0)) sampleRace fiveInTurn).shared.lockedAt = some t ∧
        (run (race (Env.at 0)) sampleRace fiveInTurn).shared.user.lockedUntil = some (lockEnd (Env.at 0) t) := by
  have hfresh : Meets (race (Env.at 0)) FreshCommit sampleRace fiveInTurn := by decide +kernel
  have hfive : (run (race (Env.at 0)) sampleRace fiveInTurn).shared.failures = 5 := by decide +kernel
  obtain ⟨hstands, hlocked⟩ :=
    @failures_lock (Env.at 0) sampleRace (by decide) (by decide) (fun _ => rfl) (by decide) rfl rfl fiveInTurn
  have hreached : (Env.at 0).lockoutThreshold ≤ ((run (race (Env.at 0)) sampleRace fiveInTurn).shared.failures : ℤ) := by
    rw [hfive]
    decide
  obtain ⟨t, ht⟩ := hlocked hfresh hreached
  exact ⟨hfresh, hfive, t, ht, hstands t ht⟩

/-- five workers read, then all of them commit -/
def fiveOverlapping : List (ℕ × Tick) := (List.range 5 ++ List.range 5).map fun w => (w, ⟨1, false⟩)

/-- **(3)** Five failures have committed, the threshold is five, and the account is not locked: its count is one. -/
theorem five_failures_lost :
    (run (race (Env.at 0)) sampleRace fiveOverlapping).shared.failures = 5 ∧
      (run (race (Env.at 0)) sampleRace fiveOverlapping).shared.user.failedLoginCount = 1 ∧
      ¬ LockedInTime (Env.at 0) (run (race (Env.at 0)) sampleRace fiveOverlapping) := by
  have hcounts : (run (race (Env.at 0)) sampleRace fiveOverlapping).shared.failures = 5 ∧
      (run (race (Env.at 0)) sampleRace fiveOverlapping).shared.user.failedLoginCount = 1 ∧
      (run (race (Env.at 0)) sampleRace fiveOverlapping).shared.lockedAt = none := by decide +kernel
  refine ⟨hcounts.1, hcounts.2.1, fun hlocked => ?_⟩
  have hreached : (Env.at 0).lockoutThreshold ≤
      ((run (race (Env.at 0)) sampleRace fiveOverlapping).shared.failures : ℤ) := by
    rw [hcounts.1]
    decide
  obtain ⟨t, ht⟩ := hlocked hreached
  cases hcounts.2.2.symm.trans ht

end Chancery.Auth
