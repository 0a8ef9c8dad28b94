/-
Can a sequence of failed logins lock every admin out?

A failed attempt never locks the last active admin, and "last" counts active flags: an admin that is locked already still
counts as another one. So two admins can be locked at the same time.

(1) `registerFailedAttempt_available`, `not_available_registerFailedAttempt`: what one failure does to the property.
(2) `available_iff`: in every run of logins of local accounts, with any configuration at any times, an active admin is
unlocked in every state exactly when each failure that locks an active admin finds another one unlocked. A sole active admin
is never locked (`sole_admin_available`).
(3) `two_admins_locked`: five wrong passwords for each of two admins.
-/
import Mathlib.Tactic
import Chancery.Core.Run
import Chancery.Routes.Auth

namespace Chancery.Auth

open Chancery.Core

/-! ## Logins -/

/-- the accounts, and the time of the last attempt -/
structure Logins where
  clock : DateTime
  users : UserTable

inductive Attempt
  /-- the login form, or HTTP Basic without a cached credential -/
  | password (username password : Text)
  /-- a code for the second factor, with the cookie it comes with -/
  | code (session : Session) (code : Text)

/-- an attempt, some time after the previous one, on a server without a directory -/
structure TimedAttempt where
  elapsed : ℕ
  env : Env
  attempt : Attempt
  directoryOff : env.ldap.enabled = false

/-- the environment of an attempt: the server's clock runs on -/
def TimedAttempt.envAt (o : TimedAttempt) (s : Logins) : Env := { o.env with now := s.clock + o.elapsed }

/-- what an attempt leaves of the accounts -/
def Attempt.apply (lib : Lib) (env : Env) (users : UserTable) : Attempt → UserTable
  | .password username given => (authenticate lib env none username given users).2
  | .code session given => (twoFactor lib env given session users).1

def logIn (lib : Lib) (s : Logins) (o : TimedAttempt) : Logins :=
  ⟨s.clock + o.elapsed, o.attempt.apply lib (o.envAt s) s.users⟩

/-- an active admin is not locked out -/
def Available (now : DateTime) (users : UserTable) : Prop :=
  ∃ u ∈ users, u.activeAdmin = true ∧ isLocked now u = false

/-- the attempt is counted as a failure of this account -/
def Fails (lib : Lib) (env : Env) (users : UserTable) (u : User) : Attempt → Prop
  | .password username password =>
    (username ≠ [] ∧ password ≠ []) ∧ findUser users username = some u ∧ u.authSource = .localDb ∧
      isLocked env.now u = false ∧ u.checkPassword lib password = false
  | .code session code =>
    pre2faUser env session users = some u ∧ isLocked env.now u = false ∧ checkSecondFactor lib env u code = .ok none

/-- a failure of this account locks it from now on -/
def LocksOut (env : Env) (users : UserTable) (u : User) : Prop :=
  0 < env.lockoutThreshold ∧ env.lockoutThreshold ≤ u.failedLoginCount + 1 ∧ isLastActiveAdmin users u = false ∧
    0 < env.lockoutMinutes

/-- a failure that locks an active admin finds another one that is not locked -/
def SparesAnAdmin (lib : Lib) (s : Logins) (o : TimedAttempt) : Prop :=
  ∀ u, Fails lib (o.envAt s) s.users u o.attempt → LocksOut (o.envAt s) s.users u → u.activeAdmin = true →
    ∃ v ∈ s.users, v.id ≠ u.id ∧ v.activeAdmin = true ∧ isLocked (o.envAt s).now v = false

/-! ## One attempt -/

section Attempt

variable {lib : Lib} {env : Env} {users : UserTable} {u v : User} {now : DateTime}

/-- the lock a failure leaves: the old one, or one from now on -/
theorem isLocked_countFailure (hold : isLocked env.now u = false) :
    isLocked env.now (countFailure env (isLastActiveAdmin users u) u) = true ↔
      env.lockoutThreshold ≤ u.failedLoginCount + 1 ∧ isLastActiveAdmin users u = false ∧ 0 < env.lockoutMinutes := by
  have hminute : 0 < minute := by decide
  unfold countFailure
  by_cases hcount : env.lockoutThreshold ≤ u.failedLoginCount + 1
  · by_cases hlast : isLastActiveAdmin users u = true
    · simpa [hcount, hlast, isLocked] using hold
    · rw [if_pos hcount, if_neg hlast]
      simp only [isLocked, Option.any_some, decide_eq_true_eq, lt_add_iff_pos_right]
      rw [mul_pos_iff_of_pos_right hminute]
      simp [hcount, hlast]
  · rw [if_neg hcount]
    simpa [hcount, isLocked] using hold

/-- a lock that is over stays over -/
theorem isLocked_later {t : DateTime} (h : now ≤ t) (hu : isLocked now u = false) : isLocked t u = false := by
  unfold isLocked at hu ⊢
  cases hl : u.lockedUntil with
  | none => rfl
  | some l =>
    rw [hl] at hu
    simp only [Option.any_some, decide_eq_false_iff_not, not_lt] at hu ⊢
    exact hu.trans h

theorem Available.later {t : DateTime} (h : Available now users) (hle : now ≤ t) : Available t users := by
  obtain ⟨u, hu, hadmin, hfree⟩ := h
  exact ⟨u, hu, hadmin, isLocked_later hle hfree⟩

/-- a rewritten row that frees its account leaves the property -/
theorem Available.update {k : ℤ} {f : User → User} {hf : ∀ a, (f a).id = a.id} (h : Available now users)
    (hadmin : ∀ a, (f a).activeAdmin = a.activeAdmin) (hfree : ∀ a ∈ users, a.id = k → isLocked now a = false →
      isLocked now (f a) = false) : Available now (users.update k f hf) := by
  obtain ⟨u, hu, hactive, hunlocked⟩ := h
  by_cases hk : u.id = k
  · subst hk
    exact ⟨f u, Table.mem_update_self hu, (hadmin u).trans hactive, hfree u hu rfl hunlocked⟩
  · exact ⟨u, Table.mem_update_of_ne hu hk, hactive, hunlocked⟩

theorem pre2faUser_mem {session : Session} (h : pre2faUser env session users = some u) : u ∈ users := by
  obtain ⟨p, _, hu⟩ := Option.bind_eq_some_iff.1 h
  exact Table.mem_of_get? (Option.filter_eq_some_iff.1 hu).1

/-- the account whose failure an attempt is -/
theorem Fails.mem {a : Attempt} (h : Fails lib env users u a) : u ∈ users := by
  cases a with
  | password username given => exact findUser_mem h.2.1
  | code session given => exact pre2faUser_mem h.1

theorem Fails.unlocked {a : Attempt} (h : Fails lib env users u a) : isLocked env.now u = false := by
  cases a with
  | password username given => exact h.2.2.2.1
  | code session given => exact h.2.1

theorem Fails.unique {a : Attempt} (h : Fails lib env users u a) (h' : Fails lib env users v a) : u = v := by
  cases a with
  | password username given => exact Option.some.inj (h.2.1.symm.trans h'.2.1)
  | code session given => exact Option.some.inj (h.1.symm.trans h'.1)

/-- the accounts of a rewritten table that are all local -/
def AllLocal (users : UserTable) : Prop := ∀ u ∈ users, u.authSource = .localDb

theorem AllLocal.update {k : ℤ} {f : User → User} {hf : ∀ a, (f a).id = a.id} (h : AllLocal users)
    (hsource : ∀ a, (f a).authSource = a.authSource) : AllLocal (users.update k f hf) := by
  intro b hb
  obtain ⟨a, ha, rfl⟩ := Table.mem_update.1 hb
  split_ifs
  · exact (hsource a).trans (h a ha)
  · exact h a ha

/-- what a rewrite of one row at a successful login does -/
structure Clears (f : User → User) : Prop where
  admin : ∀ a, (f a).activeAdmin = a.activeAdmin
  source : ∀ a, (f a).authSource = a.authSource
  free : ∀ a, (f a).lockedUntil = none

theorem clears_clearLockout : Clears clearLockout := ⟨fun _ => rfl, fun _ => rfl, fun _ => rfl⟩

theorem clears_useFactor (factor : Factor) : Clears fun a => clearLockout (useFactor factor a) := by
  cases factor <;> exact ⟨fun _ => rfl, fun _ => rfl, fun _ => rfl⟩

/-- **One attempt.** Among local accounts an attempt counts one failure, frees one account, or changes nothing. -/
theorem apply_cases (hlocal : AllLocal users) (hoff : env.ldap.enabled = false) (a : Attempt) :
    (∃ u, Fails lib env users u a ∧ a.apply lib env users = registerFailedAttempt env u users) ∨
      (∀ u, ¬ Fails lib env users u a) ∧ (a.apply lib env users = users ∨
        ∃ k f hf, Clears f ∧ a.apply lib env users = users.update k f hf) := by
  cases a with
  | password username given =>
    simp only [Attempt.apply, authenticate]
    by_cases hempty : username = [] ∨ given = []
    · rw [if_pos hempty]
      exact Or.inr ⟨fun u h => hempty.elim h.1.1 h.1.2, Or.inl rfl⟩
    rw [if_neg hempty]
    rw [not_or] at hempty
    cases hfind : findUser users username with
    | none =>
      simp only [Option.filter_none, authenticateLdap, effectiveConfig, Option.getD_none, hoff]
      exact Or.inr ⟨fun u h => by simp [h.2.1] at hfind, Or.inl rfl⟩
    | some u =>
      have hu := hlocal u (findUser_mem hfind)
      simp only [Option.filter_some, hu, BEq.rfl, if_true, authenticateLocal]
      cases hlock : isLocked env.now u with
      | true =>
        refine Or.inr ⟨fun v h => ?_, Or.inl rfl⟩
        cases hfind.symm.trans h.2.1
        rw [h.unlocked] at hlock
        cases hlock
      | false =>
        cases hpassword : u.checkPassword lib given with
        | false => exact Or.inl ⟨u, ⟨hempty, hfind, hu, hlock, hpassword⟩, rfl⟩
        | true =>
          have hnone : ∀ v, ¬ Fails lib env users v (.password username given) := by
            intro v h
            cases hfind.symm.trans h.2.1
            rw [h.2.2.2.2] at hpassword
            cases hpassword
          cases hactive : u.isActiveUser with
          | false => exact Or.inr ⟨hnone, Or.inl rfl⟩
          | true => exact Or.inr ⟨hnone, Or.inr ⟨u.id, clearLockout, fun _ => rfl, clears_clearLockout, rfl⟩⟩
  | code session given =>
    simp only [Attempt.apply, twoFactor]
    cases hpre : pre2faUser env session users with
    | none => exact Or.inr ⟨fun u h => by simp [h.1] at hpre, Or.inl rfl⟩
    | some u =>
      simp only
      cases hlock : isLocked env.now u with
      | true =>
        refine Or.inr ⟨fun v h => ?_, Or.inl rfl⟩
        cases hpre.symm.trans h.1
        rw [h.unlocked] at hlock
        cases hlock
      | false =>
        cases hcheck : checkSecondFactor lib env u given with
        | error e =>
          refine Or.inr ⟨fun v h => ?_, Or.inl rfl⟩
          cases hpre.symm.trans h.1
          cases hcheck.symm.trans h.2.2
        | ok factor? =>
          cases factor? with
          | none => exact Or.inl ⟨u, ⟨hpre, hlock, hcheck⟩, rfl⟩
          | some factor =>
            refine Or.inr ⟨fun v h => ?_, Or.inr
              ⟨u.id, fun a => clearLockout (useFactor factor a), useFactor_id factor, clears_useFactor factor, rfl⟩⟩
            cases hpre.symm.trans h.1
            cases hcheck.symm.trans h.2.2

/-- a failure keeps an admin available, if it does not lock the last one that is -/
theorem registerFailedAttempt_available (h : Available env.now users) (hu : u ∈ users)
    (hunlocked : isLocked env.now u = false)
    (hspare : LocksOut env users u → u.activeAdmin = true →
      ∃ v ∈ users, v.id ≠ u.id ∧ v.activeAdmin = true ∧ isLocked env.now v = false) :
    Available env.now (registerFailedAttempt env u users) := by
  unfold registerFailedAttempt
  by_cases hthreshold : env.lockoutThreshold ≤ 0
  · rwa [if_pos hthreshold]
  rw [if_neg hthreshold]
  by_cases hlocks : LocksOut env users u ∧ u.activeAdmin = true
  · obtain ⟨v, hv, hne, hactive, hfree⟩ := hspare hlocks.1 hlocks.2
    exact ⟨v, Table.mem_update_of_ne hv hne, hactive, hfree⟩
  · obtain ⟨w, hw, hactive, hfree⟩ := h
    by_cases hwu : w.id = u.id
    · -- the failing account is the available one: it is not locked by this
      obtain rfl : w = u := Table.eq_of_key hw hu hwu
      refine ⟨countFailure env (isLastActiveAdmin users w) w, Table.mem_update_self hw, ?_, ?_⟩
      · rwa [countFailure_activeAdmin]
      · by_contra hlocked
        obtain ⟨hcount, hlast, hminutes⟩ := (isLocked_countFailure hunlocked).1 (by simpa using hlocked)
        exact hlocks ⟨⟨not_le.1 hthreshold, hcount, hlast, hminutes⟩, hactive⟩
    · exact ⟨w, Table.mem_update_of_ne hw hwu, hactive, hfree⟩

/-- a failure that locks an active admin while no other one is free leaves none -/
theorem not_available_registerFailedAttempt (hu : u ∈ users) (hunlocked : isLocked env.now u = false)
    (hlocks : LocksOut env users u)
      (hothers : ∀ v ∈ users, v.id ≠ u.id → v.activeAdmin = true → isLocked env.now v = true) :
    ¬ Available env.now (registerFailedAttempt env u users) := by
  rintro ⟨w, hw, hactive, hfree⟩
  rw [registerFailedAttempt, if_neg (not_le.2 hlocks.1)] at hw
  obtain ⟨v, hv, rfl⟩ := Table.mem_update.1 hw
  split_ifs at hactive hfree with hvu
  · cases Table.eq_of_key hv hu hvu
    rw [(isLocked_countFailure hunlocked).2 hlocks.2] at hfree
    cases hfree
  · rw [hothers v hv hvu hactive] at hfree
    cases hfree

end Attempt

/-! ## Runs -/

section Run

variable {lib : Lib} {s : Logins} {o : TimedAttempt}

/-- the accounts are local and an admin can log in -/
structure Serviceable (s : Logins) : Prop where
  available : Available s.clock s.users
  allLocal : AllLocal s.users

theorem Serviceable.now (h : Serviceable s) (o : TimedAttempt) : Available (o.envAt s).now s.users :=
  h.available.later (le_add_of_nonneg_right (Int.natCast_nonneg o.elapsed))

/-- what one login does to the accounts -/
theorem logIn_cases (h : Serviceable s) (o : TimedAttempt) :
    (∃ u, Fails lib (o.envAt s) s.users u o.attempt ∧
      o.attempt.apply lib (o.envAt s) s.users = registerFailedAttempt (o.envAt s) u s.users) ∨
      (∀ u, ¬ Fails lib (o.envAt s) s.users u o.attempt) ∧ (o.attempt.apply lib (o.envAt s) s.users = s.users ∨
        ∃ k f hf, Clears f ∧ o.attempt.apply lib (o.envAt s) s.users = s.users.update k f hf) :=
  @apply_cases lib (o.envAt s) s.users h.allLocal o.directoryOff o.attempt

theorem logIn_allLocal (h : Serviceable s) (o : TimedAttempt) : AllLocal (logIn lib s o).users := by
  rcases logIn_cases h o with
    ⟨u, _, heq⟩ | ⟨_, heq | ⟨k, f, hf, hclears, heq⟩⟩
  · show AllLocal (o.attempt.apply lib (o.envAt s) s.users)
    rw [heq, registerFailedAttempt]
    split_ifs
    · exact h.allLocal
    · exact h.allLocal.update fun a => countFailure_authSource _ _ a
  · show AllLocal (o.attempt.apply lib (o.envAt s) s.users)
    rw [heq]
    exact h.allLocal
  · show AllLocal (o.attempt.apply lib (o.envAt s) s.users)
    rw [heq]
    exact h.allLocal.update hclears.source

theorem Serviceable.logIn (h : Serviceable s) (hspares : SparesAnAdmin lib s o) : Serviceable (logIn lib s o) := by
  refine ⟨?_, logIn_allLocal h o⟩
  show Available (o.envAt s).now (o.attempt.apply lib (o.envAt s) s.users)
  rcases logIn_cases h o with
    ⟨u, hfails, heq⟩ | ⟨_, heq | ⟨k, f, hf, hclears, heq⟩⟩
  · rw [heq]
    exact registerFailedAttempt_available (h.now o) hfails.mem hfails.unlocked (hspares u hfails)
  · rw [heq]
    exact h.now o
  · rw [heq]
    refine (h.now o).update hclears.admin fun a _ _ _ => ?_
    rw [isLocked, hclears.free a]
    rfl

theorem not_available_logIn (h : Serviceable s) (hspares : ¬ SparesAnAdmin lib s o) :
    ¬ Available (logIn lib s o).clock (logIn lib s o).users := by
  show ¬ Available (o.envAt s).now (o.attempt.apply lib (o.envAt s) s.users)
  simp only [SparesAnAdmin, not_forall, not_exists, not_and] at hspares
  obtain ⟨u, hfails, hlocks, _, hothers⟩ := hspares
  rcases logIn_cases h o with
    ⟨v, hfails', heq⟩ | ⟨hnone, _⟩
  · obtain rfl : u = v := hfails.unique hfails'
    rw [heq]
    refine not_available_registerFailedAttempt hfails.mem hfails.unlocked hlocks fun v hv hne hactive => ?_
    simpa using hothers v hv hne hactive
  · exact absurd hfails (hnone u)

/-- **(2) An admin can always log in.** From local accounts of which an active admin is not locked, and along any run of
logins, an active admin is unlocked in every state exactly when each failure that locks one leaves another one unlocked. -/
theorem available_iff (hlocal : AllLocal s.users) (havailable : Available s.clock s.users) (ops : List TimedAttempt) :
    (∀ l, l <+: ops → Available (run (logIn lib) s l).clock (run (logIn lib) s l).users) ↔
      Meets (logIn lib) (SparesAnAdmin lib) s ops :=
  @forall_prefix_iff_meets _ _ (logIn lib) Serviceable (fun t => Available t.clock t.users) (SparesAnAdmin lib)
    (fun _ h => h.available) (fun _ _ h hC => h.logIn hC) (fun _ _ h hC => not_available_logIn h hC) s
    ⟨havailable, hlocal⟩ ops

theorem activeAdmins_logIn (h : Serviceable s) (o : TimedAttempt) :
    activeAdmins (logIn lib s o).users = activeAdmins s.users := by
  show activeAdmins (o.attempt.apply lib (o.envAt s) s.users) = activeAdmins s.users
  rcases logIn_cases h o with ⟨u, _, heq⟩ | ⟨_, heq | ⟨k, f, hf, hclears, heq⟩⟩
  · rw [heq, registerFailedAttempt]
    split_ifs
    · rfl
    · exact activeAdmins_update fun a => countFailure_activeAdmin _ _ a
  · rw [heq]
  · rw [heq]
    exact activeAdmins_update hclears.admin

/-- the only active admin is exempt from the lockout -/
theorem spares_of_sole (hsole : activeAdmins s.users ≤ 1) : SparesAnAdmin lib s o := by
  intro u _ hlocks hactive
  obtain ⟨_, _, hlast, _⟩ := hlocks
  unfold User.activeAdmin at hactive
  unfold isLastActiveAdmin at hlast
  simp only [Bool.and_eq_true] at hactive
  simp [hactive.1, hsole] at hlast

/-- **A sole active admin is never locked out**, whatever is tried. -/
theorem sole_admin_available (hlocal : AllLocal s.users) (havailable : Available s.clock s.users)
    (hsole : activeAdmins s.users ≤ 1) (ops : List TimedAttempt) :
    Available (run (logIn lib) s ops).clock (run (logIn lib) s ops).users := by
  have hrun : Serviceable (run (logIn lib) s ops) ∧ activeAdmins (run (logIn lib) s ops).users ≤ 1 := by
    refine @run_invariant _ _ (logIn lib) (fun t => Serviceable t ∧ activeAdmins t.users ≤ 1) (fun t o h => ?_) s
      ⟨⟨havailable, hlocal⟩, hsole⟩ ops
    exact ⟨h.1.logIn (spares_of_sole h.2), (activeAdmins_logIn h.1 o).trans_le h.2⟩
  exact hrun.1.available

end Run

/-- a wrong password, one second after the previous one -/
def wrongPassword (name : String) : TimedAttempt :=
  ⟨1000000, Env.at 0, .password name.toList "wrong".toList, rfl⟩

def sampleLogins : Logins := ⟨0, sampleAdmins⟩

/-- five wrong passwords for one of the two admins -/
def fiveFailures : List TimedAttempt := List.replicate 5 (wrongPassword "admin")

/-- the theorem applies to a run that locks one admin while the other one stays free -/
theorem available_iff_sample :
    (run (logIn sampleLib) sampleLogins fiveFailures).users.rows.map
        (isLocked (run (logIn sampleLib) sampleLogins fiveFailures).clock) = [true, false] ∧
      Meets (logIn sampleLib) (SparesAnAdmin sampleLib) sampleLogins fiveFailures := by
  refine ⟨by decide +kernel, ?_⟩
  refine (@available_iff sampleLib sampleLogins (show ∀ u ∈ sampleAdmins, u.authSource = .localDb by decide)
    (show ∃ u ∈ sampleAdmins, u.activeAdmin = true ∧ isLocked 0 u = false by decide) fiveFailures).1 fun l hl => ?_
  have hfree : ∀ l ∈ fiveFailures.inits, ∃ u ∈ (run (logIn sampleLib) sampleLogins l).users.rows,
      u.activeAdmin = true ∧ isLocked (run (logIn sampleLib) sampleLogins l).clock u = false := by decide +kernel
  exact hfree l ((List.mem_inits _ _).2 hl)

/-- five wrong passwords for each of the two admins -/
def tenFailures : List TimedAttempt := List.replicate 5 (wrongPassword "admin") ++ List.replicate 5 (wrongPassword "second")

/-- **(3)** Both admins start unlocked, and ten seconds later both are locked. -/
theorem two_admins_locked :
    (∀ u ∈ sampleLogins.users, u.authSource = .localDb ∧ u.activeAdmin = true ∧ isLocked sampleLogins.clock u = false) ∧
      ¬ Available (run (logIn sampleLib) sampleLogins tenFailures).clock
        (run (logIn sampleLib) sampleLogins tenFailures).users := by
  refine ⟨show ∀ u ∈ sampleAdmins, u.authSource = .localDb ∧ u.activeAdmin = true ∧ isLocked 0 u = false by decide, ?_⟩
  rintro ⟨u, hu, _, hfree⟩
  have hlocked : (run (logIn sampleLib) sampleLogins tenFailures).users.rows.all
      (isLocked (run (logIn sampleLib) sampleLogins tenFailures).clock) = true := by decide +kernel
  rw [List.all_eq_true.1 hlocked u hu] at hfree
  cases hfree

end Chancery.Auth
