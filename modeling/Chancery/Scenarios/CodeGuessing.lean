/-
How many second-factor codes can someone try who knows the password?

The password step and the code step share one counter of failures, and an accepted password clears it. So a password between
the codes lets the attacker try codes without end.

(1) `Counted.guess`: one request keeps the codes rejected so far below the counter, unless it is an accepted password
after a rejected code.
(2) `rejected_lt_threshold`: in every run without such a password, fewer codes are rejected than the threshold since the
last completed login, unlock or lockout.
(3) `password_resets_code_guesses`: five rejected codes with the password before each of them, and no lockout.
-/
import Mathlib.Tactic
import Chancery.Core.Run
import Chancery.Routes.Auth

namespace Chancery.Auth

open Chancery.Core

/-! ## Requests for one account -/

structure Guessing where
  clock : DateTime
  users : UserTable
  /-- codes rejected since the last completed login, unlock or lockout of the account -/
  rejected : ℤ

inductive Guess
  /-- the login form -/
  | password (given : Text)
  /-- the second-factor form, with the cookie it comes with -/
  | code (session : Session) (given : Text)
  /-- an admin clears the lock -/
  | unlock

/-- a request, some time after the previous one -/
structure TimedGuess where
  elapsed : ℕ
  guess : Guess

section Guessing

variable (lib : Lib) (env : Env) (ldap : Option LdapConfig) (uid : ℤ) (username : Text)

/-- the configuration at the time of a request -/
def envAt (s : Guessing) (o : TimedGuess) : Env := { env with now := s.clock + o.elapsed }

/-- what a request leaves of the accounts -/
def guessUsers (env : Env) (users : UserTable) (g : Guess) : UserTable :=
  match g with
  | .password given => (login lib env ldap username given Session.empty users).1
  | .code session given => (twoFactor lib env given session users).1
  | .unlock => users.update uid clearLockout clearLockout_id

/-- what the code of a request gets, when it is checked -/
def codeVerdict (env : Env) (users : UserTable) (session : Session) (given : Text) : Option (Option Factor) :=
  (((pre2faUser env session users).filter (·.id = uid)).filter fun u => !isLocked env.now u).bind fun u =>
    (checkSecondFactor lib env u given).toOption

/-- is the account locked -/
def lockedNow (now : DateTime) (users : UserTable) : Bool := (users.get? uid).any (isLocked now)

/-- the ghost counter, as the request moves it -/
def rejectedBy (env : Env) (users : UserTable) (rejected : ℤ) : Guess → ℤ
  | .password _ => rejected
  | .code session given =>
    match codeVerdict lib uid env users session given with
    | none => rejected
    | some none => rejected + 1
    | some (some _) => 0
  | .unlock => 0

/-- the ghost counter after a request: a new lock ends the count -/
def rejectedAfter (env : Env) (before after : UserTable) (rejected : ℤ) (g : Guess) : ℤ :=
  if lockedNow uid env.now after && !lockedNow uid env.now before then 0 else rejectedBy lib uid env before rejected g

def guess (s : Guessing) (o : TimedGuess) : Guessing :=
  let users := guessUsers lib ldap uid username (envAt env s o) s.users o.guess
  ⟨s.clock + o.elapsed, users, rejectedAfter lib uid (envAt env s o) s.users users s.rejected o.guess⟩

/-- no password is accepted while codes have been rejected -/
def NoReset (s : Guessing) (o : TimedGuess) : Prop :=
  ∀ given u, o.guess = .password given → findUser s.users (strip username) = some u →
    isLocked (envAt env s o).now u = false → u.checkPassword lib given = true → u.isActiveUser = true → s.rejected = 0

/-- the account: local, not exempt as the last active admin -/
structure Target (users : UserTable) (u : User) : Prop where
  found : findUser users (strip username) = some u
  id : u.id = uid
  isLocal : u.authSource = .localDb
  notLast : isLastActiveAdmin users u = false

/-- the rejected codes are in the counter of failures, and below the threshold -/
def InCounter (rejected : ℤ) (u : User) : Prop :=
  0 ≤ rejected ∧ rejected ≤ u.failedLoginCount ∧ rejected < env.lockoutThreshold

def Counted (s : Guessing) : Prop := ∃ u, Target uid username s.users u ∧ InCounter env s.rejected u

end Guessing

/-! ## One request -/

/-- the rewrites of a login leave these columns -/
structure KeepsAccount (f : User → User) : Prop where
  id : ∀ a, (f a).id = a.id
  username : ∀ a, (f a).username = a.username
  role : ∀ a, (f a).role = a.role
  activeAdmin : ∀ a, (f a).activeAdmin = a.activeAdmin
  source : ∀ a, (f a).authSource = a.authSource

theorem keepsAccount_countFailure (env : Env) (last : Bool) : KeepsAccount (countFailure env last) :=
  ⟨countFailure_id env last, countFailure_username env last, countFailure_role env last,
    countFailure_activeAdmin env last, countFailure_authSource env last⟩

theorem keepsAccount_clearLockout : KeepsAccount clearLockout :=
  ⟨fun _ => rfl, fun _ => rfl, fun _ => rfl, fun _ => rfl, fun _ => rfl⟩

theorem keepsAccount_useFactor (factor : Factor) : KeepsAccount fun a => clearLockout (useFactor factor a) := by
  cases factor <;> exact ⟨fun _ => rfl, fun _ => rfl, fun _ => rfl, fun _ => rfl, fun _ => rfl⟩

section One

variable {lib : Lib} {env : Env} {ldap : Option LdapConfig} {uid : ℤ} {username : Text} {users : UserTable} {u v : User}
  {k : ℤ} {f : User → User} {hf : ∀ a, (f a).id = a.id}

theorem Target.mem (h : Target uid username users u) : u ∈ users := findUser_mem h.found

theorem Target.get? (h : Target uid username users u) : users.get? uid = some u := by
  rw [← h.id]
  exact Table.get?_key h.mem

/-- the account after a rewrite of some row -/
theorem Target.update (h : Target uid username users u) (hkeeps : KeepsAccount f) :
    Target uid username (users.update k f hf) (if u.id = k then f u else u) := by
  have hlast : ∀ a, a.role = u.role → isLastActiveAdmin (users.update k f hf) a = isLastActiveAdmin users u := by
    intro a ha
    rw [isLastActiveAdmin, isLastActiveAdmin, activeAdmins_update hkeeps.activeAdmin, ha]
  refine ⟨?_, ?_, ?_, ?_⟩
  · rw [findUser_update hkeeps.username, h.found]
    rfl
  · split_ifs
    · rw [hf, h.id]
    · exact h.id
  · split_ifs
    · rw [hkeeps.source, h.isLocal]
    · exact h.isLocal
  · rw [hlast, h.notLast]
    split_ifs
    · exact hkeeps.role u
    · rfl

theorem lockedNow_target {now : DateTime} (h : Target uid username users u) : lockedNow uid now users = isLocked now u := by
  rw [lockedNow, h.get?]
  rfl

/-- a failure of the account locks it, or counts -/
theorem Target.failure (h : Target uid username users u) (hunlocked : isLocked env.now u = false)
    (hthreshold : 0 < env.lockoutThreshold) (hminutes : 0 < env.lockoutMinutes) :
    ∃ u', Target uid username (registerFailedAttempt env u users) u' ∧
      ((isLocked env.now u' = true ∧ u'.failedLoginCount = 0) ∨
        (isLocked env.now u' = false ∧ u'.failedLoginCount = u.failedLoginCount + 1 ∧
          u.failedLoginCount + 1 < env.lockoutThreshold)) := by
  have hupdate := @Target.update uid username users u u.id _ (countFailure_id env (isLastActiveAdmin users u)) h
    (keepsAccount_countFailure env (isLastActiveAdmin users u))
  rw [if_pos rfl] at hupdate
  rw [registerFailedAttempt, if_neg (not_le.2 hthreshold)]
  refine ⟨_, hupdate, ?_⟩
  rw [h.notLast, countFailure]
  by_cases hcount : env.lockoutThreshold ≤ u.failedLoginCount + 1
  · refine Or.inl ?_
    rw [if_pos hcount]
    refine ⟨?_, rfl⟩
    simp only [Bool.false_eq_true, if_false, isLocked, Option.any_some, decide_eq_true_eq, lt_add_iff_pos_right]
    exact mul_pos hminutes (by decide)
  · rw [if_neg hcount]
    exact Or.inr ⟨hunlocked, rfl, not_le.1 hcount⟩

/-- a failure of another account leaves this one -/
theorem Target.failure_other (h : Target uid username users u) (hne : u.id ≠ v.id) :
    Target uid username (registerFailedAttempt env v users) u := by
  unfold registerFailedAttempt
  split_ifs
  · exact h
  · have hupdate := @Target.update uid username users u v.id _ (countFailure_id env (isLastActiveAdmin users v)) h
      (keepsAccount_countFailure env (isLastActiveAdmin users v))
    rwa [if_neg hne] at hupdate

/-- a rewrite of another account leaves this one -/
theorem Target.update_other (h : Target uid username users u) (hkeeps : KeepsAccount f) (hne : u.id ≠ k) :
    Target uid username (users.update k f hf) u := by
  have hupdate := @Target.update uid username users u k f hf h hkeeps
  rwa [if_neg hne] at hupdate

theorem Target.update_self (h : Target uid username users u) (hkeeps : KeepsAccount f) (heq : u.id = k) :
    Target uid username (users.update k f hf) (f u) := by
  have hupdate := @Target.update uid username users u k f hf h hkeeps
  rwa [if_pos heq] at hupdate

/-! ## What a request does -/

/-- the outcome of a request for the account `u` -/
inductive Outcome (lib : Lib) (env : Env) (uid : ℤ) (username : Text) (users : UserTable) (u : User) (g : Guess) :
    UserTable → Prop
  /-- nothing is checked, or nothing is counted -/
  | same (hcode : ∀ session given, g = .code session given → codeVerdict lib uid env users session given = none)
      (hunlock : g ≠ .unlock) : Outcome lib env uid username users u g users
  | wrongPassword (given : Text) (hg : g = .password given) (hunlocked : isLocked env.now u = false) :
      Outcome lib env uid username users u g (registerFailedAttempt env u users)
  | wrongCode (session : Session) (given : Text) (hg : g = .code session given) (hunlocked : isLocked env.now u = false)
      (hverdict : codeVerdict lib uid env users session given = some none) :
      Outcome lib env uid username users u g (registerFailedAttempt env u users)
  | otherFailure (v : User) (hne : u.id ≠ v.id) (session : Session) (given : Text) (hg : g = .code session given)
      (hverdict : codeVerdict lib uid env users session given = none) :
      Outcome lib env uid username users u g (registerFailedAttempt env v users)
  | rightPassword (given : Text) (hg : g = .password given) (hunlocked : isLocked env.now u = false)
      (hpassword : u.checkPassword lib given = true) (hactive : u.isActiveUser = true) :
      Outcome lib env uid username users u g (users.update u.id clearLockout clearLockout_id)
  | rightCode (factor : Factor) (session : Session) (given : Text) (hg : g = .code session given)
      (hverdict : codeVerdict lib uid env users session given = some (some factor)) :
      Outcome lib env uid username users u g
        (users.update u.id (fun a => clearLockout (useFactor factor a)) (useFactor_id factor))
  | otherCode (v : User) (hne : u.id ≠ v.id) (factor : Factor) (session : Session) (given : Text)
      (hg : g = .code session given)
      (hverdict : codeVerdict lib uid env users session given = none) :
      Outcome lib env uid username users u g
        (users.update v.id (fun a => clearLockout (useFactor factor a)) (useFactor_id factor))
  | unlocked (hg : g = .unlock) : Outcome lib env uid username users u g (users.update uid clearLockout clearLockout_id)

theorem outcome_password (h : Target uid username users u) (given : Text) :
    Outcome lib env uid username users u (.password given)
      (guessUsers lib ldap uid username env users (.password given)) := by
  have hsame : Outcome lib env uid username users u (.password given) users :=
    .same (fun _ _ hg => nomatch hg) (fun hg => nomatch hg)
  show Outcome lib env uid username users u _ (login lib env ldap username given Session.empty users).1
  by_cases hempty : strip username = [] ∨ given = []
  · have hrefused : authenticate lib env ldap (strip username) given users =
        (⟨none, some .invalidCredentials, .localDb⟩, users) := by rw [authenticate, if_pos hempty]
    rw [login_users (by rw [hrefused]), hrefused]
    exact hsame
  have hlocal := @authenticate_local lib env ldap _ given users u hempty h.found h.isLocal
  rw [login_users (by rw [hlocal, authenticateLocal_method]), hlocal, authenticateLocal]
  by_cases hlock : isLocked env.now u = true
  · rw [if_pos hlock]
    exact hsame
  rw [if_neg hlock]
  by_cases hpassword : u.checkPassword lib given = true
  · rw [if_neg (by simp [hpassword])]
    by_cases hactive : u.isActiveUser = true
    · rw [if_neg (by simp [hactive])]
      exact .rightPassword given rfl (by simpa using hlock) hpassword hactive
    · rw [if_pos (by simp [hactive])]
      exact hsame
  · rw [if_pos (by simp [hpassword])]
    exact .wrongPassword given rfl (by simpa using hlock)

theorem outcome_code (h : Target uid username users u) (session : Session) (given : Text) :
    Outcome lib env uid username users u (.code session given)
      (guessUsers lib ldap uid username env users (.code session given)) := by
  show Outcome lib env uid username users u _ (twoFactor lib env given session users).1
  have hsame : codeVerdict lib uid env users session given = none →
      Outcome lib env uid username users u (.code session given) users :=
    fun hverdict => .same (fun _ _ hg => by cases hg; exact hverdict) (fun hg => nomatch hg)
  unfold twoFactor
  cases hpre : pre2faUser env session users with
  | none => exact hsame (by simp [codeVerdict, hpre])
  | some v =>
    simp only
    by_cases hlock : isLocked env.now v = true
    · rw [if_pos hlock]
      refine hsame ?_
      simp only [codeVerdict, hpre, Option.filter_some]
      split_ifs <;> simp [Option.filter_some, hlock]
    rw [if_neg hlock]
    have hv : v ∈ users := by
      obtain ⟨_, _, hv⟩ := Option.bind_eq_some_iff.1 hpre
      exact Table.mem_of_get? (Option.filter_eq_some_iff.1 hv).1
    by_cases hself : v.id = uid
    · obtain rfl : v = u := Table.eq_of_key hv h.mem (hself.trans h.id.symm)
      have hverdict : codeVerdict lib uid env users session given = (checkSecondFactor lib env v given).toOption := by
        simp [codeVerdict, hpre, Option.filter_some, hself, hlock]
      cases hcheck : checkSecondFactor lib env v given with
      | error e => exact hsame (by rw [hverdict, hcheck]; rfl)
      | ok factor? =>
        rw [hcheck] at hverdict
        cases factor? with
        | none => exact .wrongCode session given rfl (by simpa using hlock) hverdict
        | some factor => exact .rightCode factor session given rfl hverdict
    · have hne : u.id ≠ v.id := fun heq => hself (heq.symm.trans h.id)
      have hverdict : codeVerdict lib uid env users session given = none := by
        simp [codeVerdict, hpre, Option.filter_some, hself]
      cases checkSecondFactor lib env v given with
      | error e => exact hsame hverdict
      | ok factor? =>
        cases factor? with
        | none => exact .otherFailure v hne session given rfl hverdict
        | some factor => exact .otherCode v hne factor session given rfl hverdict

/-- **Outcomes.** What one request for the account does to the accounts. -/
theorem guess_outcome (h : Target uid username users u) (g : Guess) :
    Outcome lib env uid username users u g (guessUsers lib ldap uid username env users g) := by
  cases g with
  | password given => exact outcome_password h given
  | code session given => exact outcome_code h session given
  | unlock => exact .unlocked rfl

end One

/-! ## Runs -/

section Run

variable {lib : Lib} {env : Env} {ldap : Option LdapConfig} {uid : ℤ} {username : Text} {users users' : UserTable}
  {u u' : User} {rejected : ℤ} {g : Guess}

/-- no new lock: the ghost counter follows the request -/
theorem rejectedAfter_same (hu : Target uid username users u) (hu' : Target uid username users' u')
    (h : isLocked env.now u' = isLocked env.now u ∨ isLocked env.now u' = false) :
    rejectedAfter lib uid env users users' rejected g = rejectedBy lib uid env users rejected g := by
  rw [rejectedAfter, lockedNow_target hu, lockedNow_target hu', if_neg]
  rcases h with heq | hfalse
  · simp [heq]
  · simp [hfalse]

/-- a new lock ends the count -/
theorem rejectedAfter_locked (hu : Target uid username users u) (hu' : Target uid username users' u')
    (h : isLocked env.now u = false) (h' : isLocked env.now u' = true) :
    rejectedAfter lib uid env users users' rejected g = 0 := by
  rw [rejectedAfter, lockedNow_target hu, lockedNow_target hu', if_pos]
  simp [h, h']

/-- a failure, of which at most one code more is rejected -/
theorem InCounter.failure (h : InCounter env rejected u) (hu : Target uid username users u)
    (hunlocked : isLocked env.now u = false) (hthreshold : 0 < env.lockoutThreshold) (hminutes : 0 < env.lockoutMinutes)
    (hby : rejectedBy lib uid env users rejected g = rejected ∨ rejectedBy lib uid env users rejected g = rejected + 1) :
    ∃ u', Target uid username (registerFailedAttempt env u users) u' ∧
      InCounter env (rejectedAfter lib uid env users (registerFailedAttempt env u users) rejected g) u' := by
  obtain ⟨h0, hle, hrejected⟩ := h
  obtain ⟨u', hu', ⟨hlocked, hcount⟩ | ⟨hfree, hcount, hlt⟩⟩ := hu.failure hunlocked hthreshold hminutes
  · refine ⟨u', hu', ?_⟩
    rw [rejectedAfter_locked hu hu' hunlocked hlocked]
    exact ⟨le_rfl, hcount.ge, hthreshold⟩
  · refine ⟨u', hu', ?_⟩
    rw [rejectedAfter_same hu hu' (Or.inr hfree)]
    unfold InCounter
    rcases hby with heq | heq <;> rw [heq, hcount] <;> omega

/-- a row that is left alone, or cleared -/
theorem InCounter.quiet (h : InCounter env rejected u) (hu : Target uid username users u)
    (hu' : Target uid username users' u')
    (hlock : isLocked env.now u' = isLocked env.now u ∨ isLocked env.now u' = false)
    (hby : rejectedBy lib uid env users rejected g = rejected ∧ u' = u ∨
      rejectedBy lib uid env users rejected g = 0 ∧ u'.failedLoginCount = 0) (hthreshold : 0 < env.lockoutThreshold) :
    ∃ u', Target uid username users' u' ∧ InCounter env (rejectedAfter lib uid env users users' rejected g) u' := by
  refine ⟨u', hu', ?_⟩
  rw [rejectedAfter_same hu hu' hlock]
  rcases hby with ⟨heq, rfl⟩ | ⟨heq, hcount⟩
  · rwa [heq]
  · rw [heq]
    exact ⟨le_rfl, hcount.ge, hthreshold⟩

/-- **One outcome.** -/
theorem Outcome.inCounter (hout : Outcome lib env uid username users u g users') (hu : Target uid username users u)
    (h : InCounter env rejected u) (hthreshold : 0 < env.lockoutThreshold) (hminutes : 0 < env.lockoutMinutes)
    (hreset : ∀ given, g = .password given → isLocked env.now u = false → u.checkPassword lib given = true →
      u.isActiveUser = true → rejected = 0) :
    ∃ u', Target uid username users' u' ∧ InCounter env (rejectedAfter lib uid env users users' rejected g) u' := by
  cases hout with
  | same hcode hunlock =>
    refine h.quiet hu hu (Or.inl rfl) (Or.inl ⟨?_, rfl⟩) hthreshold
    cases g with
    | password given => rfl
    | code session given => rw [rejectedBy, hcode session given rfl]
    | unlock => exact absurd rfl hunlock
  | wrongPassword given hg hunlocked =>
    subst hg
    exact h.failure hu hunlocked hthreshold hminutes (Or.inl rfl)
  | wrongCode session given hg hunlocked hverdict =>
    subst hg
    refine h.failure hu hunlocked hthreshold hminutes (Or.inr ?_)
    rw [rejectedBy, hverdict]
  | otherFailure v hne session given hg hverdict =>
    subst hg
    refine h.quiet hu (hu.failure_other hne) (Or.inl rfl) (Or.inl ⟨?_, rfl⟩) hthreshold
    rw [rejectedBy, hverdict]
  | rightPassword given hg hunlocked hpassword hactive =>
    subst hg
    have hzero := hreset given rfl hunlocked hpassword hactive
    exact h.quiet hu (hu.update_self keepsAccount_clearLockout rfl) (Or.inr rfl) (Or.inr ⟨hzero, rfl⟩) hthreshold
  | rightCode factor session given hg hverdict =>
    subst hg
    refine h.quiet hu (hu.update_self (keepsAccount_useFactor factor) rfl) (Or.inr rfl) (Or.inr ⟨?_, rfl⟩) hthreshold
    rw [rejectedBy, hverdict]
  | otherCode v hne factor session given hg hverdict =>
    subst hg
    refine h.quiet hu (hu.update_other (keepsAccount_useFactor factor) hne) (Or.inl rfl) (Or.inl ⟨?_, rfl⟩) hthreshold
    rw [rejectedBy, hverdict]
  | unlocked hg =>
    subst hg
    exact h.quiet hu (hu.update_self keepsAccount_clearLockout hu.id) (Or.inr rfl) (Or.inr ⟨rfl, rfl⟩) hthreshold

variable {s : Guessing} {o : TimedGuess}

/-- **(1) One request** without an accepted password after a rejected code. -/
theorem Counted.guess (hthreshold : 0 < env.lockoutThreshold) (hminutes : 0 < env.lockoutMinutes)
    (h : Counted env uid username s) (hC : NoReset lib env username s o) :
    Counted env uid username (guess lib env ldap uid username s o) := by
  obtain ⟨u, hu, hcounter⟩ := h
  have hout := @guess_outcome lib (envAt env s o) ldap uid username s.users u hu o.guess
  exact hout.inCounter hu hcounter hthreshold hminutes fun given hg hfree hpassword hactive =>
    hC given u hg hu.found hfree hpassword hactive

/-- **(2) Rejected codes lead to a lockout.** For a local account that is not exempt as the last active admin, and along any
run in which no password is accepted after a rejected code: fewer codes are rejected than the threshold since the last
completed login, unlock or lockout. -/
theorem rejected_lt_threshold (hthreshold : 0 < env.lockoutThreshold) (hminutes : 0 < env.lockoutMinutes) {u : User}
    (hu : Target uid username s.users u) (hcount : 0 ≤ u.failedLoginCount) (hstart : s.rejected = 0)
    {ops : List TimedGuess} (hC : Meets (guess lib env ldap uid username) (NoReset lib env username) s ops) :
    ∀ l, l <+: ops → (run (guess lib env ldap uid username) s l).rejected < env.lockoutThreshold := by
  rintro l ⟨m, rfl⟩
  have hcounted : Counted env uid username s := ⟨u, hu, hstart.ge, hstart.trans_le hcount, hstart.trans_lt hthreshold⟩
  obtain ⟨u', _, _, _, hlt⟩ := run_invariant_of_meets (fun t o hco ht => Counted.guess hthreshold hminutes ht hco)
    hcounted (meets_append.1 hC).1
  exact hlt

end Run

/-- an account with a second factor, beside the two admins -/
def alice : User := { sampleUser 3 "alice" .csrRequester with totpSecret := "123456".toList, totpEnabled := true }

def sampleGuessing : Guessing where
  clock := 0
  users := ⟨[sampleUser 1 "admin" .admin, sampleUser 2 "second" .admin, alice], by decide⟩
  rejected := 0

/-- the cookie of a login of this account at time 0 -/
def aliceCookie : Session := ⟨none, none, some ⟨3, 300 * second, .localDb⟩⟩

def rightPassword : TimedGuess := ⟨1, .password "alice".toList⟩

def wrongCode : TimedGuess := ⟨1, .code aliceCookie "000000".toList⟩

theorem target_alice : Target 3 "alice".toList sampleGuessing.users alice where
  found := by decide
  id := rfl
  isLocal := rfl
  notLast := by decide

theorem noReset_wrongCode (s : Guessing) : NoReset sampleLib (Env.at 0) "alice".toList s wrongCode :=
  fun _ _ hg => nomatch hg

/-- the password, and five wrong codes -/
def lockingGuesses : List TimedGuess := rightPassword :: List.replicate 5 wrongCode

/-- the theorem applies to a run that counts four rejected codes and locks the account at the fifth -/
theorem rejected_lt_threshold_sample :
    (run (guess sampleLib (Env.at 0) none 3 "alice".toList) sampleGuessing (lockingGuesses.take 5)).rejected = 4 ∧
      lockedNow 3 (run (guess sampleLib (Env.at 0) none 3 "alice".toList) sampleGuessing lockingGuesses).clock
        (run (guess sampleLib (Env.at 0) none 3 "alice".toList) sampleGuessing lockingGuesses).users = true ∧
      ∀ l, l <+: lockingGuesses →
        (run (guess sampleLib (Env.at 0) none 3 "alice".toList) sampleGuessing l).rejected < 5 :=
  ⟨by decide +kernel, by decide +kernel, rejected_lt_threshold (by decide) (by decide) target_alice (by decide) rfl
    ⟨fun _ _ _ _ _ _ _ => rfl, noReset_wrongCode _, noReset_wrongCode _, noReset_wrongCode _, noReset_wrongCode _,
      noReset_wrongCode _, trivial⟩⟩

/-- the password before each of five wrong codes -/
def resetGuesses : List TimedGuess := (List.replicate 5 [rightPassword, wrongCode]).flatten

/-- **(3)** The login hands the cookie out, five codes are rejected, and the account is not locked. -/
theorem password_resets_code_guesses :
    (login sampleLib (Env.at 0) none "alice".toList "alice".toList Session.empty sampleGuessing.users).2 = aliceCookie ∧
      (run (guess sampleLib (Env.at 0) none 3 "alice".toList) sampleGuessing resetGuesses).rejected = 5 ∧
      lockedNow 3 (run (guess sampleLib (Env.at 0) none 3 "alice".toList) sampleGuessing resetGuesses).clock
        (run (guess sampleLib (Env.at 0) none 3 "alice".toList) sampleGuessing resetGuesses).users = false := by
  decide +kernel

end Chancery.Auth
