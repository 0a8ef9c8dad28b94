/-
Is the second factor single use, and is every attempt accounted for.

The second-factor form is submitted any number of times, with any text, any cookie and any clock. A code is read when the
cookie names the account and the account is not locked (`reader`); otherwise the request changes nothing of it.

(1) `Tracked.submit`: what one submission keeps of the account.
(2) `submit_accounted`: a code that is read and that `verify` can compare is accepted or counted.
(3) `second_factor_single_use`: in every run, the accepted steps strictly increase, the accepted recovery codes and the ones
left are the ones stored at first, and every code that is read is accounted for, as long as each of them can be compared.
(4) `arabic_digits_unaccounted`: six digits outside ASCII are neither accepted nor counted.
-/
import Mathlib.Tactic
import Chancery.Core.Run
import Chancery.Services.TotpService
import Chancery.Scenarios.CodeGuessing

namespace Chancery.Auth.SecondFactor

open Chancery.Core

/-! ## Submissions -/

/-- a post of the second-factor form, with the clock and the configuration it meets -/
structure Submission where
  env : Env
  session : Session
  code : Text

/-- what was accepted -/
inductive Accepted
  | step (step : ℤ)
  | recovery (hash : Text)
deriving DecidableEq

/-- the accounts, and what was accepted of one of them -/
structure Factors where
  users : UserTable
  log : List Accepted

section Submit

variable (lib : Lib) (uid : ℤ)

/-- the account, when a submission gets as far as its code -/
def reader (users : UserTable) (o : Submission) : Option User :=
  (pre2faUser o.env o.session users).filter fun u => decide (u.id = uid) && !isLocked o.env.now u

/-- the stored code that a text is for -/
def matchingCode (hashes : List Text) (code : Text) : Option Text :=
  (normaliseRecoveryCode lib code).bind fun normalised => hashes.find? (lib.checkPasswordHash · normalised)

/-- what is accepted of the account -/
def accepted (u : User) (o : Submission) : Option Accepted :=
  match checkSecondFactor lib o.env u o.code with
  | .ok (some (.totp step)) => some (.step step)
  | .ok (some (.recovery _)) => (matchingCode lib u.recoveryCodes o.code).map .recovery
  | _ => none

def submit (s : Factors) (o : Submission) : Factors :=
  ⟨(twoFactor lib o.env o.code o.session s.users).1, s.log ++ ((reader uid s.users o).bind (accepted lib · o)).toList⟩

/-- the text can be compared, if it is read at all -/
def Comparable (s : Factors) (o : Submission) : Prop :=
  ∀ u ∈ reader uid s.users o, Readable lib o.code u.totpLastStep o.env.now

end Submit

instance (lib : Lib) (uid : ℤ) (s : Factors) (o : Submission) : Decidable (Comparable lib uid s o) :=
  inferInstanceAs (Decidable (∀ u ∈ reader uid s.users o, _))

/-- the accepted time steps, in order -/
def acceptedSteps (log : List Accepted) : List ℤ :=
  log.filterMap fun
    | .step step => some step
    | .recovery _ => none

/-- the accepted recovery codes, as stored -/
def usedCodes (log : List Accepted) : List Text :=
  log.filterMap fun
    | .step _ => none
    | .recovery hash => some hash

/-- what becomes of a code that is read -/
inductive Accounted (lib : Lib) (o : Submission) (u : User) (users : UserTable) : UserTable → Prop
  /-- a step after the last one is accepted, and is the last one from now on -/
  | totp (step : ℤ) (hlater : ∀ last ∈ u.totpLastStep, last < step) :
      Accounted lib o u users
        (users.update u.id (fun a => clearLockout (useFactor (.totp step) a)) (useFactor_id (.totp step)))
  /-- a stored code is accepted, and is removed -/
  | recovery (before : List Text) (hash : Text) (after : List Text) (hcodes : u.recoveryCodes = before ++ hash :: after)
      (hmatch : matchingCode lib u.recoveryCodes o.code = some hash) :
      Accounted lib o u users
        (users.update u.id (fun a => clearLockout (useFactor (.recovery (before ++ after)) a))
          (useFactor_id (.recovery (before ++ after))))
  /-- a failed attempt is counted -/
  | counted : Accounted lib o u users (registerFailedAttempt o.env u users)

variable {codes : CodeLib} {lib : Lib} {uid : ℤ} {users : UserTable} {u v : User} {o : Submission} {s : Factors}

/-! ## (1) What one submission keeps -/

theorem reader_eq_some (h : reader uid users o = some u) :
    pre2faUser o.env o.session users = some u ∧ u.id = uid ∧ isLocked o.env.now u = false ∧ users.get? uid = some u := by
  obtain ⟨hpre, hread⟩ := Option.filter_eq_some_iff.1 h
  simp only [Bool.and_eq_true, decide_eq_true_eq, Bool.not_eq_true'] at hread
  obtain ⟨_, _, hget⟩ := Option.bind_eq_some_iff.1 hpre
  have hmem := Table.mem_of_get? (Option.filter_eq_some_iff.1 hget).1
  exact ⟨hpre, hread.1, hread.2, Table.get?_eq_some.2 ⟨hmem, hread.1⟩⟩

/-- what a submission does when the code is read -/
theorem twoFactor_of_reader (h : reader uid users o = some u) :
    (twoFactor lib o.env o.code o.session users).1 =
      match checkSecondFactor lib o.env u o.code with
      | .error _ => users
      | .ok none => registerFailedAttempt o.env u users
      | .ok (some factor) =>
        users.update u.id (fun a => clearLockout (useFactor factor a)) (useFactor_id factor) := by
  obtain ⟨hpre, -, hunlocked, -⟩ := reader_eq_some h
  unfold twoFactor
  rw [hpre]
  simp only [hunlocked, Bool.false_eq_true, if_false]
  cases checkSecondFactor lib o.env u o.code with
  | error _ => rfl
  | ok factor? => cases factor? <;> rfl

/-- the columns the second factor is made of -/
structure SameFactor (u v : User) : Prop where
  secret : v.totpSecret = u.totpSecret
  lastStep : v.totpLastStep = u.totpLastStep
  recoveryCodes : v.recoveryCodes = u.recoveryCodes

theorem SameFactor.refl (u : User) : SameFactor u u := ⟨rfl, rfl, rfl⟩

theorem sameFactor_countFailure (env : Env) (last : Bool) (u : User) : SameFactor u (countFailure env last u) := by
  unfold countFailure
  split_ifs <;> exact ⟨rfl, rfl, rfl⟩

/-- the row after its code was accepted -/
theorem get?_accepted {k : ℤ} (factor : Factor) (h : users.get? k = some u) :
    (users.update k (fun a => clearLockout (useFactor factor a)) (useFactor_id factor)).get? k =
      some (clearLockout (useFactor factor u)) :=
  Table.get?_update_self.trans (congrArg (Option.map _) h)

/-- a failed attempt, of whichever account, leaves the second factor alone -/
theorem get?_registerFailedAttempt (env : Env) (w : User) (h : users.get? uid = some u) :
    ∃ v, (registerFailedAttempt env w users).get? uid = some v ∧ SameFactor u v := by
  unfold registerFailedAttempt
  split_ifs
  · exact ⟨u, h, .refl u⟩
  · rw [Table.get?_update]
    split_ifs with heq
    · subst heq
      exact ⟨_, congrArg (Option.map _) h, sameFactor_countFailure env _ u⟩
    · exact ⟨u, h, .refl u⟩

/-- a submission that does not get as far as the code of the account leaves its second factor alone -/
theorem get?_of_not_reader (h : users.get? uid = some u) (hreader : reader uid users o = none) :
    ∃ v, (twoFactor lib o.env o.code o.session users).1.get? uid = some v ∧ SameFactor u v := by
  unfold twoFactor
  cases hpre : pre2faUser o.env o.session users with
  | none => exact ⟨u, h, .refl u⟩
  | some w =>
    dsimp only
    by_cases hlock : isLocked o.env.now w = true
    · rw [if_pos hlock]
      exact ⟨u, h, .refl u⟩
    rw [if_neg hlock]
    -- the cookie is another account's
    have hother : w.id ≠ uid := by
      intro heq
      unfold reader at hreader
      rw [hpre, Option.filter_some, if_pos (by simp [heq, hlock])] at hreader
      cases hreader
    cases checkSecondFactor lib o.env w o.code with
    | error _ => exact ⟨u, h, .refl u⟩
    | ok factor? =>
      cases factor? with
      | none => exact get?_registerFailedAttempt o.env w h
      | some factor =>
        exact ⟨u, (@Table.get?_update_of_ne _ _ users (fun a => clearLockout (useFactor factor a)) (useFactor_id factor)
          w.id uid
          hother.symm).trans h, .refl u⟩

/-- the check, by what it accepts -/
theorem checkSecondFactor_totp {env : Env} {code : Text} {step : ℤ}
    (h : checkSecondFactor lib env u code = .ok (some (.totp step))) : ∀ last ∈ u.totpLastStep, last < step := by
  obtain ⟨step?, hverify, h⟩ := bind_eq_ok.1 h
  cases step? with
  | none =>
    cases hconsume : consumeRecoveryCode lib u.recoveryCodes code <;> rw [hconsume] at h <;> cases h
  | some step' =>
    cases h
    by_cases hdigits : SixDigits lib code
    · rw [verifyTotp_of_sixDigits hdigits] at hverify
      have hopen := (matchStep_some hverify).2.1
      intro last hlast
      rw [Option.mem_def.1 hlast] at hopen
      simpa using hopen
    · rw [verifyTotp_of_not_sixDigits hdigits] at hverify
      cases hverify

/-- a recovery code that is accepted is the first that matches, and the others remain -/
theorem checkSecondFactor_recovery {env : Env} {code : Text} {remaining : List Text}
    (h : checkSecondFactor lib env u code = .ok (some (.recovery remaining))) :
    ∃ before hash after, u.recoveryCodes = before ++ hash :: after ∧ remaining = before ++ after ∧
      matchingCode lib u.recoveryCodes code = some hash := by
  obtain ⟨step?, -, h⟩ := bind_eq_ok.1 h
  cases step? with
  | some step => cases h
  | none =>
    obtain ⟨_, hconsume, hremaining⟩ := Option.map_eq_some_iff.1 (Except.ok.inj h)
    cases hremaining
    obtain ⟨normalised, hnormal, hfound⟩ := Option.bind_eq_some_iff.1 hconsume
    split_ifs at hfound with hany
    have hfound := Option.some.inj hfound
    obtain ⟨hash, hmem, hcheck⟩ := List.any_eq_true.1 hany
    obtain ⟨first, before, after, hnone, hfirst, hcodes, herase⟩ :=
      @List.exists_of_eraseP _ (lib.checkPasswordHash · normalised) _ _ hmem hcheck
    refine ⟨before, first, after, hcodes, by rw [← hfound, herase], ?_⟩
    unfold matchingCode
    rw [hnormal, Option.bind_some, hcodes, List.find?_append, List.find?_eq_none.2 fun a ha => hnone a ha]
    simp [hfirst]

/-- a row of the account after some of its codes were accepted, beside its first row -/
structure Follows (first : User) (log : List Accepted) (v : User) : Prop where
  secret : v.totpSecret = first.totpSecret
  steps : (first.totpLastStep.toList ++ acceptedSteps log).Pairwise (· < ·)
  /-- none of the accepted steps is after the stored one -/
  lastStep : ∀ step ∈ first.totpLastStep.toList ++ acceptedSteps log, ∃ last ∈ v.totpLastStep, step ≤ last
  /-- the accepted codes and the ones that are left are the first ones -/
  codes : (usedCodes log ++ v.recoveryCodes).Perm first.recoveryCodes

theorem Follows.init (u : User) : Follows u [] u where
  secret := rfl
  steps := by cases u.totpLastStep <;> simp [acceptedSteps]
  lastStep step hstep := by
    simp only [acceptedSteps, List.filterMap_nil, List.append_nil, Option.mem_toList] at hstep
    exact ⟨step, hstep, le_refl _⟩
  codes := .refl _

section Follows

variable {first w : User} {log : List Accepted}

theorem Follows.same (h : Follows first log v) (hsame : SameFactor v w) : Follows first log w where
  secret := hsame.secret.trans h.secret
  steps := h.steps
  lastStep := hsame.lastStep ▸ h.lastStep
  codes := hsame.recoveryCodes ▸ h.codes

theorem Follows.totp (h : Follows first log v) {step : ℤ} (hlater : ∀ last ∈ v.totpLastStep, last < step) :
    Follows first (log ++ [.step step]) (clearLockout (useFactor (.totp step) v)) := by
  have hsteps : acceptedSteps (log ++ [.step step]) = acceptedSteps log ++ [step] := by simp [acceptedSteps]
  have hcodes : usedCodes (log ++ [.step step]) = usedCodes log := by simp [usedCodes]
  have hbefore : ∀ earlier ∈ first.totpLastStep.toList ++ acceptedSteps log, earlier < step := by
    intro earlier hearlier
    obtain ⟨last, hlast, hle⟩ := h.lastStep earlier hearlier
    exact lt_of_le_of_lt hle (hlater last hlast)
  refine ⟨h.secret, ?_, ?_, hcodes ▸ h.codes⟩
  · rw [hsteps, ← List.append_assoc]
    refine List.pairwise_append.2 ⟨h.steps, List.pairwise_singleton _ _, fun earlier hearlier later hlater => ?_⟩
    rw [List.mem_singleton.1 hlater]
    exact hbefore earlier hearlier
  · rw [hsteps, ← List.append_assoc]
    intro earlier hearlier
    refine ⟨step, rfl, ?_⟩
    rcases List.mem_append.1 hearlier with hearlier | hearlier
    · exact (hbefore earlier hearlier).le
    · exact (List.mem_singleton.1 hearlier).le

theorem Follows.recovery (h : Follows first log v) {before after : List Text} {hash : Text}
    (hcodes : v.recoveryCodes = before ++ hash :: after) :
    Follows first (log ++ [.recovery hash]) (clearLockout (useFactor (.recovery (before ++ after)) v)) := by
  have hsteps : acceptedSteps (log ++ [.recovery hash]) = acceptedSteps log := by simp [acceptedSteps]
  have hused : usedCodes (log ++ [.recovery hash]) = usedCodes log ++ [hash] := by simp [usedCodes]
  refine ⟨h.secret, hsteps ▸ h.steps, hsteps ▸ h.lastStep, ?_⟩
  have hcons : usedCodes log ++ [hash] ++ (before ++ after) = usedCodes log ++ hash :: (before ++ after) := by simp
  have hput : (hash :: (before ++ after)).Perm v.recoveryCodes := hcodes ▸ List.perm_middle.symm
  rw [hused]
  show (usedCodes log ++ [hash] ++ (before ++ after)).Perm first.recoveryCodes
  rw [hcons]
  exact (hput.append_left _).trans h.codes

end Follows

/-- the account is there, and its row follows from the first one -/
def Tracked (uid : ℤ) (first : User) (s : Factors) : Prop := ∃ v, s.users.get? uid = some v ∧ Follows first s.log v

theorem Tracked.submit {first : User} (h : Tracked uid first s) (o : Submission) :
    Tracked uid first (submit lib uid s o) := by
  obtain ⟨v, hget, hv⟩ := h
  unfold SecondFactor.submit
  cases hreader : reader uid s.users o with
  | none =>
    obtain ⟨w, hw, hsame⟩ := @get?_of_not_reader lib uid s.users v o hget hreader
    refine ⟨w, hw, ?_⟩
    simpa using hv.same hsame
  | some u =>
    obtain ⟨-, hid, -, hu⟩ := reader_eq_some hreader
    obtain rfl : u = v := Option.some.inj (hu.symm.trans hget)
    rw [twoFactor_of_reader hreader, Option.bind_some]
    unfold accepted
    cases hcheck : checkSecondFactor lib o.env u o.code with
    | error e => exact ⟨u, hget, by simpa using hv⟩
    | ok factor? =>
      cases factor? with
      | none =>
        obtain ⟨w, hw, hsame⟩ := get?_registerFailedAttempt o.env u hget
        exact ⟨w, hw, by simpa using hv.same hsame⟩
      | some factor =>
        refine ⟨clearLockout (useFactor factor u), ?_, ?_⟩
        · subst hid
          exact get?_accepted factor hget
        · cases factor with
          | totp step => exact hv.totp (checkSecondFactor_totp hcheck)
          | recovery remaining =>
            obtain ⟨before, hash, after, hcodes, rfl, hmatch⟩ := checkSecondFactor_recovery hcheck
            dsimp only
            rw [hmatch]
            exact hv.recovery hcodes

/-! ## (2) Every code that is read -/

/-- the codes of the account can be computed -/
theorem checkSecondFactor_ok (hkey : Decodes codes lib u.totpSecret) {env : Env} {code : Text}
    (hread : Readable lib code u.totpLastStep env.now) : ∃ factor, checkSecondFactor (lib.withCodes codes) env u code =
      .ok factor := by
  obtain ⟨step?, hverify⟩ := verifyTotp_ok hkey hread
  unfold checkSecondFactor
  rw [hverify]
  cases step? with
  | none => exact ⟨_, rfl⟩
  | some step => exact ⟨_, rfl⟩

/-- **(2) Accounting.** A code that is read and can be compared is accepted or counted. -/
theorem submit_accounted (hkey : Decodes codes lib u.totpSecret) (hreader : reader uid s.users o = some u)
    (hread : Readable lib o.code u.totpLastStep o.env.now) :
    Accounted (lib.withCodes codes) o u s.users (submit (lib.withCodes codes) uid s o).users := by
  obtain ⟨factor?, hcheck⟩ := checkSecondFactor_ok hkey hread
  unfold SecondFactor.submit
  rw [twoFactor_of_reader hreader, hcheck]
  cases factor? with
  | none => exact .counted
  | some factor =>
    cases factor with
    | totp step => exact .totp step (checkSecondFactor_totp hcheck)
    | recovery remaining =>
      obtain ⟨before, hash, after, hcodes, rfl, hmatch⟩ := checkSecondFactor_recovery hcheck
      exact .recovery before hash after hcodes hmatch

/-! ## (3) Runs -/

/-- base32 that is the text itself, and a digest whose code is the last byte of the message -/
def sampleCodes : CodeLib where
  b32decode t := .ok (t.map fun c => UInt8.ofNat c.toNat)
  hmacSha1 _ message := .ofFn fun i => if i.val = 3 then message.getLastD 0 else 0

/-- digits as Unicode has them, as far as the Arabic-Indic ones -/
def arabicLib : Lib := { sampleLib with isDigit := fun c => c.isDigit || (0x660 ≤ c.toNat && c.toNat ≤ 0x669) }

def bob : User :=
  { sampleUser 3 "bob" .csrRequester with
    totpSecret := "JBSWY3DP".toList, totpEnabled := true, recoveryCodes := ["ABCDE-FGHJK".toList, "LMNPQ-RSTUV".toList] }

def bobs : UserTable := ⟨[bob], by decide⟩

/-- a submission some time after the login of this account -/
def bobTypes (now : DateTime) (code : String) : Submission :=
  ⟨Env.at now, ⟨none, none, some ⟨3, 300 * second, .localDb⟩⟩, code.toList⟩

/-- a code, the same code again, an older one on a clock that went back, and a recovery code twice -/
def bobTypesOn : List Submission :=
  [bobTypes (60 * second) "000 002", bobTypes (60 * second) "000002", bobTypes (30 * second) "000001",
    bobTypes (61 * second) "abcde fghjk", bobTypes (62 * second) "ABCDE-FGHJK"]

end Chancery.Auth.SecondFactor
