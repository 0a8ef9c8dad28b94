/-
The one-time codes of the second factor (`hotp` of app/services/totp_service.py): RFC 4226 over HMAC-SHA1.

The login model leaves the codes open (`Lib.hotp`); this module puts the code's own computation there. Base32 and the HMAC
are parameters.
-/
import Mathlib.Tactic
import Chancery.Routes.Auth

namespace Chancery.Auth

open Chancery.Core

/-! ## One-time codes -/

/-- the code outside the repository that the codes rest on -/
structure CodeLib where
  /-- `base64.b32decode` with `casefold=True` -/
  b32decode : Text → Except PyError (List UInt8)
  /-- the HMAC-SHA1 of a message under a key -/
  hmacSha1 : List UInt8 → List UInt8 → Vector UInt8 20

/-- `_key` -/
def codeKey (codes : CodeLib) (unicode : Unicode) (secret : Text) : Except PyError (List UInt8) :=
  let padded := unicode.upper ((strip secret).filter (· != ' '))
  codes.b32decode (padded ++ List.replicate ((8 - padded.length % 8) % 8) '=')

/-- `struct.pack(">Q", …)` takes these -/
def Packable (counter : ℤ) : Prop := 0 ≤ counter ∧ counter < 2 ^ 64

instance (counter : ℤ) : Decidable (Packable counter) := inferInstanceAs (Decidable (_ ∧ _))

/-- `struct.pack(">Q", …)` -/
def pack (counter : ℤ) : Except PyError (List UInt8) :=
  if Packable counter then .ok ((List.range 8).map fun i => UInt8.ofNat (counter.toNat / 256 ^ (7 - i)))
  else .error (.other "struct.error")

/-- `struct.unpack(">I", …)` -/
def unpack (bytes : List UInt8) : ℕ := bytes.foldl (fun acc b => 256 * acc + b.toNat) 0

/-- `str(…).zfill(…)` -/
def zfill (width n : ℕ) : Text := List.replicate (width - (Nat.toDigits 10 n).length) '0' ++ Nat.toDigits 10 n

/-- `DIGITS` -/
def codeDigits : ℕ := 6

/-- the number in a digest, from the place its last four bits name -/
def truncate (digest : Vector UInt8 20) : ℕ :=
  let offset := digest[19].toNat &&& 0x0F
  unpack ((digest.toList.drop offset).take 4) &&& 0x7FFFFFFF

/-- `hotp` -/
def hotp (codes : CodeLib) (unicode : Unicode) (secret : Text) (counter : ℤ) : Except PyError Text := do
  let key ← codeKey codes unicode secret
  let message ← pack counter
  .ok (zfill codeDigits (truncate (codes.hmacSha1 key message) % 10 ^ codeDigits))

/-- the login model over these codes -/
def Lib.withCodes (lib : Lib) (codes : CodeLib) : Lib := { lib with hotp := Auth.hotp codes lib.unicode }

/-- the secret of an account gives a key -/
def Decodes (codes : CodeLib) (lib : Lib) (secret : Text) : Prop := ∃ key, codeKey codes lib.unicode secret = .ok key

variable {codes : CodeLib} {lib : Lib} {secret code : Text} {lastStep : Option ℤ} {counter : ℤ}

theorem hotp_ok (hkey : Decodes codes lib secret) (hcounter : Packable counter) :
    ∃ expected, (lib.withCodes codes).hotp secret counter = .ok expected := by
  obtain ⟨key, hkey⟩ := hkey
  refine ⟨_, bind_eq_ok.2 ⟨key, hkey, bind_eq_ok.2 ⟨_, if_pos hcounter, rfl⟩⟩⟩

theorem hotp_error (hkey : Decodes codes lib secret) (hcounter : ¬ Packable counter) :
    (lib.withCodes codes).hotp secret counter = .error (.other "struct.error") := by
  obtain ⟨key, hkey⟩ := hkey
  show hotp codes lib.unicode secret counter = _
  simp [hotp, hkey, pack, hcounter, bind, Except.bind]

/-- a code was made of the secret: it decodes -/
theorem decodes_of_hotp {expected : Text} (h : (lib.withCodes codes).hotp secret counter = .ok expected) :
    Decodes codes lib secret := by
  obtain ⟨key, hkey, -⟩ := bind_eq_ok.1 h
  exact ⟨key, hkey⟩

/-! ## What `verify` reads -/

/-- the submitted text as `verify` compares it -/
def typedCode (code : Text) : Text := (strip code).filter (· != ' ')

/-- `isdigit()`, and of the length of a code -/
def SixDigits (lib : Lib) (code : Text) : Prop := (typedCode code).all lib.isDigit = true ∧ (typedCode code).length =
    codeDigits

instance (lib : Lib) (code : Text) : Decidable (SixDigits lib code) := inferInstanceAs (Decidable (_ ∧ _))

/-- the steps that a code may still be for -/
def openSteps (lastStep : Option ℤ) (now : DateTime) : List ℤ := (candidateSteps now).filter fun c => !lastStep.any (c ≤ ·)

/-- nothing in the way of the comparison: the text is ASCII, and the step is one that can be packed -/
def Readable (lib : Lib) (code : Text) (lastStep : Option ℤ) (now : DateTime) : Prop :=
  SixDigits lib code → ∀ candidate ∈ openSteps lastStep now, isAscii (typedCode code) = true ∧ Packable candidate

instance (lib : Lib) (code : Text) (lastStep : Option ℤ) (now : DateTime) : Decidable (Readable lib code lastStep now) :=
  inferInstanceAs (Decidable (_ → _))

theorem verifyTotp_of_sixDigits {now : DateTime} (h : SixDigits lib code) :
    verifyTotp lib secret code lastStep now = matchStep lib secret lastStep (typedCode code) (candidateSteps now) := by
  refine if_neg ?_
  rintro (hall | hlength)
  · exact absurd h.1 (by simpa [typedCode] using hall)
  · exact hlength h.2

theorem verifyTotp_of_not_sixDigits {now : DateTime} (h : ¬ SixDigits lib code) :
    verifyTotp lib secret code lastStep now = .ok none := by
  refine if_pos ?_
  by_contra hnot
  rw [not_or, not_not, Bool.not_eq_true, Bool.not_eq_false'] at hnot
  exact h hnot

/-- the steps that are not open are passed over -/
theorem matchStep_filter (steps : List ℤ) :
    matchStep lib secret lastStep code steps =
      matchStep lib secret lastStep code (steps.filter fun c => !lastStep.any (c ≤ ·)) := by
  induction steps with
  | nil => rfl
  | cons c steps ih =>
    by_cases hclosed : lastStep.any (c ≤ ·) = true
    · rw [List.filter_cons_of_neg (by simp [hclosed]), ← ih]
      exact if_pos hclosed
    · rw [List.filter_cons_of_pos (by simp [hclosed])]
      unfold matchStep
      rw [if_neg hclosed, if_neg hclosed, ih]

/-- a step that matches is open, and is one of those looked at -/
theorem matchStep_some {steps : List ℤ} {step : ℤ} (h : matchStep lib secret lastStep code steps = .ok (some step)) :
    step ∈ steps ∧ lastStep.any (step ≤ ·) = false ∧ lib.hotp secret step = .ok code := by
  induction steps with
  | nil => cases h
  | cons c steps ih =>
    unfold matchStep at h
    by_cases hclosed : lastStep.any (c ≤ ·) = true
    · rw [if_pos hclosed] at h
      exact ⟨List.mem_cons_of_mem _ (ih h).1, (ih h).2⟩
    · rw [if_neg hclosed] at h
      obtain ⟨expected, hexpected, h⟩ := bind_eq_ok.1 h
      split_ifs at h with hascii heq
      · cases h
        rw [heq] at hexpected
        exact ⟨List.mem_cons_self, by simpa using hclosed, hexpected⟩
      · exact ⟨List.mem_cons_of_mem _ (ih h).1, (ih h).2⟩

/-- the comparison goes through every step that is in order -/
theorem matchStep_ok (hkey : Decodes codes lib secret) {steps : List ℤ}
    (hsteps : ∀ c ∈ steps, lastStep.any (c ≤ ·) = false → isAscii code = true ∧ Packable c) :
    ∃ step, matchStep (lib.withCodes codes) secret lastStep code steps = .ok step := by
  induction steps with
  | nil => exact ⟨none, rfl⟩
  | cons c steps ih =>
    have hrest := ih fun c hc => hsteps c (List.mem_cons_of_mem _ hc)
    unfold matchStep
    by_cases hclosed : lastStep.any (c ≤ ·) = true
    · rw [if_pos hclosed]
      exact hrest
    · obtain ⟨hascii, hpack⟩ := hsteps c List.mem_cons_self (by simpa using hclosed)
      obtain ⟨expected, hexpected⟩ := hotp_ok hkey hpack
      rw [if_neg hclosed, hexpected]
      by_cases heq : expected = code
      · exact ⟨some c, by simp [bind, Except.bind, hascii, heq]⟩
      · simpa [bind, Except.bind, hascii, heq] using hrest

/-- the first open step decides about text outside ASCII and about a clock before 1970 -/
theorem matchStep_error (hkey : Decodes codes lib secret) {c : ℤ} {steps : List ℤ} (hopen : lastStep.any (c ≤ ·) = false)
    (hbad : isAscii code = false ∨ ¬ Packable c) :
    ∃ e, matchStep (lib.withCodes codes) secret lastStep code (c :: steps) = .error e := by
  unfold matchStep
  rw [if_neg (by simp [hopen])]
  by_cases hpack : Packable c
  · obtain ⟨expected, hexpected⟩ := hotp_ok hkey hpack
    have hascii : isAscii code = false := hbad.resolve_right (not_not.2 hpack)
    rw [hexpected]
    exact ⟨.other "TypeError", by simp [bind, Except.bind, hascii]⟩
  · rw [hotp_error hkey hpack]
    exact ⟨_, rfl⟩

/-! ## When `verify` raises -/

theorem verifyTotp_ok (hkey : Decodes codes lib secret) {now : DateTime} (hread : Readable lib code lastStep now) :
    ∃ step, verifyTotp (lib.withCodes codes) secret code lastStep now = .ok step := by
  by_cases hdigits : SixDigits lib code
  · have hsteps := hread hdigits
    rw [@verifyTotp_of_sixDigits (lib.withCodes codes) secret code lastStep now hdigits]
    refine matchStep_ok hkey fun c hc hopen => hsteps c ?_
    exact List.mem_filter.2 ⟨hc, by simp [hopen]⟩
  · exact ⟨none, @verifyTotp_of_not_sixDigits (lib.withCodes codes) secret code lastStep now hdigits⟩

/-- **Exactness.** `verify` raises exactly for the texts that are not readable, on a clock whose steps can be packed in
eight bytes. -/
theorem verifyTotp_raises_iff (hkey : Decodes codes lib secret) {now : DateTime} (hclock : currentStep now + 1 < 2 ^ 64) :
    (∃ e, verifyTotp (lib.withCodes codes) secret code lastStep now = .error e) ↔ ¬ Readable lib code lastStep now := by
  constructor
  · rintro ⟨e, herror⟩ hread
    obtain ⟨step, hok⟩ := verifyTotp_ok hkey hread
    rw [herror] at hok
    cases hok
  · intro hnot
    unfold Readable at hnot
    push Not at hnot
    obtain ⟨hdigits, c, hc, hbad⟩ := hnot
    rw [@verifyTotp_of_sixDigits (lib.withCodes codes) secret code lastStep now hdigits, matchStep_filter]
    show ∃ e, matchStep _ _ _ _ (openSteps lastStep now) = .error e
    have hcandidates : (candidateSteps now).Pairwise (· ≤ ·) := by
      simp [candidateSteps]
      omega
    have hsorted : (openSteps lastStep now).Pairwise (· ≤ ·) := hcandidates.filter _
    have hle : ∀ d ∈ openSteps lastStep now, d < 2 ^ 64 := by
      intro d hd
      have hmem := (List.mem_filter.1 hd).1
      simp only [candidateSteps, List.mem_cons, List.not_mem_nil, or_false] at hmem
      omega
    have hopen : ∀ d ∈ openSteps lastStep now, lastStep.any (d ≤ ·) = false := by
      intro d hd
      simpa using (List.mem_filter.1 hd).2
    generalize openSteps lastStep now = steps at hc hsorted hle hopen
    cases steps with
    | nil => cases hc
    | cons first rest =>
      refine matchStep_error hkey (hopen first List.mem_cons_self) ?_
      by_cases hascii : isAscii (typedCode code) = true
      · -- the clock is early: the first open step is earlier still
        refine .inr fun hpack => hbad hascii ⟨?_, hle c hc⟩
        rcases List.mem_cons.1 hc with rfl | hc
        · exact hpack.1
        · exact le_trans hpack.1 ((List.pairwise_cons.1 hsorted).1 c hc)
      · exact .inl (by simpa using hascii)

/-- the secret of an enrolment decodes: a code of it was accepted -/
theorem decodes_of_verifyTotp {now : DateTime} {step : ℤ}
    (h : verifyTotp (lib.withCodes codes) secret code lastStep now = .ok (some step)) : Decodes codes lib secret := by
  by_cases hdigits : SixDigits (lib.withCodes codes) code
  · rw [verifyTotp_of_sixDigits hdigits] at h
    exact decodes_of_hotp (matchStep_some h).2.2
  · rw [verifyTotp_of_not_sixDigits hdigits] at h
    cases h

end Chancery.Auth
