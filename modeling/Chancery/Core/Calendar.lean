/-
Dates: the day number of a date, and `datetime.strptime` for dates.

(1) `daysFromCivil_civilFromDays`: the day number of the date of a day is that day, so `civil` tells any two times apart.
(2) `strptimeDate`: the formats it takes are those of `%Y-%m-%d`. A digit of the year or the second digit of a day may be
any decimal digit of Unicode, whose table is a parameter.
(3) `addDays_eq_ok`: a datetime plus a number of days, unless the sum is out of range.

Nothing here knows the repository.
-/
import Mathlib.Tactic
import Chancery.Core.Py

namespace Chancery.Core

/-! ## (1) Day numbers -/

def isLeap (year : ℤ) : Bool := year % 4 = 0 ∧ (year % 100 ≠ 0 ∨ year % 400 = 0)

def daysInMonth (year month : ℤ) : ℤ :=
  if month = 2 then (if isLeap year then 29 else 28)
  else if month = 4 ∨ month = 6 ∨ month = 9 ∨ month = 11 then 30
  else 31

/-- the day number of a date, counted from 1970-01-01 -/
def daysFromCivil (year month dom : ℤ) : ℤ :=
  let y := if month ≤ 2 then year - 1 else year
  let mp := if month ≤ 2 then month + 9 else month - 3
  let yoe := y % 400
  let doy := (153 * mp + 2) / 5 + dom - 1
  y / 400 * 146097 + (365 * yoe + yoe / 4 - yoe / 100 + doy) - 719468

example : daysFromCivil 1970 1 1 = 0 ∧ daysFromCivil 2024 2 29 = 19782 := by decide

section DayOfEra

variable {doe yoe : ℤ} (hzero : 0 ≤ doe) (hdoe : doe < 146097)
  (hyoe : yoe = (doe - doe / 1460 + doe / 36524 - doe / 146096) / 365)
include hzero hdoe hyoe

theorem yoe_bounds : 0 ≤ yoe ∧ yoe < 400 := by
  constructor <;> omega

theorem doy_bounds : 0 ≤ doe - (365 * yoe + yoe / 4 - yoe / 100) ∧ doe - (365 * yoe + yoe / 4 - yoe / 100) ≤ 365 := by
  obtain ⟨century, hcentury⟩ : ∃ century, century = doe / 36524 := ⟨_, rfl⟩
  have hlow : 0 ≤ century := by omega
  have hhigh : century ≤ 4 := by omega
  have hhundred : yoe / 100 = century ∨ doe = 146096 := by omega
  rw [← hcentury] at hyoe
  rcases hhundred with h | h
  · rw [h]
    interval_cases century <;> constructor <;> omega
  · subst h
    omega

end DayOfEra

/-- the year counted from March, and the day in it -/
theorem civilFromDays_spec (n : ℤ) : ∃ era yoe doy : ℤ, (0 ≤ yoe ∧ yoe < 400) ∧ (0 ≤ doy ∧ doy ≤ 365) ∧
    n + 719468 = era * 146097 + (365 * yoe + yoe / 4 - yoe / 100 + doy) ∧
    civilFromDays n =
      if (5 * doy + 2) / 153 < 10 then
        (yoe + era * 400, (5 * doy + 2) / 153 + 3, doy - (153 * ((5 * doy + 2) / 153) + 2) / 5 + 1)
      else (yoe + era * 400 + 1, (5 * doy + 2) / 153 - 9, doy - (153 * ((5 * doy + 2) / 153) + 2) / 5 + 1) := by
  have hzero : 0 ≤ (n + 719468) % 146097 := Int.emod_nonneg _ (by decide)
  have hdoe : (n + 719468) % 146097 < 146097 := Int.emod_lt_of_pos _ (by decide)
  have hn := Int.mul_ediv_add_emod (n + 719468) 146097
  have hdoy := doy_bounds hzero hdoe rfl
  refine ⟨(n + 719468) / 146097, _, _, yoe_bounds hzero hdoe rfl, hdoy, by omega, ?_⟩
  unfold civilFromDays
  dsimp only
  generalize (n + 719468) % 146097 - _ = doy at *
  by_cases h : (5 * doy + 2) / 153 < 10
  · have hmonth : ¬ (5 * doy + 2) / 153 + 3 ≤ 2 := by omega
    simp only [if_pos h, if_neg hmonth, add_zero]
  · have hmonth : (5 * doy + 2) / 153 - 9 ≤ 2 := by omega
    simp only [if_neg h, if_pos hmonth]

/-- **Inverse.** The date of a day has that day's number. -/
theorem daysFromCivil_civilFromDays (n : ℤ) :
    daysFromCivil (civilFromDays n).1 (civilFromDays n).2.1 (civilFromDays n).2.2 = n := by
  obtain ⟨era, yoe, doy, hyoe, hdoy, hn, hcivil⟩ := civilFromDays_spec n
  have hera : (yoe + era * 400) / 400 = era := by omega
  have hmod : (yoe + era * 400) % 400 = yoe := by omega
  rw [hcivil]
  by_cases h : (5 * doy + 2) / 153 < 10
  · have hmonth : ¬ (5 * doy + 2) / 153 + 3 ≤ 2 := by omega
    simp only [if_pos h, daysFromCivil, if_neg hmonth, hera, hmod]
    omega
  · have hmonth : (5 * doy + 2) / 153 - 9 ≤ 2 := by omega
    simp only [if_neg h, daysFromCivil, if_pos hmonth, add_sub_cancel_right, hera, hmod]
    omega

theorem civilFromDays_injective : Function.Injective civilFromDays := by
  intro m n h
  rw [← daysFromCivil_civilFromDays m, ← daysFromCivil_civilFromDays n, h]

/-! ## (2) Reading dates -/

/-- a digit between two others -/
def digitIn (low high : Char) (c : Char) : Option ℤ := if low ≤ c ∧ c ≤ high then some (c.toNat - 48) else none

section Strptime

variable (decimal : Char → Option ℕ)

/-- `int` of four decimal digits -/
def yearOf : Text → Option ℤ
  | [a, b, c, d] => do
    let (a, b, c, d) := (← decimal a, ← decimal b, ← decimal c, ← decimal d)
    pure (1000 * a + 100 * b + 10 * c + d)
  | _ => none

/-- `1[0-2]|0[1-9]|[1-9]` -/
def monthOf : Text → Option ℤ
  | [c] => digitIn '1' '9' c
  | ['1', c] => (digitIn '0' '2' c).map (10 + ·)
  | ['0', c] => digitIn '1' '9' c
  | _ => none

/-- `3[0-1]|[1-2]\d|0[1-9]|[1-9]| [1-9]` -/
def domOf : Text → Option ℤ
  | [c] => digitIn '1' '9' c
  | ['3', c] => (digitIn '0' '1' c).map (30 + ·)
  | ['2', c] => (decimal c).map fun n => 20 + (n : ℤ)
  | ['1', c] => (decimal c).map fun n => 10 + (n : ℤ)
  | ['0', c] => digitIn '1' '9' c
  | [' ', c] => digitIn '1' '9' c
  | _ => none

/-- `datetime.strptime(raw, "%Y-%m-%d")`, none for a `ValueError` -/
def strptimeDate (raw : Text) : Option DateTime :=
  match splitOn '-' raw with
  | [y, m, d] => do
    let (year, month, dom) := (← yearOf decimal y, ← monthOf m, ← domOf decimal d)
    if 1 ≤ year ∧ dom ≤ daysInMonth year month then pure (daysFromCivil year month dom * day) else none
  | _ => none

end Strptime

/-! ## (3) Adding days -/

/-- `datetime.min` -/
def dateTimeMin : DateTime := daysFromCivil 1 1 1 * day

/-- `datetime.max` -/
def dateTimeMax : DateTime := (daysFromCivil 9999 12 31 + 1) * day - 1

/-- `t + timedelta(days=n)` -/
def addDays (t : DateTime) (n : ℤ) : Except PyError DateTime :=
  if |n| ≤ 999999999 ∧ dateTimeMin ≤ t + n * day ∧ t + n * day ≤ dateTimeMax then .ok (t + n * day)
  else .error (.other "OverflowError")

theorem addDays_eq_ok {t u : DateTime} {n : ℤ} : addDays t n = .ok u ↔
    u = t + n * day ∧ |n| ≤ 999999999 ∧ dateTimeMin ≤ t + n * day ∧ t + n * day ≤ dateTimeMax := by
  unfold addDays
  split_ifs with h
  · exact ⟨fun heq => ⟨(Except.ok.inj heq).symm, h⟩, fun heq => congrArg Except.ok heq.1.symm⟩
  · exact ⟨fun heq => (nomatch heq), fun heq => absurd heq.2 h⟩

end Chancery.Core
