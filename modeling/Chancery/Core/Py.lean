/-
The parts of Python the services lean on: exceptions, `str` methods, hexadecimal numbers, naive UTC datetimes.

Text is a list of characters where the code looks at characters (`strip`, `lower`, `rstrip`), and an opaque `String`
elsewhere. `str.lower` follows Unicode's case tables, which are a parameter (`Unicode`): what is fixed is that ASCII text
is lowered letter by letter. A datetime is its number of microseconds since 1970-01-01T00:00:00.
Nothing here knows the repository.
-/
import Mathlib.Tactic
import Mathlib.Data.List.DropRight

namespace Chancery.Core

/-! ## Exceptions -/

/-- the exceptions the modelled code can raise; `UnicodeEncodeError` is a subclass of `ValueError` -/
inductive PyError
  | valueError (message : String)
  | unicodeEncodeError
  | attributeError
  | typeError (message : String)
  | keyError (key : String)
  | other (name : String)
deriving DecidableEq, Repr

namespace PyError

/-- would `except ValueError` catch it -/
def isValueError : PyError → Bool
  | valueError _ => true
  | unicodeEncodeError => true
  | _ => false

end PyError

/-- `str(exc)` -/
def PyError.text : PyError → String
  | .valueError m => m
  | .typeError m => m
  | .keyError k => "'" ++ k ++ "'"
  | .unicodeEncodeError => "'ascii' codec can't encode characters"
  | .attributeError => "object has no attribute"
  | .other name => name

/-- `x` with a failure of the first computation passed on -/
theorem bind_eq_ok {ε : Type*} {α β : Type} {x : Except ε α} {f : α → Except ε β} {b : β} :
    (x >>= f) = .ok b ↔ ∃ a, x = .ok a ∧ f a = .ok b := by
  cases x with
  | error e =>
    constructor
    · intro h; cases h
    · rintro ⟨a, h, _⟩; cases h
  | ok a =>
    constructor
    · intro h; exact ⟨a, rfl, h⟩
    · rintro ⟨a', h, hf⟩; cases h; exact hf

theorem map_eq_ok {ε : Type*} {α β : Type} {x : Except ε α} {f : α → β} {b : β} :
    x.map f = .ok b ↔ ∃ a, x = .ok a ∧ f a = b := by
  cases x with
  | error e => simp [Except.map]
  | ok a => simp [Except.map]

/-! ## Text -/

abbrev Text := List Char

/-- one instance, for the places that look a text up in a list -/
instance : LawfulBEq Text := inferInstance

def isAsciiChar (c : Char) : Bool := c.toNat < 128

def isAscii (t : Text) : Bool := t.all isAsciiChar

/-- the characters `str.strip()` removes -/
def isSpace (c : Char) : Bool :=
  let n := c.toNat
  (9 ≤ n && n ≤ 13) || (28 ≤ n && n ≤ 32) || n == 0x85 || n == 0xa0 || n == 0x1680 || (0x2000 ≤ n && n ≤ 0x200a) ||
    n == 0x2028 || n == 0x2029 || n == 0x202f || n == 0x205f || n == 0x3000

/-- `str.strip()` -/
def strip (t : Text) : Text := (t.dropWhile isSpace).rdropWhile isSpace

/-- trailing whitespace may go first -/
theorem strip_rdropWhile (t : Text) : strip (t.rdropWhile isSpace) = strip t := by
  induction t using List.reverseRecOn with
  | nil => rfl
  | append_singleton l x ih =>
    by_cases hx : isSpace x = true
    · rw [List.rdropWhile_concat_pos _ _ _ hx, ih]
      unfold strip
      rw [List.dropWhile_append]
      by_cases hl : (l.dropWhile isSpace).isEmpty = true
      · simp [List.isEmpty_iff.1 hl, hx]
      · rw [if_neg hl, List.rdropWhile_concat_pos _ _ _ hx]
    · rw [List.rdropWhile_concat_neg _ _ _ hx]

theorem strip_strip (t : Text) : strip (strip t) = strip t := by
  have h := strip_rdropWhile (t.dropWhile isSpace)
  unfold strip at h ⊢
  rw [h, List.dropWhile_idempotent]

/-- text that starts with something that is not stripped only loses whitespace at its end -/
theorem strip_append {c : Char} {head t : Text} (hc : isSpace c = false)
    (hlast : ∀ d ∈ (c :: head).getLast?, isSpace d = false) :
    strip (c :: head ++ t) = c :: head ++ t.rdropWhile isSpace := by
  have hdrop : (c :: head ++ t).dropWhile isSpace = c :: head ++ t := by simp [hc]
  unfold strip
  rw [hdrop]
  induction t using List.reverseRecOn with
  | nil =>
    rw [List.rdropWhile_nil, List.append_nil, List.rdropWhile_eq_self_iff]
    intro hl
    simpa using hlast _ (List.getLast?_eq_some_getLast hl)
  | append_singleton l x ih =>
    rw [← List.append_assoc]
    by_cases hx : isSpace x = true
    · rw [List.rdropWhile_concat_pos _ _ _ hx, List.rdropWhile_concat_pos _ _ _ hx]
      exact ih (by simp [hc])
    · rw [List.rdropWhile_concat_neg _ _ _ hx, List.rdropWhile_concat_neg _ _ _ hx, List.append_assoc]

/-- text without white space at its ends is not changed by stripping -/
theorem strip_eq_self {t : Text} (hhead : ∀ c ∈ t.head?, isSpace c = false) (hlast : ∀ c ∈ t.getLast?, isSpace c = false) :
    strip t = t := by
  have hdrop : t.dropWhile isSpace = t := by
    cases t with
    | nil => rfl
    | cons c rest => rw [List.dropWhile_cons_of_neg (by simp [hhead c rfl])]
  unfold strip
  rw [hdrop, List.rdropWhile_eq_self_iff]
  intro hne
  simp [hlast _ (List.getLast?_eq_some_getLast hne)]

/-- stripped text has no white space at its end -/
theorem getLast?_strip {t : Text} {c : Char} (h : (strip t).getLast? = some c) : isSpace c = false := by
  have hne : strip t ≠ [] := by
    intro hnil
    rw [hnil] at h
    cases h
  have hlast := List.rdropWhile_last_not isSpace (t.dropWhile isSpace) hne
  rw [List.getLast?_eq_some_getLast hne, Option.some.injEq] at h
  unfold strip at h
  rw [h] at hlast
  simpa using hlast

/-- nor at its start -/
theorem head?_strip {t : Text} {c : Char} (h : (strip t).head? = some c) : isSpace c = false := by
  unfold strip at h
  have hprefix : (t.dropWhile isSpace).rdropWhile isSpace <+: t.dropWhile isSpace := List.rdropWhile_prefix _ _
  obtain ⟨s, hs⟩ := hprefix
  have hhead : (t.dropWhile isSpace).head? = some c := by
    rw [← hs, List.head?_append, h]
    rfl
  have hnot := List.head?_dropWhile_not isSpace t
  rw [hhead] at hnot
  simpa using hnot

theorem mem_of_mem_strip {c : Char} {t : Text} (h : c ∈ strip t) : c ∈ t :=
  (List.dropWhile_sublist _).mem ((List.rdropWhile_prefix _ _).mem h)

/-- `str.rstrip(".")` -/
def rstripDots (t : Text) : Text := t.rdropWhile (· == '.')

/-- `str.lstrip(".")` -/
def lstripDots (t : Text) : Text := t.dropWhile (· == '.')

/-- `t.partition(c)`: what stands before the first `c`, whether there is one, and what stands after it -/
def partition (c : Char) : Text → Text × Bool × Text
  | [] => ([], false, [])
  | x :: rest =>
    if x = c then ([], true, rest)
    else
      let (head, sep, tail) := partition c rest
      (x :: head, sep, tail)

/-- `t.split(c)` -/
def splitOn (c : Char) : Text → List Text
  | [] => [[]]
  | x :: rest =>
    if x = c then [] :: splitOn c rest
    else
      match splitOn c rest with
      | [] => [[x]]
      | part :: parts => (x :: part) :: parts

/-- the parts of a split hold every character but the separator -/
theorem mem_splitOn {c x : Char} {t : Text} (hx : x ∈ t) (hne : x ≠ c) : ∃ part ∈ splitOn c t, x ∈ part := by
  induction t with
  | nil => cases hx
  | cons y rest ih =>
    unfold splitOn
    by_cases hy : y = c
    · rw [if_pos hy]
      have hrest : x ∈ rest := (List.mem_cons.1 hx).resolve_left fun heq => hne (heq.trans hy)
      obtain ⟨part, hpart, hmem⟩ := ih hrest
      exact ⟨part, List.mem_cons_of_mem _ hpart, hmem⟩
    · rw [if_neg hy]
      cases hs : splitOn c rest with
      | nil =>
        rcases List.mem_cons.1 hx with rfl | hrest
        · exact ⟨_, List.mem_cons_self, List.mem_cons_self⟩
        · obtain ⟨part, hpart, _⟩ := ih hrest
          rw [hs] at hpart
          cases hpart
      | cons p ps =>
        rcases List.mem_cons.1 hx with rfl | hrest
        · exact ⟨_, List.mem_cons_self, List.mem_cons_self⟩
        · obtain ⟨part, hpart, hmem⟩ := ih hrest
          rw [hs] at hpart
          rcases List.mem_cons.1 hpart with rfl | hpart
          · exact ⟨_, List.mem_cons_self, List.mem_cons_of_mem _ hmem⟩
          · exact ⟨part, List.mem_cons_of_mem _ hpart, hmem⟩

/-- the last part is empty when the text ends with the separator -/
theorem splitOn_of_getLast? {c : Char} {t : Text} (h : t.getLast? = some c) :
    ∃ part parts, splitOn c t = part :: parts ++ [[]] := by
  induction t with
  | nil => cases h
  | cons y rest ih =>
    unfold splitOn
    cases rest with
    | nil =>
      rw [List.getLast?_singleton, Option.some.injEq] at h
      rw [if_pos h]
      exact ⟨[], [], rfl⟩
    | cons z zs =>
      rw [List.getLast?_cons_cons] at h
      obtain ⟨part, parts, hs⟩ := ih h
      rw [hs]
      split_ifs
      · exact ⟨[], part :: parts, rfl⟩
      · exact ⟨y :: part, parts, rfl⟩

/-- and no other one -/
theorem mem_of_mem_splitOn {c x : Char} {t part : Text} (hpart : part ∈ splitOn c t) (hx : x ∈ part) : x ∈ t := by
  induction t generalizing part with
  | nil =>
    rw [List.mem_singleton.1 hpart] at hx
    cases hx
  | cons y t ih =>
    unfold splitOn at hpart
    split_ifs at hpart with hy
    · rcases List.mem_cons.1 hpart with rfl | hpart
      · cases hx
      · exact List.mem_cons_of_mem _ (ih hpart hx)
    · cases hs : splitOn c t with
      | nil =>
        rw [hs] at hpart
        rw [List.mem_singleton.1 hpart] at hx
        rw [List.mem_singleton.1 hx]
        exact List.mem_cons_self
      | cons first rest =>
        rw [hs] at hpart ih
        rcases List.mem_cons.1 hpart with rfl | hpart
        · rcases List.mem_cons.1 hx with rfl | hx
          · exact List.mem_cons_self
          · exact List.mem_cons_of_mem _ (ih List.mem_cons_self hx)
        · exact List.mem_cons_of_mem _ (ih (List.mem_cons_of_mem _ hpart) hx)

/-- `t.rpartition(c)[2]`: what stands after the last `c`, all of `t` if there is none -/
def afterLast (c : Char) (t : Text) : Text := ((splitOn c t).getLast?).getD []

/-- `name.endswith(suffix)` -/
def endsWith (t suffix : Text) : Bool := suffix.isSuffixOf t

/-- the lower case of a capital letter is a small one -/
theorem toNat_toLower {d : Char} (hd : 65 ≤ d.toNat ∧ d.toNat ≤ 90) : 97 ≤ d.toLower.toNat := by
  have hsum : d.toLower = ⟨d.val + ('a'.val - 'A'.val), _⟩ := dif_pos hd
  have hval : d.val.toNat ≤ 90 := hd.2
  have hshift : ('a'.val - 'A'.val).toNat = 32 := by decide
  rw [hsum]
  show 97 ≤ (d.val + ('a'.val - 'A'.val)).toNat
  rw [UInt32.toNat_add, hshift, Nat.mod_eq_of_lt (by omega)]
  exact Nat.add_le_add_right hd.1 32

theorem le_toNat_toLower {c : Char} (hc : 65 ≤ c.toNat) : 65 ≤ c.toLower.toNat := by
  by_cases hupper : c.toNat ≤ 90
  · exact le_trans (by norm_num) (toNat_toLower ⟨hc, hupper⟩)
  · rw [show c.toLower = c from dif_neg fun h => hupper h.2]
    exact hc

/-- lowering neither makes nor loses a character that stands before the letters, such as a dot -/
theorem toLower_eq_iff {c d : Char} (hd : d.toNat < 65) : c.toLower = d ↔ c = d := by
  by_cases hupper : 65 ≤ c.toNat ∧ c.toNat ≤ 90
  · have hge := toNat_toLower hupper
    constructor
    · intro h
      rw [h] at hge
      omega
    · intro h
      rw [h] at hupper
      omega
  · rw [show c.toLower = c from dif_neg hupper]

/-- what a character can be lowered to: the ones before the letters stay, and no other one becomes one of them -/
def Lowered (c : Char) (piece : Text) : Prop :=
  if c.toNat < 65 then piece = [c] else piece ≠ [] ∧ ∀ d ∈ piece, 65 ≤ d.toNat

/-- Python's `str.lower()` and `str.upper()`, of which only the ASCII part is fixed here, and that lowering goes
character by character (how a character is lowered may depend on the ones around it) -/
structure Unicode where
  lower : Text → Text
  upper : Text → Text
  lower_ascii : ∀ t, isAscii t = true → lower t = t.map Char.toLower
  upper_ascii : ∀ t, isAscii t = true → upper t = t.map Char.toUpper
  lower_pieces : ∀ t, ∃ pieces, lower t = pieces.flatten ∧ List.Forall₂ Lowered t pieces

/-- the tables restricted to ASCII -/
def Unicode.ascii : Unicode where
  lower t := t.map Char.toLower
  upper t := t.map Char.toUpper
  lower_ascii _ _ := rfl
  upper_ascii _ _ := rfl
  lower_pieces t := by
    refine ⟨t.map fun c => [c.toLower], by rw [← List.flatMap_def, List.map_eq_flatMap], ?_⟩
    refine List.forall₂_map_right_iff.2 (List.forall₂_same.2 fun c _ => ?_)
    unfold Lowered
    split_ifs with hc
    · rw [(toLower_eq_iff hc).2 rfl]
    · simpa using le_toNat_toLower (not_lt.1 hc)

/-! ## Hexadecimal numbers -/

/-- `format(n, "x")` -/
def formatHex (n : ℤ) : Text := if n < 0 then '-' :: Nat.toDigits 16 n.natAbs else Nat.toDigits 16 n.natAbs

def hexValue (c : Char) : Option ℕ :=
  if '0' ≤ c ∧ c ≤ '9' then some (c.toNat - 48)
  else if 'a' ≤ c ∧ c ≤ 'f' then some (c.toNat - 87)
  else if 'A' ≤ c ∧ c ≤ 'F' then some (c.toNat - 55)
  else none

/-- the number a row of hexadecimal digits stands for, read after `acc` -/
def hexNumber (acc : ℕ) : Text → Option ℕ
  | [] => some acc
  | c :: rest => (hexValue c).bind fun d => hexNumber (16 * acc + d) rest

/-- `int(text, 16)`, for text without blanks, underscores or a base prefix -/
def intHex (t : Text) : Except PyError ℤ :=
  let (sign, digits) := match t with
    | '-' :: rest => ((-1 : ℤ), rest)
    | '+' :: rest => (1, rest)
    | _ => (1, t)
  match digits, hexNumber 0 digits with
  | _ :: _, some n => .ok (sign * n)
  | _, _ => .error (.valueError ("invalid literal for int() with base 16: '" ++ String.ofList t ++ "'"))

theorem hexValue_digitChar {d : ℕ} (h : d < 16) : hexValue d.digitChar = some d := by
  have key : ∀ d < 16, hexValue d.digitChar = some d := by decide
  exact key d h

theorem hexNumber_append (acc : ℕ) (t u : Text) : hexNumber acc (t ++ u) = (hexNumber acc t).bind (hexNumber · u) := by
  induction t generalizing acc with
  | nil => rfl
  | cons c t ih =>
    simp only [List.cons_append, hexNumber]
    cases hexValue c with
    | none => rfl
    | some d => exact ih _

theorem hexNumber_toDigits (n : ℕ) : hexNumber 0 (Nat.toDigits 16 n) = some n := by
  induction n using Nat.strongRecOn with
  | ind n ih =>
    by_cases h : n < 16
    · rw [Nat.toDigits_of_lt_base h]
      simp [hexNumber, hexValue_digitChar h]
    · have hle : 16 ≤ n := Nat.not_lt.1 h
      rw [Nat.toDigits_of_base_le (by norm_num) hle, hexNumber_append, ih (n / 16) (by omega)]
      have hd : n % 16 < 16 := Nat.mod_lt _ (by norm_num)
      simp only [Option.bind_some, hexNumber, hexValue_digitChar hd]
      exact congrArg some (Nat.div_add_mod n 16)

/-- the digits of a number start with a digit -/
theorem toDigits_head_ne {c : Char} (hc : hexValue c = none) (n : ℕ) (rest : Text) : Nat.toDigits 16 n ≠ c :: rest := by
  intro h
  have hn := hexNumber_toDigits n
  rw [h, hexNumber, hc] at hn
  cases hn

theorem intHex_toDigits (n : ℕ) : intHex (Nat.toDigits 16 n) = .ok (n : ℤ) := by
  have hnum := hexNumber_toDigits n
  unfold intHex
  cases hd : Nat.toDigits 16 n with
  | nil => exact absurd hd Nat.toDigits_ne_nil
  | cons c rest =>
    rw [hd] at hnum
    have hminus : c ≠ '-' := by
      rintro rfl
      exact toDigits_head_ne (by decide) n rest hd
    have hplus : c ≠ '+' := by
      rintro rfl
      exact toDigits_head_ne (by decide) n rest hd
    split
    rename_i sign digits hsplit
    split at hsplit
    · rename_i heq
      exact absurd (List.cons.inj heq).1 hminus
    · rename_i heq
      exact absurd (List.cons.inj heq).1 hplus
    · cases hsplit
      simp [hnum]

/-- **Round trip.** `int(format(n, "x"), 16)` is `n`. -/
theorem intHex_formatHex (n : ℤ) : intHex (formatHex n) = .ok n := by
  unfold formatHex
  by_cases h : n < 0
  · rw [if_pos h]
    have hnum := hexNumber_toDigits n.natAbs
    have hsign : -((n.natAbs : ℕ) : ℤ) = n := by omega
    unfold intHex
    cases hd : Nat.toDigits 16 n.natAbs with
    | nil => exact absurd hd Nat.toDigits_ne_nil
    | cons c rest =>
      rw [hd] at hnum
      simp only [hnum, neg_one_mul, hsign]
  · rw [if_neg h, intHex_toDigits]
    exact congrArg Except.ok (Int.natAbs_of_nonneg (not_lt.1 h))

theorem formatHex_injective : Function.Injective formatHex := by
  intro m n h
  have hm := intHex_formatHex m
  rw [h, intHex_formatHex] at hm
  exact (Except.ok.inj hm).symm

/-! ## Datetimes -/

/-- microseconds since 1970-01-01T00:00:00, naive UTC -/
abbrev DateTime := ℤ

def second : ℤ := 1000000

def day : ℤ := 86400 * second

/-- what a certificate or a CRL keeps of a datetime: the encoding has no fractions of a second -/
def wholeSeconds (t : DateTime) : DateTime := t / second * second

theorem wholeSeconds_le (t : DateTime) : wholeSeconds t ≤ t := Int.ediv_mul_le t (by decide)

theorem wholeSeconds_mono {t u : DateTime} (h : t ≤ u) : wholeSeconds t ≤ wholeSeconds u := by
  have hdiv : t / second ≤ u / second := Int.ediv_le_ediv (by decide) h
  exact mul_le_mul_of_nonneg_right hdiv (by decide)

theorem lt_wholeSeconds_add (t : DateTime) : t < wholeSeconds t + second := by
  have h := Int.lt_ediv_add_one_mul_self t (by decide : (0 : ℤ) < second)
  unfold wholeSeconds
  linarith

theorem wholeSeconds_min (t u : DateTime) : wholeSeconds (min t u) = min (wholeSeconds t) (wholeSeconds u) := by
  rcases le_total t u with h | h
  · rw [min_eq_left h, min_eq_left (wholeSeconds_mono h)]
  · rw [min_eq_right h, min_eq_right (wholeSeconds_mono h)]

@[simp] theorem wholeSeconds_wholeSeconds (t : DateTime) : wholeSeconds (wholeSeconds t) = wholeSeconds t := by
  unfold wholeSeconds
  rw [Int.mul_ediv_cancel _ (by decide)]

/-- `(t - u).days` -/
def daysBetween (t u : DateTime) : ℤ := (t - u) / day

/-- year, month and day of the month of a day number counted from 1970-01-01 (proleptic Gregorian calendar) -/
def civilFromDays (days : ℤ) : ℤ × ℤ × ℤ :=
  let z := days + 719468
  let era := z / 146097
  let doe := z % 146097
  let yoe := (doe - doe / 1460 + doe / 36524 - doe / 146096) / 365
  let doy := doe - (365 * yoe + yoe / 4 - yoe / 100)
  let mp := (5 * doy + 2) / 153
  let month := if mp < 10 then mp + 3 else mp - 9
  (yoe + era * 400 + (if month ≤ 2 then 1 else 0), month, doy - (153 * mp + 2) / 5 + 1)

/-- decimal digits, padded with zeros on the left -/
def padded (width : ℕ) (n : ℤ) : String :=
  let digits := toString n
  String.ofList (List.replicate (width - digits.length) '0') ++ digits

structure Civil where
  year : ℤ
  month : ℤ
  dom : ℤ
  hour : ℤ
  minute : ℤ
  sec : ℤ
  micro : ℤ
deriving DecidableEq, Repr

def civil (t : DateTime) : Civil :=
  let (y, m, d) := civilFromDays (t / day)
  let inDay := t % day
  let s := inDay / second
  ⟨y, m, d, s / 3600, s / 60 % 60, s % 60, inDay % second⟩

/-- `datetime.isoformat()`: the microseconds only when there are any -/
def isoformat (t : DateTime) : String :=
  let c := civil t
  padded 4 c.year ++ "-" ++ padded 2 c.month ++ "-" ++ padded 2 c.dom ++ "T" ++ padded 2 c.hour ++ ":" ++
    padded 2 c.minute ++ ":" ++ padded 2 c.sec ++ (if c.micro = 0 then "" else "." ++ padded 6 c.micro)

example : isoformat (1767225600 * second + 42) = "2026-01-01T00:00:00.000042" := by decide

/-- `f"{t:%Y%m%dT%H%M%SZ}"` -/
def compactStamp (t : DateTime) : String :=
  let c := civil t
  padded 4 c.year ++ padded 2 c.month ++ padded 2 c.dom ++ "T" ++ padded 2 c.hour ++ padded 2 c.minute ++
    padded 2 c.sec ++ "Z"

end Chancery.Core
