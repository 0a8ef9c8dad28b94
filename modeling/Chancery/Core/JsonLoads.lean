/-
`json.loads`, and the round trip with `json.dumps`.

The decoder reads whitespace, literals, numbers, strings, arrays and objects as CPython does; of equal keys the last one
wins, at the place of the first. A number with a fraction or an exponent goes through `float`, which is a parameter. A lone
surrogate, which no string here can hold, is refused, and the limits on nesting and on the digits of a number are left out.

`loads_dumps`: what `json.dumps` writes with its default separators reads back as the same value, provided that the keys of
each object are distinct and each float is the `repr` of what it reads as (`Written`).
Nothing here knows the repository.
-/
import Mathlib.Tactic
import Chancery.Core.Json

namespace Chancery.Core.Json

/-- `float(token)`: the value (none for NaN and the infinities) and its `repr` -/
abbrev Floats := Text → Option ℚ × String

/-! ## Strings -/

/-- four hexadecimal digits -/
def hex4 : Text → Option (ℕ × Text)
  | a :: b :: c :: d :: rest => do
    let a ← hexValue a
    let b ← hexValue b
    let c ← hexValue c
    let d ← hexValue d
    some (a * 4096 + b * 256 + c * 16 + d, rest)
  | _ => none

/-- the escapes of one letter -/
def simpleEscape (c : Char) : Option Char :=
  if c = quote ∨ c = '\\' ∨ c = '/' then some c
  else if c = 'n' then some (Char.ofNat 10)
  else if c = 'r' then some (Char.ofNat 13)
  else if c = 't' then some (Char.ofNat 9)
  else if c = 'f' then some (Char.ofNat 12)
  else if c = 'b' then some (Char.ofNat 8)
  else none

/-- the code after `\u`: two surrogates make one character -/
def unicodeChar (t : Text) : Option (Char × Text) := do
  let (n, rest) ← hex4 t
  if n < 55296 ∨ 57344 ≤ n then some (Char.ofNat n, rest)
  else if n < 56320 ∧ rest.take 2 = ['\\', 'u'] then do
    let (m, rest) ← hex4 (rest.drop 2)
    if 56320 ≤ m ∧ m < 57344 then some (Char.ofNat (65536 + (n - 55296) * 1024 + (m - 56320)), rest) else none
  else none

/-- what follows a backslash -/
def unescape : Text → Option (Char × Text)
  | [] => none
  | c :: rest => if c = 'u' then unicodeChar rest else (simpleEscape c).map fun e => (e, rest)

/-- the characters up to the closing quote; the first argument bounds their number -/
def scanChars : ℕ → Text → Option (Text × Text)
  | 0, _ => none
  | _ + 1, [] => none
  | n + 1, c :: rest =>
    if c = quote then some ([], rest)
    else if c = '\\' then do
      let (e, rest) ← unescape rest
      let (text, rest) ← scanChars n rest
      some (e :: text, rest)
    else if c.toNat < 32 then none
    else do
      let (text, rest) ← scanChars n rest
      some (c :: text, rest)

/-- a string, after its opening quote -/
def scanStr (t : Text) : Option (String × Text) := (scanChars (t.length + 1) t).map fun p => (String.ofList p.1, p.2)

/-! ## Numbers -/

def numChar (c : Char) : Bool := c.isDigit || c == '-' || c == '+' || c == '.' || c == 'e' || c == 'E'

/-- `0|[1-9][0-9]*` -/
def isNatural (t : Text) : Bool := t ≠ [] && t.all (·.isDigit) && (t.head? ≠ some '0' || t.length == 1)

/-- `[0-9]+` -/
def isDigits (t : Text) : Bool := t ≠ [] && t.all (·.isDigit)

/-- `[eE][-+]?[0-9]+` -/
def isExponent : Text → Bool
  | e :: rest =>
    (e == 'e' || e == 'E') &&
      match rest with
      | sign :: digits => if sign = '-' ∨ sign = '+' then isDigits digits else isDigits rest
      | [] => false
  | [] => false

def unsigned : Text → Text
  | [] => []
  | c :: rest => if c = '-' then rest else c :: rest

/-- a number with a fraction, an exponent or both -/
def isFloatToken (t : Text) : Bool :=
  let body := unsigned t
  let rest := body.dropWhile (·.isDigit)
  isNatural (body.takeWhile (·.isDigit)) &&
    match rest with
    | [] => false
    | c :: digits =>
      if c = '.' then
        isDigits (digits.takeWhile (·.isDigit)) &&
          (digits.dropWhile (·.isDigit) == [] || isExponent (digits.dropWhile (·.isDigit)))
      else isExponent rest

/-- `int(token)` -/
def intToken (t : Text) : Option ℤ :=
  if isNatural (unsigned t) then
    some (if t.head? = some '-' then -(Nat.ofDigitChars 10 (unsigned t) 0 : ℤ) else Nat.ofDigitChars 10 t 0)
  else none

def numToken (floats : Floats) (t : Text) : Option Json :=
  match intToken t with
  | some n => some (num n)
  | none => if isFloatToken t then some (float (floats t).1 (floats t).2) else none

/-! ## Values -/

def isBlank (c : Char) : Bool := c == ' ' || c == '\t' || c == '\n' || c == '\r'

def skip (t : Text) : Text := t.dropWhile isBlank

/-- the literals, with the three floats that are not numbers -/
def literals : List (Text × Json) :=
  [(['n', 'u', 'l', 'l'], null), (['t', 'r', 'u', 'e'], bool true), (['f', 'a', 'l', 's', 'e'], bool false),
    (['N', 'a', 'N'], float none "NaN"), (['I', 'n', 'f', 'i', 'n', 'i', 't', 'y'], float none "Infinity"),
    (['-', 'I', 'n', 'f', 'i', 'n', 'i', 't', 'y'], float none "-Infinity")]

/-- a literal or a number -/
def scalar (floats : Floats) (t : Text) : Option (Json × Text) :=
  match literals.find? fun l => l.1.isPrefixOf t with
  | some l => some (l.2, t.drop l.1.length)
  | none => (numToken floats (t.takeWhile numChar)).map fun v => (v, t.dropWhile numChar)

/-- `d[key] = value` -/
def setItem (d : List (String × Json)) (k : String) (v : Json) : List (String × Json) :=
  if k ∈ d.map (·.1) then d.map fun p => if p.1 = k then (k, v) else p else d ++ [(k, v)]

def ofPairs (pairs : List (String × Json)) : List (String × Json) := pairs.foldl (fun d p => setItem d p.1 p.2) []

def openBrace : Char := Char.ofNat 123

def closeBrace : Char := Char.ofNat 125

mutual

/-- a value at the start of the text; the first argument bounds the number of steps -/
def scan (floats : Floats) : ℕ → Text → Option (Json × Text)
  | 0, _ => none
  | _ + 1, [] => none
  | n + 1, c :: rest =>
    if c = quote then (scanStr rest).map fun p => (str p.1, p.2)
    else if c = '[' then
      if (skip rest).head? = some ']' then some (arr [], (skip rest).tail)
      else (scanItems floats n (skip rest)).map fun p => (arr p.1, p.2)
    else if c = openBrace then
      if (skip rest).head? = some closeBrace then some (obj [], (skip rest).tail)
      else (scanFields floats n (skip rest)).map fun p => (obj (ofPairs p.1), p.2)
    else scalar floats (c :: rest)

/-- the items of an array, at least one, with the closing bracket -/
def scanItems (floats : Floats) : ℕ → Text → Option (List Json × Text)
  | 0, _ => none
  | n + 1, t =>
    (scan floats n t).bind fun p =>
      match skip p.2 with
      | [] => none
      | c :: rest =>
        if c = ']' then some ([p.1], rest)
        else if c = ',' then (scanItems floats n (skip rest)).map fun q => (p.1 :: q.1, q.2)
        else none

/-- the items of an object, at least one, with the closing brace -/
def scanFields (floats : Floats) : ℕ → Text → Option (List (String × Json) × Text)
  | 0, _ => none
  | _ + 1, [] => none
  | n + 1, c :: t =>
    if c ≠ quote then none
    else
      (scanStr t).bind fun k =>
        match skip k.2 with
        | [] => none
        | c :: rest =>
          if c ≠ ':' then none
          else
            (scan floats n (skip rest)).bind fun p =>
              match skip p.2 with
              | [] => none
              | c :: rest =>
                if c = closeBrace then some ([(k.1, p.1)], rest)
                else if c = ',' then (scanFields floats n (skip rest)).map fun q => ((k.1, p.1) :: q.1, q.2)
                else none

end

/-- `json.loads` -/
def loads (floats : Floats) : Loads := fun s =>
  match scan floats (s.toList.length + 1) (skip s.toList) with
  | some (v, rest) => if skip rest = [] then .ok v else .error (.valueError "Extra data")
  | none => .error (.valueError "Expecting value")

/-! ## Strings read back -/

theorem hexValue_hexDigit {d : ℕ} (h : d < 16) : hexValue (hexDigit d) = some d := by
  have key : ∀ d < 16, hexValue (hexDigit d) = some d := by decide
  exact key d h

theorem hex4_escape {n : ℕ} (hn : n < 65536) (rest : Text) :
    hex4 ((unicodeEscape n).drop 2 ++ rest) = some (n, rest) := by
  have hdigit : ∀ k : ℕ, hexValue (hexDigit (k % 16)) = some (k % 16) := fun k =>
    hexValue_hexDigit (Nat.mod_lt k (by norm_num))
  have hsum : n / 4096 % 16 * 4096 + n / 256 % 16 * 256 + n / 16 % 16 * 16 + n % 16 = n := by omega
  simp only [unicodeEscape, List.drop_succ_cons, List.drop_zero, List.cons_append, List.nil_append, hex4, hdigit,
    Option.bind_eq_bind, Option.bind_some, hsum]

theorem valid_toNat (c : Char) : c.toNat < 55296 ∨ (57344 ≤ c.toNat ∧ c.toNat < 1114112) := by
  rcases c.valid with h | ⟨h, h'⟩
  · exact Or.inl h
  · exact Or.inr ⟨h, h'⟩

theorem unicodeChar_escape {n : ℕ} (hn : n < 55296 ∨ 57344 ≤ n) (hmax : n < 65536) (rest : Text) :
    unicodeChar ((unicodeEscape n).drop 2 ++ rest) = some (Char.ofNat n, rest) := by
  unfold unicodeChar
  simp only [hex4_escape hmax, Option.bind_eq_bind, Option.bind_some, if_pos hn]

theorem unicodeChar_surrogates {n m : ℕ} (hn : 55296 ≤ n ∧ n < 56320) (hm : 56320 ≤ m ∧ m < 57344) (rest : Text) :
    unicodeChar ((unicodeEscape n).drop 2 ++ (unicodeEscape m ++ rest)) =
      some (Char.ofNat (65536 + (n - 55296) * 1024 + (m - 56320)), rest) := by
  have hsurrogate : ¬ (n < 55296 ∨ 57344 ≤ n) := by omega
  have htake : (unicodeEscape m ++ rest).take 2 = ['\\', 'u'] := rfl
  have hdrop : (unicodeEscape m ++ rest).drop 2 = (unicodeEscape m).drop 2 ++ rest := rfl
  unfold unicodeChar
  simp only [hex4_escape (show n < 65536 by omega), Option.bind_eq_bind, Option.bind_some, if_neg hsurrogate,
    if_pos (And.intro hn.2 htake), hdrop, hex4_escape (show m < 65536 by omega), if_pos hm]

/-- one character, escaped and read back -/
theorem scanChars_escapeChar (n : ℕ) (c : Char) (rest : Text) :
    scanChars (n + 1) (escapeChar c ++ rest) = (scanChars n rest).bind fun p => some (c :: p.1, p.2) := by
  have hslash : ('\\' : Char) ≠ quote := by decide
  -- an escape of one letter
  have hletter : ∀ e : Char, e ≠ 'u' → simpleEscape e = some c →
      scanChars (n + 1) (['\\', e] ++ rest) = (scanChars n rest).bind fun p => some (c :: p.1, p.2) := by
    intro e hu he
    simp only [List.cons_append, List.nil_append, scanChars, if_neg hslash, unescape, if_neg hu, he, Option.map_some,
      if_true, Option.bind_eq_bind, Option.bind_some]
  -- an escape of the code
  have hcode : ∀ t : Text, unicodeChar (t ++ rest) = some (c, rest) →
      scanChars (n + 1) ('\\' :: 'u' :: t ++ rest) = (scanChars n rest).bind fun p => some (c :: p.1, p.2) := by
    intro t ht
    simp only [List.cons_append, scanChars, if_neg hslash, unescape, if_true, ht, Option.bind_eq_bind, Option.bind_some]
  have hofNat : ∀ k : ℕ, c.toNat = k → c = Char.ofNat k := by
    rintro k rfl
    exact (Char.ofNat_toNat c).symm
  unfold escapeChar
  simp only []
  split_ifs with h34 h92 h10 h13 h9 h12 h8 hplain hbmp
  · exact hletter c (by rw [hofNat _ h34]; decide) (by rw [hofNat _ h34]; decide)
  · exact hletter c (by rw [hofNat _ h92]; decide) (by rw [hofNat _ h92]; decide)
  · exact hletter 'n' (by decide) (by rw [hofNat _ h10]; decide)
  · exact hletter 'r' (by decide) (by rw [hofNat _ h13]; decide)
  · exact hletter 't' (by decide) (by rw [hofNat _ h9]; decide)
  · exact hletter 'f' (by decide) (by rw [hofNat _ h12]; decide)
  · exact hletter 'b' (by decide) (by rw [hofNat _ h8]; decide)
  · have hquote : c ≠ quote := fun h => h34 (by rw [h]; decide)
    have hback : c ≠ '\\' := fun h => h92 (by rw [h]; decide)
    simp only [List.cons_append, List.nil_append, scanChars, if_neg hquote, if_neg hback, if_neg (not_lt.2 hplain.1),
      Option.bind_eq_bind]
  · refine hcode ((unicodeEscape c.toNat).drop 2) ?_
    rw [unicodeChar_escape ((valid_toNat c).imp_right And.left) hbmp, Char.ofNat_toNat]
  · have hmax : c.toNat < 1114112 := (valid_toNat c).elim (fun h => by omega) And.right
    have hpair := unicodeChar_surrogates (n := 55296 + (c.toNat - 65536) / 1024) (m := 56320 + (c.toNat - 65536) % 1024)
      (by omega) (by omega) rest
    have hsum : 65536 + (55296 + (c.toNat - 65536) / 1024 - 55296) * 1024 +
        (56320 + (c.toNat - 65536) % 1024 - 56320) = c.toNat := by omega
    rw [hsum, Char.ofNat_toNat] at hpair
    exact hcode ((unicodeEscape (55296 + (c.toNat - 65536) / 1024)).drop 2 ++
      unicodeEscape (56320 + (c.toNat - 65536) % 1024)) (by rw [List.append_assoc]; exact hpair)

theorem scanChars_flatMap (cs rest : Text) {n : ℕ} (hn : (cs.flatMap escapeChar).length < n) :
    scanChars n (cs.flatMap escapeChar ++ quote :: rest) = some (cs, rest) := by
  induction cs generalizing n with
  | nil =>
    obtain ⟨m, rfl⟩ := Nat.exists_eq_succ_of_ne_zero (Nat.ne_of_gt (Nat.lt_of_le_of_lt (Nat.zero_le _) hn))
    exact if_pos rfl
  | cons c cs ih =>
    obtain ⟨m, rfl⟩ := Nat.exists_eq_succ_of_ne_zero (Nat.ne_of_gt (Nat.lt_of_le_of_lt (Nat.zero_le _) hn))
    have hpos : 0 < (escapeChar c).length := by
      unfold escapeChar unicodeEscape
      simp only []
      split_ifs <;> simp
    have hlt : (cs.flatMap escapeChar).length < m := by
      rw [List.flatMap_cons, List.length_append] at hn
      omega
    rw [List.flatMap_cons, List.append_assoc, scanChars_escapeChar, ih hlt]
    rfl

/-- a string read back -/
theorem scanStr_encodeStr (s : String) (rest : Text) :
    scanStr ((encodeStr s).tail ++ rest) = some (s, rest) := by
  have htext : (encodeStr s).tail ++ rest = s.toList.flatMap escapeChar ++ quote :: rest := by
    simp [encodeStr]
  unfold scanStr
  rw [htext, scanChars_flatMap s.toList rest (by rw [List.length_append]; omega)]
  simp

/-! ## Numbers read back -/

theorem toList_toString (n : ℤ) :
    (toString n).toList = if n < 0 then '-' :: Nat.toDigits 10 n.natAbs else Nat.toDigits 10 n.natAbs := by
  cases n with
  | ofNat k =>
    rw [if_neg (by simp)]
    exact Nat.toList_repr
  | negSucc k =>
    rw [if_pos (Int.negSucc_lt_zero k)]
    show (("-" : String) ++ Nat.repr (k + 1)).toList = _
    rw [String.toList_append, Nat.toList_repr]
    rfl

/-- the digits of a number have no zero in front -/
theorem isNatural_toDigits (n : ℕ) : isNatural (Nat.toDigits 10 n) = true := by
  have hdigits : (Nat.toDigits 10 n).all (·.isDigit) = true :=
    List.all_eq_true.2 fun c hc => Nat.isDigit_of_mem_toDigits (by norm_num) (by norm_num) hc
  have hhead : (Nat.toDigits 10 n).head? ≠ some '0' ∨ (Nat.toDigits 10 n).length = 1 := by
    induction n using Nat.strongRecOn with
    | ind n ih =>
      by_cases h : n < 10
      · right
        rw [Nat.toDigits_of_lt_base h]
        rfl
      · left
        rw [Nat.toDigits_of_base_le (by norm_num) (Nat.not_lt.1 h)]
        rcases ih (n / 10) (by omega) (List.all_eq_true.2 fun c hc =>
          Nat.isDigit_of_mem_toDigits (by norm_num) (by norm_num) hc) with hne | hone
        · rw [List.head?_append_of_ne_nil _ Nat.toDigits_ne_nil]
          exact hne
        · have hsmall : n / 10 < 10 := by
            have := (Nat.length_toDigits_le_iff (b := 10) (n := n / 10) (k := 1) (by norm_num) (by norm_num)).1 hone.le
            simpa using this
          have hkey : ∀ d < 10, d ≠ 0 → d.digitChar ≠ '0' := by decide
          rw [Nat.toDigits_of_lt_base hsmall]
          simpa using hkey (n / 10) hsmall (by omega)
  have hne : Nat.toDigits 10 n ≠ [] := Nat.toDigits_ne_nil
  simp only [isNatural, hdigits, Bool.and_true, Bool.and_eq_true, Bool.or_eq_true, beq_iff_eq, decide_eq_true_eq]
  exact ⟨hne, hhead⟩

theorem intToken_toString (n : ℤ) : intToken (toString n).toList = some n := by
  rw [toList_toString]
  by_cases h : n < 0
  · rw [if_pos h]
    have hval : -((n.natAbs : ℕ) : ℤ) = n := by omega
    simp only [intToken, unsigned, if_true, isNatural_toDigits, List.head?_cons, Nat.ofDigitChars_ten_toDigits, hval]
  · rw [if_neg h]
    have hhead : (Nat.toDigits 10 n.natAbs).head? ≠ some '-' := by
      intro hd
      have := Nat.isDigit_of_mem_toDigits (by norm_num) (by norm_num) (List.mem_of_mem_head? hd)
      exact absurd this (by decide)
    have hunsigned : unsigned (Nat.toDigits 10 n.natAbs) = Nat.toDigits 10 n.natAbs := by
      cases hd : Nat.toDigits 10 n.natAbs with
      | nil => rfl
      | cons c rest =>
        refine if_neg ?_
        rintro rfl
        exact hhead (by rw [hd]; rfl)
    have hval : ((n.natAbs : ℕ) : ℤ) = n := Int.natAbs_of_nonneg (not_lt.1 h)
    simp only [intToken, hunsigned, isNatural_toDigits, if_true, if_neg hhead, Nat.ofDigitChars_ten_toDigits, hval]

theorem toString_int_injective : Function.Injective (fun n : ℤ => toString n) := by
  intro m n h
  have htoken : some m = some n := by
    rw [← intToken_toString m, ← intToken_toString n]
    exact congrArg (fun t : String => intToken t.toList) h
  exact Option.some.inj htoken

/-- nothing that goes on with a number -/
def Stops (rest : Text) : Prop := ∀ c ∈ rest.head?, numChar c = false

theorem takeWhile_token {p : Char → Bool} {t rest : Text} (ht : ∀ c ∈ t, p c = true)
    (hrest : ∀ c ∈ rest.head?, p c = false) : (t ++ rest).takeWhile p = t ∧ (t ++ rest).dropWhile p = rest := by
  rw [List.takeWhile_append_of_pos ht, List.dropWhile_append_of_pos ht]
  cases rest with
  | nil => simp
  | cons c rest =>
    have hc : p c = false := hrest c rfl
    simp [hc]

theorem not_isPrefixOf {c d : Char} (h : d ≠ c) (l t : Text) : ¬ (d :: l).isPrefixOf (c :: t) = true := by
  rw [List.isPrefixOf_cons_cons, beq_eq_false_iff_ne.2 h, Bool.false_and]
  exact Bool.false_ne_true

/-- no literal starts like a number -/
theorem find?_literals {t rest : Text} (hne : t ≠ []) (hsign : t ≠ ['-']) (ht : ∀ c ∈ t, numChar c = true) :
    (literals.find? fun l => l.1.isPrefixOf (t ++ rest)) = none := by
  have hletters : ∀ c : Char, numChar c = true → 'n' ≠ c ∧ 't' ≠ c ∧ 'f' ≠ c ∧ 'N' ≠ c ∧ 'I' ≠ c := by
    intro c hc
    refine ⟨?_, ?_, ?_, ?_, ?_⟩ <;> rintro rfl <;> exact absurd hc (by decide)
  cases t with
  | nil => exact absurd rfl hne
  | cons c t =>
    obtain ⟨hn, htr, hf, hN, hI⟩ := hletters c (ht c List.mem_cons_self)
    have hinf : ¬ (['-', 'I', 'n', 'f', 'i', 'n', 'i', 't', 'y']).isPrefixOf (c :: (t ++ rest)) = true := by
      cases t with
      | nil => exact not_isPrefixOf (fun h => hsign (by rw [← h])) _ _
      | cons d t =>
        rw [List.cons_append, List.isPrefixOf_cons_cons, Bool.and_eq_true]
        exact fun h => not_isPrefixOf (hletters d (ht d (by simp))).2.2.2.2 _ _ h.2
    simp only [literals, List.cons_append, List.find?_cons, not_isPrefixOf hn, not_isPrefixOf htr, not_isPrefixOf hf,
      not_isPrefixOf hN, not_isPrefixOf hI, hinf, List.find?_nil]

theorem numToken_ne {floats : Floats} {t : Text} {v : Json} (h : numToken floats t = some v) : t ≠ [] ∧ t ≠ ['-'] := by
  constructor
  · rintro rfl
    cases h
  · rintro rfl
    cases h

/-- a number read back -/
theorem scalar_token {floats : Floats} {t rest : Text} {v : Json} (ht : ∀ c ∈ t, numChar c = true)
    (hv : numToken floats t = some v) (hrest : Stops rest) : scalar floats (t ++ rest) = some (v, rest) := by
  obtain ⟨hne, hsign⟩ := numToken_ne hv
  obtain ⟨htake, hdrop⟩ := takeWhile_token ht hrest
  unfold scalar
  rw [find?_literals hne hsign ht]
  simp only [htake, hdrop, hv, Option.map_some]

/-! ## Values read back -/

/-- a finite float, or one of the three others -/
def WrittenFloat (floats : Floats) (q : Option ℚ) (repr : String) : Prop :=
  (isFloatToken repr.toList = true ∧ (∀ c ∈ repr.toList, numChar c = true) ∧ floats repr.toList = (q, repr)) ∨
    (q = none ∧ (repr = "NaN" ∨ repr = "Infinity" ∨ repr = "-Infinity"))

mutual

/-- what `json.loads` returns: distinct keys, and floats under their `repr` -/
def Written (floats : Floats) : Json → Prop
  | float q repr => WrittenFloat floats q repr
  | arr items => WrittenItems floats items
  | obj items => (items.map (·.1)).Nodup ∧ WrittenFields floats items
  | _ => True

def WrittenItems (floats : Floats) : List Json → Prop
  | [] => True
  | v :: vs => Written floats v ∧ WrittenItems floats vs

def WrittenFields (floats : Floats) : List (String × Json) → Prop
  | [] => True
  | (_, v) :: vs => Written floats v ∧ WrittenFields floats vs

end

/-- the items of a dict, inserted one after the other -/
theorem ofPairs_eq {pairs : List (String × Json)} (h : (pairs.map (·.1)).Nodup) : ofPairs pairs = pairs := by
  have key : ∀ (rest done : List (String × Json)), ((done ++ rest).map (·.1)).Nodup →
      rest.foldl (fun d p => setItem d p.1 p.2) done = done ++ rest := by
    intro rest
    induction rest with
    | nil => intro done _; exact (List.append_nil done).symm
    | cons p rest ih =>
      intro done hnodup
      have hnew : p.1 ∉ done.map (·.1) := by
        rw [List.map_append, List.map_cons] at hnodup
        intro hmem
        exact (List.nodup_append.1 hnodup).2.2 _ hmem _ List.mem_cons_self rfl
      have happend : done ++ p :: rest = (done ++ [p]) ++ rest := by rw [List.append_assoc]; rfl
      rw [List.foldl_cons, setItem, if_neg hnew, happend]
      exact ih (done ++ [p]) (happend ▸ hnodup)
  exact key pairs [] h

theorem isFloatToken_ne {t : Text} (h : isFloatToken t = true) : intToken t = none := by
  have hnat : isNatural (unsigned t) = false := by
    by_contra hn
    have hall : ∀ c ∈ unsigned t, c.isDigit = true := by
      have := Bool.of_not_eq_false hn
      simp only [isNatural, Bool.and_eq_true] at this
      exact List.all_eq_true.1 this.1.2
    have hnil : (unsigned t).dropWhile (·.isDigit) = [] := List.dropWhile_eq_nil_iff.2 hall
    simp only [isFloatToken, hnil, Bool.and_false, Bool.false_eq_true] at h
  rw [intToken, if_neg (by rw [hnat]; exact Bool.false_ne_true)]

theorem numToken_num {floats : Floats} (n : ℤ) : numToken floats (toString n).toList = some (num n) := by
  rw [numToken, intToken_toString]

theorem numToken_float {floats : Floats} {q : Option ℚ} {repr : String} (h : isFloatToken repr.toList = true)
    (hf : floats repr.toList = (q, repr)) : numToken floats repr.toList = some (float q repr) := by
  simp only [numToken, isFloatToken_ne h, if_pos h, hf]

theorem numChar_toString (n : ℤ) : ∀ c ∈ (toString n).toList, numChar c = true := by
  have hdigit : ∀ m : ℕ, ∀ c ∈ Nat.toDigits 10 m, numChar c = true := by
    intro m c hc
    have := Nat.isDigit_of_mem_toDigits (by norm_num) (by norm_num) hc
    simp only [numChar, this, Bool.true_or]
  intro c hc
  rw [toList_toString] at hc
  split_ifs at hc
  · rcases List.mem_cons.1 hc with rfl | hc
    · rfl
    · exact hdigit _ c hc
  · exact hdigit _ c hc

/-- a value that is no string, array or object -/
theorem scan_scalar {floats : Floats} {n : ℕ} {c : Char} {t : Text} (hquote : c ≠ quote) (harr : c ≠ '[')
    (hobj : c ≠ openBrace) : scan floats (n + 1) (c :: t) = scalar floats (c :: t) := by
  rw [scan, if_neg hquote, if_neg harr, if_neg hobj]

theorem scan_token {floats : Floats} {n : ℕ} {t rest : Text} {v : Json} (ht : ∀ c ∈ t, numChar c = true)
    (hv : numToken floats t = some v) (hrest : Stops rest) : scan floats (n + 1) (t ++ rest) = some (v, rest) := by
  rw [← scalar_token ht hv hrest]
  cases t with
  | nil => exact absurd rfl (numToken_ne hv).1
  | cons c t =>
    have hc := ht c List.mem_cons_self
    refine scan_scalar ?_ ?_ ?_ <;> rintro rfl <;> exact absurd hc (by decide)

/-- the first character of what `json.dumps` writes -/
theorem dumpsText_head {floats : Floats} {v : Json} (hv : Written floats v) :
    ∃ c t, dumpsText .default v = c :: t ∧ isBlank c = false ∧ c ≠ ']' ∧ c ≠ closeBrace := by
  have htoken : ∀ t : Text, t ≠ [] → (∀ c ∈ t, numChar c = true) →
      ∃ c t', t = c :: t' ∧ isBlank c = false ∧ c ≠ ']' ∧ c ≠ closeBrace := by
    intro t hne ht
    cases t with
    | nil => exact absurd rfl hne
    | cons c t =>
      have hc := ht c List.mem_cons_self
      refine ⟨c, t, rfl, ?_, ?_, ?_⟩
      · by_contra hb
        have hb' : c = ' ' ∨ c = '\t' ∨ c = '\n' ∨ c = '\r' := by
          simpa only [isBlank, Bool.or_eq_true, beq_iff_eq, or_assoc] using Bool.of_not_eq_false hb
        rcases hb' with rfl | rfl | rfl | rfl <;> exact absurd hc (by decide)
      all_goals rintro rfl; exact absurd hc (by decide)
  cases v with
  | null => exact ⟨'n', _, rfl, by decide, by decide, by decide⟩
  | bool b => cases b <;> exact ⟨_, _, rfl, by decide, by decide, by decide⟩
  | num n => exact htoken _ (@numToken_ne floats _ _ (numToken_num n)).1 (numChar_toString n)
  | float q repr =>
    rcases hv with ⟨hf, ht, heq⟩ | ⟨-, rfl | rfl | rfl⟩
    · exact htoken _ (numToken_ne (numToken_float hf heq)).1 ht
    all_goals exact ⟨_, _, rfl, by decide, by decide, by decide⟩
  | str s => exact ⟨quote, _, rfl, by decide, by decide, by decide⟩
  | arr items => exact ⟨'[', _, rfl, by decide, by decide, by decide⟩
  | obj items => exact ⟨openBrace, _, rfl, by decide, by decide, by decide⟩

theorem skip_cons {c : Char} (h : isBlank c = false) (t : Text) : skip (c :: t) = c :: t := by
  unfold skip
  rw [List.dropWhile_cons, h]
  exact if_neg Bool.false_ne_true

/-- after a separator: the blank, then a value -/
theorem skip_separated {floats : Floats} {v : Json} (hv : Written floats v) (rest : Text) :
    skip (' ' :: (dumpsText .default v ++ rest)) = dumpsText .default v ++ rest := by
  obtain ⟨c, t, heq, hc, -⟩ := dumpsText_head hv
  rw [heq]
  exact skip_cons hc (t ++ rest)

theorem scan_literal {floats : Floats} {n : ℕ} {l : Text} {v : Json} (h : (l, v) ∈ literals) (rest : Text) :
    scan floats (n + 1) (l ++ rest) = some (v, rest) := by
  simp only [literals, List.mem_cons, Prod.mk.injEq, List.not_mem_nil, or_false] at h
  rcases h with ⟨rfl, rfl⟩ | ⟨rfl, rfl⟩ | ⟨rfl, rfl⟩ | ⟨rfl, rfl⟩ | ⟨rfl, rfl⟩ | ⟨rfl, rfl⟩ <;>
    exact (scan_scalar (by decide) (by decide) (by decide)).trans rfl

/-- the texts between the brackets -/
def itemsText (vs : List Json) : Text := joinWith [',', ' '] (dumpsItems .default vs)

def fieldText (p : String × Json) : Text := encodeStr p.1 ++ [':', ' '] ++ dumpsText .default p.2

def fieldsText (ps : List (String × Json)) : Text := joinWith [',', ' '] (ps.map fieldText)

theorem dumpsFields_eq (ps : List (String × Json)) :
    (dumpsFields .default ps).map (fun p => encodeStr p.1 ++ Style.default.keySep.toList ++ p.2) = ps.map fieldText := by
  induction ps with
  | nil => rfl
  | cons p ps ih =>
    obtain ⟨k, v⟩ := p
    exact congrArg₂ List.cons rfl ih

theorem dumpsText_arr (vs : List Json) : dumpsText .default (arr vs) = '[' :: (itemsText vs ++ [']']) := rfl

theorem dumpsText_obj (ps : List (String × Json)) :
    dumpsText .default (obj ps) = openBrace :: (fieldsText ps ++ [closeBrace]) := by
  show openBrace :: (joinWith Style.default.itemSep.toList ((dumpsFields .default ps).map _) ++ [closeBrace]) = _
  rw [dumpsFields_eq]
  rfl

theorem joinWith_cons_cons (sep a b : Text) (l : List Text) :
    joinWith sep (a :: b :: l) = a ++ (sep ++ joinWith sep (b :: l)) := by
  unfold joinWith
  rw [List.intersperse_cons_cons, List.flatten_cons, List.flatten_cons]

theorem joinWith_singleton (sep a : Text) : joinWith sep [a] = a := List.append_nil a

theorem itemsText_cons (v : Json) (vs : List Json) :
    itemsText (v :: vs) = dumpsText .default v ++ if vs = [] then [] else [',', ' '] ++ itemsText vs := by
  cases vs with
  | nil => rw [if_pos rfl, List.append_nil]; exact joinWith_singleton _ _
  | cons w vs => exact joinWith_cons_cons _ _ _ _

theorem fieldsText_cons (p : String × Json) (ps : List (String × Json)) :
    fieldsText (p :: ps) = fieldText p ++ if ps = [] then [] else [',', ' '] ++ fieldsText ps := by
  cases ps with
  | nil => rw [if_pos rfl, List.append_nil]; exact joinWith_singleton _ _
  | cons q ps => exact joinWith_cons_cons _ _ _ _

/-- one item of an object, up to what follows its value -/
theorem scanFields_fieldText {floats : Floats} {n : ℕ} {k : String} {v : Json} {rest : Text} (hv : Written floats v)
    (hscan : scan floats n (dumpsText .default v ++ rest) = some (v, rest)) :
    scanFields floats (n + 1) (fieldText (k, v) ++ rest) =
      match skip rest with
      | [] => none
      | c :: rest =>
        if c = closeBrace then some ([(k, v)], rest)
        else if c = ',' then (scanFields floats n (skip rest)).map fun q => ((k, v) :: q.1, q.2)
        else none := by
  have htext : fieldText (k, v) ++ rest =
      quote :: ((encodeStr k).tail ++ ':' :: ' ' :: (dumpsText .default v ++ rest)) := by
    simp only [fieldText, encodeStr, List.cons_append, List.append_assoc, List.tail_cons, List.nil_append]
  have hcolon : skip (':' :: ' ' :: (dumpsText .default v ++ rest)) = ':' :: ' ' :: (dumpsText .default v ++ rest) := rfl
  rw [htext, scanFields, if_neg (not_not.2 rfl), scanStr_encodeStr]
  simp only [Option.bind_some, hcolon, ne_eq, not_true_eq_false, if_false, skip_separated hv, hscan]

theorem stops_cons {c : Char} (h : numChar c = false) (t : Text) : Stops (c :: t) := by
  intro d hd
  rw [← Option.some.inj hd]
  exact h

mutual

/-- what `json.dumps` writes reads back -/
theorem scan_dumps {floats : Floats} : ∀ (v : Json), Written floats v → ∀ (n : ℕ) (rest : Text),
    (dumpsText .default v).length < n → Stops rest → scan floats n (dumpsText .default v ++ rest) = some (v, rest)
  | v, _, 0, _, hn, _ => absurd hn (Nat.not_lt_zero _)
  | null, _, n + 1, rest, _, _ => scan_literal (l := ['n', 'u', 'l', 'l']) (by simp [literals]) rest
  | bool true, _, n + 1, rest, _, _ => scan_literal (l := ['t', 'r', 'u', 'e']) (by simp [literals]) rest
  | bool false, _, n + 1, rest, _, _ => scan_literal (l := ['f', 'a', 'l', 's', 'e']) (by simp [literals]) rest
  | num k, _, n + 1, rest, _, hrest => scan_token (numChar_toString k) (numToken_num k) hrest
  | float q repr, hv, n + 1, rest, _, hrest => by
    rcases hv with ⟨hf, ht, heq⟩ | ⟨rfl, rfl | rfl | rfl⟩
    · exact scan_token ht (numToken_float hf heq) hrest
    · exact scan_literal (l := ['N', 'a', 'N']) (by simp [literals]) rest
    · exact scan_literal (l := ['I', 'n', 'f', 'i', 'n', 'i', 't', 'y']) (by simp [literals]) rest
    · exact scan_literal (l := ['-', 'I', 'n', 'f', 'i', 'n', 'i', 't', 'y']) (by simp [literals]) rest
  | str s, _, n + 1, rest, _, _ => by
    show (scanStr ((encodeStr s).tail ++ rest)).map _ = _
    rw [scanStr_encodeStr]
    rfl
  | arr [], _, n + 1, rest, _, _ => rfl
  | arr (v :: vs), hv, n + 1, rest, hn, _ => by
    have hscan := scanItems_dumps (v :: vs) hv (List.cons_ne_nil v vs) n rest (by
      rw [dumpsText_arr, List.length_cons, List.length_append, List.length_singleton] at hn
      omega)
    obtain ⟨c, t, hhead, hblank, hbracket, -⟩ := dumpsText_head hv.1
    have htext : itemsText (v :: vs) ++ ']' :: rest =
        c :: (t ++ ((if vs = [] then [] else [',', ' '] ++ itemsText vs) ++ ']' :: rest)) := by
      rw [itemsText_cons, hhead, List.append_assoc]
      rfl
    have hne : ¬ some c = some ']' := fun h => hbracket (Option.some.inj h)
    have hall : dumpsText .default (arr (v :: vs)) ++ rest = '[' :: (itemsText (v :: vs) ++ ']' :: rest) := by
      rw [dumpsText_arr, List.cons_append, List.append_assoc]
      rfl
    rw [hall, scan, if_neg (by decide), if_pos rfl]
    rw [htext] at hscan ⊢
    rw [skip_cons hblank, List.head?_cons, if_neg hne, hscan]
    rfl
  | obj [], _, n + 1, rest, _, _ => rfl
  | obj (p :: ps), hv, n + 1, rest, hn, _ => by
    have hscan := scanFields_dumps (p :: ps) hv.2 (List.cons_ne_nil p ps) n rest (by
      rw [dumpsText_obj, List.length_cons, List.length_append, List.length_singleton] at hn
      omega)
    have htext : fieldsText (p :: ps) ++ closeBrace :: rest = quote :: ((encodeStr p.1).tail ++ ([':', ' '] ++
        dumpsText .default p.2 ++ ((if ps = [] then [] else [',', ' '] ++ fieldsText ps) ++ closeBrace :: rest))) := by
      rw [fieldsText_cons, fieldText, encodeStr]
      simp only [List.cons_append, List.append_assoc, List.tail_cons]
    have hne : ¬ some quote = some closeBrace := by decide
    have hall : dumpsText .default (obj (p :: ps)) ++ rest =
        openBrace :: (fieldsText (p :: ps) ++ closeBrace :: rest) := by
      rw [dumpsText_obj, List.cons_append, List.append_assoc]
      rfl
    rw [hall, scan, if_neg (by decide), if_neg (by decide), if_pos rfl]
    rw [htext] at hscan ⊢
    rw [skip_cons (by decide), List.head?_cons, if_neg hne, hscan]
    exact congrArg (fun d => some (obj d, rest)) (ofPairs_eq hv.1)

theorem scanItems_dumps {floats : Floats} : ∀ (vs : List Json), WrittenItems floats vs → vs ≠ [] →
    ∀ (n : ℕ) (rest : Text), (itemsText vs).length + 1 < n → scanItems floats n (itemsText vs ++ ']' :: rest) =
      some (vs, rest)
  | [], _, hne, _, _, _ => absurd rfl hne
  | v :: vs, _, _, 0, _, hn => absurd hn (Nat.not_lt_zero _)
  | [v], hv, _, n + 1, rest, hn => by
    rw [itemsText_cons, if_pos rfl, List.append_nil] at hn ⊢
    have hscan := scan_dumps v hv.1 n (']' :: rest) (by omega) (stops_cons (by decide) rest)
    rw [scanItems, hscan]
    rfl
  | v :: w :: vs, hv, _, n + 1, rest, hn => by
    have hscan := scan_dumps v hv.1 n (',' :: ' ' :: (itemsText (w :: vs) ++ ']' :: rest)) (by
      rw [itemsText_cons, List.length_append] at hn
      omega) (stops_cons (by decide) _)
    have hitems := scanItems_dumps (w :: vs) hv.2 (List.cons_ne_nil w vs) n rest (by
      rw [itemsText_cons, if_neg (List.cons_ne_nil w vs), List.length_append, List.length_append] at hn
      change _ + (2 + _) + 1 < _ at hn
      omega)
    have hskip : skip (' ' :: (itemsText (w :: vs) ++ ']' :: rest)) = itemsText (w :: vs) ++ ']' :: rest := by
      rw [itemsText_cons, List.append_assoc]
      exact skip_separated hv.2.1 _
    have hall : itemsText (v :: w :: vs) ++ ']' :: rest =
        dumpsText .default v ++ ',' :: ' ' :: (itemsText (w :: vs) ++ ']' :: rest) := by
      rw [itemsText_cons, if_neg (List.cons_ne_nil w vs), List.append_assoc]
      rfl
    rw [hall, scanItems, hscan]
    show (scanItems floats n (skip (' ' :: (itemsText (w :: vs) ++ ']' :: rest)))).map _ = _
    rw [hskip, hitems]
    rfl

theorem scanFields_dumps {floats : Floats} : ∀ (ps : List (String × Json)), WrittenFields floats ps → ps ≠ [] →
    ∀ (n : ℕ) (rest : Text), (fieldsText ps).length + 1 < n →
      scanFields floats n (fieldsText ps ++ closeBrace :: rest) = some (ps, rest)
  | [], _, hne, _, _, _ => absurd rfl hne
  | p :: ps, _, _, 0, _, hn => absurd hn (Nat.not_lt_zero _)
  | [(k, v)], hv, _, n + 1, rest, hn => by
    rw [fieldsText_cons, if_pos rfl, List.append_nil] at hn ⊢
    have hscan := scan_dumps v hv.1 n (closeBrace :: rest) (by
      simp only [fieldText, List.length_append] at hn
      omega) (stops_cons (by decide) rest)
    rw [scanFields_fieldText hv.1 hscan]
    rfl
  | (k, v) :: p :: ps, hv, _, n + 1, rest, hn => by
    have hscan := scan_dumps v hv.1 n (',' :: ' ' :: (fieldsText (p :: ps) ++ closeBrace :: rest)) (by
      simp only [fieldsText_cons, fieldText, List.length_append] at hn
      omega) (stops_cons (by decide) _)
    have hfields := scanFields_dumps (p :: ps) hv.2 (List.cons_ne_nil p ps) n rest (by
      rw [fieldsText_cons, if_neg (List.cons_ne_nil p ps), List.length_append, List.length_append] at hn
      change _ + (2 + _) + 1 < _ at hn
      omega)
    have hskip : skip (' ' :: (fieldsText (p :: ps) ++ closeBrace :: rest)) =
        fieldsText (p :: ps) ++ closeBrace :: rest := by
      rw [fieldsText_cons]
      rfl
    have hall : fieldsText ((k, v) :: p :: ps) ++ closeBrace :: rest =
        fieldText (k, v) ++ ',' :: ' ' :: (fieldsText (p :: ps) ++ closeBrace :: rest) := by
      rw [fieldsText_cons, if_neg (List.cons_ne_nil p ps), List.append_assoc]
      rfl
    rw [hall, scanFields_fieldText hv.1 hscan]
    show (scanFields floats n (skip (' ' :: (fieldsText (p :: ps) ++ closeBrace :: rest)))).map _ = _
    rw [hskip, hfields]
    rfl

end

/-- **Round trip.** `json.loads(json.dumps(v))` is `v`. -/
theorem loads_dumps {floats : Floats} {v : Json} (hv : Written floats v) : loads floats (dumps .default v) = .ok v := by
  obtain ⟨c, t, hhead, hblank, -⟩ := dumpsText_head hv
  have hscan := scan_dumps v hv ((dumpsText .default v).length + 1) [] (Nat.lt_succ_self _)
    (fun c hc => nomatch hc)
  have hskip : skip (dumpsText .default v) = dumpsText .default v := by
    rw [hhead]
    exact skip_cons hblank t
  rw [List.append_nil] at hscan
  unfold loads dumps
  simp only [String.toList_ofList, hskip, hscan]
  exact if_pos rfl

end Chancery.Core.Json
