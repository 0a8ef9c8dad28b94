/-
JSON values and `json.dumps`.

`Json` is what `json.loads` can return; `dumps` is CPython's encoder with `ensure_ascii=True`, over the two options the
services use (separators, `sort_keys`). `json.loads` itself is a parameter wherever stored or received text is parsed.
An object is its list of items, in insertion order and with distinct keys, as in a dict.
Nothing here knows the repository.
-/
import Mathlib.Tactic
import Chancery.Core.Py

namespace Chancery.Core

/-- a value of `json.loads`; a float is its exact value (`none` for NaN and the infinities) with its `repr` -/
inductive Json
  | null
  | bool (b : Bool)
  | num (n : ℤ)
  | float (value : Option ℚ) (repr : String)
  | str (s : String)
  | arr (items : List Json)
  | obj (items : List (String × Json))
deriving Repr

namespace Json

/-- `dict.get(key)` with `None` for a missing key -/
def get (items : List (String × Json)) (k : String) : Json := (items.lookup k).getD null

/-- Python's `v == n` for an int: `True` and `False` are 1 and 0, a float compares by value -/
def eqInt : Json → ℤ → Bool
  | num m, n => m == n
  | bool b, n => (if b then 1 else 0) == n
  | float (some q) _, n => q == n
  | _, _ => false

/-- Python's `v == s` for a string -/
def eqStr : Json → String → Bool
  | str s, t => s == t
  | _, _ => false

/-- the number Python compares by, for numbers and truth values -/
def number? : Json → Option ℚ
  | num n => some n
  | bool b => some (if b then 1 else 0)
  | float q _ => q
  | _ => none

mutual

/-- Python's `==` on JSON values: numbers and truth values by value, dicts without regard to order -/
def pyEq : Json → Json → Bool
  | null, null => true
  | str s, str t => s == t
  | arr vs, arr ws => itemsEq vs ws
  | obj vs, obj ws => vs.length == ws.length && fieldsEq vs ws
  | v, w => match v.number?, w.number? with
    | some p, some q => p == q
    | _, _ => false

def itemsEq : List Json → List Json → Bool
  | [], [] => true
  | v :: vs, w :: ws => pyEq v w && itemsEq vs ws
  | _, _ => false

def fieldsEq : List (String × Json) → List (String × Json) → Bool
  | [], _ => true
  | (k, v) :: vs, ws =>
    (match ws.lookup k with
      | some w => pyEq v w
      | none => false) && fieldsEq vs ws

end

/-- Python's `str(v)` for a number or a truth value -/
def pyStr : Json → String
  | num n => toString n
  | bool true => "True"
  | bool false => "False"
  | float _ repr => repr
  | _ => ""

/-- `json.loads(text)`: the value, `ValueError` for text that is not JSON, or another exception -/
abbrev Loads := String → Except PyError Json

/-! ## The encoder -/

def hexDigit (n : ℕ) : Char := if n < 10 then Char.ofNat (48 + n) else Char.ofNat (87 + n)

/-- `\uXXXX` -/
def unicodeEscape (n : ℕ) : Text :=
  ['\\', 'u', hexDigit (n / 4096 % 16), hexDigit (n / 256 % 16), hexDigit (n / 16 % 16), hexDigit (n % 16)]

/-- one character inside a string literal, `ensure_ascii=True`: characters beyond the BMP become a surrogate pair -/
def escapeChar (c : Char) : Text :=
  let n := c.toNat
  if n = 34 then ['\\', c]
  else if n = 92 then ['\\', c]
  else if n = 10 then ['\\', 'n']
  else if n = 13 then ['\\', 'r']
  else if n = 9 then ['\\', 't']
  else if n = 12 then ['\\', 'f']
  else if n = 8 then ['\\', 'b']
  else if 32 ≤ n ∧ n < 127 then [c]
  else if n < 65536 then unicodeEscape n
  else
    let v := n - 65536
    unicodeEscape (55296 + v / 1024) ++ unicodeEscape (56320 + v % 1024)

def quote : Char := Char.ofNat 34

def encodeStr (s : String) : Text := quote :: (s.toList.flatMap escapeChar ++ [quote])

/-- the options of `json.dumps` in use -/
structure Style where
  itemSep : String
  keySep : String
  sortKeys : Bool

/-- the defaults of `json.dumps` -/
def Style.default : Style := ⟨", ", ": ", false⟩

/-- `sort_keys=True, separators=(",", ":")` -/
def Style.canonical : Style := ⟨",", ":", true⟩

def sortItems (items : List (String × Text)) : List (String × Text) :=
  items.insertionSort fun a b => a.1 ≤ b.1

def joinWith (sep : Text) (parts : List Text) : Text := (parts.intersperse sep).flatten

mutual

def dumpsText (st : Style) : Json → Text
  | null => "null".toList
  | bool true => "true".toList
  | bool false => "false".toList
  | num n => (toString n).toList
  | float _ repr => repr.toList
  | str s => encodeStr s
  | arr items => '[' :: (joinWith st.itemSep.toList (dumpsItems st items) ++ [']'])
  | obj items =>
    let encoded := dumpsFields st items
    let ordered := if st.sortKeys then sortItems encoded else encoded
    Char.ofNat 123 ::
      (joinWith st.itemSep.toList (ordered.map fun p => encodeStr p.1 ++ st.keySep.toList ++ p.2) ++ [Char.ofNat 125])

def dumpsItems (st : Style) : List Json → List Text
  | [] => []
  | v :: vs => dumpsText st v :: dumpsItems st vs

def dumpsFields (st : Style) : List (String × Json) → List (String × Text)
  | [] => []
  | (k, v) :: vs => (k, dumpsText st v) :: dumpsFields st vs

end

/-- `json.dumps` -/
def dumps (st : Style) (v : Json) : String := String.ofList (dumpsText st v)

example : dumps .canonical (obj [("b", arr [num 1, null]), ("a", str "é")]) =
    "\x7b\"a\":\"\\u00e9\",\"b\":[1,null]\x7d" := by decide

/-- an optional string or number as a JSON value -/
def ofStr : Option String → Json
  | none => null
  | some s => str s

def ofNum : Option ℤ → Json
  | none => null
  | some n => num n

end Json

end Chancery.Core
