/-
SHA-256, hexadecimal and base64url text.

SHA-256 is a parameter: a function from text (its UTF-8 encoding is what is hashed) to a non-empty byte string. No
collision property is assumed here; a result that needs one says so.
Nothing here knows the repository.
-/
import Mathlib.Tactic
import Chancery.Core.Py
import Chancery.Core.Json

namespace Chancery.Core

/-- `hashlib.sha256(text.encode("utf-8")).digest()` -/
structure Sha256 where
  digest : String → List UInt8
  digest_ne_nil : ∀ m, digest m ≠ []

namespace Sha256

def byteHex (b : UInt8) : Text := [Json.hexDigit (b.toNat / 16), Json.hexDigit (b.toNat % 16)]

/-- `hexdigest()` -/
def hexdigest (H : Sha256) (m : String) : String := String.ofList ((H.digest m).flatMap byteHex)

theorem hexdigest_ne_empty (H : Sha256) (m : String) : H.hexdigest m ≠ "" := by
  intro h
  have hl : (H.digest m).flatMap byteHex = [] := by simpa [hexdigest] using congrArg String.toList h
  cases hd : H.digest m with
  | nil => exact H.digest_ne_nil m hd
  | cons b bs => simp [hd, byteHex] at hl

theorem isAscii_byteHex (b : UInt8) : isAscii (byteHex b) = true := by
  have key : ∀ n < 256, isAscii [Json.hexDigit (n / 16), Json.hexDigit (n % 16)] = true := by decide +kernel
  exact key b.toNat b.toNat_lt

theorem isAscii_hexdigest (H : Sha256) (m : String) : isAscii (H.hexdigest m).toList = true := by
  simp only [hexdigest, String.toList_ofList]
  induction H.digest m with
  | nil => rfl
  | cons b bs ih =>
    simp only [List.flatMap_cons, isAscii, List.all_append, Bool.and_eq_true] at ih ⊢
    exact ⟨isAscii_byteHex b, ih⟩

/-- the three bytes of a code point -/
def codeBytes (c : Char) : List UInt8 :=
  [UInt8.ofNat (c.toNat / 65536), UInt8.ofNat (c.toNat / 256 % 256), UInt8.ofNat (c.toNat % 256)]

/-- a stand-in that keeps the whole text -/
def echo : Sha256 := ⟨fun m => 0 :: m.toList.flatMap codeBytes, fun _ => by simp⟩

theorem toNat_lt_max (c : Char) : c.toNat < 1114112 := by
  have h : c.toNat < 0xd800 ∨ 0xdfff < c.toNat ∧ c.toNat < 0x110000 := c.valid
  omega

theorem codeBytes_injective : Function.Injective codeBytes := by
  intro c d h
  simp only [codeBytes, List.cons.injEq, ← UInt8.toNat_inj, UInt8.toNat_ofNat', and_true] at h
  have hc := toNat_lt_max c
  have hd := toNat_lt_max d
  have heq : c.toNat = d.toNat := by omega
  exact Char.toNat_inj.1 heq

theorem echo_injective : Function.Injective echo.digest := by
  intro m n h
  have h' : m.toList.flatMap codeBytes = n.toList.flatMap codeBytes := by simpa [echo] using h
  suffices hl : ∀ s t : Text, s.flatMap codeBytes = t.flatMap codeBytes → s = t from String.toList_inj.1 (hl _ _ h')
  intro s
  induction s with
  | nil =>
    intro t ht
    cases t with
    | nil => rfl
    | cons d t => simp [codeBytes] at ht
  | cons c s ih =>
    intro t ht
    cases t with
    | nil => simp [codeBytes] at ht
    | cons d t =>
      have hlen : (codeBytes c).length = (codeBytes d).length := rfl
      obtain ⟨h1, h2⟩ := List.append_inj (by simpa only [List.flatMap_cons] using ht) hlen
      rw [codeBytes_injective h1, ih t h2]

end Sha256

/-! ## base64url -/

/-- the digit of a six-bit value in the URL-safe alphabet -/
def b64Digit (n : ℕ) : Char :=
  if n < 26 then Char.ofNat (65 + n)
  else if n < 52 then Char.ofNat (71 + n)
  else if n < 62 then Char.ofNat (n - 4)
  else if n = 62 then '-'
  else '_'

/-- `base64.urlsafe_b64encode(data).rstrip(b"=")` -/
def b64urlEncode : List UInt8 → Text
  | [] => []
  | [a] => [b64Digit (a.toNat / 4), b64Digit (a.toNat % 4 * 16)]
  | [a, b] =>
    [b64Digit (a.toNat / 4), b64Digit (a.toNat % 4 * 16 + b.toNat / 16), b64Digit (b.toNat % 16 * 4)]
  | a :: b :: c :: rest =>
    b64Digit (a.toNat / 4) :: b64Digit (a.toNat % 4 * 16 + b.toNat / 16) ::
      b64Digit (b.toNat % 16 * 4 + c.toNat / 64) :: b64Digit (c.toNat % 64) :: b64urlEncode rest

/-- the value of a character of the URL-safe alphabet, after the translation `-_` to `+/` -/
def b64Value (c : Char) : Option ℕ :=
  let n := c.toNat
  if 65 ≤ n ∧ n ≤ 90 then some (n - 65)
  else if 97 ≤ n ∧ n ≤ 122 then some (n - 71)
  else if 48 ≤ n ∧ n ≤ 57 then some (n + 4)
  else if n = 45 ∨ n = 43 then some 62
  else if n = 95 ∨ n = 47 then some 63
  else none

/-- the loop of CPython's `binascii.a2b_base64`, not strict: characters outside the alphabet are skipped, padding
counts only from the third digit of a group on and ends the decoding once the group is complete -/
def a2bLoop : Text → ℕ → ℕ → ℕ → Except PyError (List UInt8)
  | [], quadPos, _, _ =>
    if quadPos = 0 then .ok []
    else if quadPos = 1 then .error (.valueError "number of data characters cannot be 1 more than a multiple of 4")
    else .error (.valueError "Incorrect padding")
  | c :: rest, quadPos, leftchar, pads =>
    if c = '=' then
      if 2 ≤ quadPos then
        if 4 ≤ quadPos + (pads + 1) then .ok [] else a2bLoop rest quadPos leftchar (pads + 1)
      else a2bLoop rest quadPos leftchar pads
    else
      match b64Value c with
      | none => a2bLoop rest quadPos leftchar pads
      | some v =>
        match quadPos with
        | 0 => a2bLoop rest 1 v 0
        | 1 => (a2bLoop rest 2 (v % 16) 0).map (UInt8.ofNat (leftchar * 4 + v / 16) :: ·)
        | 2 => (a2bLoop rest 3 (v % 4) 0).map (UInt8.ofNat (leftchar * 16 + v / 4) :: ·)
        | _ => (a2bLoop rest 0 0 0).map (UInt8.ofNat (leftchar * 64 + v) :: ·)

/-- `base64.urlsafe_b64decode` -/
def urlsafeB64decode (t : Text) : Except PyError (List UInt8) :=
  if isAscii t then a2bLoop t 0 0 0 else .error (.valueError "string argument should contain only ASCII characters")

/-- `int.from_bytes(raw, "big")` -/
def intFromBytes (raw : List UInt8) : ℕ := raw.foldl (fun n b => n * 256 + b.toNat) 0

/-- `n.to_bytes(size, "big")` -/
def intToBytes (size n : ℕ) : Except PyError (List UInt8) :=
  if n < 256 ^ size then .ok ((List.range size).map fun i => UInt8.ofNat (n / 256 ^ (size - 1 - i) % 256))
  else .error (.other "OverflowError")

/-- `n.bit_length()` -/
def bitLength (n : ℕ) : ℕ := if n = 0 then 0 else n.log2 + 1

end Chancery.Core
