/-
Percent-encoding of UTF-8 text (`urllib.parse.quote` and the decoding of an RFC 5987 extended value).

`quote` writes a text as its UTF-8 bytes, every byte outside `safe` as `%XX`. `unquote` reads it back.
(1) `unquote_quote`: a quoted text decodes to the text, whatever characters are safe, as long as `%` is not one of them.
(2) `printable_quote`: a quoted text is printable ASCII when the safe characters are.
Nothing here knows the repository.
-/
import Mathlib.Tactic
import Chancery.Core.Py

namespace Chancery.Core.Percent

open Chancery.Core

/-! ## Definitions -/

/-- `text.encode("utf-8")` -/
def encodeUtf8 (t : Text) : List UInt8 := t.flatMap String.utf8EncodeChar

/-- `bytes.decode("utf-8")`, strict -/
def decodeUtf8 (bytes : List UInt8) : Option Text := bytes.toByteArray.utf8Decode?.map Array.toList

/-- an upper-case hexadecimal digit -/
def upperHex (n : ℕ) : Char := if n < 10 then Char.ofNat (48 + n) else Char.ofNat (55 + n)

def quoteByte (safe : UInt8 → Bool) (b : UInt8) : Text :=
  if safe b then [Char.ofNat b.toNat] else ['%', upperHex (b.toNat / 16), upperHex (b.toNat % 16)]

/-- `quote_from_bytes` -/
def quoteBytes (safe : UInt8 → Bool) (bytes : List UInt8) : Text := bytes.flatMap (quoteByte safe)

/-- `urllib.parse.quote` -/
def quote (safe : UInt8 → Bool) (t : Text) : Text := quoteBytes safe (encodeUtf8 t)

/-- the bytes of a quoted text: `%` needs two hexadecimal digits, and any other character stands for its own byte -/
def unquoteBytes : Text → Option (List UInt8)
  | [] => some []
  | c :: rest =>
    if c = '%' then
      match rest with
      | high :: low :: rest =>
        match hexValue high, hexValue low, unquoteBytes rest with
        | some h, some l, some bytes => some (UInt8.ofNat (16 * h + l) :: bytes)
        | _, _, _ => none
      | _ => none
    else if isAsciiChar c then (unquoteBytes rest).map (UInt8.ofNat c.toNat :: ·)
    else none

def unquote (t : Text) : Option Text := (unquoteBytes t).bind decodeUtf8

/-- a visible ASCII character or a space -/
def isPrintable (c : Char) : Bool := decide (32 ≤ c.toNat ∧ c.toNat < 127)

/-! ## One byte -/

theorem hexValue_upperHex {n : ℕ} (h : n < 16) : hexValue (upperHex n) = some n := by
  interval_cases n <;> rfl

theorem isPrintable_upperHex {n : ℕ} (h : n < 16) : isPrintable (upperHex n) = true := by
  interval_cases n <;> rfl

/-- the safe bytes are ASCII characters other than `%` -/
def Plain (safe : UInt8 → Bool) : Prop := ∀ b, safe b = true → b.toNat < 128 ∧ b.toNat ≠ 37

theorem toNat_ofNat_of_lt {n : ℕ} (h : n < 128) : (Char.ofNat n).toNat = n := by
  have hvalid : n.isValidChar := Or.inl (by omega)
  unfold Char.ofNat
  rw [dif_pos hvalid]
  rfl

theorem unquoteBytes_cons {c : Char} (hne : c ≠ '%') (hascii : isAsciiChar c = true) (rest : Text) :
    unquoteBytes (c :: rest) = (unquoteBytes rest).map (UInt8.ofNat c.toNat :: ·) := by
  rw [unquoteBytes.eq_def]
  simp only [if_neg hne, if_pos hascii]

theorem unquoteBytes_percent {high low : Char} {h l : ℕ} (hhigh : hexValue high = some h) (hlow : hexValue low = some l)
    (rest : Text) :
    unquoteBytes ('%' :: high :: low :: rest) = (unquoteBytes rest).map (UInt8.ofNat (16 * h + l) :: ·) := by
  rw [unquoteBytes.eq_def]
  simp only [if_true, hhigh, hlow]
  cases unquoteBytes rest with
  | none => rfl
  | some bytes => rfl

theorem unquoteBytes_quoteByte {safe : UInt8 → Bool} (hsafe : Plain safe) (b : UInt8) (rest : Text) :
    unquoteBytes (quoteByte safe b ++ rest) = (unquoteBytes rest).map (b :: ·) := by
  unfold quoteByte
  split_ifs with hb
  · obtain ⟨hlt, hne⟩ := hsafe b hb
    have hnat := toNat_ofNat_of_lt hlt
    have hpercent : Char.ofNat b.toNat ≠ '%' := by
      intro h
      apply hne
      rw [← hnat, h]
      rfl
    have hascii : isAsciiChar (Char.ofNat b.toNat) = true := by
      simp [isAsciiChar, hnat, hlt]
    rw [List.singleton_append, unquoteBytes_cons hpercent hascii, hnat, UInt8.ofNat_toNat]
  · have hbyte : b.toNat < 256 := b.toNat_lt_size
    have hhigh := hexValue_upperHex (show b.toNat / 16 < 16 by omega)
    have hlow := hexValue_upperHex (show b.toNat % 16 < 16 by omega)
    have hjoin : 16 * (b.toNat / 16) + b.toNat % 16 = b.toNat := Nat.div_add_mod b.toNat 16
    simp only [List.cons_append, List.nil_append]
    rw [unquoteBytes_percent hhigh hlow, hjoin, UInt8.ofNat_toNat]

theorem isPrintable_quoteByte {safe : UInt8 → Bool} (hsafe : ∀ b, safe b = true → isPrintable (Char.ofNat b.toNat) = true)
    (b : UInt8) : ∀ c ∈ quoteByte safe b, isPrintable c = true := by
  intro c hc
  have hbyte : b.toNat < 256 := b.toNat_lt_size
  unfold quoteByte at hc
  split_ifs at hc with hb
  · rw [List.mem_singleton.1 hc]
    exact hsafe b hb
  · simp only [List.mem_cons, List.not_mem_nil, or_false] at hc
    rcases hc with rfl | rfl | rfl
    · rfl
    · exact isPrintable_upperHex (by omega)
    · exact isPrintable_upperHex (by omega)

/-! ## Texts -/

theorem decodeUtf8_encodeUtf8 (t : Text) : decodeUtf8 (encodeUtf8 t) = some t := by
  have h : (encodeUtf8 t).toByteArray = t.utf8Encode := rfl
  simp [decodeUtf8, h]

theorem unquoteBytes_quoteBytes {safe : UInt8 → Bool} (hsafe : Plain safe) (bytes : List UInt8) :
    unquoteBytes (quoteBytes safe bytes) = some bytes := by
  induction bytes with
  | nil => rfl
  | cons b bytes ih =>
    unfold quoteBytes at ih ⊢
    rw [List.flatMap_cons, unquoteBytes_quoteByte hsafe, ih]
    rfl

/-- **A quoted text decodes to the text.** -/
theorem unquote_quote {safe : UInt8 → Bool} (hsafe : Plain safe) (t : Text) : unquote (quote safe t) = some t := by
  unfold unquote quote
  rw [unquoteBytes_quoteBytes hsafe]
  exact decodeUtf8_encodeUtf8 t

/-- **A quoted text is printable ASCII.** -/
theorem printable_quote {safe : UInt8 → Bool} (hsafe : ∀ b, safe b = true → isPrintable (Char.ofNat b.toNat) = true)
    (t : Text) : ∀ c ∈ quote safe t, isPrintable c = true := by
  intro c hc
  obtain ⟨b, -, hb⟩ := List.mem_flatMap.1 hc
  exact isPrintable_quoteByte hsafe b c hb

end Chancery.Core.Percent
