/-
Content-Disposition values (app/services/filenames.py).

`ascii_filename` replaces every character outside `[A-Za-z0-9._-]` by an underscore, and gives the fallback instead when
nothing but `._-` is left or when fewer than half of the characters were kept. `content_disposition` writes the ASCII name
as the quoted `filename`, and the exact name as `filename*` when the two differ.
Names are texts of Unicode scalar values: a lone surrogate, on which `quote` raises, is left out.
-/
import Mathlib.Tactic
import Chancery.Core.Py
import Chancery.Core.Percent

namespace Chancery.Filenames

open Chancery.Core Chancery.Core.Percent

/-- `[A-Za-z0-9._-]` -/
def isSafeChar (c : Char) : Bool := c.isAlphanum || c == '.' || c == '_' || c == '-'

/-- `_ASCII_UNSAFE.sub("_", name)` -/
def substitute (name : Text) : Text := name.map fun c => if isSafeChar c then c else '_'

/-- `sum(1 for a, b in zip(name, safe) if a == b)` -/
def kept (name safe : Text) : ℕ := (name.zip safe).countP fun p => p.1 == p.2

/-- a character that `strip("._-")` takes off -/
def isFiller (c : Char) : Bool := c == '.' || c == '_' || c == '-'

def asciiFilename (name fallback : Text) : Text :=
  let safe := substitute name
  if (safe.dropWhile isFiller).rdropWhile isFiller = [] ∨ kept name safe * 2 < name.length then fallback else safe

/-- the bytes `quote(…, safe="")` leaves as they are: letters, digits and `_.-~` -/
def unreserved (b : UInt8) : Bool :=
  decide (b.toNat < 128) && (isSafeChar (Char.ofNat b.toNat) || b.toNat == 126)

def quotationMark : Char := Char.ofNat 34

/-- `attachment; filename="` -/
def opening : Text := "attachment; filename=".toList ++ [quotationMark]

/-- `; filename*=UTF-8''` -/
def extended : Text := "; filename*=UTF-8\x27\x27".toList

def contentDisposition (name : Option Text) (extension fallback : Text) : Text :=
  let given := name.getD []
  let asciiName := asciiFilename given fallback
  let value := opening ++ (asciiName ++ '.' :: extension ++ [quotationMark])
  if asciiName ≠ given then
    value ++ (extended ++ quote unreserved ((if given = [] then fallback else given) ++ '.' :: extension))
  else value

/-! ## The characters -/

theorem isSafeChar_spec {c : Char} (h : isSafeChar c = true) : 45 ≤ c.toNat ∧ c.toNat ≤ 122 := by
  change ((((decide (65 ≤ c.val ∧ c.val ≤ 90) || (decide (97 ≤ c.val) && decide (c.val ≤ 122))) ||
    (decide (48 ≤ c.val) && decide (c.val ≤ 57))) || c == '.') || c == '_') || c == '-' at h
  simp only [Bool.or_eq_true, Bool.and_eq_true, decide_eq_true_eq, beq_iff_eq, UInt32.le_iff_toNat_le] at h
  change (((((65 ≤ c.toNat ∧ c.toNat ≤ 90) ∨ (97 ≤ c.toNat ∧ c.toNat ≤ 122)) ∨ (48 ≤ c.toNat ∧ c.toNat ≤ 57)) ∨ c = '.') ∨
    c = '_') ∨ c = '-' at h
  rcases h with ((h | rfl) | rfl) | rfl
  · omega
  · decide
  · decide
  · decide

theorem isPrintable_of_isSafeChar {c : Char} (h : isSafeChar c = true) : isPrintable c = true := by
  have hrange := isSafeChar_spec h
  simp only [isPrintable, decide_eq_true_eq]
  omega

theorem ne_quotationMark {c : Char} (h : isSafeChar c = true) : c ≠ quotationMark := by
  rintro rfl
  cases h

theorem substitute_safe (name : Text) : ∀ c ∈ substitute name, isSafeChar c = true := by
  intro c hc
  obtain ⟨x, -, rfl⟩ := List.mem_map.1 hc
  split_ifs with hx
  · exact hx
  · rfl

theorem asciiFilename_cases (name fallback : Text) :
    asciiFilename name fallback = substitute name ∨ asciiFilename name fallback = fallback := by
  unfold asciiFilename
  simp only
  split_ifs
  · exact Or.inr rfl
  · exact Or.inl rfl

theorem asciiFilename_safe {fallback : Text} (hfallback : ∀ c ∈ fallback, isSafeChar c = true) (name : Text) :
    ∀ c ∈ asciiFilename name fallback, isSafeChar c = true := by
  rcases asciiFilename_cases name fallback with h | h
  · rw [h]
    exact substitute_safe name
  · rw [h]
    exact hfallback

theorem unreserved_plain : Plain unreserved := by
  intro b hb
  simp only [unreserved, Bool.and_eq_true, Bool.or_eq_true, decide_eq_true_eq, beq_iff_eq] at hb
  obtain ⟨hlt, hsafe | htilde⟩ := hb
  · have hrange := isSafeChar_spec hsafe
    rw [toNat_ofNat_of_lt hlt] at hrange
    omega
  · omega

theorem unreserved_printable (b : UInt8) (hb : unreserved b = true) : isPrintable (Char.ofNat b.toNat) = true := by
  simp only [unreserved, Bool.and_eq_true, Bool.or_eq_true, decide_eq_true_eq, beq_iff_eq] at hb
  obtain ⟨hlt, hsafe | htilde⟩ := hb
  · exact isPrintable_of_isSafeChar hsafe
  · rw [htilde]
    rfl

end Chancery.Filenames
