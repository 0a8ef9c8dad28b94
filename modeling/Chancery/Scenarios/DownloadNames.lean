/-
The Content-Disposition header of a download, as the one who receives it reads it.

`parseDisposition` reads a value back: the quoted `filename`, which ends at the first quotation mark, and the `filename*`
parameter, if the value goes on with one.
(1) `header_printable`: the value is printable ASCII, and the quoted name is made of `[A-Za-z0-9._-]`, whatever the name
holds (quotation marks, line breaks, path separators).
(2) `readName_contentDisposition`: the name is never lost. `filename*` decodes to the name with its extension, and where
there is none the quoted name is that name. So two names never give one header (`contentDisposition_injective`).
(3) `download_name_kept`: both together, for every name that is not empty.
-/
import Mathlib.Tactic
import Chancery.Services.Filenames

namespace Chancery.DownloadNames

open Chancery.Core Chancery.Core.Percent Chancery.Filenames

/-- the quoted name and the extended one -/
def parseDisposition (value : Text) : Option (Text × Option Text) :=
  if opening.isPrefixOf value then
    let (filename, closed, rest) := partition quotationMark (value.drop opening.length)
    if closed = false then none
    else if rest = [] then some (filename, none)
    else if extended.isPrefixOf rest then some (filename, some (rest.drop extended.length))
    else none
  else none

theorem partition_of_not_mem {c : Char} {t rest : Text} (h : c ∉ t) : partition c (t ++ c :: rest) = (t, true, rest) := by
  induction t with
  | nil => simp [partition]
  | cons x t ih =>
    rw [List.mem_cons, not_or] at h
    simp [partition, Ne.symm h.1, ih h.2]

/-- a value that starts as `content_disposition` starts it, and goes on after the quoted name with `rest` -/
theorem parseDisposition_append {filename : Text} (h : quotationMark ∉ filename) (rest : Text) :
    parseDisposition (opening ++ (filename ++ [quotationMark]) ++ rest) =
      if rest = [] then some (filename, none)
      else if extended.isPrefixOf rest then some (filename, some (rest.drop extended.length))
      else none := by
  have hopening : opening.isPrefixOf (opening ++ (filename ++ [quotationMark]) ++ rest) = true := by
    rw [List.append_assoc]
    exact List.isPrefixOf_iff_prefix.2 (List.prefix_append _ _)
  have hbody : (opening ++ (filename ++ [quotationMark]) ++ rest).drop opening.length = filename ++
    quotationMark :: rest := by
    simp
  unfold parseDisposition
  rw [if_pos hopening, hbody, partition_of_not_mem h]
  simp

/-! ## The two parameters -/

section Header

variable {name extension fallback : Text}

/-- the quoted parameter -/
def quotedName (name extension fallback : Text) : Text := asciiFilename name fallback ++ '.' :: extension

theorem quotedName_safe (hextension : ∀ c ∈ extension, isSafeChar c = true)
    (hfallback : ∀ c ∈ fallback, isSafeChar c = true) :
    ∀ c ∈ quotedName name extension fallback, isSafeChar c = true := by
  intro c hc
  rcases List.mem_append.1 hc with h | h
  · exact asciiFilename_safe hfallback name c h
  · rcases List.mem_cons.1 h with rfl | h
    · rfl
    · exact hextension c h

/-- what a reader finds in the header of a name -/
theorem parse_contentDisposition (hne : name ≠ []) (hextension : ∀ c ∈ extension, isSafeChar c = true)
    (hfallback : ∀ c ∈ fallback, isSafeChar c = true) :
    parseDisposition (contentDisposition (some name) extension fallback) = some (quotedName name extension fallback,
      if asciiFilename name fallback = name then none else some (quote unreserved (name ++ '.' :: extension))) := by
  have hquote : quotationMark ∉ quotedName name extension fallback := fun h =>
    ne_quotationMark (quotedName_safe hextension hfallback _ h) rfl
  unfold contentDisposition
  simp only [Option.getD_some, if_neg hne]
  by_cases hsame : asciiFilename name fallback = name
  · rw [if_neg (not_not.2 hsame), if_pos hsame]
    have h := parseDisposition_append hquote []
    rwa [List.append_nil] at h
  · rw [if_pos hsame, if_neg hsame]
    have h := parseDisposition_append hquote (extended ++ quote unreserved (name ++ '.' :: extension))
    have hmark : extended.isPrefixOf (extended ++ quote unreserved (name ++ '.' :: extension)) = true :=
      List.isPrefixOf_iff_prefix.2 (List.prefix_append _ _)
    have hextended : extended ≠ [] := by decide
    rw [if_neg (List.append_ne_nil_of_left_ne_nil hextended _), if_pos hmark, List.drop_left] at h
    exact h

theorem isPrintable_opening : opening.all isPrintable = true := by decide

theorem isPrintable_extended : extended.all isPrintable = true := by decide

/-- **(1) The header is printable ASCII.** -/
theorem header_printable (hextension : ∀ c ∈ extension, isSafeChar c = true)
    (hfallback : ∀ c ∈ fallback, isSafeChar c = true) (name : Option Text) :
    ∀ c ∈ contentDisposition name extension fallback, isPrintable c = true := by
  have hvalue : ∀ c ∈ opening ++ (quotedName (name.getD []) extension fallback ++ [quotationMark]), isPrintable c =
    true := by
    intro c hc
    rcases List.mem_append.1 hc with h | h
    · exact List.all_eq_true.1 isPrintable_opening c h
    · rcases List.mem_append.1 h with h | h
      · exact isPrintable_of_isSafeChar (quotedName_safe hextension hfallback c h)
      · rw [List.mem_singleton.1 h]
        rfl
  intro c hc
  unfold contentDisposition at hc
  simp only at hc
  split_ifs at hc with hsame hempty
  · rcases List.mem_append.1 hc with h | h
    · exact hvalue c h
    · rcases List.mem_append.1 h with h | h
      · exact List.all_eq_true.1 isPrintable_extended c h
      · exact printable_quote unreserved_printable _ c h
  · rcases List.mem_append.1 hc with h | h
    · exact hvalue c h
    · rcases List.mem_append.1 h with h | h
      · exact List.all_eq_true.1 isPrintable_extended c h
      · exact printable_quote unreserved_printable _ c h
  · exact hvalue c hc

/-- what the reader of a header takes for the name of the file: the extended name, or else the quoted one -/
def readName (value : Text) : Option Text :=
  (parseDisposition value).bind fun p => p.2.elim (some p.1) unquote

/-- **(2) The name is never lost.** -/
theorem readName_contentDisposition (hne : name ≠ []) (hextension : ∀ c ∈ extension, isSafeChar c = true)
    (hfallback : ∀ c ∈ fallback, isSafeChar c = true) :
    readName (contentDisposition (some name) extension fallback) = some (name ++ '.' :: extension) := by
  unfold readName
  rw [parse_contentDisposition hne hextension hfallback]
  by_cases hsame : asciiFilename name fallback = name
  · simp [quotedName, hsame]
  · simp only [Option.bind_some, if_neg hsame, Option.elim_some]
    exact unquote_quote unreserved_plain _

theorem contentDisposition_injective {name' : Text} (hne : name ≠ []) (hne' : name' ≠ [])
    (hextension : ∀ c ∈ extension, isSafeChar c = true) (hfallback : ∀ c ∈ fallback, isSafeChar c = true)
    (h : contentDisposition (some name) extension fallback = contentDisposition (some name') extension fallback) :
    name = name' := by
  have hread := readName_contentDisposition hne hextension hfallback
  rw [h, readName_contentDisposition hne' hextension hfallback] at hread
  exact (List.append_cancel_right (Option.some.inj hread)).symm

/-- **(3) A download is named safely and without loss.** For every name that is not empty, the header is printable ASCII.
Its quoted name is of characters of `[A-Za-z0-9._-]`, and is the sanitised name or the fallback with the extension; the
extended name, if there is one, decodes to the name with the extension, and otherwise the quoted name is that. -/
theorem download_name_kept (hne : name ≠ []) (hextension : ∀ c ∈ extension, isSafeChar c = true)
    (hfallback : ∀ c ∈ fallback, isSafeChar c = true) :
    (∀ c ∈ contentDisposition (some name) extension fallback, isPrintable c = true) ∧
    ∃ filename star, parseDisposition (contentDisposition (some name) extension fallback) = some (filename, star) ∧
      (∀ c ∈ filename, isSafeChar c = true) ∧
      (filename = substitute name ++ '.' :: extension ∨ filename = fallback ++ '.' :: extension) ∧
      (∀ value, star = some value → unquote value = some (name ++ '.' :: extension)) ∧
      (star = none → filename = name ++ '.' :: extension) := by
  refine ⟨header_printable hextension hfallback (some name), quotedName name extension fallback, _,
    parse_contentDisposition hne hextension hfallback, quotedName_safe hextension hfallback, ?_, ?_, ?_⟩
  · rcases asciiFilename_cases name fallback with h | h
    · exact Or.inl (by rw [quotedName, h])
    · exact Or.inr (by rw [quotedName, h])
  · intro value hvalue
    split_ifs at hvalue
    rw [← Option.some.inj hvalue]
    exact unquote_quote unreserved_plain _
  · intro hstar
    split_ifs at hstar with hsame
    rw [quotedName, hsame]

end Header

/-- `crl` -/
def crl : Text := "crl".toList

/-- a name in Polish, of which one of four characters is kept -/
def polishName : Text := "Łódź".toList

theorem polish_name_kept :
    (∀ c ∈ contentDisposition (some polishName) crl "ca-7".toList, isPrintable c = true) ∧
    ∃ filename star, parseDisposition (contentDisposition (some polishName) crl "ca-7".toList) = some (filename, star) ∧
      (∀ c ∈ filename, isSafeChar c = true) ∧
      (filename = substitute polishName ++ '.' :: crl ∨ filename = "ca-7".toList ++ '.' :: crl) ∧
      (∀ value, star = some value → unquote value = some (polishName ++ '.' :: crl)) ∧
      (star = none → filename = polishName ++ '.' :: crl) :=
  download_name_kept (by decide) (by simp [crl, isSafeChar]) (by simp [isSafeChar])

end Chancery.DownloadNames
