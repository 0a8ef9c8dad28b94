/-
Certificate policies, printed and as an extension (app/services/certificate_policies.py).

`parse_entry` and `parse_entries` stand with the profiles, whose column they fill. Here are `to_lines`, which prints a
stored list for a form field, and `build_extension` with `from_certificate`. The certificate library makes an object
identifier of a dotted text or refuses it; the only thing known of it is that it accepts every well-formed one (`OidLib`).

Results:
- `splitlines_joinWith`: lines without a line break are the lines of the printed text;
- `wellFormedOid_of_parsePolicy`: an accepted OID is well formed as soon as it is ASCII;
- `parsePolicies_lines`: the entries are the policies of the lines that bring a new OID, in order.
-/
import Mathlib.Tactic
import Chancery.Core.JsonLoads
import Chancery.Services.Profiles
import Chancery.Services.ProfileExport

namespace Chancery.Profiles

open Chancery.Core
open Chancery.Acme (truthy)

variable {lib : ProfileLib} {line oid : Text} {p : Text × Option Text}

/-! ## Object identifiers -/

/-- an object identifier: its arcs -/
structure ObjectId where
  first : ℕ
  second : ℕ
  rest : List ℕ
  first_le : first ≤ 2
  second_lt : first < 2 → second < 40

/-- dotted decimal -/
def ObjectId.text (o : ObjectId) : Text := Json.joinWith ['.'] ((o.first :: o.second :: o.rest).map (Nat.toDigits 10))

def WellFormedOid (oid : Text) : Prop := ∃ o : ObjectId, o.text = oid

/-- `x509.ObjectIdentifier` and its `dotted_string` -/
structure OidLib where
  objectIdentifier : Text → Except PyError Text
  accepts : ∀ oid, WellFormedOid oid → objectIdentifier oid = .ok oid

/-! ## Printing -/

/-- `f"{p['oid']} {p.get('cps_uri') or ''}".strip()` -/
def printedPolicy (lib : ProfileLib) : Json → Except PyError Text
  | .obj items =>
    match items.lookup "oid" with
    | none => .error (.keyError "oid")
    | some oid =>
      .ok (strip (shown lib oid ++ ' ' ::
        if truthy (Json.get items "cps_uri") then shown lib (Json.get items "cps_uri") else []))
  | _ => .error typeError

/-- `to_lines` -/
def toLines (lib : ProfileLib) (policies : List Json) : Except PyError Text := do
  let lines ← policies.mapM (printedPolicy lib)
  .ok (Json.joinWith ['\n'] lines)

/-! ## The extension -/

/-- a policy qualifier: a CPS URI is a `str` -/
inductive Qualifier
  | uri (text : Text)
  | userNotice
deriving DecidableEq, Repr

structure PolicyInformation where
  policyIdentifier : Text
  policyQualifiers : Option (List Qualifier)
deriving DecidableEq, Repr

/-- `x509.PolicyInformation` of a stored policy -/
def policyInformation (x : OidLib) : Json → Except PyError PolicyInformation
  | .obj items =>
    match items.lookup "oid" with
    | none => .error (.keyError "oid")
    | some (.str oid) => do
      let identifier ← x.objectIdentifier oid.toList
      match Json.get items "cps_uri" with
      | .str uri => .ok ⟨identifier, if uri = "" then none else some [.uri uri.toList]⟩
      | v => if truthy v then .error typeError else .ok ⟨identifier, none⟩
    | some _ => .error typeError
  | _ => .error typeError

/-- `build_extension` -/
def buildExtension (x : OidLib) (policies : List Json) : Except PyError (Option (List PolicyInformation)) :=
  if policies.isEmpty then .ok none else (policies.mapM (policyInformation x)).map some

def Qualifier.uri? : Qualifier → Option Text
  | .uri text => some text
  | .userNotice => none

/-- `from_certificate`, of the certificate's extension -/
def fromCertificate : Option (List PolicyInformation) → Option (List Json)
  | none => none
  | some infos =>
    let out := infos.map fun info =>
      policyJson (info.policyIdentifier, (info.policyQualifiers.getD []).findSome? Qualifier.uri?)
    if out.isEmpty then none else some out

/-! ## Lines -/

theorem splitlinesFrom_line {line : Text} (acc rest : Text) (hline : ∀ c ∈ line, isLineBreak c = false) (after : Bool)
    (hafter : after = true → acc = []) (hne : line ≠ []) :
    splitlinesFrom acc after (line ++ rest) = splitlinesFrom (line.reverse ++ acc) false rest := by
  induction line generalizing acc after with
  | nil => exact absurd rfl hne
  | cons c line ih =>
    have hc : isLineBreak c = false := hline c List.mem_cons_self
    have hnewline : ¬ (after = true ∧ c.toNat = 10) := by
      rintro ⟨-, h⟩
      simp [isLineBreak, h] at hc
    rw [List.cons_append, splitlinesFrom, if_neg hnewline, if_neg (by simp [hc])]
    by_cases hnil : line = []
    · subst hnil
      rfl
    · rw [ih (c :: acc) (fun d hd => hline d (List.mem_cons_of_mem _ hd)) false (by simp) hnil]
      simp

/-- **Lines are read back** from the text they are printed to, if none is empty and none has a line break in it. -/
theorem splitlines_joinWith {lines : List Text} (h : ∀ l ∈ lines, l ≠ [] ∧ ∀ c ∈ l, isLineBreak c = false) :
    splitlines (Json.joinWith ['\n'] lines) = lines := by
  unfold splitlines
  induction lines with
  | nil => rfl
  | cons l lines ih =>
    obtain ⟨hne, hplain⟩ := h l List.mem_cons_self
    have ih := ih fun m hm => h m (List.mem_cons_of_mem _ hm)
    cases lines with
    | nil =>
      have hrev : l.reverse ≠ [] := by simpa using hne
      have hfrom := splitlinesFrom_line [] [] hplain false (by simp) hne
      rw [List.append_nil, List.append_nil] at hfrom
      rw [Json.joinWith_singleton, hfrom, splitlinesFrom, if_neg hrev, List.reverse_reverse]
    | cons m lines =>
      rw [Json.joinWith_cons_cons, splitlinesFrom_line [] _ hplain false (by simp) hne]
      have hbreak : splitlinesFrom (l.reverse ++ []) false (['\n'] ++ Json.joinWith ['\n'] (m :: lines)) =
          l :: splitlinesFrom [] false (Json.joinWith ['\n'] (m :: lines)) := by
        simp [splitlinesFrom, isLineBreak]
      rw [hbreak, ih]

/-- no line has a line break in it -/
theorem splitlinesFrom_plain {t acc l : Text} {after : Bool} (hacc : ∀ c ∈ acc, isLineBreak c = false)
    (hl : l ∈ splitlinesFrom acc after t) : ∀ c ∈ l, isLineBreak c = false := by
  induction t generalizing acc after with
  | nil =>
    unfold splitlinesFrom at hl
    split_ifs at hl
    · cases hl
    · obtain rfl := List.mem_singleton.1 hl
      simpa using hacc
  | cons c t ih =>
    unfold splitlinesFrom at hl
    split_ifs at hl with hreturn hbreak
    · exact ih hacc hl
    · rcases List.mem_cons.1 hl with rfl | hl
      · simpa using hacc
      · exact ih (by simp) hl
    · refine ih (fun d hd => ?_) hl
      rcases List.mem_cons.1 hd with rfl | hd
      · simpa using hbreak
      · exact hacc d hd

theorem splitlines_plain {t l : Text} (hl : l ∈ splitlines t) : ∀ c ∈ l, isLineBreak c = false :=
  splitlinesFrom_plain (by simp) hl

/-- every line break is white space -/
theorem isSpace_of_isLineBreak {c : Char} (h : isLineBreak c = true) : isSpace c = true := by
  simp only [isLineBreak, Bool.or_eq_true, Bool.and_eq_true, decide_eq_true_eq, beq_iff_eq] at h
  simp only [isSpace, Bool.or_eq_true, Bool.and_eq_true, decide_eq_true_eq, beq_iff_eq]
  omega

/-! ## Well-formed identifiers -/

theorem mem_joinWith {c : Char} {sep : Text} {parts : List Text} (h : c ∈ Json.joinWith sep parts) :
    c ∈ sep ∨ ∃ part ∈ parts, c ∈ part := by
  induction parts with
  | nil => cases h
  | cons part parts ih =>
    cases parts with
    | nil =>
      rw [Json.joinWith_singleton] at h
      exact .inr ⟨part, List.mem_cons_self, h⟩
    | cons q parts =>
      rw [Json.joinWith_cons_cons, List.mem_append, List.mem_append] at h
      rcases h with h | h | h
      · exact .inr ⟨part, List.mem_cons_self, h⟩
      · exact .inl h
      · exact (ih h).imp_right fun ⟨r, hr, hc⟩ => ⟨r, List.mem_cons_of_mem _ hr, hc⟩

theorem joinWith_splitOn (c : Char) (t : Text) : Json.joinWith [c] (splitOn c t) = t := by
  induction t with
  | nil => rfl
  | cons x t ih =>
    cases hsplit : splitOn c t with
    | nil =>
      rw [hsplit] at ih
      subst ih
      cases hsplit
    | cons part parts =>
      rw [hsplit] at ih
      unfold splitOn
      split_ifs with hx
      · rw [hsplit, Json.joinWith_cons_cons, ih, hx]
        rfl
      · rw [hsplit]
        dsimp only
        cases parts with
        | nil =>
          rw [Json.joinWith_singleton] at ih ⊢
          rw [ih]
        | cons q parts =>
          rw [Json.joinWith_cons_cons] at ih ⊢
          rw [List.cons_append, ih]

theorem toNat_of_isDigit {c : Char} (h : c.isDigit = true) : 48 ≤ c.toNat ∧ c.toNat ≤ 57 := by
  simpa [Char.isDigit, UInt32.le_iff_toNat_le] using h

/-- digits without a zero in front are the digits of a number -/
theorem toDigits_ofDigitChars {arc : Text} (hne : arc ≠ []) (hdigits : ∀ c ∈ arc, c.isDigit = true)
    (hzero : ¬ (1 < arc.length ∧ arc.head? = some '0')) : Nat.toDigits 10 (Nat.ofDigitChars 10 arc 0) = arc := by
  induction arc using List.reverseRecOn with
  | nil => exact absurd rfl hne
  | append_singleton l c ih =>
    have hc := toNat_of_isDigit (hdigits c (by simp))
    have hlt : c.toNat - 48 < 10 := by omega
    have hchar : (c.toNat - 48).digitChar = c := by
      apply Char.toNat_inj.1
      rw [Nat.toNat_digitChar_of_lt_ten hlt]
      omega
    have hvalue : Nat.ofDigitChars 10 (l ++ [c]) 0 = 10 * Nat.ofDigitChars 10 l 0 + (c.toNat - 48) := by
      rw [Nat.ofDigitChars_append, Nat.ofDigitChars_cons, Nat.ofDigitChars_nil]
      rfl
    by_cases hl : l = []
    · subst hl
      rw [hvalue, Nat.ofDigitChars_nil, Nat.mul_zero, Nat.zero_add, Nat.toDigits_of_lt_base hlt, hchar]
      rfl
    · have hhead : (l ++ [c]).head? = l.head? := List.head?_append_of_ne_nil _ hl
      have hlong : 1 < (l ++ [c]).length := by
        have := List.length_pos_iff.2 hl
        rw [List.length_append]
        simpa using this
      have hnot : l.head? ≠ some '0' := fun h => hzero ⟨hlong, hhead.trans h⟩
      have hdig := ih hl (fun d hd => hdigits d (List.mem_append_left _ hd)) fun h => hnot h.2
      have hpos : 0 < Nat.ofDigitChars 10 l 0 := by
        rcases Nat.eq_zero_or_pos (Nat.ofDigitChars 10 l 0) with h0 | hpos
        · rw [h0] at hdig
          exact absurd (by rw [← hdig]; rfl) hnot
        · exact hpos
      rw [hvalue, ← Nat.toDigits_append_toDigits (by norm_num) hpos hlt, hdig, Nat.toDigits_of_lt_base hlt, hchar]

/-- a well-formed identifier is ASCII -/
theorem WellFormedOid.ascii (h : WellFormedOid oid) : isAscii oid = true := by
  obtain ⟨o, rfl⟩ := h
  refine List.all_eq_true.2 fun c hc => ?_
  rcases mem_joinWith hc with hdot | ⟨arc, harc, hc⟩
  · obtain rfl := List.mem_singleton.1 hdot
    rfl
  · obtain ⟨n, -, rfl⟩ := List.mem_map.1 harc
    have hdigit := toNat_of_isDigit (Nat.isDigit_of_mem_toDigits (by norm_num) (by norm_num) hc)
    simp only [isAsciiChar, decide_eq_true_eq]
    omega

/-- what the checks of `parse_entry` leave of an OID -/
theorem parsePolicy_oid (h : parsePolicy lib line = .ok (some p)) :
    isOid lib (splitOn '.' p.1) = true ∧ (∃ n, secondArc lib (splitOn '.' p.1) = .ok n ∧ n ≤ 39) ∧
      ∀ arc ∈ splitOn '.' p.1, ¬ (1 < arc.length ∧ arc.head? = some '0') := by
  have hoid := (parsePolicy_some h).1
  unfold policyParts at hoid
  unfold parsePolicy at h
  dsimp only at h hoid
  rw [← hoid] at h
  split at h
  · cases h
  split at h
  · cases h
  · rename_i hpattern
    obtain ⟨second, hsecond, h⟩ := bind_eq_ok.1 h
    split at h
    · cases h
    · rename_i hle
      split at h
      · cases h
      · rename_i hzero
        refine ⟨by simpa using hpattern, ⟨second, hsecond, not_lt.1 hle⟩, fun arc harc hbad => hzero ?_⟩
        refine List.any_eq_true.2 ⟨arc, harc, ?_⟩
        simp [hbad.1, hbad.2]

/-- **An accepted OID is well formed** as soon as it is ASCII. -/
theorem wellFormedOid_of_parsePolicy (h : parsePolicy lib line = .ok (some p)) (hascii : isAscii p.1 = true) :
    WellFormedOid p.1 := by
  obtain ⟨hoid, ⟨n, hsecond, hle⟩, hzero⟩ := parsePolicy_oid h
  have hascii : ∀ arc ∈ splitOn '.' p.1, ∀ c ∈ arc, c.toNat < 128 := by
    intro arc harc c hc
    have := List.all_eq_true.1 hascii c (mem_of_mem_splitOn harc hc)
    simpa [isAsciiChar] using this
  have hjoin := joinWith_splitOn '.' p.1
  obtain ⟨first, rest, hsplit⟩ : ∃ first rest, splitOn '.' p.1 = first :: rest :=
    List.exists_cons_of_ne_nil fun hnil => by simp [isOid, hnil] at hoid
  rw [hsplit] at hoid hsecond hzero hascii hjoin
  simp only [isOid, Bool.and_eq_true, Bool.or_eq_true, beq_iff_eq, decide_eq_true_eq, List.all_eq_true] at hoid
  obtain ⟨⟨hfirst, hrest⟩, hdigits⟩ := hoid
  obtain ⟨second, rest, rfl⟩ := List.exists_cons_of_ne_nil hrest
  have hplain : ∀ arc ∈ second :: rest, ∀ c ∈ arc, c.isDigit = true := by
    intro arc harc c hc
    rw [← lib.isDecimal_ascii c (hascii arc (List.mem_cons_of_mem _ harc) c hc)]
    exact (hdigits arc harc).2 c hc
  have hnumber : ∀ arc ∈ second :: rest, Nat.toDigits 10 (Nat.ofDigitChars 10 arc 0) = arc := fun arc harc =>
    toDigits_ofDigitChars (hdigits arc harc).1 (hplain arc harc) (hzero arc (List.mem_cons_of_mem _ harc))
  have hbound : first ≠ ['2'] → Nat.ofDigitChars 10 second 0 < 40 := by
    intro hne
    rw [secondArc, if_neg (by simpa using hne)] at hsecond
    have hparse : lib.parseInt second = some n := by
      simp only [pyInt, List.getElem?_cons_succ, List.getElem?_cons_zero, Option.getD_some, String.toList_ofList] at hsecond
      split at hsecond
      · rename_i m hm
        rw [hm, Except.ok.inj hsecond]
      · cases hsecond
    have hval := lib.parseInt_digits second n (List.all_eq_true.2 (hplain second List.mem_cons_self)) hparse
    omega
  have htext : ∀ a : ℕ, first = Nat.toDigits 10 a →
      Json.joinWith ['.'] ((a :: (second :: rest).map fun arc => Nat.ofDigitChars 10 arc 0).map (Nat.toDigits 10)) =
        p.1 := by
    intro a ha
    have hmap : ((second :: rest).map fun arc => Nat.ofDigitChars 10 arc 0).map (Nat.toDigits 10) = second :: rest := by
      rw [List.map_map]
      exact (List.map_congr_left hnumber).trans (List.map_id _)
    rw [List.map_cons, hmap, ← ha, hjoin]
  rcases hfirst with (rfl | rfl) | rfl
  · exact ⟨⟨0, _, _, by norm_num, fun _ => hbound (by decide)⟩, htext 0 (by decide)⟩
  · exact ⟨⟨1, _, _, by norm_num, fun _ => hbound (by decide)⟩, htext 1 (by decide)⟩
  · exact ⟨⟨2, _, _, by norm_num, fun h => absurd h (by norm_num)⟩, htext 2 (by decide)⟩

/-! ## Entries -/

/-- does the line name a policy: it is neither blank nor a comment -/
def Significant (line : Text) : Prop := strip line ≠ [] ∧ (strip line).head? ≠ some '#'

instance (line : Text) : Decidable (Significant line) := by
  unfold Significant
  infer_instance

/-- the lines that bring a new OID -/
def firstLines (seen : List Text) : List Text → List Text
  | [] => []
  | line :: rest =>
    if Significant line ∧ (policyParts line).1 ∉ seen then line :: firstLines ((policyParts line).1 :: seen) rest
    else firstLines seen rest

theorem parsePolicy_none_iff {o : Option (Text × Option Text)} (h : parsePolicy lib line = .ok o) :
    o = none ↔ ¬ Significant line := by
  unfold Significant
  unfold parsePolicy at h
  dsimp only at h
  split at h
  · rename_i hblank
    obtain rfl := Except.ok.inj h
    simpa using fun hne => hblank.resolve_left hne
  · rename_i hblank
    rw [not_or] at hblank
    refine iff_of_false ?_ fun hnot => hnot hblank
    rintro rfl
    split at h
    · cases h
    obtain ⟨second, -, h⟩ := bind_eq_ok.1 h
    split_ifs at h
    · cases h
    · obtain ⟨url, -, h⟩ := bind_eq_ok.1 h
      split_ifs at h
      cases h

/-- **Entries.** The policies of `parse_entries` are those of the lines that bring a new OID, in order. -/
theorem parsePolicies_lines {items : List Json} {seen : List Text} {out : List Json}
    (h : parsePolicies lib items seen = .ok out) :
    ∃ lines ps, items.mapM (policyLine lib) = .ok lines ∧ out = ps.map policyJson ∧
      List.Forall₂ (fun line p => parsePolicy lib line = .ok (some p)) (firstLines seen lines) ps := by
  induction items generalizing seen out with
  | nil =>
    obtain rfl := Except.ok.inj h
    exact ⟨[], [], rfl, rfl, .nil⟩
  | cons item items ih =>
    obtain ⟨line, hline, h⟩ := bind_eq_ok.1 h
    obtain ⟨parsed, hparsed, h⟩ := bind_eq_ok.1 h
    have hcons : ∀ lines, items.mapM (policyLine lib) = .ok lines →
        (item :: items).mapM (policyLine lib) = .ok (line :: lines) := by
      intro lines hlines
      rw [List.mapM_cons, hline, hlines]
      rfl
    cases parsed with
    | none =>
      obtain ⟨lines, ps, hlines, hout, hps⟩ := ih h
      have hblank : ¬ Significant line := (parsePolicy_none_iff hparsed).1 rfl
      refine ⟨line :: lines, ps, hcons lines hlines, hout, ?_⟩
      rw [firstLines, if_neg fun hsig => hblank hsig.1]
      exact hps
    | some p =>
      have hsig : Significant line := by
        by_contra hnot
        cases (parsePolicy_none_iff hparsed).2 hnot
      have hoid := (parsePolicy_some hparsed).1
      dsimp only at h
      split_ifs at h with hseen
      · obtain ⟨lines, ps, hlines, hout, hps⟩ := ih h
        refine ⟨line :: lines, ps, hcons lines hlines, hout, ?_⟩
        rw [firstLines, if_neg fun hnew => hnew.2 (hoid ▸ hseen)]
        exact hps
      · obtain ⟨rest, hrest, h⟩ := bind_eq_ok.1 h
        obtain rfl := Except.ok.inj h
        obtain ⟨lines, ps, hlines, rfl, hps⟩ := ih hrest
        refine ⟨line :: lines, p :: ps, hcons lines hlines, rfl, ?_⟩
        rw [firstLines, if_pos ⟨hsig, hoid ▸ hseen⟩, ← hoid]
        exact .cons hparsed hps

end Chancery.Profiles
