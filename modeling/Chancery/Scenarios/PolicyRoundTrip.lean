/-
Certificate policies are parsed, printed and encoded consistently.

`policies_consistent`: take any input that `parse_entries` accepts (text, a list of lines, a list of dictionaries). The
stored list has distinct well-formed OIDs, is read back from its printed lines, and is read back from the extension built
of it, if and only if every line of the input that brings a new OID is plain (`PlainLine`): its OID is ASCII, and there
is no line break inside its CPS URI.

Witnesses that both halves of the condition are needed:
- `odd_policies`: `\d` also matches the digits of other scripts, so such an OID is stored although no certificate can
carry it;
- the CPS URI of an imported dictionary may have a line break in it, and its printed line is then read as two (the same
  theorem).
-/
import Mathlib.Tactic
import Chancery.Services.CertificatePolicies
import Chancery.Scenarios.IssuedUsage

namespace Chancery.Profiles

open Chancery.Core
open Chancery.Acme (truthy)

variable {lib : ProfileLib} {x : OidLib} {line : Text} {p q : Text × Option Text} {ps : List (Text × Option Text)}

/-! ## The property and the condition -/

/-- `entry.get("oid")` -/
def entryOid : Json → Option Json
  | .obj items => items.lookup "oid"
  | _ => none

/-- the stored list agrees with its printed lines and with its extension -/
structure Consistent (lib : ProfileLib) (x : OidLib) (out : List Json) : Prop where
  wellFormed : ∀ entry ∈ out, ∃ oid, entryOid entry = some (.str oid) ∧ WellFormedOid oid.toList
  distinct : (out.map entryOid).Nodup
  printed : ∃ text, toLines lib out = .ok text ∧ parseEntries lib (.str (String.ofList text)) = .ok out
  /-- no policies, no extension -/
  carried : ∃ ext, buildExtension x out = .ok ext ∧ fromCertificate ext = if out.isEmpty then none else some out

/-- the items of the input -/
def policyItems (v : Json) : Except PyError (List Json) :=
  match v with
  | .str s => .ok ((splitlines s.toList).map fun l => Json.str (String.ofList l))
  | v => if truthy v then iterate v else .ok []

/-- the lines of the input: those of a text, or an item each -/
def inputLines (lib : ProfileLib) (v : Json) : Except PyError (List Text) := policyItems v >>= List.mapM (policyLine lib)

/-- an ASCII word, and no line break in what follows it -/
def PlainLine (line : Text) : Prop :=
  isAscii (policyParts line).1 = true ∧ ∀ c ∈ (policyParts line).2, isLineBreak c = false

instance (line : Text) : Decidable (PlainLine line) := @instDecidableAnd _ _ inferInstance (List.decidableBAll _ _)

/-- the lines that bring a new OID are plain -/
def PlainInput (lib : ProfileLib) (v : Json) : Prop :=
  ∃ lines, inputLines lib v = .ok lines ∧ ∀ line ∈ firstLines [] lines, PlainLine line

theorem parseEntries_eq (v : Json) : parseEntries lib v = policyItems v >>= fun items => parsePolicies lib items [] := by
  unfold parseEntries policyItems
  cases v with
  | str s => rfl
  | _ =>
    dsimp only
    split_ifs <;> rfl

/-! ## Stored policies -/

theorem policyJson_injective : Function.Injective policyJson := by
  rintro ⟨oid, cps⟩ ⟨oid', cps'⟩ h
  simp only [policyJson, Json.obj.injEq, List.cons.injEq, Prod.mk.injEq, Json.str.injEq, true_and, and_true] at h
  obtain ⟨hoid, hcps⟩ := h
  rw [String.ofList_injective hoid]
  cases cps <;> cases cps' <;> simp [Json.ofStr] at hcps ⊢
  exact String.ofList_injective hcps

theorem entryOid_policyJson (p : Text × Option Text) : entryOid (policyJson p) = some (.str (String.ofList p.1)) := rfl

/-- a stored OID has no white space in it -/
theorem parsePolicy_word (h : parsePolicy lib line = .ok (some p)) : ∀ c ∈ p.1, isSpace c = false := by
  intro c hc
  rw [(parsePolicy_some h).1] at hc
  simpa using List.mem_takeWhile_imp hc

/-- a stored URI is not empty -/
theorem parsePolicy_uri (h : parsePolicy lib line = .ok (some p)) : p.2 ≠ some [] := by
  intro hp
  unfold parsePolicy at h
  dsimp only at h
  split at h
  · cases h
  split at h
  · cases h
  obtain ⟨second, -, h⟩ := bind_eq_ok.1 h
  split_ifs at h with _ _ hcps
  · cases h
    cases hp
  · obtain ⟨url, -, h⟩ := bind_eq_ok.1 h
    split_ifs at h
    cases h
    exact hcps (Option.some.inj hp)

theorem mem_firstLines {seen lines : List Text} (h : line ∈ firstLines seen lines) : line ∈ lines := by
  induction lines generalizing seen with
  | nil => cases h
  | cons l lines ih =>
    unfold firstLines at h
    split_ifs at h
    · rcases List.mem_cons.1 h with rfl | h
      · exact List.mem_cons_self
      · exact List.mem_cons_of_mem _ (ih h)
    · exact List.mem_cons_of_mem _ (ih h)

theorem forall₂_right {α β : Type} {R : α → β → Prop} {l : List α} {m : List β} (h : List.Forall₂ R l m) {b : β}
    (hb : b ∈ m) : ∃ a ∈ l, R a b := by
  induction h with
  | nil => cases hb
  | @cons a b' l m hab _ ih =>
    rcases List.mem_cons.1 hb with rfl | hb
    · exact ⟨a, List.mem_cons_self, hab⟩
    · obtain ⟨a', ha', hr⟩ := ih hb
      exact ⟨a', List.mem_cons_of_mem _ ha', hr⟩

theorem forall₂_left {α β : Type} {R : α → β → Prop} {l : List α} {m : List β} (h : List.Forall₂ R l m) {a : α}
    (ha : a ∈ l) : ∃ b ∈ m, R a b := forall₂_right h.flip ha

/-! ## Printed lines -/

theorem printedPolicy_policyJson (p : Text × Option Text) :
    printedPolicy lib (policyJson p) = .ok (strip (policyText p)) := by
  have h := @policyLine_policyJson lib p
  simp only [policyLine, policyJson, List.lookup_cons_self, Option.getD_some, Except.ok.injEq] at h
  simp only [printedPolicy, policyJson, List.lookup_cons_self, h]

theorem toLines_policies (ps : List (Text × Option Text)) :
    toLines lib (ps.map policyJson) = .ok (Json.joinWith ['\n'] (ps.map fun p => strip (policyText p))) := by
  have hmap : (ps.map policyJson).mapM (printedPolicy lib) = .ok (ps.map fun p => strip (policyText p)) := by
    induction ps with
    | nil => rfl
    | cons p ps ih =>
      rw [List.map_cons, List.mapM_cons, printedPolicy_policyJson, ih]
      rfl
  unfold toLines
  rw [hmap]
  rfl

/-- a text is read line by line -/
theorem parseEntries_text (t : Text) :
    parseEntries lib (.str (String.ofList t)) =
      parsePolicies lib ((splitlines t).map fun l => Json.str (String.ofList l)) [] := by
  rw [parseEntries_eq, policyItems, String.toList_ofList]
  rfl

theorem mapM_policyLine_text (lines : List Text) :
    (lines.map fun l => Json.str (String.ofList l)).mapM (policyLine lib) = .ok lines := by
  induction lines with
  | nil => rfl
  | cons l lines ih =>
    have hl : policyLine lib (.str (String.ofList l)) = .ok l := by rw [policyLine, String.toList_ofList]
    rw [List.map_cons, List.mapM_cons, hl, ih]
    rfl

/-- **Policies without line breaks are read back** from their printed lines. -/
theorem printed_read (h : Policies lib ps) (hplain : ∀ p ∈ ps, ∀ c ∈ policyText p, isLineBreak c = false) :
    ∃ text, toLines lib (ps.map policyJson) = .ok text ∧
      parseEntries lib (.str (String.ofList text)) = .ok (ps.map policyJson) := by
  refine ⟨_, toLines_policies ps, ?_⟩
  have hread : ∀ p ∈ ps, parsePolicy lib (strip (policyText p)) = .ok (some p) := by
    intro p hp
    rw [← h.parsed p hp]
    apply parsePolicy_congr
    unfold policyParts
    rw [strip_strip]
  have hlines : splitlines (Json.joinWith ['\n'] (ps.map fun p => strip (policyText p))) =
      ps.map fun p => strip (policyText p) := by
    apply splitlines_joinWith
    intro l hl
    obtain ⟨p, hp, rfl⟩ := List.mem_map.1 hl
    refine ⟨fun hnil => ?_, fun c hc => hplain p hp c (mem_of_mem_strip hc)⟩
    have := hread p hp
    rw [hnil] at this
    cases this
  rw [parseEntries_text, hlines]
  refine parsePolicies_forall₂ ?_ h.nodup fun _ _ => List.not_mem_nil
  refine List.forall₂_map_left_iff.2 (List.forall₂_map_left_iff.2 (List.forall₂_same.2 fun p hp => ?_))
  exact ⟨strip (policyText p), by rw [policyLine, String.toList_ofList], hread p hp⟩

/-- **Policies that are read back from their printed lines** have no line break in their URIs. -/
theorem plain_of_printed {text : Text} (hread : parseEntries lib (.str (String.ofList text)) = .ok (ps.map policyJson))
    (hp : p ∈ ps) : ∀ c ∈ p.2.getD [], isLineBreak c = false := by
  rw [parseEntries_text] at hread
  obtain ⟨lines, qs, hlines, hqs, hentries⟩ := parsePolicies_lines hread
  rw [mapM_policyLine_text] at hlines
  obtain rfl := Except.ok.inj hlines
  obtain rfl := policyJson_injective.list_map hqs
  obtain ⟨line, hline, hparsed⟩ := forall₂_right hentries hp
  intro c hc
  rw [(parsePolicy_some hparsed).2.1] at hc
  have hmem : c ∈ line := mem_of_mem_strip ((List.dropWhile_sublist _).mem (mem_of_mem_strip hc))
  exact splitlines_plain (mem_firstLines hline) c hmem

/-! ## The extension -/

theorem policyInformation_policyJson (hoid : WellFormedOid p.1) (huri : p.2 ≠ some []) :
    policyInformation x (policyJson p) = .ok ⟨p.1, p.2.map fun c => [.uri c]⟩ := by
  obtain ⟨oid, cps⟩ := p
  have hid : x.objectIdentifier (String.ofList oid).toList = .ok oid := by
    rw [String.toList_ofList]
    exact x.accepts oid hoid
  have hget : Json.get [("oid", .str (String.ofList oid)), ("cps_uri", Json.ofStr (cps.map String.ofList))] "cps_uri" =
      Json.ofStr (cps.map String.ofList) := rfl
  simp only [policyInformation, policyJson, List.lookup_cons_self, hid, hget]
  cases cps with
  | none => rfl
  | some c =>
    have hne : String.ofList c ≠ "" := by
      intro h
      exact huri (congrArg some (by simpa using congrArg String.toList h))
    simp only [Option.map_some, Json.ofStr, bind, Except.bind, if_neg hne, String.toList_ofList]

/-- **Well-formed policies are read back** from the extension built of them. -/
theorem extension_read (x : OidLib) (hoid : ∀ p ∈ ps, WellFormedOid p.1) (huri : ∀ p ∈ ps, p.2 ≠ some []) :
    ∃ ext, buildExtension x (ps.map policyJson) = .ok ext ∧
      fromCertificate ext = if (ps.map policyJson).isEmpty then none else some (ps.map policyJson) := by
  have hmap : (ps.map policyJson).mapM (policyInformation x) =
      .ok (ps.map fun p => ⟨p.1, p.2.map fun c => [.uri c]⟩) := by
    induction ps with
    | nil => rfl
    | cons p ps ih =>
      rw [List.map_cons, List.mapM_cons, policyInformation_policyJson (hoid p List.mem_cons_self)
        (huri p List.mem_cons_self),
        ih (fun q hq => hoid q (List.mem_cons_of_mem _ hq)) fun q hq => huri q (List.mem_cons_of_mem _ hq)]
      rfl
  have hback : ∀ p : Text × Option Text,
      policyJson (p.1, ((p.2.map fun c => [Qualifier.uri c]).getD []).findSome? Qualifier.uri?) = policyJson p := by
    rintro ⟨oid, _ | c⟩ <;> rfl
  by_cases hnil : ps = []
  · subst hnil
    exact ⟨none, rfl, rfl⟩
  · refine ⟨some (ps.map fun p => ⟨p.1, p.2.map fun c => [.uri c]⟩), ?_, ?_⟩
    · unfold buildExtension
      rw [if_neg (by simpa using hnil), hmap]
      rfl
    · simp only [fromCertificate, List.map_map, Function.comp_def, hback]

/-! ## Main theorem -/

theorem Consistent.wellFormedOid (h : Consistent lib x (ps.map policyJson)) (hp : p ∈ ps) : WellFormedOid p.1 := by
  obtain ⟨oid, hentry, hoid⟩ := h.wellFormed _ (List.mem_map_of_mem hp)
  have hstr : String.ofList p.1 = oid := by simpa using (entryOid_policyJson p).symm.trans hentry
  rwa [← hstr, String.toList_ofList] at hoid

/-- **Policies are parsed, printed and encoded consistently** if and only if the lines that bring a new OID are plain. -/
theorem policies_consistent (lib : ProfileLib) (x : OidLib) {v : Json} {out : List Json}
    (h : parseEntries lib v = .ok out) :
    Consistent lib x out ↔ PlainInput lib v := by
  rw [parseEntries_eq] at h
  obtain ⟨items, hitems, h⟩ := bind_eq_ok.1 h
  obtain ⟨lines, ps, hlines, rfl, hentries⟩ := parsePolicies_lines h
  obtain ⟨qs, hqs, hps, -⟩ := parsePolicies_ok h
  obtain rfl := policyJson_injective.list_map hqs
  have hinput : inputLines lib v = .ok lines := by
    unfold inputLines
    rw [hitems]
    exact hlines
  constructor
  · intro hc
    refine ⟨lines, hinput, fun line hline => ?_⟩
    obtain ⟨p, hp, hparsed⟩ := forall₂_left hentries hline
    obtain ⟨hoid, hcps, -⟩ := parsePolicy_some hparsed
    obtain ⟨text, htext, hread⟩ := hc.printed
    constructor
    · rw [← hoid]
      exact (hc.wellFormedOid hp).ascii
    · rw [← hcps]
      exact plain_of_printed hread hp
  · rintro ⟨lines', hlines', hplain⟩
    obtain rfl := Except.ok.inj (hinput.symm.trans hlines')
    have hline : ∀ p ∈ ps, WellFormedOid p.1 ∧ p.2 ≠ some [] ∧ ∀ c ∈ policyText p, isLineBreak c = false := by
      intro p hp
      obtain ⟨line, hline, hparsed⟩ := forall₂_right hentries hp
      obtain ⟨hascii, hbreak⟩ := hplain line hline
      obtain ⟨hoid, hcps, -⟩ := parsePolicy_some hparsed
      rw [← hoid] at hascii
      refine ⟨wellFormedOid_of_parsePolicy hparsed hascii, parsePolicy_uri hparsed, fun c hc => ?_⟩
      rcases List.mem_append.1 hc with hc | hc
      · by_contra hnot
        have hspace := isSpace_of_isLineBreak (by simpa using hnot)
        rw [parsePolicy_word hparsed c hc] at hspace
        cases hspace
      · rcases List.mem_cons.1 hc with rfl | hc
        · rfl
        · rw [hcps] at hc
          exact hbreak c hc
    exact {
      wellFormed := by
        intro entry hentry
        obtain ⟨p, hp, rfl⟩ := List.mem_map.1 hentry
        exact ⟨_, entryOid_policyJson p, by simpa using (hline p hp).1⟩
      distinct := by
        have hmap : (ps.map policyJson).map entryOid =
            (ps.map (·.1)).map fun oid => some (Json.str (String.ofList oid)) := by
          rw [List.map_map, List.map_map]
          rfl
        rw [hmap]
        refine hps.nodup.map fun a b hab => ?_
        exact String.ofList_injective (Json.str.inj (Option.some.inj hab))
      printed := printed_read hps fun p hp => (hline p hp).2.2
      carried := extension_read x (fun p hp => (hline p hp).1) fun p hp => (hline p hp).2.1 }

/-! ## Inputs -/

/-- a library for which the Arabic digit three is a decimal digit, and every URI is an `https` one -/
def sampleScripts : ProfileLib :=
  { sampleProfileLib with
    isDecimal := fun c => c.isDigit || c.toNat == 0x663
    isDecimal_ascii := by
      intro c hc
      have hne : (c.toNat == 0x663) = false := by simpa using (by omega : c.toNat ≠ 0x663)
      rw [hne, Bool.or_false]
    urlsplit := fun _ => .ok ("https".toList, "pki.example".toList) }

/-- accepts every text -/
def sampleOids : OidLib := ⟨.ok, fun _ _ => rfl⟩

/-- three lines, the last one with the OID of the first -/
def plainPolicies : Json := .str "2.5.29.32.0 https://pki.example/cps\n1.2.3\n2.5.29.32.0 https://pki.example/other"

/-- the theorem applies to several lines: the repeated OID is dropped, the others are consistent -/
theorem plain_policies_sample :
    ∃ out, parseEntries sampleScripts plainPolicies = .ok out ∧
      out = [policyJson ("2.5.29.32.0".toList, some "https://pki.example/cps".toList),
        policyJson ("1.2.3".toList, none)] ∧ Consistent sampleScripts sampleOids out := by
  have hok : parseEntries sampleScripts plainPolicies =
      .ok [policyJson ("2.5.29.32.0".toList, some "https://pki.example/cps".toList), policyJson ("1.2.3".toList, none)] :=
    rfl
  refine ⟨_, hok, rfl, (policies_consistent sampleScripts sampleOids hok).2 ?_⟩
  refine ⟨["2.5.29.32.0 https://pki.example/cps".toList, "1.2.3".toList, "2.5.29.32.0 https://pki.example/other".toList],
    rfl, ?_⟩
  decide +kernel

/-- an OID that ends in an Arabic digit -/
def oddOid : Json := .str "1.2.٣"

/-- an imported dictionary whose URI has a line break in it -/
def brokenUri : Json := .arr [.obj [("oid", .str "1.2.3"), ("cps_uri", .str "https://pki.example/\ncps")]]

/-- **Neither half of the condition is promised by `parse_entries`.** -/
theorem odd_policies :
    (∃ out, parseEntries sampleScripts oddOid = .ok out ∧ ¬ Consistent sampleScripts sampleOids out) ∧
      ∃ out, parseEntries sampleScripts brokenUri = .ok out ∧ ¬ Consistent sampleScripts sampleOids out := by
  have hodd : parseEntries sampleScripts oddOid = .ok ([("1.2.٣".toList, none)].map policyJson) := rfl
  have hbroken : parseEntries sampleScripts brokenUri =
      .ok ([("1.2.3".toList, some "https://pki.example/\ncps".toList)].map policyJson) := rfl
  refine ⟨⟨_, hodd, fun h => ?_⟩, ⟨_, hbroken, fun h => ?_⟩⟩
  · have hascii := (h.wellFormedOid List.mem_cons_self).ascii
    exact absurd hascii (by decide)
  · obtain ⟨text, -, hread⟩ := h.printed
    have hplain := plain_of_printed hread List.mem_cons_self '\n' (by decide)
    exact absurd hplain (by decide)

end Chancery.Profiles
