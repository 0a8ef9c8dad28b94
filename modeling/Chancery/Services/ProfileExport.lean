/-
Export of profiles (`to_dict` of app/models/certificate_profile.py, `list_profiles` and `export_all` of
app/services/profile_service.py), and what a table that went through `validate` and `_apply` has in its columns.

(1) `Sound` says which values the columns of a row can have; every row that is written from validated fields is sound.
(2) The export of a sound row passes `validate`, its name apart (`valid_export`), and `_apply` writes it back, except that a
description loses the white space at its end (`readFields_export`, `write_reading`).
`created_at` and `updated_at` are left out.
-/
import Mathlib.Tactic
import Chancery.Services.Profiles

namespace Chancery.Profiles

open Chancery.Core
open Chancery.Acme (truthy)

/-! ## Export -/

/-- `to_dict` -/
def toDict (lib : ProfileLib) (p : Profile) : Fields :=
  [("id", .num p.id), ("key", .str p.key), ("name", .str p.name), ("description", .str p.description),
    ("is_builtin", .bool p.isBuiltin), ("is_custom", .bool p.isCustom), ("enabled", .bool p.enabled),
    ("key_usage", p.keyUsage lib), ("extended_key_usage", p.extendedKeyUsage lib),
    ("include_ocsp_aia", .bool p.includeOcspAia), ("certificate_policies", load lib p.certificatePoliciesJson),
    ("default_validity_days", .num p.defaultValidityDays), ("max_validity_days", Json.ofNum p.maxValidityDays),
    ("allowed_key_types", load lib p.allowedKeyTypesJson), ("min_rsa_bits", Json.ofNum p.minRsaBits),
    ("max_rsa_bits", Json.ofNum p.maxRsaBits), ("allowed_ec_sizes", load lib p.allowedEcSizesJson),
    ("allowed_san_types", load lib p.allowedSanTypesJson), ("require_san", .bool p.requireSan),
    ("cn_in_san", .bool p.cnInSan)]

/-- `EXPORT_FIELDS` -/
def exportFieldNames : List String :=
  ["key", "name", "description", "enabled", "key_usage", "extended_key_usage", "include_ocsp_aia", "certificate_policies",
    "default_validity_days", "max_validity_days", "allowed_key_types", "min_rsa_bits", "max_rsa_bits", "allowed_ec_sizes",
    "allowed_san_types", "require_san", "cn_in_san"]

/-- one item of the export -/
def exportFields (lib : ProfileLib) (p : Profile) : Fields :=
  (toDict lib p).filter fun f => exportFieldNames.contains f.1

/-- `list_profiles`: built-in rows first -/
def listProfiles (t : ProfileTable) : List Profile := t.rows.filter (·.isBuiltin) ++ t.rows.filter (!·.isBuiltin)

/-- `export_all` -/
def exportAll (lib : ProfileLib) (t : ProfileTable) : List Json := (listProfiles t).map fun p => .obj (exportFields lib p)

/-! ## What `_apply` reads -/

/-- the columns `_apply` writes, as it reads them from the fields -/
structure Reading where
  name : String
  description : String
  keyUsageJson : Option String
  extendedKeyUsageJson : Option String
  includeOcspAia : Bool
  defaultValidityDays : ℤ
  maxValidityDays : Option ℤ
  allowedKeyTypesJson : Option String
  minRsaBits : Option ℤ
  maxRsaBits : Option ℤ
  allowedEcSizesJson : Option String
  allowedSanTypesJson : Option String
  requireSan : Bool
  cnInSan : Bool
  certificatePoliciesJson : Option String
  enabled : Option Bool

/-- the part of `_apply` that does not depend on the row -/
def readFields (lib : ProfileLib) (fields : Fields) : Except PyError Reading := do
  let name ← stripped (Json.get fields "name")
  let description ← stripped (Json.get fields "description")
  let maxDays ← optionalInt lib fields "max_validity_days"
  let wanted ← optionalInt lib fields "default_validity_days"
  let days := wanted.getD 365
  let minRsa ← optionalInt lib fields "min_rsa_bits"
  let maxRsa ← optionalInt lib fields "max_rsa_bits"
  let sizes ← sizesOf lib (Json.get fields "allowed_ec_sizes")
  let parsed ← policiesOf lib (Json.get fields "certificate_policies")
  .ok {
    name := name
    description := String.ofList (description.toList.take 500)
    keyUsageJson := storedUnlessNone (Json.get fields "key_usage")
    extendedKeyUsageJson := storedUnlessNone (Json.get fields "extended_key_usage")
    includeOcspAia := (fields.lookup "include_ocsp_aia").all truthy
    maxValidityDays := maxDays
    defaultValidityDays := if maxDays.any (fun n => n ≠ 0 && n < days) then maxDays.getD days else days
    allowedKeyTypesJson := storedIf (Json.get fields "allowed_key_types")
    minRsaBits := minRsa
    maxRsaBits := maxRsa
    allowedEcSizesJson := storedIf (.arr sizes)
    allowedSanTypesJson := storedIf (Json.get fields "allowed_san_types")
    requireSan := truthy (Json.get fields "require_san")
    cnInSan := truthy (Json.get fields "cn_in_san")
    certificatePoliciesJson := storedIf (.arr parsed)
    enabled := (fields.lookup "enabled").map truthy }

def Reading.write (v : Reading) (row : Profile) : Profile :=
  { row with
    name := v.name
    description := v.description
    keyUsageJson := if row.isCustom then row.keyUsageJson else v.keyUsageJson
    extendedKeyUsageJson := if row.isCustom then row.extendedKeyUsageJson else v.extendedKeyUsageJson
    includeOcspAia := v.includeOcspAia
    maxValidityDays := v.maxValidityDays
    defaultValidityDays := v.defaultValidityDays
    allowedKeyTypesJson := v.allowedKeyTypesJson
    minRsaBits := v.minRsaBits
    maxRsaBits := v.maxRsaBits
    allowedEcSizesJson := v.allowedEcSizesJson
    allowedSanTypesJson := v.allowedSanTypesJson
    requireSan := v.requireSan
    cnInSan := v.cnInSan
    certificatePoliciesJson := v.certificatePoliciesJson
    enabled := v.enabled.getD row.enabled }

section Export

variable {lib : ProfileLib} {fields : Fields} {row p : Profile} {t : ProfileTable}

theorem apply_eq : apply lib row fields = (fun v => v.write row) <$> readFields lib fields := by
  simp only [apply, readFields, map_bind]
  refine bind_congr fun name => bind_congr fun description => bind_congr fun maxDays => bind_congr fun wanted => ?_
  refine bind_congr fun minRsa => bind_congr fun maxRsa => bind_congr fun sizes => bind_congr fun parsed => ?_
  cases h : fields.lookup "enabled" <;> rfl

theorem apply_iff : apply lib row fields = .ok p ↔ ∃ v, readFields lib fields = .ok v ∧ v.write row = p := by
  rw [apply_eq]
  cases readFields lib fields with
  | error e => exact ⟨fun h => (nomatch h), fun ⟨_, h, _⟩ => (nomatch h)⟩
  | ok v =>
    constructor
    · intro h
      exact ⟨v, rfl, Except.ok.inj h⟩
    · rintro ⟨w, hw, rfl⟩
      rw [Except.ok.inj hw]
      rfl

/-! ## Validated fields -/

/-- `validate` has nothing to say, the name apart -/
def Valid (lib : ProfileLib) (fields : Fields) : Prop :=
  checkKeyUsage (Json.get fields "key_usage") = [] ∧
    checkList (oneOf ekuNames) "Extended key usage has unknown values." (Json.get fields "extended_key_usage") = .ok [] ∧
    (∃ d m, checkInt lib fields "default_validity_days" 1 = .ok (d, []) ∧
      checkInt lib fields "max_validity_days" 1 = .ok (m, []) ∧ exceeds d m = false) ∧
    (∃ a b, checkInt lib fields "min_rsa_bits" 1024 = .ok (a, []) ∧ checkInt lib fields "max_rsa_bits" 1024 = .ok (b, []) ∧
      exceeds a b = false) ∧
    checkList (oneOf keyTypes) "Allowed key types has unknown values." (Json.get fields "allowed_key_types") = .ok [] ∧
    (Json.get fields "allowed_key_types" = .null ∨ truthy (Json.get fields "allowed_key_types") = true) ∧
    checkList (fun v => ecSizes.any v.eqInt) "Allowed EC sizes has unknown values." (Json.get fields "allowed_ec_sizes") =
      .ok [] ∧
    checkList (oneOf sanTypes) "Allowed SAN types has unknown values." (Json.get fields "allowed_san_types") = .ok [] ∧
    checkPolicies lib (Json.get fields "certificate_policies") = .ok []

/-- a list that is empty under a condition only -/
theorem ite_singleton_eq_nil {c : Prop} [Decidable c] {m : String} : (if c then [m] else []) = [] ↔ ¬ c := by
  by_cases h : c <;> simp [h]

theorem checked_iff {existing : Option ℤ} {label : String} : checked lib t fields existing label = .ok () ↔
    ∃ name, stripped (Json.get fields "name") = .ok name ∧ checkName t existing name = [] ∧ Valid lib fields := by
  constructor
  · intro h
    obtain ⟨errors, hv, h⟩ := bind_eq_ok.1 h
    split_ifs at h with hempty
    unfold validate at hv
    obtain ⟨name, hname, hv⟩ := bind_eq_ok.1 hv
    obtain ⟨eku, heku, hv⟩ := bind_eq_ok.1 hv
    obtain ⟨⟨d, e1⟩, hd, hv⟩ := bind_eq_ok.1 hv
    obtain ⟨⟨m, e2⟩, hm, hv⟩ := bind_eq_ok.1 hv
    obtain ⟨⟨a, e4⟩, ha, hv⟩ := bind_eq_ok.1 hv
    obtain ⟨⟨b, e5⟩, hb, hv⟩ := bind_eq_ok.1 hv
    obtain ⟨e7, h7, hv⟩ := bind_eq_ok.1 hv
    obtain ⟨e9, h9, hv⟩ := bind_eq_ok.1 hv
    obtain ⟨e10, h10, hv⟩ := bind_eq_ok.1 hv
    obtain ⟨e11, h11, hv⟩ := bind_eq_ok.1 hv
    have herrors := List.isEmpty_iff.1 hempty
    rw [← Except.ok.inj hv] at herrors
    simp only [List.append_eq_nil_iff, and_assoc, ite_singleton_eq_nil, Bool.not_eq_true] at herrors
    obtain ⟨hn, hku, rfl, rfl, rfl, h3, rfl, rfl, h6, rfl, h8, rfl, rfl, rfl⟩ := herrors
    have htypes : Json.get fields "allowed_key_types" = .null ∨ truthy (Json.get fields "allowed_key_types") = true := by
      revert h8
      cases Json.get fields "allowed_key_types" <;> simp
    exact ⟨name, hname, hn, hku, heku, ⟨d, m, hd, hm, h3⟩, ⟨a, b, ha, hb, h6⟩, h7, htypes, h9, h10, h11⟩
  · rintro ⟨name, hname, hn, hku, heku, ⟨d, m, hd, hm, h3⟩, ⟨a, b, ha, hb, h6⟩, h7, h8, h9, h10, h11⟩
    have hv : validate lib t fields existing = .ok [] := by
      unfold validate
      rw [hname, heku, hd, hm, ha, hb]
      simp only [bind, Except.bind]
      rw [h7, h9, h10, h11]
      simp only [hn, hku, h3, h6, Bool.false_eq_true, if_false, List.append_nil, List.nil_append]
      generalize Json.get fields "allowed_key_types" = types at h8 ⊢
      rcases h8 with rfl | h8
      · rfl
      · cases types <;> simp_all
    unfold checked
    rw [hv]
    rfl

/-! ## Values that are read back -/

theorem stripped_str (s : String) : stripped (.str s) = .ok (String.ofList (strip s.toList)) := by
  unfold stripped
  by_cases h : s = ""
  · subst h
    rfl
  · simp [truthy, h]

theorem strip_of_stripped {v : Json} {s : String} (h : stripped v = .ok s) : strip s.toList = s.toList := by
  unfold stripped at h
  split_ifs at h with htruthy
  · rw [← Except.ok.inj h]
    rfl
  · cases v with
    | str s' =>
      rw [← Except.ok.inj h, String.toList_ofList]
      exact strip_strip _
    | _ => cases h

/-- a number that is checked is true -/
theorem truthy_of_pyInt {raw : Json} {n : ℤ} (h : pyInt lib raw = .ok n) (hn : 1 ≤ n) (hraw : raw ≠ .str "") :
    truthy raw = true := by
  cases raw with
  | num m =>
    have hmn : m = n := Except.ok.inj h
    have hm : m ≠ 0 := by omega
    simpa [truthy] using hm
  | bool b =>
    cases b with
    | true => rfl
    | false =>
      have h0 : 0 = n := by simpa [pyInt] using h
      omega
  | float q repr =>
    cases q with
    | none => rfl
    | some q =>
      have hq : q ≠ 0 := by
        rintro rfl
        obtain rfl := Except.ok.inj h
        simp at hn
      simpa [truthy] using hq
  | str s =>
    have hs : s ≠ "" := fun hs => hraw (by rw [hs])
    simpa [truthy] using hs
  | _ => cases h

theorem checkInt_nil {field : String} {m : ℤ} {v : Option ℤ} (hm : 1 ≤ m)
    (h : checkInt lib fields field m = .ok (v, [])) :
    optionalInt lib fields field = .ok v ∧ ∀ n, v = some n → m ≤ n := by
  unfold checkInt at h
  unfold optionalInt
  generalize Json.get fields field = raw at h ⊢
  split at h
  · obtain ⟨rfl, -⟩ := Prod.mk.inj (Except.ok.inj h)
    exact ⟨rfl, by simp⟩
  split_ifs at h with hempty
  · obtain ⟨rfl, -⟩ := Prod.mk.inj (Except.ok.inj h)
    have hfalse : truthy raw = false := by
      cases raw <;> simp_all [Json.eqStr, truthy]
    rw [if_neg (by simp [hfalse])]
    exact ⟨rfl, by simp⟩
  cases hint : pyInt lib raw with
  | error e =>
    rw [hint] at h
    cases e <;> simp at h
  | ok n =>
    rw [hint] at h
    obtain ⟨rfl, hlt⟩ := Prod.mk.inj (Except.ok.inj h)
    rw [ite_singleton_eq_nil] at hlt
    have hne : raw ≠ .str "" := by
      rintro rfl
      exact hempty rfl
    have hle : m ≤ n := not_lt.1 hlt
    rw [if_pos (truthy_of_pyInt hint (hm.trans hle) hne)]
    refine ⟨rfl, fun k hk => ?_⟩
    rw [← Option.some.inj hk]
    exact hle

/-- a number of the export -/
theorem checkInt_ofNum {field : String} {m : ℤ} {v : Option ℤ} (hget : Json.get fields field = Json.ofNum v)
    (hv : ∀ n, v = some n → m ≤ n) : checkInt lib fields field m = .ok (v, []) := by
  unfold checkInt
  rw [hget]
  cases v with
  | none => rfl
  | some n =>
    have hn : ¬ n < m := not_lt.2 (hv n rfl)
    simp [Json.ofNum, Json.eqStr, pyInt, hn]

theorem optionalInt_ofNum {field : String} {v : Option ℤ} (hget : Json.get fields field = Json.ofNum v)
    (hv : ∀ n, v = some n → n ≠ 0) : optionalInt lib fields field = .ok v := by
  unfold optionalInt
  rw [hget]
  cases v with
  | none => rfl
  | some n => simp [Json.ofNum, truthy, hv n rfl, pyInt, Except.map]

theorem pyInt_of_eqInt {v : Json} {n : ℤ} (h : v.eqInt n = true) : pyInt lib v = .ok n := by
  cases v with
  | num m =>
    have hm : m = n := by simpa [Json.eqInt] using h
    rw [hm]
    rfl
  | bool b =>
    have hb : (if b then 1 else 0) = n := by simpa [Json.eqInt] using h
    rw [← hb]
    rfl
  | float q repr =>
    cases q with
    | none => simp [Json.eqInt] at h
    | some q =>
      have hq : q = n := by simpa [Json.eqInt] using h
      subst hq
      have hfloor : -⌊-(n : ℚ)⌋ = n := by
        rw [← Int.cast_neg, Int.floor_intCast, neg_neg]
      simp only [pyInt, hfloor, Int.floor_intCast, ite_self]
  | _ => simp [Json.eqInt] at h

theorem ints_of_eqInt {items : List Json} (h : ∀ v ∈ items, ecSizes.any v.eqInt = true) :
    ∃ ns : List ℤ, (∀ n ∈ ns, n ∈ ecSizes) ∧ ns.length = items.length ∧ ints lib items = .ok (ns.map Json.num) := by
  induction items with
  | nil => exact ⟨[], by simp, rfl, rfl⟩
  | cons v items ih =>
    obtain ⟨n, hn, hv⟩ := List.any_eq_true.1 (h v List.mem_cons_self)
    obtain ⟨ns, hns, hlength, hints⟩ := ih fun w hw => h w (List.mem_cons_of_mem _ hw)
    refine ⟨n :: ns, ?_, by simp [hlength], ?_⟩
    · simpa [hn] using hns
    · rw [ints, pyInt_of_eqInt hv, hints]
      rfl

theorem ints_num (ns : List ℤ) : ints lib (ns.map Json.num) = .ok (ns.map Json.num) := by
  induction ns with
  | nil => rfl
  | cons n ns ih =>
    rw [List.map_cons, ints, ih]
    rfl

theorem written_of_oneOf {names : List String} {items : List Json} (h : ∀ v ∈ items, oneOf names v = true) :
    (Json.arr items).Written lib.floats := by
  induction items with
  | nil => trivial
  | cons v items ih =>
    have hv := h v List.mem_cons_self
    refine ⟨?_, ih fun w hw => h w (List.mem_cons_of_mem _ hw)⟩
    cases v <;> simp_all [oneOf, Json.eqStr, Json.Written]

theorem checkList_arr {allowed : Json → Bool} {message : String} {items : List Json}
    (hhash : ∀ v ∈ items, hashable v = true)
    (h : ∀ v ∈ items, allowed v = true) : checkList allowed message (.arr items) = .ok [] := by
  have hsubset : subset items allowed = .ok true := by
    rw [subset, if_pos (List.all_eq_true.2 hhash), List.all_eq_true.2 h]
  rw [checkList, hsubset]
  rfl

/-! ## Policies that are read back -/

/-- the OID and the CPS URI of a line -/
def policyParts (line : Text) : Text × Text :=
  ((strip line).takeWhile fun c => !isSpace c, strip ((strip line).dropWhile fun c => !isSpace c))

/-- a stored policy as the line `parse_entries` makes of it -/
def policyText (p : Text × Option Text) : Text := p.1 ++ ' ' :: p.2.getD []

/-- stripped text starts with its first word -/
theorem head?_policyParts (line : Text) : (policyParts line).1.head? = (strip line).head? := by
  unfold policyParts
  cases h : strip line with
  | nil => rfl
  | cons c rest =>
    have hc : isSpace c = false := head?_strip (by rw [h]; rfl)
    rw [List.takeWhile_cons_of_pos (by simp [hc])]
    rfl

/-- a line is read by its two parts -/
theorem parsePolicy_congr {line line' : Text} (h : policyParts line = policyParts line') :
    parsePolicy lib line = parsePolicy lib line' := by
  have hhead : (strip line).head? = (strip line').head? := by
    rw [← head?_policyParts, ← head?_policyParts, h]
  have hnil : strip line = [] ↔ strip line' = [] := by
    rw [← List.head?_eq_none_iff, hhead, List.head?_eq_none_iff]
  obtain ⟨hoid, hcps⟩ := Prod.mk.inj h
  simp only [parsePolicy, hnil, hhead, hoid, hcps]

theorem parsePolicy_some {line : Text} {p : Text × Option Text} (h : parsePolicy lib line = .ok (some p)) :
    p.1 = (policyParts line).1 ∧ p.2.getD [] = (policyParts line).2 ∧ p.1 ≠ [] := by
  have hne : strip line ≠ [] := by
    intro hnil
    simp [parsePolicy, hnil] at h
  have hfirst : (policyParts line).1 ≠ [] := by
    intro hnil
    rw [← List.head?_eq_none_iff, head?_policyParts, List.head?_eq_none_iff] at hnil
    exact hne hnil
  unfold parsePolicy at h
  dsimp only at h
  split at h
  · cases h
  split at h
  · cases h
  obtain ⟨second, -, h⟩ := bind_eq_ok.1 h
  split_ifs at h with _ _ hcps
  · cases h
    exact ⟨rfl, hcps.symm, hfirst⟩
  · obtain ⟨⟨scheme, netloc⟩, -, h⟩ := bind_eq_ok.1 h
    dsimp only at h
    split_ifs at h
    cases h
    exact ⟨rfl, rfl, hfirst⟩

/-- an OID without white space and a stripped URI are the parts of their line -/
theorem policyParts_text {oid cps : Text} (hne : oid ≠ []) (hoid : ∀ c ∈ oid, isSpace c = false) (hcps : strip cps = cps) :
    policyParts (oid ++ ' ' :: cps) = (oid, cps) := by
  obtain ⟨c, head, rfl⟩ := List.exists_cons_of_ne_nil hne
  have hstrip : strip (c :: head ++ ' ' :: cps) = c :: head ++ (' ' :: cps).rdropWhile isSpace := by
    refine strip_append (hoid c List.mem_cons_self) fun d hd => hoid d ?_
    exact List.mem_of_getLast? hd
  have htake : ((' ' :: cps).rdropWhile isSpace).takeWhile (fun c => !isSpace c) = [] := by
    obtain ⟨rest, hrest⟩ := List.rdropWhile_prefix isSpace (' ' :: cps)
    cases hd : (' ' :: cps).rdropWhile isSpace with
    | nil => rfl
    | cons d tail =>
      rw [hd] at hrest
      obtain ⟨rfl, -⟩ := List.cons.inj hrest
      rfl
  have hdrop : ((' ' :: cps).rdropWhile isSpace).dropWhile (fun c => !isSpace c) = (' ' :: cps).rdropWhile isSpace := by
    have h := List.takeWhile_append_dropWhile (p := fun c => !isSpace c) (l := (' ' :: cps).rdropWhile isSpace)
    rwa [htake, List.nil_append] at h
  have hspace : strip (' ' :: cps) = cps := by
    have hdropped : (' ' :: cps).dropWhile isSpace = cps.dropWhile isSpace := List.dropWhile_cons_of_pos (by decide)
    unfold strip at hcps ⊢
    rw [hdropped, hcps]
  have hpos : ∀ d ∈ c :: head, (!isSpace d) = true := by
    intro d hd
    rw [hoid d hd]
    rfl
  unfold policyParts
  rw [hstrip, List.takeWhile_append_of_pos hpos, List.dropWhile_append_of_pos hpos, htake, hdrop, List.append_nil,
    strip_rdropWhile, hspace]

/-- **A policy is read back** from its line. -/
theorem parsePolicy_policyText {line : Text} {p : Text × Option Text} (h : parsePolicy lib line = .ok (some p)) :
    parsePolicy lib (policyText p) = .ok (some p) := by
  obtain ⟨hoid, hcps, hne⟩ := parsePolicy_some h
  have hparts : policyParts (policyText p) = policyParts line := by
    unfold policyText
    rw [policyParts_text hne, hoid, hcps]
    · rw [hoid]
      intro c hc
      simpa using List.mem_takeWhile_imp hc
    · rw [hcps]
      exact strip_strip _
  rw [parsePolicy_congr hparts, h]

theorem policyLine_policyJson (p : Text × Option Text) : policyLine lib (policyJson p) = .ok (policyText p) := by
  obtain ⟨oid, cps⟩ := p
  cases cps with
  | none => simp [policyLine, shown, policyJson, policyText, Json.get, List.lookup_cons, Json.ofStr, truthy]
  | some c =>
    by_cases hc : c = []
    · simp [policyLine, shown, policyJson, policyText, Json.get, List.lookup_cons, Json.ofStr, truthy, hc]
    · have hne : String.ofList c ≠ "" := by
        intro h
        exact hc (by simpa using congrArg String.toList h)
      simp [policyLine, shown, policyJson, policyText, Json.get, List.lookup_cons, Json.ofStr, truthy, hne]

/-- distinct policies that are read back -/
structure Policies (lib : ProfileLib) (ps : List (Text × Option Text)) : Prop where
  nodup : (ps.map (·.1)).Nodup
  parsed : ∀ p ∈ ps, parsePolicy lib (policyText p) = .ok (some p)

theorem parsePolicies_ok {items : List Json} {seen : List Text} {out : List Json}
    (h : parsePolicies lib items seen = .ok out) :
    ∃ ps, out = ps.map policyJson ∧ Policies lib ps ∧ ∀ p ∈ ps, p.1 ∉ seen := by
  induction items generalizing seen out with
  | nil =>
    obtain rfl := Except.ok.inj h
    exact ⟨[], rfl, ⟨List.nodup_nil, by simp⟩, by simp⟩
  | cons item items ih =>
    obtain ⟨line, hline, h⟩ := bind_eq_ok.1 h
    obtain ⟨parsed, hparsed, h⟩ := bind_eq_ok.1 h
    cases parsed with
    | none => exact ih h
    | some p =>
      dsimp only at h
      split_ifs at h with hseen
      · exact ih h
      · obtain ⟨rest, hrest, h⟩ := bind_eq_ok.1 h
        obtain rfl := Except.ok.inj h
        obtain ⟨ps, rfl, hps, hnew⟩ := ih hrest
        refine ⟨p :: ps, rfl, ⟨?_, ?_⟩, ?_⟩
        · refine List.nodup_cons.2 ⟨fun hmem => ?_, hps.nodup⟩
          obtain ⟨q, hq, heq⟩ := List.mem_map.1 hmem
          exact hnew q hq (by simp [heq])
        · rintro q (_ | ⟨_, hq⟩)
          · exact parsePolicy_policyText hparsed
          · exact hps.parsed q hq
        · rintro q (_ | ⟨_, hq⟩)
          · exact hseen
          · exact fun hmem => hnew q hq (List.mem_cons_of_mem _ hmem)

/-- items whose lines are read as policies with new and distinct OIDs -/
theorem parsePolicies_forall₂ {items : List Json} {ps : List (Text × Option Text)} {seen : List Text}
    (hitems : List.Forall₂ (fun item p => ∃ line, policyLine lib item = .ok line ∧ parsePolicy lib line = .ok (some p))
      items ps)
    (hnodup : (ps.map (·.1)).Nodup) (hseen : ∀ p ∈ ps, p.1 ∉ seen) :
    parsePolicies lib items seen = .ok (ps.map policyJson) := by
  induction hitems generalizing seen with
  | nil => rfl
  | @cons item p items ps hitem hitems ih =>
    obtain ⟨line, hline, hparsed⟩ := hitem
    obtain ⟨hp, hnodup⟩ := List.nodup_cons.1 hnodup
    have hrest : parsePolicies lib items (p.1 :: seen) = .ok (ps.map policyJson) := by
      refine ih hnodup fun q hq hmem => ?_
      rcases List.mem_cons.1 hmem with heq | hmem
      · exact hp (List.mem_map.2 ⟨q, hq, heq⟩)
      · exact hseen q (List.mem_cons_of_mem _ hq) hmem
    rw [parsePolicies, hline]
    simp only [bind, Except.bind]
    rw [hparsed]
    simp only [hseen p List.mem_cons_self, if_false, hrest, List.map_cons]

theorem parsePolicies_map {ps : List (Text × Option Text)} {seen : List Text} (h : Policies lib ps)
    (hseen : ∀ p ∈ ps, p.1 ∉ seen) : parsePolicies lib (ps.map policyJson) seen = .ok (ps.map policyJson) := by
  refine parsePolicies_forall₂ ?_ h.nodup hseen
  refine List.forall₂_map_left_iff.2 (List.forall₂_same.2 fun p hp => ?_)
  exact ⟨policyText p, policyLine_policyJson p, h.parsed p hp⟩

/-! ## Columns -/

/-- a list of names, or NULL -/
def ListColumn (names : List String) (json : Option String) : Prop :=
  json = none ∨ ∃ items, items ≠ [] ∧ (∀ v ∈ items, oneOf names v = true) ∧ json = some (Json.dumps .default (.arr items))

def SizesColumn (json : Option String) : Prop :=
  json = none ∨ ∃ ns : List ℤ, ns ≠ [] ∧ (∀ n ∈ ns, n ∈ ecSizes) ∧ json =
    some (Json.dumps .default (.arr (ns.map Json.num)))

def PoliciesColumn (lib : ProfileLib) (json : Option String) : Prop :=
  json = none ∨ ∃ ps, ps ≠ [] ∧ Policies lib ps ∧ json = some (Json.dumps .default (.arr (ps.map policyJson)))

/-- a usage field as it came, or NULL -/
def UsageColumn (lib : ProfileLib) (ok : Json → Prop) (json : Option String) : Prop :=
  ∃ v, v.Written lib.floats ∧ ok v ∧ json = storedUnlessNone v

theorem hashable_of_oneOf {names : List String} {v : Json} (h : oneOf names v = true) : hashable v = true := by
  cases v <;> simp_all [oneOf, Json.eqStr, hashable]

theorem storedIf_arr {items : List Json} (h : items ≠ []) :
    storedIf (.arr items) = some (Json.dumps .default (.arr items)) := by
  simp [storedIf, truthy, h]

theorem ListColumn.of_checkList {names : List String} {message : String} {v : Json}
    (h : checkList (oneOf names) message v = .ok []) : ListColumn names (storedIf v) := by
  rcases checkList_eq_nil h with rfl | ⟨items, rfl, hitems⟩
  · exact .inl rfl
  · by_cases hnil : items = []
    · subst hnil
      exact .inl rfl
    · exact .inr ⟨items, hnil, hitems, storedIf_arr hnil⟩

/-- a list column as the export shows it -/
theorem ListColumn.load {names : List String} {json : Option String} (h : ListColumn names json) (message : String) :
    checkList (oneOf names) message (load lib json) = .ok [] ∧ storedIf (load lib json) = json ∧
      (load lib json = .null ∨ truthy (load lib json) = true) := by
  rcases h with rfl | ⟨items, hne, hitems, rfl⟩
  · exact ⟨rfl, rfl, .inl rfl⟩
  · rw [load_dumps (written_of_oneOf hitems)]
    refine ⟨checkList_arr (fun v hv => hashable_of_oneOf (hitems v hv)) hitems, storedIf_arr hne, .inr ?_⟩
    simpa [truthy] using hne

theorem written_nums (ns : List ℤ) : (Json.arr (ns.map Json.num)).Written lib.floats := by
  induction ns with
  | nil => trivial
  | cons n ns ih => exact ⟨trivial, ih⟩

theorem SizesColumn.of_checkList {message : String} {v : Json} {sizes : List Json}
    (h : checkList (fun v => ecSizes.any v.eqInt) message v = .ok []) (hsizes : sizesOf lib v = .ok sizes) :
    SizesColumn (storedIf (.arr sizes)) := by
  rcases checkList_eq_nil h with rfl | ⟨items, rfl, hitems⟩
  · obtain rfl := Except.ok.inj hsizes
    exact .inl rfl
  · by_cases hnil : items = []
    · subst hnil
      obtain rfl := Except.ok.inj hsizes
      exact .inl rfl
    · have htruthy : truthy (.arr items) = true := by simpa [truthy] using hnil
      obtain ⟨ns, hns, hlength, hints⟩ := @ints_of_eqInt lib items hitems
      have hsizes' : ints lib items = .ok sizes := by
        rw [sizesOf, if_pos htruthy] at hsizes
        exact hsizes
      rw [hints] at hsizes'
      obtain rfl := Except.ok.inj hsizes'
      have hne : ns ≠ [] := by
        rintro rfl
        exact hnil (List.length_eq_zero_iff.1 hlength.symm)
      exact .inr ⟨ns, hne, hns, storedIf_arr (by simpa using hne)⟩

theorem SizesColumn.load {json : Option String} (h : SizesColumn json) (message : String) :
    checkList (fun v => ecSizes.any v.eqInt) message (load lib json) = .ok [] ∧
      ∃ sizes, sizesOf lib (load lib json) = .ok sizes ∧ storedIf (.arr sizes) = json := by
  rcases h with rfl | ⟨ns, hne, hns, rfl⟩
  · exact ⟨rfl, [], rfl, rfl⟩
  · have hne' : ns.map Json.num ≠ [] := by simpa using hne
    have htruthy : truthy (.arr (ns.map Json.num)) = true := by simpa [truthy] using hne
    rw [load_dumps (written_nums ns)]
    refine ⟨checkList_arr (fun v hv => ?_) (fun v hv => ?_), ns.map Json.num, ?_, storedIf_arr hne'⟩
    · obtain ⟨n, -, rfl⟩ := List.mem_map.1 hv
      rfl
    · obtain ⟨n, hn, rfl⟩ := List.mem_map.1 hv
      exact List.any_eq_true.2 ⟨n, hns n hn, by simp [Json.eqInt]⟩
    · rw [sizesOf, if_pos htruthy]
      exact ints_num ns

theorem written_policies (ps : List (Text × Option Text)) : (Json.arr (ps.map policyJson)).Written lib.floats := by
  induction ps with
  | nil => trivial
  | cons p ps ih =>
    refine ⟨⟨(by decide : ["oid", "cps_uri"].Nodup), trivial, ?_, trivial⟩, ih⟩
    cases p.2 <;> trivial

theorem parseEntries_ok {v : Json} {out : List Json} (h : parseEntries lib v = .ok out) :
    ∃ items, parsePolicies lib items [] = .ok out := by
  unfold parseEntries at h
  dsimp only at h
  split at h
  · exact ⟨_, h⟩
  · split_ifs at h
    · obtain ⟨items, -, h⟩ := bind_eq_ok.1 h
      exact ⟨items, h⟩
    · exact ⟨[], h⟩

theorem parseEntries_arr {items : List Json} (h : items ≠ []) :
    parseEntries lib (.arr items) = parsePolicies lib items [] := by
  have htruthy : truthy (.arr items) = true := by simpa [truthy] using h
  unfold parseEntries
  simp only [htruthy, if_true]
  rfl

theorem PoliciesColumn.of_policiesOf {v : Json} {parsed : List Json} (h : policiesOf lib v = .ok parsed) :
    PoliciesColumn lib (storedIf (.arr parsed)) := by
  by_cases hnil : parsed = []
  · subst hnil
    exact .inl rfl
  · unfold policiesOf at h
    split_ifs at h
    · obtain ⟨items, h⟩ := parseEntries_ok h
      obtain ⟨ps, rfl, hps, -⟩ := parsePolicies_ok h
      exact .inr ⟨ps, by simpa using hnil, hps, storedIf_arr hnil⟩
    · exact absurd (Except.ok.inj h).symm hnil

theorem PoliciesColumn.load {json : Option String} (h : PoliciesColumn lib json) :
    checkPolicies lib (load lib json) = .ok [] ∧ ∃ parsed, policiesOf lib (load lib json) = .ok parsed ∧
      storedIf (.arr parsed) = json := by
  rcases h with rfl | ⟨ps, hne, hps, rfl⟩
  · exact ⟨rfl, [], rfl, rfl⟩
  · have hne' : ps.map policyJson ≠ [] := by simpa using hne
    have hparse : parseEntries lib (.arr (ps.map policyJson)) = .ok (ps.map policyJson) := by
      rw [parseEntries_arr hne']
      exact parsePolicies_map hps fun _ _ => List.not_mem_nil
    have hhas : hasPolicies (.arr (ps.map policyJson)) = true := by simpa [hasPolicies] using hne
    rw [load_dumps (written_policies ps), checkPolicies, policiesOf, if_pos hhas, if_pos hhas, hparse]
    exact ⟨rfl, _, rfl, storedIf_arr hne'⟩

/-! ## Sound rows -/

/-- the values the columns of a row can have -/
structure Profile.Sound (lib : ProfileLib) (p : Profile) : Prop where
  key : strip p.key.toList = p.key.toList
  key_ne : p.key ≠ ""
  name : strip p.name.toList = p.name.toList
  name_ne : p.name ≠ ""
  name_length : p.name.length ≤ 100
  description : p.description.toList.length ≤ 500
  custom : p.isCustom = true → p.keyUsageJson = none ∧ p.extendedKeyUsageJson = none
  keyUsage : p.isCustom = false → UsageColumn lib (fun v => checkKeyUsage v = []) p.keyUsageJson
  extendedKeyUsage : p.isCustom = false →
    UsageColumn lib (fun v => checkList (oneOf ekuNames) "Extended key usage has unknown values." v = .ok [])
      p.extendedKeyUsageJson
  default_pos : 1 ≤ p.defaultValidityDays
  default_le : ∀ n, p.maxValidityDays = some n → p.defaultValidityDays ≤ n
  min_rsa : ∀ n, p.minRsaBits = some n → 1024 ≤ n
  max_rsa : ∀ n, p.maxRsaBits = some n → 1024 ≤ n
  rsa_le : ∀ m n, p.minRsaBits = some m → p.maxRsaBits = some n → m ≤ n
  keyTypes : ListColumn keyTypes p.allowedKeyTypesJson
  ecSizes : SizesColumn p.allowedEcSizesJson
  sanTypes : ListColumn sanTypes p.allowedSanTypesJson
  policies : PoliciesColumn lib p.certificatePoliciesJson

theorem le_of_not_exceeds {a b : Option ℤ} (h : exceeds a b = false) {m n : ℤ} (hm : a = some m) (hn : b = some n)
    (hm0 : m ≠ 0) (hn0 : n ≠ 0) : m ≤ n := by
  subst hm hn
  simpa [exceeds, hm0, hn0] using h

theorem not_exceeds_of_le {a b : Option ℤ} (h : ∀ m n, a = some m → b = some n → m ≤ n) : exceeds a b = false := by
  cases a with
  | none => rfl
  | some m =>
    cases b with
    | none => rfl
    | some n =>
      have hle := h m n rfl rfl
      simp [exceeds, hle]

theorem checkName_nil {existing : Option ℤ} {name : String} (h : checkName t existing name = []) :
    name ≠ "" ∧ name.length ≤ 100 ∧ (byName t name).any (fun clash => existing ≠ some clash.id) = false := by
  unfold checkName at h
  split_ifs at h with hname hlength hclash
  refine ⟨hname, not_lt.1 hlength, ?_⟩
  simpa using hclash

/-- **What is written is sound**, if the fields are valid. -/
theorem sound_of_valid {name : String} {v : Reading} (hw : Json.WrittenFields lib.floats fields)
    (hname : stripped (Json.get fields "name") = .ok name) (hne : name ≠ "") (hlength : name.length ≤ 100)
    (hvalid : Valid lib fields) (hread : readFields lib fields = .ok v) (hkey : strip row.key.toList = row.key.toList)
    (hkey_ne : row.key ≠ "") (hcustom : row.isCustom = true → row.keyUsageJson = none ∧ row.extendedKeyUsageJson = none) :
    (v.write row).Sound lib := by
  obtain ⟨hku, heku, ⟨d, m, hd, hm, hdm⟩, ⟨a, b, ha, hb, hab⟩, htypes, -, hsizes, hsan, -⟩ := hvalid
  obtain ⟨hd, hd1⟩ := checkInt_nil (by decide) hd
  obtain ⟨hm, hm1⟩ := checkInt_nil (by decide) hm
  obtain ⟨ha, ha1⟩ := checkInt_nil (by decide) ha
  obtain ⟨hb, hb1⟩ := checkInt_nil (by decide) hb
  unfold readFields at hread
  rw [hname, hm, hd, ha, hb] at hread
  simp only [bind, Except.bind] at hread
  cases hdesc : stripped (Json.get fields "description") with
  | error e =>
    rw [hdesc] at hread
    cases hread
  | ok description =>
  cases hsizesOf : sizesOf lib (Json.get fields "allowed_ec_sizes") with
  | error e =>
    rw [hdesc, hsizesOf] at hread
    cases hread
  | ok sizes =>
  cases hparsed : policiesOf lib (Json.get fields "certificate_policies") with
  | error e =>
    rw [hdesc, hsizesOf, hparsed] at hread
    cases hread
  | ok parsed =>
  rw [hdesc, hsizesOf, hparsed] at hread
  obtain rfl := Except.ok.inj hread
  have hlimit : ∀ n, m = some n → (if m.any (fun n => n ≠ 0 && n < d.getD 365) then m.getD (d.getD 365) else d.getD 365)
    ≤ n := by
    rintro n rfl
    have hn := hm1 n rfl
    split_ifs with hcap
    · exact le_rfl
    · have hn0 : n ≠ 0 := by omega
      simpa [hn0] using hcap
  have hdays : 1 ≤ (if m.any (fun n => n ≠ 0 && n < d.getD 365) then m.getD (d.getD 365) else d.getD 365) := by
    have hd' : 1 ≤ d.getD 365 := by
      cases d with
      | none => decide
      | some n => exact hd1 n rfl
    split_ifs
    · cases m with
      | none => exact hd'
      | some n => exact hm1 n rfl
    · exact hd'
  have hdescription : (String.ofList (description.toList.take 500)).toList.length ≤ 500 := by
    rw [String.toList_ofList, List.length_take]
    exact min_le_left _ _
  exact {
    key := hkey
    key_ne := hkey_ne
    name := strip_of_stripped hname
    name_ne := hne
    name_length := hlength
    description := hdescription
    custom := fun hc => by
      have hrow : row.isCustom = true := hc
      simpa [Reading.write, hrow] using hcustom hrow
    keyUsage := fun hc => by
      have hrow : row.isCustom = false := hc
      exact ⟨_, written_get hw "key_usage", hku, by simp [Reading.write, hrow]⟩
    extendedKeyUsage := fun hc => by
      have hrow : row.isCustom = false := hc
      exact ⟨_, written_get hw "extended_key_usage", heku, by simp [Reading.write, hrow]⟩
    default_pos := hdays
    default_le := hlimit
    min_rsa := ha1
    max_rsa := hb1
    rsa_le := fun k n hk hn => by
      have hk' := ha1 k hk
      have hn' := hb1 n hn
      exact le_of_not_exceeds hab hk hn (by omega) (by omega)
    keyTypes := .of_checkList htypes
    ecSizes := .of_checkList hsizes hsizesOf
    sanTypes := .of_checkList hsan
    policies := .of_policiesOf hparsed }

/-! ## A row and its export -/

/-- a row as its export is read back: a description that was cut loses the white space at its end -/
def Profile.trimmed (p : Profile) : Profile := { p with description := String.ofList (strip p.description.toList) }

theorem trimmed_eq_self : p.trimmed = p ↔ strip p.description.toList = p.description.toList := by
  constructor
  · intro h
    have hd : String.ofList (strip p.description.toList) = p.description := congrArg Profile.description h
    rw [← String.toList_ofList (l := strip p.description.toList), hd]
  · intro h
    unfold Profile.trimmed
    rw [h, String.ofList_toList]

theorem exportFields_eq (lib : ProfileLib) (p : Profile) : exportFields lib p =
    [("key", .str p.key), ("name", .str p.name), ("description", .str p.description), ("enabled", .bool p.enabled),
      ("key_usage", p.keyUsage lib), ("extended_key_usage", p.extendedKeyUsage lib),
      ("include_ocsp_aia", .bool p.includeOcspAia), ("certificate_policies", load lib p.certificatePoliciesJson),
      ("default_validity_days", .num p.defaultValidityDays), ("max_validity_days", Json.ofNum p.maxValidityDays),
      ("allowed_key_types", load lib p.allowedKeyTypesJson), ("min_rsa_bits", Json.ofNum p.minRsaBits),
      ("max_rsa_bits", Json.ofNum p.maxRsaBits), ("allowed_ec_sizes", load lib p.allowedEcSizesJson),
      ("allowed_san_types", load lib p.allowedSanTypesJson), ("require_san", .bool p.requireSan),
      ("cn_in_san", .bool p.cnInSan)] := by
  simp [exportFields, toDict, exportFieldNames]

/-- what `_apply` reads from the export of a row -/
def Profile.reading (p : Profile) : Reading where
  name := p.name
  description := String.ofList (strip p.description.toList)
  keyUsageJson := p.keyUsageJson
  extendedKeyUsageJson := p.extendedKeyUsageJson
  includeOcspAia := p.includeOcspAia
  defaultValidityDays := p.defaultValidityDays
  maxValidityDays := p.maxValidityDays
  allowedKeyTypesJson := p.allowedKeyTypesJson
  minRsaBits := p.minRsaBits
  maxRsaBits := p.maxRsaBits
  allowedEcSizesJson := p.allowedEcSizesJson
  allowedSanTypesJson := p.allowedSanTypesJson
  requireSan := p.requireSan
  cnInSan := p.cnInSan
  certificatePoliciesJson := p.certificatePoliciesJson
  enabled := some p.enabled

/-- a usage field as the export shows it -/
theorem UsageColumn.load {ok : Json → Prop} {json : Option String} (h : UsageColumn lib ok json) :
    ok (load lib json) ∧ storedUnlessNone (Profiles.load lib json) = json := by
  obtain ⟨v, hw, hok, rfl⟩ := h
  rw [load_storedUnlessNone hw]
  exact ⟨hok, rfl⟩

theorem Profile.Sound.usage (h : p.Sound lib) :
    checkKeyUsage (p.keyUsage lib) = [] ∧ storedUnlessNone (p.keyUsage lib) = p.keyUsageJson ∧
      checkList (oneOf ekuNames) "Extended key usage has unknown values." (p.extendedKeyUsage lib) = .ok [] ∧
      storedUnlessNone (p.extendedKeyUsage lib) = p.extendedKeyUsageJson := by
  cases hc : p.isCustom with
  | true =>
    obtain ⟨hku, heku⟩ := h.custom hc
    simp [Profile.keyUsage, Profile.extendedKeyUsage, hku, heku, Profiles.load, checkKeyUsage, checkList, storedUnlessNone]
  | false =>
    obtain ⟨hku, hku'⟩ := (h.keyUsage hc).load
    obtain ⟨heku, heku'⟩ := (h.extendedKeyUsage hc).load
    exact ⟨hku, hku', heku, heku'⟩

/-- **The export of a sound row is valid.** -/
theorem valid_export (h : p.Sound lib) : Valid lib (exportFields lib p) := by
  obtain ⟨hku, -, heku, -⟩ := h.usage
  have hdefault : checkInt lib (exportFields lib p) "default_validity_days" 1 = .ok (some p.defaultValidityDays, []) := by
    refine checkInt_ofNum (by simp [Json.get, exportFields_eq, List.lookup_cons, Json.ofNum]) fun n hn => ?_
    rw [← Option.some.inj hn]
    exact h.default_pos
  have hmax : checkInt lib (exportFields lib p) "max_validity_days" 1 = .ok (p.maxValidityDays, []) :=
    checkInt_ofNum (by simp [Json.get, exportFields_eq, List.lookup_cons]) fun n hn =>
      h.default_pos.trans (h.default_le n hn)
  have hminRsa : checkInt lib (exportFields lib p) "min_rsa_bits" 1024 = .ok (p.minRsaBits, []) :=
    checkInt_ofNum (by simp [Json.get, exportFields_eq, List.lookup_cons]) h.min_rsa
  have hmaxRsa : checkInt lib (exportFields lib p) "max_rsa_bits" 1024 = .ok (p.maxRsaBits, []) :=
    checkInt_ofNum (by simp [Json.get, exportFields_eq, List.lookup_cons]) h.max_rsa
  have hdays : exceeds (some p.defaultValidityDays) p.maxValidityDays = false := by
    refine not_exceeds_of_le fun m n hm hn => ?_
    rw [← Option.some.inj hm]
    exact h.default_le n hn
  refine ⟨?_, ?_, ⟨_, _, hdefault, hmax, hdays⟩, ⟨_, _, hminRsa, hmaxRsa, not_exceeds_of_le h.rsa_le⟩, ?_, ?_, ?_, ?_, ?_⟩
  · simpa [Json.get, exportFields_eq, List.lookup_cons] using hku
  · simpa [Json.get, exportFields_eq, List.lookup_cons] using heku
  · simpa [Json.get, exportFields_eq, List.lookup_cons] using (h.keyTypes.load _).1
  · simpa [Json.get, exportFields_eq, List.lookup_cons] using (h.keyTypes.load "").2.2
  · simpa [Json.get, exportFields_eq, List.lookup_cons] using (h.ecSizes.load _).1
  · simpa [Json.get, exportFields_eq, List.lookup_cons] using (h.sanTypes.load _).1
  · simpa [Json.get, exportFields_eq, List.lookup_cons] using h.policies.load.1

theorem length_strip_le (t : Text) : (strip t).length ≤ t.length :=
  (List.rdropWhile_prefix _ _).length_le.trans (List.dropWhile_suffix _).length_le

theorem readFields_export (h : p.Sound lib) : readFields lib (exportFields lib p) = .ok p.reading := by
  obtain ⟨-, hku, -, heku⟩ := h.usage
  obtain ⟨sizes, hsizes, hsizesJson⟩ := (h.ecSizes.load "").2
  obtain ⟨parsed, hparsed, hparsedJson⟩ := h.policies.load.2
  have hname : stripped (Json.get (exportFields lib p) "name") = .ok p.name := by
    simp [Json.get, exportFields_eq, List.lookup_cons, stripped_str, h.name]
  have hdescription : stripped (Json.get (exportFields lib p) "description") =
      .ok (String.ofList (strip p.description.toList)) := by
    simp [Json.get, exportFields_eq, List.lookup_cons, stripped_str]
  have hdefault : optionalInt lib (exportFields lib p) "default_validity_days" = .ok (some p.defaultValidityDays) := by
    refine optionalInt_ofNum (by simp [Json.get, exportFields_eq, List.lookup_cons, Json.ofNum]) fun n hn => ?_
    have hpos := h.default_pos
    rw [← Option.some.inj hn]
    omega
  have hmax : optionalInt lib (exportFields lib p) "max_validity_days" = .ok p.maxValidityDays := by
    refine optionalInt_ofNum (by simp [Json.get, exportFields_eq, List.lookup_cons]) fun n hn => ?_
    have hpos := h.default_pos.trans (h.default_le n hn)
    omega
  have hminRsa : optionalInt lib (exportFields lib p) "min_rsa_bits" = .ok p.minRsaBits := by
    refine optionalInt_ofNum (by simp [Json.get, exportFields_eq, List.lookup_cons]) fun n hn => ?_
    have hpos := h.min_rsa n hn
    omega
  have hmaxRsa : optionalInt lib (exportFields lib p) "max_rsa_bits" = .ok p.maxRsaBits := by
    refine optionalInt_ofNum (by simp [Json.get, exportFields_eq, List.lookup_cons]) fun n hn => ?_
    have hpos := h.max_rsa n hn
    omega
  have hsizes' : sizesOf lib (Json.get (exportFields lib p) "allowed_ec_sizes") = .ok sizes := by
    simpa [Json.get, exportFields_eq, List.lookup_cons] using hsizes
  have hparsed' : policiesOf lib (Json.get (exportFields lib p) "certificate_policies") = .ok parsed := by
    simpa [Json.get, exportFields_eq, List.lookup_cons] using hparsed
  have hcap : p.maxValidityDays.any (fun n => n ≠ 0 && n < p.defaultValidityDays) = false := by
    cases hm : p.maxValidityDays with
    | none => rfl
    | some n =>
      have hle := h.default_le n hm
      simp [hle]
  have htake : (strip p.description.toList).take 500 = strip p.description.toList :=
    List.take_of_length_le ((length_strip_le _).trans h.description)
  unfold readFields
  rw [hname, hdescription, hmax, hdefault, hminRsa, hmaxRsa, hsizes', hparsed']
  simp only [bind, Except.bind, Option.getD_some, hcap, Bool.false_eq_true, if_false, String.toList_ofList, htake,
    hsizesJson, hparsedJson]
  simp [Json.get, exportFields_eq, List.lookup_cons, truthy, Profile.reading, hku, heku, (h.keyTypes.load "").2.1,
    (h.sanTypes.load "").2.1]

/-- **The export is written back** over a row with the same key. -/
theorem write_reading (h : p.Sound lib) (hkey : row.key = p.key)
    (hrow : row.isCustom = true → row.keyUsageJson = none ∧ row.extendedKeyUsageJson = none) :
    p.reading.write row = { p.trimmed with id := row.id, isBuiltin := row.isBuiltin } := by
  have hcustom : p.isCustom = row.isCustom := by simp [Profile.isCustom, hkey]
  cases hc : row.isCustom with
  | true =>
    obtain ⟨hku, heku⟩ := hrow hc
    obtain ⟨hku', heku'⟩ := h.custom (hcustom.trans hc)
    simp [Reading.write, Profile.reading, Profile.trimmed, hc, hkey, hku, heku, hku', heku']
  | false => simp [Reading.write, Profile.reading, Profile.trimmed, hc, hkey]

end Export

end Chancery.Profiles
